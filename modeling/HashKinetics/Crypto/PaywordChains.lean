import HashKinetics.Crypto.OneTimeKeys

/-!
# The two ends of a PayWord chain

The payer mints a chain of words and reveals them as it pays.  The merchant checks a revealed word
against the last one it accepted; the settlement on the chain hashes from the tip.  Since a word is
accepted only when hashing it forward lands on the last accepted one, which itself hashes to the
tip, what the merchant holds always settles.  The two checks are the same one when the link is
injective.
-/

namespace HashKinetics

variable {H : Type} [HashSuite H]

/-- A chain of words; the first one is the public tip. -/
structure PaywordChain (H : Type) where
  words : List H
  deriving DecidableEq

namespace PaywordChain

/-- Mint a chain of `n` payable steps; an empty chain and one too long for its counter are
refused. -/
def mint (seed channelContext : List UInt8) (n : ℕ) : Option (PaywordChain H) :=
  if 0 < n ∧ n + 1 < 2 ^ 32 then
    let last : H := shake256_32 DOM_PAYWORD_SEED [[.bytes seed], [.bytes channelContext], [.u32 n]]
    some ⟨(List.iterate Payword.link last (n + 1)).reverse⟩
  else none

/-- Reveal the word that pays up to a step. -/
def pay (c : PaywordChain H) (k : ℕ) : Option H := c.words[k]?

/-- The public tip. -/
def tip (c : PaywordChain H) : Option H := c.words.head?

def maxSteps (c : PaywordChain H) : ℕ := c.words.length - 1

/-- The words of a minted chain: each is linked from the next one. -/
structure Linked (c : PaywordChain H) (n : ℕ) (last : H) : Prop where
  length : c.words.length = n + 1
  pay : ∀ k ≤ n, c.pay k = some (Payword.link^[n - k] last)

lemma linked_of_mint {seed channelContext : List UInt8} {n : ℕ} {c : PaywordChain H}
    (h : mint seed channelContext n = some c) : ∃ last, c.Linked n last := by
  unfold mint at h
  split_ifs at h
  obtain rfl := Option.some.inj h
  refine ⟨shake256_32 DOM_PAYWORD_SEED [[.bytes seed], [.bytes channelContext], [.u32 n]], by simp,
    fun k hk => ?_⟩
  rw [pay, List.getElem?_reverse (by rw [List.length_iterate]; omega), List.length_iterate]
  rw [List.getElem?_iterate _ _ _ _ (by omega)]
  rw [show n + 1 - 1 - k = n - k by omega]

end PaywordChain

/-- What the merchant keeps: the last word it accepted and the step of that word. -/
structure PaywordVerifier (H : Type) where
  lastWord : H
  lastStep : ℕ
  maxSteps : ℕ

namespace PaywordVerifier

variable [DecidableEq H]

def new (tip : H) (maxSteps : ℕ) : PaywordVerifier H := ⟨tip, 0, maxSteps⟩

/-- Accept a payment up to a step: the number of steps newly paid, and what the merchant then
keeps. -/
def accept (v : PaywordVerifier H) (k : ℕ) (word : H) : Option (ℕ × PaywordVerifier H) :=
  if k ≤ v.lastStep ∨ v.maxSteps < k then none
  else if Payword.link^[k - v.lastStep] word ≠ v.lastWord then none
  else some (k - v.lastStep, { v with lastWord := word, lastStep := k })

/-- What is submitted to settle. -/
def settlementClaim (v : PaywordVerifier H) : H × ℕ := (v.lastWord, v.lastStep)

/-- A payment that is offered; a refused one changes nothing. -/
def offer (v : PaywordVerifier H) (payment : ℕ × H) : PaywordVerifier H :=
  ((v.accept payment.1 payment.2).map Prod.snd).getD v

/-- Payments one after the other, each of which has to be accepted. -/
def acceptAll (v : PaywordVerifier H) (payments : List (ℕ × H)) : Option (PaywordVerifier H) :=
  payments.foldlM (fun v payment => (v.accept payment.1 payment.2).map Prod.snd) v

/-- The merchant's word hashes to the tip in as many links as its step says. -/
def Settles (tip : H) (v : PaywordVerifier H) : Prop :=
  Payword.verifySettlement tip v.settlementClaim.1 v.settlementClaim.2 = true

variable {tip word : H} {v : PaywordVerifier H} {k maxSteps : ℕ}

lemma accept_eq_some {r : ℕ × PaywordVerifier H} : v.accept k word = some r ↔
    v.lastStep < k ∧ k ≤ v.maxSteps ∧ Payword.link^[k - v.lastStep] word = v.lastWord ∧
      r = (k - v.lastStep, { v with lastWord := word, lastStep := k }) := by
  unfold accept
  split_ifs with hstep hword
  · simp only [false_iff]
    omega
  · simp only [false_iff]
    exact fun h => hword h.2.2.1
  · rw [Option.some.injEq, eq_comm]
    have hbounds : v.lastStep < k ∧ k ≤ v.maxSteps := by omega
    simp [hbounds, not_not.mp hword]

lemma settles_iff : Settles tip v ↔ Payword.link^[v.lastStep] v.lastWord = tip := by
  unfold Settles Payword.verifySettlement settlementClaim
  exact decide_eq_true_iff

lemma settles_new (tip : H) (maxSteps : ℕ) : Settles tip (new tip maxSteps) :=
  settles_iff.mpr rfl

omit [DecidableEq H] in
/-- Hashing a word from its step to the tip goes through the step of an earlier word. -/
lemma iterate_link (hlt : v.lastStep ≤ k) (word : H) :
    Payword.link^[k] word = Payword.link^[v.lastStep] (Payword.link^[k - v.lastStep] word) := by
  rw [← Function.iterate_add_apply, Nat.add_sub_cancel' hlt]

/-- An accepted word settles like the one before it. -/
lemma Settles.accept {r : ℕ × PaywordVerifier H} (h : Settles tip v)
    (haccept : v.accept k word = some r) : Settles tip r.2 := by
  obtain ⟨hstep, -, hword, rfl⟩ := accept_eq_some.mp haccept
  rw [settles_iff] at h ⊢
  rw [iterate_link hstep.le, hword, h]

/-- The limit on the steps never changes. -/
lemma maxSteps_offer (v : PaywordVerifier H) (payment : ℕ × H) :
    (v.offer payment).maxSteps = v.maxSteps := by
  unfold offer
  cases haccept : v.accept payment.1 payment.2 with
  | none => rfl
  | some r =>
    obtain ⟨-, -, -, rfl⟩ := accept_eq_some.mp haccept
    rfl

lemma Settles.offer (h : Settles tip v) (payment : ℕ × H) : Settles tip (v.offer payment) := by
  unfold PaywordVerifier.offer
  cases haccept : v.accept payment.1 payment.2 with
  | none => exact h
  | some r => exact h.accept haccept

/-- What the merchant holds settles after every run of offers, under the same limit. -/
lemma Settles.offers (h : Settles tip v) (offers : List (ℕ × H)) :
    Settles tip (offers.foldl PaywordVerifier.offer v) ∧
      (offers.foldl PaywordVerifier.offer v).maxSteps = v.maxSteps := by
  induction offers generalizing v with
  | nil => exact ⟨h, rfl⟩
  | cons payment offers ih =>
    obtain ⟨hsettles, hmax⟩ := ih (h.offer payment)
    exact ⟨hsettles, hmax.trans (maxSteps_offer v payment)⟩

/-- With an injective link, the check against the last word is the check against the tip. -/
lemma Settles.accept_isSome (h : Settles tip v) (hlink : Function.Injective (Payword.link : H →
    H)) :
    (v.accept k word).isSome = true ↔
      v.lastStep < k ∧ k ≤ v.maxSteps ∧ Payword.verifySettlement tip word k = true := by
  rw [settles_iff] at h
  have hverify : Payword.verifySettlement tip word k = true ↔ Payword.link^[k] word = tip := by
    simp [Payword.verifySettlement]
  rw [Option.isSome_iff_exists, hverify]
  constructor
  · rintro ⟨r, hr⟩
    obtain ⟨hstep, hmax, hword, -⟩ := accept_eq_some.mp hr
    exact ⟨hstep, hmax, by rw [iterate_link hstep.le, hword, h]⟩
  · rintro ⟨hstep, hmax, hword⟩
    rw [iterate_link hstep.le, ← h] at hword
    exact ⟨_, accept_eq_some.mpr ⟨hstep, hmax, hlink.iterate v.lastStep hword, rfl⟩⟩

/-- Words of a minted chain, offered in increasing order of their steps, are all accepted. -/
lemma acceptAll_isSome {c : PaywordChain H} {n : ℕ} {last : H} (hc : c.Linked n last)
    (hlast : c.pay v.lastStep = some v.lastWord) {payments : List (ℕ × H)}
    (hwords : ∀ p ∈ payments, c.pay p.1 = some p.2 ∧ v.lastStep < p.1 ∧ p.1 ≤ v.maxSteps)
    (hsteps : payments.Pairwise fun p q => p.1 < q.1) : (v.acceptAll payments).isSome = true := by
  have hle : ∀ {j : ℕ} {w : H}, c.pay j = some w → j ≤ n := by
    intro j w hj
    have hlt : j < c.words.length := (List.getElem?_eq_some_iff.mp hj).1
    rw [hc.length] at hlt
    omega
  induction payments generalizing v with
  | nil => rfl
  | cons p payments ih =>
    obtain ⟨hfirst, hrest⟩ := List.pairwise_cons.mp hsteps
    obtain ⟨hpay, hstep, hmax⟩ := hwords p List.mem_cons_self
    have hword : Payword.link^[p.1 - v.lastStep] p.2 = v.lastWord := by
      have hp := hle hpay
      have hpay := (hc.pay p.1 hp).symm.trans hpay
      have hprev := (hc.pay v.lastStep (hle hlast)).symm.trans hlast
      rw [← Option.some.inj hpay, ← Option.some.inj hprev, ← Function.iterate_add_apply]
      rw [show p.1 - v.lastStep + (n - p.1) = n - v.lastStep by omega]
    have haccept := accept_eq_some.mpr ⟨hstep, hmax, hword, rfl⟩
    rw [acceptAll, List.foldlM_cons, haccept]
    exact ih hpay (fun q hq => ⟨(hwords q (List.mem_cons_of_mem p hq)).1, hfirst q hq,
      (hwords q (List.mem_cons_of_mem p hq)).2.2⟩) hrest

/-- What the merchant has accepted always settles; with an injective link it accepts what the chain
would, as long as the step advances within the limit; and it accepts the words of an honest payer in
any increasing order of their steps. -/
theorem merchant_agrees (tip : H) (maxSteps : ℕ) (offers : List (ℕ × H)) :
    Settles tip (offers.foldl offer (new tip maxSteps)) ∧
      (Function.Injective (Payword.link : H → H) → ∀ k word,
        ((offers.foldl offer (new tip maxSteps)).accept k word).isSome = true ↔
          (offers.foldl offer (new tip maxSteps)).lastStep < k ∧ k ≤ maxSteps ∧
            Payword.verifySettlement tip word k = true) ∧
      ∀ (seed channelContext : List UInt8) (n : ℕ) (c : PaywordChain H),
        PaywordChain.mint seed channelContext n = some c → c.tip = some tip →
        ∀ payments : List (ℕ × H),
          (∀ p ∈ payments, c.pay p.1 = some p.2 ∧ 0 < p.1 ∧ p.1 ≤ maxSteps) →
          payments.Pairwise (fun p q => p.1 < q.1) →
          ((new tip maxSteps).acceptAll payments).isSome = true := by
  obtain ⟨hsettles, hmax⟩ := (settles_new tip maxSteps).offers offers
  refine ⟨hsettles, fun hlink k word => ?_, ?_⟩
  · rw [hsettles.accept_isSome hlink, hmax]
    rfl
  · intro seed channelContext n c hmint htip payments hwords hsteps
    obtain ⟨last, hlinked⟩ := PaywordChain.linked_of_mint hmint
    refine acceptAll_isSome hlinked ?_ hwords hsteps
    rw [PaywordChain.tip, List.head?_eq_getElem?] at htip
    exact htip

end PaywordVerifier

namespace Concrete

/-- Digests under a link that counts. -/
structure Tally where
  count : ℕ
  deriving DecidableEq

instance : HashSuite Tally where
  shake256_32 dom parts :=
    match parts with
    | [[.digest w]] => ⟨w.count + 1⟩
    | _ => ⟨dom.length⟩
  sha parts := ⟨parts.length⟩
  fill b := ⟨b.toNat⟩
  byteAt h i := UInt8.ofNat (h.count / 256 ^ i)

lemma injective_link_tally : Function.Injective (Payword.link : Tally → Tally) := by
  rintro ⟨a⟩ ⟨b⟩ h
  exact congrArg Tally.mk (Nat.succ.inj (congrArg Tally.count h))

/-- A chain that is longer than the limit of the merchant: its next word settles, and is refused. -/
theorem beyondLimit_refused : Function.Injective (Payword.link : Tally → Tally) ∧
    ¬ (((PaywordVerifier.new (⟨9⟩ : Tally) 1).accept 2 ⟨7⟩).isSome = true ↔
      (PaywordVerifier.new (⟨9⟩ : Tally) 1).lastStep < 2 ∧
        Payword.verifySettlement (⟨9⟩ : Tally) ⟨7⟩ 2 = true) :=
  ⟨injective_link_tally, by decide⟩

/-- A chain of three steps, of which the second is offered first, then the first one, and a wrong
word. -/
theorem tally_agrees :
    PaywordVerifier.Settles (⟨21⟩ : Tally)
        ([(2, ⟨19⟩), (1, ⟨20⟩), (3, ⟨0⟩)].foldl PaywordVerifier.offer (.new ⟨21⟩ 3)) ∧
      (([(2, ⟨19⟩), (1, ⟨20⟩), (3, ⟨0⟩)].foldl PaywordVerifier.offer
        (.new (⟨21⟩ : Tally) 3)).accept 3 ⟨18⟩).isSome = true ∧
      ((PaywordVerifier.new (⟨21⟩ : Tally) 3).acceptAll [(1, ⟨20⟩), (3, ⟨18⟩)]).isSome = true := by
  obtain ⟨hsettles, haccept, hhonest⟩ :=
    PaywordVerifier.merchant_agrees (⟨21⟩ : Tally) 3 [(2, ⟨19⟩), (1, ⟨20⟩), (3, ⟨0⟩)]
  refine ⟨hsettles, (haccept injective_link_tally 3 ⟨18⟩).mpr (by decide), ?_⟩
  refine hhonest [] [] 3 ⟨[⟨21⟩, ⟨20⟩, ⟨19⟩, ⟨18⟩]⟩ (by decide +kernel) rfl _ ?_ (by decide)
  simp [PaywordChain.pay]

end Concrete

end HashKinetics
