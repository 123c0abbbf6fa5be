import HashKinetics.Foundations.Hex
import HashKinetics.Foundations.OrderedMap
import HashKinetics.Foundations.Transition

/-!
# The limits of the faucet

A drip is stamped before it is sent: the address waits out its cooldown and the day's counter goes
up.  A drip that fails takes its stamp back, in two steps under two locks.  The threads of a faucet,
the node and the chain take turns in any order; the ledger of one day and the last stamp of an
address are all that the next request is judged by.
-/

namespace HashKinetics

open Foundations

namespace Faucet

/-! ## The stamps -/

/-- The settings that the limits read. -/
structure FaucetCfg where
  asset : List UInt8
  cooldown : ℕ
  dailyCap : ℕ

/-- What the threads of a faucet share: the last drip of each address, the day with its count, and
the next nonce of the wallet. -/
structure FaucetState where
  lastDrip : OrderedMap String ℕ
  daily : ℕ × ℕ
  nextNonce : ℕ

/-- The bound on the cooldown map. -/
def COOLDOWN_MAP_MAX : ℕ := 100000

/-- The key of a drip: the address, and the head of the asset unless it is the native one. -/
def dripKey (cfg : FaucetCfg) (ip : String) (asset : List UInt8) : String :=
  if asset = cfg.asset then ip else ip ++ "|" ++ hexEncode (asset.take 4)

/-- Why a request is not stamped. -/
inductive Refusal where
  | dailyCap
  | cooldown (retryAfterSecs : ℕ)
  deriving DecidableEq

namespace FaucetState

/-- The counter starts over on another day. -/
def onDay (f : FaucetState) (now : ℕ) : FaucetState :=
  if f.daily.1 ≠ now / 86400 then { f with daily := (now / 86400, 0) } else f

/-- How long an address still has to wait. -/
def waits (cfg : FaucetCfg) (f : FaucetState) (key : String) (now : ℕ) : Option ℕ :=
  match f.lastDrip[key]? with
  | some t => if now - t < cfg.cooldown then some (cfg.cooldown - (now - t)) else none
  | none => none

/-- The cooldown map without what is over, once it is large. -/
def pruned (cfg : FaucetCfg) (f : FaucetState) (now : ℕ) : OrderedMap String ℕ :=
  if COOLDOWN_MAP_MAX ≤ f.lastDrip.size then
    f.lastDrip.filter fun _ t => decide (now - t < cfg.cooldown)
  else f.lastDrip

/-- Check both limits and stamp both, under both locks. -/
def stamp (cfg : FaucetCfg) (f : FaucetState) (key : String)
    (now : ℕ) : Option Refusal × FaucetState :=
  let f := f.onDay now
  if cfg.dailyCap ≤ f.daily.2 then (some .dailyCap, f)
  else
    match f.waits cfg key now with
    | some wait => (some (.cooldown wait), f)
    | none =>
      (none, { f with lastDrip := (f.pruned cfg now).insert key now
                      daily := (f.daily.1, f.daily.2 + 1) })

/-- The first half of `undo_stamp`. -/
def forget (f : FaucetState) (key : String) : FaucetState :=
  { f with lastDrip := f.lastDrip.erase key }

/-- The second half of `undo_stamp`. -/
def refund (f : FaucetState) : FaucetState :=
  { f with daily := (f.daily.1, f.daily.2 - 1) }

end FaucetState

/-! ## Requests and the world around them -/

/-- Where the thread of a stamped request is. -/
inductive Phase where
  | checking
  | submitting
  | polling
  | forgetting
  | refunding
  | undone
  | answered
  deriving DecidableEq

/-- A stamped request.  `node` is the node's verdict on its transaction, `outcome` that of the
chain. -/
structure Request where
  ip : String
  asset : List UInt8
  start : ℕ
  phase : Phase
  nonce : Option ℕ
  node : Option Bool
  outcome : Option Bool

namespace Request

def key (cfg : FaucetCfg) (r : Request) : String := dripKey cfg r.ip r.asset

/-- The UTC day on which the request started. -/
def day (r : Request) : ℕ := r.start / 86400

/-- The drip succeeded on chain. -/
def landed (r : Request) : Prop := r.outcome = some true

instance (r : Request) : Decidable r.landed := inferInstanceAs (Decidable (_ = _))

/-- The request has not taken back its cooldown. -/
def standing (r : Request) : Prop := r.phase ≠ .refunding ∧ r.phase ≠ .undone

instance (r : Request) : Decidable r.standing := inferInstanceAs (Decidable (_ ∧ _))

/-- The request has not taken back its place in the day's count. -/
def counted (r : Request) : Prop := r.phase ≠ .undone

instance (r : Request) : Decidable r.counted := inferInstanceAs (Decidable (_ ≠ _))

lemma standing.counted {r : Request} (h : r.standing) : r.counted := h.2

end Request

/-- The faucet, the threads of its requests, the holder of the wallet's lock, and the nonce of the
faucet's account on chain.  `barred` is a history of the cooldown map: until when the stamps that it
has dropped kept their address waiting. -/
structure World where
  faucet : FaucetState
  signer : Option ℕ
  requests : List Request
  chainNonce : ℕ
  barred : String → ℕ

/-- A faucet that starts at the nonce of its account with the cooldowns of its file. -/
def World.init (cooldowns : OrderedMap String ℕ) (nonce : ℕ) : World :=
  { faucet := ⟨cooldowns, (0, 0), nonce⟩, signer := none, requests := [], chainNonce := nonce
    barred := fun _ => 0 }

/-- What a thread, the node or the chain does next about a stamped request. -/
inductive Act where
  /-- The body, the target or the balance stands against the drip. -/
  | refuse
  /-- Take the wallet's lock, sign, and save the nonce. -/
  | sign (persisted : Bool)
  /-- The transaction reaches the node. -/
  | arrive (accepted : Bool)
  /-- The node's answer comes back. -/
  | answer
  /-- No transaction id comes back, whatever became of the transaction. -/
  | fail
  /-- A block includes the transaction and it succeeds. -/
  | land
  /-- A block includes the transaction and it is refused. -/
  | reject
  /-- A receipt is found. -/
  | receipt
  /-- No receipt is found in time. -/
  | giveUp
  /-- The first half of `undo_stamp`. -/
  | forget
  /-- The second half of `undo_stamp`. -/
  | refund
  deriving DecidableEq

/-- A step of the world: a request comes to the limits, or something happens about a stamped one. -/
inductive Event where
  | start (ip : String) (asset : List UInt8) (now : ℕ)
  | act (i : ℕ) (a : Act)

namespace World

/-- What becomes of the request, where the step can be taken. -/
def advance (w : World) (r : Request) : Act → Option Request
  | .refuse => if r.phase = .checking then some { r with phase := .forgetting } else none
  | .sign persisted =>
    if r.phase = .checking ∧ w.signer = none then
      if persisted then some { r with phase := .submitting, nonce := some w.faucet.nextNonce }
      else some { r with phase := .forgetting }
    else none
  | .arrive accepted =>
    if r.nonce.isSome ∧ r.node = none then some { r with node := some accepted } else none
  | .answer =>
    if r.phase = .submitting ∧ r.node = some true then some { r with phase := .polling } else none
  | .fail => if r.phase = .submitting then some { r with phase := .forgetting } else none
  | .land =>
    if r.node = some true ∧ r.outcome ≠ some true ∧ r.nonce = some w.chainNonce then
      some { r with outcome := some true }
    else none
  | .reject =>
    if r.node = some true ∧ r.outcome = none then some { r with outcome := some false } else none
  | .receipt =>
    if r.phase = .polling then
      match r.outcome with
      | some true => some { r with phase := .answered }
      | some false => if w.signer = none then some { r with phase := .forgetting } else none
      | none => none
    else none
  | .giveUp => if r.phase = .polling then some { r with phase := .answered } else none
  | .forget => if r.phase = .forgetting then some { r with phase := .refunding } else none
  | .refund => if r.phase = .refunding then some { r with phase := .undone } else none

/-- What the step does to what is shared.  The wallet's lock is held from the signature to the
answer, and through `undo_stamp` when the transaction failed. -/
def effect (cfg : FaucetCfg) (w : World) (i : ℕ) (r : Request) : Act → World
  | .refuse => w
  | .sign persisted =>
    if persisted then
      { w with signer := some i, faucet := { w.faucet with nextNonce := w.faucet.nextNonce + 1 } }
    else { w with signer := some i }
  | .arrive _ => w
  | .answer => { w with signer := none }
  | .fail => { w with faucet := { w.faucet with nextNonce := w.faucet.nextNonce - 1 } }
  | .land => { w with chainNonce := w.chainNonce + 1 }
  | .reject => w
  | .receipt =>
    if r.outcome = some false then
      { w with signer := some i, faucet := { w.faucet with nextNonce := w.faucet.nextNonce - 1 } }
    else w
  | .giveUp => w
  | .forget =>
    { w with faucet := w.faucet.forget (r.key cfg)
             barred := Function.update w.barred (r.key cfg)
               (max (w.barred (r.key cfg)) (w.faucet.lastDrip[r.key cfg]?.getD 0)) }
  | .refund =>
    { w with faucet := w.faucet.refund, signer := if w.signer = some i then none else w.signer }

/-- The dropped stamps after the cooldown map is pruned. -/
def barredAfter (cfg : FaucetCfg) (w : World) (now : ℕ) (key : String) : ℕ :=
  match w.faucet.lastDrip[key]?, (w.faucet.pruned cfg now)[key]? with
  | some t, none => max (w.barred key) (t + cfg.cooldown)
  | _, _ => w.barred key

/-- A request comes to the limits: it is answered at once, or it is stamped and goes on. -/
def start (cfg : FaucetCfg) (w : World) (ip : String) (asset : List UInt8) (now : ℕ) : World :=
  match w.faucet.stamp cfg (dripKey cfg ip asset) now with
  | (some _, f) => { w with faucet := f }
  | (none, f) =>
    { w with faucet := f, barred := w.barredAfter cfg now
             requests := w.requests ++ [⟨ip, asset, now, .checking, none, none, none⟩] }

/-- The next state of the world, where the step can be taken. -/
def step (cfg : FaucetCfg) (w : World) : Event → Option World
  | .start ip asset now => some (w.start cfg ip asset now)
  | .act i a =>
    match w.requests[i]? with
    | none => none
    | some r => (w.advance r a).map fun r' =>
        { w.effect cfg i r a with requests := w.requests.set i r' }

end World

/-! ## The two limits -/

/-- Of the drips for one address and asset, those that succeeded started a cooldown apart. -/
def CooldownHolds (cfg : FaucetCfg) (w : World) : Prop :=
  w.requests.Pairwise fun r r' => r.landed → r'.landed → r.ip = r'.ip → r.asset = r'.asset →
    r.start + cfg.cooldown ≤ r'.start ∨ r'.start + cfg.cooldown ≤ r.start

/-- Of the drips that started on one day, no more succeeded than the cap. -/
def CapHolds (cfg : FaucetCfg) (w : World) : Prop :=
  ∀ day, w.requests.countP (fun r => decide (r.landed ∧ r.day = day)) ≤ cfg.dailyCap

/-- The step does not touch a stamp that another request relies on, nor one of a drip that succeeds.
A request comes with a reading of the clock that the counter and the dropped stamps are not ahead
of; an undo finds its own stamp, in the count of its own day, and belongs to a drip that has not
succeeded; and what succeeds has not been undone. -/
def Undisturbed (cfg : FaucetCfg) (w : World) : Event → Prop
  | .start ip asset now => w.faucet.daily.1 ≤ now / 86400 ∧ w.barred (dripKey cfg ip asset) ≤ now
  | .act i .forget => ∀ r ∈ w.requests[i]?, ¬ r.landed ∧
      ∀ t ∈ w.faucet.lastDrip[r.key cfg]?, t = r.start
  | .act i .refund => ∀ r ∈ w.requests[i]?, ¬ r.landed ∧
      (w.faucet.daily.1 = r.day ∨ w.faucet.daily.2 = 0)
  | .act i .land => ∀ r ∈ w.requests[i]?, r.standing
  | .act _ _ => True

instance (cfg : FaucetCfg) (w : World) : ∀ e, Decidable (Undisturbed cfg w e)
  | .start _ _ _ => inferInstanceAs (Decidable (_ ∧ _))
  | .act i .forget => inferInstanceAs (Decidable (∀ r ∈ w.requests[i]?, _))
  | .act i .refund => inferInstanceAs (Decidable (∀ r ∈ w.requests[i]?, _))
  | .act i .land => inferInstanceAs (Decidable (∀ r ∈ w.requests[i]?, _))
  | .act _ .refuse | .act _ (.sign _) | .act _ (.arrive _) | .act _ .answer | .act _ .fail
  | .act _ .reject | .act _ .receipt | .act _ .giveUp => .isTrue trivial

/-! ## What a step can do -/

section Steps

variable {cfg : FaucetCfg} {w w' : World} {r r' : Request} {a : Act} {i : ℕ}

@[simp] lemma FaucetState.onDay_lastDrip (f : FaucetState) (now : ℕ) :
    (f.onDay now).lastDrip = f.lastDrip := by
  rw [onDay]
  split <;> rfl

/-- The day of the counter is that of the last request. -/
@[simp] lemma FaucetState.onDay_day (f : FaucetState) (now : ℕ) :
    (f.onDay now).daily.1 = now / 86400 := by
  rw [onDay]
  split
  next => rfl
  next h => exact not_not.mp h

/-- A request is answered at once and moves the counter to its day at most, or neither limit bars it
and it is stamped. -/
lemma World.start_cases (cfg : FaucetCfg) (w : World) (ip : String) (asset : List UInt8) (now : ℕ) :
    w.start cfg ip asset now = { w with faucet := w.faucet.onDay now } ∨
    ((w.faucet.onDay now).daily.2 < cfg.dailyCap ∧
      w.faucet.waits cfg (dripKey cfg ip asset) now = none ∧
      w.start cfg ip asset now =
        { w with
          faucet := { w.faucet.onDay now with
                      lastDrip := (w.faucet.pruned cfg now).insert (dripKey cfg ip asset) now
                      daily := (now / 86400, (w.faucet.onDay now).daily.2 + 1) }
          barred := w.barredAfter cfg now
          requests := w.requests ++ [⟨ip, asset, now, .checking, none, none, none⟩] }) := by
  have hwaits : (w.faucet.onDay now).waits cfg (dripKey cfg ip asset) now =
      w.faucet.waits cfg (dripKey cfg ip asset) now := by
    simp [FaucetState.waits]
  have hpruned : (w.faucet.onDay now).pruned cfg now = w.faucet.pruned cfg now := by
    simp [FaucetState.pruned]
  rw [World.start, FaucetState.stamp]
  simp only [hwaits, hpruned, FaucetState.onDay_day]
  by_cases hcap : cfg.dailyCap ≤ (w.faucet.onDay now).daily.2
  · left
    simp only [hcap, if_true]
  · simp only [hcap, if_false]
    cases hw : w.faucet.waits cfg (dripKey cfg ip asset) now with
    | some wait => exact .inl rfl
    | none => exact .inr ⟨not_le.mp hcap, rfl, rfl⟩

/-- A step leaves a request its address, its asset and its time. -/
structure Request.SameAs (r r' : Request) : Prop where
  ip : r'.ip = r.ip
  asset : r'.asset = r.asset
  start : r'.start = r.start

lemma Request.SameAs.key (h : r.SameAs r') : r'.key cfg = r.key cfg := by
  rw [Request.key, Request.key, h.ip, h.asset]

lemma Request.SameAs.day (h : r.SameAs r') : r'.day = r.day := by
  rw [Request.day, Request.day, h.start]

/-- Only the two halves of `undo_stamp` take a stamp back, each its own part, and only the chain
lets a drip succeed. -/
lemma World.advance_cases (h : w.advance r a = some r') :
    r.SameAs r' ∧
    ((a ≠ .refund ∧ (r'.counted ↔ r.counted)) ∨ (a = .refund ∧ r.counted ∧ ¬ r'.counted)) ∧
    ((a ≠ .forget ∧ (r'.standing ↔ r.standing)) ∨ (a = .forget ∧ r.standing ∧ ¬ r'.standing)) ∧
    ((a ≠ .land ∧ (r'.landed → r.landed)) ∨ (a = .land ∧ r'.phase = r.phase)) := by
  cases a with
  | sign persisted =>
    simp only [World.advance] at h
    split_ifs at h with hp <;> cases h <;> refine ⟨⟨rfl, rfl, rfl⟩, ?_⟩ <;>
      simp [Request.counted, Request.standing, Request.landed, hp]
  | receipt =>
    simp only [World.advance] at h
    cases ho : r.outcome with
    | none => simp [ho] at h
    | some ok =>
      cases ok <;> simp only [ho] at h <;> split_ifs at h with hp <;> cases h <;>
        refine ⟨⟨rfl, rfl, rfl⟩, ?_⟩ <;>
        simp [Request.counted, Request.standing, Request.landed, hp, ho]
  | _ =>
    simp only [World.advance] at h
    split_ifs at h with hp
    cases h
    refine ⟨⟨rfl, rfl, rfl⟩, ?_⟩
    simp [Request.counted, Request.standing, Request.landed, hp]

/-- A step about a request replaces it by one that is the same but for its progress. -/
lemma World.step_act (h : w.step cfg (.act i a) = some w') :
    ∃ r r', w.requests[i]? = some r ∧ w.advance r a = some r' ∧
      w' = { w.effect cfg i r a with requests := w.requests.set i r' } := by
  rw [World.step] at h
  cases hr : w.requests[i]? with
  | none =>
    rw [hr] at h
    cases h
  | some r =>
    rw [hr] at h
    obtain ⟨r', hadv, rfl⟩ := Option.map_eq_some_iff.mp h
    exact ⟨r, r', rfl, hadv, rfl⟩

lemma World.effect_daily (cfg : FaucetCfg) (w : World) (i : ℕ) (r : Request)
    (h : a ≠ .refund) : (w.effect cfg i r a).faucet.daily = w.faucet.daily := by
  cases a with
  | refund => exact absurd rfl h
  | sign persisted => cases persisted <;> rfl
  | receipt =>
    rw [World.effect]
    split_ifs <;> rfl
  | _ => rfl

lemma World.effect_lastDrip (cfg : FaucetCfg) (w : World) (i : ℕ) (r : Request) (h : a ≠ .forget) :
    (w.effect cfg i r a).faucet.lastDrip = w.faucet.lastDrip ∧
      (w.effect cfg i r a).barred = w.barred := by
  cases a with
  | forget => exact absurd rfl h
  | sign persisted => cases persisted <;> exact ⟨rfl, rfl⟩
  | receipt =>
    rw [World.effect]
    split_ifs <;> exact ⟨rfl, rfl⟩
  | _ => exact ⟨rfl, rfl⟩

end Steps

/-! ## A drip that succeeds has kept its stamp -/

section Landed

variable {cfg : FaucetCfg} {w w' : World} {e : Event}

/-- What has succeeded has not been undone. -/
def LandedStands (w : World) : Prop := ∀ r ∈ w.requests, r.landed → r.standing

lemma LandedStands.step (h : LandedStands w) (hfree : Undisturbed cfg w e)
    (hstep : w.step cfg e = some w') : LandedStands w' := by
  cases e with
  | start ip asset now =>
    cases hstep
    rcases w.start_cases cfg ip asset now with heq | ⟨-, -, heq⟩
    · rw [heq]
      exact h
    · rw [heq]
      intro r hr hlanded
      rcases List.mem_append.mp hr with hr | hr
      · exact h r hr hlanded
      · obtain rfl := List.mem_singleton.mp hr
        cases hlanded
  | act i a =>
    obtain ⟨r, r', hr, hadv, rfl⟩ := World.step_act hstep
    obtain ⟨-, -, hstand, hland⟩ := World.advance_cases hadv
    intro q hq hlanded
    rcases List.mem_or_eq_of_mem_set hq with hq | rfl
    · exact h q hq hlanded
    have hr' := h r (List.mem_of_getElem? hr)
    rcases hstand with ⟨-, hstand⟩ | ⟨rfl, -, -⟩
    · rw [hstand]
      rcases hland with ⟨-, hback⟩ | ⟨rfl, -⟩
      · exact hr' (hback hlanded)
      · exact hfree r hr
    · rcases hland with ⟨-, hback⟩ | ⟨hne, -⟩
      · exact absurd (hback hlanded) (hfree r hr).1
      · cases hne

end Landed

/-! ## The daily cap -/

section Cap

variable {cfg : FaucetCfg} {w w' : World} {e : Event}

/-- The drips of a day that have a place in its count. -/
def World.countOn (w : World) (day : ℕ) : ℕ :=
  w.requests.countP fun r => decide (r.counted ∧ r.day = day)

/-- The counter is on the last day, has room for all that is counted there, and no day is over the
cap. -/
structure Counts (cfg : FaucetCfg) (w : World) : Prop where
  today : w.countOn w.faucet.daily.1 ≤ w.faucet.daily.2
  later : ∀ day, w.faucet.daily.1 < day → w.countOn day = 0
  le_cap : ∀ day, w.countOn day ≤ cfg.dailyCap

/-- A new day starts with nothing counted. -/
lemma Counts.onDay (h : Counts cfg w) {now : ℕ} (hday : w.faucet.daily.1 ≤ now / 86400) :
    Counts cfg { w with faucet := w.faucet.onDay now } := by
  refine ⟨?_, fun day hlt => ?_, h.le_cap⟩
  · change w.countOn (w.faucet.onDay now).daily.1 ≤ (w.faucet.onDay now).daily.2
    rw [FaucetState.onDay_day]
    rcases hday.eq_or_lt with heq | hlt
    · have hsame : w.faucet.onDay now = w.faucet := by
        rw [FaucetState.onDay, if_neg (not_not.mpr heq)]
      rw [hsame, ← heq]
      exact h.today
    · rw [h.later _ hlt]
      exact Nat.zero_le _
  · refine h.later day (hday.trans_lt ?_)
    simpa using hlt

/-- The count of a day after a request has moved. -/
lemma World.countOn_set {i : ℕ} {r r' : Request} (hr : w.requests[i]? = some r)
    (hset : w'.requests = w.requests.set i r') (hsame : r.SameAs r')
    (hback : r'.counted → r.counted) (day : ℕ) :
    w'.countOn day + (if r.day = day ∧ r.counted ∧ ¬ r'.counted then 1 else 0) = w.countOn day := by
  obtain ⟨hi, rfl⟩ := List.getElem?_eq_some_iff.mp hr
  have hpos : w.requests[i].counted ∧ w.requests[i].day = day → 0 < w.countOn day := fun h =>
    List.countP_pos_iff.mpr ⟨_, List.getElem_mem hi, decide_eq_true h⟩
  have hcount : w'.countOn day =
      w.countOn day - (if w.requests[i].counted ∧ w.requests[i].day = day then 1 else 0) +
        if r'.counted ∧ w.requests[i].day = day then 1 else 0 := by
    rw [World.countOn, hset, List.countP_set hi]
    simp only [hsame.day, decide_eq_true_eq]
    rfl
  rw [hcount]
  by_cases hd : w.requests[i].day = day
  · by_cases hc : w.requests[i].counted
    · have hlt := hpos ⟨hc, hd⟩
      by_cases hc' : r'.counted
      · simp only [hd, hc, hc', not_true_eq_false, and_self, and_false, if_true, if_false]
        omega
      · simp only [hd, hc, hc', not_false_eq_true, and_self, false_and, if_true, if_false]
        omega
    · simp only [hc, mt hback hc, false_and, and_false, if_false]
      rfl
  · simp only [hd, false_and, and_false, if_false]
    rfl

/-- A stamped request takes a place in the count of its day. -/
lemma Counts.stamped (h : Counts cfg w) {f : FaucetState} {barred : String → ℕ} {r : Request}
    (hday : w.faucet.daily.1 = r.day) (hroom : w.faucet.daily.2 < cfg.dailyCap)
    (hf : f.daily = (r.day, w.faucet.daily.2 + 1)) :
    Counts cfg { w with faucet := f, barred := barred, requests := w.requests ++ [r] } := by
  have hcount : ∀ day, World.countOn
      { w with faucet := f, barred := barred, requests := w.requests ++ [r] } day =
        w.countOn day + if r.counted ∧ r.day = day then 1 else 0 := by
    intro day
    simp [World.countOn, List.countP_append, List.countP_singleton]
  have htoday : w.countOn r.day ≤ w.faucet.daily.2 := hday ▸ h.today
  refine ⟨?_, fun day hlt => ?_, fun day => ?_⟩
  · rw [hcount]
    simp only [hf]
    split_ifs <;> omega
  · simp only [hf] at hlt
    rw [hcount, h.later day (hday ▸ hlt), if_neg fun hr => hlt.ne hr.2]
  · have hle := h.le_cap day
    rw [hcount]
    split_ifs with hr
    · rw [← hr.2]
      omega
    · exact hle

/-- A step that leaves the counter alone and counts no more than before. -/
lemma Counts.of_le (h : Counts cfg w) (hdaily : w'.faucet.daily = w.faucet.daily)
    (hle : ∀ day, w'.countOn day ≤ w.countOn day) : Counts cfg w' := by
  refine ⟨?_, fun day hlt => ?_, fun day => (hle day).trans (h.le_cap day)⟩
  · rw [hdaily]
    exact (hle _).trans h.today
  · rw [hdaily] at hlt
    exact Nat.le_zero.mp ((hle day).trans (h.later day hlt).le)

lemma Counts.step (h : Counts cfg w) (hfree : Undisturbed cfg w e)
    (hstep : w.step cfg e = some w') : Counts cfg w' := by
  cases e with
  | start ip asset now =>
    cases hstep
    have honDay := h.onDay hfree.1
    rcases w.start_cases cfg ip asset now with heq | ⟨hroom, -, heq⟩
    · rw [heq]
      exact honDay
    · rw [heq]
      exact honDay.stamped (w.faucet.onDay_day now) hroom rfl
  | act i a =>
    obtain ⟨r, r', hr, hadv, hw'⟩ := World.step_act hstep
    obtain ⟨hsame, hcounted, -, -⟩ := World.advance_cases hadv
    have hback : r'.counted → r.counted := by
      rcases hcounted with ⟨-, hiff⟩ | ⟨-, hc, -⟩
      · exact hiff.mp
      · exact fun _ => hc
    have hset : w'.requests = w.requests.set i r' := by rw [hw']
    have hmoved := World.countOn_set hr hset hsame hback
    have hle : ∀ day, w'.countOn day ≤ w.countOn day := fun day => by
      rw [← hmoved day]
      exact Nat.le_add_right _ _
    by_cases ha : a = .refund
    · subst ha
      obtain ⟨-, hc, hc'⟩ := hcounted.resolve_left fun h => h.1 rfl
      obtain ⟨-, hown⟩ := hfree r hr
      have hdaily : w'.faucet.daily = (w.faucet.daily.1, w.faucet.daily.2 - 1) := by
        rw [hw']
        rfl
      refine ⟨?_, fun day hlt => ?_, fun day => (hle day).trans (h.le_cap day)⟩
      · rw [hdaily]
        change w'.countOn w.faucet.daily.1 ≤ w.faucet.daily.2 - 1
        have htoday := h.today
        have hday := hmoved w.faucet.daily.1
        rcases hown with hown | hzero
        · rw [if_pos ⟨hown.symm, hc, hc'⟩] at hday
          omega
        · have hday' := hle w.faucet.daily.1
          omega
      · rw [hdaily] at hlt
        exact Nat.le_zero.mp ((hle day).trans (h.later day hlt).le)
    · refine h.of_le ?_ hle
      rw [hw']
      exact World.effect_daily cfg w i r ha

end Cap

/-! ## The cooldown -/

section Cooldown

variable {cfg : FaucetCfg} {w w' : World} {e : Event}

/-- A stamp made at `start` is covered by the entry of its key, or its cooldown was over by the time
up to which the dropped entries of the key count. -/
def Covered (cfg : FaucetCfg) (lastDrip : OrderedMap String ℕ) (barred : String → ℕ) (key : String)
    (start : ℕ) : Prop :=
  (∃ t ∈ lastDrip[key]?, start ≤ t) ∨ start + cfg.cooldown ≤ barred key

/-- The requests whose stamps stand are a cooldown apart, address by address, and all of them are
covered. -/
structure Spaced (cfg : FaucetCfg) (w : World) : Prop where
  apart : ∀ (i j : ℕ) (r s : Request), i ≠ j → w.requests[i]? = some r → w.requests[j]? = some s →
    r.standing → s.standing → r.key cfg = s.key cfg →
    r.start + cfg.cooldown ≤ s.start ∨ s.start + cfg.cooldown ≤ r.start
  covered : ∀ r ∈ w.requests, r.standing →
    Covered cfg w.faucet.lastDrip w.barred (r.key cfg) r.start

/-- An address that need not wait has waited out the cooldown of every stamp that is covered. -/
lemma Covered.waited {key : String} {start now : ℕ}
    (h : Covered cfg w.faucet.lastDrip w.barred key start) (hcool : 0 < cfg.cooldown)
    (hwaits : w.faucet.waits cfg key now = none) (hbarred : w.barred key ≤ now) :
    start + cfg.cooldown ≤ now := by
  rcases h with ⟨t, ht, hle⟩ | hle
  · rw [FaucetState.waits, Option.mem_def.mp ht] at hwaits
    simp only [ite_eq_right_iff, reduceCtorEq, imp_false, not_lt] at hwaits
    omega
  · exact hle.trans hbarred

/-- Pruning the map leaves every stamp covered. -/
lemma Covered.pruned {key : String} {start : ℕ} (now : ℕ)
    (h : Covered cfg w.faucet.lastDrip w.barred key start) :
    Covered cfg (w.faucet.pruned cfg now) (w.barredAfter cfg now) key start := by
  have hsub : ∀ t ∈ (w.faucet.pruned cfg now)[key]?, w.faucet.lastDrip[key]? = some t := by
    intro t ht
    rw [FaucetState.pruned] at ht
    split at ht
    · rw [OrderedMap.get_filter] at ht
      exact (Option.filter_eq_some_iff.mp ht).1
    · exact ht
  have hbarred : w.barred key ≤ w.barredAfter cfg now key := by
    rw [World.barredAfter]
    split
    · exact le_max_left _ _
    · exact le_rfl
  rcases h with ⟨t, ht, hle⟩ | hle
  · cases hp : (w.faucet.pruned cfg now)[key]? with
    | some t' =>
      refine .inl ⟨t', hp, ?_⟩
      have hsame := (hsub t' hp).symm.trans ht
      exact hle.trans_eq (Option.some.inj hsame).symm
    | none =>
      refine .inr ?_
      rw [World.barredAfter, Option.mem_def.mp ht, hp]
      exact le_max_of_le_right (by omega)
  · exact .inr (hle.trans hbarred)

/-- A new stamp covers those of its own key that came before, and leaves the others alone. -/
lemma Covered.insert {m : OrderedMap String ℕ} {barred : String → ℕ} {key : String} {start : ℕ}
    (h : Covered cfg m barred key start) {own : String} {now : ℕ} (hown : key = own → start ≤ now) :
    Covered cfg (m.insert own now) barred key start := by
  by_cases hkey : own = key
  · refine .inl ⟨now, ?_, hown hkey.symm⟩
    rw [Option.mem_def, OrderedMap.get_insert, if_pos hkey]
  · rcases h with ⟨t, ht, hle⟩ | hle
    · refine .inl ⟨t, ?_, hle⟩
      rwa [Option.mem_def, OrderedMap.get_insert, if_neg hkey]
    · exact .inr hle

/-- A stamp is new only to its own key. -/
lemma Spaced.stamped (h : Spaced cfg w) (hcool : 0 < cfg.cooldown) {f : FaucetState} {r : Request}
    (hf : f.lastDrip = (w.faucet.pruned cfg r.start).insert (r.key cfg) r.start)
    (hwaits : w.faucet.waits cfg (r.key cfg) r.start = none)
    (hbarred : w.barred (r.key cfg) ≤ r.start) :
    Spaced cfg { w with faucet := f, barred := w.barredAfter cfg r.start
                        requests := w.requests ++ [r] } := by
  have hwaited : ∀ s ∈ w.requests, s.standing → s.key cfg = r.key cfg →
      s.start + cfg.cooldown ≤ r.start := fun s hs hstand hkey =>
    (hkey ▸ h.covered s hs hstand).waited hcool hwaits hbarred
  refine ⟨fun i j s t hij hs ht hss hst hkey => ?_, fun s hs hstand => ?_⟩
  · have hcases : ∀ {k : ℕ} {u : Request}, (w.requests ++ [r])[k]? = some u →
        w.requests[k]? = some u ∨ k = w.requests.length ∧ u = r := by
      intro k u hu
      rw [List.getElem?_append] at hu
      split at hu
      next => exact .inl hu
      next hk =>
        rw [List.getElem?_singleton] at hu
        split at hu
        next hz => exact .inr ⟨by omega, (Option.some.inj hu).symm⟩
        next => cases hu
    rcases hcases hs with hs' | ⟨rfl, rfl⟩
    · rcases hcases ht with ht' | ⟨rfl, rfl⟩
      · exact h.apart i j s t hij hs' ht' hss hst hkey
      · exact .inl (hwaited s (List.mem_of_getElem? hs') hss hkey)
    · rcases hcases ht with ht' | ⟨rfl, rfl⟩
      · exact .inr (hwaited t (List.mem_of_getElem? ht') hst hkey.symm)
      · exact absurd rfl hij
  · simp only [hf]
    rcases List.mem_append.mp hs with hs | hs
    · refine ((h.covered s hs hstand).pruned r.start).insert fun hkey => ?_
      exact (Nat.le_add_right _ _).trans (hwaited s hs hstand hkey)
    · obtain rfl := List.mem_singleton.mp hs
      refine .inl ⟨s.start, ?_, le_rfl⟩
      rw [Option.mem_def, OrderedMap.get_insert, if_pos rfl]

/-- A request has moved: those whose stamps stand were there before, at the same place. -/
lemma World.exists_of_set {i k : ℕ} {r r' s : Request} (hr : w.requests[i]? = some r)
    (hset : w'.requests = w.requests.set i r') (hsame : r.SameAs r')
    (hback : r'.standing → r.standing) (hs : w'.requests[k]? = some s) (hstand : s.standing) :
    ∃ q, w.requests[k]? = some q ∧ q.standing ∧ q.SameAs s := by
  rw [hset] at hs
  by_cases hik : i = k
  · subst hik
    obtain ⟨hi, -⟩ := List.getElem?_eq_some_iff.mp hr
    rw [List.getElem?_set_self hi] at hs
    cases hs
    exact ⟨r, hr, hback hstand, hsame⟩
  · rw [List.getElem?_set_ne hik] at hs
    exact ⟨s, hs, hstand, rfl, rfl, rfl⟩

/-- What covered the stamps of the requests that still stand covers them after a step about a
request. -/
lemma Spaced.moved (h : Spaced cfg w) {i : ℕ} {r r' : Request} (hr : w.requests[i]? = some r)
    (hset : w'.requests = w.requests.set i r') (hsame : r.SameAs r')
    (hback : r'.standing → r.standing)
    (hcovered : ∀ (k : ℕ) (s : Request), w'.requests[k]? = some s → s.standing →
      Covered cfg w.faucet.lastDrip w.barred (s.key cfg) s.start →
      Covered cfg w'.faucet.lastDrip w'.barred (s.key cfg) s.start) : Spaced cfg w' := by
  refine ⟨fun j k s t hjk hs ht hss hst hkey => ?_, fun s hs hstand => ?_⟩
  · obtain ⟨s₀, hs₀, hss₀, hsames⟩ := World.exists_of_set hr hset hsame hback hs hss
    obtain ⟨t₀, ht₀, hst₀, hsamet⟩ := World.exists_of_set hr hset hsame hback ht hst
    rw [hsames.start, hsamet.start]
    apply h.apart j k s₀ t₀ hjk hs₀ ht₀ hss₀ hst₀
    rw [← hsames.key, ← hsamet.key, hkey]
  · obtain ⟨k, hk⟩ := List.mem_iff_getElem?.mp hs
    obtain ⟨s₀, hs₀, hss₀, hsames⟩ := World.exists_of_set hr hset hsame hback hk hstand
    have hold := h.covered s₀ (List.mem_of_getElem? hs₀) hss₀
    rw [← hsames.key, ← hsames.start] at hold
    exact hcovered k s hk hstand hold

/-- Where an undo removes its own stamp, the stamps of the others were over by then. -/
lemma Spaced.covered_forget (h : Spaced cfg w) {i k : ℕ} {r s : Request} (hik : i ≠ k)
    (hr : w.requests[i]? = some r) (hs : w.requests[k]? = some s) (hstood : r.standing)
    (hstand : s.standing) (hown : ∀ t ∈ w.faucet.lastDrip[r.key cfg]?, t = r.start) :
    Covered cfg (w.faucet.lastDrip.erase (r.key cfg)) (Function.update w.barred (r.key cfg)
      (max (w.barred (r.key cfg)) (w.faucet.lastDrip[r.key cfg]?.getD 0))) (s.key cfg) s.start := by
  have hcovered := h.covered s (List.mem_of_getElem? hs) hstand
  by_cases hkey : s.key cfg = r.key cfg
  · rw [hkey] at hcovered ⊢
    refine .inr ?_
    rw [Function.update_self]
    rcases hcovered with ⟨t, ht, hle⟩ | hle
    · rw [Option.mem_def.mp ht, Option.getD_some]
      apply le_max_of_le_right
      have hapart := h.apart i k r s hik hr hs hstood hstand hkey.symm
      have heq := hown t ht
      omega
    · exact le_max_of_le_left hle
  · rcases hcovered with ⟨t, ht, hle⟩ | hle
    · refine .inl ⟨t, ?_, hle⟩
      rw [Option.mem_def, Std.ExtTreeMap.getElem?_erase,
        if_neg fun hc => hkey (compare_eq_iff_eq.mp hc).symm]
      exact ht
    · refine .inr ?_
      rwa [Function.update_of_ne hkey]

lemma Spaced.step (h : Spaced cfg w) (hcool : 0 < cfg.cooldown) (hfree : Undisturbed cfg w e)
    (hstep : w.step cfg e = some w') : Spaced cfg w' := by
  cases e with
  | start ip asset now =>
    cases hstep
    rcases w.start_cases cfg ip asset now with heq | ⟨-, hwaits, heq⟩
    · rw [heq]
      exact ⟨h.apart, fun s hs hstand => by simpa using h.covered s hs hstand⟩
    · rw [heq]
      exact h.stamped hcool rfl hwaits hfree.2
  | act i a =>
    obtain ⟨r, r', hr, hadv, hw'⟩ := World.step_act hstep
    obtain ⟨hsame, -, hstand, -⟩ := World.advance_cases hadv
    have hset : w'.requests = w.requests.set i r' := by rw [hw']
    rcases hstand with ⟨ha, hiff⟩ | ⟨rfl, hstood, hundone⟩
    · refine h.moved hr hset hsame hiff.mp fun k s hs hss hold => ?_
      obtain ⟨hlast, hbarred⟩ := World.effect_lastDrip cfg w i r ha
      have hlast' : w'.faucet.lastDrip = w.faucet.lastDrip := by rw [hw', ← hlast]
      have hbarred' : w'.barred = w.barred := by rw [hw', ← hbarred]
      rwa [hlast', hbarred']
    · refine h.moved hr hset hsame (fun hs => absurd hs hundone) fun k s hs hss _ => ?_
      have hik : i ≠ k := by
        rintro rfl
        rw [hset, List.getElem?_set_self (List.getElem?_eq_some_iff.mp hr).1] at hs
        cases hs
        exact hundone hss
      rw [hset, List.getElem?_set_ne hik] at hs
      rw [hw']
      exact h.covered_forget hik hr hs hstood hss (hfree r hr).2

end Cooldown

/-! ## Every interleaving -/

section Runs

variable {cfg : FaucetCfg} {w : World}

lemma CooldownHolds.of_spaced (hstands : LandedStands w)
    (h : Spaced cfg w) : CooldownHolds cfg w := by
  rw [CooldownHolds, List.pairwise_iff_getElem]
  intro i j hi hj hlt hlandedi hlandedj hip hasset
  have hkey : w.requests[i].key cfg = w.requests[j].key cfg := by
    rw [Request.key, Request.key, hip, hasset]
  exact h.apart i j _ _ hlt.ne (List.getElem?_eq_getElem hi) (List.getElem?_eq_getElem hj)
    (hstands _ (List.getElem_mem hi) hlandedi) (hstands _ (List.getElem_mem hj) hlandedj) hkey

lemma CapHolds.of_counts (hstands : LandedStands w) (h : Counts cfg w) : CapHolds cfg w := by
  intro day
  refine le_trans (List.countP_mono_left fun r hr hlanded => ?_) (h.le_cap day)
  obtain ⟨hlanded, hday⟩ := of_decide_eq_true hlanded
  exact decide_eq_true ⟨(hstands r hr hlanded).counted, hday⟩

/-- Without a cooldown there is nothing to wait for. -/
lemma CooldownHolds.of_zero (hcool : cfg.cooldown = 0) : CooldownHolds cfg w := by
  refine List.pairwise_iff_getElem.mpr fun i j _ _ _ _ _ _ _ => ?_
  rw [hcool]
  exact le_total _ _

/-- Along a run on which no stamp of another request, and none of a drip that succeeds, is touched,
the drips that succeed keep to the cooldown and to the daily cap. -/
theorem limits_hold (cfg : FaucetCfg) (cooldowns : OrderedMap String ℕ) (nonce : ℕ)
    (es : List Event)
    (w : World) (hrun : Path (StepOf (World.step cfg)) (.init cooldowns nonce) es w)
    (hfree : Path.Along (StepOf (World.step cfg)) (.init cooldowns nonce) es (Undisturbed cfg)) :
    CooldownHolds cfg w ∧ CapHolds cfg w := by
  have hstands : LandedStands w :=
    hrun.invariant_along (I := fun _ w => LandedStands w) hfree (fun r hr =>
      (List.not_mem_nil hr).elim)
      fun _ _ _ _ h hfree hstep => h.step hfree hstep
  have hcounts : Counts cfg w := by
    refine hrun.invariant_along (I := fun _ w => Counts cfg w) hfree ?_
      fun _ _ _ _ h hfree hstep => h.step hfree hstep
    exact ⟨le_rfl, fun _ _ => rfl, fun _ => Nat.zero_le _⟩
  refine ⟨?_, .of_counts hstands hcounts⟩
  rcases Nat.eq_zero_or_pos cfg.cooldown with hzero | hcool
  · exact .of_zero hzero
  · refine .of_spaced hstands (hrun.invariant_along (I := fun _ w => Spaced cfg w) hfree ?_
      fun _ _ _ _ h hfree hstep => h.step hcool hfree hstep)
    exact ⟨fun i j r s _ hr => by simp [World.init] at hr, fun r hr => (List.not_mem_nil hr).elim⟩

end Runs

namespace Concrete

/-- An hour of cooldown, and one drip a day. -/
def cfg : FaucetCfg := { asset := [0], cooldown := 3600, dailyCap := 1 }

/-- A stamped drip goes through. -/
def succeeds (i : ℕ) : List Event :=
  [.act i (.sign true), .act i (.arrive true), .act i .answer, .act i .land, .act i .receipt]

/-- A stamped drip is refused and takes its stamp back. -/
def refused (i : ℕ) : List Event := [.act i .refuse, .act i .forget, .act i .refund]

/-- The answer to a stamped drip is lost, and so is the drip. -/
def unanswered (i : ℕ) : List Event :=
  [.act i (.sign true), .act i .fail, .act i .forget, .act i .refund]

/-- Two addresses try twice each, on two days. -/
def quietRun : List Event :=
  .start "10.0.0.1" [0] 86398 :: refused 0 ++ .start "10.0.0.1" [0] 86399 :: succeeds 1 ++
    .start "10.0.0.2" [0] 86400 :: unanswered 2 ++ .start "10.0.0.2" [0] 86401 :: succeeds 3

theorem quietRun_limits : ∃ w, Path (StepOf (World.step cfg)) (.init ∅ 7) quietRun w ∧
    (w.requests.map fun r => decide r.landed) = [false, true, false, true] ∧
    CooldownHolds cfg w ∧ CapHolds cfg w := by
  have hrun : (quietRun.foldlM (World.step cfg) (.init ∅ 7)).map
      (fun w => w.requests.map fun r => decide r.landed) = some [false, true, false, true] := by
    decide +kernel
  obtain ⟨w, hw, hlanded⟩ := Option.map_eq_some_iff.mp hrun
  exact ⟨w, path_of_foldlM hw, hlanded, limits_hold cfg ∅ 7 quietRun w (path_of_foldlM hw)
    (along_of_foldlM (by decide +kernel))⟩

/-- A drip stamped before midnight is refused after another one has been stamped on the new day. -/
def lateUndo : List Event :=
  .start "10.0.0.1" [0] 86399 :: .start "10.0.0.2" [0] 86400 :: succeeds 1 ++ refused 0 ++
    .start "10.0.0.3" [0] 86401 :: succeeds 2

/-- The late undo makes room for a second drip on the new day. -/
theorem lateUndo_exceeds : ¬ ∀ (cfg : FaucetCfg) (cooldowns : OrderedMap String ℕ) (nonce : ℕ)
    (es : List Event) (w : World), Path (StepOf (World.step cfg)) (.init cooldowns nonce) es w →
    CooldownHolds cfg w ∧ CapHolds cfg w := by
  intro hall
  have hrun : (lateUndo.foldlM (World.step cfg) (.init ∅ 7)).map
      (fun w => w.requests.countP fun r => decide (r.landed ∧ r.day = 1)) = some 2 := by
    decide +kernel
  obtain ⟨w, hw, htwo⟩ := Option.map_eq_some_iff.mp hrun
  have hcap := (hall cfg ∅ 7 lateUndo w (path_of_foldlM hw)).2 1
  rw [htwo] at hcap
  exact absurd hcap (by decide)

end Concrete

end Faucet

end HashKinetics
