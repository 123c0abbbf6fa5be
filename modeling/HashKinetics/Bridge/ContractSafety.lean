import HashKinetics.Bridge.Gate

/-!
# Safety of the vault and of the wrapped token

Both contracts go through the gate, so what is left to prove of each is its accounting: the tokens
that the vault holds, and the supply of the wrapped token.  A payment that the vault makes to itself
leaves its tokens where they are and is counted as paid out, so the books of the vault close exactly
when there was none.
-/

namespace HashKinetics.Bridge

open Foundations Foundations.Checked

/-! ## The token -/

namespace Erc20

variable {t t' : Erc20} {src dst holder spender caller account : Address} {value : ℕ}

lemma transferBetween_eq_ok (h : t.transferBetween src dst value = .ok t') :
    (∀ a, t'.balanceOf a + (if a = src then value else 0) =
        t.balanceOf a + if a = dst then value else 0) ∧
      t'.allowance = t.allowance ∧ t'.totalSupply = t.totalSupply := by
  simp only [transferBetween, move, bind_eq_ok, refuseIf_eq_ok, map_eq_ok] at h
  obtain ⟨_, hsrc, _, hdst, t₁, hdebit, rfl⟩ := h
  simp only [debit, hsrc, if_false] at hdebit
  split_ifs at hdebit with hlt
  cases hdebit
  simp only [credit, hdst, if_false]
  refine ⟨fun a => ?_, trivial, trivial⟩
  by_cases had : a = dst
  · by_cases hds : dst = src
    · subst had hds
      simp only [Function.update_self, if_true]
      omega
    · subst had
      simp [hds]
  · by_cases has : a = src
    · subst has
      simp only [Function.update_of_ne had, Function.update_self, if_true, had, if_false]
      omega
    · simp [had, has]

lemma spendAllowance_eq_ok (h : t.spendAllowance holder spender value = .ok t') :
    t'.balanceOf = t.balanceOf ∧ t'.totalSupply = t.totalSupply ∧
      (∀ a b, t'.allowance a b ≤ t.allowance a b) ∧
        (MAX_UINT256 ≤ t.allowance holder spender ∨ value ≤ t.allowance holder spender) := by
  unfold spendAllowance at h
  split_ifs at h with hmax hlt
  · cases h
    exact ⟨rfl, rfl, fun _ _ => le_rfl, .inl hmax⟩
  · simp only [approve, bind_eq_ok, refuseIf_eq_ok, pure_eq_ok] at h
    obtain ⟨_, -, _, -, rfl⟩ := h
    refine ⟨rfl, rfl, fun a b => ?_, .inr (Nat.not_lt.mp hlt)⟩
    by_cases ha : a = holder
    · subst ha
      simp only [Function.update_self]
      by_cases hb : b = spender
      · subst hb
        simp
      · simp [hb]
    · simp [ha]

lemma transferFrom_eq_ok (h : t.transferFrom caller src dst value = .ok t') :
    (∀ a, t'.balanceOf a + (if a = src then value else 0) =
        t.balanceOf a + if a = dst then value else 0) ∧
      (∀ a b, t'.allowance a b ≤ t.allowance a b) ∧ t'.totalSupply = t.totalSupply ∧
        (MAX_UINT256 ≤ t.allowance src caller ∨ value ≤ t.allowance src caller) := by
  simp only [transferFrom, bind_eq_ok] at h
  obtain ⟨t₁, hspend, htransfer⟩ := h
  obtain ⟨hbal, hsupply, hallow, henough⟩ := spendAllowance_eq_ok hspend
  obtain ⟨hbal', hallow', hsupply'⟩ := transferBetween_eq_ok htransfer
  refine ⟨fun a => ?_, fun a b => ?_, hsupply'.trans hsupply, henough⟩
  · rw [← hbal]
    exact hbal' a
  · rw [hallow']
    exact hallow a b

/-- The sum of a function that gains at one point and loses at another. -/
lemma sum_add_of_forall {A : Type} [Fintype A] [DecidableEq A] {f g : A → ℕ} {i j : A} {x y : ℕ}
    (h : ∀ a, g a + (if a = i then x else 0) = f a + if a = j then y else 0) :
    ∑ a, g a + x = ∑ a, f a + y := by
  have hsum := Finset.sum_congr rfl fun a (_ : a ∈ Finset.univ) => h a
  simpa [Finset.sum_add_distrib] using hsum

/-- The supply is what the holders have. -/
def Backed (t : Erc20) : Prop := ∑ a, t.balanceOf a = t.totalSupply

lemma Backed.of_move (hb : t.Backed) (hsupply : t'.totalSupply = t.totalSupply)
    (h : ∀ a, t'.balanceOf a + (if a = src then value else 0) =
      t.balanceOf a + if a = dst then value else 0) : t'.Backed := by
  have hsum := sum_add_of_forall h
  unfold Backed at hb ⊢
  omega

lemma Backed.exec {call : TokenCall} (hb : t.Backed) (h : call.exec caller t = .ok t') :
    t'.Backed ∧ t'.totalSupply = t.totalSupply := by
  cases call with
  | transfer dst value =>
    obtain ⟨hbal, -, hsupply⟩ := transferBetween_eq_ok h
    exact ⟨hb.of_move hsupply hbal, hsupply⟩
  | approve spender value =>
    simp only [TokenCall.exec, approve, bind_eq_ok, refuseIf_eq_ok, pure_eq_ok] at h
    obtain ⟨_, -, _, -, rfl⟩ := h
    exact ⟨hb, rfl⟩
  | transferFrom src dst value =>
    obtain ⟨hbal, -, hsupply, -⟩ := transferFrom_eq_ok h
    exact ⟨hb.of_move hsupply hbal, hsupply⟩

lemma Backed.mint (hb : t.Backed) (h : t.mint account value = .ok t') :
    t'.Backed ∧ t'.totalSupply = t.totalSupply + value := by
  simp only [Erc20.mint, move, bind_eq_ok, refuseIf_eq_ok, map_eq_ok] at h
  obtain ⟨_, haccount, t₁, hdebit, rfl⟩ := h
  simp only [debit, if_true, map_eq_ok, addChecked_eq_ok] at hdebit
  obtain ⟨supply, ⟨-, rfl⟩, rfl⟩ := hdebit
  have hbal : ∀ a,
    (credit account value { t with totalSupply := t.totalSupply + value }).balanceOf a +
      (if a = account then 0 else 0) = t.balanceOf a + if a = account then value else 0 := by
    intro a
    by_cases ha : a = account
    · simp [credit, haccount, ha]
    · simp [credit, haccount, ha]
  have hsum := sum_add_of_forall hbal
  have hsupply : (credit account value
      { t with totalSupply := t.totalSupply + value }).totalSupply = t.totalSupply + value := by
    simp [credit, haccount]
  refine ⟨?_, hsupply⟩
  unfold Backed at hb ⊢
  rw [hsupply]
  omega

lemma Backed.burn (hb : t.Backed) (h : t.burn account value = .ok t') :
    t'.Backed ∧ t'.totalSupply + value = t.totalSupply := by
  simp only [Erc20.burn, move, bind_eq_ok, refuseIf_eq_ok, map_eq_ok] at h
  obtain ⟨_, haccount, t₁, hdebit, rfl⟩ := h
  simp only [debit, haccount, if_false] at hdebit
  split_ifs at hdebit with hlt
  cases hdebit
  have hle : t.balanceOf account ≤ t.totalSupply := by
    unfold Backed at hb
    rw [← hb]
    exact Finset.single_le_sum (fun _ _ => Nat.zero_le _) (Finset.mem_univ account)
  have hbal : ∀ a, Function.update t.balanceOf account (t.balanceOf account - value) a +
      (if a = account then value else 0) = t.balanceOf a + if a = account then 0 else 0 := by
    intro a
    by_cases ha : a = account
    · subst ha
      simp only [Function.update_self, if_true]
      omega
    · simp [ha]
  have hsum := sum_add_of_forall hbal
  simp only [credit, if_true]
  unfold Backed at hb ⊢
  exact ⟨by change ∑ a, Function.update _ _ _ a = t.totalSupply - value; omega, by omega⟩

end Erc20

/-! ## The vault -/

section Contracts

variable [EvmSuite]

/-- What a call to the vault releases. -/
def VaultCall.release : VaultCall → Option Release
  | .unlock dst amount burnId sigs =>
    some ⟨HKVault.unlockStructHash dst amount burnId, amount, burnId, sigs⟩
  | _ => none

/-- A transaction as the gate sees it. -/
def Transaction.act {C : Type} (release : C → Option Release) (t : Transaction C) : GateAct :=
  ⟨t.msg, if t.succeeds then release t.call else none⟩

/-- The amount that a transaction locks in the vault. -/
def Transaction.locked (t : Transaction VaultCall) : ℕ :=
  match t.call with
  | .lock amount _ => if t.succeeds then amount else 0
  | _ => 0

/-- The amount that a transaction pays out of the vault. -/
def Transaction.unlocked (t : Transaction VaultCall) : ℕ :=
  match t.call with
  | .unlock _ amount _ _ => if t.succeeds then amount else 0
  | _ => 0

/-- The amount that the vault pays to itself. -/
def Transaction.paidBack (self : Address) (t : Transaction VaultCall) : ℕ :=
  match t.call with
  | .unlock dst amount _ _ => if t.succeeds ∧ dst = self then amount else 0
  | _ => 0

/-- The transaction moves value in or out of the vault. -/
def Transaction.movesValue (t : Transaction VaultCall) : Prop :=
  t.succeeds = true ∧ match t.call with
    | .lock _ _ => True
    | .unlock _ _ _ _ => True
    | _ => False

/-- Somebody sends tokens to the vault past its `lock`. -/
def Transaction.sendsTo (self : Address) (t : Transaction VaultCall) : Prop :=
  match t.call with
  | .token call => call.recipient = some self
  | _ => False

omit [EvmSuite] in
/-- A contract with one run for each list of transactions. -/
lemma chainStep_deterministic {C W : Type} {self : Address} {exec : Msg → W → C → Except Revert W}
    (u : W × ℕ) (t : Transaction C) (u₁ u₂ : W × ℕ) (h₁ : ChainStep self exec u t u₁)
    (h₂ : ChainStep self exec u t u₂) : u₁ = u₂ := by
  cases h₁ with
  | executed _ _ h =>
    cases h₂ with
    | executed _ _ h' =>
      rw [h] at h'
      cases h'
      rfl
  | reverted _ _ h =>
    cases h₂
    rfl

/-- The steps of the vault. -/
def VaultStep (d : Deployment) :
    (HKVault × Erc20) × ℕ → Transaction VaultCall → (HKVault × Erc20) × ℕ → Prop :=
  ChainStep d.self (VaultCall.exec d)

/-- The gate of the vault. -/
def vaultGate (u : (HKVault × Erc20) × ℕ) : Gate × ℕ := (u.1.1.toGate, u.2)

variable {d : Deployment} {u u' : (HKVault × Erc20) × ℕ} {tx : Transaction VaultCall}

lemma HKVault.lock_eq_ok {msg : Msg} {amount : ℕ} {hkAccount id : Bytes32} {v v' : HKVault}
    {t t' : Erc20} (h : v.lock d msg amount hkAccount t = .ok (id, v', t')) :
    v.paused = false ∧ v'.toGate = v.toGate ∧
      t.transferFrom d.self msg.sender d.self amount = .ok t' := by
  simp only [lock, AttestorSet.whenNotPaused, bind_eq_ok, refuseIf_eq_ok, pure_eq_ok,
    Bool.not_eq_true, Prod.mk.injEq] at h
  obtain ⟨_, hopen, _, -, _, -, nonce, -, t₁, htransfer, -, rfl, rfl⟩ := h
  exact ⟨hopen, rfl, htransfer⟩

lemma HKVault.unlock_eq_ok {msg : Msg} {dst : Address} {amount : ℕ} {burnId : Bytes32}
    {sigs : List (List UInt8)} {v v' : HKVault} {t t' : Erc20}
    (h : v.unlock d msg dst amount burnId sigs t = .ok (v', t')) :
    v.paused = false ∧
      v.toGate.release d.domainSeparator (unlockStructHash dst amount burnId) msg.day amount burnId
        sigs = .ok v'.toGate ∧
        t.transferBetween d.self dst amount = .ok t' := by
  simp only [unlock, AttestorSet.whenNotPaused, bind_eq_ok, refuseIf_eq_ok, pure_eq_ok,
    Bool.not_eq_true, Prod.mk.injEq] at h
  obtain ⟨_, hopen, _, -, g, hrelease, t₁, htransfer, rfl, rfl⟩ := h
  exact ⟨hopen, hrelease, htransfer⟩

/-- Every transaction of the vault goes through the gate. -/
lemma gateStep_of_vaultStep (h : VaultStep d u tx u') :
    GateStep d.domainSeparator (vaultGate u) (tx.act VaultCall.release) (vaultGate u') := by
  cases h with
  | reverted htime => exact .idle htime
  | @executed w w' now msg call htime _ h =>
    cases call with
    | lock amount hkAccount =>
      obtain ⟨⟨id, v', t'⟩, hlock, rfl⟩ := map_eq_ok.mp h
      obtain ⟨-, hgate, -⟩ := HKVault.lock_eq_ok hlock
      simp only [vaultGate, hgate]
      exact .idle htime
    | unlock dst amount burnId sigs =>
      obtain ⟨v', t'⟩ := w'
      obtain ⟨hopen, hrelease, -⟩ := HKVault.unlock_eq_ok h
      exact .released htime hopen hrelease
    | setMinLock minLock =>
      simp only [VaultCall.exec, HKVault.setMinLock, map_eq_ok, bind_eq_ok, pure_eq_ok] at h
      obtain ⟨v', ⟨_, -, rfl⟩, rfl⟩ := h
      exact .idle htime
    | admin call =>
      obtain ⟨g, hadmin, rfl⟩ := map_eq_ok.mp h
      exact .admin htime hadmin
    | token call =>
      obtain ⟨t', -, rfl⟩ := map_eq_ok.mp h
      exact .idle htime

/-- Value moves only while the vault is not paused. -/
lemma paused_of_movesValue (h : VaultStep d u tx u') (hmoves : tx.movesValue) :
    u.1.1.paused = false := by
  cases h with
  | reverted => cases hmoves.1
  | @executed w w' now msg call _ _ h =>
    cases call with
    | lock amount hkAccount =>
      obtain ⟨⟨id, v', t'⟩, hlock, -⟩ := map_eq_ok.mp h
      exact (HKVault.lock_eq_ok hlock).1
    | unlock dst amount burnId sigs =>
      obtain ⟨v', t'⟩ := w'
      exact (HKVault.unlock_eq_ok h).1
    | setMinLock => exact hmoves.2.elim
    | admin => exact hmoves.2.elim
    | token => exact hmoves.2.elim

/-- The sum of what the transactions of a run do. -/
def sumOf {C : Type} (f : Transaction C → ℕ) (txs : List (Transaction C)) : ℕ := (txs.map f).sum

omit [EvmSuite] in
@[simp] lemma sumOf_snoc {C : Type} (f : Transaction C → ℕ) (txs : List (Transaction C))
    (t : Transaction C) : sumOf f (txs ++ [t]) = sumOf f txs + f t := by
  simp [sumOf]

omit [EvmSuite] in
lemma sumOf_eq_zero {C : Type} {f : Transaction C → ℕ} {txs : List (Transaction C)} :
    sumOf f txs = 0 ↔ ∀ t ∈ txs, f t = 0 := by
  simp [sumOf, List.sum_eq_zero_iff]

/-- The books of the vault: it has approved nobody, and what it holds is what was locked, less what
it paid to others. -/
structure VaultBooks (d : Deployment) (txs : List (Transaction VaultCall)) (t : Erc20) : Prop where
  unapproved : ∀ a, t.allowance d.self a = 0
  balance : t.balanceOf d.self + sumOf Transaction.unlocked txs =
    sumOf Transaction.locked txs + sumOf (Transaction.paidBack d.self) txs

omit [EvmSuite] in
/-- A call of the token by somebody else that pays nothing to the vault leaves the books. -/
lemma token_exec_eq_ok {caller : Address} {t t' : Erc20} {call : TokenCall} {self : Address}
    (hcaller : caller ≠ self) (hrecipient : call.recipient ≠ some self)
    (hunapproved : ∀ a, t.allowance self a = 0) (h : call.exec caller t = .ok t') :
    t'.balanceOf self = t.balanceOf self ∧ ∀ a, t'.allowance self a = 0 := by
  cases call with
  | transfer dst value =>
    obtain ⟨hbal, hallow, -⟩ := Erc20.transferBetween_eq_ok h
    have hdst : self ≠ dst := fun heq => hrecipient (heq ▸ rfl)
    have hself := hbal self
    rw [if_neg hcaller.symm, if_neg hdst] at hself
    exact ⟨hself, fun a => by rw [hallow]; exact hunapproved a⟩
  | approve spender value =>
    simp only [TokenCall.exec, Erc20.approve, bind_eq_ok, refuseIf_eq_ok, pure_eq_ok] at h
    obtain ⟨_, -, _, -, rfl⟩ := h
    refine ⟨rfl, fun a => ?_⟩
    simp only [Function.update_of_ne hcaller.symm]
    exact hunapproved a
  | transferFrom src dst value =>
    obtain ⟨hbal, hallow, -, henough⟩ := Erc20.transferFrom_eq_ok h
    have hdst : self ≠ dst := fun heq => hrecipient (heq ▸ rfl)
    have hself := hbal self
    rw [if_neg hdst] at hself
    refine ⟨?_, fun a => Nat.le_zero.mp ((hallow self a).trans (hunapproved a).le)⟩
    by_cases hsrc : self = src
    · -- the vault approved nobody, so nothing but zero is taken from it
      rw [← hsrc, hunapproved caller] at henough
      rcases henough with hmax | hzero
      · exact absurd hmax (by decide)
      · simpa [Nat.le_zero.mp hzero] using hself
    · simpa [hsrc] using hself

lemma VaultBooks.step {txs : List (Transaction VaultCall)} (hb : VaultBooks d txs u.1.2)
    (hdirect : ¬ tx.sendsTo d.self) (h : VaultStep d u tx u') :
    VaultBooks d (txs ++ [tx]) u'.1.2 := by
  obtain ⟨hunapproved, hbalance⟩ := hb
  -- a transaction that is neither a lock nor an unlock is not in the books
  have hquiet : ∀ t', tx.locked = 0 → tx.unlocked = 0 → tx.paidBack d.self = 0 →
      t'.balanceOf d.self = u.1.2.balanceOf d.self → (∀ a, t'.allowance d.self a = 0) →
        VaultBooks d (txs ++ [tx]) t' := by
    intro t' hl hu hp hbal hallow
    refine ⟨hallow, ?_⟩
    simp only [sumOf_snoc, hl, hu, hp, hbal, Nat.add_zero]
    exact hbalance
  cases h with
  | @reverted w now msg call =>
    have hnone : ∀ t : Transaction VaultCall, t.succeeds = false → t.locked = 0 ∧ t.unlocked = 0 ∧
        t.paidBack d.self = 0 := by
      rintro ⟨m, c, b⟩ rfl
      cases c <;> simp [Transaction.locked, Transaction.unlocked, Transaction.paidBack]
    obtain ⟨hl, hu, hp⟩ := hnone ⟨msg, call, false⟩ rfl
    exact hquiet _ hl hu hp rfl hunapproved
  | @executed w w' now msg call _ hcaller h =>
    cases call with
    | lock amount hkAccount =>
      obtain ⟨⟨id, v', t'⟩, hlock, rfl⟩ := map_eq_ok.mp h
      obtain ⟨-, -, htransfer⟩ := HKVault.lock_eq_ok hlock
      obtain ⟨hbal, hallow, -, -⟩ := Erc20.transferFrom_eq_ok htransfer
      have hself := hbal d.self
      rw [if_neg hcaller.symm, if_pos rfl] at hself
      refine ⟨fun a => Nat.le_zero.mp ((hallow d.self a).trans (hunapproved a).le), ?_⟩
      simp only [sumOf_snoc, Transaction.locked, Transaction.unlocked, Transaction.paidBack,
        if_true]
      change w.2.balanceOf d.self + _ = _ at hbalance
      omega
    | unlock dst amount burnId sigs =>
      obtain ⟨v', t'⟩ := w'
      obtain ⟨-, -, htransfer⟩ := HKVault.unlock_eq_ok h
      obtain ⟨hbal, hallow, -⟩ := Erc20.transferBetween_eq_ok htransfer
      have hself := hbal d.self
      rw [if_pos rfl] at hself
      refine ⟨fun a => by rw [hallow]; exact hunapproved a, ?_⟩
      simp only [sumOf_snoc, Transaction.locked, Transaction.unlocked, Transaction.paidBack,
        if_true, true_and, eq_comm (a := dst)]
      change w.2.balanceOf d.self + _ = _ at hbalance
      omega
    | setMinLock minLock =>
      obtain ⟨v', -, rfl⟩ := map_eq_ok.mp h
      exact hquiet _ rfl rfl rfl rfl hunapproved
    | admin call =>
      obtain ⟨g, -, rfl⟩ := map_eq_ok.mp h
      exact hquiet _ rfl rfl rfl rfl hunapproved
    | token call =>
      obtain ⟨t', htoken, rfl⟩ := map_eq_ok.mp h
      obtain ⟨hbal, hallow⟩ := token_exec_eq_ok hcaller hdirect hunapproved htoken
      exact hquiet _ rfl rfl rfl hbal hallow

/-- What holds of every run of the vault up to the accounting: the gate keeps its promises, value
moves only while the vault is not paused, and the tokens it holds are those locked less those
unlocked. -/
structure VaultSafe (Signed : Address → Bytes32 → Prop) (d : Deployment)
    (u₀ : (HKVault × Erc20) × ℕ) (txs : List (Transaction VaultCall)) (u : (HKVault × Erc20) × ℕ) :
    Prop where
  gate :
    GateSafe Signed d.domainSeparator (VaultStep d) vaultGate (Transaction.act VaultCall.release)
    u₀ txs u
  running : Path.Along (VaultStep d) u₀ txs fun s t => t.movesValue → s.1.1.paused = false
  balance : HKVault.reserves d u.1.2 + sumOf Transaction.unlocked txs = sumOf Transaction.locked txs

/-- The vault as its constructor leaves it, on a token that holds nothing for its address and in
which that address has approved nobody. -/
structure VaultInitial (d : Deployment) (u : (HKVault × Erc20) × ℕ) : Prop where
  constructed : ∃ token attestors threshold dailyCap minLock owner,
    HKVault.construct token attestors threshold dailyCap minLock owner = .ok u.1.1
  empty : u.1.2.balanceOf d.self = 0
  unapproved : ∀ a, u.1.2.allowance d.self a = 0

omit [EvmSuite] in
lemma VaultInitial.fresh (h : VaultInitial d u) : (vaultGate u).1.Fresh := by
  obtain ⟨token, attestors, threshold, dailyCap, minLock, owner, hc⟩ := h.constructed
  simp only [HKVault.construct, bind_eq_ok, refuseIf_eq_ok, pure_eq_ok] at hc
  obtain ⟨set, hset, _, -, hv⟩ := hc
  refine ⟨?_, ?_, ?_⟩
  all_goals simp only [vaultGate, ← hv]
  · exact AttestorSet.valid_construct hset
  · rfl
  · rfl

/-- The books of the vault over a whole run. -/
lemma VaultInitial.books (h₀ : VaultInitial d u) {txs : List (Transaction VaultCall)}
    (h : Path (VaultStep d) u txs u') (hdirect : ∀ t ∈ txs, ¬ t.sendsTo d.self) :
    VaultBooks d txs u'.1.2 :=
  h.invariant_along (I := fun pre s => VaultBooks d pre s.1.2)
    (P := fun _ t => ¬ t.sendsTo d.self) (.of_forall_mem fun t ht _ => hdirect t ht)
    ⟨h₀.unapproved, by rw [h₀.empty]; rfl⟩ fun _ _ _ _ hb hd hs => hb.step hd hs

/-! ## The wrapped token -/

/-- What a call to the wrapped token releases. -/
def WrappedCall.release : WrappedCall → Option Release
  | .mint dst amount mintId sigs =>
    some ⟨HKWrapped.mintStructHash dst amount mintId, amount, mintId, sigs⟩
  | _ => none

/-- The amount that a transaction mints. -/
def Transaction.minted (t : Transaction WrappedCall) : ℕ :=
  match t.call with
  | .mint _ amount _ _ => if t.succeeds then amount else 0
  | _ => 0

/-- The amount that a transaction burns. -/
def Transaction.burned (t : Transaction WrappedCall) : ℕ :=
  match t.call with
  | .burn amount _ => if t.succeeds then amount else 0
  | _ => 0

/-- The transaction mints or burns. -/
def Transaction.changesSupply (t : Transaction WrappedCall) : Prop :=
  t.succeeds = true ∧ match t.call with
    | .mint _ _ _ _ => True
    | .burn _ _ => True
    | _ => False

/-- The steps of the wrapped token. -/
def WrappedStep (d : Deployment) :
    HKWrapped × ℕ → Transaction WrappedCall → HKWrapped × ℕ → Prop :=
  ChainStep d.self (WrappedCall.exec d)

/-- The gate of the wrapped token. -/
def wrappedGate (u : HKWrapped × ℕ) : Gate × ℕ := (u.1.toGate, u.2)

variable {w w' : HKWrapped × ℕ} {wtx : Transaction WrappedCall}

lemma HKWrapped.mint_eq_ok {msg : Msg} {dst : Address} {amount : ℕ} {mintId : Bytes32}
    {sigs : List (List UInt8)} {v v' : HKWrapped}
    (h : v.mint d msg dst amount mintId sigs = .ok v') :
    v.paused = false ∧
      v.toGate.release d.domainSeparator (mintStructHash dst amount mintId) msg.day amount mintId
        sigs = .ok v'.toGate ∧
        v.toErc20.mint dst amount = .ok v'.toErc20 := by
  simp only [mint, AttestorSet.whenNotPaused, bind_eq_ok, refuseIf_eq_ok, pure_eq_ok,
    Bool.not_eq_true] at h
  obtain ⟨_, hopen, _, -, _, -, g, hrelease, t, hmint, rfl⟩ := h
  exact ⟨hopen, hrelease, hmint⟩

lemma HKWrapped.burn_eq_ok {msg : Msg} {amount : ℕ} {hkAccount id : Bytes32} {v v' : HKWrapped}
    (h : v.burn d msg amount hkAccount = .ok (id, v')) :
    v.paused = false ∧ v'.toGate = v.toGate ∧
      v.toErc20.burn msg.sender amount = .ok v'.toErc20 := by
  simp only [burn, AttestorSet.whenNotPaused, bind_eq_ok, refuseIf_eq_ok, pure_eq_ok,
    Bool.not_eq_true, Prod.mk.injEq] at h
  obtain ⟨_, hopen, _, -, _, -, nonce, -, t, hburn, -, rfl⟩ := h
  exact ⟨hopen, rfl, hburn⟩

lemma gateStep_of_wrappedStep (h : WrappedStep d w wtx w') :
    GateStep d.domainSeparator (wrappedGate w) (wtx.act WrappedCall.release) (wrappedGate w') := by
  cases h with
  | reverted htime => exact .idle htime
  | @executed v v' now msg call htime _ h =>
    cases call with
    | mint dst amount mintId sigs =>
      obtain ⟨hopen, hrelease, -⟩ := HKWrapped.mint_eq_ok h
      exact .released htime hopen hrelease
    | burn amount hkAccount =>
      obtain ⟨⟨id, v₁⟩, hburn, rfl⟩ := map_eq_ok.mp h
      obtain ⟨-, hgate, -⟩ := HKWrapped.burn_eq_ok hburn
      simp only [wrappedGate, hgate]
      exact .idle htime
    | admin call =>
      obtain ⟨g, hadmin, rfl⟩ := map_eq_ok.mp h
      exact .admin htime hadmin
    | token call =>
      obtain ⟨t, -, rfl⟩ := map_eq_ok.mp h
      exact .idle htime

lemma paused_of_changesSupply (h : WrappedStep d w wtx w') (hchanges : wtx.changesSupply) :
    w.1.paused = false := by
  cases h with
  | reverted => cases hchanges.1
  | @executed v v' now msg call _ _ h =>
    cases call with
    | mint dst amount mintId sigs => exact (HKWrapped.mint_eq_ok h).1
    | burn amount hkAccount =>
      obtain ⟨⟨id, v₁⟩, hburn, -⟩ := map_eq_ok.mp h
      exact (HKWrapped.burn_eq_ok hburn).1
    | admin => exact hchanges.2.elim
    | token => exact hchanges.2.elim

/-- The books of the wrapped token: the holders have the supply, and it is what was minted less what
was burned. -/
structure WrappedBooks (txs : List (Transaction WrappedCall)) (v : HKWrapped) : Prop where
  backed : v.toErc20.Backed
  supply : v.totalSupply + sumOf Transaction.burned txs = sumOf Transaction.minted txs

lemma WrappedBooks.step {txs : List (Transaction WrappedCall)} (hb : WrappedBooks txs w.1)
    (h : WrappedStep d w wtx w') : WrappedBooks (txs ++ [wtx]) w'.1 := by
  obtain ⟨hbacked, hsupply⟩ := hb
  have hquiet : ∀ v : HKWrapped, wtx.minted = 0 → wtx.burned = 0 → v.toErc20.Backed →
      v.totalSupply = w.1.totalSupply → WrappedBooks (txs ++ [wtx]) v := by
    intro v hm hburn hv hsame
    refine ⟨hv, ?_⟩
    simp only [sumOf_snoc, hm, hburn, hsame, Nat.add_zero]
    exact hsupply
  cases h with
  | @reverted v now msg call =>
    have hnone : ∀ t : Transaction WrappedCall, t.succeeds = false → t.minted = 0 ∧
      t.burned = 0 := by
      rintro ⟨m, c, b⟩ rfl
      cases c <;> simp [Transaction.minted, Transaction.burned]
    obtain ⟨hm, hburn⟩ := hnone ⟨msg, call, false⟩ rfl
    exact hquiet _ hm hburn hbacked rfl
  | @executed v v' now msg call _ _ h =>
    cases call with
    | mint dst amount mintId sigs =>
      obtain ⟨-, -, hmint⟩ := HKWrapped.mint_eq_ok h
      obtain ⟨hbacked', hsupply'⟩ := Erc20.Backed.mint (t := v.toErc20) hbacked hmint
      refine ⟨hbacked', ?_⟩
      simp only [sumOf_snoc, Transaction.minted, Transaction.burned, if_true]
      change v.totalSupply + _ = _ at hsupply
      omega
    | burn amount hkAccount =>
      obtain ⟨⟨id, v₁⟩, hburn, rfl⟩ := map_eq_ok.mp h
      obtain ⟨-, -, hburn'⟩ := HKWrapped.burn_eq_ok hburn
      obtain ⟨hbacked', hsupply'⟩ := Erc20.Backed.burn (t := v.toErc20) hbacked hburn'
      refine ⟨hbacked', ?_⟩
      simp only [sumOf_snoc, Transaction.minted, Transaction.burned, if_true]
      change v.totalSupply + _ = _ at hsupply
      omega
    | admin call =>
      obtain ⟨g, -, rfl⟩ := map_eq_ok.mp h
      exact hquiet _ rfl rfl hbacked rfl
    | token call =>
      obtain ⟨t, htoken, rfl⟩ := map_eq_ok.mp h
      obtain ⟨hbacked', hsupply'⟩ := Erc20.Backed.exec hbacked htoken
      exact hquiet _ rfl rfl hbacked' hsupply'

/-- What holds of every run of the wrapped token. -/
structure WrappedSafe (Signed : Address → Bytes32 → Prop) (d : Deployment) (w₀ : HKWrapped × ℕ)
    (txs : List (Transaction WrappedCall)) (w : HKWrapped × ℕ) : Prop where
  gate : GateSafe Signed d.domainSeparator (WrappedStep d) wrappedGate
    (Transaction.act WrappedCall.release) w₀ txs w
  running : Path.Along (WrappedStep d) w₀ txs fun s t => t.changesSupply → s.1.paused = false
  supply : w.1.totalSupply + sumOf Transaction.burned txs = sumOf Transaction.minted txs

/-- The wrapped token as its constructor leaves it. -/
def WrappedInitial (w : HKWrapped × ℕ) : Prop :=
  ∃ attestors threshold dailyCap owner,
    HKWrapped.construct attestors threshold dailyCap owner = .ok w.1

omit [EvmSuite] in
lemma WrappedInitial.start (h : WrappedInitial w) :
    (wrappedGate w).1.Fresh ∧ WrappedBooks [] w.1 := by
  obtain ⟨attestors, threshold, dailyCap, owner, hc⟩ := h
  simp only [HKWrapped.construct, bind_eq_ok, pure_eq_ok] at hc
  obtain ⟨set, hset, hv⟩ := hc
  refine ⟨⟨?_, ?_, ?_⟩, ⟨?_, ?_⟩⟩
  all_goals simp only [wrappedGate, ← hv]
  · exact AttestorSet.valid_construct hset
  · rfl
  · rfl
  · simp [Erc20.Backed]
  · rfl

lemma WrappedInitial.safe {Signed : Address → Bytes32 → Prop}
    (hecdsa : AttestorSet.Unforgeable Signed) (h₀ : WrappedInitial w)
    {txs : List (Transaction WrappedCall)} (h : Path (WrappedStep d) w txs w') :
    WrappedSafe Signed d w txs w' where
  gate := gateSafe_of_simulation hecdsa chainStep_deterministic
    (fun _ _ _ hs => gateStep_of_wrappedStep hs) h₀.start.1 h
  running := Path.along_of_invariant chainStep_deterministic h Path.along_mem
    (I := fun _ => True) trivial fun _ _ _ _ _ hs => ⟨paused_of_changesSupply hs, trivial⟩
  supply := (h.invariant_along (I := fun pre s => WrappedBooks pre s.1) Path.along_mem h₀.start.2
    fun _ _ _ _ hb _ hs => hb.step hs).supply

/-! ## Both contracts -/

/-- The transaction pays something out of the vault to the vault. -/
def Transaction.paysItself (self : Address) (t : Transaction VaultCall) : Prop :=
  ∃ amount burnId sigs, t.call = .unlock self amount burnId sigs ∧ t.succeeds = true ∧ amount ≠ 0

omit [EvmSuite] in
lemma paidBack_eq_zero {self : Address} {t : Transaction VaultCall} :
    t.paidBack self = 0 ↔ ¬ t.paysItself self := by
  obtain ⟨msg, call, succeeds⟩ := t
  unfold Transaction.paidBack Transaction.paysItself
  cases call with
  | unlock dst amount burnId sigs =>
    by_cases hdst : dst = self
    · subst hdst
      cases succeeds <;> simp
    · simp [hdst]
  | _ => simp

/-- The vault is safe on a run if and only if no unlock of the run paid the vault itself. -/
lemma VaultInitial.safe_iff {Signed : Address → Bytes32 → Prop}
    (hecdsa : AttestorSet.Unforgeable Signed) (h₀ : VaultInitial d u)
    {txs : List (Transaction VaultCall)} (hrun : Path (VaultStep d) u txs u')
    (hdirect : ∀ t ∈ txs, ¬ t.sendsTo d.self) :
    VaultSafe Signed d u txs u' ↔ ∀ t ∈ txs, ¬ t.paysItself d.self := by
  have hbooks := (h₀.books hrun hdirect).balance
  have hclosed : (∀ t ∈ txs, ¬ t.paysItself d.self) ↔
      sumOf (Transaction.paidBack d.self) txs = 0 := by
    simp only [sumOf_eq_zero, paidBack_eq_zero]
  rw [hclosed]
  constructor
  · intro hsafe
    have hbalance := hsafe.balance
    unfold HKVault.reserves at hbalance
    omega
  · intro hzero
    refine ⟨gateSafe_of_simulation hecdsa chainStep_deterministic
      (fun _ _ _ hs => gateStep_of_vaultStep hs) h₀.fresh hrun, ?_, ?_⟩
    · exact Path.along_of_invariant chainStep_deterministic hrun Path.along_mem
        (I := fun _ => True) trivial fun _ _ _ _ _ hs => ⟨paused_of_movesValue hs, trivial⟩
    · unfold HKVault.reserves
      omega

/-- **The safety of both contracts.**  In every run of the vault from its construction, with any
calls of any callers and no direct transfer to it, everything holds if and only if no unlock paid
the vault itself; in every run of the wrapped token from its construction, everything holds. -/
theorem contracts_safe_iff {Signed : Address → Bytes32 → Prop}
    (hecdsa : AttestorSet.Unforgeable Signed) (d : Deployment) :
    (∀ (u₀ u : (HKVault × Erc20) × ℕ) (txs : List (Transaction VaultCall)), VaultInitial d u₀ →
      Path (VaultStep d) u₀ txs u → (∀ t ∈ txs, ¬ t.sendsTo d.self) →
        (VaultSafe Signed d u₀ txs u ↔ ∀ t ∈ txs, ¬ t.paysItself d.self)) ∧
      ∀ (w₀ w : HKWrapped × ℕ) (txs : List (Transaction WrappedCall)), WrappedInitial w₀ →
        Path (WrappedStep d) w₀ txs w → WrappedSafe Signed d w₀ txs w :=
  ⟨fun _ _ _ h₀ hrun hdirect => h₀.safe_iff hecdsa hrun hdirect,
    fun _ _ _ h₀ hrun => h₀.safe hecdsa hrun⟩

end Contracts

end HashKinetics.Bridge

namespace HashKinetics.Concrete

open Foundations Bridge

/-- A checksum in place of the hash, and signatures that carry their signer and the last byte of the
digest. -/
instance evm : EvmSuite where
  keccak256 bytes := Fin.ofNat _ ((bytes.map UInt8.toNat).foldl (fun acc b => acc * 257 + b + 1) 0)
  recover digest
    | [signer, check] =>
      if check = UInt8.ofNat digest then some (Fin.ofNat _ signer.toNat) else none
    | _ => none

/-- The digests that an address has a signature for. -/
def SignedBy (a : Address) (digest : Bytes32) : Prop := ∃ sig, EvmSuite.recover digest sig = some a

lemma unforgeable_signedBy : AttestorSet.Unforgeable SignedBy := fun _ sig _ h => ⟨sig, h⟩

/-- The vault at address 42. -/
def site : Deployment := ⟨42, 11155111, 3⟩

/-- A vault with one attestor, and a token in which account 8 has approved it. -/
def vaultStart : (HKVault × Erc20) × ℕ :=
  ((⟨⟨⟨[5], Function.update (fun _ => false) 5 true, 1, false, 7, 0⟩, .init 100, fun _ => false⟩, 0,
    1⟩, ⟨Function.update (fun _ => 0) 8 50,
      Function.update (fun _ _ => 0) 8 (Function.update (fun _ => 0) 42 50), 50⟩), 0)

lemma vaultStart_initial : VaultInitial site vaultStart :=
  ⟨⟨99, [5], 1, 100, 1, 7, rfl⟩, rfl, fun _ => rfl⟩

/-- Account 8 locks ten units. -/
def locking := execute (VaultCall.exec site) vaultStart ⟨8, 1000⟩ (.lock 10 1)

/-- The attestor's signature over the release of four units to an address. -/
def releaseTo (dst : Address) : VaultCall :=
  .unlock dst 4 77 [[5, UInt8.ofNat (AttestorSet.typedDigest site.domainSeparator
    (HKVault.unlockStructHash dst 4 77))]]

/-- A release after the lock. -/
def releasing (dst : Address) := execute (VaultCall.exec site) locking.1 ⟨9, 2000⟩ (releaseTo dst)

lemma releasing_run (dst : Address) :
    Path (VaultStep site) vaultStart [locking.2, (releasing dst).2] (releasing dst).1 :=
  .snoc (.single (chainStep_execute _ _ (by decide) (by decide)))
    (chainStep_execute _ _ (by decide +kernel) (by decide))

lemma releasing_succeeds : locking.2.succeeds = true ∧ (releasing 42).2.succeeds = true ∧
    (releasing 8).2.succeeds = true := by
  decide +kernel

lemma locking_call : locking.2.call = .lock 10 1 := call_execute _ _ _ _

lemma releasing_call (dst : Address) : (releasing dst).2.call = releaseTo dst :=
    call_execute _ _ _ _

lemma releasing_not_direct (dst : Address) :
    ∀ t ∈ [locking.2, (releasing dst).2], ¬ t.sendsTo site.self := by
  intro t ht
  simp only [List.mem_cons, List.not_mem_nil, or_false] at ht
  rcases ht with rfl | rfl
  · simp [Transaction.sendsTo, locking_call]
  · simp [Transaction.sendsTo, releasing_call, releaseTo]

/-- A release to the vault's own address: ten units were locked and four unlocked, and the vault
still holds ten. -/
theorem selfRelease_not_safe : ∃ u₀ u txs, VaultInitial site u₀ ∧ Path (VaultStep site) u₀ txs u ∧
    (∀ t ∈ txs, ¬ t.sendsTo site.self) ∧ ¬ VaultSafe SignedBy site u₀ txs u := by
  refine ⟨_, _, _, vaultStart_initial, releasing_run 42, releasing_not_direct 42, fun hsafe => ?_⟩
  have hnone := (vaultStart_initial.safe_iff unforgeable_signedBy (releasing_run 42)
    (releasing_not_direct 42)).mp hsafe (releasing 42).2 (by simp)
  exact hnone ⟨4, 77, _, releasing_call 42, releasing_succeeds.2.1, by decide⟩

/-- A wrapped token with the same attestor. -/
def wrappedStart : HKWrapped × ℕ :=
  (⟨⟨⟨[5], Function.update (fun _ => false) 5 true, 1, false, 7, 0⟩, .init 100, fun _ => false⟩,
    ⟨fun _ => 0, fun _ _ => 0, 0⟩, 0⟩, 0)

lemma wrappedStart_initial : WrappedInitial wrappedStart := ⟨[5], 1, 100, 7, rfl⟩

/-- Six units are minted for account 8 under the attestor's signature. -/
def minting := execute (WrappedCall.exec site) wrappedStart ⟨9, 1000⟩ (.mint 8 6 78
  [[5, UInt8.ofNat (AttestorSet.typedDigest site.domainSeparator
    (HKWrapped.mintStructHash 8 6 78))]])

/-- The account burns two of them. -/
def burning := execute (WrappedCall.exec site) minting.1 ⟨8, 2000⟩ (.burn 2 1)

lemma burning_run : Path (WrappedStep site) wrappedStart [minting.2, burning.2] burning.1 :=
  .snoc (.single (chainStep_execute _ _ (by decide) (by decide)))
    (chainStep_execute _ _ (by decide +kernel) (by decide))

lemma burning_succeeds : minting.2.succeeds = true ∧ burning.2.succeeds = true ∧
    burning.1.1.totalSupply = 4 := by
  decide +kernel

/-- A release to somebody else keeps the vault safe, and so does a mint with a burn the wrapped
token. -/
theorem release_safe :
    (∃ u₀ u txs, VaultInitial site u₀ ∧ Path (VaultStep site) u₀ txs u ∧
      VaultSafe SignedBy site u₀ txs u) ∧
    ∃ w₀ w txs, WrappedInitial w₀ ∧ Path (WrappedStep site) w₀ txs w ∧ txs.length = 2 ∧
      (∀ t ∈ txs, t.succeeds = true) ∧ w.1.totalSupply = 4 ∧ WrappedSafe SignedBy site w₀ txs w := by
  obtain ⟨hvault, hwrapped⟩ := contracts_safe_iff unforgeable_signedBy site
  constructor
  · refine ⟨_, _, _, vaultStart_initial, releasing_run 8,
      (hvault _ _ _ vaultStart_initial (releasing_run 8) (releasing_not_direct 8)).mpr ?_⟩
    rintro t ht ⟨amount, burnId, sigs, hcall, -, -⟩
    simp only [List.mem_cons, List.not_mem_nil, or_false] at ht
    rcases ht with ht | ht
    · rw [ht, locking_call] at hcall
      cases hcall
    · rw [ht, releasing_call] at hcall
      have hdst : (8 : Address) = 42 := (VaultCall.unlock.inj hcall).1
      revert hdst
      decide
  · obtain ⟨hminted, hburned, hsupply⟩ := burning_succeeds
    refine ⟨wrappedStart, burning.1, [minting.2, burning.2], wrappedStart_initial, burning_run, rfl,
      ?_, hsupply, hwrapped _ _ _ wrappedStart_initial burning_run⟩
    intro t ht
    simp only [List.mem_cons, List.not_mem_nil, or_false] at ht
    rcases ht with ht | ht
    · rw [ht]
      exact hminted
    · rw [ht]
      exact hburned

end HashKinetics.Concrete
