import HashKinetics.Mandate.Walk

/-!
# What a mandate can spend

Three walks over the chain of a leaf: the check, the debit and the availability.  Whether the check
passes says the same of every node on the chain, so a spend goes through exactly when it does; and
the availability is the largest amount that every node on the chain lets through.
-/

namespace HashKinetics.MandateTree

open Foundations

variable {H : Type} [LinearOrder H]

/-- The smallest of the allowances and limits of a chain, starting from `avail` at a depth. -/
def availableChain (now : ℕ) : ℕ → ℕ → List H → Exec (MandateTree H) SpendError ℕ
  | _, avail, [] => pure avail
  | depth, avail, id :: ids => do
    let t ← Exec.get
    let n ← Exec.unwrap t.nodes[id]?
    Exec.rejectIf (n.revoked = true) (.revoked depth)
    Exec.rejectIf (n.expiry ≤ now) (.expired depth)
    availableChain now (depth + 1) (min (min avail (n.projected now)) n.perTxMax) ids

/-- What can be spent from a leaf right now. -/
def available (leaf : H) (now : ℕ) : Exec (MandateTree H) SpendError ℕ := do
  let t ← Exec.get
  let chain ← Exec.ofExcept id (t.chainOf leaf)
  availableChain now 0 u128Max chain

variable {t t' : MandateTree H} {leaf : H} {amount now : ℕ} {chain : List H}

/-! ## The check and the spend -/

/-- A chain that the amount clears passes the check. -/
lemma checkChain_of_clears (depth : ℕ)
    (h : ∀ id ∈ chain, ∃ n, t.nodes[id]? = some n ∧ n.Clears amount now) :
    checkChain amount now depth chain t = (.ok (), t) := by
  induction chain generalizing depth with
  | nil => rfl
  | cons id ids ih =>
    obtain ⟨⟨n, hn, hclears⟩, hrest⟩ := List.forall_mem_cons.mp h
    have hlive : ¬ n.revoked = true := by simp [hclears.live]
    simp only [checkChain, Exec.get_bind_eq_ok, Exec.unwrap_bind_eq_ok, Exec.rejectIf_bind_eq_ok]
    exact ⟨n, hn, hlive, not_le.mpr hclears.unexpired, not_lt.mpr hclears.perTx,
      not_lt.mpr hclears.funded, ih (depth + 1) hrest⟩

/-- The check passes exactly when the amount clears every node of the chain. -/
lemma check_ok_iff : (check leaf amount now t).1 = .ok () ↔
    ∃ chain, t.chainOf leaf = .ok chain ∧
      ∀ id ∈ chain, ∃ n, t.nodes[id]? = some n ∧ n.Clears amount now := by
  constructor
  · intro h
    exact (check_eq_ok (Exec.eq_of_outcome h)).2
  · rintro ⟨chain, hchain, hclears⟩
    have hcheck : check leaf amount now t = (.ok (), t) := by
      simp only [check, Exec.get_bind_eq_ok, Exec.ofExcept_bind_eq_ok]
      exact ⟨chain, hchain, checkChain_of_clears 0 hclears⟩
    rw [hcheck]


omit [LinearOrder H] in
/-- An amount that a node clears is in its buffer once that has accrued. -/
lemma le_buffer_accrue {n : MandateNode H} (h : amount ≤ n.projected now) :
    amount ≤ (n.accrue now).buffer := by
  unfold MandateNode.accrue
  split_ifs with hlater
  · exact h
  · have hzero : now - n.lastAccrual = 0 := by omega
    simp only [MandateNode.projected, satAdd, satMul, hzero, Nat.mul_zero] at h
    omega

/-- A chain that the amount clears is debited. -/
lemma debitChain_of_clears (hnd : chain.Nodup)
    (h : ∀ id ∈ chain, ∃ n, t.nodes[id]? = some n ∧ n.Clears amount now) :
    ∃ t', debitChain amount now chain t = (.ok (), t') := by
  induction chain generalizing t with
  | nil => exact ⟨t, rfl⟩
  | cons k ids ih =>
    obtain ⟨hk, hnd⟩ := List.nodup_cons.mp hnd
    obtain ⟨⟨n, hn, hclears⟩, hrest⟩ := List.forall_mem_cons.mp h
    simp only [debitChain, Exec.get_bind_eq_ok, Exec.unwrap_bind_eq_ok, Exec.modify_bind_eq_ok,
      checkedSub_eq_some]
    obtain ⟨t', ht'⟩ := ih (t := ⟨t.nodes.insert k (n.debited amount now)⟩) hnd fun id hid => by
      obtain ⟨m, hm, hmclears⟩ := hrest id hid
      have hne : k ≠ id := fun heq => hk (heq ▸ hid)
      exact ⟨m, by rwa [OrderedMap.get_insert, if_neg hne], hmclears⟩
    exact ⟨t', n, hn, _, ⟨le_buffer_accrue hclears.funded, rfl⟩, ht'⟩

/-- A spend goes through exactly when the check passes. -/
lemma spend_ok_iff : (spend leaf amount now t).1 = .ok () ↔
    (check leaf amount now t).1 = .ok () := by
  constructor
  · intro h
    obtain ⟨chain, hspent⟩ := spend_eq_ok (Exec.eq_of_outcome h)
    exact check_ok_iff.mpr ⟨chain, hspent.walk, hspent.clears⟩
  · intro h
    have hcheck := Exec.eq_of_outcome h
    obtain ⟨hsame, chain, hchain, hclears⟩ := check_eq_ok hcheck
    rw [hsame] at hcheck
    obtain ⟨t', ht'⟩ := debitChain_of_clears (isChain_of_chainOf hchain).nodup hclears
    have hspend : spend leaf amount now t = (.ok (), t') := by
      refine Exec.bind_eq_ok.mpr ⟨(), t, hcheck, ?_⟩
      simp only [Exec.get_bind_eq_ok, Exec.ofExcept_bind_eq_ok]
      exact ⟨chain, hchain, ht'⟩
    rw [hspend]

/-- The chain of a leaf is the leaf and its ancestors. -/
lemma IsChain.mem_iff (h : IsChain t leaf chain) {id : H} :
    id ∈ chain ↔ Relation.ReflTransGen t.ParentOf id leaf := by
  induction h with
  | @root leaf n hn hp =>
    rw [List.mem_singleton]
    constructor
    · rintro rfl
      exact .refl
    · intro habove
      rcases Relation.ReflTransGen.cases_tail habove with heq | ⟨p, -, m, hm, hparent⟩
      · exact heq.symm
      · rw [hn] at hm
        obtain rfl := Option.some.inj hm
        rw [hp] at hparent
        cases hparent
  | @step leaf p n chain hn hp hc ih =>
    rw [List.mem_cons, ih]
    constructor
    · rintro (rfl | habove)
      · exact .refl
      · exact habove.tail ⟨n, hn, hp⟩
    · intro habove
      rcases Relation.ReflTransGen.cases_tail habove with heq | ⟨q, hq, m, hm, hparent⟩
      · exact .inl heq.symm
      · rw [hn] at hm
        obtain rfl := Option.some.inj hm
        rw [hp] at hparent
        exact .inr (Option.some.inj hparent ▸ hq)

/-! ## The availability -/

/-- What lies below the availability of a chain is what every node lets through. -/
lemma availableChain_eq_ok {depth avail a : ℕ}
    (h : availableChain now depth avail chain t = (.ok a, t')) :
    (∀ id ∈ chain, ∃ n, t.nodes[id]? = some n ∧ n.revoked = false ∧ now < n.expiry) ∧
      ∀ x, x ≤ a ↔ x ≤ avail ∧ ∀ id ∈ chain, ∀ n, t.nodes[id]? = some n →
        x ≤ n.projected now ∧ x ≤ n.perTxMax := by
  induction chain generalizing depth avail with
  | nil =>
    simp only [availableChain, Exec.pure_eq_ok] at h
    simp [h.1]
  | cons id ids ih =>
    simp only [availableChain, Exec.get_bind_eq_ok, Exec.unwrap_bind_eq_ok,
      Exec.rejectIf_bind_eq_ok] at h
    obtain ⟨n, hn, hlive, hexpiry, hrest⟩ := h
    obtain ⟨hall, hle⟩ := ih hrest
    refine ⟨List.forall_mem_cons.mpr ⟨⟨n, hn, by simpa using hlive, not_le.mp hexpiry⟩, hall⟩,
      fun x => ?_⟩
    rw [hle, List.forall_mem_cons]
    simp only [hn, Option.some.injEq, forall_eq', le_min_iff]
    tauto

/-- A chain of live nodes has an availability. -/
lemma availableChain_of_live (depth avail : ℕ)
    (h : ∀ id ∈ chain, ∃ n, t.nodes[id]? = some n ∧ n.revoked = false ∧ now < n.expiry) :
    ∃ a, availableChain now depth avail chain t = (.ok a, t) := by
  induction chain generalizing depth avail with
  | nil => exact ⟨avail, rfl⟩
  | cons id ids ih =>
    obtain ⟨⟨n, hn, hlive, hexpiry⟩, hrest⟩ := List.forall_mem_cons.mp h
    obtain ⟨a, ha⟩ := ih (depth + 1) (min (min avail (n.projected now)) n.perTxMax) hrest
    have hnot : ¬ n.revoked = true := by simp [hlive]
    refine ⟨a, ?_⟩
    simp only [availableChain, Exec.get_bind_eq_ok, Exec.unwrap_bind_eq_ok,
      Exec.rejectIf_bind_eq_ok]
    exact ⟨n, hn, hnot, not_le.mpr hexpiry, ha⟩

/-- An amount within the availability is one that the check accepts. -/
lemma le_available_iff {a : ℕ} (h : (available leaf now t).1 = .ok a) (x : ℕ) :
    (check leaf x now t).1 = .ok () ↔ x ≤ a := by
  have hrun := Exec.eq_of_outcome h
  simp only [available, Exec.get_bind_eq_ok, Exec.ofExcept_bind_eq_ok] at hrun
  obtain ⟨chain, hchain, hrest⟩ := hrun
  obtain ⟨hlive, hle⟩ := availableChain_eq_ok hrest
  rw [check_ok_iff, hle]
  constructor
  · rintro ⟨chain', hchain', hclears⟩
    obtain rfl : chain = chain' := by rw [hchain] at hchain'; cases hchain'; rfl
    have hwidth : x ≤ u128Max := by
      obtain ⟨n, -, hn⟩ := hclears leaf (isChain_of_chainOf hchain).head_mem
      exact hn.funded.trans ((min_le_left _ _).trans (min_le_right _ _))
    refine ⟨hwidth, fun id hid n hn => ?_⟩
    obtain ⟨m, hm, hmclears⟩ := hclears id hid
    obtain rfl := Option.some.inj (hn.symm.trans hm)
    exact ⟨hmclears.funded, hmclears.perTx⟩
  · rintro ⟨-, hall⟩
    refine ⟨chain, hchain, fun id hid => ?_⟩
    obtain ⟨n, hn, hlive, hexpiry⟩ := hlive id hid
    obtain ⟨hfunded, hperTx⟩ := hall id hid n hn
    exact ⟨n, hn, hlive, hexpiry, hperTx, hfunded⟩

/-- Where the check accepts something there is an availability. -/
lemma available_of_check {x : ℕ} (h : (check leaf x now t).1 = .ok ()) :
    ∃ a, (available leaf now t).1 = .ok a := by
  obtain ⟨chain, hchain, hclears⟩ := check_ok_iff.mp h
  have hlive : ∀ id ∈ chain, ∃ n, t.nodes[id]? = some n ∧ n.revoked = false ∧ now < n.expiry := by
    intro id hid
    obtain ⟨n, hn, hnclears⟩ := hclears id hid
    exact ⟨n, hn, hnclears.live, hnclears.unexpired⟩
  obtain ⟨a, ha⟩ := availableChain_of_live 0 u128Max hlive
  have hrun : available leaf now t = (.ok a, t) := by
    simp only [available, Exec.get_bind_eq_ok, Exec.ofExcept_bind_eq_ok]
    exact ⟨chain, hchain, ha⟩
  exact ⟨a, by rw [hrun]⟩

/-- The three walks agree on every tree: a spend goes through exactly when the check passes; it
takes the amount off the accrued buffer of the leaf and of every ancestor and leaves the other nodes
alone; and the availability is the largest amount that passes the check, and missing only where none
does. -/
theorem check_spend_available_agree (t : MandateTree H) (leaf : H) (now : ℕ) :
    (∀ amount, (spend leaf amount now t).1 = .ok () ↔ (check leaf amount now t).1 = .ok ()) ∧
      (∀ amount t', spend leaf amount now t = (.ok (), t') → ∀ id,
        (Relation.ReflTransGen t.ParentOf id leaf → ∃ n n', t.nodes[id]? = some n ∧
          t'.nodes[id]? = some n' ∧ n'.buffer + amount = (n.accrue now).buffer ∧
          n' = { n.accrue now with buffer := n'.buffer }) ∧
        (¬ Relation.ReflTransGen t.ParentOf id leaf → t'.nodes[id]? = t.nodes[id]?)) ∧
      (∀ a, (available leaf now t).1 = .ok a →
        IsGreatest {x | (check leaf x now t).1 = .ok ()} a) ∧
      ((∀ a, (available leaf now t).1 ≠ .ok a) → ∀ x, (check leaf x now t).1 ≠ .ok ()) := by
  refine ⟨fun amount => spend_ok_iff, fun amount t' h id => ?_, fun a h => ?_, fun h x hx => ?_⟩
  · obtain ⟨chain, hspent⟩ := spend_eq_ok h
    have hmem : id ∈ chain ↔ _ := (isChain_of_chainOf hspent.walk).mem_iff
    rw [← hmem, hspent.nodes id]
    refine ⟨fun hid => ?_, fun hid => if_neg hid⟩
    obtain ⟨n, hn, hclears⟩ := hspent.clears id hid
    refine ⟨n, n.debited amount now, hn, by rw [if_pos hid, hn]; rfl, ?_, rfl⟩
    exact Nat.sub_add_cancel (le_buffer_accrue hclears.funded)
  · have hle := le_available_iff h
    exact ⟨(hle a).mpr le_rfl, fun x hx => (hle x).mp hx⟩
  · obtain ⟨a, ha⟩ := available_of_check hx
    exact h a ha

end HashKinetics.MandateTree
