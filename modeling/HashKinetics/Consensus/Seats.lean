import HashKinetics.Concrete

/-!
# The invariant of the validator set

No event ever seats a root or an address twice, moves a seated validator to another address, empties
the set or leaves it out of order.  A snapshot of the members therefore rebuilds the same ordered
set, and a restored node selects the same proposers as a live one.
-/

namespace HashKinetics

open Foundations

/-! ## Snapshots and proposers -/

/-- A validator as a snapshot stores it. -/
structure ValidatorDto (H : Type) where
  address : HkAddress H
  rootPk : List UInt8
  publicKey : List UInt8
  epoch : ℕ
  votingPower : ℕ

namespace HkValidatorSet

variable {H : Type}

/-- The members as a snapshot stores them. -/
def toSnapshot (s : HkValidatorSet H) : List (ValidatorDto H) :=
  s.validators.map fun v => ⟨v.address, v.rootPk, v.publicKey, v.epoch, v.votingPower⟩

/-- The set a node restores: rebuilt from the snapshot's members if it has any. -/
def restore (current : HkValidatorSet H) (snap : List (ValidatorDto H)) : HkValidatorSet H :=
  if h : snap = [] then current
  else new (snap.map fun v => ⟨v.address, v.rootPk, v.publicKey, v.epoch, v.votingPower⟩)
    (by simpa using h)

/-- A snapshot of the members rebuilds the same ordered set. -/
lemma restore_toSnapshot (current s : HkValidatorSet H) : restore current s.toSnapshot = s := by
  have hne : s.toSnapshot ≠ [] := by simpa [toSnapshot] using s.ne_nil
  have hmembers : (s.toSnapshot.map fun v : ValidatorDto H =>
      (⟨v.address, v.rootPk, v.publicKey, v.epoch, v.votingPower⟩ : HkValidator H)) =
      s.validators := by
    simp [toSnapshot, Function.comp_def]
  ext1
  simp only [restore, hne, dite_false, new, hmembers]
  exact s.sorted.insertionSort_eq

/-- Round-robin over height and round; the index arithmetic is that of a 64-bit `usize`. -/
def proposerIndex (s : HkValidatorSet H) (height round : ℕ) : Fin s.validators.length :=
  ⟨(height - 1 + round) % 2 ^ 64 % s.validators.length,
    Nat.mod_lt _ (List.length_pos_iff.mpr s.ne_nil)⟩

/-- The proposer of a height and a round. -/
def selectProposer (s : HkValidatorSet H) (height round : ℕ) : HkValidator H :=
  s.validators.get (s.proposerIndex height round)

/-! ## Distinct roots and addresses -/

/-- No root is seated twice. -/
def RootsDistinct (s : HkValidatorSet H) : Prop := (s.validators.map HkValidator.rootPk).Nodup

/-- No root and no address is seated twice. -/
structure Distinct (s : HkValidatorSet H) : Prop where
  roots : s.RootsDistinct
  addresses : (s.validators.map HkValidator.address).Nodup

lemma RootsDistinct.eq_of_root {s : HkValidatorSet H} (hs : s.RootsDistinct) {v w : HkValidator H}
    (hv : v ∈ s) (hw : w ∈ s) (h : v.rootPk = w.rootPk) : v = w :=
  List.inj_on_of_nodup_map hs hv hw h

section Fields

variable {α : Type*} (f : HkValidator H → α)

lemma map_new_perm (l : List (HkValidator H)) (h : l ≠ []) :
    ((new l h).validators.map f).Perm (l.map f) :=
  (List.perm_insertionSort _ l).map f

lemma map_repower_perm (s : HkValidatorSet H) (p : HkValidator H → Prop) [DecidablePred p]
    (power : ℕ) (hf : ∀ v : HkValidator H, f { v with votingPower := power } = f v) :
    ((s.repower p power).validators.map f).Perm (s.validators.map f) := by
  refine (map_new_perm f _ _).trans (List.Perm.of_eq ?_)
  rw [List.map_map]
  refine List.map_congr_left fun v _ => ?_
  simp only [Function.comp_apply]
  split_ifs with hp
  · exact hf v
  · rfl

lemma nodup_map_without {s : HkValidatorSet H} (h : (s.validators.map f).Nodup)
    {root : List UInt8} (hne : s.without root ≠ []) :
    ((new (s.without root) hne).validators.map f).Nodup :=
  (map_new_perm f _ hne).nodup_iff.mpr (h.sublist (List.filter_sublist.map f))

lemma nodup_map_push {s : HkValidatorSet H} (h : (s.validators.map f).Nodup) {v : HkValidator H}
    (hv : ∀ w ∈ s, f w ≠ f v) : ((s.push v).validators.map f).Nodup := by
  apply (map_new_perm f _ _).nodup_iff.mpr
  rw [List.map_append, List.map_singleton, List.nodup_append]
  refine ⟨h, List.nodup_singleton _, ?_⟩
  rintro a ha b hb rfl
  obtain ⟨w, hw, hwa⟩ := List.mem_map.mp ha
  exact hv w hw (hwa.trans (List.mem_singleton.mp hb))

lemma map_mapSeats (s : HkValidatorSet H) {g : HkValidator H → HkValidator H}
    (hg : ∀ v, (g v).address = v.address ∧ (g v).votingPower = v.votingPower)
    (hf : ∀ v, f (g v) = f v) : (s.mapSeats g hg).validators.map f = s.validators.map f := by
  rw [mapSeats, List.map_map]
  exact List.map_congr_left fun v _ => hf v

end Fields

variable [HashSuite H]

/-- A genesis file with distinct roots and addresses gives such a set. -/
lemma distinct_genesis {gvs : List GenesisValidator} {s : HkValidatorSet H}
    (hg : genesisValidatorSet gvs = .ok s) (hroots : (gvs.map GenesisValidator.rootPk).Nodup)
    (haddr : (gvs.map fun v =>
      (HkAddress.fromPublicKey v.publicKey : HkAddress H)).Nodup) : s.Distinct := by
  unfold genesisValidatorSet at hg
  simp only at hg
  split at hg
  · cases hg
  · split_ifs at hg with hne
    cases hg
    refine ⟨(map_new_perm _ _ hne).nodup_iff.mpr ?_, (map_new_perm _ _ hne).nodup_iff.mpr ?_⟩
    · simpa [HkValidator.new, Function.comp_def] using hroots
    · simpa [HkValidator.new, Function.comp_def] using haddr

/-- The seat was there before, with the same root, address and epoch. -/
def Origin (s : HkValidatorSet H) (w : HkValidator H) : Prop :=
  ∃ v ∈ s, v.rootPk = w.rootPk ∧ v.address = w.address ∧ v.epoch = w.epoch

omit [HashSuite H] in
lemma origin_of_mem_repower {s : HkValidatorSet H} {p : HkValidator H → Prop} [DecidablePred p]
    {power : ℕ} {w : HkValidator H} (hw : w ∈ s.repower p power) : s.Origin w := by
  obtain ⟨v, hv, rfl⟩ := mem_repower.mp hw
  exact ⟨v, hv, by split <;> exact ⟨rfl, rfl, rfl⟩⟩

variable {s s' : HkValidatorSet H} {ch : SetChange}

lemma Effect.rootsDistinct (h : Effect s ch s') (hs : s.RootsDistinct) : s'.RootsDistinct := by
  cases h with
  | admitSeat hseat _ => exact nodup_map_push _ hs fun w hw hwr => hseat ⟨w, hw, hwr⟩
  | remove _ hne => exact nodup_map_without _ hs hne
  | setPower => exact (map_repower_perm _ s _ _ fun _ => rfl).nodup_iff.mpr hs

lemma Effect.distinct (h : Effect s ch s') (hs : s.Distinct) : s'.Distinct := by
  refine ⟨h.rootsDistinct hs.roots, ?_⟩
  cases h with
  | admitSeat _ haddr => exact nodup_map_push _ hs.addresses haddr
  | remove _ hne => exact nodup_map_without _ hs.addresses hne
  | setPower => exact (map_repower_perm _ s _ _ fun _ => rfl).nodup_iff.mpr hs.addresses

lemma Effect.origin (h : Effect s ch s') {w : HkValidator H} (hw : w ∈ s') :
    s.Origin w ∨ ¬ s.Seated w.rootPk := by
  cases h with
  | admitSeat hseat haddr =>
    rcases mem_push.mp hw with hw | rfl
    · exact .inl ⟨w, hw, rfl, rfl, rfl⟩
    · exact .inr hseat
  | remove =>
    obtain ⟨hw, -⟩ := mem_without.mp (mem_new.mp hw)
    exact .inl ⟨w, hw, rfl, rfl, rfl⟩
  | setPower => exact .inl (origin_of_mem_repower hw)

variable [RootScheme] {rules : SetRules} {height : ℕ} {ev : SetEvent}

/-- No event seats a root twice. -/
lemma Step.rootsDistinct (h : Step rules s height ev s') (hs : s.RootsDistinct) :
    s'.RootsDistinct := by
  cases h with
  | rotation =>
    rw [RootsDistinct, rekey, map_mapSeats _ s _ fun v => by split <;> rfl]
    exact hs
  | change _ heff => exact heff.rootsDistinct hs
  | bootstrap => exact (map_repower_perm _ s _ _ fun _ => rfl).nodup_iff.mpr hs

/-- No event seats a root or an address twice. -/
lemma Step.distinct (h : Step rules s height ev s') (hs : s.Distinct) : s'.Distinct := by
  refine ⟨h.rootsDistinct hs.roots, ?_⟩
  cases h with
  | rotation =>
    rw [rekey, map_mapSeats _ s _ fun v => by split <;> rfl]
    exact hs.addresses
  | change _ heff => exact (heff.distinct hs).addresses
  | bootstrap => exact (map_repower_perm _ s _ _ fun _ => rfl).nodup_iff.mpr hs.addresses

/-- Every seat after an event was there before it, at the same address, or is a newcomer's. -/
lemma Step.origin (h : Step rules s height ev s') {w : HkValidator H} (hw : w ∈ s') :
    (∃ v ∈ s, v.rootPk = w.rootPk ∧ v.address = w.address) ∨ ¬ s.Seated w.rootPk := by
  cases h with
  | rotation =>
    obtain ⟨v, hv, rfl⟩ := mem_mapSeats.mp hw
    exact .inl ⟨v, hv, by split <;> exact ⟨rfl, rfl⟩⟩
  | change _ heff =>
    apply (heff.origin hw).imp_left
    rintro ⟨v, hv, hroot, haddr, -⟩
    exact ⟨v, hv, hroot, haddr⟩
  | bootstrap =>
    obtain ⟨v, hv, hroot, haddr, -⟩ := origin_of_mem_repower hw
    exact .inl ⟨v, hv, hroot, haddr⟩

/-- An event keeps the roots and addresses distinct. -/
lemma distinct_applyEvent (rules : SetRules) (l : ℕ × SetEvent) (hs : s.Distinct) :
    (applyEvent rules s l).Distinct := by
  rcases applyEvent_cases rules s l with h | h
  · rwa [h]
  · exact h.distinct hs

lemma distinct_runEvents (rules : SetRules) (ls : List (ℕ × SetEvent)) (hs : s.Distinct) :
    (runEvents rules s ls).Distinct :=
  invariant_of_foldl (fun _ l h => distinct_applyEvent rules l h) ls hs

/-- A validator that is seated before and after an event keeps its address. -/
lemma address_applyEvent (rules : SetRules) (l : ℕ × SetEvent) (hs : s.Distinct)
    {v w : HkValidator H} (hv : v ∈ s) (hw : w ∈ applyEvent rules s l)
    (hroot : v.rootPk = w.rootPk) : w.address = v.address := by
  rcases applyEvent_cases rules s l with h | h
  · rw [h] at hw
    rw [hs.roots.eq_of_root hv hw hroot]
  · rcases h.origin hw with ⟨u, hu, hur, hua⟩ | hnew
    · rw [hs.roots.eq_of_root hv hu (hroot.trans hur.symm), hua]
    · exact absurd ⟨v, hv, hroot⟩ hnew

/-- A validator that stays seated keeps its address. -/
lemma address_runEvents (rules : SetRules) (ls : List (ℕ × SetEvent)) (hs : s.Distinct)
    {v w : HkValidator H} (hv : v ∈ s) (hw : w ∈ runEvents rules s ls)
    (hroot : v.rootPk = w.rootPk)
    (hseated : ∀ pre, pre <+: ls → (runEvents rules s pre).Seated v.rootPk) :
    w.address = v.address := by
  induction ls using List.reverseRecOn generalizing w with
  | nil => rw [hs.roots.eq_of_root hv hw hroot]
  | append_singleton ls l ih =>
    rw [runEvents_snoc] at hw
    obtain ⟨u, hu, hur⟩ := hseated ls (List.prefix_append _ _)
    have huv : u.address = v.address :=
      ih hu hur.symm fun pre hpre => hseated pre (hpre.trans (List.prefix_append _ _))
    rw [← huv]
    exact address_applyEvent rules l (distinct_runEvents rules ls hs) hu hw (hur.trans hroot)

/-- Along every sequence of events from a genesis set with distinct roots and addresses, the set is
not empty, seats no root and no address twice, is in order, never moves a seated validator to
another address, and is rebuilt by a restored node, which then selects the same proposers. -/
theorem seats_invariant (rules : SetRules) {gvs : List GenesisValidator} {s₀ : HkValidatorSet H}
    (hg : genesisValidatorSet gvs = .ok s₀) (hroots : (gvs.map GenesisValidator.rootPk).Nodup)
    (haddr : (gvs.map fun v => (HkAddress.fromPublicKey v.publicKey : HkAddress H)).Nodup)
    (ls : List (ℕ × SetEvent)) :
    (runEvents rules s₀ ls).validators ≠ [] ∧
      (runEvents rules s₀ ls).Distinct ∧
      (runEvents rules s₀ ls).validators.Pairwise HkValidator.Before ∧
      (∀ later, ∀ v ∈ runEvents rules s₀ ls, ∀ w ∈ runEvents rules s₀ (ls ++ later),
        v.rootPk = w.rootPk →
        (∀ pre, pre <+: later → (runEvents rules s₀ (ls ++ pre)).Seated v.rootPk) →
        w.address = v.address) ∧
      (∀ current, restore current (runEvents rules s₀ ls).toSnapshot = runEvents rules s₀ ls) ∧
      ∀ current height round,
        (restore current (runEvents rules s₀ ls).toSnapshot).selectProposer height round =
          (runEvents rules s₀ ls).selectProposer height round := by
  have hdist : (runEvents rules s₀ ls).Distinct :=
    distinct_runEvents rules ls (distinct_genesis hg hroots haddr)
  refine ⟨HkValidatorSet.ne_nil _, hdist, HkValidatorSet.sorted _, ?_, ?_, ?_⟩
  · intro later v hv w hw hroot hseated
    simp only [runEvents_append] at hw hseated
    exact address_runEvents rules later hdist hv hw hroot hseated
  · exact fun current => restore_toSnapshot current _
  · intro current height round
    rw [restore_toSnapshot]

end HkValidatorSet

namespace Concrete

open HkValidatorSet

/-- The set that the admission of the newcomer leads to is in order and can be restored. -/
theorem admission_seats :
    runEvents setRules foundingSet [(1, .setChange admission)] ≠ foundingSet ∧
      (runEvents setRules foundingSet [(1, .setChange admission)]).Distinct ∧
      restore foundingSet (runEvents setRules foundingSet [(1, .setChange admission)]).toSnapshot =
        runEvents setRules foundingSet [(1, .setChange admission)] := by
  obtain ⟨-, hdist, -, -, hrestore, -⟩ :=
    seats_invariant setRules genesis_founders (by decide) (by decide) [(1, .setChange admission)]
  exact ⟨by decide +kernel, hdist, hrestore foundingSet⟩

end Concrete

end HashKinetics
