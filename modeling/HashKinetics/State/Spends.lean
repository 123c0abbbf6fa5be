import HashKinetics.Wallet.Notes

/-!
# What an accepted spend proves

The statement of the spend circuit against the tree of a pool, for every witness.  An accepted
witness opens the leaf at its index, balances its values and knows an opening of the note's owner;
two accepted witnesses for one commitment reveal one nullifier.  The nullifier is derived from the
nullifier key and the seed of the note, and from nothing else: two notes that repeat a seed under
one key share it, and the choice of seeds is left to whoever creates a note.
-/

namespace HashKinetics

open Foundations Circuit

variable {H : Type} [HashSuite H]

/-- The owner of a note determines the nullifier key it is spent with. -/
lemma Circuit.SpendWitness.Opens.nk_eq (hash : DomainSeparated H) {w w' : SpendWitness H}
    (h : w.Opens) (h' : w'.Opens) (howner : w.inNote.owner = w'.inNote.owner) : w.nk = w'.nk := by
  obtain ⟨_, -, hw⟩ := h
  obtain ⟨_, -, hw'⟩ := h'
  exact hash.address _ _ _ _ (hw.trans (howner.trans hw'.symm))

/-- A path to the root of a tree opens the leaf at its index; a note is never an empty slot. -/
lemma leaf_of_foldPath (hash : DomainSeparated H) {sibs cms : List H} {idx : ℕ} {n : Note H}
    (hlen : sibs.length = TREE_DEPTH)
    (hroot : Merkle.foldPath merkleNode sibs idx (commitNote n) =
      Merkle.subRoot merkleNode (leafAt cms) TREE_DEPTH 0) :
    cms[idx % 2 ^ TREE_DEPTH]? = some (commitNote n) := by
  have hleaf := Merkle.eq_subRoot_of_foldPath merkleNode hash.node sibs 0 0 idx (commitNote n)
    (by rw [hlen, Nat.zero_add]; exact hroot)
  rw [Merkle.subRoot, leafAt, hlen, Nat.zero_mul, Nat.zero_add] at hleaf
  cases hget : cms[idx % 2 ^ TREE_DEPTH]? with
  | none =>
    rw [hget] at hleaf
    exact absurd hleaf (hash.leaf n)
  | some cm =>
    rw [hget] at hleaf
    exact congrArg some hleaf.symm

/-- An accepted witness against the root of a tree opens the leaf at its index, its values add up
without wrapping, it opens the owner of its note, and every accepted witness for the same commitment
reveals the same nullifier. -/
theorem run_sound [DecidableEq H] (hash : DomainSeparated H) (w : SpendWitness H)
    (p : SpendPublic H)
    (h : run w = .ok p) :
    (∀ cms, p.merkleRoot = Merkle.subRoot merkleNode (leafAt cms) TREE_DEPTH 0 →
      cms[w.path.index % 2 ^ TREE_DEPTH]? = some (commitNote w.inNote)) ∧
    (w.inNote.value = w.outNote.value + w.out2Note.value + p.fee ∧ w.inNote.value ≤ u64Max) ∧
    w.Opens ∧
    ∀ w' p', run w' = .ok p' → commitNote w'.inNote = commitNote w.inNote →
      p'.nullifier = p.nullifier := by
  obtain ⟨hdepth, -, hopens, hvalue, hle, rfl⟩ := run_eq_ok_iff.mp h
  refine ⟨fun cms hroot => leaf_of_foldPath hash hdepth hroot, ⟨hvalue, hle⟩, hopens, ?_⟩
  intro w' p' h' hcm
  obtain ⟨-, -, hopens', -, hle', rfl⟩ := run_eq_ok_iff.mp h'
  have hnote := hash.commit _ _ hle' hle hcm
  have hnk : w'.nk = w.nk := hopens'.nk_eq hash hopens (by rw [hnote])
  change Circuit.nullifier w'.nk w'.inNote.rho = Circuit.nullifier w.nk w.inNote.rho
  rw [hnk, hnote]

/-- Two accepted witnesses reveal one nullifier exactly when they use one nullifier key and their
notes carry one seed.  Notes of one owner are spent with one key.  Recording the nullifier of a
spend leaves every other note as spendable as it was. -/
theorem nullifier_eq_iff [LinearOrder H] (hash : DomainSeparated H)
    (hnf : Function.Injective2 (nullifier (H := H))) (w w' : SpendWitness H) (p p' : SpendPublic H)
    (h : run w = .ok p) (h' : run w' = .ok p') :
    (p.nullifier = p'.nullifier ↔ w.nk = w'.nk ∧ w.inNote.rho = w'.inNote.rho) ∧
    (w.inNote.owner = w'.inNote.owner → w.nk = w'.nk) ∧
    (¬ (w.nk = w'.nk ∧ w.inNote.rho = w'.inNote.rho) → ∀ nfs : OrderedSet H,
      p'.nullifier ∈ nfs.insert p.nullifier ↔ p'.nullifier ∈ nfs) := by
  obtain ⟨-, -, hopens, -, -, rfl⟩ := run_eq_ok_iff.mp h
  obtain ⟨-, -, hopens', -, -, rfl⟩ := run_eq_ok_iff.mp h'
  have hiff : w.publics.nullifier = w'.publics.nullifier ↔
      w.nk = w'.nk ∧ w.inNote.rho = w'.inNote.rho := by
    refine ⟨fun heq => hnf heq, ?_⟩
    rintro ⟨hnk, hrho⟩
    exact congrArg₂ Circuit.nullifier hnk hrho
  refine ⟨hiff, hopens.nk_eq hash hopens', ?_⟩
  intro hdiff nfs
  rw [← hiff] at hdiff
  simp [Std.ExtTreeSet.mem_insert, hdiff]

namespace Concrete

/-- A wallet with two one-time keys. -/
def receiver : WalletKeys := ⟨[9], 1, by decide⟩

/-- A note of the wallet with a seed and a randomness that its sender chose. -/
def received (rho rcm : ℕ) : Note ℕ := ⟨5, receiver.ownerTag, rho, rcm⟩

/-- A change note that takes the whole value. -/
def wholeChange : Note ℕ := ⟨5, 0, 0, 0⟩

/-- A second output without value. -/
def noChange : Note ℕ := ⟨0, 0, 0, 0⟩

lemma nullifier_injective : Function.Injective2 (nullifier (H := ℕ)) := by
  intro nk nk' rho rho' h
  have hcodes := map_pieceTag_eq h
  simp only [List.map_cons, List.map_nil, pieceTag, List.cons.injEq, and_true] at hcodes
  omega

lemma commitNote_received_ne {rho rcm rcm' : ℕ} (h : rcm ≠ rcm') :
    commitNote (received rho rcm) ≠ commitNote (received rho rcm') := by
  intro heq
  have hnote := domainSeparated.commit _ _ (by simp [received, u64Max]) (by simp [received, u64Max])
    heq
  simp only [received, Note.mk.injEq, true_and] at hnote
  exact h hnote

/-- A spend of a received note at its leaf is accepted by the circuit. -/
lemma received_accepted (leaves : List ℕ) (i : ℕ) {rho rcm : ℕ}
    (hlen : leaves.length ≤ 2 ^ TREE_DEPTH)
    (hleaf : leaves[i]? = some (commitNote (received rho rcm))) :
    ∃ w p, run w = .ok p ∧ w.inNote = received rho rcm ∧ w.path.index = i ∧
      p.merkleRoot = Merkle.subRoot merkleNode (leafAt leaves) TREE_DEPTH 0 ∧
      p.nullifier = nullifier receiver.nk rho := by
  obtain ⟨_, plan, -, -, -, hrun, hnote, hindex, hpublics⟩ := buildSpend_ok receiver 0
    wholeChange noChange 0 0 hlen hleaf rfl (by decide) rfl (by decide)
  refine ⟨plan.witness, plan.publics, hrun, hnote, hindex, ?_, ?_⟩
  · rw [hpublics]
  · rw [hpublics]
    rfl

/-- The spend of the first of two received notes opens the first leaf. -/
theorem run_sound_received : ∃ w p, run w = .ok p ∧ w.inNote = received 2 3 ∧
    [commitNote (received 2 3), commitNote (received 2 4)][w.path.index % 2 ^ TREE_DEPTH]? =
      some (commitNote w.inNote) := by
  obtain ⟨w, p, hrun, hnote, -, hroot, -⟩ := received_accepted
    [commitNote (received 2 3), commitNote (received 2 4)] 0 (by decide) rfl
  exact ⟨w, p, hrun, hnote, (run_sound domainSeparated w p hrun).1 _ hroot⟩

/-- Two notes with one seed but different randomness stand in one tree, both are spent by accepted
witnesses, and their nullifiers are equal. -/
theorem repeated_seed_nullifier : DomainSeparated ℕ ∧ Function.Injective2 (nullifier (H := ℕ)) ∧
    ∃ (leaves : List ℕ) (w w' : SpendWitness ℕ) (p p' : SpendPublic ℕ),
      run w = .ok p ∧ run w' = .ok p' ∧
      p.merkleRoot = (IncrementalTree.ofLeaves leaves).root ∧
      p'.merkleRoot = (IncrementalTree.ofLeaves leaves).root ∧
      commitNote w.inNote ∈ leaves ∧ commitNote w'.inNote ∈ leaves ∧
      commitNote w.inNote ≠ commitNote w'.inNote ∧ p.nullifier = p'.nullifier := by
  refine ⟨domainSeparated, nullifier_injective, ?_⟩
  have hlen : [commitNote (received 2 3), commitNote (received 2 4)].length < 2 ^ TREE_DEPTH := by
    decide
  obtain ⟨w, p, hrun, hnote, -, hroot, hnf⟩ := received_accepted
    [commitNote (received 2 3), commitNote (received 2 4)] 0 hlen.le rfl
  obtain ⟨w', p', hrun', hnote', -, hroot', hnf'⟩ := received_accepted
    [commitNote (received 2 3), commitNote (received 2 4)] 1 hlen.le rfl
  refine ⟨_, w, w', p, p', hrun, hrun', hroot.trans (IncrementalTree.root_ofLeaves hlen).symm,
    hroot'.trans (IncrementalTree.root_ofLeaves hlen).symm, ?_, ?_, ?_, hnf.trans hnf'.symm⟩
  · simp [hnote]
  · simp [hnote']
  · rw [hnote, hnote']
    exact commitNote_received_ne (by decide)

/-- Two notes of the wallet with different seeds have different nullifiers. -/
theorem nullifier_eq_iff_received : ∃ w w' p p', run w = .ok p ∧ run w' = .ok p' ∧
    w.inNote = received 2 3 ∧ w'.inNote = received 4 3 ∧ p.nullifier ≠ p'.nullifier := by
  obtain ⟨w, p, hrun, hnote, -⟩ := received_accepted
    [commitNote (received 2 3), commitNote (received 4 3)] 0 (by decide) rfl
  obtain ⟨w', p', hrun', hnote', -⟩ := received_accepted
    [commitNote (received 2 3), commitNote (received 4 3)] 1 (by decide) rfl
  refine ⟨w, w', p, p', hrun, hrun', hnote, hnote', fun heq => ?_⟩
  have hboth := (nullifier_eq_iff domainSeparated nullifier_injective w w' p p' hrun hrun').1.mp heq
  rw [hnote, hnote'] at hboth
  exact absurd hboth.2 (by decide)

end Concrete

end HashKinetics
