import HashKinetics.Mandate.Budget

/-!
# Assets along a chain

A spending sink compares the asset of the leaf with the asset of its root.  Whether that settles the
assets of all nodes between them depends on how the tree was built: it does as long as no creation
returned to the asset of the root below a node in another asset (`ReturnsToRoot`).
-/

namespace HashKinetics.MandateTree

open Foundations

variable {H : Type} [LinearOrder H] {t t' : MandateTree H}

/-- The asset a mandate denominates. -/
def assetOf (t : MandateTree H) (id : H) : Option H := t.nodes[id]?.map MandateNode.asset

/-! ## Chains under steps that write no new node -/

/-- The same nodes under the same terms. -/
def SameTerms (t t' : MandateTree H) : Prop :=
  ∀ id : H, t'.nodes[id]?.map MandateNode.terms = t.nodes[id]?.map MandateNode.terms

lemma SameTerms.field {α : Type} (h : SameTerms t t') (f : MandateNode H → α)
    (hf : ∀ n, f n.terms = f n) (id : H) : t'.nodes[id]?.map f = t.nodes[id]?.map f := by
  have hcomp : ∀ o : Option (MandateNode H), o.map f = (o.map MandateNode.terms).map f := by
    intro o
    cases o with
    | none => rfl
    | some n => exact congrArg some (hf n).symm
  rw [hcomp t'.nodes[id]?, hcomp t.nodes[id]?, h id]

lemma SameTerms.assetOf (h : SameTerms t t') (id : H) : t'.assetOf id = t.assetOf id :=
  h.field MandateNode.asset (fun _ => rfl) id

lemma SameTerms.chainFrom (h : SameTerms t t') (fuel : ℕ) (leaf : H) :
    t'.chainFrom fuel leaf = t.chainFrom fuel leaf := by
  induction fuel generalizing leaf with
  | zero => rfl
  | succ fuel ih =>
    have hparent := h.field MandateNode.parent (fun _ => rfl) leaf
    unfold MandateTree.chainFrom
    cases hn : t.nodes[leaf]? with
    | none =>
      rw [hn, Option.map_none, Option.map_eq_none_iff] at hparent
      rw [hparent]
    | some n =>
      rw [hn, Option.map_some] at hparent
      obtain ⟨n', hn', hp⟩ := Option.map_eq_some_iff.mp hparent
      simp only [hn', hp, ih]

/-! ## Chains under creation -/

/-- A longer walk finds the same chain. -/
lemma chainFrom_succ {fuel : ℕ} {leaf : H} {chain : List H}
    (h : t.chainFrom fuel leaf = .ok chain) :
    t.chainFrom (fuel + 1) leaf = .ok chain := by
  induction fuel generalizing leaf chain with
  | zero => cases h
  | succ fuel ih =>
    unfold chainFrom at h ⊢
    split at h
    · cases h
    next n hn =>
    split at h
    · exact h
    · split at h
      · next rest hrest =>
        simp only [ih hrest]
        exact h
      · cases h

/-- Every parent is a node. -/
def Closed (t : MandateTree H) : Prop :=
  ∀ (id : H) n p, t.nodes[id]? = some n → n.parent = some p → ∃ parent, t.nodes[p]? = some parent

/-- A new node changes no chain that was there. -/
lemma Closed.chainFrom_insert (hc : Closed t) {node : MandateNode H}
    (hfresh : t.nodes[node.id]? = none) (fuel : ℕ) {leaf : H} {n : MandateNode H}
    (hn : t.nodes[leaf]? = some n) :
    (⟨t.nodes.insert node.id node⟩ : MandateTree H).chainFrom fuel leaf =
      t.chainFrom fuel leaf := by
  induction fuel generalizing leaf n with
  | zero => rfl
  | succ fuel ih =>
    have hne : node.id ≠ leaf := by
      rintro rfl
      rw [hfresh] at hn
      cases hn
    unfold MandateTree.chainFrom
    simp only [OrderedMap.get_insert, if_neg hne, hn]
    cases hp : n.parent with
    | none => rfl
    | some p =>
      obtain ⟨parent, hparent⟩ := hc leaf n p hn hp
      simp only [ih hparent]

/-! ## The invariant -/

/-- A node in the asset `asset` below `parent` would return to the asset of its root below a node in
another asset. -/
def ReturnsToRoot (t : MandateTree H) (parent : Option H) (asset : H) : Prop :=
  ∃ p root, parent = some p ∧ t.rootOf p = .ok root ∧ t.assetOf root = some asset ∧
    t.assetOf p ≠ some asset

/-- A leaf in the asset of its root has a chain in that asset. -/
structure RootBound (t : MandateTree H) : Prop where
  closed : Closed t
  uniform : ∀ leaf chain, t.chainOf leaf = .ok chain →
    t.assetOf leaf = t.assetOf (chain.getLastD leaf) → ∀ id ∈ chain, t.assetOf id = t.assetOf leaf

lemma rootBound_empty : RootBound (∅ : MandateTree H) where
  closed id n p hn := by simp at hn
  uniform leaf chain h := by
    obtain ⟨n, hn⟩ := (isChain_of_chainOf h).exists_node (isChain_of_chainOf h).head_mem
    simp at hn

lemma RootBound.of_sameTerms (hr : RootBound t) (h : SameTerms t t') : RootBound t' where
  closed id n p hn hp := by
    have hparent := h.field MandateNode.parent (fun _ => rfl) id
    rw [hn, Option.map_some, hp] at hparent
    obtain ⟨n₀, hn₀, hp₀⟩ := Option.map_eq_some_iff.mp hparent.symm
    obtain ⟨parent, hget⟩ := hr.closed id n₀ p hn₀ hp₀
    have hsome := h p
    rw [hget, Option.map_some] at hsome
    obtain ⟨parent', hget', -⟩ := Option.map_eq_some_iff.mp hsome
    exact ⟨parent', hget'⟩
  uniform leaf chain hchain hasset id hid := by
    have hwalk : t.chainOf leaf = .ok chain := (h.chainFrom MAX_DEPTH leaf).symm.trans hchain
    rw [h.assetOf, h.assetOf] at hasset ⊢
    exact hr.uniform leaf chain hwalk hasset id hid

/-- The last id of a chain is on it. -/
lemma IsChain.getLastD_mem {leaf : H} {chain : List H} (h : IsChain t leaf chain) (d : H) :
    chain.getLastD d ∈ chain := by
  cases h with
  | root => simp
  | step =>
    rw [List.getLastD_cons]
    exact List.getLastD_mem_cons

lemma RootBound.create (hr : RootBound t) {node : MandateNode H}
    (hfresh : t.nodes[node.id]? = none)
    (hparent : ∀ p, node.parent = some p → ∃ parent, t.nodes[p]? = some parent)
    (hno : ¬ ReturnsToRoot t node.parent node.asset) :
    RootBound ⟨t.nodes.insert node.id node⟩ := by
  set t' : MandateTree H := ⟨t.nodes.insert node.id node⟩ with ht'
  have hold : ∀ (id : H) n, t.nodes[id]? = some n → t'.nodes[id]? = some n := by
    intro id n hn
    have hne : node.id ≠ id := by
      rintro rfl
      rw [hfresh] at hn
      cases hn
    rw [ht', OrderedMap.get_insert, if_neg hne, hn]
  have hasset_old : ∀ (id : H) n, t.nodes[id]? = some n → t'.assetOf id = t.assetOf id := by
    intro id n hn
    rw [assetOf, assetOf, hold id n hn, hn]
  have hasset_new : t'.assetOf node.id = some node.asset := by
    simp [assetOf, ht']
  refine ⟨?_, ?_⟩
  · intro id n p hn hp
    rw [ht', OrderedMap.get_insert] at hn
    have hin : ∃ parent, t.nodes[p]? = some parent := by
      split_ifs at hn
      · cases hn
        exact hparent p hp
      · exact hr.closed id n p hn hp
    obtain ⟨parent, hget⟩ := hin
    exact ⟨parent, hold p parent hget⟩
  · intro leaf chain hchain hsame
    by_cases hleaf : leaf = node.id
    · -- the new leaf: its chain is itself and the chain of its parent
      subst hleaf
      change t'.chainFrom (63 + 1) node.id = _ at hchain
      have hself : t'.nodes[node.id]? = some node := by simp [ht']
      rw [MandateTree.chainFrom, hself] at hchain
      cases hp : node.parent with
      | none =>
        simp only [hp] at hchain
        cases hchain
        simp
      | some p =>
        obtain ⟨parent, hget⟩ := hparent p hp
        simp only [hp] at hchain
        have hup : t'.chainFrom 63 p = t.chainFrom 63 p :=
          hr.closed.chainFrom_insert hfresh 63 hget
        split at hchain
        · next rest hrest =>
          cases hchain
          have hwalk : t.chainOf p = .ok rest := chainFrom_succ (hup.symm.trans hrest)
          have hrest' := isChain_of_chainOf hwalk
          set root := rest.getLastD p with hroot
          have hlast : (node.id :: rest).getLastD node.id = root := by
            rw [List.getLastD_cons, hroot]
            cases rest with
            | nil => cases hrest'.head_mem
            | cons r rest => rfl
          obtain ⟨rootNode, hrootNode⟩ := hrest'.exists_node (hrest'.getLastD_mem p)
          rw [hlast, hasset_new, hasset_old root rootNode hrootNode] at hsame
          have hpasset : t.assetOf p = some node.asset := by
            by_contra hne
            refine hno ⟨p, root, hp, ?_, hsame.symm, hne⟩
            rw [rootOf_eq_ok_getLastD hwalk, hroot]
          intro id hid
          rw [hasset_new]
          rcases List.mem_cons.mp hid with rfl | hid
          · exact hasset_new
          · obtain ⟨n, hn⟩ := hrest'.exists_node hid
            rw [hasset_old id n hn, hr.uniform p rest hwalk (hpasset.trans hsame) id hid, hpasset]
        · cases hchain
    · -- an old leaf keeps its chain
      obtain ⟨n, hn⟩ := (isChain_of_chainOf hchain).exists_node (isChain_of_chainOf hchain).head_mem
      rw [ht', OrderedMap.get_insert, if_neg (Ne.symm hleaf)] at hn
      have hwalk : t.chainOf leaf = .ok chain :=
        (hr.closed.chainFrom_insert hfresh MAX_DEPTH hn).symm.trans hchain
      have hold_chain := isChain_of_chainOf hwalk
      obtain ⟨rootNode, hrootNode⟩ := hold_chain.exists_node (hold_chain.getLastD_mem leaf)
      rw [hasset_old leaf n hn, hasset_old _ rootNode hrootNode] at hsame
      intro id hid
      obtain ⟨m, hm⟩ := hold_chain.exists_node hid
      rw [hasset_old id m hm, hasset_old leaf n hn]
      exact hr.uniform leaf chain hwalk hsame id hid

/-- A step that does not return to the root's asset keeps the invariant. -/
lemma RootBound.treeStep {now now' : ℕ} {act : TreeAct H} (hr : RootBound t)
    (hno : ∀ id parent asset, act = .create id parent asset → ¬ ReturnsToRoot t parent asset)
    (h : TreeStep (t, now) act (t', now')) : RootBound t' := by
  cases h with
  | tick => exact hr
  | draw h =>
    refine hr.of_sameTerms fun id => ?_
    rw [h.nodes]
    split_ifs
    · cases t.nodes[id]? <;> simp
    · rfl
  | create hfresh hparent => exact hr.create hfresh hparent (hno _ _ _ rfl)
  | revoke hnode =>
    refine hr.of_sameTerms fun id => ?_
    rw [OrderedMap.get_insert]
    split_ifs with heq
    · subst heq
      rw [hnode]
      rfl
    · rfl

end HashKinetics.MandateTree
