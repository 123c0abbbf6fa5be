import Mathlib

/-!
# Collecting in rounds

Items are searched round after round, and a hit is kept unless one with its key was kept before.
When the keys of the items are distinct, what is collected is the first hit of every item, in some
order; so it does not matter in how many portions the items arrive, as long as each portion goes
through the round of its first hits.
-/

namespace Foundations

variable {ι α β κ : Type*} [DecidableEq κ]

/-- Keep a hit, unless its key is there. -/
def keepNew (key : β → κ) (kept : List β) (b : β) : List β :=
  if kept.any fun b' => key b' = key b then kept else kept ++ [b]

/-- One round: all hits of the items, in the order of the items. -/
def collectRound (key : β → κ) (hit : α → Option β) (items : List α) (kept : List β) : List β :=
  (items.filterMap hit).foldl (keepNew key) kept

/-- All rounds, one after the other. -/
def collectRounds (key : β → κ) (hit : ι → α → Option β) (rounds : List ι) (items : List α)
    (kept : List β) : List β :=
  rounds.foldl (fun kept i => collectRound key (hit i) items kept) kept

/-- The hit of the first round that has one. -/
def firstHit (hit : ι → α → Option β) (rounds : List ι) (a : α) : Option β :=
  rounds.findSome? fun i => hit i a

lemma exists_of_firstHit {hit : ι → α → Option β} {rounds : List ι} {a : α} {b : β}
    (h : firstHit hit rounds a = some b) : ∃ i ∈ rounds, hit i a = some b :=
  List.exists_of_findSome?_eq_some h

/-- The first hit, seen through a function. -/
lemma firstHit_map {γ : Type*} (hit : ι → α → Option β) (f : β → γ) (rounds : List ι) (a : α) :
    firstHit (fun i a => (hit i a).map f) rounds a = (firstHit hit rounds a).map f := by
  unfold firstHit
  induction rounds with
  | nil => rfl
  | cons i rounds ih =>
    simp only [List.findSome?_cons]
    cases hi : hit i a with
    | none => simpa using ih
    | some b => rfl

/-- Later rounds change nothing for an item that an early one hits, if any does. -/
lemma firstHit_append {hit : ι → α → Option β} {rounds late : List ι} {a : α}
    (h : ∀ i ∈ late, hit i a ≠ none → ∃ j ∈ rounds, hit j a ≠ none) :
    firstHit hit (rounds ++ late) a = firstHit hit rounds a := by
  rw [firstHit, List.findSome?_append]
  change (firstHit hit rounds a).or _ = _
  cases hfirst : firstHit hit rounds a with
  | some b => rfl
  | none =>
    have hnone : ∀ j ∈ rounds, hit j a = none := List.findSome?_eq_none_iff.mp hfirst
    refine List.findSome?_eq_none_iff.mpr fun i hi => ?_
    by_contra hsome
    obtain ⟨j, hj, hne⟩ := h i hi hsome
    exact hne (hnone j hj)

lemma keepNew_of_mem {key : β → κ} {kept : List β} {b : β} (h : key b ∈ kept.map key) :
    keepNew key kept b = kept := by
  obtain ⟨b', hmem, hkey⟩ := List.mem_map.mp h
  exact if_pos (List.any_eq_true.mpr ⟨b', hmem, decide_eq_true hkey⟩)

lemma keepNew_of_notMem {key : β → κ} {kept : List β} {b : β} (h : key b ∉ kept.map key) :
    keepNew key kept b = kept ++ [b] := by
  refine if_neg fun hany => h ?_
  obtain ⟨b', hmem, hkey⟩ := List.any_eq_true.mp hany
  exact List.mem_map.mpr ⟨b', hmem, of_decide_eq_true hkey⟩

/-- The hit of an item whose key is new. -/
def freshHit (key : β → κ) (itemKey : α → κ) (kept : List β) (hit : α → Option β)
    (a : α) : Option β :=
  if itemKey a ∈ kept.map key then none else hit a

/-- A round adds the hits of the items whose key is new. -/
lemma collectRound_eq {key : β → κ} {itemKey : α → κ} {hit : α → Option β}
    (hhit : ∀ a b, hit a = some b → key b = itemKey a) {items : List α}
    (hitems : (items.map itemKey).Nodup) (kept : List β) :
    collectRound key hit items kept = kept ++ items.filterMap (freshHit key itemKey kept hit) := by
  unfold collectRound
  induction items generalizing kept with
  | nil => simp
  | cons a items ih =>
    rw [List.map_cons, List.nodup_cons] at hitems
    obtain ⟨hnew, hrest⟩ := hitems
    cases ha : hit a with
    | none =>
      have hskip : freshHit key itemKey kept hit a = none := by simp [freshHit, ha]
      rw [List.filterMap_cons_none ha, List.filterMap_cons_none hskip, ih hrest]
    | some b =>
      have hkey := hhit a b ha
      rw [List.filterMap_cons_some ha, List.foldl_cons]
      by_cases hold : itemKey a ∈ kept.map key
      · have hskip : freshHit key itemKey kept hit a = none := if_pos hold
        rw [keepNew_of_mem (hkey ▸ hold), List.filterMap_cons_none hskip, ih hrest]
      · have hadd : freshHit key itemKey kept hit a = some b := by
          rw [freshHit, if_neg hold, ha]
        rw [keepNew_of_notMem (hkey ▸ hold), List.filterMap_cons_some hadd, ih hrest,
          List.append_assoc, List.singleton_append]
        congr 2
        refine List.filterMap_congr fun a' ha' => ?_
        have hne : itemKey a' ≠ itemKey a := fun heq => hnew (heq ▸ List.mem_map_of_mem ha')
        simp [freshHit, hkey, hne]

/-- A choice with a fallback, split into both parts. -/
lemma filterMap_orElse_perm (g h : α → Option β) (items : List α) :
    (items.filterMap fun a => (g a).or (h a)).Perm
      (items.filterMap g ++ items.filterMap fun a => if (g a).isSome then none else h a) := by
  induction items with
  | nil => simp
  | cons a items ih =>
    cases hg : g a with
    | some b =>
      simp only [List.filterMap_cons, hg, Option.some_or, Option.isSome_some, if_true,
        List.cons_append]
      exact ih.cons b
    | none =>
      simp only [List.filterMap_cons, hg, Option.none_or, Option.isSome_none, Bool.false_eq_true,
        if_false]
      cases h a with
      | none => exact ih
      | some b => exact (ih.cons b).trans List.perm_middle.symm

/-- After a round the key of an item is there when it was there before or the round hit the item. -/
lemma mem_keys_collectRound {key : β → κ} {itemKey : α → κ} {hit : α → Option β}
    (hhit : ∀ a b, hit a = some b → key b = itemKey a) {items : List α}
    (hitems : (items.map itemKey).Nodup) (kept : List β) {a : α} (ha : a ∈ items) :
    itemKey a ∈ (kept ++ items.filterMap (freshHit key itemKey kept hit)).map key ↔
      itemKey a ∈ kept.map key ∨ (freshHit key itemKey kept hit a).isSome := by
  have hof : ∀ {a b}, freshHit key itemKey kept hit a = some b → hit a = some b := by
    intro a b h
    rw [freshHit] at h
    split_ifs at h
    exact h
  rw [List.map_append, List.mem_append]
  refine or_congr Iff.rfl ⟨fun h => ?_, fun h => ?_⟩
  · obtain ⟨b, hb, hkey⟩ := List.mem_map.mp h
    obtain ⟨a', ha', hfresh⟩ := List.mem_filterMap.mp hb
    have heq : a' = a :=
      List.inj_on_of_nodup_map hitems ha' ha ((hhit a' b (hof hfresh)).symm.trans hkey)
    rw [← heq, hfresh]
    rfl
  · obtain ⟨b, hb⟩ := Option.isSome_iff_exists.mp h
    exact List.mem_map.mpr ⟨b, List.mem_filterMap.mpr ⟨a, ha, hb⟩, hhit a b (hof hb)⟩

/-- What the rounds collect is what was kept, and the first hits of the items whose key is new. -/
lemma collectRounds_perm {key : β → κ} {itemKey : α → κ} {hit : ι → α → Option β}
    (hhit : ∀ i a b, hit i a = some b → key b = itemKey a) (rounds : List ι) {items : List α}
    (hitems : (items.map itemKey).Nodup) (kept : List β) :
    (collectRounds key hit rounds items kept).Perm
      (kept ++ items.filterMap (freshHit key itemKey kept (firstHit hit rounds))) := by
  induction rounds generalizing kept with
  | nil =>
    have hnone : ∀ a, freshHit key itemKey kept (firstHit hit []) a = none := by
      simp [freshHit, firstHit]
    simp [collectRounds, hnone]
  | cons i rounds ih =>
    let g : α → Option β := freshHit key itemKey kept (hit i)
    have hstep : collectRounds key hit (i :: rounds) items kept =
        collectRounds key hit rounds items (kept ++ items.filterMap g) := by
      rw [collectRounds, List.foldl_cons, collectRound_eq (hhit i) hitems kept]
      rfl
    have hlate : items.filterMap
          (freshHit key itemKey (kept ++ items.filterMap g) (firstHit hit rounds)) =
        items.filterMap fun a => if (g a).isSome then none else
          freshHit key itemKey kept (firstHit hit rounds) a := by
      refine List.filterMap_congr fun a ha => ?_
      have hmem := mem_keys_collectRound (hhit i) hitems kept ha
      by_cases hold : itemKey a ∈ kept.map key
      · have hkept : freshHit key itemKey kept (firstHit hit rounds) a = none := if_pos hold
        rw [freshHit, if_pos (hmem.mpr (.inl hold)), hkept, ite_self]
      · have hkept : freshHit key itemKey kept (firstHit hit rounds) a = firstHit hit rounds a :=
          if_neg hold
        by_cases hg : (g a).isSome
        · rw [freshHit, if_pos (hmem.mpr (.inr hg)), if_pos hg]
        · rw [freshHit, if_neg (fun h => (hmem.mp h).elim hold hg), if_neg hg, hkept]
    have hboth : items.filterMap (freshHit key itemKey kept (firstHit hit (i :: rounds))) =
        items.filterMap fun a => (g a).or (freshHit key itemKey kept (firstHit hit rounds) a) := by
      refine List.filterMap_congr fun a _ => ?_
      by_cases hold : itemKey a ∈ kept.map key
      · simp [g, freshHit, hold]
      · simp only [g, freshHit, hold, if_false, firstHit, List.findSome?_cons]
        cases hit i a <;> rfl
    rw [hstep, hboth]
    apply (ih _).trans
    rw [hlate, List.append_assoc]
    exact (filterMap_orElse_perm g _ items).symm.append_left kept

end Foundations
