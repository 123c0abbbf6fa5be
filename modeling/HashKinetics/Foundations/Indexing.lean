import Mathlib

/-!
# Indexes of a list

A side index of a list: a set of keys that holds exactly the keys of the elements, with no key
carried by two elements.  Elements may have no key.  The index follows the list when an element is
appended and when one is taken out of the middle.
-/

namespace Foundations

variable {α κ : Type*} {g : α → Option κ} {mem mem' : κ → Prop} {l l₁ l₂ : List α} {a : α}

/-- The keys are exactly those of the elements, and no two elements share one. -/
structure IndexedBy (g : α → Option κ) (mem : κ → Prop) (l : List α) : Prop where
  mem_iff : ∀ k, mem k ↔ ∃ a ∈ l, g a = some k
  nodup : (l.filterMap g).Nodup

namespace IndexedBy

lemma nil (hmem : ∀ k, ¬ mem k) : IndexedBy g mem [] :=
  ⟨fun k => by simp [hmem k], List.nodup_nil⟩

/-- An element whose key is new goes to the end. -/
lemma push (h : IndexedBy g mem l) (hnew : ∀ k, g a = some k → ¬ mem k)
    (hmem : ∀ k, mem' k ↔ mem k ∨ g a = some k) : IndexedBy g mem' (l ++ [a]) := by
  refine ⟨fun k => ?_, ?_⟩
  · rw [hmem k, h.mem_iff k]
    constructor
    · rintro (⟨b, hb, hk⟩ | hk)
      · exact ⟨b, List.mem_append_left _ hb, hk⟩
      · exact ⟨a, List.mem_append_right _ (List.mem_singleton_self a), hk⟩
    · rintro ⟨b, hb, hk⟩
      rcases List.mem_append.mp hb with hb | hb
      · exact .inl ⟨b, hb, hk⟩
      · rw [List.mem_singleton] at hb
        exact .inr (hb ▸ hk)
  · rw [List.filterMap_append]
    cases hk : g a with
    | none => simpa [hk] using h.nodup
    | some k =>
      have hfresh : k ∉ l.filterMap g := by
        intro hin
        obtain ⟨b, hb, hkb⟩ := List.mem_filterMap.mp hin
        exact hnew k hk ((h.mem_iff k).mpr ⟨b, hb, hkb⟩)
      rw [List.filterMap_cons_some hk, List.filterMap_nil, List.nodup_append]
      refine ⟨h.nodup, List.nodup_singleton k, ?_⟩
      rintro x hx y hy rfl
      exact hfresh (List.mem_singleton.mp hy ▸ hx)

/-- An element leaves, and its key with it. -/
lemma drop (h : IndexedBy g mem (l₁ ++ a :: l₂)) (hmem : ∀ k, mem' k ↔ mem k ∧ g a ≠ some k) :
    IndexedBy g mem' (l₁ ++ l₂) := by
  have hsub : (l₁ ++ l₂).Sublist (l₁ ++ a :: l₂) :=
    (List.Sublist.refl l₁).append (List.sublist_cons_self a l₂)
  -- a key that occurs twice in the list would break its being unique
  have hnodup := h.nodup
  refine ⟨fun k => ?_, hnodup.sublist (hsub.filterMap g)⟩
  rw [hmem k, h.mem_iff k]
  constructor
  · rintro ⟨⟨b, hb, hk⟩, hne⟩
    refine ⟨b, ?_, hk⟩
    rcases List.mem_append.mp hb with hb | hb
    · exact List.mem_append_left _ hb
    · rcases List.mem_cons.mp hb with rfl | hb
      · exact absurd hk hne
      · exact List.mem_append_right _ hb
  · rintro ⟨b, hb, hk⟩
    refine ⟨⟨b, hsub.subset hb, hk⟩, fun ha => ?_⟩
    rw [List.filterMap_append, List.filterMap_cons_some ha, List.nodup_append] at hnodup
    obtain ⟨-, htail, hdisj⟩ := hnodup
    rcases List.mem_append.mp hb with hb | hb
    · exact hdisj k (List.mem_filterMap.mpr ⟨b, hb, hk⟩) k (List.mem_cons_self ..) rfl
    · exact (List.nodup_cons.mp htail).1 (List.mem_filterMap.mpr ⟨b, hb, hk⟩)

end IndexedBy

end Foundations
