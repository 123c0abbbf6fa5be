import Mathlib

/-!
# Runs of a labelled transition system

`Path step s₀ ls s` says that the labels `ls`, in order, lead from `s₀` to `s`.  The rules below are
the ones an invariance proof needs: paths compose and split, an invariant that every step keeps
holds at the end of every path, and a coarse system whose steps are paths of a finer one inherits
what holds of the finer paths.  The same rule for the loops of a program stands at the end.
-/

namespace Foundations

variable {σ ℓ : Type*} {step : σ → ℓ → σ → Prop}

/-- The labels `ls` lead from `s₀` to the given state. -/
inductive Path (step : σ → ℓ → σ → Prop) (s₀ : σ) : List ℓ → σ → Prop
  | nil : Path step s₀ [] s₀
  | snoc {ls : List ℓ} {l : ℓ} {s s' : σ} (h : Path step s₀ ls s) (hs : step s l s') :
      Path step s₀ (ls ++ [l]) s'

namespace Path

variable {s₀ s₁ s₂ : σ} {ls ls₁ ls₂ : List ℓ}

/-- One step is a path. -/
lemma single {l : ℓ} (h : step s₀ l s₁) : Path step s₀ [l] s₁ :=
  .snoc .nil h

/-- Paths compose. -/
lemma append (h₁ : Path step s₀ ls₁ s₁) (h₂ : Path step s₁ ls₂ s₂) :
    Path step s₀ (ls₁ ++ ls₂) s₂ := by
  induction h₂ with
  | nil => simpa using h₁
  | snoc _ hs ih =>
    rw [← List.append_assoc]
    exact .snoc ih hs

/-- A first step and a path from where it leads. -/
lemma cons {l : ℓ} (h₁ : step s₀ l s₁) (h₂ : Path step s₁ ls s₂) : Path step s₀ (l :: ls) s₂ :=
  (single h₁).append h₂

/-- An invariant of the steps of a path holds at its end. -/
lemma invariant {I : σ → Prop} (h : Path step s₀ ls s₁) (h₀ : I s₀)
    (hstep : ∀ s l s', l ∈ ls → I s → step s l s' → I s') : I s₁ := by
  induction h with
  | nil => exact h₀
  | snoc _ hs ih =>
    refine hstep _ _ _ (by simp) (ih fun s l s' hl => hstep s l s' ?_) hs
    exact List.mem_append_left _ hl

/-- Every step of the run that the labels describe starts in a state where `P` holds of its
label. -/
def Along (step : σ → ℓ → σ → Prop) (s₀ : σ) (ls : List ℓ) (P : σ → ℓ → Prop) : Prop :=
  ∀ pre l s, pre ++ [l] <+: ls → Path step s₀ pre s → P s l

lemma Along.nil {P : σ → ℓ → Prop} : Along step s₀ [] P := by
  rintro pre l s ⟨post, hpost⟩ -
  simp at hpost

lemma Along.of_append {P : σ → ℓ → Prop} (h : Along step s₀ (ls₁ ++ ls₂) P) :
    Along step s₀ ls₁ P :=
  fun pre l s hpre hpath => h pre l s (hpre.trans (List.prefix_append _ _)) hpath

/-- A condition that holds of every label of a run holds along it. -/
lemma Along.of_forall_mem {P : σ → ℓ → Prop} (h : ∀ l ∈ ls, ∀ s, P s l) :
    Along step s₀ ls P :=
  fun _ l s hpre _ => h l (hpre.subset (by simp)) s

lemma Along.and {P Q : σ → ℓ → Prop} (hP : Along step s₀ ls P) (hQ : Along step s₀ ls Q) :
    Along step s₀ ls fun s l => P s l ∧ Q s l :=
  fun pre l s hpre hpath => ⟨hP pre l s hpre hpath, hQ pre l s hpre hpath⟩

/-- Every label of the run is one of its labels. -/
lemma along_mem : Along step s₀ ls fun _ l => l ∈ ls :=
  Along.of_forall_mem fun _ hl _ => hl

/-- A relation between the labels so far and the state, kept by every step that meets the condition
of the run, holds at the end of the path. -/
lemma invariant_along {I : List ℓ → σ → Prop} {P : σ → ℓ → Prop} (h : Path step s₀ ls s₁)
    (halong : Along step s₀ ls P) (h₀ : I [] s₀)
    (hstep : ∀ pre l s s', I pre s → P s l → step s l s' → I (pre ++ [l]) s') : I ls s₁ := by
  induction h with
  | nil => exact h₀
  | @snoc pre l s s' hp hs ih =>
    exact hstep pre l s s' (ih halong.of_append) (halong pre l s List.prefix_rfl hp) hs

/-- The last step of a path. -/
lemma exists_of_snoc {l : ℓ} (h : Path step s₀ (ls ++ [l]) s₁) :
    ∃ s, Path step s₀ ls s ∧ step s l s₁ := by
  generalize hls : ls ++ [l] = ls' at h
  cases h with
  | nil => simp at hls
  | snoc hp hs =>
    obtain ⟨rfl, hl⟩ := List.append_inj' hls rfl
    obtain rfl := List.singleton_inj.mp hl
    exact ⟨_, hp, hs⟩

/-- Paths split. -/
lemma exists_of_append (h : Path step s₀ (ls₁ ++ ls₂) s₂) :
    ∃ s, Path step s₀ ls₁ s ∧ Path step s ls₂ s₂ := by
  induction ls₂ using List.reverseRecOn generalizing s₂ with
  | nil =>
    rw [List.append_nil] at h
    exact ⟨s₂, h, .nil⟩
  | append_singleton ls l ih =>
    rw [← List.append_assoc] at h
    obtain ⟨t, ht, hs⟩ := h.exists_of_snoc
    obtain ⟨s, h₁, h₂⟩ := ih ht
    exact ⟨s, h₁, .snoc h₂ hs⟩

section Deterministic

variable (hdet : ∀ s l s₁ s₂, step s l s₁ → step s l s₂ → s₁ = s₂)
include hdet

/-- A deterministic system reaches one state along given labels. -/
lemma eq_of_deterministic (h₁ : Path step s₀ ls s₁) (h₂ : Path step s₀ ls s₂) : s₁ = s₂ := by
  induction h₁ generalizing s₂ with
  | nil =>
    generalize hls : ([] : List ℓ) = ls' at h₂
    cases h₂ with
    | nil => rfl
    | snoc => simp at hls
  | snoc _ hs ih =>
    obtain ⟨t, ht, hs'⟩ := h₂.exists_of_snoc
    obtain rfl := ih ht
    exact hdet _ _ _ _ hs hs'

/-- A condition holds along a run when it holds of its first step and along the rest. -/
lemma Along.cons {P : σ → ℓ → Prop} {l : ℓ} (hs : step s₀ l s₁) (hl : P s₀ l)
    (h : Along step s₁ ls P) : Along step s₀ (l :: ls) P := by
  rintro pre l' s ⟨post, hpost⟩ hpre
  cases pre with
  | nil =>
    cases hpost
    cases eq_of_deterministic hdet hpre .nil
    exact hl
  | cons a pre =>
    have hcons : a :: (pre ++ [l'] ++ post) = l :: ls := hpost
    obtain ⟨rfl, htail⟩ := List.cons.inj hcons
    have happend : Path step s₀ ([a] ++ pre) s := hpre
    obtain ⟨t, ht, hrest⟩ := happend.exists_of_append
    cases eq_of_deterministic hdet ht (single hs)
    exact h pre l' s ⟨post, htail⟩ hrest

/-- What an invariant gives at every step, under a condition on the steps, holds along the run. -/
lemma along_of_invariant {I : σ → Prop} {P Q : σ → ℓ → Prop} (h : Path step s₀ ls s₁)
    (halong : Along step s₀ ls Q) (h₀ : I s₀)
    (hstep : ∀ s l s', I s → Q s l → step s l s' → P s l ∧ I s') : Along step s₀ ls P := by
  rintro pre l s ⟨post, rfl⟩ hpre
  obtain ⟨t', ht', -⟩ := h.exists_of_append
  obtain ⟨t, ht, hs⟩ := ht'.exists_of_snoc
  obtain rfl := eq_of_deterministic hdet hpre ht
  have hI : I s := hpre.invariant_along (I := fun _ => I) halong.of_append.of_append h₀
    fun _ l u u' hu hq hum => (hstep u l u' hu hq hum).2
  exact (hstep s l t' hI (halong pre l s (List.prefix_append _ _) hpre) hs).1

end Deterministic

/-- Every label of a path is the label of one of its steps. -/
lemma exists_step_of_mem {l : ℓ} (h : Path step s₀ ls s₂) (hl : l ∈ ls) :
    ∃ ls₁ ls₂ s s', ls = ls₁ ++ l :: ls₂ ∧ Path step s₀ ls₁ s ∧ step s l s' ∧
      Path step s' ls₂ s₂ := by
  induction h with
  | nil => simp at hl
  | @snoc ls' l' s s' hp hs ih =>
    rcases List.mem_append.mp hl with hl | hl
    · obtain ⟨ls₁, ls₂, t, t', rfl, h₁, ht, h₂⟩ := ih hl
      exact ⟨ls₁, ls₂ ++ [l'], t, t', by simp, h₁, ht, .snoc h₂ hs⟩
    · obtain rfl := List.mem_singleton.mp hl
      exact ⟨ls', [], s, s', by simp, hp, hs, .nil⟩

/-- A simulation maps paths to paths. -/
lemma map {τ ℓ' : Type*} {step' : τ → ℓ' → τ → Prop} (f : σ → τ) (g : ℓ → ℓ')
    (hsim : ∀ s l s', step s l s' → step' (f s) (g l) (f s')) (h : Path step s₀ ls s₁) :
    Path step' (f s₀) (ls.map g) (f s₁) := by
  induction h with
  | nil => exact .nil
  | snoc _ hs ih =>
    rw [List.map_append, List.map_singleton]
    exact .snoc ih (hsim _ _ _ hs)

/-- A system whose steps are paths of a finer system runs along the finer paths, as long as an
invariant of the finer system holds. -/
lemma flatten {I : σ → Prop} {step' : σ → List ℓ → σ → Prop}
    (hfine : ∀ s l s', I s → step' s l s' → Path step s l s')
    (hinv : ∀ s l s', I s → step s l s' → I s') (h₀ : I s₀)
    {lss : List (List ℓ)} (h : Path step' s₀ lss s₁) : Path step s₀ lss.flatten s₁ := by
  induction h with
  | nil => exact .nil
  | snoc _ hs ih =>
    rw [List.flatten_append, List.flatten_singleton]
    exact ih.append (hfine _ _ _ (ih.invariant h₀ fun s l s' _ => hinv s l s') hs)

end Path

/-! ## Systems given by a step function -/

/-- The steps of a system that computes its next state, or has none. -/
def StepOf (f : σ → ℓ → Option σ) (s : σ) (l : ℓ) (s' : σ) : Prop := f s l = some s'

lemma stepOf_deterministic (f : σ → ℓ → Option σ) (s : σ) (l : ℓ) (s₁ s₂ : σ)
    (h₁ : StepOf f s l s₁) (h₂ : StepOf f s l s₂) : s₁ = s₂ :=
  Option.some.inj (h₁.symm.trans h₂)

/-- A computed run is a run. -/
lemma path_of_foldlM {f : σ → ℓ → Option σ} {ls : List ℓ} {s s' : σ}
    (h : ls.foldlM f s = some s') : Path (StepOf f) s ls s' := by
  induction ls generalizing s with
  | nil =>
    cases h
    exact .nil
  | cons l ls ih =>
    rw [List.foldlM_cons] at h
    obtain ⟨s₁, h₁, h₂⟩ := Option.bind_eq_some_iff.mp h
    exact .cons h₁ (ih h₂)

/-- A computed run in which a condition was checked at every step is a run with the condition along
it. -/
lemma along_of_foldlM {f : σ → ℓ → Option σ} {P : σ → ℓ → Prop} [∀ s l, Decidable (P s l)]
    {ls : List ℓ} {s : σ}
    (h : (ls.foldlM (fun s l => if P s l then f s l else none) s).isSome = true) :
    Path.Along (StepOf f) s ls P := by
  induction ls generalizing s with
  | nil =>
    intro pre l t hpre
    simp at hpre
  | cons l ls ih =>
    rw [List.foldlM_cons] at h
    obtain ⟨s', hs'⟩ := Option.isSome_iff_exists.mp h
    obtain ⟨s₁, h₁, h₂⟩ := Option.bind_eq_some_iff.mp hs'
    split at h₁
    next hP =>
      exact Path.Along.cons (stepOf_deterministic f) h₁ hP
        (ih (Option.isSome_iff_exists.mpr ⟨s', h₂⟩))
    next => cases h₁

/-! ## Systems given by a total step function -/

/-- An invariant of the body of a fallible loop holds when the loop ends well. -/
lemma invariant_of_foldlM {ε : Type*} {σ α : Type*} {f : σ → α → Except ε σ} {I : σ → Prop}
    (hstep : ∀ s a s', I s → f s a = .ok s' → I s') {l : List α} {s s' : σ} (h₀ : I s)
    (h : l.foldlM f s = .ok s') : I s' := by
  induction l generalizing s with
  | nil =>
    rw [List.foldlM_nil] at h
    cases h
    exact h₀
  | cons a l ih =>
    rw [List.foldlM_cons] at h
    cases hfa : f s a with
    | error e =>
      rw [hfa] at h
      cases h
    | ok s₁ =>
      rw [hfa] at h
      exact ih (hstep s a s₁ h₀ hfa) h

/-- An invariant of the body of a loop holds when the loop ends. -/
lemma invariant_of_foldl {σ α : Type*} {f : σ → α → σ} {I : σ → Prop}
    (hstep : ∀ s a, I s → I (f s a)) (l : List α) {s : σ} (h₀ : I s) : I (l.foldl f s) := by
  induction l generalizing s with
  | nil => exact h₀
  | cons a l ih => exact ih (hstep s a h₀)

end Foundations
