import HashKinetics.Foundations.Exec

/-!
# Loops that stop at the first refusal

A loop over a list runs one computation for every element and ends with the first one that refuses.
When it depends on the element alone whether its computation goes on and what it adds to a log, then
so do the elements that the loop comes to, and the log it leaves behind.
-/

namespace Foundations.Exec

variable {σ ε α β : Type}

/-- Run the computation on every element, up to the first refusal. -/
def each (f : α → Exec σ ε Unit) : List α → Exec σ ε Unit
  | [] => pure ()
  | a :: as => do
    f a
    each f as

/-- After an element that goes on, the loop goes on with the next one; after one that does not, it
ends as its computation did. -/
lemma each_cons_apply (f : α → Exec σ ε Unit) (a : α) (as : List α) (s : σ) :
    each f (a :: as) s = match f a s with
      | (.ok _, s₁) => each f as s₁
      | r => r := by
  change Exec.bind (f a) (fun _ => each f as) s = _
  unfold Exec.bind
  rcases f a s with ⟨_ | _ | _, s₁⟩ <;> rfl

lemma each_append_apply (f : α → Exec σ ε Unit) (as bs : List α) (s : σ) :
    each f (as ++ bs) s = match each f as s with
      | (.ok _, s₁) => each f bs s₁
      | r => r := by
  induction as generalizing s with
  | nil => rfl
  | cons a as ih =>
    rw [List.cons_append, each_cons_apply, each_cons_apply]
    rcases f a s with ⟨_ | _ | _, s₁⟩
    · exact ih s₁
    · rfl
    · rfl

/-! ## Logs -/

/-- From any state the computation goes on exactly when `goes` holds, and adds `ys` to the log. -/
structure Logs (log : σ → List β) (x : Exec σ ε Unit) (goes : Bool) (ys : List β) : Prop where
  ok_iff : ∀ s, (x s).1 = .ok () ↔ goes = true
  log_eq : ∀ s, log (x s).2 = log s ++ ys

section Logs

variable {log : σ → List β} {x y : Exec σ ε Unit} {b c : Bool} {ys zs : List β}

lemma logs_pure (log : σ → List β) : Logs log (pure () : Exec σ ε Unit) true [] :=
  ⟨fun _ => iff_of_true rfl rfl, fun _ => (List.append_nil _).symm⟩

lemma logs_reject (log : σ → List β) (e : ε) : Logs log (reject e : Exec σ ε Unit) false [] :=
  ⟨fun _ => by simp [reject], fun _ => (List.append_nil _).symm⟩

lemma logs_rejectIf (log : σ → List β) (p : Prop) [Decidable p] (e : ε) :
    Logs log (rejectIf p e : Exec σ ε Unit) (decide (¬ p)) [] := by
  constructor
  · intro s
    unfold rejectIf
    split_ifs with hp <;> simp [hp]
  · intro s
    unfold rejectIf
    split_ifs <;> simp

lemma logs_modify {f : σ → σ} (h : ∀ s, log (f s) = log s ++ ys) :
    Logs log (modify f : Exec σ ε Unit) true ys :=
  ⟨fun _ => iff_of_true rfl rfl, h⟩

/-- The second part of a sequence counts when the first one goes on. -/
lemma Logs.bind (hx : Logs log x b ys) (hy : Logs log y c zs) :
    Logs log (x >>= fun _ => y) (b && c) (ys ++ if b then zs else []) := by
  have hstep : ∀ s, ((x >>= fun _ => y) s = y (x s).2 ∧ b = true) ∨
      ((x >>= fun _ => y) s).2 = (x s).2 ∧ ((x >>= fun _ => y) s).1 ≠ .ok () ∧ b = false := by
    intro s
    change (Exec.bind x (fun _ => y) s = _ ∧ _) ∨ (Exec.bind x (fun _ => y) s).2 = _ ∧
      (Exec.bind x (fun _ => y) s).1 ≠ _ ∧ _
    have hok := hx.ok_iff s
    unfold Exec.bind
    rcases hs : x s with ⟨u | e | _, s₁⟩ <;> rw [hs] at hok
    · exact .inl ⟨rfl, hok.mp rfl⟩
    · exact .inr ⟨rfl, by simp, by simpa using hok⟩
    · exact .inr ⟨rfl, by simp, by simpa using hok⟩
  constructor
  · intro s
    rcases hstep s with ⟨heq, rfl⟩ | ⟨-, hne, rfl⟩
    · rw [heq, hy.ok_iff, Bool.true_and]
    · simp [hne]
  · intro s
    rcases hstep s with ⟨heq, rfl⟩ | ⟨hstate, -, rfl⟩
    · rw [heq, hy.log_eq, hx.log_eq, if_pos rfl, List.append_assoc]
    · rw [hstate, hx.log_eq]
      simp

/-- The elements that a loop comes to: all up to the first one that does not let it go on. -/
def reached (goes : α → Bool) : List α → List α
  | [] => []
  | a :: as => a :: if goes a then reached goes as else []

/-- A loop adds what the elements it comes to add, and it goes through when every element lets
it. -/
lemma Logs.each {f : α → Exec σ ε Unit} {goes : α → Bool} {adds : α → List β}
    (h : ∀ a, Logs log (f a) (goes a) (adds a)) (as : List α) :
    Logs log (Exec.each f as) (as.all goes) ((reached goes as).flatMap adds) := by
  induction as with
  | nil => exact logs_pure log
  | cons a as ih =>
    have hstep := (h a).bind ih
    simp only [reached, List.flatMap_cons, List.all_cons]
    cases hgoes : goes a with
    | true => simpa [Exec.each, hgoes] using hstep
    | false => simpa [Exec.each, hgoes] using hstep

end Logs

section Reached

variable {goes : α → Bool} {pre post : List α} {a : α}

/-- An element is reached when every element before it lets the loop go on. -/
lemma mem_reached_iff (ha : a ∉ pre) :
    a ∈ reached goes (pre ++ a :: post) ↔ ∀ b ∈ pre, goes b = true := by
  induction pre with
  | nil => simp [reached]
  | cons b pre ih =>
    obtain ⟨hne, hpre⟩ := not_or.mp (mt List.mem_cons.mpr ha)
    cases hgoes : goes b with
    | true => simp [reached, hgoes, hne, ih hpre]
    | false => simp [reached, hgoes, hne]

end Reached

/-- A loop keeps what the computation for each of its elements keeps. -/
lemma Keeps.each {γ : Type} {view : σ → γ} {f : α → Exec σ ε Unit} {as : List α}
    (h : ∀ a ∈ as, Keeps view (f a)) : Keeps view (Exec.each f as) := by
  induction as with
  | nil => exact (reads_pure ()).keeps
  | cons a as ih =>
    exact (h a List.mem_cons_self).bind fun _ => ih fun b hb => h b (List.mem_cons_of_mem a hb)

end Foundations.Exec
