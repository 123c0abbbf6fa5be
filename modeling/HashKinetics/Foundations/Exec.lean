import Mathlib

/-!
# State-keeping error computations

A computation over a mutable state that may return a value, refuse with a typed error, or stop on a
failed assertion.  Unlike a transactional monad, a refusal keeps whatever the computation had
already written: that a refused operation leaves the state alone is a property to be proved, not a
feature of the semantics.  `Exec.Reads`, `Exec.Infallible` and `Exec.Atomic` are the three
properties from which such proofs are composed.
-/

namespace Foundations

/-- What a computation ends with: a value, a typed refusal, or a failed assertion. -/
inductive Outcome (ε α : Type) where
  | ok (a : α)
  | err (e : ε)
  | fault
  deriving DecidableEq, Repr

/-- The outcome is a value with a property. -/
def Outcome.okAnd {ε α : Type} (p : α → Bool) : Outcome ε α → Bool
  | .ok a => p a
  | _ => false

/-- A computation from a state to an outcome and the state it leaves behind. -/
def Exec (σ ε α : Type) := σ → Outcome ε α × σ

namespace Exec

variable {σ ε ε' α β : Type}

/-- Sequencing: only a value continues; a refusal or a fault keeps the state reached. -/
def bind (x : Exec σ ε α) (f : α → Exec σ ε β) : Exec σ ε β := fun s =>
  match x s with
  | (.ok a, s₁) => f a s₁
  | (.err e, s₁) => (.err e, s₁)
  | (.fault, s₁) => (.fault, s₁)

instance : Monad (Exec σ ε) where
  pure a := fun s => (.ok a, s)
  bind := Exec.bind

/-- The current state. -/
def get : Exec σ ε σ := fun s => (.ok s, s)

/-- Rewrite the state. -/
def modify (f : σ → σ) : Exec σ ε Unit := fun s => (.ok (), f s)

/-- Refuse. -/
def reject (e : ε) : Exec σ ε α := fun s => (.err e, s)

/-- Refuse when the condition holds. -/
def rejectIf (c : Prop) [Decidable c] (e : ε) : Exec σ ε Unit := fun s =>
  if c then (.err e, s) else (.ok (), s)

/-- The value of an option, or a refusal. -/
def okOr (o : Option α) (e : ε) : Exec σ ε α := fun s =>
  match o with
  | some a => (.ok a, s)
  | none => (.err e, s)

/-- The value of a fallible pure computation, with its error carried into the error type. -/
def ofExcept (g : ε' → ε) (r : Except ε' α) : Exec σ ε α := fun s =>
  match r with
  | .ok a => (.ok a, s)
  | .error e => (.err (g e), s)

/-- What a pure computation that may refuse or fail an assertion ends with, its error carried into the
error type. -/
def ofOutcome (g : ε' → ε) (o : Outcome ε' α) : Exec σ ε α := fun s =>
  match o with
  | .ok a => (.ok a, s)
  | .err e => (.err (g e), s)
  | .fault => (.fault, s)

/-- The value of an option, or a fault. -/
def unwrap (o : Option α) : Exec σ ε α := fun s =>
  match o with
  | some a => (.ok a, s)
  | none => (.fault, s)

/-- Turn a refusal into a fault. -/
def expect (x : Exec σ ε' α) : Exec σ ε α := fun s =>
  match x s with
  | (.ok a, s₁) => (.ok a, s₁)
  | (.err _, s₁) => (.fault, s₁)
  | (.fault, s₁) => (.fault, s₁)

/-- Run the computation when the condition holds. -/
def when (c : Prop) [Decidable c] (x : Exec σ ε Unit) : Exec σ ε Unit := fun s =>
  if c then x s else (.ok (), s)

/-- Run a cleanup on the state a refusal leaves behind, and then refuse with the same error. -/
def onErr (x : Exec σ ε α) (cleanup : Exec σ ε Unit) : Exec σ ε α := fun s =>
  match x s with
  | (.ok a, s₁) => (.ok a, s₁)
  | (.err e, s₁) =>
    match cleanup s₁ with
    | (.fault, s₂) => (.fault, s₂)
    | (_, s₂) => (.err e, s₂)
  | (.fault, s₁) => (.fault, s₁)

/-- Turn a refusal into a value. -/
def attempt (x : Exec σ ε' α) : Exec σ ε (Except ε' α) := fun s =>
  match x s with
  | (.ok a, s₁) => (.ok (.ok a), s₁)
  | (.err e, s₁) => (.ok (.error e), s₁)
  | (.fault, s₁) => (.fault, s₁)

/-- Run a computation on a component of the state, with its errors carried into the error type. -/
def zoom {τ : Type} (view : σ → τ) (put : σ → τ → σ) (g : ε' → ε) (x : Exec τ ε' α) :
    Exec σ ε α := fun s =>
  match x (view s) with
  | (.ok a, t) => (.ok a, put s t)
  | (.err e, t) => (.err (g e), put s t)
  | (.fault, t) => (.fault, put s t)

lemma rejectIf_congr {c d : Prop} [Decidable c] [Decidable d] (h : c ↔ d) (e : ε) :
    (rejectIf c e : Exec σ ε Unit) = rejectIf d e := by
  funext s
  simp only [rejectIf, h]

/-- The result of a run whose outcome is known. -/
lemma eq_of_outcome {x : Outcome ε α × σ} {o : Outcome ε α} (h : x.1 = o) : x = (o, x.2) := by
  obtain ⟨o', s⟩ := x
  cases h
  rfl

lemma exists_of_okAnd {x : Outcome ε α × σ} {p : α → Bool} (h : x.1.okAnd p = true) :
    ∃ a, p a = true ∧ x = (.ok a, x.2) := by
  obtain ⟨_ | _ | _, s⟩ := x
  · exact ⟨_, h, rfl⟩
  · cases h
  · cases h

/-- The state that a sequence leaves behind is that of its first part or of its second. -/
lemma snd_bind {x : Exec σ ε α} {f : α → Exec σ ε β} {s : σ} {I : σ → Prop} (hx : I (x s).2)
    (hf : ∀ a s₁, x s = (.ok a, s₁) → I (f a s₁).2) : I ((x >>= f) s).2 := by
  change I (Exec.bind x f s).2
  unfold Exec.bind
  rcases h : x s with ⟨a | e | _, s₁⟩ <;> rw [h] at hx
  · exact hf a s₁ h
  · exact hx
  · exact hx

/-! ## Successful runs -/

section Success

variable {s s' : σ} {b : β}

/-- A sequence succeeds exactly when both parts do. -/
@[simp] lemma bind_eq_ok {x : Exec σ ε α} {f : α → Exec σ ε β} :
    (x >>= f) s = (.ok b, s') ↔ ∃ a s₁, x s = (.ok a, s₁) ∧ f a s₁ = (.ok b, s') := by
  change Exec.bind x f s = _ ↔ _
  unfold Exec.bind
  rcases h : x s with ⟨_ | _ | _, s₁⟩ <;> simp

@[simp] lemma pure_eq_ok {a : β} :
    (pure a : Exec σ ε β) s = (.ok b, s') ↔ a = b ∧ s = s' := by
  change ((.ok a, s) : Outcome ε β × σ) = _ ↔ _
  simp

@[simp] lemma get_eq_ok {t : σ} : (get : Exec σ ε σ) s = (.ok t, s') ↔ s = t ∧ s = s' := by
  simp [get]

/-- A rewrite succeeds with the rewritten state. -/
@[simp] lemma modify_eq_ok {f : σ → σ} {u : Unit} :
    (modify f : Exec σ ε Unit) s = (.ok u, s') ↔ f s = s' := by
  simp [modify]

/-- A check that succeeds did not hold, and wrote nothing. -/
@[simp] lemma rejectIf_eq_ok {c : Prop} [Decidable c] {e : ε} {u : Unit} :
    (rejectIf c e : Exec σ ε Unit) s = (.ok u, s') ↔ ¬ c ∧ s = s' := by
  unfold rejectIf
  split_ifs with h <;> simp [h]

/-- An option that may be missing succeeds with its value. -/
@[simp] lemma okOr_eq_ok {o : Option β} {e : ε} :
    (okOr o e : Exec σ ε β) s = (.ok b, s') ↔ o = some b ∧ s = s' := by
  cases o <;> simp [okOr]

@[simp] lemma ofExcept_eq_ok {g : ε' → ε} {r : Except ε' β} :
    (ofExcept g r : Exec σ ε β) s = (.ok b, s') ↔ r = .ok b ∧ s = s' := by
  cases r <;> simp [ofExcept]

/-- What a pure computation returned is taken over. -/
@[simp] lemma ofOutcome_eq_ok {g : ε' → ε} {o : Outcome ε' β} :
    (ofOutcome g o : Exec σ ε β) s = (.ok b, s') ↔ o = .ok b ∧ s = s' := by
  cases o <;> simp [ofOutcome]

/-- An unwrapped option held a value. -/
@[simp] lemma unwrap_eq_ok {o : Option β} :
    (unwrap o : Exec σ ε β) s = (.ok b, s') ↔ o = some b ∧ s = s' := by
  cases o <;> simp [unwrap]

/-- An expected computation succeeds as the computation itself does. -/
@[simp] lemma expect_eq_ok {x : Exec σ ε' β} :
    (expect x : Exec σ ε β) s = (.ok b, s') ↔ x s = (.ok b, s') := by
  unfold expect
  rcases h : x s with ⟨_ | _ | _, s₁⟩ <;> simp

/-- A computation on a component succeeds when it does there, and writes that component back. -/
@[simp] lemma zoom_eq_ok {τ : Type} {view : σ → τ} {put : σ → τ → σ} {g : ε' → ε}
    {x : Exec τ ε' β} :
    (zoom view put g x : Exec σ ε β) s = (.ok b, s') ↔
      ∃ t, x (view s) = (.ok b, t) ∧ put s t = s' := by
  unfold zoom
  rcases h : x (view s) with ⟨_ | _ | _, t⟩ <;> simp

/-- An optional computation either ran or left the state alone. -/
@[simp] lemma when_eq_ok {c : Prop} [Decidable c] {x : Exec σ ε Unit} {u : Unit} :
    when c x s = (.ok u, s') ↔ c ∧ x s = (.ok u, s') ∨ ¬ c ∧ s = s' := by
  unfold when
  split_ifs with h <;> simp [h]

/-- A success runs no cleanup. -/
@[simp] lemma onErr_eq_ok {x : Exec σ ε β} {cleanup : Exec σ ε Unit} :
    onErr x cleanup s = (.ok b, s') ↔ x s = (.ok b, s') := by
  unfold onErr
  rcases h : x s with ⟨_ | _ | _, s₁⟩
  · simp
  · rcases hc : cleanup s₁ with ⟨_ | _ | _, s₂⟩ <;> simp [hc]
  · simp

/-- An attempt succeeds with what the attempted computation returned. -/
lemma attempt_eq_ok {x : Exec σ ε' α} {r : Except ε' α} :
    (attempt x : Exec σ ε (Except ε' α)) s = (.ok r, s') ↔
      (∃ a, r = .ok a ∧ x s = (.ok a, s')) ∨ ∃ e, r = .error e ∧ x s = (.err e, s') := by
  unfold attempt
  rcases h : x s with ⟨_ | _ | _, s₁⟩ <;> simp [eq_comm]

/-! Checks at the head of a sequence, with the state they leave alone already eliminated. -/

variable {f : α → Exec σ ε β}

/-- What follows a read gets the state. -/
lemma get_bind_eq_ok {f : σ → Exec σ ε β} :
    (get >>= f) s = (.ok b, s') ↔ f s s = (.ok b, s') := by
  simp

lemma modify_bind_eq_ok {g : σ → σ} {f : Unit → Exec σ ε β} :
    (modify g >>= f) s = (.ok b, s') ↔ f () (g s) = (.ok b, s') := by
  simp [Unique.exists_iff]

/-- What follows a check may use that it did not hold. -/
lemma rejectIf_bind_eq_ok {c : Prop} [Decidable c] {e : ε} {f : Unit → Exec σ ε β} :
    (rejectIf c e >>= f) s = (.ok b, s') ↔ ¬ c ∧ f () s = (.ok b, s') := by
  simp [Unique.exists_iff]

/-- What follows a lookup gets the value found. -/
lemma okOr_bind_eq_ok {o : Option α} {e : ε} :
    (okOr o e >>= f) s = (.ok b, s') ↔ ∃ a, o = some a ∧ f a s = (.ok b, s') := by
  simp

lemma ofExcept_bind_eq_ok {g : ε' → ε} {r : Except ε' α} :
    (ofExcept g r >>= f) s = (.ok b, s') ↔ ∃ a, r = .ok a ∧ f a s = (.ok b, s') := by
  simp

lemma ofOutcome_bind_eq_ok {g : ε' → ε} {o : Outcome ε' α} :
    (ofOutcome g o >>= f) s = (.ok b, s') ↔ ∃ a, o = .ok a ∧ f a s = (.ok b, s') := by
  simp

/-- What follows an unwrap gets the value. -/
lemma unwrap_bind_eq_ok {o : Option α} :
    (unwrap o >>= f) s = (.ok b, s') ↔ ∃ a, o = some a ∧ f a s = (.ok b, s') := by
  simp

lemma expect_bind_eq_ok {x : Exec σ ε' α} :
    (expect x >>= f) s = (.ok b, s') ↔ ∃ a s₁, x s = (.ok a, s₁) ∧ f a s₁ = (.ok b, s') := by
  simp

lemma onErr_bind_eq_ok {x : Exec σ ε α} {cleanup : Exec σ ε Unit} :
    (onErr x cleanup >>= f) s = (.ok b, s') ↔
      ∃ a s₁, x s = (.ok a, s₁) ∧ f a s₁ = (.ok b, s') := by
  simp

/-- What follows an optional computation starts from where it left, or from where it was skipped. -/
lemma when_bind_eq_ok {c : Prop} [Decidable c] {x : Exec σ ε Unit} {f : Unit → Exec σ ε β} :
    (when c x >>= f) s = (.ok b, s') ↔
      c ∧ (∃ s₁, x s = (.ok (), s₁) ∧ f () s₁ = (.ok b, s')) ∨ ¬ c ∧ f () s = (.ok b, s') := by
  by_cases h : c <;> simp [h, Unique.exists_iff]

end Success

/-! ## Refusals that leave the state alone -/

/-- The computation never writes. -/
def Reads (x : Exec σ ε α) : Prop := ∀ s, (x s).2 = s

/-- The computation never refuses. -/
def Infallible (x : Exec σ ε α) : Prop := ∀ s e, (x s).1 ≠ .err e

/-- A refusal leaves the state as it was. -/
def Atomic (x : Exec σ ε α) : Prop := ∀ s e, (x s).1 = .err e → (x s).2 = s

/-- A computation that writes nothing has nothing to undo. -/
lemma Reads.atomic {x : Exec σ ε α} (h : Reads x) : Atomic x :=
  fun s _ _ => h s

/-- A computation that never refuses has nothing to undo. -/
lemma Infallible.atomic {x : Exec σ ε α} (h : Infallible x) : Atomic x :=
  fun s e he => absurd he (h s e)

/-- Checks may precede an atomic computation: a read-only prefix keeps it atomic. -/
lemma Atomic.bind_reads {x : Exec σ ε α} {f : α → Exec σ ε β} (hx : Reads x)
    (hf : ∀ a, Atomic (f a)) : Atomic (x >>= f) := by
  intro s e he
  change (Exec.bind x f s).1 = _ at he
  change (Exec.bind x f s).2 = _
  have hs := hx s
  unfold Exec.bind at he ⊢
  rcases h : x s with ⟨_ | _ | _, s₁⟩
  all_goals
    rw [h] at hs
    cases hs
    simp only [h] at he ⊢
  exact hf _ _ e he

/-- Writes that cannot refuse may follow an atomic computation. -/
lemma Atomic.bind_infallible {x : Exec σ ε α} {f : α → Exec σ ε β} (hx : Atomic x)
    (hf : ∀ a, Infallible (f a)) : Atomic (x >>= f) := by
  intro s e he
  change (Exec.bind x f s).1 = _ at he
  change (Exec.bind x f s).2 = _
  have hs := hx s
  unfold Exec.bind at he ⊢
  rcases h : x s with ⟨_ | _ | _, s₁⟩
  all_goals simp only [h] at he hs ⊢
  · exact absurd he (hf _ s₁ e)
  · exact hs _ rfl
  · cases he

/-- A sequence never refuses when neither part does. -/
lemma Infallible.bind {x : Exec σ ε α} {f : α → Exec σ ε β} (hx : Infallible x)
    (hf : ∀ a, Infallible (f a)) : Infallible (x >>= f) := by
  intro s e
  change (Exec.bind x f s).1 ≠ _
  have hs := hx s
  unfold Exec.bind
  rcases h : x s with ⟨_ | _ | _, s₁⟩
  all_goals simp only [h] at hs ⊢
  · exact hf _ s₁ e
  · exact fun he => hs _ rfl
  · exact fun he => by cases he

/-- A sequence writes nothing when neither part does. -/
lemma Reads.bind {x : Exec σ ε α} {f : α → Exec σ ε β} (hx : Reads x)
    (hf : ∀ a, Reads (f a)) : Reads (x >>= f) := by
  intro s
  change (Exec.bind x f s).2 = s
  have hs := hx s
  unfold Exec.bind
  rcases h : x s with ⟨_ | _ | _, s₁⟩
  all_goals
    rw [h] at hs
    cases hs
    simp only
  exact hf _ _

@[simp] lemma reads_pure (a : α) : Reads (pure a : Exec σ ε α) := fun _ => rfl

@[simp] lemma infallible_pure (a : α) : Infallible (pure a : Exec σ ε α) := by
  intro s e h
  cases h

@[simp] lemma reads_get : Reads (get : Exec σ ε σ) := fun _ => rfl

@[simp] lemma infallible_get : Infallible (get : Exec σ ε σ) := by
  intro s e h
  cases h

/-- A rewrite never refuses. -/
@[simp] lemma infallible_modify (f : σ → σ) : Infallible (modify f : Exec σ ε Unit) := by
  intro s e h
  cases h

@[simp] lemma reads_reject (e : ε) : Reads (reject e : Exec σ ε α) := fun _ => rfl

/-- A check writes nothing. -/
@[simp] lemma reads_rejectIf (c : Prop) [Decidable c] (e : ε) :
    Reads (rejectIf c e : Exec σ ε Unit) := by
  intro s
  unfold rejectIf
  split_ifs <;> rfl

/-- A lookup writes nothing. -/
@[simp] lemma reads_okOr (o : Option α) (e : ε) : Reads (okOr o e : Exec σ ε α) := by
  intro s
  cases o <;> rfl

@[simp] lemma reads_ofExcept (g : ε' → ε) (r : Except ε' α) :
    Reads (ofExcept g r : Exec σ ε α) := by
  intro s
  cases r <;> rfl

@[simp] lemma reads_ofOutcome (g : ε' → ε) (o : Outcome ε' α) :
    Reads (ofOutcome g o : Exec σ ε α) := by
  intro s
  cases o <;> rfl

lemma reads_unwrap (o : Option α) : Reads (unwrap o : Exec σ ε α) := by
  intro s
  cases o <;> rfl

/-- An unwrap faults rather than refuses. -/
@[simp] lemma infallible_unwrap (o : Option α) : Infallible (unwrap o : Exec σ ε α) := by
  intro s e
  cases o <;> exact fun h => by cases h

/-- An optional read is a read. -/
lemma Reads.when {c : Prop} [Decidable c] {x : Exec σ ε Unit} (hx : Reads x) :
    Reads (Exec.when c x) := by
  intro s
  unfold Exec.when
  split_ifs
  · exact hx s
  · rfl

/-- A sequence that starts with an optional check: the check leaves the state alone. -/
lemma Reads.when_bind_eq_ok {c : Prop} [Decidable c] {x : Exec σ ε Unit} {f : Unit → Exec σ ε β}
    {s s' : σ} {b : β} (hx : Reads x) (h : (Exec.when c x >>= f) s = (.ok b, s')) :
    (c → x s = (.ok (), s)) ∧ f () s = (.ok b, s') := by
  rcases Exec.when_bind_eq_ok.mp h with ⟨-, s₁, hrun, hrest⟩ | ⟨hc, hrest⟩
  · obtain rfl : s₁ = s := by simpa [hrun] using hx s
    exact ⟨fun _ => hrun, hrest⟩
  · exact ⟨fun hpos => absurd hpos hc, hrest⟩

/-- An optional atomic computation is atomic. -/
lemma Atomic.when {c : Prop} [Decidable c] {x : Exec σ ε Unit} (hx : Atomic x) :
    Atomic (Exec.when c x) := by
  intro s e he
  unfold Exec.when at he ⊢
  split_ifs at he ⊢
  exact hx s e he

/-- An optional computation that never refuses does not either. -/
lemma Infallible.when {c : Prop} [Decidable c] {x : Exec σ ε Unit} (hx : Infallible x) :
    Infallible (Exec.when c x) := by
  intro s e
  unfold Exec.when
  split_ifs
  · exact hx s e
  · simp

/-- An attempt turns every refusal into a value. -/
@[simp] lemma infallible_attempt (x : Exec σ ε' α) :
    Infallible (attempt x : Exec σ ε (Except ε' α)) := by
  intro s e
  unfold attempt
  rcases x s with ⟨_ | _ | _, s₁⟩ <;> simp

/-- An expectation turns every refusal into a fault. -/
@[simp] lemma infallible_expect (x : Exec σ ε' α) : Infallible (expect x : Exec σ ε α) := by
  intro s e
  unfold expect
  rcases x s with ⟨_ | _ | _, s₁⟩ <;> simp

/-- From the state `s`, a refusal leaves `s₀` behind. -/
def Restores (x : Exec σ ε α) (s s₀ : σ) : Prop := ∀ e, (x s).1 = .err e → (x s).2 = s₀

/-- An atomic computation restores the state it starts from. -/
lemma Atomic.restores {x : Exec σ ε α} (h : Atomic x) (s : σ) : Restores x s s := h s

/-- A computation that never refuses restores whatever is asked. -/
lemma Infallible.restores {x : Exec σ ε α} (h : Infallible x) (s s₀ : σ) : Restores x s s₀ :=
  fun e he => absurd he (h s e)

/-- A sequence restores `s₀` when both parts do, the second from wherever the first leads. -/
lemma Restores.bind {x : Exec σ ε α} {f : α → Exec σ ε β} {s s₀ : σ} (hx : Restores x s s₀)
    (hf : ∀ a s₁, x s = (.ok a, s₁) → Restores (f a) s₁ s₀) : Restores (x >>= f) s s₀ := by
  intro e he
  change (Exec.bind x f s).1 = _ at he
  change (Exec.bind x f s).2 = _
  unfold Exec.bind at he ⊢
  rcases h : x s with ⟨a | e' | _, s₁⟩
  all_goals simp only [h] at he ⊢
  · exact hf a s₁ h e he
  · have hrest := hx e'
    rw [h] at hrest
    exact hrest rfl
  · cases he

/-- A cleanup that leads from `s` to `s₀` restores `s₀` after an atomic refusal. -/
lemma Atomic.onErr {x : Exec σ ε α} {cleanup : Exec σ ε Unit} {s s₀ : σ} (hx : Atomic x)
    (hc : cleanup s = (.ok (), s₀)) : Restores (Exec.onErr x cleanup) s s₀ := by
  intro e he
  unfold Exec.onErr at he ⊢
  rcases h : x s with ⟨a | e' | _, s₁⟩
  all_goals simp only [h] at he ⊢
  · cases he
  · obtain rfl : s₁ = s := by
      have hrest := hx s e'
      rw [h] at hrest
      exact hrest rfl
    rw [hc]
  · cases he

/-! The checks with which a computation may start. -/

/-- A body may start by reading the state. -/
lemma Atomic.get {f : σ → Exec σ ε β} (hf : ∀ s, Atomic (f s)) : Atomic (Exec.get >>= f) :=
  bind_reads reads_get hf

/-- A body may start with a check. -/
lemma Atomic.rejectIf {c : Prop} [Decidable c] {e : ε} {f : Unit → Exec σ ε β}
    (hf : ∀ u, Atomic (f u)) : Atomic (Exec.rejectIf c e >>= f) :=
  bind_reads (reads_rejectIf c e) hf

lemma Atomic.okOr {o : Option α} {e : ε} {f : α → Exec σ ε β} (hf : ∀ a, Atomic (f a)) :
    Atomic (Exec.okOr o e >>= f) :=
  bind_reads (reads_okOr o e) hf

lemma Atomic.ofExcept {g : ε' → ε} {r : Except ε' α} {f : α → Exec σ ε β}
    (hf : ∀ a, Atomic (f a)) : Atomic (Exec.ofExcept g r >>= f) :=
  bind_reads (reads_ofExcept g r) hf

lemma Atomic.ofOutcome {g : ε' → ε} {o : Outcome ε' α} {f : α → Exec σ ε β}
    (hf : ∀ a, Atomic (f a)) : Atomic (Exec.ofOutcome g o >>= f) :=
  bind_reads (reads_ofOutcome g o) hf

/-! ## Which refusals a run can end with -/

/-- From the state `s`, every refusal is one of `P`. -/
def Refuses (x : Exec σ ε α) (s : σ) (P : ε → Prop) : Prop := ∀ e, (x s).1 = .err e → P e

lemma Infallible.refuses {x : Exec σ ε α} (h : Infallible x) (s : σ) (P : ε → Prop) :
    Refuses x s P :=
  fun e he => absurd he (h s e)

/-- A sequence refuses as its parts do. -/
lemma Refuses.bind {x : Exec σ ε α} {f : α → Exec σ ε β} {s : σ} {P : ε → Prop}
    (hx : Refuses x s P) (hf : ∀ a s₁, x s = (.ok a, s₁) → Refuses (f a) s₁ P) :
    Refuses (x >>= f) s P := by
  intro e he
  change (Exec.bind x f s).1 = _ at he
  unfold Exec.bind at he
  rcases h : x s with ⟨a | e' | _, s₁⟩
  all_goals simp only [h] at he
  · exact hf a s₁ h e he
  · cases he
    exact hx e (by rw [h])
  · cases he

lemma Refuses.get {f : σ → Exec σ ε β} {s : σ} {P : ε → Prop} (hf : Refuses (f s) s P) :
    Refuses (Exec.get >>= f) s P :=
  (infallible_get.refuses s P).bind fun a s₁ h => by
    obtain ⟨rfl, rfl⟩ := get_eq_ok.mp h
    exact hf

lemma Refuses.rejectIf {c : Prop} [Decidable c] {e : ε} {f : Unit → Exec σ ε β} {s : σ}
    {P : ε → Prop} (he : c → P e) (hf : ¬ c → Refuses (f ()) s P) :
    Refuses (Exec.rejectIf c e >>= f) s P := by
  refine Refuses.bind (fun e' he' => ?_) fun a s₁ h => ?_
  · unfold Exec.rejectIf at he'
    split at he'
    · cases he'
      exact he ‹c›
    · cases he'
  · obtain ⟨hc, rfl⟩ := rejectIf_eq_ok.mp h
    exact hf hc

lemma Refuses.okOr {o : Option α} {e : ε} {f : α → Exec σ ε β} {s : σ} {P : ε → Prop}
    (he : o = none → P e) (hf : ∀ a, o = some a → Refuses (f a) s P) :
    Refuses (Exec.okOr o e >>= f) s P := by
  refine Refuses.bind (fun e' he' => ?_) fun a s₁ h => ?_
  · cases o with
    | none =>
      cases he'
      exact he rfl
    | some a => cases he'
  · obtain ⟨ho, rfl⟩ := okOr_eq_ok.mp h
    exact hf a ho

lemma Refuses.ofExcept {g : ε' → ε} {r : Except ε' α} {f : α → Exec σ ε β} {s : σ} {P : ε → Prop}
    (he : ∀ e, r = .error e → P (g e)) (hf : ∀ a, r = .ok a → Refuses (f a) s P) :
    Refuses (Exec.ofExcept g r >>= f) s P := by
  refine Refuses.bind (fun e' he' => ?_) fun a s₁ h => ?_
  · cases r with
    | error e =>
      cases he'
      exact he e rfl
    | ok a => cases he'
  · obtain ⟨hr, rfl⟩ := ofExcept_eq_ok.mp h
    exact hf a hr

lemma Refuses.ofOutcome {g : ε' → ε} {o : Outcome ε' α} {f : α → Exec σ ε β} {s : σ}
    {P : ε → Prop} (he : ∀ e, o = .err e → P (g e)) (hf : ∀ a, o = .ok a → Refuses (f a) s P) :
    Refuses (Exec.ofOutcome g o >>= f) s P := by
  refine Refuses.bind (fun e' he' => ?_) fun a s₁ h => ?_
  · cases o with
    | err e =>
      cases he'
      exact he e rfl
    | ok a => cases he'
    | fault => cases he'
  · obtain ⟨ho, rfl⟩ := ofOutcome_eq_ok.mp h
    exact hf a ho

lemma Refuses.zoom {τ : Type} {view : σ → τ} {put : σ → τ → σ} {g : ε' → ε} {x : Exec τ ε' α}
    {s : σ} {P : ε → Prop} (hx : Refuses x (view s) fun e => P (g e)) :
    Refuses (Exec.zoom view put g x) s P := by
  intro e he
  unfold Exec.zoom at he
  rcases h : x (view s) with ⟨a | e' | _, t⟩
  all_goals simp only [h] at he
  · cases he
  · cases he
    exact hx e' (by rw [h])
  · cases he

lemma Refuses.when {c : Prop} [Decidable c] {x : Exec σ ε Unit} {s : σ} {P : ε → Prop}
    (hx : c → Refuses x s P) : Refuses (Exec.when c x) s P := by
  intro e he
  unfold Exec.when at he
  split at he
  · exact hx ‹c› e he
  · cases he

/-- A cleanup does not change what is refused. -/
lemma Refuses.onErr {x : Exec σ ε α} {cleanup : Exec σ ε Unit} {s : σ} {P : ε → Prop}
    (hx : Refuses x s P) : Refuses (Exec.onErr x cleanup) s P := by
  intro e he
  unfold Exec.onErr at he
  rcases h : x s with ⟨a | e' | _, s₁⟩
  all_goals simp only [h] at he
  · cases he
  · split at he
    · cases he
    · cases he
      exact hx e (by rw [h])
  · cases he

/-! ### Refusals from every state -/

/-- Every refusal, from whatever state, is one of `P`. -/
def RefusesOnly (P : ε → Prop) (x : Exec σ ε α) : Prop := ∀ s, Refuses x s P

section RefusesOnly

variable {P : ε → Prop}

lemma Infallible.refusesOnly {x : Exec σ ε α} (h : Infallible x) : RefusesOnly P x :=
  fun s => h.refuses s P

lemma RefusesOnly.bind {x : Exec σ ε α} {f : α → Exec σ ε β} (hx : RefusesOnly P x)
    (hf : ∀ a, RefusesOnly P (f a)) : RefusesOnly P (x >>= f) :=
  fun s => (hx s).bind fun a s₁ _ => hf a s₁

lemma RefusesOnly.get {f : σ → Exec σ ε β} (hf : ∀ s, RefusesOnly P (f s)) :
    RefusesOnly P (Exec.get >>= f) :=
  infallible_get.refusesOnly.bind hf

lemma RefusesOnly.rejectIf {c : Prop} [Decidable c] {e : ε} {f : Unit → Exec σ ε β} (he : P e)
    (hf : RefusesOnly P (f ())) : RefusesOnly P (Exec.rejectIf c e >>= f) :=
  fun s => .rejectIf (fun _ => he) fun _ => hf s

lemma RefusesOnly.okOr {o : Option α} {e : ε} {f : α → Exec σ ε β} (he : P e)
    (hf : ∀ a, RefusesOnly P (f a)) : RefusesOnly P (Exec.okOr o e >>= f) :=
  fun s => .okOr (fun _ => he) fun a _ => hf a s

lemma RefusesOnly.ofExcept {g : ε' → ε} {r : Except ε' α} {f : α → Exec σ ε β}
    (he : ∀ e, r = .error e → P (g e)) (hf : ∀ a, RefusesOnly P (f a)) :
    RefusesOnly P (Exec.ofExcept g r >>= f) :=
  fun s => .ofExcept he fun a _ => hf a s

lemma RefusesOnly.ofOutcome {g : ε' → ε} {o : Outcome ε' α} {f : α → Exec σ ε β}
    (he : ∀ e, o = .err e → P (g e)) (hf : ∀ a, RefusesOnly P (f a)) :
    RefusesOnly P (Exec.ofOutcome g o >>= f) :=
  fun s => .ofOutcome he fun a _ => hf a s

lemma RefusesOnly.zoom {τ : Type} {view : σ → τ} {put : σ → τ → σ} {g : ε' → ε}
    {x : Exec τ ε' α} (he : ∀ e, P (g e)) : RefusesOnly P (Exec.zoom view put g x) :=
  fun _ => .zoom fun e _ => he e

lemma RefusesOnly.when {c : Prop} [Decidable c] {x : Exec σ ε Unit} (hx : RefusesOnly P x) :
    RefusesOnly P (Exec.when c x) :=
  fun s => .when fun _ => hx s

end RefusesOnly

/-- From the state `s`, no assertion fails and every refusal is one of `P`. -/
def Safe (x : Exec σ ε α) (s : σ) (P : ε → Prop) : Prop := (x s).1 ≠ .fault ∧ Refuses x s P

/-- A sequence is safe when its parts are. -/
lemma Safe.bind {x : Exec σ ε α} {f : α → Exec σ ε β} {s : σ} {P : ε → Prop} (hx : Safe x s P)
    (hf : ∀ a s₁, x s = (.ok a, s₁) → Safe (f a) s₁ P) : Safe (x >>= f) s P := by
  refine ⟨fun hfault => ?_, hx.2.bind fun a s₁ h => (hf a s₁ h).2⟩
  change (Exec.bind x f s).1 = _ at hfault
  unfold Exec.bind at hfault
  rcases h : x s with ⟨a | e' | _, s₁⟩
  all_goals simp only [h] at hfault
  · exact (hf a s₁ h).1 hfault
  · cases hfault
  · exact hx.1 (by rw [h])

lemma safe_pure (a : α) (s : σ) (P : ε → Prop) : Safe (pure a : Exec σ ε α) s P :=
  ⟨fun h => (by cases h), (infallible_pure a).refuses s P⟩

lemma safe_get (s : σ) (P : ε → Prop) : Safe (get : Exec σ ε σ) s P :=
  ⟨fun h => (by cases h), infallible_get.refuses s P⟩

lemma safe_modify (g : σ → σ) (s : σ) (P : ε → Prop) : Safe (modify g : Exec σ ε Unit) s P :=
  ⟨fun h => (by cases h), (infallible_modify g).refuses s P⟩

lemma safe_rejectIf {c : Prop} [Decidable c] {e : ε} (s : σ) {P : ε → Prop} (he : c → P e) :
    Safe (rejectIf c e : Exec σ ε Unit) s P := by
  unfold Safe Refuses rejectIf
  split
  next hc => exact ⟨by simp, fun e' he' => by cases he'; exact he hc⟩
  next => exact ⟨by simp, fun e' he' => by cases he'⟩

lemma safe_okOr {o : Option α} {e : ε} (s : σ) {P : ε → Prop} (he : o = none → P e) :
    Safe (okOr o e : Exec σ ε α) s P := by
  cases o with
  | none => exact ⟨by simp [okOr], fun e' he' => by cases he'; exact he rfl⟩
  | some a => exact ⟨by simp [okOr], fun e' he' => by cases he'⟩

lemma safe_ofExcept {g : ε' → ε} {r : Except ε' α} (s : σ) {P : ε → Prop}
    (he : ∀ e, r = .error e → P (g e)) : Safe (ofExcept g r : Exec σ ε α) s P := by
  cases r with
  | error e => exact ⟨by simp [ofExcept], fun e' he' => by cases he'; exact he e rfl⟩
  | ok a => exact ⟨by simp [ofExcept], fun e' he' => by cases he'⟩

lemma safe_unwrap {o : Option α} {a : α} (h : o = some a) (s : σ) (P : ε → Prop) :
    Safe (unwrap o : Exec σ ε α) s P := by
  subst h
  exact ⟨by simp [unwrap], (infallible_unwrap _).refuses s P⟩

lemma safe_when_of_not {c : Prop} [Decidable c] (x : Exec σ ε Unit) (hc : ¬ c) (s : σ)
    (P : ε → Prop) : Safe (when c x) s P := by
  refine ⟨?_, fun e he => ?_⟩
  · simp [when, hc]
  · simp [when, hc] at he

/-- A cleanup that cannot fail keeps a computation safe. -/
lemma Safe.onErr {x : Exec σ ε α} {cleanup : Exec σ ε Unit} {s : σ} {P : ε → Prop} (hx : Safe x s P)
    (hc : ∀ s₁, (cleanup s₁).1 ≠ .fault) : Safe (Exec.onErr x cleanup) s P := by
  refine ⟨fun hfault => ?_, hx.2.onErr⟩
  unfold Exec.onErr at hfault
  rcases h : x s with ⟨a | e | _, s₁⟩
  all_goals simp only [h] at hfault
  · cases hfault
  · rcases hclean : cleanup s₁ with ⟨u | e' | _, s₂⟩
    all_goals simp only [hclean] at hfault
    · cases hfault
    · cases hfault
    · exact hc s₁ (by rw [hclean])
  · exact hx.1 (by rw [h])

/-! ## Views that a computation keeps -/

section Keeps

variable {τ : Type*} {view : σ → τ}

/-- The computation leaves what the view shows as it was, unless it stops on a failed assertion. -/
def Keeps (view : σ → τ) (x : Exec σ ε α) : Prop :=
  ∀ s, (x s).1 ≠ .fault → view (x s).2 = view s

lemma Reads.keeps {x : Exec σ ε α} (h : Reads x) : Keeps view x :=
  fun s _ => congrArg view (h s)

/-- An atomic computation keeps what its successes keep. -/
lemma Atomic.keeps {x : Exec σ ε α} (h : Atomic x)
    (hok : ∀ s a s', x s = (.ok a, s') → view s' = view s) : Keeps view x := by
  intro s hs
  rcases hx : x s with ⟨a | e | _, s'⟩
  · exact hok s a s' hx
  · have hr := h s e (congrArg Prod.fst hx)
    rw [hx] at hr
    exact congrArg view hr
  · exact absurd (congrArg Prod.fst hx) hs

lemma keeps_modify {f : σ → σ} (h : ∀ s, view (f s) = view s) :
    Keeps view (modify f : Exec σ ε Unit) :=
  fun s _ => h s

lemma Keeps.bind {x : Exec σ ε α} {f : α → Exec σ ε β} (hx : Keeps view x)
    (hf : ∀ a, Keeps view (f a)) : Keeps view (x >>= f) := by
  intro s hs
  change (Exec.bind x f s).1 ≠ .fault at hs
  change view (Exec.bind x f s).2 = view s
  have hxs := hx s
  unfold Exec.bind at hs ⊢
  rcases h : x s with ⟨a | e | _, s₁⟩ <;> simp only [h] at hs hxs ⊢
  · rw [hf a s₁ hs]
    exact hxs (by simp)
  · exact hxs (by simp)
  · exact absurd rfl hs

lemma Keeps.when {c : Prop} [Decidable c] {x : Exec σ ε Unit} (hx : Keeps view x) :
    Keeps view (Exec.when c x) := by
  intro s hs
  unfold Exec.when at hs ⊢
  split_ifs with hc
  · rw [if_pos hc] at hs
    exact hx s hs
  · rfl

lemma Keeps.onErr {x : Exec σ ε α} {cleanup : Exec σ ε Unit} (hx : Keeps view x)
    (hc : Keeps view cleanup) : Keeps view (Exec.onErr x cleanup) := by
  intro s hs
  have hxs := hx s
  unfold Exec.onErr at hs ⊢
  rcases h : x s with ⟨a | e | _, s₁⟩ <;> simp only [h] at hs hxs ⊢
  · exact hxs (by simp)
  · have hcs := hc s₁
    rcases h' : cleanup s₁ with ⟨u | e' | _, s₂⟩ <;> simp only [h'] at hs hcs ⊢
    · rw [hcs (by simp)]
      exact hxs (by simp)
    · rw [hcs (by simp)]
      exact hxs (by simp)
    · exact absurd rfl hs
  · exact absurd rfl hs

lemma Keeps.attempt {x : Exec σ ε' α} (hx : Keeps view x) :
    Keeps view (Exec.attempt x : Exec σ ε (Except ε' α)) := by
  intro s hs
  have hxs := hx s
  unfold Exec.attempt at hs ⊢
  rcases h : x s with ⟨a | e | _, s₁⟩ <;> simp only [h] at hs hxs ⊢
  · exact hxs (by simp)
  · exact hxs (by simp)
  · exact absurd rfl hs

/-- What is kept when the computation ends well. -/
lemma Keeps.eq_of_ok {x : Exec σ ε α} (hx : Keeps view x) {s s' : σ} {a : α}
    (h : x s = (.ok a, s')) : view s' = view s := by
  have hs := hx s
  rw [h] at hs
  exact hs (by simp)

end Keeps

/-! ## Computations that do not see a change of the state -/

section Follows

variable {f : σ → σ} {s : σ}

/-- On the changed state the second computation does what the first does, and the change is still
there afterwards. -/
def Follows (f : σ → σ) (x y : Exec σ ε α) (s : σ) : Prop := y (f s) = ((x s).1, f (x s).2)

lemma follows_pure (a : α) : Follows f (pure a : Exec σ ε α) (pure a) s := rfl

lemma follows_rejectIf (c : Prop) [Decidable c] (e : ε) :
    Follows f (rejectIf c e) (rejectIf c e) s := by
  unfold Follows rejectIf
  split <;> rfl

lemma follows_rejectIf_of_iff {c d : Prop} [Decidable c] [Decidable d] (h : c ↔ d) (e : ε) :
    Follows f (rejectIf c e) (rejectIf d e) s := by
  rw [rejectIf_congr h]
  exact follows_rejectIf d e

lemma follows_okOr (o : Option α) (e : ε) : Follows f (okOr o e) (okOr o e) s := by
  cases o <;> rfl

lemma follows_ofExcept (g : ε' → ε) (r : Except ε' α) :
    Follows f (ofExcept g r) (ofExcept g r) s := by
  cases r <;> rfl

lemma follows_ofOutcome (g : ε' → ε) (o : Outcome ε' α) :
    Follows f (ofOutcome g o) (ofOutcome g o) s := by
  cases o <;> rfl

lemma follows_unwrap (o : Option α) : Follows f (unwrap o : Exec σ ε α) (unwrap o) s := by
  cases o <;> rfl

lemma follows_modify {g k : σ → σ} (h : k (f s) = f (g s)) :
    Follows f (modify g : Exec σ ε Unit) (modify k) s := by
  simp only [Follows, modify, h]

/-- A read sees the change; what is done with it may differ accordingly. -/
lemma Follows.get {g k : σ → Exec σ ε α} (h : Follows f (g s) (k (f s)) s) :
    Follows f (Exec.get >>= g) (Exec.get >>= k) s := h

lemma Follows.bind {x y : Exec σ ε α} {g k : α → Exec σ ε β} (h : Follows f x y s)
    (hk : ∀ a s₁, x s = (.ok a, s₁) → Follows f (g a) (k a) s₁) :
    Follows f (x >>= g) (y >>= k) s := by
  unfold Follows at h
  change Exec.bind y k (f s) = ((Exec.bind x g s).1, f (Exec.bind x g s).2)
  unfold Exec.bind
  rcases hx : x s with ⟨a | e | _, s₁⟩ <;> rw [hx] at h <;> simp only [h]
  exact hk a s₁ hx

lemma Follows.when {c : Prop} [Decidable c] {x y : Exec σ ε Unit} (h : c → Follows f x y s) :
    Follows f (Exec.when c x) (Exec.when c y) s := by
  unfold Follows Exec.when
  split
  · next hc => exact h hc
  · rfl

lemma Follows.expect {x y : Exec σ ε' α} (h : Follows f x y s) :
    Follows f (Exec.expect x : Exec σ ε α) (Exec.expect y) s := by
  unfold Follows at h
  unfold Follows Exec.expect
  rcases hx : x s with ⟨a | e | _, s₁⟩ <;> rw [hx] at h <;> simp only [h]

lemma Follows.onErr {x y : Exec σ ε α} {c d : Exec σ ε Unit} (h : Follows f x y s)
    (hc : ∀ s₁, Follows f c d s₁) : Follows f (Exec.onErr x c) (Exec.onErr y d) s := by
  unfold Follows at h
  unfold Follows Exec.onErr
  rcases hx : x s with ⟨a | e | _, s₁⟩ <;> rw [hx] at h <;> simp only [h]
  have hc₁ := hc s₁
  unfold Follows at hc₁
  rcases hcs : c s₁ with ⟨u | e' | _, s₂⟩ <;> rw [hcs] at hc₁ <;> simp only [hc₁]

lemma Follows.attempt {x y : Exec σ ε' α} (h : Follows f x y s) :
    Follows f (Exec.attempt x : Exec σ ε (Except ε' α)) (Exec.attempt y) s := by
  unfold Follows at h
  unfold Follows Exec.attempt
  rcases hx : x s with ⟨a | e | _, s₁⟩ <;> rw [hx] at h <;> simp only [h]

/-- A computation on a component that the change leaves alone. -/
lemma follows_zoom {τ : Type} {view : σ → τ} {put : σ → τ → σ} (g : ε' → ε) (x : Exec τ ε' α)
    (hview : view (f s) = view s) (hput : ∀ t, put (f s) t = f (put s t)) :
    Follows f (zoom view put g x) (zoom view put g x) s := by
  unfold Follows zoom
  rw [hview]
  rcases x (view s) with ⟨a | e | _, t⟩ <;> simp only [hput]

end Follows

section Zoom

variable {τ : Type} {view : σ → τ} {put : σ → τ → σ} {x : Exec τ ε' α}

/-- A read-only computation on a component is read-only on the whole state. -/
lemma Reads.zoom (g : ε' → ε) (hput : ∀ s, put s (view s) = s) (hx : Reads x) :
    Reads (Exec.zoom view put g x : Exec σ ε α) := by
  intro s
  have h := hx (view s)
  unfold Exec.zoom
  rcases hr : x (view s) with ⟨_ | _ | _, t⟩
  all_goals
    rw [hr] at h
    simp only at h ⊢
    rw [h, hput]

/-- An atomic computation on a component is atomic on the whole state. -/
lemma Atomic.zoom (g : ε' → ε) (hput : ∀ s, put s (view s) = s) (hx : Atomic x) :
    Atomic (Exec.zoom view put g x : Exec σ ε α) := by
  intro s e he
  have h := hx (view s)
  unfold Exec.zoom at he ⊢
  rcases hr : x (view s) with ⟨_ | e' | _, t⟩
  all_goals
    rw [hr] at h
    simp only [hr] at he h ⊢
  · cases he
  · rw [h e' rfl, hput]
  · cases he

end Zoom

end Exec

end Foundations
