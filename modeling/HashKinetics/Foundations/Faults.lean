import HashKinetics.Foundations.Exec

/-!
# Computations whose assertions hold

A failed assertion ends a computation for good, so whether one can fail is asked at a state: from
there, does the computation return or refuse?  `Exec.NoFault` composes along the sequence of a body,
each rule handing the facts that the steps before established to what comes after them;
`Exec.Faultless` is the case of a body that asserts nothing.
-/

namespace Foundations.Exec

variable {σ ε ε' α β : Type}

/-- From the state `s`, no assertion fails. -/
def NoFault (x : Exec σ ε α) (s : σ) : Prop := (x s).1 ≠ .fault

/-- From no state an assertion fails. -/
def Faultless (x : Exec σ ε α) : Prop := ∀ s, NoFault x s

namespace NoFault

variable {s : σ}

/-- A computation that succeeds meets its assertions. -/
lemma of_ok {x : Exec σ ε α} {a : α} {s₁ : σ} (h : x s = (.ok a, s₁)) : NoFault x s := by
  unfold NoFault
  rw [h]
  simp

/-- A sequence meets its assertions when both parts do, the second from wherever the first leads. -/
lemma bind {x : Exec σ ε α} {f : α → Exec σ ε β} (hx : NoFault x s)
    (hf : ∀ a s₁, x s = (.ok a, s₁) → NoFault (f a) s₁) : NoFault (x >>= f) s := by
  change (Exec.bind x f s).1 ≠ _
  unfold NoFault at hx
  unfold Exec.bind
  rcases h : x s with ⟨a | e | _, s₁⟩
  · exact hf a s₁ h
  · simp
  · rw [h] at hx
    exact absurd rfl hx

/-- A value asserts nothing. -/
lemma pure (a : α) : NoFault (Pure.pure a : Exec σ ε α) s := by
  intro h
  cases h

/-- A rewrite asserts nothing. -/
lemma modify (g : σ → σ) : NoFault (Exec.modify g : Exec σ ε Unit) s := by
  intro h
  cases h

/-- A body that reads the state first meets its assertions when the rest does from that state. -/
lemma get {f : σ → Exec σ ε β} (hf : NoFault (f s) s) : NoFault (Exec.get >>= f) s := hf

lemma modify_bind {g : σ → σ} {f : Unit → Exec σ ε β} (hf : NoFault (f ()) (g s)) :
    NoFault (Exec.modify g >>= f) s := hf

/-- A check asserts nothing, and what follows it may use that it did not hold. -/
lemma rejectIf {c : Prop} [Decidable c] {e : ε} {f : Unit → Exec σ ε β}
    (hf : ¬ c → NoFault (f ()) s) : NoFault (Exec.rejectIf c e >>= f) s := by
  refine bind ?_ fun u s₁ h => ?_
  · unfold NoFault Exec.rejectIf
    split_ifs <;> simp
  · obtain ⟨hc, rfl⟩ := rejectIf_eq_ok.mp h
    exact hf hc

/-- A lookup asserts nothing, and what follows it may use what was found. -/
lemma okOr {o : Option α} {e : ε} {f : α → Exec σ ε β} (hf : ∀ a, o = some a → NoFault (f a) s) :
    NoFault (Exec.okOr o e >>= f) s := by
  refine bind ?_ fun a s₁ h => ?_
  · cases o <;> simp [NoFault, Exec.okOr]
  · obtain ⟨ho, rfl⟩ := okOr_eq_ok.mp h
    exact hf a ho

/-- A fallible pure computation asserts nothing, and what follows it may use what it returned. -/
lemma ofExcept {g : ε' → ε} {r : Except ε' α} {f : α → Exec σ ε β}
    (hf : ∀ a, r = .ok a → NoFault (f a) s) : NoFault (Exec.ofExcept g r >>= f) s := by
  refine bind ?_ fun a s₁ h => ?_
  · cases r <;> simp [NoFault, Exec.ofExcept]
  · obtain ⟨hr, rfl⟩ := ofExcept_eq_ok.mp h
    exact hf a hr

/-- An outcome that is known to be no fault may be taken over. -/
lemma ofOutcome {g : ε' → ε} {o : Outcome ε' α} {f : α → Exec σ ε β} (ho : o ≠ .fault)
    (hf : ∀ a, o = .ok a → NoFault (f a) s) : NoFault (Exec.ofOutcome g o >>= f) s := by
  refine bind ?_ fun a s₁ h => ?_
  · cases o with
    | fault => exact absurd rfl ho
    | ok a => simp [NoFault, Exec.ofOutcome]
    | err e => simp [NoFault, Exec.ofOutcome]
  · obtain ⟨ho, rfl⟩ := ofOutcome_eq_ok.mp h
    exact hf a ho

/-- An option that is known to hold a value may be unwrapped. -/
lemma unwrap {o : Option α} {a : α} (ho : o = some a) {f : α → Exec σ ε β} (hf : NoFault (f a) s) :
    NoFault (Exec.unwrap o >>= f) s := by
  subst ho
  exact hf

/-- A computation that is known to succeed may be expected to. -/
lemma expect {x : Exec σ ε' α} {a : α} {s₁ : σ} (hx : x s = (.ok a, s₁)) {f : α → Exec σ ε β}
    (hf : NoFault (f a) s₁) : NoFault (Exec.expect x >>= f) s := by
  have h : (Exec.expect x : Exec σ ε α) s = (.ok a, s₁) := expect_eq_ok.mpr hx
  refine bind (of_ok h) fun b s₂ hb => ?_
  rw [h] at hb
  cases hb
  exact hf

/-- An optional computation has to meet its assertions only when it runs. -/
lemma when {c : Prop} [Decidable c] {x : Exec σ ε Unit} (hx : c → NoFault x s) :
    NoFault (Exec.when c x) s := by
  unfold NoFault Exec.when
  split_ifs with hc
  · exact hx hc
  · simp

/-- A computation on a component meets its assertions when it does there. -/
lemma zoom {τ : Type} {view : σ → τ} {put : σ → τ → σ} {g : ε' → ε} {x : Exec τ ε' α}
    (hx : NoFault x (view s)) : NoFault (Exec.zoom view put g x) s := by
  unfold NoFault at hx
  unfold NoFault Exec.zoom
  rcases h : x (view s) with ⟨a | e | _, t⟩
  · simp
  · simp
  · rw [h] at hx
    exact absurd rfl hx

/-- The cleanup of a refusal asserts nothing. -/
lemma onErr {x : Exec σ ε α} {cleanup : Exec σ ε Unit} (hx : NoFault x s) (hc : Faultless cleanup) :
    NoFault (Exec.onErr x cleanup) s := by
  unfold NoFault at hx
  unfold NoFault Exec.onErr
  rcases h : x s with ⟨a | e | _, s₁⟩
  · simp
  · have hclean := hc s₁
    unfold NoFault at hclean
    rcases h' : cleanup s₁ with ⟨u | e' | _, s₂⟩
    · simp [h']
    · simp [h']
    · rw [h'] at hclean
      exact absurd rfl hclean
  · rw [h] at hx
    exact absurd rfl hx

end NoFault

namespace Faultless

/-- A sequence asserts nothing when neither part does. -/
lemma bind {x : Exec σ ε α} {f : α → Exec σ ε β} (hx : Faultless x) (hf : ∀ a, Faultless (f a)) :
    Faultless (x >>= f) :=
  fun s => (hx s).bind fun a s₁ _ => hf a s₁

lemma pure (a : α) : Faultless (Pure.pure a : Exec σ ε α) := fun _ => .pure a

lemma modify (g : σ → σ) : Faultless (Exec.modify g : Exec σ ε Unit) := fun _ => .modify g

lemma get {f : σ → Exec σ ε β} (hf : ∀ s, Faultless (f s)) : Faultless (Exec.get >>= f) :=
  fun s => .get (hf s s)

/-- A check may precede a body that asserts nothing. -/
lemma rejectIf {c : Prop} [Decidable c] {e : ε} {f : Unit → Exec σ ε β} (hf : Faultless (f ())) :
    Faultless (Exec.rejectIf c e >>= f) :=
  fun s => .rejectIf fun _ => hf s

/-- A lookup may precede a body that asserts nothing. -/
lemma okOr {o : Option α} {e : ε} {f : α → Exec σ ε β} (hf : ∀ a, Faultless (f a)) :
    Faultless (Exec.okOr o e >>= f) :=
  fun s => .okOr fun a _ => hf a s

lemma ofExcept {g : ε' → ε} {r : Except ε' α} {f : α → Exec σ ε β} (hf : ∀ a, Faultless (f a)) :
    Faultless (Exec.ofExcept g r >>= f) :=
  fun s => .ofExcept fun a _ => hf a s

/-- An optional body that asserts nothing. -/
lemma when {c : Prop} [Decidable c] {x : Exec σ ε Unit} (hx : Faultless x) :
    Faultless (Exec.when c x) :=
  fun s => .when fun _ => hx s

lemma zoom {τ : Type} {view : σ → τ} {put : σ → τ → σ} {g : ε' → ε} {x : Exec τ ε' α}
    (hx : Faultless x) : Faultless (Exec.zoom view put g x) :=
  fun s => .zoom (hx (view s))

end Faultless

end Foundations.Exec
