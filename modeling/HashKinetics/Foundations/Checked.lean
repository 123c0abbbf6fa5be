import Mathlib

/-!
# Transactional computations

A computation in `Except` either returns its result or refuses, and a refusal leaves nothing behind.
The lemmas below read a successful computation backwards, one step of its `do` block at a time.
-/

namespace Foundations

variable {ε α β : Type}

/-- Refuse when the condition holds. -/
def refuseIf (c : Prop) [Decidable c] (e : ε) : Except ε Unit :=
  if c then .error e else .ok ()

namespace Checked

/-- A check passes if its condition does not hold. -/
@[simp] lemma refuseIf_eq_ok {c : Prop} [Decidable c] {e : ε} {u : Unit} :
    refuseIf c e = .ok u ↔ ¬ c := by
  unfold refuseIf
  split <;> simp_all

/-- A sequence succeeds if both parts do. -/
@[simp] lemma bind_eq_ok {x : Except ε α} {f : α → Except ε β} {b : β} :
    x >>= f = .ok b ↔ ∃ a, x = .ok a ∧ f a = .ok b := by
  cases x <;> simp [bind, Except.bind]

/-- A value is returned as it is. -/
@[simp] lemma pure_eq_ok {a b : α} : (pure a : Except ε α) = .ok b ↔ a = b := by
  simp [pure, Except.pure]

/-- A map succeeds if what it maps does. -/
@[simp] lemma map_eq_ok {x : Except ε α} {f : α → β} {b : β} :
    f <$> x = .ok b ↔ ∃ a, x = .ok a ∧ f a = b := by
  cases x <;> simp [Functor.map, Except.map]

end Checked

end Foundations
