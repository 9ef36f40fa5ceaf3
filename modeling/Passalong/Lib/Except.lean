import Mathlib.Init

/-!
# Computations that can fail, step by step
-/

namespace Lib

variable {ε α β : Type} {x : Except ε α} {f : α → Except ε β}

/-- Going on from a step that succeeded. -/
theorem bind_eq_ok {b : β} (h : (x >>= f) = .ok b) : ∃ a, x = .ok a ∧ f a = .ok b := by
  cases x with
  | error e => cases h
  | ok a => exact ⟨a, rfl, h⟩

/-- What fails is the first step or the others. -/
theorem bind_eq_error {e : ε} (h : (x >>= f) = .error e) :
    x = .error e ∨ ∃ a, x = .ok a ∧ f a = .error e := by
  cases x with
  | error e =>
    cases h
    exact .inl rfl
  | ok a => exact .inr ⟨a, rfl, h⟩

end Lib
