import Mathlib.Logic.Basic

/-!
# When fallible code succeeds

Code in `Except ε` is a chain of steps and refusals. These lemmas turn "the chain
returned `a`" into what every step on the way returned, so that a proof peels a
computation apart with `obtain` and never unfolds the monad.
-/

namespace Lib

universe u v

variable {ε : Type u} {α β : Type v} {e : ε} {a : α} {b : β} {x y : Except ε α} {f : α → Except ε β}

@[simp] theorem bind_eq_ok : (x >>= f) = .ok b ↔ ∃ a, x = .ok a ∧ f a = .ok b := by
  cases x with
  | error e =>
    constructor
    · intro h
      cases h
    · rintro ⟨a, ha, _⟩
      cases ha
  | ok a =>
    constructor
    · intro h
      exact ⟨a, rfl, h⟩
    · rintro ⟨a', ha, h⟩
      cases ha
      exact h

theorem bind_eq_error : (x >>= f) = .error e ↔
    x = .error e ∨ ∃ a, x = .ok a ∧ f a = .error e := by
  cases x with
  | error e' =>
    refine ⟨fun h => .inl (congrArg Except.error (Except.error.inj h)), fun h => ?_⟩
    rcases h with h | ⟨a, ha, _⟩
    · exact congrArg Except.error (Except.error.inj h)
    · cases ha
  | ok a =>
    refine ⟨fun h => .inr ⟨a, rfl, h⟩, fun h => ?_⟩
    rcases h with h | ⟨a', ha, h⟩
    · cases h
    · cases ha
      exact h

@[simp] theorem pure_eq_ok {a' : α} : (pure a : Except ε α) = .ok a' ↔ a = a' := by
  constructor
  · intro h
    cases h
    rfl
  · rintro rfl
    rfl

@[simp] theorem throw_eq_ok : (throw e : Except ε α) = .ok a ↔ False := by
  constructor
  · intro h
    cases h
  · exact False.elim

@[simp] theorem throw_bind : ((throw e : Except ε α) >>= f) = throw e := rfl

/-- A refusal in front of a step: the step ran and the refusal did not. -/
@[simp] theorem ite_throw_eq_ok {c : Prop} [Decidable c] :
    (if c then throw e else y) = .ok a ↔ ¬ c ∧ y = .ok a := by
  by_cases h : c
  · simp [h]
  · simp [h]

end Lib
