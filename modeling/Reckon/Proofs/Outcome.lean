import Reckon.Refusal
/-! Taking apart computations that ended well, and bounding the errors of those that did not. -/
namespace Reckon

theorem bindOk {ε α β : Type} {x : Except ε α} {f : α → Except ε β} {b : β} (h : x >>= f = .ok b) :
    ∃ a, x = .ok a ∧ f a = .ok b := by
  cases x with
  | error e => cases h
  | ok a => exact ⟨a, rfl, h⟩

theorem mapOk {ε α β : Type} {x : Except ε α} {g : α → β} {b : β} (h : x.map g = .ok b) :
    ∃ a, x = .ok a ∧ b = g a := by
  cases x with
  | error e => cases h
  | ok a =>
    cases h
    exact ⟨a, rfl, rfl⟩

def Raises {ε α : Type} (errors : ε → Prop) (x : Except ε α) : Prop := ∀ e, x = .error e → errors e

variable {ε α β : Type} {errors : ε → Prop}

theorem raisesOk (a : α) : Raises errors (.ok a) := nofun

theorem raisesError {e : ε} (expected : errors e) : Raises errors (.error e : Except ε α) := by
  rintro _ ⟨⟩
  exact expected

theorem Raises.bind {x : Except ε α} {f : α → Except ε β} (first : Raises errors x)
    (second : ∀ a, x = .ok a → Raises errors (f a)) : Raises errors (x >>= f) := by
  cases x with
  | error e => exact raisesError (first e rfl)
  | ok a => exact second a rfl

theorem Raises.map {x : Except ε α} (raises : Raises errors x) (g : α → β) : Raises errors (x.map g) := by
  cases x with
  | error e => exact raisesError (raises e rfl)
  | ok a => exact raisesOk (g a)

end Reckon
