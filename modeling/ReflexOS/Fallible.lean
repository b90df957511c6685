import Mathlib.Tactic.Common

set_option autoImplicit false

/-!
# Computations that may fail

What holds of a result, if there is one, along the constructions of `Except`.
-/
namespace Fallible

/-- What a computation gives satisfies `p`, if it gives anything. -/
def Yields {ε α : Type} (p : α → Prop) (x : Except ε α) : Prop := ∀ a, x = .ok a → p a

section Yields
variable {ε α β : Type} {p : α → Prop} {q : β → Prop} {x : Except ε α} {f : α → Except ε β}

theorem yields_error (e : ε) : Yields p (.error e : Except ε α) := by
  intro a h
  cases h

theorem yields_ok {a : α} (h : p a) : Yields p (.ok a : Except ε α) := by
  intro b hb
  cases hb
  exact h

theorem yields_bind (hx : Yields p x) (hf : ∀ a, p a → Yields q (f a)) : Yields q (x >>= f) := by
  cases x with
  | error e => exact yields_error e
  | ok a => exact hf a (hx a rfl)

theorem yields_ite {c : Prop} [Decidable c] {y : Except ε α} (hx : Yields p x) (hy : Yields p y) :
    Yields p (if c then x else y) := by
  split
  · exact hx
  · exact hy

theorem yields_true (x : Except ε α) : Yields (fun _ => True) x := fun _ _ => trivial

end Yields

theorem of_bind_ok {ε α β : Type} {x : Except ε α} {f : α → Except ε β} {b : β}
    (h : x >>= f = .ok b) : ∃ a, x = .ok a ∧ f a = .ok b := by
  cases x with
  | error e => cases h
  | ok a => exact ⟨a, rfl, h⟩

end Fallible
