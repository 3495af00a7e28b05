/-
  Be300.Lib.Ends — how a computation that may fail ends.

  `Ends P E x`: `x` gives a value that `P` allows, or fails with an error that `E` allows.
  `Gives P x` allows no error: `x` gives a value, and `P` holds of it. `Allows P x` asks
  nothing of the errors. `ends_bind`, `ends_ite` and `ends_mono` are the rules for proving
  them of a program, `gives_iff` and `allows_iff` what they say of its result.
-/

import Mathlib.Tactic.Common

namespace Be300.Lib

variable {ε α β : Type} {P Q : α → Prop} {R : β → Prop} {E : ε → Prop} {x : Except ε α} {f : α → Except ε β}

def Ends (P : α → Prop) (E : ε → Prop) : Except ε α → Prop
  | .ok a => P a
  | .error e => E e

abbrev Gives (P : α → Prop) (x : Except ε α) : Prop := Ends P (fun _ => False) x

abbrev Allows (P : α → Prop) (x : Except ε α) : Prop := Ends P (fun _ => True) x

theorem ends_ok {a : α} (h : P a) : Ends P E (.ok a) := h

theorem ends_pure {a : α} (h : P a) : Ends P E (pure a) := h

theorem gives_of_eq {a : α} (h : x = .ok a) : Gives (fun b => b = a) x := by
  rw [h]
  exact ends_ok rfl

theorem ends_error {e : ε} (h : E e) : Ends P E (.error e) := h

theorem gives_error {e : ε} : ¬ Gives P (.error e : Except ε α) := fun h => h

theorem ends_mono (hx : Ends P E x) (h : ∀ a, P a → Q a) : Ends Q E x := by
  cases x with
  | ok a => exact h a hx
  | error e => exact hx

theorem ends_bind (hx : Ends P E x) (hf : ∀ a, P a → Ends R E (f a)) : Ends R E (x >>= f) := by
  cases x with
  | ok a => exact hf a hx
  | error e => exact hx

theorem ends_ite {c : Prop} [Decidable c] {y : Except ε α} (hx : c → Ends P E x) (hy : ¬ c → Ends P E y) :
    Ends P E (if c then x else y) := by
  split
  · rename_i h
    exact hx h
  · rename_i h
    exact hy h

theorem allows_any (x : Except ε α) : Allows (fun _ => True) x := by
  cases x <;> trivial

/-- A step whose value does not matter. -/
theorem allows_bind (hf : ∀ a, Allows R (f a)) : Allows R (x >>= f) := ends_bind (allows_any x) fun a _ => hf a

theorem gives_and (hx : Gives P x) (hy : Allows Q x) : Gives (fun a => P a ∧ Q a) x := by
  cases x with
  | ok a => exact ⟨hx, hy⟩
  | error e => exact hx.elim

theorem gives_iff : Gives P x ↔ ∃ a, x = .ok a ∧ P a := by
  cases x with
  | ok a =>
    constructor
    · intro h
      exact ⟨a, rfl, h⟩
    · rintro ⟨b, hb, h⟩
      cases hb
      exact h
  | error e =>
    constructor
    · intro h
      exact h.elim
    · rintro ⟨b, hb, -⟩
      cases hb

theorem allows_iff : Allows P x ↔ ∀ a, x = .ok a → P a := by
  cases x with
  | ok a =>
    constructor
    · rintro h b hb
      cases hb
      exact h
    · intro h
      exact h a rfl
  | error e =>
    constructor
    · rintro - b hb
      cases hb
    · intro h
      trivial

attribute [irreducible] Ends

end Be300.Lib
