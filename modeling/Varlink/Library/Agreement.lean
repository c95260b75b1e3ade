import Mathlib.Order.Notation

/-! Computations that end alike: with the same value, or with errors that `E` relates. The
first one may also give up, with an error of `G`. -/

universe u v

inductive Agree {ε : Type u} {α : Type v} (E : ε → ε → Prop) (G : ε → Prop) :
    Except ε α → Except ε α → Prop where
  | ok (a : α) : Agree E G (.ok a) (.ok a)
  | error {e e' : ε} (alike : E e e') : Agree E G (.error e) (.error e')
  | gaveUp {e : ε} (given : G e) (y : Except ε α) : Agree E G (.error e) y

namespace Agree

variable {ε : Type u} {α β : Type v} {E : ε → ε → Prop} {G : ε → Prop} {x y : Except ε α}

theorem refl (same : ∀ e, E e e) (x : Except ε α) : Agree E G x x := by
  cases x with
  | ok a => exact .ok a
  | error e => exact .error (same e)

theorem bind {f g : α → Except ε β} (first : Agree E G x y)
    (next : ∀ a, y = .ok a → Agree E G (f a) (g a)) : Agree E G (x >>= f) (y >>= g) := by
  cases first with
  | ok a => exact next a rfl
  | error alike => exact .error alike
  | gaveUp given => exact .gaveUp given _

theorem ite {c : Prop} [Decidable c] {x' y' : Except ε α} (yes : Agree E G x y)
    (no : Agree E G x' y') : Agree E G (if c then x else x') (if c then y else y') := by
  split
  · exact yes
  · exact no

theorem eq (h : Agree Eq (fun _ => False) x y) : x = y := by
  cases h with
  | ok a => rfl
  | error alike => rw [alike]
  | gaveUp given => cases given

end Agree
