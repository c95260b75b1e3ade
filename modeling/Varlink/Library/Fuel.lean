import Mathlib.Order.Notation

/-! Computations that may run out of fuel, which is the error `out`. One is below another
if it has run out or is the same: what more fuel gives is never another result. -/

universe u v

namespace Fuel

variable {ε : Type u} {α β : Type v} {out : ε}

def Below (out : ε) (x y : Except ε α) : Prop := x = .error out ∨ x = y

namespace Below

theorem refl (x : Except ε α) : Below out x x := .inr rfl

theorem bottom (y : Except ε α) : Below out (.error out) y := .inl rfl

theorem trans {x y z : Except ε α} (left : Below out x y) (right : Below out y z) :
    Below out x z := by
  rcases left with rfl | rfl
  · exact bottom z
  · exact right

theorem bind {x y : Except ε α} {f g : α → Except ε β} (first : Below out x y)
    (next : ∀ a, Below out (f a) (g a)) : Below out (x >>= f) (y >>= g) := by
  rcases first with rfl | rfl
  · exact bottom _
  · cases x with
    | error e => exact refl _
    | ok a => exact next a

theorem ite {c : Prop} [Decidable c] {x y x' y' : Except ε α} (yes : Below out x y)
    (no : Below out x' y') : Below out (if c then x else x') (if c then y else y') := by
  split
  · exact yes
  · exact no

theorem of_le {f : Nat → Except ε α} (step : ∀ n, Below out (f n) (f (n + 1))) {m n : Nat}
    (le : m ≤ n) : Below out (f m) (f n) := by
  induction le with
  | refl => exact refl _
  | step _ ih => exact ih.trans (step _)

theorem eq_of_ne {x y : Except ε α} (h : Below out x y) (ended : x ≠ .error out) : y = x :=
  (h.resolve_left ended).symm

theorem eq_ok {x y : Except ε α} {a : α} (h : Below out x y) (ok : x = .ok a) : y = .ok a :=
  (h.eq_of_ne (ok ▸ nofun)).trans ok

end Below

end Fuel
