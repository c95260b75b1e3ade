import Mathlib.Data.List.Basic

/-! In-place writes to a buffer of fixed size: an element by element copy
inside one buffer, whose source and target may overlap, and a block write. -/

namespace InPlace

variable {α : Type*}

/-- Copy `n` elements from `first` to `dest`, one after the other and forwards. -/
def copyWithin (buf : List α) (first dest : Nat) : Nat → List α
  | 0 => buf
  | n + 1 =>
    copyWithin (match buf[first]? with
      | some x => buf.set dest x
      | none => buf) (first + 1) (dest + 1) n

def overwrite (buf : List α) (offset : Nat) (block : List α) : List α :=
  buf.take offset ++ block ++ buf.drop (offset + block.length)

@[simp] theorem copyWithin_length (buf : List α) (first dest n : Nat) :
    (copyWithin buf first dest n).length = buf.length := by
  induction n generalizing buf first dest with
  | zero => rfl
  | succ n ih =>
    rw [copyWithin, ih]
    cases buf[first]? <;> simp

/-- A forward copy to a place not after its source moves the source unharmed,
also where the two overlap. -/
theorem copyWithin_take (buf : List α) {first dest n : Nat} (hle : dest ≤ first)
    (hn : first + n ≤ buf.length) :
    (copyWithin buf first dest n).take (dest + n) = buf.take dest ++ (buf.drop first).take n := by
  induction n generalizing buf first dest with
  | zero => simp [copyWithin]
  | succ n ih =>
    have hf : first < buf.length := by omega
    have hset : (buf.set dest buf[first]).drop (first + 1) = buf.drop (first + 1) :=
      List.drop_set_of_lt (by omega)
    have htake : (buf.set dest buf[first]).take (dest + 1) = buf.take dest ++ [buf[first]] := by
      rw [List.take_add_one, List.take_set_of_le (Nat.le_refl dest)]
      simp [show dest < buf.length by omega]
    simp only [copyWithin, List.getElem?_eq_getElem hf]
    rw [show dest + (n + 1) = (dest + 1) + n by omega,
      ih _ (by omega) (by rw [List.length_set]; omega), hset, htake,
      List.drop_eq_getElem_cons hf, List.take_succ_cons]
    simp

@[simp] theorem overwrite_length (buf block : List α) {offset : Nat}
    (h : offset + block.length ≤ buf.length) :
    (overwrite buf offset block).length = buf.length := by
  simp only [overwrite, List.length_append, List.length_take, List.length_drop]
  omega

theorem length_le_overwrite {α : Type*} (buf block : List α) (offset : Nat) :
    buf.length ≤ (overwrite buf offset block).length := by
  simp only [overwrite, List.length_append, List.length_take, List.length_drop]
  omega
theorem overwrite_take (buf block : List α) {offset : Nat} (h : offset ≤ buf.length) :
    (overwrite buf offset block).take (offset + block.length) = buf.take offset ++ block := by
  have hlen : (buf.take offset ++ block).length = offset + block.length := by
    rw [List.length_append, List.length_take, Nat.min_eq_left h]
  rw [overwrite, ← hlen, List.take_left]

end InPlace
