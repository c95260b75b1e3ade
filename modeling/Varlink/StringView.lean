import Varlink.Message
import Mathlib.Data.List.Infix

/-! The searches and the slice of `std::string_view` that the URI parser is made
of. No index stands for `npos`. -/

namespace Varlink.StringView

open VarlinkMessage (rfind)

def find (c : Char) (s : List Char) : Option Nat := s.findIdx? (· == c)

def findText (text : List Char) : List Char → Option Nat
  | [] => if text.isPrefixOf [] then some 0 else none
  | c :: rest =>
    if text.isPrefixOf (c :: rest) then some 0 else (findText text rest).map (· + 1)

def substr (s : List Char) (pos : Nat) (count : Option Nat) : Except Exn (List Char) :=
  if s.length < pos then .error (.outOfRange "basic_string_view::substr")
  else match count with
    | none => .ok (s.drop pos)
    | some n => .ok ((s.drop pos).take n)

def next : Option Nat → Nat
  | none => 0
  | some i => i + 1

@[simp] theorem next_some (i : Nat) : next (some i) = i + 1 := rfl

variable {c : Char} {s text before after : List Char}

theorem find_of_not_mem (absent : c ∉ s) : find c s = none := by
  rw [find, List.findIdx?_eq_none_iff]
  intro x member
  exact beq_eq_false_iff_ne.mpr fun same => absent (same ▸ member)

theorem find_append (absent : c ∉ before) :
    find c (before ++ c :: after) = some before.length := by
  have none := find_of_not_mem absent
  rw [find] at none ⊢
  simp [List.findIdx?_append, none, List.findIdx?_cons]

theorem rfind_of_not_mem (absent : c ∉ s) : rfind c s = none := by
  have none := find_of_not_mem (c := c) (s := s.reverse) (by simpa using absent)
  rw [find] at none
  rw [rfind, none]
  rfl

theorem rfind_append (absent : c ∉ after) :
    rfind c (before ++ c :: after) = some before.length := by
  have first : find c (after.reverse ++ c :: before.reverse) = some after.reverse.length :=
    find_append (by simpa using absent)
  rw [find] at first
  have reversed : (before ++ c :: after).reverse = after.reverse ++ c :: before.reverse := by simp
  rw [rfind, reversed, first, Option.map_some, List.length_reverse, List.length_append,
    List.length_cons]
  congr 1
  omega

theorem exists_last (member : c ∈ s) :
    ∃ before after, s = before ++ c :: after ∧ c ∉ after := by
  obtain ⟨front, back, split, absent⟩ :=
    List.eq_append_cons_of_mem (List.mem_reverse.mpr member)
  refine ⟨back.reverse, front.reverse, ?_, by simpa using absent⟩
  rw [← List.reverse_reverse s, split]
  simp

theorem findText_eq_zero : findText text s = some 0 ↔ text <+: s := by
  cases s with
  | nil => simp [findText, List.isPrefixOf_iff_prefix]
  | cons c rest =>
    rw [findText]
    split
    next found => simpa using found
    next missing =>
      constructor
      · intro zero
        obtain ⟨i, -, impossible⟩ := Option.map_eq_some_iff.mp zero
        exact absurd impossible (Nat.succ_ne_zero i)
      · intro found
        exact absurd (List.isPrefixOf_iff_prefix.mpr found) missing

theorem substr_all : substr s 0 none = .ok s := by simp [substr]

theorem substr_before : substr (before ++ after) 0 (some before.length) = .ok before := by
  simp [substr]

theorem substr_behind : substr (before ++ after) before.length none = .ok after := by
  simp [substr]

theorem substr_past : substr (before ++ c :: after) (before.length + 1) none = .ok after := by
  simp [substr]

theorem prefix_before (absent : c ∉ text) (found : text <+: before ++ c :: after) :
    text <+: before := by
  rcases List.prefix_or_prefix_of_prefix found (List.prefix_append before (c :: after)) with
    inside | ⟨more, rfl⟩
  · exact inside
  · rw [List.prefix_append_right_inj] at found
    cases more with
    | nil => simp
    | cons x rest =>
      obtain ⟨rfl, -⟩ := List.cons_prefix_cons.mp found
      exact absurd (by simp) absent

end Varlink.StringView
