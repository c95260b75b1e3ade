import Mathlib.Data.Finset.Card
import Mathlib.Data.List.Infix

/-! Tables that number values by the order in which they are first seen. -/

namespace Interning

variable {α : Type*} [DecidableEq α]

def intern (table : List α) (x : α) : List α := if x ∈ table then table else table ++ [x]

def internAll (table xs : List α) : List α := xs.foldl intern table

variable {table xs : List α} {x y : α}

theorem prefix_intern : table <+: intern table x := by
  rw [intern]
  split
  next => exact List.prefix_rfl
  next => exact List.prefix_append table [x]

theorem mem_intern : y ∈ intern table x ↔ y ∈ table ∨ y = x := by
  rw [intern]
  split
  next known => exact ⟨.inl, fun h => h.elim id fun same => same ▸ known⟩
  next => simp

theorem nodup_intern (distinct : table.Nodup) : (intern table x).Nodup := by
  rw [intern]
  split
  next => exact distinct
  next absent =>
    rw [List.nodup_append]
    refine ⟨distinct, List.nodup_singleton x, fun y member z single => ?_⟩
    rw [List.mem_singleton.mp single]
    exact fun same => absent (same ▸ member)

theorem idxOf_intern : (intern table x).idxOf x = table.idxOf x := by
  rw [intern]
  split
  next => rfl
  next absent => rw [List.idxOf_append_of_notMem absent, List.idxOf_of_notMem absent]; simp

theorem internAll_append (ys : List α) :
    internAll table (xs ++ ys) = internAll (internAll table xs) ys := by
  rw [internAll, List.foldl_append]
  rfl

theorem internAll_singleton : internAll table [x] = intern table x := rfl

theorem prefix_internAll : table <+: internAll table xs := by
  induction xs generalizing table with
  | nil => exact List.prefix_rfl
  | cons x xs ih => exact prefix_intern.trans ih

theorem mem_internAll : y ∈ internAll table xs ↔ y ∈ table ∨ y ∈ xs := by
  induction xs generalizing table with
  | nil => simp [internAll]
  | cons x xs ih =>
    rw [internAll, List.foldl_cons]
    exact ih.trans (by rw [mem_intern, List.mem_cons, or_assoc])

theorem nodup_internAll (distinct : table.Nodup) : (internAll table xs).Nodup := by
  induction xs generalizing table with
  | nil => exact distinct
  | cons x xs ih => exact ih (nodup_intern distinct)

theorem idxOf_internAll (member : x ∈ table) : (internAll table xs).idxOf x = table.idxOf x :=
  (prefix_internAll.idxOf_eq_of_mem member).symm

theorem length_internAll (distinct : table.Nodup) :
    (internAll table xs).length = (table ++ xs).toFinset.card := by
  rw [← List.toFinset_card_of_nodup (nodup_internAll distinct)]
  congr 1
  ext y
  simp [mem_internAll]

end Interning
