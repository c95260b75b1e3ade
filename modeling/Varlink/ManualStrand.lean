import Mathlib.Data.List.Basic

/-! `manual_strand`: a queue of functions of which one at a time is being
executed, until whoever executes it calls `next`. A function is what it has
captured; the one to run is returned. All is called on the one thread of the
event loop, where what is dispatched onto a strand runs at once. -/

namespace Varlink

structure ManualStrand (α : Type) where
  queue : List α := []
  executing : Bool := false

namespace ManualStrand

variable {α : Type}

def execute (s : ManualStrand α) : Option α × ManualStrand α :=
  match s.queue with
  | [] => (none, { s with executing := false })
  | function :: rest => (some function, { s with queue := rest })

def push (s : ManualStrand α) (function : α) : Option α × ManualStrand α :=
  let pushed := { s with queue := s.queue ++ [function] }
  if pushed.executing then (none, pushed) else execute { pushed with executing := true }

def next (s : ManualStrand α) : Option α × ManualStrand α := s.execute

theorem push_busy {s : ManualStrand α} (busy : s.executing = true) (function : α) :
    s.push function = (none, { s with queue := s.queue ++ [function] }) := by
  rw [push, if_pos busy]

theorem push_idle {s : ManualStrand α} (idle : s.executing = false) (empty : s.queue = [])
    (function : α) : s.push function = (some function, { queue := [], executing := true }) := by
  simp [push, execute, idle, empty]

def Ordered (s : ManualStrand α) : Prop := s.executing = false → s.queue = []

theorem Ordered.push {s : ManualStrand α} (h : s.Ordered) (function : α) :
    (s.push function).2.Ordered ∧ (s.push function).2.executing = true ∧
      (s.push function).1.toList ++ (s.push function).2.queue = s.queue ++ [function] ∧
      (s.executing = false → (s.push function).1 = some function) := by
  unfold ManualStrand.push
  cases running : s.executing with
  | true => exact ⟨nofun, rfl, rfl, nofun⟩
  | false => simp [h running, execute, Ordered]

theorem Ordered.next {s : ManualStrand α} (h : s.Ordered) :
    s.next.2.Ordered ∧ s.next.1.toList ++ s.next.2.queue = s.queue ∧
      (s.executing = true → s.next.2.executing = s.next.1.isSome) := by
  unfold ManualStrand.next execute
  cases queued : s.queue with
  | nil => simp [Ordered]
  | cons function rest =>
    refine ⟨fun idle => ?_, rfl, fun running => running⟩
    exact absurd (h idle) (by simp [queued])

end ManualStrand

end Varlink
