import Varlink.ManualStrand
import Varlink.Library.Runs
import Mathlib.Data.List.Range

/-! All runs of one `manual_strand`. Functions are numbered in the order in which
they are pushed. What a function does while it runs, and who calls `next` for it
and when, is up to the run: `push` and `next` may be called from any depth of
running functions, and `execute` then calls the next function from there. -/

namespace Varlink.StrandRuns

structure Machine where
  strand : ManualStrand Nat := {}
  /-- How many functions were pushed. -/
  pushed : Nat := 0
  /-- The functions that were started, in the order of their starts. -/
  started : List Nat := []
  /-- The functions that have caused their `next`. -/
  passed : List Nat := []
  /-- The functions that are running, the innermost first. -/
  stack : List Nat := []

inductive Event where
  | push
  /-- The `next` that this function causes. -/
  | next (function : Nat)
  /-- The innermost running function returns. -/
  | returns

def Active (m : Machine) (function : Nat) : Prop :=
  function ∈ m.started ∧ function ∉ m.passed

instance (m : Machine) (function : Nat) : Decidable (Active m function) :=
  inferInstanceAs (Decidable (_ ∧ _))

/-- `execute` calls the function it has taken from the queue, if there was one. -/
def calls (job : Option Nat × ManualStrand Nat) (m : Machine) : Machine :=
  { m with
    strand := job.2
    started := m.started ++ job.1.toList
    stack := job.1.toList ++ m.stack }

def step (m : Machine) : Event → Option Machine
  | .push => some (calls (m.strand.push m.pushed) { m with pushed := m.pushed + 1 })
  | .next function =>
    if Active m function then
      some (calls m.strand.next { m with passed := m.passed ++ [function] })
    else none
  | .returns =>
    match m.stack with
    | [] => none
    | _ :: rest => some { m with stack := rest }

/-- The functions are started in the order of their numbers, the rest is queued,
and `executing` says that one is active. This holds wherever a function runs. -/
structure Mutex (m : Machine) : Prop where
  order : m.started ++ m.strand.queue = List.range m.pushed
  ordered : m.strand.Ordered
  passed : ∀ function ∈ m.passed, function ∈ m.started
  busy : m.strand.executing = true → ∃ function, ∀ other, Active m other ↔ other = function
  idle : m.strand.executing = false → ∀ function, ¬ Active m function

namespace Mutex

theorem init : Mutex {} where
  order := rfl
  ordered _ := rfl
  passed := nofun
  busy := nofun
  idle _ _ active := nomatch active.1

theorem nodup {m : Machine} (h : Mutex m) : (m.started ++ m.strand.queue).Nodup :=
  h.order ▸ List.nodup_range

theorem apart {m : Machine} (h : Mutex m) :
    ∀ started ∈ m.started, ∀ queued ∈ m.strand.queue, started ≠ queued :=
  (List.nodup_append.mp h.nodup).2.2

theorem not_passed {m : Machine} {function : Nat} (h : Mutex m)
    (queued : function ∈ m.strand.queue) : function ∉ m.passed := by
  intro passed
  exact h.apart function (h.passed function passed) function queued rfl

theorem active_start {m : Machine} {function : Nat} (quiet : ∀ other, ¬ Active m other)
    (fresh : function ∉ m.passed) (job : ManualStrand Nat) (other : Nat) :
    Active (calls (some function, job) m) other ↔ other = function := by
  simp only [Active, calls, Option.toList_some, List.mem_append, List.mem_singleton]
  constructor
  · rintro ⟨before | same, open_⟩
    · exact absurd ⟨before, open_⟩ (quiet other)
    · exact same
  · rintro rfl
    exact ⟨.inr rfl, fresh⟩

theorem push {m : Machine} (h : Mutex m) :
    Mutex (calls (m.strand.push m.pushed) { m with pushed := m.pushed + 1 }) := by
  obtain ⟨ordered, executing, queue, starts⟩ := h.ordered.push m.pushed
  have order : m.started ++ ((m.strand.push m.pushed).1.toList ++
      (m.strand.push m.pushed).2.queue) = List.range (m.pushed + 1) := by
    rw [queue, ← List.append_assoc, h.order, List.range_succ]
  refine ⟨(List.append_assoc _ _ _).trans order, ordered, fun f passed => ?_, fun _ => ?_,
    fun idle => ?_⟩
  · exact List.mem_append_left _ (h.passed f passed)
  · cases running : m.strand.executing with
    | false =>
      have fresh : m.pushed ∉ m.passed := fun passed => by
        have within : m.pushed ∈ List.range m.pushed :=
          h.order ▸ List.mem_append_left _ (h.passed _ passed)
        exact absurd (List.mem_range.mp within) (Nat.lt_irrefl _)
      rw [show m.strand.push m.pushed = (some m.pushed, (m.strand.push m.pushed).2) from
        Prod.ext (starts running) rfl]
      exact ⟨m.pushed, active_start (h.idle running) fresh _⟩
    | true =>
      obtain ⟨function, active⟩ := h.busy running
      have waits : (m.strand.push m.pushed).1 = none := by rw [ManualStrand.push_busy running]
      refine ⟨function, fun other => ?_⟩
      simpa [Active, calls, waits] using active other
  · exact absurd (executing.symm.trans idle) (by decide)

theorem next {m : Machine} (h : Mutex m) {function : Nat} (active : Active m function) :
    Mutex (calls m.strand.next { m with passed := m.passed ++ [function] }) := by
  obtain ⟨ordered, queue, starts⟩ := h.ordered.next
  have running : m.strand.executing = true := by
    by_contra idle
    exact h.idle (Bool.eq_false_iff.mpr idle) function active
  obtain ⟨only, busy⟩ := h.busy running
  obtain rfl := (busy function).mp active
  have quiet : ∀ other, ¬ Active { m with passed := m.passed ++ [function] } other := by
    rintro other ⟨started, open_⟩
    simp only [List.mem_append, List.mem_singleton, not_or] at open_
    exact open_.2 ((busy other).mp ⟨started, open_.1⟩)
  refine ⟨?_, ordered, fun f passed => ?_, fun goes => ?_, fun stops => ?_⟩
  · have order : m.started ++ (m.strand.next.1.toList ++ m.strand.next.2.queue) =
        List.range m.pushed := by rw [queue, h.order]
    exact (List.append_assoc _ _ _).trans order
  · rcases List.mem_append.mp passed with before | new
    · exact List.mem_append_left _ (h.passed f before)
    · exact List.mem_append_left _ (List.mem_singleton.mp new ▸ active.1)
  · have some_ := (starts running).symm.trans goes
    obtain ⟨following, taken⟩ := Option.isSome_iff_exists.mp some_
    have queued : following ∈ m.strand.queue := by rw [← queue, taken]; simp
    have fresh : following ∉ m.passed ++ [function] := by
      simp only [List.mem_append, List.mem_singleton, not_or]
      exact ⟨h.not_passed queued, fun same => h.apart function active.1 following queued same.symm⟩
    rw [show m.strand.next = (some following, m.strand.next.2) from Prod.ext taken rfl]
    exact ⟨following, active_start quiet fresh _⟩
  · have none_ : m.strand.next.1 = none := by
      have empty := (starts running).symm.trans stops
      simpa using empty
    intro other
    simpa [Active, calls, none_] using quiet other

end Mutex

theorem step_mutex {m t : Machine} {e : Event} (h : Mutex m) (hs : step m e = some t) :
    Mutex t := by
  cases e with
  | push => exact Option.some.inj hs ▸ h.push
  | next function =>
    simp only [step, Option.ite_none_right_eq_some, Option.some.injEq] at hs
    exact hs.2 ▸ h.next hs.1
  | returns =>
    simp only [step] at hs
    split at hs
    · cases hs
    · exact Option.some.inj hs ▸ { h with }

/-- Functions are started in push order, each at most once, with one active at a
time; and where none is active, whatever was pushed has been started. -/
theorem lossless_fifo_mutex (es : List Event) (m : Machine)
    (h : Runs.run step {} es = some m) :
    m.started <+: List.range m.pushed ∧ m.started.Nodup ∧
      (∀ j k, Active m j → Active m k → j = k) ∧
      (m.stack = [] → (∀ function, ¬ Active m function) →
        m.strand.queue = [] ∧ m.strand.executing = false ∧ m.started = List.range m.pushed) := by
  have mutex : Mutex m := Runs.run_invariant step (fun _ _ _ => step_mutex) Mutex.init h
  refine ⟨mutex.order ▸ List.prefix_append _ _, (List.nodup_append.mp mutex.nodup).1, ?_,
    fun _ quiet => ?_⟩
  · intro j k active same
    have running : m.strand.executing = true := by
      by_contra idle
      exact mutex.idle (Bool.eq_false_iff.mpr idle) j active
    obtain ⟨only, busy⟩ := mutex.busy running
    rw [(busy j).mp active, (busy k).mp same]
  · have idle : m.strand.executing = false := by
      by_contra running
      obtain ⟨only, busy⟩ := mutex.busy (by simpa using running)
      exact quiet only ((busy only).mpr rfl)
    have empty := mutex.ordered idle
    exact ⟨empty, idle, by rw [← mutex.order, empty, List.append_nil]⟩

/-- A function that pushes two others and then calls `next` while it still runs. -/
theorem lossless_fifo_mutex_nested :
    let es : List Event := [.push, .push, .push, .next 0, .returns, .push, .next 1, .next 2,
      .returns, .returns, .returns, .next 3]
    ∃ m, Runs.run step {} es = some m ∧ m.stack = [] ∧ m.strand.queue = [] ∧
      m.strand.executing = false ∧ m.started = List.range m.pushed ∧ m.pushed = 4 := by
  intro es
  have enabled : (Runs.run step {} es).any
      (fun m => m.stack = [] && m.passed = [0, 1, 2, 3] && m.pushed = 4) = true := by decide
  obtain ⟨m, run, ends⟩ := (Option.any_eq_true _ _).mp enabled
  simp only [Bool.and_eq_true, decide_eq_true_eq] at ends
  obtain ⟨⟨idle, passed⟩, pushed⟩ := ends
  obtain ⟨order, -, -, final⟩ := lossless_fifo_mutex es m run
  have quiet : ∀ function, ¬ Active m function := by
    rintro function ⟨started, open_⟩
    have within := List.mem_range.mp (order.subset started)
    rw [passed] at open_
    simp only [List.mem_cons, List.not_mem_nil, or_false, not_or] at open_
    omega
  exact ⟨m, run, idle, (final idle quiet).1, (final idle quiet).2.1, (final idle quiet).2.2, pushed⟩

end Varlink.StrandRuns
