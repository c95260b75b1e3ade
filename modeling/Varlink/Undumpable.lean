import Mathlib.Data.List.TakeWhile
import Varlink.WriteStream

/-! Messages that cannot be serialised, among those passed to `async_send`. `dump`
throws in the function that the strand has just dequeued, so nobody calls `next`
for it: it stays the executing one, and all that is pushed later stays queued. -/

namespace Varlink.Undumpable

open WriteStream

variable {κ : Type} (dump : Dump)

def dumps (message : Json) : Bool := (dump message).toOption.isSome

variable {dump}

theorem dumps_of_ok {message : Json} {text : String} (h : dump message = .ok text) :
    dumps dump message = true := by
  simp [dumps, h, Except.toOption]

theorem dumps_of_error {message : Json} {e : Exn} (h : dump message = .error e) :
    dumps dump message = false := by
  simp [dumps, h, Except.toOption]

/-- Either the strand is executing exactly while a write is under way, or it has
run into a message that cannot be serialised and is left as it was then. -/
inductive Standing (dump : Dump) (s : Writer κ) : Prop where
  | flows (passed : s.connection.written ++ s.connection.writeStrand.queue.map (·.1) = s.calls)
      (dumped : ∀ message ∈ s.connection.written, dumps dump message = true)
      (busy : s.connection.writeStrand.executing = true → s.connection.writing.length = 1)
      (idle : s.connection.writeStrand.executing = false →
        s.connection.writeStrand.queue = [] ∧ s.connection.writing = [])
  | wedged {message : Json} (refused : dumps dump message = false)
      (passed : s.connection.written ++ message :: s.connection.writeStrand.queue.map (·.1) =
        s.calls)
      (dumped : ∀ message ∈ s.connection.written, dumps dump message = true)
      (executing : s.connection.writeStrand.executing = true)
      (nothing : s.connection.writing = [])

namespace Standing

theorem execute {c : Connection κ} {job : Json × κ} {strand : ManualStrand (Json × κ)}
    {progress : List Nat} {s : Writer κ} (free : c.writing = [])
    (executing : strand.executing = true)
    (passed : c.written ++ (job :: strand.queue).map (·.1) = s.calls)
    (dumped : ∀ message ∈ c.written, dumps dump message = true) :
    Standing dump (settle progress (Connection.execute dump (some job, strand) c).2 s) := by
  cases result : dump job.1 with
  | error e =>
    simp only [Connection.execute, Connection.write, result]
    exact .wedged (dumps_of_error result) passed dumped executing free
  | ok text =>
    simp only [Connection.execute, Connection.write, result]
    refine .flows ?_ ?_ (fun _ => ?_) fun idle => ?_
    · simpa [settle] using passed
    · intro message member
      rcases List.mem_append.mp member with old | new
      · exact dumped message old
      · exact List.mem_singleton.mp new ▸ dumps_of_ok result
    · simp [settle, free]
    · exact absurd (executing.symm.trans idle) (by decide)

theorem asyncSend {s t : Writer κ} (h : Standing dump s) {message : Json} {handler : κ}
    (sent : step dump s (.asyncSend message handler) = some t) : Standing dump t := by
  obtain rfl := Option.some.inj sent
  cases running : s.connection.writeStrand.executing with
  | false =>
    cases h with
    | wedged refused passed dumped executing => simp [executing] at running
    | flows passed dumped busy idle =>
      obtain ⟨nothing, free⟩ := idle running
      rw [Connection.asyncSend, ManualStrand.push_idle running nothing]
      refine execute free rfl ?_ dumped
      rw [nothing, List.map_nil, List.append_nil] at passed
      simp [passed]
  | true =>
    rw [Connection.asyncSend, ManualStrand.push_busy running]
    cases h with
    | flows passed dumped busy idle =>
      refine .flows ?_ dumped busy fun stops => absurd (running.symm.trans stops) (by decide)
      simp [settle, Connection.execute, ← passed]
    | wedged refused passed dumped executing nothing =>
      refine .wedged refused ?_ dumped executing nothing
      simp [settle, Connection.execute, ← passed]

theorem completed {s t : Writer κ} (h : Standing dump s) {n : Nat} {success : Bool}
    (done : step dump s (.completed n success) = some t) : Standing dump t := by
  simp only [step, Option.ite_none_left_eq_some, Option.map_eq_some_iff] at done
  obtain ⟨-, ⟨handler, c⟩, written, rfl⟩ := done
  obtain ⟨within, after⟩ := Connection.of_writeStep dump written
  cases h with
  | wedged refused passed dumped executing nothing => simp [nothing] at within
  | flows passed dumped busy idle =>
    have running : s.connection.writeStrand.executing = true := by
      by_contra stops
      simp [(idle (Bool.eq_false_iff.mpr stops)).2] at within
    have free : s.connection.writing.eraseIdx n = [] := by
      apply List.eq_nil_of_length_eq_zero
      rw [List.length_eraseIdx, if_pos within, busy running]
    rw [← after]
    cases waits : s.connection.writeStrand.queue with
    | nil =>
      have stops : s.connection.writeStrand.next =
          (none, { s.connection.writeStrand with executing := false }) := by
        simp [ManualStrand.next, ManualStrand.execute, waits]
      rw [stops]
      exact .flows passed dumped (fun runs => absurd runs Bool.false_ne_true) fun _ => ⟨waits, free⟩
    | cons job queue =>
      have goes : s.connection.writeStrand.next =
          (some job, { s.connection.writeStrand with queue }) := by
        simp [ManualStrand.next, ManualStrand.execute, waits]
      rw [goes]
      exact execute free running (waits ▸ passed) dumped

end Standing

theorem run_standing {bufsiz : Nat} {s : Writer κ} {es : List (Event κ)}
    (run : Runs.run (step dump) (init bufsiz) es = some s) : Standing dump s := by
  refine Runs.run_invariant (step dump) (fun s e t h one => ?_) ?_ run
  · cases e with
    | asyncSend message handler => exact h.asyncSend one
    | wrote n count =>
      simp only [step, Option.ite_none_right_eq_some, Option.some.injEq] at one
      obtain ⟨-, rfl⟩ := one
      cases h with
      | flows passed dumped busy idle => exact .flows passed dumped busy idle
      | wedged refused passed dumped executing nothing =>
        exact .wedged refused passed dumped executing nothing
    | completed n success => exact h.completed one
  · exact .flows rfl (List.forall_mem_nil _) (fun runs => absurd runs Bool.false_ne_true)
      fun _ => ⟨rfl, rfl⟩

/-- Once no write is under way, the messages up to the first that cannot be
serialised are written, and the strand is executing if there was such a message. -/
theorem Standing.quiescent {s : Writer κ} (h : Standing dump s)
    (quiet : s.connection.writing = []) :
    s.connection.written = s.calls.takeWhile (dumps dump) ∧
      (s.connection.writeStrand.executing = false ↔ ∀ message ∈ s.calls, dumps dump message) := by
  cases h with
  | flows passed dumped busy idle =>
    have stops : s.connection.writeStrand.executing = false := by
      by_contra running
      simpa [quiet] using busy (by simpa using running)
    rw [(idle stops).1, List.map_nil, List.append_nil] at passed
    rw [← passed]
    exact ⟨(List.takeWhile_eq_self_iff.mpr dumped).symm, fun _ => dumped, fun _ => stops⟩
  | @wedged message refused passed dumped executing nothing =>
    refine ⟨?_, fun stops => absurd (executing.symm.trans stops) (by decide), fun all => ?_⟩
    · rw [← passed, List.takeWhile_append_of_pos dumped,
        List.takeWhile_cons_of_neg (by simp [refused]), List.append_nil]
    · have fine := all message (by simp [← passed])
      exact absurd (refused.symm.trans fine) (by decide)

theorem takeWhile_eq_filter_iff {α : Type} (p : α → Bool) (l : List α) :
    l.takeWhile p = l.filter p ↔ l.Pairwise fun a b => p b = true → p a = true := by
  induction l with
  | nil => simp
  | cons a l ih =>
    cases good : p a with
    | true => simp [good, ih]
    | false =>
      simp only [List.takeWhile_cons, List.filter_cons, good, Bool.false_eq_true, if_false,
        List.pairwise_cons]
      constructor
      · intro none_
        have refused : ∀ b ∈ l, ¬ p b = true := List.filter_eq_nil_iff.mp none_.symm
        exact ⟨fun b member fine => absurd fine (refused b member),
          List.pairwise_of_forall_mem_list fun a _ b member fine => absurd fine (refused b member)⟩
      · rintro ⟨behind, -⟩
        exact (List.filter_eq_nil_iff.mpr fun b member fine =>
          nomatch behind b member fine).symm

/-- Once the writes are through, all messages that can be serialised are written
in call order exactly if each of them stands before all others; and the strand is
left able to run later functions exactly if there are no others. -/
theorem not_blocked_iff (dump : Dump) (bufsiz : Nat) (es : List (Event κ)) (s : Writer κ)
    (run : Runs.run (step dump) (init bufsiz) es = some s)
    (quiet : s.connection.writing = []) :
    (s.connection.written = s.calls.filter (dumps dump) ↔
      s.calls.Pairwise fun earlier later => dumps dump later = true → dumps dump earlier = true) ∧
    (s.connection.written = s.calls.filter (dumps dump) ∧
        s.connection.writeStrand.executing = false ↔
      ∀ message ∈ s.calls, dumps dump message = true) := by
  obtain ⟨written, strand⟩ := (run_standing run).quiescent quiet
  refine ⟨written ▸ takeWhile_eq_filter_iff _ _, fun both => strand.mp both.2, fun all => ?_⟩
  exact ⟨by rw [written, List.takeWhile_eq_self_iff.mpr all, List.filter_eq_self.mpr all],
    strand.mpr all⟩

theorem not_blocked_iff_two :
    let es : List (Event Unit) := [.asyncSend (.integer 1) (), .asyncSend (.integer 2) (),
      .wrote 0 2, .completed 0 true, .wrote 0 2, .completed 0 true]
    ∃ s, Runs.run (step dumpDigits) (init 8) es = some s ∧
      s.connection.written = s.calls.filter (dumps dumpDigits) ∧
      s.connection.writeStrand.executing = false := by
  intro es
  have enabled : (Runs.run (step dumpDigits) (init 8) es).any (fun s =>
      s.connection.writing.isEmpty && s.calls.all (dumps dumpDigits)) = true := by decide +kernel
  obtain ⟨s, run, both⟩ := (Option.any_eq_true _ _).mp enabled
  simp only [Bool.and_eq_true, List.isEmpty_iff, List.all_eq_true] at both
  exact ⟨s, run, (not_blocked_iff dumpDigits 8 es s run both.1).2.mpr both.2⟩

/-- A message that cannot be serialised is passed while a write is under way; the
completion of that write throws, and the message behind is never written. -/
theorem write_blocked :
    let es : List (Event Unit) := [.asyncSend (.integer 1) (), .asyncSend (.string "") (),
      .asyncSend (.integer 2) (), .wrote 0 2, .completed 0 true]
    ∃ s, Runs.run (step dumpDigits) (init 8) es = some s ∧
      s.connection.writing = [] ∧ s.connection.writeStrand.executing = true ∧
      s.connection.writeStrand.queue = [(.integer 2, ())] ∧
      s.connection.written = [.integer 1] ∧
      s.connection.written ≠ s.calls.filter (dumps dumpDigits) :=
  ⟨_, rfl, rfl, rfl, rfl, rfl, fun same => absurd (congrArg List.length same) (by decide)⟩

end Varlink.Undumpable
