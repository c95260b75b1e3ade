import Mathlib.Data.List.TakeDrop
import Varlink.AsyncConnection
import Varlink.Frame
import Varlink.JsonText
import Varlink.Library.Runs

/-! What `async_send` puts on the wire. The socket takes the bytes of a write
piece by piece; a write completes when all are taken, or fails before that. -/

namespace Varlink.WriteStream

open Varlink.Frame (bytes data frame)

structure Writer (κ : Type) where
  connection : Connection κ
  /-- How many bytes of each write under way are on the wire. -/
  progress : List Nat := []
  /-- The messages passed to `async_send`. -/
  calls : List Json := []
  wire : Bytes := []
  /-- Some write has failed with a part of its frame not on the wire. -/
  cutShort : Bool := false

inductive Event (κ : Type) where
  | asyncSend (message : Json) (handler : κ)
  | wrote (n : Nat) (count : Nat)
  | completed (n : Nat) (success : Bool)

def init {κ : Type} (bufsiz : Nat) : Writer κ where
  connection := .new bufsiz

variable {κ : Type} (dump : Dump)

def settle (progress : List Nat) (c : Connection κ) (s : Writer κ) : Writer κ :=
  { s with connection := c, progress := progress.takeD c.writing.length 0 }

def rest (n : Nat) (s : Writer κ) : Bytes :=
  match s.connection.writing[n]?, s.progress[n]? with
  | some job, some sent => (frame dump job.1).drop sent
  | _, _ => []

def step (s : Writer κ) : Event κ → Option (Writer κ)
  | .asyncSend message handler =>
    some (settle s.progress (s.connection.asyncSend dump message handler).2
      { s with calls := s.calls ++ [message] })
  | .wrote n count =>
    if 0 < count ∧ count ≤ (rest dump n s).length then
      some { s with
        wire := s.wire ++ (rest dump n s).take count
        progress := s.progress.modify n (· + count) }
    else none
  | .completed n success =>
    if success ∧ rest dump n s ≠ [] then none
    else
      (s.connection.writeStep dump n).map fun (_, c) =>
        settle (s.progress.eraseIdx n) c
          { s with cutShort := s.cutShort || rest dump n s != [] }

def Uncut (s : Writer κ) : Event κ → Prop
  | .wrote _ _ => s.cutShort = false
  | _ => True

instance (s : Writer κ) : (e : Event κ) → Decidable (Uncut s e)
  | .wrote _ _ => inferInstanceAs (Decidable (s.cutShort = false))
  | .asyncSend _ _ | .completed _ _ => isTrue trivial

/-- What is still to be written: by the writes under way, and by those queued. -/
def unsent (s : Writer κ) : Bytes :=
  (s.connection.writing.zip s.progress).flatMap (fun (job, sent) => (frame dump job.1).drop sent) ++
    s.connection.writeStrand.queue.flatMap fun job => frame dump job.1

structure Streamed (s : Writer κ) : Prop where
  length_eq : s.progress.length = s.connection.writing.length
  serial : s.connection.writing.length ≤ 1
  idle : s.connection.writeStrand.executing = false →
    s.connection.writeStrand.queue = [] ∧ s.connection.writing = []
  order : s.cutShort = false → s.wire ++ unsent dump s = s.calls.flatMap (frame dump)
  isPrefix : s.wire <+: s.calls.flatMap (frame dump)

variable {dump}

variable (dump) in
theorem execute_writing (next : Option (Json × κ) × ManualStrand (Json × κ)) (c : Connection κ) :
    (Connection.execute dump next c).2.writeStrand = next.2 ∧
      ∃ begun, (Connection.execute dump next c).2.writing = c.writing ++ begun ∧
        begun.length ≤ next.1.toList.length ∧
        begun.flatMap (fun job => frame dump job.1) =
          next.1.toList.flatMap fun job => frame dump job.1 := by
  obtain ⟨job, strand⟩ := next
  cases job with
  | none => exact ⟨rfl, [], (List.append_nil _).symm, Nat.le_refl _, rfl⟩
  | some job =>
    cases dumped : dump job.1 with
    | error e =>
      refine ⟨by simp [Connection.execute, Connection.write, dumped], [], ?_, Nat.zero_le _, ?_⟩
      · simp [Connection.execute, Connection.write, dumped]
      · simp [Frame.frame_of_error dumped]
    | ok text =>
      refine ⟨by simp [Connection.execute, Connection.write, dumped], [job], ?_, Nat.le_refl _, rfl⟩
      simp [Connection.execute, Connection.write, dumped]

/-- After a strand has gone on where no write was under way: what it gave is all that begins. -/
structure Begins (dump : Dump) (next : Option (Json × κ) × ManualStrand (Json × κ))
    (s t : Writer κ) : Prop where
  length_eq : t.progress.length = t.connection.writing.length
  few : t.connection.writing.length ≤ next.1.toList.length
  strand : t.connection.writeStrand = next.2
  unsent_eq : unsent dump t = (next.1.toList ++ next.2.queue).flatMap fun job => frame dump job.1
  wire : t.wire = s.wire
  calls : t.calls = s.calls
  cutShort : t.cutShort = s.cutShort

variable (dump) in
theorem settle_execute {c : Connection κ} (free : c.writing = [])
    (next : Option (Json × κ) × ManualStrand (Json × κ)) (s : Writer κ) :
    Begins dump next s (settle [] (Connection.execute dump next c).2 s) := by
  obtain ⟨strand, begun, writing, few, frames⟩ := execute_writing dump next c
  rw [free, List.nil_append] at writing
  refine ⟨List.takeD_length _ _ _, ?_, strand, ?_, rfl, rfl, rfl⟩
  · simpa [settle, writing] using few
  · have fresh : ∀ jobs : List (Json × κ), (jobs.zip (List.replicate jobs.length 0)).flatMap
        (fun (job, sent) => (frame dump job.1).drop sent) =
          jobs.flatMap fun job => frame dump job.1 := by
      intro jobs
      induction jobs with
      | nil => rfl
      | cons job rest ih => simpa [List.replicate_succ] using ih
    rw [List.flatMap_append, ← frames, ← fresh begun]
    simp [unsent, settle, writing, strand]

namespace Streamed

theorem init (bufsiz : Nat) : Streamed dump (init bufsiz : Writer κ) where
  length_eq := rfl
  serial := Nat.zero_le 1
  idle _ := ⟨rfl, rfl⟩
  order _ := rfl
  isPrefix := List.nil_prefix

theorem asyncSend {s t : Writer κ} (h : Streamed dump s) {message : Json} {handler : κ}
    (sent : step dump s (.asyncSend message handler) = some t) : Streamed dump t := by
  obtain rfl := Option.some.inj sent
  have grows : s.wire <+: (s.calls ++ [message]).flatMap (frame dump) := by
    rw [List.flatMap_append]
    exact h.isPrefix.trans (List.prefix_append _ _)
  cases running : s.connection.writeStrand.executing with
  | true =>
    have queued := ManualStrand.push_busy running (message, handler)
    have settled : s.progress.takeD s.connection.writing.length 0 = s.progress := by
      rw [← h.length_eq, List.takeD_eq_take _ (Nat.le_refl _), List.take_length]
    simp only [settle, Connection.asyncSend, queued, Connection.execute, settled]
    refine ⟨h.length_eq, h.serial, fun idle => ?_, fun whole => ?_, grows⟩
    · exact Bool.noConfusion (running.symm.trans idle)
    · have before := h.order whole
      simp only [unsent] at before
      simp only [unsent, List.flatMap_append, ← before, List.append_assoc]
      rfl
  | false =>
    obtain ⟨nothing, free⟩ := h.idle running
    have pushed := ManualStrand.push_idle running nothing (message, handler)
    have fresh : s.progress = [] := List.eq_nil_of_length_eq_zero (by rw [h.length_eq, free]; rfl)
    have begins := settle_execute dump free
      (s.connection.writeStrand.push (message, handler)) { s with calls := s.calls ++ [message] }
    rw [← Connection.asyncSend, ← fresh] at begins
    generalize settle s.progress (s.connection.asyncSend dump message handler).2
      { s with calls := s.calls ++ [message] } = t at begins
    rw [pushed] at begins
    have wire : t.wire = s.wire := begins.wire
    have calls : t.calls = s.calls ++ [message] := begins.calls
    have nothingUnsent : unsent dump s = [] := by simp [unsent, free, nothing]
    refine ⟨begins.length_eq, begins.few, fun idle => ?_, fun whole => ?_, ?_⟩
    · rw [begins.strand] at idle
      cases idle
    · have before := h.order (begins.cutShort ▸ whole)
      rw [nothingUnsent, List.append_nil] at before
      rw [wire, calls, begins.unsent_eq, before]
      simp
    · rw [wire, calls]
      exact grows

theorem writing_eq {s : Writer κ} (h : Streamed dump s) {n : Nat} {job : Json × κ}
    (found : s.connection.writing[n]? = some job) :
    n = 0 ∧ s.connection.writing = [job] ∧ ∃ sent, s.progress = [sent] := by
  have one := h.serial
  have length_eq := h.length_eq
  obtain ⟨bound, get⟩ := List.getElem?_eq_some_iff.mp found
  have one : s.connection.writing.length = 1 := by omega
  obtain ⟨only, writing⟩ := List.length_eq_one_iff.mp one
  have first : n = 0 := by omega
  subst first
  rw [writing, List.length_singleton] at length_eq
  obtain ⟨sent, progress⟩ := List.length_eq_one_iff.mp length_eq
  refine ⟨rfl, ?_, sent, progress⟩
  rw [writing]
  simpa [writing] using get

theorem wrote {s t : Writer κ} (h : Streamed dump s) {n count : Nat} (uncut : s.cutShort = false)
    (taken : step dump s (.wrote n count) = some t) : Streamed dump t := by
  simp only [step, Option.ite_none_right_eq_some, Option.some.injEq] at taken
  obtain ⟨⟨some_, fits⟩, rfl⟩ := taken
  cases found : s.connection.writing[n]? with
  | none => simp [rest, found] at fits some_; omega
  | some job =>
    obtain ⟨rfl, writing, sent, progress⟩ := h.writing_eq found
    have left : rest dump 0 s = (frame dump job.1).drop sent := by simp [rest, writing, progress]
    have before := h.order uncut
    have after : (s.wire ++ (rest dump 0 s).take count) ++
        unsent dump { s with
          wire := s.wire ++ (rest dump 0 s).take count
          progress := s.progress.modify 0 (· + count) } = s.calls.flatMap (frame dump) := by
      rw [← before, left]
      have split := List.take_append_drop count ((frame dump job.1).drop sent)
      rw [List.drop_drop] at split
      simp only [unsent, writing, progress, List.modify_zero_cons, List.zip_cons_cons,
        List.zip_nil_left, List.flatMap_singleton, List.append_assoc]
      rw [← List.append_assoc (List.take _ _), split]
    refine ⟨?_, h.serial, h.idle, fun _ => after, ?_⟩
    · simp [progress, writing]
    · rw [← after]
      exact List.prefix_append _ _

theorem completed {s t : Writer κ} (h : Streamed dump s) {n : Nat} {success : Bool}
    (done : step dump s (.completed n success) = some t) : Streamed dump t := by
  simp only [step, Option.ite_none_left_eq_some, Option.map_eq_some_iff] at done
  obtain ⟨-, ⟨handler, c⟩, written, rfl⟩ := done
  obtain ⟨within, after⟩ := Connection.of_writeStep dump written
  obtain ⟨job, found⟩ : ∃ job, s.connection.writing[n]? = some job :=
    ⟨_, List.getElem?_eq_getElem within⟩
  obtain ⟨rfl, writing, sent, progress⟩ := h.writing_eq found
  have left : rest dump 0 s = (frame dump job.1).drop sent := by simp [rest, writing, progress]
  have begins := settle_execute dump
    (c := { s.connection with writing := s.connection.writing.eraseIdx 0 })
    (by rw [writing]; rfl) s.connection.writeStrand.next
    { s with cutShort := s.cutShort || rest dump 0 s != [] }
  have fresh : s.progress.eraseIdx 0 = [] := by rw [progress]; rfl
  rw [after, ← fresh] at begins
  generalize settle (s.progress.eraseIdx 0) c
    { s with cutShort := s.cutShort || rest dump 0 s != [] } = t at begins ⊢
  have wire : t.wire = s.wire := begins.wire
  have calls : t.calls = s.calls := begins.calls
  have busy : s.connection.writeStrand.executing = true := by
    by_contra idle
    simpa [writing] using (h.idle (Bool.eq_false_iff.mpr idle)).2
  obtain ⟨ordered, order, running⟩ := ManualStrand.Ordered.next
    (fun idle => (h.idle idle).1 : s.connection.writeStrand.Ordered)
  refine ⟨begins.length_eq, Nat.le_trans begins.few Option.length_toList_le, fun idle => ?_,
    fun whole => ?_, ?_⟩
  · rw [begins.strand] at idle ⊢
    have none_ : s.connection.writeStrand.next.1 = none := by
      rw [← Option.not_isSome_iff_eq_none, ← running busy, idle]
      exact Bool.false_ne_true
    have few := begins.few
    rw [none_] at few
    exact ⟨ordered idle, List.eq_nil_of_length_eq_zero (Nat.le_zero.mp few)⟩
  · have clean := begins.cutShort.symm.trans whole
    simp only [Bool.or_eq_false_iff, bne_eq_false_iff_eq] at clean
    have before := h.order clean.1
    rw [wire, calls, begins.unsent_eq, order, ← before]
    simp [unsent, writing, progress, ← left, clean.2]
  · rw [wire, calls]
    exact h.isPrefix

end Streamed

theorem run_streamed {bufsiz : Nat} {s : Writer κ} {es : List (Event κ)}
    (along : Runs.Along (step dump) Uncut (init bufsiz) es)
    (run : Runs.run (step dump) (init bufsiz) es = some s) : Streamed dump s := by
  refine Runs.run_along_invariant _ (fun s e t h good one => ?_) (Streamed.init bufsiz) along run
  cases e with
  | asyncSend message handler => exact h.asyncSend one
  | wrote n count => exact h.wrote good one
  | completed n success => exact h.completed one

/-- Where the socket takes nothing more once a write has been cut short, the
wire holds a beginning of the frames in call order, whatever else fails. -/
theorem wire_isPrefix (dump : Dump) (bufsiz : Nat) (es : List (Event κ)) (s : Writer κ)
    (along : Runs.Along (step dump) Uncut (init bufsiz) es)
    (run : Runs.run (step dump) (init bufsiz) es = some s) :
    s.wire <+: s.calls.flatMap (frame dump) :=
  (run_streamed along run).isPrefix

/-- A string stands for one whose bytes are no UTF-8 text. -/
def dumpDigits : Dump
  | .string _ =>
    .error (.standard .json
      "[json.exception.type_error.316] invalid UTF-8 byte at index 0: 0xFF")
  | v => JsonText.dump v

theorem wire_isPrefix_second_fails :
    let es : List (Event Unit) := [.asyncSend (.integer 1) (), .asyncSend (.integer 2) (),
      .wrote 0 1, .wrote 0 1, .completed 0 true, .wrote 0 1, .completed 0 false]
    ∃ s, Runs.run (step dumpDigits) (init 8) es = some s ∧ s.wire = [49, 0, 50] ∧
      s.wire <+: s.calls.flatMap (frame dumpDigits) := by
  intro es
  have enabled : (Runs.run (step dumpDigits) (init 8) es).any (·.wire == [49, 0, 50]) = true := by
    decide +kernel
  obtain ⟨s, run, wire⟩ := (Option.any_eq_true _ _).mp enabled
  have along : Runs.Along (step dumpDigits) Uncut (init 8) es := by decide +kernel
  exact ⟨s, run, eq_of_beq wire, wire_isPrefix dumpDigits 8 es s along run⟩

/-- The first of two queued writes fails after its first byte, and the second is
begun before the handler of the first has run. -/
theorem frame_follows_truncated :
    let es : List (Event Unit) := [.asyncSend (.integer 1) (), .asyncSend (.integer 2) (),
      .wrote 0 1, .completed 0 false, .wrote 0 2]
    ∃ s, Runs.run (step dumpDigits) (init 8) es = some s ∧ s.wire = [49, 50, 0] ∧
      s.calls.flatMap (frame dumpDigits) = [49, 0, 50, 0] ∧
      ¬ s.wire <+: s.calls.flatMap (frame dumpDigits) := by
  intro es
  have enabled : (Runs.run (step dumpDigits) (init 8) es).any (fun s =>
      s.wire == [49, 50, 0] && s.calls.flatMap (frame dumpDigits) == [49, 0, 50, 0]) = true := by
    decide +kernel
  obtain ⟨s, run, both⟩ := (Option.any_eq_true _ _).mp enabled
  simp only [Bool.and_eq_true, beq_iff_eq] at both
  refine ⟨s, run, both.1, both.2, ?_⟩
  rw [both.1, both.2]
  decide

end Varlink.WriteStream
