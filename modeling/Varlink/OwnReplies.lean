import Varlink.SyncClient

/-! One call on a connection: the functor that `call_impl` returns, invoked as often
as its caller likes, on the bytes that the peer has sent. It is to take the frames
that answer its own request, and no byte more. -/

namespace Varlink.OwnReplies

open ReceiveFraming (Receiver Framed Waiting)
open CallMore (Outcome onFrame)

structure Call where
  mode : Callmode
  receiver : Receiver
  /-- The bytes the socket has still to hand over. -/
  inFlight : Bytes
  /-- The lambda is blocked in `receive`. -/
  reading : Bool := false
  results : List Outcome := []

def Call.unread (c : Call) : Bytes := c.receiver.buffer.contents ++ c.inFlight

inductive Event where
  | invoke
  | read (chunk : Bytes)

section
variable (parse : Bytes → ParseResult)

/-- `connection.receive` waits for the socket, or the lambda goes on with the frame. -/
def resume (r : Receiver) (c : Call) : Call :=
  match r.messages.drop c.receiver.messages.length with
  | [] => { c with receiver := r, reading := true }
  | frame :: _ =>
    { c with
      receiver := r
      reading := false
      mode := (onFrame parse c.mode frame).1
      results := c.results ++ [(onFrame parse c.mode frame).2] }

def step (c : Call) : Event → Option Call
  | .invoke =>
    if c.reading then none
    else if c.mode = .oneway then some { c with results := c.results ++ [.returns .null] }
    else some (resume parse (ReceiveFraming.receive parse c.receiver) c)
  | .read chunk =>
    if c.reading && chunk.isPrefixOf c.inFlight then
      (ReceiveFraming.step parse c.receiver (.read chunk)).map fun r =>
        { resume parse r c with inFlight := c.inFlight.drop chunk.length }
    else none

/-- The frames that answer a request of the mode: objects, of which the last is an error
or, in a stream, does not continue; and what the invocations are to end with. -/
inductive Answers : Callmode → List Bytes → List Outcome → Prop where
  | none : Answers .oneway [] []
  | error {mode : Callmode} {frame : Bytes} {reply : Json} {what : String}
      (expected : mode ≠ .oneway) (parsed : parse frame = .value reply)
      (object : reply.isObject = true) (named : reply.find? "error" = some (.string what)) :
      Answers mode [frame] [.varlinkError what (reply.member "parameters")]
  | last {mode : Callmode} {frame : Bytes} {reply : Json} (expected : mode ≠ .oneway)
      (parsed : parse frame = .value reply) (object : reply.isObject = true)
      (plain : reply.find? "error" = Option.none)
      (ends : mode = .more → reply.find? "continues" = Option.none ∨
        reply.find? "continues" = some (.boolean false)) :
      Answers mode [frame] [.returns (reply.member "parameters")]
  | continues {frame : Bytes} {frames : List Bytes} {reply : Json} {outcomes : List Outcome}
      (parsed : parse frame = .value reply) (object : reply.isObject = true)
      (plain : reply.find? "error" = Option.none)
      (more : reply.find? "continues" = some (.boolean true))
      (later : Answers .more frames outcomes) :
      Answers .more (frame :: frames) (.returns (reply.member "parameters") :: outcomes)

end

variable {parse : Bytes → ParseResult} {bufsiz : Nat} {own : List Bytes}
variable {outcomes : List Outcome} {further : Bytes}

theorem onFrame_error {mode : Callmode} {frame : Bytes} {reply : Json} {what : String}
    (parsed : parse frame = .value reply) (named : reply.find? "error" = some (.string what)) :
    onFrame parse mode frame = (.oneway, .varlinkError what (reply.member "parameters")) := by
  simp [onFrame, parsed, CallMore.onReply, Json.contains, Json.member, named]

theorem onFrame_success {mode : Callmode} {frame : Bytes} {reply : Json} {more : Bool}
    (parsed : parse frame = .value reply) (object : reply.isObject = true)
    (plain : reply.find? "error" = none)
    (flag : (if mode != .more then .ok false else replyContinues reply) = .ok more) :
    onFrame parse mode frame =
      (if more then mode else .oneway, .returns (reply.member "parameters")) := by
  simp only [onFrame, parsed, CallMore.onReply, Json.contains, plain, Option.isSome_none,
    Bool.false_eq_true, if_false, flag, AsyncClient.replyParameters, object, Bool.true_or, if_true]

theorem Answers.next {mode : Callmode} {frames : List Bytes} {due : List Outcome}
    (h : Answers parse mode frames due) (open_ : mode ≠ .oneway) :
    ∃ frame rest outcome later, frames = frame :: rest ∧ due = outcome :: later ∧
      (onFrame parse mode frame).2 = outcome ∧
      Answers parse (onFrame parse mode frame).1 rest later := by
  cases h with
  | none => exact absurd rfl open_
  | error expected parsed object named =>
    refine ⟨_, _, _, _, rfl, rfl, ?_, ?_⟩
    · rw [onFrame_error parsed named]
    · rw [onFrame_error parsed named]
      exact .none
  | @last mode frame reply expected parsed object plain ends =>
    have read : (if mode != .more then .ok false else replyContinues reply) =
        (.ok false : Except Exn Bool) := by
      by_cases stream : mode = .more
      · rcases ends stream with absent | off
        · simp [stream, replyContinues, flag, Json.contains, absent]
        · simp [stream, replyContinues, flag, Json.contains, Json.member, off, getBool]
      · simp [stream]
    refine ⟨_, _, _, _, rfl, rfl, ?_, ?_⟩
    · rw [onFrame_success parsed object plain read]
    · rw [onFrame_success parsed object plain read]
      exact .none
  | @continues frame frames reply outcomes parsed object plain more later =>
    have read : (if Callmode.more != .more then .ok false else replyContinues reply) =
        (.ok true : Except Exn Bool) := by
      simp [replyContinues, flag, Json.contains, Json.member, more, getBool]
    refine ⟨_, _, _, _, rfl, rfl, ?_, ?_⟩
    · rw [onFrame_success parsed object plain read]
    · rw [onFrame_success parsed object plain read]
      exact later

theorem Answers.closed {frames : List Bytes} {due : List Outcome}
    (h : Answers parse .oneway frames due) : frames = [] ∧ due = [] := by
  cases h with
  | none => exact ⟨rfl, rfl⟩
  | error expected | last expected => exact absurd rfl expected

/-- What holds of the call in every state, whatever the lengths of the frames. -/
structure Sound (parse : Bytes → ParseResult) (bufsiz : Nat) (own : List Bytes)
    (outcomes : List Outcome) (further : Bytes) (c : Call) : Prop where
  framed : Framed parse bufsiz c.receiver
  waiting : Waiting c.receiver
  idle : c.reading = false → c.receiver.pending = .idle
  reads : c.reading = true → (∃ w, c.receiver.pending = .receiving w) ∧ c.mode ≠ .oneway
  results : ∀ i outcome, c.results[i]? = some outcome → outcome = outcomes.getD i (.returns .null)
  unread : c.unread = Delimited.encode 0 (own.drop c.results.length) ++ further
  due : Answers parse c.mode (own.drop c.results.length) (outcomes.drop c.results.length)

/-- What the lambda may go on with: no whole frame yet, or the next frame. -/
inductive Cut (c : Call) (r : Receiver) (inFlight : Bytes) : Prop where
  | waits (same : r.messages = c.receiver.messages) {w : ReadWindow}
      (pending : r.pending = .receiving w) (unread : r.buffer.contents ++ inFlight = c.unread)
  | frame {frame : Bytes} (clean : 0 ∉ frame) (cut : r.messages = c.receiver.messages ++ [frame])
      (idle : r.pending = .idle) (unread : frame ++ 0 :: (r.buffer.contents ++ inFlight) = c.unread)

theorem getElem?_concat_due {results : List Outcome}
    (h : ∀ i outcome, results[i]? = some outcome → outcome = outcomes.getD i (.returns .null))
    {outcome : Outcome} (due : outcome = outcomes.getD results.length (.returns .null)) :
    ∀ i outcome', (results ++ [outcome])[i]? = some outcome' →
      outcome' = outcomes.getD i (.returns .null) := by
  intro i outcome' at_
  rcases Nat.lt_trichotomy i results.length with old | rfl | beyond
  · rw [List.getElem?_append_left old] at at_
    exact h i outcome' at_
  · rw [List.getElem?_concat_length] at at_
    exact Option.some.inj at_ ▸ due
  · have bound : (results ++ [outcome]).length ≤ i := by
      rw [List.length_append, List.length_singleton]
      exact beyond
    cases (List.getElem?_eq_none bound).symm.trans at_

theorem getD_of_drop {results : List Outcome} {n : Nat} :
    results.getD n (.returns .null) = (results.drop n).headD (.returns .null) := by
  rw [List.getD_eq_getElem?_getD, List.headD_eq_head?_getD, List.head?_drop]

theorem Sound.resume {c : Call} (h : Sound parse bufsiz own outcomes further c)
    (clean : ∀ frame ∈ own, 0 ∉ frame) (open_ : c.mode ≠ .oneway) {r : Receiver} {inFlight : Bytes}
    (framed : Framed parse bufsiz r) (waiting : Waiting r) (cut : Cut c r inFlight) :
    Sound parse bufsiz own outcomes further { resume parse r c with inFlight } := by
  cases cut with
  | waits same pending unread =>
    simp only [OwnReplies.resume, same, List.drop_length]
    exact { h with
      framed, waiting
      idle := nofun
      reads := fun _ => ⟨⟨_, pending⟩, open_⟩
      unread := unread.trans h.unread }
  | @frame frame apart cut idle unread =>
    obtain ⟨first, rest, outcome, later, frames, due, made, answers⟩ := h.due.next open_
    have next : own.drop (c.results.length + 1) = rest := by
      rw [← List.tail_drop, frames, List.tail_cons]
    have still : outcomes.drop (c.results.length + 1) = later := by
      rw [← List.tail_drop, due, List.tail_cons]
    have whole : frame ++ 0 :: (r.buffer.contents ++ inFlight) =
        first ++ 0 :: (Delimited.encode 0 rest ++ further) := by
      rw [unread, h.unread, frames]
      simp
    have member : first ∈ own := List.mem_of_mem_drop (frames ▸ List.mem_cons_self)
    obtain ⟨rfl, behind⟩ := Delimited.split_unique apart (clean first member) whole
    simp only [OwnReplies.resume, cut, List.drop_left]
    refine {
      framed, waiting
      idle := fun _ => idle
      reads := nofun
      results := getElem?_concat_due h.results ?_
      unread := ?_
      due := ?_ }
    · rw [getD_of_drop, due, made]
      rfl
    · rw [List.length_append, List.length_singleton, next]
      exact behind
    · rw [List.length_append, List.length_singleton, next, still]
      exact answers

inductive Steps (parse : Bytes → ParseResult) (c : Call) : Event → Call → Prop where
  | spent (idle : c.reading = false) (closed : c.mode = .oneway) :
      Steps parse c .invoke { c with results := c.results ++ [.returns .null] }
  | invoke (idle : c.reading = false) (open_ : c.mode ≠ .oneway) :
      Steps parse c .invoke (resume parse (ReceiveFraming.receive parse c.receiver) c)
  | read {chunk later : Bytes} {r : Receiver} (reading : c.reading = true)
      (arrives : c.inFlight = chunk ++ later)
      (taken : ReceiveFraming.step parse c.receiver (.read chunk) = some r) :
      Steps parse c (.read chunk) { resume parse r c with inFlight := later }

theorem step_cases {c t : Call} {e : Event} (h : step parse c e = some t) : Steps parse c e t := by
  cases e with
  | invoke =>
    simp only [step] at h
    obtain ⟨idle, h⟩ := Option.ite_none_left_eq_some.mp h
    have idle := Bool.eq_false_iff.mpr idle
    split at h
    · next closed => exact Option.some.inj h ▸ .spent idle closed
    · next open_ => exact Option.some.inj h ▸ .invoke idle open_
  | read chunk =>
    simp only [step, Option.ite_none_right_eq_some, Bool.and_eq_true] at h
    obtain ⟨⟨reading, arrives⟩, stepped⟩ := h
    obtain ⟨r, taken, rfl⟩ := Option.map_eq_some_iff.mp stepped
    obtain ⟨later, split⟩ := List.isPrefixOf_iff_prefix.mp arrives
    rw [← split, List.drop_left]
    exact .read reading split.symm taken

theorem resume_inFlight (r : Receiver) (c : Call) :
    { resume parse r c with inFlight := c.inFlight } = resume parse r c := by
  unfold resume
  split <;> rfl

theorem cut_of_receive {c : Call} {r : Receiver} {inFlight : Bytes}
    (framed : Framed parse bufsiz r) (same : r.messages = c.receiver.messages)
    (unread : r.buffer.contents ++ inFlight = c.unread) :
    Cut c (ReceiveFraming.receive parse r) inFlight := by
  rcases ReceiveFraming.receive_cut framed with ⟨-, waits⟩ | ⟨frame, b, clean, split, cut⟩
  · rw [waits]
    exact .waits same rfl unread
  · rw [cut]
    refine .frame clean (by rw [same]) rfl ?_
    rw [← unread, split, List.append_assoc, List.cons_append]

theorem step_sound (clean : ∀ frame ∈ own, 0 ∉ frame) {c t : Call} {e : Event}
    (h : Sound parse bufsiz own outcomes further c) (hs : step parse c e = some t) :
    Sound parse bufsiz own outcomes further t := by
  cases step_cases hs with
  | spent idle closed =>
    have due := h.due
    rw [closed] at due
    obtain ⟨frames, later⟩ := due.closed
    have next : own.drop (c.results.length + 1) = [] := by rw [← List.tail_drop, frames]; rfl
    have still : outcomes.drop (c.results.length + 1) = [] := by rw [← List.tail_drop, later]; rfl
    refine { h with
      results := getElem?_concat_due h.results ?_
      unread := ?_
      due := ?_ }
    · rw [getD_of_drop, later]
      rfl
    · rw [List.length_append, List.length_singleton, next, ← frames]
      exact h.unread
    · rw [List.length_append, List.length_singleton, next, still, closed]
      exact .none
  | invoke idle open_ =>
    have settled : c.receiver.pending.due = [] := by rw [h.idle idle]; rfl
    obtain ⟨framed, waiting⟩ := h.framed.receive settled
    rw [← resume_inFlight]
    exact h.resume clean open_ framed waiting (cut_of_receive h.framed rfl rfl)
  | @read chunk later r reading arrives taken =>
    obtain ⟨⟨w, pending⟩, open_⟩ := h.reads reading
    obtain ⟨framed, waiting⟩ := ReceiveFraming.step_framed ⟨h.framed, h.waiting⟩ taken
    cases ReceiveFraming.step_cases taken with
    | readAsync waits fits => cases pending.symm.trans waits
    | readSync waits fits =>
      obtain ⟨rfl, -⟩ := h.waiting _ (by rw [waits]; rfl)
      refine h.resume clean open_ framed waiting
        (cut_of_receive (h.framed.fill rfl fits) rfl ?_)
      rw [ReceiveFraming.fill, ReceiveBuffer.commit_contents h.framed.end_le_length, Call.unread,
        arrives, List.append_assoc]

section Client
variable {dump : Dump} {s t : SyncClient.System} {n : Nat} {mode : Callmode}

/-- The functor for the `n`-th request of a client. -/
def alone (n : Nat) (s : SyncClient.System) : Call where
  mode := s.functors.getD n .oneway
  receiver := s.receiver
  inFlight := s.inFlight
  reading := s.reading == some n
  results := (s.results.filter (·.request == n)).map (·.outcome)

end Client

/-- The request is sent: the functor has not been invoked, and nobody receives. -/
def sent (mode : Callmode) (r : Receiver) (inFlight : Bytes) : Call :=
  { mode, receiver := r, inFlight }

open JsonText (encoded frame parsePing parsePing_encoded partReply moreCall)

end Varlink.OwnReplies
