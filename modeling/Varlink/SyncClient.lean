import Varlink.CallMore
import Varlink.SendReceive

/-! The synchronous calls of a client. `call_impl` sends its request at once and
gives back a functor that reads when it is invoked, from the one connection all
functors share. The peer answers the requests in the order in which it got them. -/

namespace Varlink.SyncClient

open ReceiveFraming (Receiver Framed Waiting)
open CallMore (Outcome onFrame)

/-- What an invocation of a functor ended with, and the number of the frame it read. -/
structure Result where
  request : Nat
  frame : Option Nat
  outcome : Outcome

/-- Requests, and the functors for them, are numbered in the order of sending. -/
structure System where
  receiver : Receiver
  /-- The modes the requests were sent with. -/
  modes : List Callmode := []
  /-- The modes the functors have now. -/
  functors : List Callmode := []
  /-- The functor that is blocked in `receive`. -/
  reading : Option Nat := none
  results : List Result := []
  /-- The requests the peer has not answered to the end, in order. -/
  unanswered : List (Nat × Callmode) := []
  /-- All frames of the peer, each with the request it answers. -/
  answers : List (Nat × Bytes) := []
  inFlight : Bytes := []

inductive Event where
  /-- `call`, `call_upgrade`, `call_oneway` or `call_more`, by the mode. -/
  | call (mode : Callmode) (message : Json)
  /-- A functor that `call_more` returned is invoked. -/
  | invoke (request : Nat)
  | read (chunk : Bytes)
  | readError
  /-- The peer sends a frame for the oldest unanswered request. -/
  | answer (frame : Bytes)

def init (bufsiz : Nat) : System := { receiver := ReceiveFraming.init bufsiz }

section
variable (parse : Bytes → ParseResult) (dump : Dump)

/-- `connection.receive` waits for the socket, or the lambda goes on with the frame. -/
def resume (n : Nat) (mode : Callmode) (r : Receiver) (s : System) : System :=
  match r.messages.drop s.receiver.messages.length with
  | [] => { s with receiver := r, reading := some n }
  | frame :: _ =>
    { s with
      receiver := r
      reading := none
      functors := s.functors.set n (onFrame parse mode frame).1
      results := s.results ++
        [⟨n, some s.receiver.messages.length, (onFrame parse mode frame).2⟩] }

def invoke (n : Nat) (mode : Callmode) (s : System) : System :=
  if mode = .oneway then { s with results := s.results ++ [⟨n, none, .returns .null⟩] }
  else resume parse n mode (ReceiveFraming.receive parse s.receiver) s

/-- `connection.send` has written the request; the peer is to answer it, if it is no oneway call. -/
def send (mode : Callmode) (s : System) : System :=
  { s with
    modes := s.modes ++ [mode]
    functors := s.functors ++ [mode]
    unanswered := s.unanswered ++ if mode = .oneway then [] else [(s.functors.length, mode)] }

/-- Whether more replies to a request of this mode follow this one; none for what is no reply. -/
def follows (mode : Callmode) (frame : Bytes) : Option Bool :=
  match parse frame with
  | .value reply =>
    if mode ≠ .more ∨ reply.contains "error" = true then some false
    else (replyContinues reply).toOption
  | _ => none

/-- A peer that answers the oldest request, until it has sent the last reply to it. -/
def answer (queue : List (Nat × Callmode)) (a : Nat × Bytes) : Option (List (Nat × Callmode)) :=
  match queue with
  | [] => none
  | (n, mode) :: rest =>
    if a.1 = n then
      (follows parse mode a.2).map fun more => if more then (n, mode) :: rest else rest
    else none

def step (s : System) : Event → Option System
  | .call mode message =>
    match s.reading with
    | some _ => none
    | none =>
      match dump message with
      | .error _ => some s
      | .ok _ =>
        let sent := send mode s
        some (if mode = .more then sent else invoke parse s.functors.length mode sent)
  | .invoke n =>
    match s.reading, s.modes[n]?, s.functors[n]? with
    | none, some .more, some mode => some (invoke parse n mode s)
    | _, _, _ => none
  | .read chunk =>
    match s.reading.bind fun n => s.functors[n]?.map fun mode => (n, mode) with
    | none => none
    | some (n, mode) =>
      if chunk.isPrefixOf s.inFlight then
        (ReceiveFraming.step parse s.receiver (.read chunk)).map fun r =>
          { resume parse n mode r s with inFlight := s.inFlight.drop chunk.length }
      else none
  | .readError =>
    match s.reading with
    | none => none
    | some n => (ReceiveFraming.step parse s.receiver .readError).map fun r =>
        { s with
          receiver := r
          reading := none
          results := s.results ++ [⟨n, none, .throws .systemError⟩] }
  | .answer frame =>
    match s.unanswered with
    | [] => none
    | (n, _) :: _ =>
      if 0 ∈ frame then none
      else (answer parse s.unanswered (n, frame)).map fun unanswered =>
        { s with
          unanswered
          answers := s.answers ++ [(n, frame)]
          inFlight := s.inFlight ++ (frame ++ [0]) }

def reader (s : System) : Event → Option Nat
  | .call mode message =>
    if mode = .basic ∨ mode = .upgrade then (dump message).toOption.map fun _ => s.functors.length
    else none
  | .invoke n => if s.functors[n]? = some .oneway then none else some n
  | .read _ => s.reading
  | _ => none

def Event.chunk : Event → Bytes
  | .read chunk => chunk
  | _ => []

/-- Who gets a frame has no earlier request with a functor that still expects replies. -/
def Turn (s : System) (e : Event) : Prop :=
  ∀ n ∈ reader dump s e, 0 ∈ s.receiver.buffer.contents ++ e.chunk →
    ∀ mode ∈ s.functors.take n, mode = .oneway

/-- The frame an invocation has read answers the request of its functor, and the
result is what the lambda makes of it. -/
def Own (s : System) (result : Result) : Prop :=
  ∀ i, result.frame = some i → ∃ frame mode, s.answers[i]? = some (result.request, frame) ∧
    result.outcome = (onFrame parse mode frame).2

def Foreign (s : System) (result : Result) : Prop :=
  ∃ i owner frame, result.frame = some i ∧ s.answers[i]? = some (owner, frame) ∧
    owner ≠ result.request

end

variable {parse : Bytes → ParseResult} {dump : Dump}

inductive Steps (parse : Bytes → ParseResult) (dump : Dump) (s : System) :
    Event → System → Prop where
  | refused {mode : Callmode} {message : Json} {e : Exn} (idle : s.reading = none)
      (thrown : dump message = .error e) : Steps parse dump s (.call mode message) s
  | sent {message : Json} {text : String} (idle : s.reading = none)
      (dumped : dump message = .ok text) : Steps parse dump s (.call .more message) (send .more s)
  | called {mode : Callmode} {message : Json} {text : String} (idle : s.reading = none)
      (dumped : dump message = .ok text) (single : mode ≠ .more) :
      Steps parse dump s (.call mode message) (invoke parse s.functors.length mode (send mode s))
  | invoked {n : Nat} {mode : Callmode} (idle : s.reading = none)
      (at_ : s.functors[n]? = some mode) : Steps parse dump s (.invoke n) (invoke parse n mode s)
  | read {n : Nat} {mode : Callmode} {chunk later : Bytes} {r : Receiver}
      (reading : s.reading = some n) (at_ : s.functors[n]? = some mode)
      (arrives : s.inFlight = chunk ++ later)
      (taken : ReceiveFraming.step parse s.receiver (.read chunk) = some r) :
      Steps parse dump s (.read chunk) { resume parse n mode r s with inFlight := later }
  | readError {n : Nat} {r : Receiver} (reading : s.reading = some n)
      (failed : ReceiveFraming.step parse s.receiver .readError = some r) :
      Steps parse dump s .readError
        { s with
          receiver := r
          reading := none
          results := s.results ++ [⟨n, none, .throws .systemError⟩] }
  | answer {n : Nat} {frame : Bytes} {unanswered : List (Nat × Callmode)} (clean : 0 ∉ frame)
      (answered : answer parse s.unanswered (n, frame) = some unanswered) :
      Steps parse dump s (.answer frame)
        { s with
          unanswered
          answers := s.answers ++ [(n, frame)]
          inFlight := s.inFlight ++ (frame ++ [0]) }

theorem step_cases {s t : System} {e : Event} (h : step parse dump s e = some t) :
    Steps parse dump s e t := by
  cases e with
  | call mode message =>
    simp only [step] at h
    split at h
    · cases h
    · next idle =>
      cases dumped : dump message with
      | error e =>
        simp only [dumped, Option.some.injEq] at h
        exact h ▸ .refused idle dumped
      | ok text =>
        simp only [dumped, Option.some.injEq] at h
        subst h
        split
        · next same => exact same ▸ .sent idle dumped
        · next single => exact .called idle dumped single
  | invoke n =>
    simp only [step] at h
    split at h
    · next idle issued at_ => exact Option.some.inj h ▸ .invoked idle at_
    · cases h
  | read chunk =>
    simp only [step] at h
    split at h
    · cases h
    · next n mode reading =>
      obtain ⟨k, waits, found⟩ := Option.bind_eq_some_iff.mp reading
      obtain ⟨m, at_, same⟩ := Option.map_eq_some_iff.mp found
      cases same
      obtain ⟨arrives, stepped⟩ := Option.ite_none_right_eq_some.mp h
      obtain ⟨r, taken, rfl⟩ := Option.map_eq_some_iff.mp stepped
      obtain ⟨later, split⟩ := List.isPrefixOf_iff_prefix.mp arrives
      rw [← split, List.drop_left]
      exact .read waits at_ split.symm taken
  | readError =>
    simp only [step] at h
    split at h
    · cases h
    · next n reading =>
      obtain ⟨r, failed, rfl⟩ := Option.map_eq_some_iff.mp h
      exact .readError reading failed
  | answer frame =>
    simp only [step] at h
    split at h
    · cases h
    · obtain ⟨clean, stepped⟩ := Option.ite_none_left_eq_some.mp h
      obtain ⟨unanswered, answered, rfl⟩ := Option.map_eq_some_iff.mp stepped
      exact .answer clean answered

end Varlink.SyncClient
