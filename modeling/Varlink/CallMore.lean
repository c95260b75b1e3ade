import Varlink.AsyncClient
import Varlink.JsonText

/-! A streaming call on the frames that answer it: the functor that `call_more`
returns, and the handler calls of `async_call_more`. The stream is the complete
frames that are still to be received. -/

namespace Varlink.CallMore

inductive Outcome where
  | returns (parameters : Json)
  | varlinkError (what : String) (args : Json)
  | invalidArgument
  | throws (e : Exn)

/-- What the lambda in `call_impl` has captured, and what `receive` will see. -/
structure Functor where
  mode : Callmode
  frames : List Bytes

variable (parse : Bytes → ParseResult)

/-- What the functor makes of a reply: the mode it leaves, and its result. -/
def onReply (mode : Callmode) (reply : Json) : Callmode × Outcome :=
  if reply.contains "error" then
    match reply.member "error" with
    | .string what => (.oneway, .varlinkError what (reply.member "parameters"))
    | _ => (.oneway, .throws (.standard .json "type must be string"))
  else
    match if mode != .more then .ok false else replyContinues reply with
    | .error e => (mode, .throws e)
    | .ok continues =>
      let mode := if continues then mode else .oneway
      match AsyncClient.replyParameters reply with
      | .ok parameters => (mode, .returns parameters)
      | .error e => (mode, .throws e)

/-- What the lambda in `call_impl` makes of a frame: the mode it leaves, and its result. -/
def onFrame (mode : Callmode) (frame : Bytes) : Callmode × Outcome :=
  match parse frame with
  | .parseError => (mode, .invalidArgument)
  | .exception what => (mode, .throws (.standard .json what))
  | .value reply => onReply mode reply

/-- The lambda in `call_impl`; none where it would wait for the socket. -/
def invoke (f : Functor) : Option (Outcome × Functor) :=
  if f.mode == .oneway then some (.returns .null, f)
  else
    match f.frames with
    | [] => none
    | frame :: frames =>
      let (mode, outcome) := onFrame parse f.mode frame
      some (outcome, { mode, frames })

def invocations : Nat → Functor → Option (List Outcome × Functor)
  | 0, f => some ([], f)
  | n + 1, f =>
    match invoke parse f with
    | none => none
    | some (outcome, g) => (invocations n g).map fun (outcomes, t) => (outcome :: outcomes, t)

/-- The handler calls of `async_call_more` up to the terminal one, and the frames
that are left then; none where it never comes. -/
def asyncCallMore (call : Nat) : List Bytes → Option (List Invocation × List Bytes)
  | [] => none
  | frame :: frames =>
    match (parse frame).received with
    | .error _ => none
    | .ok received =>
      match AsyncClient.invocationOf .more call received with
      | .error _ => none
      | .ok invocation =>
        if invocation.continues then
          (asyncCallMore call frames).map fun (later, rest) => (invocation :: later, rest)
        else some ([invocation], frames)

/-- No reply has the error `no_error`, which stands for success in the error category. -/
def Named (frame : Bytes) : Prop :=
  ∀ reply, parse frame = .value reply → reply.contains "error" = true →
    reply.member "error" ≠ .string "no_error"

variable {parse : Bytes → ParseResult}

theorem asyncCallMore_cons {call : Nat} {frame : Bytes} {frames rest : List Bytes}
    {handled : List Invocation}
    (h : asyncCallMore parse call (frame :: frames) = some (handled, rest)) :
    ∃ received invocation, (parse frame).received = .ok received ∧
      AsyncClient.invocationOf .more call received = .ok invocation ∧
      (invocation.continues = true ∧
          (∃ later, asyncCallMore parse call frames = some (later, rest) ∧
            handled = invocation :: later) ∨
        invocation.continues = false ∧ handled = [invocation] ∧ rest = frames) := by
  simp only [asyncCallMore] at h
  cases parsed : (parse frame).received with
  | error e => simp [parsed] at h
  | ok received =>
    cases made : AsyncClient.invocationOf .more call received with
    | error e => simp [parsed, made] at h
    | ok invocation =>
      simp only [parsed, made] at h
      refine ⟨received, invocation, rfl, made, ?_⟩
      cases continues : invocation.continues with
      | true =>
        simp only [continues, if_true, Option.map_eq_some_iff] at h
        obtain ⟨⟨later, left⟩, tail, same⟩ := h
        cases same
        exact .inl ⟨rfl, later, tail, rfl⟩
      | false =>
        simp only [continues, Bool.false_eq_true, if_false, Option.some.injEq, Prod.mk.injEq] at h
        exact .inr ⟨rfl, h.1.symm, h.2.symm⟩

section Client
variable {dump : Dump} {spec : Nat → CallSpec}

theorem next_frame (c : AsyncClient) :
    (AsyncClient.next dump spec c).2.log = c.log ∧
      (AsyncClient.next dump spec c).2.connection.receives = c.connection.receives := by
  unfold AsyncClient.next AsyncClient.execute
  rcases c.callStrand.next with ⟨_ | call, strand⟩
  · exact ⟨rfl, rfl⟩
  · exact ⟨rfl, Connection.asyncSend_receives dump (spec call).request call c.connection⟩

/-- A client that waits for a reply of a more call, with nothing in its buffer. -/
structure Awaits (bufsiz call : Nat) (c : AsyncClient) : Prop where
  size_eq : c.connection.inbound.buffer.readbuf.length = bufsiz
  empty : c.connection.inbound.buffer.readEnd = 0
  reads : c.connection.receives = [.reading c.connection.inbound.buffer.window call]

variable (dump) in
theorem Awaits.step {bufsiz call : Nat} {c : AsyncClient} (h : Awaits bufsiz call c)
    (mode : (spec call).mode = .more) {frame : Bytes} (clean : 0 ∉ frame)
    (fits : frame.length < bufsiz) {received : Received} {invocation : Invocation}
    (parsed : (parse frame).received = .ok received)
    (handled : AsyncClient.invocationOf .more call received = .ok invocation) :
    ∃ t, AsyncClient.step parse dump spec c (.receive 0 (.read (frame ++ [0])) 0) = some t ∧
      t.log.map (·.1) = c.log.map (·.1) ++ [invocation] ∧
      if invocation.continues then Awaits bufsiz call t else t.connection.receives = [] := by
  obtain ⟨b, read, empty, size⟩ :=
    ReceiveBuffer.commit_frame parse h.empty clean (h.size_eq ▸ fits)
  have room : (frame ++ [0]).length ≤ c.connection.inbound.buffer.window.size := by
    simp only [ReceiveBuffer.window, h.empty, h.size_eq, List.length_append, List.length_singleton]
    omega
  have taken : (c.connection.inbound.fill c.connection.inbound.buffer.window
      (frame ++ [0])).readNextMessage parse = (some (parse frame),
        ⟨b, c.connection.inbound.received ++ (frame ++ [0]),
          c.connection.inbound.messages ++ [frame]⟩) := by
    simp only [Inbound.readNextMessage, Inbound.fill, read]
  simp only [AsyncClient.step, Connection.receiveStep, h.reads, List.getElem?_cons_zero, room,
    if_true, Connection.onRead, taken, parsed, Except.toOption, Option.map_some,
    List.eraseIdx_cons_zero, AsyncClient.onReply, mode, handled, AsyncClient.invoke,
    AsyncClient.asyncCalls]
  cases continues : invocation.continues with
  | false =>
    refine ⟨_, rfl, ?_, ?_⟩
    · simp [next_frame]
    · simp [next_frame]
  | true =>
    have nothing : b.takeMessage = none := by
      simp [ReceiveBuffer.takeMessage, ReceiveBuffer.nextMessageEnd, ReceiveBuffer.contents, empty]
    refine ⟨_, rfl, ?_, ?_⟩
    · simp [AsyncClient.asyncReadReply]
    · simp only [if_true, AsyncClient.asyncReadReply, Connection.asyncReceive,
        Inbound.readNextMessage, ReceiveBuffer.readNextMessage, nothing]
      exact ⟨size.trans h.size_eq, empty, rfl⟩

/-- A client that awaits the reply of a more call and gets these frames one by
one makes the handler calls of `asyncCallMore`, and reads no further. -/
theorem Awaits.run {bufsiz call : Nat} {c : AsyncClient} (h : Awaits bufsiz call c)
    (mode : (spec call).mode = .more) {frames rest : List Bytes} {handled : List Invocation}
    (clean : ∀ f ∈ frames, 0 ∉ f) (fits : ∀ f ∈ frames, f.length < bufsiz)
    (terminal : asyncCallMore parse call frames = some (handled, rest)) :
    ∃ t, Runs.run (AsyncClient.step parse dump spec) c ((frames.take handled.length).map
        fun f => .receive 0 (.read (f ++ [0])) 0) = some t ∧
      t.log.map (·.1) = c.log.map (·.1) ++ handled ∧ t.connection.receives = [] ∧
      frames = frames.take handled.length ++ rest := by
  induction frames generalizing c handled with
  | nil => cases terminal
  | cons frame frames ih =>
    obtain ⟨received, invocation, parsed, made, step⟩ := asyncCallMore_cons terminal
    obtain ⟨d, stepped, log, after⟩ := h.step dump mode (clean frame List.mem_cons_self)
      (fits frame List.mem_cons_self) parsed made
    rcases step with ⟨continues, later, tail, rfl⟩ | ⟨ends, rfl, rfl⟩
    · rw [continues, if_pos rfl] at after
      obtain ⟨t, run, handled, reads, split⟩ := ih after
        (fun f member => clean f (List.mem_cons_of_mem _ member))
        (fun f member => fits f (List.mem_cons_of_mem _ member)) tail
      refine ⟨t, ?_, ?_, reads, ?_⟩
      · simp only [List.length_cons, List.take_succ_cons, List.map_cons, Runs.run_cons, stepped,
          Option.bind_some, run]
      · rw [handled, log, List.append_assoc]
        rfl
      · rw [List.length_cons, List.take_succ_cons, List.cons_append, ← split]
    · rw [ends] at after
      refine ⟨d, ?_, log, after, rfl⟩
      simp [Runs.run_cons, stepped]

end Client

/-- The condition on the frames up to the terminal one. -/
def Plain (parse : Bytes → ParseResult) (k : Nat) (frames : List Bytes) : Prop :=
  (∀ frame ∈ frames.take k, Named parse frame) ∧
    ∀ frame, frames[k - 1]? = some frame → parse frame ≠ .parseError

open JsonText (encoded frame moreCall partReply parse_encoded)

def failed : Json :=
  .object [("error", .string "org.test.Failed"), ("parameters", .object [])]

def noError : Json := .object [("error", .string "no_error"), ("parameters", .object [])]

end Varlink.CallMore
