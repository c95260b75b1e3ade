import Varlink.AsyncClient

/-! The asynchronous client with what reaches its calls written down: the frames
and transport errors that arrive for each call, and the exceptions that leave the
completion handlers. The handlers of the user may throw here. -/

namespace Varlink.ClientArrivals

open AsyncClient

/-- What a user's handler does when it is called: it issues calls, and then it may throw. -/
structure HandlerRun where
  calls : Nat := 0
  throws : Bool := false

inductive Escape where
  | handler
  | other (stop : Stop)

/-- What arrives for a call: the end of its request, if the call ends with it, an
error of the socket, or a frame with the result of parsing it. -/
inductive Arrival where
  | written (success : Bool)
  | transportError
  | frame (result : ParseResult)

structure Observed where
  client : AsyncClient
  arrived : List (Nat × Arrival) := []
  escaped : List Escape := []

inductive Event where
  | call
  | receive (n : Nat) (e : ReadEvent) (h : HandlerRun)
  | written (n : Nat) (success : Bool) (h : HandlerRun)

def Event.toClient : Event → ClientEvent
  | .call => .call
  | .receive n e h => .receive n e h.calls
  | .written n success h => .written n success h.calls

def handlerOf {κ : Type} : Receive κ → κ
  | .reading _ handler => handler
  | .posted _ handler => handler

section Step
variable (parse : Bytes → ParseResult) (dump : Dump) (spec : Nat → CallSpec)

def init (bufsiz : Nat) : Observed where
  client := .new bufsiz

def invoke (invocation : Invocation) (h : HandlerRun) (c : AsyncClient) :
    Except Escape Unit × AsyncClient :=
  match AsyncClient.invoke dump spec invocation h.calls c with
  | (.error _, t) => (.error .handler, t)
  | (.ok (), t) => (if h.throws then .error .handler else .ok (), t)

/-- What the library itself does: an exception of it is not one of the handler. -/
def own (r : Except Stop Unit × AsyncClient) : Except Escape Unit × AsyncClient :=
  (r.1.mapError .other, r.2)

def onReply (call : Nat) (received : Received) (h : HandlerRun) (c : AsyncClient) :
    Except Escape Unit × AsyncClient :=
  match invocationOf (spec call).mode call received with
  | .error e => (.error (.other (.thrown e)), c)
  | .ok invocation =>
    match invoke dump spec invocation h c with
    | (.error e, t) => (.error e, t)
    | (.ok (), t) =>
      own (if invocation.continues then asyncReadReply parse call t else next dump spec t)

def onWritten (call : Nat) (success : Bool) (h : HandlerRun) (c : AsyncClient) :
    Except Escape Unit × AsyncClient :=
  let ec := if success then ErrorCode.none else .transport
  if (spec call).mode == .oneway || !success then
    match next dump spec c with
    | (.error e, t) => (.error (.other e), t)
    | (.ok (), t) => invoke dump spec ⟨call, ec, .null, false⟩ h t
  else own (asyncReadReply parse call c)

/-- The frames that were cut off the buffer between two states, for a call. -/
def framesFor (call : Nat) (before after : AsyncClient) : List (Nat × Arrival) :=
  (after.connection.inbound.messages.drop before.connection.inbound.messages.length).map
    fun message => (call, .frame (parse message))

def Arrival.thrown : Arrival → Option Escape
  | .frame (.exception what) => some (.other (.thrown (.standard .json what)))
  | _ => none

def Escape.ofResult : Except Escape Unit → List Escape
  | .error e => [e]
  | .ok () => []

def receiveStep (n : Nat) (e : ReadEvent) (h : HandlerRun) (s : Observed) : Option Observed := do
  let receive ← s.client.connection.receives[n]?
  let (handled, connection) ← s.client.connection.receiveStep parse n e
  let call := handlerOf receive
  let errors := match e with
    | .error => [(call, Arrival.transportError)]
    | _ => []
  match handled with
  | none =>
    let frames := framesFor parse call s.client { s.client with connection }
    return ⟨{ s.client with connection }, s.arrived ++ frames,
      s.escaped ++ frames.filterMap fun a => a.2.thrown⟩
  | some (call, received) =>
    let (result, t) := onReply parse dump spec call received h { s.client with connection }
    return ⟨t, s.arrived ++ errors ++ framesFor parse call s.client t,
      s.escaped ++ Escape.ofResult result⟩

def writeStep (n : Nat) (success : Bool) (h : HandlerRun) (s : Observed) : Option Observed :=
  (s.client.connection.writeStep dump n).map fun
    | (none, connection) => { s with client := { s.client with connection } }
    | (some call, connection) =>
      let (result, t) := onWritten parse dump spec call success h { s.client with connection }
      let ends := if (spec call).mode == .oneway || !success then
        [(call, Arrival.written success)] else []
      ⟨t, s.arrived ++ ends ++ framesFor parse call s.client t,
        s.escaped ++ Escape.ofResult result⟩

def step (s : Observed) : Event → Option Observed
  | .call => some { s with client := (asyncCall dump spec s.client).2 }
  | .receive n e h => receiveStep parse dump spec n e h s
  | .written n success h => writeStep parse dump spec n success h s

end Step

variable {parse : Bytes → ParseResult} {dump : Dump} {spec : Nat → CallSpec}

theorem onReply_client (call : Nat) (received : Received) (h : HandlerRun) (c : AsyncClient)
    (returns : h.throws = false) :
    (onReply parse dump spec call received h c).2 =
      (AsyncClient.onReply parse dump spec call received h.calls c).2 := by
  unfold onReply AsyncClient.onReply invoke
  cases invocationOf (spec call).mode call received with
  | error e => rfl
  | ok invocation =>
    simp only [returns]
    rcases AsyncClient.invoke dump spec invocation h.calls c with ⟨_ | ⟨⟨⟩⟩, t⟩
    · rfl
    · simp only [Bool.false_eq_true, if_false, own]

theorem onWritten_client (call : Nat) (success : Bool) (h : HandlerRun) (c : AsyncClient) :
    (onWritten parse dump spec call success h c).2 =
      (AsyncClient.onWritten parse dump spec call success h.calls c).2 := by
  unfold onWritten AsyncClient.onWritten
  by_cases ends : ((spec call).mode == .oneway || !success) = true
  · simp only [ends, if_true]
    rcases AsyncClient.next dump spec c with ⟨_ | ⟨⟨⟩⟩, t⟩
    · rfl
    · simp only [invoke]
      rcases AsyncClient.invoke dump spec _ h.calls t with ⟨_ | ⟨⟨⟩⟩, u⟩ <;> rfl
  · simp only [ends, Bool.false_eq_true, if_false]
    rfl

def Event.handler : Event → HandlerRun
  | .call => {}
  | .receive _ _ h => h
  | .written _ _ h => h

theorem step_client (s : Observed) (e : Event) (returns : e.handler.throws = false) :
    (step parse dump spec s e).map (·.client) = AsyncClient.step parse dump spec s.client
      e.toClient := by
  cases e with
  | call => rfl
  | receive n e h =>
    simp only [step, receiveStep, AsyncClient.step, Event.toClient]
    cases found : s.client.connection.receives[n]? with
    | none => simp [Connection.receiveStep, found]
    | some receive =>
      cases moved : s.client.connection.receiveStep parse n e with
      | none => rfl
      | some r =>
        rcases r with ⟨_ | ⟨call, received⟩, connection⟩
        · rfl
        · simp only [Option.bind_eq_bind, Option.bind_some, Option.pure_def, Option.map_some,
            ← onReply_client call received h _ returns]
  | written n success h =>
    simp only [step, writeStep, AsyncClient.step, Event.toClient, Option.map_map]
    congr 1
    funext r
    rcases r with ⟨_ | call, connection⟩
    · rfl
    · exact onWritten_client call success h _

theorem run_client {es : List Event} {s t : Observed}
    (returns : ∀ e ∈ es, e.handler.throws = false)
    (h : Runs.run (step parse dump spec) s es = some t) :
    Runs.run (AsyncClient.step parse dump spec) s.client (es.map Event.toClient) =
      some t.client := by
  induction es generalizing s with
  | nil =>
    obtain rfl := Option.some.inj h
    rfl
  | cons e es ih =>
    rw [Runs.run_cons] at h
    obtain ⟨m, first, rest⟩ := Option.bind_eq_some_iff.mp h
    obtain ⟨own, others⟩ := List.forall_mem_cons.mp returns
    have stepped : _ = AsyncClient.step parse dump spec s.client e.toClient := step_client s e own
    rw [first, Option.map_some] at stepped
    rw [List.map_cons, Runs.run_cons, ← stepped]
    exact ih others rest

end Varlink.ClientArrivals
