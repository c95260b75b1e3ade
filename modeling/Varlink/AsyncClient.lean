import Varlink.Message
import Varlink.AsyncConnection
import Varlink.Library.Runs

/-! `async_client`: calls wait on the call strand for their turn; a call sends
its request, reads its replies and passes the strand on. The calls are a sequence
that the program issues one after the other, from its handlers or elsewhere. -/

namespace Varlink

structure CallSpec where
  mode : Callmode
  request : Json

inductive ErrorCode where
  | none
  | transport
  | varlink (name : String)
deriving DecidableEq, Repr

/-- `bool(ec)`: the name `no_error` is the first of its category and stands for 0. -/
def ErrorCode.isError : ErrorCode → Bool
  | .none => false
  | .transport => true
  | .varlink name => name != "no_error"

structure Invocation where
  call : Nat
  ec : ErrorCode
  parameters : Json
  continues : Bool

structure AsyncClient where
  connection : Connection Nat
  callStrand : ManualStrand Nat := {}
  /-- The number of calls issued so far. -/
  issued : Nat := 0
  /-- The handler calls so far, each with the number of requests on the wire then. -/
  log : List (Invocation × Nat) := []

/-- What happens next: the program issues a call, or a receive or a write of the
client goes on, and then the handler called, if any, issues some calls. -/
inductive ClientEvent where
  | call
  | receive (n : Nat) (e : ReadEvent) (calls : Nat)
  | written (n : Nat) (success : Bool) (calls : Nat)

namespace AsyncClient

variable (parse : Bytes → ParseResult) (dump : Dump) (spec : Nat → CallSpec)

def new (bufsiz : Nat) : AsyncClient where
  connection := .new bufsiz

/-- The function that `initiate_async_call` pushes onto the strand. -/
def send (call : Nat) : Action AsyncClient Unit := fun c =>
  let (result, connection) := c.connection.asyncSend dump (spec call).request call
  (result, { c with connection })

def execute (next : Option Nat × ManualStrand Nat) : Action AsyncClient Unit := fun c =>
  match next with
  | (none, strand) => (.ok (), { c with callStrand := strand })
  | (some call, strand) => send dump spec call { c with callStrand := strand }

def asyncCall : Action AsyncClient Unit := fun c =>
  execute dump spec (c.callStrand.push c.issued) { c with issued := c.issued + 1 }

def next : Action AsyncClient Unit := fun c => execute dump spec c.callStrand.next c

/-- A handler that issues `n` calls; what one of them throws leaves the handler. -/
def asyncCalls : Nat → Action AsyncClient Unit
  | 0, c => (.ok (), c)
  | n + 1, c =>
    match asyncCall dump spec c with
    | (.ok (), t) => asyncCalls n t
    | (.error e, t) => (.error e, t)

def invoke (invocation : Invocation) (calls : Nat) : Action AsyncClient Unit := fun c =>
  asyncCalls dump spec calls
    { c with log := c.log ++ [(invocation, c.connection.written.length)] }

/-- `async_read_reply`. -/
def asyncReadReply (call : Nat) : Action AsyncClient Unit := fun c =>
  let (result, connection) := c.connection.asyncReceive parse call
  (result, { c with connection })

/-- The error code a reply is handled with; `get<std::string>()` may throw. -/
def replyError (ec : ErrorCode) (reply : Json) : Except Exn ErrorCode :=
  if reply.contains "error" then
    match reply.member "error" with
    | .string name => .ok (.varlink name)
    | _ => .error (.standard .json "type must be string")
  else .ok ec

def replyParameters (reply : Json) : Except Exn Json :=
  if reply.isObject || reply.isNull then .ok (reply.member "parameters")
  else .error (.standard .json "cannot use operator[] with a string argument")

def invocationOf (mode : Callmode) (call : Nat) (received : Received) : Except Exn Invocation := do
  let (ec, reply) := match received with
    | .message j => (ErrorCode.none, j)
    | .failed => (ErrorCode.transport, Json.null)
  let ec ← replyError ec reply
  let continues ← if mode == .more && !ec.isError then replyContinues reply else .ok false
  let parameters ← replyParameters reply
  return ⟨call, ec, parameters, continues⟩

/-- The handler of `async_receive` in `async_read_reply`. -/
def onReply (call : Nat) (received : Received) (calls : Nat) : Action AsyncClient Unit := fun c =>
  match invocationOf (spec call).mode call received with
  | .error e => (.error (.thrown e), c)
  | .ok invocation =>
    match invoke dump spec invocation calls c with
    | (.error e, t) => (.error e, t)
    | (.ok (), t) =>
      if invocation.continues then asyncReadReply parse call t else next dump spec t

/-- The handler of `async_send`. -/
def onWritten (call : Nat) (success : Bool) (calls : Nat) : Action AsyncClient Unit := fun c =>
  let ec := if success then ErrorCode.none else .transport
  if (spec call).mode == .oneway || !success then
    match next dump spec c with
    | (.error e, t) => (.error e, t)
    | (.ok (), t) => invoke dump spec ⟨call, ec, .null, false⟩ calls t
  else asyncReadReply parse call c

/-- What leaves a handler as an exception goes to whoever runs the event loop. -/
def step (c : AsyncClient) : ClientEvent → Option AsyncClient
  | .call => some (asyncCall dump spec c).2
  | .receive n e calls =>
    (c.connection.receiveStep parse n e).map fun
      | (none, connection) => { c with connection }
      | (some (call, received), connection) =>
        (onReply parse dump spec call received calls { c with connection }).2
  | .written n success calls =>
    (c.connection.writeStep dump n).map fun
      | (none, connection) => { c with connection }
      | (some call, connection) =>
        (onWritten parse dump spec call success calls { c with connection }).2

section Issued
variable {parse : Bytes → ParseResult} {dump : Dump} {spec : Nat → CallSpec} {c : AsyncClient}

theorem execute_issued (job : Option Nat × ManualStrand Nat) :
    (execute dump spec job c).2.issued = c.issued := by
  rcases job with ⟨_ | call, strand⟩ <;> rfl

theorem asyncCall_issued : (asyncCall dump spec c).2.issued = c.issued + 1 := execute_issued _

theorem asyncCalls_issued (n : Nat) : c.issued ≤ (asyncCalls dump spec n c).2.issued := by
  induction n generalizing c with
  | zero => exact Nat.le_refl _
  | succ n ih =>
    have one : (asyncCall dump spec c).2.issued = c.issued + 1 := asyncCall_issued
    unfold asyncCalls
    split
    · next t called =>
      rw [called] at one
      exact Nat.le_trans (one ▸ Nat.le_succ c.issued) ih
    · next e t called =>
      rw [called] at one
      exact one ▸ Nat.le_succ c.issued

theorem invoke_issued (invocation : Invocation) (n : Nat) :
    c.issued ≤ (invoke dump spec invocation n c).2.issued :=
  asyncCalls_issued (c := { c with log := c.log ++ [(invocation, c.connection.written.length)] }) n

theorem onReply_issued (call : Nat) (received : Received) (calls : Nat) :
    c.issued ≤ (onReply parse dump spec call received calls c).2.issued := by
  unfold onReply
  split
  · exact Nat.le_refl _
  · next invocation _ =>
    have invoked : c.issued ≤ (invoke dump spec invocation calls c).2.issued :=
      invoke_issued invocation calls
    split
    · next called => rwa [called] at invoked
    · next called =>
      rw [called] at invoked
      split
      · exact invoked
      · exact Nat.le_trans invoked (Nat.le_of_eq (execute_issued _).symm)

theorem onWritten_issued (call : Nat) (success : Bool) (calls : Nat) :
    c.issued ≤ (onWritten parse dump spec call success calls c).2.issued := by
  have passed : (next dump spec c).2.issued = c.issued := execute_issued _
  unfold onWritten
  by_cases finished : ((spec call).mode == .oneway || !success) = true
  · simp only [finished, if_true]
    split
    · next called =>
      rw [called] at passed
      exact Nat.le_of_eq passed.symm
    · next t called =>
      rw [called] at passed
      exact Nat.le_trans (Nat.le_of_eq passed.symm) (invoke_issued _ calls)
  · simp only [finished]
    exact Nat.le_refl _

theorem onReply_silent (call : Nat) (received : Received) :
    (onReply parse dump spec call received 0 c).2.issued = c.issued := by
  unfold onReply
  split
  · rfl
  · simp only [invoke, asyncCalls]
    split
    · rfl
    · exact execute_issued _

theorem onWritten_silent (call : Nat) (success : Bool) :
    (onWritten parse dump spec call success 0 c).2.issued = c.issued := by
  have passed : (next dump spec c).2.issued = c.issued := execute_issued _
  unfold onWritten
  by_cases finished : ((spec call).mode == .oneway || !success) = true
  · simp only [finished, if_true]
    split <;> next called => rw [called] at passed; exact passed
  · simp only [finished]
    rfl

theorem step_issued {t : AsyncClient} {e : ClientEvent}
    (h : step parse dump spec c e = some t) : c.issued ≤ t.issued := by
  cases e with
  | call =>
    cases h
    exact asyncCall_issued ▸ Nat.le_succ c.issued
  | receive n e calls =>
    obtain ⟨⟨_ | ⟨call, received⟩, connection⟩, -, rfl⟩ := Option.map_eq_some_iff.mp h
    · exact Nat.le_refl _
    · exact onReply_issued (c := { c with connection }) call received calls
  | written n success calls =>
    obtain ⟨⟨_ | call, connection⟩, -, rfl⟩ := Option.map_eq_some_iff.mp h
    · exact Nat.le_refl _
    · exact onWritten_issued (c := { c with connection }) call success calls

end Issued

section Kept
variable {parse : Bytes → ParseResult} {dump : Dump} {spec : Nat → CallSpec} {c : AsyncClient}
variable {inv : Connection Nat → Prop} (kept : Connection.Kept parse dump inv)
include kept

theorem execute_kept (job : Option Nat × ManualStrand Nat) (h : inv c.connection) :
    inv (execute dump spec job c).2.connection := by
  rcases job with ⟨_ | call, strand⟩
  · exact h
  · exact kept.send _ _ _ h

theorem asyncCalls_kept (n : Nat) (h : inv c.connection) :
    inv (asyncCalls dump spec n c).2.connection := by
  induction n generalizing c with
  | zero => exact h
  | succ n ih =>
    have one : inv (asyncCall dump spec c).2.connection :=
      execute_kept (c := { c with issued := c.issued + 1 }) kept _ h
    unfold asyncCalls
    split <;> next called => rw [called] at one; first | exact ih one | exact one

theorem onReply_kept (call : Nat) (received : Received) (calls : Nat) (h : inv c.connection) :
    inv (onReply parse dump spec call received calls c).2.connection := by
  unfold onReply
  split
  · exact h
  · next invocation _ =>
    have invoked : inv (invoke dump spec invocation calls c).2.connection :=
      asyncCalls_kept (c := { c with
        log := c.log ++ [(invocation, c.connection.written.length)] }) kept calls h
    split
    · next called => rwa [called] at invoked
    · next called =>
      rw [called] at invoked
      split
      · exact kept.receive _ _ invoked
      · exact execute_kept kept _ invoked

theorem onWritten_kept (call : Nat) (success : Bool) (calls : Nat) (h : inv c.connection) :
    inv (onWritten parse dump spec call success calls c).2.connection := by
  have passed : inv (next dump spec c).2.connection := execute_kept kept _ h
  unfold onWritten
  by_cases finished : ((spec call).mode == .oneway || !success) = true
  · simp only [finished, if_true]
    split
    · next called => rwa [called] at passed
    · next t called =>
      rw [called] at passed
      exact asyncCalls_kept (c := { t with log := _ }) kept calls passed
  · simp only [finished]
    exact kept.receive _ _ h

theorem step_kept {t : AsyncClient} {e : ClientEvent} (h : inv c.connection)
    (received : ∀ n e r, c.connection.receiveStep parse n e = some r → inv r.2)
    (taken : step parse dump spec c e = some t) : inv t.connection := by
  cases e with
  | call =>
    cases taken
    exact execute_kept (c := { c with issued := c.issued + 1 }) kept _ h
  | receive n e calls =>
    obtain ⟨⟨result, connection⟩, moved, rfl⟩ := Option.map_eq_some_iff.mp taken
    have moved := received n e _ moved
    rcases result with _ | ⟨call, reply⟩
    · exact moved
    · exact onReply_kept (c := { c with connection }) kept call reply calls moved
  | written n success calls =>
    obtain ⟨⟨result, connection⟩, moved, rfl⟩ := Option.map_eq_some_iff.mp taken
    have moved := kept.wrote n _ _ h moved
    rcases result with _ | call
    · exact moved
    · exact onWritten_kept (c := { c with connection }) kept call success calls moved

end Kept

end AsyncClient

end Varlink
