import Varlink.Service
import Varlink.AsyncConnection
import Varlink.Library.Runs

/-! `server_session`: one connection, from which requests are received and
passed to `message_call`, whose reply sender starts the next receive. The world
around it runs posted handlers, completes socket operations and issues the
replies that callbacks put off, in any order. -/

namespace Varlink

structure ServerSession where
  connection : Connection Unit
  /-- `send_ec` holds an error. -/
  sendEc : Bool := false
  /-- The reply objects given to `async_send_reply` so far. -/
  handed : List Json := []

namespace ServerSession

variable (parse : Bytes → ParseResult) (dump : Dump)

def new (bufsiz : Nat) : ServerSession where
  connection := .new bufsiz

def start : Action ServerSession Unit := fun s =>
  let (result, c) := s.connection.asyncReceive parse ()
  (result, { s with connection := c })

def asyncSendReply (message : Json) : Action ServerSession Unit := fun s =>
  let (result, c) := s.connection.asyncSend dump message ()
  (result, { s with connection := c, handed := s.handed ++ [message] })

/-- The reply sender that `start` passes to `message_call`. -/
def replySender (reply : Json) : Action ServerSession Unit := fun s =>
  if s.sendEc then (.error (.thrown .systemError), s)
  else
    match if reply.isObject then asyncSendReply dump reply s else (.ok (), s) with
    | (.error e, t) => (.error e, t)
    | (.ok (), t) =>
      match replyContinues reply with
      | .error e => (.error (.thrown e), t)
      | .ok true => (.ok (), t)
      | .ok false => start parse t

end ServerSession

structure Server where
  session : ServerSession
  /-- Callbacks that returned from `message_call` and may still reply. -/
  deferred : List Deferred := []
  /-- The requests passed to `message_call` so far. -/
  dispatched : List VarlinkMessage := []
  /-- How the process ended, if it did. -/
  ended : Option Stop := none

/-- What happens next: a receive, a write (completing with success or with an
error), or a reply of the `n`-th callback that has returned. -/
inductive ServerEvent where
  | receive (n : Nat) (e : ReadEvent)
  | written (n : Nat) (success : Bool)
  | reply (n : Nat)

namespace Server

variable (parse : Bytes → ParseResult) (dump : Dump) (stack : Nat) (service : VarlinkService)

def init (bufsiz : Nat) : Server where
  session := ((ServerSession.new bufsiz).start parse).2

/-- The call of `message_call`. What leaves it as an exception ends the process. -/
def dispatch (message : VarlinkMessage) (s : Server) : Server :=
  let dispatched := s.dispatched ++ [message]
  match messageCall dump stack (ServerSession.replySender parse dump) service message
      s.dispatched.length s.session with
  | (.ok none, session) => { s with session, dispatched }
  | (.ok (some later), session) =>
    { s with session, dispatched, deferred := s.deferred ++ [later] }
  | (.error stop, session) => { s with session, dispatched, ended := some stop }

def onReceive (received : Received) (s : Server) : Server :=
  match received with
  | .failed => s
  | .message j =>
    match VarlinkMessage.ofJson dump j with
    | .error _ => s
    | .ok message => dispatch parse dump stack service message s

def onWritten (success : Bool) (s : Server) : Server :=
  if success then s else { s with session := { s.session with sendEc := true } }

def withConnection (c : Connection Unit) (s : Server) : Server :=
  { s with session := { s.session with connection := c } }

def receiveStep (n : Nat) (e : ReadEvent) (s : Server) : Option Server :=
  (s.session.connection.receiveStep parse n e).map fun
    | (none, c) => s.withConnection c
    | (some (_, received), c) => onReceive parse dump stack service received (s.withConnection c)

def writeStep (n : Nat) (success : Bool) (s : Server) : Option Server :=
  (s.session.connection.writeStep dump n).map fun
    | (none, c) => s.withConnection c
    | (some _, c) => onWritten success (s.withConnection c)

/-- The next reply of a callback that has returned. What `send_reply` throws
goes to whoever called it. -/
def replyStep (n : Nat) (s : Server) : Option Server :=
  match s.deferred[n]? with
  | some ⟨handler, (params, continues) :: rest⟩ =>
    let deferred := s.deferred.set n ⟨handler, rest⟩
    match handler.call dump stack (ServerSession.replySender parse dump) params continues
        s.session with
    | (.ok (), session) => some { s with session, deferred }
    | (.error (.thrown _), session) => some { s with session, deferred }
    | (.error stop, session) => some { s with session, deferred, ended := some stop }
  | _ => none

def step (s : Server) : ServerEvent → Option Server
  | .receive n e => if s.ended.isSome then none else receiveStep parse dump stack service n e s
  | .written n success => if s.ended.isSome then none else writeStep dump n success s
  | .reply n => if s.ended.isSome then none else replyStep parse dump stack n s

variable {parse dump stack service} in
theorem step_of_ended {s : Server} {stop : Stop} (ended : s.ended = some stop) (e : ServerEvent) :
    s.step parse dump stack service e = none := by
  cases e <;> simp [step, ended]

variable {parse dump stack service} in
theorem running_of_step {s t : Server} {e : ServerEvent}
    (step : s.step parse dump stack service e = some t) : s.ended = none := by
  cases ended : s.ended with
  | none => rfl
  | some stop => cases (step_of_ended ended e).symm.trans step

end Server

namespace ServerSession

section Kept
variable {parse : Bytes → ParseResult} {dump : Dump}
variable {inv : Connection Unit → Prop} (kept : Connection.Kept parse dump inv)
include kept

theorem replySender_kept (reply : Json) (s : ServerSession) (h : inv s.connection) :
    inv (replySender parse dump reply s).2.connection := by
  have handed : inv (if reply.isObject then asyncSendReply dump reply s
      else (.ok (), s)).2.connection := by
    split
    · exact kept.send _ _ _ h
    · exact h
  unfold replySender
  split
  · exact h
  · split
    · next sent => rwa [sent] at handed
    · next sent =>
      rw [sent] at handed
      split
      · exact handed
      · exact handed
      · exact kept.receive _ _ handed

end Kept

end ServerSession

namespace Server

section Kept
variable {parse : Bytes → ParseResult} {dump : Dump} {stack : Nat} {service : VarlinkService}
variable (inv : ServerSession → Prop)
  (sender : ∀ reply s, inv s → inv (ServerSession.replySender parse dump reply s).2)
include sender

theorem dispatch_kept (message : VarlinkMessage) (s : Server) (h : inv s.session) :
    inv (dispatch parse dump stack service message s).session := by
  have called : inv (messageCall dump stack (ServerSession.replySender parse dump) service message
      s.dispatched.length s.session).2 :=
    messageCall_invariant inv sender service message s.dispatched.length h
  unfold dispatch
  split <;> next result => rwa [result] at called

theorem replyStep_kept {s t : Server} {n : Nat} (h : inv s.session)
    (taken : s.replyStep parse dump stack n = some t) : inv t.session := by
  unfold replyStep at taken
  split at taken
  · next handler params continues rest found =>
    have called : inv (handler.call dump stack (ServerSession.replySender parse dump) params
        continues s.session).2 := by
      unfold ReplyHandler.call
      split
      · exact h
      · exact sender _ _ h
    split at taken
    all_goals
      next result =>
        cases taken
        rwa [result] at called
  · cases taken

theorem step_kept {s t : Server} {e : ServerEvent} (h : inv s.session)
    (received : ∀ n e r, s.session.connection.receiveStep parse n e = some r →
      inv { s.session with connection := r.2 })
    (wrote : ∀ n r sendEc, s.session.connection.writeStep dump n = some r →
      inv { s.session with connection := r.2, sendEc })
    (taken : s.step parse dump stack service e = some t) : inv t.session := by
  have running := running_of_step taken
  cases e with
  | receive n e =>
    simp only [step, running] at taken
    obtain ⟨⟨result, connection⟩, moved, rfl⟩ := Option.map_eq_some_iff.mp taken
    have moved := received n e _ moved
    rcases result with _ | ⟨handler, _ | j⟩
    · exact moved
    · simp only [onReceive]
      split
      · exact moved
      · exact dispatch_kept inv sender _ (s.withConnection connection) moved
    · exact moved
  | written n success =>
    simp only [step, running] at taken
    obtain ⟨⟨result, connection⟩, moved, rfl⟩ := Option.map_eq_some_iff.mp taken
    rcases result with _ | handler
    · exact wrote n _ _ moved
    · simp only [onWritten]
      split
      · exact wrote n _ _ moved
      · exact wrote n _ _ moved
  | reply n =>
    simp only [step, running] at taken
    exact replyStep_kept inv sender h taken

end Kept

end Server

end Varlink
