import Varlink.JsonText
import Varlink.ServerSession

/-! When `message_call` lets an exception out, and with it ends the process. The
error replies are sent outside the `try` block, so it does as soon as the reply
sender does not take one. -/

namespace Varlink.ServerTermination

open ServerSession

variable {parse : Bytes → ParseResult} {dump : Dump} {stack : Nat} {service : VarlinkService}

/-- An exception has left `message_call`. -/
def Terminated (s : Server) : Prop := ∃ e, s.ended = some (.thrown e)

instance (s : Server) : Decidable (Terminated s) :=
  match ended : s.ended with
  | some (.thrown e) => .isTrue ⟨e, ended⟩
  | some .stackOverflow | some .assertion | none =>
    .isFalse fun ⟨_, thrown⟩ => by cases ended.symm.trans thrown

/-- The reply sender takes a reply that is the last one: no write has failed, the
write it starts can be dumped, and the receive it starts does not throw. -/
structure Takes (parse : Bytes → ParseResult) (dump : Dump) (s : ServerSession) (reply : Json) :
    Prop where
  sendOk : s.sendEc = false
  dumps : ∀ job, (s.connection.writeStrand.push (reply, ())).1 = some job →
    ∃ text, dump job.1 = .ok text
  parses : ∀ what, (s.connection.inbound.readNextMessage parse).1 ≠ some (.exception what)

/-- `message_call` comes to send this error reply in this state of the session. -/
inductive ErrorReply (parse : Bytes → ParseResult) (dump : Dump) (stack : Nat)
    (service : VarlinkService) (message : VarlinkMessage) (call : Nat) (s : ServerSession) :
    Json → ServerSession → Prop where
  | unknown (unknown : service.findInterface message.interface = none) :
      ErrorReply parse dump stack service message call s
        (errorObject "org.varlink.service.InterfaceNotFound"
          (.object [("interface", .string message.interface)])) s
  | caught {entry : InterfaceEntry} {e : Exn} {t : ServerSession} {what : String} {params : Json}
      (known : service.findInterface message.interface = some entry)
      (tried : callMethod dump stack (replySender parse dump) entry message call s =
        (.error (.thrown e), t))
      (reply : e.errorReply (message.interface ++ "." ++ message.method) = some (what, params))
      (object : params.isObject = true) :
      ErrorReply parse dump stack service message call s (errorObject what params) t

/-- Every error reply is taken, and nothing but a `std::exception` is thrown. -/
structure Survives (parse : Bytes → ParseResult) (dump : Dump) (stack : Nat)
    (service : VarlinkService) (message : VarlinkMessage) (call : Nat) (s : ServerSession) :
    Prop where
  takes : ∀ reply t, ErrorReply parse dump stack service message call s reply t →
    Takes parse dump t reply
  standard : ∀ entry t, service.findInterface message.interface = some entry →
    callMethod dump stack (replySender parse dump) entry message call s ≠
      (.error (.thrown .foreign), t)

/-- The request that a step passes to `message_call`, and the session it finds. -/
def dispatchOf (parse : Bytes → ParseResult) (dump : Dump) (s : Server) :
    ServerEvent → Option (VarlinkMessage × ServerSession)
  | .receive n e =>
    match s.session.connection.receiveStep parse n e with
    | some (some (_, .message j), c) =>
      (VarlinkMessage.ofJson dump j).toOption.map fun message =>
        (message, { s.session with connection := c })
    | _ => none
  | _ => none

/-- A step survives if it dispatches no request, or one whose error reply is taken. -/
def SafeStep (parse : Bytes → ParseResult) (dump : Dump) (stack : Nat)
    (service : VarlinkService) (s : Server) (e : ServerEvent) : Prop :=
  ∀ message session, dispatchOf parse dump s e = some (message, session) →
    Survives parse dump stack service message s.dispatched.length session

theorem replySender_refused {reply : Json} {s : ServerSession} (sendEc : s.sendEc = true) :
    replySender parse dump reply s = (.error (.thrown .systemError), s) := by
  simp only [replySender, sendEc, if_true]

theorem replySender_errorObject {what : String} {params : Json} {s : ServerSession}
    (sendOk : s.sendEc = false) :
    replySender parse dump (errorObject what params) s =
      match s.asyncSendReply dump (errorObject what params) with
      | (.error e, t) => (.error e, t)
      | (.ok (), t) => t.start parse := by
  simp only [replySender, sendOk, Bool.false_eq_true, if_false,
    show (errorObject what params).isObject = true from rfl, if_true]
  rfl

theorem asyncSendReply_fst (dump : Dump) (reply : Json) (s : ServerSession) :
    ((∀ job, (s.connection.writeStrand.push (reply, ())).1 = some job →
        ∃ text, dump job.1 = .ok text) ∧ (s.asyncSendReply dump reply).1 = .ok ()) ∨
      ((¬ ∀ job, (s.connection.writeStrand.push (reply, ())).1 = some job →
        ∃ text, dump job.1 = .ok text) ∧ ∃ e, (s.asyncSendReply dump reply).1 =
          .error (.thrown e)) := by
  have sent : (s.asyncSendReply dump reply).1 = _ :=
    Connection.asyncSend_fst dump reply () s.connection
  rw [sent]
  cases (s.connection.writeStrand.push (reply, ())).1 with
  | none => exact .inl ⟨nofun, rfl⟩
  | some job =>
    cases dumped : dump job.1 with
    | ok text =>
      refine .inl ⟨?_, by simp only [dumped]; rfl⟩
      rintro _ ⟨⟩
      exact ⟨text, dumped⟩
    | error e =>
      refine .inr ⟨fun dumps => ?_, e, by simp only [dumped]; rfl⟩
      obtain ⟨text, contra⟩ := dumps job rfl
      cases dumped.symm.trans contra

theorem start_fst (s : ServerSession) :
    ((∀ what, (s.connection.inbound.readNextMessage parse).1 ≠ some (.exception what)) ∧
        (s.start parse).1 = .ok ()) ∨
      ((¬ ∀ what, (s.connection.inbound.readNextMessage parse).1 ≠ some (.exception what)) ∧
        ∃ e, (s.start parse).1 = .error (.thrown e)) := by
  have started : (s.start parse).1 = _ := Connection.asyncReceive_fst parse () s.connection
  rw [started]
  rcases (s.connection.inbound.readNextMessage parse).1 with _ | _ | _ | what
  · exact .inl ⟨nofun, rfl⟩
  · exact .inl ⟨nofun, rfl⟩
  · exact .inl ⟨nofun, rfl⟩
  · exact .inr ⟨fun parses => parses what rfl, _, rfl⟩

theorem replySender_fst (parse : Bytes → ParseResult) (dump : Dump) (what : String)
    (params : Json) (s : ServerSession) :
    (Takes parse dump s (errorObject what params) ∧
        (replySender parse dump (errorObject what params) s).1 = .ok ()) ∨
      (¬ Takes parse dump s (errorObject what params) ∧
        ∃ e, (replySender parse dump (errorObject what params) s).1 = .error (.thrown e)) := by
  cases sendEc : s.sendEc with
  | true =>
    refine .inr ⟨fun takes => by simp [takes.sendOk] at sendEc, .systemError, ?_⟩
    rw [replySender_refused sendEc]
  | false =>
    rw [replySender_errorObject sendEc]
    have inbound := Connection.asyncSend_inbound dump (errorObject what params) () s.connection
    rcases sent : s.asyncSendReply dump (errorObject what params) with ⟨result, t⟩
    have same : t.connection.inbound = s.connection.inbound := by
      rw [← inbound]
      exact congrArg (·.2.connection.inbound) sent.symm
    have taken := asyncSendReply_fst dump (errorObject what params) s
    rw [sent] at taken
    rcases taken with ⟨dumps, ok⟩ | ⟨fails, e, thrown⟩
    · cases ok
      rcases start_fst t with ⟨parses, ok⟩ | ⟨fails, e, thrown⟩
      · exact .inl ⟨⟨sendEc, dumps, same ▸ parses⟩, ok⟩
      · exact .inr ⟨fun takes => fails (same ▸ takes.parses), e, thrown⟩
    · cases thrown
      exact .inr ⟨fun takes => fails takes.dumps, e, rfl⟩

theorem sendError_thrown_iff {what : String} {params : Json} (object : params.isObject = true)
    (s : ServerSession) :
    (∃ e, (sendError (replySender parse dump) what params s).1 = .error (.thrown e)) ↔
      ¬ Takes parse dump s (errorObject what params) := by
  simp only [sendError, object, if_true]
  rcases replySender_fst parse dump what params s with
    ⟨takes, ok⟩ | ⟨fails, thrown⟩
  · simp [ok, takes]
  · exact ⟨fun _ => fails, fun _ => thrown⟩

theorem survives_unknown_iff {message : VarlinkMessage} {call : Nat} {s : ServerSession}
    (unknown : service.findInterface message.interface = none) :
    Survives parse dump stack service message call s ↔
      Takes parse dump s (errorObject "org.varlink.service.InterfaceNotFound"
        (.object [("interface", .string message.interface)])) := by
  refine ⟨fun survives => survives.takes _ _ (.unknown unknown), fun takes => ⟨?_, ?_⟩⟩
  · rintro reply t (_ | ⟨known, _, _, _⟩)
    · exact takes
    · cases unknown.symm.trans known
  · intro entry t known
    cases unknown.symm.trans known

theorem survives_caught_iff {message : VarlinkMessage} {call : Nat} {s t : ServerSession}
    {entry : InterfaceEntry} {e : Exn}
    (known : service.findInterface message.interface = some entry)
    (tried : callMethod dump stack (replySender parse dump) entry message call s =
      (.error (.thrown e), t)) :
    Survives parse dump stack service message call s ↔
      (∀ what params, e.errorReply (message.interface ++ "." ++ message.method) =
        some (what, params) → params.isObject = true →
          Takes parse dump t (errorObject what params)) ∧
      e ≠ .foreign := by
  constructor
  · intro survives
    refine ⟨fun what params reply object => survives.takes _ _ (.caught known tried reply object),
      fun foreign => ?_⟩
    subst foreign
    exact survives.standard entry t known tried
  · rintro ⟨takes, standard⟩
    refine ⟨?_, ?_⟩
    · rintro reply u (unknown | ⟨known', tried', reply', object⟩)
      · cases known.symm.trans unknown
      · cases known.symm.trans known'
        cases tried.symm.trans tried'
        exact takes _ _ reply' object
    · intro entry' u known' contra
      cases known.symm.trans known'
      cases tried.symm.trans contra
      exact standard rfl

theorem survives_of_uncaught {message : VarlinkMessage} {call : Nat} {s t : ServerSession}
    {entry : InterfaceEntry} {result : Except Stop Deferred}
    (known : service.findInterface message.interface = some entry)
    (tried : callMethod dump stack (replySender parse dump) entry message call s = (result, t))
    (uncaught : ∀ e, result ≠ .error (.thrown e)) :
    Survives parse dump stack service message call s := by
  refine ⟨?_, ?_⟩
  · rintro reply u (unknown | ⟨known', tried', -, -⟩)
    · cases known.symm.trans unknown
    · cases known.symm.trans known'
      cases tried.symm.trans tried'
      exact absurd rfl (uncaught _)
  · intro entry' u known' contra
    cases known.symm.trans known'
    cases tried.symm.trans contra
    exact uncaught _ rfl

theorem catchClauses_thrown_iff {method : String} {e : Exn} {s : ServerSession} :
    (∃ e', (catchClauses (replySender parse dump) method e s).1 = .error (.thrown e')) ↔
      ¬ ((∀ what params, e.errorReply method = some (what, params) → params.isObject = true →
        Takes parse dump s (errorObject what params)) ∧ e ≠ .foreign) := by
  unfold catchClauses
  cases reply : e.errorReply method with
  | none => cases e <;> simp_all [Exn.errorReply]
  | some p =>
    obtain ⟨what, params⟩ := p
    have standard : e ≠ .foreign := by
      rintro rfl
      cases reply
    cases object : params.isObject with
    | true => simpa [standard, object] using sendError_thrown_iff object s
    | false => simp [standard, object, sendError]

theorem messageCall_thrown_iff {message : VarlinkMessage} {call : Nat} {s : ServerSession} :
    (∃ e, (messageCall dump stack (replySender parse dump) service message call s).1 =
        .error (.thrown e)) ↔ ¬ Survives parse dump stack service message call s := by
  cases known : service.findInterface message.interface with
  | none =>
    rw [messageCall_unknown known, survives_unknown_iff known]
    simp only [map_eq_error_iff]
    exact sendError_thrown_iff rfl s
  | some entry =>
    rcases tried : callMethod dump stack (replySender parse dump) entry message call s with
      ⟨result, t⟩
    cases result with
    | ok deferred =>
      rw [messageCall_returned known tried]
      simp [survives_of_uncaught known tried nofun]
    | error stop =>
      cases stop with
      | thrown e =>
        rw [messageCall_thrown known tried, survives_caught_iff known tried]
        simp only [map_eq_error_iff]
        exact catchClauses_thrown_iff
      | stackOverflow =>
        rw [messageCall_died known tried nofun]
        simp [survives_of_uncaught known tried nofun]
      | assertion =>
        rw [messageCall_died known tried nofun]
        simp [survives_of_uncaught known tried nofun]

theorem dispatch_terminated_iff {message : VarlinkMessage} {s : Server} (running : s.ended = none) :
    Terminated (s.dispatch parse dump stack service message) ↔
      ¬ Survives parse dump stack service message s.dispatched.length s.session := by
  rw [← messageCall_thrown_iff]
  unfold Server.dispatch Terminated
  rcases messageCall dump stack (replySender parse dump) service message s.dispatched.length
    s.session with ⟨stop | _ | later, session⟩
  · simp
  · simp [running]
  · simp [running]

theorem terminated_stuck (s : Server) (e : ServerEvent) (h : Terminated s) :
    s.step parse dump stack service e = none :=
  let ⟨_, ended⟩ := h
  Server.step_of_ended ended e

theorem safeStep_of_none {s : Server} {e : ServerEvent} (none_ : dispatchOf parse dump s e = none) :
    SafeStep parse dump stack service s e := by
  intro message session found
  cases none_.symm.trans found

theorem receiveStep_terminated_iff {s t : Server} {n : Nat} {e : ReadEvent}
    (running : s.ended = none) (step : s.receiveStep parse dump stack service n e = some t) :
    Terminated t ↔ ¬ SafeStep parse dump stack service s (.receive n e) := by
  obtain ⟨⟨handled, c⟩, moved, rfl⟩ := Option.map_eq_some_iff.mp step
  have quiet {u : Server} (same : u.ended = s.ended)
      (none_ : dispatchOf parse dump s (.receive n e) = none) :
      Terminated u ↔ ¬ SafeStep parse dump stack service s (.receive n e) := by
    have safe : SafeStep parse dump stack service s (.receive n e) := safeStep_of_none none_
    simp [Terminated, same, running, safe]
  rcases handled with _ | ⟨u, j | _⟩
  · exact quiet rfl (by simp only [dispatchOf, moved])
  · simp only [Server.onReceive]
    cases valid : VarlinkMessage.ofJson dump j with
    | error e => exact quiet rfl (by simp [dispatchOf, moved, valid, Except.toOption])
    | ok message =>
      have found : dispatchOf parse dump s (.receive n e) =
          some (message, { s.session with connection := c }) := by
        simp [dispatchOf, moved, valid, Except.toOption]
      refine (dispatch_terminated_iff (s := s.withConnection c) running).trans (not_congr ?_)
      refine ⟨fun survives m session same => ?_, fun safe => safe _ _ found⟩
      cases found.symm.trans same
      exact survives
  · exact quiet rfl (by simp only [dispatchOf, moved])

theorem step_terminated_iff (s : Server) (e : ServerEvent) (t : Server)
    (step : s.step parse dump stack service e = some t) :
    Terminated t ↔ ¬ SafeStep parse dump stack service s e := by
  have running := Server.running_of_step step
  cases e with
  | receive n e =>
    simp only [Server.step, running] at step
    exact receiveStep_terminated_iff running step
  | written n success =>
    simp only [Server.step, running] at step
    obtain ⟨⟨handled, c⟩, -, rfl⟩ := Option.map_eq_some_iff.mp step
    have safe : SafeStep parse dump stack service s (.written n success) := safeStep_of_none rfl
    rcases handled with _ | _ <;> cases success <;>
      simp [Terminated, Server.onWritten, Server.withConnection, running, safe]
  | reply n =>
    simp only [Server.step, running, Option.isSome_none, Bool.false_eq_true, if_false] at step
    have safe : SafeStep parse dump stack service s (.reply n) := safeStep_of_none rfl
    simp only [safe, not_true_eq_false, iff_false]
    rintro ⟨exception, ended⟩
    unfold Server.replyStep at step
    split at step
    · split at step
      · cases step
        cases running.symm.trans ended
      · cases step
        cases running.symm.trans ended
      · rename_i other _
        cases step
        cases ended
        exact other _ rfl
    · cases step

/-- In every run no exception has left `message_call` exactly if each request that
was dispatched found the session able to take the error reply that it came to. -/
theorem not_terminated_iff (parse : Bytes → ParseResult) (dump : Dump) (stack : Nat)
    (service : VarlinkService) (bufsiz : Nat) (es : List ServerEvent) (s : Server)
    (run : Runs.run (Server.step parse dump stack service) (Server.init parse bufsiz) es = some s) :
    ¬ Terminated s ↔ Runs.Along (Server.step parse dump stack service)
      (SafeStep parse dump stack service) (Server.init parse bufsiz) es :=
  Runs.run_ok_iff_along _ terminated_stuck step_terminated_iff
    (fun ⟨_, ended⟩ => by cases ended) run

open JsonText (frame parsePing basicCall)

theorem not_terminated_iff_ping :
    let service := pingService fun _ _ _ => .sendReply [] false fun _ => .returns []
    let es : List ServerEvent := [.receive 0 (.read (frame basicCall)), .written 0 false]
    ∃ s, Runs.run (Server.step parsePing JsonText.dump 1 service) (Server.init parsePing 64) es =
        some s ∧
      Runs.Along (Server.step parsePing JsonText.dump 1 service)
        (SafeStep parsePing JsonText.dump 1 service) (Server.init parsePing 64) es := by
  intro service es
  have enabled : (Runs.run (Server.step parsePing JsonText.dump 1 service)
      (Server.init parsePing 64) es).any (·.ended.isNone) = true := by
    decide +kernel
  obtain ⟨s, hs, running⟩ := (Option.any_eq_true _ _).mp enabled
  refine ⟨s, hs, (not_terminated_iff parsePing _ 1 service 64 _ s hs).mp ?_⟩
  rintro ⟨e, ended⟩
  simp [ended] at running

/-- Two pipelined requests, the second for an interface that is not registered: the
reply to the first cannot be written, and the error reply to the second is refused. -/
theorem failedWrite_terminates :
    let unknown : Json := .object [("method", .string "org.none.Ping")]
    let parse := JsonText.parse [basicCall, unknown]
    let service := pingService fun _ _ _ => .sendReply [] false fun _ => .returns []
    ∃ s, Runs.run (Server.step parse JsonText.dump 1 service) (Server.init parse 64)
        [.receive 0 (.read (frame basicCall ++ frame unknown)), .written 0 false,
          .receive 0 .run] = some s ∧
      Terminated s := by
  intro unknown parse service
  have enabled : (Runs.run (Server.step parse JsonText.dump 1 service) (Server.init parse 64)
      [.receive 0 (.read (frame basicCall ++ frame unknown)), .written 0 false,
        .receive 0 .run]).any (fun s => decide (Terminated s)) = true := by
    decide +kernel
  obtain ⟨s, hs, thrown⟩ := (Option.any_eq_true _ _).mp enabled
  exact ⟨s, hs, of_decide_eq_true thrown⟩

end Varlink.ServerTermination
