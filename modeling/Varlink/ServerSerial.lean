import Varlink.ServerReplies

/-! The invariant of a session that serves pipelined requests: it either listens
for the next request with all earlier ones answered, or it owes replies to the
request dispatched last and does not listen. -/

namespace Varlink.ServerReplies

open ServerSession

variable {parse : Bytes → ParseResult} {dump : Dump} {stack : Nat} {service : VarlinkService}
  {frames : List Bytes} {requests dispatched : List VarlinkMessage} {bytes : Bytes}
  {todo : List Json}

/-- What holds of the session at any time: `todo` is owed to the requests
dispatched, and the bytes received are the beginning of the stream. -/
structure Serial (dump : Dump) (stack : Nat) (service : VarlinkService) (frames : List Bytes)
    (bytes : Bytes) (dispatched : List VarlinkMessage) (todo : List Json) (s : ServerSession) :
    Prop where
  sendOk : s.sendEc = false
  framed : s.connection.inbound.Framed
  received : s.connection.inbound.received = bytes
  stream : bytes <+: Delimited.encode 0 frames
  wire : s.connection.Wire dump s.handed
  handed_eq : s.handed ++ todo = answers dump stack service dispatched
  floor : answers dump stack service dispatched.dropLast <+: s.handed
  dumps : ∀ reply ∈ todo, ∃ text, dump reply = .ok text

/-- No receive is under way, and all messages cut out so far were dispatched. -/
structure Quiet (parse : Bytes → ParseResult) (dump : Dump) (dispatched : List VarlinkMessage)
    (s : ServerSession) : Prop where
  receives : s.connection.receives = []
  tracked : s.connection.inbound.messages.map (requestOf parse dump) = dispatched.map some

/-- One receive is under way: it waits for bytes, or holds the next request. -/
inductive Listening (parse : Bytes → ParseResult) (dump : Dump)
    (dispatched : List VarlinkMessage) (s : ServerSession) : Prop where
  | reading (receives : s.connection.receives = [.reading s.connection.inbound.buffer.window ()])
      (tracked : s.connection.inbound.messages.map (requestOf parse dump) = dispatched.map some)
  | posted {j : Json} {m : VarlinkMessage} (receives : s.connection.receives =
        [.posted (.message j) ()])
      (valid : VarlinkMessage.ofJson dump j = .ok m)
      (tracked : s.connection.inbound.messages.map (requestOf parse dump) =
        (dispatched ++ [m]).map some)

theorem Serial.answered {s : ServerSession}
    (h : Serial dump stack service frames bytes dispatched [] s) :
    s.handed = answers dump stack service dispatched :=
  (List.append_nil _).symm.trans h.handed_eq

theorem Serial.ceiling {s : ServerSession}
    (h : Serial dump stack service frames bytes dispatched todo s) :
    s.handed <+: answers dump stack service dispatched :=
  ⟨todo, h.handed_eq⟩

theorem Serial.withConnection {s : ServerSession} {longer : Bytes}
    (h : Serial dump stack service frames bytes dispatched todo s) (c : Connection Unit)
    (framed : c.inbound.Framed)
    (received : c.inbound.received = longer) (stream : longer <+: Delimited.encode 0 frames)
    (strand : c.writeStrand = s.connection.writeStrand)
    (written : c.written = s.connection.written) :
    Serial dump stack service frames longer dispatched todo { s with connection := c } where
  sendOk := h.sendOk
  framed := framed
  received := received
  stream := stream
  wire := {
    ordered := strand ▸ h.wire.ordered
    written_eq := by
      simp only [strand, written]
      exact h.wire.written_eq
    dumps := strand ▸ h.wire.dumps }
  handed_eq := h.handed_eq
  floor := h.floor
  dumps := h.dumps

theorem next_request (hp : Pipelined parse dump frames requests) {i : Inbound} (framed : i.Framed)
    (stream : i.received <+: Delimited.encode 0 frames) {before : List Bytes} {message : Bytes}
    (messages : i.messages = before ++ [message]) :
    ∃ j m, parse message = .value j ∧ VarlinkMessage.ofJson dump j = .ok m ∧
      m ∈ requests ∧ requestOf parse dump message = some m := by
  have member : message ∈ frames :=
    (framed.messages_prefix hp.clean stream).subset (by simp [messages])
  have mapped : requestOf parse dump message ∈ requests.map some :=
    hp.parsed ▸ List.mem_map_of_mem member
  obtain ⟨m, among, found⟩ := List.mem_map.mp mapped
  have kept := found.symm
  unfold requestOf at found
  split at found
  · rename_i j value
    cases valid : VarlinkMessage.ofJson dump j with
    | error e => simp [valid, Except.toOption] at found
    | ok m' =>
      simp only [valid, Except.toOption, Option.some.injEq] at found
      exact ⟨j, m, value, by rw [found, valid], among, kept⟩
  · cases found

theorem Serial.start (hp : Pipelined parse dump frames requests) {s : ServerSession}
    (h : Serial dump stack service frames bytes dispatched todo s)
    (quiet : Quiet parse dump dispatched s) :
    ∃ t, s.start parse = (.ok (), t) ∧
      Serial dump stack service frames bytes dispatched todo t ∧
      Listening parse dump dispatched t := by
  rcases h.framed.readNextMessage parse with
    ⟨read, -⟩ | ⟨message, i, read, framed, received, messages⟩
  · refine ⟨{ s with connection := { s.connection with
      receives := s.connection.receives ++ [.reading s.connection.inbound.buffer.window ()] } },
      by simp only [ServerSession.start, Connection.asyncReceive, read],
      { h with wire := { h.wire with } }, ?_⟩
    exact .reading (by simp [quiet.receives]) quiet.tracked
  · have stream : i.received <+: Delimited.encode 0 frames :=
      received ▸ h.received ▸ h.stream
    obtain ⟨j, m, value, valid, -, found⟩ := next_request hp framed stream messages
    refine ⟨{ s with connection := { s.connection with
      inbound := i, receives := s.connection.receives ++ [.posted (.message j) ()] } },
      by simp only [ServerSession.start, Connection.asyncReceive, read, value,
        ParseResult.received],
      { h with framed := framed, received := received.trans h.received, wire := { h.wire with } },
      ?_⟩
    refine .posted (by simp [quiet.receives]) valid ?_
    simp only [messages, List.map_append, quiet.tracked, List.map_cons, List.map_nil, found]

theorem Serial.asyncSendReply {s : ServerSession} {reply : Json}
    (h : Serial dump stack service frames bytes dispatched (reply :: todo) s)
    (quiet : Quiet parse dump dispatched s) :
    ∃ t, s.asyncSendReply dump reply = (.ok (), t) ∧
      Serial dump stack service frames bytes dispatched todo t ∧ Quiet parse dump dispatched t := by
  obtain ⟨c, sent, wire, inbound, receives⟩ :=
    h.wire.asyncSend (h.dumps reply List.mem_cons_self) ()
  refine ⟨{ s with connection := c, handed := s.handed ++ [reply] },
    by simp only [ServerSession.asyncSendReply, sent],
    { sendOk := h.sendOk
      framed := inbound ▸ h.framed
      received := inbound ▸ h.received
      stream := h.stream
      wire := wire
      handed_eq := ?_
      floor := h.floor.trans (List.prefix_append _ _)
      dumps := fun r member => h.dumps r (List.mem_cons_of_mem _ member) },
    ⟨receives.trans quiet.receives, inbound ▸ quiet.tracked⟩⟩
  rw [← h.handed_eq, List.append_assoc]
  rfl

theorem Serial.sender_continues {s : ServerSession} {reply : Json}
    (h : Serial dump stack service frames bytes dispatched (reply :: todo) s)
    (quiet : Quiet parse dump dispatched s) (object : reply.isObject = true)
    (continues : replyContinues reply = .ok true) :
    ∃ t, replySender parse dump reply s = (.ok (), t) ∧
      Serial dump stack service frames bytes dispatched todo t ∧ Quiet parse dump dispatched t := by
  obtain ⟨t, sent, serial, quiet⟩ := h.asyncSendReply quiet
  refine ⟨t, ?_, serial, quiet⟩
  simp [replySender, h.sendOk, object, sent, continues]

theorem Serial.sender_terminal (hp : Pipelined parse dump frames requests) {s : ServerSession}
    {reply : Json} (h : Serial dump stack service frames bytes dispatched [reply] s)
    (quiet : Quiet parse dump dispatched s) (object : reply.isObject = true)
    (terminal : replyContinues reply = .ok false) :
    ∃ t, replySender parse dump reply s = (.ok (), t) ∧
      Serial dump stack service frames bytes dispatched [] t ∧
        Listening parse dump dispatched t := by
  obtain ⟨t, sent, serial, quiet⟩ := h.asyncSendReply quiet
  obtain ⟨u, started, serial, listening⟩ := serial.start hp quiet
  refine ⟨u, ?_, serial, listening⟩
  simp [replySender, h.sendOk, object, sent, terminal, started]

theorem call_valid {h : ReplyHandler} (answered : h.mode ≠ .oneway) {params : Object}
    {continues : Bool}
    (valid : checkType dump stack h.interface (.object params) h.returnType = .ok ())
    (allowed : h.mode = .more ∨ continues = false) (s : ServerSession) :
    h.call dump stack (replySender parse dump) params continues s =
      replySender parse dump (replyObject h.mode params continues) s := by
  have passedOn : h.reply dump stack params continues =
      .ok (replyObject h.mode params continues) := by
    simp only [ReplyHandler.reply, valid, bind, Except.bind, replyValue, replyObject]
    cases mode : h.mode <;> simp_all [Except.mapError]
  simp only [ReplyHandler.call, passedOn]

theorem replyContinues_replyObject {mode : Callmode} {params : Object} {continues : Bool}
    (allowed : mode = .more ∨ continues = false) :
    (replyObject mode params continues).isObject = true ∧
      replyContinues (replyObject mode params continues) = .ok continues := by
  unfold replyObject
  split
  · exact ⟨rfl, rfl⟩
  · rcases allowed with more | rfl
    · contradiction
    · exact ⟨rfl, rfl⟩

/-- How a `try` block that keeps to the protocol ends: with replies still owed,
with the next receive started, or with an exception and its error reply owed. -/
inductive Tried (parse : Bytes → ParseResult) (dump : Dump) (stack : Nat)
    (service : VarlinkService) (frames : List Bytes) (bytes : Bytes)
    (dispatched : List VarlinkMessage) (method : String) (handler : ReplyHandler) :
    Except Stop (List (Object × Bool)) × ServerSession → Prop where
  | later {replies : List (Object × Bool)} {t : ServerSession}
      (left : RepliesLeft handler.mode (fun params => checkType dump stack handler.interface
        (.object params) handler.returnType = .ok ()) replies)
      (serial : Serial dump stack service frames bytes dispatched
        (replies.map fun r => replyObject handler.mode r.1 r.2) t)
      (quiet : Quiet parse dump dispatched t) :
      Tried parse dump stack service frames bytes dispatched method handler (.ok replies, t)
  | done {t : ServerSession} (serial : Serial dump stack service frames bytes dispatched [] t)
      (listening : Listening parse dump dispatched t) :
      Tried parse dump stack service frames bytes dispatched method handler (.ok [], t)
  | thrown {e : Exn} {t : ServerSession} (serial : Serial dump stack service frames bytes
        dispatched (errorAnswer method e) t)
      (quiet : Quiet parse dump dispatched t) :
      Tried parse dump stack service frames bytes dispatched method handler
        (.error (.thrown e), t)

theorem run_tried (hp : Pipelined parse dump frames requests) {handler : ReplyHandler}
    (answered : handler.mode ≠ .oneway) {method : String} {behaviour : Behaviour}
    (protocol : FollowsProtocol handler.mode (fun params => checkType dump stack handler.interface
      (.object params) handler.returnType = .ok ()) behaviour)
    {s : ServerSession}
    (serial : Serial dump stack service frames bytes dispatched
      (behaviourAnswers handler.mode method behaviour) s)
    (quiet : Quiet parse dump dispatched s) :
    Tried parse dump stack service frames bytes dispatched method handler
      (behaviour.run (handler.call dump stack (replySender parse dump)) s) := by
  induction protocol generalizing s with
  | throws caught standard => exact .thrown serial quiet
  | more more ok then_ ih =>
    obtain ⟨object, continues⟩ := replyContinues_replyObject (.inl more)
    obtain ⟨t, sent, serial, quiet⟩ := serial.sender_continues quiet object continues
    simp only [Behaviour.run, call_valid answered ok (.inl more), sent]
    exact ih serial quiet
  | last ok then_ =>
    obtain ⟨object, terminal⟩ := replyContinues_replyObject (.inr rfl)
    simp only [behaviourAnswers, then_, List.map_nil] at serial
    obtain ⟨t, sent, serial, listening⟩ := serial.sender_terminal hp quiet object terminal
    simp only [Behaviour.run, call_valid answered ok (.inr rfl), sent, then_]
    exact .done serial listening
  | later left => exact .later left serial quiet

/-- How `message_call` leaves the session: an exception that leaves it, or the
end of the process, still owes what it owes. -/
inductive Called (parse : Bytes → ParseResult) (dump : Dump) (stack : Nat)
    (service : VarlinkService) (frames : List Bytes) (bytes : Bytes)
    (dispatched : List VarlinkMessage) :
    Except Stop (Option Deferred) × ServerSession → Prop where
  | later {later : Deferred} {t : ServerSession}
      (answered : later.handler.mode ≠ .oneway)
      (left : RepliesLeft later.handler.mode (fun params => checkType dump stack
        later.handler.interface (.object params) later.handler.returnType = .ok ()) later.replies)
      (serial : Serial dump stack service frames bytes dispatched
        (later.replies.map fun r => replyObject later.handler.mode r.1 r.2) t)
      (quiet : Quiet parse dump dispatched t) :
      Called parse dump stack service frames bytes dispatched (.ok (some later), t)
  | done {handler : ReplyHandler} {t : ServerSession}
      (serial : Serial dump stack service frames bytes dispatched [] t)
      (listening : Listening parse dump dispatched t) :
      Called parse dump stack service frames bytes dispatched (.ok (some ⟨handler, []⟩), t)
  | error {t : ServerSession} (serial : Serial dump stack service frames bytes dispatched [] t)
      (receives : Listening parse dump dispatched t ∨ Quiet parse dump dispatched t) :
      Called parse dump stack service frames bytes dispatched (.ok none, t)
  | ended {stop : Stop} {left : List Json} {t : ServerSession}
      (serial : Serial dump stack service frames bytes dispatched left t) :
      Called parse dump stack service frames bytes dispatched (.error stop, t)

theorem sendError_called (hp : Pipelined parse dump frames requests) {what : String}
    {params : Json} {s : ServerSession}
    (serial : Serial dump stack service frames bytes dispatched [errorObject what params] s)
    (quiet : Quiet parse dump dispatched s) :
    Called parse dump stack service frames bytes dispatched
      ((sendError (replySender parse dump) what params s).1.map fun _ => none,
        (sendError (replySender parse dump) what params s).2) := by
  unfold sendError
  split
  · obtain ⟨t, sent, serial, listening⟩ := serial.sender_terminal hp quiet rfl rfl
    rw [sent]
    exact .error serial (.inl listening)
  · exact .ended serial

theorem catchClauses_called (hp : Pipelined parse dump frames requests) {method : String}
    {e : Exn} {s : ServerSession}
    (serial : Serial dump stack service frames bytes dispatched (errorAnswer method e) s)
    (quiet : Quiet parse dump dispatched s) :
    Called parse dump stack service frames bytes dispatched
      ((catchClauses (replySender parse dump) method e s).1.map fun _ => none,
        (catchClauses (replySender parse dump) method e s).2) := by
  cases e with
  | systemError => exact .error serial (.inr quiet)
  | foreign => exact .ended serial
  | _ => exact sendError_called hp serial quiet

/-- One request: what is owed to it is handed over, or put off, and the session
listens again only when nothing is owed. -/
theorem messageCall_called (hp : Pipelined parse dump frames requests)
    (protocol : ServiceFollowsProtocol dump stack service) {message : VarlinkMessage}
    (answered : message.mode ≠ .oneway) {call : Nat} {s : ServerSession}
    (serial : Serial dump stack service frames bytes dispatched
      (requestAnswers dump stack service message call) s)
    (quiet : Quiet parse dump dispatched s) :
    Called parse dump stack service frames bytes dispatched
      (messageCall dump stack (replySender parse dump) service message call s) := by
  unfold requestAnswers at serial
  cases known : service.findInterface message.interface with
  | none =>
    simp only [known] at serial
    rw [messageCall_unknown known]
    exact sendError_called hp serial quiet
  | some entry =>
    simp only [known] at serial
    cases found : lookupCall dump stack entry message call with
    | error stop =>
      have tried : callMethod dump stack (replySender parse dump) entry message call s =
          (.error stop, s) := callMethod_stopped found s
      cases stop with
      | thrown e =>
        simp only [found] at serial
        rw [messageCall_thrown known tried]
        exact catchClauses_called hp serial quiet
      | stackOverflow =>
        rw [messageCall_died known tried nofun]
        exact .ended serial
      | assertion =>
        rw [messageCall_died known tried nofun]
        exact .ended serial
    | ok p =>
      obtain ⟨handler, behaviour⟩ := p
      simp only [found] at serial
      have mode := lookupCall_mode found
      have answeredH : handler.mode ≠ .oneway := mode ▸ answered
      rw [← mode] at serial
      have tried : callMethod dump stack (replySender parse dump) entry message call s = _ :=
        callMethod_found found s
      have ran := run_tried hp answeredH
        (protocol message call entry handler behaviour answered known found) serial quiet
      revert tried
      generalize behaviour.run (handler.call dump stack (replySender parse dump)) s = result at ran
      intro tried
      cases ran with
      | later left serial quiet =>
        rw [messageCall_returned known tried]
        exact .later answeredH left serial quiet
      | done serial listening =>
        rw [messageCall_returned known tried]
        exact .done serial listening
      | thrown serial quiet =>
        rw [messageCall_thrown known tried]
        exact catchClauses_called hp serial quiet

end Varlink.ServerReplies
