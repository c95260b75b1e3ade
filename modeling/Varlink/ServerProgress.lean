import Varlink.ServerOrder

/-! A session does not come to a halt: as long as the callbacks keep to the protocol and
no operation of the transport fails, the process runs, and the session listens for
the next request or has a callback that owes a reply. -/

namespace Varlink.ServerReplies

open ServerSession

variable {parse : Bytes → ParseResult} {dump : Dump} {stack : Nat} {service : VarlinkService}
  {frames : List Bytes} {requests dispatched : List VarlinkMessage} {bytes : Bytes}
  {todo : List Json}

/-- A request that is replied to; the parameters of an error are an object, as the
assertion in `message_call` asks. -/
structure Answerable (dump : Dump) (stack : Nat) (service : VarlinkService)
    (message : VarlinkMessage) (call : Nat) : Prop where
  replied : requestAnswers dump stack service message call ≠ []
  objects : ∀ reply ∈ requestAnswers dump stack service message call,
    reply.contains "error" = true → (reply.member "parameters").isObject = true

theorem Listening.receives {s : ServerSession} (h : Listening parse dump dispatched s) :
    s.connection.receives ≠ [] := by
  cases h with
  | reading receives => rw [receives]; exact List.cons_ne_nil _ _
  | posted receives => rw [receives]; exact List.cons_ne_nil _ _

theorem RepliesLeft.head {mode : Callmode} {valid : Object → Prop} {params : Object}
    {continues : Bool} {rest : List (Object × Bool)}
    (h : RepliesLeft mode valid ((params, continues) :: rest)) :
    valid params ∧ (mode = .more ∨ continues = false) := by
  cases h with
  | last ok => exact ⟨ok, .inr rfl⟩
  | more more ok => exact ⟨ok, .inl more⟩

theorem RepliesLeft.ne_nil {mode : Callmode} {valid : Object → Prop}
    {left : List (Object × Bool)} (h : RepliesLeft mode valid left) : left ≠ [] := by
  cases h <;> exact List.cons_ne_nil _ _

theorem sendError_listens (hp : Pipelined parse dump frames requests) {what : String}
    {params : Json} {s : ServerSession} (object : params.isObject = true)
    (serial : Serial dump stack service frames bytes dispatched [errorObject what params] s)
    (quiet : Quiet parse dump dispatched s) :
    ∃ t, sendError (replySender parse dump) what params s = (.ok (), t) ∧
      t.connection.receives ≠ [] := by
  obtain ⟨t, sent, -, listening⟩ := serial.sender_terminal hp quiet rfl rfl
  refine ⟨t, ?_, listening.receives⟩
  rw [sendError, if_pos object]
  exact sent

theorem catchClauses_listens (hp : Pipelined parse dump frames requests) {method : String}
    {e : Exn} {s : ServerSession} (answer : errorAnswer method e ≠ [])
    (objects : ∀ reply ∈ errorAnswer method e,
      reply.contains "error" = true → (reply.member "parameters").isObject = true)
    (serial : Serial dump stack service frames bytes dispatched (errorAnswer method e) s)
    (quiet : Quiet parse dump dispatched s) :
    ∃ t, catchClauses (replySender parse dump) method e s = (.ok (), t) ∧
      t.connection.receives ≠ [] := by
  unfold errorAnswer at answer objects serial
  unfold catchClauses
  cases reply : e.errorReply method with
  | none => simp [reply] at answer
  | some p =>
    obtain ⟨what, params⟩ := p
    simp only [reply] at objects serial
    exact sendError_listens hp (objects _ List.mem_cons_self rfl) serial quiet

/-- How the `try` block goes on: it may owe replies, or else the session listens, or an
exception of the callback is to be answered. -/
inductive Goes (parse : Bytes → ParseResult) (dump : Dump) (stack : Nat)
    (service : VarlinkService) (frames : List Bytes) (bytes : Bytes)
    (dispatched : List VarlinkMessage) (method : String) (owed : List Json) :
    Except Stop (List (Object × Bool)) × ServerSession → Prop where
  | returned {later : List (Object × Bool)} {t : ServerSession}
      (goesOn : later ≠ [] ∨ t.connection.receives ≠ []) :
      Goes parse dump stack service frames bytes dispatched method owed (.ok later, t)
  | thrown {e : Exn} {t : ServerSession} (answer : errorAnswer method e ≠ [])
      (among : ∀ reply ∈ errorAnswer method e, reply ∈ owed)
      (serial : Serial dump stack service frames bytes dispatched (errorAnswer method e) t)
      (quiet : Quiet parse dump dispatched t) :
      Goes parse dump stack service frames bytes dispatched method owed (.error (.thrown e), t)

theorem Goes.behind {method : String} {owed : List Json} {reply : Json}
    {result : Except Stop (List (Object × Bool)) × ServerSession}
    (h : Goes parse dump stack service frames bytes dispatched method owed result) :
    Goes parse dump stack service frames bytes dispatched method (reply :: owed) result := by
  cases h with
  | returned goesOn => exact .returned goesOn
  | thrown answer among serial quiet =>
    exact .thrown answer (fun r member => List.mem_cons_of_mem reply (among r member)) serial quiet

theorem run_goes (hp : Pipelined parse dump frames requests) {handler : ReplyHandler}
    (answered : handler.mode ≠ .oneway) {method : String} {behaviour : Behaviour}
    (protocol : FollowsProtocol handler.mode (fun params => checkType dump stack handler.interface
      (.object params) handler.returnType = .ok ()) behaviour)
    {s : ServerSession}
    (serial : Serial dump stack service frames bytes dispatched
      (behaviourAnswers handler.mode method behaviour) s)
    (quiet : Quiet parse dump dispatched s) :
    Goes parse dump stack service frames bytes dispatched method
      (behaviourAnswers handler.mode method behaviour)
      (behaviour.run (handler.call dump stack (replySender parse dump)) s) := by
  induction protocol generalizing s with
  | @throws e caught standard =>
    refine .thrown ?_ (fun _ member => member) serial quiet
    unfold errorAnswer
    cases e with
    | systemError => exact absurd rfl caught
    | foreign => exact absurd rfl standard
    | _ => exact List.cons_ne_nil _ _
  | more more ok then_ ih =>
    obtain ⟨object, continues⟩ := replyContinues_replyObject (.inl more)
    obtain ⟨t, sent, serial, quiet⟩ := serial.sender_continues quiet object continues
    simp only [Behaviour.run, call_valid answered ok (.inl more), sent]
    exact (ih serial quiet).behind
  | last ok then_ =>
    obtain ⟨object, terminal⟩ := replyContinues_replyObject (.inr rfl)
    simp only [behaviourAnswers, then_, List.map_nil] at serial
    obtain ⟨t, sent, serial, listening⟩ := serial.sender_terminal hp quiet object terminal
    simp only [Behaviour.run, call_valid answered ok (.inr rfl), sent, then_]
    exact .returned (.inr listening.receives)
  | later left =>
    exact .returned (.inl left.ne_nil)

theorem messageCall_goes (hp : Pipelined parse dump frames requests)
    (protocol : ServiceFollowsProtocol dump stack service) {message : VarlinkMessage}
    (answered : message.mode ≠ .oneway) {call : Nat}
    (answerable : Answerable dump stack service message call) {s : ServerSession}
    (serial : Serial dump stack service frames bytes dispatched
      (requestAnswers dump stack service message call) s)
    (quiet : Quiet parse dump dispatched s) :
    ∃ result t, messageCall dump stack (replySender parse dump) service message call s =
        (.ok result, t) ∧
      ((∃ later, result = some later ∧ later.replies ≠ []) ∨ t.connection.receives ≠ []) := by
  obtain ⟨replied, objects⟩ := answerable
  unfold requestAnswers at serial replied objects
  cases known : service.findInterface message.interface with
  | none =>
    simp only [known] at serial
    obtain ⟨t, sent, listens⟩ := sendError_listens hp rfl serial quiet
    rw [messageCall_unknown known, sent]
    exact ⟨none, t, rfl, .inr listens⟩
  | some entry =>
    simp only [known] at serial replied objects
    have caught {method : String} {e : Exn} {t : ServerSession}
        (method_ : method = message.interface ++ "." ++ message.method)
        (tried : callMethod dump stack (replySender parse dump) entry message call s =
          (.error (.thrown e), t)) (answer : errorAnswer method e ≠ [])
        (objects : ∀ reply ∈ errorAnswer method e,
          reply.contains "error" = true → (reply.member "parameters").isObject = true)
        (serial : Serial dump stack service frames bytes dispatched (errorAnswer method e) t)
        (quiet : Quiet parse dump dispatched t) :
        ∃ result u, messageCall dump stack (replySender parse dump) service message call s =
            (.ok result, u) ∧
          ((∃ later, result = some later ∧ later.replies ≠ []) ∨ u.connection.receives ≠ []) := by
      subst method_
      obtain ⟨u, sent, listens⟩ := catchClauses_listens hp answer objects serial quiet
      rw [messageCall_thrown known tried, sent]
      exact ⟨none, u, rfl, .inr listens⟩
    cases found : lookupCall dump stack entry message call with
    | error stop =>
      simp only [found] at serial replied objects
      cases stop with
      | thrown e => exact caught rfl (callMethod_stopped found s) replied objects serial quiet
      | stackOverflow => exact absurd rfl replied
      | assertion => exact absurd rfl replied
    | ok p =>
      obtain ⟨handler, behaviour⟩ := p
      simp only [found] at serial replied objects
      have mode := lookupCall_mode found
      have answeredH : handler.mode ≠ .oneway := mode ▸ answered
      rw [← mode] at serial objects
      have goes := run_goes hp answeredH
        (protocol message call entry handler behaviour answered known found) serial quiet
      have tried : callMethod dump stack (replySender parse dump) entry message call s = _ :=
        callMethod_found found s
      revert tried
      generalize behaviour.run (handler.call dump stack (replySender parse dump)) s = result at goes
      intro tried
      cases goes with
      | @returned later t goesOn =>
        rw [messageCall_returned known tried]
        exact ⟨_, t, rfl, goesOn.imp_left fun some_ => ⟨⟨handler, later⟩, rfl, some_⟩⟩
      | thrown answer among serial quiet =>
        exact caught rfl tried answer (fun r member => objects r (among r member)) serial quiet

/-- Where a receive waits for the socket there is no complete frame in the buffer. -/
structure Waits (c : Connection Unit) : Prop where
  framed : c.inbound.Framed
  unfinished : ∀ w, .reading w () ∈ c.receives → 0 ∉ c.inbound.buffer.contents

theorem kept_waits : Connection.Kept parse dump Waits where
  receive handler c h := by
    unfold Connection.asyncReceive
    rcases h.framed.readNextMessage parse with
      ⟨read, unfinished⟩ | ⟨message, i, read, framed, received, messages⟩
    · rw [read]
      exact ⟨h.framed, fun _ _ => unfinished⟩
    · -- with a frame in the buffer no other receive was waiting
      have cut := framed.received_eq
      rw [received, messages, h.framed.received_eq, Delimited.encode_append, List.append_assoc]
        at cut
      have whole : 0 ∈ c.inbound.buffer.contents := by
        rw [List.append_cancel_left cut]
        simp
      have nobody : ∀ w, .reading w () ∉ c.receives := fun w reading =>
        h.unfinished w reading whole
      rw [read]
      dsimp only
      split
      · exact ⟨framed, fun w reading => absurd reading (nobody w)⟩
      · refine ⟨framed, fun w reading => ?_⟩
        rcases List.mem_append.mp reading with old | new
        · exact absurd old (nobody w)
        · cases List.mem_singleton.mp new
  send message handler c h := by
    obtain ⟨inbound, receives⟩ := Connection.execute_frame dump
      (c.writeStrand.push (message, handler)) c
    exact ⟨inbound ▸ h.framed, fun w reading => inbound ▸ h.unfinished w (receives ▸ reading)⟩
  wrote n c r h wrote := by
    obtain ⟨handler, d⟩ := r
    obtain ⟨-, same⟩ := Connection.of_writeStep dump wrote
    obtain ⟨inbound, receives⟩ := Connection.execute_frame dump c.writeStrand.next
      { c with writing := c.writing.eraseIdx n }
    rw [same] at inbound receives
    exact ⟨inbound ▸ h.framed, fun w reading => inbound ▸ h.unfinished w (receives ▸ reading)⟩

theorem Serial.next (hp : Pipelined parse dump frames requests)
    (dumps : ∀ reply ∈ answers dump stack service requests, ∃ text, dump reply = .ok text)
    {s : ServerSession} {m : VarlinkMessage}
    (serial : Serial dump stack service frames bytes dispatched [] s)
    (tracked : s.connection.inbound.messages.map (requestOf parse dump) =
      (dispatched ++ [m]).map some) :
    dispatched ++ [m] <+: requests ∧
      Serial dump stack service frames bytes (dispatched ++ [m])
        (requestAnswers dump stack service m dispatched.length) s := by
  have among : dispatched ++ [m] <+: requests :=
    tracked_isPrefix hp serial.framed (serial.received ▸ serial.stream) tracked
  refine ⟨among, { serial with handed_eq := ?_, floor := ?_, dumps := ?_ }⟩
  · rw [serial.answered, answers_concat]
  · simp only [List.dropLast_concat, serial.answered, List.prefix_rfl]
  · intro reply member
    refine dumps reply ((answers_isPrefix dump stack service among).subset ?_)
    rw [answers_concat]
    exact List.mem_append_right _ member

/-- The requests dispatched are the first messages of a session that runs; one more may
have been cut out of the buffer and not be dispatched yet. -/
theorem Phase.tracked {s : Server} (h : Phase parse dump stack service frames requests bytes s)
    (running : s.ended = none) : ∃ next, s.session.connection.inbound.messages.map
      (requestOf parse dump) = (s.dispatched ++ next).map some := by
  cases h with
  | listening _ serial listening =>
    cases listening with
    | reading _ tracked => exact ⟨[], (List.append_nil _).symm ▸ tracked⟩
    | @posted j m _ _ tracked => exact ⟨[m], tracked⟩
  | closed _ serial quiet => exact ⟨[], (List.append_nil _).symm ▸ quiet.tracked⟩
  | replying _ _ _ _ _ serial quiet => exact ⟨[], (List.append_nil _).symm ▸ quiet.tracked⟩
  | ended ended => simp [running] at ended

/-- As long as its replies can be dumped, the writes of a session keep going. -/
def Flowing (dump : Dump) (s : ServerSession) : Prop :=
  (∀ reply ∈ s.handed, ∃ text, dump reply = .ok text) →
    s.connection.Wire dump s.handed ∧ s.connection.Flows

theorem Flowing.receives {s : ServerSession} (h : Flowing dump s) {c : Connection Unit}
    (same : Connection.SameWriting s.connection c) : Flowing dump { s with connection := c } := by
  intro dumps
  obtain ⟨wire, flows⟩ := h dumps
  exact ⟨wire.sameWriting same, flows.sameWriting same⟩

theorem replySender_flowing (reply : Json) (s : ServerSession) (h : Flowing dump s) :
    Flowing dump (replySender parse dump reply s).2 := by
  have handed : Flowing dump (if reply.isObject then asyncSendReply dump reply s
      else (.ok (), s)).2 := by
    split
    · intro dumps
      have new : ∃ text, dump reply = .ok text := dumps reply (List.mem_append_right _ (by simp))
      obtain ⟨wire, flows⟩ := h fun r member => dumps r (List.mem_append_left _ member)
      obtain ⟨c, sent, wire', -⟩ := wire.asyncSend new ()
      have flows' := wire.asyncSend_flows flows new ()
      rw [sent] at flows'
      simp only [asyncSendReply, sent]
      exact ⟨wire', flows'⟩
    · exact h
  unfold replySender
  split
  · exact h
  · split
    · next sent => rwa [sent] at handed
    · next sent =>
      rw [sent] at handed
      split
      · exact handed
      · exact handed
      · exact handed.receives (Connection.asyncReceive_sameWriting () _)

theorem step_flowing {s t : Server} {e : ServerEvent} (h : Flowing dump s.session)
    (step : s.step parse dump stack service e = some t) : Flowing dump t.session := by
  refine Server.step_kept (Flowing dump) replySender_flowing h
    (fun n e r received => h.receives (Connection.receiveStep_sameWriting received)) ?_ step
  intro n r sendEc wrote dumps
  obtain ⟨wire, flows⟩ := h dumps
  exact ⟨(wire.writeStep wrote).2.1, wire.writeStep_flows wrote⟩

theorem init_flowing (bufsiz : Nat) : Flowing dump (Server.init parse bufsiz).session := by
  have fresh : Flowing dump (ServerSession.new bufsiz) := fun _ =>
    ⟨⟨fun _ => rfl, rfl, List.forall_mem_nil _⟩, fun running => absurd running Bool.false_ne_true⟩
  have same : Connection.SameWriting (ServerSession.new bufsiz).connection
      ((ServerSession.new bufsiz).connection.asyncReceive parse ()).2 :=
    Connection.asyncReceive_sameWriting () _
  exact fresh.receives same

/-- A server that runs, and goes on with a receive or with the replies of a callback. -/
structure Alive (s : Server) : Prop where
  running : s.ended = none
  waits : Waits s.session.connection
  goesOn : s.session.connection.receives ≠ [] ∨ ∃ d ∈ s.deferred, d.replies ≠ []

section Steps
variable (hp : Pipelined parse dump frames requests)
  (protocol : ServiceFollowsProtocol dump stack service)
  (dumps : ∀ reply ∈ answers dump stack service requests, ∃ text, dump reply = .ok text)
  (answerable : ∀ (k : Nat) (m : VarlinkMessage), requests[k]? = some m →
    Answerable dump stack service m k)

include hp protocol dumps answerable in
theorem dispatch_alive {s : Server} {m : VarlinkMessage} (running : s.ended = none)
    (waits : Waits s.session.connection)
    (serial : Serial dump stack service frames bytes s.dispatched [] s.session)
    (receives : s.session.connection.receives = [])
    (tracked : s.session.connection.inbound.messages.map (requestOf parse dump) =
      (s.dispatched ++ [m]).map some) : Alive (s.dispatch parse dump stack service m) := by
  obtain ⟨among, owed⟩ := serial.next hp dumps tracked
  have at_ : requests[s.dispatched.length]? = some m := by
    obtain ⟨later, rfl⟩ := among
    simp
  have member : m ∈ requests := List.mem_of_getElem? at_
  obtain ⟨result, t, called, goesOn⟩ := messageCall_goes hp protocol (hp.answered m member)
    (answerable _ m at_) owed ⟨receives, tracked⟩
  have kept : Waits (s.dispatch parse dump stack service m).session.connection :=
    Server.dispatch_kept (fun t => Waits t.connection)
      (fun reply t => replySender_kept kept_waits reply t) m s waits
  unfold Server.dispatch at kept ⊢
  rw [called] at kept ⊢
  cases result with
  | none =>
    refine ⟨running, kept, .inl ?_⟩
    rcases goesOn with ⟨_, contra, -⟩ | listens
    · cases contra
    · exact listens
  | some later =>
    refine ⟨running, kept, ?_⟩
    rcases goesOn with ⟨owing, same, left⟩ | listens
    · obtain rfl := Option.some.inj same
      exact .inr ⟨later, List.mem_append_right _ List.mem_cons_self, left⟩
    · exact .inl listens

def Unfailing : ServerEvent → Prop
  | .receive _ .error => False
  | .written _ success => success = true
  | _ => True

omit hp protocol dumps answerable in
theorem Unfailing.succeeds {e : ServerEvent} (h : Unfailing e) : Succeeds e := by
  cases e with
  | receive => trivial
  | written => exact h
  | reply => trivial

include hp protocol dumps answerable in
theorem receiveStep_alive {s t : Server} {n : Nat} {e : ReadEvent}
    (h : Phase parse dump stack service frames requests bytes s) (alive : Alive s)
    (unfailing : e ≠ .error)
    (stream : bytes ++ chunkOf (.receive n e) <+: Delimited.encode 0 frames)
    (step : s.receiveStep parse dump stack service n e = some t) : Alive t := by
  have none_under_way : s.session.connection.receives ≠ [] := by
    intro none_
    simp [Server.receiveStep, Connection.receiveStep, none_] at step
  have running := alive.running
  cases h with
  | closed _ serial quiet => exact absurd quiet.receives none_under_way
  | replying _ _ _ _ _ serial quiet => exact absurd quiet.receives none_under_way
  | ended ended => simp [running] at ended
  | listening _ serial listening =>
    obtain ⟨result, moved, rfl⟩ := Option.map_eq_some_iff.mp step
    cases listening with
    | reading receives tracked =>
      have reads := Connection.receiveStep_reading parse serial.framed receives moved
      cases reads with
      | waits framed received messages unfinished =>
        refine ⟨running, ⟨framed, fun w waiting => unfinished⟩, .inl ?_⟩
        exact List.cons_ne_nil _ _
      | @message chunk i message framed received messages =>
        rw [serial.received] at received
        obtain ⟨j, m, value, valid, -, found⟩ :=
          next_request hp framed (received ▸ stream) messages
        simp only [value, ParseResult.received, Except.toOption, Option.map_some, Server.onReceive,
          valid]
        have moved := serial.withConnection { s.session.connection with
          inbound := i, receives := [] } framed received stream rfl rfl
        refine dispatch_alive (s := s.withConnection { s.session.connection with
          inbound := i, receives := [] }) hp protocol dumps answerable running
          ⟨framed, fun _ waiting => absurd waiting List.not_mem_nil⟩ moved rfl ?_
        simp only [Server.withConnection, messages, List.map_append, tracked, List.map_cons,
          List.map_nil, found]
      | failed => exact absurd rfl unfailing
    | posted receives valid tracked =>
      obtain ⟨rfl, rfl⟩ := Connection.receiveStep_posted parse receives moved
      simp only [Server.onReceive, valid]
      have moved := serial.withConnection { s.session.connection with receives := [] }
        serial.framed (serial.received.trans (List.append_nil bytes).symm) stream rfl rfl
      exact dispatch_alive (s := s.withConnection { s.session.connection with receives := [] })
        hp protocol dumps answerable running
        ⟨serial.framed, fun _ waiting => absurd waiting List.not_mem_nil⟩ moved rfl tracked

omit hp protocol dumps answerable in
theorem writeStep_alive {s t : Server} {n : Nat} (alive : Alive s)
    (step : s.writeStep dump n true = some t) : Alive t := by
  obtain ⟨⟨handler, c⟩, written, rfl⟩ := Option.map_eq_some_iff.mp step
  have kept : Connection.Kept (fun _ => .parseError) dump Waits := kept_waits
  have waits := kept.wrote n _ _ alive.waits written
  obtain ⟨-, rfl⟩ := Connection.of_writeStep dump written
  obtain ⟨inbound, receives⟩ := Connection.execute_frame dump
    s.session.connection.writeStrand.next
    { s.session.connection with writing := s.session.connection.writing.eraseIdx n }
  have goesOn := alive.goesOn.imp_left fun some_ => receives ▸ some_
  cases handler with
  | none => exact ⟨alive.running, waits, goesOn⟩
  | some handler => exact ⟨alive.running, waits, goesOn⟩

include hp in
theorem replyStep_alive {s t : Server} {n : Nat}
    (h : Phase parse dump stack service frames requests bytes s) (alive : Alive s)
    (step : s.replyStep parse dump stack n = some t) : Alive t := by
  have waits : Waits t.session.connection :=
    Server.replyStep_kept (fun t => Waits t.connection)
      (fun reply t => replySender_kept kept_waits reply t) alive.waits step
  have running := alive.running
  unfold Server.replyStep at step
  split at step
  · rename_i handler params continues rest found
    cases h with
    | listening _ _ _ replied => cases replied _ (List.mem_of_getElem? found)
    | closed _ _ _ replied => cases replied _ (List.mem_of_getElem? found)
    | ended ended => simp [running] at ended
    | replying _ deferred replied answered left serial quiet =>
      rw [deferred] at found
      obtain ⟨rfl, rfl⟩ := deferred_last replied found
      cases left with
      | last ok =>
        obtain ⟨object, terminal⟩ := replyContinues_replyObject (.inr rfl)
        obtain ⟨u, sent, -, listening⟩ := serial.sender_terminal hp quiet object terminal
        rw [call_valid answered ok (.inr rfl), sent] at step
        cases step
        exact ⟨running, waits, .inl listening.receives⟩
      | more more ok then_ =>
        obtain ⟨object, continues⟩ := replyContinues_replyObject (.inl more)
        obtain ⟨u, sent, -, -⟩ := serial.sender_continues quiet object continues
        rw [call_valid answered ok (.inl more), sent] at step
        cases step
        refine ⟨running, waits, .inr ⟨⟨handler, rest⟩, ?_, ?_⟩⟩
        · simp [deferred, List.set_append_right]
        · exact then_.ne_nil
  · cases step

include hp protocol dumps answerable in
theorem step_alive {s t : Server} {e : ServerEvent}
    (h : Phase parse dump stack service frames requests bytes s) (alive : Alive s)
    (unfailing : Unfailing e) (stream : bytes ++ chunkOf e <+: Delimited.encode 0 frames)
    (step : s.step parse dump stack service e = some t) : Alive t := by
  cases e with
  | receive n e =>
    simp only [Server.step, alive.running] at step
    refine receiveStep_alive hp protocol dumps answerable h alive ?_ stream step
    rintro rfl
    exact unfailing
  | written n success =>
    simp only [Unfailing] at unfailing
    subst unfailing
    simp only [Server.step, alive.running] at step
    exact writeStep_alive alive step
  | reply n =>
    simp only [Server.step, alive.running] at step
    exact replyStep_alive hp h alive step

omit hp protocol dumps answerable in
theorem init_alive (bufsiz : Nat) : Alive (Server.init parse bufsiz) := by
  have framed := Inbound.framed_new bufsiz
  have waits : Waits (Connection.new (κ := Unit) bufsiz) :=
    ⟨framed, fun _ waiting => absurd waiting List.not_mem_nil⟩
  have kept : Connection.Kept parse (fun _ => .ok "") Waits := kept_waits
  refine ⟨rfl, kept.receive () _ waits, .inl ?_⟩
  rcases framed.readNextMessage parse with ⟨read, -⟩ | ⟨message, i, -, cut, received, messages⟩
  · simp only [Server.init, ServerSession.start, ServerSession.new, Connection.new,
      Connection.asyncReceive, read]
    exact List.cons_ne_nil _ _
  · have whole := cut.received_eq
    rw [received, messages] at whole
    simp [Inbound.new] at whole

end Steps

end Varlink.ServerReplies
