import Varlink.JsonText
import Varlink.ServerSerial

/-! Runs of a server: whatever the order in which receives, writes and put-off
replies go on, the replies handed over are those of the first requests in order. -/

namespace Varlink.ServerReplies

open ServerSession

variable {parse : Bytes → ParseResult} {dump : Dump} {stack : Nat} {service : VarlinkService}
  {frames : List Bytes} {requests : List VarlinkMessage} {bytes : Bytes}

def chunkOf : ServerEvent → Bytes
  | .receive _ (.read chunk) => chunk
  | _ => []

def delivered (es : List ServerEvent) : Bytes := es.flatMap chunkOf

def Replied (deferred : List Deferred) : Prop := ∀ d ∈ deferred, d.replies = []

inductive Phase (parse : Bytes → ParseResult) (dump : Dump) (stack : Nat)
    (service : VarlinkService) (frames : List Bytes) (requests : List VarlinkMessage)
    (bytes : Bytes) (s : Server) : Prop where
  | listening (running : s.ended = none)
      (serial : Serial dump stack service frames bytes s.dispatched [] s.session)
      (listening : Listening parse dump s.dispatched s.session) (replied : Replied s.deferred)
  | closed (running : s.ended = none)
      (serial : Serial dump stack service frames bytes s.dispatched [] s.session)
      (quiet : Quiet parse dump s.dispatched s.session) (replied : Replied s.deferred)
  | replying {front : List Deferred} {d : Deferred} (running : s.ended = none)
      (deferred : s.deferred = front ++ [d]) (replied : Replied front)
      (answered : d.handler.mode ≠ .oneway)
      (left : RepliesLeft d.handler.mode (fun params => checkType dump stack d.handler.interface
        (.object params) d.handler.returnType = .ok ()) d.replies)
      (serial : Serial dump stack service frames bytes s.dispatched
        (d.replies.map fun r => replyObject d.handler.mode r.1 r.2) s.session)
      (quiet : Quiet parse dump s.dispatched s.session)
  | ended {todo : List Json} (ended : s.ended.isSome = true) (among : s.dispatched <+: requests)
      (serial : Serial dump stack service frames bytes s.dispatched todo s.session)

theorem Phase.serial {s : Server} (h : Phase parse dump stack service frames requests bytes s) :
    ∃ todo, Serial dump stack service frames bytes s.dispatched todo s.session := by
  cases h with
  | listening _ serial => exact ⟨_, serial⟩
  | closed _ serial => exact ⟨_, serial⟩
  | replying _ _ _ _ _ serial => exact ⟨_, serial⟩
  | ended _ _ serial => exact ⟨_, serial⟩

theorem tracked_isPrefix (hp : Pipelined parse dump frames requests) {i : Inbound}
    (framed : i.Framed) (stream : i.received <+: Delimited.encode 0 frames)
    {dispatched : List VarlinkMessage}
    (tracked : i.messages.map (requestOf parse dump) = dispatched.map some) :
    dispatched <+: requests := by
  have mapped := (framed.messages_prefix hp.clean stream).map (requestOf parse dump)
  rw [tracked, hp.parsed] at mapped
  simpa using mapped.filterMap id

theorem dispatch_phase (hp : Pipelined parse dump frames requests)
    (protocol : ServiceFollowsProtocol dump stack service)
    (dumps : ∀ reply ∈ answers dump stack service requests, ∃ text, dump reply = .ok text)
    {s : Server} {m : VarlinkMessage} (running : s.ended = none)
    (serial : Serial dump stack service frames bytes s.dispatched [] s.session)
    (receives : s.session.connection.receives = [])
    (tracked : s.session.connection.inbound.messages.map (requestOf parse dump) =
      (s.dispatched ++ [m]).map some)
    (replied : Replied s.deferred) :
    Phase parse dump stack service frames requests bytes (s.dispatch parse dump stack service m) ∧
      (s.dispatch parse dump stack service m).dispatched = s.dispatched ++ [m] := by
  have among : s.dispatched ++ [m] <+: requests :=
    tracked_isPrefix hp serial.framed (serial.received ▸ serial.stream) tracked
  have answered : m.mode ≠ .oneway := hp.answered m (among.subset (by simp))
  have owed : Serial dump stack service frames bytes (s.dispatched ++ [m])
      (requestAnswers dump stack service m s.dispatched.length) s.session :=
    { serial with
      handed_eq := by rw [serial.answered, answers_concat]
      floor := by simp only [List.dropLast_concat, serial.answered, List.prefix_rfl]
      dumps := fun reply member => by
        refine dumps reply ((answers_isPrefix dump stack service among).subset ?_)
        rw [answers_concat]
        exact List.mem_append_right _ member }
  have called := messageCall_called hp protocol answered owed ⟨receives, tracked⟩
  unfold Server.dispatch
  generalize messageCall dump stack (replySender parse dump) service m s.dispatched.length
    s.session = result at called
  cases called with
  | later answered left serial quiet =>
    exact ⟨.replying running rfl replied answered left serial quiet, rfl⟩
  | done serial listening =>
    refine ⟨.listening running serial listening fun d member => ?_, rfl⟩
    rcases List.mem_append.mp member with old | new
    · exact replied d old
    · exact List.mem_singleton.mp new ▸ rfl
  | error serial receives =>
    rcases receives with listening | quiet
    · exact ⟨.listening running serial listening replied, rfl⟩
    · exact ⟨.closed running serial quiet replied, rfl⟩
  | ended serial => exact ⟨.ended rfl among serial, rfl⟩

theorem receiveStep_phase (hp : Pipelined parse dump frames requests)
    (protocol : ServiceFollowsProtocol dump stack service)
    (dumps : ∀ reply ∈ answers dump stack service requests, ∃ text, dump reply = .ok text)
    {s t : Server} {n : Nat} {e : ReadEvent}
    (h : Phase parse dump stack service frames requests bytes s) (running : s.ended = none)
    (stream : bytes ++ chunkOf (.receive n e) <+: Delimited.encode 0 frames)
    (step : s.receiveStep parse dump stack service n e = some t) :
    Phase parse dump stack service frames requests (bytes ++ chunkOf (.receive n e)) t ∧
      (t.dispatched = s.dispatched ∨
        s.session.handed = answers dump stack service s.dispatched) := by
  have none_under_way : s.session.connection.receives ≠ [] := by
    intro none_
    simp [Server.receiveStep, Connection.receiveStep, none_] at step
  cases h with
  | closed _ serial quiet => exact absurd quiet.receives none_under_way
  | replying _ _ _ _ _ serial quiet => exact absurd quiet.receives none_under_way
  | ended ended => simp [running] at ended
  | listening _ serial listening replied =>
    refine ⟨?_, .inr serial.answered⟩
    obtain ⟨result, moved, rfl⟩ := Option.map_eq_some_iff.mp step
    cases listening with
    | reading receives tracked =>
      have reads := Connection.receiveStep_reading parse serial.framed receives moved
      cases reads with
      | @waits chunk i framed received messages unfinished =>
        rw [serial.received] at received
        have moved := serial.withConnection { s.session.connection with
          inbound := i, receives := [.reading i.buffer.window ()] } framed received stream rfl rfl
        refine .listening running moved (.reading rfl ?_) replied
        rw [← messages] at tracked
        exact tracked
      | @message chunk i message framed received messages =>
        rw [serial.received] at received
        obtain ⟨j, m, value, valid, -, found⟩ :=
          next_request hp framed (received ▸ stream) messages
        simp only [value, ParseResult.received, Except.toOption, Option.map_some, Server.onReceive,
          valid]
        have moved := serial.withConnection { s.session.connection with
          inbound := i, receives := [] } framed received stream rfl rfl
        refine (dispatch_phase (s := s.withConnection { s.session.connection with
          inbound := i, receives := [] }) hp protocol dumps running moved rfl ?_ replied).1
        simp only [Server.withConnection, messages, List.map_append, tracked, List.map_cons,
          List.map_nil, found]
      | failed =>
        have moved := serial.withConnection { s.session.connection with receives := [] }
          serial.framed (serial.received.trans (List.append_nil bytes).symm) stream rfl rfl
        exact .closed running moved ⟨rfl, tracked⟩ replied
    | posted receives valid tracked =>
      obtain ⟨rfl, rfl⟩ := Connection.receiveStep_posted parse receives moved
      simp only [Server.onReceive, valid]
      have moved := serial.withConnection { s.session.connection with receives := [] }
        serial.framed (serial.received.trans (List.append_nil bytes).symm) stream rfl rfl
      exact (dispatch_phase (s := s.withConnection { s.session.connection with receives := [] })
        hp protocol dumps running moved rfl tracked replied).1

theorem writeStep_phase {s t : Server} {n : Nat}
    (h : Phase parse dump stack service frames requests bytes s)
    (step : s.writeStep dump n true = some t) :
    Phase parse dump stack service frames requests bytes t ∧ t.dispatched = s.dispatched := by
  obtain ⟨⟨handler, c⟩, written, rfl⟩ := Option.map_eq_some_iff.mp step
  obtain ⟨todo, serial⟩ := h.serial
  obtain ⟨⟨job, -, rfl⟩, wire, inbound, receives⟩ := serial.wire.writeStep written
  refine ⟨?_, rfl⟩
  have moved {todo : List Json}
      (serial : Serial dump stack service frames bytes s.dispatched todo s.session) :
      Serial dump stack service frames bytes s.dispatched todo
        { s.session with connection := c } :=
    { serial with
      framed := inbound ▸ serial.framed
      received := inbound ▸ serial.received
      wire }
  cases h with
  | listening running serial listening replied =>
    refine .listening running (moved serial) ?_ replied
    cases listening with
    | reading waits tracked =>
      rw [← inbound] at waits
      exact .reading (receives.trans waits) (inbound ▸ tracked)
    | posted posted valid tracked =>
      exact .posted (receives.trans posted) valid (inbound ▸ tracked)
  | closed running serial quiet replied =>
    exact .closed running (moved serial) ⟨receives.trans quiet.receives, inbound ▸ quiet.tracked⟩
      replied
  | replying running deferred replied answered left serial quiet =>
    exact .replying running deferred replied answered left (moved serial)
      ⟨receives.trans quiet.receives, inbound ▸ quiet.tracked⟩
  | ended ended among serial => exact .ended ended among (moved serial)

theorem deferred_last {front : List Deferred} {d : Deferred} (replied : Replied front) {n : Nat}
    {handler : ReplyHandler} {reply : Object × Bool} {rest : List (Object × Bool)}
    (found : (front ++ [d])[n]? = some ⟨handler, reply :: rest⟩) :
    n = front.length ∧ d = ⟨handler, reply :: rest⟩ := by
  rcases Nat.lt_trichotomy n front.length with before | rfl | after
  · rw [List.getElem?_append_left before] at found
    cases replied _ (List.mem_of_getElem? found)
  · simpa using found
  · rw [List.getElem?_append_right (Nat.le_of_lt after)] at found
    have beyond : n - front.length ≠ 0 := by omega
    simp [beyond] at found

theorem replyStep_phase (hp : Pipelined parse dump frames requests) {s t : Server} {n : Nat}
    (h : Phase parse dump stack service frames requests bytes s) (running : s.ended = none)
    (step : s.replyStep parse dump stack n = some t) :
    Phase parse dump stack service frames requests bytes t ∧ t.dispatched = s.dispatched := by
  unfold Server.replyStep at step
  split at step
  · rename_i handler params continues rest found
    cases h with
    | listening _ _ _ replied => cases replied _ (List.mem_of_getElem? found)
    | closed _ _ _ replied => cases replied _ (List.mem_of_getElem? found)
    | ended ended => simp [running] at ended
    | replying _ deferred replied answered left serial quiet =>
      rw [deferred] at found
      obtain ⟨rfl, rfl⟩ := deferred_last replied found
      cases left with
      | last ok =>
        obtain ⟨object, terminal⟩ := replyContinues_replyObject (.inr rfl)
        obtain ⟨u, sent, serial, listening⟩ := serial.sender_terminal hp quiet object terminal
        rw [call_valid answered ok (.inr rfl), sent] at step
        cases step
        refine ⟨.listening running serial listening fun d member => ?_, rfl⟩
        simp only [deferred, List.set_append_right, Nat.le_refl, Nat.sub_self, List.set_cons_zero]
          at member
        rcases List.mem_append.mp member with old | new
        · exact replied d old
        · exact List.mem_singleton.mp new ▸ rfl
      | more more ok then_ =>
        obtain ⟨object, terminal⟩ := replyContinues_replyObject (.inl more)
        obtain ⟨u, sent, serial, quiet⟩ := serial.sender_continues quiet object terminal
        rw [call_valid answered ok (.inl more), sent] at step
        cases step
        refine ⟨.replying (d := ⟨handler, rest⟩) running ?_ replied answered then_
          serial quiet, rfl⟩
        simp [deferred, List.set_append_right]
  · cases step

/-- Writes do not fail. -/
def Succeeds : ServerEvent → Prop
  | .written _ success => success = true
  | _ => True

theorem step_phase (hp : Pipelined parse dump frames requests)
    (protocol : ServiceFollowsProtocol dump stack service)
    (dumps : ∀ reply ∈ answers dump stack service requests, ∃ text, dump reply = .ok text)
    {s t : Server} {e : ServerEvent} (h : Phase parse dump stack service frames requests bytes s)
    (succeeds : Succeeds e) (stream : bytes ++ chunkOf e <+: Delimited.encode 0 frames)
    (step : s.step parse dump stack service e = some t) :
    Phase parse dump stack service frames requests (bytes ++ chunkOf e) t ∧
      (t.dispatched = s.dispatched ∨
        s.session.handed = answers dump stack service s.dispatched) := by
  have running := Server.running_of_step step
  cases e with
  | receive n e =>
    simp only [Server.step, running] at step
    exact receiveStep_phase hp protocol dumps h running stream step
  | written n success =>
    simp only [Succeeds] at succeeds
    subst succeeds
    simp only [Server.step, running] at step
    obtain ⟨phase, dispatched⟩ := writeStep_phase h step
    simp only [chunkOf, List.append_nil]
    exact ⟨phase, .inl dispatched⟩
  | reply n =>
    simp only [Server.step, running] at step
    obtain ⟨phase, dispatched⟩ := replyStep_phase hp h running step
    simp only [chunkOf, List.append_nil]
    exact ⟨phase, .inl dispatched⟩

theorem init_phase (bufsiz : Nat) (hp : Pipelined parse dump frames requests) :
    Phase parse dump stack service frames requests [] (Server.init parse bufsiz) := by
  have fresh : Serial dump stack service frames [] [] [] (ServerSession.new bufsiz) :=
    { sendOk := rfl
      framed := Inbound.framed_new bufsiz
      received := rfl
      stream := List.nil_prefix
      wire := ⟨fun _ => rfl, rfl, nofun⟩
      handed_eq := rfl
      floor := List.prefix_refl _
      dumps := nofun }
  obtain ⟨t, started, serial, listening⟩ := fresh.start hp ⟨rfl, rfl⟩
  have session : (Server.init parse bufsiz).session = t := by rw [Server.init, started]
  exact .listening rfl (session ▸ serial) (session ▸ listening) nofun

theorem run_phase (hp : Pipelined parse dump frames requests)
    (protocol : ServiceFollowsProtocol dump stack service)
    (dumps : ∀ reply ∈ answers dump stack service requests, ∃ text, dump reply = .ok text)
    {bufsiz : Nat} {es : List ServerEvent} {s : Server}
    (h : Runs.run (Server.step parse dump stack service) (Server.init parse bufsiz) es = some s)
    (succeeds : ∀ e ∈ es, Succeeds e) (stream : delivered es <+: Delimited.encode 0 frames) :
    Phase parse dump stack service frames requests (delivered es) s := by
  refine Runs.run_history (Server.step parse dump stack service)
    (fun es s => (∀ e ∈ es, Succeeds e) → delivered es <+: Delimited.encode 0 frames →
      Phase parse dump stack service frames requests (delivered es) s)
    ?_ (fun _ _ => init_phase bufsiz hp) h succeeds stream
  intro past s e t ih step succeeds stream
  have longer : delivered (past ++ [e]) = delivered past ++ chunkOf e := by
    simp [delivered]
  rw [longer] at stream ⊢
  have phase := ih (fun f member => succeeds f (List.mem_append_left _ member))
    ((List.prefix_append _ _).trans stream)
  exact (step_phase hp protocol dumps phase (succeeds e (by simp)) stream step).1

theorem Phase.among (hp : Pipelined parse dump frames requests) {s : Server}
    (h : Phase parse dump stack service frames requests bytes s) : s.dispatched <+: requests := by
  cases h with
  | listening _ serial listening =>
    have stream := serial.received ▸ serial.stream
    cases listening with
    | reading _ tracked => exact tracked_isPrefix hp serial.framed stream tracked
    | posted _ _ tracked =>
      exact (List.prefix_append _ _).trans (tracked_isPrefix hp serial.framed stream tracked)
  | closed _ serial quiet =>
    exact tracked_isPrefix hp serial.framed (serial.received ▸ serial.stream) quiet.tracked
  | replying _ _ _ _ _ serial quiet =>
    exact tracked_isPrefix hp serial.framed (serial.received ▸ serial.stream) quiet.tracked
  | ended _ among => exact among

/-- In every reachable state the requests dispatched are the first ones of the
stream, the reply objects handed over are those of all but the last of them and
a first part of the last one's, the wire carries them in that order, and a further
request is dispatched only when every reply of the earlier ones is handed over. -/
theorem replies_in_order (parse : Bytes → ParseResult) (dump : Dump) (stack : Nat)
    (service : VarlinkService) (frames : List Bytes) (requests : List VarlinkMessage)
    (pipelined : Pipelined parse dump frames requests)
    (protocol : ServiceFollowsProtocol dump stack service)
    (dumps : ∀ reply ∈ answers dump stack service requests, ∃ text, dump reply = .ok text)
    (bufsiz : Nat) (es : List ServerEvent) (s : Server)
    (run : Runs.run (Server.step parse dump stack service) (Server.init parse bufsiz) es = some s)
    (succeeds : ∀ e ∈ es, Succeeds e) (stream : delivered es <+: Delimited.encode 0 frames) :
    s.dispatched <+: requests ∧
      answers dump stack service s.dispatched.dropLast <+: s.session.handed ∧
      s.session.handed <+: answers dump stack service s.dispatched ∧
      s.session.connection.written <+: s.session.handed ∧
      ∀ e t, Succeeds e → delivered (es ++ [e]) <+: Delimited.encode 0 frames →
        s.step parse dump stack service e = some t → t.dispatched ≠ s.dispatched →
          s.session.handed = answers dump stack service s.dispatched := by
  have phase := run_phase pipelined protocol dumps run succeeds stream
  obtain ⟨todo, serial⟩ := phase.serial
  refine ⟨phase.among pipelined, serial.floor, serial.ceiling, serial.wire.written_prefix, ?_⟩
  intro e t succeeds longer step dispatches
  have extended : delivered es ++ chunkOf e <+: Delimited.encode 0 frames := by
    simpa [delivered] using longer
  rcases (step_phase pipelined protocol dumps phase succeeds extended step).2 with same | answered
  · exact absurd same dispatches
  · exact answered

def twice : CallbackFunction := fun _ _ mode =>
  if mode = .more then .sendReply [] true fun _ => .returns [([], false)]
  else .sendReply [] false fun _ => .returns []

theorem lookupCall_twice {dump : Dump} {stack : Nat} {message : VarlinkMessage} {call : Nat}
    {handler : ReplyHandler} {behaviour : Behaviour}
    (found : lookupCall dump (stack + 1) (pingEntry twice) message call =
      .ok (handler, behaviour)) :
    FollowsProtocol handler.mode (fun params => checkType dump (stack + 1) handler.interface
      (.object params) handler.returnType = .ok ()) behaviour := by
  obtain ⟨m, callback, method, returned, registered, mode, interface, rfl⟩ :=
    lookupCall_found found
  have type : handler.returnType = { type := .struct [] } := by
    simp only [VarlinkInterface.method, VarlinkInterface.findMember] at method
    split at method
    · rename_i m' found'
      cases method
      cases List.mem_singleton.mp (List.mem_of_find?_eq_some found')
      exact (Except.ok.inj returned).symm
    · cases method
  have same : callback = twice := by
    simp only [InterfaceEntry.callback, pingEntry, List.lookup_cons] at registered
    cases named : message.method == "Ping" <;> simp [named] at registered
    exact registered.symm
  subst same
  have valid : checkType dump (stack + 1) handler.interface (.object []) handler.returnType =
      .ok () := by
    rw [type]
    rfl
  unfold twice
  split
  · rename_i more
    exact .more (mode ▸ more) valid (.later (.last valid))
  · exact .last valid rfl

theorem twice_followsProtocol (dump : Dump) (stack : Nat) :
    ServiceFollowsProtocol dump (stack + 1) (pingService twice) := by
  intro message call entry handler behaviour answered known found
  obtain rfl : entry = pingEntry twice :=
    List.mem_singleton.mp (List.mem_of_find?_eq_some known)
  exact lookupCall_twice found

open JsonText (frame encoded parsePing basicCall moreCall)

theorem replies_in_order_twice :
    let es : List ServerEvent := [.receive 0 (.read (frame basicCall ++ frame moreCall)),
      .receive 0 .run, .written 0 true, .reply 1, .written 0 true]
    ∃ s, Runs.run (Server.step parsePing JsonText.dump 1 (pingService twice))
        (Server.init parsePing 128) es = some s ∧ s.dispatched.length = 2 ∧
      s.session.handed <+: answers JsonText.dump 1 (pingService twice) s.dispatched := by
  intro es
  have enabled : (Runs.run (Server.step parsePing JsonText.dump 1 (pingService twice))
      (Server.init parsePing 128) es).any (·.dispatched.length == 2) = true := by decide +kernel
  obtain ⟨s, hs, two⟩ := (Option.any_eq_true _ _).mp enabled
  have order := replies_in_order parsePing JsonText.dump 1 (pingService twice)
    [encoded basicCall, encoded moreCall] [⟨basicCall, .basic⟩, ⟨moreCall, .more⟩]
    ⟨by decide +kernel, by rfl, by decide +kernel⟩ (twice_followsProtocol _ 0)
    (fun _ _ => ⟨_, rfl⟩) 128 es s hs (by simp [es, Succeeds]) (by decide +kernel)
  exact ⟨s, hs, by simpa using two, order.2.2.1⟩

end Varlink.ServerReplies
