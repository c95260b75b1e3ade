import Mathlib.Data.List.Perm.Basic
import Varlink.RemoteCalls

/-! Calls come to an end: while nothing fails and every message fits into the buffer of its
receiver, the client and its server get on until all calls are answered, and the number
of events that this takes is bounded. -/

namespace Varlink

namespace Receive

def isPosted {κ : Type} : Receive κ → Bool
  | .posted .. => true
  | .reading .. => false

end Receive

namespace Connection
variable {κ : Type} {parse : Bytes → ParseResult} {dump : Dump}

/-- What a connection has done: bytes read, messages cut out and passed on, and
messages written. -/
def activity (c : Connection κ) : Int :=
  c.inbound.received.length + 2 * c.inbound.messages.length -
    c.receives.countP Receive.isPosted + c.written.length - c.writing.length

theorem readNextMessage_counts (parse : Bytes → ParseResult) (i : Inbound) :
    ∃ result j, i.readNextMessage parse = (result, j) ∧ j.received = i.received ∧
      j.messages.length = i.messages.length + result.toList.length := by
  unfold Inbound.readNextMessage
  rcases i.buffer.readNextMessage parse with ⟨_ | ⟨message, result⟩, b⟩
  · exact ⟨none, _, rfl, rfl, rfl⟩
  · exact ⟨some result, _, rfl, rfl, by simp⟩

theorem asyncReceive_activity (handler : κ) (c : Connection κ) :
    c.activity ≤ (asyncReceive parse handler c).2.activity := by
  obtain ⟨result, i, read, received, messages⟩ := readNextMessage_counts parse c.inbound
  simp only [asyncReceive, read]
  cases result with
  | none =>
    simp only [activity, received, messages, List.countP_append, List.countP_singleton,
      Receive.isPosted, Option.toList_none, List.length_nil, Bool.false_eq_true, if_false]
    omega
  | some result =>
    cases result with
    | exception what =>
      simp only [ParseResult.received, activity, received, messages, Option.toList_some,
        List.length_singleton]
      omega
    | _ =>
      simp only [ParseResult.received, activity, received, messages, List.countP_append,
        List.countP_singleton, Receive.isPosted, Option.toList_some, List.length_singleton, if_true]
      omega

theorem execute_activity (next : Option (Json × κ) × ManualStrand (Json × κ)) (c : Connection κ) :
    c.activity ≤ (execute dump next c).2.activity := by
  rcases next with ⟨_ | job, strand⟩
  · exact Int.le_refl _
  · simp only [execute, write]
    cases dump job.1 with
    | error e => exact Int.le_refl _
    | ok text =>
      simp only [activity, List.length_append, List.length_singleton]
      omega

theorem writeStep_activity {n : Nat} {c d : Connection κ} {handler : Option κ}
    (wrote : c.writeStep dump n = some (handler, d)) : c.activity + 1 ≤ d.activity := by
  obtain ⟨under, same⟩ := of_writeStep dump wrote
  have more : activity { c with writing := c.writing.eraseIdx n } ≤ d.activity :=
    same ▸ execute_activity c.writeStrand.next { c with writing := c.writing.eraseIdx n }
  have one : c.activity + 1 = activity { c with writing := c.writing.eraseIdx n } := by
    simp only [activity, List.length_eraseIdx, under, if_true]
    omega
  exact Int.le_trans (Int.le_of_eq one) more

theorem onRead_activity (w : ReadWindow) (chunk : Bytes) (handler : κ) (c : Connection κ) :
    c.activity + chunk.length ≤ (onRead parse w chunk handler c).2.activity := by
  obtain ⟨result, i, read, received, messages⟩ :=
    readNextMessage_counts parse (c.inbound.fill w chunk)
  have filled : c.activity + chunk.length ≤ activity { c with inbound := i } := by
    simp only [activity, received, messages, Inbound.fill, List.length_append]
    omega
  simp only [onRead, read]
  cases result with
  | none => exact Int.le_trans filled (asyncReceive_activity handler _)
  | some result => exact filled

def gain : ReadEvent → Int
  | .run => 1
  | .read chunk => chunk.length
  | .error => 0

theorem activity_eraseIdx {n : Nat} {c : Connection κ} {receive : Receive κ}
    (found : c.receives[n]? = some receive) :
    activity { c with receives := c.receives.eraseIdx n } =
      c.activity + if receive.isPosted then 1 else 0 := by
  obtain ⟨within, rfl⟩ := List.getElem?_eq_some_iff.mp found
  have same := (List.getElem_cons_eraseIdx_perm within).countP_eq Receive.isPosted
  rw [List.countP_cons] at same
  simp only [activity, ← same]
  split
  · omega
  · omega

theorem receiveStep_activity {n : Nat} {e : ReadEvent} {c d : Connection κ}
    {result : Option (κ × Received)} (h : c.receiveStep parse n e = some (result, d)) :
    c.activity + gain e ≤ d.activity := by
  unfold receiveStep at h
  split at h
  · next received handler found =>
    cases h
    exact Int.le_of_eq (activity_eraseIdx found).symm
  · next w handler chunk found =>
    obtain ⟨-, same⟩ := Option.ite_none_right_eq_some.mp h
    obtain rfl : (onRead parse w chunk handler
        { c with receives := c.receives.eraseIdx n }).2 = d :=
      congrArg Prod.snd (Option.some.inj same)
    refine Int.le_trans (Int.le_of_eq ?_) (onRead_activity w chunk handler
      { c with receives := c.receives.eraseIdx n })
    rw [activity_eraseIdx found]
    simp [gain, Receive.isPosted]
  · next w handler found =>
    cases h
    exact Int.le_of_eq (activity_eraseIdx found).symm
  · cases h

theorem kept_activity (least : Int) :
    Kept parse dump fun c : Connection κ => least ≤ c.activity where
  receive handler c h := Int.le_trans h (asyncReceive_activity handler c)
  send message handler c h := Int.le_trans h (execute_activity _ c)
  wrote n c r h wrote := by
    obtain ⟨handler, d⟩ := r
    have more := writeStep_activity wrote
    exact Int.le_trans h (Int.le_trans (Int.le_add_one (Int.le_refl _)) more)

end Connection

namespace RemoteCalls

open Varlink.Frame (texts)

variable {parse : Bytes → ParseResult} {dump : Dump} {stack : Nat} {service : VarlinkService}
  {calls : Nat → RemoteCall}

def Brings : ReadEvent → Prop
  | .run => True
  | .read chunk => chunk ≠ []
  | .error => False

/-- An event with which one of the ends gets on with the calls made so far. -/
def GetsOn : Event → Prop
  | .client .call => False
  | .client (.receive _ e more) => Brings e ∧ more = 0
  | .client (.written _ success more) => success = true ∧ more = 0
  | .server (.receive _ e) => Brings e
  | .server (.written _ success) => success = true
  | .server (.reply _) => True

theorem Brings.one_le {e : ReadEvent} (h : Brings e) : 1 ≤ Connection.gain e := by
  cases e with
  | run => exact Int.le_refl 1
  | read chunk =>
    have some_ := List.length_pos_iff.mpr h
    simp only [Connection.gain]
    omega
  | error => exact absurd h id

theorem Brings.ne_error {e : ReadEvent} (h : Brings e) : e ≠ .error := by
  rintro rfl
  exact h

theorem GetsOn.succeeds {e : Event} (h : GetsOn e) : Succeeds e := by
  rcases e with (_ | ⟨n, e, more⟩ | ⟨n, success, more⟩) | (⟨n, e⟩ | ⟨n, success⟩ | n)
  · exact absurd h id
  · exact Brings.ne_error h.1
  · exact h.1
  · cases e with
    | error => exact absurd h id
    | _ => trivial
  · exact h
  · trivial

theorem client_activity {c d : AsyncClient} {spec : Nat → CallSpec} {e : ClientEvent}
    (getsOn : GetsOn (.client e)) (taken : c.step parse dump spec e = some d) :
    c.connection.activity + 1 ≤ d.connection.activity ∧ d.issued = c.issued := by
  have kept : Connection.Kept parse dump fun d : Connection Nat =>
    c.connection.activity + 1 ≤ d.activity := Connection.kept_activity _
  cases e with
  | call => exact absurd getsOn id
  | receive n e more =>
    obtain ⟨brings, rfl⟩ := getsOn
    obtain ⟨⟨result, connection⟩, received, rfl⟩ := Option.map_eq_some_iff.mp taken
    have gained : c.connection.activity + Connection.gain e ≤ connection.activity :=
      Connection.receiveStep_activity received
    have moved : c.connection.activity + 1 ≤ connection.activity := by
      have := brings.one_le
      omega
    rcases result with _ | ⟨call, reply⟩
    · exact ⟨moved, rfl⟩
    · exact ⟨AsyncClient.onReply_kept (c := { c with connection }) kept call reply 0 moved,
        AsyncClient.onReply_silent call reply⟩
  | written n success more =>
    obtain ⟨rfl, rfl⟩ := getsOn
    obtain ⟨⟨result, connection⟩, wrote, rfl⟩ := Option.map_eq_some_iff.mp taken
    have moved := Connection.writeStep_activity wrote
    rcases result with _ | call
    · exact ⟨moved, rfl⟩
    · exact ⟨AsyncClient.onWritten_kept (c := { c with connection }) kept call true 0 moved,
        AsyncClient.onWritten_silent call true⟩

def sessionActivity (s : ServerSession) : Int := s.connection.activity + s.handed.length

theorem start_activity (s : ServerSession) :
    sessionActivity s ≤ sessionActivity (s.start parse).2 :=
  Int.add_le_add_right (Connection.asyncReceive_activity () s.connection) _

theorem asyncSendReply_activity (reply : Json) (s : ServerSession) :
    sessionActivity s + 1 ≤ sessionActivity (s.asyncSendReply dump reply).2 := by
  have more : s.connection.activity ≤ (s.connection.asyncSend dump reply ()).2.activity :=
    Connection.execute_activity _ _
  simp only [sessionActivity, ServerSession.asyncSendReply, List.length_append,
    List.length_singleton]
  omega

theorem replySender_hands {reply : Json} {s : ServerSession} (sendOk : s.sendEc = false)
    (object : reply.isObject = true) :
    sessionActivity s + 1 ≤ sessionActivity (ServerSession.replySender parse dump reply s).2 := by
  have handed : sessionActivity s + 1 ≤ sessionActivity (s.asyncSendReply dump reply).2 :=
    asyncSendReply_activity reply s
  simp only [ServerSession.replySender, sendOk, object, if_true, Bool.false_eq_true, if_false]
  split
  · next sent => rwa [sent] at handed
  · next sent =>
    rw [sent] at handed
    split
    · exact handed
    · exact handed
    · exact Int.le_trans handed (start_activity _)

theorem replySender_activity (least : Int) (reply : Json) (s : ServerSession)
    (h : least ≤ sessionActivity s) :
    least ≤ sessionActivity (ServerSession.replySender parse dump reply s).2 := by
  cases sendOk : s.sendEc with
  | true => simpa only [ServerSession.replySender, sendOk, if_true] using h
  | false =>
    cases object : reply.isObject with
    | true =>
      have more : sessionActivity s + 1 ≤
          sessionActivity (ServerSession.replySender parse dump reply s).2 :=
        replySender_hands sendOk object
      omega
    | false =>
      simp only [ServerSession.replySender, sendOk, object, Bool.false_eq_true, if_false]
      split
      · exact h
      · exact h
      · exact Int.le_trans h (start_activity s)

theorem replyStep_activity {frames : List Bytes} {requests : List VarlinkMessage} {bytes : Bytes}
    {s t : Server} {n : Nat} (running : s.ended = none)
    (h : ServerReplies.Phase parse dump stack service frames requests bytes s)
    (taken : s.replyStep parse dump stack n = some t) :
    sessionActivity s.session + 1 ≤ sessionActivity t.session := by
  unfold Server.replyStep at taken
  split at taken
  · rename_i handler params continues rest found
    cases h with
    | listening _ _ _ replied => cases replied _ (List.mem_of_getElem? found)
    | closed _ _ _ replied => cases replied _ (List.mem_of_getElem? found)
    | ended ended => simp [running] at ended
    | replying _ deferred replied answered left serial quiet =>
      rw [deferred] at found
      obtain ⟨rfl, rfl⟩ := ServerReplies.deferred_last replied found
      obtain ⟨ok, allowed⟩ := left.head
      obtain ⟨object, -⟩ := ServerReplies.replyContinues_replyObject allowed
      have hands : sessionActivity s.session + 1 ≤ sessionActivity (handler.call dump stack
          (ServerSession.replySender parse dump) params continues s.session).2 := by
        rw [ServerReplies.call_valid answered ok allowed]
        exact replySender_hands serial.sendOk object
      split at taken
      all_goals
        next sent =>
          cases taken
          rwa [sent] at hands
  · cases taken

theorem server_activity {frames : List Bytes} {requests : List VarlinkMessage} {bytes : Bytes}
    {s t : Server} {e : ServerEvent} (getsOn : GetsOn (.server e))
    (h : ServerReplies.Phase parse dump stack service frames requests bytes s)
    (taken : s.step parse dump stack service e = some t) :
    sessionActivity s.session + 1 ≤ sessionActivity t.session := by
  have running := Server.running_of_step taken
  have sender : ∀ reply u, sessionActivity s.session + 1 ≤ sessionActivity u →
      sessionActivity s.session + 1 ≤
        sessionActivity (ServerSession.replySender parse dump reply u).2 :=
    replySender_activity _
  cases e with
  | receive n e =>
    simp only [Server.step, running] at taken
    obtain ⟨⟨result, connection⟩, received, rfl⟩ := Option.map_eq_some_iff.mp taken
    have gained := Connection.receiveStep_activity received
    have moved : sessionActivity s.session + 1 ≤
        sessionActivity { s.session with connection } := by
      have := Brings.one_le getsOn
      simp only [sessionActivity]
      omega
    rcases result with _ | ⟨handler, _ | j⟩
    · exact moved
    · simp only [Server.onReceive]
      split
      · exact moved
      · exact Server.dispatch_kept (fun t => sessionActivity s.session + 1 ≤ sessionActivity t)
          sender _ (s.withConnection connection) moved
    · exact moved
  | written n success =>
    simp only [Server.step, running] at taken
    obtain ⟨⟨result, connection⟩, wrote, rfl⟩ := Option.map_eq_some_iff.mp taken
    have gained := Connection.writeStep_activity wrote
    have moved : sessionActivity s.session + 1 ≤
        sessionActivity { s.session with connection } := by
      simp only [sessionActivity]
      omega
    simp only [GetsOn] at getsOn
    subst getsOn
    rcases result with _ | handler
    · exact moved
    · exact moved
  | reply n =>
    simp only [Server.step, running] at taken
    exact replyStep_activity running h taken

def activity (s : Peers) : Int := s.client.connection.activity + sessionActivity s.server.session

theorem step_activity {limit : Nat} {s t : Peers} {e : Event}
    (h : Conversing parse dump stack service calls limit s) (getsOn : GetsOn e)
    (taken : step parse dump stack service calls s e = some t) :
    activity s + 1 ≤ activity t ∧ t.client.issued = s.client.issued := by
  cases e with
  | client e =>
    simp only [step, Option.ite_none_right_eq_some, Option.map_eq_some_iff] at taken
    obtain ⟨-, client, stepped, rfl⟩ := taken
    obtain ⟨more, issued⟩ := client_activity getsOn stepped
    refine ⟨?_, issued⟩
    simp only [activity]
    omega
  | server e =>
    simp only [step, Option.ite_none_right_eq_some, Option.map_eq_some_iff] at taken
    obtain ⟨-, server, stepped, rfl⟩ := taken
    have more := server_activity getsOn h.server stepped
    refine ⟨?_, rfl⟩
    simp only [activity]
    omega

theorem gain_nonneg (e : ReadEvent) : 0 ≤ Connection.gain e := by
  cases e with
  | run => exact Int.le_of_lt Int.zero_lt_one
  | read chunk => exact Int.natCast_nonneg _
  | error => exact Int.le_refl 0

theorem server_nonneg {s t : Server} {e : ServerEvent} (h : 0 ≤ sessionActivity s.session)
    (stepped : s.step parse dump stack service e = some t) : 0 ≤ sessionActivity t.session := by
  refine Server.step_kept (fun t => 0 ≤ sessionActivity t) (replySender_activity 0) h ?_ ?_ stepped
  · intro n e r received
    obtain ⟨result, d⟩ := r
    have more := Connection.receiveStep_activity received
    have := gain_nonneg e
    simp only [sessionActivity] at h ⊢
    omega
  · intro n r sendEc wrote
    obtain ⟨handler, d⟩ := r
    have more := Connection.writeStep_activity wrote
    simp only [sessionActivity] at h ⊢
    omega

theorem server_init_nonneg (bufsiz : Nat) :
    0 ≤ sessionActivity (Server.init parse bufsiz).session := by
  have more : sessionActivity (ServerSession.new bufsiz) ≤
      sessionActivity ((ServerSession.new bufsiz).start parse).2 := start_activity _
  exact more

theorem step_nonneg {s t : Peers} {e : Event}
    (h : 0 ≤ s.client.connection.activity ∧ 0 ≤ sessionActivity s.server.session)
    (taken : step parse dump stack service calls s e = some t) :
    0 ≤ t.client.connection.activity ∧ 0 ≤ sessionActivity t.server.session := by
  obtain ⟨client, server⟩ := h
  cases e with
  | client e =>
    simp only [step, Option.ite_none_right_eq_some, Option.map_eq_some_iff] at taken
    obtain ⟨-, next, stepped, rfl⟩ := taken
    refine ⟨AsyncClient.step_kept (Connection.kept_activity 0) client ?_ stepped, server⟩
    intro n e r received
    obtain ⟨result, d⟩ := r
    exact Int.le_trans (Int.add_nonneg client (gain_nonneg e))
      (Connection.receiveStep_activity received)
  | server e =>
    simp only [step, Option.ite_none_right_eq_some, Option.map_eq_some_iff] at taken
    obtain ⟨-, next, stepped, rfl⟩ := taken
    exact ⟨client, server_nonneg server stepped⟩

theorem init_nonneg (clientBufsiz serverBufsiz : Nat) :
    0 ≤ (init parse clientBufsiz serverBufsiz).client.connection.activity ∧
      0 ≤ sessionActivity (init parse clientBufsiz serverBufsiz).server.session :=
  ⟨Int.le_refl 0, server_init_nonneg serverBufsiz⟩

def bound (dump : Dump) (stack : Nat) (service : VarlinkService) (calls : Nat → RemoteCall)
    (n : Nat) : Nat :=
  let requests := ClientPairing.requests (fun k => (calls k).spec) n
  let answers := (List.range n).flatMap (replies dump stack service calls)
  3 * (Delimited.encode 0 (texts dump requests)).length +
    3 * (Delimited.encode 0 (texts dump answers)).length + n + 2 * answers.length

theorem activity_le {κ : Type} {c : Connection κ} (framed : c.inbound.Framed) :
    c.activity ≤ 3 * c.inbound.received.length + c.written.length := by
  have cut : c.inbound.messages.length ≤ c.inbound.received.length := by
    rw [framed.received_eq, List.length_append]
    exact Nat.le_trans (Delimited.length_le_encode 0 _) (Nat.le_add_right _ _)
  simp only [Connection.activity]
  omega

theorem Serving.activity_le {limit : Nat} {written : List Json} {s : Server}
    (conversation : Conversation dump stack service calls parse)
    (h : Serving parse dump stack service calls limit written s)
    (requests : written <+: ClientPairing.requests (fun k => (calls k).spec) limit) :
    sessionActivity s.session ≤
      3 * (Delimited.encode 0
        (texts dump (ClientPairing.requests (fun k => (calls k).spec) limit))).length +
      2 * ((List.range limit).flatMap (replies dump stack service calls)).length := by
  obtain ⟨todo, serial⟩ := h.server.serial
  have server := RemoteCalls.activity_le serial.framed
  have heard := (h.toServer.trans (encode_texts_isPrefix requests)).length_le
  have answers := (h.answers conversation).length_le
  have handed := (serial.ceiling.trans (ServerReplies.answers_isPrefix dump stack service
    (h.server.among (conversation.pipelined limit)))).length_le
  rw [answers_messages] at handed answers
  simp only [sessionActivity]
  omega

theorem activity_le_bound (conversation : Conversation dump stack service calls parse) {s : Peers}
    (h : Conversing parse dump stack service calls s.client.issued s) :
    activity s ≤ bound dump stack service calls s.client.issued := by
  have client := activity_le h.stream.framed
  have requests := h.requests (Nat.le_refl _)
  have server := h.toServing.activity_le conversation requests
  have told := (h.toClient.trans (encode_texts_isPrefix (h.answers conversation))).length_le
  rw [answers_messages] at told
  have issued := requests.length_le
  rw [ClientPairing.requests, List.length_map, List.length_range] at issued
  simp only [activity, bound]
  omega

/-- Every request and every reply, with its NUL, fits into the buffer of its receiver. -/
structure Fits (dump : Dump) (stack : Nat) (service : VarlinkService) (calls : Nat → RemoteCall)
    (clientBufsiz serverBufsiz : Nat) : Prop where
  requests : ∀ k, ∀ frame ∈ texts dump [(calls k).message.json], frame.length < serverBufsiz
  replies : ∀ k, ∀ frame ∈ texts dump (replies dump stack service calls k),
    frame.length < clientBufsiz

structure Room (clientBufsiz serverBufsiz : Nat) (s : Peers) : Prop where
  client : clientBufsiz ≤ s.client.connection.inbound.buffer.readbuf.length
  server : serverBufsiz ≤ s.server.session.connection.inbound.buffer.readbuf.length

theorem Room.step {clientBufsiz serverBufsiz : Nat} {s t : Peers} {e : Event}
    (h : Room clientBufsiz serverBufsiz s)
    (taken : step parse dump stack service calls s e = some t) :
    Room clientBufsiz serverBufsiz t := by
  obtain ⟨client, server⟩ := step_later taken
  exact ⟨Nat.le_trans h.client client.room, Nat.le_trans h.server server.room⟩

theorem Room.init (clientBufsiz serverBufsiz : Nat) :
    Room clientBufsiz serverBufsiz (init parse clientBufsiz serverBufsiz) where
  client := by simp [RemoteCalls.init, AsyncClient.new, Connection.new, Inbound.new,
    ReceiveBuffer.new]
  server := by
    have later : Connection.Later (Connection.new serverBufsiz)
        ((Connection.new serverBufsiz).asyncReceive parse ()).2 :=
      Connection.asyncReceive_later () _
    refine Nat.le_trans (Nat.le_of_eq ?_) later.room
    simp [Connection.new, Inbound.new, ReceiveBuffer.new]

theorem exists_byte {b : ReceiveBuffer} {received : Bytes} {messages frames : List Bytes}
    {bufsiz : Nat} (read : Delimited.Reads 0 received messages b.contents)
    (end_le : b.readEnd ≤ b.readbuf.length) (clean : ∀ f ∈ frames, 0 ∉ f)
    (short : ∀ f ∈ frames, f.length < bufsiz) (room : bufsiz ≤ b.readbuf.length)
    (arrives : received <+: Delimited.encode 0 frames)
    (more : received ≠ Delimited.encode 0 frames) :
    0 < b.window.size ∧ ∃ byte, received ++ [byte] <+: Delimited.encode 0 frames := by
  obtain ⟨frame, among⟩ : ∃ frame, frame ∈ frames := by
    refine List.exists_mem_of_ne_nil frames ?_
    rintro rfl
    exact more (List.prefix_nil.mp arrives)
  have unread := read.rest_length_le clean arrives (n := bufsiz - 1) fun f member => by
    have := short f member
    omega
  have least := short frame among
  rw [ReceiveBuffer.contents_length end_le] at unread
  refine ⟨by simp only [ReceiveBuffer.window]; omega, ?_⟩
  obtain ⟨rest, whole⟩ := arrives
  cases rest with
  | nil => exact absurd (by rw [← whole, List.append_nil]) more
  | cons byte rest => exact ⟨byte, rest, by rw [← whole, List.append_assoc]; rfl⟩

theorem exists_read {κ : Type} {c : Connection κ} {handler : κ} {frames : List Bytes} {bufsiz : Nat}
    (framed : c.inbound.Framed) (clean : ∀ f ∈ frames, 0 ∉ f)
    (short : ∀ f ∈ frames, f.length < bufsiz) (room : bufsiz ≤ c.inbound.buffer.readbuf.length)
    (receives : c.receives = [.reading c.inbound.buffer.window handler])
    (unfinished : 0 ∉ c.inbound.buffer.contents)
    (arrives : c.inbound.received <+: Delimited.encode 0 frames)
    (more : c.inbound.received ≠ Delimited.encode 0 frames) :
    ∃ byte r, c.inbound.received ++ [byte] <+: Delimited.encode 0 frames ∧
      c.receiveStep parse 0 (.read [byte]) = some r := by
  obtain ⟨offered, byte, next⟩ := exists_byte ⟨framed.received_eq, framed.clean, unfinished⟩
    framed.end_le clean short room arrives more
  have taken : c.receiveStep parse 0 (.read [byte]) = some (Connection.onRead parse
      c.inbound.buffer.window [byte] handler { c with receives := [] }) := by
    simp only [Connection.receiveStep, receives, List.getElem?_cons_zero,
      List.eraseIdx_cons_zero, List.length_singleton]
    exact if_pos offered
  exact ⟨byte, _, next, taken⟩

theorem step_of_client {s : Peers} {d : AsyncClient} {e : ClientEvent}
    (arrives : Arrives dump s.server.session.connection.written s.client.connection.inbound
      (ClientPairing.chunkOf e))
    (taken : s.client.step parse dump (fun k => (calls k).spec) e = some d) :
    step parse dump stack service calls s (.client e) = some { s with client := d } := by
  simp only [step, arrives, if_true, taken, Option.map_some]

theorem step_of_server {s : Peers} {t : Server} {e : ServerEvent}
    (arrives : Arrives dump s.client.connection.written s.server.session.connection.inbound
      (ServerReplies.chunkOf e))
    (taken : s.server.step parse dump stack service e = some t) :
    step parse dump stack service calls s (.server e) = some { s with server := t } := by
  simp only [step, arrives, if_true, taken, Option.map_some]

theorem arrives_nil {written : List Json} {i : Inbound}
    (h : i.received <+: Delimited.encode 0 (texts dump written)) : Arrives dump written i [] := by
  rw [Arrives, List.append_nil]
  exact h

theorem receive_enabled {s : Server} {n : Nat} {e : ReadEvent}
    {r : Option (Unit × Received) × Connection Unit} (running : s.ended = none)
    (received : s.session.connection.receiveStep parse n e = some r) :
    ∃ t, s.step parse dump stack service (.receive n e) = some t := by
  simp only [Server.step, running, Server.receiveStep, received]
  exact ⟨_, rfl⟩

theorem written_enabled {s : Server} (running : s.ended = none)
    (busy : s.session.connection.writing ≠ []) :
    ∃ t, s.step parse dump stack service (.written 0 true) = some t := by
  obtain ⟨job, rest, writing⟩ := List.exists_cons_of_ne_nil busy
  simp only [Server.step, running, Server.writeStep, Connection.writeStep, writing,
    List.getElem?_cons_zero]
  exact ⟨_, rfl⟩

theorem reply_enabled {s : Server} {n : Nat} {d : Deferred} (running : s.ended = none)
    (found : s.deferred[n]? = some d) (left : d.replies ≠ []) :
    ∃ t, s.step parse dump stack service (.reply n) = some t := by
  obtain ⟨handler, replies⟩ := d
  obtain ⟨⟨params, continues⟩, rest, rfl⟩ := List.exists_cons_of_ne_nil left
  simp only [Server.step, running, Server.replyStep, found]
  dsimp only [Option.isSome_none]
  rw [if_neg Bool.false_ne_true]
  split <;> exact ⟨_, rfl⟩

theorem posted_enabled {κ : Type} {c : Connection κ} {received : Received} {handler : κ}
    (receives : c.receives = [.posted received handler]) :
    c.receiveStep parse 0 .run = some (some (handler, received), { c with receives := [] }) := by
  simp only [Connection.receiveStep, receives, List.getElem?_cons_zero, List.eraseIdx_cons_zero]

theorem client_receive_enabled {c : AsyncClient} {spec : Nat → CallSpec} {n : Nat} {e : ReadEvent}
    {r : Option (Nat × Received) × Connection Nat}
    (received : c.connection.receiveStep parse n e = some r) :
    ∃ d, c.step parse dump spec (.receive n e 0) = some d := by
  simp only [AsyncClient.step, received]
  exact ⟨_, rfl⟩

theorem client_written_enabled {c : AsyncClient} {spec : Nat → CallSpec}
    (busy : c.connection.writing ≠ []) :
    ∃ d, c.step parse dump spec (.written 0 true 0) = some d := by
  obtain ⟨job, rest, writing⟩ := List.exists_cons_of_ne_nil busy
  simp only [AsyncClient.step, Connection.writeStep, writing, List.getElem?_cons_zero]
  exact ⟨_, rfl⟩

theorem mem_texts_of_isPrefix {written longer : List Json} (h : written <+: longer) {frame : Bytes}
    (member : frame ∈ texts dump written) : frame ∈ texts dump longer := by
  obtain ⟨later, rfl⟩ := h
  rw [Frame.texts_append]
  exact List.mem_append_left _ member

theorem mem_texts_requests {n : Nat} {frame : Bytes}
    (member : frame ∈ texts dump (ClientPairing.requests (fun k => (calls k).spec) n)) :
    ∃ k, frame ∈ texts dump [(calls k).message.json] := by
  induction n with
  | zero => exact absurd member List.not_mem_nil
  | succ n ih =>
    rw [ClientPairing.requests_succ, Frame.texts_append] at member
    rcases List.mem_append.mp member with earlier | last
    · exact ih earlier
    · exact ⟨n, last⟩

theorem mem_texts_answers {n : Nat} {frame : Bytes}
    (member : frame ∈ texts dump (ServerReplies.answers dump stack service (messages calls n))) :
    ∃ k, frame ∈ texts dump (replies dump stack service calls k) := by
  rw [texts_answers] at member
  obtain ⟨k, -, among⟩ := List.mem_flatMap.mp member
  exact ⟨k, among⟩

/-- A session that cannot get on has been passed every request that is written, and has
written every reply. -/
theorem Serving.getsOn {limit n bufsiz : Nat} {s : Server}
    (conversation : Conversation dump stack service calls parse)
    (short : ∀ k, ∀ frame ∈ texts dump [(calls k).message.json], frame.length < bufsiz)
    (h : Serving parse dump stack service calls limit
      (ClientPairing.requests (fun k => (calls k).spec) n) s)
    (room : bufsiz ≤ s.session.connection.inbound.buffer.readbuf.length) :
    (∃ e t, GetsOn (.server e) ∧
      Arrives dump (ClientPairing.requests (fun k => (calls k).spec) n)
        s.session.connection.inbound (ServerReplies.chunkOf e) ∧
      s.step parse dump stack service e = some t) ∨
      s.dispatched = messages calls n ∧ s.session.connection.written =
        ServerReplies.answers dump stack service (messages calls n) := by
  have running := h.alive.running
  have silent := arrives_nil h.toServer
  by_cases busy : s.session.connection.writing = []
  · cases h.server with
    | ended ended => simp [running] at ended
    | closed _ _ quiet replied =>
      rcases h.alive.goesOn with listens | ⟨d, member, left⟩
      · exact absurd quiet.receives listens
      · exact absurd (replied d member) left
    | @replying front d _ deferred replied answered left serial quiet =>
      have found : s.deferred[front.length]? = some d := by simp [deferred]
      obtain ⟨t, taken⟩ := reply_enabled running found left.ne_nil
      exact .inl ⟨.reply front.length, t, trivial, silent, taken⟩
    | listening _ serial listening replied =>
      cases listening with
      | posted receives valid tracked =>
        obtain ⟨t, taken⟩ := receive_enabled running (posted_enabled receives)
        exact .inl ⟨.receive 0 .run, t, trivial, silent, taken⟩
      | reading receives tracked =>
        have unfinished := h.alive.waits.unfinished _ (receives ▸ List.mem_singleton_self _)
        have pipelined := conversation.pipelined n
        by_cases all : s.session.connection.inbound.received = Delimited.encode 0
            (texts dump (ClientPairing.requests (fun k => (calls k).spec) n))
        · obtain ⟨wire, flows⟩ := h.flowing fun reply member =>
            conversation.dumps_answers limit reply ((serial.ceiling.trans
              (ServerReplies.answers_isPrefix dump stack service (h.server.among
                (conversation.pipelined limit)))).subset member)
          have idle : s.session.connection.writeStrand.executing = false :=
            Bool.eq_false_iff.mpr fun running => flows running busy
          have whole := wire.written_eq
          rw [wire.ordered idle, List.map_nil, List.append_nil, serial.answered] at whole
          have parsed := pipelined.parsed
          rw [← messages_of_complete serial.framed pipelined.clean all unfinished, tracked]
            at parsed
          have passed : s.dispatched = messages calls n :=
            (List.map_inj_right fun _ _ => Option.some.inj).mp parsed
          exact .inr ⟨passed, by rw [whole, passed]⟩
        · obtain ⟨byte, r, arrives, received⟩ := exists_read serial.framed pipelined.clean
            (fun f member => by
              obtain ⟨k, text⟩ := mem_texts_requests member
              exact short k f text)
            room receives unfinished h.toServer all
          obtain ⟨t, taken⟩ := receive_enabled running received
          exact .inl ⟨.receive 0 (.read [byte]), t, List.cons_ne_nil _ _, arrives, taken⟩
  · obtain ⟨t, taken⟩ := written_enabled running busy
    exact .inl ⟨.written 0 true, t, rfl, silent, taken⟩

/-- Every call made is passed on, and its handler is told every reply. -/
structure Completed (dump : Dump) (stack : Nat) (service : VarlinkService)
    (calls : Nat → RemoteCall) (s : Peers) : Prop where
  dispatched : s.server.dispatched = messages calls s.client.issued
  handled : s.client.log.map (·.1) = results dump stack service calls s.client.issued

section Progress
variable {clientBufsiz serverBufsiz : Nat} {s : Peers}
variable (conversation : Conversation dump stack service calls parse)
  (fits : Fits dump stack service calls clientBufsiz serverBufsiz)
  (h : Conversing parse dump stack service calls s.client.issued s)
  (room : Room clientBufsiz serverBufsiz s)
include conversation fits h room

omit fits room in
theorem completed_of_free {k : Nat} (next : s.client.issued = k)
    (wire : ClientPairing.WireIdle (fun k => (calls k).spec) k s.client.connection)
    (messages : s.client.connection.inbound.messages =
      ClientPairing.framesUpTo (fun k => texts dump (replies dump stack service calls k)) k)
    (logged : ClientPairing.Logged (fun k => (calls k).spec)
      (ClientPairing.expectedUpTo parse (fun k => (calls k).spec)
        (fun k => texts dump (replies dump stack service calls k)) k) s.client) :
    Completed dump stack service calls s := by
  subst next
  have handled : Handled parse (fun k => (calls k).spec)
      (fun k => texts dump (replies dump stack service calls k)) s.client s.client.issued
      s.client.issued [] :=
    { log := by rw [logged.handled, List.map_nil, List.append_nil]
      read := by simp only [messages, List.append_nil, List.prefix_rfl]
      replied := List.nil_prefix
      least := Nat.le_refl _
      most := Nat.le_succ _
      issued := Nat.le_refl _
      written := wire.written }
  obtain ⟨d, reached, sent, dispatched, -⟩ := h.reached conversation handled
  obtain rfl : d = s.client.issued := Nat.le_antisymm sent reached
  exact ⟨dispatched, by rw [logged.handled, conversation.expectedUpTo_eq]⟩

theorem getsOn : Completed dump stack service calls s ∨
    ∃ e t, GetsOn e ∧ step parse dump stack service calls s e = some t := by
  have silent := arrives_nil h.toClient
  have enabled {e : ClientEvent} (getsOn : GetsOn (.client e))
      (arrives : Arrives dump s.server.session.connection.written s.client.connection.inbound
        (ClientPairing.chunkOf e))
      (taken : ∃ d, s.client.step parse dump (fun k => (calls k).spec) e = some d) :
      ∃ e t, GetsOn e ∧ step parse dump stack service calls s e = some t := by
    obtain ⟨d, taken⟩ := taken
    exact ⟨.client e, _, getsOn, step_of_client arrives taken⟩
  cases h.client with
  | @turn k turn _ messages logged =>
    cases turn with
    | free next _ wire => exact .inl (completed_of_free conversation h next wire messages logged)
    | sending holds wire =>
      have busy : s.client.connection.writing ≠ [] := by
        rw [wire.writing]
        exact List.cons_ne_nil _ _
      exact .inr (enabled (e := .written 0 true 0) ⟨rfl, rfl⟩ silent (client_written_enabled busy))
  | posted replying parsed receives messages =>
    exact .inr (enabled (e := .receive 0 .run 0) ⟨trivial, rfl⟩ silent
      (client_receive_enabled (posted_enabled receives)))
  | @reading k got rest replying more receives unfinished messages =>
    refine .inr ?_
    have written := replying.wire.written
    rcases (written ▸ h.toServing).getsOn conversation fits.requests room.server with
      ⟨e, t, goesOn, arrives, taken⟩ | ⟨-, answered⟩
    · exact ⟨.server e, _, goesOn, step_of_server (written ▸ arrives) taken⟩
    have among {frame : Bytes}
        (member : frame ∈ texts dump s.server.session.connection.written) :
        ∃ k, frame ∈ texts dump (replies dump stack service calls k) :=
      mem_texts_answers (mem_texts_of_isPrefix (h.answers conversation) member)
    have clean : ∀ frame ∈ texts dump s.server.session.connection.written, 0 ∉ frame := by
      intro frame member
      obtain ⟨k, text⟩ := among member
      exact (conversation.answers k).clean frame text
    by_cases all : s.client.connection.inbound.received =
        Delimited.encode 0 (texts dump s.server.session.connection.written)
    · -- the server has served this call, and the client has read all of it
      exfalso
      have whole := messages_of_complete h.stream.framed clean all unfinished
      rw [messages, answered, texts_answers, ClientPairing.framesUpTo,
        ClientPairing.framesUpTo, ClientPairing.flatMap_range_succ, replying.split] at whole
      have none_ := List.append_cancel_left whole
      exact more (List.append_right_eq_self.mp none_.symm)
    · obtain ⟨byte, r, arrives, received⟩ := exists_read h.stream.framed clean
        (fun f member => by
          obtain ⟨k, text⟩ := among member
          exact fits.replies k f text)
        room.client receives unfinished h.toClient all
      exact enabled (e := .receive 0 (.read [byte]) 0) ⟨List.cons_ne_nil _ _, rfl⟩ arrives
        (client_receive_enabled received)

end Progress

/-- What holds between two events of a run whose messages fit, once `calls` calls are made. -/
structure Going (parse : Bytes → ParseResult) (dump : Dump) (stack : Nat)
    (service : VarlinkService) (calls : Nat → RemoteCall) (clientBufsiz serverBufsiz issued : Nat)
    (s : Peers) : Prop where
  conversing : Conversing parse dump stack service calls issued s
  room : Room clientBufsiz serverBufsiz s
  issued_eq : s.client.issued = issued

namespace Going
variable {clientBufsiz serverBufsiz issued : Nat} {s t : Peers} {e : Event}
variable (conversation : Conversation dump stack service calls parse)
  (fits : Fits dump stack service calls clientBufsiz serverBufsiz)
include conversation

theorem of_run {es : List Event}
    (run : Runs.run (RemoteCalls.step parse dump stack service calls)
      (RemoteCalls.init parse clientBufsiz serverBufsiz) es = some s)
    (succeeds : ∀ e ∈ es, Succeeds e) :
    Going parse dump stack service calls clientBufsiz serverBufsiz s.client.issued s where
  conversing := .of_run conversation run succeeds (Nat.le_refl _)
  room := Runs.run_invariant _ (fun _ _ _ h taken => h.step taken)
    (.init clientBufsiz serverBufsiz) run
  issued_eq := rfl

theorem step (h : Going parse dump stack service calls clientBufsiz serverBufsiz issued s)
    (getsOn : GetsOn e) (taken : RemoteCalls.step parse dump stack service calls s e = some t) :
    Going parse dump stack service calls clientBufsiz serverBufsiz issued t := by
  obtain ⟨-, same⟩ := step_activity h.conversing getsOn taken
  exact ⟨h.conversing.step conversation (Nat.le_of_eq h.issued_eq) getsOn.succeeds taken,
    h.room.step taken, same.trans h.issued_eq⟩

theorem activity_le (h : Going parse dump stack service calls clientBufsiz serverBufsiz issued s) :
    activity s ≤ bound dump stack service calls issued := by
  obtain ⟨conversing, -, rfl⟩ := h
  exact activity_le_bound conversation conversing

include fits

theorem goesOn (h : Going parse dump stack service calls clientBufsiz serverBufsiz issued s) :
    Completed dump stack service calls s ∨
      ∃ e t, GetsOn e ∧ RemoteCalls.step parse dump stack service calls s e = some t := by
  obtain ⟨conversing, room, rfl⟩ := h
  exact getsOn conversation fits conversing room

theorem exists_completed
    (h : Going parse dump stack service calls clientBufsiz serverBufsiz issued s) :
    ∃ fs t, (∀ f ∈ fs, GetsOn f) ∧
      Runs.run (RemoteCalls.step parse dump stack service calls) s fs = some t ∧
      Going parse dump stack service calls clientBufsiz serverBufsiz issued t ∧
      Completed dump stack service calls t :=
  Runs.exists_run_of_goesOn _
    (Going parse dump stack service calls clientBufsiz serverBufsiz issued) activity
    (fun _ _ _ h getsOn taken => h.step conversation getsOn taken)
    (fun _ _ _ h getsOn taken => (step_activity h.conversing getsOn taken).1)
    (fun _ h => h.activity_le conversation) (fun _ h => h.goesOn conversation fits) h

end Going

/-- Where nothing fails and every message fits, a call that is not completed never waits for
nothing: from each reachable state the events with which an end gets on come to an end after
a bounded number of them, wherever they do all calls made are completed, and some sequence
of such events leads there. -/
theorem calls_complete (parse : Bytes → ParseResult) (dump : Dump) (stack : Nat)
    (service : VarlinkService) (calls : Nat → RemoteCall)
    (conversation : Conversation dump stack service calls parse) (clientBufsiz serverBufsiz : Nat)
    (fits : Fits dump stack service calls clientBufsiz serverBufsiz) (es : List Event) (s : Peers)
    (run : Runs.run (step parse dump stack service calls) (init parse clientBufsiz serverBufsiz)
      es = some s) (succeeds : ∀ e ∈ es, Succeeds e) :
    (∀ fs t, Runs.run (step parse dump stack service calls) s fs = some t → (∀ f ∈ fs, GetsOn f) →
      fs.length ≤ bound dump stack service calls s.client.issued ∧
        t.client.issued = s.client.issued ∧
        (Completed dump stack service calls t ∨
          ∃ f u, GetsOn f ∧ step parse dump stack service calls t f = some u)) ∧
    ∃ fs t, (∀ f ∈ fs, GetsOn f) ∧
      Runs.run (step parse dump stack service calls) s fs = some t ∧
      t.client.issued = s.client.issued ∧ Completed dump stack service calls t := by
  have start : Going parse dump stack service calls clientBufsiz serverBufsiz s.client.issued s :=
    .of_run conversation run succeeds
  obtain ⟨client, server⟩ := Runs.run_invariant _ (fun _ _ _ h taken => step_nonneg h taken)
    (init_nonneg clientBufsiz serverBufsiz) run
  refine ⟨fun fs t run all => ?_, ?_⟩
  · obtain ⟨final, longer⟩ := Runs.run_grows _
      (Going parse dump stack service calls clientBufsiz serverBufsiz s.client.issued) activity
      (fun _ _ _ h getsOn taken => h.step conversation getsOn taken)
      (fun _ _ _ h getsOn taken => (step_activity h.conversing getsOn taken).1) start all run
    have most := final.activity_le conversation
    have least : 0 ≤ activity s := Int.add_nonneg client server
    exact ⟨by omega, final.issued_eq, final.goesOn conversation fits⟩
  · obtain ⟨fs, t, all, run, final, completed⟩ := start.exists_completed conversation fits
    exact ⟨fs, t, all, run, final.issued_eq, completed⟩

open JsonText

theorem pingFits : Fits JsonText.dump 1 (pingService ServerReplies.twice) pingCalls 64 64 := by
  have short : ∀ v ∈ pings, (encoded v).length < 64 := by decide +kernel
  constructor
  · intro k frame member
    obtain rfl : frame = encoded (pingCalls k).message.json := by
      simpa [texts, JsonText.dump, encoded, Except.toOption] using member
    cases k with
    | zero => exact short moreCall List.mem_cons_self
    | succ k => exact short basicCall (List.mem_cons_of_mem _ List.mem_cons_self)
  · intro k frame member
    obtain ⟨v, among, written⟩ := List.mem_filterMap.mp member
    obtain rfl : frame = encoded v := by
      simpa [JsonText.dump, encoded, Except.toOption, eq_comm] using written
    rw [replies_ping] at among
    refine short v ?_
    split at among
    · exact List.mem_cons_of_mem _ (List.mem_cons_of_mem _ (List.mem_append_left _ among))
    · simp_all [pings]

theorem calls_complete_twice :
    ∃ s, Runs.run (step parsePing JsonText.dump 1 (pingService ServerReplies.twice) pingCalls)
        (init parsePing 64 64) [.client .call, .client .call] = some s ∧ s.client.issued = 2 ∧
      ∃ fs t, Runs.run
          (step parsePing JsonText.dump 1 (pingService ServerReplies.twice) pingCalls) s fs =
        some t ∧
        t.client.issued = 2 ∧
        Completed JsonText.dump 1 (pingService ServerReplies.twice) pingCalls t := by
  have enabled : (Runs.run
      (step parsePing JsonText.dump 1 (pingService ServerReplies.twice) pingCalls)
      (init parsePing 64 64) [.client .call, .client .call]).any (fun s =>
        s.client.issued == 2) = true := by decide +kernel
  obtain ⟨s, run, two⟩ := (Option.any_eq_true _ _).mp enabled
  have two : s.client.issued = 2 := eq_of_beq two
  obtain ⟨-, fs, t, -, gets, issued, completed⟩ := calls_complete parsePing JsonText.dump 1
    (pingService ServerReplies.twice) pingCalls pingConversation 64 64 pingFits
    [.client .call, .client .call] s run (by simp [Succeeds, ClientPairing.Succeeds])
  exact ⟨s, run, two, fs, t, gets, issued.trans two, completed⟩

end RemoteCalls

end Varlink
