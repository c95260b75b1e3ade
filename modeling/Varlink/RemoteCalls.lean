import Varlink.ClientOrder
import Varlink.JsonText
import Varlink.ServerProgress
import Varlink.SendReceive
import Varlink.RequestMessage

/-! An asynchronous client and the session that serves it, at the two ends of one
connection. Each end reads what the other end has written, in pieces of any size
and at any time: the calls of the client come out as if its methods were called at
the client itself. -/

namespace Varlink.RemoteCalls

open SendReceive (Inverts)
open Varlink.Frame (texts)

/-- The arguments of `async_call` and of its siblings. The message is built before the
call is queued, and building it throws for other parameters. -/
structure RemoteCall where
  method : String
  parameters : Json
  mode : Callmode
  object : parameters.isNull = true ∨ parameters.isObject = true

namespace RemoteCall

def message (c : RemoteCall) : VarlinkMessage :=
  match VarlinkMessage.build c.method c.parameters c.mode with
  | .ok message => message
  | .error _ => ⟨.null, c.mode⟩

def spec (c : RemoteCall) : CallSpec := ⟨c.mode, c.message.json⟩

theorem message_carries (c : RemoteCall) :
    VarlinkMessage.Carries c.message c.method c.parameters c.mode := by
  obtain ⟨message, built, carries⟩ := VarlinkMessage.build_carries c.method c.mode c.object
  rw [RemoteCall.message, built]
  exact carries

theorem ofJson_message (c : RemoteCall) (dump : Dump) :
    VarlinkMessage.ofJson dump c.message.json = .ok c.message :=
  c.message_carries.ofJson_eq c.object dump

end RemoteCall

structure Peers where
  client : AsyncClient
  server : Server

inductive Event where
  | client (e : ClientEvent)
  | server (e : ServerEvent)

section Steps
variable (parse : Bytes → ParseResult) (dump : Dump) (stack : Nat) (service : VarlinkService)
  (calls : Nat → RemoteCall)

def init (clientBufsiz serverBufsiz : Nat) : Peers where
  client := .new clientBufsiz
  server := .init parse serverBufsiz

/-- What arrives at one end is what the other end has written, and not yet read. -/
def Arrives (written : List Json) (i : Inbound) (chunk : Bytes) : Prop :=
  i.received ++ chunk <+: Delimited.encode 0 (texts dump written)

instance (written : List Json) (i : Inbound) (chunk : Bytes) :
    Decidable (Arrives dump written i chunk) :=
  inferInstanceAs (Decidable (_ <+: _))

def step (s : Peers) : Event → Option Peers
  | .client e =>
    if Arrives dump s.server.session.connection.written s.client.connection.inbound
        (ClientPairing.chunkOf e) then
      (s.client.step parse dump (fun k => (calls k).spec) e).map fun client => { s with client }
    else none
  | .server e =>
    if Arrives dump s.client.connection.written s.server.session.connection.inbound
        (ServerReplies.chunkOf e) then
      (s.server.step parse dump stack service e).map fun server => { s with server }
    else none

/-- No operation of the transport fails. -/
def Succeeds : Event → Prop
  | .client e => ClientPairing.Succeeds e
  | .server e => ServerReplies.Unfailing e

end Steps

section Local
variable (dump : Dump) (stack : Nat) (service : VarlinkService) (calls : Nat → RemoteCall)

/-- The replies to the `k`-th call, if the method is called where it is implemented. -/
def replies (k : Nat) : List Json :=
  ServerReplies.requestAnswers dump stack service (calls k).message k

def handled (mode : Callmode) (k : Nat) (reply : Json) : Invocation :=
  ⟨k, ClientPairing.errorOf reply, reply.member "parameters",
    mode == .more && !(ClientPairing.errorOf reply).isError &&
      (replyContinues reply matches .ok true)⟩

/-- What the handlers of the first `n` calls are told, in order. -/
def results (n : Nat) : List Invocation :=
  (List.range n).flatMap fun k => (replies dump stack service calls k).map
    (handled (calls k).mode k)

def messages (n : Nat) : List VarlinkMessage := (List.range n).map fun k => (calls k).message

/-- Each call is answered, by callbacks that keep to the protocol, and the package
writes requests and replies down as it reads them. -/
structure Conversation (parse : Bytes → ParseResult) : Prop where
  answered : ∀ k, (calls k).mode ≠ .oneway
  protocol : ServerReplies.ServiceFollowsProtocol dump stack service
  answerable : ∀ k, ServerReplies.Answerable dump stack service (calls k).message k
  request : ∀ k, Inverts parse dump (calls k).message.json
  inverts : ∀ k, ∀ reply ∈ replies dump stack service calls k, Inverts parse dump reply

end Local

/-- The replies to one request: continued ones in more mode, and then the last one. -/
inductive Exchange (mode : Callmode) : List Json → Prop where
  | last {reply : Json} (reply_ : ClientPairing.IsReply reply)
      (terminal : replyContinues reply = .ok false) : Exchange mode [reply]
  | more {reply : Json} {rest : List Json} (more : mode = .more)
      (reply_ : ClientPairing.IsReply reply) (noError : reply.contains "error" = false)
      (continues : replyContinues reply = .ok true) (then_ : Exchange mode rest) :
      Exchange mode (reply :: rest)

section Exchanges
variable {dump : Dump} {stack : Nat} {service : VarlinkService} {mode : Callmode}

theorem exchange_errorObject (what : String) (params : Json) :
    Exchange mode [errorObject what params] :=
  .last ⟨rfl, fun _ => rfl⟩ rfl

theorem exchange_last (params : Object) :
    Exchange mode [ServerReplies.replyObject mode params false] := by
  refine .last ?_ (ServerReplies.replyContinues_replyObject (.inr rfl)).2
  unfold ServerReplies.replyObject
  split <;> exact ⟨rfl, fun contra => absurd contra Bool.false_ne_true⟩

theorem exchange_more {rest : List Json} (more : mode = .more) (params : Object)
    (then_ : Exchange mode rest) :
    Exchange mode (ServerReplies.replyObject mode params true :: rest) := by
  have continues : replyContinues (ServerReplies.replyObject mode params true) = .ok true :=
    (ServerReplies.replyContinues_replyObject (.inl more)).2
  rw [ServerReplies.replyObject, if_pos more] at continues ⊢
  exact .more more ⟨rfl, fun contra => absurd contra Bool.false_ne_true⟩ rfl continues then_

theorem exchange_of_repliesLeft {valid : Object → Prop} {left : List (Object × Bool)}
    (h : ServerReplies.RepliesLeft mode valid left) :
    Exchange mode (left.map fun r => ServerReplies.replyObject mode r.1 r.2) := by
  induction h with
  | last ok => exact exchange_last _
  | more more ok then_ ih => exact exchange_more more _ ih

theorem exchange_of_followsProtocol {valid : Object → Prop} {behaviour : Behaviour}
    (h : ServerReplies.FollowsProtocol mode valid behaviour) (method : String) :
    Exchange mode (ServerReplies.behaviourAnswers mode method behaviour) := by
  induction h with
  | @throws e caught standard =>
    rw [ServerReplies.behaviourAnswers, ServerReplies.errorAnswer]
    cases e with
    | systemError => exact absurd rfl caught
    | foreign => exact absurd rfl standard
    | _ => exact exchange_errorObject _ _
  | more more ok then_ ih => exact exchange_more more _ ih
  | last ok then_ =>
    rw [ServerReplies.behaviourAnswers, then_]
    exact exchange_last _
  | later left => exact exchange_of_repliesLeft left

theorem exchange_of_requestAnswers
    (protocol : ServerReplies.ServiceFollowsProtocol dump stack service)
    {message : VarlinkMessage} (answered : message.mode ≠ .oneway) {call : Nat}
    (replied : ServerReplies.requestAnswers dump stack service message call ≠ []) :
    Exchange message.mode (ServerReplies.requestAnswers dump stack service message call) := by
  unfold ServerReplies.requestAnswers at replied ⊢
  split
  · exact exchange_errorObject _ _
  · next entry known =>
    simp only [known] at replied
    cases found : lookupCall dump stack entry message call with
    | error stop =>
      simp only [found] at replied ⊢
      cases stop with
      | thrown e =>
        dsimp only at replied ⊢
        unfold ServerReplies.errorAnswer at replied ⊢
        split
        · exact exchange_errorObject _ _
        · next none_ => simp [none_] at replied
      | _ => exact absurd rfl replied
    | ok p =>
      obtain ⟨handler, behaviour⟩ := p
      have follows := protocol message call entry handler behaviour answered known found
      rw [lookupCall_mode found] at follows
      exact exchange_of_followsProtocol follows _

theorem Exchange.flags {exchanged : List Json} (h : Exchange mode exchanged) :
    ∀ reply ∈ exchanged,
      ClientPairing.IsReply reply ∧ ∃ continues, replyContinues reply = .ok continues := by
  induction h with
  | last reply_ terminal => exact List.forall_mem_singleton.mpr ⟨reply_, _, terminal⟩
  | more _ reply_ _ continues _ ih => exact List.forall_mem_cons.mpr ⟨⟨reply_, _, continues⟩, ih⟩

theorem Exchange.answers {parse : Bytes → ParseResult} {exchanged : List Json}
    (h : Exchange mode exchanged) (answered : mode ≠ .oneway)
    (inverts : ∀ reply ∈ exchanged, Inverts parse dump reply) :
    ClientPairing.Answers parse mode (texts dump exchanged) := by
  induction h with
  | @last reply reply_ terminal =>
    obtain ⟨text, written, clean, parsed⟩ := inverts reply List.mem_cons_self
    rw [Frame.texts_cons_of_ok written]
    cases mode with
    | oneway => exact absurd rfl answered
    | more => exact .last clean parsed reply_ (.inr terminal)
    | basic => exact .single (.inl rfl) clean parsed reply_
    | upgrade => exact .single (.inr rfl) clean parsed reply_
  | @more reply rest more reply_ noError continues then_ ih =>
    obtain ⟨text, written, clean, parsed⟩ := inverts reply List.mem_cons_self
    rw [Frame.texts_cons_of_ok written]
    subst more
    exact .more clean parsed reply_ noError continues
      (ih fun r member => inverts r (List.mem_cons_of_mem reply member))

end Exchanges

theorem encode_texts_isPrefix {dump : Dump} {written longer : List Json} (h : written <+: longer) :
    Delimited.encode 0 (texts dump written) <+: Delimited.encode 0 (texts dump longer) := by
  obtain ⟨later, rfl⟩ := h
  rw [Frame.texts_append, Delimited.encode_append]
  exact List.prefix_append _ _

section Streams
variable {parse : Bytes → ParseResult} {dump : Dump} {stack : Nat} {service : VarlinkService}
  {calls : Nat → RemoteCall}

theorem messages_succ (n : Nat) :
    messages calls (n + 1) = messages calls n ++ [(calls n).message] := by
  simp [messages, List.range_succ]

theorem messages_length (n : Nat) : (messages calls n).length = n := by simp [messages]

theorem eq_messages_of_isPrefix {l : List VarlinkMessage} {n : Nat} (h : l <+: messages calls n) :
    ∃ d ≤ n, l = messages calls d := by
  have short : l.length ≤ n := by
    have within := h.length_le
    rwa [messages_length] at within
  refine ⟨l.length, short, ?_⟩
  rw [List.prefix_iff_eq_take.mp h, messages, ← List.map_take, List.take_range, messages,
    Nat.min_eq_left short, List.length_map, List.length_range]

theorem requests_isPrefix {m n : Nat} (h : m ≤ n) :
    ClientPairing.requests (fun k => (calls k).spec) m <+:
      ClientPairing.requests (fun k => (calls k).spec) n := by
  obtain ⟨later, rfl⟩ := Nat.exists_eq_add_of_le h
  rw [ClientPairing.requests, ClientPairing.requests, List.range_add, List.map_append]
  exact List.prefix_append _ _

theorem answers_messages (n : Nat) :
    ServerReplies.answers dump stack service (messages calls n) =
      (List.range n).flatMap (replies dump stack service calls) := by
  induction n with
  | zero => rfl
  | succ n ih =>
    rw [messages_succ, ServerReplies.answers_concat, ih, messages_length,
      ClientPairing.flatMap_range_succ]
    rfl

theorem texts_answers (n : Nat) :
    texts dump (ServerReplies.answers dump stack service (messages calls n)) =
      ClientPairing.framesUpTo (fun k => texts dump (replies dump stack service calls k)) n := by
  induction n with
  | zero => rfl
  | succ n ih =>
    rw [messages_succ, ServerReplies.answers_concat, Frame.texts_append, ih, messages_length,
      ClientPairing.framesUpTo, ClientPairing.framesUpTo, ClientPairing.flatMap_range_succ]
    rfl

namespace Conversation
variable (h : Conversation dump stack service calls parse)
include h

theorem exchange (k : Nat) : Exchange (calls k).mode (replies dump stack service calls k) := by
  have mode := (calls k).message_carries.mode_eq
  have exchanged := exchange_of_requestAnswers h.protocol
    (mode ▸ h.answered k : (calls k).message.mode ≠ .oneway) (h.answerable k).replied
  rwa [mode] at exchanged

theorem answers (k : Nat) : ClientPairing.Answers parse (calls k).spec.mode
    (texts dump (replies dump stack service calls k)) :=
  (h.exchange k).answers (h.answered k) (h.inverts k)

theorem dumps (k : Nat) : ∃ text, dump (calls k).spec.request = .ok text := by
  obtain ⟨text, written, -⟩ := h.request k
  exact ⟨text, written⟩

theorem dumps_answers (n : Nat) :
    ∀ reply ∈ ServerReplies.answers dump stack service (messages calls n),
      ∃ text, dump reply = .ok text := by
  rw [answers_messages]
  intro reply member
  obtain ⟨k, -, among⟩ := List.mem_flatMap.mp member
  obtain ⟨text, written, -⟩ := h.inverts k reply among
  exact ⟨text, written⟩

theorem texts_requests_succ (n : Nat) : ∃ frame, 0 ∉ frame ∧
    ServerReplies.requestOf parse dump frame = some (calls n).message ∧
    texts dump (ClientPairing.requests (fun k => (calls k).spec) (n + 1)) =
      texts dump (ClientPairing.requests (fun k => (calls k).spec) n) ++ [frame] := by
  obtain ⟨text, written, clean, parsed⟩ := h.request n
  refine ⟨Frame.bytes text, clean, ?_, ?_⟩
  · rw [ServerReplies.requestOf, parsed]
    simp only [(calls n).ofJson_message, Except.toOption]
  · rw [ClientPairing.requests_succ, Frame.texts_append]
    congr 1
    exact Frame.texts_cons_of_ok written []

theorem pipelined (n : Nat) : ServerReplies.Pipelined parse dump
    (texts dump (ClientPairing.requests (fun k => (calls k).spec) n)) (messages calls n) := by
  induction n with
  | zero => exact ⟨List.forall_mem_nil _, rfl, List.forall_mem_nil _⟩
  | succ n ih =>
    obtain ⟨frame, clean, request, same⟩ := h.texts_requests_succ n
    rw [same, messages_succ]
    refine ⟨List.forall_mem_append.mpr ⟨ih.clean, List.forall_mem_singleton.mpr clean⟩, ?_,
      List.forall_mem_append.mpr ⟨ih.answered, List.forall_mem_singleton.mpr ?_⟩⟩
    · rw [List.map_append, List.map_append, ih.parsed, List.map_singleton, List.map_singleton,
        request]
    · rw [(calls n).message_carries.mode_eq]
      exact h.answered n

theorem answerable_messages {limit : Nat} (k : Nat) (m : VarlinkMessage)
    (at_ : (messages calls limit)[k]? = some m) :
    ServerReplies.Answerable dump stack service m k := by
  simp only [messages, List.getElem?_map, Option.map_eq_some_iff] at at_
  obtain ⟨k', ranged, rfl⟩ := at_
  obtain ⟨-, rfl⟩ := List.getElem?_eq_some_iff.mp ranged
  simpa using h.answerable k

theorem expectedUpTo_eq (n : Nat) :
    ClientPairing.expectedUpTo parse (fun k => (calls k).spec)
        (fun k => texts dump (replies dump stack service calls k)) n =
      results dump stack service calls n := by
  have one (k : Nat) : ClientPairing.expected parse (fun k => (calls k).spec)
      (fun k => texts dump (replies dump stack service calls k)) k =
        (replies dump stack service calls k).map (handled (calls k).mode k) := by
    rw [ClientPairing.expected_answered (h.answered k)]
    have inverts := h.inverts k
    generalize replies dump stack service calls k = exchanged at inverts ⊢
    induction exchanged with
    | nil => rfl
    | cons reply rest ih =>
      obtain ⟨text, written, -, parsed⟩ := inverts reply List.mem_cons_self
      rw [Frame.texts_cons_of_ok written, List.map_cons, List.map_cons,
        ih fun r member => inverts r (List.mem_cons_of_mem reply member),
        ClientPairing.replyInvocation_value parsed]
      rfl
  unfold ClientPairing.expectedUpTo results
  exact List.flatMap_congr fun k _ => one k

end Conversation

theorem messages_of_complete {i : Inbound} (framed : i.Framed) {frames : List Bytes}
    (clean : ∀ f ∈ frames, 0 ∉ f) (all : i.received = Delimited.encode 0 frames)
    (unfinished : 0 ∉ i.buffer.contents) : i.messages = frames := by
  have read : Delimited.Reads 0 i.received i.messages i.buffer.contents :=
    ⟨framed.received_eq, framed.clean, unfinished⟩
  exact (read.unique (all ▸ Delimited.reads_encode clean)).1

/-- The replies a client has handled are `got` of the `k`-th call and all of those before. -/
structure Handled (parse : Bytes → ParseResult) (spec : Nat → CallSpec)
    (answers : Nat → List Bytes) (c : AsyncClient) (k n : Nat) (got : List Bytes) : Prop where
  log : c.log.map (·.1) = ClientPairing.expectedUpTo parse spec answers k ++
    got.map (ClientPairing.replyInvocation parse (spec k).mode k)
  read : ClientPairing.framesUpTo answers k ++ got <+: c.connection.inbound.messages
  replied : got <+: answers k
  least : k ≤ n
  most : n ≤ k + 1
  issued : n ≤ c.issued
  written : c.connection.written = ClientPairing.requests spec n

theorem handled_of_phase {spec : Nat → CallSpec} {answers : Nat → List Bytes} {c : AsyncClient}
    (h : ClientPairing.Phase parse spec answers c) :
    ∃ k n got, Handled parse spec answers c k n got := by
  cases h with
  | @turn k turn _ messages logged =>
    obtain ⟨n, least, most, issued, written⟩ := turn.written
    refine ⟨k, n, [], ?_, ?_, List.nil_prefix, least, most, issued, written⟩
    · rw [logged.handled, List.map_nil, List.append_nil]
    · simp only [messages, List.append_nil, List.prefix_rfl]
  | @reading k got rest replying _ _ _ messages =>
    refine ⟨k, k + 1, got, replying.logged.handled, ?_, ⟨rest, replying.split.symm⟩, Nat.le_succ k,
      Nat.le_refl _, replying.holds.issued, replying.wire.written⟩
    simp only [messages, List.prefix_rfl]
  | @posted k got rest frame j replying _ _ messages =>
    refine ⟨k, k + 1, got, replying.logged.handled, ?_, ⟨_, replying.split.symm⟩, Nat.le_succ k,
      Nat.le_refl _, replying.holds.issued, replying.wire.written⟩
    rw [messages]
    exact List.prefix_append _ _

theorem client_later {s t : AsyncClient} {spec : Nat → CallSpec} {e : ClientEvent}
    (stepped : s.step parse dump spec e = some t) : Connection.Later s.connection t.connection :=
  AsyncClient.step_kept (Connection.kept_later s.connection) (Connection.Later.refl _)
    (fun _ _ _ received => Connection.receiveStep_later received) stepped

theorem server_later {s t : Server} {e : ServerEvent}
    (stepped : s.step parse dump stack service e = some t) :
    Connection.Later s.session.connection t.session.connection := by
  have kept : Connection.Kept parse dump (Connection.Later s.session.connection) :=
    Connection.kept_later _
  exact Server.step_kept (fun t => Connection.Later s.session.connection t.connection)
    (fun reply t => ServerSession.replySender_kept kept reply t) (Connection.Later.refl _)
    (fun _ _ _ received => Connection.receiveStep_later received)
    (fun n r _ wrote => kept.wrote n _ r (Connection.Later.refl _) wrote) stepped

theorem step_later {s t : Peers} {e : Event}
    (taken : step parse dump stack service calls s e = some t) :
    Connection.Later s.client.connection t.client.connection ∧
      Connection.Later s.server.session.connection t.server.session.connection := by
  cases e with
  | client e =>
    simp only [step, Option.ite_none_right_eq_some, Option.map_eq_some_iff] at taken
    obtain ⟨-, client, stepped, rfl⟩ := taken
    exact ⟨client_later stepped, Connection.Later.refl _⟩
  | server e =>
    simp only [step, Option.ite_none_right_eq_some, Option.map_eq_some_iff] at taken
    obtain ⟨-, server, stepped, rfl⟩ := taken
    exact ⟨Connection.Later.refl _, server_later stepped⟩

theorem step_issued {s t : Peers} {e : Event}
    (taken : step parse dump stack service calls s e = some t) :
    s.client.issued ≤ t.client.issued := by
  cases e with
  | client e =>
    simp only [step, Option.ite_none_right_eq_some, Option.map_eq_some_iff] at taken
    obtain ⟨-, client, stepped, rfl⟩ := taken
    exact AsyncClient.step_issued stepped
  | server e =>
    simp only [step, Option.ite_none_right_eq_some, Option.map_eq_some_iff] at taken
    obtain ⟨-, server, -, rfl⟩ := taken
    exact Nat.le_refl _

/-- What holds of a session whose peer has written the first requests, of which there are no
more than `limit`: it reads these and nothing else, and has not come to a halt. -/
structure Serving (parse : Bytes → ParseResult) (dump : Dump) (stack : Nat)
    (service : VarlinkService) (calls : Nat → RemoteCall) (limit : Nat) (written : List Json)
    (s : Server) : Prop where
  server : ServerReplies.Phase parse dump stack service
    (texts dump (ClientPairing.requests (fun k => (calls k).spec) limit)) (messages calls limit)
    s.session.connection.inbound.received s
  alive : ServerReplies.Alive s
  flowing : ServerReplies.Flowing dump s.session
  toServer : s.session.connection.inbound.received <+: Delimited.encode 0 (texts dump written)

namespace Serving
variable {limit : Nat} {written : List Json} {s t : Server}
  (conversation : Conversation dump stack service calls parse)

theorem further (h : Serving parse dump stack service calls limit written s) {more : List Json}
    (later : written <+: more) : Serving parse dump stack service calls limit more s :=
  { h with toServer := h.toServer.trans (encode_texts_isPrefix later) }

theorem replied (h : Serving parse dump stack service calls limit written s) :
    s.session.connection.written <+: ServerReplies.answers dump stack service s.dispatched := by
  obtain ⟨todo, serial⟩ := h.server.serial
  exact serial.wire.written_prefix.trans serial.ceiling

include conversation

theorem answers (h : Serving parse dump stack service calls limit written s) :
    s.session.connection.written <+:
      ServerReplies.answers dump stack service (messages calls limit) :=
  h.replied.trans (ServerReplies.answers_isPrefix dump stack service
    (h.server.among (conversation.pipelined limit)))

theorem step {e : ServerEvent} (h : Serving parse dump stack service calls limit written s)
    (requests : written <+: ClientPairing.requests (fun k => (calls k).spec) limit)
    (unfailing : ServerReplies.Unfailing e)
    (arrives : Arrives dump written s.session.connection.inbound (ServerReplies.chunkOf e))
    (stepped : s.step parse dump stack service e = some t) :
    Serving parse dump stack service calls limit written t := by
  have longer := arrives.trans (encode_texts_isPrefix requests)
  obtain ⟨phase, -⟩ := ServerReplies.step_phase (conversation.pipelined limit)
    conversation.protocol (conversation.dumps_answers limit) h.server unfailing.succeeds longer
    stepped
  obtain ⟨todo, serial⟩ := phase.serial
  exact
    { server := serial.received.symm ▸ phase
      alive := ServerReplies.step_alive (conversation.pipelined limit) conversation.protocol
        (conversation.dumps_answers limit) conversation.answerable_messages h.server h.alive
        unfailing longer stepped
      flowing := ServerReplies.step_flowing h.flowing stepped
      toServer := serial.received.symm ▸ arrives }

theorem init (limit serverBufsiz : Nat) (written : List Json) :
    Serving parse dump stack service calls limit written (Server.init parse serverBufsiz) := by
  have server : ServerReplies.Phase parse dump stack service _ _ []
      (Server.init parse serverBufsiz) :=
    ServerReplies.init_phase serverBufsiz (conversation.pipelined limit)
  obtain ⟨todo, serial⟩ := server.serial
  have nothing := serial.received
  exact
    { server := nothing.symm ▸ server
      alive := ServerReplies.init_alive serverBufsiz
      flowing := ServerReplies.init_flowing serverBufsiz
      toServer := nothing.symm ▸ List.nil_prefix }

theorem dispatched {n : Nat} (h : Serving parse dump stack service calls limit
      (ClientPairing.requests (fun k => (calls k).spec) n) s) :
    ∃ d ≤ n, s.dispatched = messages calls d := by
  obtain ⟨next, tracked⟩ := h.server.tracked h.alive.running
  obtain ⟨todo, serial⟩ := h.server.serial
  have among := ServerReplies.tracked_isPrefix (conversation.pipelined n) serial.framed
    h.toServer tracked
  exact eq_messages_of_isPrefix ((List.prefix_append _ _).trans among)

end Serving

/-- What holds of both ends after the first calls of which no more than `limit` are
issued: neither end reads anything but what its part of the conversation is. -/
structure Conversing (parse : Bytes → ParseResult) (dump : Dump) (stack : Nat)
    (service : VarlinkService) (calls : Nat → RemoteCall) (limit : Nat) (s : Peers) : Prop
    extends Serving parse dump stack service calls limit s.client.connection.written s.server where
  client : ClientPairing.Phase parse (fun k => (calls k).spec)
    (fun k => texts dump (replies dump stack service calls k)) s.client
  stream : ClientPairing.Stream (fun k => texts dump (replies dump stack service calls k)) limit
    s.client.connection.inbound.received s.client.connection.inbound
  toClient : s.client.connection.inbound.received <+:
    Delimited.encode 0 (texts dump s.server.session.connection.written)

namespace Conversing
variable {limit : Nat} {s t : Peers} (conversation : Conversation dump stack service calls parse)

theorem requests (h : Conversing parse dump stack service calls limit s)
    (within : s.client.issued ≤ limit) :
    s.client.connection.written <+: ClientPairing.requests (fun k => (calls k).spec) limit := by
  obtain ⟨done, progress⟩ := h.client.progress
  obtain ⟨n, -, -, issued, written⟩ := progress.wire
  rw [written]
  exact requests_isPrefix (Nat.le_trans issued within)

include conversation

theorem step_client {e : ClientEvent} (h : Conversing parse dump stack service calls limit s)
    (succeeds : ClientPairing.Succeeds e)
    (taken : step parse dump stack service calls s (.client e) = some t) :
    Conversing parse dump stack service calls limit t := by
  simp only [step, Option.ite_none_right_eq_some, Option.map_eq_some_iff] at taken
  obtain ⟨arrives, client, stepped, rfl⟩ := taken
  have longer := arrives.trans (encode_texts_isPrefix (h.answers conversation))
  rw [texts_answers] at longer
  obtain ⟨phase, stream⟩ := ClientPairing.step_phase conversation.answers conversation.dumps
    h.client h.stream succeeds longer stepped
  exact
    { h.further (client_later stepped).written with
      client := phase
      stream := stream.received.symm ▸ stream
      toClient := stream.received.symm ▸ arrives }

theorem step_server {e : ServerEvent} (h : Conversing parse dump stack service calls limit s)
    (within : s.client.issued ≤ limit) (unfailing : ServerReplies.Unfailing e)
    (taken : step parse dump stack service calls s (.server e) = some t) :
    Conversing parse dump stack service calls limit t := by
  simp only [step, Option.ite_none_right_eq_some, Option.map_eq_some_iff] at taken
  obtain ⟨arrives, server, stepped, rfl⟩ := taken
  exact
    { h.toServing.step conversation (h.requests within) unfailing arrives stepped with
      client := h.client
      stream := h.stream
      toClient := h.toClient.trans (encode_texts_isPrefix (server_later stepped).written) }

theorem step {e : Event} (h : Conversing parse dump stack service calls limit s)
    (within : s.client.issued ≤ limit) (succeeds : Succeeds e)
    (taken : step parse dump stack service calls s e = some t) :
    Conversing parse dump stack service calls limit t := by
  cases e with
  | client e => exact h.step_client conversation succeeds taken
  | server e => exact h.step_server conversation within succeeds taken

theorem init (limit clientBufsiz serverBufsiz : Nat) :
    Conversing parse dump stack service calls limit (init parse clientBufsiz serverBufsiz) :=
  { Serving.init conversation limit serverBufsiz [] with
    client := .turn (k := 0) (.free rfl rfl ⟨rfl, rfl, rfl⟩) rfl rfl ⟨rfl, List.forall_mem_nil _⟩
    stream := ⟨Inbound.framed_new clientBufsiz, rfl, List.nil_prefix⟩
    toClient := List.nil_prefix }

theorem of_run {clientBufsiz serverBufsiz : Nat} {es : List Event}
    (run : Runs.run (RemoteCalls.step parse dump stack service calls)
      (RemoteCalls.init parse clientBufsiz serverBufsiz) es = some s)
    (succeeds : ∀ e ∈ es, Succeeds e) (within : s.client.issued ≤ limit) :
    Conversing parse dump stack service calls limit s := by
  refine Runs.run_history (RemoteCalls.step parse dump stack service calls)
    (fun es s => (∀ e ∈ es, Succeeds e) → s.client.issued ≤ limit →
      Conversing parse dump stack service calls limit s)
    ?_ (fun _ _ => .init conversation limit clientBufsiz serverBufsiz) run succeeds within
  intro past s e t ih taken succeeds within
  have before : s.client.issued ≤ limit := Nat.le_trans (step_issued taken) within
  have held := ih (fun f member => succeeds f (List.mem_append_left _ member)) before
  exact held.step conversation before (succeeds e (by simp)) taken

theorem messages_prefix (h : Conversing parse dump stack service calls limit s) {d : Nat}
    (dispatched : s.server.dispatched = messages calls d) :
    s.client.connection.inbound.messages <+:
      ClientPairing.framesUpTo (fun k => texts dump (replies dump stack service calls k)) d := by
  have stream := h.toClient.trans (encode_texts_isPrefix h.replied)
  rw [dispatched, texts_answers] at stream
  exact h.stream.framed.messages_prefix (ClientPairing.framesUpTo_clean conversation.answers d)
    stream

theorem framesUpTo_lt {m n : Nat} (h : m < n) :
    (ClientPairing.framesUpTo (fun k => texts dump (replies dump stack service calls k)) m).length <
      (ClientPairing.framesUpTo
        (fun k => texts dump (replies dump stack service calls k)) n).length := by
  have longer := (ClientPairing.flatMap_range_prefix
    (fun k => texts dump (replies dump stack service calls k)) h).length_le
  rw [ClientPairing.flatMap_range_succ, List.length_append] at longer
  have some_ := List.length_pos_iff.mpr ((conversation.answers m).ne_nil (conversation.answered m))
  exact Nat.lt_of_lt_of_le (Nat.lt_add_of_pos_right some_) longer

theorem reached (h : Conversing parse dump stack service calls limit s) {k n : Nat}
    {got : List Bytes} (handled : Handled parse (fun k => (calls k).spec)
      (fun k => texts dump (replies dump stack service calls k)) s.client k n got) :
    ∃ d, k ≤ d ∧ d ≤ n ∧ s.server.dispatched = messages calls d ∧ (d = k → got = []) := by
  have serving := handled.written ▸ h.toServing
  obtain ⟨d, sent, dispatched⟩ := serving.dispatched conversation
  have among := (handled.read.trans (h.messages_prefix conversation dispatched)).length_le
  rw [List.length_append] at among
  refine ⟨d, ?_, sent, dispatched, ?_⟩
  · by_contra beyond
    have := framesUpTo_lt conversation (Nat.lt_of_not_le beyond)
    omega
  · rintro rfl
    exact List.eq_nil_of_length_eq_zero (by omega)

theorem served (h : Conversing parse dump stack service calls limit s) :
    ∃ d ≤ s.client.issued, s.server.dispatched = messages calls d ∧
      results dump stack service calls (d - 1) <+: s.client.log.map (·.1) ∧
      s.client.log.map (·.1) <+: results dump stack service calls d := by
  obtain ⟨k, n, got, handled⟩ := handled_of_phase h.client
  obtain ⟨d, reached, sent, dispatched, none_⟩ := h.reached conversation handled
  refine ⟨d, Nat.le_trans sent handled.issued, dispatched, ?_, ?_⟩
  · rw [handled.log, conversation.expectedUpTo_eq]
    have earlier : d - 1 ≤ k := by
      have := handled.most
      omega
    exact (ClientPairing.flatMap_range_prefix _ earlier).trans (List.prefix_append _ _)
  · rcases Nat.eq_or_lt_of_le reached with rfl | behind
    · -- nothing of the reply to a call can be handled before the call is passed on
      simp only [handled.log, conversation.expectedUpTo_eq, none_ rfl, List.map_nil,
        List.append_nil, List.prefix_rfl]
    · obtain rfl : d = k + 1 := Nat.le_antisymm (Nat.le_trans sent handled.most) behind
      rw [handled.log, ← conversation.expectedUpTo_eq, ClientPairing.expectedUpTo,
        ClientPairing.expectedUpTo, ClientPairing.flatMap_range_succ,
        ClientPairing.expected_answered (conversation.answered k)]
      exact (List.prefix_append_right_inj _).mpr (handled.replied.map _)

end Conversing

/-- In every run of a client and the session that serves it in which nothing fails, the
server is passed the calls that the client has made, each once and in that order, however
many of them were made before a reply came. The handlers are told what the service replies,
and nothing else: all of it for each call but the last one passed on, and of that a first
part. -/
theorem calls_served (parse : Bytes → ParseResult) (dump : Dump) (stack : Nat)
    (service : VarlinkService) (calls : Nat → RemoteCall)
    (conversation : Conversation dump stack service calls parse) (clientBufsiz serverBufsiz : Nat)
    (es : List Event) (s : Peers)
    (run : Runs.run (step parse dump stack service calls) (init parse clientBufsiz serverBufsiz)
      es = some s) (succeeds : ∀ e ∈ es, Succeeds e) :
    s.server.ended = none ∧ ∃ d ≤ s.client.issued, s.server.dispatched = messages calls d ∧
      results dump stack service calls (d - 1) <+: s.client.log.map (·.1) ∧
      s.client.log.map (·.1) <+: results dump stack service calls d := by
  have h := Conversing.of_run conversation run succeeds (Nat.le_refl _)
  exact ⟨h.alive.running, h.served conversation⟩

end Streams

open JsonText

/-- A call in more mode, and then calls of the same method in basic mode. -/
def pingCalls : Nat → RemoteCall
  | 0 => ⟨"org.test.Ping", .object [], .more, .inr rfl⟩
  | _ + 1 => ⟨"org.test.Ping", .object [], .basic, .inr rfl⟩

theorem replies_ping (k : Nat) : replies dump 1 (pingService ServerReplies.twice) pingCalls k =
    if k = 0 then [partReply true, partReply false] else [basicReply] := by
  cases k with
  | zero => rfl
  | succ k =>
    have message : (pingCalls (k + 1)).message =
        ⟨.object [("method", .string "org.test.Ping")], .basic⟩ := rfl
    rw [if_neg (Nat.succ_ne_zero k), replies, message]
    rfl

theorem pingConversation :
    Conversation dump 1 (pingService ServerReplies.twice) pingCalls parsePing where
  answered k := by cases k <;> nofun
  protocol := ServerReplies.twice_followsProtocol _ 0
  answerable k := by
    have same := replies_ping k
    rw [replies] at same
    constructor
    · rw [same]
      split <;> exact List.cons_ne_nil _ _
    · rw [same]
      split <;> simp [partReply, basicReply, Json.contains, Json.find?]
  request k := by
    cases k with
    | zero => exact exists_ping List.mem_cons_self
    | succ k => exact exists_ping (List.mem_cons_of_mem _ List.mem_cons_self)
  inverts k reply member := by
    rw [replies_ping] at member
    split at member
    · rcases List.mem_pair.mp member with rfl | rfl
      · exact exists_ping (by simp [pings])
      · exact exists_ping (by simp [pings])
    · obtain rfl := List.mem_singleton.mp member
      exact exists_ping (by simp [pings])

/-- Two calls, the second made while the first one waits for its replies, of which there
are two: the second reply is put off, and read in two parts. -/
theorem calls_served_twice :
    let es : List Event := [.client .call, .client .call, .client (.written 0 true 0),
      .server (.receive 0 (.read (frame moreCall))), .server (.written 0 true),
      .client (.receive 0 (.read (frame (partReply true))) 0), .server (.reply 0),
      .client (.receive 0 (.read ((frame (partReply false)).take 20)) 0),
      .client (.receive 0 (.read ((frame (partReply false)).drop 20)) 0),
      .server (.written 0 true), .client (.written 0 true 0),
      .server (.receive 0 (.read (frame basicCall))),
      .client (.receive 0 (.read (frame basicReply)) 0)]
    ∃ s, Runs.run (step parsePing dump 1 (pingService ServerReplies.twice) pingCalls)
        (init parsePing 64 64) es = some s ∧ s.server.dispatched = messages pingCalls 2 ∧
      s.client.log.map (·.1) <+:
        results dump 1 (pingService ServerReplies.twice) pingCalls 2 ∧
      s.client.log.length = 3 := by
  intro es
  have enabled : (Runs.run (step parsePing dump 1 (pingService ServerReplies.twice) pingCalls)
      (init parsePing 64 64) es).any (fun s =>
        s.server.dispatched.length == 2 && s.client.log.length == 3) = true := by decide +kernel
  obtain ⟨s, run, ends⟩ := (Option.any_eq_true _ _).mp enabled
  simp only [Bool.and_eq_true, beq_iff_eq] at ends
  obtain ⟨two, three⟩ := ends
  obtain ⟨-, d, -, dispatched, -, ceiling⟩ := calls_served parsePing dump 1
    (pingService ServerReplies.twice) pingCalls pingConversation 64 64 es s run
    (by simp [es, Succeeds, ClientPairing.Succeeds, ServerReplies.Unfailing])
  obtain rfl : d = 2 := by rwa [dispatched, messages_length] at two
  exact ⟨s, run, dispatched, ceiling, three⟩

end Varlink.RemoteCalls
