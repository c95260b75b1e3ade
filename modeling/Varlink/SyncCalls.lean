import Mathlib.Data.List.Induction
import Varlink.RemoteCalls
import Varlink.SyncPairing

/-! The synchronous calls of a client to the session at the other end of its connection.
A call may be made while replies to earlier ones are on their way, and a functor may be
invoked at any time. While each of them reads in its turn, the results come out as if the
methods were called at the client itself. -/

namespace Varlink.SyncCalls

open CallMore (Outcome onReply)
open RemoteCalls (RemoteCall Conversation Exchange Serving replies messages)
open SendReceive (Inverts)
open SyncClient (System Result Served Turn)
open Varlink.Frame (texts)

structure Peers where
  client : System
  /-- The requests of the client; those that can be dumped are written. -/
  requests : List Json := []
  server : Server

inductive ClientEvent where
  /-- The next call, with `call`, `call_upgrade` or `call_more`. -/
  | call
  | invoke (request : Nat)
  | read (chunk : Bytes)
  | readError
deriving DecidableEq

namespace ClientEvent

def on (c : RemoteCall) : ClientEvent → SyncClient.Event
  | .call => .call c.mode c.message.json
  | .invoke n => .invoke n
  | .read chunk => .read chunk
  | .readError => .readError

def requests (c : RemoteCall) : ClientEvent → List Json
  | .call => [c.message.json]
  | _ => []

end ClientEvent

inductive Event where
  | client (e : ClientEvent)
  | server (e : ServerEvent)

section Steps
variable (parse : Bytes → ParseResult) (dump : Dump) (stack : Nat) (service : VarlinkService)
  (calls : Nat → RemoteCall)

def init (clientBufsiz serverBufsiz : Nat) : Peers where
  client := SyncClient.init clientBufsiz
  server := .init parse serverBufsiz

/-- What arrives at one end is what the other end has written, and not yet read. -/
def step (s : Peers) : Event → Option Peers
  | .client e =>
    let c := calls s.requests.length
    let chunk := (e.on c).chunk
    if s.client.receiver.received ++ chunk <+:
        Delimited.encode 0 (texts dump s.server.session.connection.written) then
      (SyncClient.step parse dump { s.client with inFlight := chunk } (e.on c)).map fun client =>
        { s with client, requests := s.requests ++ e.requests c }
    else none
  | .server e =>
    if RemoteCalls.Arrives dump s.requests s.server.session.connection.inbound
        (ServerReplies.chunkOf e) then
      (s.server.step parse dump stack service e).map fun server => { s with server }
    else none

/-- Who gets a frame has no earlier call whose replies have not all been read. At the
server no operation of the transport fails; the client may fail to read. -/
def Proceeds (s : Peers) : Event → Prop
  | .client e => Turn dump s.client (e.on (calls s.requests.length))
  | .server e => ServerReplies.Unfailing e

end Steps

def outcome (reply : Json) : Outcome :=
  if reply.contains "error" then
    .varlinkError (reply.member "error").getString (reply.member "parameters")
  else .returns (reply.member "parameters")

def answered (r : Result) : Option (Nat × Outcome) := r.frame.map fun _ => (r.request, r.outcome)

section Local
variable (dump : Dump) (stack : Nat) (service : VarlinkService) (calls : Nat → RemoteCall)

/-- What the first `n` calls and their functors are to end with, in order. -/
def results (n : Nat) : List (Nat × Outcome) :=
  (List.range n).flatMap fun k => (replies dump stack service calls k).map fun reply =>
    (k, outcome reply)

def framesOf (n : Nat) : List (Nat × Bytes) :=
  (List.range n).flatMap fun k => (texts dump (replies dump stack service calls k)).map (k, ·)

def queue (n : Nat) : List (Nat × Callmode) := (List.range n).map fun k => (k, (calls k).mode)

end Local

section Outcomes
variable {parse : Bytes → ParseResult} {dump : Dump} {stack : Nat} {service : VarlinkService}
  {calls : Nat → RemoteCall}

theorem onReply_outcome {mode : Callmode} {reply : Json} {continues : Bool}
    (reply_ : ClientPairing.IsReply reply) (flag : replyContinues reply = .ok continues) :
    (onReply mode reply).2 = outcome reply := by
  have parameters : AsyncClient.replyParameters reply = .ok (reply.member "parameters") := by
    simp only [AsyncClient.replyParameters, reply_.object, Bool.true_or, if_true]
  unfold onReply outcome
  by_cases error : reply.contains "error" = true
  · rw [if_pos error, if_pos error]
    obtain ⟨what, named⟩ := Json.isString_iff.mp (reply_.error error)
    simp only [named, Json.getString]
  · rw [if_neg error, if_neg error]
    cases mode <;> simp [flag, parameters]

theorem run_exchange {mode : Callmode} {exchanged : List Json} (h : Exchange mode exchanged)
    (inverts : ∀ reply ∈ exchanged, Inverts parse dump reply) (n : Nat)
    (rest : List (Nat × Callmode)) :
    Runs.run (SyncClient.answer parse) ((n, mode) :: rest)
      ((texts dump exchanged).map (n, ·)) = some rest := by
  induction h with
  | @last reply reply_ terminal =>
    obtain ⟨text, written, -, parsed⟩ := inverts reply List.mem_cons_self
    have follows : SyncClient.follows parse mode (Frame.bytes text) = some false := by
      simp only [SyncClient.follows, parsed, terminal]
      split <;> rfl
    rw [Frame.texts_cons_of_ok written, List.map_cons, Runs.run_cons]
    simp only [SyncClient.answer, if_true, follows]
    rfl
  | @more reply later more reply_ noError continues then_ ih =>
    obtain ⟨text, written, -, parsed⟩ := inverts reply List.mem_cons_self
    have follows : SyncClient.follows parse mode (Frame.bytes text) = some true := by
      simp only [SyncClient.follows, parsed, continues, more, noError]
      rfl
    rw [Frame.texts_cons_of_ok written, List.map_cons, Runs.run_cons]
    simp only [SyncClient.answer, if_true, follows]
    exact ih fun r member => inverts r (List.mem_cons_of_mem reply member)

theorem framesOf_succ (n : Nat) : framesOf dump stack service calls (n + 1) =
    framesOf dump stack service calls n ++
      (texts dump (replies dump stack service calls n)).map (n, ·) :=
  ClientPairing.flatMap_range_succ _ n

theorem framesOf_frames (n : Nat) : (framesOf dump stack service calls n).map (·.2) =
    texts dump (ServerReplies.answers dump stack service (messages calls n)) := by
  rw [RemoteCalls.texts_answers, framesOf, ClientPairing.framesUpTo, List.map_flatMap]
  refine List.flatMap_congr fun k _ => ?_
  rw [List.map_map]
  exact List.map_id _

theorem queue_succ (n : Nat) : queue calls (n + 1) = queue calls n ++ [(n, (calls n).mode)] := by
  rw [queue, List.range_succ, List.map_append]
  rfl

section Answered
variable (h : Conversation dump stack service calls parse)
include h

theorem run_framesOf (n : Nat) : Runs.run (SyncClient.answer parse) (queue calls n)
    (framesOf dump stack service calls n) = some [] := by
  induction n with
  | zero => rfl
  | succ n ih =>
    rw [queue_succ, framesOf_succ]
    exact Runs.run_append_of_run _ (SyncClient.run_answer_append ih _)
      (run_exchange (h.exchange n) (h.inverts n) n [])

theorem mem_framesOf {n : Nat} {a : Nat × Bytes}
    (member : a ∈ framesOf dump stack service calls n) : 0 ∉ a.2 ∧
      ∃ reply ∈ replies dump stack service calls a.1, parse a.2 = .value reply := by
  obtain ⟨k, -, among⟩ := List.mem_flatMap.mp member
  obtain ⟨frame, written, rfl⟩ := List.mem_map.mp among
  obtain ⟨reply, replied, dumped⟩ := List.mem_filterMap.mp written
  obtain ⟨text, same, clean, parsed⟩ := h.inverts k reply replied
  simp only [same, Except.toOption, Option.map_some, Option.some.injEq] at dumped
  subst dumped
  exact ⟨clean, reply, replied, parsed⟩

theorem framesOf_outcomes (n : Nat) :
    (framesOf dump stack service calls n).map
        (fun a => (a.1, (CallMore.onFrame parse .basic a.2).2)) =
      results dump stack service calls n := by
  rw [framesOf, results, List.map_flatMap]
  refine List.flatMap_congr fun k _ => ?_
  have inverts := h.inverts k
  have flags := (h.exchange k).flags
  generalize replies dump stack service calls k = exchanged at inverts flags
  induction exchanged with
  | nil => rfl
  | cons reply rest ih =>
    obtain ⟨text, written, -, parsed⟩ := inverts reply List.mem_cons_self
    obtain ⟨reply_, continues, flag⟩ := flags reply List.mem_cons_self
    have later := ih (fun r member => inverts r (List.mem_cons_of_mem reply member))
      (fun r member => flags r (List.mem_cons_of_mem reply member))
    rw [Frame.texts_cons_of_ok written, List.map_cons, List.map_cons, later, List.map_cons]
    simp only [CallMore.onFrame, parsed, onReply_outcome reply_ flag]

theorem onFrame_outcome {n : Nat} {a : Nat × Bytes}
    (member : a ∈ framesOf dump stack service calls n) (mode : Callmode) :
    (CallMore.onFrame parse mode a.2).2 = (CallMore.onFrame parse .basic a.2).2 := by
  obtain ⟨-, reply, replied, parsed⟩ := mem_framesOf h member
  obtain ⟨reply_, continues, flag⟩ := (h.exchange a.1).flags reply replied
  simp only [CallMore.onFrame, parsed, onReply_outcome reply_ flag]

end Answered

end Outcomes

/-- The client with a record of what its peer has sent, which no event of its own reads. -/
def facing (c : System) (answers : List (Nat × Bytes)) (unanswered : List (Nat × Callmode))
    (inFlight : Bytes) : System :=
  { c with answers, unanswered, inFlight }

section Facing
variable {parse : Bytes → ParseResult} {dump : Dump} (answers : List (Nat × Bytes))
  (unanswered : List (Nat × Callmode)) (inFlight : Bytes)

@[simp] theorem facing_reading (c : System) :
    (facing c answers unanswered inFlight).reading = c.reading := rfl

@[simp] theorem facing_modes (c : System) :
    (facing c answers unanswered inFlight).modes = c.modes := rfl

@[simp] theorem facing_functors (c : System) :
    (facing c answers unanswered inFlight).functors = c.functors := rfl

@[simp] theorem facing_receiver (c : System) :
    (facing c answers unanswered inFlight).receiver = c.receiver := rfl

@[simp] theorem facing_inFlight (c : System) :
    (facing c answers unanswered inFlight).inFlight = inFlight := rfl

theorem resume_facing (n : Nat) (mode : Callmode) (r : ReceiveFraming.Receiver) (c : System) :
    SyncClient.resume parse n mode r (facing c answers unanswered inFlight) =
      facing (SyncClient.resume parse n mode r c) answers unanswered inFlight := by
  unfold SyncClient.resume facing
  dsimp only
  split <;> rfl

theorem invoke_facing (n : Nat) (mode : Callmode) (c : System) :
    SyncClient.invoke parse n mode (facing c answers unanswered inFlight) =
      facing (SyncClient.invoke parse n mode c) answers unanswered inFlight := by
  unfold SyncClient.invoke
  split
  · rfl
  · exact resume_facing answers unanswered inFlight n mode _ c

def asked (c : System) (call : RemoteCall) : ClientEvent → List (Nat × Callmode)
  | .call => [(c.functors.length, call.mode)]
  | _ => []

theorem step_facing {c d : System} {call : RemoteCall} {e : ClientEvent}
    (answered : call.mode ≠ .oneway) (dumps : ∃ text, dump call.message.json = .ok text)
    (taken : SyncClient.step parse dump { c with inFlight := (e.on call).chunk } (e.on call) =
      some d) :
    SyncClient.step parse dump (facing c answers unanswered ((e.on call).chunk ++ inFlight))
      (e.on call) = some (facing d answers (unanswered ++ asked c call e) inFlight) := by
  obtain ⟨text, dumps⟩ := dumps
  change SyncClient.step parse dump (facing c c.answers c.unanswered _) _ = _ at taken
  cases e with
  | call =>
    have send_facing : ∀ a u f, SyncClient.send call.mode (facing c a u f) =
        facing (SyncClient.send call.mode c) a (u ++ [(c.functors.length, call.mode)]) f := by
      intro a u f
      simp only [SyncClient.send, facing, answered, if_false]
    simp only [ClientEvent.on, SyncClient.step, dumps, send_facing, invoke_facing, facing_reading,
      facing_functors] at taken ⊢
    cases idle : c.reading with
    | some n => simp only [idle, reduceCtorEq] at taken
    | none =>
      simp only [idle, Option.some.injEq] at taken ⊢
      subst taken
      split <;> rfl
  | invoke n =>
    simp only [ClientEvent.on, SyncClient.step, invoke_facing, facing_reading, facing_modes,
      facing_functors] at taken ⊢
    split at taken
    · next mode idle issued at_ =>
      cases taken
      simp only [asked, List.append_nil]
      rfl
    · cases taken
  | read chunk =>
    simp only [ClientEvent.on, SyncClient.step, SyncClient.Event.chunk, resume_facing,
      facing_reading, facing_functors, facing_receiver, facing_inFlight] at taken ⊢
    split at taken
    · cases taken
    · next n mode reading =>
      have arrives : chunk.isPrefixOf (chunk ++ inFlight) = true :=
        List.isPrefixOf_iff_prefix.mpr (List.prefix_append _ _)
      obtain ⟨-, stepped⟩ := Option.ite_none_right_eq_some.mp taken
      obtain ⟨r, received, rfl⟩ := Option.map_eq_some_iff.mp stepped
      rw [if_pos arrives, received, List.drop_left]
      simp only [asked, List.append_nil]
      rfl
  | readError =>
    simp only [ClientEvent.on, SyncClient.step, facing_reading, facing_receiver] at taken ⊢
    split at taken
    · cases taken
    · next n reading =>
      obtain ⟨r, failed, rfl⟩ := Option.map_eq_some_iff.mp taken
      simp only [failed, asked, List.append_nil]
      rfl

end Facing

section Numbers
variable {parse : Bytes → ParseResult} {dump : Dump} {bufsiz : Nat} {s t : System}

def Numbered (s : System) : Prop :=
  s.results.filterMap (·.frame) = List.range s.receiver.messages.length

theorem numbered_invokes {result : Result} (h : Numbered s) (none_ : result.frame = none) :
    (s.results ++ [result]).filterMap (·.frame) = List.range s.receiver.messages.length := by
  rw [List.filterMap_append, h, List.filterMap_cons_none none_, List.filterMap_nil,
    List.append_nil]

theorem numbered_resume (h : Numbered s) (n : Nat) (mode : Callmode)
    {r : ReceiveFraming.Receiver} {bytes : Bytes} (inFlight : Bytes)
    (received : 0 ∉ bytes ∧ r.messages = s.receiver.messages ∧ (∃ w, r.pending = .receiving w) ∨
      0 ∈ bytes ∧ (∃ frame, r.messages = s.receiver.messages ++ [frame]) ∧ r.pending = .idle) :
    Numbered { SyncClient.resume parse n mode r s with inFlight } := by
  rcases received with ⟨-, same, -⟩ | ⟨-, ⟨frame, cut⟩, -⟩
  · simp only [Numbered, SyncClient.resume, same, List.drop_length]
    exact h
  · simp only [Numbered, SyncClient.resume, cut, List.drop_left, List.filterMap_append,
      List.length_append, List.length_singleton, List.range_succ]
    exact congrArg (· ++ [s.receiver.messages.length]) h

theorem numbered_invoke (served : Served parse bufsiz s) (h : Numbered s)
    (idle : s.reading = none) (n : Nat) (mode : Callmode) :
    Numbered (SyncClient.invoke parse n mode s) := by
  unfold SyncClient.invoke
  split
  · exact numbered_invokes h rfl
  · obtain ⟨-, -, -, received⟩ := served.receive idle
    rw [← SyncClient.resume_inFlight]
    exact numbered_resume h n mode _ received

theorem step_numbered {e : SyncClient.Event} (served : Served parse bufsiz s) (h : Numbered s)
    (stepped : SyncClient.step parse dump s e = some t) : Numbered t := by
  cases SyncClient.step_cases stepped with
  | refused => exact h
  | sent => exact h
  | @called mode message text idle => exact numbered_invoke (served.send mode) h idle _ mode
  | @invoked n mode idle => exact numbered_invoke served h idle n mode
  | @read n mode chunk later r reading at_ arrives taken =>
    obtain ⟨-, -, -, received⟩ := served.read reading arrives taken
    exact numbered_resume h n mode later received
  | readError reading failed =>
    cases ReceiveFraming.step_cases failed with
    | readError waits => exact numbered_invokes h rfl
  | answer => exact h

theorem told_in_order {told : List (Nat × Bytes)} {f : Nat × Bytes → Nat × Outcome} {n : Nat}
    {results : List Result} (numbered : results.filterMap (·.frame) = List.range n)
    (own : ∀ r ∈ results, ∀ i, r.frame = some i → ∃ a, told[i]? = some a ∧
      (r.request, r.outcome) = f a) :
    results.filterMap answered = (told.take n).map f := by
  induction results using List.reverseRecOn generalizing n with
  | nil =>
    obtain rfl : n = 0 := by
      have none_ := congrArg List.length numbered
      simpa using none_.symm
    rfl
  | append_singleton results r ih =>
    rw [List.filterMap_append] at numbered ⊢
    have before : ∀ q ∈ results, ∀ i, q.frame = some i → ∃ a, told[i]? = some a ∧
        (q.request, q.outcome) = f a :=
      fun q member => own q (List.mem_append_left _ member)
    cases frame : r.frame with
    | none =>
      rw [List.filterMap_cons_none frame, List.filterMap_nil, List.append_nil] at numbered
      rw [ih numbered before]
      simp [answered, frame]
    | some i =>
      obtain ⟨a, entry, same⟩ := own r (by simp) i frame
      rw [List.filterMap_cons_some frame, List.filterMap_nil] at numbered
      cases n with
      | zero => simp at numbered
      | succ n =>
        rw [List.range_succ] at numbered
        obtain ⟨numbered, last⟩ := List.append_inj' numbered rfl
        obtain rfl : i = n := by simpa using last
        rw [ih numbered before, List.take_add_one, entry, List.map_append]
        simp [answered, frame, same]

end Numbers

section Answers
variable {parse : Bytes → ParseResult} {bufsiz : Nat} {s : System}

theorem served_more (h : Served parse bufsiz s) {more : List (Nat × Bytes)}
    {unanswered : List (Nat × Callmode)} (clean : ∀ a ∈ more, 0 ∉ a.2)
    (answered : Runs.run (SyncClient.answer parse) s.unanswered more = some unanswered) :
    Served parse bufsiz (facing s (s.answers ++ more) unanswered
      (s.inFlight ++ Delimited.encode 0 (more.map (·.2)))) := by
  have within : s.receiver.messages.length ≤ s.answers.length := by
    have read := congrArg List.length (SyncClient.messages_eq_take h.framed h.travels h.clean)
    rw [List.length_take, List.length_map] at read
    omega
  exact
    { h with
      travels := by
        simp only [facing, List.map_append, Delimited.encode_append, ← h.travels,
          List.append_assoc]
      clean := List.forall_mem_append.mpr ⟨h.clean, clean⟩
      served := by
        simp only [facing, List.drop_append_of_le_length within]
        exact Runs.run_append_of_run _ h.served answered
      own := fun result member => (h.own result member).extend (List.prefix_append _ _) }

end Answers

section Conversations
variable {parse : Bytes → ParseResult} {dump : Dump} {stack : Nat} {service : VarlinkService}
  {calls : Nat → RemoteCall} {bufsiz limit : Nat}

/-- The frames that the session has written, each with the call it answers. -/
def told (dump : Dump) (stack : Nat) (service : VarlinkService) (calls : Nat → RemoteCall)
    (limit : Nat) (written : List Json) : List (Nat × Bytes) :=
  (framesOf dump stack service calls limit).take written.length

theorem framesOf_isPrefix {m n : Nat} (h : m ≤ n) :
    framesOf dump stack service calls m <+: framesOf dump stack service calls n :=
  ClientPairing.flatMap_range_prefix _ h

theorem told_isPrefix (h : Conversation dump stack service calls parse) {written : List Json}
    {n : Nat} (within : n ≤ limit)
    (replied : written <+: ServerReplies.answers dump stack service (messages calls n)) :
    told dump stack service calls limit written <+: framesOf dump stack service calls n ∧
      (told dump stack service calls limit written).map (·.2) = texts dump written := by
  have dumps := h.dumps_answers n
  have total : (framesOf dump stack service calls n).length =
      (ServerReplies.answers dump stack service (messages calls n)).length := by
    rw [← Frame.texts_length dumps, ← framesOf_frames, List.length_map]
  have least : written.length ≤ (framesOf dump stack service calls n).length :=
    total ▸ replied.length_le
  have same : told dump stack service calls limit written =
      (framesOf dump stack service calls n).take written.length := by
    obtain ⟨later, longer⟩ : framesOf dump stack service calls n <+:
        framesOf dump stack service calls limit := framesOf_isPrefix within
    rw [told, ← longer, List.take_append_of_le_length least]
  refine ⟨same ▸ List.take_prefix _ _, ?_⟩
  obtain ⟨later, all⟩ := replied
  have dumped : ∀ v ∈ written, ∃ text, dump v = .ok text :=
    fun v member => dumps v (all ▸ List.mem_append_left later member)
  rw [same, List.map_take, framesOf_frames, ← all, Frame.texts_append,
    ← Frame.texts_length dumped, List.take_left]

/-- What holds of both ends after the first calls, of which no more than `limit` are made. -/
structure Conversing (parse : Bytes → ParseResult) (dump : Dump) (stack : Nat)
    (service : VarlinkService) (calls : Nat → RemoteCall) (bufsiz limit : Nat) (s : Peers) : Prop
    extends Serving parse dump stack service calls limit s.requests s.server where
  issued : s.requests = ClientPairing.requests (fun k => (calls k).spec) s.requests.length
  functors : s.client.functors.length = s.requests.length
  /-- The session is a peer as the client expects it. -/
  client : ∃ unanswered inFlight,
    Runs.run (SyncClient.answer parse) (queue calls s.requests.length)
      (told dump stack service calls limit s.server.session.connection.written) =
        some unanswered ∧
    Served parse bufsiz (facing s.client
      (told dump stack service calls limit s.server.session.connection.written) unanswered
        inFlight)
  numbered : Numbered s.client

theorem step_functors {c d : System} {call : RemoteCall} {e : ClientEvent}
    (dumps : ∃ text, dump call.message.json = .ok text)
    (taken : SyncClient.step parse dump c (e.on call) = some d) :
    d.functors.length = c.functors.length + (e.requests call).length := by
  obtain ⟨text, dumps⟩ := dumps
  have resume_ : ∀ (n : Nat) (mode : Callmode) (r : ReceiveFraming.Receiver) (c : System),
      (SyncClient.resume parse n mode r c).functors.length = c.functors.length := by
    intro n mode r c
    unfold SyncClient.resume
    split
    · rfl
    · exact List.length_set
  have invoke_ : ∀ (n : Nat) (mode : Callmode) (c : System),
      (SyncClient.invoke parse n mode c).functors.length = c.functors.length := by
    intro n mode c
    unfold SyncClient.invoke
    split
    · rfl
    · exact resume_ n mode _ c
  have steps := SyncClient.step_cases taken
  cases e with
  | call =>
    obtain ⟨method, parameters, mode, object⟩ := call
    cases steps with
    | refused idle thrown => cases dumps.symm.trans thrown
    | sent => exact List.length_append
    | called => exact (invoke_ _ _ _).trans List.length_append
  | invoke n =>
    cases steps with
    | invoked => exact invoke_ _ _ _
  | read chunk =>
    cases steps with
    | read => exact resume_ _ _ _ _
  | readError =>
    cases steps with
    | readError => rfl

namespace Conversing
variable {s t : Peers} (conversation : Conversation dump stack service calls parse)
include conversation

theorem dispatched_told (h : Conversing parse dump stack service calls bufsiz limit s)
    (within : s.requests.length ≤ limit) :
    ∃ n ≤ s.requests.length, s.server.dispatched = messages calls n ∧
      told dump stack service calls limit s.server.session.connection.written <+:
        framesOf dump stack service calls n ∧
      (told dump stack service calls limit s.server.session.connection.written).map (·.2) =
        texts dump s.server.session.connection.written := by
  obtain ⟨n, least, dispatched⟩ := (h.issued ▸ h.toServing).dispatched conversation
  exact ⟨n, least, dispatched,
    told_isPrefix conversation (Nat.le_trans least within) (dispatched ▸ h.replied)⟩

theorem faces {e : ClientEvent} {d : System}
    (h : Conversing parse dump stack service calls bufsiz limit s)
    (within : s.requests.length ≤ limit)
    (arrives : s.client.receiver.received ++ (e.on (calls s.requests.length)).chunk <+:
      Delimited.encode 0 (texts dump s.server.session.connection.written))
    (stepped : SyncClient.step parse dump
      { s.client with inFlight := (e.on (calls s.requests.length)).chunk }
      (e.on (calls s.requests.length)) = some d) :
    ∃ answers unanswered later,
      answers = told dump stack service calls limit s.server.session.connection.written ∧
      Runs.run (SyncClient.answer parse) (queue calls s.requests.length) answers =
        some unanswered ∧
      Served parse bufsiz (facing s.client answers unanswered
        ((e.on (calls s.requests.length)).chunk ++ later)) ∧
      SyncClient.step parse dump (facing s.client answers unanswered
        ((e.on (calls s.requests.length)).chunk ++ later)) (e.on (calls s.requests.length)) =
          some (facing d answers (unanswered ++ asked s.client (calls s.requests.length) e)
            later) := by
  obtain ⟨unanswered, inFlight, queued, served⟩ := h.client
  obtain ⟨n, -, -, -, written⟩ := h.dispatched_told conversation within
  -- what arrives are the first bytes of those that are on their way
  obtain ⟨later, rfl⟩ : (e.on (calls s.requests.length)).chunk <+: inFlight := by
    have travels := served.travels
    simp only [facing, written] at travels
    rw [← travels] at arrives
    exact (List.prefix_append_right_inj _).mp arrives
  exact ⟨_, unanswered, later, rfl, queued, served, step_facing _ unanswered later
    (conversation.answered _) (conversation.dumps _) stepped⟩

theorem step_client {e : ClientEvent}
    (h : Conversing parse dump stack service calls bufsiz limit s)
    (within : s.requests.length ≤ limit)
    (turn : Turn dump s.client (e.on (calls s.requests.length)))
    (taken : step parse dump stack service calls s (.client e) = some t) :
    Conversing parse dump stack service calls bufsiz limit t := by
  simp only [step, Option.ite_none_right_eq_some, Option.map_eq_some_iff] at taken
  obtain ⟨arrives, d, stepped, rfl⟩ := taken
  obtain ⟨_, unanswered, later, rfl, queued, served, faced⟩ :=
    h.faces conversation within arrives stepped
  have added := step_functors (conversation.dumps s.requests.length) stepped
  have numbered : Numbered (facing d _ _ _) := step_numbered served h.numbered faced
  refine
    { h.further (List.prefix_append _ _) with
      issued := ?_
      functors := ?_
      client := ⟨unanswered ++ asked s.client (calls s.requests.length) e, later, ?_,
        SyncClient.step_served served turn faced⟩
      numbered := numbered }
  · cases e with
    | call =>
      rw [ClientEvent.requests, List.length_append, List.length_singleton,
        ClientPairing.requests_succ, ← h.issued]
      rfl
    | _ => simpa only [ClientEvent.requests, List.append_nil] using h.issued
  · rw [List.length_append, added, ← h.functors]
  · have more : queue calls (s.requests ++ e.requests (calls s.requests.length)).length =
        queue calls s.requests.length ++ asked s.client (calls s.requests.length) e := by
      cases e with
      | call =>
        rw [ClientEvent.requests, List.length_append, List.length_singleton, queue_succ, asked,
          h.functors]
      | _ => simp only [ClientEvent.requests, asked, List.append_nil]
    rw [more]
    exact SyncClient.run_answer_append queued _

theorem step_server {e : ServerEvent}
    (h : Conversing parse dump stack service calls bufsiz limit s)
    (within : s.requests.length ≤ limit) (unfailing : ServerReplies.Unfailing e)
    (taken : step parse dump stack service calls s (.server e) = some t) :
    Conversing parse dump stack service calls bufsiz limit t := by
  simp only [step, Option.ite_none_right_eq_some, Option.map_eq_some_iff] at taken
  obtain ⟨arrives, server, stepped, rfl⟩ := taken
  obtain ⟨unanswered, inFlight, queued, served⟩ := h.client
  have requests : s.requests <+: ClientPairing.requests (fun k => (calls k).spec) limit :=
    h.issued ▸ RemoteCalls.requests_isPrefix within
  have serving := h.toServing.step conversation requests unfailing arrives stepped
  -- what the session writes now answers the requests that are still unanswered
  obtain ⟨n, least, dispatched⟩ := (h.issued ▸ serving).dispatched conversation
  obtain ⟨among, -⟩ := told_isPrefix conversation (Nat.le_trans least within)
    (dispatched ▸ serving.replied)
  have writes := (RemoteCalls.server_later stepped).written.length_le
  obtain ⟨more, longer⟩ :
      told dump stack service calls limit s.server.session.connection.written <+:
        told dump stack service calls limit server.session.connection.written :=
    List.take_prefix_take_left writes
  obtain ⟨later, all⟩ := among.trans (framesOf_isPrefix least)
  have total := run_framesOf conversation s.requests.length
  rw [← all, Runs.run_append] at total
  obtain ⟨left, toldNow, -⟩ := Option.bind_eq_some_iff.mp total
  have answered := toldNow
  rw [← longer, Runs.run_append, queued] at answered
  have clean : ∀ a ∈ more, 0 ∉ a.2 := by
    intro a member
    refine (mem_framesOf conversation (n := n) (among.subset ?_)).1
    rw [← longer]
    exact List.mem_append_right _ member
  exact
    { serving with
      issued := h.issued
      functors := h.functors
      client := ⟨left, _, toldNow, longer ▸ served_more served clean answered⟩
      numbered := h.numbered }

theorem step {e : Event} (h : Conversing parse dump stack service calls bufsiz limit s)
    (within : s.requests.length ≤ limit) (proceeds : Proceeds dump calls s e)
    (taken : step parse dump stack service calls s e = some t) :
    Conversing parse dump stack service calls bufsiz limit t := by
  cases e with
  | client e => exact h.step_client conversation within proceeds taken
  | server e => exact h.step_server conversation within proceeds taken

theorem init (limit clientBufsiz serverBufsiz : Nat) :
    Conversing parse dump stack service calls clientBufsiz limit
      (init parse clientBufsiz serverBufsiz) := by
  have none_ : told dump stack service calls limit (SyncCalls.init parse clientBufsiz
      serverBufsiz).server.session.connection.written = [] := List.take_zero
  exact
    { Serving.init conversation limit serverBufsiz [] with
      issued := rfl
      functors := rfl
      client := ⟨[], [], by rw [none_]; rfl, none_ ▸ Served.init clientBufsiz⟩
      numbered := rfl }

theorem results_eq (h : Conversing parse dump stack service calls bufsiz limit s)
    (within : s.requests.length ≤ limit) :
    s.client.results.filterMap answered =
      ((told dump stack service calls limit s.server.session.connection.written).take
        s.client.receiver.messages.length).map
          fun a => (a.1, (CallMore.onFrame parse .basic a.2).2) := by
  obtain ⟨n, -, -, among, -⟩ := h.dispatched_told conversation within
  obtain ⟨unanswered, inFlight, -, served⟩ := h.client
  refine told_in_order h.numbered fun result member i frame => ?_
  obtain ⟨bytes, mode, entry, outcome⟩ := served.own result member i frame
  refine ⟨_, entry, ?_⟩
  rw [outcome, onFrame_outcome conversation (among.subset (List.mem_of_getElem? entry))]

theorem served (h : Conversing parse dump stack service calls bufsiz limit s)
    (within : s.requests.length ≤ limit) :
    ∃ n ≤ s.requests.length, s.server.dispatched = messages calls n ∧
      s.client.results.filterMap answered <+: results dump stack service calls n := by
  obtain ⟨n, least, dispatched, among, -⟩ := h.dispatched_told conversation within
  refine ⟨n, least, dispatched, ?_⟩
  rw [h.results_eq conversation within, ← framesOf_outcomes conversation]
  exact ((List.take_prefix _ _).trans among).map _

end Conversing

theorem step_requests {s t : Peers} {e : Event}
    (taken : step parse dump stack service calls s e = some t) :
    s.requests.length ≤ t.requests.length := by
  cases e with
  | client e =>
    simp only [step, Option.ite_none_right_eq_some, Option.map_eq_some_iff] at taken
    obtain ⟨-, d, -, rfl⟩ := taken
    rw [List.length_append]
    exact Nat.le_add_right _ _
  | server e =>
    simp only [step, Option.ite_none_right_eq_some, Option.map_eq_some_iff] at taken
    obtain ⟨-, server, -, rfl⟩ := taken
    exact Nat.le_refl _

theorem Conversing.of_run (conversation : Conversation dump stack service calls parse)
    {clientBufsiz serverBufsiz : Nat} {es : List Event} {s : Peers}
    (run : Runs.run (SyncCalls.step parse dump stack service calls)
      (SyncCalls.init parse clientBufsiz serverBufsiz) es = some s)
    (proceeds : Runs.Along (SyncCalls.step parse dump stack service calls) (Proceeds dump calls)
      (SyncCalls.init parse clientBufsiz serverBufsiz) es) :
    Conversing parse dump stack service calls clientBufsiz s.requests.length s := by
  have keeps : ∀ t e u, (t.requests.length ≤ s.requests.length →
        Conversing parse dump stack service calls clientBufsiz s.requests.length t) →
      Proceeds dump calls t e → SyncCalls.step parse dump stack service calls t e = some u →
      u.requests.length ≤ s.requests.length →
        Conversing parse dump stack service calls clientBufsiz s.requests.length u := by
    intro t e u held good taken within
    have before := Nat.le_trans (step_requests taken) within
    exact (held before).step conversation before good taken
  exact Runs.run_along_invariant (SyncCalls.step parse dump stack service calls) keeps
    (fun _ => .init conversation _ clientBufsiz serverBufsiz) proceeds run (Nat.le_refl _)

/-- In every run of a synchronous client and the session that serves it in which nothing
fails at the session and each reader has its turn, the session is passed the calls that the
client has made, each once and in that order. What the calls and the functors end with is
what the service replies, in order: each reply once, and to the call that it answers. -/
theorem calls_answered (parse : Bytes → ParseResult) (dump : Dump) (stack : Nat)
    (service : VarlinkService) (calls : Nat → RemoteCall)
    (conversation : Conversation dump stack service calls parse) (clientBufsiz serverBufsiz : Nat)
    (es : List Event) (s : Peers)
    (run : Runs.run (step parse dump stack service calls) (init parse clientBufsiz serverBufsiz)
      es = some s)
    (proceeds : Runs.Along (step parse dump stack service calls) (Proceeds dump calls)
      (init parse clientBufsiz serverBufsiz) es) :
    s.server.ended = none ∧ ∃ n ≤ s.requests.length, s.server.dispatched = messages calls n ∧
      s.client.results.filterMap answered <+: results dump stack service calls n := by
  have held := Conversing.of_run conversation run proceeds
  exact ⟨held.alive.running, held.served conversation (Nat.le_refl _)⟩

end Conversations

instance : DecidablePred ServerReplies.Unfailing
  | .receive _ .error => isFalse id
  | .receive _ (.read _) | .receive _ .run | .reply _ => isTrue trivial
  | .written _ success => inferInstanceAs (Decidable (success = true))

instance (dump : Dump) (calls : Nat → RemoteCall) (s : Peers) :
    DecidablePred (Proceeds dump calls s)
  | .client e => inferInstanceAs (Decidable (Turn dump s.client (e.on (calls s.requests.length))))
  | .server e => inferInstanceAs (Decidable (ServerReplies.Unfailing e))

open JsonText (frame moreCall basicCall partReply basicReply)

/-- A stream that is drained, its second reply put off and read in two parts, and then a
call. -/
theorem calls_answered_drained :
    let peers := step JsonText.parsePing JsonText.dump 1
      (pingService ServerReplies.twice) RemoteCalls.pingCalls
    let es : List Event := [.client .call, .client (.invoke 0),
      .server (.receive 0 (.read (frame moreCall))), .server (.written 0 true),
      .client (.read (frame (partReply true))), .client (.invoke 0), .server (.reply 0),
      .server (.written 0 true), .client (.read ((frame (partReply false)).take 20)),
      .client (.read ((frame (partReply false)).drop 20)), .client .call,
      .server (.receive 0 (.read (frame basicCall))), .server (.written 0 true),
      .client (.read (frame basicReply))]
    ∃ s, Runs.run peers (init JsonText.parsePing 64 64) es = some s ∧
      s.server.dispatched = messages RemoteCalls.pingCalls 2 ∧
      s.client.results.length = 3 ∧
      s.client.results.filterMap answered <+: results JsonText.dump 1
        (pingService ServerReplies.twice) RemoteCalls.pingCalls 2 := by
  intro peers es
  have enabled : (Runs.run peers (init JsonText.parsePing 64 64) es).any (fun s =>
      s.server.dispatched.length == 2 && s.client.results.length == 3) = true := by
    decide +kernel
  have along : Runs.Along peers (Proceeds JsonText.dump RemoteCalls.pingCalls)
      (init JsonText.parsePing 64 64) es := by
    decide +kernel
  obtain ⟨s, run, ends⟩ := (Option.any_eq_true _ _).mp enabled
  simp only [Bool.and_eq_true, beq_iff_eq] at ends
  obtain ⟨two, three⟩ := ends
  obtain ⟨-, n, -, dispatched, ceiling⟩ := calls_answered JsonText.parsePing
    JsonText.dump 1 (pingService ServerReplies.twice) RemoteCalls.pingCalls
    RemoteCalls.pingConversation 64 64 es s run along
  obtain rfl : n = 2 := by rwa [dispatched, RemoteCalls.messages_length] at two
  exact ⟨s, run, dispatched, three, ceiling⟩

end Varlink.SyncCalls
