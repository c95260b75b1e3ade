import Mathlib.Logic.Function.Basic
import Varlink.RemoteProgress

/-! `async_server`: one connection is accepted after the other, and a session is started
for each. Around it a network of clients, each with a connection of its own: whatever
happens on one connection, the others do not see it. -/

namespace Varlink

structure AsyncServer where
  /-- The sessions that have been started, in the order of their connections. -/
  sessions : List Server := []
  /-- An accept is under way. -/
  accepting : Bool := false

inductive AsyncServerEvent where
  | accept (success : Bool)
  | session (i : Nat) (e : ServerEvent)

namespace AsyncServer
variable (parse : Bytes → ParseResult) (dump : Dump) (stack : Nat) (service : Nat → VarlinkService)
  (bufsiz : Nat)

def asyncServeForever (s : AsyncServer) : AsyncServer := { s with accepting := true }

/-- The handler that `async_serve_forever` passes to `async_accept`. -/
def onAccept (success : Bool) (s : AsyncServer) : AsyncServer :=
  if success then
    asyncServeForever { s with sessions := s.sessions ++ [Server.init parse bufsiz] }
  else s

/-- All sessions are part of one process, which none of them has ended. -/
def running (s : AsyncServer) : Bool := s.sessions.all fun session => session.ended.isNone

/-- The service is the same for all sessions; what its callbacks do may depend on what they
did for others, and may be anything else for each connection. -/
def step (s : AsyncServer) : AsyncServerEvent → Option AsyncServer
  | .accept success =>
    if s.running && s.accepting then
      some (onAccept parse bufsiz success { s with accepting := false })
    else none
  | .session i e =>
    if s.running then
      s.sessions[i]?.bind fun session =>
        (session.step parse dump stack (service i) e).map fun t =>
          { s with sessions := s.sessions.set i t }
    else none

end AsyncServer

structure Network where
  /-- The `i`-th client is the one whose connection is the `i`-th to be accepted. -/
  clients : Nat → AsyncClient
  server : AsyncServer

namespace Network

inductive Event where
  | client (i : Nat) (e : ClientEvent)
  | server (e : AsyncServerEvent)

open RemoteCalls (RemoteCall Peers Arrives Conversation messages results)

section Steps
variable (parse : Bytes → ParseResult) (dump : Dump) (stack : Nat) (service : Nat → VarlinkService)
  (calls : Nat → Nat → RemoteCall) (bufsiz : Nat)

def init (clientBufsiz : Nat) : Network where
  clients _ := .new clientBufsiz
  server := AsyncServer.asyncServeForever {}

/-- What the server has written to a client: nothing before it has accepted it. -/
def writtenTo (s : Network) (i : Nat) : List Json :=
  (s.server.sessions[i]?.map fun session => session.session.connection.written).getD []

def step (s : Network) : Event → Option Network
  | .client i e =>
    if Arrives dump (s.writtenTo i) (s.clients i).connection.inbound (ClientPairing.chunkOf e) then
      ((s.clients i).step parse dump (fun k => (calls i k).spec) e).map fun client =>
        { s with clients := Function.update s.clients i client }
    else none
  | .server (.session i e) =>
    if ∀ session ∈ s.server.sessions[i]?, Arrives dump (s.clients i).connection.written
        session.session.connection.inbound (ServerReplies.chunkOf e) then
      (s.server.step parse dump stack service bufsiz (.session i e)).map fun server =>
        { s with server }
    else none
  | .server (.accept success) =>
    (s.server.step parse dump stack service bufsiz (.accept success)).map fun server =>
      { s with server }

/-- A client and its session; as long as the client is not accepted, one that has just been
started stands for it. -/
def peers (s : Network) (i : Nat) : Peers where
  client := s.clients i
  server := s.server.sessions[i]?.getD (.init parse bufsiz)

end Steps

def ownEvent (i : Nat) : Event → Option RemoteCalls.Event
  | .client j e => if j = i then some (.client e) else none
  | .server (.session j e) => if j = i then some (.server e) else none
  | .server (.accept _) => none

def acceptOf : Event → Option Bool
  | .server (.accept success) => some success
  | _ => none

section Runs
variable {parse : Bytes → ParseResult} {dump : Dump} {stack : Nat} {service : Nat → VarlinkService}
  {calls : Nat → Nat → RemoteCall} {bufsiz clientBufsiz : Nat}

theorem init_written (bufsiz : Nat) :
    (Server.init parse bufsiz).session.connection.written = [] := by
  have same : Connection.SameWriting (Connection.new bufsiz)
      ((Connection.new bufsiz).asyncReceive parse ()).2 := Connection.asyncReceive_sameWriting () _
  exact same.written

theorem writtenTo_eq (s : Network) (i : Nat) :
    s.writtenTo i = (s.peers parse bufsiz i).server.session.connection.written := by
  unfold writtenTo peers
  cases s.server.sessions[i]? with
  | none => exact (init_written bufsiz).symm
  | some session => rfl

theorem client_peers {s t : Network} {j : Nat} {e : ClientEvent}
    (taken : step parse dump stack service calls bufsiz s (.client j e) = some t) (i : Nat) :
    Runs.run (RemoteCalls.step parse dump stack (service i) (calls i)) (s.peers parse bufsiz i)
      (ownEvent i (.client j e)).toList = some (t.peers parse bufsiz i) := by
  simp only [step, Option.ite_none_right_eq_some, Option.map_eq_some_iff] at taken
  obtain ⟨arrives, client, stepped, rfl⟩ := taken
  by_cases own : j = i
  · subst own
    rw [writtenTo_eq] at arrives
    have moved : RemoteCalls.step parse dump stack (service j) (calls j) (s.peers parse bufsiz j)
        (.client e) = some _ := RemoteCalls.step_of_client arrives stepped
    simp only [ownEvent, if_true, Option.toList_some]
    rw [Runs.run_singleton _ moved]
    simp [peers]
  · simp only [ownEvent, own, if_false, Option.toList_none, Runs.run_nil, peers]
    rw [Function.update_of_ne (Ne.symm own)]

theorem session_peers {s t : Network} {j : Nat} {e : ServerEvent}
    (taken : step parse dump stack service calls bufsiz s (.server (.session j e)) = some t)
    (i : Nat) :
    Runs.run (RemoteCalls.step parse dump stack (service i) (calls i)) (s.peers parse bufsiz i)
      (ownEvent i (.server (.session j e))).toList = some (t.peers parse bufsiz i) := by
  simp only [step, AsyncServer.step, Option.ite_none_right_eq_some, Option.map_eq_some_iff,
    Option.bind_eq_some_iff] at taken
  obtain ⟨arrives, server, ⟨-, session, found, next, stepped, rfl⟩, rfl⟩ := taken
  have within := (List.getElem?_eq_some_iff.mp found).1
  by_cases own : j = i
  · subst own
    have same : (s.peers parse bufsiz j).server = session := by simp [peers, found]
    have moved : RemoteCalls.step parse dump stack (service j) (calls j) (s.peers parse bufsiz j)
        (.server e) = some _ :=
      RemoteCalls.step_of_server (same ▸ arrives session found) (same ▸ stepped)
    simp only [ownEvent, if_true, Option.toList_some]
    rw [Runs.run_singleton _ moved]
    simp [peers, within]
  · simp only [ownEvent, own, if_false, Option.toList_none, Runs.run_nil, peers]
    rw [List.getElem?_set_ne own]

theorem accept_peers {s t : Network} {success : Bool}
    (taken : step parse dump stack service calls bufsiz s (.server (.accept success)) = some t)
    (i : Nat) : s.peers parse bufsiz i = t.peers parse bufsiz i := by
  simp only [step, AsyncServer.step, Option.ite_none_right_eq_some, Option.map_eq_some_iff,
    Option.some.injEq] at taken
  obtain ⟨server, ⟨-, rfl⟩, rfl⟩ := taken
  cases success with
  | false => rfl
  | true =>
    simp only [peers, AsyncServer.onAccept, if_true, AsyncServer.asyncServeForever]
    rcases Nat.lt_trichotomy i s.server.sessions.length with before | rfl | after
    · rw [List.getElem?_append_left before]
    · simp
    · have beyond : s.server.sessions.length ≤ i := Nat.le_of_lt after
      rw [List.getElem?_eq_none beyond, List.getElem?_eq_none]
      rw [List.length_append, List.length_singleton]
      exact after

theorem step_peers {s t : Network} {e : Event}
    (taken : step parse dump stack service calls bufsiz s e = some t) (i : Nat) :
    Runs.run (RemoteCalls.step parse dump stack (service i) (calls i)) (s.peers parse bufsiz i)
      (ownEvent i e).toList = some (t.peers parse bufsiz i) := by
  rcases e with ⟨j, e⟩ | (success | ⟨j, e⟩)
  · exact client_peers taken i
  · rw [accept_peers taken i]
    rfl
  · exact session_peers taken i

theorem init_peers (clientBufsiz i : Nat) :
    (init clientBufsiz).peers parse bufsiz i = RemoteCalls.init parse clientBufsiz bufsiz := rfl

/-- A run of the network is, for each connection, a run of its two ends. -/
theorem run_peers {es : List Event} {s : Network}
    (run : Runs.run (step parse dump stack service calls bufsiz) (init clientBufsiz) es = some s)
    (i : Nat) :
    Runs.run (RemoteCalls.step parse dump stack (service i) (calls i))
      (RemoteCalls.init parse clientBufsiz bufsiz) (es.filterMap (ownEvent i)) =
        some (s.peers parse bufsiz i) := by
  rw [← init_peers clientBufsiz i]
  exact Runs.run_project (fun _ _ _ taken => step_peers taken i) run

/-- What the accepts have come to: one session for each that did not fail, and another
accept under way unless the last one did. -/
def Accepted (es : List Event) (s : AsyncServer) : Prop :=
  es.filterMap acceptOf =
    List.replicate s.sessions.length true ++ if s.accepting then [] else [false]

theorem run_accepted {es : List Event} {s : Network}
    (run : Runs.run (step parse dump stack service calls bufsiz) (init clientBufsiz) es = some s) :
    Accepted es s.server := by
  have start : Accepted [] (init clientBufsiz).server := rfl
  refine Runs.run_history (step parse dump stack service calls bufsiz)
    (fun es s => Accepted es s.server) ?_ start run
  intro es s e t accepted taken
  rw [Accepted, List.filterMap_append, accepted]
  rcases e with ⟨j, e⟩ | (success | ⟨j, e⟩)
  · simp only [step, Option.ite_none_right_eq_some, Option.map_eq_some_iff] at taken
    obtain ⟨-, client, -, rfl⟩ := taken
    simp [acceptOf]
  · simp only [step, AsyncServer.step, Option.ite_none_right_eq_some, Option.map_eq_some_iff,
      Option.some.injEq, Bool.and_eq_true] at taken
    obtain ⟨server, ⟨⟨-, accepting⟩, rfl⟩, rfl⟩ := taken
    cases success with
    | false => simp [acceptOf, accepting, AsyncServer.onAccept]
    | true =>
      simp [acceptOf, accepting, AsyncServer.onAccept, AsyncServer.asyncServeForever,
        List.replicate_succ']
  · simp only [step, AsyncServer.step, Option.ite_none_right_eq_some, Option.map_eq_some_iff,
      Option.bind_eq_some_iff] at taken
    obtain ⟨-, server, ⟨-, session, -, next, -, rfl⟩, rfl⟩ := taken
    simp [acceptOf]

end Runs

/-- Two clients call; the second one has its first reply before the first one has been
heard at all, and a third one is not accepted. -/
def twoClients : List Event :=
  [.server (.accept true), .client 0 .call, .server (.accept true), .client 1 .call,
    .client 1 (.written 0 true 0),
    .server (.session 1 (.receive 0 (.read (JsonText.frame JsonText.moreCall)))),
    .client 0 (.written 0 true 0), .server (.accept false),
    .client 1 (.receive 0 (.read (JsonText.frame (JsonText.partReply true))) 0),
    .server (.session 0 (.receive 0 (.read ((JsonText.frame JsonText.moreCall).take 20))))]

theorem twoClients_succeed :
    ∀ e ∈ twoClients.filterMap (ownEvent 1), RemoteCalls.Succeeds e := by
  have own : twoClients.filterMap (ownEvent 1) = [.client .call, .client (.written 0 true 0),
      .server (.receive 0 (.read (JsonText.frame JsonText.moreCall))),
      .client (.receive 0 (.read (JsonText.frame (JsonText.partReply true))) 0)] := rfl
  rw [own]
  simp [RemoteCalls.Succeeds, ClientPairing.Succeeds, ServerReplies.Unfailing]

/-- Whatever the clients of a server do, and in whatever order their events and those of
their sessions come, each of them finds the server as if it were alone: what it and its
session have done is a run of the two. Its calls are therefore passed on in order, each once,
and their handlers are told the replies to them. Connections are accepted one by one, and none
any more once an accept has failed. -/
theorem clients_served (parse : Bytes → ParseResult) (dump : Dump) (stack : Nat)
    (service : Nat → VarlinkService) (calls : Nat → Nat → RemoteCall) (bufsiz clientBufsiz : Nat)
    (es : List Event) (s : Network)
    (run : Runs.run (step parse dump stack service calls bufsiz) (init clientBufsiz) es = some s) :
    Accepted es s.server ∧
      (∀ i, Runs.run (RemoteCalls.step parse dump stack (service i) (calls i))
        (RemoteCalls.init parse clientBufsiz bufsiz) (es.filterMap (ownEvent i)) =
          some (s.peers parse bufsiz i)) ∧
      ∀ i, Conversation dump stack (service i) (calls i) parse →
        (∀ e ∈ es.filterMap (ownEvent i), RemoteCalls.Succeeds e) →
          ∃ d ≤ (s.clients i).issued,
            (s.server.sessions[i]?.map Server.dispatched).getD [] = messages (calls i) d ∧
            results dump stack (service i) (calls i) (d - 1) <+: (s.clients i).log.map (·.1) ∧
            (s.clients i).log.map (·.1) <+: results dump stack (service i) (calls i) d := by
  refine ⟨run_accepted run, run_peers run, fun i conversation succeeds => ?_⟩
  have conversing := RemoteCalls.Conversing.of_run conversation (run_peers run i) succeeds
    (Nat.le_refl _)
  obtain ⟨d, within, dispatched, floor, ceiling⟩ := conversing.served conversation
  refine ⟨d, within, ?_, floor, ceiling⟩
  rw [← dispatched, peers]
  cases s.server.sessions[i]? with
  | none => rfl
  | some session => rfl

theorem clients_served_two :
    ∃ s, Runs.run (step JsonText.parsePing JsonText.dump 1
        (fun _ => pingService ServerReplies.twice) (fun _ => RemoteCalls.pingCalls) 64) (init 64)
        twoClients = some s ∧ s.server.sessions.length = 2 ∧ (s.clients 1).log.length = 1 ∧
      Runs.run (RemoteCalls.step JsonText.parsePing JsonText.dump 1
          (pingService ServerReplies.twice) RemoteCalls.pingCalls)
        (RemoteCalls.init JsonText.parsePing 64 64) (twoClients.filterMap (ownEvent 0)) =
          some (s.peers JsonText.parsePing 64 0) ∧
      (s.clients 1).log.map (·.1) <+: results JsonText.dump 1
        (pingService ServerReplies.twice) RemoteCalls.pingCalls 1 := by
  have enabled : (Runs.run (step JsonText.parsePing JsonText.dump 1
      (fun _ => pingService ServerReplies.twice) (fun _ => RemoteCalls.pingCalls) 64) (init 64)
      twoClients).any (fun s => s.server.sessions.length == 2 && (s.clients 1).log.length == 1 &&
        (s.clients 1).issued == 1) = true := by decide +kernel
  obtain ⟨s, run, ends⟩ := (Option.any_eq_true _ _).mp enabled
  simp only [Bool.and_eq_true, beq_iff_eq] at ends
  obtain ⟨⟨two, one⟩, issued⟩ := ends
  obtain ⟨-, own, served⟩ := clients_served JsonText.parsePing JsonText.dump 1
    (fun _ => pingService ServerReplies.twice) (fun _ => RemoteCalls.pingCalls) 64 64 twoClients s
    run
  obtain ⟨d, within, -, -, ceiling⟩ := served 1 RemoteCalls.pingConversation twoClients_succeed
  exact ⟨s, run, two, one, own 0,
    ceiling.trans (ClientPairing.flatMap_range_prefix _ (issued ▸ within))⟩

def lift (i : Nat) : RemoteCalls.Event → Event
  | .client e => .client i e
  | .server e => .server (.session i e)

section Lifting
variable {parse : Bytes → ParseResult} {dump : Dump} {stack : Nat} {service : Nat → VarlinkService}
  {calls : Nat → Nat → RemoteCall} {bufsiz clientBufsiz issued i : Nat}

theorem ownEvent_lift (j : Nat) (f : RemoteCalls.Event) :
    ownEvent j (lift i f) = if i = j then some f else none := by
  cases f <;> rfl

/-- The server has accepted the connection, runs, and its end of it is in order. -/
structure Ready (parse : Bytes → ParseResult) (dump : Dump) (stack : Nat)
    (service : Nat → VarlinkService) (calls : Nat → Nat → RemoteCall)
    (bufsiz clientBufsiz i issued : Nat) (s : Network) : Prop where
  accepted : i < s.server.sessions.length
  running : s.server.running = true
  going : RemoteCalls.Going parse dump stack (service i) (calls i) clientBufsiz bufsiz issued
    (s.peers parse bufsiz i)

theorem Ready.step (conversation : Conversation dump stack (service i) (calls i) parse)
    {s : Network} {f : RemoteCalls.Event} {p : Peers}
    (h : Ready parse dump stack service calls bufsiz clientBufsiz i issued s)
    (getsOn : RemoteCalls.GetsOn f)
    (taken : RemoteCalls.step parse dump stack (service i) (calls i) (s.peers parse bufsiz i) f =
      some p) :
    ∃ t, Network.step parse dump stack service calls bufsiz s (lift i f) = some t ∧
      t.peers parse bufsiz i = p ∧
      Ready parse dump stack service calls bufsiz clientBufsiz i issued t := by
  obtain ⟨accepted, running, going⟩ := h
  have next := going.step conversation getsOn taken
  have found := List.getElem?_eq_getElem accepted
  cases f with
  | client e =>
    simp only [RemoteCalls.step, Option.ite_none_right_eq_some, Option.map_eq_some_iff] at taken
    obtain ⟨arrives, client, stepped, rfl⟩ := taken
    rw [← writtenTo_eq] at arrives
    let t : Network := { s with clients := Function.update s.clients i client }
    have same : t.peers parse bufsiz i = { s.peers parse bufsiz i with client } := by
      simp [t, peers]
    refine ⟨t, ?_, same, accepted, running, same ▸ next⟩
    have moved : (s.clients i).step parse dump (fun k => (calls i k).spec) e = some client :=
      stepped
    simp only [lift, Network.step, moved, Option.map_some]
    exact if_pos arrives
  | server e =>
    simp only [RemoteCalls.step, Option.ite_none_right_eq_some, Option.map_eq_some_iff] at taken
    obtain ⟨arrives, server, stepped, rfl⟩ := taken
    let t : Network := { s with server := { s.server with
      sessions := s.server.sessions.set i server } }
    have same : t.peers parse bufsiz i = { s.peers parse bufsiz i with server } := by
      simp [t, peers, accepted]
    refine ⟨t, ?_, same, by simpa [t] using accepted, ?_, same ▸ next⟩
    · have own : (s.peers parse bufsiz i).server = s.server.sessions[i] := by simp [peers, found]
      rw [own] at arrives stepped
      simp only [lift, Network.step, AsyncServer.step, running, found, Option.bind_some, stepped,
        Option.map_some, if_true]
      refine if_pos fun session only => ?_
      obtain rfl := Option.some.inj only
      exact arrives
    · refine List.all_eq_true.mpr fun session member => ?_
      rcases List.mem_or_eq_of_mem_set member with old | rfl
      · exact List.all_eq_true.mp running session old
      · exact Option.isNone_iff_eq_none.mpr next.conversing.alive.running

end Lifting

/-- A client whose connection has been accepted is never held up by others: its calls can
be completed by events of its own connection, whatever the others are waiting for, and the
other connections stay as they are. -/
theorem client_completes (parse : Bytes → ParseResult) (dump : Dump) (stack : Nat)
    (service : Nat → VarlinkService) (calls : Nat → Nat → RemoteCall) (bufsiz clientBufsiz : Nat)
    (es : List Event) (s : Network)
    (run : Runs.run (step parse dump stack service calls bufsiz) (init clientBufsiz) es = some s)
    (running : s.server.running = true) (i : Nat) (accepted : i < s.server.sessions.length)
    (conversation : Conversation dump stack (service i) (calls i) parse)
    (fits : RemoteCalls.Fits dump stack (service i) (calls i) clientBufsiz bufsiz)
    (succeeds : ∀ e ∈ es.filterMap (ownEvent i), RemoteCalls.Succeeds e) :
    ∃ (fs : List RemoteCalls.Event) (t : Network), (∀ f ∈ fs, RemoteCalls.GetsOn f) ∧
      Runs.run (step parse dump stack service calls bufsiz) s (fs.map (lift i)) = some t ∧
      (t.clients i).issued = (s.clients i).issued ∧
      RemoteCalls.Completed dump stack (service i) (calls i) (t.peers parse bufsiz i) ∧
      ∀ j, j ≠ i → t.peers parse bufsiz j = s.peers parse bufsiz j := by
  have going := RemoteCalls.Going.of_run conversation (run_peers run i) succeeds
  obtain ⟨fs, p, all, gets, final, completed⟩ := going.exists_completed conversation fits
  obtain ⟨t, lifted, rfl, -⟩ := Runs.run_lift
    (fun _ _ _ ready getsOn taken => Ready.step conversation ready getsOn taken)
    ⟨accepted, running, going⟩ all gets
  refine ⟨fs, t, all, lifted, final.issued_eq, completed, fun j other => ?_⟩
  have unseen : (fs.map (lift i)).filterMap (ownEvent j) = [] := by
    simp only [List.filterMap_map, List.filterMap_eq_nil_iff, Function.comp_apply, ownEvent_lift,
      if_neg (Ne.symm other), implies_true]
  have projected := Runs.run_project (fun _ _ _ taken => step_peers taken j) lifted
  rw [unseen] at projected
  exact (Option.some.inj projected).symm

theorem client_completes_two :
    ∃ s, Runs.run (step JsonText.parsePing JsonText.dump 1
        (fun _ => pingService ServerReplies.twice) (fun _ => RemoteCalls.pingCalls) 64) (init 64)
        twoClients = some s ∧
      ∃ (fs : List RemoteCalls.Event) (t : Network),
        Runs.run (step JsonText.parsePing JsonText.dump 1
          (fun _ => pingService ServerReplies.twice) (fun _ => RemoteCalls.pingCalls) 64) s
          (fs.map (lift 1)) = some t ∧
        RemoteCalls.Completed JsonText.dump 1 (pingService ServerReplies.twice)
          RemoteCalls.pingCalls (t.peers JsonText.parsePing 64 1) := by
  have enabled : (Runs.run (step JsonText.parsePing JsonText.dump 1
      (fun _ => pingService ServerReplies.twice) (fun _ => RemoteCalls.pingCalls) 64) (init 64)
      twoClients).any (fun s => s.server.sessions.length == 2 && s.server.running) = true := by
    decide +kernel
  obtain ⟨s, run, ends⟩ := (Option.any_eq_true _ _).mp enabled
  simp only [Bool.and_eq_true, beq_iff_eq] at ends
  obtain ⟨two, running⟩ := ends
  obtain ⟨fs, t, -, lifted, -, completed, -⟩ := client_completes JsonText.parsePing
    JsonText.dump 1 (fun _ => pingService ServerReplies.twice)
    (fun _ => RemoteCalls.pingCalls) 64 64 twoClients s run running 1 (by omega)
    RemoteCalls.pingConversation RemoteCalls.pingFits twoClients_succeed
  exact ⟨s, run, fs, t, lifted, completed⟩

end Network

end Varlink
