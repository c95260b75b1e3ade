import Varlink.RemoteProgress
import Varlink.SyncCalls

/-! The synchronous calls of a client come to an end if it drains its streams in order:
nobody waits for a reply that does not come, until all that the client has called is
answered and read. -/

namespace Varlink.SyncCalls

open RemoteCalls (RemoteCall Conversation Serving Fits replies messages sessionActivity)
open SyncClient (System Served reader)
open Varlink.Frame (texts)

section Order
variable (dump : Dump) (calls : Nat → RemoteCall)

/-- Who reads has no earlier call whose replies have not all been read, and no read fails. -/
def InOrder (s : Peers) : Event → Prop
  | .client e => e ≠ .readError ∧ ∀ n ∈ reader dump s.client (e.on (calls s.requests.length)),
      ∀ mode ∈ s.client.functors.take n, mode = .oneway
  | .server e => ServerReplies.Unfailing e

/-- An event with which one of the ends gets on with the calls made so far. -/
def Advances (s : Peers) : Event → Prop
  | .client .call => False
  | .client (.invoke n) => s.client.functors[n]? ≠ some .oneway
  | .client (.read chunk) => chunk ≠ []
  | .client .readError => False
  | .server e => RemoteCalls.GetsOn (.server e)

def GetsOn (s : Peers) (e : Event) : Prop := InOrder dump calls s e ∧ Advances s e

theorem InOrder.proceeds {s : Peers} {e : Event} (h : InOrder dump calls s e) :
    Proceeds dump calls s e := by
  cases e with
  | client e => exact fun n reads _ => h.2 n reads
  | server e => exact h

end Order

section Ordered
variable {parse : Bytes → ParseResult} {dump : Dump} {bufsiz : Nat} {s t : System}

/-- There is a functor for each request; it has its mode until it is drained. -/
structure Issued (s : System) : Prop where
  lengths : s.modes.length = s.functors.length
  modes : ∀ (n : Nat) (mode : Callmode), s.functors[n]? = some mode → mode ≠ .oneway →
    s.modes[n]? = some mode

/-- The functor that reads is the first that is not drained, and the others that are not
can be invoked. -/
structure Ordered (s : System) : Prop extends Issued s where
  first : ∀ n, s.reading = some n → ∀ mode ∈ s.functors.take n, mode = .oneway
  others : ∀ (n : Nat) (mode : Callmode), s.reading ≠ some n → s.functors[n]? = some mode →
    mode ≠ .oneway → mode = .more

theorem Ordered.init (bufsiz : Nat) : Ordered (SyncClient.init bufsiz) where
  lengths := rfl
  modes _ _ at_ := by simp [SyncClient.init] at at_
  first _ reading := by simp [SyncClient.init] at reading
  others _ _ _ at_ := by simp [SyncClient.init] at at_

theorem onFrame_open {mode : Callmode} {frame : Bytes} {reply : Json}
    (parsed : parse frame = .value reply)
    (open_ : (CallMore.onFrame parse mode frame).1 ≠ .oneway) :
    mode = .more ∧ (CallMore.onFrame parse mode frame).1 = .more := by
  simp only [CallMore.onFrame, parsed, CallMore.onReply] at open_ ⊢
  by_cases error : reply.contains "error" = true
  · rw [if_pos error] at open_
    exact absurd (by split <;> rfl) open_
  · rw [if_neg error] at open_ ⊢
    by_cases stream : mode = .more
    · subst stream
      refine ⟨rfl, ?_⟩
      simp only [bne_self_eq_false, Bool.false_eq_true, if_false] at open_ ⊢
      cases flag : replyContinues reply with
      | error e => rfl
      | ok continues =>
        simp only [flag] at open_ ⊢
        cases continues with
        | false => exact absurd (by split <;> rfl) open_
        | true => split <;> rfl
    · simp only [bne_iff_ne, ne_eq, stream, not_false_eq_true, if_true, Bool.false_eq_true,
        if_false] at open_
      exact absurd (by split <;> rfl) open_

theorem Issued.resume (h : Issued s) {n : Nat} {mode : Callmode}
    (at_ : s.functors[n]? = some mode) (open_ : mode ≠ .oneway)
    (drained : ∀ m ∈ s.functors.take n, m = .oneway)
    (others : ∀ (k : Nat) (m : Callmode), k ≠ n → s.functors[k]? = some m → m ≠ .oneway →
      m = .more)
    {r : ReceiveFraming.Receiver} {bytes : Bytes} (inFlight : Bytes)
    (received : 0 ∉ bytes ∧ r.messages = s.receiver.messages ∧ (∃ w, r.pending = .receiving w) ∨
      0 ∈ bytes ∧ (∃ frame, r.messages = s.receiver.messages ++ [frame]) ∧ r.pending = .idle)
    (parsed : ∀ frame, r.messages = s.receiver.messages ++ [frame] →
      ∃ reply, parse frame = .value reply) :
    Ordered { SyncClient.resume parse n mode r s with inFlight } := by
  rcases received with ⟨-, same, -⟩ | ⟨-, ⟨frame, cut⟩, -⟩
  · simp only [SyncClient.resume, same, List.drop_length]
    exact
      { lengths := h.lengths
        modes := h.modes
        first := fun k reading => Option.some.inj reading ▸ drained
        others := fun k m reading => others k m fun same => reading (congrArg some same.symm) }
  · obtain ⟨reply, value⟩ := parsed frame cut
    simp only [SyncClient.resume, cut, List.drop_left]
    refine
      { lengths := by rw [List.length_set, h.lengths]
        modes := fun k m found kept => ?_
        first := by rintro _ ⟨⟩
        others := fun k m _ found kept => ?_ }
    · by_cases same : k = n
      · subst same
        rw [List.getElem?_set_self (List.getElem?_eq_some_iff.mp at_).1] at found
        obtain rfl := Option.some.inj found
        obtain ⟨stream, more⟩ := onFrame_open value kept
        rw [more, ← stream]
        exact h.modes k mode at_ open_
      · rw [List.getElem?_set_ne (Ne.symm same)] at found
        exact h.modes k m found kept
    · by_cases same : k = n
      · subst same
        rw [List.getElem?_set_self (List.getElem?_eq_some_iff.mp at_).1] at found
        obtain rfl := Option.some.inj found
        exact (onFrame_open value kept).2
      · rw [List.getElem?_set_ne (Ne.symm same)] at found
        exact others k m same found kept

theorem Issued.send (h : Issued s) (mode : Callmode) : Issued (SyncClient.send mode s) where
  lengths := by simp only [SyncClient.send, List.length_append, h.lengths, List.length_singleton]
  modes n m found kept := by
    simp only [SyncClient.send] at found ⊢
    rcases Nat.lt_or_ge n s.functors.length with old | new
    · rw [List.getElem?_append_left old] at found
      rw [List.getElem?_append_left (h.lengths.symm ▸ old)]
      exact h.modes n m found kept
    · rw [List.getElem?_append_right new] at found
      rwa [List.getElem?_append_right (h.lengths.symm ▸ new), h.lengths]

theorem functors_send {n : Nat} {mode m : Callmode} (other : n ≠ s.functors.length)
    (found : (SyncClient.send mode s).functors[n]? = some m) : s.functors[n]? = some m := by
  rcases Nat.lt_or_ge n s.functors.length with old | new
  · rwa [SyncClient.send, List.getElem?_append_left old] at found
  · rw [SyncClient.send, List.getElem?_append_right new] at found
    obtain ⟨within, -⟩ := List.getElem?_eq_some_iff.mp found
    rw [List.length_singleton] at within
    omega

theorem Issued.invoke (h : Issued s) (served : Served parse bufsiz s)
    (parsed : ∀ a ∈ s.answers, ∃ reply, parse a.2 = .value reply) (idle : s.reading = none)
    {n : Nat} {mode : Callmode} (at_ : s.functors[n]? = some mode)
    (drained : mode ≠ .oneway → ∀ m ∈ s.functors.take n, m = .oneway)
    (others : ∀ (k : Nat) (m : Callmode), k ≠ n → s.functors[k]? = some m → m ≠ .oneway →
      m = .more) : Ordered (SyncClient.invoke parse n mode s) := by
  unfold SyncClient.invoke
  split
  · next done =>
    exact
      { h with
        first := fun k reading => by simp [idle] at reading
        others := fun k m _ found kept => others k m (by
          rintro rfl
          exact kept ((Option.some.inj (found.symm.trans at_)).trans done)) found kept }
  · next open_ =>
    obtain ⟨framed, -, same, received⟩ := served.receive idle
    rw [← SyncClient.resume_inFlight]
    refine h.resume at_ open_ (drained open_) others _ received fun frame cut => ?_
    obtain ⟨owner, next⟩ := SyncClient.next_answer framed (same ▸ served.travels) served.clean cut
    exact parsed _ (List.mem_of_getElem? next)


theorem step_ordered {e : SyncClient.Event} (h : Ordered s) (served : Served parse bufsiz s)
    (parsed : ∀ a ∈ s.answers, ∃ reply, parse a.2 = .value reply) (reads : e ≠ .readError)
    (order : ∀ n ∈ reader dump s e, ∀ m ∈ s.functors.take n, m = .oneway)
    (stepped : SyncClient.step parse dump s e = some t) : Ordered t := by
  cases SyncClient.step_cases stepped with
  | refused => exact h
  | sent idle =>
    refine
      { h.toIssued.send .more with
        first := fun k reading => by simp [SyncClient.send, idle] at reading
        others := fun k m _ found kept => ?_ }
    by_cases same : k = s.functors.length
    · subst same
      simp only [SyncClient.send, List.getElem?_concat_length, Option.some.injEq] at found
      exact found.symm
    · exact h.others k m (by simp [idle]) (functors_send same found) kept
  | @called mode message text idle dumped single =>
    have others : ∀ (k : Nat) (m : Callmode), k ≠ s.functors.length →
        (SyncClient.send mode s).functors[k]? = some m → m ≠ .oneway → m = .more :=
      fun k m other found kept => h.others k m (by simp [idle]) (functors_send other found) kept
    refine (h.toIssued.send mode).invoke (served.send mode) parsed idle (by simp [SyncClient.send])
      (fun open_ => ?_) others
    have reader_ : reader dump s (.call mode message) = some s.functors.length := by
      cases mode <;> simp_all [reader, Except.toOption]
    simpa [SyncClient.send] using order _ reader_
  | @invoked n mode idle at_ =>
    refine h.toIssued.invoke served parsed idle at_ (fun open_ => ?_)
      fun k m _ found kept => h.others k m (by simp [idle]) found kept
    have reader_ : reader dump s (.invoke n) = some n := by simp [reader, at_, open_]
    exact order n reader_
  | @read n mode chunk later r reading at_ arrives taken =>
    obtain ⟨framed, -, travels, received⟩ := served.read reading arrives taken
    obtain ⟨-, m, found, open_⟩ := served.reads n reading
    cases at_.symm.trans found
    refine h.toIssued.resume at_ open_ (h.first n reading) (fun k m other found kept =>
      h.others k m (fun same => other (Option.some.inj (same.symm.trans reading))) found kept)
      later received fun frame cut => ?_
    obtain ⟨owner, next⟩ :=
      SyncClient.next_answer (s := { s with inFlight := later }) framed travels served.clean cut
    exact parsed _ (List.mem_of_getElem? next)
  | readError => exact absurd rfl reads
  | answer => exact { h with }

/-- What a client has done: bytes read, messages cut out, and a receive that it waits in. -/
def clientActivity (c : System) : Int :=
  c.receiver.received.length + 2 * c.receiver.messages.length + c.reading.toList.length

theorem resume_activity (parse : Bytes → ParseResult) (n : Nat) (mode : Callmode)
    {r : ReceiveFraming.Receiver} {bytes : Bytes} (inFlight : Bytes)
    (received : 0 ∉ bytes ∧ r.messages = s.receiver.messages ∧ (∃ w, r.pending = .receiving w) ∨
      0 ∈ bytes ∧ (∃ frame, r.messages = s.receiver.messages ++ [frame]) ∧ r.pending = .idle) :
    (r.received.length + 2 * s.receiver.messages.length + 1 : Int) ≤
      clientActivity { SyncClient.resume parse n mode r s with inFlight } := by
  rcases received with ⟨-, same, -⟩ | ⟨-, ⟨frame, cut⟩, -⟩
  · simp only [clientActivity, SyncClient.resume, same, List.drop_length, Option.toList_some,
      List.length_singleton]
    omega
  · simp only [clientActivity, SyncClient.resume, cut, List.drop_left, Option.toList_none,
      List.length_append, List.length_singleton, List.length_nil]
    omega

theorem client_advances {call : RemoteCall} {e : ClientEvent} (served : Served parse bufsiz s)
    (advances : match e with
      | .invoke n => s.functors[n]? ≠ some .oneway
      | .read chunk => chunk ≠ []
      | _ => False)
    (stepped : SyncClient.step parse dump s (e.on call) = some t) :
    clientActivity s + 1 ≤ clientActivity t := by
  have steps := SyncClient.step_cases stepped
  cases e with
  | call => exact absurd advances id
  | readError => exact absurd advances id
  | invoke n =>
    cases steps with
    | @invoked n mode idle at_ =>
      have open_ : mode ≠ .oneway := fun done => advances (done ▸ at_)
      obtain ⟨-, -, same, received⟩ := served.receive idle
      have more := resume_activity parse n mode s.inFlight received
      rw [SyncClient.invoke, if_neg open_, ← SyncClient.resume_inFlight]
      simp only [clientActivity, idle, Option.toList_none, List.length_nil, same] at more ⊢
      omega
  | read chunk =>
    cases steps with
    | @read n mode chunk later r reading at_ arrives taken =>
      obtain ⟨-, -, travels, received⟩ := served.read reading arrives taken
      have more := resume_activity parse n mode later received
      have some_ := List.length_pos_iff.mpr advances
      have grown : r.received = s.receiver.received ++ chunk := by
        have before := served.travels
        rw [arrives, ← List.append_assoc, ← travels] at before
        exact (List.append_cancel_right before).symm
      simp only [clientActivity, reading, Option.toList_some, List.length_singleton, grown,
        List.length_append] at more ⊢
      omega

theorem undrained_eq_nil_iff {modes : List Callmode} {n : Nat} :
    SyncClient.undrained n modes = [] ↔ ∀ m ∈ modes, m = .oneway := by
  induction modes generalizing n with
  | nil => simp [SyncClient.undrained]
  | cons m rest ih =>
    rw [SyncClient.undrained, List.forall_mem_cons]
    by_cases drained : m = .oneway
    · simp [drained, ih]
    · simp [drained]

theorem exists_first {modes : List Callmode} (some_ : ¬∀ m ∈ modes, m = .oneway) :
    ∃ (n : Nat) (mode : Callmode), modes[n]? = some mode ∧ mode ≠ .oneway ∧
      ∀ m ∈ modes.take n, m = .oneway := by
  induction modes with
  | nil => exact absurd (List.forall_mem_nil _) some_
  | cons m rest ih =>
    by_cases drained : m = .oneway
    · obtain ⟨n, mode, found, open_, earlier⟩ := ih fun all =>
        some_ (List.forall_mem_cons.mpr ⟨drained, all⟩)
      exact ⟨n + 1, mode, found, open_, List.forall_mem_cons.mpr ⟨drained, earlier⟩⟩
    · exact ⟨0, m, rfl, drained, List.forall_mem_nil _⟩

theorem exists_receive {r : ReceiveFraming.Receiver} {w : ReadWindow} {frames : List Bytes}
    (framed : ReceiveFraming.Framed parse bufsiz r) (waiting : ReceiveFraming.Waiting r)
    (pending : r.pending = .receiving w) (clean : ∀ f ∈ frames, 0 ∉ f)
    (short : ∀ f ∈ frames, f.length < bufsiz) (arrives : r.received <+: Delimited.encode 0 frames)
    (more : r.received ≠ Delimited.encode 0 frames) :
    ∃ byte t, r.received ++ [byte] <+: Delimited.encode 0 frames ∧
      ReceiveFraming.step parse r (.read [byte]) = some t := by
  obtain ⟨rfl, unfinished⟩ := waiting w (by rw [pending]; rfl)
  obtain ⟨offered, byte, next⟩ := RemoteCalls.exists_byte
    ⟨framed.received_eq, framed.clean, unfinished⟩ framed.end_le_length clean short
    (Nat.le_of_eq framed.size_eq.symm) arrives more
  have taken : ReceiveFraming.step parse r (.read [byte]) = some (ReceiveFraming.receive parse
      (ReceiveFraming.fill r r.buffer.window [byte])) := by
    simp only [ReceiveFraming.step, pending, List.length_singleton]
    exact if_pos offered
  exact ⟨byte, _, next, taken⟩

theorem read_enabled {n : Nat} {mode : Callmode} {chunk : Bytes} {r : ReceiveFraming.Receiver}
    (reading : s.reading = some n) (at_ : s.functors[n]? = some mode)
    (received : ReceiveFraming.step parse s.receiver (.read chunk) = some r) :
    ∃ t, SyncClient.step parse dump { s with inFlight := chunk } (.read chunk) = some t := by
  have whole : chunk.isPrefixOf chunk = true := List.isPrefixOf_iff_prefix.mpr List.prefix_rfl
  simp only [SyncClient.step, reading, at_, Option.bind_some, Option.map_some, whole, if_true,
    received]
  exact ⟨_, rfl⟩

theorem invoke_enabled {n : Nat} (idle : s.reading = none) (issued : s.modes[n]? = some .more)
    (found : s.functors[n]? = some .more) (inFlight : Bytes) :
    ∃ t, SyncClient.step parse dump { s with inFlight } (.invoke n) = some t := by
  simp only [SyncClient.step, idle, issued, found]
  exact ⟨_, rfl⟩

end Ordered

section Progress
variable {parse : Bytes → ParseResult} {dump : Dump} {stack : Nat} {service : VarlinkService}
  {calls : Nat → RemoteCall} {clientBufsiz serverBufsiz limit : Nat} {s t : Peers}

def activity (s : Peers) : Int := clientActivity s.client + sessionActivity s.server.session

def bound (dump : Dump) (stack : Nat) (service : VarlinkService) (calls : Nat → RemoteCall)
    (n : Nat) : Nat :=
  let requests := ClientPairing.requests (fun k => (calls k).spec) n
  let answers := (List.range n).flatMap (replies dump stack service calls)
  3 * (Delimited.encode 0 (texts dump requests)).length +
    3 * (Delimited.encode 0 (texts dump answers)).length + 2 * answers.length + 1

/-- Every call made is passed on, and all replies to it are read. -/
structure Completed (dump : Dump) (stack : Nat) (service : VarlinkService)
    (calls : Nat → RemoteCall) (s : Peers) : Prop where
  dispatched : s.server.dispatched = messages calls s.requests.length
  answered : s.client.results.filterMap answered =
    results dump stack service calls s.requests.length

/-- What holds between two events of a run in which the streams are drained in order. -/
structure Going (parse : Bytes → ParseResult) (dump : Dump) (stack : Nat)
    (service : VarlinkService) (calls : Nat → RemoteCall)
    (clientBufsiz serverBufsiz limit : Nat) (s : Peers) : Prop
    extends Conversing parse dump stack service calls clientBufsiz limit s where
  ordered : Ordered s.client
  room : serverBufsiz ≤ s.server.session.connection.inbound.buffer.readbuf.length

namespace Going
variable (conversation : Conversation dump stack service calls parse)
include conversation

theorem init (limit clientBufsiz serverBufsiz : Nat) :
    Going parse dump stack service calls clientBufsiz serverBufsiz limit
      (init parse clientBufsiz serverBufsiz) :=
  { Conversing.init conversation limit clientBufsiz serverBufsiz with
    ordered := .init clientBufsiz
    room := (RemoteCalls.Room.init clientBufsiz serverBufsiz).server }

theorem step {e : Event}
    (h : Going parse dump stack service calls clientBufsiz serverBufsiz limit s)
    (within : s.requests.length ≤ limit) (inOrder : InOrder dump calls s e)
    (taken : SyncCalls.step parse dump stack service calls s e = some t) :
    Going parse dump stack service calls clientBufsiz serverBufsiz limit t := by
  have conversing := h.toConversing.step conversation within (inOrder.proceeds dump calls) taken
  cases e with
  | client e =>
    simp only [SyncCalls.step, Option.ite_none_right_eq_some, Option.map_eq_some_iff] at taken
    obtain ⟨arrives, d, stepped, rfl⟩ := taken
    obtain ⟨answers, unanswered, later, same, -, served, faced⟩ :=
      h.toConversing.faces conversation within arrives stepped
    obtain ⟨reads, order⟩ := inOrder
    have before : Ordered (facing s.client answers unanswered
        ((e.on (calls s.requests.length)).chunk ++ later)) := { h.ordered with }
    have parsed : ∀ a ∈ answers, ∃ reply, parse a.2 = .value reply := by
      intro a member
      subst same
      obtain ⟨-, reply, -, parsed⟩ := mem_framesOf conversation (List.mem_of_mem_take member)
      exact ⟨reply, parsed⟩
    have reads : e.on (calls s.requests.length) ≠ .readError := by
      cases e <;> simp_all [ClientEvent.on]
    have ordered := step_ordered before served parsed reads order faced
    exact { conversing with ordered := { ordered with }, room := h.room }
  | server e =>
    simp only [SyncCalls.step, Option.ite_none_right_eq_some, Option.map_eq_some_iff] at taken
    obtain ⟨-, server, stepped, rfl⟩ := taken
    exact
      { conversing with
        ordered := h.ordered
        room := Nat.le_trans h.room (RemoteCalls.server_later stepped).room }

theorem step_activity {e : Event}
    (h : Going parse dump stack service calls clientBufsiz serverBufsiz limit s)
    (within : s.requests.length ≤ limit) (getsOn : GetsOn dump calls s e)
    (taken : SyncCalls.step parse dump stack service calls s e = some t) :
    activity s + 1 ≤ activity t ∧ t.requests = s.requests := by
  obtain ⟨-, advances⟩ := getsOn
  cases e with
  | client e =>
    simp only [SyncCalls.step, Option.ite_none_right_eq_some, Option.map_eq_some_iff] at taken
    obtain ⟨arrives, d, stepped, rfl⟩ := taken
    obtain ⟨answers, unanswered, later, -, -, served, faced⟩ :=
      h.toConversing.faces conversation within arrives stepped
    have more : clientActivity (facing s.client _ _ _) + 1 ≤ clientActivity (facing d _ _ _) :=
      client_advances served (by cases e <;> exact advances) faced
    refine ⟨?_, ?_⟩
    · simp only [activity]
      simp only [clientActivity, facing] at more ⊢
      omega
    · cases e with
      | call => exact absurd advances id
      | _ => exact List.append_nil _
  | server e =>
    simp only [SyncCalls.step, Option.ite_none_right_eq_some, Option.map_eq_some_iff] at taken
    obtain ⟨-, server, stepped, rfl⟩ := taken
    have more := RemoteCalls.server_activity advances h.server stepped
    refine ⟨?_, rfl⟩
    simp only [activity]
    omega

theorem activity_le (h : Going parse dump stack service calls clientBufsiz serverBufsiz limit s)
    (within : s.requests.length ≤ limit) :
    activity s ≤ bound dump stack service calls limit := by
  have requests : s.requests <+: ClientPairing.requests (fun k => (calls k).spec) limit :=
    h.issued ▸ RemoteCalls.requests_isPrefix within
  have server := h.toServing.activity_le conversation requests
  obtain ⟨unanswered, inFlight, -, served⟩ := h.client
  obtain ⟨n, -, -, -, written⟩ := h.dispatched_told conversation within
  have cut : s.client.receiver.messages.length ≤ s.client.receiver.received.length := by
    have framed := congrArg List.length served.framed.received_eq
    rw [List.length_append] at framed
    have := Delimited.length_le_encode 0 s.client.receiver.messages
    simp only [facing] at framed
    omega
  have heard := congrArg List.length served.travels
  have all := (@RemoteCalls.encode_texts_isPrefix dump _ _
    (h.toServing.answers conversation)).length_le
  rw [RemoteCalls.answers_messages] at all
  simp only [facing, written, List.length_append] at heard
  have waits : s.client.reading.toList.length ≤ 1 := by cases s.client.reading <;> simp
  simp only [activity, clientActivity, bound]
  omega

omit conversation in
theorem step_of_client {e : ClientEvent}
    (arrives : s.client.receiver.received ++ (e.on (calls s.requests.length)).chunk <+:
      Delimited.encode 0 (texts dump s.server.session.connection.written))
    (enabled : ∃ d, SyncClient.step parse dump
      { s.client with inFlight := (e.on (calls s.requests.length)).chunk }
      (e.on (calls s.requests.length)) = some d) :
    ∃ t, SyncCalls.step parse dump stack service calls s (.client e) = some t := by
  obtain ⟨d, stepped⟩ := enabled
  simp only [SyncCalls.step, arrives, if_true, stepped, Option.map_some]
  exact ⟨_, rfl⟩

theorem goesOn (fits : Fits dump stack service calls clientBufsiz serverBufsiz)
    (h : Going parse dump stack service calls clientBufsiz serverBufsiz s.requests.length s) :
    Completed dump stack service calls s ∨ ∃ e t, GetsOn dump calls s e ∧
      SyncCalls.step parse dump stack service calls s e = some t := by
  rcases (h.issued ▸ h.toServing).getsOn conversation fits.requests h.room with
    ⟨e, server, getsOn, arrives, stepped⟩ | ⟨dispatched, written⟩
  · rw [← h.issued] at arrives
    refine .inr ⟨.server e, { s with server }, ⟨?_, getsOn⟩, ?_⟩
    · exact RemoteCalls.GetsOn.succeeds getsOn
    · simp only [SyncCalls.step, arrives, if_true, stepped, Option.map_some]
  obtain ⟨unanswered, inFlight, queued, served⟩ := h.client
  obtain ⟨n, -, -, among, texts_⟩ := h.dispatched_told conversation (Nat.le_refl _)
  -- the session has answered all calls
  have told_ : told dump stack service calls s.requests.length
      s.server.session.connection.written =
        framesOf dump stack service calls s.requests.length := by
    rw [written, ← framesOf_frames] at texts_
    have length := congrArg List.length texts_
    rw [List.length_map, List.length_map, ← written] at length
    exact (List.take_prefix _ _).eq_of_length length
  obtain rfl : unanswered = [] := by
    rw [told_, run_framesOf conversation] at queued
    exact (Option.some.inj queued).symm
  have clean : ∀ f ∈ texts dump s.server.session.connection.written, 0 ∉ f := by
    rw [← texts_]
    intro f member
    obtain ⟨a, sent, rfl⟩ := List.mem_map.mp member
    exact served.clean a sent
  have travels := served.travels
  have arrives : s.client.receiver.received <+:
      Delimited.encode 0 (texts dump s.server.session.connection.written) := by
    simp only [facing, texts_] at travels
    exact ⟨inFlight, travels⟩
  have left := served.served
  simp only [facing, told_] at left
  cases reading : s.client.reading with
  | some n =>
    obtain ⟨⟨w, pending⟩, mode, at_, open_⟩ := served.reads n reading
    by_cases all : s.client.receiver.received =
        Delimited.encode 0 (texts dump s.server.session.connection.written)
    · -- the functor would have been drained by what has been read
      exfalso
      have unfinished := (served.waiting w (by rw [pending]; rfl)).2
      have read : Delimited.Reads 0 s.client.receiver.received s.client.receiver.messages
          s.client.receiver.buffer.contents :=
        ⟨served.framed.received_eq, served.framed.clean, unfinished⟩
      have whole := (read.unique (all ▸ Delimited.reads_encode clean)).1
      rw [whole, ← texts_, List.length_map, told_, List.drop_length] at left
      have drained := undrained_eq_nil_iff.mp (Option.some.inj left)
      exact open_ (drained mode (List.mem_of_getElem? at_))
    · obtain ⟨byte, r, next, received⟩ := exists_receive served.framed served.waiting pending clean
        (fun f member => by
          obtain ⟨k, text⟩ := RemoteCalls.mem_texts_answers (written ▸ member)
          exact fits.replies k f text) arrives all
      obtain ⟨t, taken⟩ : ∃ t, SyncCalls.step parse dump stack service calls s
          (.client (.read [byte])) = some t :=
        step_of_client next (read_enabled reading at_ received)
      have inOrder : InOrder dump calls s (.client (.read [byte])) :=
        ⟨by rintro ⟨⟩, fun k reads => h.ordered.first k reads⟩
      exact .inr ⟨_, t, ⟨inOrder, List.cons_ne_nil _ _⟩, taken⟩
  | none =>
    by_cases drained : ∀ m ∈ s.client.functors, m = .oneway
    · rw [undrained_eq_nil_iff.mpr drained] at left
      have none_ : (framesOf dump stack service calls s.requests.length).drop
          s.client.receiver.messages.length = [] := by
        generalize (framesOf dump stack service calls s.requests.length).drop _ = rest at left
        cases rest with
        | nil => rfl
        | cons a rest =>
          rw [Runs.run_cons] at left
          cases left
      refine .inl ⟨dispatched, ?_⟩
      rw [h.results_eq conversation (Nat.le_refl _), told_, ← framesOf_outcomes conversation,
        List.take_of_length_le (List.drop_eq_nil_iff.mp none_)]
    · obtain ⟨n, mode, found, open_, first⟩ := exists_first drained
      have stream : mode = .more := h.ordered.others n mode (by simp [reading]) found open_
      subst stream
      obtain ⟨t, taken⟩ : ∃ t, SyncCalls.step parse dump stack service calls s
          (.client (.invoke n)) = some t :=
        step_of_client ((List.append_nil _).symm ▸ arrives)
          (invoke_enabled reading (h.ordered.modes n .more found open_) found _)
      have inOrder : InOrder dump calls s (.client (.invoke n)) := by
        refine ⟨by rintro ⟨⟩, fun k reads => ?_⟩
        simp only [ClientEvent.on, reader, found, Option.some.injEq, reduceCtorEq, if_false,
          Option.mem_def] at reads
        exact reads ▸ first
      have advances : Advances s (.client (.invoke n)) := by
        simp only [Advances, found, ne_eq, Option.some.injEq, reduceCtorEq, not_false_eq_true]
      exact .inr ⟨_, t, ⟨inOrder, advances⟩, taken⟩

theorem of_run {es : List Event}
    (run : Runs.run (SyncCalls.step parse dump stack service calls)
      (SyncCalls.init parse clientBufsiz serverBufsiz) es = some s)
    (inOrder : Runs.Along (SyncCalls.step parse dump stack service calls) (InOrder dump calls)
      (SyncCalls.init parse clientBufsiz serverBufsiz) es) :
    Going parse dump stack service calls clientBufsiz serverBufsiz s.requests.length s := by
  have keeps : ∀ t e u, (t.requests.length ≤ s.requests.length →
        Going parse dump stack service calls clientBufsiz serverBufsiz s.requests.length t) →
      InOrder dump calls t e → SyncCalls.step parse dump stack service calls t e = some u →
      u.requests.length ≤ s.requests.length →
        Going parse dump stack service calls clientBufsiz serverBufsiz s.requests.length u := by
    intro t e u held good taken within
    have before := Nat.le_trans (step_requests taken) within
    exact (held before).step conversation before good taken
  exact Runs.run_along_invariant (SyncCalls.step parse dump stack service calls) keeps
    (fun _ => .init conversation _ clientBufsiz serverBufsiz) inOrder run (Nat.le_refl _)

end Going

structure Draining (parse : Bytes → ParseResult) (dump : Dump) (stack : Nat)
    (service : VarlinkService) (calls : Nat → RemoteCall) (clientBufsiz serverBufsiz : Nat)
    (requests : List Json) (s : Peers) : Prop where
  going : Going parse dump stack service calls clientBufsiz serverBufsiz requests.length s
  requests_eq : s.requests = requests

namespace Draining
variable {requests : List Json} (conversation : Conversation dump stack service calls parse)
include conversation

theorem step {e : Event}
    (h : Draining parse dump stack service calls clientBufsiz serverBufsiz requests s)
    (getsOn : GetsOn dump calls s e)
    (taken : SyncCalls.step parse dump stack service calls s e = some t) :
    Draining parse dump stack service calls clientBufsiz serverBufsiz requests t := by
  have within := Nat.le_of_eq (congrArg List.length h.requests_eq)
  obtain ⟨-, same⟩ := h.going.step_activity conversation within getsOn taken
  exact ⟨h.going.step conversation within getsOn.1 taken, same.trans h.requests_eq⟩

theorem grows {e : Event}
    (h : Draining parse dump stack service calls clientBufsiz serverBufsiz requests s)
    (getsOn : GetsOn dump calls s e)
    (taken : SyncCalls.step parse dump stack service calls s e = some t) :
    activity s + 1 ≤ activity t :=
  (h.going.step_activity conversation (Nat.le_of_eq (congrArg List.length h.requests_eq)) getsOn
    taken).1

theorem activity_le
    (h : Draining parse dump stack service calls clientBufsiz serverBufsiz requests s) :
    activity s ≤ bound dump stack service calls requests.length :=
  h.going.activity_le conversation (Nat.le_of_eq (congrArg List.length h.requests_eq))

theorem goesOn (fits : Fits dump stack service calls clientBufsiz serverBufsiz)
    (h : Draining parse dump stack service calls clientBufsiz serverBufsiz requests s) :
    Completed dump stack service calls s ∨ ∃ e t, GetsOn dump calls s e ∧
      SyncCalls.step parse dump stack service calls s e = some t := by
  obtain ⟨going, rfl⟩ := h
  exact going.goesOn conversation fits

theorem exists_completed (fits : Fits dump stack service calls clientBufsiz serverBufsiz)
    (h : Draining parse dump stack service calls clientBufsiz serverBufsiz requests s) :
    ∃ fs t, Runs.Along (SyncCalls.step parse dump stack service calls) (GetsOn dump calls) s fs ∧
      Runs.run (SyncCalls.step parse dump stack service calls) s fs = some t ∧
      Draining parse dump stack service calls clientBufsiz serverBufsiz requests t ∧
      Completed dump stack service calls t :=
  Runs.exists_run_along_of_goesOn (SyncCalls.step parse dump stack service calls)
    (Draining parse dump stack service calls clientBufsiz serverBufsiz requests) activity
    (fun _ _ _ h getsOn taken => h.step conversation getsOn taken)
    (fun _ _ _ h getsOn taken => h.grows conversation getsOn taken)
    (fun _ h => h.activity_le conversation) (fun _ h => h.goesOn conversation fits) h

end Draining

theorem activity_nonneg {es : List Event}
    (run : Runs.run (step parse dump stack service calls) (init parse clientBufsiz serverBufsiz)
      es = some s) : 0 ≤ activity s := by
  have keeps : ∀ t e u, 0 ≤ sessionActivity t.server.session →
      step parse dump stack service calls t e = some u → 0 ≤ sessionActivity u.server.session := by
    intro t e u h taken
    cases e with
    | client e =>
      simp only [step, Option.ite_none_right_eq_some, Option.map_eq_some_iff] at taken
      obtain ⟨-, d, -, rfl⟩ := taken
      exact h
    | server e =>
      simp only [step, Option.ite_none_right_eq_some, Option.map_eq_some_iff] at taken
      obtain ⟨-, server, stepped, rfl⟩ := taken
      exact RemoteCalls.server_nonneg h stepped
  have first : 0 ≤ sessionActivity (init parse clientBufsiz serverBufsiz).server.session :=
    RemoteCalls.server_init_nonneg serverBufsiz
  have server := Runs.run_invariant (step parse dump stack service calls) keeps first run
  simp only [activity, clientActivity]
  omega

/-- A client that drains its streams in order never waits for nothing: from each reachable
state the events with which an end gets on come to an end after a bounded number of them,
wherever they do all calls are answered and all replies read, and some sequence of such
events leads there. -/
theorem calls_drained (parse : Bytes → ParseResult) (dump : Dump) (stack : Nat)
    (service : VarlinkService) (calls : Nat → RemoteCall)
    (conversation : Conversation dump stack service calls parse) (clientBufsiz serverBufsiz : Nat)
    (fits : Fits dump stack service calls clientBufsiz serverBufsiz) (es : List Event) (s : Peers)
    (run : Runs.run (step parse dump stack service calls) (init parse clientBufsiz serverBufsiz)
      es = some s)
    (inOrder : Runs.Along (step parse dump stack service calls) (InOrder dump calls)
      (init parse clientBufsiz serverBufsiz) es) :
    (∀ fs t, Runs.run (step parse dump stack service calls) s fs = some t →
      Runs.Along (step parse dump stack service calls) (GetsOn dump calls) s fs →
      fs.length ≤ bound dump stack service calls s.requests.length ∧ t.requests = s.requests ∧
        (Completed dump stack service calls t ∨
          ∃ f u, GetsOn dump calls t f ∧ step parse dump stack service calls t f = some u)) ∧
    ∃ fs t, Runs.Along (step parse dump stack service calls) (GetsOn dump calls) s fs ∧
      Runs.run (step parse dump stack service calls) s fs = some t ∧ t.requests = s.requests ∧
      Completed dump stack service calls t := by
  have start : Draining parse dump stack service calls clientBufsiz serverBufsiz s.requests s :=
    ⟨.of_run conversation run inOrder, rfl⟩
  have least := activity_nonneg run
  refine ⟨fun fs t taken along => ?_, ?_⟩
  · obtain ⟨final, longer⟩ := Runs.run_along_grows (step parse dump stack service calls)
      (Draining parse dump stack service calls clientBufsiz serverBufsiz s.requests) activity
      (fun _ _ _ h getsOn taken => h.step conversation getsOn taken)
      (fun _ _ _ h getsOn taken => h.grows conversation getsOn taken) start along taken
    have most := final.activity_le conversation
    exact ⟨by omega, final.requests_eq, final.goesOn conversation fits⟩
  · obtain ⟨fs, t, along, taken, final, completed⟩ := start.exists_completed conversation fits
    exact ⟨fs, t, along, taken, final.requests_eq, completed⟩

end Progress

instance (dump : Dump) (calls : Nat → RemoteCall) (s : Peers) :
    DecidablePred (InOrder dump calls s)
  | .client e => inferInstanceAs (Decidable (e ≠ .readError ∧
      ∀ n ∈ reader dump s.client (e.on (calls s.requests.length)), _))
  | .server e => inferInstanceAs (Decidable (ServerReplies.Unfailing e))

theorem calls_drained_begun :
    let peers := step JsonText.parsePing JsonText.dump 1
      (pingService ServerReplies.twice) RemoteCalls.pingCalls
    let es : List Event := [.client .call, .client (.invoke 0),
      .server (.receive 0 (.read (JsonText.frame JsonText.moreCall))), .server (.written 0 true),
      .client (.read (JsonText.frame (JsonText.partReply true)))]
    ∃ s, Runs.run peers (init JsonText.parsePing 64 64) es = some s ∧ s.requests.length = 1 ∧
      ∃ fs t, Runs.run peers s fs = some t ∧ t.requests.length = 1 ∧
        Completed JsonText.dump 1 (pingService ServerReplies.twice)
          RemoteCalls.pingCalls t := by
  intro peers es
  have enabled : (Runs.run peers (init JsonText.parsePing 64 64) es).any (fun s =>
      s.requests.length == 1) = true := by
    decide +kernel
  have inOrder : Runs.Along peers (InOrder JsonText.dump RemoteCalls.pingCalls)
      (init JsonText.parsePing 64 64) es := by
    decide +kernel
  obtain ⟨s, run, one⟩ := (Option.any_eq_true _ _).mp enabled
  have one : s.requests.length = 1 := eq_of_beq one
  obtain ⟨-, fs, t, -, gets, same, completed⟩ := calls_drained JsonText.parsePing
    JsonText.dump 1 (pingService ServerReplies.twice) RemoteCalls.pingCalls
    RemoteCalls.pingConversation 64 64 RemoteCalls.pingFits es s run inOrder
  exact ⟨s, run, one, fs, t, gets, (congrArg List.length same).trans one, completed⟩

end Varlink.SyncCalls
