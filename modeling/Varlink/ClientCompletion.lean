import Mathlib.Data.List.Forall2
import Varlink.ClientArrivals
import Varlink.ClientPairing
import Varlink.JsonText

/-! When each asynchronous call is completed exactly once. The reply handler looks
into the reply before it calls the user's handler and passes the strand on, so a reply
of a shape it does not expect leaves the call, and those behind it, waiting for ever. -/

namespace Varlink.ClientCompletion

open AsyncClient hiding invoke onReply onWritten step
open ClientArrivals ClientPairing

variable {parse : Bytes → ParseResult} {dump : Dump} {spec : Nat → CallSpec}

/-- A successful reply to a more call which says that more replies follow. -/
def Continued (mode : Callmode) (a : Arrival) : Prop :=
  mode = .more ∧ ∃ j, a = .frame (.value j) ∧ j.contains "error" = false ∧
    j.find? "continues" = some (.boolean true)

/-- A reply that the reply handler takes as the protocol means it: an object (or
null), with a string for an error and, where it is looked at, a boolean for
`continues`, which is not true next to the error that counts as none. -/
structure ShapedReply (mode : Callmode) (j : Json) : Prop where
  object : j.isObject = true ∨ j.isNull = true
  error : j.contains "error" = true → (j.member "error").isString = true
  continues : mode = .more → (errorOf j).isError = false → j.contains "continues" = true →
    (j.member "continues").isBoolean = true
  noError : mode = .more → j.find? "error" = some (.string "no_error") →
    j.find? "continues" ≠ some (.boolean true)

/-- Nothing that arrives but a frame can be out of shape, and a frame that is no JSON is not. -/
def Shaped (mode : Callmode) : Arrival → Prop
  | .frame (.value j) => ShapedReply mode j
  | .frame (.exception _) => False
  | _ => True

/-- The handler call that an arrival leads to: that of its call, and the last one
unless the arrival is continued. -/
def Handles (spec : Nat → CallSpec) (a : Nat × Arrival) (i : Invocation) : Prop :=
  i.call = a.1 ∧ (i.continues = true ↔ Continued (spec a.1).mode a.2)

def terminals (l : List Invocation) : Nat := l.countP fun i => !i.continues

/-- Each handler call is one of the first call that has not been completed before it. -/
def InTurn (l : List Invocation) : Prop :=
  ∀ before i after, l = before ++ i :: after → i.call = terminals before

def finished (c : AsyncClient) : Nat :=
  c.issued - (c.callStrand.queue.length + if c.callStrand.executing then 1 else 0)

def invocations (c : AsyncClient) : List Invocation := c.log.map (·.1)

/-- The calls for which a frame has been cut off the buffer and waits for the event loop. -/
def posted (c : Connection Nat) : List Nat :=
  c.receives.filterMap fun
    | .posted _ call => some call
    | .reading _ _ => none

/-- What has arrived is handled in order, one handler call for each, except for a
frame that is posted; the calls take turns, a call is over with its terminal handler
call, and then the strand has been passed on once; no exception but one of a user's
handler has left a completion handler. -/
structure CompletesOnce (spec : Nat → CallSpec) (s : Observed) : Prop where
  escapes : ∀ x ∈ s.escaped, x = .handler
  handled : List.Forall₂ (Handles spec) (s.arrived.take s.client.log.length)
    (invocations s.client)
  waiting : (s.arrived.drop s.client.log.length).map (·.1) = posted s.client.connection
  inTurn : InTurn (invocations s.client)
  last : ∀ before i after, invocations s.client = before ++ i :: after → i.continues = false →
    ∀ j ∈ after, i.call < j.call
  advances : terminals (invocations s.client) = finished s.client

theorem terminals_append (l m : List Invocation) :
    terminals (l ++ m) = terminals l + terminals m := List.countP_append

theorem InTurn.append {l : List Invocation} (h : InTurn l) {i : Invocation}
    (turn : i.call = terminals l) : InTurn (l ++ [i]) := by
  intro before j after split
  rcases List.eq_nil_or_concat after with rfl | ⟨front, last, rfl⟩
  · obtain ⟨rfl, same⟩ := List.append_inj' split rfl
    cases same
    exact turn
  · rw [List.concat_eq_append, ← List.cons_append, ← List.append_assoc] at split
    exact h before j front (List.append_inj' split rfl).1

theorem InTurn.last {l : List Invocation} (h : InTurn l) {before after : List Invocation}
    {i : Invocation} (split : l = before ++ i :: after) (terminal : i.continues = false) :
    ∀ j ∈ after, i.call < j.call := by
  intro j member
  obtain ⟨front, behind, rfl⟩ := List.append_of_mem member
  have first := h before i _ split
  have later := h (before ++ i :: front) j behind (by rw [split]; simp)
  have one : terminals (i :: front) = terminals front + 1 := by
    simp [terminals, terminal]
  rw [terminals_append, one] at later
  omega

def Arrival.received : Arrival → Option Received
  | .written _ => none
  | .transportError => some .failed
  | .frame result => result.received.toOption

theorem replyError_eq_ok_iff {j : Json} {ec : ErrorCode} :
    replyError .none j = .ok ec ↔
      (j.contains "error" = true → (j.member "error").isString = true) ∧ errorOf j = ec := by
  unfold replyError errorOf
  cases j.contains "error" with
  | false => simp
  | true => cases j.member "error" <;> simp [Json.isString, Json.getString]

theorem replyContinues_eq_ok_iff {j : Json} {b : Bool} :
    replyContinues j = .ok b ↔
      (j.contains "continues" = true → (j.member "continues").isBoolean = true) ∧
        (b = true ↔ j.find? "continues" = some (.boolean true)) := by
  unfold replyContinues flag Json.contains Json.member
  cases j.find? "continues" with
  | none => cases b <;> simp
  | some v => cases v <;> cases b <;> simp [getBool, Json.isBoolean]

theorem replyParameters_eq_ok_iff {j : Json} {parameters : Json} :
    replyParameters j = .ok parameters ↔
      (j.isObject = true ∨ j.isNull = true) ∧ j.member "parameters" = parameters := by
  unfold replyParameters
  cases object : j.isObject <;> cases null : j.isNull <;> simp

theorem invocationOf_message_eq_ok_iff {mode : Callmode} {call : Nat} {j : Json} {i : Invocation} :
    invocationOf mode call (.message j) = .ok i ↔
      ∃ ec continues parameters, replyError .none j = .ok ec ∧
        (if mode == .more && !ec.isError then replyContinues j else .ok false) = .ok continues ∧
        replyParameters j = .ok parameters ∧ i = ⟨call, ec, parameters, continues⟩ := by
  constructor
  · intro h
    obtain ⟨ec, error, h⟩ := of_bind_eq_ok h
    by_cases looks : (mode == .more && !ec.isError) = true
    · simp only [looks, if_true] at h
      obtain ⟨continues, flagged, h⟩ := of_bind_eq_ok h
      obtain ⟨parameters, read, h⟩ := of_bind_eq_ok h
      cases h
      exact ⟨ec, continues, parameters, error, by simp only [looks, if_true, flagged], read, rfl⟩
    · simp only [looks, Bool.false_eq_true, if_false] at h
      obtain ⟨_, ⟨⟩, h⟩ := of_bind_eq_ok h
      obtain ⟨parameters, read, h⟩ := of_bind_eq_ok h
      cases h
      exact ⟨ec, false, parameters, error, by simp only [looks, Bool.false_eq_true, if_false],
        read, rfl⟩
  · rintro ⟨ec, continues, parameters, error, flagged, read, rfl⟩
    simp only [invocationOf, error, read, bind, Except.bind, pure, Except.pure]
    by_cases looks : (mode == .more && !ec.isError) = true
    · simp only [looks, if_true] at flagged ⊢
      rw [flagged]
    · simp only [looks, Bool.false_eq_true, if_false, Except.ok.injEq] at flagged ⊢
      rw [flagged]

theorem errorOf_fine_iff {j : Json} : (errorOf j).isError = false ↔
    j.contains "error" = false ∨ (j.member "error").getString = "no_error" := by
  unfold errorOf
  cases j.contains "error" <;> simp [ErrorCode.isError]

theorem invocationOf_iff_shaped {mode : Callmode} {call : Nat} {j : Json} :
    (∃ i, invocationOf mode call (.message j) = .ok i ∧
      (i.continues = true ↔ Continued mode (.frame (.value j)))) ↔ ShapedReply mode j := by
  simp only [invocationOf_message_eq_ok_iff]
  constructor
  · rintro ⟨i, ⟨ec, continues, parameters, error, flagged, read, rfl⟩, means⟩
    obtain ⟨string, rfl⟩ := replyError_eq_ok_iff.mp error
    have looks (more : mode = .more) (fine : (errorOf j).isError = false) :
        replyContinues j = .ok continues := by
      simpa [more, fine] using flagged
    refine ⟨(replyParameters_eq_ok_iff.mp read).1, string,
      fun more fine => (replyContinues_eq_ok_iff.mp (looks more fine)).1, ?_⟩
    intro more named continued
    have fine : (errorOf j).isError = false :=
      errorOf_fine_iff.mpr (.inr (by simp [Json.member, named, Json.getString]))
    have isTrue := (replyContinues_eq_ok_iff.mp (looks more fine)).2.mpr continued
    obtain ⟨-, j', same, absent, -⟩ := means.mp isTrue
    cases same
    simp [Json.contains, named] at absent
  · intro shaped
    have error := replyError_eq_ok_iff.mpr ⟨shaped.error, rfl⟩
    have read := replyParameters_eq_ok_iff.mpr ⟨shaped.object, rfl⟩
    by_cases looks : mode = .more ∧ (errorOf j).isError = false
    · obtain ⟨more, fine⟩ := looks
      obtain ⟨continues, flagged⟩ : ∃ b, replyContinues j = .ok b := by
        by_cases yes : j.find? "continues" = some (.boolean true)
        · exact ⟨true, replyContinues_eq_ok_iff.mpr ⟨shaped.continues more fine, by simp [yes]⟩⟩
        · exact ⟨false, replyContinues_eq_ok_iff.mpr ⟨shaped.continues more fine, by simp [yes]⟩⟩
      refine ⟨_, ⟨_, continues, _, error, by simpa [more, fine] using flagged, read, rfl⟩, ?_⟩
      rw [(replyContinues_eq_ok_iff.mp flagged).2]
      refine ⟨fun yes => ⟨more, j, rfl, ?_, yes⟩, ?_⟩
      · rcases errorOf_fine_iff.mp fine with absent | named
        · exact absent
        · refine Bool.eq_false_iff.mpr fun present => shaped.noError more ?_ yes
          obtain ⟨name, string⟩ := Json.isString_iff.mp (shaped.error present)
          rw [string, Json.getString] at named
          obtain ⟨v, found⟩ := Option.isSome_iff_exists.mp present
          rw [Json.member, found, Option.getD_some] at string
          rw [found, string, named]
      · rintro ⟨-, j', same, -, yes⟩
        cases same
        exact yes
    · refine ⟨_, ⟨_, false, _, error, ?_, read, rfl⟩, ?_⟩
      · rw [if_neg]
        simpa [Bool.and_eq_true] using looks
      · refine ⟨fun no => absurd no Bool.false_ne_true, ?_⟩
        rintro ⟨more, j', same, absent, -⟩
        cases same
        exact absurd ⟨more, errorOf_fine_iff.mpr (.inl absent)⟩ looks

theorem invocationOf_failed (mode : Callmode) (call : Nat) :
    invocationOf mode call .failed = .ok ⟨call, .transport, .null, false⟩ := by
  cases mode <;> rfl

theorem invocationOf_shaped {call : Nat} {a : Arrival} (shaped : Shaped (spec call).mode a)
    {received : Received} (arrives : Arrival.received a = some received) :
    ∃ i, invocationOf (spec call).mode call received = .ok i ∧ Handles spec (call, a) i := by
  have failed (broken : ∀ j, a ≠ .frame (.value j)) (same : received = .failed) :
      ∃ i, invocationOf (spec call).mode call received = .ok i ∧ Handles spec (call, a) i := by
    refine ⟨_, same ▸ invocationOf_failed _ call, rfl, fun contra => Bool.noConfusion contra, ?_⟩
    rintro ⟨-, j, value, -⟩
    exact absurd value (broken j)
  cases a with
  | written success => cases arrives
  | transportError => exact failed nofun (Option.some.inj arrives).symm
  | frame result =>
    cases result with
    | exception what => cases shaped
    | parseError => exact failed nofun (Option.some.inj arrives).symm
    | value j =>
      obtain rfl := Option.some.inj arrives
      obtain ⟨i, made, means⟩ := invocationOf_iff_shaped.mpr shaped
      obtain ⟨_, _, _, _, _, _, rfl⟩ := invocationOf_message_eq_ok_iff.mp made
      exact ⟨_, made, rfl, means⟩

/-- The handler calls made so far are those for the arrivals, and `k` calls are over. -/
structure Record (spec : Nat → CallSpec) (k : Nat) (arrived : List (Nat × Arrival))
    (c : AsyncClient) : Prop where
  handled : List.Forall₂ (Handles spec) arrived (invocations c)
  inTurn : InTurn (invocations c)
  ended : terminals (invocations c) = k

/-- Where a client stands between two events: the next call waits for its turn or
for its request to be written, or the call at the head awaits a frame, or one is posted. -/
inductive Phase (spec : Nat → CallSpec) (arrived : List (Nat × Arrival)) (c : AsyncClient) :
    Prop where
  | turn {k : Nat} (turn : Turn spec k c) (receives : c.connection.receives = [])
      (record : Record spec k arrived c)
  | reading {k : Nat} (holds : Holds k c) (wire : WireIdle spec (k + 1) c.connection)
      (receives : c.connection.receives = [.reading c.connection.inbound.buffer.window k])
      (record : Record spec k arrived c)
  | posted {k : Nat} {past : List (Nat × Arrival)} {result : ParseResult} {received : Received}
      (holds : Holds k c) (wire : WireIdle spec (k + 1) c.connection)
      (parsed : result.received = .ok received)
      (receives : c.connection.receives = [.posted received k])
      (split : arrived = past ++ [(k, .frame result)]) (record : Record spec k past c)

theorem Record.congr {k : Nat} {arrived : List (Nat × Arrival)} {c t : AsyncClient}
    (h : Record spec k arrived c) (log : t.log = c.log) : Record spec k arrived t := by
  have same : invocations t = invocations c := by rw [invocations, invocations, log]
  exact ⟨same ▸ h.handled, same ▸ h.inTurn, same ▸ h.ended⟩

theorem Record.handle {k : Nat} {arrived : List (Nat × Arrival)} {c t : AsyncClient}
    (h : Record spec k arrived c) {a : Arrival} {i : Invocation} {sent : Nat}
    (handles : Handles spec (k, a) i) (log : t.log = c.log ++ [(i, sent)]) :
    Record spec (if i.continues then k else k + 1) (arrived ++ [(k, a)]) t := by
  have longer : invocations t = invocations c ++ [i] := by simp [invocations, log]
  refine ⟨?_, ?_, ?_⟩
  · rw [longer]
    exact List.rel_append h.handled (.cons handles .nil)
  · rw [longer]
    exact h.inTurn.append (handles.1.trans h.ended.symm)
  · rw [longer, terminals_append, h.ended]
    cases continues : i.continues <;> simp [terminals, continues]

theorem framesFor_eq {call : Nat} {before after : AsyncClient} {frames : List Bytes}
    (cut : after.connection.inbound.messages = before.connection.inbound.messages ++ frames) :
    framesFor parse call before after = frames.map fun m => (call, .frame (parse m)) := by
  rw [framesFor, cut, List.drop_left]

variable (parse) in
theorem asyncReadReply_phase {k : Nat} {c : AsyncClient} (holds : Holds k c)
    (wire : WireIdle spec (k + 1) c.connection) (receives : c.connection.receives = [])
    (framed : c.connection.inbound.Framed) :
    ∃ frames t, (asyncReadReply parse k c).2 = t ∧ t.connection.inbound.Framed ∧
      t.connection.inbound.messages = c.connection.inbound.messages ++ frames ∧
      ((∀ m ∈ frames, Shaped (spec k).mode (.frame (parse m))) →
        (asyncReadReply parse k c).1 = .ok () ∧ ∀ arrived, Record spec k arrived c →
          Phase spec (arrived ++ frames.map fun m => (k, .frame (parse m))) t) := by
  rcases framed.readNextMessage parse with ⟨read, -⟩ | ⟨message, i, read, framed', received, cut⟩
  · refine ⟨[], _, rfl, ?_⟩
    simp only [AsyncClient.asyncReadReply, Connection.asyncReceive, read, receives,
      List.append_nil, List.map_nil, List.nil_append]
    refine ⟨framed, trivial, fun _ => ⟨trivial, fun arrived record => ?_⟩⟩
    exact .reading (holds.congr rfl rfl) (wire.congr rfl rfl rfl) rfl
      (record.congr rfl)
  · refine ⟨[message], _, rfl, ?_⟩
    simp only [AsyncClient.asyncReadReply, Connection.asyncReceive, read, receives,
      List.nil_append, List.forall_mem_singleton, List.map_cons, List.map_nil]
    cases parsed : (parse message).received with
    | error stop =>
      refine ⟨framed', cut, fun shaped => ?_⟩
      cases result : parse message <;> simp [result, ParseResult.received, Shaped] at parsed shaped
    | ok received =>
      refine ⟨framed', cut, fun _ => ⟨rfl, fun arrived record => ?_⟩⟩
      exact .posted (holds.congr rfl rfl) (wire.congr rfl rfl rfl) parsed
        rfl rfl (record.congr rfl)

variable (parse) in
theorem onReply_phase (dumps : ∀ k, ∃ text, dump (spec k).request = .ok text) {k : Nat}
    {c : AsyncClient} (holds : Holds k c) (wire : WireIdle spec (k + 1) c.connection)
    (receives : c.connection.receives = []) (framed : c.connection.inbound.Framed) {a : Arrival}
    {received : Received} (arrives : Arrival.received a = some received) {h : HandlerRun}
    (returns : h.throws = false) :
    ∃ frames t, (onReply parse dump spec k received h c).2 = t ∧ t.connection.inbound.Framed ∧
      t.connection.inbound.messages = c.connection.inbound.messages ++ frames ∧
      (Shaped (spec k).mode a → (∀ m ∈ frames, Shaped (spec k).mode (.frame (parse m))) →
        (onReply parse dump spec k received h c).1 = .ok () ∧ ∀ past, Record spec k past c →
          Phase spec (past ++ [(k, a)] ++ frames.map fun m => (k, .frame (parse m))) t) := by
  cases made : invocationOf (spec k).mode k received with
  | error e =>
    refine ⟨[], c, by simp only [onReply, made], framed, (List.append_nil _).symm, ?_⟩
    intro shaped
    obtain ⟨i, made', -⟩ := invocationOf_shaped shaped arrives
    cases made.symm.trans made'
  | ok i =>
    let c' : AsyncClient := { c with log := c.log ++ [(i, c.connection.written.length)] }
    have held : Holds k c' := holds.congr rfl rfl
    obtain ⟨t, called, holds, connection, log⟩ :
        ∃ t, AsyncClient.asyncCalls dump spec h.calls c' = (.ok (), t) ∧ Holds k t ∧
          t.connection = c'.connection ∧ t.log = c'.log := held.asyncCalls h.calls
    have recorded (shaped : Shaped (spec k).mode a) (past : List (Nat × Arrival))
        (record : Record spec k past c) :
        Record spec (if i.continues then k else k + 1) (past ++ [(k, a)]) t := by
      obtain ⟨i', made', handles⟩ := invocationOf_shaped shaped arrives
      cases made.symm.trans made'
      exact (record.handle (t := c') handles rfl).congr log
    have invoked : invoke dump spec i h c = (.ok (), t) := by
      simp only [invoke, AsyncClient.invoke, returns, Bool.false_eq_true, if_false]
      rw [show asyncCalls dump spec h.calls c' = (.ok (), t) from called]
    have connection : t.connection = c.connection := connection
    simp only [onReply, made, invoked]
    cases continues : i.continues with
    | true =>
      simp only [continues, if_true] at recorded ⊢
      obtain ⟨frames, u, read, framed, cut, rest⟩ := asyncReadReply_phase parse holds
        (connection ▸ wire) (connection ▸ receives) (connection ▸ framed)
      refine ⟨frames, u, read, framed, connection ▸ cut, fun shapedA shaped => ?_⟩
      obtain ⟨ok, phase⟩ := rest shaped
      exact ⟨by simp only [own, ok, Except.mapError],
        fun past record => phase _ (recorded shapedA past record)⟩
    | false =>
      simp only [continues, Bool.false_eq_true, if_false] at recorded ⊢
      obtain ⟨u, passed, turn, same⟩ := holds.next (connection ▸ wire) dumps
      refine ⟨[], u, by rw [passed]; rfl, ?_, ?_, fun shapedA _ =>
        ⟨by rw [passed]; rfl, fun past record => ?_⟩⟩
      · rw [same.inbound, connection]
        exact framed
      · rw [same.inbound, connection, List.append_nil]
      · rw [List.map_nil, List.append_nil]
        refine .turn turn ?_ ((recorded shapedA past record).congr same.log)
        rw [same.receives, connection, receives]

variable (parse) in
theorem onWritten_phase (dumps : ∀ k, ∃ text, dump (spec k).request = .ok text) {k : Nat}
    {past : List (Nat × Arrival)} {c : AsyncClient} (holds : Holds k c)
    (wire : WireIdle spec (k + 1) c.connection) (receives : c.connection.receives = [])
    (framed : c.connection.inbound.Framed) (record : Record spec k past c) (success : Bool)
    (h : HandlerRun) :
    ∃ frames t, (onWritten parse dump spec k success h c).2 = t ∧ t.connection.inbound.Framed ∧
      t.connection.inbound.messages = c.connection.inbound.messages ++ frames ∧
      ((∀ m ∈ frames, Shaped (spec k).mode (.frame (parse m))) →
        (∀ x, (onWritten parse dump spec k success h c).1 = .error x → x = .handler) ∧
        Phase spec (past ++ (if (spec k).mode == .oneway || !success then
          [(k, Arrival.written success)] else []) ++
            frames.map fun m => (k, .frame (parse m))) t) := by
  by_cases ends : ((spec k).mode == .oneway || !success) = true
  · obtain ⟨t, passed, turn, same⟩ := holds.next wire dumps
    let i : Invocation := ⟨k, if success then .none else .transport, .null, false⟩
    let t' : AsyncClient := { t with log := t.log ++ [(i, t.connection.written.length)] }
    have turn' : Turn spec (k + 1) t' := turn.withLog _
    obtain ⟨u, called, turn', same'⟩ := turn'.asyncCalls dumps h.calls
    have handles : Handles spec (k, Arrival.written success) i :=
      ⟨rfl, fun contra => Bool.noConfusion contra, fun ⟨_, _, contra, _⟩ => by cases contra⟩
    have record : Record spec (k + 1) (past ++ [(k, .written success)]) u :=
      ((record.congr same.log).handle (t := t') handles rfl).congr same'.log
    have inbound : u.connection.inbound = c.connection.inbound :=
      same'.inbound.trans same.inbound
    have ran : onWritten parse dump spec k success h c =
        (if h.throws then .error .handler else .ok (), u) := by
      simp only [onWritten, ends, if_true, passed, invoke, AsyncClient.invoke]
      rw [show asyncCalls dump spec h.calls t' = (.ok (), u) from called]
    refine ⟨[], u, by rw [ran], inbound ▸ framed, by rw [inbound, List.append_nil], fun _ => ?_⟩
    refine ⟨fun x error => ?_, ?_⟩
    · rw [ran] at error
      cases throws : h.throws <;> simp [throws] at error
      exact error.symm
    · simp only [ends, if_true, List.map_nil, List.append_nil]
      exact .turn turn' (same'.receives.trans (same.receives.trans receives)) record
  · obtain ⟨frames, u, read, framed, cut, rest⟩ := asyncReadReply_phase parse holds
      wire receives framed
    simp only [onWritten, ends, Bool.false_eq_true, if_false, List.append_nil]
    refine ⟨frames, u, read, framed, cut, fun shaped => ?_⟩
    obtain ⟨ok, phase⟩ := rest shaped
    exact ⟨fun x error => by simp [own, ok, Except.mapError] at error, phase _ record⟩

/-- What holds between two events while all that has arrived is in shape. -/
structure Sound (spec : Nat → CallSpec) (s : Observed) : Prop where
  framed : s.client.connection.inbound.Framed
  phase : Phase spec s.arrived s.client
  escapes : ∀ x ∈ s.escaped, x = .handler

/-- All that has arrived for a call is in shape for its mode. -/
def AllShaped (spec : Nat → CallSpec) (s : Observed) : Prop :=
  ∀ a ∈ s.arrived, Shaped (spec a.1).mode a.2

/-- A user's handler that is called with a reply does not throw. -/
def RepliesReturn : Event → Prop
  | .receive _ _ h => h.throws = false
  | _ => True

theorem reply_sound (dumps : ∀ k, ∃ text, dump (spec k).request = .ok text) {s : Observed}
    (c : AsyncClient) {k : Nat} (past new : List (Nat × Arrival)) (first : List Bytes)
    (holds : Holds k c) (wire : WireIdle spec (k + 1) c.connection)
    (receives : c.connection.receives = []) (framed : c.connection.inbound.Framed)
    (cut : c.connection.inbound.messages = s.client.connection.inbound.messages ++ first)
    (record : Record spec k past c) (escapes : ∀ x ∈ s.escaped, x = .handler) {a : Arrival}
    {received : Received} (arrives : Arrival.received a = some received)
    (all : s.arrived ++ new ++ first.map (fun m => (k, .frame (parse m))) = past ++ [(k, a)])
    {h : HandlerRun} (returns : h.throws = false) {t : Observed}
    (handled : t = ⟨(onReply parse dump spec k received h c).2,
      s.arrived ++ new ++ framesFor parse k s.client (onReply parse dump spec k received h c).2,
      s.escaped ++ Escape.ofResult (onReply parse dump spec k received h c).1⟩)
    (shaped : AllShaped spec t) : Sound spec t := by
  obtain ⟨frames, u, ran, framed, more, rest⟩ := onReply_phase parse dumps holds wire
    receives framed arrives returns
  rw [cut, List.append_assoc] at more
  have arrived : s.arrived ++ new ++ framesFor parse k s.client u =
      past ++ [(k, a)] ++ frames.map fun m => (k, .frame (parse m)) := by
    rw [framesFor_eq more, List.map_append, ← List.append_assoc, all]
  rw [ran, arrived] at handled
  subst handled
  obtain ⟨ok, phase⟩ := rest (shaped (k, a) (by simp)) fun m member =>
    shaped (k, .frame (parse m)) (List.mem_append_right _ (List.mem_map_of_mem member))
  refine ⟨framed, phase past record, ?_⟩
  simpa only [ok, Escape.ofResult, List.append_nil] using escapes

theorem receive_sound (dumps : ∀ k, ∃ text, dump (spec k).request = .ok text) {s t : Observed}
    (sound : Sound spec s) {n : Nat} {e : ReadEvent} {h : HandlerRun}
    (returns : h.throws = false) (step : receiveStep parse dump spec n e h s = some t)
    (shaped : AllShaped spec t) : Sound spec t := by
  obtain ⟨receive, found, step⟩ := Option.bind_eq_some_iff.mp step
  obtain ⟨⟨handled, connection⟩, moved, step⟩ := Option.bind_eq_some_iff.mp step
  cases sound.phase with
  | turn turn receives => simp [receives] at found
  | @reading k holds wire receives record =>
    obtain rfl : receive = .reading s.client.connection.inbound.buffer.window k := by
      rw [receives] at found
      exact List.mem_singleton.mp (List.mem_of_getElem? found)
    have reads := Connection.receiveStep_reading parse sound.framed receives moved
    generalize result : (handled, connection) = r at reads
    cases reads with
    | @waits chunk i framed received messages unfinished =>
      cases result
      cases step
      simp only [framesFor, messages, List.drop_length, List.map_nil, List.append_nil,
        List.filterMap_nil]
      exact ⟨framed, .reading (holds.congr rfl rfl)
        (wire.congr rfl rfl rfl) rfl (record.congr rfl), sound.escapes⟩
    | @message chunk i message framed received cut =>
      let c : AsyncClient := { s.client with
        connection := { s.client.connection with inbound := i, receives := [] } }
      have fresh : s.arrived ++ [] ++ [message].map (fun m => (k, .frame (parse m))) =
          s.arrived ++ [(k, Arrival.frame (parse message))] := by simp
      cases parsed : (parse message).received with
      | error stop =>
        simp only [parsed, Except.toOption, Option.map_none] at result
        cases result
        cases step
        have cutNow : framesFor parse k s.client c =
            [message].map fun m => (k, .frame (parse m)) := framesFor_eq cut
        have bad := shaped (k, .frame (parse message))
          (List.mem_append_right _ (cutNow ▸ List.mem_singleton_self _))
        cases value : parse message <;> simp [value, ParseResult.received, Shaped] at parsed bad
      | ok received =>
        simp only [parsed, Except.toOption, Option.map_some] at result
        cases result
        cases step
        exact reply_sound (a := .frame (parse message)) dumps c s.arrived [] [message]
          (holds.congr rfl rfl) (wire.congr rfl rfl rfl) rfl framed cut
          (record.congr rfl) sound.escapes (by simp [Arrival.received, parsed, Except.toOption])
          fresh returns rfl shaped
    | failed =>
      cases result
      cases step
      exact reply_sound (a := .transportError) dumps
        { s.client with connection := { s.client.connection with receives := [] } } s.arrived
        [(k, .transportError)] [] (holds.congr rfl rfl)
        (wire.congr rfl rfl rfl) rfl sound.framed (List.append_nil _).symm
        (record.congr rfl) sound.escapes rfl (List.append_nil _) returns rfl shaped
  | @posted k past result received holds wire parsed receives split record =>
    obtain rfl : receive = .posted received k := by
      rw [receives] at found
      exact List.mem_singleton.mp (List.mem_of_getElem? found)
    obtain ⟨rfl, same⟩ := Connection.receiveStep_posted parse receives moved
    cases same
    cases step
    exact reply_sound (a := .frame result) dumps
      { s.client with connection := { s.client.connection with receives := [] } } past [] []
      (holds.congr rfl rfl) (wire.congr rfl rfl rfl) rfl sound.framed
      (List.append_nil _).symm (record.congr rfl) sound.escapes
      (by simp [Arrival.received, parsed, Except.toOption]) (by simp [split]) returns rfl shaped

theorem write_sound (dumps : ∀ k, ∃ text, dump (spec k).request = .ok text) {s t : Observed}
    (sound : Sound spec s) {n : Nat} {success : Bool} {h : HandlerRun}
    (step : writeStep parse dump spec n success h s = some t) (shaped : AllShaped spec t) :
    Sound spec t := by
  obtain ⟨⟨handled, connection⟩, moved, rfl⟩ := Option.map_eq_some_iff.mp step
  cases sound.phase with
  | reading holds wire => simp [wire.not_writing] at moved
  | posted holds wire => simp [wire.not_writing] at moved
  | @turn k turn receives record =>
    cases turn with
    | free next strand wire => simp [wire.not_writing] at moved
    | sending holds wire =>
      obtain ⟨rfl, idle, inbound, kept⟩ := wire.writeStep moved
      obtain ⟨frames, u, ran, framed, cut, rest⟩ := onWritten_phase parse dumps
        (c := { s.client with connection }) (holds.congr rfl rfl) idle
        (kept.trans receives) (inbound ▸ sound.framed) (record.congr rfl) success h
      rw [show ({ s.client with connection } : AsyncClient).connection.inbound.messages =
        s.client.connection.inbound.messages by rw [inbound]] at cut
      simp only [ran, framesFor_eq cut] at shaped ⊢
      obtain ⟨own, phase⟩ := rest fun m member => shaped (k, .frame (parse m))
        (List.mem_append_right _ (List.mem_map_of_mem member))
      refine ⟨framed, phase, fun x member => ?_⟩
      rcases List.mem_append.mp member with old | new
      · exact sound.escapes x old
      · cases result : (onWritten parse dump spec k success h
          { s.client with connection }).1 with
        | ok done => simp [result, Escape.ofResult] at new
        | error y =>
          rw [result] at new
          rw [List.mem_singleton.mp new]
          exact own y result

theorem call_sound (dumps : ∀ k, ∃ text, dump (spec k).request = .ok text) {s : Observed}
    (sound : Sound spec s) :
    Sound spec { s with client := (asyncCall dump spec s.client).2 } := by
  have behind {k : Nat} (holds : Holds k s.client) :
      Holds k (asyncCall dump spec s.client).2 ∧
        (asyncCall dump spec s.client).2.connection = s.client.connection ∧
        (asyncCall dump spec s.client).2.log = s.client.log := by
    obtain ⟨t, called, holds, connection, log⟩ :
        ∃ t, asyncCall dump spec s.client = (.ok (), t) ∧ Holds k t ∧
          t.connection = s.client.connection ∧ t.log = s.client.log := holds.asyncCall
    rw [called]
    exact ⟨holds, connection, log⟩
  cases sound.phase with
  | turn turn receives record =>
    obtain ⟨t, called, turn, same⟩ := turn.asyncCall dumps
    rw [called]
    exact ⟨same.inbound ▸ sound.framed, .turn turn (same.receives.trans receives)
      (record.congr same.log), sound.escapes⟩
  | reading holds wire receives record =>
    obtain ⟨holds, connection, log⟩ := behind holds
    exact ⟨connection ▸ sound.framed, .reading holds (connection ▸ wire)
      (by rw [connection]; exact receives) (record.congr log), sound.escapes⟩
  | posted holds wire parsed receives split record =>
    obtain ⟨holds, connection, log⟩ := behind holds
    exact ⟨connection ▸ sound.framed, .posted holds (connection ▸ wire) parsed
      (by rw [connection]; exact receives) split (record.congr log), sound.escapes⟩

theorem step_arrived {s t : Observed} {e : Event} (step : step parse dump spec s e = some t) :
    s.arrived <+: t.arrived := by
  cases e with
  | call =>
    cases step
    exact List.prefix_rfl
  | receive n e h =>
    obtain ⟨receive, -, step⟩ := Option.bind_eq_some_iff.mp step
    obtain ⟨⟨_ | _, connection⟩, -, step⟩ := Option.bind_eq_some_iff.mp step <;> cases step
    · exact List.prefix_append _ _
    · exact (List.prefix_append _ _).trans (List.prefix_append _ _)
  | written n success h =>
    obtain ⟨⟨_ | _, connection⟩, -, rfl⟩ := Option.map_eq_some_iff.mp step
    · exact List.prefix_rfl
    · exact (List.prefix_append _ _).trans (List.prefix_append _ _)

theorem step_sound (dumps : ∀ k, ∃ text, dump (spec k).request = .ok text) {s t : Observed}
    {e : Event} (sound : Sound spec s) (returns : RepliesReturn e)
    (step : step parse dump spec s e = some t) (shaped : AllShaped spec t) : Sound spec t := by
  cases e with
  | call =>
    cases step
    exact call_sound dumps sound
  | receive n e h => exact receive_sound dumps sound returns step shaped
  | written n success h => exact write_sound dumps sound step shaped

theorem init_sound (bufsiz : Nat) : Sound spec (init bufsiz) where
  framed := Inbound.framed_new bufsiz
  phase := .turn (k := 0) (.free rfl rfl ⟨rfl, rfl, rfl⟩) rfl
    ⟨.nil, fun _ _ _ split => by simp [invocations, init, AsyncClient.new] at split, rfl⟩
  escapes := nofun

theorem finished_of_holds {k : Nat} {c : AsyncClient} (h : Holds k c) : finished c = k := by
  have issued := h.issued
  simp only [finished, h.strand, List.length_range', if_true]
  omega

theorem finished_of_turn {k : Nat} {c : AsyncClient} (h : Turn spec k c) : finished c = k := by
  cases h with
  | free next strand wire => simp [finished, strand, next]
  | sending holds wire => exact finished_of_holds holds

theorem Record.completes {k : Nat} {past waiting : List (Nat × Arrival)} {s : Observed}
    (record : Record spec k past s.client) (split : s.arrived = past ++ waiting)
    (posted_eq : waiting.map (·.1) = posted s.client.connection) (ended : finished s.client = k)
    (escapes : ∀ x ∈ s.escaped, x = .handler) : CompletesOnce spec s := by
  have length : s.client.log.length = past.length := by
    rw [record.handled.length_eq, invocations, List.length_map]
  refine ⟨escapes, ?_, ?_, record.inTurn, fun before i after split terminal =>
    record.inTurn.last split terminal, record.ended.trans ended.symm⟩
  · rw [length, split, List.take_left]
    exact record.handled
  · rw [length, split, List.drop_left]
    exact posted_eq

theorem Sound.completes {s : Observed} (h : Sound spec s) : CompletesOnce spec s := by
  cases h.phase with
  | turn turn receives record =>
    exact record.completes (List.append_nil _).symm (by simp [posted, receives])
      (finished_of_turn turn) h.escapes
  | reading holds wire receives record =>
    exact record.completes (List.append_nil _).symm (by simp [posted, receives])
      (finished_of_holds holds) h.escapes
  | posted holds wire parsed receives split record =>
    exact record.completes split (by simp [posted, receives]) (finished_of_holds holds) h.escapes

/-- In every run in which what arrives is in shape, the requests can be dumped and the
handlers called with a reply do not throw, the calls are completed exactly once; and if no
handler throws, the run is one of the client. -/
theorem completes_once (parse : Bytes → ParseResult) (dump : Dump) (spec : Nat → CallSpec)
    (dumps : ∀ k, ∃ text, dump (spec k).request = .ok text) (bufsiz : Nat) (es : List Event)
    (s : Observed) (run : Runs.run (step parse dump spec) (init bufsiz) es = some s)
    (returns : ∀ e ∈ es, RepliesReturn e) (shaped : AllShaped spec s) :
    CompletesOnce spec s ∧ ((∀ e ∈ es, e.handler.throws = false) →
      Runs.run (AsyncClient.step parse dump spec) (.new bufsiz) (es.map Event.toClient) =
        some s.client) := by
  have sound := Runs.run_history (step parse dump spec)
    (fun es s => (∀ e ∈ es, RepliesReturn e) → AllShaped spec s → Sound spec s)
    (fun es s e t ih step returns shaped => by
      refine step_sound dumps (ih ?_ ?_) (returns e (by simp)) step shaped
      · exact fun f member => returns f (List.mem_append_left _ member)
      · exact fun a member => shaped a ((step_arrived step).subset member))
    (fun _ _ => init_sound bufsiz) run
  exact ⟨(sound returns shaped).completes, fun none_ => run_client none_ run⟩

def pingCalls : Nat → CallSpec := fun _ =>
  ⟨.basic, .object [("method", .string "org.test.Ping")]⟩

open JsonText (frame parsePing basicReply)

theorem completes_once_ping :
    ∃ s, Runs.run (step parsePing JsonText.dump pingCalls) (init 64)
        [.call, .written 0 true {}, .receive 0 (.read (frame basicReply)) {}] = some s ∧
      s.client.log.length = 1 ∧ CompletesOnce pingCalls s ∧
      Runs.run (AsyncClient.step parsePing JsonText.dump pingCalls) (.new 64)
        [.call, .written 0 true 0, .receive 0 (.read (frame basicReply)) 0] = some s.client := by
  have arrived : (Runs.run (step parsePing JsonText.dump pingCalls) (init 64)
      [.call, .written 0 true {}, .receive 0 (.read (frame basicReply)) {}]).map
        (fun s => (s.arrived, s.client.log.length)) =
      some ([(0, .frame (.value basicReply))], 1) := by rfl
  obtain ⟨s, hs, same⟩ := Option.map_eq_some_iff.mp arrived
  obtain ⟨same, one⟩ := Prod.mk.inj same
  have shaped : AllShaped pingCalls s := by
    intro a member
    rw [same] at member
    obtain rfl := List.mem_singleton.mp member
    exact ⟨.inl rfl, nofun, nofun, nofun⟩
  obtain ⟨once, unobserved⟩ := completes_once parsePing _ pingCalls (fun _ => ⟨_, rfl⟩) 64 _ s hs
    (by simp [RepliesReturn]) shaped
  exact ⟨s, hs, one, once, unobserved (by simp [Event.handler])⟩

/-- A reply that is an array: the handler is never called, and an exception of the
library leaves the completion handler. -/
theorem arrayReply_lost :
    let parse := JsonText.parse [.array []]
    ∃ s, Runs.run (step parse JsonText.dump pingCalls) (init 64)
        [.call, .call, .written 0 true {}, .receive 0 (.read (frame (.array []))) {}] = some s ∧
      s.client.log.length = 0 ∧ ¬ CompletesOnce pingCalls s := by
  intro parse
  have lost : (Runs.run (step parse JsonText.dump pingCalls) (init 64)
      [.call, .call, .written 0 true {}, .receive 0 (.read (frame (.array []))) {}]).map
        (fun s => (s.escaped, s.client.log.length)) =
      some ([.other (.thrown
        (.standard .json "cannot use operator[] with a string argument"))], 0) := by
    rfl
  obtain ⟨s, hs, same⟩ := Option.map_eq_some_iff.mp lost
  obtain ⟨same, none_⟩ := Prod.mk.inj same
  refine ⟨s, hs, none_, fun completes => ?_⟩
  cases completes.escapes _ (same ▸ List.mem_singleton_self _)

end Varlink.ClientCompletion
