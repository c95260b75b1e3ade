import Varlink.ClientPairing
import Varlink.JsonText

/-! Runs of an asynchronous client against a peer that answers in order: what
each handler is called with, and when each request goes out. -/

namespace Varlink.ClientPairing

open AsyncClient

variable {parse : Bytes → ParseResult} {dump : Dump} {spec : Nat → CallSpec}
  {answers : Nat → List Bytes} {bytes : Bytes} {calls : Nat}

/-- The handler calls so far; that of a call that is answered finds the requests
on the wire up to its own. -/
structure Logged (spec : Nat → CallSpec) (l : List Invocation) (c : AsyncClient) : Prop where
  handled : c.log.map (·.1) = l
  inTurn : ∀ p ∈ c.log, (spec p.1.call).mode ≠ .oneway → p.2 = p.1.call + 1

/-- The bytes received are the beginning of the replies to the first calls. -/
structure Stream (answers : Nat → List Bytes) (calls : Nat) (bytes : Bytes) (i : Inbound) :
    Prop where
  framed : i.Framed
  received : i.received = bytes
  stream : bytes <+: Delimited.encode 0 (framesUpTo answers calls)

/-- The `k`-th call has the strand, its request is on the wire, and of its replies
`got` were handled and `rest` are to come. -/
structure Replying (parse : Bytes → ParseResult) (spec : Nat → CallSpec)
    (answers : Nat → List Bytes) (k : Nat) (got rest : List Bytes) (c : AsyncClient) : Prop where
  holds : Holds k c
  wire : WireIdle spec (k + 1) c.connection
  split : answers k = got ++ rest
  left : Answers parse (spec k).mode rest
  logged : Logged spec (expectedUpTo parse spec answers k ++
    got.map (replyInvocation parse (spec k).mode k)) c

inductive Phase (parse : Bytes → ParseResult) (spec : Nat → CallSpec)
    (answers : Nat → List Bytes) (c : AsyncClient) : Prop where
  | turn {k : Nat} (turn : Turn spec k c) (receives : c.connection.receives = [])
      (messages : c.connection.inbound.messages = framesUpTo answers k)
      (logged : Logged spec (expectedUpTo parse spec answers k) c)
  | reading {k : Nat} {got rest : List Bytes} (replying : Replying parse spec answers k got rest c)
      (more : rest ≠ [])
      (receives : c.connection.receives = [.reading c.connection.inbound.buffer.window k])
      (unfinished : 0 ∉ c.connection.inbound.buffer.contents)
      (messages : c.connection.inbound.messages = framesUpTo answers k ++ got)
  | posted {k : Nat} {got rest : List Bytes} {frame : Bytes} {j : Json}
      (replying : Replying parse spec answers k got (frame :: rest) c)
      (parsed : parse frame = .value j)
      (receives : c.connection.receives = [.posted (.message j) k])
      (messages : c.connection.inbound.messages = framesUpTo answers k ++ got ++ [frame])

theorem Logged.append {l : List Invocation} {c t : AsyncClient} (h : Logged spec l c)
    {invocation : Invocation} {sent : Nat} (log : t.log = c.log ++ [(invocation, sent)])
    (inTurn : (spec invocation.call).mode ≠ .oneway → sent = invocation.call + 1) :
    Logged spec (l ++ [invocation]) t where
  handled := by rw [log, List.map_append, h.handled]; rfl
  inTurn p member := by
    rw [log] at member
    rcases List.mem_append.mp member with old | new
    · exact h.inTurn p old
    · obtain rfl := List.mem_singleton.mp new
      exact inTurn

theorem Logged.congr {l : List Invocation} {c t : AsyncClient} (h : Logged spec l c)
    (log : t.log = c.log) : Logged spec l t :=
  ⟨log ▸ h.handled, log ▸ h.inTurn⟩

theorem Replying.withConnection {k : Nat} {got rest : List Bytes} {c : AsyncClient}
    (h : Replying parse spec answers k got rest c) (connection : Connection Nat)
    (wire : WireIdle spec (k + 1) connection) :
    Replying parse spec answers k got rest { c with connection } :=
  { h with
    holds := h.holds.congr rfl rfl
    wire
    logged := h.logged.congr rfl }

theorem framesUpTo_clean (answered : ∀ k, Answers parse (spec k).mode (answers k)) (n : Nat) :
    ∀ f ∈ framesUpTo answers n, 0 ∉ f := by
  intro f member
  obtain ⟨k, -, among⟩ := List.mem_flatMap.mp member
  exact (answered k).clean f among

theorem Stream.next (answered : ∀ k, Answers parse (spec k).mode (answers k)) {i : Inbound}
    (h : Stream answers calls bytes i) {k : Nat} {got rest : List Bytes} {message : Bytes}
    (split : answers k = got ++ rest) (more : rest ≠ [])
    (messages : i.messages = framesUpTo answers k ++ got ++ [message]) :
    ∃ later, rest = message :: later := by
  -- the stream of at least the first `k + 1` calls
  have longer : Delimited.encode 0 (framesUpTo answers calls) <+:
      Delimited.encode 0 (framesUpTo answers (max calls (k + 1))) := by
    obtain ⟨later, more⟩ := flatMap_range_prefix answers (Nat.le_max_left calls (k + 1))
    rw [framesUpTo, framesUpTo, ← more, Delimited.encode_append]
    exact List.prefix_append _ _
  have among := h.framed.messages_prefix (framesUpTo_clean answered _)
    (h.received ▸ h.stream.trans longer)
  obtain ⟨later, whole⟩ := flatMap_range_prefix answers (Nat.le_max_right calls (k + 1))
  rw [messages, framesUpTo, framesUpTo, ← whole, flatMap_range_succ, split] at among
  simp only [List.append_assoc, List.prefix_append_right_inj] at among
  cases rest with
  | nil => exact absurd rfl more
  | cons frame rest =>
    obtain ⟨tail, same⟩ := among
    simp only [List.cons_append, List.nil_append, List.cons.injEq] at same
    exact ⟨rest, by rw [same.1]⟩

theorem Replying.asyncReadReply (answered : ∀ k, Answers parse (spec k).mode (answers k))
    {k : Nat} {got rest : List Bytes} {c : AsyncClient}
    (h : Replying parse spec answers k got rest c) (more : rest ≠ [])
    (stream : Stream answers calls bytes c.connection.inbound)
    (receives : c.connection.receives = [])
    (messages : c.connection.inbound.messages = framesUpTo answers k ++ got) :
    ∃ t, asyncReadReply parse k c = (.ok (), t) ∧ Phase parse spec answers t ∧
      Stream answers calls bytes t.connection.inbound := by
  rcases stream.framed.readNextMessage parse with
    ⟨read, unfinished⟩ | ⟨message, i, read, framed, received, cut⟩
  · let t : AsyncClient := { c with connection := { c.connection with
      receives := [.reading c.connection.inbound.buffer.window k] } }
    have replying : Replying parse spec answers k got rest t :=
      h.withConnection _ (h.wire.congr rfl rfl rfl)
    refine ⟨t, ?_, .reading replying more rfl unfinished messages, stream⟩
    simp [t, AsyncClient.asyncReadReply, Connection.asyncReceive, read, receives]
  · have stream' : Stream answers calls bytes i :=
      ⟨framed, received.trans stream.received, stream.stream⟩
    rw [messages] at cut
    obtain ⟨later, rfl⟩ := stream'.next answered h.split more cut
    obtain ⟨j, parsed, -⟩ := invocationOf_next k h.left
    let t : AsyncClient := { c with connection := { c.connection with
      inbound := i, receives := [.posted (.message j) k] } }
    have replying : Replying parse spec answers k got (message :: later) t :=
      h.withConnection _ (h.wire.congr rfl rfl rfl)
    refine ⟨t, ?_, .posted replying parsed rfl cut, stream'⟩
    simp [t, AsyncClient.asyncReadReply, Connection.asyncReceive, read, receives, parsed,
      ParseResult.received]

theorem Answers.ne_nil {mode : Callmode} {frames : List Bytes} (h : Answers parse mode frames)
    (answered : mode ≠ .oneway) : frames ≠ [] := by
  cases h with
  | oneway => exact absurd rfl answered
  | _ => exact List.cons_ne_nil _ _

theorem replyInvocation_call (mode : Callmode) (k : Nat) (frame : Bytes) :
    (replyInvocation parse mode k frame).call = k := by
  unfold replyInvocation
  split <;> rfl

theorem requests_length (n : Nat) : (requests spec n).length = n := by
  simp [requests]

theorem expectedUpTo_succ (k : Nat) : expectedUpTo parse spec answers (k + 1) =
    expectedUpTo parse spec answers k ++ expected parse spec answers k :=
  flatMap_range_succ _ k

theorem expected_answered {k : Nat} (answered : (spec k).mode ≠ .oneway) :
    expected parse spec answers k =
      (answers k).map (replyInvocation parse (spec k).mode k) := by
  rw [expected, if_neg answered]

theorem Replying.onReply (answered : ∀ k, Answers parse (spec k).mode (answers k))
    (dumps : ∀ k, ∃ text, dump (spec k).request = .ok text)
    {k : Nat} {got rest : List Bytes} {frame : Bytes} {j : Json} {c : AsyncClient}
    (h : Replying parse spec answers k got (frame :: rest) c) (parsed : parse frame = .value j)
    (stream : Stream answers calls bytes c.connection.inbound)
    (receives : c.connection.receives = [])
    (messages : c.connection.inbound.messages = framesUpTo answers k ++ got ++ [frame]) (n : Nat) :
    ∃ t, onReply parse dump spec k (.message j) n c = (.ok (), t) ∧ Phase parse spec answers t ∧
      Stream answers calls bytes t.connection.inbound := by
  obtain ⟨j', parsed', invocation, last⟩ := invocationOf_next k h.left
  cases parsed.symm.trans parsed'
  let c' : AsyncClient := { c with log := c.log ++
    [(replyInvocation parse (spec k).mode k frame, c.connection.written.length)] }
  have holds : Holds k c' := h.holds.congr rfl rfl
  obtain ⟨t, called, holds, connection, log⟩ := holds.asyncCalls n
  have logged : Logged spec (expectedUpTo parse spec answers k ++
      (got ++ [frame]).map (replyInvocation parse (spec k).mode k)) t := by
    rw [List.map_append, ← List.append_assoc]
    refine h.logged.append (log.trans rfl) fun _ => ?_
    rw [h.wire.written, requests_length, replyInvocation_call]
  have invoked : invoke dump spec (replyInvocation parse (spec k).mode k frame) n c =
      (.ok (), t) := called
  have wire : WireIdle spec (k + 1) t.connection := by rw [connection]; exact h.wire
  have stream' : Stream answers calls bytes t.connection.inbound := by rw [connection]; exact stream
  have receives' : t.connection.receives = [] := by rw [connection]; exact receives
  have messages' : t.connection.inbound.messages = framesUpTo answers k ++ (got ++ [frame]) := by
    rw [connection, ← List.append_assoc]
    exact messages
  simp only [AsyncClient.onReply, invocation, invoked]
  rcases last with ⟨continues, more, left⟩ | ⟨continues, rfl⟩
  · rw [continues, if_pos rfl]
    have replying : Replying parse spec answers k (got ++ [frame]) rest t :=
      { holds, wire, left, logged, split := by rw [h.split, List.append_assoc]; rfl }
    exact replying.asyncReadReply answered more stream' receives' messages'
  · simp only [continues, Bool.false_eq_true, if_false]
    obtain ⟨u, passed, turn, same⟩ := holds.next wire dumps
    refine ⟨u, passed, .turn turn (same.receives.trans receives') ?_ ?_, same.inbound ▸ stream'⟩
    · rw [same.inbound, messages', framesUpTo, framesUpTo, flatMap_range_succ, h.split]
    · refine Logged.congr ?_ same.log
      rw [expectedUpTo_succ, expected_answered h.left.mode_of_cons, h.split]
      exact logged

theorem onWritten_phase (answered : ∀ k, Answers parse (spec k).mode (answers k))
    (dumps : ∀ k, ∃ text, dump (spec k).request = .ok text) {k : Nat} {c : AsyncClient}
    (holds : Holds k c) (wire : WireIdle spec (k + 1) c.connection)
    (stream : Stream answers calls bytes c.connection.inbound)
    (receives : c.connection.receives = [])
    (messages : c.connection.inbound.messages = framesUpTo answers k)
    (logged : Logged spec (expectedUpTo parse spec answers k) c) (n : Nat) :
    ∃ t, onWritten parse dump spec k true n c = (.ok (), t) ∧ Phase parse spec answers t ∧
      Stream answers calls bytes t.connection.inbound := by
  have left := answered k
  by_cases oneway : (spec k).mode = .oneway
  · obtain ⟨t, passed, turn, same⟩ := holds.next wire dumps
    let t' : AsyncClient := { t with
      log := t.log ++ [(⟨k, .none, .null, false⟩, t.connection.written.length)] }
    have turn' : Turn spec (k + 1) t' := turn.withLog _
    obtain ⟨u, called, turn', same'⟩ := turn'.asyncCalls dumps n
    have silent : answers k = [] := by
      rw [oneway] at left
      generalize answers k = frames at left
      cases left with
      | oneway => rfl
      | single mode => rcases mode with mode | mode <;> cases mode
    refine ⟨u, ?_, .turn turn' ?_ ?_ ?_, ?_⟩
    · simp only [onWritten, oneway, beq_self_eq_true, Bool.true_or, if_true, passed]
      exact called
    · exact same'.receives.trans (same.receives.trans receives)
    · rw [same'.inbound]
      change t.connection.inbound.messages = _
      rw [same.inbound, messages, framesUpTo, framesUpTo, flatMap_range_succ, silent,
        List.append_nil]
    · rw [expectedUpTo_succ, expected, if_pos oneway]
      refine (logged.congr same.log).append same'.log fun answered => ?_
      exact absurd oneway answered
    · rw [same'.inbound]
      exact same.inbound ▸ stream
  · have replying : Replying parse spec answers k [] (answers k) c :=
      { holds, wire, left, split := rfl, logged := by simpa using logged }
    have mode : ((spec k).mode == .oneway) = false := by simpa using oneway
    simp only [onWritten, mode, Bool.not_true, Bool.or_self, Bool.false_eq_true, if_false]
    exact replying.asyncReadReply answered (left.ne_nil oneway) stream receives
      (by rw [List.append_nil]; exact messages)

def chunkOf : ClientEvent → Bytes
  | .receive _ (.read chunk) _ => chunk
  | _ => []

def delivered (es : List ClientEvent) : Bytes := es.flatMap chunkOf

/-- No transport operation fails. -/
def Succeeds : ClientEvent → Prop
  | .written _ success _ => success = true
  | .receive _ e _ => e ≠ .error
  | .call => True

theorem Phase.call (dumps : ∀ k, ∃ text, dump (spec k).request = .ok text) {c : AsyncClient}
    (h : Phase parse spec answers c) :
    ∃ t, asyncCall dump spec c = (.ok (), t) ∧ Phase parse spec answers t ∧
      t.connection.inbound = c.connection.inbound := by
  have behind {k : Nat} {got rest : List Bytes} (h : Replying parse spec answers k got rest c) :
      ∃ t, asyncCall dump spec c = (.ok (), t) ∧ Replying parse spec answers k got rest t ∧
        t.connection = c.connection := by
    obtain ⟨t, called, holds, connection, log⟩ := h.holds.asyncCall
    exact ⟨t, called,
      { h with holds, wire := connection ▸ h.wire, logged := h.logged.congr log }, connection⟩
  cases h with
  | turn turn receives messages logged =>
    obtain ⟨t, called, turn, same⟩ := turn.asyncCall dumps
    exact ⟨t, called, .turn turn (same.receives.trans receives) (same.inbound ▸ messages)
      (logged.congr same.log), same.inbound⟩
  | reading replying more receives unfinished messages =>
    obtain ⟨t, called, replying, connection⟩ := behind replying
    exact ⟨t, called, .reading replying more (by rw [connection]; exact receives)
      (connection ▸ unfinished) (connection ▸ messages), by rw [connection]⟩
  | posted replying parsed receives messages =>
    obtain ⟨t, called, replying, connection⟩ := behind replying
    exact ⟨t, called, .posted replying parsed (connection ▸ receives) (connection ▸ messages),
      by rw [connection]⟩

theorem receive_phase (answered : ∀ k, Answers parse (spec k).mode (answers k))
    (dumps : ∀ k, ∃ text, dump (spec k).request = .ok text)
    {c t : AsyncClient} {n more : Nat} {e : ReadEvent} (h : Phase parse spec answers c)
    (stream : Stream answers calls bytes c.connection.inbound)
    (succeeds : Succeeds (.receive n e more))
    (longer : bytes ++ chunkOf (.receive n e more) <+:
      Delimited.encode 0 (framesUpTo answers calls))
    (step : step parse dump spec c (.receive n e more) = some t) :
    Phase parse spec answers t ∧
      Stream answers calls (bytes ++ chunkOf (.receive n e more)) t.connection.inbound := by
  obtain ⟨result, moved, rfl⟩ := Option.map_eq_some_iff.mp step
  cases h with
  | turn turn receives => simp [Connection.receiveStep, receives] at moved
  | @reading k got rest replying some_ receives unfinished messages =>
    have reads := Connection.receiveStep_reading parse stream.framed receives moved
    have wire := replying.wire
    cases reads with
    | @waits chunk i framed received messages' unfinished =>
      rw [stream.received] at received
      refine ⟨.reading (replying.withConnection _ (wire.congr rfl rfl rfl)) some_ rfl
        unfinished (messages'.trans messages), ⟨framed, received, longer⟩⟩
    | @message chunk i message framed received cut =>
      rw [stream.received] at received
      rw [messages] at cut
      have stream' : Stream answers calls (bytes ++ chunk) i := ⟨framed, received, longer⟩
      obtain ⟨later, rfl⟩ := stream'.next answered replying.split some_ cut
      obtain ⟨j, parsed, -⟩ := invocationOf_next k replying.left
      have replying' := replying.withConnection { c.connection with inbound := i, receives := [] }
        (wire.congr rfl rfl rfl)
      obtain ⟨t, handled, phase, stream⟩ :=
        replying'.onReply answered dumps parsed stream' rfl cut more
      simp only [parsed, ParseResult.received, Except.toOption, Option.map_some, handled]
      exact ⟨phase, stream⟩
    | failed => exact absurd rfl succeeds
  | posted replying parsed receives messages =>
    obtain ⟨rfl, rfl⟩ := Connection.receiveStep_posted parse receives moved
    have wire := replying.wire
    have replying' := replying.withConnection { c.connection with receives := [] }
      (wire.congr rfl rfl rfl)
    obtain ⟨t, handled, phase, stream⟩ :=
      replying'.onReply answered dumps parsed stream rfl messages more
    simp only [handled, chunkOf, List.append_nil]
    exact ⟨phase, stream⟩

theorem written_phase (answered : ∀ k, Answers parse (spec k).mode (answers k))
    (dumps : ∀ k, ∃ text, dump (spec k).request = .ok text)
    {c t : AsyncClient} {n more : Nat} (h : Phase parse spec answers c)
    (stream : Stream answers calls bytes c.connection.inbound)
    (step : step parse dump spec c (.written n true more) = some t) :
    Phase parse spec answers t ∧ Stream answers calls bytes t.connection.inbound := by
  obtain ⟨⟨handler, connection⟩, moved, rfl⟩ := Option.map_eq_some_iff.mp step
  cases h with
  | reading replying => simp [replying.wire.not_writing] at moved
  | posted replying => simp [replying.wire.not_writing] at moved
  | turn turn receives messages logged =>
    cases turn with
    | free _ _ wire => simp [wire.not_writing] at moved
    | sending holds wire =>
      obtain ⟨rfl, wire, inbound, receives'⟩ := wire.writeStep moved
      have holds' : Holds _ { c with connection } := holds.congr rfl rfl
      obtain ⟨t, handled, phase, stream⟩ := onWritten_phase (c := { c with connection })
        answered dumps holds' wire (inbound ▸ stream) (receives'.trans receives)
        (inbound ▸ messages) (logged.congr rfl) more
      simp only [handled]
      exact ⟨phase, stream⟩

theorem step_phase (answered : ∀ k, Answers parse (spec k).mode (answers k))
    (dumps : ∀ k, ∃ text, dump (spec k).request = .ok text)
    {c t : AsyncClient} {e : ClientEvent} (h : Phase parse spec answers c)
    (stream : Stream answers calls bytes c.connection.inbound) (succeeds : Succeeds e)
    (longer : bytes ++ chunkOf e <+: Delimited.encode 0 (framesUpTo answers calls))
    (step : step parse dump spec c e = some t) :
    Phase parse spec answers t ∧
      Stream answers calls (bytes ++ chunkOf e) t.connection.inbound := by
  cases e with
  | call =>
    obtain ⟨u, called, phase, inbound⟩ := h.call dumps
    cases step
    simp only [called, chunkOf, List.append_nil]
    exact ⟨phase, inbound ▸ stream⟩
  | receive n e more => exact receive_phase answered dumps h stream succeeds longer step
  | written n success more =>
    simp only [Succeeds] at succeeds
    subst succeeds
    simp only [chunkOf, List.append_nil]
    exact written_phase answered dumps h stream step

theorem run_phase (answered : ∀ k, Answers parse (spec k).mode (answers k))
    (dumps : ∀ k, ∃ text, dump (spec k).request = .ok text) {bufsiz : Nat}
    {es : List ClientEvent} {c : AsyncClient}
    (h : Runs.run (step parse dump spec) (new bufsiz) es = some c)
    (succeeds : ∀ e ∈ es, Succeeds e)
    (stream : delivered es <+: Delimited.encode 0 (framesUpTo answers calls)) :
    Phase parse spec answers c ∧ Stream answers calls (delivered es) c.connection.inbound := by
  refine Runs.run_history (step parse dump spec)
    (fun es c => (∀ e ∈ es, Succeeds e) →
      delivered es <+: Delimited.encode 0 (framesUpTo answers calls) →
      Phase parse spec answers c ∧ Stream answers calls (delivered es) c.connection.inbound)
    ?_ (fun _ _ => ?_) h succeeds stream
  · intro past c e t ih step succeeds stream
    have longer : delivered (past ++ [e]) = delivered past ++ chunkOf e := by simp [delivered]
    rw [longer] at stream ⊢
    obtain ⟨phase, before⟩ := ih (fun f member => succeeds f (List.mem_append_left _ member))
      ((List.prefix_append _ _).trans stream)
    exact step_phase answered dumps phase before (succeeds e (by simp)) stream step
  · exact ⟨.turn (k := 0) (.free rfl rfl ⟨rfl, rfl, rfl⟩) rfl rfl ⟨rfl, nofun⟩,
      ⟨Inbound.framed_new bufsiz, rfl, List.nil_prefix⟩⟩

theorem Answers.invocations {mode : Callmode} {frames : List Bytes} (h : Answers parse mode frames)
    (answered : mode ≠ .oneway) (k : Nat) :
    ∃ front last, frames.map (replyInvocation parse mode k) = front ++ [last] ∧
      (∀ i ∈ front, i.continues = true) ∧ last.continues = false := by
  induction frames with
  | nil => exact absurd rfl (h.ne_nil answered)
  | cons frame rest ih =>
    obtain ⟨j, -, -, ⟨continues, more, left⟩ | ⟨continues, rfl⟩⟩ := invocationOf_next k h
    · obtain ⟨front, last, split, continued, terminal⟩ := ih left
      refine ⟨_ :: front, last, by rw [List.map_cons, split]; rfl, ?_, terminal⟩
      exact List.forall_mem_cons.mpr ⟨continues, continued⟩
    · exact ⟨[], _, rfl, nofun, continues⟩

theorem expected_terminal (answered : ∀ k, Answers parse (spec k).mode (answers k)) (k : Nat) :
    ∃ front last, expected parse spec answers k = front ++ [last] ∧
      (∀ i ∈ front, i.continues = true) ∧ last.continues = false := by
  by_cases oneway : (spec k).mode = .oneway
  · rw [expected, if_pos oneway]
    exact ⟨[], _, rfl, nofun, rfl⟩
  · rw [expected_answered oneway]
    exact (answered k).invocations oneway k

/-- How far a client is: all handler calls of the first `done` calls are made, and
no request behind the next one is on the wire. -/
structure Progress (parse : Bytes → ParseResult) (spec : Nat → CallSpec)
    (answers : Nat → List Bytes) (done : Nat) (c : AsyncClient) : Prop where
  issued : done ≤ c.issued
  wire : ∃ n, done ≤ n ∧ n ≤ done + 1 ∧ n ≤ c.issued ∧ c.connection.written = requests spec n
  writing : c.connection.writing.length ≤ 1
  floor : expectedUpTo parse spec answers done <+: c.log.map (·.1)
  ceiling : c.log.map (·.1) <+: expectedUpTo parse spec answers (done + 1)

theorem Phase.progress {c : AsyncClient} (h : Phase parse spec answers c) :
    ∃ done, Progress parse spec answers done c := by
  have replied {k : Nat} {got rest : List Bytes} (h : Replying parse spec answers k got rest c)
      (more : rest ≠ []) : Progress parse spec answers k c := by
    have answered : (spec k).mode ≠ .oneway := by
      cases rest with
      | nil => exact absurd rfl more
      | cons frame rest => exact h.left.mode_of_cons
    refine ⟨Nat.le_of_lt h.holds.issued,
      ⟨k + 1, Nat.le_succ k, Nat.le_refl _, h.holds.issued, h.wire.written⟩,
      by rw [h.wire.writing]; exact Nat.zero_le 1, ?_, ?_⟩
    · rw [h.logged.handled]
      exact List.prefix_append _ _
    · rw [h.logged.handled, expectedUpTo_succ, expected_answered answered, h.split,
        List.map_append, ← List.append_assoc]
      exact List.prefix_append _ _
  cases h with
  | @turn k turn _ _ logged =>
    refine ⟨k, ?_, turn.written, ?_, ?_, ?_⟩
    · cases turn with
      | free next => exact Nat.le_of_eq next.symm
      | sending holds => exact Nat.le_of_lt holds.issued
    · cases turn with
      | free _ _ wire => rw [wire.writing]; exact Nat.zero_le 1
      | sending _ wire => rw [wire.writing]; exact Nat.le_refl 1
    · simp only [logged.handled, List.prefix_rfl]
    · rw [logged.handled, expectedUpTo_succ]
      exact List.prefix_append _ _
  | reading replying more => exact ⟨_, replied replying more⟩
  | posted replying => exact ⟨_, replied replying (List.cons_ne_nil _ _)⟩

theorem Phase.inTurn {c : AsyncClient} (h : Phase parse spec answers c) :
    ∀ p ∈ c.log, (spec p.1.call).mode ≠ .oneway → p.2 = p.1.call + 1 := by
  cases h with
  | turn _ _ _ logged => exact logged.inTurn
  | reading replying => exact replying.logged.inTurn
  | posted replying => exact replying.logged.inTurn

theorem Phase.complete (answered : ∀ k, Answers parse (spec k).mode (answers k))
    {c : AsyncClient} (h : Phase parse spec answers c)
    (stream : Stream answers calls bytes c.connection.inbound)
    (all : bytes = Delimited.encode 0 (framesUpTo answers c.issued))
    (writing : c.connection.writing = [])
    (posted : ∀ received k, .posted received k ∉ c.connection.receives) :
    c.log.map (·.1) = expectedUpTo parse spec answers c.issued := by
  cases h with
  | turn turn _ _ logged =>
    cases turn with
    | free next => rw [next, logged.handled]
    | sending _ wire => simp [wire.writing] at writing
  | posted _ _ receives => exact absurd (receives ▸ List.mem_singleton_self _) (posted _ _)
  | @reading k got rest replying more _ unfinished messages =>
    have read : Delimited.Reads 0 bytes c.connection.inbound.messages
        c.connection.inbound.buffer.contents :=
      ⟨stream.received ▸ stream.framed.received_eq, stream.framed.clean, unfinished⟩
    have whole : Delimited.Reads 0 bytes (framesUpTo answers c.issued) [] :=
      ⟨by rw [all, List.append_nil], framesUpTo_clean answered _, List.not_mem_nil⟩
    have same := (read.unique whole).1
    obtain ⟨later, beyond⟩ := flatMap_range_prefix answers (m := k + 1) replying.holds.issued
    rw [messages, framesUpTo, framesUpTo, ← beyond, flatMap_range_succ, replying.split] at same
    have length := congrArg List.length same
    simp only [List.length_append] at length
    have := List.length_pos_iff.mpr more
    omega

/-- In every run in which no transport operation fails the requests go out in the
order of the calls, each one after the calls before it are done; every handler is
called with the replies to its own request, in order and up to the last one. -/
theorem calls_paired (parse : Bytes → ParseResult) (dump : Dump) (spec : Nat → CallSpec)
    (answers : Nat → List Bytes) (answered : ∀ k, Answers parse (spec k).mode (answers k))
    (dumps : ∀ k, ∃ text, dump (spec k).request = .ok text) (bufsiz : Nat)
    (es : List ClientEvent) (c : AsyncClient)
    (run : Runs.run (step parse dump spec) (new bufsiz) es = some c)
    (succeeds : ∀ e ∈ es, Succeeds e) (calls : Nat)
    (stream : delivered es <+: Delimited.encode 0 (framesUpTo answers calls)) :
    (∃ done, Progress parse spec answers done c) ∧
      (∀ p ∈ c.log, (spec p.1.call).mode ≠ .oneway → p.2 = p.1.call + 1) ∧
      (∀ k, ∃ front last, expected parse spec answers k = front ++ [last] ∧
        (∀ i ∈ front, i.continues = true) ∧ last.continues = false) ∧
      (delivered es = Delimited.encode 0 (framesUpTo answers c.issued) →
        c.connection.writing = [] → (∀ received k, .posted received k ∉ c.connection.receives) →
          c.log.map (·.1) = expectedUpTo parse spec answers c.issued) := by
  obtain ⟨phase, received⟩ := run_phase answered dumps run succeeds stream
  exact ⟨phase.progress, phase.inTurn, expected_terminal answered,
    fun all writing posted => phase.complete answered received all writing posted⟩

/-- A call in more mode with two replies, a oneway call, and basic ones. -/
def mixedCalls : Nat → CallSpec
  | 0 => ⟨.more, .object [("method", .string "org.test.Ping"), ("more", .boolean true)]⟩
  | 1 => ⟨.oneway, .object [("method", .string "org.test.Ping"), ("oneway", .boolean true)]⟩
  | _ => ⟨.basic, .object [("method", .string "org.test.Ping")]⟩

open JsonText (frame encoded parsePing parsePing_encoded partReply basicReply)

/-- The second call is issued by the handler of the first one, the third by its own. -/
theorem calls_paired_mixed :
    let answers : Nat → List Bytes := fun k =>
      match k with
      | 0 => [encoded (partReply true), encoded (partReply false)]
      | 1 => []
      | _ => [encoded basicReply]
    let stream := frame (partReply true) ++ frame (partReply false)
    let es : List ClientEvent := [.call, .written 0 true 0, .receive 0 (.read (stream.take 60)) 1,
      .receive 0 (.read (stream.drop 60)) 0, .written 0 true 1, .written 0 true 0,
      .receive 0 (.read (frame basicReply)) 0]
    ∃ c, Runs.run (step parsePing JsonText.dump mixedCalls) (new 64) es = some c ∧ c.issued = 3 ∧
      c.log.map (·.1) = expectedUpTo parsePing mixedCalls answers 3 := by
  intro answers stream es
  have enabled : (Runs.run (step parsePing JsonText.dump mixedCalls) (new 64) es).any (fun c =>
      c.issued == 3 && c.connection.writing.isEmpty && c.connection.receives.isEmpty) = true := by
    decide +kernel
  obtain ⟨c, run, finished⟩ := (Option.any_eq_true _ _).mp enabled
  simp only [Bool.and_eq_true, beq_iff_eq, List.isEmpty_iff] at finished
  obtain ⟨⟨issued, writing⟩, receives⟩ := finished
  have part (continues : Bool) : partReply continues ∈ JsonText.pings := by
    cases continues <;> simp [JsonText.pings]
  have single : basicReply ∈ JsonText.pings := by simp [JsonText.pings]
  have answered : ∀ k, Answers parsePing (mixedCalls k).mode (answers k)
    | 0 => .more (by decide +kernel) (parsePing_encoded (part true)) ⟨rfl, nofun⟩ rfl rfl
        (.last (by decide +kernel) (parsePing_encoded (part false)) ⟨rfl, nofun⟩ (.inr rfl))
    | 1 => .oneway
    | _ + 2 => .single (.inl rfl) (by decide +kernel) (parsePing_encoded single) ⟨rfl, nofun⟩
  have paired := calls_paired parsePing JsonText.dump mixedCalls answers answered
    (fun _ => ⟨_, rfl⟩) 64 es c run (by simp [es, Succeeds]) 3 (by decide +kernel)
  refine ⟨c, run, issued, ?_⟩
  rw [← issued]
  exact paired.2.2.2 (by rw [issued]; decide +kernel) writing (by simp [receives])

/-- An error ends a call in more mode even if it says that it continues: the reply
behind it, the second one to the first call, goes to the handler of the next. -/
theorem continuedError_ends_call :
    let error : Json := .object [("continues", .boolean true), ("error", .string "org.test.Failed")]
    let parse := JsonText.parse [error, basicReply]
    let spec : Nat → CallSpec := fun k => if k = 0 then mixedCalls 0 else mixedCalls 2
    let es : List ClientEvent := [.call, .call, .written 0 true 0,
      .receive 0 (.read (frame error)) 0, .written 0 true 0,
      .receive 0 (.read (frame basicReply)) 0]
    replyContinues error = .ok true ∧ replyContinues basicReply = .ok false ∧
      delivered es = Delimited.encode 0 [encoded error, encoded basicReply] ∧
      ∃ c, Runs.run (step parse JsonText.dump spec) (new 64) es = some c ∧
        c.log.map (·.1.call) = [0, 1] := by
  intro error parse spec es
  have enabled : (Runs.run (step parse JsonText.dump spec) (new 64) es).any (fun c =>
      c.log.map (·.1.call) == [0, 1]) = true := by decide +kernel
  obtain ⟨c, run, log⟩ := (Option.any_eq_true _ _).mp enabled
  exact ⟨rfl, rfl, by decide +kernel, c, run, by simpa using log⟩

end Varlink.ClientPairing
