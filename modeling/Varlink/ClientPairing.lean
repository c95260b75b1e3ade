import Varlink.AsyncClient

/-! Requests and replies of an asynchronous client. No reply names its request: a
handler gets the replies to its own request because at most one call at a time
is sent or reads, and because the calls take turns in the order of issue. -/

namespace Varlink.ClientPairing

open AsyncClient

structure IsReply (j : Json) : Prop where
  object : j.isObject = true
  error : j.contains "error" = true → (j.member "error").isString = true

def errorOf (j : Json) : ErrorCode :=
  if j.contains "error" then .varlink (j.member "error").getString else .none

section Answers
variable (parse : Bytes → ParseResult)

/-- The frames with which a peer answers a request: one reply, or in more mode
continued ones without an error and then the last one; none to a oneway call. -/
inductive Answers : Callmode → List Bytes → Prop where
  | oneway : Answers .oneway []
  | single {mode : Callmode} {frame : Bytes} {j : Json} (mode_ : mode = .basic ∨ mode = .upgrade)
      (clean : 0 ∉ frame) (parsed : parse frame = .value j) (reply : IsReply j) :
      Answers mode [frame]
  | last {frame : Bytes} {j : Json} (clean : 0 ∉ frame) (parsed : parse frame = .value j)
      (reply : IsReply j)
      (terminal : (errorOf j).isError = true ∨ replyContinues j = .ok false) :
      Answers .more [frame]
  | more {frame : Bytes} {j : Json} {rest : List Bytes} (clean : 0 ∉ frame)
      (parsed : parse frame = .value j) (reply : IsReply j) (noError : j.contains "error" = false)
      (continues : replyContinues j = .ok true) (then_ : Answers .more rest) :
      Answers .more (frame :: rest)

def replyInvocation (mode : Callmode) (k : Nat) (frame : Bytes) : Invocation :=
  match parse frame with
  | .value j => ⟨k, errorOf j, j.member "parameters",
      mode == .more && !(errorOf j).isError && (replyContinues j matches .ok true)⟩
  | _ => ⟨k, .none, .null, false⟩

def expected (spec : Nat → CallSpec) (answers : Nat → List Bytes) (k : Nat) : List Invocation :=
  if (spec k).mode = .oneway then [⟨k, .none, .null, false⟩]
  else (answers k).map (replyInvocation parse (spec k).mode k)

def expectedUpTo (spec : Nat → CallSpec) (answers : Nat → List Bytes) (n : Nat) :
    List Invocation :=
  (List.range n).flatMap (expected parse spec answers)

end Answers

def framesUpTo (answers : Nat → List Bytes) (n : Nat) : List Bytes :=
  (List.range n).flatMap answers

def requests (spec : Nat → CallSpec) (n : Nat) : List Json :=
  (List.range n).map fun k => (spec k).request

variable {parse : Bytes → ParseResult} {dump : Dump} {spec : Nat → CallSpec}
  {answers : Nat → List Bytes}

theorem flatMap_range_succ {α : Type} (f : Nat → List α) (n : Nat) :
    (List.range (n + 1)).flatMap f = (List.range n).flatMap f ++ f n := by
  rw [List.range_succ, List.flatMap_append, List.flatMap_singleton]

theorem flatMap_range_prefix {α : Type} (f : Nat → List α) {m n : Nat} (h : m ≤ n) :
    (List.range m).flatMap f <+: (List.range n).flatMap f := by
  induction n with
  | zero =>
    obtain rfl := Nat.le_zero.mp h
    exact List.prefix_refl _
  | succ n ih =>
    rcases Nat.lt_or_ge n m with beyond | within
    · obtain rfl := Nat.le_antisymm h beyond
      exact List.prefix_refl _
    · rw [flatMap_range_succ]
      exact (ih within).trans (List.prefix_append _ _)

theorem requests_succ (n : Nat) :
    requests spec (n + 1) = requests spec n ++ [(spec n).request] := by
  simp [requests, List.range_succ]

theorem Answers.clean {mode : Callmode} {frames : List Bytes} (h : Answers parse mode frames) :
    ∀ f ∈ frames, 0 ∉ f := by
  induction h with
  | oneway => exact nofun
  | single _ clean => simpa using clean
  | last clean => simpa using clean
  | more clean _ _ _ _ _ ih => simpa using ⟨clean, ih⟩

theorem Answers.mode_of_cons {mode : Callmode} {frame : Bytes} {rest : List Bytes}
    (h : Answers parse mode (frame :: rest)) : mode ≠ .oneway := by
  cases h with
  | single mode_ => rcases mode_ with rfl | rfl <;> nofun
  | last => nofun
  | more => nofun

theorem replyError_eq {j : Json} (h : IsReply j) : replyError .none j = .ok (errorOf j) := by
  unfold replyError errorOf
  cases present : j.contains "error" with
  | false => rfl
  | true =>
    have named := h.error present
    simp only [if_true]
    split
    · rename_i name same
      simp only [same, Json.getString]
    · rename_i other
      cases member : j.member "error" with
      | string name => exact absurd member (other name)
      | _ => simp [member, Json.isString] at named

theorem invocationOf_message {j : Json} (reply : IsReply j) (mode : Callmode) (k : Nat) :
    invocationOf mode k (.message j) =
      (if mode == .more && !(errorOf j).isError then replyContinues j else .ok false).map
        fun continues => ⟨k, errorOf j, j.member "parameters", continues⟩ := by
  simp only [invocationOf, replyError_eq reply, replyParameters, reply.object, Bool.true_or,
    if_true, bind, Except.bind, pure, Except.pure]
  split <;> simp only [*, Except.map]

theorem replyInvocation_value {frame : Bytes} {j : Json} (parsed : parse frame = .value j)
    (mode : Callmode) (k : Nat) :
    replyInvocation parse mode k frame = ⟨k, errorOf j, j.member "parameters",
      mode == .more && !(errorOf j).isError && (replyContinues j matches .ok true)⟩ := by
  simp only [replyInvocation, parsed]

theorem invocationOf_next {mode : Callmode} {frame : Bytes} {rest : List Bytes} (k : Nat)
    (h : Answers parse mode (frame :: rest)) :
    ∃ j, parse frame = .value j ∧
      invocationOf mode k (.message j) = .ok (replyInvocation parse mode k frame) ∧
      ((replyInvocation parse mode k frame).continues = true ∧ rest ≠ [] ∧ Answers parse mode rest ∨
        (replyInvocation parse mode k frame).continues = false ∧ rest = []) := by
  cases h with
  | @single _ _ j mode_ clean parsed reply =>
    have basic : (mode == .more) = false := by rcases mode_ with rfl | rfl <;> rfl
    refine ⟨j, parsed, ?_, .inr ⟨?_, rfl⟩⟩ <;>
      simp [invocationOf_message reply, replyInvocation_value parsed, basic, Except.map]
  | @last _ j clean parsed reply terminal =>
    refine ⟨j, parsed, ?_, .inr ⟨?_, rfl⟩⟩ <;>
      rcases terminal with error | terminal <;> cases isError : (errorOf j).isError <;>
        simp_all [invocationOf_message reply, replyInvocation_value parsed, Except.map]
  | @more _ j _ clean parsed reply noError continues then_ =>
    have fine : (errorOf j).isError = false := by
      simp only [errorOf, noError, Bool.false_eq_true, if_false, ErrorCode.isError]
    refine ⟨j, parsed, ?_, .inl ⟨?_, ?_, then_⟩⟩
    · simp [invocationOf_message reply, replyInvocation_value parsed, fine, continues, Except.map]
    · simp [replyInvocation_value parsed, fine, continues]
    · rintro rfl
      cases then_

/-- No request is being written, and the first `n` ones are on the wire. -/
structure WireIdle (spec : Nat → CallSpec) (n : Nat) (c : Connection Nat) : Prop where
  strand : c.writeStrand = {}
  writing : c.writing = []
  written : c.written = requests spec n

/-- The request of the `n`-th call is being written, behind those before it. -/
structure WireBusy (spec : Nat → CallSpec) (n : Nat) (c : Connection Nat) : Prop where
  strand : c.writeStrand = { queue := [], executing := true }
  writing : c.writing = [((spec n).request, n)]
  written : c.written = requests spec (n + 1)

theorem WireIdle.send {n : Nat} {c : Connection Nat} (h : WireIdle spec n c)
    (dumps : ∀ k, ∃ text, dump (spec k).request = .ok text) :
    ∃ t, c.asyncSend dump (spec n).request n = (.ok (), t) ∧ WireBusy spec n t ∧
      t.inbound = c.inbound ∧ t.receives = c.receives := by
  obtain ⟨text, dumped⟩ := dumps n
  refine ⟨{ c with
    writeStrand := { queue := [], executing := true }
    writing := [((spec n).request, n)]
    written := requests spec (n + 1) }, ?_, ⟨rfl, rfl, rfl⟩, rfl, rfl⟩
  simp [Connection.asyncSend, Connection.execute, Connection.write, ManualStrand.push,
    ManualStrand.execute, h.strand, h.writing, h.written, dumped, requests_succ]

theorem WireIdle.not_writing {n m : Nat} {c : Connection Nat} (h : WireIdle spec n c) :
    c.writeStep dump m = none := by
  simp only [Connection.writeStep, h.writing, List.getElem?_nil, Option.map_none]

theorem WireBusy.writeStep {n m : Nat} {c t : Connection Nat} {handler : Option Nat}
    (h : WireBusy spec n c) (step : c.writeStep dump m = some (handler, t)) :
    handler = some n ∧ WireIdle spec (n + 1) t ∧ t.inbound = c.inbound ∧
      t.receives = c.receives := by
  cases m with
  | succ m => simp [Connection.writeStep, h.writing] at step
  | zero =>
    simp only [Connection.writeStep, h.writing, h.strand, ManualStrand.next, ManualStrand.execute,
      Connection.execute, List.getElem?_cons_zero, Option.map_some, Option.some.injEq,
      Prod.mk.injEq, List.eraseIdx_cons_zero] at step
    obtain ⟨rfl, rfl⟩ := step
    exact ⟨rfl, ⟨rfl, rfl, h.written⟩, rfl, rfl⟩

/-- The `k`-th call has the call strand; those issued behind it wait in order. -/
structure Holds (k : Nat) (c : AsyncClient) : Prop where
  issued : k < c.issued
  strand : c.callStrand =
    { queue := List.range' (k + 1) (c.issued - (k + 1)), executing := true }

/-- It is the turn of the `k`-th call: it is being written, or not yet issued. -/
inductive Turn (spec : Nat → CallSpec) (k : Nat) (c : AsyncClient) : Prop where
  | free (next : c.issued = k) (strand : c.callStrand = {}) (wire : WireIdle spec k c.connection)
  | sending (holds : Holds k c) (wire : WireBusy spec k c.connection)

theorem Holds.congr {k : Nat} {c t : AsyncClient} (h : Holds k c) (issued : t.issued = c.issued)
    (strand : t.callStrand = c.callStrand) : Holds k t :=
  ⟨issued ▸ h.issued, by rw [strand, h.strand, issued]⟩

theorem WireIdle.congr {n : Nat} {c t : Connection Nat} (h : WireIdle spec n c)
    (strand : t.writeStrand = c.writeStrand) (writing : t.writing = c.writing)
    (written : t.written = c.written) : WireIdle spec n t :=
  ⟨strand.trans h.strand, writing.trans h.writing, written.trans h.written⟩

theorem Turn.withLog {k : Nat} {c : AsyncClient} (h : Turn spec k c)
    (log : List (Invocation × Nat)) : Turn spec k { c with log } := by
  cases h with
  | free next strand wire => exact .free next strand wire
  | sending holds wire => exact .sending (holds.congr rfl rfl) wire

structure Same (c t : AsyncClient) : Prop where
  inbound : t.connection.inbound = c.connection.inbound
  receives : t.connection.receives = c.connection.receives
  log : t.log = c.log

theorem Same.refl (c : AsyncClient) : Same c c := ⟨rfl, rfl, rfl⟩

theorem Same.trans {c t u : AsyncClient} (h : Same c t) (k : Same t u) : Same c u :=
  ⟨k.inbound.trans h.inbound, k.receives.trans h.receives, k.log.trans h.log⟩

theorem Turn.written {k : Nat} {c : AsyncClient} (h : Turn spec k c) :
    ∃ n, k ≤ n ∧ n ≤ k + 1 ∧ n ≤ c.issued ∧ c.connection.written = requests spec n := by
  cases h with
  | free next _ wire =>
    exact ⟨k, Nat.le_refl k, Nat.le_succ k, Nat.le_of_eq next.symm, wire.written⟩
  | sending holds wire => exact ⟨k + 1, Nat.le_succ k, Nat.le_refl _, holds.issued, wire.written⟩

theorem Holds.asyncCall {k : Nat} {c : AsyncClient} (h : Holds k c) :
    ∃ t, asyncCall dump spec c = (.ok (), t) ∧ Holds k t ∧ t.connection = c.connection ∧
      t.log = c.log := by
  have issued := h.issued
  have longer : List.range' (k + 1) (c.issued - (k + 1)) ++ [c.issued] =
      List.range' (k + 1) (c.issued + 1 - (k + 1)) := by
    rw [show c.issued + 1 - (k + 1) = c.issued - (k + 1) + 1 by omega, List.range'_concat]
    congr 2
    omega
  refine ⟨{ c with
    issued := c.issued + 1
    callStrand := {
      queue := List.range' (k + 1) (c.issued - (k + 1)) ++ [c.issued], executing := true } },
    ?_, ⟨Nat.lt_succ_of_lt issued, by rw [longer]⟩, rfl, rfl⟩
  simp [AsyncClient.asyncCall, AsyncClient.execute, ManualStrand.push, h.strand]

theorem Holds.asyncCalls {k : Nat} {c : AsyncClient} (h : Holds k c) (n : Nat) :
    ∃ t, asyncCalls dump spec n c = (.ok (), t) ∧ Holds k t ∧ t.connection = c.connection ∧
      t.log = c.log := by
  induction n generalizing c with
  | zero => exact ⟨c, rfl, h, rfl, rfl⟩
  | succ n ih =>
    obtain ⟨t, called, holds, connection, log⟩ :
        ∃ t, AsyncClient.asyncCall dump spec c = (.ok (), t) ∧ Holds k t ∧
          t.connection = c.connection ∧ t.log = c.log := h.asyncCall
    obtain ⟨u, rest, holds, connection', log'⟩ := ih holds
    exact ⟨u, by simp only [AsyncClient.asyncCalls, called, rest], holds,
      connection'.trans connection, log'.trans log⟩

theorem send_turn {k : Nat} {c : AsyncClient} (wire : WireIdle spec k c.connection)
    (holds : Holds k c) (dumps : ∀ k, ∃ text, dump (spec k).request = .ok text) :
    ∃ t, send dump spec k c = (.ok (), t) ∧ Turn spec k t ∧ t.issued = c.issued ∧ Same c t := by
  obtain ⟨connection, sent, busy, inbound, receives⟩ := wire.send dumps
  refine ⟨{ c with connection }, by simp only [AsyncClient.send, sent], .sending ?_ busy, rfl,
    ⟨inbound, receives, rfl⟩⟩
  exact holds.congr rfl rfl

theorem Turn.asyncCall {k : Nat} {c : AsyncClient} (h : Turn spec k c)
    (dumps : ∀ k, ∃ text, dump (spec k).request = .ok text) :
    ∃ t, asyncCall dump spec c = (.ok (), t) ∧ Turn spec k t ∧ Same c t := by
  cases h with
  | free next strand wire =>
    subst next
    let t : AsyncClient := { c with
      issued := c.issued + 1, callStrand := { queue := [], executing := true } }
    have holds : Holds c.issued t := ⟨Nat.lt_succ_self _, by simp [t]⟩
    obtain ⟨u, sent, turn, -, same⟩ := send_turn (c := t) wire holds dumps
    refine ⟨u, ?_, turn, ⟨same.inbound, same.receives, same.log⟩⟩
    simpa [AsyncClient.asyncCall, AsyncClient.execute, ManualStrand.push, ManualStrand.execute,
      strand] using sent
  | sending holds wire =>
    obtain ⟨t, called, holds, connection, log⟩ := holds.asyncCall
    exact ⟨t, called, .sending holds (connection ▸ wire), by rw [connection], by rw [connection],
      log⟩

theorem Turn.asyncCalls {k : Nat} {c : AsyncClient} (h : Turn spec k c)
    (dumps : ∀ k, ∃ text, dump (spec k).request = .ok text) (n : Nat) :
    ∃ t, asyncCalls dump spec n c = (.ok (), t) ∧ Turn spec k t ∧ Same c t := by
  induction n generalizing c with
  | zero => exact ⟨c, rfl, h, .refl c⟩
  | succ n ih =>
    obtain ⟨t, called, turn, same⟩ := h.asyncCall dumps
    obtain ⟨u, rest, turn, same'⟩ := ih turn
    exact ⟨u, by simp only [AsyncClient.asyncCalls, called, rest], turn, same.trans same'⟩

theorem Holds.next {k : Nat} {c : AsyncClient} (h : Holds k c)
    (wire : WireIdle spec (k + 1) c.connection)
    (dumps : ∀ k, ∃ text, dump (spec k).request = .ok text) :
    ∃ t, next dump spec c = (.ok (), t) ∧ Turn spec (k + 1) t ∧ Same c t := by
  have issued := h.issued
  rcases Nat.lt_or_ge (k + 1) c.issued with waiting | none_
  · have queue : List.range' (k + 1) (c.issued - (k + 1)) =
        (k + 1) :: List.range' (k + 2) (c.issued - (k + 2)) := by
      rw [show c.issued - (k + 1) = c.issued - (k + 2) + 1 by omega, List.range'_succ]
    let t : AsyncClient := { c with callStrand :=
      { queue := List.range' (k + 2) (c.issued - (k + 2)), executing := true } }
    obtain ⟨u, sent, turn, -, same⟩ := send_turn (c := t) wire ⟨waiting, rfl⟩ dumps
    refine ⟨u, ?_, turn, ⟨same.inbound, same.receives, same.log⟩⟩
    simpa [AsyncClient.next, AsyncClient.execute, ManualStrand.next, ManualStrand.execute,
      h.strand, queue] using sent
  · have all : c.issued - (k + 1) = 0 := by omega
    refine ⟨{ c with callStrand := {} }, ?_, .free (by simp only; omega) rfl wire, ⟨rfl, rfl, rfl⟩⟩
    simp [AsyncClient.next, AsyncClient.execute, ManualStrand.next, ManualStrand.execute,
      h.strand, all]

end Varlink.ClientPairing
