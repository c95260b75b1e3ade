import Varlink.Frame
import Varlink.ReceiveFraming

/-! `send` on one end of a connection and the receives on the other. The socket
takes any part of what it is offered, and hands on any part of what it took. -/

namespace Varlink.SendReceive

open ReceiveFraming (Outcome Receiver Framed Waiting)
open Varlink.Frame (bytes data texts)

/-- The loop in `send`. -/
structure Sending where
  m : Bytes
  sent : Nat

namespace Sending

/-- The terminator is included. -/
def size (s : Sending) : Nat := s.m.length + 1

/-- `net::buffer(m.data() + sent, size - sent)`. -/
def buffer (s : Sending) : Bytes := ((data s.m).drop s.sent).take (s.size - s.sent)

/-- `sent += n`, and the loop again while `sent < size`. -/
def advance (s : Sending) (n : Nat) : Option Sending :=
  let sent := s.sent + n
  if sent < s.size then some { s with sent } else none

def taken (s : Sending) : Bytes := (data s.m).take s.sent

theorem buffer_eq (s : Sending) : s.buffer = (data s.m).drop s.sent := by
  rw [buffer, List.take_of_length_le]
  simp [data, size]

theorem taken_append_take (s : Sending) (n : Nat) :
    s.taken ++ s.buffer.take n = (data s.m).take (s.sent + n) := by
  rw [buffer_eq, taken, List.take_add]

end Sending

structure Sender where
  sending : Option Sending := none
  /-- The arguments of `send` so far. -/
  values : List Json := []
  /-- All bytes the socket has taken. -/
  wire : Bytes := []

variable (parse : Bytes → ParseResult) (dump : Dump)

/-- `send`, up to the first `stream.send`; what `dump` throws leaves it at once. -/
def send (message : Json) (s : Sender) : Sender :=
  { s with
    values := s.values ++ [message]
    sending := match dump message with
      | .ok text => some ⟨bytes text, 0⟩
      | .error _ => none }

def wrote (w : Sending) (n : Nat) (s : Sender) : Sender :=
  { s with wire := s.wire ++ w.buffer.take n, sending := w.advance n }

structure Link where
  sender : Sender
  inFlight : Bytes
  receiver : Receiver

inductive Event where
  | send (message : Json)
  | wrote (n : Nat)
  | receiver (e : ReceiveFraming.Event)

def init (bufsiz : Nat) : Link := ⟨{}, [], ReceiveFraming.init bufsiz⟩

def chunk : ReceiveFraming.Event → Bytes
  | .read chunk => chunk
  | _ => []

def step (l : Link) : Event → Option Link
  | .send message =>
    match l.sender.sending with
    | none => some { l with sender := send dump message l.sender }
    | some _ => none
  | .wrote n =>
    match l.sender.sending with
    | none => none
    | some w =>
      if 0 < n ∧ n ≤ w.buffer.length then
        some { l with
          sender := wrote w n l.sender
          inFlight := l.inFlight ++ w.buffer.take n }
      else none
  | .receiver e =>
    if (chunk e).isPrefixOf l.inFlight then
      (ReceiveFraming.step parse l.receiver e).map fun receiver =>
        { l with receiver, inFlight := l.inFlight.drop (chunk e).length }
    else none

/-- `dump` writes the value down without a NUL, and `parse` reads it back. -/
def Inverts (v : Json) : Prop :=
  ∃ text, dump v = .ok text ∧ 0 ∉ bytes text ∧ parse (bytes text) = .value v

variable {parse dump}

theorem texts_clean {values : List Json} (inverts : ∀ v ∈ values, Inverts parse dump v) :
    ∀ m ∈ texts dump values, 0 ∉ m := by
  intro m member
  obtain ⟨v, passed, dumped⟩ := List.mem_filterMap.mp member
  obtain ⟨text, written, clean, -⟩ := inverts v passed
  simp only [written, Except.toOption, Option.map_some, Option.some.injEq] at dumped
  exact dumped ▸ clean

theorem texts_parse {values : List Json} (inverts : ∀ v ∈ values, Inverts parse dump v) :
    (texts dump values).map (fun m => Outcome.ofParse (parse m)) = values.map .value := by
  induction values with
  | nil => rfl
  | cons v rest ih =>
    obtain ⟨text, written, -, parsed⟩ := inverts v List.mem_cons_self
    have tail := ih fun w member => inverts w (List.mem_cons_of_mem v member)
    rw [Frame.texts_cons_of_ok written, List.map_cons, List.map_cons, tail, parsed]
    rfl

/-- What the socket has taken: the frames, the last one as far as `send` has come. -/
structure Wired (dump : Dump) (s : Sender) : Prop where
  idle : s.sending = none → s.wire = Delimited.encode 0 (texts dump s.values)
  busy : ∀ w, s.sending = some w → w.sent ≤ w.m.length ∧
    ∃ earlier, texts dump s.values = earlier ++ [w.m] ∧
      s.wire = Delimited.encode 0 earlier ++ w.taken

namespace Wired

theorem send {s : Sender} (h : Wired dump s) (idle : s.sending = none) (message : Json) :
    Wired dump (send dump message s) := by
  cases dumped : dump message with
  | error e =>
    refine ⟨fun _ => ?_, fun w busy => ?_⟩
    · simp only [SendReceive.send, Frame.texts_append, Frame.texts_cons_of_error dumped,
        h.idle idle]
      simp [texts]
    · simp [SendReceive.send, dumped] at busy
  | ok text =>
    refine ⟨fun free => ?_, fun w busy => ?_⟩
    · simp [SendReceive.send, dumped] at free
    · simp only [SendReceive.send, dumped, Option.some.injEq] at busy
      subst busy
      refine ⟨Nat.zero_le _, texts dump s.values, ?_, ?_⟩
      · rw [SendReceive.send, Frame.texts_append, Frame.texts_cons_of_ok dumped]
        rfl
      · simp only [SendReceive.send, h.idle idle, Sending.taken, List.take_zero, List.append_nil]

theorem wrote {s : Sender} {w : Sending} (h : Wired dump s) (busy : s.sending = some w) {n : Nat}
    (fits : n ≤ w.buffer.length) : Wired dump (wrote w n s) := by
  obtain ⟨bound, earlier, values, wire⟩ := h.busy w busy
  have room : w.sent + n ≤ w.size := by
    rw [Sending.buffer_eq] at fits
    simp only [data, List.length_drop, List.length_append, List.length_singleton] at fits
    simp only [Sending.size]
    omega
  have taken : (SendReceive.wrote w n s).wire =
      Delimited.encode 0 earlier ++ (data w.m).take (w.sent + n) := by
    rw [SendReceive.wrote, wire, List.append_assoc, w.taken_append_take]
  by_cases more : w.sent + n < w.size
  · have goes : (SendReceive.wrote w n s).sending = some { w with sent := w.sent + n } := by
      simp [SendReceive.wrote, Sending.advance, more]
    refine ⟨fun free => ?_, fun v same => ?_⟩
    · simp [goes] at free
    · obtain rfl := Option.some.inj (goes.symm.trans same)
      exact ⟨Nat.lt_succ_iff.mp more, earlier, values, taken⟩
  · have ends : (SendReceive.wrote w n s).sending = none := by
      simp [SendReceive.wrote, Sending.advance, more]
    refine ⟨fun _ => ?_, fun v same => ?_⟩
    · have all : w.sent + n = (data w.m).length := by
        simp only [data, List.length_append, List.length_singleton]
        simp only [Sending.size] at more room
        omega
      rw [taken, all, List.take_length]
      simp only [SendReceive.wrote, values, data, Delimited.encode_append, Delimited.encode_cons,
        Delimited.encode_nil]
    · simp [ends] at same

theorem isPrefix {s : Sender} (h : Wired dump s) :
    s.wire <+: Delimited.encode 0 (texts dump s.values) := by
  cases busy : s.sending with
  | none =>
    exact h.idle busy ▸ List.prefix_refl _
  | some w =>
    obtain ⟨-, earlier, values, wire⟩ := h.busy w busy
    rw [wire, values, Delimited.encode_append]
    refine (List.prefix_append_right_inj _).mpr ?_
    simpa [Sending.taken, data] using List.take_prefix w.sent (w.m ++ [0])

end Wired

/-- Between the ends no byte is lost, and both ends keep their invariant. -/
structure Connected (parse : Bytes → ParseResult) (dump : Dump) (bufsiz : Nat) (l : Link) :
    Prop where
  wired : Wired dump l.sender
  travels : l.receiver.received ++ l.inFlight = l.sender.wire
  framed : Framed parse bufsiz l.receiver
  waiting : Waiting l.receiver

theorem received_chunk {r t : Receiver} {e : ReceiveFraming.Event}
    (h : ReceiveFraming.step parse r e = some t) : t.received = r.received ++ chunk e := by
  have receive : ∀ r : Receiver, (ReceiveFraming.receive parse r).received = r.received := by
    intro r
    unfold ReceiveFraming.receive
    split <;> rfl
  have asyncReceive :
      ∀ r : Receiver, (ReceiveFraming.asyncReceive parse r).received = r.received := by
    intro r
    unfold ReceiveFraming.asyncReceive
    split <;> rfl
  have onRead : ∀ r : Receiver, (ReceiveFraming.onRead parse r).received = r.received := by
    intro r
    unfold ReceiveFraming.onRead
    split
    · exact asyncReceive _
    · rfl
  cases ReceiveFraming.step_cases h with
  | receive idle => exact (receive r).trans (List.append_nil _).symm
  | asyncReceive idle => exact (asyncReceive r).trans (List.append_nil _).symm
  | readSync waits fits => rw [receive, chunk, ReceiveFraming.fill]
  | readAsync waits fits => rw [onRead, chunk, ReceiveFraming.fill]
  | readError waits => exact (List.append_nil _).symm
  | runPosted posted => exact (List.append_nil _).symm

theorem Connected.init (bufsiz : Nat) : Connected parse dump bufsiz (init bufsiz) where
  wired := ⟨fun _ => rfl, nofun⟩
  travels := rfl
  framed := Framed.init bufsiz
  waiting := by rintro w ⟨⟩

theorem step_connected {bufsiz : Nat} {l t : Link} {e : Event}
    (h : Connected parse dump bufsiz l) (hs : step parse dump l e = some t) :
    Connected parse dump bufsiz t := by
  cases e with
  | send message =>
    cases busy : l.sender.sending with
    | some w => simp [step, busy] at hs
    | none =>
      simp only [step, busy, Option.some.injEq] at hs
      subst hs
      exact { h with wired := h.wired.send busy message }
  | wrote n =>
    cases busy : l.sender.sending with
    | none => simp [step, busy] at hs
    | some w =>
      simp only [step, busy, Option.ite_none_right_eq_some, Option.some.injEq] at hs
      obtain ⟨⟨-, fits⟩, rfl⟩ := hs
      refine { h with wired := h.wired.wrote busy fits, travels := ?_ }
      simp only [wrote, ← h.travels, List.append_assoc]
  | receiver e =>
    simp only [step, Option.ite_none_right_eq_some, Option.map_eq_some_iff] at hs
    obtain ⟨offered, receiver, received, rfl⟩ := hs
    obtain ⟨framed, waiting⟩ := ReceiveFraming.step_framed ⟨h.framed, h.waiting⟩ received
    refine { h with framed, waiting, travels := ?_ }
    obtain ⟨rest, flight⟩ := List.isPrefixOf_iff_prefix.mp offered
    rw [received_chunk received, ← h.travels, ← flight, List.drop_left, List.append_assoc]

theorem run_connected {bufsiz : Nat} {l : Link} {es : List Event}
    (h : Runs.run (step parse dump) (init bufsiz) es = some l) : Connected parse dump bufsiz l :=
  Runs.run_invariant _ (fun _ _ _ hi hs => step_connected hi hs) (Connected.init bufsiz) h

/-- However the writes and the reads split the stream, the `k`-th receive that
completes without a transport error gives the `k`-th value passed to `send`;
and when `send` has returned, a receive that waits after all bytes has had all values. -/
theorem values_arrive (parse : Bytes → ParseResult) (dump : Dump) (bufsiz : Nat) (es : List Event)
    (l : Link) (h : Runs.run (step parse dump) (init bufsiz) es = some l)
    (inverts : ∀ v ∈ l.sender.values, Inverts parse dump v) :
    (∀ (k : Nat) (outcome : Outcome), l.receiver.outcomes[k]? = some outcome →
      ∃ v, l.sender.values[k]? = some v ∧ outcome = .value v) ∧
    (l.sender.sending = none → l.inFlight = [] → l.receiver.pending.window?.isSome →
      l.receiver.outcomes = l.sender.values.map .value) := by
  obtain ⟨wired, travels, framed, waiting⟩ := run_connected h
  have parsed := texts_parse inverts
  have stream : l.receiver.received <+: Delimited.encode 0 (texts dump l.sender.values) :=
    List.IsPrefix.trans (travels ▸ List.prefix_append _ _) wired.isPrefix
  refine ⟨fun k outcome completed => ?_, fun idle arrived waits => ?_⟩
  · have first := framed.outcomes_eq_take stream
    rw [Delimited.frames_encode (texts_clean inverts), parsed] at first
    have order : l.receiver.outcomes <+: l.sender.values.map .value := by
      rw [first]
      exact List.take_prefix _ _
    obtain ⟨later, order⟩ := order
    have passed : (l.sender.values.map Outcome.value)[k]? = some outcome := by
      rw [← order, List.getElem?_append_left (List.getElem?_eq_some_iff.mp completed).1, completed]
    rw [List.getElem?_map] at passed
    obtain ⟨v, value, rfl⟩ := Option.map_eq_some_iff.mp passed
    exact ⟨v, value, rfl⟩
  · obtain ⟨w, offered⟩ := Option.isSome_iff_exists.mp waits
    have unfinished := (waiting w offered).2
    have due : l.receiver.pending.due = [] := by
      cases pending : l.receiver.pending with
      | posted result => simp [pending, ReceiveFraming.Pending.window?] at offered
      | _ => rfl
    have all : Delimited.Reads 0 (Delimited.encode 0 (texts dump l.sender.values))
        l.receiver.messages l.receiver.buffer.contents := by
      refine ⟨?_, framed.clean, unfinished⟩
      rw [← framed.received_eq, ← wired.idle idle, ← travels, arrived, List.append_nil]
    rw [framed.outcomes_of_due due, ← parsed,
      (all.unique (Delimited.reads_encode (texts_clean inverts))).1]

def integer? : Json → Option Int
  | .integer n => some n
  | _ => none

theorem eq_integers {values : List Json} {numbers : List Int}
    (same : values.map integer? = numbers.map some) : values = numbers.map .integer := by
  induction values generalizing numbers with
  | nil => cases numbers <;> simp at same ⊢
  | cons v values ih =>
    cases numbers with
    | nil => simp at same
    | cons n numbers =>
      simp only [List.map_cons, List.cons.injEq] at same
      have first : v = .integer n := by
        cases v <;> simp_all [integer?]
      rw [first, ih same.2, List.map_cons]

theorem values_arrive_two :
    let dump : Dump := fun v => match v with
      | .integer 42 => .ok "42"
      | .integer 7 => .ok "7"
      | _ => .error (.standard .json "")
    let parse : Bytes → ParseResult := fun m =>
      if m = bytes "42" then .value (.integer 42)
      else if m = bytes "7" then .value (.integer 7) else .parseError
    let es : List Event := [.send (.integer 42), .receiver .receive, .wrote 1, .wrote 2,
      .send (.integer 7), .wrote 2, .receiver (.read (bytes "42")), .receiver (.read [0]),
      .receiver .asyncReceive, .receiver (.read (bytes "7" ++ [0])), .receiver .receive]
    ∃ l, Runs.run (step parse dump) (init 8) es = some l ∧
      l.sender.values = [.integer 42, .integer 7] ∧
      l.receiver.outcomes = l.sender.values.map .value := by
  intro dump parse es
  have enabled : (Runs.run (step parse dump) (init 8) es).any (fun l =>
      l.sender.sending.isNone && l.inFlight.isEmpty && l.receiver.pending.window?.isSome &&
        l.sender.values.map integer? == [some 42, some 7]) = true := by decide +kernel
  obtain ⟨l, run, ends⟩ := (Option.any_eq_true _ _).mp enabled
  simp only [Bool.and_eq_true, Option.isNone_iff_eq_none, List.isEmpty_iff, beq_iff_eq] at ends
  obtain ⟨⟨⟨idle, arrived⟩, waits⟩, passed⟩ := ends
  have values : l.sender.values = [.integer 42, .integer 7] :=
    @eq_integers _ [42, 7] passed
  refine ⟨l, run, values, (values_arrive parse dump 8 es l run ?_).2 idle arrived waits⟩
  rw [values]
  intro v passed
  rcases List.mem_pair.mp passed with rfl | rfl
  · exact ⟨"42", rfl, by decide +kernel, rfl⟩
  · exact ⟨"7", rfl, by decide +kernel, rfl⟩

end Varlink.SendReceive
