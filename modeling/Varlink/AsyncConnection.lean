import Varlink.JsonConnection
import Varlink.ManualStrand
import Varlink.Exception
import Varlink.Library.Delimited

/-! `json_connection` under its asynchronous operations. A completion handler is
what it has captured, of type `κ`. Where an exception leaves a handler it goes
to whoever runs the event loop, and the handler is gone. -/

namespace Varlink

/-- The receive side, with the bytes it was given and the messages cut out of them. -/
structure Inbound where
  buffer : ReceiveBuffer
  received : Bytes
  messages : List Bytes

/-- What a receive handler is called with: a message, or an error and null. -/
inductive Received where
  | message (j : Json)
  | failed

/-- The result of `read_next_message`; only a `parse_error` becomes an error code. -/
def ParseResult.received : ParseResult → Except Stop Received
  | .value j => .ok (.message j)
  | .parseError => .ok .failed
  | .exception what => .error (.thrown (.standard .json what))

/-- A receive under way: waiting for the socket, or posted with its result. -/
inductive Receive (κ : Type) where
  | reading (w : ReadWindow) (handler : κ)
  | posted (received : Received) (handler : κ)

/-- How a receive under way goes on: it runs from the event loop, or the socket
has read or has failed. -/
inductive ReadEvent where
  | run
  | read (chunk : Bytes)
  | error

structure Connection (κ : Type) where
  inbound : Inbound
  receives : List (Receive κ) := []
  writeStrand : ManualStrand (Json × κ) := {}
  /-- Writes the socket has not completed yet. -/
  writing : List (Json × κ) := []
  /-- All messages given to the socket so far. -/
  written : List Json := []

namespace Inbound

def new (bufsiz : Nat) : Inbound := ⟨.new bufsiz, [], []⟩

def readNextMessage (parse : Bytes → ParseResult) (i : Inbound) : Option ParseResult × Inbound :=
  match i.buffer.readNextMessage parse with
  | (none, b) => (none, { i with buffer := b })
  | (some (message, result), b) =>
    (some result, { i with buffer := b, messages := i.messages ++ [message] })

def fill (i : Inbound) (w : ReadWindow) (chunk : Bytes) : Inbound :=
  { i with buffer := i.buffer.commit w chunk, received := i.received ++ chunk }

structure Framed (i : Inbound) : Prop where
  end_le : i.buffer.readEnd ≤ i.buffer.readbuf.length
  received_eq : i.received = Delimited.encode 0 i.messages ++ i.buffer.contents
  clean : ∀ m ∈ i.messages, 0 ∉ m

theorem framed_new (bufsiz : Nat) : (new bufsiz).Framed where
  end_le := Nat.zero_le _
  received_eq := rfl
  clean := nofun

theorem Framed.fill {i : Inbound} {w : ReadWindow} {chunk : Bytes} (h : i.Framed)
    (whole : w = i.buffer.window) (fits : chunk.length ≤ w.size) : (i.fill w chunk).Framed := by
  subst whole
  obtain ⟨length, bound⟩ := ReceiveBuffer.commit_bounds h.end_le fits
  exact
    { end_le := by
        change (i.buffer.commit i.buffer.window chunk).readEnd ≤ _
        rw [show (i.fill i.buffer.window chunk).buffer.readbuf.length = _ from length]
        exact bound
      received_eq := by
        simp only [Inbound.fill, ReceiveBuffer.commit_contents h.end_le, h.received_eq,
          List.append_assoc]
      clean := h.clean }

theorem Framed.readNextMessage {i : Inbound} (h : i.Framed) (parse : Bytes → ParseResult) :
    (i.readNextMessage parse = (none, i) ∧ 0 ∉ i.buffer.contents) ∨
      ∃ message t, i.readNextMessage parse = (some (parse message), t) ∧ t.Framed ∧
        t.received = i.received ∧ t.messages = i.messages ++ [message] := by
  rcases ReceiveBuffer.readNextMessage_cases parse h.end_le with
    ⟨read, none_⟩ | ⟨message, b, read, cut, clean, length, shorter⟩
  · exact .inl ⟨by simp only [Inbound.readNextMessage, read], none_⟩
  · refine .inr ⟨message, ⟨b, i.received, i.messages ++ [message]⟩,
      by simp only [Inbound.readNextMessage, read], ?_, rfl, rfl⟩
    exact
      { end_le := by
          have := h.end_le
          change b.readEnd ≤ b.readbuf.length
          omega
        received_eq := by
          simp only [h.received_eq, cut, Delimited.encode_append]
          simp
        clean := fun m member => by
          rcases List.mem_append.mp member with old | new
          · exact h.clean m old
          · exact List.mem_singleton.mp new ▸ clean }

/-- Within a stream of frames the messages are its first frames. -/
theorem Framed.messages_prefix {i : Inbound} (h : i.Framed) {frames : List Bytes}
    (clean : ∀ f ∈ frames, 0 ∉ f) (stream : i.received <+: Delimited.encode 0 frames) :
    i.messages <+: frames := by
  have start : Delimited.encode 0 i.messages <+: Delimited.encode 0 frames := by
    refine List.IsPrefix.trans ?_ stream
    rw [h.received_eq]
    exact List.prefix_append _ _
  obtain ⟨later, rfl, -⟩ :=
    (Delimited.reads_encode h.clean).of_isPrefix (Delimited.reads_encode clean) start
  exact List.prefix_append _ _

theorem readNextMessage_room (parse : Bytes → ParseResult) (i : Inbound) :
    (i.readNextMessage parse).2.buffer.readbuf.length = i.buffer.readbuf.length := by
  unfold Inbound.readNextMessage ReceiveBuffer.readNextMessage ReceiveBuffer.takeMessage
  split_ifs <;> simp

end Inbound

namespace Connection

variable {κ : Type} (parse : Bytes → ParseResult) (dump : Dump)

def new (bufsiz : Nat) : Connection κ where
  inbound := .new bufsiz

/-- `initiate_async_receive`: a buffered message is posted, not handled at once. -/
def asyncReceive (handler : κ) : Action (Connection κ) Unit := fun c =>
  match c.inbound.readNextMessage parse with
  | (none, i) =>
    (.ok (), { c with
      inbound := i
      receives := c.receives ++ [.reading i.buffer.window handler] })
  | (some result, i) =>
    match result.received with
    | .error e => (.error e, { c with inbound := i })
    | .ok received =>
      (.ok (), { c with inbound := i, receives := c.receives ++ [.posted received handler] })

def onRead (w : ReadWindow) (chunk : Bytes) (handler : κ) (c : Connection κ) :
    Option (κ × Received) × Connection κ :=
  let c := { c with inbound := c.inbound.fill w chunk }
  match c.inbound.readNextMessage parse with
  | (none, i) => (none, (asyncReceive parse handler { c with inbound := i }).2)
  | (some result, i) =>
    (result.received.toOption.map fun received => (handler, received), { c with inbound := i })

def receiveStep (n : Nat) (e : ReadEvent) (c : Connection κ) :
    Option (Option (κ × Received) × Connection κ) :=
  let rest := { c with receives := c.receives.eraseIdx n }
  match c.receives[n]?, e with
  | some (.posted received handler), .run => some (some (handler, received), rest)
  | some (.reading w handler), .read chunk =>
    if chunk.length ≤ w.size then some (onRead parse w chunk handler rest) else none
  | some (.reading _ handler), .error => some (some (handler, .failed), rest)
  | _, _ => none

/-- How the only receive under way, which waits for the socket, can go on. -/
inductive Reads (c : Connection κ) (handler : κ) :
    ReadEvent → Option (κ × Received) × Connection κ → Prop where
  | waits {chunk : Bytes} {i : Inbound} (framed : i.Framed)
      (received : i.received = c.inbound.received ++ chunk)
      (messages : i.messages = c.inbound.messages) (unfinished : 0 ∉ i.buffer.contents) :
      Reads c handler (.read chunk)
        (none, { c with inbound := i, receives := [.reading i.buffer.window handler] })
  | message {chunk : Bytes} {i : Inbound} {message : Bytes} (framed : i.Framed)
      (received : i.received = c.inbound.received ++ chunk)
      (messages : i.messages = c.inbound.messages ++ [message]) :
      Reads c handler (.read chunk)
        ((parse message).received.toOption.map fun received => (handler, received),
          { c with inbound := i, receives := [] })
  | failed : Reads c handler .error (some (handler, .failed), { c with receives := [] })

theorem receiveStep_reading {c : Connection κ} {handler : κ} {n : Nat} {e : ReadEvent}
    {result : Option (κ × Received) × Connection κ} (framed : c.inbound.Framed)
    (receives : c.receives = [.reading c.inbound.buffer.window handler])
    (step : c.receiveStep parse n e = some result) : Reads parse c handler e result := by
  cases n with
  | succ n => simp [receiveStep, receives] at step
  | zero =>
    simp only [receiveStep, receives, List.getElem?_cons_zero, List.eraseIdx_cons_zero] at step
    cases e with
    | run => cases step
    | error =>
      cases step
      exact .failed
    | read chunk =>
      simp only [Option.ite_none_right_eq_some, Option.some.injEq] at step
      obtain ⟨fits, rfl⟩ := step
      have filled := framed.fill rfl fits
      rcases filled.readNextMessage parse with
        ⟨read, unfinished⟩ | ⟨message, i, read, framed, received, messages⟩
      · simp only [onRead, asyncReceive, read, List.nil_append]
        exact .waits filled rfl rfl unfinished
      · simp only [onRead, read]
        exact .message framed received messages

theorem receiveStep_posted {c : Connection κ} {handler : κ} {received : Received} {n : Nat}
    {e : ReadEvent} {result : Option (κ × Received) × Connection κ}
    (receives : c.receives = [.posted received handler])
    (step : c.receiveStep parse n e = some result) :
    e = .run ∧ result = (some (handler, received), { c with receives := [] }) := by
  cases n with
  | succ n => simp [receiveStep, receives] at step
  | zero =>
    simp only [receiveStep, receives, List.getElem?_cons_zero, List.eraseIdx_cons_zero] at step
    cases e with
    | run =>
      cases step
      exact ⟨rfl, rfl⟩
    | read chunk => cases step
    | error => cases step

def write (job : Json × κ) : Action (Connection κ) Unit := fun c =>
  match dump job.1 with
  | .error e => (.error (.thrown e), c)
  | .ok _ => (.ok (), { c with writing := c.writing ++ [job], written := c.written ++ [job.1] })

def execute (next : Option (Json × κ) × ManualStrand (Json × κ)) : Action (Connection κ) Unit :=
  fun c =>
    match next with
    | (none, strand) => (.ok (), { c with writeStrand := strand })
    | (some job, strand) => write dump job { c with writeStrand := strand }

/-- `initiate_async_send`. -/
def asyncSend (message : Json) (handler : κ) : Action (Connection κ) Unit := fun c =>
  execute dump (c.writeStrand.push (message, handler)) c

/-- The `n`-th write completes: the strand goes on, and then the handler is
called, unless the next message cannot be dumped. -/
def writeStep (n : Nat) (c : Connection κ) : Option (Option κ × Connection κ) :=
  c.writing[n]?.map fun job =>
    match execute dump c.writeStrand.next { c with writing := c.writing.eraseIdx n } with
    | (.ok (), t) => (some job.2, t)
    | (.error _, t) => (none, t)

theorem of_writeStep {n : Nat} {c d : Connection κ} {handler : Option κ}
    (done : c.writeStep dump n = some (handler, d)) :
    n < c.writing.length ∧
      (execute dump c.writeStrand.next { c with writing := c.writing.eraseIdx n }).2 = d := by
  obtain ⟨job, found, next⟩ := Option.map_eq_some_iff.mp done
  refine ⟨(List.getElem?_eq_some_iff.mp found).1, ?_⟩
  split at next
  all_goals
    next executed =>
      cases next
      exact congrArg Prod.snd executed

theorem asyncReceive_fst (handler : κ) (c : Connection κ) :
    (asyncReceive parse handler c).1 =
      match (c.inbound.readNextMessage parse).1 with
      | some (.exception what) => .error (.thrown (.standard .json what))
      | _ => .ok () := by
  unfold asyncReceive
  rcases c.inbound.readNextMessage parse with ⟨_ | _ | _ | _, i⟩ <;> rfl

theorem asyncSend_fst (message : Json) (handler : κ) (c : Connection κ) :
    (asyncSend dump message handler c).1 =
      match (c.writeStrand.push (message, handler)).1 with
      | some job => (dump job.1).mapError .thrown |>.map fun _ => ()
      | none => .ok () := by
  unfold asyncSend execute
  rcases c.writeStrand.push (message, handler) with ⟨_ | job, strand⟩
  · rfl
  · simp only [write]
    cases dump job.1 <;> rfl

theorem execute_frame (next : Option (Json × κ) × ManualStrand (Json × κ)) (c : Connection κ) :
    (execute dump next c).2.inbound = c.inbound ∧
      (execute dump next c).2.receives = c.receives := by
  rcases next with ⟨_ | job, strand⟩
  · exact ⟨rfl, rfl⟩
  · simp only [execute, write]
    cases dump job.1 <;> exact ⟨rfl, rfl⟩

theorem asyncSend_inbound (message : Json) (handler : κ) (c : Connection κ) :
    (asyncSend dump message handler c).2.inbound = c.inbound :=
  (execute_frame dump _ c).1

theorem asyncSend_receives (message : Json) (handler : κ) (c : Connection κ) :
    (asyncSend dump message handler c).2.receives = c.receives :=
  (execute_frame dump _ c).2

/-- What was given to the socket, and what waits on the strand, is in order
what was handed over, and all that waits can be dumped. -/
structure Wire (c : Connection κ) (handed : List Json) : Prop where
  ordered : c.writeStrand.Ordered
  written_eq : c.written ++ c.writeStrand.queue.map (·.1) = handed
  dumps : ∀ job ∈ c.writeStrand.queue, ∃ text, dump job.1 = .ok text

variable {parse dump}

theorem Wire.written_prefix {c : Connection κ} {handed : List Json} (h : c.Wire dump handed) :
    c.written <+: handed :=
  h.written_eq ▸ List.prefix_append _ _

theorem Wire.execute {c : Connection κ} {next : Option (Json × κ) × ManualStrand (Json × κ)}
    (handed : List Json) (ordered : next.2.Ordered)
    (written_eq : c.written ++ (next.1.toList ++ next.2.queue).map (·.1) = handed)
    (dumps : ∀ job ∈ next.1.toList ++ next.2.queue, ∃ text, dump job.1 = .ok text) :
    ∃ t, Connection.execute dump next c = (.ok (), t) ∧ t.Wire dump handed ∧
      t.inbound = c.inbound ∧ t.receives = c.receives := by
  obtain ⟨job, strand⟩ := next
  cases job with
  | none => exact ⟨_, rfl, ⟨ordered, written_eq, dumps⟩, rfl, rfl⟩
  | some job =>
    obtain ⟨text, dumped⟩ := dumps job List.mem_cons_self
    let t : Connection κ := { c with
      writeStrand := strand
      writing := c.writing ++ [job]
      written := c.written ++ [job.1] }
    refine ⟨t, by simp only [Connection.execute, write, dumped, t], ⟨ordered, ?_, ?_⟩, rfl, rfl⟩
    · simpa [t] using written_eq
    · exact fun j member => dumps j (List.mem_cons_of_mem _ member)

theorem Wire.asyncSend {c : Connection κ} {handed : List Json} (h : c.Wire dump handed)
    {message : Json} (dumps : ∃ text, dump message = .ok text) (handler : κ) :
    ∃ t, Connection.asyncSend dump message handler c = (.ok (), t) ∧
      t.Wire dump (handed ++ [message]) ∧ t.inbound = c.inbound ∧ t.receives = c.receives := by
  obtain ⟨ordered, -, order, -⟩ := h.ordered.push (message, handler)
  refine Wire.execute _ ordered ?_ ?_
  · rw [order, List.map_append, ← List.append_assoc, h.written_eq]
    rfl
  · intro job member
    rw [order] at member
    rcases List.mem_append.mp member with queued | new
    · exact h.dumps job queued
    · exact List.mem_singleton.mp new ▸ dumps

theorem Wire.writeStep {c : Connection κ} {handed : List Json} (h : c.Wire dump handed) {n : Nat}
    {handler : Option κ} {t : Connection κ} (step : c.writeStep dump n = some (handler, t)) :
    (∃ job, c.writing[n]? = some job ∧ handler = some job.2) ∧ t.Wire dump handed ∧
      t.inbound = c.inbound ∧ t.receives = c.receives := by
  obtain ⟨job, found, step⟩ := Option.map_eq_some_iff.mp step
  obtain ⟨ordered, order, -⟩ := h.ordered.next
  obtain ⟨u, executed, wire, inbound, receives⟩ := Wire.execute handed
    (c := { c with writing := c.writing.eraseIdx n }) ordered (by rw [order]; exact h.written_eq)
    (by rw [order]; exact h.dumps)
  rw [executed] at step
  cases step
  exact ⟨⟨job, found, rfl⟩, wire, inbound, receives⟩

structure Later (c d : Connection κ) : Prop where
  written : c.written <+: d.written
  room : c.inbound.buffer.readbuf.length ≤ d.inbound.buffer.readbuf.length

theorem Later.refl (c : Connection κ) : Later c c := ⟨List.prefix_refl _, Nat.le_refl _⟩

theorem Later.trans {c d e : Connection κ} (h : Later c d) (h' : Later d e) : Later c e :=
  ⟨h.written.trans h'.written, Nat.le_trans h.room h'.room⟩

theorem execute_later (next : Option (Json × κ) × ManualStrand (Json × κ)) (c : Connection κ) :
    Later c (execute dump next c).2 := by
  rcases next with ⟨_ | job, strand⟩
  · exact ⟨List.prefix_refl _, Nat.le_refl _⟩
  · simp only [execute, write]
    cases dump job.1 with
    | error e => exact ⟨List.prefix_refl _, Nat.le_refl _⟩
    | ok text => exact ⟨List.prefix_append _ _, Nat.le_refl _⟩

theorem asyncReceive_later (handler : κ) (c : Connection κ) :
    Later c (asyncReceive parse handler c).2 := by
  have room := c.inbound.readNextMessage_room parse
  unfold asyncReceive
  rcases read : c.inbound.readNextMessage parse with ⟨_ | _ | _ | _, i⟩ <;> rw [read] at room <;>
    exact ⟨List.prefix_refl _, Nat.le_of_eq room.symm⟩

theorem onRead_later (w : ReadWindow) (chunk : Bytes) (handler : κ) (c : Connection κ) :
    Later c (onRead parse w chunk handler c).2 := by
  have filled : Later c { c with inbound := c.inbound.fill w chunk } :=
    ⟨List.prefix_refl _, InPlace.length_le_overwrite _ _ _⟩
  refine filled.trans ?_
  have room := (c.inbound.fill w chunk).readNextMessage_room parse
  simp only [onRead]
  rcases read : (c.inbound.fill w chunk).readNextMessage parse with ⟨_ | result, i⟩ <;>
    rw [read] at room
  · have next : Later { c with inbound := c.inbound.fill w chunk } { c with inbound := i } :=
      ⟨List.prefix_refl _, Nat.le_of_eq room.symm⟩
    exact next.trans (asyncReceive_later handler _)
  · exact ⟨List.prefix_refl _, Nat.le_of_eq room.symm⟩

theorem receiveStep_later {n : Nat} {e : ReadEvent} {c : Connection κ}
    {r : Option (κ × Received) × Connection κ} (h : c.receiveStep parse n e = some r) :
    Later c r.2 := by
  unfold receiveStep at h
  split at h
  · cases h
    exact ⟨List.prefix_refl _, Nat.le_refl _⟩
  · next w handler chunk _ =>
    obtain ⟨-, same⟩ := Option.ite_none_right_eq_some.mp h
    obtain rfl := Option.some.inj same
    obtain ⟨written, room⟩ : Later { c with receives := c.receives.eraseIdx n }
        (onRead parse w chunk handler { c with receives := c.receives.eraseIdx n }).2 :=
      onRead_later w chunk handler _
    exact ⟨written, room⟩
  · cases h
    exact ⟨List.prefix_refl _, Nat.le_refl _⟩
  · cases h

/-- A property of a connection that sending, receiving and a completed write keep. -/
structure Kept (parse : Bytes → ParseResult) (dump : Dump) (inv : Connection κ → Prop) :
    Prop where
  receive : ∀ handler c, inv c → inv (asyncReceive parse handler c).2
  send : ∀ message handler c, inv c → inv (asyncSend dump message handler c).2
  wrote : ∀ n c r, inv c → c.writeStep dump n = some r → inv r.2

theorem kept_later (c : Connection κ) : Kept parse dump (Later c) where
  receive handler d h := h.trans (asyncReceive_later handler d)
  send message handler d h := h.trans (execute_later _ d)
  wrote n d r h wrote := by
    obtain ⟨handler, e⟩ := r
    obtain ⟨-, rfl⟩ := of_writeStep dump wrote
    obtain ⟨written, room⟩ : Later { d with writing := d.writing.eraseIdx n }
        (execute dump d.writeStrand.next { d with writing := d.writing.eraseIdx n }).2 :=
      execute_later _ _
    exact h.trans ⟨written, room⟩

structure SameWriting (c d : Connection κ) : Prop where
  strand : d.writeStrand = c.writeStrand
  writing : d.writing = c.writing
  written : d.written = c.written

theorem asyncReceive_sameWriting (handler : κ) (c : Connection κ) :
    SameWriting c (asyncReceive parse handler c).2 := by
  unfold asyncReceive
  rcases c.inbound.readNextMessage parse with ⟨_ | _ | _ | _, i⟩ <;> exact ⟨rfl, rfl, rfl⟩

theorem receiveStep_sameWriting {n : Nat} {e : ReadEvent} {c : Connection κ}
    {r : Option (κ × Received) × Connection κ} (h : c.receiveStep parse n e = some r) :
    SameWriting c r.2 := by
  unfold receiveStep at h
  split at h
  · cases h
    exact ⟨rfl, rfl, rfl⟩
  · next w handler chunk _ =>
    obtain ⟨-, same⟩ := Option.ite_none_right_eq_some.mp h
    obtain rfl := Option.some.inj same
    simp only [onRead]
    rcases Inbound.readNextMessage parse (c.inbound.fill w chunk) with ⟨_ | result, i⟩
    · obtain ⟨strand, writing, written⟩ := asyncReceive_sameWriting handler
        { c with receives := c.receives.eraseIdx n, inbound := i }
      exact ⟨strand, writing, written⟩
    · exact ⟨rfl, rfl, rfl⟩
  · cases h
    exact ⟨rfl, rfl, rfl⟩
  · cases h

theorem Wire.sameWriting {c d : Connection κ} {handed : List Json} (h : c.Wire dump handed)
    (same : SameWriting c d) : d.Wire dump handed where
  ordered := same.strand ▸ h.ordered
  written_eq := by
    rw [same.strand, same.written]
    exact h.written_eq
  dumps := same.strand ▸ h.dumps

/-- While the strand is held a write is under way. -/
def Flows (c : Connection κ) : Prop := c.writeStrand.executing = true → c.writing ≠ []

theorem Flows.sameWriting {c d : Connection κ} (h : c.Flows) (same : SameWriting c d) :
    d.Flows := by
  rw [Flows, same.strand, same.writing]
  exact h

theorem execute_flows {next : Option (Json × κ) × ManualStrand (Json × κ)} {c : Connection κ}
    (dumps : ∀ job, next.1 = some job → ∃ text, dump job.1 = .ok text)
    (stays : next.1 = none → next.2.executing = true → c.writing ≠ []) :
    Flows (execute dump next c).2 := by
  rcases next with ⟨_ | job, strand⟩
  · exact stays rfl
  · obtain ⟨text, dumped⟩ := dumps job rfl
    simp only [execute, write, dumped]
    exact fun _ => by simp

theorem Wire.asyncSend_flows {c : Connection κ} {handed : List Json} (h : c.Wire dump handed)
    (flows : c.Flows) {message : Json} (dumps : ∃ text, dump message = .ok text) (handler : κ) :
    Flows (Connection.asyncSend dump message handler c).2 := by
  obtain ⟨-, -, order, starts⟩ := h.ordered.push (message, handler)
  refine execute_flows (fun job begun => ?_) fun none_ _ => flows ?_
  · have member : job ∈ c.writeStrand.queue ++ [(message, handler)] := by
      rw [← order, begun]
      exact List.mem_cons_self
    rcases List.mem_append.mp member with queued | new
    · exact h.dumps job queued
    · exact List.mem_singleton.mp new ▸ dumps
  · by_contra idle
    rw [starts (Bool.eq_false_iff.mpr idle)] at none_
    cases none_

theorem Wire.writeStep_flows {c d : Connection κ} {handed : List Json} (h : c.Wire dump handed)
    {n : Nat} {handler : Option κ} (done : c.writeStep dump n = some (handler, d)) : d.Flows := by
  obtain ⟨-, rfl⟩ := of_writeStep dump done
  obtain ⟨-, order, held⟩ := h.ordered.next
  refine execute_flows (fun job begun => h.dumps job ?_) fun none_ running => ?_
  · rw [← order, begun]
    exact List.mem_cons_self
  · cases before : c.writeStrand.executing with
    | true =>
      rw [held before, none_] at running
      cases running
    | false =>
      have empty := h.ordered before
      simp [ManualStrand.next, ManualStrand.execute, empty] at running

end Connection

end Varlink
