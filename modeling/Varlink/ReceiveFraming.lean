import Varlink.JsonConnection
import Varlink.Library.Runs
import Varlink.Library.Delimited

/-! Runs of one connection that is received from, one receive at a time, by
`receive` and by `async_receive` in any mixture. The socket hands over chunks
of any size the offered window allows, or fails; what it has handed over and
which messages were cut out of it is recorded on the side. -/

namespace Varlink.ReceiveFraming

open ReceiveBuffer

inductive Outcome where
  | value (j : Json)
  | failure

/-- `invalid_argument` for a `parse_error`, and an escaping exception else: no value. -/
def Outcome.ofParse : ParseResult → Outcome
  | .value j => .value j
  | .parseError => .failure
  | .exception _ => .failure

/-- The receive in progress: `receive` blocked in `stream.receive`, an
`async_receive` waiting for the socket, or its handler posted with a result. -/
inductive Pending where
  | idle
  | receiving (w : ReadWindow)
  | reading (w : ReadWindow)
  | posted (result : ParseResult)

structure Receiver where
  buffer : ReceiveBuffer
  pending : Pending
  received : Bytes
  messages : List Bytes
  outcomes : List Outcome

inductive Event where
  | receive
  | asyncReceive
  | read (chunk : Bytes)
  | readError
  | runPosted

def init (bufsiz : Nat) : Receiver := ⟨.new bufsiz, .idle, [], [], []⟩

variable (parse : Bytes → ParseResult)

/-- The head of the loop in `receive`: return, throw, or ask the socket. -/
def receive (r : Receiver) : Receiver :=
  match r.buffer.readNextMessage parse with
  | (none, b) => { r with buffer := b, pending := .receiving b.window }
  | (some (message, result), b) =>
    { r with
      buffer := b
      pending := .idle
      messages := r.messages ++ [message]
      outcomes := r.outcomes ++ [.ofParse result] }

/-- `initiate_async_receive`: a buffered message is posted, not handled at once. -/
def asyncReceive (r : Receiver) : Receiver :=
  match r.buffer.readNextMessage parse with
  | (none, b) => { r with buffer := b, pending := .reading b.window }
  | (some (message, result), b) =>
    { r with
      buffer := b
      messages := r.messages ++ [message]
      pending := .posted result }

/-- The completion handler of the socket read: the handler, or the next read. -/
def onRead (r : Receiver) : Receiver :=
  match r.buffer.readNextMessage parse with
  | (none, b) => asyncReceive parse { r with buffer := b }
  | (some (message, result), b) =>
    { r with
      buffer := b
      pending := .idle
      messages := r.messages ++ [message]
      outcomes := r.outcomes ++ [.ofParse result] }

def fill (r : Receiver) (w : ReadWindow) (chunk : Bytes) : Receiver :=
  { r with buffer := r.buffer.commit w chunk, received := r.received ++ chunk }

def step (r : Receiver) : Event → Option Receiver
  | .receive =>
    match r.pending with
    | .idle => some (receive parse r)
    | _ => none
  | .asyncReceive =>
    match r.pending with
    | .idle => some (asyncReceive parse r)
    | _ => none
  | .read chunk =>
    match r.pending with
    | .receiving w => if chunk.length ≤ w.size then some (receive parse (fill r w chunk)) else none
    | .reading w => if chunk.length ≤ w.size then some (onRead parse (fill r w chunk)) else none
    | _ => none
  | .readError =>
    match r.pending with
    | .receiving _ | .reading _ => some { r with pending := .idle }
    | _ => none
  | .runPosted =>
    match r.pending with
    | .posted result =>
      some { r with pending := .idle, outcomes := r.outcomes ++ [.ofParse result] }
    | _ => none

def Pending.window? : Pending → Option ReadWindow
  | .receiving w | .reading w => some w
  | _ => none

def Pending.due : Pending → List Outcome
  | .posted result => [.ofParse result]
  | _ => []

/-- The bytes received so far are the messages cut out so far, each with its
NUL, and what stands in the buffer; outcomes come from the messages, in order. -/
structure Framed (bufsiz : Nat) (r : Receiver) : Prop where
  size_eq : r.buffer.readbuf.length = bufsiz
  end_le : r.buffer.readEnd ≤ bufsiz
  received_eq : r.received = Delimited.encode 0 r.messages ++ r.buffer.contents
  clean : ∀ m ∈ r.messages, 0 ∉ m
  outcomes_eq : r.outcomes ++ r.pending.due = r.messages.map fun m => .ofParse (parse m)

/-- A receive that waits has offered all the room there is and has no message left. -/
def Waiting (r : Receiver) : Prop :=
  ∀ w, r.pending.window? = some w → w = r.buffer.window ∧ 0 ∉ r.buffer.contents

variable {parse : Bytes → ParseResult} {bufsiz : Nat}

namespace Framed

theorem init (bufsiz : Nat) : Framed parse bufsiz (init bufsiz) where
  size_eq := List.length_replicate
  end_le := Nat.zero_le bufsiz
  received_eq := rfl
  clean _ hm := absurd hm List.not_mem_nil
  outcomes_eq := rfl

theorem end_le_length {r : Receiver} (h : Framed parse bufsiz r) :
    r.buffer.readEnd ≤ r.buffer.readbuf.length := h.size_eq ▸ h.end_le

theorem outcomes_of_due {r : Receiver} (h : Framed parse bufsiz r) (hdue : r.pending.due = []) :
    r.outcomes = r.messages.map fun m => .ofParse (parse m) := by
  have hold := h.outcomes_eq
  rwa [hdue, List.append_nil] at hold

theorem messages_eq_take {r : Receiver} (h : Framed parse bufsiz r) {stream : Bytes}
    (hpre : r.received <+: stream) :
    r.messages = (Delimited.frames 0 stream).take r.messages.length := by
  refine (Delimited.reads_encode h.clean).eq_frames_take (List.IsPrefix.trans ?_ hpre)
  rw [h.received_eq]
  exact List.prefix_append _ _

theorem outcomes_eq_take {r : Receiver} (h : Framed parse bufsiz r) {stream : Bytes}
    (hpre : r.received <+: stream) :
    r.outcomes = ((Delimited.frames 0 stream).map
      fun m => Outcome.ofParse (parse m)).take r.outcomes.length := by
  have hle : r.outcomes.length ≤ r.messages.length := by
    have := congrArg List.length h.outcomes_eq
    simp only [List.length_append, List.length_map] at this
    omega
  calc r.outcomes
      = (r.outcomes ++ r.pending.due).take r.outcomes.length := List.take_left.symm
    _ = (r.messages.map fun m => Outcome.ofParse (parse m)).take r.outcomes.length := by
        rw [h.outcomes_eq]
    _ = _ := by rw [h.messages_eq_take hpre, List.map_take, List.take_take, Nat.min_eq_left hle]

theorem cut {r t : Receiver} {message : Bytes} (h : Framed parse bufsiz r)
    (hdue : r.pending.due = []) (heq : r.buffer.contents = message ++ 0 :: t.buffer.contents)
    (hclean : 0 ∉ message) (hlen : t.buffer.readbuf.length = r.buffer.readbuf.length)
    (hlt : t.buffer.readEnd < r.buffer.readEnd) (hrec : t.received = r.received)
    (hmsg : t.messages = r.messages ++ [message])
    (hout : t.outcomes ++ t.pending.due = r.outcomes ++ [.ofParse (parse message)]) :
    Framed parse bufsiz t where
  size_eq := hlen.trans h.size_eq
  end_le := Nat.le_of_lt (Nat.lt_of_lt_of_le hlt h.end_le)
  received_eq := by
    rw [hrec, h.received_eq, heq, hmsg, Delimited.encode_append]
    simp
  clean m hm := by
    rw [hmsg] at hm
    rcases List.mem_append.mp hm with hm | hm
    · exact h.clean m hm
    · exact List.mem_singleton.mp hm ▸ hclean
  outcomes_eq := by
    rw [hout, hmsg, h.outcomes_of_due hdue]
    simp

theorem fill {r : Receiver} {w : ReadWindow} {chunk : Bytes} (h : Framed parse bufsiz r)
    (hw : w = r.buffer.window) (hfit : chunk.length ≤ w.size) :
    Framed parse bufsiz (fill r w chunk) := by
  subst hw
  obtain ⟨hlen, hend⟩ := commit_bounds h.end_le_length hfit
  exact
    { size_eq := hlen.trans h.size_eq
      end_le := h.size_eq ▸ hend
      received_eq := by
        simp only [ReceiveFraming.fill, commit_contents h.end_le_length, h.received_eq,
          List.append_assoc]
      clean := h.clean
      outcomes_eq := h.outcomes_eq }

theorem waits {r : Receiver} {p : Pending} (h : Framed parse bufsiz r)
    (hdue : r.pending.due = []) (hnone : 0 ∉ r.buffer.contents) (pdue : p.due = [])
    (hwin : p.window? = some r.buffer.window) :
    Framed parse bufsiz { r with pending := p } ∧ Waiting { r with pending := p } := by
  refine ⟨{ h with outcomes_eq := ?_ }, fun w hw => ?_⟩
  · rw [pdue, List.append_nil]
    exact h.outcomes_of_due hdue
  · exact ⟨Option.some_inj.mp (hw.symm.trans hwin), hnone⟩

theorem receive {r : Receiver} (h : Framed parse bufsiz r) (hdue : r.pending.due = []) :
    Framed parse bufsiz (receive parse r) ∧ Waiting (ReceiveFraming.receive parse r) := by
  rcases readNextMessage_cases parse h.end_le_length with
    ⟨hread, hnone⟩ | ⟨message, b, hread, heq, hclean, hlen, hlt⟩
  · simp only [ReceiveFraming.receive, hread]
    exact h.waits hdue hnone rfl rfl
  · simp only [ReceiveFraming.receive, hread]
    exact ⟨h.cut hdue heq hclean hlen hlt rfl rfl (by simp [Pending.due]), by rintro w ⟨⟩⟩

theorem asyncReceive {r : Receiver} (h : Framed parse bufsiz r) (hdue : r.pending.due = []) :
    Framed parse bufsiz (asyncReceive parse r) ∧
      Waiting (ReceiveFraming.asyncReceive parse r) := by
  rcases readNextMessage_cases parse h.end_le_length with
    ⟨hread, hnone⟩ | ⟨message, b, hread, heq, hclean, hlen, hlt⟩
  · simp only [ReceiveFraming.asyncReceive, hread]
    exact h.waits hdue hnone rfl rfl
  · simp only [ReceiveFraming.asyncReceive, hread]
    exact ⟨h.cut hdue heq hclean hlen hlt rfl rfl (by simp [Pending.due]), by rintro w ⟨⟩⟩

theorem onRead {r : Receiver} (h : Framed parse bufsiz r) (hdue : r.pending.due = []) :
    Framed parse bufsiz (onRead parse r) ∧ Waiting (ReceiveFraming.onRead parse r) := by
  rcases readNextMessage_cases parse h.end_le_length with
    ⟨hread, -⟩ | ⟨message, b, hread, heq, hclean, hlen, hlt⟩
  · simp only [ReceiveFraming.onRead, hread]
    exact h.asyncReceive hdue
  · simp only [ReceiveFraming.onRead, hread]
    exact ⟨h.cut hdue heq hclean hlen hlt rfl rfl (by simp [Pending.due]), by rintro w ⟨⟩⟩

end Framed

theorem receive_cut {r : Receiver} (h : Framed parse bufsiz r) :
    0 ∉ r.buffer.contents ∧ receive parse r = { r with pending := .receiving r.buffer.window } ∨
      ∃ message b, 0 ∉ message ∧ r.buffer.contents = message ++ 0 :: b.contents ∧
        receive parse r = { r with
          buffer := b
          pending := .idle
          messages := r.messages ++ [message]
          outcomes := r.outcomes ++ [.ofParse (parse message)] } := by
  rcases readNextMessage_cases parse h.end_le_length with
    ⟨hread, hnone⟩ | ⟨message, b, hread, heq, hclean, -⟩
  · exact .inl ⟨hnone, by simp only [receive, hread]⟩
  · exact .inr ⟨message, b, hclean, heq, by simp only [receive, hread]⟩

inductive Steps (parse : Bytes → ParseResult) (r : Receiver) : Event → Receiver → Prop where
  | receive (idle : r.pending = .idle) : Steps parse r .receive (receive parse r)
  | asyncReceive (idle : r.pending = .idle) : Steps parse r .asyncReceive (asyncReceive parse r)
  | readSync {w : ReadWindow} {chunk : Bytes} (waits : r.pending = .receiving w)
      (fits : chunk.length ≤ w.size) : Steps parse r (.read chunk) (receive parse (fill r w chunk))
  | readAsync {w : ReadWindow} {chunk : Bytes} (waits : r.pending = .reading w)
      (fits : chunk.length ≤ w.size) : Steps parse r (.read chunk) (onRead parse (fill r w chunk))
  | readError {w : ReadWindow} (waits : r.pending.window? = some w) :
      Steps parse r .readError { r with pending := .idle }
  | runPosted {result : ParseResult} (posted : r.pending = .posted result) :
      Steps parse r .runPosted
        { r with pending := .idle, outcomes := r.outcomes ++ [.ofParse result] }

theorem step_cases {r t : Receiver} {e : Event} (h : step parse r e = some t) :
    Steps parse r e t := by
  cases e <;> cases hp : r.pending <;>
    simp only [step, hp, Option.some.injEq, Option.ite_none_right_eq_some, reduceCtorEq] at h
  · exact h ▸ .receive hp
  · exact h ▸ .asyncReceive hp
  · exact h.2 ▸ .readSync hp h.1
  · exact h.2 ▸ .readAsync hp h.1
  · exact h ▸ .readError (by rw [hp]; rfl)
  · exact h ▸ .readError (by rw [hp]; rfl)
  · exact h ▸ .runPosted hp

theorem step_framed {r t : Receiver} {e : Event}
    (h : Framed parse bufsiz r ∧ Waiting r) (hs : step parse r e = some t) :
    Framed parse bufsiz t ∧ Waiting t := by
  obtain ⟨hf, hw⟩ := h
  cases step_cases hs with
  | receive idle => exact hf.receive (by rw [idle]; rfl)
  | asyncReceive idle => exact hf.asyncReceive (by rw [idle]; rfl)
  | readSync waits fits =>
    have hwin := (hw _ (by rw [waits]; rfl)).1
    exact (hf.fill hwin fits).receive (by simp [fill, waits, Pending.due])
  | readAsync waits fits =>
    have hwin := (hw _ (by rw [waits]; rfl)).1
    exact (hf.fill hwin fits).onRead (by simp [fill, waits, Pending.due])
  | readError waits =>
    have hdue : r.pending.due = [] := by
      cases hp : r.pending with
      | posted result => simp [hp, Pending.window?] at waits
      | _ => rfl
    refine ⟨{ hf with outcomes_eq := ?_ }, by rintro w ⟨⟩⟩
    simpa [Pending.due] using hf.outcomes_of_due hdue
  | runPosted posted =>
    refine ⟨{ hf with outcomes_eq := ?_ }, by rintro w ⟨⟩⟩
    simpa [posted, Pending.due] using hf.outcomes_eq

theorem run_framed {r : Receiver} {es : List Event}
    (h : Runs.run (step parse) (init bufsiz) es = some r) :
    Framed parse bufsiz r ∧ Waiting r :=
  Runs.run_invariant _ (fun _ _ _ hi hs => step_framed hi hs)
    ⟨Framed.init bufsiz, by rintro w ⟨⟩⟩ h

/-- In every run the index stays in the buffer, no byte is lost, duplicated or
reordered, and the outcomes are those of the frames of the stream, in order:
whichever way the stream was cut into chunks and by whichever receive it was read. -/
theorem receive_framing (parse : Bytes → ParseResult) (bufsiz : Nat) (es : List Event)
    (r : Receiver) (h : Runs.run (step parse) (init bufsiz) es = some r) :
    r.buffer.readEnd ≤ bufsiz ∧
      r.received = Delimited.encode 0 r.messages ++ r.buffer.contents ∧
      (∀ stream, r.received <+: stream →
        r.messages = (Delimited.frames 0 stream).take r.messages.length ∧
        r.outcomes = ((Delimited.frames 0 stream).map
          fun m => Outcome.ofParse (parse m)).take r.outcomes.length) ∧
      ∀ t, step parse r .readError = some t → t.buffer = r.buffer := by
  obtain ⟨hf, -⟩ := run_framed h
  refine ⟨hf.end_le, hf.received_eq, fun stream hpre => ?_, fun t ht => ?_⟩
  · exact ⟨hf.messages_eq_take hpre, hf.outcomes_eq_take hpre⟩
  · cases step_cases ht with
    | readError waits => rfl

theorem receive_framing_two_frames :
    let parse : Bytes → ParseResult := fun m =>
      if m = [52, 50] then .value (.integer 42) else .parseError
    let es : List Event := [.receive, .read [52], .read [50, 0, 91], .asyncReceive, .read [0]]
    ∃ r, Runs.run (step parse) (init 8) es = some r ∧
      r.outcomes = ((Delimited.frames 0 [52, 50, 0, 91, 0]).map
        fun m => Outcome.ofParse (parse m)).take r.outcomes.length := by
  intro parse es
  have enabled : (Runs.run (step parse) (init 8) es).any
      (·.received <+: [52, 50, 0, 91, 0]) = true := by decide +kernel
  obtain ⟨r, hr, hpre⟩ := (Option.any_eq_true _ _).mp enabled
  exact ⟨r, hr, ((receive_framing parse 8 es r hr).2.2.1 _ (by simpa using hpre)).2⟩

end Varlink.ReceiveFraming
