import Varlink.AsyncConnection
import Varlink.Library.Runs

/-! Any number of `async_receive`s on one connection at a time. Reads complete in
the order in which they were started. The event loop runs what was posted before
what is started, or posted, after it; the handler is the number of its receive. -/

namespace Varlink.OverlappingReceives

structure Receivers where
  connection : Connection Nat
  /-- The number of calls of `async_receive`. -/
  started : Nat := 0
  /-- The handlers called with a frame, and what it was parsed to. -/
  handled : List (Nat × Received) := []
  /-- The handlers called with a transport error. -/
  failed : List Nat := []
  /-- A read has put bytes where bytes before `read_end` stood. -/
  overwritten : Bool := false

inductive Event where
  | receive
  | runPosted (n : Nat)
  | read (chunk : Bytes)
  | readError

def isReading : Receive Nat → Bool
  | .reading _ _ => true
  | .posted _ _ => false

def handler : Receive Nat → Nat
  | .reading _ handler => handler
  | .posted _ handler => handler

/-- The read that completes next has its window before `read_end`. -/
def overwrites (c : Connection Nat) (chunk : Bytes) : Bool :=
  match c.receives with
  | .reading w _ :: _ => !chunk.isEmpty && w.offset < c.inbound.buffer.readEnd
  | _ => false

variable (parse : Bytes → ParseResult)

def init (bufsiz : Nat) : Receivers where
  connection := .new bufsiz

def step (s : Receivers) : Event → Option Receivers
  | .receive =>
    some { s with
      connection := (s.connection.asyncReceive parse s.started).2
      started := s.started + 1 }
  | .runPosted n =>
    if (s.connection.receives.take n).all isReading then
      (s.connection.receiveStep parse n .run).map fun (call, connection) =>
        { s with connection, handled := s.handled ++ call.toList }
    else none
  | .read chunk =>
    (s.connection.receiveStep parse 0 (.read chunk)).map fun (call, connection) =>
      { s with
        connection
        handled := s.handled ++ call.toList
        overwritten := s.overwritten || overwrites s.connection chunk }
  | .readError =>
    (s.connection.receiveStep parse 0 .error).map fun (call, connection) =>
      { s with connection, failed := s.failed ++ call.toList.map (·.1) }

/-- `json::parse` ends with something else than a value or a `parse_error`. -/
def throws : Option ParseResult → Bool
  | some (.exception _) => true
  | _ => false

/-- What the first receive under way must meet to complete with this chunk. -/
def FitsRead (c : Connection Nat) (chunk : Bytes) : List (Receive Nat) → Prop
  | .reading w _ :: others =>
    w = c.inbound.buffer.window ∧ (others.isEmpty = true ∨ chunk.count 0 ≤ 1) ∧
      throws ((c.inbound.fill w chunk).readNextMessage parse).1 = false
  | _ => True

/-- A read completes only where its window still begins at `read_end`, and with
one frame at most while another receive waits; and `json::parse` throws nothing
but a `parse_error`. -/
def Fits (s : Receivers) : Event → Prop
  | .receive => throws (s.connection.inbound.readNextMessage parse).1 = false
  | .read chunk => FitsRead parse s.connection chunk s.connection.receives
  | .runPosted _ | .readError => True

instance (c : Connection Nat) (chunk : Bytes) :
    (rs : List (Receive Nat)) → Decidable (FitsRead parse c chunk rs)
  | .reading _ _ :: others => inferInstanceAs (Decidable (_ ∧ (others.isEmpty = true ∨ _) ∧ _))
  | [] | .posted _ _ :: _ => isTrue trivial

instance (s : Receivers) : (e : Event) → Decidable (Fits parse s e)
  | .receive =>
    inferInstanceAs (Decidable (throws (s.connection.inbound.readNextMessage parse).1 = false))
  | .read chunk => inferInstanceAs (Decidable (FitsRead parse s.connection chunk _))
  | .runPosted _ | .readError => isTrue trivial

/-- What the receives that wait for the event loop will give to their handlers. -/
def due (receives : List (Receive Nat)) : List Received :=
  receives.filterMap fun
    | .posted received _ => some received
    | .reading _ _ => none

/-- Nothing is lost, nothing is taken twice; what is posted comes before what
waits for the socket, and what waits has no complete frame before it. -/
structure Delivering (s : Receivers) : Prop where
  framed : s.connection.inbound.Framed
  results : s.connection.inbound.messages.map (fun m => (parse m).received.toOption) =
    (s.handled.map (·.2) ++ due s.connection.receives).map some
  accounted : ∀ i, (s.handled.map (·.1)).count i + s.failed.count i +
    (s.connection.receives.map handler).count i = if i < s.started then 1 else 0
  sorted : s.connection.receives.Pairwise fun a b => isReading a → isReading b
  waiting : (∃ r ∈ s.connection.receives, isReading r) → 0 ∉ s.connection.inbound.buffer.contents
  intact : s.overwritten = false

variable {parse : Bytes → ParseResult}

theorem received_of_not_throws {m : Bytes} (h : throws (some (parse m)) = false) :
    ∃ received, (parse m).received = .ok received := by
  cases result : parse m with
  | value j => exact ⟨_, rfl⟩
  | parseError => exact ⟨_, rfl⟩
  | exception what => simp [throws, result] at h

theorem contents_cut {i t : Inbound} {m : Bytes} (before : i.Framed) (after : t.Framed)
    (received : t.received = i.received) (messages : t.messages = i.messages ++ [m]) :
    i.buffer.contents = m ++ 0 :: t.buffer.contents := by
  have same := after.received_eq
  rw [received, before.received_eq, messages, Delimited.encode_append, List.append_assoc] at same
  simpa using List.append_cancel_left same

@[simp] theorem due_nil : due [] = [] := rfl

@[simp] theorem due_append (rs ts : List (Receive Nat)) : due (rs ++ ts) = due rs ++ due ts :=
  List.filterMap_append

@[simp] theorem due_reading (w : ReadWindow) (h : Nat) (rs : List (Receive Nat)) :
    due (.reading w h :: rs) = due rs := rfl

@[simp] theorem due_posted (received : Received) (h : Nat) (rs : List (Receive Nat)) :
    due (.posted received h :: rs) = received :: due rs := rfl

/-- Where reads stand behind what is posted, nothing is posted behind a read. -/
theorem due_eq_nil {rs : List (Receive Nat)} (h : ∀ r ∈ rs, isReading r) : due rs = [] := by
  induction rs with
  | nil => rfl
  | cons r rs ih =>
    cases r with
    | posted received h' => exact absurd (h _ List.mem_cons_self) Bool.false_ne_true
    | reading w h' =>
      rw [due_reading]
      exact ih fun r member => h r (List.mem_cons_of_mem _ member)

/-- What an `async_receive` can do to the receives under way, and to the frames. -/
inductive Receives (parse : Bytes → ParseResult) (c : Connection Nat) (h : Nat) :
    Connection Nat → Prop where
  | waits (unfinished : 0 ∉ c.inbound.buffer.contents) :
      Receives parse c h { c with receives := c.receives ++ [.reading c.inbound.buffer.window h] }
  | posted {m : Bytes} {received : Received} {i : Inbound} (framed : i.Framed)
      (same : i.received = c.inbound.received) (messages : i.messages = c.inbound.messages ++ [m])
      (parsed : (parse m).received = .ok received) :
      Receives parse c h { c with
        inbound := i
        receives := c.receives ++ [.posted received h] }

theorem asyncReceive_receives {c : Connection Nat} (framed : c.inbound.Framed)
    (ok : throws (c.inbound.readNextMessage parse).1 = false) (h : Nat) :
    Receives parse c h (c.asyncReceive parse h).2 := by
  rcases framed.readNextMessage parse with
    ⟨read, unfinished⟩ | ⟨m, i, read, after, same, messages⟩
  · simp only [Connection.asyncReceive, read]
    exact .waits unfinished
  · rw [read] at ok
    obtain ⟨received, parsed⟩ := received_of_not_throws ok
    simp only [Connection.asyncReceive, read, parsed]
    exact .posted after same messages parsed

namespace Delivering

theorem init (bufsiz : Nat) : Delivering parse (init bufsiz) where
  framed := Inbound.framed_new bufsiz
  results := rfl
  accounted _ := by simp [OverlappingReceives.init, Connection.new]
  sorted := List.Pairwise.nil
  waiting := by simp [OverlappingReceives.init, Connection.new]
  intact := rfl

theorem receive {s t : Receivers} (h : Delivering parse s) (fits : Fits parse s .receive)
    (taken : step parse s .receive = some t) : Delivering parse t := by
  obtain rfl := Option.some.inj taken
  have made := asyncReceive_receives h.framed fits s.started
  generalize (s.connection.asyncReceive parse s.started).2 = c at made
  have accounted : ∀ {r : Receive Nat}, handler r = s.started → ∀ i,
      (s.handled.map (·.1)).count i + s.failed.count i +
        ((s.connection.receives ++ [r]).map handler).count i =
          if i < s.started + 1 then 1 else 0 := by
    intro r own i
    have before := h.accounted i
    simp only [List.map_append, List.map_cons, List.map_nil, List.count_append, own,
      List.count_singleton]
    by_cases new : s.started = i
    · subst new
      simp at before ⊢
      omega
    · have : (i < s.started + 1) ↔ i < s.started := by omega
      simp [new, this, before]
  cases made with
  | waits unfinished =>
    refine ⟨h.framed, ?_, accounted rfl, ?_, fun _ => unfinished, h.intact⟩
    · simpa [due] using h.results
    · refine List.pairwise_append.mpr ⟨h.sorted, List.pairwise_singleton _ _, ?_⟩
      intro a _ b member _
      rw [List.mem_singleton.mp member]
      rfl
  | posted framed same messages parsed =>
    have nobody : ∀ r ∈ s.connection.receives, ¬ isReading r := by
      intro r member reading
      refine h.waiting ⟨r, member, reading⟩ ?_
      rw [contents_cut h.framed framed same messages]
      simp
    refine ⟨framed, ?_, accounted rfl, ?_, ?_, h.intact⟩
    · rw [messages, List.map_append, h.results]
      simp [parsed, Except.toOption]
    · refine List.pairwise_append.mpr ⟨h.sorted, List.pairwise_singleton _ _, ?_⟩
      intro a member b _ reading
      exact absurd reading (nobody a member)
    · rintro ⟨r, member, reading⟩
      rcases List.mem_append.mp member with old | new
      · exact absurd reading (nobody r old)
      · rw [List.mem_singleton.mp new] at reading
        cases reading

theorem runPosted {s t : Receivers} {n : Nat} (h : Delivering parse s)
    (taken : step parse s (.runPosted n) = some t) : Delivering parse t := by
  simp only [step, Option.ite_none_right_eq_some, Option.map_eq_some_iff] at taken
  obtain ⟨first, ⟨call, c⟩, ran, rfl⟩ := taken
  cases found : s.connection.receives with
  | nil => simp [Connection.receiveStep, found] at ran
  | cons r others =>
    have sorted := List.pairwise_cons.mp (found ▸ h.sorted)
    cases n with
    | succ n =>
      -- an earlier read would have everything behind it be a read
      have reading : isReading r := by simpa [found] using (List.all_eq_true.mp first) r
      simp only [Connection.receiveStep, found, List.getElem?_cons_succ] at ran
      cases later : others[n]? with
      | none => simp [later] at ran
      | some o =>
        have also_ := sorted.1 o (List.mem_of_getElem? later) reading
        cases o with
        | posted received h' => cases also_
        | reading w h' => simp [later] at ran
    | zero =>
      cases r with
      | reading w h' => simp [Connection.receiveStep, found] at ran
      | posted received h' =>
        simp only [Connection.receiveStep, found, List.getElem?_cons_zero, Option.some.injEq,
          Prod.mk.injEq, List.eraseIdx_cons_zero] at ran
        obtain ⟨rfl, rfl⟩ := ran
        refine ⟨h.framed, ?_, fun i => ?_, sorted.2, fun waits => ?_, h.intact⟩
        · rw [h.results, found]
          simp
        · have before := h.accounted i
          simp only [found, List.map_cons, List.count_cons, handler] at before
          simp only [Option.toList_some, List.map_append, List.map_cons, List.map_nil,
            List.count_append, List.count_singleton]
          omega
        · obtain ⟨o, member, reading⟩ := waits
          exact h.waiting ⟨o, found ▸ List.mem_cons_of_mem _ member, reading⟩

theorem readError {s t : Receivers} (h : Delivering parse s)
    (taken : step parse s .readError = some t) : Delivering parse t := by
  obtain ⟨⟨call, c⟩, failed, rfl⟩ := Option.map_eq_some_iff.mp taken
  cases found : s.connection.receives with
  | nil => simp [Connection.receiveStep, found] at failed
  | cons r others =>
    have sorted := List.pairwise_cons.mp (found ▸ h.sorted)
    cases r with
    | posted received h' => simp [Connection.receiveStep, found] at failed
    | reading w h' =>
      simp only [Connection.receiveStep, found, List.getElem?_cons_zero, Option.some.injEq,
        Prod.mk.injEq, List.eraseIdx_cons_zero] at failed
      obtain ⟨rfl, rfl⟩ := failed
      refine ⟨h.framed, ?_, fun i => ?_, sorted.2, fun waits => ?_, h.intact⟩
      · simpa [found] using h.results
      · have before := h.accounted i
        simp only [found, List.map_cons, List.count_cons, handler] at before
        simp only [Option.toList_some, List.map_cons, List.map_nil, List.count_append,
          List.count_singleton]
        omega
      · obtain ⟨o, member, reading⟩ := waits
        exact h.waiting ⟨o, found ▸ List.mem_cons_of_mem _ member, reading⟩

theorem read {s t : Receivers} {chunk : Bytes} (h : Delivering parse s)
    (fits : Fits parse s (.read chunk)) (taken : step parse s (.read chunk) = some t) :
    Delivering parse t := by
  obtain ⟨⟨call, c⟩, completed, rfl⟩ := Option.map_eq_some_iff.mp taken
  cases found : s.connection.receives with
  | nil => simp [Connection.receiveStep, found] at completed
  | cons r others =>
    have sorted := List.pairwise_cons.mp (found ▸ h.sorted)
    cases r with
    | posted received h' => simp [Connection.receiveStep, found] at completed
    | reading w h' =>
      simp only [Connection.receiveStep, found, List.getElem?_cons_zero, Option.some.injEq,
        List.eraseIdx_cons_zero, Option.ite_none_right_eq_some] at completed
      obtain ⟨room, completed⟩ := completed
      simp only [Fits, found, FitsRead, List.isEmpty_iff] at fits
      obtain ⟨rfl, one, ok⟩ := fits
      have reads : ∀ r ∈ others, isReading r := fun r member => sorted.1 r member rfl
      have before := h.waiting ⟨_, found ▸ List.mem_cons_self, rfl⟩
      have filled := h.framed.fill rfl room
      have intact : (s.overwritten || overwrites s.connection chunk) = false := by
        simp [h.intact, overwrites, found, ReceiveBuffer.window]
      rcases filled.readNextMessage parse with
        ⟨read, unfinished⟩ | ⟨m, i, read, framed, same, messages⟩
      · simp only [Connection.onRead, Connection.asyncReceive, read] at completed
        cases completed
        refine ⟨filled, ?_, fun i => ?_, ?_, fun _ => unfinished, intact⟩
        · simpa [found, Inbound.fill] using h.results
        · have before := h.accounted i
          simp only [found, List.map_cons, List.count_cons, handler] at before
          simp only [Option.toList_none, List.append_nil, List.map_append, List.map_cons,
            List.map_nil, List.count_append, List.count_singleton, handler]
          omega
        · refine List.pairwise_append.mpr ⟨sorted.2, List.pairwise_singleton _ _, ?_⟩
          intro a _ b member _
          rw [List.mem_singleton.mp member]
          rfl
      · rw [read] at ok
        obtain ⟨received, parsed⟩ := received_of_not_throws ok
        simp only [Connection.onRead, read, parsed] at completed
        cases completed
        refine ⟨framed, ?_, fun i => ?_, sorted.2, fun waits => ?_, intact⟩
        · have results := h.results
          rw [found, due_reading, due_eq_nil reads, List.append_nil] at results
          rw [messages, List.map_append, due_eq_nil reads]
          simp only [Inbound.fill, results]
          simp [parsed, Except.toOption]
        · have before := h.accounted i
          simp only [found, List.map_cons, List.count_cons, handler] at before
          simp only [Option.map_some, Except.toOption, Option.toList_some, List.map_append,
            List.map_cons, List.map_nil, List.count_append, List.count_singleton]
          omega
        · -- the chunk's one NUL is the one that was cut off
          obtain ⟨o, member, _⟩ := waits
          have few : chunk.count 0 ≤ 1 := by
            rcases one with none_ | few
            · exact absurd member (none_ ▸ List.not_mem_nil)
            · exact few
          have cut := contents_cut filled framed same messages
          rw [Inbound.fill, ReceiveBuffer.commit_contents h.framed.end_le] at cut
          have counted := congrArg (List.count 0) cut
          simp only [List.count_append, List.count_cons_self,
            List.count_eq_zero.mpr before] at counted
          exact List.count_eq_zero.mp (show i.buffer.contents.count 0 = 0 by omega)

end Delivering

theorem run_delivering {bufsiz : Nat} {s : Receivers} {es : List Event}
    (along : Runs.Along (step parse) (Fits parse) (init bufsiz) es)
    (run : Runs.run (step parse) (init bufsiz) es = some s) : Delivering parse s := by
  refine Runs.run_along_invariant _ (fun s e t h fits taken => ?_) (Delivering.init bufsiz)
    along run
  cases e with
  | receive => exact h.receive fits taken
  | runPosted n => exact h.runPosted taken
  | read chunk => exact h.read fits taken
  | readError => exact h.readError taken

theorem Delivering.handled_eq {s : Receivers} (d : Delivering parse s) {k h : Nat}
    {received : Received} (call : s.handled[k]? = some (h, received)) :
    ∃ m, (Delimited.frames 0 s.connection.inbound.received)[k]? = some m ∧
      (parse m).received = .ok received := by
  have parsed : (s.connection.inbound.messages.map fun m => (parse m).received.toOption)[k]? =
      some (some received) := by
    rw [d.results, List.map_append, List.map_map,
      List.getElem?_append_left (by simpa using (List.getElem?_eq_some_iff.mp call).1),
      List.getElem?_map, call]
    rfl
  rw [List.getElem?_map] at parsed
  obtain ⟨m, taken, parsed⟩ := Option.map_eq_some_iff.mp parsed
  have first : s.connection.inbound.messages <+:
      Delimited.frames 0 s.connection.inbound.received := by
    rw [(Delimited.reads_encode d.framed.clean).eq_frames_take
      (t := s.connection.inbound.received) (d.framed.received_eq ▸ List.prefix_append _ _)]
    exact List.take_prefix _ _
  obtain ⟨later, frames⟩ := first
  refine ⟨m, ?_, ?_⟩
  · rw [← frames, List.getElem?_append_left (List.getElem?_eq_some_iff.mp taken).1, taken]
  · cases result : (parse m).received with
    | error e => simp [result, Except.toOption] at parsed
    | ok received' =>
      rw [result] at parsed
      exact congrArg Except.ok (Option.some.inj parsed)

/-- Where each read still fits when it completes, the handlers get the frames of
the stream in order, each receive ends in one of three ways, no byte is
overwritten or lost, and none waits for the socket with a frame in the buffer. -/
theorem frames_delivered (parse : Bytes → ParseResult) (bufsiz : Nat) (es : List Event)
    (s : Receivers) (along : Runs.Along (step parse) (Fits parse) (init bufsiz) es)
    (run : Runs.run (step parse) (init bufsiz) es = some s) :
    (∀ (k h : Nat) (received : Received), s.handled[k]? = some (h, received) →
      ∃ m, (Delimited.frames 0 s.connection.inbound.received)[k]? = some m ∧
        (parse m).received = .ok received) ∧
    (∀ h < s.started, (s.handled.map (·.1)).count h + s.failed.count h +
      (s.connection.receives.map handler).count h = 1) ∧
    s.overwritten = false ∧
    s.connection.inbound.received =
      Delimited.encode 0 s.connection.inbound.messages ++ s.connection.inbound.buffer.contents ∧
    (∀ w h, .reading w h ∈ s.connection.receives → 0 ∉ s.connection.inbound.buffer.contents) := by
  have d := run_delivering along run
  refine ⟨fun k h received call => d.handled_eq call, fun h started => ?_, d.intact,
    d.framed.received_eq, fun w h member => d.waiting ⟨_, member, rfl⟩⟩
  rw [d.accounted h, if_pos started]

def parseDigits : Bytes → ParseResult
  | [49] => .value (.integer 1)
  | [50] => .value (.integer 2)
  | [49, 50] => .value (.integer 12)
  | _ => .parseError

/-- Two receives are started at once, and get a frame each; what the second read
brings besides goes to a third one. -/
theorem frames_delivered_three :
    let es : List Event := [.receive, .receive, .read [49, 0], .read [50, 0, 49, 50, 0], .receive,
      .runPosted 0]
    ∃ s, Runs.run (step parseDigits) (init 8) es = some s ∧ s.started = 3 ∧
      s.overwritten = false ∧
      ∃ m, (Delimited.frames 0 s.connection.inbound.received)[2]? = some m ∧
        (parseDigits m).received = .ok (.message (.integer 12)) := by
  intro es
  have calls : (Runs.run (step parseDigits) (init 8) es).map (fun s =>
      (s.started, s.handled[2]?)) = some (3, some (2, .message (.integer 12))) := rfl
  obtain ⟨s, run, ends⟩ := Option.map_eq_some_iff.mp calls
  obtain ⟨started, third⟩ := Prod.mk.inj ends
  have along : Runs.Along (step parseDigits) (Fits parseDigits) (init 8) es := by decide +kernel
  have delivered := frames_delivered parseDigits 8 es s along run
  exact ⟨s, run, started, delivered.2.2.1, delivered.1 2 2 _ third⟩

/-- A frame that comes in two chunks: its first byte is overwritten by the read
of the second receive. And two frames in one chunk: the second receive waits on. -/
theorem overlapping_receives_lose :
    (∃ s, Runs.run (step parseDigits) (init 8) [.receive, .receive, .read [49], .read [50, 0]] =
        some s ∧ s.overwritten = true ∧
      Delimited.frames 0 s.connection.inbound.received = [[49, 50]] ∧
      (parseDigits [49, 50]).received = .ok (.message (.integer 12)) ∧
      s.handled[0]? = some (1, .message (.integer 2))) ∧
    ∃ s, Runs.run (step parseDigits) (init 8) [.receive, .receive, .read [49, 0, 50, 0]] =
        some s ∧ s.connection.receives = [.reading ⟨0, 8⟩ 1] ∧
      s.connection.inbound.buffer.contents = [50, 0] := by
  constructor
  · have ends : (Runs.run (step parseDigits) (init 8)
        [.receive, .receive, .read [49], .read [50, 0]]).map (fun s =>
          (s.overwritten, s.connection.inbound.received, s.handled[0]?)) =
        some (true, [49, 50, 0], some (1, .message (.integer 2))) := rfl
    obtain ⟨s, run, ends⟩ := Option.map_eq_some_iff.mp ends
    simp only [Prod.mk.injEq] at ends
    obtain ⟨overwritten, received, first⟩ := ends
    exact ⟨s, run, overwritten, by rw [received]; decide, rfl, first⟩
  · have ends : (Runs.run (step parseDigits) (init 8)
        [.receive, .receive, .read [49, 0, 50, 0]]).map (fun s =>
          (s.connection.receives, s.connection.inbound.buffer.contents)) =
        some ([.reading ⟨0, 8⟩ 1], [50, 0]) := rfl
    obtain ⟨s, run, ends⟩ := Option.map_eq_some_iff.mp ends
    exact ⟨s, run, Prod.mk.inj ends⟩

end Varlink.OverlappingReceives
