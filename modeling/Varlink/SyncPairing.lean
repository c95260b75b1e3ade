import Varlink.SyncClient

/-! Whose replies a synchronous client reads. The frames on their way answer the
requests in order, so the next one belongs to the first request whose functor is
not drained; which functor reads it is up to the caller. -/

namespace Varlink.SyncClient

open ReceiveFraming (Receiver Framed Waiting)
open CallMore (onReply onFrame)

variable {parse : Bytes → ParseResult} {dump : Dump} {bufsiz : Nat}

/-- The requests that a functor still expects replies to, from the `n`-th on. -/
def undrained : Nat → List Callmode → List (Nat × Callmode)
  | _, [] => []
  | n, mode :: rest =>
    if mode = .oneway then undrained (n + 1) rest else (n, mode) :: undrained (n + 1) rest

theorem undrained_append (n : Nat) (modes : List Callmode) (mode : Callmode) :
    undrained n (modes ++ [mode]) =
      undrained n modes ++ if mode = .oneway then [] else [(n + modes.length, mode)] := by
  induction modes generalizing n with
  | nil => simp [undrained]
  | cons first rest ih =>
    have shift : n + 1 + rest.length = n + (rest.length + 1) := by omega
    by_cases drained : first = .oneway
    · simp [undrained, drained, ih, shift]
    · simp [undrained, drained, ih, shift]

theorem undrained_set {modes : List Callmode} {i : Nat} {mode : Callmode}
    (at_ : modes[i]? = some mode) (open_ : mode ≠ .oneway)
    (before : ∀ m ∈ modes.take i, m = .oneway) (n : Nat) :
    ∃ rest, undrained n modes = (n + i, mode) :: rest ∧
      ∀ next, undrained n (modes.set i next) =
        if next = .oneway then rest else (n + i, next) :: rest := by
  induction modes generalizing i n with
  | nil => simp at at_
  | cons first later ih =>
    cases i with
    | zero =>
      obtain rfl := Option.some.inj at_
      exact ⟨undrained (n + 1) later, by simp [undrained, open_],
        fun next => by simp [undrained]⟩
    | succ i =>
      have drained : first = .oneway := before first (by simp)
      obtain ⟨rest, same, set⟩ := ih (by simpa using at_)
        (fun m member => before m (by simp [member])) (n + 1)
      have shift : n + 1 + i = n + (i + 1) := by omega
      rw [shift] at same set
      exact ⟨rest, by simpa [undrained, drained] using same,
        fun next => by simpa [undrained, drained] using set next⟩

theorem undrained_head {modes : List Callmode} {i : Nat} {mode : Callmode}
    (member : mode ∈ modes.take i) (open_ : mode ≠ .oneway) (n : Nat) :
    ∃ k first rest, undrained n modes = (k, first) :: rest ∧ k < n + i := by
  induction modes generalizing i n with
  | nil => simp at member
  | cons head later ih =>
    cases i with
    | zero => simp at member
    | succ i =>
      by_cases drained : head = .oneway
      · rcases List.mem_cons.mp member with rfl | deeper
        · exact absurd drained open_
        · obtain ⟨k, first, rest, same, before⟩ := ih deeper (n + 1)
          exact ⟨k, first, rest, by simpa [undrained, drained] using same, by omega⟩
      · exact ⟨n, head, undrained (n + 1) later, by simp [undrained, drained], by omega⟩

theorem answer_append {queue rest : List (Nat × Callmode)} {a : Nat × Bytes}
    (h : answer parse queue a = some rest) (new : List (Nat × Callmode)) :
    answer parse (queue ++ new) a = some (rest ++ new) := by
  cases queue with
  | nil => cases h
  | cons head later =>
    simp only [answer, List.cons_append] at h ⊢
    split at h
    · next same =>
      obtain ⟨more, follow, rfl⟩ := Option.map_eq_some_iff.mp h
      rw [if_pos same, follow]
      cases more <;> rfl
    · cases h

theorem run_answer_append {queue rest : List (Nat × Callmode)} {answers : List (Nat × Bytes)}
    (h : Runs.run (answer parse) queue answers = some rest) (new : List (Nat × Callmode)) :
    Runs.run (answer parse) (queue ++ new) answers = some (rest ++ new) := by
  induction answers generalizing queue with
  | nil =>
    obtain rfl := Option.some.inj h
    rfl
  | cons a answers ih =>
    rw [Runs.run_cons] at h ⊢
    obtain ⟨m, first, later⟩ := Option.bind_eq_some_iff.mp h
    rw [answer_append first new]
    exact ih later

theorem onFrame_mode {mode : Callmode} {frame : Bytes} {more : Bool}
    (h : follows parse mode frame = some more) :
    (onFrame parse mode frame).1 = if more then mode else .oneway := by
  unfold follows at h
  unfold onFrame
  cases parsed : parse frame with
  | parseError => simp [parsed] at h
  | exception what => simp [parsed] at h
  | value reply =>
    simp only [parsed] at h ⊢
    unfold onReply
    by_cases error : reply.contains "error" = true
    · rw [if_pos (.inr error), Option.some.injEq] at h
      subst h
      rw [if_pos error]
      split <;> rfl
    · rw [if_neg error]
      by_cases stream : mode = .more
      · subst stream
        rw [if_neg (by simp [error])] at h
        cases flag : replyContinues reply with
        | error e => simp [flag, Except.toOption] at h
        | ok continues =>
          simp only [flag, Except.toOption, Option.some.injEq] at h
          subst h
          simp only [bne_self_eq_false, Bool.false_eq_true, if_false]
          split <;> rfl
      · rw [if_pos (.inl stream), Option.some.injEq] at h
        subst h
        simp only [bne_iff_ne, ne_eq, stream, not_false_eq_true, if_true, Bool.false_eq_true,
          if_false]
        split <;> rfl

theorem receive_cases {r : Receiver} (h : Framed parse bufsiz r) :
    0 ∉ r.buffer.contents ∧ (ReceiveFraming.receive parse r).messages = r.messages ∧
        (∃ w, (ReceiveFraming.receive parse r).pending = .receiving w) ∨
      0 ∈ r.buffer.contents ∧
        (∃ frame, (ReceiveFraming.receive parse r).messages = r.messages ++ [frame]) ∧
        (ReceiveFraming.receive parse r).pending = .idle := by
  rcases ReceiveFraming.receive_cut h with ⟨none_, waits⟩ | ⟨frame, b, -, found, cut⟩
  · exact .inl ⟨none_, by rw [waits], r.buffer.window, by rw [waits]⟩
  · exact .inr ⟨by simp [found], ⟨frame, by rw [cut]⟩, by rw [cut]⟩

/-- The frames that have not been read answer the requests of the functors that are
not drained, and whatever was read has gone to its own request. -/
structure Served (parse : Bytes → ParseResult) (bufsiz : Nat) (s : System) : Prop where
  framed : Framed parse bufsiz s.receiver
  waiting : Waiting s.receiver
  idle : s.reading = none → s.receiver.pending = .idle
  reads : ∀ n, s.reading = some n → (∃ w, s.receiver.pending = .receiving w) ∧
    ∃ mode, s.functors[n]? = some mode ∧ mode ≠ .oneway
  travels : s.receiver.received ++ s.inFlight = Delimited.encode 0 (s.answers.map (·.2))
  clean : ∀ a ∈ s.answers, 0 ∉ a.2
  served : Runs.run (answer parse) (undrained 0 s.functors)
    (s.answers.drop s.receiver.messages.length) = some s.unanswered
  own : ∀ r ∈ s.results, Own parse s r

theorem answered_extend {s t : System} (more : s.answers <+: t.answers) {i : Nat}
    {a : Nat × Bytes} (h : s.answers[i]? = some a) : t.answers[i]? = some a := by
  obtain ⟨later, same⟩ := more
  rw [← same, List.getElem?_append_left (List.getElem?_eq_some_iff.mp h).1, h]

theorem Own.extend {s t : System} {result : Result} (h : Own parse s result)
    (more : s.answers <+: t.answers) : Own parse t result := by
  intro i same
  obtain ⟨frame, mode, answered, outcome⟩ := h i same
  exact ⟨frame, mode, answered_extend more answered, outcome⟩

theorem Foreign.extend {s t : System} {result : Result} (h : Foreign s result)
    (more : s.answers <+: t.answers) : Foreign t result := by
  obtain ⟨i, owner, frame, same, answered, other⟩ := h
  exact ⟨i, owner, frame, same, answered_extend more answered, other⟩

theorem Foreign.not_own {s : System} {result : Result} (h : Foreign s result) :
    ¬ Own parse s result := by
  intro own
  obtain ⟨i, owner, frame, same, answered, other⟩ := h
  obtain ⟨_, _, found, -⟩ := own i same
  cases answered.symm.trans found
  exact other rfl

theorem messages_eq_take {s : System} {r : Receiver} (framed : Framed parse bufsiz r)
    (travels : r.received ++ s.inFlight = Delimited.encode 0 (s.answers.map (·.2)))
    (clean : ∀ a ∈ s.answers, 0 ∉ a.2) :
    r.messages = (s.answers.map (·.2)).take r.messages.length := by
  have frames : Delimited.frames 0 (Delimited.encode 0 (s.answers.map (·.2))) =
      s.answers.map (·.2) := by
    refine Delimited.frames_encode fun f member => ?_
    obtain ⟨a, sent, rfl⟩ := List.mem_map.mp member
    exact clean a sent
  have taken := framed.messages_eq_take (travels ▸ List.prefix_append _ _)
  rwa [frames] at taken

theorem next_answer {s : System} {r : Receiver} {frame : Bytes} (framed : Framed parse bufsiz r)
    (travels : r.received ++ s.inFlight = Delimited.encode 0 (s.answers.map (·.2)))
    (clean : ∀ a ∈ s.answers, 0 ∉ a.2) (cut : r.messages = s.receiver.messages ++ [frame]) :
    ∃ owner, s.answers[s.receiver.messages.length]? = some (owner, frame) := by
  have taken := messages_eq_take framed travels clean
  rw [cut] at taken
  have last := congrArg (·[s.receiver.messages.length]?) taken
  simp only [List.getElem?_concat_length, List.length_append, List.length_singleton,
    List.getElem?_take_of_succ, List.getElem?_map] at last
  obtain ⟨⟨owner, f⟩, found, same⟩ := Option.map_eq_some_iff.mp last.symm
  cases same
  exact ⟨owner, found⟩

theorem Served.owner {s : System} (h : Served parse bufsiz s) {owner : Nat} {frame : Bytes}
    (next : s.answers[s.receiver.messages.length]? = some (owner, frame)) :
    ∃ mode rest more, undrained 0 s.functors = (owner, mode) :: rest ∧
      follows parse mode frame = some more ∧
      Runs.run (answer parse) (if more then (owner, mode) :: rest else rest)
        (s.answers.drop (s.receiver.messages.length + 1)) = some s.unanswered := by
  have served := h.served
  obtain ⟨within, entry⟩ := List.getElem?_eq_some_iff.mp next
  rw [List.drop_eq_getElem_cons within, entry, Runs.run_cons] at served
  obtain ⟨queue, first, later⟩ := Option.bind_eq_some_iff.mp served
  cases waits : undrained 0 s.functors with
  | nil => simp [waits, answer] at first
  | cons head rest =>
    obtain ⟨k, mode⟩ := head
    simp only [waits, answer, Option.ite_none_right_eq_some, Option.map_eq_some_iff] at first
    obtain ⟨rfl, more, follow, rfl⟩ := first
    exact ⟨mode, rest, more, rfl, follow, later⟩

/-- What a functor may be resumed with: no whole frame yet, or the next frame. -/
inductive Cut (s : System) (r : Receiver) : Prop where
  | waits (same : r.messages = s.receiver.messages) {w : ReadWindow}
      (pending : r.pending = .receiving w)
  | frame (frame : Bytes) (cut : r.messages = s.receiver.messages ++ [frame])
      (idle : r.pending = .idle)

theorem resume_inFlight (n : Nat) (mode : Callmode) (r : Receiver) (s : System) :
    { resume parse n mode r s with inFlight := s.inFlight } = resume parse n mode r s := by
  unfold resume
  split <;> rfl

theorem Served.resume {s : System} (h : Served parse bufsiz s) {n : Nat} {mode : Callmode}
    (at_ : s.functors[n]? = some mode) (open_ : mode ≠ .oneway) {r : Receiver} {inFlight : Bytes}
    (framed : Framed parse bufsiz r) (waiting : Waiting r)
    (travels : r.received ++ inFlight = Delimited.encode 0 (s.answers.map (·.2)))
    (cut : Cut s r)
    (turn : r.messages ≠ s.receiver.messages → ∀ m ∈ s.functors.take n, m = .oneway) :
    Served parse bufsiz { resume parse n mode r s with inFlight } := by
  cases cut with
  | waits same pending =>
    simp only [SyncClient.resume, same, List.drop_length]
    exact { h with
      framed, waiting, travels
      idle := nofun
      reads := fun k reading => Option.some.inj reading ▸ ⟨⟨_, pending⟩, mode, at_, open_⟩
      served := by simpa only [same] using h.served }
  | frame frame cut idle =>
    have drained := turn (by simp [cut])
    obtain ⟨owner, next⟩ := next_answer (s := { s with inFlight }) framed travels h.clean cut
    obtain ⟨first, rest, more, waits, follow, served⟩ := h.owner next
    obtain ⟨others, mine, set⟩ := undrained_set at_ open_ drained 0
    rw [waits, Nat.zero_add] at mine
    cases mine
    simp only [SyncClient.resume, cut, List.drop_left]
    refine { h with
      framed, waiting, travels, idle := fun _ => idle, reads := nofun, served := ?_, own := ?_ }
    · rw [set, onFrame_mode follow, cut, List.length_append, List.length_singleton]
      cases more with
      | true => simpa [open_] using served
      | false => simpa using served
    · intro result member
      rcases List.mem_append.mp member with old | new
      · exact h.own result old
      · obtain rfl := List.mem_singleton.mp new
        intro i same
        cases same
        exact ⟨frame, mode, next, rfl⟩

theorem Served.resume_foreign {s : System} (h : Served parse bufsiz s) {n : Nat} {mode : Callmode}
    {r : Receiver} {inFlight : Bytes} {frame : Bytes} (framed : Framed parse bufsiz r)
    (travels : r.received ++ inFlight = Delimited.encode 0 (s.answers.map (·.2)))
    (cut : r.messages = s.receiver.messages ++ [frame]) {m : Callmode}
    (earlier : m ∈ s.functors.take n) (open_ : m ≠ .oneway) :
    ∃ result ∈ { SyncClient.resume parse n mode r s with inFlight }.results,
      Foreign { SyncClient.resume parse n mode r s with inFlight } result := by
  obtain ⟨owner, next⟩ := next_answer (s := { s with inFlight }) framed travels h.clean cut
  obtain ⟨first, rest, more, waits, -⟩ := h.owner next
  obtain ⟨k, head, tail, found, before⟩ := undrained_head earlier open_ 0
  rw [waits] at found
  cases found
  simp only [SyncClient.resume, cut, List.drop_left]
  exact ⟨_, List.mem_append_right _ (List.mem_singleton_self _), _, owner, frame, rfl, next,
    by dsimp only; omega⟩

theorem Served.init (bufsiz : Nat) : Served parse bufsiz (init bufsiz) where
  framed := Framed.init bufsiz
  waiting := nofun
  idle _ := rfl
  reads := nofun
  travels := rfl
  clean := nofun
  served := rfl
  own := nofun

theorem Served.send {s : System} (h : Served parse bufsiz s) (mode : Callmode) :
    Served parse bufsiz (send mode s) := by
  refine { h with reads := fun n reading => ?_, served := ?_ }
  · obtain ⟨pending, m, at_, open_⟩ := h.reads n reading
    refine ⟨pending, m, ?_, open_⟩
    rw [SyncClient.send, List.getElem?_append_left (List.getElem?_eq_some_iff.mp at_).1, at_]
  · simp only [SyncClient.send, undrained_append, Nat.zero_add]
    exact run_answer_append h.served _

theorem Served.receive {s : System} (h : Served parse bufsiz s) (idle : s.reading = none) :
    Framed parse bufsiz (ReceiveFraming.receive parse s.receiver) ∧
      Waiting (ReceiveFraming.receive parse s.receiver) ∧
      (ReceiveFraming.receive parse s.receiver).received = s.receiver.received ∧
      (0 ∉ s.receiver.buffer.contents ∧
          (ReceiveFraming.receive parse s.receiver).messages = s.receiver.messages ∧
          (∃ w, (ReceiveFraming.receive parse s.receiver).pending = .receiving w) ∨
        0 ∈ s.receiver.buffer.contents ∧
          (∃ frame, (ReceiveFraming.receive parse s.receiver).messages =
            s.receiver.messages ++ [frame]) ∧
          (ReceiveFraming.receive parse s.receiver).pending = .idle) := by
  obtain ⟨framed, waiting⟩ := h.framed.receive (by rw [h.idle idle]; rfl)
  refine ⟨framed, waiting, ?_, receive_cases h.framed⟩
  unfold ReceiveFraming.receive
  split <;> rfl

theorem Served.resume_received {s : System} (h : Served parse bufsiz s) {n : Nat} {mode : Callmode}
    (at_ : s.functors[n]? = some mode) (open_ : mode ≠ .oneway) {r : Receiver}
    {inFlight bytes : Bytes} (framed : Framed parse bufsiz r) (waiting : Waiting r)
    (travels : r.received ++ inFlight = Delimited.encode 0 (s.answers.map (·.2)))
    (received : 0 ∉ bytes ∧ r.messages = s.receiver.messages ∧ (∃ w, r.pending = .receiving w) ∨
      0 ∈ bytes ∧ (∃ frame, r.messages = s.receiver.messages ++ [frame]) ∧ r.pending = .idle)
    (turn : 0 ∈ bytes → ∀ m ∈ s.functors.take n, m = .oneway) :
    Served parse bufsiz { SyncClient.resume parse n mode r s with inFlight } := by
  refine h.resume at_ open_ framed waiting travels ?_ ?_
  · rcases received with ⟨-, same, w, pending⟩ | ⟨-, ⟨frame, cut⟩, settled⟩
    · exact .waits same pending
    · exact .frame frame cut settled
  · intro more
    rcases received with ⟨-, same, -⟩ | ⟨whole, -⟩
    · exact absurd same more
    · exact turn whole

theorem Served.invoke {s : System} (h : Served parse bufsiz s) (idle : s.reading = none)
    {n : Nat} {mode : Callmode} (at_ : s.functors[n]? = some mode)
    (turn : mode ≠ .oneway → 0 ∈ s.receiver.buffer.contents →
      ∀ m ∈ s.functors.take n, m = .oneway) : Served parse bufsiz (invoke parse n mode s) := by
  unfold SyncClient.invoke
  split
  · refine { h with own := fun result member => ?_ }
    rcases List.mem_append.mp member with old | new
    · exact h.own result old
    · obtain rfl := List.mem_singleton.mp new
      nofun
  · next open_ =>
    obtain ⟨framed, waiting, received, cases_⟩ := h.receive idle
    rw [← resume_inFlight]
    exact h.resume_received at_ open_ framed waiting (received ▸ h.travels) cases_ (turn open_)

theorem Served.invoke_foreign {s : System} (h : Served parse bufsiz s) (idle : s.reading = none)
    {n : Nat} {mode m : Callmode} (open_ : mode ≠ .oneway)
    (whole : 0 ∈ s.receiver.buffer.contents) (earlier : m ∈ s.functors.take n)
    (expects : m ≠ .oneway) :
    ∃ result ∈ (SyncClient.invoke parse n mode s).results,
      Foreign (SyncClient.invoke parse n mode s) result := by
  obtain ⟨framed, -, received, ⟨none_, -⟩ | ⟨-, ⟨frame, cut⟩, -⟩⟩ := h.receive idle
  · exact absurd whole none_
  · rw [SyncClient.invoke, if_neg open_, ← resume_inFlight]
    exact h.resume_foreign framed (received ▸ h.travels) cut earlier expects

theorem Served.read {s : System} (h : Served parse bufsiz s) {n : Nat}
    (reading : s.reading = some n) {chunk later : Bytes} {r : Receiver}
    (arrives : s.inFlight = chunk ++ later)
    (taken : ReceiveFraming.step parse s.receiver (.read chunk) = some r) :
    Framed parse bufsiz r ∧ Waiting r ∧
      r.received ++ later = Delimited.encode 0 (s.answers.map (·.2)) ∧
      (0 ∉ s.receiver.buffer.contents ++ chunk ∧ r.messages = s.receiver.messages ∧
          (∃ w, r.pending = .receiving w) ∨
        0 ∈ s.receiver.buffer.contents ++ chunk ∧
          (∃ frame, r.messages = s.receiver.messages ++ [frame]) ∧ r.pending = .idle) := by
  obtain ⟨⟨w, pending⟩, -⟩ := h.reads n reading
  obtain ⟨framed, waiting⟩ := ReceiveFraming.step_framed ⟨h.framed, h.waiting⟩ taken
  cases ReceiveFraming.step_cases taken with
  | readAsync waits fits => simp [pending] at waits
  | readSync waits fits =>
    obtain ⟨rfl, -⟩ := h.waiting _ (by rw [waits]; rfl)
    have filled := h.framed.fill rfl fits
    refine ⟨framed, waiting, ?_, ?_⟩
    · rw [← h.travels, arrives, ← List.append_assoc]
      unfold ReceiveFraming.receive
      split <;> rfl
    · have cases_ := receive_cases filled
      rwa [ReceiveFraming.fill, ReceiveBuffer.commit_contents h.framed.end_le_length] at cases_

theorem step_served {s t : System} {e : Event} (h : Served parse bufsiz s) (turn : Turn dump s e)
    (hs : step parse dump s e = some t) : Served parse bufsiz t := by
  cases step_cases hs with
  | refused idle thrown => exact h
  | sent idle dumped => exact h.send .more
  | @called mode message text idle dumped single =>
    refine (h.send mode).invoke idle (by simp [send]) fun open_ whole => ?_
    have reader_ : reader dump s (.call mode message) = some s.functors.length := by
      cases mode <;> simp_all [reader, Except.toOption]
    simpa [send] using turn _ reader_ (List.mem_append_left _ whole)
  | @invoked n mode idle at_ =>
    refine h.invoke idle at_ fun open_ whole => ?_
    have reader_ : reader dump s (.invoke n) = some n := by simp [reader, at_, open_]
    exact turn n reader_ (List.mem_append_left _ whole)
  | read reading at_ arrives taken =>
    obtain ⟨framed, waiting, travels, cases_⟩ := h.read reading arrives taken
    obtain ⟨-, mode, found, open_⟩ := h.reads _ reading
    cases at_.symm.trans found
    exact h.resume_received at_ open_ framed waiting travels cases_ (turn _ reading)
  | readError reading failed =>
    obtain ⟨framed, waiting⟩ := ReceiveFraming.step_framed ⟨h.framed, h.waiting⟩ failed
    cases ReceiveFraming.step_cases failed with
    | readError waits =>
      refine { h with framed, waiting, idle := fun _ => rfl, reads := by rintro _ ⟨⟩, own := ?_ }
      intro result member
      rcases List.mem_append.mp member with old | new
      · exact h.own result old
      · obtain rfl := List.mem_singleton.mp new
        rintro _ ⟨⟩
  | @answer n frame unanswered clean answered =>
    have within : s.receiver.messages.length ≤ s.answers.length := by
      have read := congrArg List.length (messages_eq_take h.framed h.travels h.clean)
      rw [List.length_take, List.length_map] at read
      omega
    refine { h with travels := ?_, clean := ?_, served := ?_, own := ?_ }
    · simp [← List.append_assoc, h.travels]
    · intro a member
      rcases List.mem_append.mp member with old | new
      · exact h.clean a old
      · exact List.mem_singleton.mp new ▸ clean
    · rw [List.drop_append_of_le_length within]
      exact Runs.run_append_of_run _ h.served (Runs.run_singleton _ answered)
    · exact fun result member => (h.own result member).extend (List.prefix_append _ _)

theorem step_foreign {s t : System} {e : Event} (h : Served parse bufsiz s)
    (astray : ¬ Turn dump s e) (hs : step parse dump s e = some t) :
    ∃ result ∈ t.results, Foreign t result := by
  simp only [Turn, not_forall] at astray
  obtain ⟨n, reads, whole, m, earlier, expects⟩ := astray
  cases step_cases hs with
  | refused idle thrown => simp [reader, thrown, Except.toOption] at reads
  | sent idle dumped => simp [reader] at reads
  | @called mode message text idle dumped single =>
    have called : n = s.functors.length ∧ mode ≠ .oneway := by
      cases mode <;> simp_all [reader, Except.toOption]
    obtain ⟨rfl, open_⟩ := called
    have whole : 0 ∈ s.receiver.buffer.contents := by simpa [Event.chunk] using whole
    exact (h.send mode).invoke_foreign idle open_ whole (by simpa [send] using earlier) expects
  | @invoked k mode idle at_ =>
    have whole : 0 ∈ s.receiver.buffer.contents := by simpa [Event.chunk] using whole
    by_cases drained : mode = .oneway
    · simp [reader, at_, drained] at reads
    · simp only [reader, at_, Option.some.injEq, drained, if_false, Option.mem_def] at reads
      exact h.invoke_foreign idle drained whole (reads ▸ earlier) expects
  | @read k mode chunk later r reading at_ arrives taken =>
    obtain ⟨framed, -, travels, ⟨none_, -⟩ | ⟨-, ⟨frame, cut⟩, -⟩⟩ := h.read reading arrives taken
    · exact absurd whole none_
    · cases reading.symm.trans reads
      exact h.resume_foreign framed travels cut earlier expects
  | readError reading failed => simp [reader] at reads
  | answer clean answered => simp [reader] at reads

theorem step_grows {s t : System} {e : Event} (hs : step parse dump s e = some t) :
    s.results <+: t.results ∧ s.answers <+: t.answers := by
  have resume_ : ∀ (n : Nat) (mode : Callmode) (r : Receiver) (s : System),
      s.results <+: (resume parse n mode r s).results ∧
        (resume parse n mode r s).answers = s.answers := by
    intro n mode r s
    unfold resume
    split
    · exact ⟨List.prefix_refl _, rfl⟩
    · exact ⟨List.prefix_append _ _, rfl⟩
  have invoke_ : ∀ (n : Nat) (mode : Callmode) (s : System),
      s.results <+: (invoke parse n mode s).results ∧
        (invoke parse n mode s).answers = s.answers := by
    intro n mode s
    unfold invoke
    split
    · exact ⟨List.prefix_append _ _, rfl⟩
    · exact resume_ n mode _ s
  cases step_cases hs with
  | refused => exact ⟨List.prefix_refl _, List.prefix_refl _⟩
  | sent => exact ⟨List.prefix_refl _, List.prefix_refl _⟩
  | @called mode =>
    obtain ⟨results, answers⟩ := invoke_ s.functors.length mode (send mode s)
    exact ⟨results, answers ▸ List.prefix_refl _⟩
  | @invoked n mode =>
    obtain ⟨results, answers⟩ := invoke_ n mode s
    exact ⟨results, answers ▸ List.prefix_refl _⟩
  | @read n mode chunk later r =>
    obtain ⟨results, answers⟩ := resume_ n mode r s
    exact ⟨results, answers ▸ List.prefix_refl _⟩
  | readError => exact ⟨List.prefix_append _ _, List.prefix_refl _⟩
  | answer => exact ⟨List.prefix_refl _, List.prefix_append _ _⟩

/-- All calls and all invocations of functors get replies to their own requests
exactly if no frame is read while the functor of an earlier request is not drained. -/
theorem replies_paired_iff (parse : Bytes → ParseResult) (dump : Dump) (bufsiz : Nat)
    (es : List Event) (s : System) (h : Runs.run (step parse dump) (init bufsiz) es = some s) :
    (∀ result ∈ s.results, Own parse s result) ↔
      Runs.Along (step parse dump) (Turn dump) (init bufsiz) es := by
  have outcome : Runs.Along (step parse dump) (Turn dump) (init bufsiz) es ∧
        Served parse bufsiz s ∨ ¬Runs.Along (step parse dump) (Turn dump) (init bufsiz) es ∧
          ∃ result ∈ s.results, Foreign s result := Runs.run_along_or_bad (step parse dump)
    (fun _ _ _ served turn hs => step_served served turn hs)
    (fun _ _ _ served astray hs => step_foreign served astray hs)
    (fun s e t ⟨result, member, foreign⟩ hs =>
      have grows := step_grows hs
      ⟨result, grows.1.subset member, foreign.extend grows.2⟩)
    (Served.init bufsiz) h
  rcases outcome with ⟨along, served⟩ | ⟨astray, result, member, foreign⟩
  · exact ⟨fun _ => along, fun _ => served.own⟩
  · exact ⟨fun own => absurd (own result member) foreign.not_own, fun along => absurd along astray⟩

instance (dump : Dump) (s : System) (e : Event) : Decidable (Turn dump s e) :=
  inferInstanceAs (Decidable (∀ n ∈ reader dump s e, _))

open JsonText (frame encoded parsePing moreCall basicCall partReply basicReply)

theorem replies_paired_iff_drained :
    let es : List Event := [.call .more moreCall, .answer (encoded (partReply true)), .invoke 0,
      .answer (encoded (partReply false)), .read ((frame (partReply true)).take 10),
      .read ((frame (partReply true)).drop 10 ++ frame (partReply false)), .invoke 0,
      .call .basic basicCall, .answer (encoded basicReply), .read (frame basicReply)]
    ∃ s, Runs.run (step parsePing JsonText.dump) (init 128) es = some s ∧
      s.results.map (·.request) = [0, 0, 1] ∧ ∀ result ∈ s.results, Own parsePing s result := by
  intro es
  have enabled : (Runs.run (step parsePing JsonText.dump) (init 128) es).any
      (·.results.map (·.request) = [0, 0, 1]) = true := by decide +kernel
  have along : Runs.Along (step parsePing JsonText.dump) (Turn JsonText.dump) (init 128) es := by
    decide +kernel
  obtain ⟨s, run, results⟩ := (Option.any_eq_true _ _).mp enabled
  exact ⟨s, run, by simpa using results,
    (replies_paired_iff parsePing JsonText.dump 128 es s run).mpr along⟩

/-- The first reply to a stream that nobody reads goes to the next call. -/
theorem call_gets_stream_reply :
    let es : List Event := [.call .more moreCall, .answer (encoded (partReply true)),
      .call .basic basicCall, .read (frame (partReply true))]
    ∃ s, Runs.run (step parsePing JsonText.dump) (init 128) es = some s ∧
      s.results.map (fun r => (r.request, r.frame)) = [(1, some 0)] ∧
      s.answers = [(0, encoded (partReply true))] ∧
      ¬ ∀ result ∈ s.results, Own parsePing s result := by
  intro es
  have enabled : (Runs.run (step parsePing JsonText.dump) (init 128) es).any
      (fun s => s.results.map (fun r => (r.request, r.frame)) = [(1, some 0)] &&
        s.answers = [(0, encoded (partReply true))]) = true := by decide +kernel
  obtain ⟨s, run, same⟩ := (Option.any_eq_true _ _).mp enabled
  simp only [Bool.and_eq_true, decide_eq_true_eq] at same
  refine ⟨s, run, same.1, same.2, fun own => ?_⟩
  have first : (1, some 0) ∈ s.results.map fun r => (r.request, r.frame) := by simp [same.1]
  obtain ⟨result, member, entry⟩ := List.mem_map.mp first
  obtain ⟨request, read⟩ := Prod.mk.inj entry
  obtain ⟨frame, mode, answered, -⟩ := own result member 0 read
  simp [same.2, request] at answered

end Varlink.SyncClient
