import Varlink.JsonText
import Varlink.ReceiveFraming

/-! Room in the receive buffer. `readbuf` has `BUFSIZ` bytes and never grows:
the socket is offered room in every run exactly if each message of the stream,
its NUL included, fits. A longer message fills the buffer, and from then on
each read returns no byte. -/

namespace Varlink.ReceiveRoom

open ReceiveBuffer ReceiveFraming

variable {parse : Bytes → ParseResult} {bufsiz : Nat}

/-- A read in progress was offered at least one byte, at a valid element, and
the buffer is not full without a complete message. -/
structure HasRoom (r : Receiver) : Prop where
  offered : ∀ w, r.pending.window? = some w → 0 < w.size ∧ w.offset < r.buffer.readbuf.length
  not_full : ¬(r.buffer.readEnd = r.buffer.readbuf.length ∧ 0 ∉ r.buffer.contents)

theorem readEnd_lt_of_short {r : Receiver} {frames : List Bytes} (h : Framed parse bufsiz r)
    (hpos : 0 < bufsiz) (clean : ∀ f ∈ frames, 0 ∉ f)
    (hpre : r.received <+: Delimited.encode 0 frames) (short : ∀ f ∈ frames, f.length < bufsiz)
    (hnone : 0 ∉ r.buffer.contents) : r.buffer.readEnd < bufsiz := by
  have hread : Delimited.Reads 0 r.received r.messages r.buffer.contents :=
    ⟨h.received_eq, h.clean, hnone⟩
  have hle := hread.rest_length_le clean hpre (n := bufsiz - 1) fun f hf => by
    have := short f hf
    omega
  rw [contents_length h.end_le_length] at hle
  omega

theorem hasRoom_of_short {es : List Event} {r : Receiver} {frames : List Bytes}
    (hpos : 0 < bufsiz) (clean : ∀ f ∈ frames, 0 ∉ f) (short : ∀ f ∈ frames, f.length < bufsiz)
    (h : Runs.run (step parse) (init bufsiz) es = some r)
    (hpre : r.received <+: Delimited.encode 0 frames) : HasRoom r := by
  obtain ⟨hf, hw⟩ := run_framed h
  refine ⟨fun w hwin => ?_, fun ⟨hfull, hnone⟩ => ?_⟩
  · obtain ⟨rfl, hnone⟩ := hw w hwin
    have := readEnd_lt_of_short hf hpos clean hpre short hnone
    have := hf.size_eq
    simp only [window]
    omega
  · have := readEnd_lt_of_short hf hpos clean hpre short hnone
    have := hf.size_eq
    omega

structure Drained (bufsiz : Nat) (r : Receiver) : Prop where
  idle : r.pending = .idle
  empty : r.buffer.readEnd = 0
  size_eq : r.buffer.readbuf.length = bufsiz

theorem Drained.waits {r : Receiver} (h : Drained bufsiz r) :
    step parse r .receive = some { r with pending := .receiving ⟨0, bufsiz⟩ } := by
  have hnone : r.buffer.readNextMessage parse = (none, r.buffer) := by
    simp [readNextMessage, takeMessage, nextMessageEnd, contents, h.empty]
  simp only [step, h.idle, receive, hnone, window, h.empty, h.size_eq, Nat.sub_zero]

theorem Drained.run_read {r : Receiver} (h : Drained bufsiz r) {chunk : Bytes}
    (fits : chunk.length ≤ bufsiz) :
    Runs.run (step parse) r [.receive, .read chunk] =
      some (receive parse
        (fill { r with pending := .receiving ⟨0, bufsiz⟩ } ⟨0, bufsiz⟩ chunk)) := by
  rw [Runs.run_cons, h.waits, Option.bind_some]
  exact Runs.run_singleton _ (by simp only [step, fits, if_true])

theorem Drained.fill_contents {r : Receiver} (h : Drained bufsiz r) {chunk : Bytes} :
    (r.buffer.commit ⟨0, bufsiz⟩ chunk).contents = chunk := by
  have hw : (⟨0, bufsiz⟩ : ReadWindow) = r.buffer.window := by
    simp [window, h.empty, h.size_eq]
  rw [hw, commit_contents (by rw [h.empty]; exact Nat.zero_le _)]
  simp [contents, h.empty]

theorem Drained.receive_frame {r : Receiver} (h : Drained bufsiz r) {frame : Bytes}
    (clean : 0 ∉ frame) (fits : frame.length < bufsiz) :
    ∃ t, Runs.run (step parse) r [.receive, .read (frame ++ [0])] = some t ∧
      Drained bufsiz t ∧ t.received = r.received ++ (frame ++ [0]) := by
  have hw : (⟨0, bufsiz⟩ : ReadWindow) = r.buffer.window := by
    simp [window, h.empty, h.size_eq]
  have hroom : (frame ++ [0]).length ≤ bufsiz := by simp; omega
  obtain ⟨b, hread, hb, hsize⟩ :=
    commit_frame parse h.empty clean (by rw [h.size_eq]; exact fits)
  refine ⟨⟨b, .idle, r.received ++ (frame ++ [0]), r.messages ++ [frame],
    r.outcomes ++ [.ofParse (parse frame)]⟩, ?_, ⟨rfl, hb, hsize.trans h.size_eq⟩, rfl⟩
  rw [h.run_read hroom, hw]
  simp only [receive, fill, hread]

theorem Drained.receive_frames {r : Receiver} (h : Drained bufsiz r) {frames : List Bytes}
    (clean : ∀ f ∈ frames, 0 ∉ f) (short : ∀ f ∈ frames, f.length < bufsiz) :
    ∃ es t, Runs.run (step parse) r es = some t ∧ Drained bufsiz t ∧
      t.received = r.received ++ Delimited.encode 0 frames := by
  induction frames generalizing r with
  | nil => exact ⟨[], r, rfl, h, by simp⟩
  | cons f fs ih =>
    obtain ⟨m, hm, hd, hrec⟩ := h.receive_frame
      (clean f List.mem_cons_self) (short f List.mem_cons_self)
    obtain ⟨es, t, ht, hdt, hrect⟩ := ih hd
      (fun g hg => clean g (List.mem_cons_of_mem f hg))
      (fun g hg => short g (List.mem_cons_of_mem f hg))
    refine ⟨_, t, Runs.run_append_of_run _ hm ht, hdt, ?_⟩
    rw [hrect, hrec, Delimited.encode_cons]
    simp

theorem Drained.receive_long {r : Receiver} (h : Drained bufsiz r) {frame : Bytes}
    (clean : 0 ∉ frame) (long : bufsiz ≤ frame.length) :
    ∃ es t, Runs.run (step parse) r es = some t ∧
      t.received = r.received ++ frame.take bufsiz ∧
      t.pending.window? = some ⟨bufsiz, 0⟩ := by
  have hlen : (frame.take bufsiz).length = bufsiz := by
    rw [List.length_take, Nat.min_eq_left long]
  have hfull : (r.buffer.commit ⟨0, bufsiz⟩ (frame.take bufsiz)).contents = frame.take bufsiz :=
    h.fill_contents
  have hw : (⟨0, bufsiz⟩ : ReadWindow) = r.buffer.window := by
    simp [window, h.empty, h.size_eq]
  obtain ⟨hsize, hend⟩ := commit_bounds (b := r.buffer)
    (by rw [h.empty]; exact Nat.zero_le _) (by rw [← hw]; exact Nat.le_of_eq hlen)
  rw [← hw] at hsize hend
  rcases readNextMessage_cases parse (hsize ▸ hend) with
    ⟨hread, -⟩ | ⟨message, b, -, heq, -⟩
  · refine ⟨_, _, h.run_read (Nat.le_of_eq hlen), ?_, ?_⟩
    · simp only [receive, fill, hread]
    · simp only [receive, fill, hread, Pending.window?, window, hsize, h.size_eq]
      simp [commit, h.empty, hlen]
  · rw [hfull] at heq
    exact absurd (List.mem_of_mem_take (heq ▸ by simp : (0 : UInt8) ∈ frame.take bufsiz)) clean

theorem drained_init (bufsiz : Nat) : Drained bufsiz (init bufsiz) :=
  ⟨rfl, rfl, List.length_replicate⟩

theorem exists_full_of_long {frames : List Bytes} (clean : ∀ f ∈ frames, 0 ∉ f)
    (long : ¬∀ f ∈ frames, f.length < bufsiz) :
    ∃ es r, Runs.run (step parse) (init bufsiz) es = some r ∧
      r.received <+: Delimited.encode 0 frames ∧ r.pending.window? = some ⟨bufsiz, 0⟩ := by
  have hfind : (frames.find? fun f => bufsiz ≤ f.length).isSome := by
    simpa using long
  obtain ⟨f, hf⟩ := Option.isSome_iff_exists.mp hfind
  obtain ⟨hlong, pre, post, rfl, hpre⟩ := List.find?_eq_some_iff_append.mp hf
  obtain ⟨es, m, hm, hd, hrec⟩ := (drained_init bufsiz).receive_frames
    (fun g hg => clean g (List.mem_append_left _ hg))
    (fun g hg => by simpa using hpre g hg)
  obtain ⟨fs, r, hr, hrecr, hwin⟩ := hd.receive_long
    (clean f (by simp)) (by simpa using hlong)
  refine ⟨_, r, Runs.run_append_of_run _ hm hr, ?_, hwin⟩
  rw [hrecr, hrec, Delimited.encode_append, Delimited.encode_cons]
  refine List.prefix_append_right_inj _ |>.mpr ?_
  exact (List.take_prefix bufsiz f).trans (List.prefix_append f _)

theorem full_asks_again {r t : Receiver} {w : ReadWindow} {chunk : Bytes}
    (hf : Framed parse bufsiz r) (hw : Waiting r) (hwin : r.pending.window? = some w)
    (full : w.size = 0) (hs : step parse r (.read chunk) = some t) :
    t.buffer = r.buffer ∧ t.pending = r.pending := by
  obtain ⟨rfl, hnone⟩ := hw w hwin
  have same : ∀ c : Bytes, c.length ≤ r.buffer.window.size →
      fill r r.buffer.window c = r := by
    intro c hc
    obtain rfl : c = [] := List.eq_nil_of_length_eq_zero (by omega)
    simp [fill, commit, InPlace.overwrite]
  have hread : r.buffer.readNextMessage parse = (none, r.buffer) := by
    rcases readNextMessage_cases parse hf.end_le_length with ⟨h, -⟩ | ⟨m, b, -, heq, -⟩
    · exact h
    · exact absurd (heq ▸ by simp) hnone
  cases step_cases hs with
  | readSync waits fits =>
    rw [waits, Pending.window?, Option.some.injEq] at hwin
    subst hwin
    rw [same chunk fits]
    simp [receive, hread, waits]
  | readAsync waits fits =>
    rw [waits, Pending.window?, Option.some.injEq] at hwin
    subst hwin
    rw [same chunk fits]
    simp [onRead, asyncReceive, hread, waits]

/-- Every receive is offered room, whatever the chunks, exactly if every
message of the stream is shorter than the buffer. -/
theorem hasRoom_iff_short (parse : Bytes → ParseResult) (bufsiz : Nat) (hpos : 0 < bufsiz)
    (frames : List Bytes) (clean : ∀ f ∈ frames, 0 ∉ f) :
    (∀ es r, Runs.run (step parse) (init bufsiz) es = some r →
      r.received <+: Delimited.encode 0 frames → HasRoom r) ↔
    ∀ f ∈ frames, f.length < bufsiz := by
  refine ⟨fun h => ?_, fun short es r hr hpre => hasRoom_of_short hpos clean short hr hpre⟩
  by_contra long
  obtain ⟨es, r, hr, hpre, hwin⟩ := exists_full_of_long clean long
  exact absurd ((h es r hr hpre).offered _ hwin).1 (Nat.lt_irrefl 0)

open JsonText (encoded parsePing moreCall basicCall)

theorem hasRoom_iff_short_ping :
    let frames := [encoded moreCall, encoded basicCall]
    (∀ f ∈ frames, f.length < 64) ∧
      ∀ es r, Runs.run (step parsePing) (init 64) es = some r →
        r.received <+: Delimited.encode 0 frames → HasRoom r := by
  intro frames
  have short : ∀ f ∈ frames, f.length < 64 := by decide +kernel
  exact ⟨short, (hasRoom_iff_short parsePing 64 (by decide) frames (by decide +kernel)).mpr short⟩

def stringMessage (n : Nat) : Bytes := 34 :: (List.replicate n 65 ++ [34])

theorem stringMessage_clean (n : Nat) : 0 ∉ stringMessage n := by
  simp [stringMessage, List.mem_replicate]

@[simp] theorem stringMessage_length (n : Nat) : (stringMessage n).length = n + 2 := by
  simp [stringMessage]

/-- Once it has filled the buffer, each further read brings nothing. -/
theorem longMessage_fills :
    (∃ es r, Runs.run (step parsePing) (init 8192) es = some r ∧
      r.received <+: Delimited.encode 0 [stringMessage 8190] ∧
      r.pending.window? = some ⟨8192, 0⟩ ∧
      ∀ chunk t, step parsePing r (.read chunk) = some t →
        t.buffer = r.buffer ∧ t.pending = r.pending) ∧
    ¬∀ es r, Runs.run (step parsePing) (init 8192) es = some r →
      r.received <+: Delimited.encode 0 [stringMessage 8190] → HasRoom r := by
  have clean : ∀ f ∈ [stringMessage 8190], 0 ∉ f := fun f hf =>
    List.mem_singleton.mp hf ▸ stringMessage_clean 8190
  have long : ¬∀ f ∈ [stringMessage 8190], f.length < 8192 := fun short => by
    have := short _ (List.mem_singleton_self _)
    rw [stringMessage_length] at this
    exact absurd this (Nat.lt_irrefl 8192)
  obtain ⟨es, r, hr, hpre, hwin⟩ := exists_full_of_long clean long
  obtain ⟨hf, hw⟩ := run_framed hr
  refine ⟨⟨es, r, hr, hpre, hwin, fun chunk t => full_asks_again hf hw hwin rfl⟩, fun h => ?_⟩
  exact absurd ((h es r hr hpre).offered _ hwin).1 (Nat.lt_irrefl 0)

end Varlink.ReceiveRoom
