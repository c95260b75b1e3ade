import Varlink.Json
import Varlink.Library.InPlace
import Varlink.Library.Delimited

/-! The receive half of `json_connection`: the buffer, the extraction of one
message, and what the synchronous and the asynchronous receive do with it.
`read_end` is an index into the buffer. -/

namespace Varlink

structure ReceiveBuffer where
  readbuf : Bytes
  readEnd : Nat

/-- The buffer a socket read is given: it is fixed when the read is initiated. -/
structure ReadWindow where
  offset : Nat
  size : Nat
deriving DecidableEq, Repr

namespace ReceiveBuffer

def new (bufsiz : Nat) : ReceiveBuffer := ⟨List.replicate bufsiz 0, 0⟩

/-- The bytes of `readbuf` before `read_end`. -/
def contents (b : ReceiveBuffer) : Bytes := b.readbuf.take b.readEnd

/-- `std::find(readbuf.begin(), read_end, '\0')`. -/
def nextMessageEnd (b : ReceiveBuffer) : Nat := b.contents.findIdx (· == 0)

/-- Cut the first message off: its text, and the buffer with the bytes behind
its terminator copied to the front. -/
def takeMessage (b : ReceiveBuffer) : Option (Bytes × ReceiveBuffer) :=
  if b.nextMessageEnd = b.readEnd then none
  else
    let first := b.nextMessageEnd + 1
    some (b.readbuf.take b.nextMessageEnd,
      ⟨InPlace.copyWithin b.readbuf first 0 (b.readEnd - first), b.readEnd - first⟩)

/-- `net::buffer(&(*read_end), readbuf.end() - read_end)`. -/
def window (b : ReceiveBuffer) : ReadWindow := ⟨b.readEnd, b.readbuf.length - b.readEnd⟩

/-- The socket has put `chunk` into the window; `read_end += n`. -/
def commit (b : ReceiveBuffer) (w : ReadWindow) (chunk : Bytes) : ReceiveBuffer :=
  ⟨InPlace.overwrite b.readbuf w.offset chunk, b.readEnd + chunk.length⟩

theorem contents_length {b : ReceiveBuffer} (h : b.readEnd ≤ b.readbuf.length) :
    b.contents.length = b.readEnd := by
  rw [contents, List.length_take, Nat.min_eq_left h]

theorem takeMessage_none {b : ReceiveBuffer} (hle : b.readEnd ≤ b.readbuf.length)
    (h : b.takeMessage = none) : 0 ∉ b.contents := by
  have hend : b.nextMessageEnd = b.contents.length := by
    rw [contents_length hle]
    by_contra hne
    simp [takeMessage, hne] at h
  rw [nextMessageEnd, List.findIdx_eq_length] at hend
  intro hmem
  simpa using hend 0 hmem

theorem takeMessage_some {b b' : ReceiveBuffer} {message : Bytes}
    (hle : b.readEnd ≤ b.readbuf.length) (h : b.takeMessage = some (message, b')) :
    b.contents = message ++ 0 :: b'.contents ∧ 0 ∉ message ∧
      b'.readbuf.length = b.readbuf.length ∧ b'.readEnd < b.readEnd := by
  have hne : b.nextMessageEnd ≠ b.readEnd := by
    intro heq
    simp [takeMessage, heq] at h
  simp only [takeMessage, hne, if_false, Option.some.injEq, Prod.mk.injEq] at h
  obtain ⟨rfl, rfl⟩ := h
  have hlen := contents_length hle
  have hlt : b.nextMessageEnd < b.contents.length := by
    have := b.contents.findIdx_le_length (p := (· == 0))
    rw [nextMessageEnd] at hne ⊢
    omega
  have hnul : b.contents[b.nextMessageEnd] = 0 :=
    eq_of_beq (List.findIdx_getElem (p := (· == (0 : UInt8))) (w := hlt))
  have hmessage : b.readbuf.take b.nextMessageEnd = b.contents.take b.nextMessageEnd := by
    rw [contents, List.take_take, Nat.min_eq_left (by omega)]
  have hshift := InPlace.copyWithin_take b.readbuf (Nat.zero_le (b.nextMessageEnd + 1))
    (n := b.readEnd - (b.nextMessageEnd + 1)) (by omega)
  refine ⟨?_, ?_, by simp, by dsimp only; omega⟩
  · have hrest : (b.readbuf.drop (b.nextMessageEnd + 1)).take
        (b.readEnd - (b.nextMessageEnd + 1)) = b.contents.drop (b.nextMessageEnd + 1) := by
      rw [contents, List.drop_take]
    rw [Nat.zero_add, List.take_zero, List.nil_append, hrest] at hshift
    rw [hmessage]
    conv_lhs => rw [← List.take_append_drop b.nextMessageEnd b.contents,
      List.drop_eq_getElem_cons hlt, hnul]
    rw [← hshift]
    rfl
  · rw [hmessage]
    intro hmem
    obtain ⟨i, hi, hget⟩ := List.mem_iff_getElem.mp hmem
    rw [List.length_take] at hi
    have hbefore : i < b.contents.findIdx (· == 0) := by
      rw [← nextMessageEnd]
      omega
    have hfree := List.not_of_lt_findIdx hbefore
    rw [List.getElem_take] at hget
    simp [hget] at hfree

theorem commit_contents {b : ReceiveBuffer} {chunk : Bytes} (hle : b.readEnd ≤ b.readbuf.length) :
    (b.commit b.window chunk).contents = b.contents ++ chunk :=
  InPlace.overwrite_take b.readbuf chunk hle

theorem commit_bounds {b : ReceiveBuffer} {chunk : Bytes} (hle : b.readEnd ≤ b.readbuf.length)
    (hfit : chunk.length ≤ b.window.size) :
    (b.commit b.window chunk).readbuf.length = b.readbuf.length ∧
      (b.commit b.window chunk).readEnd ≤ b.readbuf.length := by
  simp only [window] at hfit
  exact ⟨InPlace.overwrite_length _ _ (by simp only [window]; omega),
    by simp only [commit]; omega⟩

variable (parse : Bytes → ParseResult)

/-- The message text is returned next to the result of parsing it. The bytes
are consumed before `json::parse` runs, whatever it then does. -/
def readNextMessage (b : ReceiveBuffer) : Option (Bytes × ParseResult) × ReceiveBuffer :=
  match b.takeMessage with
  | none => (none, b)
  | some (message, b') => (some (message, parse message), b')

theorem readNextMessage_cases {b : ReceiveBuffer} (hle : b.readEnd ≤ b.readbuf.length) :
    (b.readNextMessage parse = (none, b) ∧ 0 ∉ b.contents) ∨
      ∃ message b', b.readNextMessage parse = (some (message, parse message), b') ∧
        b.contents = message ++ 0 :: b'.contents ∧ 0 ∉ message ∧
        b'.readbuf.length = b.readbuf.length ∧ b'.readEnd < b.readEnd := by
  cases h : b.takeMessage with
  | none => exact .inl ⟨by simp [readNextMessage, h], takeMessage_none hle h⟩
  | some p =>
    obtain ⟨message, b'⟩ := p
    exact .inr ⟨message, b', by simp [readNextMessage, h], takeMessage_some hle h⟩

theorem commit_frame {b : ReceiveBuffer} (empty : b.readEnd = 0) {frame : Bytes}
    (clean : 0 ∉ frame) (fits : frame.length < b.readbuf.length) :
    ∃ t, (b.commit b.window (frame ++ [0])).readNextMessage parse =
        (some (frame, parse frame), t) ∧ t.readEnd = 0 ∧ t.readbuf.length = b.readbuf.length := by
  have hle : b.readEnd ≤ b.readbuf.length := empty ▸ Nat.zero_le _
  have hroom : (frame ++ [0]).length ≤ b.window.size := by
    simp only [window, empty, List.length_append, List.length_singleton]
    omega
  obtain ⟨hlen, hend⟩ := commit_bounds hle hroom
  have hfull : (b.commit b.window (frame ++ [0])).contents = frame ++ [0] := by
    rw [commit_contents hle]
    simp [contents, empty]
  rcases readNextMessage_cases parse (hlen ▸ hend) with
    ⟨-, hnone⟩ | ⟨message, t, hread, heq, hmessage, hsize, hlt⟩
  · exact absurd (by rw [hfull]; simp) hnone
  · rw [hfull] at heq
    obtain ⟨rfl, hrest⟩ := Delimited.split_unique clean hmessage heq
    refine ⟨t, hread, ?_, hsize.trans hlen⟩
    rw [← contents_length (b := t) (by omega), ← hrest]
    rfl

end ReceiveBuffer

end Varlink
