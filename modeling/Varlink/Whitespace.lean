import Varlink.Scanner

/-! Whitespace and comments as the scanner skips them: a stretch of blanks and
lines of comments, all of it at once. -/

namespace Varlink

open Regex

def blanks : List Char := [' ', '\t', '\n']

inductive Gap : List Char → Prop where
  | nil : Gap []
  | blank {c : Char} {g : List Char} (blank : c ∈ blanks) (gap : Gap g) : Gap (c :: g)
  | comment {body g : List Char} (line : '\n' ∉ body) (gap : Gap g) :
      Gap ('#' :: (body ++ '\n' :: g))

/-- What neither is empty nor begins with whitespace or a comment, or the end of the text. -/
def Stops (rest : List Char) : Prop := ∀ c, rest.head? = some c → c ∉ '#' :: blanks

/-- All the whitespace in front of `rest`. A comment need not end before the text does. -/
inductive Stretch : List Char → List Char → Prop where
  | gap {g rest : List Char} (gap : Gap g) (stops : Stops rest) : Stretch g rest
  | unended {g body : List Char} (gap : Gap g) (line : '\n' ∉ body) : Stretch (g ++ '#' :: body) []

theorem Gap.append {g h : List Char} (left : Gap g) (right : Gap h) : Gap (g ++ h) := by
  induction left with
  | nil => exact right
  | blank blank _ ih => exact .blank blank ih
  | @comment body g line _ ih =>
    rw [List.cons_append, List.append_assoc]
    exact .comment line ih

theorem gap_of_blanks {g : List Char} (all : ∀ c ∈ g, c ∈ blanks) : Gap g := by
  induction g with
  | nil => exact .nil
  | cons c g ih =>
    exact .blank (all c List.mem_cons_self)
      (ih fun d member => all d (List.mem_cons_of_mem c member))

theorem gap_of_newlines {p : List Char} (newlines : ∀ c ∈ p, c = '\n') : Gap p :=
  gap_of_blanks fun c member => newlines c member ▸ (by decide : '\n' ∈ blanks)

theorem stops_nil : Stops [] := nofun

theorem stops_cons {c : Char} {rest : List Char} : Stops (c :: rest) ↔ c ∉ '#' :: blanks :=
  ⟨fun h => h c rfl, fun h d head => by cases head; exact h⟩

theorem exists_line (text : List Char) :
    '\n' ∉ text ∨ ∃ line rest, text = line ++ '\n' :: rest ∧ '\n' ∉ line := by
  by_cases member : '\n' ∈ text
  · obtain ⟨line, rest, eq, none⟩ := List.eq_append_cons_of_mem member
    exact .inr ⟨line, rest, eq, none⟩
  · exact .inl member

theorem Stretch.cons {c : Char} {g rest : List Char} (blank : c ∈ blanks) (h : Stretch g rest) :
    Stretch (c :: g) rest := by
  cases h with
  | gap gap stops => exact .gap (.blank blank gap) stops
  | unended gap line => exact .unended (.blank blank gap) line

theorem Stretch.comment {body g rest : List Char} (line : '\n' ∉ body) (h : Stretch g rest) :
    Stretch ('#' :: (body ++ '\n' :: g)) rest := by
  cases h with
  | gap gap stops => exact .gap (.comment line gap) stops
  | @unended g body' gap line' =>
    have h := Stretch.unended (.comment line gap) line'
    rwa [List.cons_append, List.append_assoc] at h

theorem exists_stretch (text : List Char) : ∃ g rest, text = g ++ rest ∧ Stretch g rest := by
  match text with
  | [] => exact ⟨[], [], rfl, .gap .nil stops_nil⟩
  | c :: tail =>
    by_cases blank : c ∈ blanks
    · obtain ⟨g, rest, eq, stretch⟩ := exists_stretch tail
      exact ⟨c :: g, rest, by rw [eq]; rfl, stretch.cons blank⟩
    by_cases hash : c = '#'
    · subst hash
      rcases exists_line tail with line | ⟨body, tail', eq, line⟩
      · exact ⟨'#' :: tail, [], by simp, .unended .nil line⟩
      · have shorter : tail'.length < (('#' : Char) :: tail).length := by
          simp only [eq, List.length_cons, List.length_append]
          omega
        obtain ⟨g, rest, eq', stretch⟩ := exists_stretch tail'
        refine ⟨'#' :: (body ++ '\n' :: g), rest, ?_, stretch.comment line⟩
        simp [eq, eq']
    · refine ⟨[], c :: tail, rfl, .gap .nil (stops_cons.mpr ?_)⟩
      simp [hash, blank]
termination_by text.length

section Pattern

def whitespaceItem : Regex Char :=
  .alt (anyOf [' ', '\t', '\n'])
    (.seq (anyOf ['#']) (.seq (.star notNewline) (.alt (anyOf ['\n']) endOfText)))

theorem whitespace_eq : whitespace = plus whitespaceItem := rfl

theorem getElem?_drop {w x : List Char} {i : Nat} (here : w.drop i = x) : w[i]? = x.head? := by
  rw [← List.head?_drop, here]

theorem run_anyOf {w x : List Char} {i : Nat} {chars : List Char} {c : Char}
    (here : w.drop i = c :: x) : (anyOf chars).run w i = if c ∈ chars then [i + 1] else [] := by
  simp [anyOf, run, getElem?_drop here]

theorem lt_of_mem_item {w : List Char} {i j : Nat} (h : j ∈ whitespaceItem.run w i) : i < j := by
  rw [whitespaceItem, mem_run_alt, mem_run_seq] at h
  rcases h with blank | ⟨k, hash, rest⟩
  · have := (mem_run_one.mp blank).1
    omega
  · have := (mem_run_one.mp hash).1
    have := le_of_mem_run rest
    omega

theorem item_blank {w x : List Char} {i : Nat} {c : Char} (here : w.drop i = c :: x)
    (blank : c ∈ blanks) : (whitespaceItem.run w i).head? = some (i + 1) := by
  rw [whitespaceItem, head_run_alt, run_anyOf here, if_pos (show c ∈ [' ', '\t', '\n'] from blank)]
  rfl

theorem head_run_line {w body x : List Char} {i : Nat} (here : w.drop i = body ++ x)
    (line : '\n' ∉ body) (ends : x.head? = none ∨ x.head? = some '\n') (start : i ≤ w.length) :
    ((star notNewline).run w i).head? = some (i + body.length) := by
  induction body generalizing i with
  | nil =>
    refine head_run_star_none ?_
    have ahead := getElem?_drop here
    rw [List.nil_append] at ahead
    rcases ends with ends | ends <;> simp [notNewline, run, ahead, ends]
  | cons c body ih =>
    have notEnd : c ≠ '\n' := fun eq => line (eq ▸ List.mem_cons_self)
    have first : (notNewline.run w i).head? = some (i + 1) := by
      simp [notNewline, run, getElem?_drop here, notEnd]
    have lt : i < w.length := by
      by_contra beyond
      rw [List.drop_eq_nil_of_le (by omega)] at here
      cases here
    have next : w.drop (i + 1) = body ++ x := by rw [← List.drop_drop, here]; rfl
    rw [head_run_star start first (Nat.lt_succ_self i),
      ih next (fun member => line (List.mem_cons_of_mem c member)) lt, List.length_cons]
    congr 1
    omega

theorem item_comment {w body x : List Char} {i : Nat} (here : w.drop i = '#' :: (body ++ x))
    (line : '\n' ∉ body) (ends : x = [] ∨ ∃ y, x = '\n' :: y) :
    (whitespaceItem.run w i).head? = some (i + 1 + body.length + (x.take 1).length) := by
  have lt : i < w.length := by
    by_contra beyond
    rw [List.drop_eq_nil_of_le (by omega)] at here
    cases here
  have behind : w.drop (i + 1) = body ++ x := by rw [← List.drop_drop, here]; rfl
  have end_ : w.drop (i + 1 + body.length) = x := drop_add_of_drop behind
  rw [whitespaceItem, head_run_alt, run_anyOf here, if_neg (by decide), List.head?_nil,
    Option.none_or]
  refine head_run_seq (j := i + 1) ?_ (head_run_seq (j := i + 1 + body.length) ?_ ?_)
  · rw [run_anyOf here]
    rfl
  · exact head_run_line behind line (by rcases ends with rfl | ⟨y, rfl⟩ <;> simp) lt
  · rw [head_run_alt]
    rcases ends with rfl | ⟨y, rfl⟩
    · simp [anyOf, endOfText, run, getElem?_drop end_]
    · rw [run_anyOf end_]
      simp

theorem item_none {w x : List Char} {i : Nat} (here : w.drop i = x) (stops : Stops x) :
    whitespaceItem.run w i = [] := by
  cases x with
  | nil => simp [whitespaceItem, anyOf, run, getElem?_drop here]
  | cons c x =>
    have other := stops_cons.mp stops
    have notBlank : c ∉ [' ', '\t', '\n'] := fun member => other (List.mem_cons_of_mem '#' member)
    have notHash : c ∉ ['#'] := fun member => other (by simp_all)
    rw [whitespaceItem, run, run, run_anyOf here, run_anyOf here, if_neg notBlank, if_neg notHash]
    rfl

theorem head_run_gap {w g x : List Char} {i n : Nat} (here : w.drop i = g ++ x) (gap : Gap g)
    (start : i ≤ w.length)
    (rest : ((star whitespaceItem).run w (i + g.length)).head? = some n) :
    ((star whitespaceItem).run w i).head? = some n := by
  induction gap generalizing i with
  | nil => exact rest
  | @blank c g blank _ ih =>
    have first := item_blank here blank
    have member := List.mem_of_head? first
    rw [head_run_star start first (Nat.lt_succ_self i)]
    refine ih (by rw [← List.drop_drop, here]; rfl) (le_length_of_mem_run member start) ?_
    rwa [Nat.add_assoc, Nat.add_comm 1]
  | @comment body g line _ ih =>
    have here' : w.drop i = '#' :: (body ++ '\n' :: (g ++ x)) := by simpa using here
    have first := item_comment here' line (.inr ⟨_, rfl⟩)
    have member := List.mem_of_head? first
    rw [head_run_star start first (by omega)]
    refine ih ?_ (le_length_of_mem_run member start) ?_
    · have next := drop_add_of_drop (y := '#' :: (body ++ ['\n'])) (x := g ++ x)
        (by simpa using here)
      simpa [Nat.add_assoc, Nat.add_comm, Nat.add_left_comm] using next
    · simpa [Nat.add_assoc, Nat.add_comm, Nat.add_left_comm] using rest

theorem star_stretch {g rest : List Char} (stretch : Stretch g rest) :
    (star whitespaceItem).starts (g ++ rest) = some g.length := by
  cases stretch with
  | gap gap stops =>
    have end_ : (g ++ rest).drop (0 + g.length) = rest := by simp
    refine head_run_gap rfl gap (Nat.zero_le _) ?_
    rw [head_run_star_none (item_none end_ stops), Nat.zero_add]
  | @unended g body gap line =>
    have end_ : (g ++ '#' :: body ++ []).drop (0 + g.length) = '#' :: (body ++ []) := by simp
    refine head_run_gap (x := '#' :: body) (by simp) gap (Nat.zero_le _) ?_
    have first := item_comment end_ line (.inl rfl)
    rw [head_run_star (by simp) first (by omega), head_run_star_none (item_none ?_ stops_nil)]
    · simp [Nat.add_comm, Nat.add_left_comm]
    · refine List.drop_eq_nil_of_le ?_
      simp only [List.length_append, List.length_cons, List.length_nil]
      omega

theorem starts_whitespace {g rest : List Char} (stretch : Stretch g rest) :
    whitespace.starts (g ++ rest) = if g = [] then none else some g.length := by
  rw [whitespace_eq]
  split
  · rename_i empty
    refine starts_plus_none (item_none (x := g ++ rest) rfl ?_)
    cases stretch with
    | gap _ stops => rwa [empty]
    | unended => exact absurd empty (by simp)
  · rename_i nonempty
    rw [← star_stretch stretch]
    cases first : (whitespaceItem.run (g ++ rest) 0).head? with
    | none =>
      have stop := star_stretch stretch
      unfold starts at stop
      rw [head_run_star_none (List.head?_eq_none_iff.mp first), Option.some_inj] at stop
      exact absurd (List.length_eq_zero_iff.mp stop.symm) nonempty
    | some j =>
      exact starts_plus first (lt_of_mem_item (List.mem_of_head? first))

end Pattern

theorem Scanner.consumeWhitespace_eq {desc g rest : List Char} {s : Scanner}
    (here : desc.drop s.pos = g ++ rest) (stretch : Stretch g rest) :
    consumeWhitespace desc s =
      { pos := s.pos + g.length, currentDoc := collectDoc g.length g s.pos s.currentDoc } := by
  rw [consumeWhitespace, here, starts_whitespace stretch]
  cases g with
  | nil => rfl
  | cons c g => simp

end Varlink
