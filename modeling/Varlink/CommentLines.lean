import Varlink.Taken
import Varlink.MixedDocs

/-! The lines of comment in the whitespace in front of a token, and what the scanner keeps
of them as it goes over whitespace and token. -/

namespace Varlink

open Regex Scanner

/-- Somewhere in the text a line ends that holds a comment. -/
def Commented (text : List Char) : Prop := ∃ e, DocEnd text e

/-- The lines of comment of a stretch of whitespace: from the line of the first one to the
end of the last one, and nothing but whitespace and comments. -/
inductive CommentsOf : List Char → List Char → Prop where
  | none {g : List Char} (none : ¬Commented g) : CommentsOf g []
  | some {a d b : List Char} (lead : a = [] ∨ a.getLast? = some '\n') (plain : '#' ∉ a)
      (lines : Framed d) (pure : Gap d) (last : ¬Commented b) : CommentsOf (a ++ (d ++ b)) d

theorem CommentsOf.gap {g d : List Char} (h : CommentsOf g d) : Gap d := by
  cases h with
  | none => exact .nil
  | some _ _ _ pure => exact pure

section Commented
variable {a b g d : List Char}

theorem commented_iff_search : ¬Commented g ↔ docstring.search g = none := by
  rw [search_docstring_eq_none_iff, Commented, not_exists]

theorem Commented.hash (h : Commented g) : '#' ∈ g := by
  obtain ⟨e, x, b, c, rfl, -⟩ := h
  simp

theorem Commented.left (h : Commented a) (b : List Char) : Commented (a ++ b) := by
  obtain ⟨e, x, u, c, rfl, line, -⟩ := h
  exact ⟨_, x, u, c ++ b, by simp, line, rfl⟩

theorem Commented.right (h : Commented b) (a : List Char) : Commented (a ++ b) := by
  obtain ⟨e, x, u, c, rfl, line, -⟩ := h
  exact ⟨_, a ++ x, u, c, by simp, line, rfl⟩

theorem Gap.commented (gap : Gap g) (hash : '#' ∈ g) : Commented g := by
  induction gap with
  | nil => cases hash
  | @blank c g blank _ ih =>
    rcases List.mem_cons.mp hash with rfl | hash
    · exact absurd blank (by decide)
    · exact (ih hash).right [c]
  | @comment body g line => exact ⟨_, [], body, g, rfl, line, rfl⟩

theorem Framed.commented (lines : Framed d) : Commented d := by
  obtain ⟨x, b, rfl, line⟩ := lines.closes
  exact ⟨_, x, b, [], rfl, line, rfl⟩

theorem commented_iff_of_commentsOf (h : CommentsOf g d) : Commented g ↔ d ≠ [] := by
  cases h with
  | none none => exact ⟨fun some => absurd some none, fun some => absurd rfl some⟩
  | some _ _ lines =>
    refine ⟨?_, fun _ => (lines.commented.left _).right _⟩
    rintro - rfl
    obtain ⟨x, b, empty, -⟩ := lines.closes
    simp at empty

theorem lead_le {a' d' b' : List Char} (lead : a' = [] ∨ a'.getLast? = some '\n')
    (plain : '#' ∉ a') (lines : Framed d) (same : a ++ (d ++ b) = a' ++ (d' ++ b')) :
    a'.length ≤ a.length := by
  by_contra longer
  obtain ⟨u, rfl⟩ : a <+: a' := by
    refine List.prefix_of_prefix_length_le (List.prefix_append a (d ++ b)) ?_ (by omega)
    rw [same]
    exact List.prefix_append a' _
  rw [List.append_assoc, List.append_cancel_left_eq] at same
  have some : u ≠ [] := by
    rintro rfl
    simp at longer
  obtain ⟨l, body, c, rfl, blank, -⟩ := lines.opens
  -- all of `u` stands on the line of the comment, in front of it
  have inside : u <+: l := by
    rw [List.append_assoc] at same
    rcases List.append_eq_append_iff.mp same with ⟨t, rfl, rest⟩ | ⟨t, rfl, -⟩
    · cases t with
      | nil => simp
      | cons x t =>
        obtain ⟨rfl, -⟩ := List.cons.inj rest
        exact absurd (by simp) plain
    · exact List.prefix_append u t
  have newline : '\n' ∈ u := by
    rcases lead with empty | last
    · simp [some] at empty
    · rw [List.getLast?_append_of_ne_nil _ some] at last
      exact List.mem_of_getLast? last
  exact absurd (blank _ (inside.subset newline)) (by decide)

theorem lines_le {d' b' : List Char} (lines : Framed d) (lines' : Framed d')
    (last : ¬Commented b) (same : d ++ b = d' ++ b') : d'.length ≤ d.length := by
  by_contra longer
  obtain ⟨u, rfl⟩ : d <+: d' := by
    refine List.prefix_of_prefix_length_le (List.prefix_append d b) ?_ (by omega)
    rw [same]
    exact List.prefix_append d' _
  have some : u ≠ [] := by
    rintro rfl
    simp at longer
  rw [List.append_assoc, List.append_cancel_left_eq] at same
  obtain ⟨x, body, closes, line⟩ := lines'.closes
  obtain ⟨y, body', rfl, -⟩ := lines.closes
  refine last (same ▸ Commented.left ?_ b')
  -- `d` ends in a line that is not the last one
  have closes' : (y ++ '#' :: body') ++ '\n' :: u = x ++ '#' :: (body ++ ['\n']) := by
    rw [← closes]
    simp
  rcases List.append_eq_append_iff.mp closes' with ⟨t, rfl, rest⟩ | ⟨t, eq, rest⟩
  · cases t with
    | nil => exact absurd (List.cons.inj rest).1 (by decide)
    | cons z t =>
      obtain ⟨rfl, rfl⟩ := List.cons.inj rest
      exact ⟨_, t, body, [], rfl, line, rfl⟩
  · cases t with
    | nil => exact absurd (List.cons.inj rest).1 (by decide)
    | cons z t =>
      have tail : body ++ ['\n'] = t ++ '\n' :: u := (List.cons.inj rest).2
      obtain rfl | ⟨v, w, rfl⟩ := List.eq_nil_or_concat u
      · exact absurd rfl some
      · have inside : body ++ ['\n'] = (t ++ '\n' :: v) ++ [w] := by rw [tail]; simp
        exact absurd (by rw [List.append_inj_left' inside rfl]; simp) line

theorem CommentsOf.split (h : CommentsOf g d) (some : d ≠ []) : ∃ a b, g = a ++ (d ++ b) ∧
    (a = [] ∨ a.getLast? = .some '\n') ∧ '#' ∉ a ∧ Framed d ∧ ¬Commented b := by
  cases h with
  | none => exact absurd rfl some
  | some lead plain lines _ last => exact ⟨_, _, rfl, lead, plain, lines, last⟩

theorem CommentsOf.unique {d' : List Char} (h : CommentsOf g d) (h' : CommentsOf g d') :
    d = d' := by
  by_cases commented : Commented g
  · obtain ⟨a, b, eq, lead, plain, lines, last⟩ :=
      h.split ((commented_iff_of_commentsOf h).mp commented)
    obtain ⟨a', b', eq', lead', plain', lines', last'⟩ :=
      h'.split ((commented_iff_of_commentsOf h').mp commented)
    have same : a ++ (d ++ b) = a' ++ (d' ++ b') := eq.symm.trans eq'
    have leads := Nat.le_antisymm (lead_le lead plain lines' same.symm)
      (lead_le lead' plain' lines same)
    obtain ⟨-, behind⟩ := List.append_inj same leads
    have sizes := Nat.le_antisymm (lines_le lines' lines last' behind.symm)
      (lines_le lines lines' last behind)
    exact (List.append_inj behind sizes).1
  · have none := mt (commented_iff_of_commentsOf h).mpr commented
    have none' := mt (commented_iff_of_commentsOf h').mpr commented
    rw [not_not.mp none, not_not.mp none']

end Commented

/-! ### What the scanner keeps -/

section Keeping
variable {desc g rest : List Char} {s : Scanner}

theorem Gap.of_line {x t : List Char} (gap : Gap (x ++ '\n' :: t)) : Gap (x ++ ['\n']) := by
  generalize whole : x ++ '\n' :: t = g at gap
  induction gap generalizing x with
  | nil => simp at whole
  | @blank c g blank _ ih =>
    cases x with
    | nil => exact .blank (by decide) .nil
    | cons _ x =>
      obtain ⟨rfl, tail⟩ := List.cons.inj whole
      exact .blank blank (ih tail)
  | @comment body g line gap ih =>
    cases x with
    | nil => exact absurd (List.cons.inj whole).1 (by decide)
    | cons _ x =>
      obtain ⟨rfl, tail⟩ := List.cons.inj whole
      rcases List.append_eq_append_iff.mp tail with ⟨u, rfl, rest⟩ | ⟨u, rfl, rest⟩
      · cases u with
        | nil =>
          rw [List.append_nil] at line
          exact .comment line .nil
        | cons _ u =>
          obtain ⟨rfl, -⟩ := List.cons.inj rest
          exact absurd (by simp) line
      · cases u with
        | nil =>
          rw [List.append_nil]
          exact .comment line .nil
        | cons _ u =>
          obtain ⟨rfl, tail'⟩ := List.cons.inj rest
          have behind := Gap.comment line (ih tail'.symm)
          rwa [List.cons_append, List.append_assoc]

theorem gap_behind {a t : List Char} (gap : Gap (a ++ t)) (plain : '#' ∉ a) : Gap t := by
  induction a with
  | nil => exact gap
  | cons c a ih =>
    generalize whole : c :: a ++ t = g at gap
    cases gap with
    | nil => cases whole
    | blank _ gap =>
      obtain ⟨rfl, rfl⟩ := List.cons.inj whole
      exact ih gap fun member => plain (List.mem_cons_of_mem c member)
    | comment =>
      obtain ⟨rfl, -⟩ := List.cons.inj whole
      exact absurd List.mem_cons_self plain

theorem Stretch.gap_lines {a d b : List Char} (stretch : Stretch g rest) (eq : g = a ++ (d ++ b))
    (plain : '#' ∉ a) (lines : Framed d) : Gap d := by
  have closed : Gap (g ++ ['\n']) := by
    cases stretch with
    | gap gap _ => exact gap.append (.blank (by decide) .nil)
    | unended gap line =>
      rw [List.append_assoc]
      exact gap.append (.comment line .nil)
  obtain ⟨x, body, rfl, -⟩ := lines.closes
  have split : g ++ ['\n'] = a ++ ((x ++ '#' :: body) ++ '\n' :: (b ++ ['\n'])) := by
    rw [eq]
    simp
  have gap := (gap_behind (split ▸ closed) plain).of_line
  rwa [List.append_assoc] at gap

theorem lead_of_search {i j : Nat} (stretch : Stretch g rest)
    (found : docstring.search g = some (i, j)) :
    (g.take i = [] ∨ (g.take i).getLast? = some '\n') ∧ '#' ∉ g.take i := by
  obtain ⟨start, -, least⟩ := search_eq_some_iff.mp found
  obtain ⟨l, body, c, opens, blank, line⟩ := blank_of_search stretch found
  constructor
  · cases i with
    | zero => exact .inl rfl
    | succ k =>
      right
      have inside : k < g.length := start
      rw [List.take_add_one, List.getElem?_eq_getElem inside, Option.toList_some,
        List.getLast?_append_of_ne_nil _ (List.cons_ne_nil _ _), List.getLast?_singleton]
      by_contra other
      have none := least k (Nat.lt_succ_self k)
      have noLine : '\n' ∉ g[k] :: l := by
        intro member
        rcases List.mem_cons.mp member with newline | member
        · exact other (by rw [newline])
        · exact absurd (blank _ member) (by decide)
      have member := (mem_run_docstring (Nat.le_of_lt inside)).mpr
        ⟨g[k] :: l, body, c, by rw [List.drop_eq_getElem_cons inside, opens]; rfl, noLine, line,
          rfl⟩
      rw [none] at member
      cases member
  · intro hash
    obtain ⟨x, y, split⟩ := List.append_of_mem hash
    have newline : '\n' ∈ y ++ g.drop i := by
      rw [opens]
      simp
    obtain ⟨u, v, ends, noLine⟩ := List.eq_append_cons_of_mem newline
    have whole : g = x ++ '#' :: (u ++ '\n' :: v) := by
      rw [← List.take_append_drop i g, split, List.append_assoc, List.cons_append, ends]
    have le : i ≤ x.length := le_of_search (whole ▸ found) noLine
    have size := congrArg List.length split
    rw [List.length_take, List.length_append, List.length_cons] at size
    omega

theorem commentsOf_collectDoc (here : desc.drop s.pos = g ++ rest) (stretch : Stretch g rest)
    (empty : s.currentDoc.size = 0) :
    CommentsOf g (View.text (collectDoc g.length g s.pos s.currentDoc) desc) := by
  rcases collectDoc_begin (Nat.le_refl g.length) empty with
    ⟨none, same⟩ | ⟨i, j, e, found, docEnd, none, same⟩
  · have nothing : View.text s.currentDoc desc = [] := by rw [View.text, empty, List.take_zero]
    rw [same, nothing]
    exact .none (commented_iff_search.mpr none)
  · have within := docEnd.take.1
    have after := lt_docEnd_of_search found docEnd
    have lines := framed_begin here stretch found docEnd
    obtain ⟨lead, plain⟩ := lead_of_search stretch found
    rw [text_of_stretch here (Nat.le_of_lt after) within] at lines
    rw [same, text_of_stretch here (Nat.le_of_lt after) within]
    have first : (g.take e).take i = g.take i := by
      rw [List.take_take, Nat.min_eq_left (Nat.le_of_lt after)]
    have split : g = g.take i ++ ((g.take e).drop i ++ g.drop e) := by
      rw [← List.append_assoc, ← first, List.take_append_drop, List.take_append_drop]
    have pure := stretch.gap_lines split plain lines
    have comments := CommentsOf.some lead plain lines pure (commented_iff_search.mpr none)
    rwa [← split] at comments

end Keeping

structure Stride (desc : List Char) (s : Scanner) (g tok : List Char) (s' : Scanner) : Prop where
  here : desc.drop s.pos = g ++ (tok ++ desc.drop s'.pos)
  stretch : Stretch g (tok ++ desc.drop s'.pos)
  plain : '#' ∉ tok
  eq : s' = s.past g tok

section Strides
variable {desc g tok : List Char} {s s' : Scanner}

theorem stride_of_expectRe {patterns : List (Regex Char)}
    (h : expectRe desc patterns s = .ok (tok, s')) (plain : '#' ∉ tok) :
    ∃ g, Stride desc s g tok s' := by
  obtain ⟨g, rest, here, stretch⟩ := exists_stretch (desc.drop s.pos)
  rcases of_expectRe here stretch h with ⟨rfl, rfl, rfl⟩ | ⟨after, rfl, -, -, rfl⟩
  · have ends : desc.drop (s.past g []).pos = [] := drop_past here
    refine ⟨g, ?_, ?_, plain, rfl⟩
    · rw [ends]
      exact here
    · rw [ends]
      exact stretch
  · have behind : desc.drop (s.past g tok).pos = after := drop_past here
    refine ⟨g, ?_, ?_, plain, rfl⟩
    · rw [behind]
      exact here
    · rw [behind]
      exact stretch

theorem length_text (h : Sound desc s) : (s.currentDoc.text desc).length = s.currentDoc.size := by
  have bound := h.bound
  rw [View.text, List.length_take, List.length_drop]
  rcases h.doc with empty | ⟨inside, -⟩ <;> omega

namespace Stride

theorem sound (h : Stride desc s g tok s') (sound : Sound desc s) : Sound desc s' :=
  h.eq ▸ sound.past h.here h.stretch rfl

theorem kept (h : Stride desc s g tok s') (none : ¬Commented g) : s'.currentDoc = s.currentDoc := by
  have search := commented_iff_search.mp none
  rw [h.eq]
  show collectDoc g.length g s.pos s.currentDoc = _
  cases g with
  | nil => rfl
  | cons c g => rw [List.length_cons, collectDoc, search]

theorem extended (h : Stride desc s g tok s') (sound : Sound desc s) (some : s.currentDoc.size ≠ 0)
    (commented : Commented g) : ∃ e, DocEnd g e ∧ docstring.search (g.drop e) = none ∧
      s'.currentDoc = ⟨s.currentDoc.data, s.pos + e - s.currentDoc.data⟩ := by
  have inside := (sound.doc.resolve_left some).1
  rw [h.eq]
  rcases collectDoc_extend s.pos s.currentDoc (Nat.le_refl g.length) some
      fun i j _ => by omega with ⟨none, -⟩ | extended
  · exact absurd commented (commented_iff_search.mpr none)
  · exact extended

theorem comments (h : Stride desc s g tok s') (empty : s.currentDoc.size = 0) :
    CommentsOf g (s'.currentDoc.text desc) := by
  rw [h.eq]
  exact commentsOf_collectDoc h.here h.stretch empty

theorem grows (h : Stride desc s g tok s') (sound : Sound desc s) (commented : Commented g) :
    s.currentDoc.size < s'.currentDoc.size := by
  by_cases empty : s.currentDoc.size = 0
  · have some := (commented_iff_of_commentsOf (h.comments empty)).mp commented
    have length := length_text (h.sound sound)
    have positive := List.length_pos_iff.mpr some
    omega
  · have inside := (sound.doc.resolve_left empty).1
    obtain ⟨e, ⟨x, b, c, -, -, ends⟩, -, same⟩ := h.extended sound empty commented
    rw [same]
    show _ < s.pos + e - s.currentDoc.data
    omega

theorem le (h : Stride desc s g tok s') (sound : Sound desc s) :
    s.currentDoc.size ≤ s'.currentDoc.size := by
  by_cases commented : Commented g
  · exact Nat.le_of_lt (h.grows sound commented)
  · rw [h.kept commented]

theorem longer {d : List Char} (h : Stride desc s g tok s') (sound : Sound desc s)
    (some : s.currentDoc.size ≠ 0) (comments : CommentsOf g d) : d.length < s'.currentDoc.size := by
  by_cases commented : Commented g
  · have inside := (sound.doc.resolve_left some).1
    obtain ⟨e, docEnd, none, same⟩ := h.extended sound some commented
    obtain ⟨a, b, split, -, -, lines, -⟩ :=
      comments.split ((commented_iff_of_commentsOf comments).mp commented)
    obtain ⟨x, body, rfl, line⟩ := lines.closes
    have last : DocEnd g (a.length + (x ++ '#' :: (body ++ ['\n'])).length) :=
      ⟨a ++ x, body, b, by rw [split]; simp, line, by simp; omega⟩
    have within := docEnd_le docEnd none last
    rw [same]
    show _ < s.pos + e - s.currentDoc.data
    omega
  · have nothing := mt (commented_iff_of_commentsOf comments).mpr commented
    rw [not_not.mp nothing, h.kept commented]
    exact Nat.pos_of_ne_zero some

end Stride

end Strides

end Varlink
