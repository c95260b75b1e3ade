import Varlink.MemberScan

/-! A slice that holds more than whitespace and comments, in front of the keyword that
is printed behind it. Where the scanner would keep the same slice again, it stands at
this keyword when it looks for a name. -/

namespace Varlink

open Regex Scanner

theorem Gap.behind_newline {g a t : List Char} {c : Char} (gap : Gap g)
    (eq : g = a ++ '\n' :: c :: t) : c ∈ '#' :: blanks := by
  have head {g : List Char} (gap : Gap g) (eq : g = c :: t) : c ∈ '#' :: blanks := by
    cases gap with
    | nil => cases eq
    | blank blank =>
      cases eq
      exact List.mem_cons_of_mem '#' blank
    | comment =>
      cases eq
      exact List.mem_cons_self
  induction gap generalizing a with
  | nil => simp at eq
  | @blank d g blank rest ih =>
    cases a with
    | nil => exact head rest (List.cons.inj eq).2
    | cons _ a => exact ih (List.cons.inj eq).2
  | @comment body g line rest ih =>
    cases a with
    | nil => exact absurd (List.cons.inj eq).1 (by decide)
    | cons _ a =>
      have tail := (List.cons.inj eq).2
      rcases List.append_eq_append_iff.mp tail with ⟨b, rfl, split⟩ | ⟨b, rfl, split⟩
      · cases b with
        | nil => exact head rest (List.cons.inj split).2
        | cons _ b => exact ih (List.cons.inj split).2
      · cases b with
        | nil => exact head rest (List.cons.inj split).2.symm
        | cons d b =>
          obtain ⟨rfl, -⟩ := List.cons.inj split
          exact absurd (by simp) line

theorem Stretch.behind_newline {g rest a t : List Char} {c : Char} (stretch : Stretch g rest)
    (eq : g = a ++ '\n' :: c :: t) : c ∈ '#' :: blanks := by
  cases stretch with
  | gap gap _ => exact gap.behind_newline eq
  | @unended g body gap line =>
    refine (gap.append (.comment line .nil)).behind_newline (a := a) (t := t ++ ['\n']) ?_
    have closed := congrArg (· ++ ['\n']) eq
    simpa using closed

variable {desc p d : List Char} {s : Scanner}

theorem newline_mem_of_framed {a u : List Char} (framed : Framed d) (eq : d = a ++ u)
    (some : u ≠ []) : '\n' ∈ u := by
  obtain ⟨x, b, closes, -⟩ := framed.closes
  obtain rfl | ⟨u, z, rfl⟩ := List.eq_nil_or_concat u
  · exact absurd rfl some
  · rw [List.concat_eq_append] at eq ⊢
    have ends : (x ++ '#' :: b) ++ ['\n'] = (a ++ u) ++ [z] := by
      rw [List.append_assoc a, ← eq, closes]
      simp
    obtain rfl : '\n' = z := List.singleton_inj.mp (List.append_inj_right' ends rfl)
    simp

theorem exists_pure_part (framed : Framed d) (mixed : ¬Gap d) :
    ∃ l b w c r, d = (l ++ '#' :: (b ++ '\n' :: w)) ++ c :: r ∧ (∀ x ∈ l, x ∈ [' ', '\t']) ∧
      '\n' ∉ b ∧ Gap (l ++ '#' :: (b ++ '\n' :: w)) ∧ c ∉ '#' :: blanks := by
  obtain ⟨l, b, t, eq, blank, line⟩ := framed.opens
  have blanks_ : Gap l := gap_of_blanks fun x member => by
    have := blank x member
    simp only [List.mem_cons, List.not_mem_nil, or_false] at this
    rcases this with rfl | rfl <;> decide
  obtain ⟨w, rest, split, stretch⟩ := exists_stretch t
  cases stretch with
  | gap gap stops =>
    have pure : Gap (l ++ '#' :: (b ++ '\n' :: w)) := blanks_.append (.comment line gap)
    cases rest with
    | nil =>
      rw [List.append_nil] at split
      exact absurd (by rw [eq, split]; exact pure) mixed
    | cons c r =>
      have whole : d = (l ++ '#' :: (b ++ '\n' :: w)) ++ c :: r := by rw [eq, split]; simp
      exact ⟨l, b, w, c, r, whole, blank, line, pure, stops_cons.mp stops⟩
  | @unended g body gap line' =>
    have member := newline_mem_of_framed (a := l ++ '#' :: (b ++ '\n' :: g)) framed
      (by rw [eq, split]; simp) (List.cons_ne_nil '#' body)
    rcases List.mem_cons.mp member with hash | newline
    · exact absurd hash (by decide)
    · exact absurd newline line'

theorem keyword_inside {tok tail : List Char} {c : Char} {s₁ : Scanner} (framed : Framed d)
    (mixed : ¬Gap d) (newlines : ∀ x ∈ p, x = '\n') (empty : s.currentDoc.size = 0)
    (here : desc.drop s.pos = p ++ (d ++ c :: tail))
    (readKeyword : expectRe desc [keywordPattern] s = .ok (tok, s₁)) (noLine : '\n' ∉ tok) :
    ∃ read left size, d = read ++ left ∧ s₁.pos = s.pos + p.length + read.length ∧
      desc.drop s₁.pos = left ++ c :: tail ∧ s₁.currentDoc = ⟨s.pos + p.length, size⟩ ∧
      0 < size ∧ size < read.length := by
  obtain ⟨l, b, w, e, r, eq, blank, line, pure, other⟩ := exists_pure_part framed mixed
  generalize first : l ++ '#' :: (b ++ '\n' :: w) = v at eq pure
  have here' : desc.drop s.pos = (p ++ v) ++ (e :: (r ++ c :: tail)) := by rw [here, eq]; simp
  rcases of_expectRe here' (.gap ((gap_of_newlines newlines).append pure) (stops_cons.mpr other))
    readKeyword with ⟨ends, -⟩ | ⟨after, split, some, -, rfl⟩
  · cases ends
  -- the keyword ends inside of the slice, too
  obtain ⟨left, rest⟩ : ∃ left, e :: r = tok ++ left := by
    have split' : (e :: r) ++ c :: tail = tok ++ after := by rw [← split]; simp
    rcases List.append_eq_append_iff.mp split' with ⟨u, longer, -⟩ | ⟨u, shorter, -⟩
    · have member := newline_mem_of_framed framed eq (List.cons_ne_nil e r)
      exact absurd (by rw [longer]; exact List.mem_append_left u member) noLine
    · exact ⟨u, shorter⟩
  obtain ⟨j, found⟩ := search_newlines newlines first.symm blank line
  rcases collectDoc_begin (Nat.le_refl (p ++ v).length) empty with
    ⟨absent, -⟩ | ⟨i, j', kept, found', docEnd, -, same⟩
  · cases absent.symm.trans found
  cases found.symm.trans found'
  have bound := docEnd.take.1
  rw [List.length_append] at bound
  have start := lt_docEnd_of_search found docEnd
  have keyword := List.length_pos_iff.mpr some
  refine ⟨v ++ tok, left, kept - p.length, ?_, ?_, ?_, same, by omega, ?_⟩
  · rw [eq, rest, List.append_assoc]
  · show s.pos + (p ++ v).length + tok.length = _
    rw [List.length_append, List.length_append]
    omega
  · refine drop_past ?_
    rw [here', ← List.cons_append, rest, List.append_assoc tok]
  · rw [List.length_append]
    omega

theorem text_ne_of_mixed {tok name tail : List Char} {c : Char} {pattern : Regex Char}
    {s₁ s₂ : Scanner} (framed : Framed d) (mixed : ¬Gap d) (newlines : ∀ x ∈ p, x = '\n')
    (empty : s.currentDoc.size = 0) (here : desc.drop s.pos = p ++ (d ++ c :: tail))
    (stops : c ∉ '#' :: blanks) (none : matched [pattern] (c :: tail) = 0)
    (readKeyword : expectRe desc [keywordPattern] s = .ok (tok, s₁)) (noLine : '\n' ∉ tok)
    (readName : expectRe desc [pattern] s₁ = .ok (name, s₂)) : s₂.currentDoc.text desc ≠ d := by
  obtain ⟨read, left, size, split, pos, here₁, slice₁, some, inside⟩ :=
    keyword_inside framed mixed newlines empty here readKeyword noLine
  have length := congrArg List.length split
  rw [List.length_append] at length
  have behind : desc.drop (s.pos + p.length) = d ++ c :: tail := by
    rw [← List.drop_drop, here, List.drop_left]
  have whole {n : Nat} (text : View.text ⟨s.pos + p.length, n⟩ desc = d) : n = d.length := by
    have taken := congrArg List.length text
    rw [View.text, behind, List.length_take, List.length_append, List.length_cons] at taken
    change min n _ = _ at taken
    omega
  obtain ⟨g, rest, split₁, stretch⟩ := exists_stretch (left ++ c :: tail)
  rw [split₁] at here₁
  have slice₂ : s₂.currentDoc = collectDoc g.length g s₁.pos s₁.currentDoc := by
    rcases of_expectRe here₁ stretch readName with ⟨-, -, rfl⟩ | ⟨after, -, -, -, rfl⟩ <;> rfl
  have noName : rest ≠ c :: tail := by
    rintro rfl
    rcases of_expectRe here₁ stretch readName with ⟨ends, -⟩ | ⟨after, name_, nonempty, found, -⟩
    · cases ends
    · rw [← name_, none] at found
      exact nonempty (List.length_eq_zero_iff.mp found.symm)
  intro text
  rcases collectDoc_extend s₁.pos s₁.currentDoc (Nat.le_refl g.length)
      (by rw [slice₁]; exact Nat.ne_of_gt some)
      (fun i j _ => by rw [slice₁, pos]; exact Nat.le_add_right_of_le (Nat.le_add_right _ _)) with
    ⟨-, same⟩ | ⟨kept, docEnd, -, same⟩
  · rw [slice₂, same, slice₁] at text
    have total := whole text
    omega
  · -- the same slice again would have to end where the keyword is printed
    rw [slice₂, same, slice₁, pos] at text
    have total := whole text
    have ends : kept = left.length := by
      simp only at total
      omega
    obtain ⟨within, x, b, -, -, take, -⟩ := docEnd.take
    rw [ends] at within take
    rcases List.append_eq_append_iff.mp split₁ with ⟨u, longer, shorter⟩ | ⟨u, longer, shorter⟩
    · cases u with
      | nil => exact noName shorter.symm
      | cons c' u =>
        obtain ⟨rfl, -⟩ := List.cons.inj shorter
        rw [longer, List.take_left] at take
        have line : g = (x ++ '#' :: b) ++ '\n' :: c :: u := by rw [longer, take]; simp
        exact stops (stretch.behind_newline line)
    · have nothing : u = [] := List.length_eq_zero_iff.mp (by
        rw [longer, List.length_append] at within
        omega)
      rw [nothing] at shorter
      exact noName shorter

end Varlink
