import Varlink.Whitespace

/-! The slice that the scanner keeps of the comments it skips: from the line of the
first comment to the end of the last one, whatever stands between them. -/

namespace Varlink

open Regex

def DocEnd (s : List Char) (e : Nat) : Prop :=
  ∃ x b c, s = x ++ '#' :: (b ++ '\n' :: c) ∧ '\n' ∉ b ∧ e = x.length + b.length + 2

theorem mem_run_notNewline {w : List Char} {i j : Nat} (start : i ≤ w.length) :
    j ∈ (star notNewline).run w i ↔
      ∃ y x, w.drop i = y ++ x ∧ '\n' ∉ y ∧ j = i + y.length := by
  have line (y : List Char) : (∀ c ∈ y, (c != '\n') = true) ↔ '\n' ∉ y := by
    constructor
    · intro all member
      simpa using all _ member
    · intro none c member
      rw [bne_iff_ne]
      rintro rfl
      exact none member
  rw [notNewline, mem_run_star_one start]
  simp only [line]

theorem mem_run_docstring {w : List Char} {i j : Nat} (start : i ≤ w.length) :
    j ∈ docstring.run w i ↔ ∃ l b c, w.drop i = l ++ '#' :: (b ++ '\n' :: c) ∧ '\n' ∉ l ∧
      '\n' ∉ b ∧ j = i + l.length + b.length + 2 := by
  have inside {k : Nat} {y : List Char} (here : w.drop k = y) (some : y ≠ []) : k ≤ w.length := by
    by_contra beyond
    exact some (here ▸ List.drop_eq_nil_of_le (by omega))
  constructor
  · intro ends
    simp only [docstring, mem_run_seq, opt, anyOf, mem_run_alt, mem_run_look] at ends
    obtain ⟨k, first, m, hash, n, second, r, return_, newline⟩ := ends
    obtain ⟨l, x, here, noLine, rfl⟩ := (mem_run_notNewline start).mp first
    obtain ⟨c, y, atHash, isHash, rfl⟩ := mem_run_one_drop.mp hash
    obtain rfl : c = '#' := by simpa using isHash
    have behind : w.drop (i + l.length + 1) = y := by rw [← List.drop_drop, atHash]; rfl
    have bound := le_length_of_mem_run hash (inside atHash (by simp))
    obtain ⟨b, z, here', noLine', rfl⟩ := (mem_run_notNewline bound).mp second
    have behind' := drop_add_of_drop here'
    obtain ⟨d, u, atNewline, isNewline, rfl⟩ := mem_run_one_drop.mp newline
    obtain rfl : d = '\n' := by simpa using isNewline
    have eq : w.drop i = l ++ '#' :: y := by
      rw [here, ← drop_add_of_drop here, atHash]
    rcases return_ with return_ | ⟨rfl, -⟩
    · obtain ⟨d, v, atReturn, isReturn, rfl⟩ := mem_run_one_drop.mp return_
      obtain rfl : d = '\r' := by simpa using isReturn
      obtain rfl : z = '\r' :: v := behind'.symm.trans atReturn
      have next : v = '\n' :: u := by
        rw [← atNewline, ← List.drop_drop, behind']
        rfl
      refine ⟨l, b ++ ['\r'], u, ?_, noLine, by simpa using noLine', ?_⟩
      · rw [eq, ← behind, here', next]
        simp
      · rw [List.length_append, List.length_singleton]
        omega
    · obtain rfl : z = '\n' :: u := behind'.symm.trans atNewline
      refine ⟨l, b, u, ?_, noLine, noLine', by omega⟩
      rw [eq, ← behind, here']
  · rintro ⟨l, b, c, here, noLine, noLine', rfl⟩
    have atHash : w.drop (i + l.length) = '#' :: (b ++ '\n' :: c) := drop_add_of_drop here
    have behind : w.drop (i + l.length + 1) = b ++ '\n' :: c := by
      rw [← List.drop_drop, atHash]
      rfl
    have atNewline := drop_add_of_drop behind
    simp only [docstring, mem_run_seq, opt, anyOf, mem_run_alt, mem_run_look]
    refine ⟨i + l.length, ?_, i + l.length + 1, ?_, i + l.length + 1 + b.length, ?_,
      i + l.length + 1 + b.length, .inr ⟨rfl, trivial⟩, ?_⟩
    · exact (mem_run_notNewline start).mpr ⟨l, _, here, noLine, rfl⟩
    · exact mem_run_one_drop.mpr ⟨_, _, atHash, rfl, rfl⟩
    · exact (mem_run_notNewline (inside behind (by simp))).mpr ⟨b, _, behind, noLine', rfl⟩
    · exact mem_run_one_drop.mpr ⟨_, _, atNewline, rfl, by omega⟩

theorem docEnd_of_mem_run {w : List Char} {i j : Nat} (start : i ≤ w.length)
    (h : j ∈ docstring.run w i) : DocEnd w j := by
  obtain ⟨l, b, c, here, -, noLine, rfl⟩ := (mem_run_docstring start).mp h
  refine ⟨w.take i ++ l, b, c, ?_, noLine, ?_⟩
  · rw [List.append_assoc, ← here, List.take_append_drop]
  · rw [List.length_append, List.length_take, Nat.min_eq_left start]

theorem mem_run_docstring_at {x b c : List Char} (noLine : '\n' ∉ b) :
    x.length + b.length + 2 ∈ docstring.run (x ++ '#' :: (b ++ '\n' :: c)) x.length :=
  (mem_run_docstring (by simp)).mpr ⟨[], b, c, List.drop_left, List.not_mem_nil, noLine, rfl⟩

theorem DocEnd.take {s : List Char} {e : Nat} (h : DocEnd s e) :
    e ≤ s.length ∧ ∃ x b c, s = x ++ '#' :: (b ++ '\n' :: c) ∧
      s.take e = x ++ '#' :: (b ++ ['\n']) ∧ '\n' ∉ b := by
  obtain ⟨x, b, c, rfl, noLine, rfl⟩ := h
  have split : x ++ '#' :: (b ++ '\n' :: c) = (x ++ '#' :: (b ++ ['\n'])) ++ c := by simp
  have end_ : x.length + b.length + 2 = (x ++ '#' :: (b ++ ['\n'])).length := by
    simp [Nat.add_assoc]
  refine ⟨?_, x, b, c, rfl, ?_, noLine⟩
  · rw [split, List.length_append, end_]
    exact Nat.le_add_right _ _
  · rw [split, end_, List.take_left]

theorem search_docstring_eq_none_iff {s : List Char} :
    docstring.search s = none ↔ ∀ e, ¬DocEnd s e := by
  rw [search_eq_none_iff]
  constructor
  · rintro none e ⟨x, b, c, rfl, noLine, rfl⟩
    have member := mem_run_docstring_at (x := x) (c := c) noLine
    rw [none x.length (by simp)] at member
    cases member
  · intro none i start
    refine List.eq_nil_iff_forall_not_mem.mpr fun j member => ?_
    exact none j (docEnd_of_mem_run start member)

theorem DocEnd.of_drop {s : List Char} {k e : Nat} (start : k ≤ s.length)
    (h : DocEnd (s.drop k) e) : DocEnd s (k + e) := by
  obtain ⟨x, b, c, eq, noLine, rfl⟩ := h
  refine ⟨s.take k ++ x, b, c, ?_, noLine, ?_⟩
  · rw [List.append_assoc, ← eq, List.take_append_drop]
  · rw [List.length_append, List.length_take, Nat.min_eq_left start]
    omega

theorem run_docstring_drop {s : List Char} {k i : Nat} (start : k + i ≤ s.length) :
    docstring.run (s.drop k) i = [] ↔ docstring.run s (k + i) = [] := by
  have start' : i ≤ (s.drop k).length := by
    rw [List.length_drop]
    omega
  simp only [List.eq_nil_iff_forall_not_mem, mem_run_docstring start, mem_run_docstring start',
    List.drop_drop]
  constructor
  · rintro none j ⟨l, b, c, here, noLine, noLine', -⟩
    exact none _ ⟨l, b, c, here, noLine, noLine', rfl⟩
  · rintro none j ⟨l, b, c, here, noLine, noLine', -⟩
    exact none _ ⟨l, b, c, here, noLine, noLine', rfl⟩

theorem lt_of_search_docstring {s : List Char} {i j : Nat} (h : docstring.search s = some (i, j)) :
    i ≤ s.length ∧ i + 2 ≤ j ∧ j ≤ s.length := by
  obtain ⟨start, ends, -⟩ := search_eq_some_iff.mp h
  have member := List.mem_of_head? ends
  obtain ⟨l, b, c, -, -, -, rfl⟩ := (mem_run_docstring start).mp member
  exact ⟨start, by omega, le_length_of_mem_run member start⟩

theorem le_of_search_drop {s : List Char} {i j k i' j' : Nat}
    (found : docstring.search s = some (i, j)) (bound : k ≤ s.length)
    (found' : docstring.search (s.drop k) = some (i', j')) : i ≤ k + i' := by
  obtain ⟨-, -, least⟩ := search_eq_some_iff.mp found
  obtain ⟨start', ends', -⟩ := search_eq_some_iff.mp found'
  rw [List.length_drop] at start'
  by_contra before
  rw [(run_docstring_drop (by omega)).mpr (least _ (by omega))] at ends'
  cases ends'

theorem le_of_search {x b c : List Char} {i j : Nat}
    (found : docstring.search (x ++ '#' :: (b ++ '\n' :: c)) = some (i, j)) (noLine : '\n' ∉ b) :
    i ≤ x.length := by
  obtain ⟨-, -, least⟩ := search_eq_some_iff.mp found
  by_contra before
  have member := mem_run_docstring_at (x := x) (c := c) noLine
  rw [least x.length (by omega)] at member
  cases member

theorem lt_docEnd_of_search {s : List Char} {i j e : Nat}
    (found : docstring.search s = some (i, j)) (docEnd : DocEnd s e) : i < e := by
  obtain ⟨x, b, c, rfl, noLine, rfl⟩ := docEnd
  have := le_of_search found noLine
  omega

theorem search_drop_none {s : List Char} {k m : Nat} (le : k ≤ m) (bound : m ≤ s.length)
    (none : docstring.search (s.drop k) = none) : docstring.search (s.drop m) = .none := by
  have split : s.drop m = (s.drop k).drop (m - k) := by
    rw [List.drop_drop]
    congr 1
    omega
  rw [search_docstring_eq_none_iff] at none ⊢
  intro e docEnd
  rw [split] at docEnd
  exact none _ (docEnd.of_drop (by rw [List.length_drop]; omega))

theorem collectDoc_extend {n : Nat} {s : List Char} (data : Nat) (doc : View)
    (enough : s.length ≤ n) (nonempty : doc.size ≠ 0)
    (behind : ∀ i j, docstring.search s = some (i, j) → doc.data ≤ data + i) :
    docstring.search s = none ∧ collectDoc n s data doc = doc ∨
      ∃ e, DocEnd s e ∧ docstring.search (s.drop e) = none ∧
        collectDoc n s data doc = ⟨doc.data, data + e - doc.data⟩ := by
  induction n generalizing s data doc with
  | zero =>
    obtain rfl : s = [] := List.length_eq_zero_iff.mp (by omega)
    exact .inl ⟨rfl, rfl⟩
  | succ n ih =>
    rw [collectDoc]
    cases found : docstring.search s with
    | none => exact .inl ⟨rfl, rfl⟩
    | some ends =>
      obtain ⟨i, j⟩ := ends
      obtain ⟨start, ends, -⟩ := search_eq_some_iff.mp found
      obtain ⟨-, progress, bound⟩ := lt_of_search_docstring found
      have first := behind i j found
      have size : (data + i - doc.data) + (j - i) = data + j - doc.data := by omega
      simp only [if_neg nonempty, size]
      right
      have next := ih (s := s.drop (j - i)) (data + (j - i)) ⟨doc.data, data + j - doc.data⟩
        (by rw [List.length_drop]; omega)
        (by show data + j - doc.data ≠ 0; omega) fun i' j' found' => by
          have := le_of_search_drop found (by omega) found'
          show doc.data ≤ _
          omega
      rcases next with ⟨none, same⟩ | ⟨e, docEnd, none, same⟩
      · exact ⟨j, docEnd_of_mem_run start (List.mem_of_head? ends),
          search_drop_none (by omega) bound none, same⟩
      · refine ⟨j - i + e, docEnd.of_drop (by omega), by rwa [← List.drop_drop], ?_⟩
        rw [same, Nat.add_assoc]

theorem collectDoc_begin {n data : Nat} {s : List Char} {doc : View} (enough : s.length ≤ n)
    (empty : doc.size = 0) :
    docstring.search s = none ∧ collectDoc n s data doc = doc ∨
      ∃ i j e, docstring.search s = some (i, j) ∧ DocEnd s e ∧
        docstring.search (s.drop e) = none ∧
        collectDoc n s data doc = ⟨data + i, e - i⟩ := by
  cases n with
  | zero =>
    obtain rfl : s = [] := List.length_eq_zero_iff.mp (by omega)
    exact .inl ⟨rfl, rfl⟩
  | succ n =>
    rw [collectDoc]
    cases found : docstring.search s with
    | none => exact .inl ⟨rfl, rfl⟩
    | some ends =>
      obtain ⟨i, j⟩ := ends
      obtain ⟨start, ends, -⟩ := search_eq_some_iff.mp found
      obtain ⟨-, progress, bound⟩ := lt_of_search_docstring found
      simp only [if_pos empty]
      right
      have next := collectDoc_extend (n := n) (s := s.drop (j - i)) (data + (j - i))
        ⟨data + i, j - i⟩ (by rw [List.length_drop]; omega)
        (by show j - i ≠ 0; omega) fun i' j' found' => by
          have := le_of_search_drop found (by omega) found'
          show data + i ≤ _
          omega
      rcases next with ⟨none, same⟩ | ⟨e, docEnd, none, same⟩
      · exact ⟨i, j, j, rfl, docEnd_of_mem_run start (List.mem_of_head? ends),
          search_drop_none (by omega) bound none, same⟩
      · have docEnd' := docEnd.of_drop (by omega)
        have := lt_docEnd_of_search found docEnd'
        refine ⟨i, j, j - i + e, rfl, docEnd', by rwa [← List.drop_drop], ?_⟩
        rw [same]
        congr 1
        show data + (j - i) + e - (data + i) = j - i + e - i
        omega

/-- A text that begins and ends with a line of comment, or nothing at all. -/
structure Framed (d : List Char) : Prop where
  opens : ∃ l b c, d = l ++ '#' :: (b ++ '\n' :: c) ∧ (∀ x ∈ l, x ∈ [' ', '\t']) ∧ '\n' ∉ b
  closes : ∃ x b, d = x ++ '#' :: (b ++ ['\n']) ∧ '\n' ∉ b

theorem search_docstring_zero {s l b c : List Char} (eq : s = l ++ '#' :: (b ++ '\n' :: c))
    (noLine : '\n' ∉ l) (noLine' : '\n' ∉ b) :
    ∃ j, docstring.search s = some (0, j) := by
  have member : l.length + b.length + 2 ∈ docstring.run s 0 :=
    (mem_run_docstring (Nat.zero_le _)).mpr ⟨l, b, c, eq, noLine, noLine', by omega⟩
  cases ends : (docstring.run s 0).head? with
  | none =>
    rw [List.head?_eq_none_iff.mp ends] at member
    cases member
  | some j => exact ⟨j, search_eq_some_iff.mpr ⟨Nat.zero_le _, ends, nofun⟩⟩

theorem search_docstring_cons {s : List Char} {c : Char} {i j : Nat}
    (found : docstring.search (c :: s) = some (i + 1, j)) :
    ∃ j', docstring.search s = some (i, j') := by
  obtain ⟨start, ends, least⟩ := search_eq_some_iff.mp found
  simp only [List.length_cons] at start
  have shift (k : Nat) (start : k ≤ s.length) :
      docstring.run s k = [] ↔ docstring.run (c :: s) (k + 1) = [] := by
    rw [Nat.add_comm k 1, ← run_docstring_drop (by simp only [List.length_cons]; omega)]
    rfl
  cases ends' : (docstring.run s i).head? with
  | none =>
    rw [(shift i (by omega)).mp (List.head?_eq_none_iff.mp ends')] at ends
    cases ends
  | some j' =>
    refine ⟨j', search_eq_some_iff.mpr ⟨by omega, ends', fun k lt => ?_⟩⟩
    exact (shift k (by omega)).mpr (least (k + 1) (by omega))

theorem blank_of_search {g rest : List Char} {i j : Nat} (stretch : Stretch g rest)
    (found : docstring.search g = some (i, j)) :
    ∃ l b c, g.drop i = l ++ '#' :: (b ++ '\n' :: c) ∧ (∀ x ∈ l, x ∈ [' ', '\t']) ∧ '\n' ∉ b := by
  -- the same with or without a comment that the end of the text leaves open
  have gap {g t : List Char} {i j : Nat} (gap : Gap g) (last : docstring.search t = none)
      (found : docstring.search (g ++ t) = some (i, j)) :
      ∃ l b c, (g ++ t).drop i = l ++ '#' :: (b ++ '\n' :: c) ∧ (∀ x ∈ l, x ∈ [' ', '\t']) ∧
        '\n' ∉ b := by
    induction gap generalizing i j with
    | nil => cases last.symm.trans found
    | @blank c g blank _ ih =>
      cases i with
      | succ i =>
        obtain ⟨j', found'⟩ := search_docstring_cons found
        exact ih found'
      | zero =>
        obtain ⟨start, ends, -⟩ := search_eq_some_iff.mp found
        obtain ⟨l, b, r, here, noLine, noLine', -⟩ :=
          (mem_run_docstring start).mp (List.mem_of_head? ends)
        cases l with
        | nil =>
          obtain ⟨rfl, -⟩ := List.cons.inj here
          exact absurd blank (by decide)
        | cons d l =>
          obtain ⟨rfl, tail⟩ := List.cons.inj here
          obtain ⟨j', found'⟩ := search_docstring_zero tail
            (fun member => noLine (List.mem_cons_of_mem c member)) noLine'
          obtain ⟨l', b', r', here', blank', noLine''⟩ := ih found'
          refine ⟨c :: l', b', r', congrArg (c :: ·) here', ?_, noLine''⟩
          intro x member
          rcases List.mem_cons.mp member with rfl | member
          · have : x ≠ '\n' := fun eq => noLine (eq ▸ List.mem_cons_self)
            simp_all [blanks]
          · exact blank' x member
    | @comment body g line _ _ =>
      have eq : '#' :: (body ++ '\n' :: g) ++ t = [] ++ '#' :: (body ++ '\n' :: (g ++ t)) := by simp
      obtain ⟨j', found'⟩ := search_docstring_zero eq List.not_mem_nil line
      cases found.symm.trans found'
      exact ⟨[], body, g ++ t, eq, nofun, line⟩
  cases stretch with
  | gap h _ =>
    have := gap (t := []) h (by decide) (by rwa [List.append_nil])
    rwa [List.append_nil] at this
  | @unended g body h line =>
    refine gap h ?_ found
    rw [search_docstring_eq_none_iff]
    rintro e ⟨x, b, c, eq, -, -⟩
    refine absurd (?_ : '\n' ∈ '#' :: body) (by simpa using line)
    rw [eq]
    simp

theorem collectDoc_of_plain {g : List Char} (plain : '#' ∉ g) (n data : Nat) (doc : View) :
    collectDoc n g data doc = doc := by
  cases n with
  | zero => rfl
  | succ n =>
    have none : docstring.search g = none := by
      rw [search_docstring_eq_none_iff]
      rintro e ⟨x, b, c, rfl, -, -⟩
      exact plain (by simp)
    rw [collectDoc, none]

theorem search_newlines {p d l b c : List Char} (newlines : ∀ x ∈ p, x = '\n')
    (eq : d = l ++ '#' :: (b ++ '\n' :: c)) (blank : ∀ x ∈ l, x ∈ [' ', '\t'])
    (noLine : '\n' ∉ b) : ∃ j, docstring.search (p ++ d) = some (p.length, j) := by
  have noLine' : '\n' ∉ l := fun member => absurd (blank _ member) (by decide)
  have member := mem_run_docstring (w := p ++ d) (i := p.length) (by simp) |>.mpr
    ⟨l, b, c, by rw [List.drop_left, eq], noLine', noLine, rfl⟩
  cases ends : (docstring.run (p ++ d) p.length).head? with
  | none =>
    rw [List.head?_eq_none_iff.mp ends] at member
    cases member
  | some j =>
    refine ⟨j, search_eq_some_iff.mpr ⟨by simp, ends, fun k lt => ?_⟩⟩
    rw [List.eq_nil_iff_forall_not_mem]
    intro m member
    obtain ⟨l', b', c', here, noLine, -, -⟩ :=
      (mem_run_docstring (by simp only [List.length_append]; omega)).mp member
    have head : (p ++ d)[k]? = some '\n' := by
      rw [List.getElem?_append_left lt, List.getElem?_eq_getElem lt,
        newlines _ (List.getElem_mem lt)]
    rw [← List.head?_drop, here] at head
    cases l' with
    | nil => simp at head
    | cons x l' =>
      cases head
      exact noLine List.mem_cons_self

theorem docEnd_le {s : List Char} {e e' : Nat} (docEnd : DocEnd s e)
    (none : docstring.search (s.drop e) = none) (docEnd' : DocEnd s e') : e' ≤ e := by
  obtain ⟨x, b, c, rfl, noLine, rfl⟩ := docEnd'
  by_contra before
  by_cases inside : e ≤ x.length
  · refine (search_docstring_eq_none_iff.mp none) _ ⟨x.drop e, b, c, ?_, noLine, rfl⟩
    rw [List.drop_append_of_le_length inside]
  · obtain ⟨y, u, v, split, -, rfl⟩ := docEnd
    have last : (y ++ '#' :: (u ++ '\n' :: v))[y.length + u.length + 1]? = some '\n' := by
      have shape : y ++ '#' :: (u ++ '\n' :: v) = (y ++ '#' :: u) ++ '\n' :: v := by simp
      rw [shape, List.getElem?_append_right (by simp; omega)]
      simp [Nat.add_assoc]
    have shape : x ++ '#' :: (b ++ '\n' :: c) = (x ++ '#' :: b) ++ '\n' :: c := by simp
    rw [← split, shape, List.getElem?_append_left (by simp; omega),
      List.getElem?_append_right (by omega)] at last
    obtain newline | newline := List.mem_cons.mp (List.mem_of_getElem? last)
    · exact absurd newline (by decide)
    · exact noLine newline

theorem collectDoc_framed {p d : List Char} {data : Nat} {doc : View} {n : Nat}
    (newlines : ∀ x ∈ p, x = '\n') (framed : Framed d) (empty : doc.size = 0)
    (enough : (p ++ d).length ≤ n) :
    collectDoc n (p ++ d) data doc = ⟨data + p.length, d.length⟩ := by
  obtain ⟨l, b, c, eq, blank, noLine⟩ := framed.opens
  obtain ⟨j, found⟩ := search_newlines newlines eq blank noLine
  obtain ⟨x, b', eq', noLine'⟩ := framed.closes
  rcases collectDoc_begin enough empty with ⟨none, -⟩ | ⟨i, j', e, found', docEnd, none, same⟩
  · cases none.symm.trans found
  · cases found.symm.trans found'
    rw [same]
    have whole : p ++ d = (p ++ x) ++ '#' :: (b' ++ ['\n']) := by rw [eq', List.append_assoc]
    have all : DocEnd (p ++ d) (p ++ d).length := by
      refine ⟨p ++ x, b', [], whole, noLine', ?_⟩
      rw [whole]
      simp [Nat.add_assoc]
    -- the end of the last comment that is found is the end of the text
    have end_ : e = p.length + d.length := by
      rw [← List.length_append]
      exact Nat.le_antisymm docEnd.take.1 (docEnd_le docEnd none all)
    rw [end_, Nat.add_sub_cancel_left]

theorem View.text_append {desc d rest : List Char} {data : Nat}
    (here : desc.drop data = d ++ rest) : View.text ⟨data, d.length⟩ desc = d := by
  rw [View.text, here, List.take_left]

theorem Framed.of_closes {d s l b c : List Char} (prefix_ : d <+: s)
    (eq : s = l ++ '#' :: (b ++ '\n' :: c)) (blank : ∀ x ∈ l, x ∈ [' ', '\t']) (noLine : '\n' ∉ b)
    (closes : ∃ x b, d = x ++ '#' :: (b ++ ['\n']) ∧ '\n' ∉ b) : Framed d := by
  refine ⟨?_, closes⟩
  have shape : s = (l ++ '#' :: b) ++ ['\n'] ++ c := by rw [eq]; simp
  have first : '\n' ∉ l ++ '#' :: b := by
    intro member
    rcases List.mem_append.mp member with member | member
    · exact absurd (blank _ member) (by decide)
    · rcases List.mem_cons.mp member with newline | member
      · exact absurd newline (by decide)
      · exact noLine member
  have last : '\n' ∈ d := by
    obtain ⟨x, b, rfl, -⟩ := closes
    simp
  rcases List.prefix_or_prefix_of_prefix prefix_ ⟨c, shape.symm⟩ with short | ⟨t, long⟩
  · rcases List.prefix_concat_iff.mp short with rfl | short
    · exact ⟨l, b, [], by simp, blank, noLine⟩
    · exact absurd (short.subset last) first
  · exact ⟨l, b, t, by rw [← long]; simp, blank, noLine⟩

namespace Scanner
variable {desc : List Char} {s : Scanner}

structure Sound (desc : List Char) (s : Scanner) : Prop where
  bound : s.pos ≤ desc.length
  doc : s.currentDoc.size = 0 ∨ s.currentDoc.data + s.currentDoc.size ≤ s.pos ∧
    Framed (s.currentDoc.text desc)

theorem sound_init : Sound desc {} := ⟨Nat.zero_le _, .inl rfl⟩

theorem Sound.takeDocstring (h : Sound desc s) : Sound desc (Scanner.getDocstring desc s).2 :=
  ⟨h.bound, .inl rfl⟩

theorem Sound.advance (h : Sound desc s) {n : Nat} (bound : s.pos + n ≤ desc.length) :
    Sound desc { s with pos := s.pos + n } := by
  refine ⟨bound, h.doc.imp_right fun ⟨inside, framed⟩ => ⟨?_, framed⟩⟩
  show s.currentDoc.data + s.currentDoc.size ≤ s.pos + n
  omega

theorem text_of_stretch {g rest : List Char} {i e : Nat} (here : desc.drop s.pos = g ++ rest)
    (order : i ≤ e) (within : e ≤ g.length) :
    View.text ⟨s.pos + i, e - i⟩ desc = (g.take e).drop i := by
  rw [View.text, ← List.drop_drop, here, List.drop_append_of_le_length (by omega),
    List.take_append_of_le_length (by rw [List.length_drop]; show e - i ≤ g.length - i; omega),
    ← List.drop_take]

theorem framed_begin {g rest : List Char} {i j e : Nat} (here : desc.drop s.pos = g ++ rest)
    (stretch : Stretch g rest) (found : docstring.search g = some (i, j)) (docEnd : DocEnd g e) :
    Framed (View.text ⟨s.pos + i, e - i⟩ desc) := by
  obtain ⟨within, x, b, c, eq, take, noLine⟩ := docEnd.take
  have before : i ≤ x.length := le_of_search (eq ▸ found) noLine
  have after := lt_docEnd_of_search found docEnd
  obtain ⟨l, b', c', opens, blank, noLine'⟩ := blank_of_search stretch found
  have prefix_ : (g.take e).drop i <+: g.drop i := by
    rw [List.drop_take]
    exact List.take_prefix _ _
  rw [text_of_stretch here (Nat.le_of_lt after) within]
  refine .of_closes prefix_ opens blank noLine' ⟨x.drop i, b, ?_, noLine⟩
  rw [take, List.drop_append_of_le_length before]

theorem framed_extend {g rest : List Char} {e : Nat} {doc : View}
    (here : desc.drop s.pos = g ++ rest) (inside : doc.data + doc.size ≤ s.pos)
    (framed : Framed (doc.text desc)) (docEnd : DocEnd g e) :
    Framed (View.text ⟨doc.data, s.pos + e - doc.data⟩ desc) := by
  obtain ⟨within, x, b, c, eq, take, noLine⟩ := docEnd.take
  have text : View.text ⟨doc.data, s.pos + e - doc.data⟩ desc =
      (desc.drop doc.data).take (s.pos - doc.data) ++ g.take e := by
    have behind : (desc.drop doc.data).drop (s.pos - doc.data) = g ++ rest := by
      rw [List.drop_drop, ← here]
      congr 1
      omega
    have size : s.pos + e - doc.data = (s.pos - doc.data) + e := by omega
    rw [View.text, size, List.take_add, behind, List.take_append_of_le_length within]
  rw [text]
  constructor
  · obtain ⟨l, b', c', opens, blank, noLine'⟩ := framed.opens
    obtain ⟨t, longer⟩ : doc.text desc <+: (desc.drop doc.data).take (s.pos - doc.data) :=
      List.take_prefix_take_left (by omega)
    exact ⟨l, b', c' ++ t ++ g.take e, by rw [← longer, opens]; simp, blank, noLine'⟩
  · exact ⟨_ ++ x, b, by rw [take, List.append_assoc], noLine⟩

theorem Sound.consumeWhitespace (h : Sound desc s) : Sound desc (consumeWhitespace desc s) := by
  obtain ⟨g, rest, here, stretch⟩ := exists_stretch (desc.drop s.pos)
  rw [consumeWhitespace_eq here stretch]
  have length := congrArg List.length here
  rw [List.length_drop, List.length_append] at length
  have bound := h.bound
  refine ⟨by show s.pos + g.length ≤ _; omega, ?_⟩
  by_cases empty : s.currentDoc.size = 0
  · rcases collectDoc_begin (Nat.le_refl g.length) empty with
      ⟨-, same⟩ | ⟨i, j, e, found, docEnd, -, same⟩
    · exact .inl (by rw [same]; exact empty)
    · have within := docEnd.take.1
      have after := lt_docEnd_of_search found docEnd
      rw [same]
      refine .inr ⟨?_, framed_begin here stretch found docEnd⟩
      show s.pos + i + (e - i) ≤ s.pos + g.length
      omega
  · obtain ⟨inside, framed⟩ := h.doc.resolve_left empty
    rcases collectDoc_extend s.pos s.currentDoc (Nat.le_refl g.length) empty
        fun i j _ => by omega with
      ⟨-, same⟩ | ⟨e, docEnd, -, same⟩
    · rw [same]
      refine .inr ⟨?_, framed⟩
      show s.currentDoc.data + s.currentDoc.size ≤ s.pos + g.length
      omega
    · have within := docEnd.take.1
      rw [same]
      refine .inr ⟨?_, framed_extend here inside framed docEnd⟩
      show s.currentDoc.data + (s.pos + e - s.currentDoc.data) ≤ s.pos + g.length
      omega

theorem Sound.docstring (h : Sound desc s) :
    (Scanner.getDocstring desc s).1 = "" ∨
      Framed (Scanner.getDocstring desc s).1.toList := by
  rcases h.doc with empty | ⟨-, framed⟩
  · left
    simp [Scanner.getDocstring, View.text, empty]
  · right
    simpa [Scanner.getDocstring] using framed

end Scanner

end Varlink
