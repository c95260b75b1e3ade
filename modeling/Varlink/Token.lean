import Varlink.Docstring

/-! The tokens of an interface description. A token that was read once is read
again from any text in which no character of a word follows it. -/

namespace Varlink

open Regex Scanner

def Boundary (rest : List Char) : Prop := rest.head?.any isWord = false

theorem boundary_nil : Boundary [] := rfl

theorem boundary_cons {c : Char} {rest : List Char} : Boundary (c :: rest) ↔ isWord c = false :=
  Iff.rfl

def matched (patterns : List (Regex Char)) (rest : List Char) : Nat :=
  patterns.foldl (matchOne rest) 0

structure Token (patterns : List (Regex Char)) (tok : List Char) : Prop where
  nonempty : tok ≠ []
  clean : ∀ c ∈ tok, c ∉ '#' :: blanks
  reads : ∀ after, Boundary after → matched patterns (tok ++ after) = tok.length

theorem stops_of_clean {tok : List Char} (clean : ∀ c ∈ tok, c ∉ '#' :: blanks) : Stops tok :=
  fun c head => clean c (List.mem_of_head? head)

theorem Token.stops {patterns : List (Regex Char)} {tok : List Char} (h : Token patterns tok) :
    Stops tok :=
  stops_of_clean h.clean

theorem matched_singleton {p : Regex Char} {rest : List Char} :
    matched [p] rest = (p.starts rest).getD 0 := by
  simp only [matched, List.foldl, matchOne]
  cases p.starts rest <;> rfl

theorem matched_pair {p q : Regex Char} {rest : List Char} :
    matched [p, q] rest = if matched [p] rest = 0 then matched [q] rest else matched [p] rest := by
  simp only [matched, List.foldl, matchOne]
  cases p.starts rest <;> cases q.starts rest <;> simp

theorem starts_of_matched {p : Regex Char} {rest : List Char} {n : Nat}
    (h : matched [p] rest = n) (some : n ≠ 0) : p.starts rest = .some n := by
  rw [matched_singleton] at h
  cases match_ : p.starts rest with
  | none => exact absurd (by rw [← h, match_]; rfl) some
  | some m => rw [← h, match_]; rfl

theorem le_length_of_starts {p : Regex Char} {rest : List Char} {n : Nat}
    (h : p.starts rest = some n) : n ≤ rest.length :=
  le_length_of_mem_run (List.mem_of_head? h) (Nat.zero_le _)

theorem matched_le {patterns : List (Regex Char)} {rest : List Char} :
    matched patterns rest ≤ rest.length := by
  have step (out : Nat) (le : out ≤ rest.length) (p : Regex Char) :
      matchOne rest out p ≤ rest.length := by
    unfold matchOne
    split
    · split
      · exact le_length_of_starts ‹_›
      · exact le
    · exact le
  have all (out : Nat) (le : out ≤ rest.length) :
      patterns.foldl (matchOne rest) out ≤ rest.length := by
    induction patterns generalizing out with
    | nil => exact le
    | cons p patterns ih => exact ih _ (step out le p)
  exact all 0 (Nat.zero_le _)

section Word

def Plain (e : Regex Char) : Prop :=
  (∀ c, e.alphabet c → isWord c = true) ∧ ∀ x y, e.SameLook x y

theorem sameLook_word {inner : Regex Char} (plain : Plain inner) {x y : List Char}
    (hx : Boundary x) (hy : Boundary y) : (word inner).SameLook x.head? y.head? := by
  have same : wordBoundary.SameLook x.head? y.head? := fun p => by
    show (p.any isWord != x.head?.any isWord) = (p.any isWord != y.head?.any isWord)
    rw [hx, hy]
  exact ⟨same, plain.2 _ _, same⟩

theorem isWord_of_alphabet {inner : Regex Char} (plain : Plain inner) {c : Char}
    (named : (word inner).alphabet c) : isWord c = true := by
  rcases named with h | h | h
  · exact h.elim
  · exact plain.1 c h
  · exact h.elim

theorem word_stops {inner : Regex Char} (plain : Plain inner) {y : List Char} (hy : Boundary y) :
    ∀ c, y.head? = some c → ¬(word inner).alphabet c := by
  intro c head named
  have inWord := isWord_of_alphabet plain named
  unfold Boundary at hy
  rw [head] at hy
  exact absurd (hy.symm.trans inWord) (by decide)

theorem boundary_of_word {inner : Regex Char} (plain : Plain inner) {tok after : List Char}
    (some : tok ≠ []) (h : (word inner).starts (tok ++ after) = .some tok.length) :
    Boundary after := by
  have member := List.mem_of_head? h
  have positive := List.length_pos_iff.mpr some
  obtain ⟨c, here, named⟩ := alphabet_of_mem_run member (tok.length - 1) (Nat.zero_le _) (by omega)
  have inWord := isWord_of_alphabet plain named
  obtain ⟨k, -, m, -, last⟩ := by simpa only [word, mem_run_seq] using member
  obtain ⟨rfl, look⟩ := mem_run_look.mp last
  obtain ⟨n, length⟩ : ∃ n, tok.length = n + 1 := ⟨tok.length - 1, by omega⟩
  have behind : before (tok ++ after) tok.length = .some c := by
    rw [length] at here ⊢
    exact here
  rw [behind, getElem?_append_self] at look
  unfold Boundary
  cases ahead : after.head?.any isWord with
  | false => rfl
  | true => simp [inWord, ahead] at look

theorem starts_word {inner : Regex Char} (plain : Plain inner) {tok after after' : List Char}
    (some : tok ≠ []) (h : (word inner).starts (tok ++ after) = .some tok.length)
    (boundary : Boundary after') : (word inner).starts (tok ++ after') = .some tok.length :=
  starts_append h (sameLook_word plain (boundary_of_word plain some h) boundary)
    (word_stops plain boundary)

theorem clean_of_isWord {c : Char} (h : isWord c = true) : c ∉ '#' :: blanks := by
  refine fun member => absurd h ?_
  simp only [blanks, List.mem_cons, List.not_mem_nil, or_false] at member
  rcases member with rfl | rfl | rfl | rfl <;> decide

theorem Stops.append {tok after : List Char} (some : tok ≠ []) (h : Stops tok) :
    Stops (tok ++ after) := by
  cases tok with
  | nil => exact absurd rfl some
  | cons c tok => exact stops_cons.mpr (stops_cons.mp h)

theorem alphabet_of_matched {e : Regex Char} {tok after : List Char}
    (h : matched [e] (tok ++ after) = tok.length) : ∀ c ∈ tok, e.alphabet c := by
  intro c member
  have positive := List.length_pos_of_mem member
  have starts := starts_of_matched h (by omega)
  obtain ⟨k, lt, rfl⟩ := List.mem_iff_getElem.mp member
  obtain ⟨d, here, named⟩ := alphabet_of_mem_run (List.mem_of_head? starts) k (Nat.zero_le k) lt
  rw [List.getElem?_append_left lt, List.getElem?_eq_getElem lt] at here
  cases here
  exact named

theorem isWord_of_matched {inner : Regex Char} (plain : Plain inner) {tok after : List Char}
    (h : matched [word inner] (tok ++ after) = tok.length) : ∀ c ∈ tok, isWord c = true :=
  fun c member => isWord_of_alphabet plain (alphabet_of_matched h c member)

theorem token_word {inner : Regex Char} (plain : Plain inner) {tok after : List Char}
    (some : tok ≠ []) (h : matched [word inner] (tok ++ after) = tok.length) :
    Token [word inner] tok := by
  have positive := List.length_pos_iff.mpr some
  have starts := starts_of_matched h (by omega)
  refine ⟨some, fun c member => clean_of_isWord (isWord_of_matched plain h c member),
    fun after' boundary => ?_⟩
  rw [matched_singleton, starts_word plain some starts boundary]
  rfl

end Word

theorem isWord_of_alphanum {c : Char} (h : c.isAlphanum = true) : isWord c = true := by
  simp [isWord, h]

theorem isAlphanum_of_upper {c : Char} (h : c.isUpper = true) : c.isAlphanum = true := by
  change ((c.isUpper || c.isLower) || c.isDigit) = true
  simp [h]

theorem isWord_of_lower {c : Char} (h : c.isLower = true) : isWord c = true := by
  refine isWord_of_alphanum ?_
  change ((c.isUpper || c.isLower) || c.isDigit) = true
  simp [h]

theorem isLower_eq_false_of_upper {c : Char} (h : c.isUpper = true) : c.isLower = false := by
  have upper : c.val ≥ 'A'.val ∧ c.val ≤ 'Z'.val := of_decide_eq_true h
  refine Bool.eq_false_iff.mpr fun letter => ?_
  have lower : (decide (c.val ≥ 'a'.val) && decide (c.val ≤ 'z'.val)) = true := letter
  have above := of_decide_eq_true (Bool.and_eq_true_iff.mp lower).1
  exact absurd (UInt32.le_trans above upper.2) (by decide)

theorem plain_lower : Plain (plus lower) := by
  refine ⟨?_, fun x y => ⟨trivial, trivial⟩⟩
  rintro c (h | h)
  · exact isWord_of_lower h
  · exact isWord_of_lower h

theorem plain_member : Plain (.seq (.one Char.isUpper) (.star alphanum)) := by
  refine ⟨?_, fun x y => ⟨trivial, trivial⟩⟩
  rintro c (h | h)
  · exact isWord_of_alphanum (isAlphanum_of_upper h)
  · exact isWord_of_alphanum h

theorem plain_identifier :
    Plain (.seq (.one Char.isAlpha) (.star (.seq (opt (anyOf ['_'])) alphanum))) := by
  refine ⟨?_, fun x y => ⟨trivial, ⟨trivial, fun _ => rfl⟩, trivial⟩⟩
  rintro c (h | (h | h) | h)
  · exact isWord_of_alphanum (by simp_all [alphabet, Char.isAlphanum])
  · obtain rfl : c = '_' := by simpa [alphabet, anyOf] using h
    rfl
  · exact h.elim
  · exact isWord_of_alphanum h

theorem token_member {tok x : List Char} (some : tok ≠ [])
    (h : matched [memberPattern] (tok ++ x) = tok.length) : Token [memberPattern] tok :=
  token_word plain_member some h

theorem token_identifier {tok x : List Char} (some : tok ≠ [])
    (h : matched [identifierPattern] (tok ++ x) = tok.length) : Token [identifierPattern] tok :=
  token_word plain_identifier some h

/-! ### Keywords -/

def punctuation : List (List Char) :=
  [[':'], [','], ['('], [')'], ['{'], ['}'], ['-', '>'], ['[', ']'], ['?'], dictPrefix]

theorem matched_punctuation {tok : List Char} (known : tok ∈ punctuation) (after : List Char) :
    matched [keywordPattern] (tok ++ after) = tok.length := by
  simp only [punctuation, List.mem_cons, List.not_mem_nil, or_false] at known
  rcases known with rfl | rfl | rfl | rfl | rfl | rfl | rfl | rfl | rfl | rfl <;> rfl

theorem clean_punctuation {tok : List Char} (known : tok ∈ punctuation) :
    ∀ c ∈ tok, c ∉ '#' :: blanks := by
  simp only [punctuation, dictPrefix, List.mem_cons, List.not_mem_nil, or_false] at known
  rcases known with rfl | rfl | rfl | rfl | rfl | rfl | rfl | rfl | rfl | rfl <;> simp [blanks]

theorem starts_keyword {rest : List Char} {n : Nat} (h : keywordPattern.starts rest = some n) :
    (word (plus lower)).starts rest = some n ∨
      ∃ tok ∈ punctuation, ∃ after, rest = tok ++ after ∧ n = tok.length := by
  have mark {chars : List Char} (h : n ∈ (anyOf chars).run rest 0) :
      ∃ c ∈ chars, ∃ after, rest = [c] ++ after ∧ n = [c].length := by
    obtain ⟨c, x, here, listed, rfl⟩ := mem_run_one_drop.mp h
    exact ⟨c, by simpa using listed, x, here, rfl⟩
  have symbol {cs : List Char} (h : n ∈ (literal cs).run rest 0) :
      ∃ after, rest = cs ++ after ∧ n = cs.length := by
    obtain ⟨x, here, rfl⟩ := mem_run_literal.mp h
    exact ⟨x, here, Nat.zero_add _⟩
  rw [keywordPattern, starts_alt] at h
  cases words : (word (plus lower)).starts rest with
  | some m => exact .inl (by rwa [words] at h)
  | none =>
    right
    rw [words, Option.none_or] at h
    have member := List.mem_of_head? h
    simp only [mem_run_alt] at member
    rcases member with h | h | h | h | h
    · obtain ⟨c, listed, found⟩ := mark h
      refine ⟨[c], ?_, found⟩
      simp only [List.mem_cons, List.not_mem_nil, or_false] at listed
      rcases listed with rfl | rfl | rfl | rfl | rfl | rfl <;> decide
    · exact ⟨_, by decide, symbol h⟩
    · exact ⟨_, by decide, symbol h⟩
    · obtain ⟨c, listed, found⟩ := mark h
      obtain rfl := List.mem_singleton.mp listed
      exact ⟨_, by decide, found⟩
    · exact ⟨_, by decide, symbol h⟩

theorem token_punctuation {tok : List Char} (known : tok ∈ punctuation) :
    Token [keywordPattern] tok := by
  refine ⟨?_, clean_punctuation known, fun after _ => matched_punctuation known after⟩
  rintro rfl
  exact absurd known (by decide)

theorem token_keyword {tok x : List Char} (some : tok ≠ [])
    (h : matched [keywordPattern] (tok ++ x) = tok.length) : Token [keywordPattern] tok := by
  have positive := List.length_pos_iff.mpr some
  rcases starts_keyword (starts_of_matched h (by omega)) with
    words | ⟨mark, known, after', eq, length⟩
  · have token : Token [word (plus lower)] tok :=
      token_word plain_lower some (by rw [matched_singleton, words]; rfl)
    refine ⟨some, token.clean, fun after' boundary => ?_⟩
    have starts := starts_of_matched (token.reads after' boundary) (by omega)
    rw [matched_singleton, keywordPattern, starts_alt, starts]
    rfl
  · obtain ⟨rfl, -⟩ := List.append_inj eq length
    exact token_punctuation known

theorem matched_keyword_upper {c : Char} {rest : List Char} (upper : c.isUpper = true) :
    matched [keywordPattern] (c :: rest) = 0 := by
  by_contra some
  rcases starts_keyword (starts_of_matched rfl some) with words | ⟨mark, known, after, eq, -⟩
  · obtain ⟨d, here, named⟩ :=
      alphabet_of_mem_run (List.mem_of_head? words) 0 (Nat.le_refl 0) (by omega)
    obtain rfl : c = d := Option.some_inj.mp here
    have isLower : c.isLower = true := by
      rcases named with h | (h | h) | h
      · exact h.elim
      · exact h
      · exact h
      · exact h.elim
    cases isLower.symm.trans (isLower_eq_false_of_upper upper)
  · have head : mark.head?.any Char.isUpper = true := by
      cases mark with
      | nil => exact absurd known (by decide)
      | cons d mark =>
        obtain ⟨rfl, -⟩ := List.cons.inj eq
        exact upper
    revert head
    exact (by decide : ∀ mark ∈ punctuation, ¬mark.head?.any Char.isUpper = true) mark known

theorem upper_of_starts_member {rest : List Char} {n : Nat}
    (h : memberPattern.starts rest = some n) :
    ∃ c, rest.head? = .some c ∧ c.isUpper = true := by
  have member := List.mem_of_head? h
  simp only [memberPattern, word, wordBoundary, mem_run_seq, mem_run_look, mem_run_one] at member
  obtain ⟨_, ⟨rfl, -⟩, _, ⟨_, ⟨-, c, here, upper⟩, -⟩, -⟩ := member
  exact ⟨c, by rw [List.head?_eq_getElem?, here], upper⟩

theorem isAlpha_of_identifier {tok : List Char} (h : Token [identifierPattern] tok) :
    tok.head?.any Char.isAlpha = true := by
  have positive := List.length_pos_iff.mpr h.nonempty
  have member := List.mem_of_head? (starts_of_matched (h.reads [] boundary_nil) (by omega))
  simp only [identifierPattern, word, wordBoundary, mem_run_seq, mem_run_look, mem_run_one]
    at member
  obtain ⟨_, ⟨rfl, -⟩, _, ⟨_, ⟨-, c, here, alpha⟩, -⟩, -⟩ := member
  rw [List.append_nil, ← List.head?_eq_getElem?] at here
  rw [here]
  exact alpha

theorem matched_member_other {c : Char} {rest : List Char} (other : c.isUpper = false) :
    matched [memberPattern] (c :: rest) = 0 := by
  by_contra some
  obtain ⟨d, head, upper⟩ := upper_of_starts_member (starts_of_matched rfl some)
  cases head
  exact absurd upper (by rw [other]; decide)

theorem token_type {tok x : List Char} (some : tok ≠ [])
    (h : matched [keywordPattern, memberPattern] (tok ++ x) = tok.length) :
    Token [keywordPattern, memberPattern] tok := by
  have positive := List.length_pos_iff.mpr some
  rw [matched_pair] at h
  split at h
  · have token := token_member some h
    refine ⟨some, token.clean, fun after' boundary => ?_⟩
    obtain ⟨c, head, upper⟩ := upper_of_starts_member (starts_of_matched h (by omega))
    cases tok with
    | nil => exact absurd rfl some
    | cons d tail =>
      cases head
      rw [matched_pair, List.cons_append, if_pos (matched_keyword_upper upper)]
      exact token.reads after' boundary
  · have token := token_keyword some h
    refine ⟨some, token.clean, fun after' boundary => ?_⟩
    have same := token.reads after' boundary
    rw [matched_pair, if_neg (by omega)]
    exact same

/-! ### The name of the interface -/

theorem sameLook_ifname (x y : Option Char) : ifnamePattern.SameLook x y := by
  simp [ifnamePattern, dashed, plus, lower, lowerOrDigit, anyOf, SameLook]

theorem gap_not_in_ifname {c : Char} (gap : c ∈ '#' :: blanks) : ¬ifnamePattern.alphabet c := by
  simp only [blanks, List.mem_cons, List.not_mem_nil, or_false] at gap
  rcases gap with rfl | rfl | rfl | rfl <;>
    simp [ifnamePattern, dashed, plus, lower, lowerOrDigit, anyOf, alphabet]

theorem matched_ifname {tok after after' : List Char} {c : Char} (gap : c ∈ '#' :: blanks)
    (some : tok ≠ []) (h : matched [ifnamePattern] (tok ++ after) = tok.length) :
    matched [ifnamePattern] (tok ++ c :: after') = tok.length := by
  have positive := List.length_pos_iff.mpr some
  rw [matched_singleton, starts_append (starts_of_matched h (by omega)) (sameLook_ifname _ _)]
  · rfl
  · rintro d head
    cases head
    exact gap_not_in_ifname gap

theorem matched_ifname_end {tok after : List Char} (some : tok ≠ [])
    (h : matched [ifnamePattern] (tok ++ after) = tok.length) :
    matched [ifnamePattern] tok = tok.length := by
  have positive := List.length_pos_iff.mpr some
  have ends := starts_append (y := []) (starts_of_matched h (by omega)) (sameLook_ifname _ _) nofun
  rw [List.append_nil] at ends
  rw [matched_singleton, ends]
  rfl

theorem matched_ifname_interface {c : Char} (blank : c ∈ blanks) (after : List Char) :
    matched [ifnamePattern] ("interface".toList ++ c :: after) = 0 := by
  have none : ifnamePattern.starts ("interface".toList ++ []) = none := by decide
  rw [matched_singleton, starts_append_none none (sameLook_ifname _ _)]
  · rfl
  · rintro d head
    cases head
    exact gap_not_in_ifname (List.mem_cons_of_mem _ blank)

theorem head_dashed {w : List Char} {i j : Nat} (start : i ≤ w.length)
    (h : (dashed.run w i).head? = some j) :
    ∀ c, w[j]? = some c → (c.isLower || c.isDigit) = false := by
  intro c here
  obtain ⟨stops, -⟩ := of_head_run_star start h
  refine Bool.eq_false_iff.mpr fun further => ?_
  have round : j + 1 ∈ (seq (star (anyOf ['-'])) lowerOrDigit).run w j :=
    mem_run_seq.mpr ⟨j, self_mem_run_star, mem_run_one.mpr ⟨rfl, c, here, further⟩⟩
  have := stops (j + 1) round
  omega

def dottedPart : Regex Char := seq (anyOf ['.']) (seq lowerOrDigit dashed)

theorem starts_ifname_greedy {w : List Char} {n : Nat} (h : ifnamePattern.starts w = some n) :
    ∀ c, w[n]? = some c → (c.isLower || c.isDigit) = false := by
  have inside {i j : Nat} {e : Regex Char} (member : j ∈ e.run w i) (start : i ≤ w.length) :
      j ≤ w.length := le_length_of_mem_run member start
  -- a part ends where its last star does
  have ends {i j : Nat} (start : i ≤ w.length) (head : (dottedPart.run w i).head? = some j) :
      ∀ c, w[j]? = some c → (c.isLower || c.isDigit) = false := by
    obtain ⟨k, dot, rest⟩ := exists_of_head_run_seq head
    obtain ⟨m, first, stop⟩ := exists_of_head_run_seq rest
    exact head_dashed (inside first (inside dot start)) stop
  have longer {i j : Nat} (member : j ∈ dottedPart.run w i) : i < j := by
    obtain ⟨k, dot, rest⟩ := mem_run_seq.mp member
    have := (mem_run_one.mp dot).1
    have := le_of_mem_run rest
    omega
  obtain ⟨k, first, rest⟩ := exists_of_head_run_seq h
  obtain ⟨m, stem, parts⟩ := exists_of_head_run_seq rest
  have start := inside stem (inside first (Nat.zero_le _))
  have parts : ((plus dottedPart).run w m).head? = some n := parts
  obtain ⟨l, one, others⟩ := of_head_run_seq
    (fun j => by rw [run]; exact head_rounds_ne_none) parts
  have start' := inside (List.mem_of_head? one) start
  obtain ⟨-, rfl | ⟨p, behind, last⟩⟩ := of_head_run_star start' others
  · exact ends start one
  · rw [List.filter_eq_self.mpr fun j member => by simpa using longer member] at last
    by_cases within : p ≤ w.length
    · exact ends within last
    · obtain ⟨q, dot, -⟩ := mem_run_seq.mp (List.mem_of_head? last)
      obtain ⟨-, c, here, -⟩ := mem_run_one.mp dot
      exact absurd (List.getElem?_eq_some_iff.mp here).1 (by omega)

def BehindLetter (w : List Char) (j : Nat) : Prop :=
  ∃ k c, j = k + 1 ∧ w[k]? = some c ∧ (c.isLower || c.isDigit) = true

theorem behindLetter_of_run_ifname {w : List Char} {n : Nat} (h : n ∈ ifnamePattern.run w 0) :
    BehindLetter w n := by
  have one {i j : Nat} (member : j ∈ lowerOrDigit.run w i) : BehindLetter w j := by
    obtain ⟨rfl, c, here, named⟩ := mem_run_one.mp member
    exact ⟨i, c, rfl, here, named⟩
  have rest {i j : Nat} (start : BehindLetter w i) (member : j ∈ dashed.run w i) :
      BehindLetter w j :=
    rounds_invariant (fun _ _ _ round => by
      obtain ⟨m, -, last⟩ := mem_run_seq.mp round
      exact one last) start member
  have part {i j : Nat} (member : j ∈ dottedPart.run w i) : BehindLetter w j := by
    obtain ⟨k, -, others⟩ := mem_run_seq.mp member
    obtain ⟨m, first, last⟩ := mem_run_seq.mp others
    exact rest (one first) last
  obtain ⟨k, -, others⟩ := mem_run_seq.mp h
  obtain ⟨m, -, parts⟩ := mem_run_seq.mp others
  obtain ⟨l, first, more⟩ := mem_run_seq.mp (show n ∈ (plus dottedPart).run w m from parts)
  exact rounds_invariant (fun _ _ _ round => part round) (part first) more

theorem endsInWord_ifname {tok after : List Char} (some : tok ≠ [])
    (h : matched [ifnamePattern] (tok ++ after) = tok.length) :
    tok.getLast?.any isWord = true := by
  have positive := List.length_pos_iff.mpr some
  obtain ⟨k, c, length, here, named⟩ :=
    behindLetter_of_run_ifname (List.mem_of_head? (starts_of_matched h (by omega)))
  rw [List.getElem?_append_left (by omega)] at here
  rw [List.getLast?_eq_getElem?, show tok.length - 1 = k by omega, here]
  rcases (Bool.or_eq_true _ _).mp named with lower | digit
  · exact isWord_of_lower lower
  · exact isWord_of_alphanum (by simp [Char.isAlphanum, digit])

theorem startsLower_ifname {tok after : List Char} (some : tok ≠ [])
    (h : matched [ifnamePattern] (tok ++ after) = tok.length) :
    tok.head?.any Char.isLower = true := by
  have positive := List.length_pos_iff.mpr some
  have member := List.mem_of_head? (starts_of_matched h (by omega))
  simp only [ifnamePattern, lower, mem_run_seq, mem_run_one] at member
  obtain ⟨_, ⟨-, c, here, isLower⟩, -⟩ := member
  obtain ⟨d, tail, rfl⟩ := List.exists_cons_of_ne_nil some
  obtain rfl : d = c := Option.some_inj.mp here
  exact isLower

theorem clean_ifname {tok after : List Char}
    (h : matched [ifnamePattern] (tok ++ after) = tok.length) :
    ∀ c ∈ tok, c ∉ '#' :: blanks := by
  intro c member gap
  exact gap_not_in_ifname gap (alphabet_of_matched h c member)

theorem stops_ifname {tok after : List Char}
    (h : matched [ifnamePattern] (tok ++ after) = tok.length) :
    Stops tok :=
  stops_of_clean (clean_ifname h)

/-! ### Reading a token -/

section Expect
variable {desc tok g after : List Char} {patterns : List (Regex Char)} {s s' : Scanner}

def Scanner.past (s : Scanner) (g tok : List Char) : Scanner :=
  ⟨s.pos + g.length + tok.length, collectDoc g.length g s.pos s.currentDoc⟩

theorem drop_past (here : desc.drop s.pos = g ++ (tok ++ after)) :
    desc.drop (s.past g tok).pos = after := by
  show desc.drop (s.pos + g.length + tok.length) = after
  rw [← List.drop_drop, ← List.drop_drop, here, List.drop_left, List.drop_left]

theorem expectRe_matched (here : desc.drop s.pos = g ++ (tok ++ after)) (gap : Gap g)
    (some : tok ≠ []) (stops : Stops tok) (h : matched patterns (tok ++ after) = tok.length) :
    expectRe desc patterns s = .ok (tok, s.past g tok) := by
  have positive := List.length_pos_iff.mpr some
  obtain ⟨n, length⟩ : ∃ n, tok.length = n + 1 := ⟨tok.length - 1, by omega⟩
  have rest : desc.drop (s.pos + g.length) = tok ++ after := by
    rw [← List.drop_drop, here, List.drop_left]
  have nonempty : (tok ++ after).isEmpty = false := by simp [some]
  have found : patterns.foldl (matchOne (tok ++ after)) 0 = n + 1 := h.trans length
  simp only [expectRe, consumeWhitespace_eq here (.gap gap (stops.append some)), rest, nonempty,
    Bool.false_eq_true, if_false, found]
  rw [← length, List.take_left]
  rfl

theorem expectRe_fails (here : desc.drop s.pos = g ++ (tok ++ after)) (gap : Gap g)
    (some : tok ≠ []) (stops : Stops tok) (h : matched patterns (tok ++ after) = 0) :
    ∃ e, expectRe desc patterns s = .error e := by
  have rest : desc.drop (s.pos + g.length) = tok ++ after := by
    rw [← List.drop_drop, here, List.drop_left]
  have nonempty : (tok ++ after).isEmpty = false := by simp [some]
  have none : patterns.foldl (matchOne (tok ++ after)) 0 = 0 := h
  simp only [expectRe, consumeWhitespace_eq here (.gap gap (stops.append some)), rest, nonempty,
    Bool.false_eq_true, if_false, none]
  exact ⟨_, rfl⟩

theorem expectRe_token (here : desc.drop s.pos = g ++ (tok ++ after)) (gap : Gap g)
    (token : Token patterns tok) (boundary : Boundary after) :
    expectRe desc patterns s = .ok (tok, s.past g tok) :=
  expectRe_matched here gap token.nonempty token.stops (token.reads after boundary)

theorem expectRe_punctuation (here : desc.drop s.pos = g ++ (tok ++ after)) (gap : Gap g)
    (known : tok ∈ punctuation) : expectRe desc [keywordPattern] s = .ok (tok, s.past g tok) :=
  expectRe_matched here gap (token_punctuation known).nonempty (token_punctuation known).stops
    (matched_punctuation known after)

theorem of_expectRe {rest : List Char} (here : desc.drop s.pos = g ++ rest)
    (stretch : Stretch g rest) (h : expectRe desc patterns s = .ok (tok, s')) :
    rest = [] ∧ tok = [] ∧ s' = s.past g [] ∨
      ∃ after, rest = tok ++ after ∧ tok ≠ [] ∧ matched patterns (tok ++ after) = tok.length ∧
        s' = s.past g tok := by
  have consumed := consumeWhitespace_eq here stretch
  have behind : desc.drop (s.pos + g.length) = rest := by
    rw [← List.drop_drop, here, List.drop_left]
  simp only [expectRe, consumed, behind] at h
  cases rest with
  | nil =>
    cases h
    exact .inl ⟨rfl, rfl, rfl⟩
  | cons c rest =>
    right
    simp only [List.isEmpty_cons, Bool.false_eq_true, if_false] at h
    split at h
    · cases h
    · rename_i size none
      cases h
      have le : matched patterns (c :: rest) ≤ (c :: rest).length := matched_le
      have size : ((c :: rest).take (matched patterns (c :: rest))).length =
          matched patterns (c :: rest) := by
        rw [List.length_take, Nat.min_eq_left le]
      refine ⟨(c :: rest).drop (matched patterns (c :: rest)), ?_, ?_, ?_, ?_⟩
      · exact (List.take_append_drop _ _).symm
      · intro empty
        have zero := congrArg List.length empty
        exact none (size.symm.trans zero)
      · exact (congrArg (matched patterns) (List.take_append_drop _ _)).trans size.symm
      · show _ = Scanner.mk _ _
        congr 1
        exact congrArg (s.pos + g.length + ·) size.symm

theorem token_of_expectRe
    (tokens : ∀ {tok after}, tok ≠ [] → matched patterns (tok ++ after) = tok.length →
      Token patterns tok)
    (h : expectRe desc patterns s = .ok (tok, s')) :
    Token patterns tok ∨ tok = [] ∧ desc.drop s'.pos = [] := by
  obtain ⟨g, rest, here, stretch⟩ := exists_stretch (desc.drop s.pos)
  rcases of_expectRe here stretch h with ⟨rfl, rfl, rfl⟩ | ⟨after, -, some, same, -⟩
  · exact .inr ⟨rfl, drop_past here⟩
  · exact .inl (tokens some same)

theorem Scanner.Sound.past {rest : List Char} (h : Sound desc s)
    (here : desc.drop s.pos = g ++ rest) (stretch : Stretch g rest) (split : rest = tok ++ after) :
    Sound desc (s.past g tok) := by
  have consumed := h.consumeWhitespace
  rw [consumeWhitespace_eq here stretch] at consumed
  refine consumed.advance ?_
  have bound := h.bound
  have length := congrArg List.length here
  rw [List.length_drop, split, List.length_append, List.length_append] at length
  show s.pos + g.length + tok.length ≤ desc.length
  omega

theorem Scanner.Sound.expectRe (h : Sound desc s)
    (read : expectRe desc patterns s = .ok (tok, s')) : Sound desc s' := by
  obtain ⟨g, rest, here, stretch⟩ := exists_stretch (desc.drop s.pos)
  rcases of_expectRe here stretch read with ⟨rfl, -, rfl⟩ | ⟨after, split, -, -, rfl⟩
  · exact h.past here stretch (List.append_nil []).symm
  · exact h.past here stretch split

theorem expectRe_end (here : desc.drop s.pos = []) : expectRe desc patterns s = .ok ([], s) := by
  have consumed := consumeWhitespace_eq (g := []) here (.gap .nil stops_nil)
  have same : consumeWhitespace desc s = s := consumed
  simp only [expectRe, same, here]
  rfl

end Expect

end Varlink
