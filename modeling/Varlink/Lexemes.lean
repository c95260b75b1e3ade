import Varlink.TypeSource

/-! The tokens of a text, with whitespace and comments between them, and the pieces
that a reader sees in it who knows nothing of types: words and punctuation marks. -/

namespace Varlink

open Regex Scanner

/-- A token as the scanner returns it. At the end of the text it is empty. -/
abbrev Lexeme := List Char

/-- The text up to `rest` has these tokens. Behind a word no word goes on. -/
inductive Spells : List Lexeme → List Char → List Char → Prop where
  | nil {rest : List Char} : Spells [] rest rest
  | token {tok : Lexeme} {toks : List Lexeme} {g after rest : List Char} (gap : Gap g)
      (some : tok ≠ []) (apart : tok.getLast?.any isWord = true → Boundary after)
      (behind : Spells toks after rest) : Spells (tok :: toks) (g ++ (tok ++ after)) rest
  | ends {toks : List Lexeme} {g rest : List Char} (stretch : Stretch g [])
      (behind : Spells toks [] rest) : Spells ([] :: toks) g rest

theorem Stretch.behind {g h rest : List Char} (stretch : Stretch h rest) (gap : Gap g) :
    Stretch (g ++ h) rest := by
  cases stretch with
  | gap gap' stops => exact .gap (gap.append gap') stops
  | unended gap' line =>
    rw [← List.append_assoc]
    exact .unended (gap.append gap') line

theorem Gap.eq_nil_or_head {g : List Char} (h : Gap g) :
    g = [] ∨ ∃ c g', g = c :: g' ∧ c ∈ '#' :: blanks := by
  cases h with
  | nil => exact .inl rfl
  | blank blank => exact .inr ⟨_, _, rfl, List.mem_cons_of_mem _ blank⟩
  | comment => exact .inr ⟨_, _, rfl, List.mem_cons_self⟩

theorem isWord_of_gap {c : Char} (gap : c ∈ '#' :: blanks) : isWord c = false :=
  Bool.eq_false_iff.mpr fun word => clean_of_isWord word gap

section Spells
variable {toks toks' : List Lexeme} {tok : Lexeme} {g text mid rest : List Char}

theorem Spells.append (h : Spells toks text mid) (h' : Spells toks' mid rest) :
    Spells (toks ++ toks') text rest := by
  induction h with
  | nil => exact h'
  | token gap some apart _ ih => exact .token gap some apart (ih h')
  | ends stretch _ ih => exact .ends stretch (ih h')

theorem Spells.split (h : Spells (toks ++ toks') text rest) :
    ∃ mid, Spells toks text mid ∧ Spells toks' mid rest := by
  induction toks generalizing text with
  | nil => exact ⟨text, .nil, h⟩
  | cons tok toks ih =>
    cases h with
    | token gap some apart behind =>
      obtain ⟨mid, first, second⟩ := ih behind
      exact ⟨mid, .token gap some apart first, second⟩
    | ends stretch behind =>
      obtain ⟨mid, first, second⟩ := ih behind
      exact ⟨mid, .ends stretch first, second⟩

theorem Spells.cons_inv (h : Spells (tok :: toks) text rest) (some : tok ≠ []) :
    ∃ g after, text = g ++ (tok ++ after) ∧ Gap g ∧
      (tok.getLast?.any isWord = true → Boundary after) ∧ Spells toks after rest := by
  cases h with
  | token gap _ apart behind => exact ⟨_, _, rfl, gap, apart, behind⟩
  | ends => exact absurd rfl some

theorem Spells.end_inv (h : Spells ([] :: toks) text rest) :
    Stretch text [] ∧ Spells toks [] rest := by
  cases h with
  | token _ some => exact absurd rfl some
  | ends stretch behind => exact ⟨stretch, behind⟩

theorem Spells.of_nil (h : Spells toks [] rest) :
    rest = [] ∧ toks = List.replicate toks.length [] := by
  induction toks with
  | nil =>
    cases h
    exact ⟨rfl, rfl⟩
  | cons tok toks ih =>
    by_cases some : tok = []
    · subst some
      obtain ⟨ends, same⟩ := ih h.end_inv.2
      exact ⟨ends, by rw [List.length_cons, List.replicate_succ, ← same]⟩
    · obtain ⟨g, after, nothing, -⟩ := h.cons_inv some
      simp [some] at nothing

theorem Spells.ends_last (h : Spells toks text rest) :
    ∃ us k, toks = us ++ List.replicate k [] ∧ [] ∉ us := by
  induction h with
  | nil => exact ⟨[], 0, rfl, List.not_mem_nil⟩
  | token _ some _ _ ih =>
    obtain ⟨us, k, rfl, none⟩ := ih
    refine ⟨_ :: us, k, rfl, ?_⟩
    rw [List.mem_cons, not_or]
    exact ⟨some.symm, none⟩
  | @ends toks _ _ _ behind =>
    refine ⟨[], toks.length + 1, ?_, List.not_mem_nil⟩
    rw [List.nil_append, List.replicate_succ, ← behind.of_nil.2]

theorem Spells.behind (h : Spells (tok :: toks) text rest) (stretch : Stretch g text) :
    Spells (tok :: toks) (g ++ text) rest := by
  by_cases some : tok = []
  · subst some
    obtain ⟨stretch', behind⟩ := h.end_inv
    refine .ends ?_ behind
    cases stretch with
    | gap gap => exact stretch'.behind gap
    | unended gap line =>
      rw [List.append_nil]
      exact .unended gap line
  · obtain ⟨g', after, rfl, gap', apart, behind⟩ := h.cons_inv some
    have gap : Gap g := by
      generalize nothing : g' ++ (tok ++ after) = t at stretch
      cases stretch with
      | gap gap => exact gap
      | unended => simp [some] at nothing
    rw [← List.append_assoc]
    exact .token (gap.append gap') some apart behind

end Spells

/-! ### Words and marks -/

structure IsWord (tok : Lexeme) : Prop where
  nonempty : tok ≠ []
  word : ∀ c ∈ tok, isWord c = true

theorem isWord_of_keyword :
    ∀ tok ∈ ["interface".toList, "type".toList, "error".toList, "method".toList], IsWord tok := by
  have known : ∀ tok ∈ ["interface".toList, "type".toList, "error".toList, "method".toList],
      tok ≠ [] ∧ tok.all isWord = true := by decide
  exact fun tok member => ⟨(known tok member).1, List.all_eq_true.mp (known tok member).2⟩

theorem IsWord.stops {tok : Lexeme} (h : IsWord tok) : Stops tok :=
  stops_of_clean fun c member => clean_of_isWord (h.word c member)

theorem IsWord.startsWord {tok : Lexeme} (h : IsWord tok) : tok.head?.any isWord = true := by
  obtain ⟨c, tail, rfl⟩ := List.exists_cons_of_ne_nil h.nonempty
  exact h.word c List.mem_cons_self

theorem IsWord.not_mark {tok : Lexeme} (h : IsWord tok) : tok ∉ punctuation := by
  intro known
  have none : ∀ mark ∈ punctuation, mark.all isWord ≠ true := by decide
  exact none tok known (List.all_eq_true.mpr h.word)

theorem IsWord.ne_mark {tok mark : Lexeme} (h : IsWord tok) (known : mark ∈ punctuation) :
    tok ≠ mark := by
  rintro rfl
  exact h.not_mark known

theorem IsWord.endsInWord {tok : Lexeme} (h : IsWord tok) : tok.getLast?.any isWord = true := by
  rw [List.getLast?_eq_some_getLast h.nonempty]
  exact h.word _ (List.getLast_mem h.nonempty)

theorem mark_endsInWord {tok : Lexeme} (known : tok ∈ punctuation) :
    tok.getLast?.any isWord = false :=
  (by decide : ∀ mark ∈ punctuation, mark.getLast?.any isWord = false) tok known

/-- Patterns of words, with no word going on behind them, and of marks. -/
structure Lexical (patterns : List (Regex Char)) : Prop where
  token : ∀ {tok after}, tok ≠ [] → matched patterns (tok ++ after) = tok.length →
    Token patterns tok
  kind : ∀ {tok after}, tok ≠ [] → matched patterns (tok ++ after) = tok.length →
    IsWord tok ∧ Boundary after ∨ tok ∈ punctuation

theorem isWord_of_matched_word {inner : Regex Char} (plain : Plain inner) {tok after : List Char}
    (some : tok ≠ []) (h : matched [word inner] (tok ++ after) = tok.length) :
    IsWord tok ∧ Boundary after := by
  have positive := List.length_pos_iff.mpr some
  exact ⟨⟨some, isWord_of_matched plain h⟩,
    boundary_of_word plain some (starts_of_matched h (by omega))⟩

theorem lexical_member : Lexical [memberPattern] :=
  ⟨token_member, fun some h => .inl (isWord_of_matched_word plain_member some h)⟩

theorem lexical_identifier : Lexical [identifierPattern] :=
  ⟨token_identifier, fun some h => .inl (isWord_of_matched_word plain_identifier some h)⟩

theorem lexical_keyword : Lexical [keywordPattern] := by
  refine ⟨token_keyword, fun {tok after} some h => ?_⟩
  have positive := List.length_pos_iff.mpr some
  rcases starts_keyword (starts_of_matched h (by omega)) with
    words | ⟨mark, known, after', eq, length⟩
  · exact .inl (isWord_of_matched_word plain_lower some (by rw [matched_singleton, words]; rfl))
  · obtain ⟨rfl, -⟩ := List.append_inj eq length
    exact .inr known

theorem lexical_type : Lexical [keywordPattern, memberPattern] := by
  refine ⟨token_type, fun some h => ?_⟩
  rw [matched_pair] at h
  split at h
  · exact lexical_member.kind some h
  · exact lexical_keyword.kind some h

theorem closes_of_matched {tok after : List Char} (some : tok ≠ [])
    (h : matched [closingBracket] (tok ++ after) = tok.length) : tok = [')'] := by
  have positive := List.length_pos_iff.mpr some
  obtain ⟨c, x, here, listed, one⟩ :=
    mem_run_one_drop.mp (List.mem_of_head? (starts_of_matched h (by omega)))
  obtain rfl : c = ')' := by simpa using listed
  exact (List.append_inj here one).1

theorem lexical_closingBracket : Lexical [closingBracket] := by
  refine ⟨fun some h => ?_, fun some h => .inr (closes_of_matched some h ▸ by decide)⟩
  obtain rfl := closes_of_matched some h
  exact ⟨some, clean_punctuation (by decide), fun after _ => closingBracket_matches after⟩

theorem Lexical.kind_of_token {patterns : List (Regex Char)} (lexical : Lexical patterns)
    {tok : Lexeme} (token : Token patterns tok) : IsWord tok ∨ tok ∈ punctuation :=
  (lexical.kind token.nonempty (token.reads [] boundary_nil)).imp_left And.left

section Reading
variable {desc : List Char} {patterns : List (Regex Char)} {s s' : Scanner} {tok : Lexeme}

theorem expectRe_inv (h : expectRe desc patterns s = .ok (tok, s')) :
    tok = [] ∧ Stretch (desc.drop s.pos) [] ∧ desc.drop s'.pos = [] ∨
      tok ≠ [] ∧ ∃ g, Gap g ∧ desc.drop s.pos = g ++ (tok ++ desc.drop s'.pos) ∧
        matched patterns (tok ++ desc.drop s'.pos) = tok.length := by
  obtain ⟨g, rest, here, stretch⟩ := exists_stretch (desc.drop s.pos)
  rcases of_expectRe here stretch h with ⟨rfl, rfl, rfl⟩ | ⟨after, rfl, some, same, rfl⟩
  · refine .inl ⟨rfl, ?_, drop_past here⟩
    rwa [here, List.append_nil]
  · rw [drop_past here]
    refine .inr ⟨some, g, ?_, here, same⟩
    generalize nothing : tok ++ after = t at stretch
    cases stretch with
    | gap gap => exact gap
    | unended => simp [some] at nothing

theorem spells_of_expectRe (lexical : Lexical patterns)
    (h : expectRe desc patterns s = .ok (tok, s')) :
    (tok = [] ∧ desc.drop s'.pos = [] ∨ Token patterns tok) ∧
      Spells [tok] (desc.drop s.pos) (desc.drop s'.pos) := by
  rcases expectRe_inv h with ⟨rfl, stretch, ends⟩ | ⟨some, g, gap, here, same⟩
  · rw [ends]
    exact ⟨.inl ⟨rfl, rfl⟩, .ends stretch .nil⟩
  · rw [here]
    refine ⟨.inr (lexical.token some same), .token gap some (fun inWord => ?_) .nil⟩
    rcases lexical.kind some same with ⟨-, boundary⟩ | known
    · exact boundary
    · rw [mark_endsInWord known] at inWord
      cases inWord

end Reading

/-! ### The pieces of a text -/

def skipGap (text : List Char) : List Char := text.drop ((whitespace.starts text).getD 0)

theorem skipGap_stretch {g rest : List Char} (stretch : Stretch g rest) :
    skipGap (g ++ rest) = rest := by
  rw [skipGap, starts_whitespace stretch]
  split
  · rename_i empty
    rw [empty]
    rfl
  · exact List.drop_left

def lexemeSize (text : List Char) : Nat :=
  if text.head?.any isWord then (text.takeWhile isWord).length else matched [keywordPattern] text

theorem lexemeSize_word {tok after : List Char} (word : IsWord tok) (boundary : Boundary after) :
    lexemeSize (tok ++ after) = tok.length := by
  have inWord : (tok ++ after).head?.any isWord = true := by
    obtain ⟨c, tail, rfl⟩ := List.exists_cons_of_ne_nil word.nonempty
    exact word.word c List.mem_cons_self
  have stop : after.takeWhile isWord = [] := by
    cases after with
    | nil => rfl
    | cons c after => rw [List.takeWhile_cons_of_neg (by rw [boundary_cons.mp boundary]; decide)]
  rw [lexemeSize, if_pos inWord, List.takeWhile_append_of_pos word.word, stop, List.append_nil]

theorem lexemeSize_mark {tok : Lexeme} (known : tok ∈ punctuation) (after : List Char) :
    lexemeSize (tok ++ after) = tok.length := by
  have other : (tok ++ after).head?.any isWord = false := by
    have heads : ∀ mark ∈ punctuation, mark ≠ [] ∧ mark.head?.any isWord = false := by decide
    obtain ⟨some, head⟩ := heads tok known
    obtain ⟨c, tail, rfl⟩ := List.exists_cons_of_ne_nil some
    exact head
  rw [lexemeSize, other, if_neg (by decide), matched_punctuation known]

/-- The words and the marks of a text, as far as there is nothing else in it. -/
def lexemes : Nat → List Char → List Lexeme
  | 0, _ => []
  | n + 1, text =>
    let rest := skipGap text
    if lexemeSize rest = 0 then []
    else rest.take (lexemeSize rest) :: lexemes n (rest.drop (lexemeSize rest))

theorem lexemes_ends {g : List Char} (stretch : Stretch g []) (n : Nat) : lexemes n g = [] := by
  cases n with
  | zero => rfl
  | succ n =>
    have nothing : skipGap g = [] := by
      have skip := skipGap_stretch stretch
      rwa [List.append_nil] at skip
    rw [lexemes]
    simp only [nothing]
    rfl

theorem lexemes_of_spells {toks : List Lexeme} {text rest : List Char}
    (h : Spells toks text rest) (ended : rest = [])
    (kinds : ∀ tok ∈ toks, tok = [] ∨ IsWord tok ∨ tok ∈ punctuation) {n : Nat}
    (enough : text.length ≤ n) : lexemes n text = toks.filter (· ≠ []) := by
  induction h generalizing n with
  | nil =>
    subst ended
    exact lexemes_ends (.gap .nil stops_nil) n
  | @token tok toks g after rest gap some apart behind ih =>
    have kind := (kinds tok List.mem_cons_self).resolve_left some
    have positive := List.length_pos_iff.mpr some
    simp only [List.length_append] at enough
    obtain ⟨n, rfl⟩ : ∃ k, n = k + 1 := ⟨n - 1, by omega⟩
    have stops : Stops tok := by
      rcases kind with word | known
      · exact word.stops
      · exact (token_punctuation known).stops
    have size : lexemeSize (tok ++ after) = tok.length := by
      rcases kind with word | known
      · exact lexemeSize_word word (apart word.endsInWord)
      · exact lexemeSize_mark known after
    rw [lexemes]
    simp only [skipGap_stretch (.gap gap (stops.append some)), size, List.take_left,
      List.drop_left]
    rw [if_neg (by omega), List.filter_cons_of_pos (by simpa using some),
      ih ended (fun t member => kinds t (List.mem_cons_of_mem tok member)) (by omega)]
  | @ends toks g rest stretch behind ih =>
    have nothing : toks.filter (· ≠ []) = [] := by
      rw [behind.of_nil.2]
      simp
    rw [lexemes_ends stretch, List.filter_cons_of_neg (by simp), nothing]

/-! ### The pieces behind the name of the interface -/

theorem gap_of_boundary {tok : Lexeme} {toks : List Lexeme} {text rest : List Char}
    (head : tok.head?.any isWord = true) (boundary : Boundary text)
    (spells : Spells (tok :: toks) text rest) : ∃ c x, text = c :: x ∧ c ∈ '#' :: blanks := by
  have some : tok ≠ [] := by
    rintro rfl
    cases head
  obtain ⟨g, after, rfl, gap, -⟩ := spells.cons_inv some
  rcases gap.eq_nil_or_head with rfl | ⟨c, g, rfl, blank⟩
  · obtain ⟨c, tail, rfl⟩ := List.exists_cons_of_ne_nil some
    exact absurd (show isWord c = true from head) (by rw [boundary_cons.mp boundary]; decide)
  · exact ⟨c, g ++ (tok ++ after), rfl, blank⟩

def afterWord (text : List Char) : List Char :=
  (skipGap text).dropWhile fun c => c ∉ '#' :: blanks

def behindName (text : List Char) : List Char := afterWord (afterWord text)

theorem afterWord_eq {g tok x : List Char} {c : Char} (gap : Gap g) (some : tok ≠ [])
    (clean : ∀ c ∈ tok, c ∉ '#' :: blanks) (blank : c ∈ '#' :: blanks) :
    afterWord (g ++ (tok ++ c :: x)) = c :: x := by
  rw [afterWord, skipGap_stretch (.gap gap ((stops_of_clean clean).append some)),
    List.dropWhile_append_of_pos fun d member => by simpa using clean d member,
    List.dropWhile_cons_of_neg (by rw [decide_eq_true_eq, not_not]; exact blank)]

theorem behindName_of_spells {name x : List Char} {tok : Lexeme} {toks : List Lexeme}
    {text rest : List Char} (some : name ≠ [])
    (ifname : matched [ifnamePattern] (name ++ x) = name.length)
    (head : tok.head?.any isWord = true)
    (spells : Spells ("interface".toList :: name :: tok :: toks) text rest) :
    Spells (tok :: toks) (behindName text) rest := by
  have interface_ : IsWord "interface".toList := isWord_of_keyword _ (by decide)
  have lower : name.head?.any isWord = true := by
    have first := startsLower_ifname some ifname
    obtain ⟨c, tail, rfl⟩ := List.exists_cons_of_ne_nil some
    exact isWord_of_lower first
  obtain ⟨g, after, rfl, gap, apart, atName⟩ := spells.cons_inv interface_.nonempty
  obtain ⟨c, y, rfl, blank⟩ := gap_of_boundary lower (apart interface_.endsInWord) atName
  obtain ⟨g', after', here, gap', apart', behind⟩ := atName.cons_inv some
  obtain ⟨d, z, rfl, blank'⟩ :=
    gap_of_boundary head (apart' (endsInWord_ifname some ifname)) behind
  rw [behindName, afterWord_eq gap interface_.nonempty
    (fun c member => clean_of_isWord (interface_.word c member)) blank, here,
    afterWord_eq gap' some (clean_ifname ifname) blank']
  exact behind

def memberLexemes (text : List Char) : List Lexeme :=
  lexemes (behindName text).length (behindName text)

theorem memberLexemes_of_spells {name x : List Char} {toks : List Lexeme} {text : List Char}
    (some : name ≠ []) (ifname : matched [ifnamePattern] (name ++ x) = name.length)
    (head : (toks.head?.any fun tok => tok.head?.any isWord) = true)
    (kinds : ∀ tok ∈ toks, tok = [] ∨ IsWord tok ∨ tok ∈ punctuation)
    (spells : Spells ("interface".toList :: name :: (toks ++ [[]])) text []) :
    memberLexemes text = toks.filter (· ≠ []) := by
  cases toks with
  | nil => cases head
  | cons tok toks =>
    have behind : Spells (tok :: toks ++ [[]]) (behindName text) [] :=
      behindName_of_spells some ifname head spells
    rw [memberLexemes, lexemes_of_spells behind rfl (List.forall_mem_append.mpr
      ⟨kinds, List.forall_mem_singleton.mpr (.inl rfl)⟩) (Nat.le_refl _), List.filter_append]
    exact List.append_nil _

end Varlink
