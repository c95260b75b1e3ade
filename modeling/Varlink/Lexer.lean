import Varlink.ScannerSound
import Varlink.Library.Agreement

/-! The two builds of the scanner. They share all of it but `expect_re`, which is written
over `ctre` or, with `VARLINK_DISABLE_CTRE`, over `std::regex`. -/

namespace Varlink

open Regex Scanner

/-- `expect_re` of a build, and where it has left the scanner when it throws. -/
structure Lexer where
  expectRe : List (Regex Char) → Scanner → Except Stop (List Char × Scanner)
  thrownAt : Scanner → Scanner

namespace Lexer
variable (L : Lexer) (desc : List Char)

def expectKeyword (keyword : List Char) (s : Scanner) : Except Stop Scanner := do
  let (found, s) ← L.expectRe [keywordPattern] s
  if found = keyword then .ok s
  else throwRuntimeError (String.ofList ("Expected ".toList ++ keyword))

def readInterfaceName (s : Scanner) : Except Stop (List Char × Scanner) := do
  let s ← L.expectKeyword "interface".toList s
  L.expectRe [ifnamePattern] s

mutual

def readStruct : Nat → Bool → Scanner → Except Stop (TypeDef TypeSpec × Scanner)
  | 0, _, _ => .error .stackOverflow
  | stack + 1, readFirstBracket, s => do
    let s ← if readFirstBracket then L.expectKeyword ['('] s else .ok s
    match L.expectRe [closingBracket] s with
    | .ok (_, s) => .ok (.struct [], s)
    | .error (.thrown _) => readFields stack .invalid (L.thrownAt s)
    | .error stop => .error stop

def readFields : Nat → TypeDef TypeSpec → Scanner → Except Stop (TypeDef TypeSpec × Scanner)
  | 0, _, _ => .error .stackOverflow
  | stack + 1, fields, s => do
    let (name, s) ← L.expectRe [identifierPattern] s
    let (keyword, s) ← L.expectRe [keywordPattern] s
    let fields ← openFields fields keyword
    match fields with
    | .struct fields =>
      if keyword = [':'] then do
        let (type, s) ← readTypeSpec stack false s
        let (keyword, s) ← L.expectRe [keywordPattern] s
        let fields := fields ++ [(String.ofList name, type)]
        if keyword = [')'] then .ok (.struct fields, s) else readFields stack (.struct fields) s
      else throwRuntimeError (String.ofList ("Parser error, last keyword: ".toList ++ keyword))
    | .enum values =>
      let values := values ++ [String.ofList name]
      if keyword = [')'] then .ok (.enum values, s)
      else if keyword = [','] then readFields stack (.enum values) s
      else throwRuntimeError (String.ofList ("Parser error, last keyword: ".toList ++ keyword))
    | _ => throwRuntimeError (String.ofList ("Parser error, last keyword: ".toList ++ keyword))

def readTypeSpec : Nat → Bool → Scanner → Except Stop (TypeSpec × Scanner)
  | 0, _, _ => .error .stackOverflow
  | stack + 1, wasMaybe, s => do
    let (keyword, s) ← L.expectRe [keywordPattern, memberPattern] s
    if keyword = ['?'] then
      if wasMaybe then throwRuntimeError "Double '?'"
      else do
        let (type, s) ← readTypeSpec stack true s
        .ok ({ type with maybeType := true }, s)
    else if keyword = dictPrefix then do
      let (type, s) ← readTypeSpec stack false s
      .ok ({ type with dictType := true }, s)
    else if keyword = ['[', ']'] then do
      let (type, s) ← readTypeSpec stack false s
      .ok ({ type with arrayType := true }, s)
    else if keyword = ['('] then do
      let (type, s) ← readStruct stack false s
      .ok ({ type := type }, s)
    else .ok ({ type := .string (String.ofList keyword) }, s)

end

def readMethodSpec (stack : Nat) (s : Scanner) : Except Stop (TypeSpec × Scanner) := do
  let (parameters, s) ← L.readStruct stack true s
  let s ← L.expectKeyword ['-', '>'] s
  let (returnValue, s) ← L.readStruct stack true s
  .ok ({ type := .struct [("parameters", { type := parameters }),
    ("return_value", { type := returnValue })] }, s)

def readData (kind : MemberKind) (stack : Nat) (s : Scanner) : Except Stop (TypeSpec × Scanner) :=
  if kind = .method then L.readMethodSpec stack s else L.readTypeSpec stack false s

def readMember (stack : Nat) (s : Scanner) : Except Stop (Member × Scanner) := do
  let (keyword, s) ← L.expectRe [keywordPattern] s
  let kind ← readKind keyword
  let (name, s) ← L.expectRe [memberPattern] s
  let (description, s) := getDocstring desc s
  let (data, s) ← L.readData kind stack s
  .ok ({ kind, name := String.ofList name, description, data }, s)

def readMembers : Nat → List Member → Scanner → Except Stop (List Member)
  | 0, _, _ => .error .stackOverflow
  | stack + 1, members, s => do
    let (member, s) ← L.readMember desc stack s
    if member.kind = .undefined then .ok members
    else if members.any (·.name == member.name) then
      throwInvalidArgument "Member names must be unique"
    else readMembers stack (members ++ [member]) s

def construct (build : List Char → Lexer) (stack : Nat) (description : String) :
    Except Stop VarlinkInterface := do
  let desc := description.toList
  let (ifname, s) ← (build desc).readInterfaceName {}
  let (documentation, s) := getDocstring desc s
  let members ← (build desc).readMembers desc stack [] s
  if members.isEmpty then throwInvalidArgument "At least one member is required"
  else .ok { ifname := String.ofList ifname, documentation, members }

end Lexer

def Lexer.ctre (desc : List Char) : Lexer where
  expectRe := Scanner.expectRe desc
  thrownAt := Scanner.consumeWhitespace desc

namespace StdRegex

def searchHere (rest : List Char) (pattern : Regex Char) : Option Nat :=
  match pattern.search rest with
  | some (0, size) => some size
  | _ => none

/-- The match that stays in `m`: the last pattern that matches here wins. -/
def lastMatch (rest : List Char) (patterns : List (Regex Char)) : Option Nat :=
  patterns.foldl (fun m pattern => (searchHere rest pattern).or m) none

def lastFound (rest : List Char) (patterns : List (Regex Char)) : List Char × List Char :=
  match patterns.getLast?.bind fun pattern => pattern.search rest with
  | some (i, j) => ((rest.take j).drop i, rest.take i)
  | none => ([], [])

-- `std::regex` recurses with each character of a match: some searches are too deep for the stack
variable (deep : Regex Char → List Char → Bool)

/-- The loop of a `cregex_iterator`, which goes on behind each match. -/
def collectDoc : Nat → List Char → Nat → View → Except Stop View
  | 0, _, _, doc => .ok doc
  | n + 1, s, data, doc =>
    if deep docstring s then .error .stackOverflow
    else match docstring.search s with
      | none => .ok doc
      | some (i, j) =>
        collectDoc n (s.drop j) (data + j)
          (if doc.size = 0 then ⟨data + i, j - i⟩
            else ⟨doc.data, (data + i - doc.data) + (j - i)⟩)

variable (desc : List Char)

def consumeWhitespace (s : Scanner) : Except Stop Scanner :=
  if deep whitespace (desc.drop s.pos) then .error .stackOverflow
  else match searchHere (desc.drop s.pos) whitespace with
    | some size => do
      let doc ← collectDoc deep size ((desc.drop s.pos).take size) s.pos s.currentDoc
      .ok { pos := s.pos + size, currentDoc := doc }
    | none => .ok s

def expectRe (patterns : List (Regex Char)) (s : Scanner) :
    Except Stop (List Char × Scanner) := do
  let s ← consumeWhitespace deep desc s
  let rest := desc.drop s.pos
  if rest.isEmpty then .ok ([], s)
  else if patterns.any fun pattern => deep pattern rest then .error .stackOverflow
  else match lastMatch rest patterns with
    | some size => .ok (rest.take size, { s with pos := s.pos + size })
    | none =>
      let (found, before) := lastFound rest patterns
      throwRuntimeError (String.ofList
        ("interface error".toList ++ found ++ " | ".toList ++ before))

def thrownAt (s : Scanner) : Scanner :=
  match consumeWhitespace deep desc s with
  | .ok s => s
  | .error _ => s

end StdRegex

def Lexer.std (deep : List Char → Regex Char → List Char → Bool) (desc : List Char) : Lexer where
  expectRe := StdRegex.expectRe (deep desc) desc
  thrownAt := StdRegex.thrownAt (deep desc) desc

/-! ### The same slice of comments -/

namespace StdRegex

theorem searchHere_eq {rest : List Char} {pattern : Regex Char} :
    searchHere rest pattern = pattern.starts rest := by
  refine Option.ext fun size => ?_
  rw [← search_eq_zero_iff]
  unfold searchHere
  split
  · rename_i found
    rw [found, Option.some_inj, Option.some_inj, Prod.mk.injEq]
    exact ⟨fun same => ⟨rfl, same⟩, And.right⟩
  · rename_i elsewhere
    exact ⟨fun none => absurd none (Option.some_ne_none size).symm,
      fun found => absurd found (elsewhere size)⟩

variable (deep : Regex Char → List Char → Bool)

structure Overflows {α : Type} (x : Except Stop α) : Prop where
  search : ∃ pattern rest, deep pattern rest = true
  stop : x = .error .stackOverflow

theorem collectDoc_extend {n : Nat} {s : List Char} (data : Nat) (doc : View)
    (enough : s.length ≤ n) (nonempty : doc.size ≠ 0)
    (behind : ∀ i j, docstring.search s = some (i, j) → doc.data ≤ data + i) :
    Overflows deep (collectDoc deep n s data doc) ∨
      (docstring.search s = none ∧ collectDoc deep n s data doc = .ok doc ∨
        ∃ e, DocEnd s e ∧ docstring.search (s.drop e) = none ∧
          collectDoc deep n s data doc = .ok ⟨doc.data, data + e - doc.data⟩) := by
  induction n generalizing s data doc with
  | zero =>
    obtain rfl : s = [] := List.length_eq_zero_iff.mp (by omega)
    exact .inr (.inl ⟨rfl, rfl⟩)
  | succ n ih =>
    rw [collectDoc]
    split
    · next search => exact .inl ⟨⟨_, _, search⟩, rfl⟩
    cases found : docstring.search s with
    | none => exact .inr (.inl ⟨rfl, rfl⟩)
    | some ends =>
      obtain ⟨i, j⟩ := ends
      obtain ⟨start, ends, -⟩ := search_eq_some_iff.mp found
      obtain ⟨-, progress, bound⟩ := lt_of_search_docstring found
      have first := behind i j found
      have size : (data + i - doc.data) + (j - i) = data + j - doc.data := by omega
      dsimp only
      rw [size]
      have next := ih (s := s.drop j) (data + j) ⟨doc.data, data + j - doc.data⟩
        (by rw [List.length_drop]; omega)
        (by show data + j - doc.data ≠ 0; omega) fun i' j' _ => by
          show doc.data ≤ _
          omega
      refine next.imp_right fun next => .inr ?_
      rcases next with ⟨none, same⟩ | ⟨e, docEnd, none, same⟩
      · exact ⟨j, docEnd_of_mem_run start (List.mem_of_head? ends), none, same⟩
      · refine ⟨j + e, docEnd.of_drop bound, by rwa [← List.drop_drop], ?_⟩
        rw [same, Nat.add_assoc]

theorem collectDoc_begin {n : Nat} {s : List Char} {doc : View} (data : Nat) (enough : s.length ≤ n)
    (empty : doc.size = 0) :
    Overflows deep (collectDoc deep n s data doc) ∨
      (docstring.search s = none ∧ collectDoc deep n s data doc = .ok doc ∨
        ∃ i j e, docstring.search s = some (i, j) ∧ DocEnd s e ∧
          docstring.search (s.drop e) = none ∧
          collectDoc deep n s data doc = .ok ⟨data + i, e - i⟩) := by
  cases n with
  | zero =>
    obtain rfl : s = [] := List.length_eq_zero_iff.mp (by omega)
    exact .inr (.inl ⟨rfl, rfl⟩)
  | succ n =>
    rw [collectDoc]
    split
    · next search => exact .inl ⟨⟨_, _, search⟩, rfl⟩
    cases found : docstring.search s with
    | none => exact .inr (.inl ⟨rfl, rfl⟩)
    | some ends =>
      obtain ⟨i, j⟩ := ends
      obtain ⟨start, ends, -⟩ := search_eq_some_iff.mp found
      obtain ⟨-, progress, bound⟩ := lt_of_search_docstring found
      dsimp only
      have next := @collectDoc_extend deep n (s.drop j) (data + j) ⟨data + i, j - i⟩
        (by rw [List.length_drop]; omega)
        (by show j - i ≠ 0; omega) fun i' j' _ => by
          show data + i ≤ _
          omega
      refine next.imp_right fun next => .inr ?_
      rcases next with ⟨none, same⟩ | ⟨e, docEnd, none, same⟩
      · exact ⟨i, j, j, rfl, docEnd_of_mem_run start (List.mem_of_head? ends), none, same⟩
      · refine ⟨i, j, j + e, rfl, docEnd.of_drop bound, by rwa [← List.drop_drop], ?_⟩
        rw [same]
        have size : data + j + e - (data + i) = j + e - i := by omega
        rw [size]

theorem docEnd_unique {s : List Char} {e e' : Nat} (docEnd : DocEnd s e) (docEnd' : DocEnd s e')
    (none : docstring.search (s.drop e) = none) (none' : docstring.search (s.drop e') = .none) :
    e = e' :=
  Nat.le_antisymm (docEnd_le docEnd' none' docEnd) (docEnd_le docEnd none docEnd')

/-- Both loops span the comments from the first to the last one. The other build goes on
behind as many characters as a comment has, and may meet a part of it again. -/
theorem collectDoc_eq {n data : Nat} {s : List Char} {doc : View} (enough : s.length ≤ n)
    (behind : doc.size ≠ 0 → doc.data ≤ data) :
    Overflows deep (collectDoc deep n s data doc) ∨
      collectDoc deep n s data doc = .ok (Varlink.collectDoc n s data doc) := by
  have absent {e : Nat} (none : docstring.search s = none) (docEnd : DocEnd s e) : False :=
    search_docstring_eq_none_iff.mp none e docEnd
  by_cases empty : doc.size = 0
  · have here := collectDoc_begin deep data enough empty
    have there := @Varlink.collectDoc_begin n data s doc enough empty
    refine here.imp_right fun here => ?_
    rcases here with ⟨none, same⟩ | ⟨i, j, e, found, docEnd, none, same⟩ <;>
    rcases there with ⟨none', same'⟩ | ⟨i', j', e', found', docEnd', none', same'⟩
    · rw [same, same']
    · exact (absent none docEnd').elim
    · exact (absent none' docEnd).elim
    · cases found.symm.trans found'
      rw [same, same', docEnd_unique docEnd docEnd' none none']
  · have inside : ∀ i j, docstring.search s = some (i, j) → doc.data ≤ data + i :=
      fun i j _ => Nat.le_trans (behind empty) (Nat.le_add_right data i)
    refine (collectDoc_extend deep data doc enough empty inside).imp_right fun here => ?_
    rcases here with ⟨none, same⟩ | ⟨e, docEnd, none, same⟩ <;>
    rcases Varlink.collectDoc_extend data doc enough empty inside with
      ⟨none', same'⟩ | ⟨e', docEnd', none', same'⟩
    · rw [same, same']
    · exact (absent none docEnd').elim
    · exact (absent none' docEnd).elim
    · rw [same, same', docEnd_unique docEnd docEnd' none none']

variable {desc : List Char} {s : Scanner}

theorem consumeWhitespace_eq (sound : Sound desc s) :
    Overflows deep (consumeWhitespace deep desc s) ∨
      consumeWhitespace deep desc s = .ok (Scanner.consumeWhitespace desc s) := by
  have behind (some : s.currentDoc.size ≠ 0) : s.currentDoc.data ≤ s.pos := by
    have inside := (sound.doc.resolve_left some).1
    omega
  unfold consumeWhitespace Scanner.consumeWhitespace
  rw [searchHere_eq]
  split
  · next search => exact .inl ⟨⟨_, _, search⟩, rfl⟩
  cases whitespace.starts (desc.drop s.pos) with
  | none => exact .inr rfl
  | some size =>
    dsimp only
    rcases collectDoc_eq deep (List.length_take_le size (desc.drop s.pos)) behind with
      ⟨search, overflows⟩ | same
    · exact .inl ⟨search, by rw [overflows]; rfl⟩
    · right
      rw [same]
      rfl

theorem thrownAt_eq {patterns : List (Regex Char)} {e : Exn} (sound : Sound desc s)
    (thrown : expectRe deep desc patterns s = .error (.thrown e)) :
    thrownAt deep desc s = Scanner.consumeWhitespace desc s := by
  rcases consumeWhitespace_eq deep sound with ⟨-, overflows⟩ | same
  · rw [expectRe, overflows] at thrown
    cases thrown
  · rw [thrownAt, same]

/-! ### The same tokens -/

/-- The patterns of one call of `expect_re` leave no choice and match no empty text. -/
structure Definite (patterns : List (Regex Char)) : Prop where
  some : ∀ p ∈ patterns, 0 < p.least
  alone : ∀ rest, patterns.Pairwise fun p q => p.starts rest = none ∨ q.starts rest = none

/-- The last match is then the first one. The induction keeps that no pattern matches
behind one that has matched. -/
theorem lastMatch_eq {rest : List Char} {patterns : List (Regex Char)}
    (some : ∀ p ∈ patterns, 0 < p.least)
    (alone : patterns.Pairwise fun p q => p.starts rest = none ∨ q.starts rest = none) :
    matched patterns rest = (lastMatch rest patterns).getD 0 ∧
      ∀ size, lastMatch rest patterns = .some size → 0 < size := by
  have fold (m : Option Nat) (positive : ∀ size, m = .some size → 0 < size)
      (none : m ≠ .none → ∀ p ∈ patterns, p.starts rest = .none) :
      patterns.foldl (matchOne rest) (m.getD 0) =
        (patterns.foldl (fun m pattern => (searchHere rest pattern).or m) m).getD 0 ∧
      ∀ size, patterns.foldl (fun m pattern => (searchHere rest pattern).or m) m = .some size →
        0 < size := by
    induction patterns generalizing m with
    | nil => exact ⟨rfl, positive⟩
    | cons p patterns ih =>
      obtain ⟨someHead, someTail⟩ := List.forall_mem_cons.mp some
      obtain ⟨head, tail⟩ := List.pairwise_cons.mp alone
      simp only [List.foldl_cons, searchHere_eq, matchOne]
      cases starts : p.starts rest with
      | none =>
        simp only [Option.none_or]
        simp only [searchHere_eq] at ih
        exact ih someTail tail m positive fun h q member => none h q (List.mem_cons_of_mem p member)
      | some size =>
        have first : m = .none := by
          by_contra already
          cases (none already p List.mem_cons_self).symm.trans starts
        have length := least_le_of_mem_run (List.mem_of_head? starts)
        subst first
        simp only [Option.getD_none, if_true, Option.or_none]
        simp only [searchHere_eq] at ih
        refine ih someTail tail (.some size) (fun n same => ?_) fun _ q member => ?_
        · cases same
          omega
        · refine (head q member).resolve_left fun h => ?_
          cases h.symm.trans starts
  refine fold none (fun size none => ?_) fun h => absurd rfl h
  cases none

def SameClass (e e' : Stop) : Prop :=
  e = e' ∨ ∃ what what', e = .thrown (.standard .runtimeError what) ∧
    e' = .thrown (.standard .runtimeError what')

theorem expectRe_agrees {G : Stop → Prop} {patterns : List (Regex Char)} (sound : Sound desc s)
    (definite : Definite patterns)
    (overflows : ∀ pattern rest, deep pattern rest = true → G .stackOverflow) :
    Agree SameClass G (expectRe deep desc patterns s) (Scanner.expectRe desc patterns s) := by
  have given : (∃ pattern rest, deep pattern rest = true) → G .stackOverflow := by
    rintro ⟨pattern, rest, search⟩
    exact overflows pattern rest search
  unfold expectRe Scanner.expectRe
  rcases consumeWhitespace_eq deep sound with ⟨search, stop⟩ | same
  · rw [stop]
    exact .gaveUp (given search) _
  rw [same]
  obtain ⟨matched_, positive⟩ := lastMatch_eq definite.some
    (definite.alone (desc.drop (Scanner.consumeWhitespace desc s).pos))
  unfold matched at matched_
  refine .ite (.ok _) ?_
  split
  · next search =>
    obtain ⟨pattern, -, search⟩ := List.any_eq_true.mp search
    exact .gaveUp (overflows pattern _ search) _
  rw [matched_]
  cases found : lastMatch (desc.drop (Scanner.consumeWhitespace desc s).pos) patterns with
  | none => exact .error (.inr ⟨_, _, rfl, rfl⟩)
  | some size =>
    obtain ⟨n, rfl⟩ : ∃ n, size = n + 1 := ⟨size - 1, by have := positive size found; omega⟩
    exact .ok _

end StdRegex

/-! ### The same interfaces -/

namespace Lexer

def calls : List (List (Regex Char)) :=
  [[keywordPattern], [closingBracket], [identifierPattern], [ifnamePattern], [memberPattern],
    [keywordPattern, memberPattern]]

/-- A build whose `expect_re` does as the one over `ctre`, but for the errors. -/
structure Like (E : Stop → Stop → Prop) (G : Stop → Prop) (desc : List Char) (L : Lexer) :
    Prop where
  same : ∀ e, E e e
  thrown : ∀ {e e'}, E e (.thrown e') → ∃ e'', e = .thrown e''
  given : ∀ {e}, ¬G (.thrown e)
  expectRe : ∀ {patterns s}, patterns ∈ calls → Sound desc s →
    Agree E G (L.expectRe patterns s) (Scanner.expectRe desc patterns s)
  thrownAt : ∀ {patterns s e}, Sound desc s → L.expectRe patterns s = .error (.thrown e) →
    L.thrownAt s = consumeWhitespace desc s

variable {E : Stop → Stop → Prop} {G : Stop → Prop} {desc : List Char} {L : Lexer} {s : Scanner}

theorem like_ctre (desc : List Char) : Like Eq (fun _ => False) desc (ctre desc) where
  same _ := rfl
  thrown same := ⟨_, same⟩
  given := id
  expectRe _ _ := .refl (fun _ => rfl) _
  thrownAt _ _ := rfl

theorem definite_singleton {p : Regex Char} (some : 0 < p.least) : StdRegex.Definite [p] :=
  ⟨List.forall_mem_singleton.mpr some, fun _ => List.pairwise_singleton _ _⟩

theorem definite_type : StdRegex.Definite [keywordPattern, memberPattern] := by
  refine ⟨by decide, fun rest => List.pairwise_pair.mpr ?_⟩
  cases starts : memberPattern.starts rest with
  | none => exact .inr rfl
  | some size =>
    left
    obtain ⟨c, head, upper⟩ := upper_of_starts_member starts
    obtain ⟨tail, rfl⟩ : ∃ tail, rest = c :: tail := List.head?_eq_some_iff.mp head
    have none : matched [keywordPattern] (c :: tail) = 0 := matched_keyword_upper upper
    rw [matched_singleton] at none
    cases keyword : keywordPattern.starts (c :: tail) with
    | none => rfl
    | some n =>
      have positive : 0 + keywordPattern.least ≤ n :=
        least_le_of_mem_run (List.mem_of_head? keyword)
      rw [keyword] at none
      cases none
      exact absurd positive (by decide)

theorem definite_of_calls {patterns : List (Regex Char)} (call : patterns ∈ calls) :
    StdRegex.Definite patterns := by
  simp only [calls, List.mem_cons, List.not_mem_nil, or_false] at call
  rcases call with rfl | rfl | rfl | rfl | rfl | rfl
  · exact definite_singleton (by decide)
  · exact definite_singleton (by decide)
  · exact definite_singleton (by decide)
  · exact definite_singleton (by decide)
  · exact definite_singleton (by decide)
  · exact definite_type

theorem like_std {deep : List Char → Regex Char → List Char → Bool} (desc : List Char)
    (given : ∀ {e}, ¬G (.thrown e))
    (overflows : ∀ pattern rest, deep desc pattern rest = true → G .stackOverflow) :
    Like StdRegex.SameClass G desc (std deep desc) where
  same _ := .inl rfl
  thrown := by
    rintro e e' (rfl | ⟨_, _, rfl, -⟩)
    · exact ⟨_, rfl⟩
    · exact ⟨_, rfl⟩
  given := given
  expectRe call sound := StdRegex.expectRe_agrees _ sound (definite_of_calls call) overflows
  thrownAt := StdRegex.thrownAt_eq _

theorem expectKeyword_agrees (like : Like E G desc L) (keyword : List Char) (sound : Sound desc s) :
    Agree E G (L.expectKeyword keyword s) (Scanner.expectKeyword desc keyword s) :=
  .bind (like.expectRe (by simp [calls]) sound) fun _ _ => .refl like.same _

theorem expectRe_throws {patterns : List (Regex Char)} {e : Stop}
    (fails : Scanner.expectRe desc patterns s = .error e) : ∃ e', e = .thrown e' := by
  unfold Scanner.expectRe at fails
  dsimp only at fails
  split at fails
  · cases fails
  · split at fails
    · cases fails
      exact ⟨_, rfl⟩
    · cases fails

/-- The three functions do as those over `ctre` wherever the scanner is sound. -/
structure Reads (E : Stop → Stop → Prop) (G : Stop → Prop) (desc : List Char) (L : Lexer)
    (stack : Nat) : Prop where
  struct : ∀ bracket {s}, Sound desc s →
    Agree E G (L.readStruct stack bracket s) (Scanner.readStruct desc stack bracket s)
  fields : ∀ fields {s}, Sound desc s →
    Agree E G (L.readFields stack fields s) (Scanner.readFields desc stack fields s)
  type : ∀ wasMaybe {s}, Sound desc s →
    Agree E G (L.readTypeSpec stack wasMaybe s) (Scanner.readTypeSpec desc stack wasMaybe s)

theorem reads (like : Like E G desc L) (stack : Nat) : Reads E G desc L stack := by
  have carried := (carried_sound desc).reading
  induction stack with
  | zero =>
    refine ⟨fun _ _ _ => ?_, fun _ _ _ => ?_, fun _ _ _ => ?_⟩
    · rw [readStruct, Scanner.readStruct]
      exact .error (like.same _)
    · rw [readFields, Scanner.readFields]
      exact .error (like.same _)
    · rw [readTypeSpec, Scanner.readTypeSpec]
      exact .error (like.same _)
  | succ stack ih =>
    have typed {wasMaybe s t s'} (h : Scanner.readTypeSpec desc stack wasMaybe s = .ok (t, s'))
        (sound : Sound desc s) : Sound desc s' := (carried stack).type h sound
    refine ⟨fun bracket s sound => ?_, fun fields s sound => ?_, fun wasMaybe s sound => ?_⟩
    · rw [readStruct, Scanner.readStruct]
      refine .ite (.bind (expectKeyword_agrees like _ sound) fun s₁ opened => ?_)
        (.bind (.ok s) fun s₁ opened => ?_)
      all_goals
        have sound₁ : Sound desc s₁ := by
          first
          | exact sound.expectRe (expectKeyword_eq_ok_iff.mp opened)
          | exact Except.ok.inj opened ▸ sound
        have closing : Agree E G (L.expectRe [closingBracket] s₁)
            (Scanner.expectRe desc [closingBracket] s₁) :=
          like.expectRe (by simp [calls]) sound₁
        dsimp only
        have thrown {e} (fails : Scanner.expectRe desc [closingBracket] s₁ = .error e) :
            ∃ e', e = .thrown e' := expectRe_throws fails
        have thrownAt {e} (thrown : L.expectRe [closingBracket] s₁ = .error (.thrown e)) :=
          like.thrownAt sound₁ thrown
        generalize L.expectRe [closingBracket] s₁ = x at closing thrownAt ⊢
        generalize Scanner.expectRe desc [closingBracket] s₁ = y at closing thrown ⊢
        cases closing with
        | ok => exact .refl like.same _
        | error alike =>
          obtain ⟨e', rfl⟩ := thrown rfl
          obtain ⟨e, rfl⟩ := like.thrown alike
          dsimp only
          rw [thrownAt rfl]
          exact ih.fields _ sound₁.consumeWhitespace
        | @gaveUp e given =>
          cases e with
          | thrown => cases like.given given
          | stackOverflow | assertion => exact .gaveUp given _
    · rw [readFields, Scanner.readFields]
      refine .bind (like.expectRe (by simp [calls]) sound) ?_
      rintro ⟨name, s₁⟩ first
      have sound₁ := sound.expectRe first
      refine .bind (like.expectRe (by simp [calls]) sound₁) ?_
      rintro ⟨keyword, s₂⟩ second
      have sound₂ := sound₁.expectRe second
      refine .bind (.refl like.same _) fun opened _ => ?_
      cases opened with
      | invalid => exact .refl like.same _
      | string => exact .refl like.same _
      | struct acc =>
        refine .ite (.bind (ih.type false sound₂) ?_) (.refl like.same _)
        rintro ⟨type, s₃⟩ third
        have sound₃ := typed third sound₂
        refine .bind (like.expectRe (by simp [calls]) sound₃) ?_
        rintro ⟨sep, s₄⟩ fourth
        exact .ite (.refl like.same _) (ih.fields _ (sound₃.expectRe fourth))
      | enum values =>
        exact .ite (.refl like.same _) (.ite (ih.fields _ sound₂) (.refl like.same _))
    · rw [readTypeSpec, Scanner.readTypeSpec]
      refine .bind (like.expectRe (by simp [calls]) sound) ?_
      rintro ⟨keyword, s₁⟩ first
      have sound₁ := sound.expectRe first
      refine .ite (.ite (.refl like.same _)
        (.bind (ih.type true sound₁) fun _ _ => .refl like.same _)) ?_
      refine .ite (.bind (ih.type false sound₁) fun _ _ => .refl like.same _) ?_
      refine .ite (.bind (ih.type false sound₁) fun _ _ => .refl like.same _) ?_
      exact .ite (.bind (ih.struct false sound₁) fun _ _ => .refl like.same _) (.refl like.same _)

theorem readMethodSpec_agrees (like : Like E G desc L) (stack : Nat) (sound : Sound desc s) :
    Agree E G (L.readMethodSpec stack s) (Scanner.readMethodSpec desc stack s) := by
  have carried := (carried_sound desc).reading stack
  refine .bind ((reads like stack).struct true sound) ?_
  rintro ⟨parameters, s₁⟩ first
  have sound₁ := carried.struct first sound
  refine .bind (expectKeyword_agrees like _ sound₁) fun s₂ arrow => ?_
  have sound₂ := sound₁.expectRe (expectKeyword_eq_ok_iff.mp arrow)
  exact .bind ((reads like stack).struct true sound₂) fun _ _ => .refl like.same _

theorem readMember_agrees (like : Like E G desc L) (stack : Nat) (sound : Sound desc s) :
    Agree E G (L.readMember desc stack s) (Scanner.readMember desc stack s) := by
  refine .bind (like.expectRe (by simp [calls]) sound) ?_
  rintro ⟨keyword, s₁⟩ first
  have sound₁ := sound.expectRe first
  refine .bind (.refl like.same _) fun kind _ => ?_
  refine .bind (like.expectRe (by simp [calls]) sound₁) ?_
  rintro ⟨name, s₂⟩ second
  have sound₂ := (sound₁.expectRe second).takeDocstring
  refine .bind (.ite (readMethodSpec_agrees like stack sound₂) ?_) fun _ _ => .refl like.same _
  exact (reads like stack).type false sound₂

theorem readMembers_agrees (like : Like E G desc L) (stack : Nat) (members : List Member)
    (sound : Sound desc s) :
    Agree E G (L.readMembers desc stack members s) (Scanner.readMembers desc stack members s) := by
  induction stack generalizing members s with
  | zero => exact .error (like.same _)
  | succ stack ih =>
    refine .bind (readMember_agrees like stack sound) ?_
    rintro ⟨member, s'⟩ read
    have sound' := (carried_sound desc).member read sound
    exact .ite (.refl like.same _) (.ite (.refl like.same _) (ih _ sound'))

theorem construct_agrees {build : List Char → Lexer} {description : String}
    (like : Like E G description.toList (build description.toList)) (stack : Nat) :
    Agree E G (construct build stack description)
      (VarlinkInterface.construct stack description) := by
  have named : Agree E G ((build description.toList).readInterfaceName {})
      (Scanner.readInterfaceName description.toList {}) :=
    .bind (expectKeyword_agrees like _ sound_init) fun s keyword =>
      like.expectRe (by simp [calls]) (sound_init.expectRe (expectKeyword_eq_ok_iff.mp keyword))
  refine .bind named ?_
  rintro ⟨ifname, s⟩ read
  obtain ⟨s₁, keyword, name⟩ := of_bind_eq_ok read
  have sound := (sound_init.expectRe (expectKeyword_eq_ok_iff.mp keyword)).expectRe name
  exact .bind (readMembers_agrees like stack [] sound.takeDocstring) fun _ _ =>
    .refl like.same _

theorem construct_ctre : construct ctre = VarlinkInterface.construct :=
  funext fun stack => funext fun _ => (construct_agrees (like_ctre _) stack).eq

/-- Both builds accept the same descriptions, with the same interface. What one of them
rejects the other rejects for the same reason, but for the text of a `std::runtime_error`. This
is so unless `std::regex` runs out of the stack in one of its searches, and then the process
ends. -/
theorem construct_std (deep : List Char → Regex Char → List Char → Bool) (stack : Nat)
    (description : String) :
    Agree StdRegex.SameClass (· = .stackOverflow) (construct (std deep) stack description)
        (construct ctre stack description) ∧
      ((∀ pattern rest, deep description.toList pattern rest = false) →
        Agree StdRegex.SameClass (fun _ => False) (construct (std deep) stack description)
          (construct ctre stack description)) ∧
      construct ctre stack description = VarlinkInterface.construct stack description := by
  rw [construct_ctre]
  refine ⟨?_, fun shallow => ?_, rfl⟩
  · exact construct_agrees (like_std (G := (· = .stackOverflow)) _ (fun same => by cases same)
      fun _ _ _ => rfl) stack
  · refine construct_agrees (like_std _ (fun contra => contra) fun pattern rest search => ?_) stack
    cases (shallow pattern rest).symm.trans search

end Lexer

end Varlink
