import Varlink.TypeExpr
import Varlink.ScannerSound

/-! The texts of a type expression, with whitespace and comments between the tokens,
and that the scanner reads each of them as the specification of the expression. -/

namespace Varlink

open Scanner

/-- A field in its text: whitespace, its name, whitespace, `:`, its type, whitespace. -/
structure FieldSource where
  before : List Char := []
  name : String
  behind : List Char := []
  type : TypeExpr
  text : List Char
  after : List Char := []

namespace FieldSource

def source (f : FieldSource) : List Char :=
  f.before ++ (f.name.toList ++ (f.behind ++ ':' :: (f.text ++ f.after)))

structure Valid (f : FieldSource) : Prop where
  before : Gap f.before
  name : Token [identifierPattern] f.name.toList
  behind : Gap f.behind
  after : Gap f.after

def field (f : FieldSource) : String × TypeExpr := (f.name, f.type)

end FieldSource

structure ValueSource where
  before : List Char := []
  name : String
  after : List Char := []

namespace ValueSource

def source (v : ValueSource) : List Char := v.before ++ (v.name.toList ++ v.after)

structure Valid (v : ValueSource) : Prop where
  before : Gap v.before
  name : Token [identifierPattern] v.name.toList
  after : Gap v.after

end ValueSource

def listed : List (List Char) → List Char
  | [] => []
  | [text] => text ++ [')']
  | text :: rest => text ++ ',' :: listed rest

inductive Written : TypeExpr → List Char → Prop where
  | maybe {e : TypeExpr} {g text : List Char} (gap : Gap g) (single : e.isMaybe = false)
      (written : Written e text) : Written (.maybe e) (g ++ '?' :: text)
  | array {e : TypeExpr} {g text : List Char} (gap : Gap g) (written : Written e text) :
      Written (.array e) (g ++ '[' :: ']' :: text)
  | dict {e : TypeExpr} {g text : List Char} (gap : Gap g) (written : Written e text) :
      Written (.dict e) (g ++ (dictPrefix ++ text))
  | named {name : String} {g : List Char} (gap : Gap g) (typeName : TypeName name.toList) :
      Written (.named name) (g ++ name.toList)
  | empty {g h : List Char} (gap : Gap g) (inner : Gap h) :
      Written (.struct []) (g ++ '(' :: (h ++ [')']))
  | struct {g : List Char} {fs : List FieldSource} (gap : Gap g) (some : fs ≠ [])
      (valid : ∀ f ∈ fs, f.Valid) (written : ∀ f ∈ fs, Written f.type f.text) :
      Written (.struct (fs.map (·.field))) (g ++ '(' :: listed (fs.map (·.source)))
  | enum {g : List Char} {vs : List ValueSource} (gap : Gap g) (two : 2 ≤ vs.length)
      (valid : ∀ v ∈ vs, v.Valid) :
      Written (.enum (vs.map (·.name))) (g ++ '(' :: listed (vs.map (·.source)))

theorem Written.behind_gap {e : TypeExpr} {text g : List Char} (h : Written e text) (gap : Gap g) :
    Written e (g ++ text) := by
  cases h with
  | maybe gap' single written =>
    rw [← List.append_assoc]
    exact .maybe (gap.append gap') single written
  | array gap' written =>
    rw [← List.append_assoc]
    exact .array (gap.append gap') written
  | dict gap' written =>
    rw [← List.append_assoc]
    exact .dict (gap.append gap') written
  | named gap' typeName =>
    rw [← List.append_assoc]
    exact .named (gap.append gap') typeName
  | empty gap' inner =>
    rw [← List.append_assoc]
    exact .empty (gap.append gap') inner
  | struct gap' some valid written =>
    rw [← List.append_assoc]
    exact .struct (gap.append gap') some valid written
  | enum gap' two valid =>
    rw [← List.append_assoc]
    exact .enum (gap.append gap') two valid

/-! ### Reading -/

/-- The scanner has gone over the text, and kept its comments only if it has some. -/
structure Scanner.Over (s : Scanner) (text : List Char) (s' : Scanner) : Prop where
  pos : s'.pos = s.pos + text.length
  doc : '#' ∉ text → s'.currentDoc = s.currentDoc

section Over
variable {s t u : Scanner} {text text' : List Char}

theorem Scanner.Over.trans (first : s.Over text t) (second : t.Over text' u) :
    s.Over (text ++ text') u := by
  constructor
  · rw [second.pos, first.pos, List.length_append, Nat.add_assoc]
  · intro plain
    rw [List.mem_append, not_or] at plain
    rw [second.doc plain.2, first.doc plain.1]

theorem Scanner.over_past (s : Scanner) (g tok : List Char) : s.Over (g ++ tok) (s.past g tok) := by
  constructor
  · rw [List.length_append, ← Nat.add_assoc]
    rfl
  · intro plain
    exact collectDoc_of_plain (fun member => plain (List.mem_append_left tok member)) _ _ _

theorem Scanner.Over.drop {desc after : List Char} (across : s.Over text t)
    (here : desc.drop s.pos = text ++ after) : desc.drop t.pos = after := by
  rw [across.pos, ← List.drop_drop, here, List.drop_left]

end Over

theorem boundary_gap {g rest : List Char} {c : Char} (gap : Gap g) (other : isWord c = false) :
    Boundary (g ++ c :: rest) := by
  cases gap with
  | nil => exact boundary_cons.mpr other
  | @blank d g blank =>
    refine boundary_cons.mpr ?_
    simp only [blanks, List.mem_cons, List.not_mem_nil, or_false] at blank
    rcases blank with rfl | rfl | rfl <;> decide
  | comment => exact boundary_cons.mpr (by decide)

section Reading
variable {desc after : List Char} {s : Scanner}

theorem closingBracket_matches (after : List Char) :
    matched [closingBracket] (')' :: after) = 1 := rfl

theorem closingBracket_fails {tok after : List Char} (some : tok ≠ [])
    (head : tok.head? ≠ .some ')') : matched [closingBracket] (tok ++ after) = 0 := by
  cases tok with
  | nil => exact absurd rfl some
  | cons c tok =>
    have other : c ≠ ')' := fun eq => head (by rw [eq]; rfl)
    simp [matched_singleton, closingBracket, anyOf, Regex.starts, Regex.run, other]

/-- What `read_type_spec` reads at a text of the expression, whatever follows it. -/
def ReadAs (e : TypeExpr) (text : List Char) (n : Nat) : Prop :=
  ∀ stack, n ≤ stack → ∀ (desc after : List Char) (s : Scanner) (wasMaybe : Bool),
    desc.drop s.pos = text ++ after → Boundary after → (wasMaybe = true → e.isMaybe = false) →
      ∃ s', readTypeSpec desc (stack + 1) wasMaybe s = .ok (e.toSpec, s') ∧ s.Over text s'

theorem matched_type_punctuation {tok : List Char} (known : tok ∈ punctuation) (after : List Char) :
    matched [keywordPattern, memberPattern] (tok ++ after) = tok.length := by
  have some := (token_punctuation known).nonempty
  have positive := List.length_pos_iff.mpr some
  rw [matched_pair, matched_punctuation known, if_neg (by omega)]

theorem expectRe_type_punctuation {g tok : List Char} (here : desc.drop s.pos = g ++ (tok ++ after))
    (gap : Gap g) (known : tok ∈ punctuation) :
    expectRe desc [keywordPattern, memberPattern] s = .ok (tok, s.past g tok) :=
  expectRe_matched here gap (token_punctuation known).nonempty (token_punctuation known).stops
    (matched_type_punctuation known after)

theorem readAs_maybe {e : TypeExpr} {g text : List Char} {n : Nat} (gap : Gap g)
    (single : e.isMaybe = false) (h : ReadAs e text n) :
    ReadAs (.maybe e) (g ++ '?' :: text) (n + 1) := by
  intro stack deep desc after s wasMaybe here boundary once
  obtain ⟨stack, rfl⟩ : ∃ k, stack = k + 1 := ⟨stack - 1, by omega⟩
  have notMaybe : wasMaybe = false := by
    cases wasMaybe with
    | false => rfl
    | true => exact absurd (once rfl) nofun
  have here' : desc.drop s.pos = g ++ (['?'] ++ (text ++ after)) := by simpa using here
  obtain ⟨s', read, across⟩ := h stack (by omega) desc after (s.past g ['?']) true
    (drop_past here') boundary fun _ => single
  have token := expectRe_type_punctuation here' gap (by decide)
  exact ⟨s', readTypeSpec_eq_ok_iff.mpr (.maybe token notMaybe read),
    by simpa using (s.over_past g ['?']).trans across⟩

theorem readAs_array {e : TypeExpr} {g text : List Char} {n : Nat} (gap : Gap g)
    (h : ReadAs e text n) : ReadAs (.array e) (g ++ '[' :: ']' :: text) (n + 1) := by
  intro stack deep desc after s wasMaybe here boundary _
  obtain ⟨stack, rfl⟩ : ∃ k, stack = k + 1 := ⟨stack - 1, by omega⟩
  have here' : desc.drop s.pos = g ++ (['[', ']'] ++ (text ++ after)) := by simpa using here
  obtain ⟨s', read, across⟩ := h stack (by omega) desc after (s.past g ['[', ']']) false
    (drop_past here') boundary nofun
  have token := expectRe_type_punctuation here' gap (by decide)
  exact ⟨s', readTypeSpec_eq_ok_iff.mpr (.array token read),
    by simpa using (s.over_past g ['[', ']']).trans across⟩

theorem readAs_dict {e : TypeExpr} {g text : List Char} {n : Nat} (gap : Gap g)
    (h : ReadAs e text n) : ReadAs (.dict e) (g ++ (dictPrefix ++ text)) (n + 1) := by
  intro stack deep desc after s wasMaybe here boundary _
  obtain ⟨stack, rfl⟩ : ∃ k, stack = k + 1 := ⟨stack - 1, by omega⟩
  have here' : desc.drop s.pos = g ++ (dictPrefix ++ (text ++ after)) := by simpa using here
  obtain ⟨s', read, across⟩ := h stack (by omega) desc after (s.past g dictPrefix) false
    (drop_past here') boundary nofun
  have token := expectRe_type_punctuation here' gap (by decide)
  exact ⟨s', readTypeSpec_eq_ok_iff.mpr (.dict token read),
    by simpa using (s.over_past g dictPrefix).trans across⟩

theorem readAs_named {name : String} {g : List Char} (gap : Gap g)
    (typeName : TypeName name.toList) : ReadAs (.named name) (g ++ name.toList) 0 := by
  intro stack _ desc after s wasMaybe here boundary _
  have here' : desc.drop s.pos = g ++ (name.toList ++ after) := by simpa using here
  have token := expectRe_token here' gap typeName.token boundary
  have step : TypeStep desc stack wasMaybe s _ (s.past g name.toList) := .name token typeName.other
  have read := readTypeSpec_eq_ok_iff.mpr step
  rw [String.ofList_toList] at read
  exact ⟨s.past g name.toList, read, s.over_past g name.toList⟩

theorem readFields_round {f : FieldSource} {n stack : Nat} {sep : Char} {s : Scanner}
    {desc after : List Char} {fields : TypeDef TypeSpec} {acc : List (String × TypeSpec)}
    (valid : f.Valid) (reads : ReadAs f.type f.text n) (deep : n ≤ stack)
    (separator : sep = ',' ∨ sep = ')')
    (shape : fields = .struct acc ∨ fields = .invalid ∧ acc = [])
    (here : desc.drop s.pos = f.source ++ sep :: after) :
    ∃ s', s.Over (f.source ++ [sep]) s' ∧
      Round desc (stack + 1) fields s (.struct (acc ++ [(f.name, f.type.toSpec)])) [sep] s' := by
  have plain : isWord sep = false := by rcases separator with rfl | rfl <;> decide
  have known : [sep] ∈ punctuation := by rcases separator with rfl | rfl <;> decide
  have atName : desc.drop s.pos =
      f.before ++ (f.name.toList ++
        (f.behind ++ ':' :: (f.text ++ (f.after ++ sep :: after)))) := by
    simpa [FieldSource.source] using here
  have name := expectRe_token atName valid.before valid.name (boundary_gap valid.behind (by decide))
  have atColon : desc.drop (s.past f.before f.name.toList).pos =
      f.behind ++ ([':'] ++ (f.text ++ (f.after ++ sep :: after))) := drop_past atName
  have colon := expectRe_punctuation atColon valid.behind (by decide)
  have atType := drop_past atColon
  obtain ⟨s', type, across⟩ := reads stack deep desc _ _ false atType
    (boundary_gap valid.after plain) nofun
  have atEnd := across.drop atType
  have end_ := expectRe_punctuation atEnd valid.after known
  refine ⟨s'.past f.after [sep], ?_, ?_⟩
  · have all := (((s.over_past f.before f.name.toList).trans (over_past _ f.behind [':'])).trans
      across).trans (over_past s' f.after [sep])
    simpa [FieldSource.source] using all
  · have round := Round.field shape name colon type end_
    rwa [String.ofList_toList] at round

theorem readFields_written {fs : List FieldSource} (some : fs ≠ []) (valid : ∀ f ∈ fs, f.Valid)
    {n : Nat} (reads : ∀ f ∈ fs, ReadAs f.type f.text n) {stack : Nat}
    (deep : n + fs.length ≤ stack) {desc after : List Char} {fields : TypeDef TypeSpec}
    {acc : List (String × TypeSpec)}
    {s : Scanner} (shape : fields = .struct acc ∨ fields = .invalid ∧ acc = [])
    (here : desc.drop s.pos = listed (fs.map (·.source)) ++ after) :
    ∃ s', readFields desc (stack + 1) fields s =
        .ok (.struct (acc ++ TypeExpr.toSpec.fieldSpecs (fs.map (·.field))), s') ∧
      s.Over (listed (fs.map (·.source))) s' := by
  induction fs generalizing stack fields acc s with
  | nil => exact absurd rfl some
  | cons f rest ih =>
    simp only [List.length_cons] at deep
    obtain ⟨stack, rfl⟩ : ∃ k, stack = k + 1 := ⟨stack - 1, by omega⟩
    cases rest with
    | nil =>
      have here' : desc.drop s.pos = f.source ++ ')' :: after := by simpa [listed] using here
      have deep' : n ≤ stack := by omega
      obtain ⟨s', across, round⟩ := readFields_round (valid f List.mem_cons_self)
        (reads f List.mem_cons_self) deep' (.inr rfl) shape here'
      exact ⟨s', readFields_eq_ok_iff.mpr ⟨_, _, _, round, rfl⟩, across⟩
    | cons f' rest =>
      have here' : desc.drop s.pos =
          f.source ++ ',' :: (listed ((f' :: rest).map (·.source)) ++ after) := by
        simpa [listed] using here
      have deep' : n + (f' :: rest).length ≤ stack := by omega
      obtain ⟨s', across, round⟩ := readFields_round (valid f List.mem_cons_self)
        (reads f List.mem_cons_self) (Nat.le_of_add_right_le deep') (.inl rfl) shape here'
      have next : desc.drop s'.pos = listed ((f' :: rest).map (·.source)) ++ after :=
        across.drop (by simpa using here')
      obtain ⟨s'', read, over'⟩ := ih nofun
        (fun g member => valid g (List.mem_cons_of_mem f member))
        (fun g member => reads g (List.mem_cons_of_mem f member)) deep' (.inl rfl) next
      refine ⟨s'', readFields_eq_ok_iff.mpr ⟨_, _, _, round, ?_⟩,
        by simpa [listed] using across.trans over'⟩
      rw [if_neg (by decide), read, List.append_assoc]
      rfl

theorem readFields_value {v : ValueSource} {stack : Nat} {sep : Char} {s : Scanner}
    {desc after : List Char} {fields : TypeDef TypeSpec} {acc : List String} (valid : v.Valid)
    (separator : sep = ',' ∨ sep = ')')
    (shape : fields = .enum acc ∨ fields = .invalid ∧ acc = [] ∧ sep = ',')
    (here : desc.drop s.pos = v.source ++ sep :: after) :
    ∃ s', s.Over (v.source ++ [sep]) s' ∧
      Round desc stack fields s (.enum (acc ++ [v.name])) [sep] s' := by
  have plain : isWord sep = false := by rcases separator with rfl | rfl <;> decide
  have known : [sep] ∈ punctuation := by rcases separator with rfl | rfl <;> decide
  have atName : desc.drop s.pos = v.before ++ (v.name.toList ++ (v.after ++ sep :: after)) := by
    simpa [ValueSource.source] using here
  have name := expectRe_token atName valid.before valid.name (boundary_gap valid.after plain)
  have atEnd := drop_past atName
  have end_ := expectRe_punctuation atEnd valid.after known
  refine ⟨(s.past v.before v.name.toList).past v.after [sep], ?_, ?_⟩
  · have all := (s.over_past v.before v.name.toList).trans (over_past _ v.after [sep])
    simpa [ValueSource.source] using all
  · have shape' : fields = .enum acc ∨ fields = .invalid ∧ acc = [] ∧ [sep] = [','] :=
      shape.imp_right fun ⟨invalid, empty, comma⟩ => ⟨invalid, empty, by rw [comma]⟩
    have round : Round desc stack fields s _ [sep] _ := .value shape' name end_
      (by rcases separator with rfl | rfl <;> simp)
    rwa [String.ofList_toList] at round

theorem readFields_values {vs : List ValueSource} (some : vs ≠ []) (valid : ∀ v ∈ vs, v.Valid)
    {stack : Nat} (deep : vs.length ≤ stack) {desc after : List Char}
    {fields : TypeDef TypeSpec} {acc : List String} {s : Scanner}
    (shape : fields = .enum acc ∨ fields = .invalid ∧ acc = [] ∧ 2 ≤ vs.length)
    (here : desc.drop s.pos = listed (vs.map (·.source)) ++ after) :
    ∃ s', readFields desc stack fields s = .ok (.enum (acc ++ vs.map (·.name)), s') ∧
      s.Over (listed (vs.map (·.source))) s' := by
  induction vs generalizing stack fields acc s with
  | nil => exact absurd rfl some
  | cons v rest ih =>
    simp only [List.length_cons] at deep
    obtain ⟨stack, rfl⟩ : ∃ k, stack = k + 1 := ⟨stack - 1, by omega⟩
    cases rest with
    | nil =>
      have here' : desc.drop s.pos = v.source ++ ')' :: after := by simpa [listed] using here
      have shape' : fields = .enum acc ∨ fields = .invalid ∧ acc = [] ∧ ')' = ',' :=
        shape.imp_right fun ⟨_, _, two⟩ => absurd two (by simp)
      obtain ⟨s', across, round⟩ := readFields_value (valid v List.mem_cons_self)
        (.inr rfl) shape' here'
      exact ⟨s', readFields_eq_ok_iff.mpr ⟨_, _, _, round, rfl⟩, across⟩
    | cons v' rest =>
      have here' : desc.drop s.pos =
          v.source ++ ',' :: (listed ((v' :: rest).map (·.source)) ++ after) := by
        simpa [listed] using here
      obtain ⟨s', across, round⟩ := readFields_value (valid v List.mem_cons_self)
        (.inl rfl) (shape.imp_right fun ⟨invalid, empty, _⟩ => ⟨invalid, empty, rfl⟩) here'
      have next : desc.drop s'.pos = listed ((v' :: rest).map (·.source)) ++ after :=
        across.drop (by simpa using here')
      have deep' : (v' :: rest).length ≤ stack := by omega
      obtain ⟨s'', read, over'⟩ := ih nofun
        (fun w member => valid w (List.mem_cons_of_mem v member)) deep' (.inl rfl) next
      refine ⟨s'', readFields_eq_ok_iff.mpr ⟨_, _, _, round, ?_⟩,
        by simpa [listed] using across.trans over'⟩
      rw [if_neg (by decide), read, List.append_assoc]
      rfl

theorem readStruct_closed {g : List Char} {stack : Nat} (gap : Gap g)
    (here : desc.drop s.pos = g ++ ')' :: after) :
    readStruct desc (stack + 1) false s = .ok (.struct [], s.past g [')']) := by
  have here' : desc.drop s.pos = g ++ ([')'] ++ after) := here
  have closes := expectRe_matched here' gap nofun (stops_cons.mpr (by decide))
    (closingBracket_matches after)
  exact readStruct_eq_ok_iff.mpr ⟨s, rfl, .inl ⟨_, _, closes, rfl⟩⟩

theorem readStruct_open {g tok : List Char} {stack : Nat} {r : TypeDef TypeSpec × Scanner}
    (gap : Gap g) (here : desc.drop s.pos = g ++ (tok ++ after))
    (name : Token [identifierPattern] tok)
    (read : readFields desc stack .invalid (s.past g []) = .ok r) :
    readStruct desc (stack + 1) false s = .ok r := by
  have head : tok.head? ≠ some ')' := by
    intro bracket
    cases tok with
    | nil => cases bracket
    | cons c tok =>
      cases bracket
      exact absurd (name.reads [] boundary_nil) nofun
  have fails := expectRe_fails here gap name.nonempty name.stops
    (closingBracket_fails name.nonempty head)
  have consumed := consumeWhitespace_eq here (.gap gap (name.stops.append name.nonempty))
  refine readStruct_eq_ok_iff.mpr ⟨s, rfl, .inr ⟨fails, ?_⟩⟩
  rw [consumed]
  exact read

def Bracketed (e : TypeExpr) (inner : List Char) (n : Nat) : Prop :=
  ∀ stack, n ≤ stack → ∀ (desc after : List Char) (s : Scanner), desc.drop s.pos = inner ++ after →
    ∃ s', readStruct desc (stack + 1) false s = .ok (e.toSpec.type, s') ∧ s.Over inner s'

theorem bracketed_empty {g : List Char} (gap : Gap g) : Bracketed (.struct []) (g ++ [')']) 0 := by
  intro stack _ desc after s here
  exact ⟨_, readStruct_closed gap (by simpa using here), s.over_past g [')']⟩

theorem listed_cons_append (x text : List Char) (texts : List (List Char)) :
    listed ((x ++ text) :: texts) = x ++ listed (text :: texts) := by
  cases texts <;> simp [listed]

theorem listed_eq_source {text : List Char} {texts : List (List Char)} :
    ∃ rest, listed (text :: texts) = text ++ rest := by
  cases texts with
  | nil => exact ⟨[')'], rfl⟩
  | cons t ts => exact ⟨',' :: listed (t :: ts), rfl⟩

theorem bracketed_struct {fs : List FieldSource} (some : fs ≠ []) (valid : ∀ f ∈ fs, f.Valid)
    {n : Nat} (reads : ∀ f ∈ fs, ReadAs f.type f.text n) :
    Bracketed (.struct (fs.map (·.field))) (listed (fs.map (·.source))) (n + fs.length + 1) := by
  intro stack deep desc after s here
  obtain ⟨stack, rfl⟩ : ∃ k, stack = k + 1 := ⟨stack - 1, by omega⟩
  cases fs with
  | nil => exact absurd rfl some
  | cons f rest =>
    have head := valid f List.mem_cons_self
    -- the whitespace in front of the first name has been consumed
    have split : listed ((f :: rest).map (·.source)) =
        f.before ++ listed (({ f with before := [] } :: rest).map (·.source)) :=
      listed_cons_append f.before _ _
    obtain ⟨tail, names⟩ : ∃ tail, listed (({ f with before := [] } :: rest).map (·.source)) =
        f.name.toList ++ tail := by
      obtain ⟨tail, eq⟩ := listed_eq_source
      exact ⟨_, by rw [List.map_cons, eq, FieldSource.source, List.nil_append, List.append_assoc]⟩
    rw [split, List.append_assoc] at here
    have atName : desc.drop s.pos = f.before ++ (f.name.toList ++ (tail ++ after)) := by
      rw [here, names, List.append_assoc]
    have atFields : desc.drop (s.past f.before []).pos =
        listed (({ f with before := [] } :: rest).map (·.source)) ++ after := drop_past here
    have valid' : ∀ g ∈ { f with before := [] } :: rest, g.Valid :=
      List.forall_mem_cons.mpr ⟨{ head with before := .nil },
        fun g member => valid g (List.mem_cons_of_mem f member)⟩
    have reads' : ∀ g ∈ { f with before := [] } :: rest, ReadAs g.type g.text n :=
      List.forall_mem_cons.mpr ⟨reads f List.mem_cons_self,
        fun g member => reads g (List.mem_cons_of_mem f member)⟩
    have deep' : n + ({ f with before := [] } :: rest).length ≤ stack := by
      simp only [List.length_cons] at *
      omega
    obtain ⟨s', read, across⟩ := readFields_written (List.cons_ne_nil _ _) valid' reads' deep'
      (.inr ⟨rfl, rfl⟩) atFields
    refine ⟨s', ?_, ?_⟩
    · exact readStruct_open head.before atName head.name read
    · rw [split]
      have over' := (s.over_past f.before []).trans across
      rwa [List.append_nil] at over'

theorem bracketed_enum {vs : List ValueSource} (two : 2 ≤ vs.length) (valid : ∀ v ∈ vs, v.Valid) :
    Bracketed (.enum (vs.map (·.name))) (listed (vs.map (·.source))) vs.length := by
  intro stack deep desc after s here
  cases vs with
  | nil => exact absurd two (by decide)
  | cons v rest =>
    have head := valid v List.mem_cons_self
    have split : listed ((v :: rest).map (·.source)) =
        v.before ++ listed (({ v with before := [] } :: rest).map (·.source)) :=
      listed_cons_append v.before _ _
    obtain ⟨tail, names⟩ : ∃ tail, listed (({ v with before := [] } :: rest).map (·.source)) =
        v.name.toList ++ tail := by
      obtain ⟨tail, eq⟩ := listed_eq_source
      exact ⟨_, by rw [List.map_cons, eq, ValueSource.source, List.nil_append, List.append_assoc]⟩
    rw [split, List.append_assoc] at here
    have atName : desc.drop s.pos = v.before ++ (v.name.toList ++ (tail ++ after)) := by
      rw [here, names, List.append_assoc]
    have atValues : desc.drop (s.past v.before []).pos =
        listed (({ v with before := [] } :: rest).map (·.source)) ++ after := drop_past here
    have valid' : ∀ w ∈ { v with before := [] } :: rest, w.Valid :=
      List.forall_mem_cons.mpr ⟨{ head with before := .nil },
        fun w member => valid w (List.mem_cons_of_mem v member)⟩
    obtain ⟨s', read, across⟩ := readFields_values (List.cons_ne_nil _ _) valid' deep
      (.inr ⟨rfl, rfl, by simpa using two⟩) atValues
    refine ⟨s', ?_, ?_⟩
    · exact readStruct_open head.before atName head.name read
    · rw [split]
      have over' := (s.over_past v.before []).trans across
      rwa [List.append_nil] at over'

theorem readTypeSpec_of_bracketed {e : TypeExpr} {g inner : List Char} {n stack : Nat}
    {wasMaybe : Bool} (gap : Gap g) (bare : e.toSpec = { type := e.toSpec.type })
    (h : Bracketed e inner n) (deep : n ≤ stack)
    (here : desc.drop s.pos = g ++ '(' :: inner ++ after) :
    ∃ s', readTypeSpec desc (stack + 2) wasMaybe s = .ok (e.toSpec, s') ∧
      s.Over (g ++ '(' :: inner) s' := by
  have here' : desc.drop s.pos = g ++ (['('] ++ (inner ++ after)) := by simpa using here
  obtain ⟨s', read, across⟩ := h stack deep desc after (s.past g ['(']) (drop_past here')
  have token := expectRe_type_punctuation here' gap (by decide)
  refine ⟨s', ?_, by simpa using (s.over_past g ['(']).trans across⟩
  rw [bare]
  exact readTypeSpec_eq_ok_iff.mpr (.struct token read)

theorem readAs_bracketed {e : TypeExpr} {g inner : List Char} {n : Nat} (gap : Gap g)
    (bare : e.toSpec = { type := e.toSpec.type }) (h : Bracketed e inner n) :
    ReadAs e (g ++ '(' :: inner) (n + 1) := by
  intro stack deep desc after s wasMaybe here _ _
  obtain ⟨stack, rfl⟩ : ∃ k, stack = k + 1 := ⟨stack - 1, by omega⟩
  exact readTypeSpec_of_bracketed gap bare h (by omega) here

theorem ReadAs.mono {e : TypeExpr} {text : List Char} {m n : Nat} (h : ReadAs e text m)
    (le : m ≤ n) : ReadAs e text n :=
  fun stack deep => h stack (Nat.le_trans le deep)

theorem readAs_of_written {e : TypeExpr} {text : List Char} (h : Written e text) :
    ∃ n, ReadAs e text n := by
  induction h with
  | maybe gap single _ ih =>
    obtain ⟨n, reads⟩ := ih
    exact ⟨n + 1, readAs_maybe gap single reads⟩
  | array gap _ ih =>
    obtain ⟨n, reads⟩ := ih
    exact ⟨n + 1, readAs_array gap reads⟩
  | dict gap _ ih =>
    obtain ⟨n, reads⟩ := ih
    exact ⟨n + 1, readAs_dict gap reads⟩
  | named gap typeName => exact ⟨0, readAs_named gap typeName⟩
  | empty gap inner => exact ⟨1, readAs_bracketed gap rfl (bracketed_empty inner)⟩
  | struct gap some valid _ ih =>
    obtain ⟨n, reads⟩ := eventually_forall (P := fun f n => ReadAs f.type f.text n)
      fun f member => (ih f member).imp fun m reads n le => reads.mono le
    exact ⟨_, readAs_bracketed gap rfl (bracketed_struct some valid (reads n (Nat.le_refl n)))⟩
  | enum gap two valid => exact ⟨_, readAs_bracketed gap rfl (bracketed_enum two valid)⟩

def TypeExpr.isBracketed : TypeExpr → Bool
  | .struct _ | .enum _ => true
  | _ => false

theorem TypeExpr.toSpec_of_isBracketed {e : TypeExpr} (kind : e.isBracketed = true) :
    e.toSpec = { type := e.toSpec.type } := by
  cases e with
  | enum | struct => rfl
  | _ => cases kind

theorem Written.bracketed {e : TypeExpr} {text : List Char} (h : Written e text)
    (kind : e.isBracketed = true) :
    ∃ g inner n, text = g ++ '(' :: inner ∧ Gap g ∧ Bracketed e inner n := by
  cases h with
  | maybe | array | dict | named => cases kind
  | empty gap inner => exact ⟨_, _, _, rfl, gap, bracketed_empty inner⟩
  | struct gap some valid written =>
    obtain ⟨n, reads⟩ := eventually_forall (P := fun f n => ReadAs f.type f.text n)
      fun f member => (readAs_of_written (written f member)).imp fun m reads n le => reads.mono le
    exact ⟨_, _, _, rfl, gap, bracketed_struct some valid (reads n (Nat.le_refl n))⟩
  | enum gap two valid => exact ⟨_, _, _, rfl, gap, bracketed_enum two valid⟩

theorem readStruct_of_bracketed {e : TypeExpr} {g inner : List Char} {n stack : Nat} (gap : Gap g)
    (h : Bracketed e inner n) (deep : n ≤ stack)
    (here : desc.drop s.pos = g ++ '(' :: inner ++ after) :
    ∃ s', readStruct desc (stack + 1) true s = .ok (e.toSpec.type, s') ∧
      s.Over (g ++ '(' :: inner) s' := by
  have here' : desc.drop s.pos = g ++ (['('] ++ (inner ++ after)) := by simpa using here
  have token := expectRe_punctuation here' gap (by decide)
  obtain ⟨s', read, across⟩ := h stack deep desc after (s.past g ['(']) (drop_past here')
  refine ⟨s', readStruct_eq_ok_iff.mpr ⟨_, token, ?_⟩,
    by simpa using (s.over_past g ['(']).trans across⟩
  obtain ⟨s₁, same, read'⟩ := readStruct_eq_ok_iff.mp read
  obtain rfl : s₁ = s.past g ['('] := same
  exact read'

theorem readStruct_of_written {e : TypeExpr} {text : List Char} {stack : Nat}
    {type : TypeDef TypeSpec} {s' : Scanner} (written : Written e text)
    (kind : e.isBracketed = true) (here : desc.drop s.pos = text ++ after)
    (read : readStruct desc stack true s = .ok (type, s')) : type = e.toSpec.type := by
  obtain ⟨g, inner, n, rfl, gap, bracketed⟩ := written.bracketed kind
  obtain ⟨t, enough, -⟩ := readStruct_of_bracketed gap bracketed (Nat.le_max_left n stack) here
  have deeper := readStruct_mono (n := max n stack + 1) (by omega) read
  cases deeper.symm.trans enough
  rfl

end Reading

end Varlink
