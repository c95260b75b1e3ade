import Varlink.MemberScan
import Varlink.Printing

/-! The text that a member prints as is read as this member again, but for the flags of
its own type, if nothing but whitespace and comments describe it. -/

namespace Varlink

open Scanner

namespace Member

/-- What the text of a member keeps of it: the flags of its own type are not printed. -/
def printed (m : Member) : Member := { m with data := { type := m.data.type } }

def keyword (m : Member) : List Char :=
  match m.kind with
  | .undefined => []
  | .type => "type".toList
  | .error => "error".toList
  | .method => "method".toList

def dataText (m : Member) : List Char :=
  match m.kind with
  | .undefined => []
  | .type => ' ' :: m.data.toText 4 0
  | .error => ' ' :: m.data.toText (-1) 0
  | .method =>
    match m.methodType? 0, m.methodType? 1 with
    | some params, some result => params.toText (-1) 0 ++ " -> ".toList ++ result.toText 4 0
    | _, _ => []

theorem toText_eq {m : Member} (kind : m.kind ≠ .undefined)
    (types : m.kind = .method → MethodTypes m.data) :
    m.toText = m.description.toList ++
      (m.keyword ++ (' ' :: m.name.toList ++ (m.dataText ++ ['\n']))) := by
  have type_ : "type ".toList = "type".toList ++ [' '] := by decide
  have error_ : "error ".toList = "error".toList ++ [' '] := by decide
  have method_ : "method ".toList = "method".toList ++ [' '] := by decide
  cases h : m.kind with
  | undefined => exact absurd h kind
  | type =>
    simp only [toText, keyword, dataText, h, type_, List.append_assoc, List.cons_append,
      List.nil_append]
  | error =>
    simp only [toText, keyword, dataText, h, error_, List.append_assoc, List.cons_append,
      List.nil_append]
  | method =>
    obtain ⟨p, r, data, -⟩ := types h
    have first : m.methodType? 0 = some { type := p } := by rw [methodType?, data]; rfl
    have second : m.methodType? 1 = some { type := r } := by rw [methodType?, data]; rfl
    simp only [toText, keyword, dataText, h, first, second, method_, List.append_assoc,
      List.cons_append, List.nil_append]

end Member

theorem token_keyword_text {m : Member} (kind : m.kind ≠ .undefined) :
    Token [keywordPattern] m.keyword := by
  cases h : m.kind with
  | undefined => exact absurd h kind
  | type =>
    rw [Member.keyword, h]
    exact token_keyword (x := []) (by decide) (by decide)
  | error =>
    rw [Member.keyword, h]
    exact token_keyword (x := []) (by decide) (by decide)
  | method =>
    rw [Member.keyword, h]
    exact token_keyword (x := []) (by decide) (by decide)

theorem readKind_keyword {m : Member} (kind : m.kind ≠ .undefined) :
    readKind m.keyword = .ok m.kind := by
  cases h : m.kind with
  | undefined => exact absurd h kind
  | type => rw [Member.keyword, h]; rfl
  | error => rw [Member.keyword, h]; rfl
  | method => rw [Member.keyword, h]; rfl

theorem isBracketed_baseExpr {t : TypeSpec} (h : ∀ name, t.type ≠ .string name) :
    t.baseExpr.isBracketed = true := by
  obtain ⟨type, m, d, a⟩ := t
  cases type with
  | string name => exact absurd rfl (h name)
  | invalid | enum | struct => rfl

theorem bracketed_toText {type : TypeDef TypeSpec}
    (h : Readable { type := type } ∧ ∀ name, type ≠ .string name) (indent : Int)
    {lead : List Char} (blank : Gap lead) :
    ∃ g inner n, lead ++ TypeSpec.toText indent 0 { type := type } = g ++ '(' :: inner ∧ Gap g ∧
      ∀ (desc after : List Char) (s : Scanner) (stack : Nat), n ≤ stack →
        desc.drop s.pos = lead ++ TypeSpec.toText indent 0 { type := type } ++ after →
          ∃ s', readStruct desc (stack + 1) true s = .ok (type, s') ∧
            s.Over (lead ++ TypeSpec.toText indent 0 { type := type }) s' := by
  obtain ⟨g, inner, n, text, gap, bracketed⟩ :=
    ((written_toText h.1 indent 0).behind_gap blank).bracketed (isBracketed_baseExpr h.2)
  refine ⟨g, inner, n, text, gap, fun desc after s stack deep here => ?_⟩
  rw [text] at here ⊢
  obtain ⟨s', read, across⟩ := readStruct_of_bracketed gap bracketed deep here
  rw [toSpec_baseExpr h.1] at read
  exact ⟨s', read, across⟩

structure ReadsData (m : Member) (n : Nat) : Prop where
  plain : '#' ∉ m.dataText
  boundary : ∀ after, Boundary (m.dataText ++ after)
  reads : ∀ (desc after : List Char) (s : Scanner) (stack : Nat), n ≤ stack →
    desc.drop s.pos = m.dataText ++ '\n' :: after →
      ∃ s', readData desc m.kind stack s = .ok (m.printed.data, s') ∧ s.Over m.dataText s'

theorem readsData_type {m : Member} (indent : Int) (kind : m.kind ≠ .method)
    (text : m.dataText = ' ' :: m.data.toText indent 0) (readable : Readable m.data) :
    ∃ n, ReadsData m n := by
  have space : Gap [' '] := .blank (by decide) .nil
  have written := (written_toText readable indent 0).behind_gap space
  obtain ⟨n, reads⟩ := readAs_of_written written
  refine ⟨n + 1, ?_, fun after => ?_, fun desc after s stack deep here => ?_⟩
  · rw [text]
    simpa using plain_toText readable indent 0
  · rw [text]
    exact boundary_cons.mpr (by decide)
  · obtain ⟨stack, rfl⟩ : ∃ k, stack = k + 1 := ⟨stack - 1, by omega⟩
    rw [text] at here ⊢
    obtain ⟨s', read, across⟩ := reads stack (by omega) desc ('\n' :: after) s false here
      (boundary_cons.mpr (by decide)) nofun
    rw [toSpec_baseExpr readable] at read
    exact ⟨s', by rw [readData, if_neg kind]; exact read, across⟩

theorem readsData_method {m : Member} (kind : m.kind = .method) (types : MethodTypes m.data) :
    ∃ n, ReadsData m n := by
  obtain ⟨p, r, data, parameters, returnValue⟩ := types
  obtain ⟨g, inner, n₁, open_, gap, reads₁⟩ := bracketed_toText parameters (-1) .nil
  obtain ⟨_, _, n₂, _, _, reads₂⟩ :=
    bracketed_toText returnValue 4 (.blank (c := ' ') (by decide) .nil)
  have first : m.methodType? 0 = some { type := p } := by rw [Member.methodType?, data]; rfl
  have second : m.methodType? 1 = some { type := r } := by rw [Member.methodType?, data]; rfl
  have arrow : " -> ".toList = [' ', '-', '>', ' '] := by decide
  have text : m.dataText = ([] ++ TypeSpec.toText (-1) 0 { type := p }) ++
      ([' '] ++ ['-', '>'] ++ ([' '] ++ TypeSpec.toText 4 0 { type := r })) := by
    simp only [Member.dataText, kind, first, second, arrow, List.append_assoc, List.nil_append,
      List.cons_append]
  have printed : m.printed.data = m.data := by rw [Member.printed, data]
  refine ⟨max n₁ n₂ + 1, ?_, fun after => ?_, fun desc after s stack deep here => ?_⟩
  · rw [text]
    simp [plain_toText parameters.1, plain_toText returnValue.1]
  · rw [text, open_, List.append_assoc, List.append_assoc]
    exact boundary_gap gap (by decide)
  · obtain ⟨stack, rfl⟩ : ∃ k, stack = k + 1 := ⟨stack - 1, by omega⟩
    rw [text] at here ⊢
    obtain ⟨s₁, read₁, over₁⟩ := reads₁ desc _ s stack (by omega) (by rw [here, List.append_assoc])
    have atArrow := over₁.drop (by rw [here, List.append_assoc])
    have atArrow' : desc.drop s₁.pos = [' '] ++ (['-', '>'] ++
        (([' '] ++ TypeSpec.toText 4 0 { type := r }) ++ '\n' :: after)) := by simpa using atArrow
    have arrow := expectRe_punctuation atArrow' (.blank (by decide) .nil) (by decide)
    obtain ⟨s₂, read₂, over₂⟩ := reads₂ desc _ _ stack (by omega) (drop_past atArrow')
    refine ⟨s₂, ?_, over₁.trans ((over_past s₁ [' '] ['-', '>']).trans over₂)⟩
    rw [readData, if_pos kind, printed, data]
    exact readMethodSpec_eq_ok_iff.mpr ⟨p, s₁, _, r, read₁, arrow, read₂, rfl⟩

theorem readsData {m : Member} (h : WellFormed m) : ∃ n, ReadsData m n := by
  rcases h.data with ⟨kind | kind, readable⟩ | ⟨kind, types⟩
  · exact readsData_type 4 (by rw [kind]; decide) (by simp only [Member.dataText, kind])
      readable
  · exact readsData_type (-1) (by rw [kind]; decide) (by simp only [Member.dataText, kind])
      readable
  · exact readsData_method kind types

section Reading
variable {desc after p : List Char} {s : Scanner}

theorem text_of_description {d : String} (description : Slice d)
    (newlines : ∀ c ∈ p, c = '\n') (here : desc.drop s.pos = (p ++ d.toList) ++ after)
    (empty : s.currentDoc.size = 0) :
    (collectDoc (p ++ d.toList).length (p ++ d.toList) s.pos s.currentDoc).text desc =
      d.toList := by
  rcases description with rfl | framed
  · have plain : '#' ∉ p ++ "".toList := by
      intro member
      rw [String.toList_empty, List.append_nil] at member
      exact absurd (newlines '#' member) (by decide)
    rw [collectDoc_of_plain plain, View.text, empty]
    rfl
  · rw [collectDoc_framed newlines framed empty (Nat.le_refl _)]
    have behind : desc.drop (s.pos + p.length) = d.toList ++ after := by
      rw [← List.drop_drop, here, List.append_assoc, List.drop_left]
    exact View.text_append behind

theorem readKeyword_printed {tok : List Char} {d : String} (token : Token [keywordPattern] tok)
    (description : Slice d) (pure : Gap d.toList) (boundary : Boundary after)
    (newlines : ∀ c ∈ p, c = '\n') (empty : s.currentDoc.size = 0)
    (here : desc.drop s.pos = (p ++ d.toList) ++ (tok ++ after)) :
    ∃ s₁, expectRe desc [keywordPattern] s = .ok (tok, s₁) ∧ desc.drop s₁.pos = after ∧
      s₁.currentDoc.text desc = d.toList :=
  ⟨_, expectRe_token here ((gap_of_newlines newlines).append pure) token boundary, drop_past here,
    text_of_description description newlines here empty⟩

theorem docstring_past {g tok : List Char} {d : String} (plain : '#' ∉ g)
    (kept : s.currentDoc.text desc = d.toList) : (getDocstring desc (s.past g tok)).1 = d := by
  have same : (s.past g tok).currentDoc = s.currentDoc := collectDoc_of_plain plain _ _ _
  rw [getDocstring, same, kept, String.ofList_toList]

theorem readMember_printed {m : Member} (h : WellFormed m) (pure : Gap m.description.toList)
    (newlines : ∀ c ∈ p, c = '\n') (empty : s.currentDoc.size = 0)
    (here : desc.drop s.pos = p ++ (m.toText ++ after)) :
    ∃ stack s', readMember desc stack s = .ok (m.printed, s') ∧
      desc.drop s'.pos = '\n' :: after ∧ s'.currentDoc.size = 0 := by
  obtain ⟨n, data⟩ := readsData h
  have here' : desc.drop s.pos = (p ++ m.description.toList) ++
      (m.keyword ++ (' ' :: m.name.toList ++ (m.dataText ++ '\n' :: after))) := by
    rw [here, Member.toText_eq h.defined h.types]
    simp
  obtain ⟨s₁, keyword, atName, kept⟩ := readKeyword_printed (token_keyword_text h.defined)
    h.description pure (boundary_cons.mpr (by decide)) newlines empty here'
  have name := expectRe_token (g := [' ']) atName (.blank (by decide) .nil) h.name (data.boundary _)
  have behind := drop_past (g := [' ']) atName
  obtain ⟨s', read, across⟩ := data.reads desc after
    (getDocstring desc (s₁.past [' '] m.name.toList)).2 n (Nat.le_refl n) behind
  refine ⟨n, s', readMember_eq_ok_iff.mpr ⟨m.keyword, s₁, keyword, readKind_keyword h.defined,
    m.name.toList, _, name, String.ofList_toList.symm, (docstring_past (by decide) kept).symm,
    read⟩, across.drop behind, ?_⟩
  rw [across.doc data.plain]
  rfl

theorem toText_string {t : TypeSpec} {name : String} (type : t.type = .string name) (indent : Int)
    (depth : Nat) : t.toText indent depth = name.toList := by
  obtain ⟨_, m, d, a⟩ := t
  cases type
  rfl

theorem expectRe_blank_end {g : List Char} {patterns : List (Regex Char)} (blank : Stretch g [])
    (here : desc.drop s.pos = g) :
    expectRe desc patterns s = .ok ([], s.past g []) ∧ desc.drop (s.past g []).pos = [] := by
  have here' : desc.drop s.pos = g ++ ([] ++ []) := by rw [here, List.append_nil, List.append_nil]
  have behind := drop_past here'
  refine ⟨?_, behind⟩
  have rest : desc.drop (s.pos + g.length) = [] := behind
  simp only [expectRe, consumeWhitespace_eq here' blank, rest]
  rfl

theorem readTypeSpec_blank_end {g : List Char} (blank : Stretch g [])
    (here : desc.drop s.pos = g) :
    readTypeSpec desc 1 false s = .ok ({ type := .string "" }, s.past g []) ∧
      desc.drop (s.past g []).pos = [] := by
  obtain ⟨token, ends⟩ := expectRe_blank_end blank here
  have step : TypeStep desc 0 false s { type := .string "" } (s.past g []) :=
    .name token (by decide)
  exact ⟨readTypeSpec_eq_ok_iff.mpr step, ends⟩

theorem readMember_cut {m : Member} (h : CutMember m) (pure : Gap m.description.toList)
    (newlines : ∀ c ∈ p, c = '\n') (empty : s.currentDoc.size = 0)
    (here : desc.drop s.pos = p ++ m.toText) :
    ∃ stack s', readMember desc stack s = .ok (m.printed, s') ∧ desc.drop s'.pos = [] := by
  have data : m.dataText = [' '] := by
    rcases h.kind with kind | kind <;>
      simp only [Member.dataText, kind, toText_string h.data, String.toList_empty]
  have here' : desc.drop s.pos = (p ++ m.description.toList) ++
      (m.keyword ++ (' ' :: m.name.toList ++ [' ', '\n'])) := by
    rw [here, Member.toText_eq h.defined fun method => absurd method h.notMethod, data]
    simp only [List.append_assoc, List.cons_append, List.nil_append]
  obtain ⟨s₁, keyword, atName, kept⟩ := readKeyword_printed (token_keyword_text h.defined)
    h.description pure (boundary_cons.mpr (by decide)) newlines empty here'
  obtain ⟨s₂, g, name, description, gap, behind⟩ : ∃ s₂ g,
      expectRe desc [memberPattern] s₁ = .ok (m.name.toList, s₂) ∧
        m.description = (getDocstring desc s₂).1 ∧ Gap g ∧ desc.drop s₂.pos = g := by
    rcases h.name with token | none
    · exact ⟨_, [' ', '\n'], expectRe_token (g := [' ']) atName (.blank (by decide) .nil) token
        (boundary_cons.mpr (by decide)), (docstring_past (by decide) kept).symm,
        gap_of_blanks (by simp [blanks]), drop_past (g := [' ']) atName⟩
    · rw [none, String.toList_empty] at atName ⊢
      obtain ⟨name, ends⟩ :=
        expectRe_blank_end (.gap (gap_of_blanks (by simp [blanks])) stops_nil) atName
      exact ⟨_, [], name, (docstring_past (by decide) kept).symm, .nil, ends⟩
  obtain ⟨read, ends⟩ := readTypeSpec_blank_end (s := (getDocstring desc s₂).2) (.gap gap stops_nil)
    behind
  refine ⟨1, _, readMember_eq_ok_iff.mpr ⟨m.keyword, s₁, keyword, readKind_keyword h.defined,
    m.name.toList, s₂, name, String.ofList_toList.symm, description, ?_⟩, ends⟩
  show readData desc m.kind 1 _ = _
  rw [readData, if_neg h.notMethod, Member.printed, h.data]
  exact read

theorem readMembers_blank {before : List Member} {g : List Char} (blank : Stretch g [])
    (here : desc.drop s.pos = g) : readMembers desc 2 before s = .ok before := by
  obtain ⟨keyword, ends⟩ := expectRe_blank_end blank here
  have name : expectRe desc [memberPattern] (s.past g []) = _ := expectRe_end ends
  obtain ⟨data, -⟩ := readTypeSpec_blank_end (s := (getDocstring desc (s.past g [])).2)
    (.gap .nil stops_nil) ends
  have read := readMember_eq_ok_iff.mpr ⟨(⟨[], _, keyword, rfl, [], _, name, rfl, rfl, data⟩ :
    MemberStep desc 1 s ⟨.undefined, "", _, _⟩ _)⟩
  exact readMembers_eq_ok_iff.mpr ⟨_, _, read, by rw [if_pos rfl]⟩

end Reading

end Varlink
