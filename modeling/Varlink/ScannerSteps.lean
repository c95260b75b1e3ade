import Varlink.Token
import Varlink.Library.Fuel

/-! What one call of each reading function returns. What is returned on one stack is
returned on every deeper one. -/

namespace Varlink.Scanner

open Fuel

variable {desc : List Char} {stack : Nat} {s : Scanner}

theorem bind_eq_ok_iff {ε α β : Type} {x : Except ε α} {f : α → Except ε β} {b : β} :
    x >>= f = .ok b ↔ ∃ a, x = .ok a ∧ f a = .ok b := by
  refine ⟨of_bind_eq_ok, ?_⟩
  rintro ⟨a, rfl, ok⟩
  exact ok

theorem expectKeyword_eq_ok_iff {keyword : List Char} {s' : Scanner} :
    expectKeyword desc keyword s = .ok s' ↔
      expectRe desc [keywordPattern] s = .ok (keyword, s') := by
  rw [expectKeyword, bind_eq_ok_iff]
  constructor
  · rintro ⟨⟨found, t⟩, read, ok⟩
    simp only at ok
    split at ok
    · rename_i same
      cases ok
      rw [read, same]
    · cases ok
  · exact fun read => ⟨_, read, by simp⟩

inductive Round (desc : List Char) (stack : Nat) (fields : TypeDef TypeSpec) (s : Scanner) :
    TypeDef TypeSpec → List Char → Scanner → Prop where
  | field {acc : List (String × TypeSpec)} {name : List Char} {s₁ s₂ s₃ s' : Scanner}
      {type : TypeSpec} {sep : List Char}
      (shape : fields = .struct acc ∨ fields = .invalid ∧ acc = [])
      (readName : expectRe desc [identifierPattern] s = .ok (name, s₁))
      (colon : expectRe desc [keywordPattern] s₁ = .ok ([':'], s₂))
      (readType : readTypeSpec desc stack false s₂ = .ok (type, s₃))
      (separator : expectRe desc [keywordPattern] s₃ = .ok (sep, s')) :
      Round desc stack fields s (.struct (acc ++ [(String.ofList name, type)])) sep s'
  | value {acc : List String} {name sep : List Char} {s₁ s' : Scanner}
      (shape : fields = .enum acc ∨ fields = .invalid ∧ acc = [] ∧ sep = [','])
      (readName : expectRe desc [identifierPattern] s = .ok (name, s₁))
      (separator : expectRe desc [keywordPattern] s₁ = .ok (sep, s'))
      (known : sep = [','] ∨ sep = [')']) :
      Round desc stack fields s (.enum (acc ++ [String.ofList name])) sep s'

theorem of_openFields_struct {fields : TypeDef TypeSpec} {keyword : List Char}
    {acc : List (String × TypeSpec)} (h : openFields fields keyword = .ok (.struct acc)) :
    fields = .struct acc ∨ fields = .invalid ∧ acc = [] := by
  cases fields with
  | invalid =>
    simp only [openFields] at h
    split at h
    · cases h
      exact .inr ⟨rfl, rfl⟩
    · split at h <;> cases h
  | _ => cases h <;> exact .inl rfl

theorem of_openFields_enum {fields : TypeDef TypeSpec} {keyword : List Char} {acc : List String}
    (h : openFields fields keyword = .ok (.enum acc)) :
    fields = .enum acc ∨ fields = .invalid ∧ acc = [] ∧ keyword = [','] := by
  cases fields with
  | invalid =>
    simp only [openFields] at h
    split at h
    · cases h
    · split at h
      · cases h
        exact .inr ⟨rfl, rfl, ‹_›⟩
      · cases h
  | _ => cases h <;> exact .inl rfl

theorem readFields_eq_ok_iff {fields : TypeDef TypeSpec} {r : TypeDef TypeSpec × Scanner} :
    readFields desc (stack + 1) fields s = .ok r ↔
      ∃ fields' sep s', Round desc stack fields s fields' sep s' ∧
        if sep = [')'] then r = (fields', s') else readFields desc stack fields' s' = .ok r := by
  constructor
  · intro h
    rw [readFields] at h
    obtain ⟨⟨name, s₁⟩, readName, atKeyword⟩ := of_bind_eq_ok h
    obtain ⟨⟨keyword, s₂⟩, readKeyword, atOpen⟩ := of_bind_eq_ok atKeyword
    obtain ⟨opened, open_, behind⟩ := of_bind_eq_ok atOpen
    clear h atKeyword atOpen
    cases opened with
    | invalid => cases behind
    | string => cases behind
    | struct acc =>
      have shape : fields = .struct acc ∨ fields = .invalid ∧ acc = [] := of_openFields_struct open_
      by_cases colon : keyword = [':']
      · simp only [if_pos colon] at behind
        obtain ⟨⟨type, s₃⟩, readType, atSeparator⟩ := of_bind_eq_ok behind
        obtain ⟨⟨sep, s₄⟩, separator, next⟩ := of_bind_eq_ok atSeparator
        refine ⟨_, sep, s₄, .field shape readName (colon ▸ readKeyword) readType separator, ?_⟩
        simp only at next
        split at next
        · cases next
          rw [if_pos ‹_›]
        · rwa [if_neg ‹_›]
      · simp only [if_neg colon] at behind
        cases behind
    | enum acc =>
      have shape := of_openFields_enum open_
      by_cases closed : keyword = [')']
      · simp only [if_pos closed] at behind
        cases behind
        exact ⟨_, keyword, s₂, .value shape readName readKeyword (.inr closed),
          by rw [if_pos closed]⟩
      · by_cases comma : keyword = [',']
        · simp only [if_neg closed, if_pos comma] at behind
          refine ⟨_, keyword, s₂, .value shape readName readKeyword (.inl comma), ?_⟩
          rwa [if_neg closed]
        · simp only [if_neg closed, if_neg comma] at behind
          cases behind
  · rintro ⟨fields', sep, s', round, next⟩
    cases round with
    | @field acc name s₁ s₂ s₃ s' type sep shape readName colon readType separator =>
      have open_ : openFields fields [':'] = .ok (.struct acc) := by
        rcases shape with rfl | ⟨rfl, rfl⟩ <;> rfl
      rw [readFields, readName]
      simp only [bind, Except.bind, colon, open_, readType, separator]
      split at next <;> simp_all
    | @value acc name sep s₁ s' shape readName separator known =>
      have open_ : openFields fields sep = .ok (.enum acc) := by
        rcases shape with rfl | ⟨rfl, rfl, rfl⟩ <;> rfl
      rw [readFields, readName]
      simp only [bind, Except.bind, separator, open_]
      rcases known with rfl | rfl <;> simp_all

theorem openedStruct_eq_ok_iff {s₁ : Scanner} {r : TypeDef TypeSpec × Scanner} :
    (match expectRe desc [closingBracket] s₁ with
      | .ok (_, s) => (.ok (.struct [], s) : Except Stop (TypeDef TypeSpec × Scanner))
      | .error _ => readFields desc stack .invalid (consumeWhitespace desc s₁)) = .ok r ↔
      (∃ tok s', expectRe desc [closingBracket] s₁ = .ok (tok, s') ∧ r = (.struct [], s')) ∨
        (∃ e, expectRe desc [closingBracket] s₁ = .error e) ∧
          readFields desc stack .invalid (consumeWhitespace desc s₁) = .ok r := by
  cases expectRe desc [closingBracket] s₁ with
  | error e => simp
  | ok found => simp [Prod.ext_iff, eq_comm, and_comm]

theorem readStruct_eq_ok_iff {bracket : Bool} {r : TypeDef TypeSpec × Scanner} :
    readStruct desc (stack + 1) bracket s = .ok r ↔
      ∃ s₁, (if bracket then expectRe desc [keywordPattern] s = .ok (['('], s₁) else s₁ = s) ∧
        ((∃ tok s', expectRe desc [closingBracket] s₁ = .ok (tok, s') ∧ r = (.struct [], s')) ∨
          (∃ e, expectRe desc [closingBracket] s₁ = .error e) ∧
            readFields desc stack .invalid (consumeWhitespace desc s₁) = .ok r) := by
  cases bracket with
  | false =>
    rw [readStruct]
    refine openedStruct_eq_ok_iff.trans ⟨fun h => ⟨s, rfl, h⟩, ?_⟩
    rintro ⟨s₁, rfl, h⟩
    exact h
  | true =>
    rw [readStruct]
    simp only [if_true, ← expectKeyword_eq_ok_iff]
    rw [bind_eq_ok_iff]
    exact exists_congr fun s₁ => and_congr_right fun _ => openedStruct_eq_ok_iff

inductive TypeStep (desc : List Char) (stack : Nat) (wasMaybe : Bool) (s : Scanner) :
    TypeSpec → Scanner → Prop where
  | maybe {s₁ s' : Scanner} {type : TypeSpec}
      (token : expectRe desc [keywordPattern, memberPattern] s = .ok (['?'], s₁))
      (single : wasMaybe = false) (rest : readTypeSpec desc stack true s₁ = .ok (type, s')) :
      TypeStep desc stack wasMaybe s { type with maybeType := true } s'
  | dict {s₁ s' : Scanner} {type : TypeSpec}
      (token : expectRe desc [keywordPattern, memberPattern] s = .ok (dictPrefix, s₁))
      (rest : readTypeSpec desc stack false s₁ = .ok (type, s')) :
      TypeStep desc stack wasMaybe s { type with dictType := true } s'
  | array {s₁ s' : Scanner} {type : TypeSpec}
      (token : expectRe desc [keywordPattern, memberPattern] s = .ok (['[', ']'], s₁))
      (rest : readTypeSpec desc stack false s₁ = .ok (type, s')) :
      TypeStep desc stack wasMaybe s { type with arrayType := true } s'
  | struct {s₁ s' : Scanner} {type : TypeDef TypeSpec}
      (token : expectRe desc [keywordPattern, memberPattern] s = .ok (['('], s₁))
      (rest : readStruct desc stack false s₁ = .ok (type, s')) :
      TypeStep desc stack wasMaybe s { type := type } s'
  | name {s' : Scanner} {name : List Char}
      (token : expectRe desc [keywordPattern, memberPattern] s = .ok (name, s'))
      (other : name ∉ [['?'], dictPrefix, ['[', ']'], ['(']]) :
      TypeStep desc stack wasMaybe s { type := .string (String.ofList name) } s'

theorem readTypeSpec_eq_ok_iff {wasMaybe : Bool} {t : TypeSpec} {s' : Scanner} :
    readTypeSpec desc (stack + 1) wasMaybe s = .ok (t, s') ↔
      TypeStep desc stack wasMaybe s t s' := by
  constructor
  · intro h
    rw [readTypeSpec] at h
    obtain ⟨⟨keyword, s₁⟩, token, behind⟩ := of_bind_eq_ok h
    simp only at behind
    by_cases maybe : keyword = ['?']
    · subst maybe
      cases wasMaybe with
      | true => cases behind
      | false =>
        obtain ⟨⟨type, s₂⟩, rest, done⟩ := of_bind_eq_ok behind
        cases done
        exact .maybe token rfl rest
    rw [if_neg maybe] at behind
    by_cases dict : keyword = dictPrefix
    · rw [if_pos dict] at behind
      obtain ⟨⟨type, s₂⟩, rest, done⟩ := of_bind_eq_ok behind
      cases done
      exact .dict (dict ▸ token) rest
    rw [if_neg dict] at behind
    by_cases array : keyword = ['[', ']']
    · rw [if_pos array] at behind
      obtain ⟨⟨type, s₂⟩, rest, done⟩ := of_bind_eq_ok behind
      cases done
      exact .array (array ▸ token) rest
    rw [if_neg array] at behind
    by_cases struct : keyword = ['(']
    · rw [if_pos struct] at behind
      obtain ⟨⟨type, s₂⟩, rest, done⟩ := of_bind_eq_ok behind
      cases done
      exact .struct (struct ▸ token) rest
    rw [if_neg struct] at behind
    cases behind
    refine .name token ?_
    simp only [List.mem_cons, List.not_mem_nil, or_false, not_or]
    exact ⟨maybe, dict, array, struct⟩
  · intro h
    cases h with
    | maybe token single rest =>
      rw [readTypeSpec, token]
      dsimp only [bind, Except.bind]
      rw [if_pos rfl, single, rest]
      rfl
    | dict token rest =>
      rw [readTypeSpec, token]
      dsimp only [bind, Except.bind]
      rw [if_neg (by decide), if_pos rfl, rest]
    | array token rest =>
      rw [readTypeSpec, token]
      dsimp only [bind, Except.bind]
      rw [if_neg (by decide), if_neg (by decide), if_pos rfl, rest]
    | struct token rest =>
      rw [readTypeSpec, token]
      dsimp only [bind, Except.bind]
      rw [if_neg (by decide), if_neg (by decide), if_neg (by decide), if_pos rfl, rest]
    | name token other =>
      simp only [List.mem_cons, List.not_mem_nil, or_false, not_or] at other
      obtain ⟨notMaybe, notDict, notArray, notStruct⟩ := other
      rw [readTypeSpec, token]
      dsimp only [bind, Except.bind]
      rw [if_neg notMaybe, if_neg notDict, if_neg notArray, if_neg notStruct]

/-! ### Deeper stacks -/

/-- What the three functions return on a stack that lasts they return on the next deeper one. -/
structure Deeper (desc : List Char) (stack : Nat) : Prop where
  struct : ∀ bracket s, Below Stop.stackOverflow (readStruct desc stack bracket s)
    (readStruct desc (stack + 1) bracket s)
  fields : ∀ fields s, Below Stop.stackOverflow (readFields desc stack fields s)
    (readFields desc (stack + 1) fields s)
  type : ∀ wasMaybe s, Below Stop.stackOverflow (readTypeSpec desc stack wasMaybe s)
    (readTypeSpec desc (stack + 1) wasMaybe s)

theorem deeper (desc : List Char) (stack : Nat) : Deeper desc stack := by
  induction stack with
  | zero =>
    refine ⟨fun _ _ => .inl ?_, fun _ _ => .inl ?_, fun _ _ => .inl ?_⟩
    · rw [readStruct]
    · rw [readFields]
    · rw [readTypeSpec]
  | succ stack ih =>
    refine ⟨fun bracket s => ?_, fun fields s => ?_, fun wasMaybe s => ?_⟩
    · rw [readStruct, readStruct]
      refine .ite (.bind (.refl _) fun s => ?_) (.bind (.refl _) fun s => ?_)
      all_goals
        dsimp only
        split
        · exact .refl _
        · exact ih.fields _ _
    · rw [readFields, readFields]
      refine .bind (.refl _) fun ⟨name, s⟩ => .bind (.refl _) fun ⟨keyword, s⟩ =>
        .bind (.refl _) fun opened => ?_
      cases opened with
      | invalid => exact .refl _
      | string => exact .refl _
      | struct acc =>
        refine .ite (.bind (ih.type _ _) fun ⟨type, s⟩ => .bind (.refl _) fun ⟨sep, s⟩ => ?_)
          (.refl _)
        exact .ite (.refl _) (ih.fields _ _)
      | enum values => exact .ite (.refl _) (.ite (ih.fields _ _) (.refl _))
    · rw [readTypeSpec, readTypeSpec]
      refine .bind (.refl _) fun ⟨keyword, s⟩ => ?_
      refine .ite (.ite (.refl _) (.bind (ih.type _ _) fun _ => .refl _)) ?_
      refine .ite (.bind (ih.type _ _) fun _ => .refl _) ?_
      refine .ite (.bind (ih.type _ _) fun _ => .refl _) ?_
      exact .ite (.bind (ih.struct _ _) fun _ => .refl _) (.refl _)

theorem readTypeSpec_below {m n : Nat} (le : m ≤ n) (wasMaybe : Bool) (s : Scanner) :
    Below Stop.stackOverflow (readTypeSpec desc m wasMaybe s) (readTypeSpec desc n wasMaybe s) :=
  .of_le (fun stack => (deeper desc stack).type wasMaybe s) le

theorem readStruct_below {m n : Nat} (le : m ≤ n) (bracket : Bool) (s : Scanner) :
    Below Stop.stackOverflow (readStruct desc m bracket s) (readStruct desc n bracket s) :=
  .of_le (fun stack => (deeper desc stack).struct bracket s) le

theorem readTypeSpec_mono {wasMaybe : Bool} {t : TypeSpec} {s' : Scanner} {m n : Nat} (le : m ≤ n)
    (h : readTypeSpec desc m wasMaybe s = .ok (t, s')) :
    readTypeSpec desc n wasMaybe s = .ok (t, s') :=
  (readTypeSpec_below le wasMaybe s).eq_ok h

theorem readStruct_mono {bracket : Bool} {r : TypeDef TypeSpec × Scanner} {m n : Nat} (le : m ≤ n)
    (h : readStruct desc m bracket s = .ok r) : readStruct desc n bracket s = .ok r :=
  (readStruct_below le bracket s).eq_ok h

/-! ### What reading keeps -/

structure Carried (desc : List Char) (R : Scanner → Scanner → Prop) : Prop where
  refl : ∀ s, R s s
  trans : ∀ {s t u}, R s t → R t u → R s u
  whitespace : ∀ s, R s (consumeWhitespace desc s)
  token : ∀ {patterns s tok s'}, expectRe desc patterns s = .ok (tok, s') → R s s'
  docstring : ∀ s, R s (getDocstring desc s).2

structure Carries (desc : List Char) (R : Scanner → Scanner → Prop) (stack : Nat) : Prop where
  struct : ∀ {bracket s type s'}, readStruct desc stack bracket s = .ok (type, s') → R s s'
  fields : ∀ {fields s type s'}, readFields desc stack fields s = .ok (type, s') → R s s'
  type : ∀ {wasMaybe s t s'}, readTypeSpec desc stack wasMaybe s = .ok (t, s') → R s s'

theorem Carried.reading {R : Scanner → Scanner → Prop} (kept : Carried desc R) (stack : Nat) :
    Carries desc R stack := by
  induction stack with
  | zero => exact ⟨nofun, nofun, nofun⟩
  | succ stack ih =>
    refine ⟨fun {bracket s _ _} h => ?_, fun {_ s _ _} h => ?_, fun h => ?_⟩
    · obtain ⟨s₁, first, rest⟩ := readStruct_eq_ok_iff.mp h
      have opened : R s s₁ := by
        cases bracket with
        | true => exact kept.token first
        | false => exact first ▸ kept.refl s
      rcases rest with ⟨tok, s₂, closed, same⟩ | ⟨-, read⟩
      · cases same
        exact kept.trans opened (kept.token closed)
      · exact kept.trans opened (kept.trans (kept.whitespace s₁) (ih.fields read))
    · obtain ⟨fields', sep, s₁, round, next⟩ := readFields_eq_ok_iff.mp h
      have around : R s s₁ := by
        cases round with
        | field _ readName colon readType separator =>
          exact kept.trans (kept.trans (kept.token readName) (kept.token colon))
            (kept.trans (ih.type readType) (kept.token separator))
        | value _ readName separator =>
          exact kept.trans (kept.token readName) (kept.token separator)
      split at next
      · cases next
        exact around
      · exact kept.trans around (ih.fields next)
    · cases readTypeSpec_eq_ok_iff.mp h with
      | maybe token _ rest => exact kept.trans (kept.token token) (ih.type rest)
      | dict token rest => exact kept.trans (kept.token token) (ih.type rest)
      | array token rest => exact kept.trans (kept.token token) (ih.type rest)
      | struct token rest => exact kept.trans (kept.token token) (ih.struct rest)
      | name token => exact kept.token token

/-! ### Members -/

theorem readMethodSpec_eq_ok_iff {t : TypeSpec} {s' : Scanner} :
    readMethodSpec desc stack s = .ok (t, s') ↔ ∃ parameters s₁ s₂ returnValue,
      readStruct desc stack true s = .ok (parameters, s₁) ∧
      expectRe desc [keywordPattern] s₁ = .ok (['-', '>'], s₂) ∧
      readStruct desc stack true s₂ = .ok (returnValue, s') ∧
      t = { type := .struct [("parameters", { type := parameters }),
        ("return_value", { type := returnValue })] } := by
  constructor
  · intro h
    obtain ⟨⟨parameters, s₁⟩, first, atArrow⟩ := of_bind_eq_ok h
    obtain ⟨s₂, arrow, atReturn⟩ := of_bind_eq_ok atArrow
    obtain ⟨⟨returnValue, s₃⟩, second, done⟩ := of_bind_eq_ok atReturn
    cases done
    exact ⟨parameters, s₁, s₂, returnValue, first, expectKeyword_eq_ok_iff.mp arrow, second, rfl⟩
  · rintro ⟨parameters, s₁, s₂, returnValue, first, arrow, second, rfl⟩
    exact bind_eq_ok_iff.mpr ⟨_, first, bind_eq_ok_iff.mpr ⟨_, expectKeyword_eq_ok_iff.mpr arrow,
      bind_eq_ok_iff.mpr ⟨_, second, rfl⟩⟩⟩

structure MemberStep (desc : List Char) (stack : Nat) (s : Scanner) (m : Member)
    (s' : Scanner) where
  keyword : List Char
  atName : Scanner
  readKeyword : expectRe desc [keywordPattern] s = .ok (keyword, atName)
  kind : readKind keyword = .ok m.kind
  name : List Char
  behind : Scanner
  readName : expectRe desc [memberPattern] atName = .ok (name, behind)
  name_eq : m.name = String.ofList name
  description : m.description = (getDocstring desc behind).1
  data : readData desc m.kind stack (getDocstring desc behind).2 = .ok (m.data, s')

theorem readMember_eq_ok_iff {m : Member} {s' : Scanner} :
    readMember desc stack s = .ok (m, s') ↔ Nonempty (MemberStep desc stack s m s') := by
  constructor
  · intro h
    obtain ⟨⟨keyword, s₁⟩, readKeyword, atKind⟩ := of_bind_eq_ok h
    obtain ⟨kind, known, atName⟩ := of_bind_eq_ok atKind
    obtain ⟨⟨name, s₂⟩, readName, atData⟩ := of_bind_eq_ok atName
    obtain ⟨⟨data, s₃⟩, read, done⟩ := of_bind_eq_ok atData
    cases done
    exact ⟨keyword, s₁, readKeyword, known, name, s₂, readName, rfl, rfl, read⟩
  · rintro ⟨keyword, s₁, readKeyword, known, name, s₂, readName, name_eq, description, read⟩
    obtain ⟨kind, _, _, data⟩ := m
    simp only at known name_eq description read
    subst name_eq description
    exact bind_eq_ok_iff.mpr ⟨_, readKeyword, bind_eq_ok_iff.mpr ⟨_, known,
      bind_eq_ok_iff.mpr ⟨_, readName, bind_eq_ok_iff.mpr ⟨_, read, rfl⟩⟩⟩⟩

theorem readMembers_eq_ok_iff {members r : List Member} :
    readMembers desc (stack + 1) members s = .ok r ↔ ∃ m s', readMember desc stack s = .ok (m, s') ∧
      if m.kind = .undefined then r = members
      else members.any (·.name == m.name) = false ∧
        readMembers desc stack (members ++ [m]) s' = .ok r := by
  rw [readMembers, bind_eq_ok_iff]
  constructor
  · rintro ⟨⟨m, s'⟩, read, next⟩
    refine ⟨m, s', read, ?_⟩
    simp only at next
    split at next
    · cases next
      rw [if_pos ‹_›]
    · rw [if_neg ‹_›]
      split at next
      · cases next
      · rename_i fresh
        exact ⟨Bool.eq_false_iff.mpr fresh, next⟩
  · rintro ⟨m, s', read, next⟩
    refine ⟨(m, s'), read, ?_⟩
    simp only
    split at next
    · rw [if_pos ‹_›, next]
    · rw [if_neg ‹_›, if_neg (by rw [next.1]; decide)]
      exact next.2

theorem Carried.data {R : Scanner → Scanner → Prop} (kept : Carried desc R) {kind : MemberKind}
    {t : TypeSpec} {s' : Scanner} (h : readData desc kind stack s = .ok (t, s')) : R s s' := by
  unfold readData at h
  split at h
  · obtain ⟨_, s₁, s₂, _, first, arrow, second, -⟩ := readMethodSpec_eq_ok_iff.mp h
    exact kept.trans ((kept.reading stack).struct first)
      (kept.trans (kept.token arrow) ((kept.reading stack).struct second))
  · exact (kept.reading stack).type h

theorem Carried.behindKeyword {R : Scanner → Scanner → Prop} (kept : Carried desc R) {m : Member}
    {s' : Scanner} (step : MemberStep desc stack s m s') : R step.atName s' :=
  kept.trans (kept.token step.readName) (kept.trans (kept.docstring step.behind)
    (kept.data step.data))

theorem Carried.member {R : Scanner → Scanner → Prop} (kept : Carried desc R) {m : Member}
    {s' : Scanner} (h : readMember desc stack s = .ok (m, s')) : R s s' := by
  obtain ⟨step⟩ := readMember_eq_ok_iff.mp h
  exact kept.trans (kept.token step.readKeyword) (kept.behindKeyword step)

theorem readData_below {m n : Nat} (le : m ≤ n) (kind : MemberKind) (s : Scanner) :
    Below Stop.stackOverflow (readData desc kind m s) (readData desc kind n s) := by
  refine .ite (.bind (readStruct_below le true s) fun _ => .bind (.refl _) fun _ => ?_)
    (readTypeSpec_below le false s)
  exact .bind (readStruct_below le true _) fun _ => .refl _

theorem readMember_below {m n : Nat} (le : m ≤ n) (s : Scanner) :
    Below Stop.stackOverflow (readMember desc m s) (readMember desc n s) := by
  refine .bind (.refl _) fun _ => .bind (.refl _) fun kind => .bind (.refl _) fun _ => ?_
  exact .bind (readData_below le kind _) fun _ => .refl _

theorem readMembers_below {m n : Nat} (le : m ≤ n) (members : List Member) (s : Scanner) :
    Below Stop.stackOverflow (readMembers desc m members s) (readMembers desc n members s) := by
  induction m generalizing n members s with
  | zero => exact .bottom _
  | succ m ih =>
    obtain ⟨n, rfl⟩ : ∃ l, n = l + 1 := ⟨n - 1, by omega⟩
    refine .bind (readMember_below (by omega) s) fun _ => .ite (.refl _) (.ite (.refl _) ?_)
    exact ih (by omega) _ _

theorem readMember_mono {m : Member} {s' : Scanner} {k n : Nat} (le : k ≤ n)
    (h : readMember desc k s = .ok (m, s')) : readMember desc n s = .ok (m, s') :=
  (readMember_below le s).eq_ok h

theorem readMembers_mono {members r : List Member} {k n : Nat} (le : k ≤ n)
    (h : readMembers desc k members s = .ok r) : readMembers desc n members s = .ok r :=
  (readMembers_below le members s).eq_ok h

theorem prefix_of_readMembers {members r : List Member}
    (h : readMembers desc stack members s = .ok r) : members <+: r := by
  induction stack generalizing members s with
  | zero => cases h
  | succ stack ih =>
    obtain ⟨m, s', -, next⟩ := readMembers_eq_ok_iff.mp h
    split at next
    · exact next ▸ List.prefix_refl members
    · exact (List.prefix_append members [m]).trans (ih next.2)

end Varlink.Scanner

namespace Varlink.VarlinkInterface

open Scanner

theorem construct_below {m n : Nat} (le : m ≤ n) (description : String) :
    Fuel.Below Stop.stackOverflow (construct m description) (construct n description) :=
  .bind (.refl _) fun _ => .bind (readMembers_below le [] _) fun _ => .refl _

theorem construct_eq_ok_iff {stack : Nat} {description : String} {i : VarlinkInterface} :
    construct stack description = .ok i ↔ ∃ s ifname s',
      expectRe description.toList [keywordPattern] {} = .ok ("interface".toList, s) ∧
      expectRe description.toList [ifnamePattern] s = .ok (ifname, s') ∧
      i.ifname = String.ofList ifname ∧
      i.documentation = (getDocstring description.toList s').1 ∧ i.members ≠ [] ∧
      readMembers description.toList stack [] (getDocstring description.toList s').2 =
        .ok i.members := by
  constructor
  · intro h
    obtain ⟨⟨ifname, s'⟩, readName, atMembers⟩ := of_bind_eq_ok h
    obtain ⟨members, read, done⟩ := of_bind_eq_ok atMembers
    obtain ⟨s, keyword, name⟩ := of_bind_eq_ok readName
    split at done
    · cases done
    · rename_i some
      cases done
      have nonempty : members ≠ [] := fun empty => some (by rw [empty]; rfl)
      exact ⟨s, ifname, s', expectKeyword_eq_ok_iff.mp keyword, name, rfl, rfl, nonempty, read⟩
  · obtain ⟨_, _, members⟩ := i
    rintro ⟨s, ifname, s', keyword, name, rfl, rfl, some, read⟩
    have readName : readInterfaceName description.toList {} = .ok (ifname, s') :=
      bind_eq_ok_iff.mpr ⟨s, expectKeyword_eq_ok_iff.mpr keyword, name⟩
    refine bind_eq_ok_iff.mpr ⟨_, readName, bind_eq_ok_iff.mpr ⟨_, read, ?_⟩⟩
    rw [if_neg (by simpa using some)]
    rfl

end Varlink.VarlinkInterface
