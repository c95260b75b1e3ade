import Varlink.Lexemes

/-! The grammar of interface descriptions: what can be derived, and the tokens that it
is derived to. -/

namespace Varlink

open Regex Scanner

def separated : List (List Lexeme) → List Lexeme
  | [] => [[')']]
  | [toks] => toks ++ [[')']]
  | toks :: rest => toks ++ [','] :: separated rest

namespace TypeExpr

def tokens : TypeExpr → List Lexeme
  | maybe type => ['?'] :: type.tokens
  | array type => ['[', ']'] :: type.tokens
  | dict type => dictPrefix :: type.tokens
  | named name => [name.toList]
  | enum values => ['('] :: separated (values.map fun v => [v.toList])
  | struct fields => ['('] :: separated (fieldTokens fields)
where
  fieldTokens : List (String × TypeExpr) → List (List Lexeme)
    | [] => []
    | (name, type) :: rest => (name.toList :: [':'] :: type.tokens) :: fieldTokens rest

theorem fieldTokens_eq_map (fields : List (String × TypeExpr)) :
    tokens.fieldTokens fields = fields.map fun f => f.1.toList :: [':'] :: f.2.tokens := by
  induction fields with
  | nil => rfl
  | cons f rest ih => rw [tokens.fieldTokens, ih]; rfl

inductive Grammatical : TypeExpr → Prop where
  | maybe {e : TypeExpr} (single : e.isMaybe = false) (type : Grammatical e) :
      Grammatical (.maybe e)
  | array {e : TypeExpr} (type : Grammatical e) : Grammatical (.array e)
  | dict {e : TypeExpr} (type : Grammatical e) : Grammatical (.dict e)
  | named {name : String}
      (token : Token [word (plus lower)] name.toList ∨ Token [memberPattern] name.toList) :
      Grammatical (.named name)
  | enum {values : List String} (some : values ≠ [])
      (names : ∀ v ∈ values, Token [identifierPattern] v.toList) : Grammatical (.enum values)
  | struct {fields : List (String × TypeExpr)}
      (names : ∀ f ∈ fields, Token [identifierPattern] f.1.toList)
      (types : ∀ f ∈ fields, Grammatical f.2) : Grammatical (.struct fields)

/-- Every enumeration has two values or more. -/
inductive Plural : TypeExpr → Prop where
  | maybe {e : TypeExpr} (type : Plural e) : Plural (.maybe e)
  | array {e : TypeExpr} (type : Plural e) : Plural (.array e)
  | dict {e : TypeExpr} (type : Plural e) : Plural (.dict e)
  | named {name : String} : Plural (.named name)
  | enum {values : List String} (two : 2 ≤ values.length) : Plural (.enum values)
  | struct {fields : List (String × TypeExpr)} (types : ∀ f ∈ fields, Plural f.2) :
      Plural (.struct fields)

def isStruct : TypeExpr → Bool
  | struct _ => true
  | _ => false

end TypeExpr

inductive MemberExpr where
  | type (name : String) (type : TypeExpr)
  | error (name : String) (type : TypeExpr)
  | method (name : String) (parameters returnValue : TypeExpr)

namespace MemberExpr

def kind : MemberExpr → MemberKind
  | type .. => .type
  | error .. => .error
  | method .. => .method

def keyword : MemberExpr → Lexeme
  | type .. => "type".toList
  | error .. => "error".toList
  | method .. => "method".toList

def name : MemberExpr → String
  | type name _ => name
  | error name _ => name
  | method name .. => name

def types : MemberExpr → List TypeExpr
  | type _ t => [t]
  | error _ t => [t]
  | method _ parameters returnValue => [parameters, returnValue]

def behindName : MemberExpr → List Lexeme
  | type _ t => t.tokens
  | error _ t => t.tokens
  | method _ parameters returnValue => parameters.tokens ++ ['-', '>'] :: returnValue.tokens

def tokens (m : MemberExpr) : List Lexeme := m.keyword :: m.name.toList :: m.behindName

def data : MemberExpr → TypeSpec
  | type _ t => t.toSpec
  | error _ t => t.toSpec
  | method _ parameters returnValue => { type := .struct [("parameters", parameters.toSpec),
      ("return_value", returnValue.toSpec)] }

structure Grammatical (m : MemberExpr) : Prop where
  name : Token [memberPattern] m.name.toList
  types : ∀ t ∈ m.types, t.Grammatical
  bracketed : m.kind = .method → ∀ t ∈ m.types, t.isBracketed = true

/-- Types and errors are structs or enumerations, what a method takes and returns are structs. -/
def OfStructs : MemberExpr → Prop
  | type _ t => t.isBracketed = true
  | error _ t => t.isBracketed = true
  | method _ parameters returnValue => parameters.isStruct = true ∧ returnValue.isStruct = true

end MemberExpr

structure InterfaceExpr where
  ifname : String
  members : List MemberExpr

namespace InterfaceExpr

def tokens (e : InterfaceExpr) : List Lexeme :=
  "interface".toList :: e.ifname.toList :: e.members.flatMap (·.tokens)

structure Grammatical (e : InterfaceExpr) : Prop where
  nonempty : e.ifname.toList ≠ []
  ifname : matched [ifnamePattern] e.ifname.toList = e.ifname.toList.length
  some : e.members ≠ []
  members : ∀ m ∈ e.members, m.Grammatical

/-- The text has the tokens of the interface, with any whitespace and comments between them
that keep words apart. -/
def SpelledAs (e : InterfaceExpr) (text : List Char) : Prop := Spells (e.tokens ++ [[]]) text []

end InterfaceExpr

/-! ### Types in their texts -/

theorem sources_of_spells {α σ : Type} {toks : α → List Lexeme} (source : σ → List Char)
    (value : σ → α) (P : σ → Prop) {xs : List α} (some : xs ≠ [])
    (read : ∀ x ∈ xs, ∀ {text g rest : List Char}, Gap g → Spells (toks x) text (g ++ rest) →
      ∃ y, value y = x ∧ P y ∧ text = source y ++ rest)
    {text rest : List Char} (h : Spells (separated (xs.map toks)) text rest) :
    ∃ ys : List σ, ys.map value = xs ∧ (∀ y ∈ ys, P y) ∧ text = listed (ys.map source) ++ rest := by
  induction xs generalizing text with
  | nil => exact absurd rfl some
  | cons x xs ih =>
    cases xs with
    | nil =>
      have h : Spells (toks x ++ [[')']]) text rest := h
      obtain ⟨mid, first, closing⟩ := h.split
      obtain ⟨g, after, rfl, gap, -, done⟩ := closing.cons_inv (List.cons_ne_nil _ _)
      cases done
      obtain ⟨y, rfl, valid, rfl⟩ := read x List.mem_cons_self gap first
      exact ⟨[y], rfl, List.forall_mem_singleton.mpr valid, by simp [listed]⟩
    | cons x' xs =>
      have h : Spells (toks x ++ [','] :: separated ((x' :: xs).map toks)) text rest := h
      obtain ⟨mid, first, behind⟩ := h.split
      obtain ⟨g, after, rfl, gap, -, others⟩ := behind.cons_inv (List.cons_ne_nil _ _)
      obtain ⟨y, rfl, valid, rfl⟩ := read x List.mem_cons_self gap first
      obtain ⟨ys, rest_eq, all, rfl⟩ :=
        ih (List.cons_ne_nil _ _) (fun z member => read z (List.mem_cons_of_mem _ member)) others
      refine ⟨y :: ys, by rw [List.map_cons, rest_eq], List.forall_mem_cons.mpr ⟨valid, all⟩, ?_⟩
      cases ys with
      | nil => cases rest_eq
      | cons y' ys => simp [listed]

theorem isWord_of_token {tok : Lexeme}
    (token : Token [word (plus lower)] tok ∨ Token [memberPattern] tok) : IsWord tok := by
  rcases token with token | token
  · exact (isWord_of_matched_word plain_lower token.nonempty (token.reads [] boundary_nil)).1
  · exact (isWord_of_matched_word plain_member token.nonempty (token.reads [] boundary_nil)).1

theorem token_type_of_token {tok : Lexeme}
    (token : Token [word (plus lower)] tok ∨ Token [memberPattern] tok) :
    Token [keywordPattern, memberPattern] tok := by
  have word := isWord_of_token token
  have positive := List.length_pos_iff.mpr word.nonempty
  refine token_type word.nonempty (x := []) ?_
  rw [matched_pair]
  rcases token with token | token
  · have starts := starts_of_matched (token.reads [] boundary_nil) (by omega)
    have keyword : matched [keywordPattern] (tok ++ []) = tok.length := by
      rw [matched_singleton, keywordPattern, starts_alt, starts]
      rfl
    rw [keyword, if_neg (by omega)]
  · have reads := token.reads [] boundary_nil
    obtain ⟨c, head, upper⟩ := upper_of_starts_member (starts_of_matched reads (by omega))
    obtain ⟨d, tail, rfl⟩ := List.exists_cons_of_ne_nil word.nonempty
    cases head
    rw [List.cons_append, if_pos (matched_keyword_upper upper)]
    exact reads

theorem typeName_of_token {name : List Char}
    (token : Token [word (plus lower)] name ∨ Token [memberPattern] name) : TypeName name := by
  refine ⟨token_type_of_token token, fun opener => (isWord_of_token token).not_mark ?_⟩
  exact (by decide : ∀ tok ∈ [['?'], dictPrefix, ['[', ']'], ['(']], tok ∈ punctuation) name opener

theorem written_of_spells {e : TypeExpr} (h : e.Grammatical) (plural : e.Plural)
    {text rest : List Char} (spells : Spells e.tokens text rest) :
    ∃ t, text = t ++ rest ∧ Written e t := by
  induction h generalizing text rest with
  | maybe single _ ih =>
    obtain ⟨g, after, rfl, gap, -, behind⟩ := spells.cons_inv (List.cons_ne_nil _ _)
    cases plural with
    | maybe plural =>
      obtain ⟨t, rfl, written⟩ := ih plural behind
      exact ⟨g ++ '?' :: t, by simp, .maybe gap single written⟩
  | array _ ih =>
    obtain ⟨g, after, rfl, gap, -, behind⟩ := spells.cons_inv (List.cons_ne_nil _ _)
    cases plural with
    | array plural =>
      obtain ⟨t, rfl, written⟩ := ih plural behind
      exact ⟨g ++ '[' :: ']' :: t, by simp, .array gap written⟩
  | dict _ ih =>
    obtain ⟨g, after, rfl, gap, -, behind⟩ := spells.cons_inv (List.cons_ne_nil _ _)
    cases plural with
    | dict plural =>
      obtain ⟨t, rfl, written⟩ := ih plural behind
      exact ⟨g ++ (dictPrefix ++ t), by simp, .dict gap written⟩
  | @named name token =>
    have typeName := typeName_of_token token
    obtain ⟨g, after, rfl, gap, -, behind⟩ := spells.cons_inv typeName.token.nonempty
    cases behind
    exact ⟨g ++ name.toList, by simp, .named gap typeName⟩
  | @enum values some names =>
    cases plural with
    | enum two =>
      obtain ⟨g, after, rfl, gap, -, behind⟩ := spells.cons_inv (List.cons_ne_nil _ _)
      obtain ⟨vs, rfl, valid, rfl⟩ := sources_of_spells ValueSource.source ValueSource.name
        ValueSource.Valid some (fun v member {text g rest} gap value => by
          obtain ⟨g', after, rfl, gap', -, done⟩ := value.cons_inv (names v member).nonempty
          cases done
          exact ⟨⟨g', v, g⟩, rfl, ⟨gap', names v member, gap⟩, by simp [ValueSource.source]⟩)
        behind
      rw [List.length_map] at two
      exact ⟨_, by simp, .enum gap two valid⟩
  | @struct fields names types ih =>
    cases plural with
    | struct plural =>
      obtain ⟨g, after, rfl, gap, -, behind⟩ := spells.cons_inv (List.cons_ne_nil _ _)
      rw [TypeExpr.fieldTokens_eq_map] at behind
      by_cases none : fields = []
      · subst none
        obtain ⟨h, after, rfl, inner, -, done⟩ := behind.cons_inv (List.cons_ne_nil _ _)
        cases done
        exact ⟨g ++ '(' :: (h ++ [')']), by simp, .empty gap inner⟩
      · obtain ⟨fs, rfl, valid, rfl⟩ := sources_of_spells FieldSource.source FieldSource.field
          (fun f => f.Valid ∧ Written f.type f.text) none
          (fun f member {text g rest} gap field => by
            obtain ⟨before, after, rfl, gap₁, -, field⟩ :=
              field.cons_inv (names f member).nonempty
            obtain ⟨between, after, rfl, gap₂, -, type⟩ := field.cons_inv (List.cons_ne_nil _ _)
            obtain ⟨t, rfl, written⟩ := ih f member (plural f member) type
            exact ⟨⟨before, f.1, between, f.2, t, g⟩, rfl,
              ⟨⟨gap₁, names f member, gap₂, gap⟩, written⟩, by simp [FieldSource.source]⟩)
          behind
        exact ⟨_, by simp, .struct gap (fun empty => none (by rw [empty]; rfl))
          (fun f member => (valid f member).1) fun f member => (valid f member).2⟩

/-! ### The tokens of a derivation -/

theorem forall_mem_separated {P : Lexeme → Prop} {texts : List (List Lexeme)}
    (all : ∀ toks ∈ texts, ∀ tok ∈ toks, P tok) (comma : P [',']) (closes : P [')']) :
    ∀ tok ∈ separated texts, P tok := by
  induction texts with
  | nil => exact List.forall_mem_singleton.mpr closes
  | cons toks rest ih =>
    obtain ⟨first, others⟩ := List.forall_mem_cons.mp all
    cases rest with
    | nil => exact List.forall_mem_append.mpr ⟨first, List.forall_mem_singleton.mpr closes⟩
    | cons toks' rest =>
      exact List.forall_mem_append.mpr ⟨first, List.forall_mem_cons.mpr ⟨comma, ih others⟩⟩

theorem isWord_of_identifier {tok : Lexeme} (token : Token [identifierPattern] tok) : IsWord tok :=
  (isWord_of_matched_word plain_identifier token.nonempty (token.reads [] boundary_nil)).1

theorem TypeExpr.Grammatical.kinds {e : TypeExpr} (h : e.Grammatical) :
    ∀ tok ∈ e.tokens, IsWord tok ∨ tok ∈ punctuation := by
  induction h with
  | maybe _ _ ih => exact List.forall_mem_cons.mpr ⟨.inr (by decide), ih⟩
  | array _ ih => exact List.forall_mem_cons.mpr ⟨.inr (by decide), ih⟩
  | dict _ ih => exact List.forall_mem_cons.mpr ⟨.inr (by decide), ih⟩
  | named token => exact List.forall_mem_singleton.mpr (.inl (isWord_of_token token))
  | enum _ names =>
    refine List.forall_mem_cons.mpr ⟨.inr (by decide), forall_mem_separated ?_ (.inr (by decide))
      (.inr (by decide))⟩
    refine List.forall_mem_map.mpr fun v member => ?_
    exact List.forall_mem_singleton.mpr (.inl (isWord_of_identifier (names v member)))
  | struct names _ ih =>
    rw [tokens, fieldTokens_eq_map]
    refine List.forall_mem_cons.mpr ⟨.inr (by decide), forall_mem_separated ?_ (.inr (by decide))
      (.inr (by decide))⟩
    refine List.forall_mem_map.mpr fun f member => ?_
    exact List.forall_mem_cons.mpr ⟨.inl (isWord_of_identifier (names f member)),
      List.forall_mem_cons.mpr ⟨.inr (by decide), ih f member⟩⟩

namespace MemberExpr

theorem keyword_mem (m : MemberExpr) :
    m.keyword ∈ ["type".toList, "error".toList, "method".toList] := by
  cases m with
  | type => exact List.mem_cons_self
  | error => exact List.mem_cons_of_mem _ List.mem_cons_self
  | method => exact List.mem_cons_of_mem _ (List.mem_cons_of_mem _ List.mem_cons_self)

theorem isWord_keyword (m : MemberExpr) : IsWord m.keyword :=
  isWord_of_keyword _ (List.mem_cons_of_mem _ m.keyword_mem)

theorem Grammatical.kinds {m : MemberExpr} (h : m.Grammatical) :
    ∀ tok ∈ m.tokens, IsWord tok ∨ tok ∈ punctuation := by
  refine List.forall_mem_cons.mpr ⟨.inl m.isWord_keyword,
    List.forall_mem_cons.mpr ⟨.inl (isWord_of_token (.inr h.name)), ?_⟩⟩
  cases m with
  | type name t => exact (h.types t List.mem_cons_self).kinds
  | error name t => exact (h.types t List.mem_cons_self).kinds
  | method name p r =>
    obtain ⟨parameters, returnValue⟩ := List.forall_mem_cons.mp h.types
    exact List.forall_mem_append.mpr ⟨parameters.kinds,
      List.forall_mem_cons.mpr ⟨.inr (by decide), (returnValue r List.mem_cons_self).kinds⟩⟩

end MemberExpr

theorem InterfaceExpr.memberLexemes_of_spelledAs {e : InterfaceExpr} {text : List Char}
    (h : e.Grammatical) (spelled : e.SpelledAs text) :
    memberLexemes text = e.members.flatMap (·.tokens) := by
  have kinds : ∀ tok ∈ e.members.flatMap (·.tokens), IsWord tok ∨ tok ∈ punctuation := by
    intro tok member
    obtain ⟨m, inside, member⟩ := List.mem_flatMap.mp member
    exact (h.members m inside).kinds tok member
  have head : ((e.members.flatMap (·.tokens)).head?.any fun tok => tok.head?.any isWord) =
      true := by
    obtain ⟨m, ms, members⟩ := List.exists_cons_of_ne_nil h.some
    rw [members]
    exact m.isWord_keyword.startsWord
  have full : matched [ifnamePattern] (e.ifname.toList ++ []) = e.ifname.toList.length := by
    rw [List.append_nil]
    exact h.ifname
  rw [memberLexemes_of_spells h.nonempty full head (fun tok member => .inr (kinds tok member))
    spelled, List.filter_eq_self]
  intro tok member
  rcases kinds tok member with word | known
  · exact decide_eq_true word.nonempty
  · exact decide_eq_true (token_punctuation known).nonempty

end Varlink
