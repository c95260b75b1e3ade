import Varlink.Grammar
import Varlink.MemberText

/-! What the scanner takes for types and members: more than the grammar has, since it
asks of few tokens what they are. -/

namespace Varlink

open Regex Scanner

def prefixes : List Lexeme := [['?'], dictPrefix, ['[', ']']]

/-- A field of a struct. Any keyword may stand between it and the next one. -/
structure FieldTaken where
  name : Lexeme
  type : List Lexeme
  sep : Lexeme

namespace FieldTaken

def tokens (f : FieldTaken) : List Lexeme := f.name :: [':'] :: (f.type ++ [f.sep])

theorem tokens_cons (f : FieldTaken) (fs : List FieldTaken) : (f :: fs).flatMap (·.tokens) =
    f.name :: [':'] :: (f.type ++ f.sep :: fs.flatMap (·.tokens)) := by
  simp [tokens]

structure Valid (f : FieldTaken) : Prop where
  name : Token [identifierPattern] f.name
  sep : Token [keywordPattern] f.sep

end FieldTaken

def Closed (fs : List FieldTaken) : Prop := fs.getLast?.map (·.sep) = some [')']

/-- The tokens that are taken for a type. The end of the text is taken for its name,
and for a closing bracket. -/
inductive Taken : List Lexeme → Prop where
  | prefixed {tok : Lexeme} {toks : List Lexeme} (known : tok ∈ prefixes)
      (single : tok = ['?'] → toks.head? ≠ some ['?']) (type : Taken toks) : Taken (tok :: toks)
  | leaf {tok : Lexeme} (token : tok = [] ∨ Token [keywordPattern, memberPattern] tok)
      (other : tok ∉ [['?'], dictPrefix, ['[', ']'], ['(']]) : Taken [tok]
  | empty {tok : Lexeme} (closes : tok = [] ∨ tok = [')']) : Taken [['('], tok]
  | struct {fs : List FieldTaken} (closed : Closed fs) (valid : ∀ f ∈ fs, f.Valid)
      (types : ∀ f ∈ fs, Taken f.type) : Taken (['('] :: fs.flatMap (·.tokens))
  | enum {vs : List Lexeme} (two : 2 ≤ vs.length)
      (names : ∀ v ∈ vs, Token [identifierPattern] v) :
      Taken (['('] :: separated (vs.map ([·])))

inductive TakenFields (fields : TypeDef TypeSpec) : List Lexeme → Prop where
  | fields {fs : List FieldTaken} (shape : fields = .invalid ∨ ∃ acc, fields = .struct acc)
      (closed : Closed fs) (valid : ∀ f ∈ fs, f.Valid) (types : ∀ f ∈ fs, Taken f.type) :
      TakenFields fields (fs.flatMap (·.tokens))
  | values {vs : List Lexeme}
      (shape : fields = .invalid ∧ 2 ≤ vs.length ∨ ∃ acc, fields = .enum acc) (some : vs ≠ [])
      (names : ∀ v ∈ vs, Token [identifierPattern] v) :
      TakenFields fields (separated (vs.map ([·])))

theorem TakenFields.taken {toks : List Lexeme} (h : TakenFields .invalid toks) :
    Taken (['('] :: toks) := by
  cases h with
  | fields shape closed valid types => exact .struct closed valid types
  | values shape some names =>
    rcases shape with ⟨-, two⟩ | ⟨acc, other⟩
    · exact .enum two names
    · cases other

theorem separated_ne_nil (texts : List (List Lexeme)) : separated texts ≠ [] := by
  cases texts with
  | nil => exact List.cons_ne_nil _ _
  | cons toks rest => cases rest <;> simp [separated]

theorem TakenFields.ne_nil {fields : TypeDef TypeSpec} {toks : List Lexeme}
    (h : TakenFields fields toks) : toks ≠ [] := by
  cases h with
  | @fields fs _ closed =>
    cases fs with
    | nil => cases closed
    | cons f fs => exact List.cons_ne_nil _ _
  | values => exact separated_ne_nil _

section Takes
variable {desc : List Char} {stack : Nat} {s s' : Scanner}

/-- Where the scanner returns, it has taken the tokens of the text between. -/
structure Takes (desc : List Char) (stack : Nat) : Prop where
  struct : ∀ {bracket s type s'}, readStruct desc stack bracket s = .ok (type, s') →
    ∃ toks, Taken (['('] :: toks) ∧
      Spells (if bracket then ['('] :: toks else toks) (desc.drop s.pos) (desc.drop s'.pos)
  fields : ∀ {fields s type s'}, readFields desc stack fields s = .ok (type, s') →
    ∃ toks, TakenFields fields toks ∧ Spells toks (desc.drop s.pos) (desc.drop s'.pos)
  type : ∀ {wasMaybe s t s'}, readTypeSpec desc stack wasMaybe s = .ok (t, s') →
    ∃ toks, Taken toks ∧ (wasMaybe = true → toks.head? ≠ some ['?']) ∧
      Spells toks (desc.drop s.pos) (desc.drop s'.pos)

theorem spells_of_expectRe_inside {patterns : List (Regex Char)} {tok : Lexeme}
    (lexical : Lexical patterns) (h : expectRe desc patterns s = .ok (tok, s'))
    (inside : desc.drop s'.pos ≠ []) :
    Token patterns tok ∧ Spells [tok] (desc.drop s.pos) (desc.drop s'.pos) := by
  obtain ⟨token, spells⟩ := spells_of_expectRe lexical h
  exact ⟨token.resolve_left fun ends => inside ends.2, spells⟩

theorem expectRe_inside {patterns : List (Regex Char)} {tok : Lexeme} (some : tok ≠ [])
    (h : expectRe desc patterns s = .ok (tok, s')) : desc.drop s.pos ≠ [] := by
  intro ends
  rw [expectRe_end ends] at h
  cases h
  exact some rfl

theorem takenFields_of_round {fields fields' : TypeDef TypeSpec} {sep : Lexeme} {rest : List Char}
    (types : ∀ {wasMaybe s t s'}, readTypeSpec desc stack wasMaybe s = .ok (t, s') →
      ∃ toks, Taken toks ∧ (wasMaybe = true → toks.head? ≠ some ['?']) ∧
        Spells toks (desc.drop s.pos) (desc.drop s'.pos))
    (round : Round desc stack fields s fields' sep s') (known : sep = [] → desc.drop s'.pos ≠ [])
    (next : if sep = [')'] then rest = desc.drop s'.pos
      else ∃ toks, TakenFields fields' toks ∧ Spells toks (desc.drop s'.pos) rest) :
    ∃ toks, TakenFields fields toks ∧ Spells toks (desc.drop s.pos) rest := by
  cases round with
  | @field acc name s₁ s₂ s₃ _ type _ shape readName colon readType separator =>
    obtain ⟨nameToken, first⟩ := spells_of_expectRe_inside lexical_identifier readName
      (expectRe_inside (List.cons_ne_nil _ _) colon)
    obtain ⟨-, second⟩ := spells_of_expectRe lexical_keyword colon
    obtain ⟨toks, taken, -, third⟩ := types readType
    obtain ⟨token, fourth⟩ := spells_of_expectRe lexical_keyword separator
    have sepToken : Token [keywordPattern] sep :=
      token.resolve_left fun ⟨empty, ends⟩ => known empty ends
    let field : FieldTaken := ⟨name, toks, sep⟩
    have own : field.Valid := ⟨nameToken, sepToken⟩
    have spells : Spells field.tokens (desc.drop s.pos) (desc.drop s'.pos) :=
      first.append (second.append (third.append fourth))
    have shape' : fields = .invalid ∨ ∃ acc, fields = .struct acc :=
      shape.symm.imp And.left fun same => ⟨acc, same⟩
    split at next
    · rename_i closed
      subst next
      have last : Closed [field] := congrArg some closed
      refine ⟨[field].flatMap FieldTaken.tokens, .fields shape' last
        (List.forall_mem_singleton.mpr own) (List.forall_mem_singleton.mpr taken), ?_⟩
      rwa [List.flatMap_singleton]
    · obtain ⟨_, others, behind⟩ := next
      cases others with
      | values shape =>
        rcases shape with ⟨other, -⟩ | ⟨_, other⟩ <;> cases other
      | @fields fs _ closed valid all =>
        refine ⟨(field :: fs).flatMap FieldTaken.tokens, .fields shape' ?_
          (List.forall_mem_cons.mpr ⟨own, valid⟩) (List.forall_mem_cons.mpr ⟨taken, all⟩),
          spells.append behind⟩
        cases fs with
        | nil => cases closed
        | cons f fs => exact closed
  | @value acc name _ s₁ _ shape readName separator mark =>
    have some : sep ≠ [] := by rcases mark with rfl | rfl <;> exact List.cons_ne_nil _ _
    obtain ⟨nameToken, first⟩ := spells_of_expectRe_inside lexical_identifier readName
      (expectRe_inside some separator)
    obtain ⟨-, second⟩ := spells_of_expectRe lexical_keyword separator
    split at next
    · rename_i closed
      subst next
      refine ⟨separated ([name].map ([·])), .values ?_ (List.cons_ne_nil _ _)
        (List.forall_mem_singleton.mpr nameToken), ?_⟩
      · rcases shape with same | ⟨-, -, comma⟩
        · exact .inr ⟨acc, same⟩
        · exact absurd (closed.symm.trans comma) (by decide)
      · exact first.append (closed ▸ second)
    · obtain ⟨_, others, behind⟩ := next
      obtain rfl := mark.resolve_right ‹_›
      cases others with
      | fields shape =>
        rcases shape with other | ⟨_, other⟩ <;> cases other
      | @values vs _ some names =>
        obtain ⟨v, vs, rfl⟩ := List.exists_cons_of_ne_nil some
        refine ⟨separated ((name :: v :: vs).map ([·])), .values ?_ (List.cons_ne_nil _ _)
          (List.forall_mem_cons.mpr ⟨nameToken, names⟩), first.append (second.append behind)⟩
        exact shape.symm.imp (fun invalid => ⟨invalid.1, by simp⟩) fun same => ⟨acc, same⟩

theorem takes (desc : List Char) (stack : Nat) : Takes desc stack := by
  induction stack with
  | zero => constructor <;> intro _ _ _ _ h <;> cases h
  | succ stack ih =>
    refine ⟨fun {bracket s type s'} h => ?_, fun h => ?_, fun h => ?_⟩
    · obtain ⟨s₁, first, rest⟩ := readStruct_eq_ok_iff.mp h
      obtain ⟨toks, taken, spells⟩ : ∃ toks, Taken (['('] :: toks) ∧
          Spells toks (desc.drop s₁.pos) (desc.drop s'.pos) := by
        rcases rest with ⟨tok, s₂, closes, same⟩ | ⟨-, read⟩
        · cases same
          obtain ⟨token, spells⟩ := spells_of_expectRe lexical_closingBracket closes
          refine ⟨[tok], .empty (token.imp And.left fun token => ?_), spells⟩
          exact closes_of_matched token.nonempty (token.reads [] boundary_nil)
        · obtain ⟨toks, taken, spells⟩ := ih.fields read
          obtain ⟨g, text, here, stretch⟩ := exists_stretch (desc.drop s₁.pos)
          rw [consumeWhitespace_eq here stretch] at spells
          have behind : desc.drop (s₁.pos + g.length) = text := by
            rw [← List.drop_drop, here, List.drop_left]
          rw [behind] at spells
          obtain ⟨tok, toks, rfl⟩ := List.exists_cons_of_ne_nil taken.ne_nil
          exact ⟨_, taken.taken, here ▸ spells.behind stretch⟩
      refine ⟨toks, taken, ?_⟩
      cases bracket with
      | false =>
        obtain rfl : s₁ = s := first
        exact spells
      | true => exact (spells_of_expectRe lexical_keyword first).2.append spells
    · obtain ⟨fields', sep, s₁, round, next⟩ := readFields_eq_ok_iff.mp h
      refine takenFields_of_round ih.type round ?_ ?_
      · rintro rfl ends
        exact readFields_end ends next
      · split at next
        · cases next
          rw [if_pos ‹_›]
        · rw [if_neg ‹_›]
          exact ih.fields next
    · cases readTypeSpec_eq_ok_iff.mp h with
      | maybe token single rest =>
        obtain ⟨toks, taken, once, spells⟩ := ih.type rest
        refine ⟨['?'] :: toks, .prefixed (by decide) (fun _ => once rfl) taken, ?_,
          (spells_of_expectRe lexical_type token).2.append spells⟩
        rintro rfl
        cases single
      | dict token rest =>
        obtain ⟨toks, taken, -, spells⟩ := ih.type rest
        have plain : dictPrefix = ['?'] → toks.head? ≠ some ['?'] := fun same => by cases same
        exact ⟨dictPrefix :: toks, .prefixed (by decide) plain taken, fun _ => by simp [dictPrefix],
          (spells_of_expectRe lexical_type token).2.append spells⟩
      | array token rest =>
        obtain ⟨toks, taken, -, spells⟩ := ih.type rest
        have plain : ['[', ']'] = ['?'] → toks.head? ≠ some ['?'] := fun same => by cases same
        exact ⟨['[', ']'] :: toks, .prefixed (by decide) plain taken, fun _ => by simp,
          (spells_of_expectRe lexical_type token).2.append spells⟩
      | struct token rest =>
        obtain ⟨toks, taken, spells⟩ := ih.struct rest
        exact ⟨['('] :: toks, taken, fun _ => by simp,
          (spells_of_expectRe lexical_type token).2.append spells⟩
      | @name _ name token other =>
        obtain ⟨known, spells⟩ := spells_of_expectRe lexical_type token
        refine ⟨[name], .leaf (known.imp_left And.left) other, fun _ => ?_, spells⟩
        rintro (head : some name = some ['?'])
        exact other (by rw [Option.some_inj.mp head]; decide)

/-! ### Members -/

/-- The tokens that are taken for a member. Its name may be missing at the end of the text. -/
inductive TakenMember : List Lexeme → Prop where
  | typed {keyword name : Lexeme} {toks : List Lexeme}
      (known : keyword = "type".toList ∨ keyword = "error".toList)
      (named : name = [] ∨ Token [memberPattern] name) (type : Taken toks) :
      TakenMember (keyword :: name :: toks)
  | method {name : Lexeme} {ps rs : List Lexeme} (named : Token [memberPattern] name)
      (parameters : Taken (['('] :: ps)) (returnValue : Taken (['('] :: rs)) :
      TakenMember ("method".toList :: name :: (['('] :: ps ++ ['-', '>'] :: ['('] :: rs))

theorem keyword_of_readKind {keyword : List Char} {m : Member} (h : readKind keyword = .ok m.kind) :
    keyword = m.keyword := by
  rcases readKind_cases h with ⟨kind, rfl⟩ | ⟨kind, rfl⟩ | ⟨kind, rfl⟩ | ⟨kind, rfl⟩ <;>
    rw [Member.keyword, kind]

theorem takenMember_of_read {m : Member} (h : readMember desc stack s = .ok (m, s'))
    (defined : m.kind ≠ .undefined) :
    ∃ toks, TakenMember toks ∧ Spells toks (desc.drop s.pos) (desc.drop s'.pos) := by
  obtain ⟨step⟩ := readMember_eq_ok_iff.mp h
  obtain ⟨-, first⟩ := spells_of_expectRe lexical_keyword step.readKeyword
  obtain ⟨named, second⟩ := spells_of_expectRe lexical_member step.readName
  have data := step.data
  by_cases method : m.kind = .method
  · rw [readData, if_pos method] at data
    obtain ⟨p, s₁, s₂, r, readFirst, arrow, readSecond, -⟩ := readMethodSpec_eq_ok_iff.mp data
    have name : Token [memberPattern] step.name := named.resolve_left fun ends =>
      readStruct_end (s := (getDocstring desc step.behind).2) ends.2 readFirst
    obtain ⟨ps, parameters, third⟩ := (takes desc stack).struct readFirst
    obtain ⟨-, fourth⟩ := spells_of_expectRe lexical_keyword arrow
    obtain ⟨rs, returnValue, fifth⟩ := (takes desc stack).struct readSecond
    have keyword : step.keyword = "method".toList := by
      rw [keyword_of_readKind step.kind, Member.keyword, method]
    exact ⟨_, .method name parameters returnValue,
      keyword ▸ first.append (second.append (third.append (fourth.append fifth)))⟩
  · rw [readData, if_neg method] at data
    obtain ⟨toks, type, -, third⟩ := (takes desc stack).type data
    have keyword : step.keyword = "type".toList ∨ step.keyword = "error".toList := by
      rw [keyword_of_readKind step.kind, Member.keyword]
      cases kind : m.kind with
      | undefined => exact absurd kind defined
      | method => exact absurd kind method
      | type => exact .inl rfl
      | error => exact .inr rfl
    exact ⟨_, .typed keyword (named.imp_left And.left) type,
      first.append (second.append third)⟩

theorem takenMembers_of_read {before r : List Member}
    (h : readMembers desc stack before s = .ok r) :
    ∃ ms : List (List Lexeme), (∀ toks ∈ ms, TakenMember toks) ∧
      r.length = before.length + ms.length ∧
      Spells (ms.flatten ++ [[]]) (desc.drop s.pos) [] := by
  induction stack generalizing before s with
  | zero => cases h
  | succ stack ih =>
    obtain ⟨m, s', read, next⟩ := readMembers_eq_ok_iff.mp h
    split at next
    · rename_i undefined
      obtain ⟨step⟩ := readMember_eq_ok_iff.mp read
      have empty : step.keyword = [] := by
        rw [keyword_of_readKind step.kind, Member.keyword, undefined]
      have keyword := step.readKeyword
      rw [empty] at keyword
      obtain ⟨token, spells⟩ := spells_of_expectRe lexical_keyword keyword
      rcases token with ⟨-, ends⟩ | token
      · rw [ends] at spells
        exact ⟨[], List.forall_mem_nil _, by rw [next]; rfl, spells⟩
      · exact absurd rfl token.nonempty
    · obtain ⟨toks, taken, spells⟩ := takenMember_of_read read ‹_›
      obtain ⟨ms, all, length, others⟩ := ih next.2
      refine ⟨toks :: ms, List.forall_mem_cons.mpr ⟨taken, all⟩, ?_, ?_⟩
      · simp only [length, List.length_append, List.length_cons, List.length_nil]
        omega
      · rw [List.flatten_cons, List.append_assoc]
        exact spells.append others

end Takes

theorem TakenMember.head {toks : List Lexeme} (h : TakenMember toks) :
    ∃ keyword rest, toks = keyword :: rest ∧ keyword ≠ [] ∧
      keyword.head?.any Char.isLower = true := by
  cases h with
  | typed known =>
    refine ⟨_, _, rfl, ?_⟩
    rcases known with rfl | rfl <;> decide
  | method => exact ⟨_, _, rfl, by decide⟩

theorem boundary_of_ifname {name rest : List Char} {toks : List Lexeme} (some : name ≠ [])
    (greedy : matched [ifnamePattern] (name ++ rest) = name.length) (member : TakenMember toks)
    {more : List Lexeme} (spells : Spells (toks ++ more) rest []) : Boundary rest := by
  obtain ⟨keyword, tail, rfl, nonempty, lower⟩ := member.head
  obtain ⟨g, after, rfl, gap, -⟩ := spells.cons_inv nonempty
  rcases gap.eq_nil_or_head with rfl | ⟨c, g, rfl, blank⟩
  · have positive := List.length_pos_iff.mpr some
    have stop := starts_ifname_greedy (starts_of_matched greedy (by omega))
    obtain ⟨c, keyword, rfl⟩ := List.exists_cons_of_ne_nil nonempty
    have here : (name ++ ([] ++ (c :: keyword ++ after)))[name.length]? = .some c := by
      rw [getElem?_append_self]
      rfl
    have other := stop c here
    rw [show c.isLower = true from lower] at other
    cases other
  · exact boundary_cons.mpr (isWord_of_gap blank)

theorem taken_of_construct {stack : Nat} {description : String} {i : VarlinkInterface}
    (h : VarlinkInterface.construct stack description = .ok i) :
    ∃ (name : List Char) (ms : List (List Lexeme)), name ≠ [] ∧
      (∃ rest, matched [ifnamePattern] (name ++ rest) = name.length) ∧ ms ≠ [] ∧
      (∀ toks ∈ ms, TakenMember toks) ∧
      Spells ("interface".toList :: name :: (ms.flatten ++ [[]])) description.toList [] := by
  obtain ⟨s, name, s', keyword, readName, -, -, members, read⟩ :=
    VarlinkInterface.construct_eq_ok_iff.mp h
  obtain ⟨-, first⟩ := spells_of_expectRe lexical_keyword keyword
  obtain ⟨ms, all, length, others⟩ := takenMembers_of_read read
  have behind : (getDocstring description.toList s').2.pos = s'.pos := rfl
  rw [behind] at others
  have some : ms ≠ [] := by
    rintro rfl
    exact members (List.eq_nil_of_length_eq_zero length)
  rcases expectRe_inv readName with ⟨rfl, -, ends⟩ | ⟨nonempty, g, gap, here, greedy⟩
  · rw [ends] at others
    exact absurd (readMembers_end (s := (getDocstring description.toList s').2) ends read) members
  · obtain ⟨toks, rest, rfl⟩ := List.exists_cons_of_ne_nil some
    rw [List.flatten_cons, List.append_assoc] at others
    have boundary := boundary_of_ifname nonempty greedy (all toks List.mem_cons_self) others
    have second :
        Spells [name] (description.toList.drop s.pos) (description.toList.drop s'.pos) := by
      rw [here]
      exact .token gap nonempty (fun _ => boundary) .nil
    refine ⟨name, toks :: rest, nonempty, ⟨_, greedy⟩, some, all, ?_⟩
    rw [List.flatten_cons, List.append_assoc]
    exact first.append (second.append others)

/-! ### The tokens that were taken are those of the text -/

theorem Taken.kinds {toks : List Lexeme} (h : Taken toks) :
    ∀ tok ∈ toks, tok = [] ∨ IsWord tok ∨ tok ∈ punctuation := by
  induction h with
  | prefixed known _ _ ih =>
    have mark := (by decide : ∀ tok ∈ prefixes, tok ∈ punctuation) _ known
    exact List.forall_mem_cons.mpr ⟨.inr (.inr mark), ih⟩
  | leaf token _ =>
    exact List.forall_mem_singleton.mpr (token.imp_right lexical_type.kind_of_token)
  | empty closes =>
    refine List.forall_mem_cons.mpr ⟨.inr (.inr (by decide)), List.forall_mem_singleton.mpr ?_⟩
    rcases closes with rfl | rfl
    · exact .inl rfl
    · exact .inr (.inr (by decide))
  | struct _ valid _ ih =>
    refine List.forall_mem_cons.mpr ⟨.inr (.inr (by decide)), fun tok member => ?_⟩
    obtain ⟨f, inside, member⟩ := List.mem_flatMap.mp member
    have all : ∀ tok ∈ f.tokens, tok = [] ∨ IsWord tok ∨ tok ∈ punctuation :=
      List.forall_mem_cons.mpr ⟨.inr (.inl (isWord_of_identifier (valid f inside).name)),
        List.forall_mem_cons.mpr ⟨.inr (.inr (by decide)), List.forall_mem_append.mpr
          ⟨ih f inside, List.forall_mem_singleton.mpr
            (.inr (lexical_keyword.kind_of_token (valid f inside).sep))⟩⟩⟩
    exact all tok member
  | enum _ names =>
    refine List.forall_mem_cons.mpr ⟨.inr (.inr (by decide)), forall_mem_separated ?_
      (.inr (.inr (by decide))) (.inr (.inr (by decide)))⟩
    refine List.forall_mem_map.mpr fun v member => ?_
    exact List.forall_mem_singleton.mpr (.inr (.inl (isWord_of_identifier (names v member))))

theorem TakenMember.kinds {toks : List Lexeme} (h : TakenMember toks) :
    ∀ tok ∈ toks, tok = [] ∨ IsWord tok ∨ tok ∈ punctuation := by
  cases h with
  | @typed keyword _ _ known named type =>
    have word : IsWord keyword := by
      rcases known with rfl | rfl <;> exact isWord_of_keyword _ (by decide)
    exact List.forall_mem_cons.mpr ⟨.inr (.inl word), List.forall_mem_cons.mpr
      ⟨named.imp_right fun token => .inl (isWord_of_token (.inr token)), type.kinds⟩⟩
  | method named parameters returnValue =>
    have word : IsWord "method".toList := isWord_of_keyword _ (by decide)
    exact List.forall_mem_cons.mpr ⟨.inr (.inl word), List.forall_mem_cons.mpr
      ⟨.inr (.inl (isWord_of_token (.inr named))), List.forall_mem_append.mpr
        ⟨parameters.kinds, List.forall_mem_cons.mpr ⟨.inr (.inr (by decide)), returnValue.kinds⟩⟩⟩⟩

theorem memberLexemes_of_construct {stack : Nat} {description : String} {i : VarlinkInterface}
    (h : VarlinkInterface.construct stack description = .ok i) :
    ∃ (name : List Char) (ms : List (List Lexeme)) (k : Nat), name ≠ [] ∧
      (∃ rest, matched [ifnamePattern] (name ++ rest) = name.length) ∧ ms ≠ [] ∧
      (∀ toks ∈ ms, TakenMember toks) ∧
      Spells ("interface".toList :: name :: (ms.flatten ++ [[]])) description.toList [] ∧
      ms.flatten = memberLexemes description.toList ++ List.replicate k [] := by
  obtain ⟨name, ms, some, ⟨rest, ifname⟩, members, all, spells⟩ := taken_of_construct h
  have head : (ms.flatten.head?.any fun tok => tok.head?.any isWord) = true := by
    obtain ⟨toks, others, rfl⟩ := List.exists_cons_of_ne_nil members
    obtain ⟨keyword, tail, rfl, nonempty, lower⟩ := (all toks List.mem_cons_self).head
    obtain ⟨c, tail, rfl⟩ := List.exists_cons_of_ne_nil nonempty
    exact isWord_of_lower lower
  have kinds : ∀ tok ∈ ms.flatten, tok = [] ∨ IsWord tok ∨ tok ∈ punctuation := by
    intro tok member
    obtain ⟨toks, inside, member⟩ := List.mem_flatten.mp member
    exact (all toks inside).kinds tok member
  have split : Spells (["interface".toList, name] ++ (ms.flatten ++ [[]])) description.toList [] :=
    spells
  obtain ⟨_, -, behind⟩ := split.split
  obtain ⟨_, behind, -⟩ := behind.split
  obtain ⟨us, k, same, none⟩ := behind.ends_last
  refine ⟨name, ms, k, some, ⟨rest, ifname⟩, members, all, spells, ?_⟩
  have kept : us.filter (· ≠ []) = us := by
    refine List.filter_eq_self.mpr fun tok member => decide_eq_true ?_
    rintro rfl
    exact none member
  rw [memberLexemes_of_spells some ifname head kinds spells, same, List.filter_append, kept]
  simp

end Varlink
