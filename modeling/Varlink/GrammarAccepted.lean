import Varlink.Taken

/-! The constructor accepts what the grammar derives, in every layout, unless an
enumeration has a single value: without a separator behind it, the value is neither a
field nor one of several values. -/

namespace Varlink

open Regex Scanner

section Reading
variable {desc rest : List Char} {s : Scanner} {toks : List Lexeme}

theorem expectRe_of_spells {patterns : List (Regex Char)} {tok : Lexeme}
    (token : Token patterns tok) (word : IsWord tok)
    (spells : Spells (tok :: toks) (desc.drop s.pos) rest) :
    ∃ s', expectRe desc patterns s = .ok (tok, s') ∧ Spells toks (desc.drop s'.pos) rest := by
  obtain ⟨g, after, here, gap, apart, behind⟩ := spells.cons_inv word.nonempty
  exact ⟨s.past g tok, expectRe_token here gap token (apart word.endsInWord),
    by rwa [drop_past here]⟩

theorem expectRe_mark_of_spells {tok : Lexeme} (known : tok ∈ punctuation)
    (spells : Spells (tok :: toks) (desc.drop s.pos) rest) :
    ∃ s', expectRe desc [keywordPattern] s = .ok (tok, s') ∧
      Spells toks (desc.drop s'.pos) rest := by
  obtain ⟨g, after, here, gap, -, behind⟩ :=
    spells.cons_inv (token_punctuation known).nonempty
  exact ⟨s.past g tok, expectRe_punctuation here gap known, by rwa [drop_past here]⟩

theorem bracketed_of_spells {e : TypeExpr} (h : e.Grammatical) (plural : e.Plural)
    (kind : e.isBracketed = true) {text : List Char}
    (spells : Spells (e.tokens ++ toks) text rest) :
    ∃ g inner n mid, text = g ++ '(' :: inner ++ mid ∧ Gap g ∧ Bracketed e inner n ∧
      Spells toks mid rest := by
  obtain ⟨mid, first, behind⟩ := spells.split
  obtain ⟨t, here, written⟩ := written_of_spells h plural first
  obtain ⟨g, inner, n, rfl, gap, bracketed⟩ := written.bracketed kind
  exact ⟨g, inner, n, mid, here, gap, bracketed, behind⟩

theorem readTypeSpec_of_spells {e : TypeExpr} (h : e.Grammatical) (plural : e.Plural)
    (kind : e.isBracketed = true) (spells : Spells (e.tokens ++ toks) (desc.drop s.pos) rest) :
    ∃ n s', readTypeSpec desc n false s = .ok (e.toSpec, s') ∧
      Spells toks (desc.drop s'.pos) rest := by
  obtain ⟨g, inner, n, mid, here, gap, bracketed, behind⟩ :=
    bracketed_of_spells h plural kind spells
  obtain ⟨s', read, across⟩ := readTypeSpec_of_bracketed gap
    (TypeExpr.toSpec_of_isBracketed kind) bracketed (Nat.le_refl n) here
  exact ⟨n + 2, s', read, by rwa [across.drop here]⟩

theorem readStruct_of_spells {e : TypeExpr} (h : e.Grammatical) (plural : e.Plural)
    (kind : e.isBracketed = true) (spells : Spells (e.tokens ++ toks) (desc.drop s.pos) rest) :
    ∃ n s', readStruct desc n true s = .ok (e.toSpec.type, s') ∧
      Spells toks (desc.drop s'.pos) rest := by
  obtain ⟨g, inner, n, mid, here, gap, bracketed, behind⟩ :=
    bracketed_of_spells h plural kind spells
  obtain ⟨s', read, across⟩ := readStruct_of_bracketed gap bracketed (Nat.le_refl n) here
  exact ⟨n + 1, s', read, by rwa [across.drop here]⟩

end Reading

namespace MemberExpr
variable {m : MemberExpr}

theorem token_keyword (m : MemberExpr) : Token [keywordPattern] m.keyword := by
  have known : ∀ tok ∈ ["type".toList, "error".toList, "method".toList],
      tok ≠ [] ∧ matched [keywordPattern] (tok ++ []) = tok.length := by decide
  obtain ⟨some, same⟩ := known _ m.keyword_mem
  exact Varlink.token_keyword some same

theorem isWord_name (h : m.Grammatical) : IsWord m.name.toList :=
  isWord_of_token (.inr h.name)

theorem kind_ne_undefined (m : MemberExpr) : m.kind ≠ .undefined := by
  cases m <;> exact nofun

theorem readKind_keyword (m : MemberExpr) : readKind m.keyword = .ok m.kind := by
  cases m <;> rfl

theorem isBracketed_of_isStruct {e : TypeExpr} (h : e.isStruct = true) : e.isBracketed = true := by
  cases e with
  | struct => rfl
  | _ => cases h

theorem readData_of_spells (h : m.Grammatical) (structs : m.OfStructs)
    (plural : ∀ t ∈ m.types, t.Plural) {desc rest : List Char} {s : Scanner} {toks : List Lexeme}
    (spells : Spells (m.behindName ++ toks) (desc.drop s.pos) rest) :
    ∃ n s', readData desc m.kind n s = .ok (m.data, s') ∧
      Spells toks (desc.drop s'.pos) rest := by
  cases m with
  | type name t =>
    exact readTypeSpec_of_spells (h.types t List.mem_cons_self) (plural t List.mem_cons_self)
      structs spells
  | error name t =>
    exact readTypeSpec_of_spells (h.types t List.mem_cons_self) (plural t List.mem_cons_self)
      structs spells
  | method name p r =>
    obtain ⟨hp, hr⟩ := List.forall_mem_cons.mp h.types
    obtain ⟨pluralP, pluralR⟩ := List.forall_mem_cons.mp plural
    have hr := hr r List.mem_cons_self
    have pluralR := pluralR r List.mem_cons_self
    obtain ⟨structP, structR⟩ := structs
    rw [behindName, List.append_assoc] at spells
    obtain ⟨n₁, s₁, read₁, atArrow⟩ :=
      readStruct_of_spells hp pluralP (isBracketed_of_isStruct structP) spells
    obtain ⟨s₂, arrow, atReturn⟩ := expectRe_mark_of_spells (by decide) atArrow
    obtain ⟨n₂, s₃, read₂, done⟩ :=
      readStruct_of_spells hr pluralR (isBracketed_of_isStruct structR) atReturn
    refine ⟨max n₁ n₂, s₃, ?_, done⟩
    refine readMethodSpec_eq_ok_iff.mpr ⟨p.toSpec.type, s₁, s₂, r.toSpec.type,
      readStruct_mono (by omega) read₁, arrow, readStruct_mono (by omega) read₂, ?_⟩
    rw [data, ← TypeExpr.toSpec_of_isBracketed (isBracketed_of_isStruct structP),
      ← TypeExpr.toSpec_of_isBracketed (isBracketed_of_isStruct structR)]

theorem Grammatical.readMember_of_spells (h : m.Grammatical) (structs : m.OfStructs)
    (plural : ∀ t ∈ m.types, t.Plural) {desc rest : List Char} {s : Scanner} {toks : List Lexeme}
    (spells : Spells (m.tokens ++ toks) (desc.drop s.pos) rest) :
    ∃ n s' r, readMember desc n s = .ok (r, s') ∧
      (r.kind, r.name, r.data) = (m.kind, m.name, m.data) ∧
        Spells toks (desc.drop s'.pos) rest := by
  obtain ⟨s₁, keyword, atName⟩ := expectRe_of_spells m.token_keyword m.isWord_keyword spells
  obtain ⟨s₂, name, behind⟩ := expectRe_of_spells h.name (isWord_name h) atName
  obtain ⟨n, s', data, done⟩ :=
    readData_of_spells (s := (getDocstring desc s₂).2) h structs plural behind
  have step : MemberStep desc n s ⟨m.kind, m.name, (getDocstring desc s₂).1, m.data⟩ s' :=
    ⟨m.keyword, s₁, keyword, m.readKind_keyword, m.name.toList, s₂, name,
      String.ofList_toList.symm, rfl, data⟩
  exact ⟨n, s', _, readMember_eq_ok_iff.mpr ⟨step⟩, rfl, done⟩

end MemberExpr

def Member.declaration (m : Member) : MemberKind × String × TypeSpec := (m.kind, m.name, m.data)

def MemberExpr.declaration (m : MemberExpr) : MemberKind × String × TypeSpec :=
  (m.kind, m.name, m.data)

theorem readMembers_of_spells {ms : List MemberExpr} (h : ∀ m ∈ ms, m.Grammatical)
    (structs : ∀ m ∈ ms, m.OfStructs) (plural : ∀ m ∈ ms, ∀ t ∈ m.types, t.Plural)
    {before : List Member} (distinct : (before.map (·.name) ++ ms.map (·.name)).Nodup)
    {desc : List Char} {s : Scanner}
    (spells : Spells (ms.flatMap (·.tokens) ++ [[]]) (desc.drop s.pos) []) :
    ∃ n rs, readMembers desc n before s = .ok (before ++ rs) ∧
      rs.map (·.declaration) = ms.map (·.declaration) := by
  induction ms generalizing before s with
  | nil =>
    refine ⟨2, [], ?_, rfl⟩
    rw [List.append_nil]
    exact readMembers_blank spells.end_inv.1 rfl
  | cons m ms ih =>
    rw [List.flatMap_cons, List.append_assoc] at spells
    obtain ⟨k, s', r, read, declared, behind⟩ := (h m List.mem_cons_self).readMember_of_spells
      (structs m List.mem_cons_self) (plural m List.mem_cons_self) spells
    obtain ⟨kind, name, data⟩ := Prod.mk.inj declared |>.imp_right Prod.mk.inj
    have distinct' : ((before ++ [r]).map (·.name) ++ ms.map (·.name)).Nodup := by
      simpa [name] using distinct
    have fresh : before.any (·.name == r.name) = false := by
      rw [List.any_eq_false]
      intro b member same
      refine (List.nodup_append.mp distinct).2.2 b.name (List.mem_map_of_mem member) m.name
        List.mem_cons_self ?_
      rw [eq_of_beq same, name]
    obtain ⟨n, rs, others, same⟩ := ih (fun m' member => h m' (List.mem_cons_of_mem m member))
      (fun m' member => structs m' (List.mem_cons_of_mem m member))
      (fun m' member => plural m' (List.mem_cons_of_mem m member)) distinct' behind
    refine ⟨max k n + 1, r :: rs, readMembers_eq_ok_iff.mpr ⟨r, s', readMember_mono (by omega) read,
      ?_⟩, by rw [List.map_cons, List.map_cons, same, Member.declaration, declared]; rfl⟩
    rw [if_neg (kind ▸ m.kind_ne_undefined)]
    refine ⟨fresh, readMembers_mono (k := n) (by omega) ?_⟩
    rw [others, List.append_assoc]
    rfl

namespace InterfaceExpr

theorem construct_of_spelled {e : InterfaceExpr} (h : e.Grammatical)
    (structs : ∀ m ∈ e.members, m.OfStructs) (distinct : (e.members.map (·.name)).Nodup)
    (plural : ∀ m ∈ e.members, ∀ t ∈ m.types, t.Plural) {text : String}
    (spelled : e.SpelledAs text.toList) :
    ∃ n i, VarlinkInterface.construct n text = .ok i ∧ i.ifname = e.ifname ∧
      i.members.map (·.declaration) = e.members.map (·.declaration) := by
  have start : Spells ("interface".toList :: e.ifname.toList ::
      (e.members.flatMap (·.tokens) ++ [[]])) (text.toList.drop (Scanner.mk 0 {}).pos) [] := spelled
  obtain ⟨s₁, keyword, atName⟩ := expectRe_of_spells
    (token_keyword (x := []) (by decide) (by decide)) (isWord_of_keyword _ (by decide)) start
  obtain ⟨g, after, here, gap, apart, behind⟩ := atName.cons_inv h.nonempty
  obtain ⟨m, ms, members⟩ := List.exists_cons_of_ne_nil h.some
  have full : matched [ifnamePattern] (e.ifname.toList ++ []) = e.ifname.toList.length := by
    rw [List.append_nil]
    exact h.ifname
  obtain ⟨c, x, rfl, blank⟩ : ∃ c x, after = c :: x ∧ c ∈ '#' :: blanks := by
    rw [members] at behind
    exact gap_of_boundary m.isWord_keyword.startsWord (apart (endsInWord_ifname h.nonempty full))
      behind
  have ifname := expectRe_matched here gap h.nonempty (stops_ifname full)
    (matched_ifname blank h.nonempty full)
  rw [← drop_past here] at behind
  have distinct : (([] : List Member).map (·.name) ++ e.members.map (·.name)).Nodup := distinct
  obtain ⟨n, rs, read, same⟩ := readMembers_of_spells
    (s := (getDocstring text.toList (s₁.past g e.ifname.toList)).2) h.members structs plural
    distinct behind
  refine ⟨n, ⟨_, _, rs⟩, VarlinkInterface.construct_eq_ok_iff.mpr
    ⟨s₁, _, _, keyword, ifname, rfl, rfl, ?_, read⟩, String.ofList_toList, same⟩
  rintro rfl
  rw [members] at same
  cases same

end InterfaceExpr

/-! ### A single value -/

def Lone (toks : List Lexeme) : Prop := ∃ tok, IsWord tok ∧ [['('], tok, [')']] <:+: toks

theorem Lone.of_infix {toks toks' : List Lexeme} (h : Lone toks) (inside : toks <:+: toks') :
    Lone toks' :=
  h.imp fun _ => And.imp_right (·.trans inside)

theorem infix_separated {toks : List Lexeme} {texts : List (List Lexeme)} (member : toks ∈ texts) :
    toks <:+: separated texts := by
  induction texts with
  | nil => cases member
  | cons first rest ih =>
    cases rest with
    | nil =>
      rw [List.mem_singleton.mp member]
      exact (List.prefix_append first [[')']]).isInfix
    | cons second rest =>
      rcases List.mem_cons.mp member with rfl | member
      · exact (List.prefix_append toks _).isInfix
      · exact (ih member).trans ((List.suffix_cons _ _).trans (List.suffix_append _ _)).isInfix

theorem TypeExpr.Grammatical.plural {e : TypeExpr} (h : e.Grammatical) (none : ¬Lone e.tokens) :
    e.Plural := by
  induction h with
  | maybe _ _ ih =>
    exact .maybe (ih fun lone => none (lone.of_infix (List.suffix_cons _ _).isInfix))
  | array _ ih => exact .array (ih fun lone => none (lone.of_infix (List.suffix_cons _ _).isInfix))
  | dict _ ih => exact .dict (ih fun lone => none (lone.of_infix (List.suffix_cons _ _).isInfix))
  | named => exact .named
  | @enum values some names =>
    refine .enum ?_
    obtain ⟨v, rest, rfl⟩ := List.exists_cons_of_ne_nil some
    cases rest with
    | nil =>
      exact absurd ⟨v.toList, isWord_of_identifier (names v List.mem_cons_self),
        List.infix_refl _⟩ none
    | cons w rest => simp
  | @struct fields _ _ ih =>
    refine .struct fun f member => ih f member fun lone => none (lone.of_infix ?_)
    rw [tokens, fieldTokens_eq_map]
    have inside : f.2.tokens <:+: f.1.toList :: [':'] :: f.2.tokens :=
      ((List.suffix_cons _ _).trans (List.suffix_cons _ _)).isInfix
    have listed : f.1.toList :: [':'] :: f.2.tokens ∈
        fields.map fun f => f.1.toList :: [':'] :: f.2.tokens := List.mem_map_of_mem member
    exact (inside.trans (infix_separated listed)).trans (List.suffix_cons _ _).isInfix

def Passes (tok : Lexeme) (toks : List Lexeme) : Prop :=
  ∀ more, [['('], tok, [')']] <:+: toks ++ more → [['('], tok, [')']] <:+: more

section Passes
variable {tok : Lexeme} {toks toks' : List Lexeme}

theorem Passes.append (h : Passes tok toks) (h' : Passes tok toks') :
    Passes tok (toks ++ toks') := by
  intro more lone
  rw [List.append_assoc] at lone
  exact h' more (h _ lone)

theorem passes_nil : Passes tok [] := fun _ => id

theorem Passes.cons {t : Lexeme} (h : Passes tok toks)
    (opens : t = ['('] → ∀ more, ¬[tok, [')']] <+: toks ++ more) : Passes tok (t :: toks) := by
  intro more lone
  rcases List.infix_cons_iff.mp lone with here | behind
  · obtain ⟨same, here⟩ := List.cons_prefix_cons.mp here
    exact absurd here (opens same.symm more)
  · exact h more behind

theorem passes_of_forall (other : ∀ t ∈ toks, t ≠ ['(']) : Passes tok toks := by
  induction toks with
  | nil => exact passes_nil
  | cons t toks ih =>
    obtain ⟨first, others⟩ := List.forall_mem_cons.mp other
    exact (ih others).cons fun opens => absurd opens first

theorem not_prefix_fields {fs : List FieldTaken} (some : fs ≠ []) (more : List Lexeme) :
    ¬[tok, [')']] <+: fs.flatMap (·.tokens) ++ more := by
  obtain ⟨f, fs, rfl⟩ := List.exists_cons_of_ne_nil some
  intro closes
  have behind := (List.cons_prefix_cons.mp closes).2
  exact absurd (List.cons_prefix_cons.mp behind).1 (by decide)

theorem passes_fields {fs : List FieldTaken} (closed : Closed fs) (valid : ∀ f ∈ fs, f.Valid)
    (types : ∀ f ∈ fs, Passes tok f.type) : Passes tok (fs.flatMap (·.tokens)) := by
  induction fs with
  | nil => exact passes_nil
  | cons f fs ih =>
    obtain ⟨own, valid⟩ := List.forall_mem_cons.mp valid
    obtain ⟨type, types⟩ := List.forall_mem_cons.mp types
    have others : Passes tok (f.sep :: fs.flatMap (·.tokens)) := by
      cases fs with
      | nil =>
        have closes : f.sep = [')'] := Option.some_inj.mp closed
        exact passes_nil.cons fun opens => absurd (closes.symm.trans opens) (by decide)
      | cons f' fs =>
        exact (ih closed valid types).cons fun _ => not_prefix_fields (List.cons_ne_nil _ _)
    have word : f.name ≠ ['('] := (isWord_of_identifier own.name).ne_mark (by decide)
    rw [f.tokens_cons]
    exact ((type.append others).cons fun opens => absurd opens (by decide)).cons
      fun opens => absurd opens word

theorem Taken.passes (word : IsWord tok) (h : Taken toks) : Passes tok toks := by
  induction h with
  | prefixed known _ _ ih =>
    refine ih.cons fun opens => ?_
    rw [opens] at known
    exact absurd known (by decide)
  | leaf _ other => exact passes_nil.cons fun opens => absurd (by rw [opens]; decide) other
  | @empty t closes =>
    refine (passes_of_forall (List.forall_mem_singleton.mpr ?_)).cons fun _ more closes' => ?_
    · rcases closes with rfl | rfl <;> decide
    · obtain ⟨same, -⟩ := List.cons_prefix_cons.mp closes'
      rcases closes with rfl | rfl
      · exact word.nonempty same
      · exact absurd same (word.ne_mark (by decide))
  | struct closed valid _ ih =>
    refine (passes_fields closed valid ih).cons fun _ => not_prefix_fields ?_
    rintro rfl
    cases closed
  | @enum vs two names =>
    have other : ∀ t ∈ separated (vs.map ([·])), t ≠ ['('] := by
      refine forall_mem_separated (List.forall_mem_map.mpr fun v member => ?_) (by decide)
        (by decide)
      have word := isWord_of_identifier (names v member)
      exact List.forall_mem_singleton.mpr (word.ne_mark (by decide))
    refine (passes_of_forall other).cons fun _ more closes => ?_
    match vs, two with
    | v :: w :: vs, _ =>
      have behind := (List.cons_prefix_cons.mp closes).2
      exact absurd (List.cons_prefix_cons.mp behind).1 (by decide)

theorem TakenMember.passes (word : IsWord tok) (h : TakenMember toks) : Passes tok toks := by
  cases h with
  | @typed keyword name _ known named type =>
    refine ((type.passes word).cons fun opens => ?_).cons fun opens => ?_
    · rw [opens] at named
      rcases named with empty | token
      · cases empty
      · exact absurd rfl ((isWord_of_token (.inr token)).ne_mark (by decide))
    · rw [opens] at known
      exact absurd known (by decide)
  | method named parameters returnValue =>
    refine ((((parameters.passes word).append
      ((returnValue.passes word).cons fun opens => absurd opens (by decide))).cons
      fun opens => absurd opens ?_)).cons fun opens => absurd opens (by decide)
    exact (isWord_of_token (.inr named)).ne_mark (by decide)

end Passes

theorem InterfaceExpr.plural_of_construct {e : InterfaceExpr} (h : e.Grammatical) {text : String}
    (spelled : e.SpelledAs text.toList) {stack : Nat} {i : VarlinkInterface}
    (accepted : VarlinkInterface.construct stack text = .ok i) :
    ∀ m ∈ e.members, ∀ t ∈ m.types, t.Plural := by
  obtain ⟨name, ms, k, -, -, -, all, -, same⟩ := memberLexemes_of_construct accepted
  rw [memberLexemes_of_spelledAs h spelled] at same
  intro m member t type
  refine ((h.members m member).types t type).plural fun ⟨tok, word, lone⟩ => ?_
  have inside : t.tokens <:+: m.tokens := by
    refine List.IsInfix.trans ?_ ((List.suffix_cons _ _).trans (List.suffix_cons _ _)).isInfix
    cases m with
    | type name u => exact List.mem_singleton.mp type ▸ List.infix_refl _
    | error name u => exact List.mem_singleton.mp type ▸ List.infix_refl _
    | method name p r =>
      rcases List.mem_cons.mp type with rfl | last
      · exact (List.prefix_append _ _).isInfix
      · rw [List.mem_singleton.mp last]
        exact ((List.suffix_cons _ _).trans (List.suffix_append _ _)).isInfix
  have among : m.tokens <:+: e.members.flatMap (·.tokens) := by
    rw [List.flatMap_def]
    exact List.infix_of_mem_flatten (List.mem_map_of_mem member)
  have taken : [['('], tok, [')']] <:+: ms.flatten ++ [] := by
    rw [same, List.append_nil]
    exact ((lone.trans inside).trans among).trans (List.prefix_append _ _).isInfix
  have passes : Passes tok ms.flatten := by
    clear same taken
    induction ms with
    | nil => exact passes_nil
    | cons toks ms ih =>
      obtain ⟨first, others⟩ := List.forall_mem_cons.mp all
      exact (first.passes word).append (ih others)
  cases List.infix_nil.mp (passes [] taken)

theorem VarlinkInterface.construct_mono {text : String} {i : VarlinkInterface} {k n : Nat}
    (le : k ≤ n) (h : construct k text = .ok i) : construct n text = .ok i := by
  obtain ⟨s, name, s', keyword, readName, ifname, documentation, some, read⟩ :=
    construct_eq_ok_iff.mp h
  exact construct_eq_ok_iff.mpr
    ⟨s, name, s', keyword, readName, ifname, documentation, some, readMembers_mono le read⟩

/-- Every text of an interface of structs is read as it is written, on a stack that is
deep enough, exactly if no enumeration has a single value. -/
theorem InterfaceExpr.accepted_iff_plural (e : InterfaceExpr) (text : String)
    (grammatical : e.Grammatical) (structs : ∀ m ∈ e.members, m.OfStructs)
    (distinct : (e.members.map (·.name)).Nodup) (spelled : e.SpelledAs text.toList) :
    (∃ n, ∀ stack, n ≤ stack → ∃ i, VarlinkInterface.construct stack text = .ok i ∧
      i.members.map (·.declaration) = e.members.map (·.declaration)) ↔
        ∀ m ∈ e.members, ∀ t ∈ m.types, t.Plural := by
  constructor
  · rintro ⟨n, accepts⟩
    obtain ⟨i, accepted, -⟩ := accepts n (Nat.le_refl n)
    exact e.plural_of_construct grammatical spelled accepted
  · intro plural
    obtain ⟨n, i, accepted, -, same⟩ :=
      construct_of_spelled grammatical structs distinct plural spelled
    exact ⟨n, fun stack deep => ⟨i, VarlinkInterface.construct_mono deep accepted, same⟩⟩

def enumeration (values : List String) : InterfaceExpr := ⟨"a.b", [.type "T" (.enum values)]⟩

theorem token_a : Token [identifierPattern] "a".toList :=
  token_identifier (x := []) (List.cons_ne_nil 'a' []) rfl

theorem token_b : Token [identifierPattern] "b".toList :=
  token_identifier (x := []) (List.cons_ne_nil 'b' []) rfl

theorem grammatical_enumeration {values : List String} (some : values ≠ [])
    (names : ∀ v ∈ values, Token [identifierPattern] v.toList) :
    (enumeration values).Grammatical := by
  have name : Token [memberPattern] "T".toList :=
    token_member (x := []) (List.cons_ne_nil 'T' []) rfl
  exact ⟨show "a.b".toList ≠ [] by decide,
    show matched [ifnamePattern] "a.b".toList = "a.b".toList.length by decide,
    List.cons_ne_nil _ _, List.forall_mem_singleton.mpr
      ⟨name, List.forall_mem_singleton.mpr (.enum some names), nofun⟩⟩

theorem spelled_enumeration {values : List String} (text : List Char)
    (spells : Spells (separated (values.map fun v => [v.toList]) ++ [[]]) text []) :
    (enumeration values).SpelledAs ("interface".toList ++ (' ' :: "a.b".toList ++
      ('\n' :: "type".toList ++ (' ' :: "T".toList ++ '(' :: text)))) := by
  have gap {c : Char} (blank : c ∈ blanks) : Gap [c] := .blank blank .nil
  have listing : Spells (['('] :: (separated (values.map fun v => [v.toList]) ++ [[]]))
      ('(' :: text) [] := .token (g := []) .nil (List.cons_ne_nil _ _) nofun spells
  have name : Spells ("T".toList :: _) (' ' :: "T".toList ++ '(' :: text) [] :=
    .token (g := [' ']) (gap (by decide)) (by decide) (fun _ => boundary_cons.mpr (by decide))
      listing
  have keyword : Spells ("type".toList :: _) ('\n' :: "type".toList ++ _) [] :=
    .token (g := ['\n']) (gap (by decide)) (by decide) (fun _ => boundary_cons.mpr (by decide)) name
  have ifname : Spells ("a.b".toList :: _) (' ' :: "a.b".toList ++ _) [] :=
    .token (g := [' ']) (gap (by decide)) (by decide) (fun _ => boundary_cons.mpr (by decide))
      keyword
  have all : Spells ("interface".toList :: _) ("interface".toList ++ _) [] :=
    .token (g := []) .nil (by decide) (fun _ => boundary_cons.mpr (by decide)) ifname
  have tokens : (enumeration values).tokens ++ [[]] = "interface".toList :: "a.b".toList ::
      "type".toList :: "T".toList :: ['('] ::
        (separated (values.map fun v => [v.toList]) ++ [[]]) := by
    rw [InterfaceExpr.tokens, enumeration, List.flatMap_singleton]
    rfl
  rw [InterfaceExpr.SpelledAs, tokens]
  exact all

theorem InterfaceExpr.accepted_iff_plural_two :
    ∃ n, ∀ stack, n ≤ stack → ∃ i,
      VarlinkInterface.construct stack "interface a.b\ntype T(a,b)" = .ok i ∧
        i.members.map (·.declaration) = [(.type, "T", { type := .enum ["a", "b"] })] := by
  have spelled : (enumeration ["a", "b"]).SpelledAs "interface a.b\ntype T(a,b)".toList := by
    refine spelled_enumeration ['a', ',', 'b', ')'] ?_
    refine .token (g := []) .nil (List.cons_ne_nil _ _) (fun _ => rfl) ?_
    refine .token (g := []) .nil (List.cons_ne_nil _ _) nofun ?_
    refine .token (g := []) .nil (List.cons_ne_nil _ _) (fun _ => rfl) ?_
    refine .token (g := []) .nil (List.cons_ne_nil _ _) nofun ?_
    exact .ends (.gap .nil stops_nil) .nil
  have names : ∀ v ∈ ["a", "b"], Token [identifierPattern] v.toList :=
    List.forall_mem_cons.mpr ⟨token_a, List.forall_mem_singleton.mpr token_b⟩
  refine (accepted_iff_plural (enumeration ["a", "b"]) "interface a.b\ntype T(a,b)"
    (grammatical_enumeration (List.cons_ne_nil _ _) names) (List.forall_mem_singleton.mpr rfl)
    (by decide) spelled).mpr ?_
  exact List.forall_mem_singleton.mpr (List.forall_mem_singleton.mpr (.enum (Nat.le_refl 2)))

/-- With a single value, it is not accepted on any stack. -/
theorem single_value_rejected :
    (enumeration ["a"]).Grammatical ∧ (∀ m ∈ (enumeration ["a"]).members, m.OfStructs) ∧
      ((enumeration ["a"]).members.map (·.name)).Nodup ∧
      (enumeration ["a"]).SpelledAs "interface a.b\ntype T(a)".toList ∧
      ∀ stack i, VarlinkInterface.construct stack "interface a.b\ntype T(a)" ≠ .ok i := by
  have grammatical : (enumeration ["a"]).Grammatical :=
    grammatical_enumeration (List.cons_ne_nil _ _) (List.forall_mem_singleton.mpr token_a)
  have spelled : (enumeration ["a"]).SpelledAs "interface a.b\ntype T(a)".toList := by
    refine spelled_enumeration ['a', ')'] ?_
    refine .token (g := []) .nil (List.cons_ne_nil _ _) (fun _ => rfl) ?_
    refine .token (g := []) .nil (List.cons_ne_nil _ _) nofun ?_
    exact .ends (.gap .nil stops_nil) .nil
  refine ⟨grammatical, List.forall_mem_singleton.mpr rfl, by decide, spelled,
    fun stack i accepted => ?_⟩
  have plural := InterfaceExpr.plural_of_construct grammatical spelled accepted
    (.type "T" (.enum ["a"])) List.mem_cons_self (.enum ["a"]) List.mem_cons_self
  cases plural with
  | enum two => exact absurd two (by decide)

end Varlink
