import Varlink.Taken
import Varlink.Library.Runs

/-! What the constructor accepts is derived by the grammar exactly if every token stands
where one of its kind may stand, and as many brackets close as open. The scanner asks
neither which keyword it reads for a type or behind a field, nor whether the text ends. -/

namespace Varlink

open Regex Scanner

inductive Stage where
  | between
  /-- Behind an opening bracket or a comma. -/
  | opened
  /-- Behind a word there. -/
  | label
  /-- Behind the keyword of a type or an error. -/
  | keyword
  /-- Behind a colon, a prefix, or the name of a type or an error. -/
  | typed
deriving DecidableEq, Repr

/-- A type is expected: it begins neither with the end of the text nor with another mark.
A name is expected behind a keyword, and a colon comes only behind a label. -/
def Stage.next : Stage → Lexeme → Option Stage
  | .typed, tok =>
    if tok ∈ prefixes then some .typed
    else if tok = ['('] then some .opened
    else if tok = [] ∨ tok ∈ punctuation then none
    else some .between
  | .keyword, tok => if tok.head?.any Char.isUpper then some .typed else none
  | stage, tok =>
    if tok = [] then if stage = .between then some .between else none
    else if tok = [':'] then if stage = .label then some .typed else none
    else if tok ∈ prefixes then some .typed
    else if tok = ['('] ∨ tok = [','] then some .opened
    else if tok ∈ punctuation then some .between
    else if stage = .opened then some .label
    else if tok = "type".toList ∨ tok = "error".toList then some .keyword
    else some .between

/-- The tokens stand where they may, up to the end of the text. -/
def WellPlaced (toks : List Lexeme) : Prop :=
  Runs.run Stage.next .between (toks ++ [[]]) = some .between

/-- As many brackets close as open. -/
def Balanced (toks : List Lexeme) : Prop := toks.count ['('] = toks.count [')']

instance (toks : List Lexeme) : Decidable (WellPlaced toks) := inferInstanceAs (Decidable (_ = _))

instance (toks : List Lexeme) : Decidable (Balanced toks) := inferInstanceAs (Decidable (_ = _))

section Next
variable {tok : Lexeme}

theorem IsWord.not_mem_prefixes (h : IsWord tok) : tok ∉ prefixes := fun known =>
  h.not_mark ((by decide : ∀ mark ∈ prefixes, mark ∈ punctuation) tok known)

theorem next_typed_word (h : IsWord tok) : Stage.next .typed tok = some .between := by
  rw [Stage.next, if_neg h.not_mem_prefixes, if_neg (h.ne_mark (by decide)),
    if_neg (not_or.mpr ⟨h.nonempty, h.not_mark⟩)]

theorem next_typed_of_prefixes (known : tok ∈ prefixes) : Stage.next .typed tok = some .typed := by
  rw [Stage.next, if_pos known]

theorem next_typed_bracket : Stage.next .typed ['('] = some .opened := by decide

theorem next_between_bracket : Stage.next .between ['('] = some .opened := by decide

theorem next_opened_word (h : IsWord tok) : Stage.next .opened tok = some .label := by
  have colon := h.ne_mark (by decide : [':'] ∈ punctuation)
  have bracket := h.ne_mark (by decide : ['('] ∈ punctuation)
  have comma := h.ne_mark (by decide : [','] ∈ punctuation)
  simp [Stage.next, h.nonempty, h.not_mem_prefixes, h.not_mark, colon, bracket, comma]

theorem next_between_word (h : IsWord tok) :
    Stage.next .between tok = some .keyword ∧ (tok = "type".toList ∨ tok = "error".toList) ∨
      Stage.next .between tok = some .between ∧
        ¬(tok = "type".toList ∨ tok = "error".toList) := by
  have colon := h.ne_mark (by decide : [':'] ∈ punctuation)
  have bracket := h.ne_mark (by decide : ['('] ∈ punctuation)
  have comma := h.ne_mark (by decide : [','] ∈ punctuation)
  by_cases keyword : tok = "type".toList ∨ tok = "error".toList
  · refine .inl ⟨?_, keyword⟩
    rcases keyword with rfl | rfl <;> decide
  · refine .inr ⟨?_, keyword⟩
    rw [Stage.next, if_neg h.nonempty, if_neg colon, if_neg h.not_mem_prefixes,
      if_neg (not_or.mpr ⟨bracket, comma⟩), if_neg h.not_mark, if_neg nofun, if_neg keyword]
    all_goals nofun

theorem next_between_name (h : Token [memberPattern] tok) :
    Stage.next .between tok = some .between ∧ Stage.next .keyword tok = some .typed := by
  have word := isWord_of_token (.inr h)
  have positive := List.length_pos_iff.mpr word.nonempty
  obtain ⟨c, head, upper⟩ :=
    upper_of_starts_member (starts_of_matched (h.reads [] boundary_nil) (by omega))
  rw [List.append_nil] at head
  have isUpper : tok.head?.any Char.isUpper = true := by rw [head]; exact upper
  refine ⟨?_, by rw [Stage.next, if_pos isUpper]⟩
  rcases next_between_word word with ⟨-, rfl | rfl⟩ | ⟨next, -⟩
  · cases isUpper
  · cases isUpper
  · exact next

end Next

section Derived

theorem run_separated {texts : List (List Lexeme)}
    (each : ∀ toks ∈ texts, ∃ stage, Runs.run Stage.next .opened toks = some stage ∧
      (stage = .label ∨ stage = .between)) :
    Runs.run Stage.next .opened (separated texts) = some .between := by
  induction texts with
  | nil => rfl
  | cons toks rest ih =>
    obtain ⟨⟨stage, run, known⟩, others⟩ := List.forall_mem_cons.mp each
    cases rest with
    | nil =>
      refine Runs.run_append_of_run _ run (Runs.run_singleton _ ?_)
      rcases known with rfl | rfl <;> decide
    | cons toks' rest =>
      refine Runs.run_append_of_run _ run ?_
      have comma : Stage.next stage [','] = some .opened := by
        rcases known with rfl | rfl <;> decide
      rw [Runs.run_cons, comma]
      exact ih others

theorem run_cons_of_next {stage stage' : Stage} {tok : Lexeme} {toks : List Lexeme}
    (h : Stage.next stage tok = some stage') :
    Runs.run Stage.next stage (tok :: toks) = Runs.run Stage.next stage' toks := by
  rw [Runs.run_cons, h]
  rfl

theorem TypeExpr.Grammatical.run {e : TypeExpr} (h : e.Grammatical) :
    Runs.run Stage.next .typed e.tokens = some .between := by
  induction h with
  | maybe _ _ ih => exact (run_cons_of_next (next_typed_of_prefixes (by decide))).trans ih
  | array _ ih => exact (run_cons_of_next (next_typed_of_prefixes (by decide))).trans ih
  | dict _ ih => exact (run_cons_of_next (next_typed_of_prefixes (by decide))).trans ih
  | named token => exact Runs.run_singleton _ (next_typed_word (isWord_of_token token))
  | enum _ names =>
    refine (run_cons_of_next next_typed_bracket).trans (run_separated ?_)
    refine List.forall_mem_map.mpr fun v member => ⟨.label, ?_, .inl rfl⟩
    exact Runs.run_singleton _ (next_opened_word (isWord_of_identifier (names v member)))
  | struct names _ ih =>
    rw [tokens, fieldTokens_eq_map]
    refine (run_cons_of_next next_typed_bracket).trans (run_separated ?_)
    refine List.forall_mem_map.mpr fun f member => ⟨.between, ?_, .inr rfl⟩
    rw [run_cons_of_next (next_opened_word (isWord_of_identifier (names f member))),
      run_cons_of_next (by decide : Stage.next .label [':'] = some .typed)]
    exact ih f member

theorem count_separated {texts : List (List Lexeme)} (each : ∀ toks ∈ texts, Balanced toks) :
    (separated texts).count ['('] + 1 = (separated texts).count [')'] := by
  induction texts with
  | nil => rfl
  | cons toks rest ih =>
    obtain ⟨first, others⟩ := List.forall_mem_cons.mp each
    unfold Balanced at first
    cases rest with
    | nil =>
      rw [separated, List.count_append, List.count_append, first]
      rfl
    | cons toks' rest =>
      have split : separated (toks :: toks' :: rest) =
          toks ++ [','] :: separated (toks' :: rest) := rfl
      rw [split, List.count_append, List.count_append, first,
        List.count_cons_of_ne (by decide), List.count_cons_of_ne (by decide), ← ih others]
      rfl

theorem Balanced.cons {tok : Lexeme} {toks : List Lexeme} (h : Balanced toks)
    (opens : tok ≠ ['(']) (closes : tok ≠ [')']) : Balanced (tok :: toks) := by
  rwa [Balanced, List.count_cons_of_ne opens, List.count_cons_of_ne closes]

theorem Balanced.word {tok : Lexeme} {toks : List Lexeme} (h : Balanced toks) (word : IsWord tok) :
    Balanced (tok :: toks) :=
  h.cons (word.ne_mark (by decide)) (word.ne_mark (by decide))

theorem Balanced.append {toks toks' : List Lexeme} (h : Balanced toks) (h' : Balanced toks') :
    Balanced (toks ++ toks') := by
  rw [Balanced, List.count_append, List.count_append, h, h']

theorem balanced_bracket {texts : List (List Lexeme)} (each : ∀ toks ∈ texts, Balanced toks) :
    Balanced (['('] :: separated texts) := by
  rw [Balanced, List.count_cons_self, List.count_cons_of_ne (by decide)]
  exact count_separated each

theorem TypeExpr.Grammatical.balanced {e : TypeExpr} (h : e.Grammatical) : Balanced e.tokens := by
  induction h with
  | maybe _ _ ih => exact ih.cons (by decide) (by decide)
  | array _ ih => exact ih.cons (by decide) (by decide)
  | dict _ ih => exact ih.cons (by decide) (by decide)
  | named token => exact Balanced.word rfl (isWord_of_token token)
  | enum _ names =>
    refine balanced_bracket (List.forall_mem_map.mpr fun v member => ?_)
    exact Balanced.word rfl (isWord_of_identifier (names v member))
  | struct names _ ih =>
    rw [tokens, fieldTokens_eq_map]
    refine balanced_bracket (List.forall_mem_map.mpr fun f member => ?_)
    exact ((ih f member).cons (by decide) (by decide)).word (isWord_of_identifier (names f member))

theorem TypeExpr.tokens_of_isBracketed {e : TypeExpr} (kind : e.isBracketed = true) :
    ∃ toks, e.tokens = ['('] :: toks := by
  cases e with
  | enum | struct => exact ⟨_, rfl⟩
  | _ => cases kind

theorem TypeExpr.Grammatical.run_between {e : TypeExpr} (h : e.Grammatical)
    (kind : e.isBracketed = true) : Runs.run Stage.next .between e.tokens = some .between := by
  obtain ⟨toks, same⟩ := TypeExpr.tokens_of_isBracketed kind
  have run := h.run
  rwa [same, run_cons_of_next next_typed_bracket, ← run_cons_of_next next_between_bracket,
    ← same] at run

theorem MemberExpr.Grammatical.run {m : MemberExpr} (h : m.Grammatical) :
    Runs.run Stage.next .between m.tokens = some .between := by
  obtain ⟨behind, typed⟩ := next_between_name h.name
  cases m with
  | type name t =>
    exact (run_cons_of_next (by decide : Stage.next .between "type".toList = some .keyword)).trans
      ((run_cons_of_next typed).trans (h.types t List.mem_cons_self).run)
  | error name t =>
    exact (run_cons_of_next (by decide : Stage.next .between "error".toList = some .keyword)).trans
      ((run_cons_of_next typed).trans (h.types t List.mem_cons_self).run)
  | method name p r =>
    obtain ⟨hp, hr⟩ := List.forall_mem_cons.mp h.types
    obtain ⟨bracketedP, bracketedR⟩ := List.forall_mem_cons.mp (h.bracketed rfl)
    have method : Stage.next .between "method".toList = some .between := by decide
    have arrow : Stage.next .between ['-', '>'] = some .between := by decide
    refine (run_cons_of_next method).trans ((run_cons_of_next behind).trans ?_)
    refine Runs.run_append_of_run _ (hp.run_between bracketedP) ((run_cons_of_next arrow).trans ?_)
    exact (hr r List.mem_cons_self).run_between (bracketedR r List.mem_cons_self)

theorem MemberExpr.Grammatical.balanced {m : MemberExpr} (h : m.Grammatical) :
    Balanced m.tokens := by
  refine Balanced.word (Balanced.word ?_ (isWord_of_token (.inr h.name))) m.isWord_keyword
  cases m with
  | type name t => exact (h.types t List.mem_cons_self).balanced
  | error name t => exact (h.types t List.mem_cons_self).balanced
  | method name p r =>
    obtain ⟨hp, hr⟩ := List.forall_mem_cons.mp h.types
    exact hp.balanced.append (((hr r List.mem_cons_self).balanced).cons (by decide) (by decide))

theorem wellPlaced_of_grammatical {ms : List MemberExpr} (h : ∀ m ∈ ms, m.Grammatical) :
    WellPlaced (ms.flatMap (·.tokens)) ∧ Balanced (ms.flatMap (·.tokens)) := by
  induction ms with
  | nil => exact ⟨by decide, rfl⟩
  | cons m ms ih =>
    obtain ⟨first, others⟩ := List.forall_mem_cons.mp h
    obtain ⟨placed, balanced⟩ := ih others
    rw [List.flatMap_cons]
    refine ⟨?_, first.balanced.append balanced⟩
    rw [WellPlaced, List.append_assoc]
    exact Runs.run_append_of_run _ first.run placed

end Derived

section Taken

structure Derived {α : Type} (tokens : α → List Lexeme) (Grammatical : α → Prop)
    (toks : List Lexeme) (stage : Stage) : Prop where
  stage : stage = .between
  closes : toks.count [')'] ≤ toks.count ['(']
  derived : Balanced toks → ∃ x, Grammatical x ∧ tokens x = toks

theorem next_between_cases {tok : Lexeme} {stage : Stage}
    (h : Stage.next .between tok = some stage) : stage = .between ∨ stage = .typed ∨
      stage = .keyword ∨ stage = .opened ∧ (tok = ['('] ∨ tok = [',']) := by
  simp only [Stage.next, reduceIte, reduceCtorEq] at h
  split_ifs at h with empty colon known bracket mark keyword
  · exact .inl (Option.some_inj.mp h).symm
  · exact .inr (.inl (Option.some_inj.mp h).symm)
  · exact .inr (.inr (.inr ⟨(Option.some_inj.mp h).symm, bracket⟩))
  · exact .inl (Option.some_inj.mp h).symm
  · exact .inr (.inr (.inl (Option.some_inj.mp h).symm))
  · exact .inl (Option.some_inj.mp h).symm

theorem opened_of_run {sep name : Lexeme} {more : List Lexeme} {stage : Stage} (word : IsWord name)
    (run : Runs.run Stage.next .between (sep :: name :: [':'] :: more) = some stage) :
    (sep = ['('] ∨ sep = [',']) ∧
      Runs.run Stage.next .opened (name :: [':'] :: more) = some stage := by
  obtain ⟨first, atSep, run⟩ := Option.bind_eq_some_iff.mp run
  rcases next_between_cases atSep with rfl | rfl | rfl | ⟨rfl, known⟩
  · obtain ⟨second, atName, run⟩ := Option.bind_eq_some_iff.mp run
    obtain ⟨third, atColon, -⟩ := Option.bind_eq_some_iff.mp run
    rcases next_between_word word with ⟨keyword, -⟩ | ⟨between, -⟩
    · cases keyword.symm.trans atName
      cases atColon
    · cases between.symm.trans atName
      cases atColon
  · obtain ⟨second, atName, run⟩ := Option.bind_eq_some_iff.mp run
    obtain ⟨third, atColon, -⟩ := Option.bind_eq_some_iff.mp run
    cases (next_typed_word word).symm.trans atName
    cases atColon
  · obtain ⟨second, atName, run⟩ := Option.bind_eq_some_iff.mp run
    obtain ⟨third, atColon, -⟩ := Option.bind_eq_some_iff.mp run
    rw [Stage.next] at atName
    split at atName
    · cases atName
      cases atColon
    · cases atName
  · exact ⟨known, run⟩

theorem token_of_token_type {tok : Lexeme} (token : Token [keywordPattern, memberPattern] tok)
    (word : IsWord tok) : Token [Varlink.word (plus lower)] tok ∨ Token [memberPattern] tok := by
  have positive := List.length_pos_iff.mpr word.nonempty
  have reads := token.reads [] boundary_nil
  rw [matched_pair] at reads
  split at reads
  · exact .inr (token_member word.nonempty reads)
  · rcases starts_keyword (starts_of_matched reads (by omega)) with
      starts | ⟨mark, known, after, eq, length⟩
    · exact .inl (token_word plain_lower word.nonempty (by rw [matched_singleton, starts]; rfl))
    · obtain ⟨rfl, -⟩ := List.append_inj eq length
      exact absurd known word.not_mark

section Derived
variable {α β : Type} {tokens : α → List Lexeme} {Grammatical : α → Prop}
  {tokens' : β → List Lexeme} {Grammatical' : β → Prop} {toks toks' : List Lexeme}
  {stage stage' : Stage}

theorem Derived.map (h : Derived tokens Grammatical toks stage) (f : α → β) {n : Nat}
    (opens : toks'.count ['('] = toks.count ['('] + n)
    (closes : toks'.count [')'] = toks.count [')'] + n)
    (keeps : ∀ x, Grammatical x → tokens x = toks → Grammatical' (f x) ∧ tokens' (f x) = toks') :
    Derived tokens' Grammatical' toks' stage := by
  have fewer := h.closes
  refine ⟨h.stage, by omega, fun balanced => ?_⟩
  unfold Balanced at balanced
  obtain ⟨x, grammatical, same⟩ := h.derived (by unfold Balanced; omega)
  exact ⟨f x, keeps x grammatical same⟩

theorem Derived.imp (h : Derived tokens Grammatical toks stage) (f : α → β)
    (keeps : ∀ x, Grammatical x → tokens x = toks → Grammatical' (f x) ∧ tokens' (f x) = toks) :
    Derived tokens' Grammatical' toks stage :=
  h.map f (n := 0) rfl rfl keeps

theorem Derived.exactly (h : Derived tokens Grammatical toks stage) :
    Derived tokens (fun x => Grammatical x ∧ tokens x = toks) toks stage :=
  h.imp id fun _ grammatical same => ⟨⟨grammatical, same⟩, same⟩

theorem Derived.cons {tok : Lexeme} (h : Derived tokens Grammatical toks stage)
    (opens : tok ≠ ['(']) (closes : tok ≠ [')']) :
    Derived (fun x => tok :: tokens x) Grammatical (tok :: toks) stage :=
  h.map id (n := 0) (List.count_cons_of_ne opens) (List.count_cons_of_ne closes)
    fun _ grammatical same => ⟨grammatical, congrArg _ same⟩

theorem Derived.append (h : Derived tokens Grammatical toks stage)
    (h' : Derived tokens' Grammatical' toks' stage') :
    Derived (fun x : α × β => tokens x.1 ++ tokens' x.2)
      (fun x => Grammatical x.1 ∧ Grammatical' x.2) (toks ++ toks') stage' := by
  have closes := h.closes
  have closes' := h'.closes
  refine ⟨h'.stage, ?_, fun balanced => ?_⟩
  · rw [List.count_append, List.count_append]
    omega
  · rw [Balanced, List.count_append, List.count_append] at balanced
    obtain ⟨x, grammatical, same⟩ := h.derived (by unfold Balanced; omega)
    obtain ⟨y, grammatical', same'⟩ := h'.derived (by unfold Balanced; omega)
    exact ⟨(x, y), ⟨grammatical, grammatical'⟩, by rw [same, same']⟩

end Derived

theorem opens_of_field {name : Lexeme} (word : IsWord name) (type rest : List Lexeme) :
    (['('] :: name :: [':'] :: (type ++ rest)).count ['('] =
      type.count ['('] + rest.count ['('] + 1 := by
  rw [List.count_cons_self, List.count_cons_of_ne (word.ne_mark (by decide)),
    List.count_cons_of_ne (by decide), List.count_append]

theorem closes_of_field {name : Lexeme} (word : IsWord name) (type rest : List Lexeme) :
    (['('] :: name :: [':'] :: (type ++ rest)).count [')'] =
      type.count [')'] + rest.count [')'] := by
  have other : (['('] : Lexeme) ≠ [')'] := by decide
  rw [List.count_cons_of_ne other, List.count_cons_of_ne (word.ne_mark (by decide)),
    List.count_cons_of_ne (by decide), List.count_append]

def fieldsTokens (fields : List (String × TypeExpr)) : List Lexeme :=
  ['('] :: separated (fields.map fun f => f.1.toList :: [':'] :: f.2.tokens)

structure GrammaticalFields (fields : List (String × TypeExpr)) : Prop where
  some : fields ≠ []
  names : ∀ f ∈ fields, Token [identifierPattern] f.1.toList
  types : ∀ f ∈ fields, f.2.Grammatical

theorem derived_last {f : FieldTaken} {stage : Stage} (valid : f.Valid)
    (type : Derived TypeExpr.tokens TypeExpr.Grammatical f.type stage) :
    Derived fieldsTokens GrammaticalFields
      (['('] :: f.name :: [':'] :: (f.type ++ [[')']])) stage := by
  have word := isWord_of_identifier valid.name
  have name : (String.ofList f.name).toList = f.name := String.toList_ofList
  refine type.map (n := 1) (fun e => [(String.ofList f.name, e)]) (opens_of_field word _ _)
    (closes_of_field word _ _) fun e grammatical same => ⟨⟨List.cons_ne_nil _ _, ?_, ?_⟩, ?_⟩
  · exact List.forall_mem_singleton.mpr (name.symm ▸ valid.name)
  · exact List.forall_mem_singleton.mpr grammatical
  · simp [fieldsTokens, separated, name, same]

theorem derived_cons {f : FieldTaken} {toks : List Lexeme} {stage stage' : Stage} (valid : f.Valid)
    (sep : f.sep = ['('] ∨ f.sep = [','])
    (type : Derived TypeExpr.tokens TypeExpr.Grammatical f.type stage')
    (rest : Derived fieldsTokens GrammaticalFields (['('] :: toks) stage) :
    Derived fieldsTokens GrammaticalFields
      (['('] :: f.name :: [':'] :: (f.type ++ f.sep :: toks)) stage := by
  have word := isWord_of_identifier valid.name
  have name : (String.ofList f.name).toList = f.name := String.toList_ofList
  have other : (['('] : Lexeme) ≠ [')'] := by decide
  have both := type.exactly.append rest.exactly
  have bothCloses := both.closes
  have bothOpen : (f.type ++ ['('] :: toks).count ['('] =
      f.type.count ['('] + (toks.count ['('] + 1) := by
    rw [List.count_append, List.count_cons_self]
  have bothClose : (f.type ++ ['('] :: toks).count [')'] =
      f.type.count [')'] + toks.count [')'] := by
    rw [List.count_append, List.count_cons_of_ne other]
  rcases sep with sep | sep
  · have opens := opens_of_field word f.type (['('] :: toks)
    have closes := closes_of_field word f.type (['('] :: toks)
    have more : (['('] :: toks).count ['('] = toks.count ['('] + 1 := List.count_cons_self
    have same : (['('] :: toks).count [')'] = toks.count [')'] := List.count_cons_of_ne other
    rw [sep]
    refine ⟨rest.stage, by omega, fun balanced => ?_⟩
    unfold Balanced at balanced
    omega
  · rw [sep]
    have opens := opens_of_field word f.type ([','] :: toks)
    have closes := closes_of_field word f.type ([','] :: toks)
    have comma {mark : Lexeme} (known : [','] ≠ mark) : ([','] :: toks).count mark =
        toks.count mark := List.count_cons_of_ne known
    rw [comma (by decide)] at opens closes
    refine both.map (n := 0) (fun x => (String.ofList f.name, x.1) :: x.2) (by omega) (by omega) ?_
    intro ⟨e, fields⟩ ⟨⟨grammatical, same⟩, all, behind⟩ _
    refine ⟨⟨List.cons_ne_nil _ _, List.forall_mem_cons.mpr ⟨name.symm ▸ valid.name, all.names⟩,
      List.forall_mem_cons.mpr ⟨grammatical, all.types⟩⟩, ?_⟩
    obtain ⟨g, gs, rfl⟩ := List.exists_cons_of_ne_nil all.some
    have next := List.cons_injective behind
    simp only [fieldsTokens, List.map_cons, separated, name, same, ← next]
    simp

/-- Fields that a type was derived for each of are the fields of one struct, unless there
is a bracket where a comma belongs. -/
theorem fields_derived {fs : List FieldTaken} {stage : Stage} (closed : Closed fs)
    (valid : ∀ f ∈ fs, f.Valid)
    (types : ∀ f ∈ fs, ∀ {stage}, Runs.run Stage.next .typed f.type = some stage →
      Derived TypeExpr.tokens TypeExpr.Grammatical f.type stage)
    (run : Runs.run Stage.next .opened (fs.flatMap (·.tokens)) = some stage) :
    Derived fieldsTokens GrammaticalFields (['('] :: fs.flatMap (·.tokens)) stage := by
  induction fs with
  | nil => cases closed
  | cons f fs ih =>
    obtain ⟨own, others⟩ := List.forall_mem_cons.mp valid
    obtain ⟨ownType, otherTypes⟩ := List.forall_mem_cons.mp types
    rw [f.tokens_cons] at run ⊢
    rw [run_cons_of_next (next_opened_word (isWord_of_identifier own.name)),
      run_cons_of_next (by decide : Stage.next .label [':'] = some .typed),
      Runs.run_append] at run
    obtain ⟨behind, runType, run⟩ := Option.bind_eq_some_iff.mp run
    have type := ownType runType
    obtain rfl := type.stage
    cases fs with
    | nil =>
      have sep : f.sep = [')'] := Option.some_inj.mp closed
      rw [sep] at run ⊢
      obtain rfl := Option.some_inj.mp run
      exact derived_last own type
    | cons f' fs =>
      rw [f'.tokens_cons] at run
      obtain ⟨sep, run⟩ :=
        opened_of_run (isWord_of_identifier (others f' List.mem_cons_self).name) run
      rw [← f'.tokens_cons] at run
      exact derived_cons own sep type (ih closed others otherTypes run)

theorem Derived.of_grammatical {e : TypeExpr} (h : e.Grammatical) :
    Derived TypeExpr.tokens TypeExpr.Grammatical e.tokens .between :=
  ⟨rfl, h.balanced.symm.le, fun _ => ⟨e, h, rfl⟩⟩

theorem Derived.prefixed {tok : Lexeme} {toks : List Lexeme} {stage : Stage}
    (h : Derived TypeExpr.tokens TypeExpr.Grammatical toks stage) (known : tok ∈ prefixes)
    (single : tok = ['?'] → toks.head? ≠ some ['?']) :
    Derived TypeExpr.tokens TypeExpr.Grammatical (tok :: toks) stage := by
  simp only [prefixes, List.mem_cons, List.not_mem_nil, or_false] at known
  rcases known with rfl | rfl | rfl
  · refine (h.cons (by decide) (by decide)).imp .maybe fun e grammatical same => ?_
    refine ⟨.maybe ?_ grammatical, same⟩
    cases e with
    | maybe => exact absurd (congrArg List.head? (List.cons_injective same)).symm (single rfl)
    | _ => rfl
  · exact (h.cons (by decide) (by decide)).imp .dict fun e grammatical same =>
      ⟨.dict grammatical, same⟩
  · exact (h.cons (by decide) (by decide)).imp .array fun e grammatical same =>
      ⟨.array grammatical, same⟩

theorem Taken.derived {toks : List Lexeme} (h : Taken toks) {stage : Stage}
    (run : Runs.run Stage.next .typed toks = some stage) :
    Derived TypeExpr.tokens TypeExpr.Grammatical toks stage := by
  induction h generalizing stage with
  | prefixed known single _ ih =>
    rw [run_cons_of_next (next_typed_of_prefixes known)] at run
    exact (ih run).prefixed known single
  | @leaf tok token other =>
    have next : Stage.next .typed tok = some stage := by
      rw [Runs.run_cons] at run
      obtain ⟨stage', next, ends⟩ := Option.bind_eq_some_iff.mp run
      cases ends
      exact next
    rcases token with rfl | token
    · cases next
    · rcases lexical_type.kind_of_token token with word | mark
      · obtain rfl := Option.some_inj.mp ((next_typed_word word).symm.trans next)
        have name : (String.ofList tok).toList = tok := String.toList_ofList
        have grammatical : (TypeExpr.named (String.ofList tok)).Grammatical :=
          .named (name.symm ▸ token_of_token_type token word)
        have same : (TypeExpr.named (String.ofList tok)).tokens = [tok] := congrArg ([·]) name
        exact same ▸ Derived.of_grammatical grammatical
      · have none := (by decide : ∀ mark ∈ punctuation,
          mark ∉ [['?'], dictPrefix, ['[', ']'], ['(']] →
            Stage.next .typed mark = none) tok mark other
        cases none.symm.trans next
  | empty closes =>
    rcases closes with rfl | rfl
    · cases run
    · obtain rfl := Option.some_inj.mp run
      have grammatical : (TypeExpr.struct []).Grammatical := .struct nofun nofun
      exact Derived.of_grammatical grammatical
  | struct closed valid _ ih =>
    rw [run_cons_of_next next_typed_bracket] at run
    refine (fields_derived closed valid (fun f member _ => ih f member) run).imp .struct ?_
    intro fields grammatical same
    refine ⟨.struct grammatical.names grammatical.types, ?_⟩
    rw [TypeExpr.tokens, TypeExpr.fieldTokens_eq_map, ← same, fieldsTokens]
  | @enum vs two names =>
    have values : (vs.map String.ofList).map (fun v => [v.toList]) = vs.map ([·]) := by
      rw [List.map_map]
      exact List.map_congr_left fun v _ => congrArg ([·]) String.toList_ofList
    have some : vs.map String.ofList ≠ [] := by
      intro none
      rw [List.map_eq_nil_iff] at none
      simp [none] at two
    have grammatical : (TypeExpr.enum (vs.map String.ofList)).Grammatical := by
      refine .enum some (List.forall_mem_map.mpr fun v member => ?_)
      rw [String.toList_ofList]
      exact names v member
    have same : (TypeExpr.enum (vs.map String.ofList)).tokens =
        ['('] :: separated (vs.map ([·])) := by
      rw [TypeExpr.tokens, values]
    have derived := Derived.of_grammatical grammatical
    have ends := grammatical.run
    rw [same] at derived ends
    obtain rfl := Option.some_inj.mp (ends.symm.trans run)
    exact derived

theorem isBracketed_of_tokens {e : TypeExpr} {toks : List Lexeme} (h : e.Grammatical)
    (opens : e.tokens = ['('] :: toks) : e.isBracketed = true := by
  cases h with
  | named token =>
    have name := (List.cons_eq_cons.mp opens).1
    exact absurd name ((isWord_of_token token).ne_mark (by decide))
  | enum | struct => rfl
  | maybe | array | dict => cases opens

theorem Taken.derived_between {toks : List Lexeme} (h : Taken (['('] :: toks)) {stage : Stage}
    (run : Runs.run Stage.next .between (['('] :: toks) = some stage) :
    Derived TypeExpr.tokens (fun e => e.Grammatical ∧ e.isBracketed = true) (['('] :: toks)
      stage := by
  rw [run_cons_of_next next_between_bracket, ← run_cons_of_next next_typed_bracket] at run
  exact (h.derived run).imp id fun e grammatical same =>
    ⟨⟨grammatical, isBracketed_of_tokens grammatical same⟩, same⟩

theorem TakenMember.derived {toks : List Lexeme} (h : TakenMember toks) {stage : Stage}
    (run : Runs.run Stage.next .between toks = some stage) :
    Derived MemberExpr.tokens MemberExpr.Grammatical toks stage := by
  cases h with
  | @typed keyword name toks known named type =>
    have next : Stage.next .between keyword = some .keyword := by
      rcases known with rfl | rfl <;> decide
    have other : keyword ≠ ['('] ∧ keyword ≠ [')'] := by
      rcases known with rfl | rfl <;> decide
    rw [run_cons_of_next next] at run
    rcases named with rfl | token
    · cases run
    rw [run_cons_of_next (next_between_name token).2] at run
    have word := isWord_of_token (.inr token)
    have same : (String.ofList name).toList = name := String.toList_ofList
    have derived := ((type.derived run).cons (word.ne_mark (by decide))
      (word.ne_mark (by decide))).cons other.1 other.2
    rcases known with rfl | rfl
    · refine derived.imp (.type (String.ofList name)) fun e grammatical toks =>
        ⟨⟨?_, ?_, nofun⟩, ?_⟩
      · exact same.symm ▸ token
      · exact List.forall_mem_singleton.mpr grammatical
      · rw [← toks, MemberExpr.tokens, MemberExpr.name, same]
        rfl
    · refine derived.imp (.error (String.ofList name)) fun e grammatical toks =>
        ⟨⟨?_, ?_, nofun⟩, ?_⟩
      · exact same.symm ▸ token
      · exact List.forall_mem_singleton.mpr grammatical
      · rw [← toks, MemberExpr.tokens, MemberExpr.name, same]
        rfl
  | @method name ps rs named parameters returnValue =>
    have word := isWord_of_token (.inr named)
    have same : (String.ofList name).toList = name := String.toList_ofList
    rw [run_cons_of_next (by decide : Stage.next .between "method".toList = some .between),
      run_cons_of_next (next_between_name named).1, Runs.run_append] at run
    obtain ⟨behind, first, run⟩ := Option.bind_eq_some_iff.mp run
    have p := parameters.derived_between first
    obtain rfl := p.stage
    rw [run_cons_of_next (by decide : Stage.next .between ['-', '>'] = some .between)] at run
    have r := returnValue.derived_between run
    have derived := ((p.append (r.cons (by decide : ['-', '>'] ≠ ['(']) (by decide))).cons
      (word.ne_mark (by decide)) (word.ne_mark (by decide))).cons
        (by decide : "method".toList ≠ ['(']) (by decide)
    refine derived.imp (fun x => .method (String.ofList name) x.1 x.2) ?_
    intro x ⟨⟨hp, bracketedP⟩, hr, bracketedR⟩ toks
    refine ⟨⟨same.symm ▸ named, ?_, fun _ => ?_⟩, ?_⟩
    · exact List.forall_mem_cons.mpr ⟨hp, List.forall_mem_singleton.mpr hr⟩
    · exact List.forall_mem_cons.mpr ⟨bracketedP, List.forall_mem_singleton.mpr bracketedR⟩
    · rw [← toks, MemberExpr.tokens, MemberExpr.name, same]
      rfl

theorem members_derived {ms : List (List Lexeme)} (all : ∀ toks ∈ ms, TakenMember toks)
    {stage : Stage} (run : Runs.run Stage.next .between ms.flatten = some stage) :
    Derived (fun es : List MemberExpr => es.flatMap (·.tokens)) (fun es => ∀ m ∈ es, m.Grammatical)
      ms.flatten stage := by
  induction ms with
  | nil => exact ⟨(Option.some_inj.mp run).symm, le_refl _, fun _ => ⟨[], nofun, rfl⟩⟩
  | cons toks ms ih =>
    obtain ⟨first, others⟩ := List.forall_mem_cons.mp all
    rw [List.flatten_cons, Runs.run_append] at run
    obtain ⟨behind, runFirst, run⟩ := Option.bind_eq_some_iff.mp run
    have own := first.derived runFirst
    obtain rfl := own.stage
    refine (own.append (ih others run)).imp (fun x => x.1 :: x.2) fun x grammatical same => ?_
    exact ⟨List.forall_mem_cons.mpr grammatical, same⟩

end Taken

theorem run_replicate_end (k : Nat) :
    Runs.run Stage.next .between (List.replicate k []) = some .between := by
  induction k with
  | zero => rfl
  | succ k ih =>
    rw [List.replicate_succ, run_cons_of_next (by decide : Stage.next .between [] = some .between)]
    exact ih

theorem WellPlaced.run_ends {toks : List Lexeme} (h : WellPlaced toks) (k : Nat) :
    Runs.run Stage.next .between (toks ++ List.replicate k []) = some .between := by
  rw [WellPlaced, Runs.run_append] at h
  obtain ⟨stage, run, ends⟩ := Option.bind_eq_some_iff.mp h
  have last : stage = .between := by
    cases stage with
    | between => rfl
    | _ => cases ends
  subst last
  exact Runs.run_append_of_run _ run (run_replicate_end k)

theorem Balanced.ends {toks : List Lexeme} (h : Balanced toks) (k : Nat) :
    Balanced (toks ++ List.replicate k []) := by
  refine h.append ?_
  rw [Balanced, List.count_replicate, List.count_replicate]
  rfl

/-- The text is derived by the grammar. -/
def InGrammar (text : List Char) : Prop := ∃ e : InterfaceExpr, e.Grammatical ∧ e.SpelledAs text

theorem InGrammar.wellPlaced {text : List Char} (h : InGrammar text) :
    WellPlaced (memberLexemes text) ∧ Balanced (memberLexemes text) := by
  obtain ⟨e, grammatical, spelled⟩ := h
  rw [InterfaceExpr.memberLexemes_of_spelledAs grammatical spelled]
  exact wellPlaced_of_grammatical grammatical.members

example : ¬WellPlaced (memberLexemes "interface a.b\ntype T".toList) ∧
    ¬WellPlaced (memberLexemes "interface a.b\ntype T )".toList) ∧
    ¬WellPlaced (memberLexemes "interface a.b\ntype T(a:T:b:T)".toList) := by
  decide +kernel

namespace VarlinkInterface

theorem inGrammar_of_construct {stack : Nat} {description : String} {i : VarlinkInterface}
    (accepted : construct stack description = .ok i)
    (placed : WellPlaced (memberLexemes description.toList))
    (balanced : Balanced (memberLexemes description.toList)) : InGrammar description.toList := by
  obtain ⟨name, ms, k, nonempty, ⟨rest, ifname⟩, some, all, spells, same⟩ :=
    memberLexemes_of_construct accepted
  have derived := members_derived all (same ▸ placed.run_ends k)
  obtain ⟨es, grammatical, tokens⟩ := derived.derived (same ▸ balanced.ends k)
  have text : (String.ofList name).toList = name := String.toList_ofList
  have members : es ≠ [] := by
    rintro rfl
    obtain ⟨toks, ms, rfl⟩ := List.exists_cons_of_ne_nil some
    obtain ⟨keyword, more, rfl, -⟩ := (all toks List.mem_cons_self).head
    cases tokens
  refine ⟨⟨String.ofList name, es⟩, ⟨?_, ?_, members, grammatical⟩, ?_⟩
  · exact text.symm ▸ nonempty
  · exact text.symm ▸ matched_ifname_end nonempty ifname
  · rw [InterfaceExpr.SpelledAs, InterfaceExpr.tokens, text, tokens]
    exact spells

/-- A text that is accepted is derived by the grammar exactly if its tokens stand where they
may, and as many brackets close as open. -/
theorem inGrammar_iff_wellPlaced {stack : Nat} {description : String} {i : VarlinkInterface}
    (accepted : construct stack description = .ok i) :
    InGrammar description.toList ↔ WellPlaced (memberLexemes description.toList) ∧
      Balanced (memberLexemes description.toList) :=
  ⟨InGrammar.wellPlaced, fun ⟨placed, balanced⟩ => inGrammar_of_construct accepted placed balanced⟩

theorem inGrammar_iff_wellPlaced_field : InGrammar "interface a.b\ntype T(a:[]T)".toList := by
  have accepted : construct 6 "interface a.b\ntype T(a:[]T)" = .ok {
      ifname := "a.b"
      documentation := ""
      members := [{
        kind := .type
        name := "T"
        description := ""
        data := { type := .struct [("a", { type := .string "T", arrayType := true })] } }] } := rfl
  exact (inGrammar_iff_wellPlaced accepted).mpr ⟨by decide +kernel, by decide +kernel⟩

/-- The end of the text closes the bracket. -/
theorem unclosed_accepted :
    construct 5 "interface a.b\ntype T (" = .ok {
      ifname := "a.b"
      documentation := ""
      members := [{
        kind := .type
        name := "T"
        description := ""
        data := { type := .struct [] } }] } ∧
    ¬InGrammar "interface a.b\ntype T (".toList := by
  refine ⟨rfl, fun derived => ?_⟩
  have open_ : ¬Balanced (memberLexemes "interface a.b\ntype T (".toList) := by decide +kernel
  exact open_ derived.wellPlaced.2

end VarlinkInterface

end Varlink
