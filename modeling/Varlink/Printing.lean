import Varlink.TypeSource

/-! The text that a specification is printed as declares a type with this specification. -/

namespace Varlink

namespace TypeSpec

def wrap (flag : Bool) (f : TypeExpr → TypeExpr) (e : TypeExpr) : TypeExpr :=
  if flag then f e else e

def prefixed (t : TypeSpec) (base : TypeExpr) : TypeExpr :=
  wrap t.maybeType .maybe (wrap t.arrayType .array (wrap t.dictType .dict base))

def baseExpr : TypeSpec → TypeExpr
  | ⟨.string name, _, _, _⟩ => .named name
  | ⟨.invalid, _, _, _⟩ => .struct []
  | ⟨.enum values, _, _, _⟩ => .enum values
  | ⟨.struct fields, _, _, _⟩ => .struct (fieldExprs fields)
where
  fieldExprs : List (String × TypeSpec) → List (String × TypeExpr)
    | [] => []
    | (name, type) :: rest => (name, prefixed type (baseExpr type)) :: fieldExprs rest

end TypeSpec

open TypeSpec

theorem toSpec_prefixed {t : TypeSpec} {base : TypeExpr} (bare : base.toSpec = { type := t.type }) :
    (t.prefixed base).toSpec = t := by
  obtain ⟨type, m, d, a⟩ := t
  cases m <;> cases d <;> cases a <;> simp_all [prefixed, wrap, TypeExpr.toSpec]

theorem toSpec_baseExpr {t : TypeSpec} (h : Readable t) :
    t.baseExpr.toSpec = { type := t.type } := by
  induction h with
  | string => rfl
  | enum => rfl
  | @struct fields m d a names types ih =>
    have all : TypeExpr.toSpec.fieldSpecs (baseExpr.fieldExprs fields) = fields := by
      clear names types
      induction fields with
      | nil => rfl
      | cons f rest ih' =>
        obtain ⟨name, type⟩ := f
        rw [baseExpr.fieldExprs, TypeExpr.toSpec.fieldSpecs,
          toSpec_prefixed (ih (name, type) List.mem_cons_self),
          ih' fun f member => ih f (List.mem_cons_of_mem _ member)]
    rw [baseExpr, TypeExpr.toSpec, all]

theorem isMaybe_baseExpr (t : TypeSpec) : t.baseExpr.isMaybe = false := by
  obtain ⟨type, m, d, a⟩ := t
  cases type <;> rfl

theorem isMaybe_wrap {base : TypeExpr} (plain : base.isMaybe = false) (a d : Bool) :
    (wrap a .array (wrap d .dict base)).isMaybe = false := by
  cases a <;> cases d
  · exact plain
  all_goals rfl

theorem flagText_eq (t : TypeSpec) : t.flagText = (if t.maybeType then ['?'] else []) ++
    ((if t.arrayType then ['[', ']'] else []) ++ if t.dictType then dictPrefix else []) := by
  have same : "[string]".toList = dictPrefix := by decide
  rw [flagText, same, List.append_assoc]

theorem written_prefixed {t : TypeSpec} {base : TypeExpr} {text : List Char}
    (plain : base.isMaybe = false) (written : Written base text) :
    Written (t.prefixed base) (t.flagText ++ text) := by
  have dict : Written (wrap t.dictType .dict base)
      ((if t.dictType then dictPrefix else []) ++ text) := by
    cases t.dictType with
    | false => exact written
    | true => exact .dict (g := []) .nil written
  have array : Written (wrap t.arrayType .array (wrap t.dictType .dict base))
      ((if t.arrayType then ['[', ']'] else []) ++
        ((if t.dictType then dictPrefix else []) ++ text)) := by
    cases t.arrayType with
    | false => exact dict
    | true => exact .array (g := []) .nil dict
  have single := isMaybe_wrap plain t.arrayType t.dictType
  rw [flagText_eq, List.append_assoc, List.append_assoc, prefixed]
  cases t.maybeType with
  | false => exact array
  | true => exact .maybe (g := []) .nil single array

section Layout
variable (indent : Int) (depth : Nat) (multiline : Bool)

/-- What is printed in front of the name of a field, but for the comma. -/
def fieldLead (first : Bool) : List Char :=
  if multiline then '\n' :: spacing (indent * (depth + 1)) else if first then [] else [' ']

def fieldTail : List Char := if multiline then '\n' :: spacing (indent * depth) else []

theorem blank_of_mem_spacing {n : Int} {c : Char} (h : c ∈ spacing n) : c ∈ blanks := by
  obtain ⟨-, rfl⟩ := List.mem_replicate.mp h
  decide

theorem gap_newline_spacing (n : Int) : Gap ('\n' :: spacing n) :=
  .blank (by decide) (gap_of_blanks fun _ => blank_of_mem_spacing)

theorem gap_fieldLead (first : Bool) : Gap (fieldLead indent depth multiline first) := by
  unfold fieldLead
  split
  · exact gap_newline_spacing _
  · split
    · exact .nil
    · exact .blank (by decide) .nil

theorem gap_fieldTail : Gap (fieldTail indent depth multiline) := by
  unfold fieldTail
  split
  · exact gap_newline_spacing _
  · exact .nil

def fieldSources : Bool → List (String × TypeSpec) → List FieldSource
  | _, [] => []
  | first, (name, type) :: rest =>
    { before := fieldLead indent depth multiline first, name
      type := type.prefixed type.baseExpr
      text := ' ' :: (type.flagText ++ type.toText indent (depth + 1))
      after := if rest = [] then fieldTail indent depth multiline else [] } ::
      fieldSources false rest

theorem fieldSources_field (first : Bool) (fields : List (String × TypeSpec)) :
    (fieldSources indent depth multiline first fields).map (·.field) =
      baseExpr.fieldExprs fields := by
  induction fields generalizing first with
  | nil => rfl
  | cons f rest ih =>
    rw [fieldSources, List.map_cons, ih]
    rfl

theorem listed_fieldSources {fields : List (String × TypeSpec)} (some : fields ≠ [])
    (first : Bool) :
    (if first then [] else [',']) ++
        listed ((fieldSources indent depth multiline first fields).map (·.source)) =
      (if multiline && first then ['\n'] else []) ++
        (toText.structText indent depth multiline first fields ++
          (fieldTail indent depth multiline ++ [')'])) := by
  induction fields generalizing first with
  | nil => exact absurd rfl some
  | cons f rest ih =>
    obtain ⟨name, type⟩ := f
    cases rest with
    | nil =>
      cases first <;> cases multiline <;>
        simp [fieldSources, listed, FieldSource.source, toText.structText, fieldLead]
    | cons f' rest =>
      have tail := ih (List.cons_ne_nil _ _) false
      simp only [Bool.false_eq_true, if_false, Bool.and_false, List.nil_append,
        List.singleton_append] at tail
      have cut : listed ((fieldSources indent depth multiline first
          ((name, type) :: f' :: rest)).map (·.source)) =
            fieldLead indent depth multiline first ++ (name.toList ++ (':' :: ' ' ::
              (type.flagText ++ (type.toText indent (depth + 1) ++ (',' :: listed
                ((fieldSources indent depth multiline false (f' :: rest)).map (·.source))))))) := by
        simp [fieldSources, listed, FieldSource.source]
      rw [cut, toText.structText, tail]
      cases first <;> cases multiline <;> simp [fieldLead]

theorem valid_fieldSources {fields : List (String × TypeSpec)}
    (names : ∀ f ∈ fields, Token [identifierPattern] f.1.toList) (first : Bool) :
    ∀ f ∈ fieldSources indent depth multiline first fields, f.Valid := by
  induction fields generalizing first with
  | nil => exact nofun
  | cons f rest ih =>
    refine List.forall_mem_cons.mpr ⟨⟨gap_fieldLead .., names f List.mem_cons_self, .nil, ?_⟩,
      ih (fun g member => names g (List.mem_cons_of_mem f member)) false⟩
    show Gap (if rest = [] then _ else _)
    split
    · exact gap_fieldTail ..
    · exact .nil

theorem written_fieldSources {fields : List (String × TypeSpec)}
    (types : ∀ f ∈ fields, Written f.2.baseExpr (f.2.toText indent (depth + 1)))
    (first : Bool) :
    ∀ f ∈ fieldSources indent depth multiline first fields, Written f.type f.text := by
  induction fields generalizing first with
  | nil => exact nofun
  | cons f rest ih =>
    have head := written_prefixed (t := f.2) (isMaybe_baseExpr _) (types f List.mem_cons_self)
    exact List.forall_mem_cons.mpr ⟨head.behind_gap (g := [' ']) (.blank (by decide) .nil),
      ih (fun g member => types g (List.mem_cons_of_mem f member)) false⟩

end Layout

def valueSources : Bool → List String → List ValueSource
  | _, [] => []
  | first, name :: rest =>
    { before := if first then [] else [' '], name } :: valueSources false rest

theorem valueSources_name (first : Bool) (values : List String) :
    (valueSources first values).map (·.name) = values := by
  induction values generalizing first with
  | nil => rfl
  | cons v rest ih => rw [valueSources, List.map_cons, ih]

theorem listed_valueSources {values : List String} (some : values ≠ []) (first : Bool) :
    (if first then [] else [',']) ++ listed ((valueSources first values).map (·.source)) =
      enumText first values ++ [')'] := by
  induction values generalizing first with
  | nil => exact absurd rfl some
  | cons v rest ih =>
    cases rest with
    | nil => cases first <;> simp [valueSources, listed, ValueSource.source, enumText]
    | cons v' rest =>
      have tail := ih (List.cons_ne_nil _ _) false
      simp only [Bool.false_eq_true, if_false, List.singleton_append] at tail
      have cut : listed ((valueSources first (v :: v' :: rest)).map (·.source)) =
          (if first then [] else [' ']) ++ (v.toList ++ (',' ::
            listed ((valueSources false (v' :: rest)).map (·.source)))) := by
        simp [valueSources, listed, ValueSource.source]
      rw [cut, enumText, tail]
      cases first <;> simp

theorem valid_valueSources {values : List String}
    (names : ∀ v ∈ values, Token [identifierPattern] v.toList) (first : Bool) :
    ∀ v ∈ valueSources first values, v.Valid := by
  induction values generalizing first with
  | nil => exact nofun
  | cons v rest ih =>
    refine List.forall_mem_cons.mpr ⟨⟨?_, names v List.mem_cons_self, .nil⟩,
      ih (fun w member => names w (List.mem_cons_of_mem v member)) false⟩
    show Gap (if first then _ else _)
    split
    · exact .nil
    · exact .blank (by decide) .nil

/-! ### No comments -/

theorem Token.plain {patterns : List (Regex Char)} {tok : List Char} (h : Token patterns tok) :
    '#' ∉ tok :=
  fun member => h.clean '#' member List.mem_cons_self

theorem plain_spacing (n : Int) : '#' ∉ spacing n := fun member => by
  have := (List.mem_replicate.mp member).2
  exact absurd this (by decide)

theorem plain_flagText (t : TypeSpec) : '#' ∉ t.flagText := by
  rw [flagText_eq]
  cases t.maybeType <;> cases t.arrayType <;> cases t.dictType <;> decide

theorem plain_enumText {values : List String}
    (names : ∀ v ∈ values, Token [identifierPattern] v.toList) (first : Bool) :
    '#' ∉ enumText first values := by
  induction values generalizing first with
  | nil => exact List.not_mem_nil
  | cons v rest ih =>
    have head := (names v List.mem_cons_self).plain
    have tail := ih (fun w member => names w (List.mem_cons_of_mem v member)) false
    cases first <;> simp [enumText, head, tail]

theorem plain_structText {fields : List (String × TypeSpec)} {indent : Int} {depth : Nat}
    (names : ∀ f ∈ fields, Token [identifierPattern] f.1.toList)
    (types : ∀ f ∈ fields, '#' ∉ f.2.toText indent (depth + 1)) (multiline first : Bool) :
    '#' ∉ toText.structText indent depth multiline first fields := by
  induction fields generalizing first with
  | nil => exact List.not_mem_nil
  | cons f rest ih =>
    have name := (names f List.mem_cons_self).plain
    have type := types f List.mem_cons_self
    have tail := ih (fun g member => names g (List.mem_cons_of_mem f member))
      (fun g member => types g (List.mem_cons_of_mem f member)) false
    have flags := plain_flagText f.2
    have spaces := plain_spacing (indent * (depth + 1))
    cases first <;> cases multiline <;>
      simp [toText.structText, name, type, tail, flags, spaces]

theorem plain_toText {t : TypeSpec} (h : Readable t) (indent : Int) (depth : Nat) :
    '#' ∉ t.toText indent depth := by
  induction h generalizing depth with
  | string typeName => exact typeName.token.plain
  | enum _ names => simp [toText, plain_enumText names]
  | struct names types ih =>
    have fields (multiline : Bool) := plain_structText names
      (fun f member => ih f member (depth + 1)) multiline true
    rw [toText]
    split <;> simp [fields, plain_spacing]

theorem written_toText {t : TypeSpec} (h : Readable t) (indent : Int) (depth : Nat) :
    Written t.baseExpr (t.toText indent depth) := by
  induction h generalizing depth with
  | string typeName => exact .named (g := []) .nil typeName
  | @enum values m d a two names =>
    have some : values ≠ [] := by
      rintro rfl
      exact absurd two (by decide)
    have listed_ := listed_valueSources some true
    rw [if_pos rfl, List.nil_append] at listed_
    have written := Written.enum (g := []) .nil
      (by rwa [← List.length_map (f := (·.name)), valueSources_name])
      (valid_valueSources names true)
    rwa [valueSources_name, listed_] at written
  | @struct fields m d a names types ih =>
    by_cases empty : fields = []
    · subst empty
      have single : isMultiline indent ⟨.struct [], m, d, a⟩ = false := by
        simp [isMultiline, TypeSpec.isNull, TypeSpec.empty]
      rw [toText, if_neg (by rw [single]; decide)]
      exact .empty (g := []) (h := []) .nil .nil
    · have written (multiline : Bool) : Written (baseExpr ⟨.struct fields, m, d, a⟩)
          ('(' :: ((if multiline then ['\n'] else []) ++
            (toText.structText indent depth multiline true fields ++
              (fieldTail indent depth multiline ++ [')'])))) := by
        have listed_ := listed_fieldSources indent depth multiline empty true
        rw [if_pos rfl, List.nil_append, Bool.and_true] at listed_
        have some : fieldSources indent depth multiline true fields ≠ [] := by
          cases fields with
          | nil => exact absurd rfl empty
          | cons => exact nofun
        have written := Written.struct (g := []) .nil some
          (valid_fieldSources indent depth multiline names true)
          (written_fieldSources indent depth multiline
            (fun f member => ih f member (depth + 1)) true)
        rwa [fieldSources_field, listed_] at written
      rw [toText]
      split
      · exact written true
      · exact written false

end Varlink
