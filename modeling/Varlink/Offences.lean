import Varlink.Collections
import Varlink.Faults

/-! Where a value does not conform to its declaration, and which of these places
`validate` comes to first. -/

namespace Varlink.ParameterNames

open Collections

inductive Within (declared : Declarations) (place : TypeExpr) (part : Json) :
    TypeExpr → Json → Prop where
  | here : Within declared place part place part
  | maybe {e : TypeExpr} {v : Json} (within : Within declared place part e v) :
      Within declared place part (.maybe e) v
  | array {e : TypeExpr} {elements : List Json} {x : Json} (member : x ∈ elements)
      (within : Within declared place part e x) :
      Within declared place part (.array e) (.array elements)
  | dict {e : TypeExpr} {members : Object} {p : String × Json} (member : p ∈ members)
      (within : Within declared place part e p.2) :
      Within declared place part (.dict e) (.object members)
  | named {name : String} {e : TypeExpr} {v : Json} (found : declared name = some e)
      (within : Within declared place part e v) : Within declared place part (.named name) v
  | field {fields : List (String × TypeExpr)} {members : Object} {field : String × TypeExpr}
      (member : field ∈ fields) (present : ((Json.object members).member field.1).isNull = false)
      (within : Within declared place part field.2 ((Json.object members).member field.1)) :
      Within declared place part (.struct fields) (.object members)

def FieldConforms (declared : Declarations) (members : Object) (field : String × TypeExpr) :
    Prop :=
  Conforms declared (.struct [field]) (.object members)

/-- A declared field, at the top level or nested, whose value is missing or does not conform. -/
def OffendingField (declared : Declarations) (e : TypeExpr) (v : Json) (name : String) : Prop :=
  ∃ fields members field, Within declared (.struct fields) (.object members) e v ∧
    field ∈ fields ∧ field.1 = name ∧ ¬FieldConforms declared members field

def OffendingValue (declared : Declarations) (e : TypeExpr) (v value : Json) : Prop :=
  ∃ place, Within declared place value e v ∧ ¬Conforms declared place value

/-- The kind of value that the declaration begins with; `?` and names begin with any. -/
def hasKind : TypeExpr → Json → Bool
  | .array _, v => v.isArray
  | .dict _, v => v.isObject
  | .enum _, v => v.isString
  | .struct _, v => v.isObject
  | .maybe _, _ | .named _, _ => true

/-- Neither a flag nor the base type of the whole expression takes the value. -/
structure Stray (t : TypeSpec) (element : Bool) (v : Json) : Prop where
  free : t.captures v = false
  enum : t.isEnum = true → v.isString = false
  struct : t.isStruct = true → v.isObject = false
  string : t.isString = true → element = false

/-- The first place that does not conform, with the name of its field. What comes before it
in its collections and structs conforms and is unhindered. -/
inductive Blamed (declared : Declarations) :
    TypeSpec → TypeExpr → Bool → String → Json → Fault → Prop where
  | maybe {t : TypeSpec} {e : TypeExpr} {element : Bool} {name : String} {v : Json} {f : Fault}
      (value : v.isNull = false) (blamed : Blamed declared t e element name v f) :
      Blamed declared t (.maybe e) element name v f
  | array {t : TypeSpec} {e : TypeExpr} {element : Bool} {name : String} {x : Json}
      {elements before after : List Json} {f : Fault} (split : elements = before ++ x :: after)
      (sound : ∀ y ∈ before, Conforms declared e y ∧ Splits declared t e y)
      (blamed : Blamed declared t e true name x f) :
      Blamed declared t (.array e) element name (.array elements) f
  | dict {t : TypeSpec} {e : TypeExpr} {element : Bool} {name : String} {p : String × Json}
      {members before after : Object} {f : Fault} (split : members = before ++ p :: after)
      (sound : ∀ q ∈ before, Conforms declared e q.2 ∧ Splits declared t e q.2)
      (blamed : Blamed declared t e true name p.2 f) :
      Blamed declared t (.dict e) element name (.object members) f
  | unknown {t : TypeSpec} {element : Bool} {name type : String} {v : Json}
      (free : t.captures v = false) (other : isPrimitive v type = false)
      (absent : declared type = none) :
      Blamed declared t (.named type) element name v (.field name)
  | named {t : TypeSpec} {e : TypeExpr} {element : Bool} {name type : String} {v : Json}
      {f : Fault} (free : t.captures v = false) (other : isPrimitive v type = false)
      (found : declared type = some e) (blamed : Blamed declared e.toSpec e false name v f) :
      Blamed declared t (.named type) element name v f
  | missing {t : TypeSpec} {element : Bool} {name : String} {members : Object}
      {fields before after : List (String × TypeExpr)} {field : String × TypeExpr}
      (free : t.captures (.object members) = false) (split : fields = before ++ field :: after)
      (sound : ∀ g ∈ before, FieldConforms declared members g ∧
        Unhindered declared (.struct [g]) (.object members))
      (null : ((Json.object members).member field.1).isNull = true)
      (required : field.2.toSpec.maybeType = false) :
      Blamed declared t (.struct fields) element name (.object members) (.field field.1)
  | inside {t : TypeSpec} {element : Bool} {name : String} {members : Object}
      {fields before after : List (String × TypeExpr)} {field : String × TypeExpr} {f : Fault}
      (free : t.captures (.object members) = false) (split : fields = before ++ field :: after)
      (sound : ∀ g ∈ before, FieldConforms declared members g ∧
        Unhindered declared (.struct [g]) (.object members))
      (present : ((Json.object members).member field.1).isNull = false)
      (blamed : Blamed declared field.2.toSpec field.2 false field.1
        ((Json.object members).member field.1) f) :
      Blamed declared t (.struct fields) element name (.object members) f
  | unlisted {t : TypeSpec} {element : Bool} {name : String} {values : List String} {s : String}
      (other : s ∉ values) :
      Blamed declared t (.enum values) element name (.string s) (.data (.string s))
  | kind {t : TypeSpec} {e : TypeExpr} {element : Bool} {name : String} {v : Json}
      (mismatch : hasKind e v = false) (stray : Stray t element v) :
      Blamed declared t e element name v (.data v)

/-- A place whose value the flags of the whole expression treat otherwise than its
declaration does. -/
inductive Misread (declared : Declarations) : TypeSpec → TypeExpr → Bool → Json → Prop where
  | null {t : TypeSpec} {e : TypeExpr} {element : Bool} :
      Misread declared t (.maybe e) element .null
  | optional {t : TypeSpec} {element : Bool} {members : Object}
      {fields : List (String × TypeExpr)} {field : String × TypeExpr} (member : field ∈ fields)
      (null : ((Json.object members).member field.1).isNull = true)
      (inner : field.2.isMaybe = false) (flag : field.2.toSpec.maybeType = true) :
      Misread declared t (.struct fields) element (.object members)
  | captured {t : TypeSpec} {e : TypeExpr} {element : Bool} {v : Json} (base : isBase e = true)
      (captures : t.captures v = true) : Misread declared t e element v
  | taken {t : TypeSpec} {e : TypeExpr} {element : Bool} {v : Json}
      (mismatch : hasKind e v = false) (taken : ¬Stray t element v) : Misread declared t e element v
  | maybe {t : TypeSpec} {e : TypeExpr} {element : Bool} {v : Json}
      (misread : Misread declared t e element v) : Misread declared t (.maybe e) element v
  | array {t : TypeSpec} {e : TypeExpr} {element : Bool} {elements : List Json} {x : Json}
      (member : x ∈ elements) (misread : Misread declared t e true x) :
      Misread declared t (.array e) element (.array elements)
  | dict {t : TypeSpec} {e : TypeExpr} {element : Bool} {members : Object} {p : String × Json}
      (member : p ∈ members) (misread : Misread declared t e true p.2) :
      Misread declared t (.dict e) element (.object members)
  | named {t : TypeSpec} {e : TypeExpr} {element : Bool} {name : String} {v : Json}
      (found : declared name = some e) (misread : Misread declared e.toSpec e false v) :
      Misread declared t (.named name) element v
  | field {t : TypeSpec} {element : Bool} {members : Object} {fields : List (String × TypeExpr)}
      {field : String × TypeExpr} (member : field ∈ fields)
      (present : ((Json.object members).member field.1).isNull = false)
      (misread : Misread declared field.2.toSpec field.2 false
        ((Json.object members).member field.1)) :
      Misread declared t (.struct fields) element (.object members)

section Declared
variable {declared : Declarations} {t : TypeSpec} {e : TypeExpr} {element : Bool} {name : String}
variable {v : Json} {f : Fault}

theorem fieldConforms_iff {members : Object} {field : String × TypeExpr} :
    FieldConforms declared members field ↔
      (((Json.object members).member field.1).isNull = true → field.2.isMaybe = true) ∧
        (((Json.object members).member field.1).isNull = false →
          Conforms declared field.2 ((Json.object members).member field.1)) := by
  constructor
  · intro conforms
    cases conforms with
    | struct optional present =>
      exact ⟨optional field List.mem_cons_self, present field List.mem_cons_self⟩
  · rintro ⟨optional, present⟩
    refine .struct (fun g member => ?_) fun g member => ?_
    all_goals obtain rfl := List.mem_singleton.mp member
    · exact optional
    · exact present

theorem conforms_struct_iff {fields : List (String × TypeExpr)} {members : Object} :
    Conforms declared (.struct fields) (.object members) ↔
      ∀ field ∈ fields, FieldConforms declared members field := by
  simp only [fieldConforms_iff]
  constructor
  · intro conforms field member
    cases conforms with
    | struct optional present => exact ⟨optional field member, present field member⟩
  · exact fun all => .struct (fun field member => (all field member).1)
      fun field member => (all field member).2

theorem not_fieldConforms_of_missing {members : Object} {field : String × TypeExpr}
    (null : ((Json.object members).member field.1).isNull = true)
    (required : field.2.toSpec.maybeType = false) : ¬FieldConforms declared members field := by
  rw [fieldConforms_iff]
  rintro ⟨optional, -⟩
  cases (maybeType_of_isMaybe (optional null)).symm.trans required

theorem not_conforms_of_mismatch (mismatch : hasKind e v = false) : ¬Conforms declared e v := by
  intro conforms
  cases conforms <;> cases mismatch

theorem mem_of_split {α : Type} {all before after : List α} {x : α}
    (split : all = before ++ x :: after) : x ∈ all := by
  rw [split]
  exact List.mem_append_right before List.mem_cons_self

theorem Blamed.not_conforms (h : Blamed declared t e element name v f) :
    ¬Conforms declared e v := by
  induction h with
  | maybe value _ ih =>
    intro conforms
    cases conforms with
    | null => cases value
    | maybe conforms => exact ih conforms
  | array split _ _ ih =>
    intro conforms
    cases conforms with
    | array all => exact ih (all _ (mem_of_split split))
  | dict split _ _ ih =>
    intro conforms
    cases conforms with
    | dict all => exact ih (all _ (mem_of_split split))
  | unknown _ other absent =>
    intro conforms
    cases conforms with
    | primitive primitive => cases other.symm.trans primitive
    | named found => cases absent.symm.trans found
  | named _ other found _ ih =>
    intro conforms
    cases conforms with
    | primitive primitive => cases other.symm.trans primitive
    | named found' conforms =>
      cases found.symm.trans found'
      exact ih conforms
  | missing _ split _ null required =>
    rw [conforms_struct_iff]
    exact fun all => not_fieldConforms_of_missing null required (all _ (mem_of_split split))
  | inside _ split _ present _ ih =>
    rw [conforms_struct_iff]
    exact fun all => ih ((fieldConforms_iff.mp (all _ (mem_of_split split))).2 present)
  | unlisted other =>
    intro conforms
    cases conforms with
    | enum member => exact other member
  | kind mismatch => exact not_conforms_of_mismatch mismatch

theorem OffendingField.outer {e' : TypeExpr} {x : Json}
    (h : OffendingField declared e' x name)
    (lift : ∀ {place part}, Within declared place part e' x → Within declared place part e v) :
    OffendingField declared e v name := by
  obtain ⟨fields, members, field, within, rest⟩ := h
  exact ⟨fields, members, field, lift within, rest⟩

theorem OffendingValue.outer {e' : TypeExpr} {x value : Json}
    (h : OffendingValue declared e' x value)
    (lift : ∀ {place part}, Within declared place part e' x → Within declared place part e v) :
    OffendingValue declared e v value := by
  obtain ⟨place, within, rejected⟩ := h
  exact ⟨place, lift within, rejected⟩

theorem Blamed.offendingValue {value : Json}
    (h : Blamed declared t e element name v (.data value)) :
    OffendingValue declared e v value := by
  generalize same : Fault.data value = f at h
  induction h with
  | maybe _ _ ih => exact (ih same).outer .maybe
  | array split _ _ ih => exact (ih same).outer (.array (mem_of_split split))
  | dict split _ _ ih => exact (ih same).outer (.dict (mem_of_split split))
  | unknown | missing => cases same
  | named _ _ found _ ih => exact (ih same).outer (.named found)
  | inside _ split _ present _ ih => exact (ih same).outer (.field (mem_of_split split) present)
  | unlisted other =>
    cases same
    refine ⟨_, .here, fun conforms => ?_⟩
    cases conforms with
    | enum member => exact other member
  | kind mismatch =>
    cases same
    exact ⟨_, .here, not_conforms_of_mismatch mismatch⟩

theorem Blamed.offendingField {reported : String}
    (h : Blamed declared t e element name v (.field reported)) :
    reported = name ∨ OffendingField declared e v reported := by
  generalize same : Fault.field reported = f at h
  induction h with
  | maybe _ _ ih => exact (ih same).imp_right fun h => h.outer .maybe
  | array split _ _ ih =>
    exact (ih same).imp_right fun h => h.outer (.array (mem_of_split split))
  | dict split _ _ ih => exact (ih same).imp_right fun h => h.outer (.dict (mem_of_split split))
  | unknown =>
    cases same
    exact .inl rfl
  | named _ _ found _ ih => exact (ih same).imp_right fun h => h.outer (.named found)
  | missing _ split _ null required =>
    cases same
    exact .inr ⟨_, _, _, .here, mem_of_split split, rfl,
      not_fieldConforms_of_missing null required⟩
  | inside _ split _ present blamed ih =>
    refine .inr ?_
    rcases ih same with rfl | inner
    · exact ⟨_, _, _, .here, mem_of_split split, rfl,
        fun conforms => blamed.not_conforms ((fieldConforms_iff.mp conforms).2 present)⟩
    · exact inner.outer (.field (mem_of_split split) present)
  | unlisted | kind => cases same

theorem Blamed.offendingField_of_struct {fields : List (String × TypeExpr)} {reported : String}
    (h : Blamed declared t (.struct fields) element name v (.field reported)) :
    OffendingField declared (.struct fields) v reported := by
  cases h with
  | missing _ split _ null required =>
    exact ⟨_, _, _, .here, mem_of_split split, rfl, not_fieldConforms_of_missing null required⟩
  | inside _ split _ present blamed =>
    rcases blamed.offendingField with rfl | inner
    · exact ⟨_, _, _, .here, mem_of_split split, rfl,
        fun conforms => blamed.not_conforms ((fieldConforms_iff.mp conforms).2 present)⟩
    · exact inner.outer (.field (mem_of_split split) present)

end Declared

section Faulty
variable {declared : Declarations} {t : TypeSpec} {e : TypeExpr} {element : Bool} {name : String}
variable {v : Json} {f : Fault}

theorem fits_of_unhindered {members : Object} {field : String × TypeExpr}
    (conforms : FieldConforms declared members field)
    (unhindered : Unhindered declared (.struct [field]) (.object members)) :
    Fits declared.specs members (field.1, field.2.toSpec) := by
  have admits : Admits declared.specs (TypeExpr.struct [field]).toSpec false (.object members) :=
    admits_of_splits unhindered (.refl _) (.inr rfl) (.inl conforms)
  exact (admits_struct_iff rfl rfl).mp admits _ List.mem_cons_self

theorem fieldSpecs_split {fields before after : List (String × TypeExpr)}
    {field : String × TypeExpr} (split : fields = before ++ field :: after) :
    TypeExpr.toSpec.fieldSpecs fields = TypeExpr.toSpec.fieldSpecs before ++
      (field.1, field.2.toSpec) :: TypeExpr.toSpec.fieldSpecs after := by
  rw [split, TypeExpr.fieldSpecs_eq_map, TypeExpr.fieldSpecs_eq_map, TypeExpr.fieldSpecs_eq_map,
    List.map_append, List.map_cons]

theorem fits_fieldSpecs {fields : List (String × TypeExpr)} {members : Object}
    (sound : ∀ g ∈ fields, FieldConforms declared members g ∧
      Unhindered declared (.struct [g]) (.object members)) :
    ∀ g ∈ TypeExpr.toSpec.fieldSpecs fields, Fits declared.specs members g := by
  rw [TypeExpr.fieldSpecs_eq_map]
  simp only [List.forall_mem_map]
  exact fun g member => fits_of_unhindered (sound g member).1 (sound g member).2

theorem flagged_of_mismatch (covers : Covers t e) (mismatch : hasKind e v = false)
    (string : t.isString = true) : t.flagged = true := by
  obtain ⟨type, type_⟩ := TypeSpec.isString_iff.mp string
  cases e with
  | maybe | named => cases mismatch
  | array => simp [TypeSpec.flagged, covers.array rfl]
  | dict => simp [TypeSpec.flagged, covers.dict rfl]
  | enum | struct => cases type_.symm.trans covers.type

theorem faults_of_blamed (h : Blamed declared t e element name v f) (covers : Covers t e)
    (outside : element = true ∨ t.flagged = e.toSpec.flagged) :
    Faults declared.specs t element name v f := by
  induction h with
  | maybe _ _ ih => exact ih covers.maybe outside
  | array split sound _ ih =>
    refine .item (captures_array (covers.array rfl)) split (fun y member => ?_)
      (ih covers.ofArray (.inl rfl))
    exact admits_of_splits (sound y member).2 covers.ofArray (.inl rfl) (.inl (sound y member).1)
  | @dict t e element name p members before after f split sound _ ih =>
    have items : (Json.object members).items = before.map (·.2) ++ p.2 :: after.map (·.2) := by
      rw [split, Json.items, List.map_append, List.map_cons]
    refine .item (captures_object (covers.dict rfl)) items ?_ (ih covers.ofDict (.inl rfl))
    simp only [List.forall_mem_map]
    exact fun q member => admits_of_splits (sound q member).2 covers.ofDict (.inl rfl)
      (.inl (sound q member).1)
  | unknown free other absent =>
    refine .unknown covers.type free (bare_of_base rfl outside) other ?_
    rw [Declarations.specs, absent]
    rfl
  | named free other found _ ih =>
    refine .named covers.type free (bare_of_base rfl outside) other ?_ (ih (.refl _) (.inr rfl))
    rw [Declarations.specs, found]
    rfl
  | missing free split sound null required =>
    have type := covers.type.trans (congrArg TypeDef.struct (fieldSpecs_split split))
    exact .missing type free rfl (fits_fieldSpecs sound) null required
  | inside free split sound present _ ih =>
    have type := covers.type.trans (congrArg TypeDef.struct (fieldSpecs_split split))
    exact .inside type free rfl (fits_fieldSpecs sound) present (ih (.refl _) (.inr rfl))
  | unlisted other => exact .unlisted covers.type other
  | kind mismatch stray =>
    exact .kind stray.enum stray.free (fun string =>
      ⟨stray.string string, flagged_of_mismatch covers mismatch string⟩) stray.struct

def core : TypeExpr → TypeExpr
  | .maybe e => core e
  | e => e

theorem of_core {P : TypeExpr → Prop} (step : ∀ e, P e → P (.maybe e)) (e : TypeExpr)
    (h : P (core e)) : P e := by
  induction e using core.induct with
  | case1 e ih => exact step e (ih h)
  | case2 e plain =>
    cases e with
    | maybe e => cases plain e rfl
    | _ => exact h

theorem isMaybe_core (e : TypeExpr) : (core e).isMaybe = false := by
  induction e using core.induct with
  | case1 e ih => exact ih
  | case2 e plain =>
    cases e with
    | maybe e => cases plain e rfl
    | _ => rfl

theorem covers_core (covers : Covers t e) : Covers t (core e) := by
  induction e using core.induct with
  | case1 e ih => exact ih covers.maybe
  | case2 e plain =>
    cases e with
    | maybe e => cases plain e rfl
    | _ => exact covers

theorem flagged_core (e : TypeExpr) : (core e).toSpec.flagged = e.toSpec.flagged :=
  of_core (P := fun e' => (core e).toSpec.flagged = e'.toSpec.flagged) (fun _ same => same) e rfl

theorem Misread.of_null (null : v.isNull = true) : Misread declared t (.maybe e) element v := by
  cases v with
  | null => exact .null
  | _ => cases null

theorem forall_or_exists {α : Type} {P Q : α → Prop} {l : List α} (h : ∀ x ∈ l, P x ∨ Q x) :
    (∀ x ∈ l, P x) ∨ ∃ x ∈ l, Q x := by
  by_cases all : ∀ x ∈ l, P x
  · exact .inl all
  · simp only [not_forall] at all
    obtain ⟨x, member, fails⟩ := all
    exact .inr ⟨x, member, (h x member).resolve_left fails⟩

theorem not_stray_of_admits (admits : Admits declared.specs t element v) (covers : Covers t e)
    (mismatch : hasKind e v = false) : ¬Stray t element v := by
  intro stray
  cases admits with
  | enum type => cases stray.enum (TypeSpec.isEnum_iff.mpr ⟨_, type⟩)
  | dict flag => cases (captures_object flag).symm.trans stray.free
  | array flag => cases (captures_array flag).symm.trans stray.free
  | primitive type _ bare | named type _ bare =>
    have string := TypeSpec.isString_iff.mpr ⟨_, type⟩
    rcases bare with rfl | plain
    · cases stray.string string
    · cases (flagged_of_mismatch covers mismatch string).symm.trans plain
  | struct type => cases stray.struct (TypeSpec.isStruct_iff.mpr ⟨_, type⟩)

theorem sound_or_misread_of_core (admits : Admits declared.specs t element v) (covers : Covers t e)
    (h : ∀ c, c.isMaybe = false → hasKind c v = true → Covers t c →
      Conforms declared c v ∧ Splits declared t c v ∨ Misread declared t c element v) :
    Conforms declared e v ∧ Splits declared t e v ∨ Misread declared t e element v := by
  refine of_core (P := fun e => Conforms declared e v ∧ Splits declared t e v ∨
    Misread declared t e element v) (fun e inner => ?_) e ?_
  · exact inner.imp (fun sound => ⟨.maybe sound.1, .maybe (not_admits_null admits) sound.2⟩) .maybe
  · cases kind : hasKind (core e) v with
    | true => exact h (core e) (isMaybe_core e) kind (covers_core covers)
    | false => exact .inr (.taken kind (not_stray_of_admits admits (covers_core covers) kind))

theorem isBase_of_free (free : t.captures v = false) (covers : Covers t e)
    (plain : e.isMaybe = false) (kind : hasKind e v = true) : isBase e = true := by
  cases e with
  | maybe => cases plain
  | array =>
    obtain ⟨elements, rfl⟩ := Json.isArray_iff.mp kind
    cases (captures_array (covers.array rfl)).symm.trans free
  | dict =>
    obtain ⟨members, rfl⟩ := Json.isObject_iff.mp kind
    cases (captures_object (covers.dict rfl)).symm.trans free
  | named | enum | struct => rfl

theorem unhindered_field_iff {members : Object} {field : String × TypeExpr} :
    Unhindered declared (.struct [field]) (.object members) ↔
      (((Json.object members).member field.1).isNull = false →
        Splits declared field.2.toSpec field.2 ((Json.object members).member field.1)) := by
  constructor
  · intro splits
    cases splits with
    | apart _ captures => cases captures
    | struct _ present => exact present field List.mem_cons_self
  · intro present
    refine .struct rfl fun g member => ?_
    obtain rfl := List.mem_singleton.mp member
    exact present

theorem field_sound_or_misread {members : Object} {fields : List (String × TypeExpr)}
    {field : String × TypeExpr} (member : field ∈ fields)
    (optional : ((Json.object members).member field.1).isNull = true →
      field.2.toSpec.maybeType = true)
    (inner : ((Json.object members).member field.1).isNull = false →
      Conforms declared field.2 ((Json.object members).member field.1) ∧
          Splits declared field.2.toSpec field.2 ((Json.object members).member field.1) ∨
        Misread declared field.2.toSpec field.2 false ((Json.object members).member field.1)) :
    FieldConforms declared members field ∧
        Unhindered declared (.struct [field]) (.object members) ∨
      ∀ t element, Misread declared t (.struct fields) element (.object members) := by
  rw [fieldConforms_iff, unhindered_field_iff]
  cases null : ((Json.object members).member field.1).isNull with
  | true =>
    cases maybe : field.2.isMaybe with
    | true => simp
    | false => exact .inr fun _ _ => .optional member null maybe (optional null)
  | false =>
    rcases inner null with ⟨conforms, splits⟩ | misread
    · simp [conforms, splits]
    · exact .inr fun _ _ => .field member null misread

/-- What is accepted conforms and is unhindered, unless something in it is misread. -/
theorem sound_or_misread (admits : Admits declared.specs t element v) (covers : Covers t e) :
    Conforms declared e v ∧ Splits declared t e v ∨ Misread declared t e element v := by
  induction admits generalizing e with
  | enum type member =>
    refine sound_or_misread_of_core (.enum type member) covers fun c plain kind covers => ?_
    cases c with
    | maybe => cases plain
    | array | dict | struct => cases kind
    | named => cases type.symm.trans covers.type
    | enum =>
      cases type.symm.trans covers.type
      exact .inl ⟨.enum member, .enum (by simp [TypeSpec.captures, Json.isObject, Json.isArray])⟩
  | dict flag all ih =>
    refine sound_or_misread_of_core (.dict flag all) covers fun c plain kind covers => ?_
    cases c with
    | maybe => cases plain
    | array | enum => cases kind
    | named | struct => exact .inr (.captured rfl (captures_object flag))
    | dict e =>
      rcases forall_or_exists fun p member => ih p member covers.ofDict with
        sound | ⟨p, member, misread⟩
      · exact .inl ⟨.dict fun p member => (sound p member).1, .dict fun p member =>
          (sound p member).2⟩
      · exact .inr (.dict member misread)
  | array flag all ih =>
    refine sound_or_misread_of_core (.array flag all) covers fun c plain kind covers => ?_
    cases c with
    | maybe => cases plain
    | dict | enum | struct => cases kind
    | named => exact .inr (.captured rfl (captures_array flag))
    | array e =>
      rcases forall_or_exists fun x member => ih x member covers.ofArray with
        sound | ⟨x, member, misread⟩
      · exact .inl ⟨.array fun x member => (sound x member).1, .array fun x member =>
          (sound x member).2⟩
      · exact .inr (.array member misread)
  | primitive type free bare primitive =>
    refine sound_or_misread_of_core (.primitive type free bare primitive) covers
      fun c plain kind covers => ?_
    have base := isBase_of_free free covers plain kind
    cases c with
    | maybe | array | dict => cases base
    | enum | struct => cases type.symm.trans covers.type
    | named =>
      cases type.symm.trans covers.type
      exact .inl ⟨.primitive primitive, .primitive free primitive⟩
  | named type free bare other found admits ih =>
    refine sound_or_misread_of_core (.named type free bare other found admits) covers
      fun c plain kind covers => ?_
    have base := isBase_of_free free covers plain kind
    cases c with
    | maybe | array | dict => cases base
    | enum | struct => cases type.symm.trans covers.type
    | named =>
      cases type.symm.trans covers.type
      obtain ⟨e, known, rfl⟩ := Option.map_eq_some_iff.mp found
      exact (ih (.refl e)).imp (fun sound => ⟨.named known sound.1, .named free known sound.2⟩)
        (.named known)
  | struct type free optional present ih =>
    refine sound_or_misread_of_core (.struct type free optional present) covers
      fun c plain kind covers => ?_
    have base := isBase_of_free free covers plain kind
    cases c with
    | maybe | array | dict => cases base
    | enum => cases kind
    | named => cases type.symm.trans covers.type
    | struct fields =>
      cases type.symm.trans covers.type
      rcases forall_or_exists (l := fields) fun field member =>
          field_sound_or_misread member
            (fun null => optional _ (mem_fieldSpecs member) null)
            (fun value => ih _ (mem_fieldSpecs member) value (.refl field.2)) with
        sound | ⟨_, _, misread⟩
      · exact .inl ⟨conforms_struct_iff.mpr fun field member => (sound field member).1,
          .struct free fun field member => unhindered_field_iff.mp (sound field member).2⟩
      · exact .inr (misread _ _)

theorem not_stray_or_kind (h : Faults declared.specs t element name v f) (covers : Covers t e)
    (mismatch : hasKind e v = false) :
    Blamed declared t e element name v f ∨ ¬Stray t element v := by
  by_cases stray : Stray t element v
  · refine .inl ?_
    cases h with
    | unlisted type => cases stray.enum (TypeSpec.isEnum_iff.mpr ⟨_, type⟩)
    | item captured => cases stray.free.symm.trans captured
    | unknown type _ bare | named type _ bare =>
      have string := TypeSpec.isString_iff.mpr ⟨_, type⟩
      rcases bare with rfl | plain
      · cases stray.string string
      · cases (flagged_of_mismatch covers mismatch string).symm.trans plain
    | missing type | inside type => cases stray.struct (TypeSpec.isStruct_iff.mpr ⟨_, type⟩)
    | kind => exact .kind mismatch stray
  · exact .inr stray

theorem blamed_or_misread_of_core (h : Faults declared.specs t element name v f)
    (covers : Covers t e)
    (inner : ∀ c, c.isMaybe = false → hasKind c v = true → Covers t c →
      c.toSpec.flagged = e.toSpec.flagged →
        Blamed declared t c element name v f ∨ Misread declared t c element v) :
    Blamed declared t e element name v f ∨ Misread declared t e element v := by
  refine of_core (P := fun e => Blamed declared t e element name v f ∨
    Misread declared t e element v) (fun e inner => ?_) e ?_
  · cases null : v.isNull with
    | true => exact .inr (.of_null null)
    | false => exact inner.imp (.maybe null) .maybe
  · cases kind : hasKind (core e) v with
    | true => exact inner (core e) (isMaybe_core e) kind (covers_core covers) (flagged_core e)
    | false =>
      exact (not_stray_or_kind h (covers_core covers) kind).imp_right (.taken kind)

theorem fields_of_split {fields : List (String × TypeExpr)}
    {before after : List (String × TypeSpec)}
    {field : String × TypeSpec}
    (split : TypeExpr.toSpec.fieldSpecs fields = before ++ field :: after) :
    ∃ before' field' after', fields = before' ++ field' :: after' ∧
      TypeExpr.toSpec.fieldSpecs before' = before ∧ field = (field'.1, field'.2.toSpec) := by
  simp only [TypeExpr.fieldSpecs_eq_map] at split ⊢
  obtain ⟨before', rest, rfl, same, rest_eq⟩ := List.map_eq_append_iff.mp split
  obtain ⟨field', after', rfl, rfl, -⟩ := List.map_eq_cons_iff.mp rest_eq
  exact ⟨before', field', after', rfl, same, rfl⟩

theorem fields_sound_or_misread {members : Object} {fields before : List (String × TypeExpr)}
    (among : ∀ g ∈ before, g ∈ fields)
    (fit : ∀ g ∈ TypeExpr.toSpec.fieldSpecs before, Fits declared.specs members g) :
    (∀ g ∈ before, FieldConforms declared members g ∧
        Unhindered declared (.struct [g]) (.object members)) ∨
      ∀ t element, Misread declared t (.struct fields) element (.object members) := by
  rw [TypeExpr.fieldSpecs_eq_map, List.forall_mem_map] at fit
  rcases forall_or_exists fun g member => field_sound_or_misread (among g member)
      (fun null => (fits_missing_iff null).mp (fit g member))
      (fun value => sound_or_misread ((fits_present_iff value).mp (fit g member)) (.refl g.2)) with
    sound | ⟨_, _, misread⟩
  · exact .inl sound
  · exact .inr misread

/-- A rejected value has a first place that does not conform, unless something is misread. -/
theorem blamed_or_misread (h : Faults declared.specs t element name v f) (covers : Covers t e)
    (outside : element = true ∨ t.flagged = e.toSpec.flagged) :
    Blamed declared t e element name v f ∨ Misread declared t e element v := by
  induction h generalizing e with
  | unlisted type other =>
    refine blamed_or_misread_of_core (.unlisted type other) covers fun c plain kind covers _ => ?_
    cases c with
    | maybe => cases plain
    | array | dict | struct => cases kind
    | named => cases type.symm.trans covers.type
    | enum =>
      cases type.symm.trans covers.type
      exact .inl (.unlisted other)
  | @item t element name v x before after f captured split admitted fault ih =>
    refine blamed_or_misread_of_core (.item captured split admitted fault) covers
      fun c plain kind covers _ => ?_
    cases c with
    | maybe => cases plain
    | named | enum | struct => exact .inr (.captured rfl captured)
    | array e =>
      obtain ⟨elements, rfl⟩ := Json.isArray_iff.mp kind
      rcases forall_or_exists fun y member => sound_or_misread (admitted y member) covers.ofArray
        with sound | ⟨y, member, misread⟩
      · exact (ih covers.ofArray (.inl rfl)).imp (.array split sound) (.array (mem_of_split split))
      · refine .inr (.array ?_ misread)
        rw [show elements = before ++ x :: after from split]
        exact List.mem_append_left _ member
    | dict e =>
      obtain ⟨members, rfl⟩ := Json.isObject_iff.mp kind
      obtain ⟨before, rest, rfl, rfl, rest_eq⟩ := List.map_eq_append_iff.mp split
      obtain ⟨p, after, rfl, rfl, rfl⟩ := List.map_eq_cons_iff.mp rest_eq
      rw [List.forall_mem_map] at admitted
      rcases forall_or_exists fun q member => sound_or_misread (admitted q member) covers.ofDict
        with sound | ⟨q, member, misread⟩
      · exact (ih covers.ofDict (.inl rfl)).imp (.dict rfl sound) (.dict (mem_of_split rfl))
      · exact .inr (.dict (List.mem_append_left _ member) misread)
  | unknown type free bare other absent =>
    refine blamed_or_misread_of_core (.unknown type free bare other absent) covers
      fun c plain kind covers _ => ?_
    have base := isBase_of_free free covers plain kind
    cases c with
    | maybe | array | dict => cases base
    | enum | struct => cases type.symm.trans covers.type
    | named =>
      cases type.symm.trans covers.type
      exact .inl (.unknown free other (Option.map_eq_none_iff.mp absent))
  | named type free bare other found fault ih =>
    refine blamed_or_misread_of_core (.named type free bare other found fault) covers
      fun c plain kind covers _ => ?_
    have base := isBase_of_free free covers plain kind
    cases c with
    | maybe | array | dict => cases base
    | enum | struct => cases type.symm.trans covers.type
    | named =>
      cases type.symm.trans covers.type
      obtain ⟨e, known, rfl⟩ := Option.map_eq_some_iff.mp found
      exact (ih (.refl e) (.inr rfl)).imp (.named free other known) (.named known)
  | missing type free split fit null required =>
    refine blamed_or_misread_of_core (.missing type free split fit null required) covers
      fun c plain kind covers _ => ?_
    have base := isBase_of_free free covers plain kind
    cases c with
    | maybe | array | dict => cases base
    | enum => cases kind
    | named => cases type.symm.trans covers.type
    | struct fields =>
      cases type.symm.trans covers.type
      obtain ⟨before, field, after, rfl, rfl, rfl⟩ := fields_of_split split
      rcases fields_sound_or_misread (fun g member => List.mem_append_left _ member) fit with
        sound | misread
      · exact .inl (.missing free rfl sound null required)
      · exact .inr (misread _ _)
  | inside type free split fit present fault ih =>
    refine blamed_or_misread_of_core (.inside type free split fit present fault) covers
      fun c plain kind covers _ => ?_
    have base := isBase_of_free free covers plain kind
    cases c with
    | maybe | array | dict => cases base
    | enum => cases kind
    | named => cases type.symm.trans covers.type
    | struct fields =>
      cases type.symm.trans covers.type
      obtain ⟨before, field, after, rfl, rfl, rfl⟩ := fields_of_split split
      rcases fields_sound_or_misread (fun g member => List.mem_append_left _ member) fit with
        sound | misread
      · exact (ih (.refl _) (.inr rfl)).imp (.inside free rfl sound present)
          (.field (mem_of_split rfl) present)
      · exact .inr (misread _ _)
  | kind enum free string struct =>
    refine blamed_or_misread_of_core (.kind enum free string struct) covers
      fun c plain kind covers same => ?_
    have base := isBase_of_free free covers plain kind
    cases c with
    | maybe | array | dict => cases base
    | enum => cases (enum (TypeSpec.isEnum_iff.mpr ⟨_, covers.type⟩)).symm.trans kind
    | struct => cases (struct (TypeSpec.isStruct_iff.mpr ⟨_, covers.type⟩)).symm.trans kind
    | named =>
      obtain ⟨element, flagged⟩ := string (TypeSpec.isString_iff.mpr ⟨_, covers.type⟩)
      rcases outside with contra | outside
      · cases element.symm.trans contra
      · cases flagged.symm.trans (outside.trans same.symm)

end Faulty

end Varlink.ParameterNames
