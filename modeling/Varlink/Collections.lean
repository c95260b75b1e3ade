import Varlink.TypeExpr
import Varlink.Validation

/-! Validation against the declared type. The elements of a collection are
validated against the flags of the whole expression, which know neither their
order nor their number: `validate` and the declaration agree as long as the
value is unfolded the way the declaration has it. -/

namespace Varlink.Collections

variable {declared : Declarations} {i : VarlinkInterface} {types : String → Option TypeSpec}

def isBase : TypeExpr → Bool
  | .named _ | .enum _ | .struct _ => true
  | _ => false

/-- The value is unfolded along the prefixes of the declaration. An array or object that
stands where the declaration has its base type, and that a flag of the whole expression
captures all the same, conforms to the base type. -/
inductive Unfolds (declared : Declarations) : TypeSpec → TypeExpr → Json → Prop where
  | null {t : TypeSpec} {e : TypeExpr} : Unfolds declared t (.maybe e) .null
  | maybe {t : TypeSpec} {e : TypeExpr} {v : Json} (value : v.isNull = false)
      (unfolds : Unfolds declared t e v) : Unfolds declared t (.maybe e) v
  | array {t : TypeSpec} {e : TypeExpr} {elements : List Json}
      (all : ∀ v ∈ elements, Unfolds declared t e v) :
      Unfolds declared t (.array e) (.array elements)
  | dict {t : TypeSpec} {e : TypeExpr} {members : Object}
      (all : ∀ p ∈ members, Unfolds declared t e p.2) :
      Unfolds declared t (.dict e) (.object members)
  | captured {t : TypeSpec} {e : TypeExpr} {v : Json} (base : isBase e = true)
      (captures : t.captures v = true) (conforms : Conforms declared e v) :
      Unfolds declared t e v
  | named {t : TypeSpec} {name : String} {v : Json} (free : t.captures v = false)
      (unfolds : isPrimitive v name = false → ∀ e, declared name = some e →
        Unfolds declared e.toSpec e v) : Unfolds declared t (.named name) v
  | enum {t : TypeSpec} {values : List String} {v : Json} (free : t.captures v = false) :
      Unfolds declared t (.enum values) v
  | struct {t : TypeSpec} {fields : List (String × TypeExpr)} {v : Json}
      (free : t.captures v = false)
      (optional : ∀ f ∈ fields, (v.member f.1).isNull = true → f.2.isMaybe = true)
      (present : ∀ f ∈ fields, (v.member f.1).isNull = false →
        Unfolds declared f.2.toSpec f.2 (v.member f.1)) :
      Unfolds declared t (.struct fields) v

def Aligned (declared : Declarations) (e : TypeExpr) (v : Json) : Prop :=
  Unfolds declared e.toSpec e v

/-- No null is an element, and what a flag captures in a base type's place can be taken
apart as a further collection, down to values that conform to the base type. -/
inductive Splits (declared : Declarations) : TypeSpec → TypeExpr → Json → Prop where
  | maybe {t : TypeSpec} {e : TypeExpr} {v : Json} (value : v.isNull = false)
      (splits : Splits declared t e v) : Splits declared t (.maybe e) v
  | array {t : TypeSpec} {e : TypeExpr} {elements : List Json}
      (all : ∀ v ∈ elements, Splits declared t e v) :
      Splits declared t (.array e) (.array elements)
  | dict {t : TypeSpec} {e : TypeExpr} {members : Object}
      (all : ∀ p ∈ members, Splits declared t e p.2) :
      Splits declared t (.dict e) (.object members)
  | apart {t : TypeSpec} {e : TypeExpr} {v : Json} (base : isBase e = true)
      (captures : t.captures v = true)
      (leaves : ∀ x ∈ v.items, t.captures x = false → Conforms declared e x)
      (all : ∀ x ∈ v.items, Splits declared t e x) : Splits declared t e v
  | primitive {t : TypeSpec} {name : String} {v : Json} (free : t.captures v = false)
      (primitive : isPrimitive v name = true) : Splits declared t (.named name) v
  | named {t : TypeSpec} {name : String} {e : TypeExpr} {v : Json} (free : t.captures v = false)
      (found : declared name = some e) (splits : Splits declared e.toSpec e v) :
      Splits declared t (.named name) v
  | enum {t : TypeSpec} {values : List String} {v : Json} (free : t.captures v = false) :
      Splits declared t (.enum values) v
  | struct {t : TypeSpec} {fields : List (String × TypeExpr)} {v : Json}
      (free : t.captures v = false)
      (present : ∀ f ∈ fields, (v.member f.1).isNull = false →
        Splits declared f.2.toSpec f.2 (v.member f.1)) :
      Splits declared t (.struct fields) v

def Unhindered (declared : Declarations) (e : TypeExpr) (v : Json) : Prop :=
  Splits declared e.toSpec e v

/-- A value that stands somewhere in another one. -/
inductive Part (x : Json) : Json → Prop where
  | refl : Part x x
  | item {u v : Json} (member : u ∈ v.items) (part : Part x u) : Part x v

theorem types_eq_specs (h : Declares declared i) : i.types = declared.specs := by
  funext name
  have member := h name
  unfold VarlinkInterface.types Declarations.specs
  cases known : declared name with
  | none =>
    simp only [known] at member
    obtain ⟨e, error⟩ := member
    rw [error]
    rfl
  | some e =>
    simp only [known] at member
    obtain ⟨m, found, data⟩ := member
    rw [found]
    exact congrArg some data

structure Covers (t : TypeSpec) (e : TypeExpr) : Prop where
  type : t.type = e.toSpec.type
  array : e.toSpec.arrayType = true → t.arrayType = true
  dict : e.toSpec.dictType = true → t.dictType = true

theorem Covers.refl (e : TypeExpr) : Covers e.toSpec e := ⟨rfl, id, id⟩

theorem Covers.maybe {t : TypeSpec} {e : TypeExpr} (h : Covers t (.maybe e)) : Covers t e :=
  ⟨h.type, h.array, h.dict⟩

theorem Covers.ofArray {t : TypeSpec} {e : TypeExpr} (h : Covers t (.array e)) : Covers t e :=
  ⟨h.type, fun _ => h.array rfl, h.dict⟩

theorem Covers.ofDict {t : TypeSpec} {e : TypeExpr} (h : Covers t (.dict e)) : Covers t e :=
  ⟨h.type, h.array, fun _ => h.dict rfl⟩

theorem not_admits_null {t : TypeSpec} {collection : Bool} {v : Json}
    (h : Admits types t collection v) : v.isNull = false := by
  induction h with
  | enum | dict | array | struct => rfl
  | @primitive _ _ _ v _ _ _ primitive =>
    cases v <;> simp_all [isPrimitive, Json.isString, Json.isNumberInteger, Json.isNumber,
      Json.isBoolean, Json.isNull]
  | named _ _ _ _ _ _ ih => exact ih

theorem admits_array_iff {t : TypeSpec} {collection : Bool} {elements : List Json}
    (flag : t.arrayType = true) :
    Admits types t collection (.array elements) ↔ ∀ v ∈ elements, Admits types t true v :=
  admits_items_iff (captures_array flag)

theorem admits_dict_iff {t : TypeSpec} {collection : Bool} {members : Object}
    (flag : t.dictType = true) :
    Admits types t collection (.object members) ↔ ∀ p ∈ members, Admits types t true p.2 := by
  rw [admits_items_iff (captures_object flag)]
  exact List.forall_mem_map

theorem admits_named_iff {t : TypeSpec} {collection : Bool} {name : String} {v : Json}
    (type : t.type = .string name) (free : t.captures v = false)
    (bare : collection = true ∨ t.flagged = false) :
    Admits declared.specs t collection v ↔ isPrimitive v name = true ∨
      ∃ e, declared name = some e ∧ Admits declared.specs e.toSpec false v := by
  rw [admits_name_iff type free bare]
  refine or_congr_right ⟨?_, ?_⟩
  · rintro ⟨named, found, admits⟩
    obtain ⟨e, known, rfl⟩ := Option.map_eq_some_iff.mp found
    exact ⟨e, known, admits⟩
  · rintro ⟨e, known, admits⟩
    exact ⟨e.toSpec, by rw [Declarations.specs, known]; rfl, admits⟩

theorem admits_fields_iff {t : TypeSpec} {collection : Bool} {fields : List (String × TypeSpec)}
    {members : Object} (type : t.type = .struct fields)
    (free : t.captures (.object members) = false) :
    Admits types t collection (.object members) ↔
      (∀ f ∈ fields, ((Json.object members).member f.1).isNull = true → f.2.maybeType = true) ∧
        ∀ f ∈ fields, ((Json.object members).member f.1).isNull = false →
          Admits types f.2 false ((Json.object members).member f.1) := by
  rw [admits_struct_iff type free, ← forall₂_and]
  refine forall₂_congr fun f _ => ?_
  cases null : ((Json.object members).member f.1).isNull with
  | true => simp [fits_missing_iff null]
  | false => simp [fits_present_iff null]

theorem struct_of_admits {t : TypeSpec} {collection : Bool} {fields : List (String × TypeSpec)}
    {v : Json} (type : t.type = .struct fields) (free : t.captures v = false)
    (admits : Admits types t collection v) : ∃ members, v = .object members := by
  cases admits with
  | enum type' => cases type.symm.trans type'
  | dict => exact ⟨_, rfl⟩
  | array flag => simp [TypeSpec.captures, flag, Json.isArray] at free
  | primitive type' => cases type.symm.trans type'
  | named type' => cases type.symm.trans type'
  | struct => exact ⟨_, rfl⟩

theorem mem_fieldSpecs {fields : List (String × TypeExpr)} {f : String × TypeExpr}
    (member : f ∈ fields) : (f.1, f.2.toSpec) ∈ TypeExpr.toSpec.fieldSpecs fields := by
  rw [TypeExpr.fieldSpecs_eq_map]
  exact List.mem_map_of_mem (f := fun f => (f.1, f.2.toSpec)) member

theorem conforms_of_unfolds {t : TypeSpec} {e : TypeExpr} {v : Json}
    (unfolds : Unfolds declared t e v)
    {collection : Bool} (covers : Covers t e) (admits : Admits declared.specs t collection v) :
    Conforms declared e v := by
  induction unfolds generalizing collection with
  | null => exact .null
  | maybe _ _ ih => exact .maybe (ih covers.maybe admits)
  | array _ ih =>
    have all := (admits_array_iff (covers.array rfl)).mp admits
    exact .array fun v member => ih v member covers.ofArray (all v member)
  | dict _ ih =>
    have all := (admits_dict_iff (covers.dict rfl)).mp admits
    exact .dict fun p member => ih p member covers.ofDict (all p member)
  | captured _ _ conforms => exact conforms
  | @named t name v free _ ih =>
    cases primitive : isPrimitive v name with
    | true => exact .primitive primitive
    | false =>
      cases admits with
      | enum type => cases covers.type.symm.trans type
      | dict flag => simp [TypeSpec.captures, flag, Json.isObject] at free
      | array flag => simp [TypeSpec.captures, flag, Json.isArray] at free
      | struct type => cases covers.type.symm.trans type
      | primitive type _ _ contra =>
        cases covers.type.symm.trans type
        cases primitive.symm.trans contra
      | named type _ bare _ found admits =>
        cases covers.type.symm.trans type
        have admits' := (admits_named_iff covers.type free bare).mp
          (.named covers.type free bare primitive found admits)
        rcases admits' with contra | ⟨e, known, admits⟩
        · cases primitive.symm.trans contra
        · exact .named known (ih primitive e known (.refl e) admits)
  | enum free =>
    cases admits with
    | enum type member =>
      cases covers.type.symm.trans type
      exact .enum member
    | dict flag => simp [TypeSpec.captures, flag, Json.isObject] at free
    | array flag => simp [TypeSpec.captures, flag, Json.isArray] at free
    | primitive type => cases covers.type.symm.trans type
    | named type => cases covers.type.symm.trans type
    | struct type => cases covers.type.symm.trans type
  | struct free optional _ ih =>
    obtain ⟨members, rfl⟩ := struct_of_admits covers.type free admits
    obtain ⟨-, present⟩ := (admits_fields_iff covers.type free).mp admits
    refine .struct optional fun f member value => ?_
    exact ih f member value (.refl f.2) (present _ (mem_fieldSpecs member) value)

theorem unfolds_of_conforms {e : TypeExpr} {v : Json} (h : Conforms declared e v) (t : TypeSpec) :
    Unfolds declared t e v := by
  induction h generalizing t with
  | null => exact .null
  | @maybe e v conforms ih =>
    cases null : v.isNull with
    | false => exact .maybe null (ih t)
    | true =>
      cases v <;> simp [Json.isNull] at null
      exact .null
  | array _ ih => exact .array fun v member => ih v member t
  | dict _ ih => exact .dict fun p member => ih p member t
  | @primitive name v primitive =>
    cases captures : t.captures v with
    | true => exact .captured rfl captures (.primitive primitive)
    | false => exact .named captures fun other => by cases primitive.symm.trans other
  | @named name e v found conforms ih =>
    cases captures : t.captures v with
    | true => exact .captured rfl captures (.named found conforms)
    | false =>
      refine .named captures fun _ e' found' => ?_
      cases found.symm.trans found'
      exact ih e.toSpec
  | @enum values s member =>
    cases captures : t.captures (.string s) with
    | true => exact .captured rfl captures (.enum member)
    | false => exact .enum captures
  | @struct fields members optional present ih =>
    cases captures : t.captures (.object members) with
    | true => exact .captured rfl captures (.struct optional present)
    | false => exact .struct captures optional fun f member value => ih f member value f.2.toSpec

theorem maybeType_of_isMaybe {e : TypeExpr} (h : e.isMaybe = true) : e.toSpec.maybeType = true := by
  cases e with
  | maybe => rfl
  | _ => cases h

theorem bare_of_base {t : TypeSpec} {e : TypeExpr} {collection : Bool} (base : isBase e = true)
    (outside : collection = true ∨ t.flagged = e.toSpec.flagged) :
    collection = true ∨ t.flagged = false := by
  refine outside.imp_right fun same => same.trans ?_
  cases e with
  | maybe | array | dict => cases base
  | named | enum | struct => rfl

/-- What conforms and is unhindered is accepted. Inside of what is taken apart only the
leaves conform. -/
theorem admits_of_splits {t : TypeSpec} {e : TypeExpr} {v : Json}
    (splits : Splits declared t e v) {collection : Bool} (covers : Covers t e)
    (outside : collection = true ∨ t.flagged = e.toSpec.flagged)
    (place : Conforms declared e v ∨ isBase e = true ∧ t.captures v = true) :
    Admits declared.specs t collection v := by
  induction splits generalizing collection with
  | maybe value _ ih =>
    obtain conforms | ⟨⟨⟩, -⟩ := place
    refine ih covers.maybe outside (.inl ?_)
    cases conforms with
    | null => cases value
    | maybe conforms => exact conforms
  | array _ ih =>
    obtain conforms | ⟨⟨⟩, -⟩ := place
    cases conforms with
    | array all =>
      rw [admits_array_iff (covers.array rfl)]
      exact fun v member => ih v member covers.ofArray (.inl rfl) (.inl (all v member))
  | dict _ ih =>
    obtain conforms | ⟨⟨⟩, -⟩ := place
    cases conforms with
    | dict all =>
      rw [admits_dict_iff (covers.dict rfl)]
      exact fun p member => ih p member covers.ofDict (.inl rfl) (.inl (all p member))
  | @apart t e v base captures leaves _ ih =>
    rw [admits_items_iff captures]
    intro x member
    refine ih x member covers (.inl rfl) ?_
    cases inner : t.captures x with
    | false => exact .inl (leaves x member inner)
    | true => exact .inr ⟨base, rfl⟩
  | primitive free primitive =>
    exact .primitive covers.type free (bare_of_base rfl outside) primitive
  | @named t name e v free found _ ih =>
    obtain conforms | ⟨-, captures⟩ := place
    · refine (admits_named_iff covers.type free (bare_of_base rfl outside)).mpr ?_
      cases conforms with
      | primitive primitive => exact .inl primitive
      | named found' conforms =>
        cases found.symm.trans found'
        exact .inr ⟨e, found, ih (.refl e) (.inr rfl) (.inl conforms)⟩
    · cases free.symm.trans captures
  | enum free =>
    obtain conforms | ⟨-, captures⟩ := place
    · cases conforms with
      | enum member => exact .enum covers.type member
    · cases free.symm.trans captures
  | @struct t fields v free _ ih =>
    obtain conforms | ⟨-, captures⟩ := place
    · cases conforms with
      | struct optional present =>
        rw [admits_fields_iff covers.type free, TypeExpr.fieldSpecs_eq_map]
        simp only [List.forall_mem_map]
        refine ⟨fun f member null => maybeType_of_isMaybe (optional f member null), ?_⟩
        exact fun f member value =>
          ih f member value (.refl f.2) (.inr rfl) (.inl (present f member value))
    · cases free.symm.trans captures

theorem core_of_conforms {e : TypeExpr} {v : Json} (conforms : Conforms declared e v)
    (value : v.isNull = false) :
    ∃ core, core.isMaybe = false ∧ Conforms declared core v ∧
      ∀ t, (Covers t e → Covers t core) ∧
        (Splits declared t core v → Splits declared t e v) := by
  induction conforms with
  | null => cases value
  | maybe _ ih =>
    obtain ⟨core, plain, conforms, same⟩ := ih value
    exact ⟨core, plain, conforms, fun t =>
      ⟨fun covers => (same t).1 covers.maybe, fun h => .maybe value ((same t).2 h)⟩⟩
  | array all => exact ⟨_, rfl, .array all, fun _ => ⟨id, id⟩⟩
  | dict all => exact ⟨_, rfl, .dict all, fun _ => ⟨id, id⟩⟩
  | primitive primitive => exact ⟨_, rfl, .primitive primitive, fun _ => ⟨id, id⟩⟩
  | named found conforms => exact ⟨_, rfl, .named found conforms, fun _ => ⟨id, id⟩⟩
  | enum member => exact ⟨_, rfl, .enum member, fun _ => ⟨id, id⟩⟩
  | struct optional present => exact ⟨_, rfl, .struct optional present, fun _ => ⟨id, id⟩⟩

/-- No part of the value is accepted for a declared type without conforming to it. -/
def Firm (declared : Declarations) (v : Json) : Prop :=
  ∀ name e x, declared name = some e → Part x v → Admits declared.specs e.toSpec false x →
    Conforms declared e x

theorem Firm.item {v x : Json} (h : Firm declared v) (member : x ∈ v.items) : Firm declared x :=
  fun name e y known part admits => h name e y known (.item member part) admits

theorem mem_items_of_member {key : String} {v : Json} (value : (v.member key).isNull = false) :
    v.member key ∈ v.items := by
  unfold Json.member Json.find? at value ⊢
  cases v with
  | object members =>
    simp only at value ⊢
    cases found : members.lookup key with
    | none => simp [found, Json.isNull] at value
    | some u =>
      obtain ⟨before, after, rfl, -⟩ := List.lookup_eq_some_iff.mp found
      simp [Json.items]
  | _ => cases value

/-- The place of a base type that a flag captures, an object in the place of a struct. -/
structure Captured (t : TypeSpec) (e : TypeExpr) (v : Json) : Prop where
  base : isBase e = true
  captures : t.captures v = true
  struct : ∀ fields, e = .struct fields → t.dictType = true

theorem captured_of_conforms {t : TypeSpec} {e : TypeExpr} {v : Json} (base : isBase e = true)
    (captures : t.captures v = true) (conforms : Conforms declared e v) : Captured t e v := by
  refine ⟨base, captures, ?_⟩
  rintro fields rfl
  cases conforms with
  | struct => simpa [TypeSpec.captures, Json.isObject, Json.isArray] using captures

theorem conforms_of_leaf {t : TypeSpec} {e : TypeExpr} {v x : Json} (captured : Captured t e v)
    (covers : Covers t e) (free : t.captures x = false) (firm : Firm declared x)
    (admits : Admits declared.specs t true x) : Conforms declared e x := by
  cases e with
  | maybe | array | dict => cases captured.base
  | named name =>
    rcases (admits_named_iff covers.type free (.inl rfl)).mp admits with
      primitive | ⟨e, known, admits⟩
    · exact .primitive primitive
    · exact .named known (firm name e x known .refl admits)
  | enum values =>
    cases admits with
    | enum type member =>
      cases covers.type.symm.trans type
      exact .enum member
    | dict flag => cases (captures_object flag).symm.trans free
    | array flag => cases (captures_array flag).symm.trans free
    | primitive type | named type | struct type => cases covers.type.symm.trans type
  | struct fields =>
    obtain ⟨members, rfl⟩ := struct_of_admits covers.type free admits
    cases (captures_object (captured.struct fields rfl)).symm.trans free

theorem Captured.apart {t : TypeSpec} {e : TypeExpr} {v : Json} (captured : Captured t e v)
    (covers : Covers t e) (firm : Firm declared v)
    (admits : ∀ x ∈ v.items, Admits declared.specs t true x)
    (ih : ∀ x ∈ v.items, Conforms declared e x ∨ Captured t e x → Firm declared x →
      Splits declared t e x) : Splits declared t e v := by
  have leaves (x) (member : x ∈ v.items) (free : t.captures x = false) : Conforms declared e x :=
    conforms_of_leaf captured covers free (firm.item member) (admits x member)
  refine .apart captured.base captured.captures leaves fun x member => ?_
  refine ih x member ?_ (firm.item member)
  cases inner : t.captures x with
  | false => exact .inl (leaves x member inner)
  | true => exact .inr { captured with captures := inner }

/-- What is accepted is unhindered, as long as its parts are accepted for good reason. The
induction follows the run of `validate`, since what is captured is no part of a conforming
value that conforms itself. -/
theorem splits_of_admits {t : TypeSpec} {collection : Bool} {v : Json}
    (admits : Admits declared.specs t collection v) {e : TypeExpr} (covers : Covers t e)
    (place : Conforms declared e v ∨ Captured t e v) (firm : Firm declared v) :
    Splits declared t e v := by
  have value := not_admits_null admits
  -- a captured place first, and then the types without a `?` in front
  induction admits generalizing e with
  | enum type member =>
    rcases place with conforms | captured
    · obtain ⟨core, plain, conforms, same⟩ := core_of_conforms conforms value
      refine (same _).2 ?_
      cases conforms with
      | maybe => cases plain
      | enum => exact .enum (by simp [TypeSpec.captures, Json.isObject, Json.isArray])
      | primitive | named => cases ((same _).1 covers).type.symm.trans type
    · have captures := captured.captures
      simp [TypeSpec.captures, Json.isObject, Json.isArray] at captures
  | @dict t collection members flag all ih =>
    have items : ∀ x ∈ (Json.object members).items, Admits declared.specs t true x := by
      intro x member
      obtain ⟨p, among, rfl⟩ := List.mem_map.mp member
      exact all p among
    have inner : ∀ x ∈ (Json.object members).items, ∀ {e}, Covers t e →
        Conforms declared e x ∨ Captured t e x → Firm declared x → Splits declared t e x := by
      intro x member e covers place firm
      obtain ⟨p, among, rfl⟩ := List.mem_map.mp member
      exact ih p among covers place firm (not_admits_null (all p among))
    rcases place with conforms | captured
    · obtain ⟨core, plain, conforms, same⟩ := core_of_conforms conforms value
      obtain ⟨covered, back⟩ := same t
      have covers := covered covers
      refine back ?_
      cases base : isBase core with
      | true =>
        exact (captured_of_conforms base (captures_object flag) conforms).apart covers firm items
          fun x member => inner x member covers
      | false =>
        cases conforms with
        | maybe => cases plain
        | primitive | named | struct => cases base
        | dict within =>
          refine .dict fun p member => ?_
          have among := List.mem_map_of_mem (f := Prod.snd) member
          exact inner _ among covers.ofDict (.inl (within p member)) (firm.item among)
    · exact captured.apart covers firm items fun x member => inner x member covers
  | @array t collection elements flag all ih =>
    have inner : ∀ x ∈ (Json.array elements).items, ∀ {e}, Covers t e →
        Conforms declared e x ∨ Captured t e x → Firm declared x → Splits declared t e x :=
      fun x member _ covers place firm =>
        ih x member covers place firm (not_admits_null (all x member))
    rcases place with conforms | captured
    · obtain ⟨core, plain, conforms, same⟩ := core_of_conforms conforms value
      obtain ⟨covered, back⟩ := same t
      have covers := covered covers
      refine back ?_
      cases base : isBase core with
      | true =>
        exact (captured_of_conforms base (captures_array flag) conforms).apart covers firm all
          fun x member => inner x member covers
      | false =>
        cases conforms with
        | maybe => cases plain
        | primitive | named => cases base
        | array within =>
          exact .array fun x member => inner x member covers.ofArray (.inl (within x member))
            (firm.item member)
    · exact captured.apart covers firm all fun x member => inner x member covers
  | @primitive t collection name v type free bare primitive =>
    rcases place with conforms | captured
    · obtain ⟨core, plain, conforms, same⟩ := core_of_conforms conforms value
      obtain ⟨covered, back⟩ := same t
      have covers := covered covers
      refine back ?_
      cases conforms with
      | null | maybe => cases plain
      | array => cases (captures_array (covers.array rfl)).symm.trans free
      | dict => cases (captures_object (covers.dict rfl)).symm.trans free
      | primitive | named =>
        cases covers.type.symm.trans type
        exact .primitive free primitive
      | enum | struct => cases covers.type.symm.trans type
    · cases free.symm.trans captured.captures
  | @named t named collection name v type free bare other found _ ih =>
    rcases place with conforms | captured
    · obtain ⟨core, plain, conforms, same⟩ := core_of_conforms conforms value
      obtain ⟨covered, back⟩ := same t
      have covers := covered covers
      refine back ?_
      cases conforms with
      | null | maybe => cases plain
      | array => cases (captures_array (covers.array rfl)).symm.trans free
      | dict => cases (captures_object (covers.dict rfl)).symm.trans free
      | primitive primitive =>
        cases covers.type.symm.trans type
        cases other.symm.trans primitive
      | named known conforms =>
        cases covers.type.symm.trans type
        simp only [Declarations.specs, known, Option.map_some, Option.some.injEq] at found
        subst found
        exact .named free known (ih (.refl _) (.inl conforms) firm value)
      | enum | struct => cases covers.type.symm.trans type
    · cases free.symm.trans captured.captures
  | @struct t collection fields members type free optional present ih =>
    rcases place with conforms | captured
    · obtain ⟨core, plain, conforms, same⟩ := core_of_conforms conforms value
      obtain ⟨covered, back⟩ := same t
      have covers := covered covers
      refine back ?_
      cases conforms with
      | maybe => cases plain
      | dict => cases (captures_object (covers.dict rfl)).symm.trans free
      | primitive | named => cases covers.type.symm.trans type
      | @struct declaredFields _ _ within =>
        refine .struct free fun f member value => ?_
        have spec : (f.1, f.2.toSpec) ∈ fields := by
          cases covers.type.symm.trans type
          exact mem_fieldSpecs member
        exact ih _ spec value (.refl f.2) (.inl (within f member value))
          (firm.item (mem_items_of_member value)) value
    · cases free.symm.trans captured.captures

end Varlink.Collections
