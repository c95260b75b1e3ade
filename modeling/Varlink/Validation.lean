import Varlink.Interface

/-! What `validate` accepts, as a judgement without a stack: the derivations of
`Admits` are the runs of `validate` that end without an exception. -/

namespace Varlink

variable {dump : Dump} {i : VarlinkInterface}

/-- The value is an object or an array that a flag of the specification captures. -/
def TypeSpec.captures (t : TypeSpec) (v : Json) : Bool :=
  t.dictType && v.isObject || t.arrayType && v.isArray

def TypeSpec.flagged (t : TypeSpec) : Bool := t.arrayType || t.dictType

def VarlinkInterface.types (i : VarlinkInterface) (name : String) : Option TypeSpec :=
  match i.type name with
  | .ok m => some m.data
  | .error _ => none

inductive Admits (types : String → Option TypeSpec) : TypeSpec → Bool → Json → Prop where
  | enum {t : TypeSpec} {collection : Bool} {values : List String} {s : String}
      (type : t.type = .enum values) (member : s ∈ values) : Admits types t collection (.string s)
  | dict {t : TypeSpec} {collection : Bool} {members : Object} (flag : t.dictType = true)
      (all : ∀ p ∈ members, Admits types t true p.2) : Admits types t collection (.object members)
  | array {t : TypeSpec} {collection : Bool} {elements : List Json} (flag : t.arrayType = true)
      (all : ∀ v ∈ elements, Admits types t true v) : Admits types t collection (.array elements)
  | primitive {t : TypeSpec} {collection : Bool} {name : String} {v : Json}
      (type : t.type = .string name) (free : t.captures v = false)
      (bare : collection = true ∨ t.flagged = false) (primitive : isPrimitive v name = true) :
      Admits types t collection v
  | named {t named : TypeSpec} {collection : Bool} {name : String} {v : Json}
      (type : t.type = .string name) (free : t.captures v = false)
      (bare : collection = true ∨ t.flagged = false) (other : isPrimitive v name = false)
      (found : types name = some named) (admits : Admits types named false v) :
      Admits types t collection v
  | struct {t : TypeSpec} {collection : Bool} {fields : List (String × TypeSpec)}
      {members : Object} (type : t.type = .struct fields)
      (free : t.captures (.object members) = false)
      (optional : ∀ f ∈ fields, ((Json.object members).member f.1).isNull = true →
        f.2.maybeType = true)
      (present : ∀ f ∈ fields, ((Json.object members).member f.1).isNull = false →
        Admits types f.2 false ((Json.object members).member f.1)) :
      Admits types t collection (.object members)

theorem forAll_eq_ok_iff {α : Type} {xs : List α} {check : α → Except Stop Unit} :
    forAll xs check = .ok () ↔ ∀ x ∈ xs, check x = .ok () := by
  induction xs with
  | nil => simp [forAll]
  | cons x rest ih =>
    rw [forAll, List.forall_mem_cons]
    cases head : check x with
    | error e => simp
    | ok u => simpa using ih

theorem throwInvalidData_ne_ok (data : Json) : throwInvalidData dump data ≠ .ok () := by
  unfold throwInvalidData throwInvalidParameter
  cases dump data <;> nofun

theorem throwInvalidParameter_ne_ok (name : String) : throwInvalidParameter name ≠ .ok () := nofun

theorem Json.contains_or_isNull (v : Json) (key : String) :
    (!v.contains key || (v.member key).isNull) = (v.member key).isNull := by
  unfold Json.contains Json.member
  cases v.find? key <;> rfl

theorem of_types {name : String} {t : TypeSpec} (h : i.types name = some t) :
    ∃ m, i.type name = .ok m ∧ m.data = t := by
  unfold VarlinkInterface.types at h
  cases found : i.type name with
  | error e => simp [found] at h
  | ok m => exact ⟨m, rfl, by simpa [found] using h⟩

/-- The branch for a name: a primitive type, or the data of the type member. -/
def validateName (dump : Dump) (i : VarlinkInterface) (stack : Nat) (v : Json)
    (type name : String) : Except Stop Unit :=
  if isPrimitive v type then .ok ()
  else match i.type type with
    | .error _ => throwInvalidParameter name
    | .ok m =>
      match validate dump i stack v m.data name false with
      | .error (.thrown (.outOfRange _)) => throwInvalidParameter name
      | result => result

def validateField (dump : Dump) (i : VarlinkInterface) (stack : Nat) (members : Object)
    (param : String × TypeSpec) : Except Stop Unit :=
  if ((Json.object members).member param.1).isNull then
    if !param.2.maybeType then throwInvalidParameter param.1 else .ok ()
  else validate dump i stack ((Json.object members).member param.1) param.2 param.1 false

inductive Branch (t : TypeSpec) (collection : Bool) : Json → Prop where
  | enum {values : List String} {s : String} (type : t.type = .enum values) :
      Branch t collection (.string s)
  | items {v : Json} (captured : t.captures v = true) : Branch t collection v
  | name {v : Json} {type : String} (type_ : t.type = .string type) (free : t.captures v = false)
      (bare : collection = true ∨ t.flagged = false) : Branch t collection v
  | struct {members : Object} {fields : List (String × TypeSpec)} (type : t.type = .struct fields)
      (free : t.captures (.object members) = false) : Branch t collection (.object members)
  | kind {v : Json} (enum : t.isEnum = true → v.isString = false) (free : t.captures v = false)
      (string : t.isString = true → collection = false ∧ t.flagged = true)
      (struct : t.isStruct = true → v.isObject = false) : Branch t collection v

theorem branch_total (t : TypeSpec) (collection : Bool) (v : Json) : Branch t collection v := by
  cases captured : t.captures v with
  | true => exact .items captured
  | false =>
    by_cases kind : (t.isEnum = true → v.isString = false) ∧
        (t.isString = true → collection = false ∧ t.flagged = true) ∧
        (t.isStruct = true → v.isObject = false)
    · exact .kind kind.1 captured kind.2.1 kind.2.2
    cases type : t.type with
    | invalid =>
      exact absurd (by simp [TypeSpec.isEnum, TypeSpec.isString, TypeSpec.isStruct, type]) kind
    | enum values =>
      have isString : v.isString = true := by
        simpa [TypeSpec.isEnum, TypeSpec.isString, TypeSpec.isStruct, type] using kind
      obtain ⟨s, rfl⟩ := Json.isString_iff.mp isString
      exact .enum type
    | string typeName =>
      refine .name type captured ?_
      simpa [TypeSpec.isEnum, TypeSpec.isString, TypeSpec.isStruct, type, or_iff_not_imp_left]
        using kind
    | struct fields =>
      have isObject : v.isObject = true := by
        simpa [TypeSpec.isEnum, TypeSpec.isString, TypeSpec.isStruct, type] using kind
      obtain ⟨members, rfl⟩ := Json.isObject_iff.mp isObject
      exact .struct type captured

section Branches
variable {stack : Nat} {t : TypeSpec} {name : String} {collection : Bool}

theorem validate_enum {values : List String} {s : String} (type : t.type = .enum values) :
    validate dump i (stack + 1) (.string s) t name collection =
      if values.contains s then .ok () else throwInvalidData dump (.string s) := by
  simp [validate, TypeSpec.isEnum, type, Json.isString, TypeSpec.getEnum_of_type type,
    Json.getString]

theorem validate_items {v : Json} (captured : t.captures v = true) :
    validate dump i (stack + 1) v t name collection =
      forAll v.items fun val => validate dump i stack val t name true := by
  rcases Bool.or_eq_true_iff.mp captured with dict | array
  · obtain ⟨flag, isObject⟩ := Bool.and_eq_true_iff.mp dict
    obtain ⟨members, rfl⟩ := Json.isObject_iff.mp isObject
    simp [validate, Json.isString, Json.isObject, flag]
  · obtain ⟨flag, isArray⟩ := Bool.and_eq_true_iff.mp array
    obtain ⟨elements, rfl⟩ := Json.isArray_iff.mp isArray
    simp [validate, Json.isString, Json.isObject, Json.isArray, flag]

theorem validate_name {v : Json} {type : String} (type_ : t.type = .string type)
    (free : t.captures v = false) (bare : collection = true ∨ t.flagged = false) :
    validate dump i (stack + 1) v t name collection = validateName dump i stack v type name := by
  obtain ⟨notDict, notArray⟩ := Bool.or_eq_false_iff.mp free
  have notEnum : t.isEnum = false := by simp only [TypeSpec.isEnum, type_]
  have string : t.isString = true := TypeSpec.isString_iff.mpr ⟨type, type_⟩
  have open_ : (collection || !(t.arrayType || t.dictType)) = true := by
    rcases bare with rfl | bare
    · rfl
    · simp only [TypeSpec.flagged] at bare
      simp [bare]
  simp only [validate, notEnum, Bool.false_and, Bool.false_eq_true, if_false, notDict, notArray,
    string, open_, Bool.and_self, if_true, TypeSpec.getString_of_type type_]
  rfl

theorem validate_struct {members : Object} {fields : List (String × TypeSpec)}
    (type : t.type = .struct fields) (free : t.captures (.object members) = false) :
    validate dump i (stack + 1) (.object members) t name collection =
      forAll fields (validateField dump i stack members) := by
  obtain ⟨notDict, -⟩ := Bool.or_eq_false_iff.mp free
  simp only [Json.isObject, Bool.and_true] at notDict
  have notEnum : t.isEnum = false := by simp only [TypeSpec.isEnum, type]
  have notString : t.isString = false := by simp only [TypeSpec.isString, type]
  have struct : t.isStruct = true := TypeSpec.isStruct_iff.mpr ⟨fields, type⟩
  simp only [validate, notEnum, Bool.false_and, Bool.false_eq_true, if_false, notDict, notString,
    struct, Json.isObject, Json.isArray, Bool.and_false, Bool.and_self, if_true,
    TypeSpec.getStruct_of_type type, Json.contains_or_isNull]
  rfl

theorem validate_kind {v : Json} (enum : t.isEnum = true → v.isString = false)
    (free : t.captures v = false)
    (string : t.isString = true → collection = false ∧ t.flagged = true)
    (struct : t.isStruct = true → v.isObject = false) :
    validate dump i (stack + 1) v t name collection = throwInvalidData dump v := by
  obtain ⟨notDict, notArray⟩ := Bool.or_eq_false_iff.mp free
  have notEnum : ¬(t.isEnum && v.isString) = true := by simpa using enum
  have notString : ¬(t.isString && (collection || !(t.arrayType || t.dictType))) = true := by
    change ¬(t.isString && (collection || !t.flagged)) = true
    simpa using string
  have notStruct : ¬(t.isStruct && v.isObject) = true := by simpa using struct
  rw [validate, if_neg notEnum, notDict, notArray, if_neg notString, if_neg notStruct]
  rfl

end Branches

def Fits (types : String → Option TypeSpec) (members : Object) (f : String × TypeSpec) : Prop :=
  if ((Json.object members).member f.1).isNull then f.2.maybeType = true
  else Admits types f.2 false ((Json.object members).member f.1)

section Admitted
variable {types : String → Option TypeSpec} {t : TypeSpec} {collection : Bool}

theorem fits_missing_iff {members : Object} {f : String × TypeSpec}
    (null : ((Json.object members).member f.1).isNull = true) :
    Fits types members f ↔ f.2.maybeType = true := by
  rw [Fits, if_pos null]

theorem fits_present_iff {members : Object} {f : String × TypeSpec}
    (present : ((Json.object members).member f.1).isNull = false) :
    Fits types members f ↔ Admits types f.2 false ((Json.object members).member f.1) := by
  rw [Fits, present, if_neg Bool.false_ne_true]

theorem admits_items_iff {v : Json} (captured : t.captures v = true) :
    Admits types t collection v ↔ ∀ x ∈ v.items, Admits types t true x := by
  constructor
  · intro admits
    cases admits with
    | enum => simp [TypeSpec.captures, Json.isObject, Json.isArray] at captured
    | dict flag all =>
      intro x member
      obtain ⟨p, among, rfl⟩ := List.mem_map.mp member
      exact all p among
    | array flag all => exact all
    | primitive _ free => cases free.symm.trans captured
    | named _ free => cases free.symm.trans captured
    | struct _ free => cases free.symm.trans captured
  · intro all
    rcases Bool.or_eq_true_iff.mp captured with dict | array
    · obtain ⟨flag, isObject⟩ := Bool.and_eq_true_iff.mp dict
      obtain ⟨members, rfl⟩ := Json.isObject_iff.mp isObject
      exact .dict flag fun p member => all p.2 (List.mem_map_of_mem member)
    · obtain ⟨flag, isArray⟩ := Bool.and_eq_true_iff.mp array
      obtain ⟨elements, rfl⟩ := Json.isArray_iff.mp isArray
      exact .array flag all

theorem admits_name_iff {name : String} {v : Json} (type : t.type = .string name)
    (free : t.captures v = false) (bare : collection = true ∨ t.flagged = false) :
    Admits types t collection v ↔ isPrimitive v name = true ∨
      ∃ named, types name = some named ∧ Admits types named false v := by
  constructor
  · intro admits
    cases admits with
    | enum type' => cases type.symm.trans type'
    | dict flag => simp [TypeSpec.captures, flag, Json.isObject] at free
    | array flag => simp [TypeSpec.captures, flag, Json.isArray] at free
    | struct type' => cases type.symm.trans type'
    | primitive type' _ _ primitive =>
      cases type.symm.trans type'
      exact .inl primitive
    | named type' _ _ _ found admits =>
      cases type.symm.trans type'
      exact .inr ⟨_, found, admits⟩
  · cases primitive : isPrimitive v name with
    | true => exact fun _ => .primitive type free bare primitive
    | false =>
      rintro (contra | ⟨named, found, admits⟩)
      · cases contra
      · exact .named type free bare primitive found admits

theorem admits_struct_iff {fields : List (String × TypeSpec)} {members : Object}
    (type : t.type = .struct fields) (free : t.captures (.object members) = false) :
    Admits types t collection (.object members) ↔ ∀ f ∈ fields, Fits types members f := by
  constructor
  · intro admits f member
    cases admits with
    | dict flag => simp [TypeSpec.captures, flag, Json.isObject] at free
    | primitive type' | named type' => cases type.symm.trans type'
    | struct type' _ optional present =>
      cases type.symm.trans type'
      cases null : ((Json.object members).member f.1).isNull with
      | true => exact (fits_missing_iff null).mpr (optional f member null)
      | false => exact (fits_present_iff null).mpr (present f member null)
  · intro fits
    exact .struct type free (fun f member null => (fits_missing_iff null).mp (fits f member))
      fun f member present => (fits_present_iff present).mp (fits f member)

end Admitted

theorem admits_of_validateName {stack : Nat} {v : Json} {type name : String}
    (ih : ∀ {t}, validate dump i stack v t name false = .ok () → Admits i.types t false v)
    (h : validateName dump i stack v type name = .ok ()) :
    isPrimitive v type = true ∨
      ∃ named, i.types type = some named ∧ Admits i.types named false v := by
  unfold validateName at h
  split at h
  · exact .inl ‹_›
  · cases found : i.type type with
    | error e => simp only [found] at h; exact absurd h (throwInvalidParameter_ne_ok name)
    | ok m =>
      simp only [found] at h
      split at h
      · exact absurd h (throwInvalidParameter_ne_ok name)
      · exact .inr ⟨m.data, by simp only [VarlinkInterface.types, found], ih h⟩

theorem fits_of_validateField {stack : Nat} {members : Object} {param : String × TypeSpec}
    (ih : ∀ {v t name}, validate dump i stack v t name false = .ok () → Admits i.types t false v)
    (h : validateField dump i stack members param = .ok ()) : Fits i.types members param := by
  unfold validateField at h
  split at h
  · next null =>
    refine (fits_missing_iff null).mpr ?_
    cases optional : param.2.maybeType with
    | true => rfl
    | false => simp [optional, throwInvalidParameter] at h
  · next present => exact (fits_present_iff (Bool.eq_false_iff.mpr present)).mpr (ih h)

theorem admits_of_validate {stack : Nat} {v : Json} {t : TypeSpec} {name : String}
    {collection : Bool} (h : validate dump i stack v t name collection = .ok ()) :
    Admits i.types t collection v := by
  induction stack generalizing v t name collection with
  | zero => cases h
  | succ stack ih =>
    cases branch_total t collection v with
    | enum type =>
      rw [validate_enum type] at h
      split at h
      · next listed => exact .enum type (by simpa using listed)
      · exact absurd h (throwInvalidData_ne_ok _)
    | items captured =>
      rw [validate_items captured, forAll_eq_ok_iff] at h
      exact (admits_items_iff captured).mpr fun x member => ih (h x member)
    | name type free bare =>
      rw [validate_name type free bare] at h
      exact (admits_name_iff type free bare).mpr (admits_of_validateName ih h)
    | struct type free =>
      rw [validate_struct type free, forAll_eq_ok_iff] at h
      exact (admits_struct_iff type free).mpr fun f member => fits_of_validateField ih (h f member)
    | kind enum free string struct =>
      rw [validate_kind enum free string struct] at h
      exact absurd h (throwInvalidData_ne_ok v)

theorem captures_object {t : TypeSpec} {members : Object} (flag : t.dictType = true) :
    t.captures (.object members) = true := by
  simp [TypeSpec.captures, Json.isObject, flag]

theorem captures_array {t : TypeSpec} {elements : List Json} (flag : t.arrayType = true) :
    t.captures (.array elements) = true := by
  simp [TypeSpec.captures, Json.isArray, flag]

theorem validate_of_admits {t : TypeSpec} {collection : Bool} {v : Json}
    (h : Admits i.types t collection v) :
    ∃ n, ∀ stack, n ≤ stack →
      ∀ name, validate dump i (stack + 1) v t name collection = .ok () := by
  -- a bound for the parts of the value is one less than a bound for the value
  have below {n stack : Nat} (le : n + 1 ≤ stack) : ∃ k, stack = k + 1 ∧ n ≤ k :=
    ⟨stack - 1, by omega, by omega⟩
  induction h with
  | enum type member =>
    refine ⟨0, fun stack _ name => ?_⟩
    rw [validate_enum type, if_pos (by simpa using member)]
  | dict flag all ih =>
    obtain ⟨n, all⟩ := eventually_forall ih
    refine ⟨n + 1, fun stack le name => ?_⟩
    obtain ⟨stack, rfl, deep⟩ := below le
    rw [validate_items (captures_object flag), forAll_eq_ok_iff]
    intro x member
    obtain ⟨p, among, rfl⟩ := List.mem_map.mp member
    exact all stack deep p among name
  | array flag all ih =>
    obtain ⟨n, all⟩ := eventually_forall ih
    refine ⟨n + 1, fun stack le name => ?_⟩
    obtain ⟨stack, rfl, deep⟩ := below le
    rw [validate_items (captures_array flag), forAll_eq_ok_iff]
    exact fun x member => all stack deep x member name
  | primitive type free bare primitive =>
    refine ⟨0, fun stack _ name => ?_⟩
    rw [validate_name type free bare, validateName, if_pos primitive]
  | named type free bare other known admits ih =>
    obtain ⟨m, found, rfl⟩ := of_types known
    obtain ⟨n, accepts⟩ := ih
    refine ⟨n + 1, fun stack le name => ?_⟩
    obtain ⟨stack, rfl, deep⟩ := below le
    simp only [validate_name type free bare, validateName, other, Bool.false_eq_true, if_false,
      found, accepts stack deep name]
  | @struct t collection fields members type free optional present ih =>
    have bounded : ∀ f ∈ fields, ∃ n, ∀ stack, n ≤ stack →
        (((Json.object members).member f.1).isNull = false → ∀ name, validate dump i (stack + 1)
          ((Json.object members).member f.1) f.2 name false = .ok ()) := by
      intro f member
      cases null : ((Json.object members).member f.1).isNull with
      | true => exact ⟨0, fun _ _ => nofun⟩
      | false =>
        obtain ⟨n, accepts⟩ := ih f member null
        exact ⟨n, fun stack le _ => accepts stack le⟩
    obtain ⟨n, all⟩ := eventually_forall bounded
    refine ⟨n + 1, fun stack le name => ?_⟩
    obtain ⟨stack, rfl, deep⟩ := below le
    rw [validate_struct type free, forAll_eq_ok_iff]
    intro f member
    unfold validateField
    cases null : ((Json.object members).member f.1).isNull with
    | true => simp [optional f member null]
    | false =>
      simp only [Bool.false_eq_true, if_false]
      exact all stack deep f member null f.1

def Accepts (dump : Dump) (i : VarlinkInterface) (t : TypeSpec) (v : Json) : Prop :=
  ∃ stack, ∀ name, validate dump i stack v t name false = .ok ()

theorem accepts_iff_admits {t : TypeSpec} {v : Json} :
    Accepts dump i t v ↔ Admits i.types t false v := by
  constructor
  · rintro ⟨stack, accepted⟩
    exact admits_of_validate (accepted "")
  · intro admits
    obtain ⟨n, accepts⟩ := validate_of_admits admits
    exact ⟨n + 1, accepts n (Nat.le_refl n)⟩

end Varlink
