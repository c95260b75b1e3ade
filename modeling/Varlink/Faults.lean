import Varlink.ErrorReplies

/-! The place that `validate` rejects first. Its exception is made of the name of the field
or of the value there, whichever the throw site takes. -/

namespace Varlink.ParameterNames

inductive Fault where
  | field (name : String)
  | data (v : Json)

def Fault.check (dump : Dump) : Fault → Except Stop Unit
  | .field name => throwInvalidParameter name
  | .data v => throwInvalidData dump v

/-- The first place that `validate` rejects, in the order in which it visits them. -/
inductive Faults (types : String → Option TypeSpec) :
    TypeSpec → Bool → String → Json → Fault → Prop where
  | unlisted {t : TypeSpec} {collection : Bool} {name : String} {values : List String} {s : String}
      (type : t.type = .enum values) (other : s ∉ values) :
      Faults types t collection name (.string s) (.data (.string s))
  | item {t : TypeSpec} {collection : Bool} {name : String} {v x : Json} {before after : List Json}
      {f : Fault} (captured : t.captures v = true) (split : v.items = before ++ x :: after)
      (admitted : ∀ y ∈ before, Admits types t true y) (fault : Faults types t true name x f) :
      Faults types t collection name v f
  | unknown {t : TypeSpec} {collection : Bool} {name type : String} {v : Json}
      (type_ : t.type = .string type) (free : t.captures v = false)
      (bare : collection = true ∨ t.flagged = false) (other : isPrimitive v type = false)
      (absent : types type = none) : Faults types t collection name v (.field name)
  | named {t named : TypeSpec} {collection : Bool} {name type : String} {v : Json} {f : Fault}
      (type_ : t.type = .string type) (free : t.captures v = false)
      (bare : collection = true ∨ t.flagged = false) (other : isPrimitive v type = false)
      (found : types type = some named) (fault : Faults types named false name v f) :
      Faults types t collection name v f
  | missing {t : TypeSpec} {collection : Bool} {name : String} {members : Object}
      {fields before after : List (String × TypeSpec)} {field : String × TypeSpec}
      (type : t.type = .struct fields) (free : t.captures (.object members) = false)
      (split : fields = before ++ field :: after) (fit : ∀ g ∈ before, Fits types members g)
      (null : ((Json.object members).member field.1).isNull = true)
      (required : field.2.maybeType = false) :
      Faults types t collection name (.object members) (.field field.1)
  | inside {t : TypeSpec} {collection : Bool} {name : String} {members : Object}
      {fields before after : List (String × TypeSpec)} {field : String × TypeSpec} {f : Fault}
      (type : t.type = .struct fields) (free : t.captures (.object members) = false)
      (split : fields = before ++ field :: after) (fit : ∀ g ∈ before, Fits types members g)
      (present : ((Json.object members).member field.1).isNull = false)
      (fault : Faults types field.2 false field.1 ((Json.object members).member field.1) f) :
      Faults types t collection name (.object members) f
  | kind {t : TypeSpec} {collection : Bool} {name : String} {v : Json}
      (enum : t.isEnum = true → v.isString = false) (free : t.captures v = false)
      (string : t.isString = true → collection = false ∧ t.flagged = true)
      (struct : t.isStruct = true → v.isObject = false) : Faults types t collection name v (.data v)

section Places
variable {types : String → Option TypeSpec} {t : TypeSpec} {collection : Bool} {name : String}
variable {v : Json} {f g : Fault}

theorem not_bare_of_kind (string : t.isString = true → collection = false ∧ t.flagged = true)
    {type : String} (type_ : t.type = .string type) :
    ¬(collection = true ∨ t.flagged = false) := by
  obtain ⟨element, flagged⟩ := string (TypeSpec.isString_iff.mpr ⟨_, type_⟩)
  simp [element, flagged]

theorem Faults.not_admits (h : Faults types t collection name v f) :
    ¬Admits types t collection v := by
  induction h with
  | unlisted type other =>
    intro admits
    cases admits with
    | enum type' member =>
      cases type.symm.trans type'
      exact other member
    | primitive type' | named type' => cases type.symm.trans type'
  | item captured split _ _ ih =>
    rw [admits_items_iff captured, split]
    exact fun all => ih (all _ (List.mem_append_right _ List.mem_cons_self))
  | unknown type free bare other absent =>
    rw [admits_name_iff type free bare]
    rintro (primitive | ⟨named, found, -⟩)
    · cases other.symm.trans primitive
    · cases absent.symm.trans found
  | named type free bare other found _ ih =>
    rw [admits_name_iff type free bare]
    rintro (primitive | ⟨named, found', admits⟩)
    · cases other.symm.trans primitive
    · cases found.symm.trans found'
      exact ih admits
  | missing type free split fit null required =>
    rw [admits_struct_iff type free, split]
    intro fits
    have optional := fits _ (List.mem_append_right _ List.mem_cons_self)
    cases required.symm.trans ((fits_missing_iff null).mp optional)
  | inside type free split fit present _ ih =>
    rw [admits_struct_iff type free, split]
    intro fits
    have field := fits _ (List.mem_append_right _ List.mem_cons_self)
    exact ih ((fits_present_iff present).mp field)
  | kind enum free string struct =>
    intro admits
    cases admits with
    | enum type => cases enum (TypeSpec.isEnum_iff.mpr ⟨_, type⟩)
    | dict flag => cases (captures_object flag).symm.trans free
    | array flag => cases (captures_array flag).symm.trans free
    | primitive type _ bare | named type _ bare => exact not_bare_of_kind string type bare
    | struct type => cases struct (TypeSpec.isStruct_iff.mpr ⟨_, type⟩)

theorem not_fits_of_required {members : Object} {field : String × TypeSpec}
    (null : ((Json.object members).member field.1).isNull = true)
    (required : field.2.maybeType = false) : ¬Fits types members field := by
  rw [fits_missing_iff null, required]
  exact Bool.false_ne_true

theorem Faults.not_fits {members : Object} {field : String × TypeSpec}
    (present : ((Json.object members).member field.1).isNull = false)
    (h : Faults types field.2 false field.1 ((Json.object members).member field.1) f) :
    ¬Fits types members field :=
  mt (fits_present_iff present).mp h.not_admits

theorem Faults.of_items (captured : t.captures v = true) (h : Faults types t collection name v f) :
    ∃ before x after, v.items = before ++ x :: after ∧ (∀ y ∈ before, Admits types t true y) ∧
      Faults types t true name x f := by
  cases h with
  | unlisted => simp [TypeSpec.captures, Json.isObject, Json.isArray] at captured
  | item _ split admitted fault => exact ⟨_, _, _, split, admitted, fault⟩
  | unknown _ free | named _ free | missing _ free | inside _ free | kind _ free =>
    cases free.symm.trans captured

theorem Faults.of_name {type : String} (type_ : t.type = .string type)
    (free : t.captures v = false) (bare : collection = true ∨ t.flagged = false)
    (h : Faults types t collection name v f) :
    isPrimitive v type = false ∧ (types type = none ∧ f = .field name ∨
      ∃ named, types type = some named ∧ Faults types named false name v f) := by
  cases h with
  | unlisted type' | missing type' | inside type' => cases type_.symm.trans type'
  | item captured => cases free.symm.trans captured
  | unknown type' _ _ other absent =>
    cases type_.symm.trans type'
    exact ⟨other, .inl ⟨absent, rfl⟩⟩
  | named type' _ _ other found fault =>
    cases type_.symm.trans type'
    exact ⟨other, .inr ⟨_, found, fault⟩⟩
  | kind _ _ string => cases not_bare_of_kind string type_ bare

theorem Faults.of_struct {fields : List (String × TypeSpec)} {members : Object}
    (type : t.type = .struct fields) (free : t.captures (.object members) = false)
    (h : Faults types t collection name (.object members) f) :
    ∃ before field after, fields = before ++ field :: after ∧
      (∀ g ∈ before, Fits types members g) ∧ ¬Fits types members field ∧
      (((Json.object members).member field.1).isNull = true ∧ f = .field field.1 ∨
        ((Json.object members).member field.1).isNull = false ∧
          Faults types field.2 false field.1 ((Json.object members).member field.1) f) := by
  cases h with
  | item captured => cases free.symm.trans captured
  | unknown type' | named type' => cases type.symm.trans type'
  | missing type' _ split fit null required =>
    cases type.symm.trans type'
    exact ⟨_, _, _, split, fit, not_fits_of_required null required, .inl ⟨null, rfl⟩⟩
  | inside type' _ split fit present fault =>
    cases type.symm.trans type'
    exact ⟨_, _, _, split, fit, fault.not_fits present, .inr ⟨present, fault⟩⟩
  | kind _ _ _ struct => cases struct (TypeSpec.isStruct_iff.mpr ⟨fields, type⟩)

theorem first_unique {α : Type} {P : α → Prop} {before before' after after' : List α} {x x' : α}
    (split : before ++ x :: after = before' ++ x' :: after') (all : ∀ y ∈ before, P y)
    (fails : ¬P x) (all' : ∀ y ∈ before', P y) (fails' : ¬P x') : x = x' := by
  induction before generalizing before' with
  | nil =>
    cases before' with
    | nil => exact (List.cons.inj split).1
    | cons y rest =>
      obtain ⟨rfl, -⟩ := List.cons.inj split
      exact absurd (all' _ List.mem_cons_self) fails
  | cons y rest ih =>
    cases before' with
    | nil =>
      obtain ⟨rfl, -⟩ := List.cons.inj split
      exact absurd (all _ List.mem_cons_self) fails'
    | cons y' later =>
      obtain ⟨rfl, rest⟩ := List.cons.inj split
      exact ih rest (List.forall_mem_cons.mp all).2 (List.forall_mem_cons.mp all').2

theorem Faults.unique (h : Faults types t collection name v f)
    (h' : Faults types t collection name v g) : f = g := by
  induction h with
  | unlisted type other =>
    cases h' with
    | unlisted | kind => rfl
    | item captured => simp [TypeSpec.captures, Json.isObject, Json.isArray] at captured
    | unknown type' | named type' => cases type.symm.trans type'
  | item captured split admitted fault ih =>
    obtain ⟨_, _, _, split', admitted', fault'⟩ := h'.of_items captured
    obtain rfl := first_unique (split.symm.trans split') admitted fault.not_admits admitted'
      fault'.not_admits
    exact ih fault'
  | unknown type free bare other absent =>
    obtain ⟨-, ⟨-, rfl⟩ | ⟨_, found, -⟩⟩ := h'.of_name type free bare
    · rfl
    · cases absent.symm.trans found
  | named type free bare other found fault ih =>
    obtain ⟨-, ⟨absent, -⟩ | ⟨_, found', fault'⟩⟩ := h'.of_name type free bare
    · cases absent.symm.trans found
    · cases found.symm.trans found'
      exact ih fault'
  | missing type free split fit null required =>
    obtain ⟨_, _, _, split', fit', unfit', rest⟩ := h'.of_struct type free
    obtain rfl := first_unique (split.symm.trans split') fit (not_fits_of_required null required)
      fit' unfit'
    rcases rest with ⟨-, rfl⟩ | ⟨present, -⟩
    · rfl
    · cases null.symm.trans present
  | inside type free split fit present fault ih =>
    obtain ⟨_, _, _, split', fit', unfit', rest⟩ := h'.of_struct type free
    obtain rfl := first_unique (split.symm.trans split') fit (fault.not_fits present) fit' unfit'
    rcases rest with ⟨null, -⟩ | ⟨-, fault'⟩
    · cases null.symm.trans present
    · exact ih fault'
  | kind enum free string struct =>
    cases h' with
    | unlisted | kind => rfl
    | item captured => cases free.symm.trans captured
    | unknown type _ bare | named type _ bare => cases not_bare_of_kind string type bare
    | missing type | inside type => cases struct (TypeSpec.isStruct_iff.mpr ⟨_, type⟩)

end Places

section Throwing
variable {dump : Dump} {i : VarlinkInterface} {stack : Nat} {t : TypeSpec} {collection : Bool}
variable {name : String} {e : Exn}

theorem types_of_error {e : Exn} (h : i.type name = .error e) : i.types name = none := by
  simp only [VarlinkInterface.types, h]

theorem faults_of_validate (dumps : DumpErrors dump) {v : Json}
    (h : validate dump i stack v t name collection = .error (.thrown e)) :
    ∃ f, Faults i.types t collection name v f ∧ f.check dump = .error (.thrown e) := by
  induction stack generalizing v t name collection with
  | zero => cases h
  | succ stack ih =>
    cases branch_total t collection v with
    | enum type =>
      rw [validate_enum type] at h
      split at h
      · cases h
      · next other => exact ⟨_, .unlisted type (by simpa using other), h⟩
    | items captured =>
      rw [validate_items captured] at h
      obtain ⟨before, x, after, split, ok, thrown⟩ := of_forAll_eq_error h
      obtain ⟨f, fault, outcome⟩ := ih thrown
      have admitted : ∀ y ∈ before, Admits i.types t true y := fun y member =>
        admits_of_validate (ok y member)
      exact ⟨f, .item captured split admitted fault, outcome⟩
    | @name v type type_ free bare =>
      rw [validate_name type_ free bare, validateName] at h
      split at h
      · cases h
      · next other =>
        have other := Bool.eq_false_iff.mpr other
        cases found : i.type type with
        | error e' =>
          simp only [found] at h
          exact ⟨_, .unknown type_ free bare other (types_of_error found), h⟩
        | ok m =>
          simp only [found] at h
          split at h
          · next what caught =>
            -- nothing that `validate` throws is an `out_of_range`
            rcases validate_throws dumps caught with ⟨_, contra⟩ | ⟨_, _, contra⟩ <;> cases contra
          · obtain ⟨f, fault, outcome⟩ := ih h
            have known : i.types type = some m.data := by simp only [VarlinkInterface.types, found]
            exact ⟨f, .named type_ free bare other known fault, outcome⟩
    | @struct members fields type free =>
      rw [validate_struct type free] at h
      obtain ⟨before, field, after, split, ok, thrown⟩ := of_forAll_eq_error h
      have fit : ∀ g ∈ before, Fits i.types members g := fun g member =>
        fits_of_validateField admits_of_validate (ok g member)
      unfold validateField at thrown
      split at thrown
      · next null =>
        split at thrown
        · next required =>
          exact ⟨_, .missing type free split fit null (by simpa using required), thrown⟩
        · cases thrown
      · next present =>
        obtain ⟨f, fault, outcome⟩ := ih thrown
        exact ⟨f, .inside type free split fit (Bool.eq_false_iff.mpr present) fault, outcome⟩
    | kind enum free string struct =>
      rw [validate_kind enum free string struct] at h
      exact ⟨_, .kind enum free string struct, h⟩

end Throwing

end Varlink.ParameterNames
