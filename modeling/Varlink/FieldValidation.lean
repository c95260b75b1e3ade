import Varlink.Collections
import Varlink.TypeSource
import Varlink.JsonText

/-! Validation of a struct field: its type is scanned from the text of the
declaration, and the struct is validated with and without a value for it. -/

namespace Varlink.Collections

open Scanner

variable {declared : Declarations} {i : VarlinkInterface} {dump : Dump}

def structText (f : FieldSource) : List Char := '(' :: listed [f.source]

/-- The scanner makes the specification `t` of the type of the field. -/
structure Parsed (f : FieldSource) (t : TypeSpec) : Prop where
  valid : f.Valid
  written : Written f.type f.text
  read : ∃ stack s, readStruct (structText f) stack true {} = .ok (.struct [(f.name, t)], s)

def record (field : String) (v : Option Json) : Json := .object (v.toList.map (field, ·))

theorem written_struct {f : FieldSource} (valid : f.Valid) (written : Written f.type f.text) :
    Written (.struct [f.field]) ([] ++ structText f) :=
  .struct .nil (List.cons_ne_nil f []) (List.forall_mem_singleton.mpr valid)
    (List.forall_mem_singleton.mpr written)

theorem parsed_of_written {f : FieldSource} (valid : f.Valid) (written : Written f.type f.text) :
    Parsed f f.type.toSpec := by
  refine ⟨valid, written, ?_⟩
  obtain ⟨g, inner, n, eq, gap, bracketed⟩ := (written_struct valid written).bracketed rfl
  obtain ⟨s, read, -⟩ := readStruct_of_bracketed (s := {}) gap bracketed
    (Nat.le_refl n) (by rw [List.append_nil, ← eq]; rfl)
  exact ⟨n + 1, s, read⟩

theorem Parsed.eq_toSpec {f : FieldSource} {t : TypeSpec} (h : Parsed f t) : t = f.type.toSpec := by
  obtain ⟨stack, s, read⟩ := h.read
  have type := readStruct_of_written (written_struct h.valid h.written) rfl
    (List.append_nil _).symm read
  injection type with fields
  injection fields with field
  injection field

theorem Parsed.struct_eq {f : FieldSource} {t : TypeSpec} (h : Parsed f t) :
    ({ type := .struct [(f.name, t)] } : TypeSpec) = (TypeExpr.struct [f.field]).toSpec := by
  rw [h.eq_toSpec]
  rfl

theorem admits_of_accepts (declares : Declares declared i) {t : TypeSpec} {v : Json} :
    Accepts dump i t v ↔ Admits declared.specs t false v := by
  rw [accepts_iff_admits, types_eq_specs declares]

/-- An accepted value conforms exactly if it is unfolded as declared. -/
theorem conforms_iff_aligned (declares : Declares declared i) {f : FieldSource} {t : TypeSpec}
    (parsed : Parsed f t) {v : Option Json}
    (accepted : Accepts dump i { type := .struct [(f.name, t)] } (record f.name v)) :
    Conforms declared (.struct [f.field]) (record f.name v) ↔
      Aligned declared (.struct [f.field]) (record f.name v) := by
  rw [parsed.struct_eq, admits_of_accepts declares] at accepted
  constructor
  · exact fun conforms => unfolds_of_conforms conforms _
  · exact fun aligned => conforms_of_unfolds aligned (.refl _) accepted

def intsField : FieldSource :=
  { name := "a", type := .array (.named "int"), text := [' ', '[', ']', 'i', 'n', 't'] }

theorem typeName_int : TypeName "int".toList :=
  ⟨token_type (x := []) (by decide) (by decide), by decide⟩

theorem token_a : Token [identifierPattern] "a".toList :=
  token_identifier (x := []) (by decide) (by decide)

theorem parsed_intsField : Parsed intsField { type := .string "int", arrayType := true } :=
  parsed_of_written ⟨.nil, token_a, .nil, .nil⟩
    (.array (g := [' ']) (.blank (by decide) .nil) (.named (g := []) .nil typeName_int))

def noTypes : Declarations := fun _ => none

def noMembers : VarlinkInterface := ⟨"a.b", "", []⟩

theorem declares_noTypes : Declares noTypes noMembers := fun name => ⟨.outOfRange name, rfl⟩

def objectsField : FieldSource :=
  { name := "a", type := .array (.named "object"),
    text := [' ', '[', ']', 'o', 'b', 'j', 'e', 'c', 't'] }

theorem typeName_object : TypeName "object".toList :=
  ⟨token_type (x := []) (by decide) (by decide), by decide⟩

theorem parsed_objectsField : Parsed objectsField { type := .string "object", arrayType := true } :=
  parsed_of_written ⟨.nil, token_a, .nil, .nil⟩
    (.array (g := [' ']) (.blank (by decide) .nil) (.named (g := []) .nil typeName_object))

def nestedObjects : Json := .array [.array [.integer 1], .object [("k", .integer 2)]]

theorem aligned_nestedObjects :
    Aligned noTypes (.struct [objectsField.field]) (record "a" (some nestedObjects)) := by
  refine .struct rfl (fun f member null => ?_) fun f member _ => ?_
  all_goals obtain rfl := List.mem_singleton.mp member
  · cases null
  · refine .array fun x among => ?_
    rcases List.mem_pair.mp among with rfl | rfl
    · exact .captured rfl rfl (.primitive rfl)
    · exact .named rfl nofun

theorem conforms_iff_aligned_nested :
    Accepts JsonText.dump noMembers
        { type := .struct [("a", { type := .string "object", arrayType := true })] }
        (record "a" (some nestedObjects)) ∧
      Conforms noTypes (.struct [objectsField.field]) (record "a" (some nestedObjects)) := by
  have accepted : Accepts JsonText.dump noMembers
      { type := .struct [("a", { type := .string "object", arrayType := true })] }
      (record "a" (some nestedObjects)) := ⟨6, fun name => rfl⟩
  exact ⟨accepted, (conforms_iff_aligned declares_noTypes parsed_objectsField accepted).mpr
    aligned_nestedObjects⟩

/-- `[]int` accepts `[[1]]`. -/
theorem nested_array_accepted :
    Parsed intsField { type := .string "int", arrayType := true } ∧
      Accepts JsonText.dump noMembers
        { type := .struct [("a", { type := .string "int", arrayType := true })] }
        (record "a" (some (.array [.array [.integer 1]]))) ∧
      ¬Conforms noTypes (.struct [intsField.field])
        (record "a" (some (.array [.array [.integer 1]]))) := by
  refine ⟨parsed_intsField, ⟨5, fun name => rfl⟩, fun conforms => ?_⟩
  cases conforms with
  | struct _ present =>
    cases present intsField.field List.mem_cons_self rfl with
    | array all =>
      cases all (.array [.integer 1]) List.mem_cons_self with
      | primitive primitive => exact absurd primitive (by decide)
      | named found => cases found

/-- Some part of the value is accepted for a declared type that it does not conform to. -/
def Slips (declared : Declarations) (dump : Dump) (i : VarlinkInterface) (v : Json) : Prop :=
  ∃ name e x, declared name = some e ∧ Part x v ∧ Accepts dump i e.toSpec x ∧
    ¬Conforms declared e x

/-- A conforming value is accepted if nothing hinders it, and one that is hindered is
accepted only where `validate` takes a part of it that it should not take. -/
theorem accepts_of_unhindered (declares : Declares declared i) {f : FieldSource} {t : TypeSpec}
    (parsed : Parsed f t) {v : Option Json}
    (conforms : Conforms declared (.struct [f.field]) (record f.name v)) :
    (Unhindered declared (.struct [f.field]) (record f.name v) →
      Accepts dump i { type := .struct [(f.name, t)] } (record f.name v)) ∧
    (Accepts dump i { type := .struct [(f.name, t)] } (record f.name v) →
      Unhindered declared (.struct [f.field]) (record f.name v) ∨
        Slips declared dump i (record f.name v)) := by
  rw [parsed.struct_eq, admits_of_accepts declares]
  refine ⟨fun splits => admits_of_splits splits (.refl _) (.inr rfl) (.inl conforms), ?_⟩
  intro admits
  by_cases firm : Firm declared (record f.name v)
  · exact .inl (splits_of_admits admits (.refl _) (.inl conforms) firm)
  · simp only [Firm, not_forall] at firm
    obtain ⟨name, e, x, known, part, admits, other⟩ := firm
    exact .inr ⟨name, e, x, known, part, (admits_of_accepts declares).mpr admits, other⟩

theorem accepts_of_unhindered_nested : Accepts JsonText.dump noMembers
    { type := .struct [("a", { type := .string "object", arrayType := true })] }
    (record "a" (some nestedObjects)) := by
  have conforms : Conforms noTypes (.struct [objectsField.field])
      (record "a" (some nestedObjects)) := by
    refine .struct (fun f member null => ?_) fun f member _ => ?_
    all_goals obtain rfl := List.mem_singleton.mp member
    · cases null
    · refine .array fun x among => ?_
      rcases List.mem_pair.mp among with rfl | rfl
      · exact .primitive rfl
      · exact .primitive rfl
  have unhindered : Unhindered noTypes (.struct [objectsField.field])
      (record "a" (some nestedObjects)) := by
    refine .struct rfl fun f member _ => ?_
    obtain rfl := List.mem_singleton.mp member
    refine .array fun x among => ?_
    rcases List.mem_pair.mp among with rfl | rfl
    · refine .apart rfl rfl (fun y inner _ => ?_) fun y inner => ?_
      all_goals obtain rfl := List.mem_singleton.mp inner
      · exact .primitive rfl
      · exact .primitive rfl rfl
    · exact .primitive rfl rfl
  exact (accepts_of_unhindered declares_noTypes parsed_objectsField conforms).1 unhindered

def maybeIntsField : FieldSource :=
  { name := "a", type := .array (.maybe (.named "int")),
    text := [' ', '[', ']', '?', 'i', 'n', 't'] }

theorem parsed_maybeIntsField :
    Parsed maybeIntsField { type := .string "int", maybeType := true, arrayType := true } :=
  parsed_of_written ⟨.nil, token_a, .nil, .nil⟩
    (.array (g := [' ']) (.blank (by decide) .nil)
      (.maybe (g := []) .nil rfl (.named (g := []) .nil typeName_int)))

theorem conforms_maybeInts {v : List Json} (all : ∀ x ∈ v, x = .null ∨ x = .integer 1) :
    Conforms noTypes (.struct [maybeIntsField.field]) (record "a" (some (.array v))) := by
  refine .struct ?_ ?_
  · intro f member null
    obtain rfl := List.mem_singleton.mp member
    cases null
  · intro f member _
    obtain rfl := List.mem_singleton.mp member
    refine .array fun x member => ?_
    rcases all x member with rfl | rfl
    · exact .null
    · exact .maybe (.primitive rfl)

/-- `[]?int` does not accept `[null]`. -/
theorem null_element_rejected :
    Parsed maybeIntsField { type := .string "int", maybeType := true, arrayType := true } ∧
      Conforms noTypes (.struct [maybeIntsField.field]) (record "a" (some (.array [.null]))) ∧
      ¬Accepts JsonText.dump noMembers
        { type := .struct [("a", { type := .string "int", maybeType := true, arrayType := true })] }
        (record "a" (some (.array [.null]))) := by
  refine ⟨parsed_maybeIntsField, conforms_maybeInts (by simp), fun accepted => ?_⟩
  rw [admits_of_accepts declares_noTypes] at accepted
  obtain ⟨-, present⟩ := (admits_fields_iff rfl rfl).mp accepted
  have element := (admits_array_iff rfl).mp (present _ List.mem_cons_self rfl)
  exact absurd (not_admits_null (element .null List.mem_cons_self)) nofun

end Varlink.Collections
