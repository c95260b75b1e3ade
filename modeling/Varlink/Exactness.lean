import Varlink.Termination
import Varlink.Token

/-! Validation over an interface without collections and without types that are
mere names. There a value is accepted exactly if it conforms to the type as it is
declared, and rejected with `invalid_parameter` otherwise. -/

namespace Varlink.Exactness

open Scanner Termination

def kinds : Json → List String
  | .null => []
  | .boolean _ => ["bool", "object"]
  | .integer _ => ["int", "float", "object"]
  | .float _ => ["float", "object"]
  | .string _ => ["string", "object"]
  | .array _ | .object _ => ["object"]

def primitives : List String := ["bool", "int", "float", "string", "object"]

/-- There is no `[]` or `[string]` in the specification. -/
inductive CollectionFree : TypeSpec → Prop where
  | mk {t : TypeSpec} (bare : t.flagged = false)
      (fields : ∀ fields, t.type = .struct fields → ∀ f ∈ fields, CollectionFree f.2) :
      CollectionFree t

/-- The type members are structs or enums, without collections. -/
def Plain (i : VarlinkInterface) : Prop :=
  ∀ m ∈ i.members, m.kind = .type →
    (m.data.isStruct = true ∨ m.data.isEnum = true) ∧ CollectionFree m.data

/-- What a specification without collections means. A member of an object that is
not there, or null, is an absent one; members that are not declared do not matter. -/
inductive Conforming (i : VarlinkInterface) : TypeSpec → Json → Prop where
  | primitive {t : TypeSpec} {name : String} {v : Json} (type : t.type = .string name)
      (kind : name ∈ kinds v) : Conforming i t v
  | named {t : TypeSpec} {name : String} {m : Member} {v : Json} (type : t.type = .string name)
      (other : name ∉ primitives) (member : m ∈ i.members) (kind : m.kind = .type)
      (name_eq : m.name = name) (conforming : Conforming i m.data v) : Conforming i t v
  | enum {t : TypeSpec} {values : List String} {s : String} (type : t.type = .enum values)
      (listed : s ∈ values) : Conforming i t (.string s)
  | struct {t : TypeSpec} {fields : List (String × TypeSpec)} {members : Object}
      (type : t.type = .struct fields)
      (absent : ∀ f ∈ fields, (∀ w, (Json.object members).find? f.1 = some w → w.isNull = true) →
        f.2.maybeType = true)
      (present : ∀ f ∈ fields, ∀ w, (Json.object members).find? f.1 = some w →
        w.isNull = false → Conforming i f.2 w) : Conforming i t (.object members)

theorem isPrimitive_iff {v : Json} {name : String} :
    isPrimitive v name = true ↔ name ∈ kinds v := by
  cases v <;> simp [isPrimitive, kinds, Json.isString, Json.isNumberInteger, Json.isNumber,
    Json.isBoolean, Json.isNull]
  all_goals tauto

theorem kinds_primitives {v : Json} {name : String} (kind : name ∈ kinds v) :
    name ∈ primitives := by
  cases v <;> simp only [kinds, primitives, List.mem_cons, List.not_mem_nil, or_false] at kind ⊢
  all_goals tauto

theorem member_isNull_iff {v : Json} {key : String} :
    (v.member key).isNull = true ↔ ∀ w, v.find? key = some w → w.isNull = true := by
  unfold Json.member
  cases found : v.find? key with
  | none => simp [Json.isNull]
  | some w => simp

theorem member_present_iff {v : Json} {key : String} :
    (v.member key).isNull = false ↔
      ∃ w, v.find? key = some w ∧ w.isNull = false ∧ v.member key = w := by
  unfold Json.member
  cases found : v.find? key with
  | none => simp [Json.isNull]
  | some w => simp

theorem CollectionFree.bare {t : TypeSpec} (h : CollectionFree t) : t.flagged = false := by
  cases h with
  | mk bare fields => exact bare

theorem CollectionFree.not_captures {t : TypeSpec} (h : CollectionFree t) (v : Json) :
    t.captures v = false := by
  have bare := h.bare
  simp only [TypeSpec.flagged, Bool.or_eq_false_iff] at bare
  simp [TypeSpec.captures, bare]

theorem CollectionFree.field {t : TypeSpec} (h : CollectionFree t)
    {fields : List (String × TypeSpec)} (type : t.type = .struct fields) {f : String × TypeSpec}
    (member : f ∈ fields) : CollectionFree f.2 := by
  cases h with
  | mk bare all => exact all fields type f member

variable {i : VarlinkInterface} {dump : Dump}

theorem not_primitive (constructed : i.Constructed) {m : Member} (member : m ∈ i.members) :
    m.name ∉ primitives := by
  have capital : ∀ w ∈ primitives, w.toList ≠ [] ∧ w.toList.head?.all Char.isUpper = false := by
    decide
  intro primitive
  obtain ⟨nonempty, lower⟩ := capital m.name primitive
  have token : Token [memberPattern] m.name.toList := by
    rcases constructed.wellFormed.members.cases m member with wellFormed | cut
    · exact wellFormed.name
    · refine cut.name.resolve_right fun empty => nonempty ?_
      rw [empty]
      rfl
  have positive := List.length_pos_iff.mpr nonempty
  have reads := token.reads [] boundary_nil
  rw [List.append_nil] at reads
  obtain ⟨c, head, upper⟩ := upper_of_starts_member (starts_of_matched reads (by omega))
  simp [head, upper] at lower

theorem conforming_iff_admits (constructed : i.Constructed) (plain : Plain i) {t : TypeSpec}
    {v : Json} (free : CollectionFree t) : Conforming i t v ↔ Admits i.types t false v := by
  constructor
  · intro conforming
    induction conforming with
    | @primitive t name v type kind =>
      exact .primitive type (free.not_captures v) (.inr free.bare) (isPrimitive_iff.mpr kind)
    | @named t name m v type other member kind name_eq conforming ih =>
      have notPrimitive : isPrimitive v name = false := Bool.eq_false_iff.mpr fun primitive =>
        other (kinds_primitives (isPrimitive_iff.mp primitive))
      have found : i.type name = .ok m :=
        (VarlinkInterface.findMember_eq_ok_iff constructed (by decide)).mpr ⟨member, kind, name_eq⟩
      have known : i.types name = some m.data := by simp only [VarlinkInterface.types, found]
      exact .named type (free.not_captures v) (.inr free.bare) notPrimitive known
        (ih (plain m member kind).2)
    | enum type listed => exact .enum type listed
    | struct type absent present ih =>
      refine .struct type (free.not_captures _) (fun f member null => ?_) fun f member some_ => ?_
      · exact absent f member (member_isNull_iff.mp null)
      · obtain ⟨w, found, value, same⟩ := member_present_iff.mp some_
        rw [same]
        exact ih f member w found value (free.field type member)
  · intro admits
    generalize false = collection at admits
    induction admits with
    | enum type listed => exact .enum type listed
    | dict flag =>
      have bare := free.bare
      simp [TypeSpec.flagged, flag] at bare
    | array flag =>
      have bare := free.bare
      simp [TypeSpec.flagged, flag] at bare
    | primitive type _ _ primitive => exact .primitive type (isPrimitive_iff.mp primitive)
    | named type _ _ _ known admits ih =>
      obtain ⟨m, found, rfl⟩ := of_types known
      obtain ⟨member, name_eq, kind⟩ := type_mem found
      exact .named type (name_eq ▸ not_primitive constructed member) member kind name_eq
        (ih (plain m member kind).2)
    | struct type _ optional present ih =>
      refine .struct type (fun f member absent => ?_) fun f member w found value => ?_
      · exact optional f member (member_isNull_iff.mpr absent)
      · have some_ := member_present_iff.mpr ⟨w, found, value, by simp [Json.member, found]⟩
        have conforming := ih f member some_ (free.field type member)
        rwa [show (Json.object _).member f.1 = w by simp [Json.member, found]] at conforming

theorem not_alias (plain : Plain i) (a b : String) : ¬ Alias i a b := by
  rintro ⟨m, found, string, -⟩
  obtain ⟨member, -, kind⟩ := type_mem found
  rcases (plain m member kind).1 with struct | enum
  · simp [TypeSpec.isStruct, string] at struct
  · simp [TypeSpec.isEnum, string] at enum

/-- Given a stack that is deep enough, `validate` returns normally exactly for the
values that conform, and throws `invalid_parameter` for all others. -/
theorem validate_exact (dump : Dump) (dumps : ∀ v, ∃ text, dump v = .ok text)
    (i : VarlinkInterface) (constructed : i.Constructed) (plain : Plain i) (t : TypeSpec)
    (free : CollectionFree t) (v : Json) : ∃ n, ∀ stack, n ≤ stack → ∀ name,
      (validate dump i stack v t name false = .ok () ↔ Conforming i t v) ∧
      (¬ Conforming i t v → ∃ what,
        validate dump i stack v t name false = .error (.thrown (.invalidParameter what))) := by
  have wf : WellFounded fun b a => Alias i a b :=
    ⟨fun a => ⟨a, fun b step => absurd step (not_alias plain a b)⟩⟩
  obtain ⟨n, settled⟩ := ends_of_wellFounded dumps wf v t false
  have exact_ := conforming_iff_admits constructed plain free (v := v)
  by_cases conforming : Conforming i t v
  · obtain ⟨m, accepts⟩ : ∃ m, ∀ stack, m ≤ stack →
        ∀ name, validate dump i (stack + 1) v t name false = .ok () :=
      validate_of_admits (exact_.mp conforming)
    refine ⟨m + 1, fun stack le name => ?_⟩
    obtain ⟨stack, rfl⟩ : ∃ k, stack = k + 1 := ⟨stack - 1, by omega⟩
    have accepted := accepts stack (by omega) name
    exact ⟨⟨fun _ => conforming, fun _ => accepted⟩, fun contra => absurd conforming contra⟩
  · refine ⟨n, fun stack le name => ?_⟩
    have refused : validate dump i stack v t name false ≠ .ok () := fun ok =>
      conforming (exact_.mpr (admits_of_validate ok))
    exact ⟨⟨fun ok => absurd ok refused, fun contra => absurd contra conforming⟩,
      fun _ => (settled stack le name).resolve_left refused⟩

def listInterface : VarlinkInterface := ⟨"a.b", "", [⟨.type, "T", "", { type := .struct [
  ("n", { type := .string "int" }), ("next", { type := .string "T", maybeType := true })] }⟩]⟩

theorem plain_list : Plain listInterface := by
  intro m member _
  obtain rfl := List.mem_singleton.mp member
  refine ⟨.inl rfl, .mk rfl fun fields type f inside => ?_⟩
  cases type
  rcases List.mem_pair.mp inside with rfl | rfl
  · exact .mk rfl nofun
  · exact .mk rfl nofun

theorem validate_exact_list :
    ∃ n, ∀ stack, n ≤ stack → ∀ name, validate JsonText.dump listInterface stack
      (.object [("n", .integer 1), ("next", .null)]) { type := .string "T" } name false =
        .ok () := by
  have constructed : listInterface.Constructed :=
    ⟨9, "interface a.b\ntype T(n:int,next:?T)", by rfl⟩
  obtain ⟨n, exact_⟩ := validate_exact JsonText.dump (fun _ => ⟨_, rfl⟩) listInterface
    constructed plain_list { type := .string "T" } (.mk rfl nofun)
    (.object [("n", .integer 1), ("next", .null)])
  refine ⟨n, fun stack le name => (exact_ stack le name).1.mpr ?_⟩
  refine .named rfl (by decide) List.mem_cons_self rfl rfl (.struct rfl ?_ ?_)
  · intro f member absent
    rcases List.mem_pair.mp member with rfl | rfl
    · exact absurd (absent (.integer 1) rfl) (by decide)
    · rfl
  · intro f member w found value
    rcases List.mem_pair.mp member with rfl | rfl
    · cases found
      exact .primitive rfl (by decide)
    · cases found
      cases value

end Varlink.Exactness
