import Mathlib.Order.WellFoundedSet
import Varlink.JsonText
import Varlink.MemberScan
import Varlink.Validation

/-! Whether the recursion of `validate` ends. It goes down in the data for the parts
of objects and arrays, but stays where it is when it replaces a name by the type
of that name; so it ends unless names are replaced by names for ever. -/

namespace Varlink.Termination

open Relation

/-- A relation that can be followed from finitely many places only, and never back
to where it was followed from, cannot be followed for ever. -/
theorem wellFounded_of_acyclic {α : Type} {r : α → α → Prop} (finite : {a | ∃ b, r a b}.Finite)
    (acyclic : ∀ a, ¬ TransGen r a a) : WellFounded fun b a => r a b := by
  have : IsStrictOrder α fun b a => TransGen r a b :=
    { irrefl := acyclic
      trans := fun _ _ _ first second => second.trans first }
  refine ⟨fun a => ?_⟩
  by_cases follows : ∃ b, r a b
  · refine Set.WellFoundedOn.induction (finite.wellFoundedOn (r := fun b a => TransGen r a b))
      (P := fun a => Acc (fun b a => r a b) a) follows fun a _ ih => ⟨a, fun b next => ?_⟩
    by_cases more : ∃ c, r b c
    · exact ih b more (.single next)
    · exact ⟨b, fun c further => absurd ⟨c, further⟩ more⟩
  · exact ⟨a, fun b next => absurd ⟨b, next⟩ follows⟩

variable {dump : Dump} {i : VarlinkInterface}

/-- A type member whose body is nothing but a name, optional or not. -/
def Alias (i : VarlinkInterface) (a b : String) : Prop :=
  ∃ m, i.type a = .ok m ∧ m.data.type = .string b ∧ m.data.flagged = false

/-- Acceptance, or `invalid_parameter`. -/
def Settled (result : Except Stop Unit) : Prop :=
  result = .ok () ∨ ∃ what, result = .error (.thrown (.invalidParameter what))

/-- Given a stack that is deep enough, the validation of a value ends. -/
def Ends (dump : Dump) (i : VarlinkInterface) (t : TypeSpec) (collection : Bool) (v : Json) :
    Prop :=
  ∃ n, ∀ stack, n ≤ stack → ∀ name, Settled (validate dump i stack v t name collection)

/-- The specifications that stand in an interface: those of members, and of fields in them. -/
inductive Occurs (i : VarlinkInterface) : TypeSpec → Prop where
  | member {m : Member} (member : m ∈ i.members) : Occurs i m.data
  | field {t : TypeSpec} {fields : List (String × TypeSpec)} {f : String × TypeSpec}
      (inside : Occurs i t) (type : t.type = .struct fields) (field : f ∈ fields) : Occurs i f.2

theorem type_mem {name : String} {m : Member} (found : i.type name = .ok m) :
    m ∈ i.members ∧ m.name = name ∧ m.kind = .type := by
  unfold VarlinkInterface.type VarlinkInterface.findMember at found
  split at found
  · next m' first =>
    obtain rfl := Except.ok.inj found
    have matches_ := List.find?_some first
    simp only [VarlinkInterface.matchesMember, Bool.and_eq_true, Bool.or_eq_true, beq_iff_eq,
      reduceCtorEq, or_false] at matches_
    exact ⟨List.mem_of_find?_eq_some first, matches_.1, matches_.2⟩
  · cases found

theorem alias_finite (i : VarlinkInterface) : {a | ∃ b, Alias i a b}.Finite := by
  refine (List.finite_toSet (i.members.map (·.name))).subset ?_
  rintro a ⟨b, m, found, -⟩
  obtain ⟨member, rfl, -⟩ := type_mem found
  exact List.mem_map_of_mem member

section Settle
variable (dumps : ∀ v, ∃ text, dump v = .ok text)
include dumps

theorem settled_invalidData (v : Json) : Settled (throwInvalidData dump v) := by
  obtain ⟨text, dumped⟩ := dumps v
  exact .inr ⟨text, by simp only [throwInvalidData, dumped, throwInvalidParameter]⟩

omit dumps in
theorem settled_forAll {α : Type} {xs : List α} {check : α → Except Stop Unit}
    (all : ∀ x ∈ xs, Settled (check x)) : Settled (forAll xs check) := by
  induction xs with
  | nil => exact .inl rfl
  | cons x rest ih =>
    obtain ⟨head, tail⟩ := List.forall_mem_cons.mp all
    rw [forAll]
    rcases head with ok | ⟨what, thrown⟩
    · rw [ok]
      exact ih tail
    · rw [thrown]
      exact .inr ⟨what, rfl⟩

omit dumps in
theorem sizeOf_items {v w : Json} (member : w ∈ v.items) : sizeOf w < sizeOf v := by
  cases v with
  | array elements =>
    have smaller : sizeOf w < sizeOf elements := List.sizeOf_lt_of_mem member
    rw [Json.array.sizeOf_spec]
    omega
  | object members =>
    obtain ⟨p, among, rfl⟩ := List.mem_map.mp member
    have smaller := List.sizeOf_lt_of_mem among
    obtain ⟨key, w⟩ := p
    rw [Prod.mk.sizeOf_spec] at smaller
    rw [Json.object.sizeOf_spec]
    dsimp only
    omega
  | _ => cases member

omit dumps in
theorem sizeOf_member {v : Json} {key : String} (present : (v.member key).isNull = false) :
    sizeOf (v.member key) < sizeOf v := by
  unfold Json.member at present ⊢
  cases found : v.find? key with
  | none => simp [found, Json.isNull] at present
  | some w =>
    cases v with
    | object members =>
      obtain ⟨before, after, rfl, -⟩ := List.lookup_eq_some_iff.mp found
      have member : (key, w) ∈ before ++ (key, w) :: after := by simp
      exact sizeOf_items (List.mem_map_of_mem (f := Prod.snd) member)
    | _ => cases found

theorem ends_of_parts {v : Json} (parts : ∀ w, sizeOf w < sizeOf v →
      ∀ t collection, Ends dump i t collection w) (t : TypeSpec) (collection : Bool)
    (named : ∀ type, t.type = .string type → (collection = true ∨ t.flagged = false) →
      ∃ n, ∀ stack, n ≤ stack → ∀ name, Settled (validateName dump i stack v type name)) :
    Ends dump i t collection v := by
  have above {n stack : Nat} (le : n + 1 ≤ stack) : ∃ k, stack = k + 1 ∧ n ≤ k :=
    ⟨stack - 1, by omega, by omega⟩
  cases branch_total t collection v with
  | enum type =>
    refine ⟨1, fun stack le name => ?_⟩
    obtain ⟨stack, rfl, -⟩ := above le
    rw [validate_enum type]
    split
    · exact .inl rfl
    · exact settled_invalidData dumps _
  | items captured =>
    obtain ⟨n, all⟩ := eventually_forall fun w (member : w ∈ v.items) =>
      parts w (sizeOf_items member) t true
    refine ⟨n + 1, fun stack le name => ?_⟩
    obtain ⟨stack, rfl, deep⟩ := above le
    rw [validate_items captured]
    exact settled_forAll fun w member => all stack deep w member name
  | name type free bare =>
    obtain ⟨n, settled⟩ := named _ type bare
    refine ⟨n + 1, fun stack le name => ?_⟩
    obtain ⟨stack, rfl, deep⟩ := above le
    rw [validate_name type free bare]
    exact settled stack deep name
  | @struct members fields type free =>
    have present : ∀ f ∈ fields, ∃ n, ∀ stack, n ≤ stack →
        ((Json.object members).member f.1).isNull = false →
          Settled (validate dump i stack ((Json.object members).member f.1) f.2 f.1 false) := by
      intro f _
      cases null : ((Json.object members).member f.1).isNull with
      | true => exact ⟨0, fun _ _ => nofun⟩
      | false =>
        obtain ⟨n, settled⟩ := parts _ (sizeOf_member null) f.2 false
        exact ⟨n, fun stack le _ => settled stack le f.1⟩
    obtain ⟨n, all⟩ := eventually_forall present
    refine ⟨n + 1, fun stack le name => ?_⟩
    obtain ⟨stack, rfl, deep⟩ := above le
    rw [validate_struct type free]
    refine settled_forAll fun f member => ?_
    unfold validateField
    cases null : ((Json.object members).member f.1).isNull with
    | false => exact all stack deep f member null
    | true =>
      simp only [if_true]
      split
      · exact .inr ⟨f.1, rfl⟩
      · exact .inl rfl
  | kind enum free string struct =>
    refine ⟨1, fun stack le name => ?_⟩
    obtain ⟨stack, rfl, -⟩ := above le
    rw [validate_kind enum free string struct]
    exact settled_invalidData dumps v

theorem ends_of_wellFounded (wf : WellFounded fun b a => Alias i a b) (v : Json) :
    ∀ t collection, Ends dump i t collection v := by
  induction size : sizeOf v using Nat.strong_induction_on generalizing v with
  | _ n smaller =>
    have parts : ∀ w, sizeOf w < sizeOf v → ∀ t collection, Ends dump i t collection w :=
      fun w less => smaller (sizeOf w) (size ▸ less) w rfl
    have named : ∀ type, ∃ n, ∀ stack, n ≤ stack →
        ∀ name, Settled (validateName dump i stack v type name) := by
      intro type
      induction type using wf.induction with
      | _ type shorter =>
        unfold validateName
        by_cases primitive : isPrimitive v type = true
        · exact ⟨0, fun _ _ _ => .inl (if_pos primitive)⟩
        simp only [primitive, Bool.false_eq_true, if_false]
        cases found : i.type type with
        | error e => exact ⟨0, fun _ _ name => .inr ⟨name, rfl⟩⟩
        | ok m =>
          -- the body is one more name, or it has parts of the value to go down to
          obtain ⟨n, settled⟩ := ends_of_parts dumps parts m.data false
            fun next string bare => shorter next ⟨m, found, string, by simpa using bare⟩
          refine ⟨n, fun stack le name => ?_⟩
          rcases settled stack le name with ok | ⟨what, thrown⟩
          · exact .inl (by simp only [ok])
          · exact .inr ⟨what, by simp only [thrown]⟩
    exact fun t collection => ends_of_parts dumps parts t collection fun type _ _ => named type

end Settle

variable (dump) in
theorem overflows_of_cycle {a : String} (cycle : TransGen (Alias i) a a) (stack : Nat)
    (name : String) : validateName dump i stack .null a name = .error .stackOverflow := by
  induction stack generalizing a name with
  | zero =>
    obtain ⟨b, ⟨m, found, -⟩, -⟩ := TransGen.head'_iff.mp cycle
    simp [validateName, isPrimitive, Json.isString, Json.isNumberInteger, Json.isNumber,
      Json.isBoolean, Json.isNull, found, validate]
  | succ stack ih =>
    obtain ⟨b, step, back⟩ := TransGen.head'_iff.mp cycle
    obtain ⟨m, found, string, bare⟩ := step
    have next := ih (TransGen.tail' back ⟨m, found, string, bare⟩) name
    have free : m.data.captures .null = false := by
      simp [TypeSpec.captures, Json.isObject, Json.isArray]
    have body : validate dump i (stack + 1) .null m.data name false =
        .error .stackOverflow := by
      rw [validate_name string free (.inr bare)]
      exact next
    simp [validateName, isPrimitive, Json.isString, Json.isNumberInteger, Json.isNumber,
      Json.isBoolean, Json.isNull, found, body]

/-- The validation of all values against all specifications of an interface ends
exactly if no type member is, by way of members that are nothing but names, itself. -/
theorem validate_ends_iff (dump : Dump) (dumps : ∀ v, ∃ text, dump v = .ok text)
    (i : VarlinkInterface) :
    (∀ t, Occurs i t → ∀ v, Ends dump i t false v) ↔ ∀ a, ¬ TransGen (Alias i) a a := by
  constructor
  · intro ends a cycle
    obtain ⟨b, ⟨m, found, string, bare⟩, back⟩ := TransGen.head'_iff.mp cycle
    obtain ⟨n, settled⟩ := ends m.data (.member (type_mem found).1) .null
    have free : m.data.captures .null = false := by
      simp [TypeSpec.captures, Json.isObject, Json.isArray]
    have overflow := overflows_of_cycle dump
      (TransGen.tail' back ⟨m, found, string, bare⟩) n ""
    have settled := settled (n + 1) (Nat.le_succ n) ""
    rw [validate_name string free (.inr bare), overflow] at settled
    rcases settled with ok | ⟨what, thrown⟩
    · cases ok
    · cases thrown
  · intro acyclic t _ v
    exact ends_of_wellFounded dumps (wellFounded_of_acyclic (alias_finite i) acyclic) v t false

/-- `type A (a: ?B)` and `type B A`: each leads to itself, but by way of a field. -/
def mutual_ : VarlinkInterface := ⟨"a.b", "", [
  ⟨.type, "A", "", { type := .struct [("a", { type := .string "B", maybeType := true })] }⟩,
  ⟨.type, "B", "", { type := .string "A" }⟩]⟩

theorem validate_ends_iff_mutual :
    mutual_.Constructed ∧
      ∀ t, Occurs mutual_ t → ∀ v, Ends JsonText.dump mutual_ t false v := by
  refine ⟨⟨7, "interface a.b\ntype A(a:?B)\ntype B A", by rfl⟩,
    (validate_ends_iff JsonText.dump (fun _ => ⟨_, rfl⟩) mutual_).mpr fun a cycle => ?_⟩
  have only : ∀ x y, Alias mutual_ x y → x = "B" ∧ y = "A" := by
    rintro x y ⟨m, found, string, -⟩
    obtain ⟨member, rfl, -⟩ := type_mem found
    rcases List.mem_pair.mp member with rfl | rfl
    · cases string
    · cases string
      exact ⟨rfl, rfl⟩
  obtain ⟨b, first, back⟩ := TransGen.head'_iff.mp cycle
  obtain ⟨c, -, last⟩ := TransGen.tail'_iff.mp cycle
  obtain ⟨rfl, -⟩ := only _ _ first
  exact absurd (only _ _ last).2 (by decide)

/-- `type A B` and `type B A`: a null overflows every stack. -/
theorem alias_cycle_overflows :
    let i : VarlinkInterface := ⟨"a.b", "", [⟨.type, "A", "", { type := .string "B" }⟩,
      ⟨.type, "B", "", { type := .string "A" }⟩]⟩
    i.Constructed ∧ Occurs i { type := .string "B" } ∧
      ¬ Ends JsonText.dump i { type := .string "B" } false .null := by
  intro i
  have member : Occurs i (i.members.head nofun).data := .member List.mem_cons_self
  refine ⟨⟨6, "interface a.b\ntype A B\ntype B A", by rfl⟩, member, ?_⟩
  rintro ⟨n, settled⟩
  have cycle : TransGen (Alias i) "B" "B" :=
    .tail (.single ⟨_, rfl, rfl, rfl⟩ : TransGen (Alias i) "B" "A") ⟨_, rfl, rfl, rfl⟩
  have overflow := overflows_of_cycle JsonText.dump cycle n ""
  have settled := settled (n + 1) (Nat.le_succ n) ""
  rw [validate_name (t := { type := .string "B" }) rfl rfl (.inr rfl), overflow] at settled
  rcases settled with ok | ⟨what, thrown⟩
  · cases ok
  · cases thrown

end Varlink.Termination
