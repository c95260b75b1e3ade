import Varlink.MethodErrors
import Varlink.Offences
import Varlink.RoundTrip

/-! What InvalidParameter reports. `validate` threads the name of the innermost field
through its recursion, but some of its throw sites report the value in its place. -/

namespace Varlink.ParameterNames

open Collections

/-- The texts of JSON that begin with a letter. -/
inductive Literal : String → Json → Prop where
  | null : Literal "null" .null
  | true : Literal "true" (.boolean true)
  | false : Literal "false" (.boolean false)
  | float {bits : UInt64} (special : Json.isFinite bits = false) : Literal "null" (.float bits)

theorem Literal.word {name : String} {v : Json} (h : Literal name v) :
    name ∈ ["null", "true", "false"] := by
  cases h <;> decide

/-- `json::dump` writes these words, and anything else with another character in front. -/
structure DumpTexts (dump : Dump) : Prop where
  literal : ∀ {name v}, Literal name v → dump v = .ok name
  letter : ∀ {name v}, dump v = .ok name → name.toList.head?.any Char.isAlpha = true →
    Literal name v

/-- What is reported is the name of an offending field, and not the text of a value. -/
structure NamesField (dump : Dump) (declared : Declarations) (e : TypeExpr) (v : Json)
    (what : String) : Prop where
  field : OffendingField declared e v what
  text : ∀ value, OffendingValue declared e v value → dump value ≠ .ok what

/-- The first place that does not conform is one that is reported by a name, and no value that
does not conform is written with that name. -/
def Nameable (declared : Declarations) (fields : List (String × TypeExpr)) (v : Json) : Prop :=
  ∃ name, Blamed declared (TypeExpr.struct fields).toSpec (.struct fields) false "<root>" v
      (.field name) ∧
    ∀ value, Literal name value → ¬OffendingValue declared (.struct fields) v value

def Scanned (t : TypeSpec) : Prop := Readable t ∨ t.type = .string ""

section Names
variable {declared : Declarations} {e place : TypeExpr} {v part : Json} {name : String}

theorem Scanned.of_type {t t' : TypeSpec} (h : Scanned t) (same : t.type = t'.type) :
    Scanned t' := by
  obtain ⟨type, m, d, a⟩ := t'
  rcases h with readable | cut
  · have flags := readable.flags m d a
    rw [same] at flags
    exact .inl flags
  · exact .inr (same.symm.trans cut)

theorem scanned_within (types : ∀ name e, declared name = some e → Scanned e.toSpec)
    (within : Within declared place part e v) (h : Scanned e.toSpec) : Scanned place.toSpec := by
  induction within with
  | here => exact h
  | maybe _ ih | array _ _ ih | dict _ _ ih => exact ih (h.of_type rfl)
  | named found _ ih => exact ih (types _ _ found)
  | field member _ _ ih =>
    rcases h with readable | cut
    · cases readable with
      | struct _ fieldTypes => exact ih (.inl (fieldTypes _ (mem_fieldSpecs member)))
    · cases cut

theorem OffendingField.isAlpha (types : ∀ name e, declared name = some e → Scanned e.toSpec)
    (h : Scanned e.toSpec) (offending : OffendingField declared e v name) :
    name.toList.head?.any Char.isAlpha = true := by
  obtain ⟨fields, members, field, within, member, rfl, -⟩ := offending
  rcases scanned_within types within h with readable | cut
  · cases readable with
    | struct names => exact isAlpha_of_identifier (names _ (mem_fieldSpecs member))
  · cases cut

theorem scanned_type {i : VarlinkInterface} (constructed : i.Constructed)
    (types : Varlink.Declares declared i) (found : declared name = some e) : Scanned e.toSpec := by
  have known := types name
  simp only [found] at known
  obtain ⟨m, type, data⟩ := known
  obtain ⟨member, kind, -⟩ :=
    (VarlinkInterface.findMember_eq_ok_iff constructed (by decide)).mp type
  rw [← data]
  rcases constructed.wellFormed.members.cases m member with wellFormed | cut
  · rcases wellFormed.data with ⟨-, readable⟩ | ⟨method, -⟩
    · exact .inl readable
    · cases kind.symm.trans method
  · exact .inr cut.data

end Names

section Reporting
variable {σ : Type} {dump : Dump} {stack : Nat} {replySender : Json → Action σ Unit}
variable {message : VarlinkMessage} {entry : InterfaceEntry} {m : Member} {parameters : TypeSpec}

theorem lookupCall_rejected (constructed : entry.spec.Constructed)
    (declares : entry.spec.Declares message.method m) (first : m.methodType? 0 = some parameters)
    (call : Nat) {stop : Stop}
    (rejected : checkType dump stack entry.spec message.parameters parameters = .error stop) :
    lookupCall dump stack entry message call = .error stop := by
  have method := (VarlinkInterface.method_eq_ok_iff constructed).mpr declares
  have type : m.methodParameterType = .ok parameters := by
    simp [Member.methodParameterType, Member.methodTypeOrThrow, declares.kind, first]
  simp only [lookupCall, method, Except.mapError, bind, Except.bind, type, rejected]

theorem dump_of_invalidData (dumps : DumpErrors dump) {value : Json} {what : String}
    (h : throwInvalidData dump value = .error (.thrown (.invalidParameter what))) :
    dump value = .ok what := by
  unfold throwInvalidData at h
  cases dumped : dump value with
  | ok text => simpa [dumped, throwInvalidParameter] using h
  | error e =>
    obtain ⟨_, _, rfl⟩ := dumps value e dumped
    simp [dumped] at h

theorem passed_rejected (r : Registry)
    (known : r.service.findInterface message.interface = some entry)
    (declares : entry.spec.Declares message.method m) (first : m.methodType? 0 = some parameters)
    (call : Nat) (s : σ) {e : Exn}
    (rejected : checkType dump stack entry.spec message.parameters parameters =
      .error (.thrown e)) :
    passed dump stack replySender r.service message call s =
      e.answer (message.interface ++ "." ++ message.method) := by
  have constructed := r.constructed entry (r.findInterface_eq_some_iff.mp known).1
  have stopped := lookupCall_rejected constructed declares first call rejected
  rw [passed, messageCall_thrown known (callMethod_stopped stopped (s, [])), catchClauses_answer]
  rfl

/-- InvalidParameter names an offending field exactly if the first place that does not conform
is reported by a name. There is such a place unless the flags of a type have a value read
otherwise than it is declared. -/
theorem names_field_iff (dumps : DumpErrors dump) (texts : DumpTexts dump) (r : Registry)
    (known : r.service.findInterface message.interface = some entry)
    (declares : entry.spec.Declares message.method m)
    (types : Varlink.Declares declared entry.spec) {fields : List (String × TypeExpr)}
    (first : m.methodType? 0 = some (TypeExpr.struct fields).toSpec) (call : Nat) (s : σ) {e : Exn}
    (rejected : checkType dump stack entry.spec message.parameters
      (TypeExpr.struct fields).toSpec = .error (.thrown e)) :
    ((∃ f, Blamed declared (TypeExpr.struct fields).toSpec (.struct fields) false "<root>"
        message.parameters f) →
      ((∃ what, e = .invalidParameter what ∧
          passed dump stack replySender r.service message call s =
            [errorObject "org.varlink.service.InvalidParameter"
              (.object [("parameter", .string what)])] ∧
          NamesField dump declared (.struct fields) message.parameters what) ↔
        Nameable declared fields message.parameters)) ∧
    ((∃ f, Blamed declared (TypeExpr.struct fields).toSpec (.struct fields) false "<root>"
        message.parameters f) ∨
      Misread declared (TypeExpr.struct fields).toSpec (.struct fields) false
        message.parameters) := by
  have constructed := r.constructed entry (r.findInterface_eq_some_iff.mp known).1
  have answered : passed dump stack replySender r.service message call s = _ :=
    passed_rejected r known declares first call s rejected
  obtain ⟨f, fault, outcome⟩ := faults_of_validate dumps rejected
  rw [types_eq_specs types] at fault
  have root : Scanned (TypeExpr.struct fields).toSpec := by
    obtain ⟨parameters, _, data, ⟨readable, -⟩, -⟩ := declares.methodTypes constructed
    have same : m.methodType? 0 = some { type := parameters } := by
      simp [Member.methodType?, data]
    cases first.symm.trans same
    exact .inl readable
  refine ⟨?_, ?_⟩
  · rintro ⟨f', blamed⟩
    obtain rfl := fault.unique (faults_of_blamed blamed (.refl _) (.inr rfl))
    constructor
    · rintro ⟨what, rfl, -, names⟩
      cases f with
      | field name =>
        obtain rfl : name = what := by simpa [Fault.check, throwInvalidParameter] using outcome
        exact ⟨name, blamed, fun value literal offending =>
          names.text value offending (texts.literal literal)⟩
      | data value =>
        exact absurd (dump_of_invalidData dumps outcome) (names.text value blamed.offendingValue)
    · rintro ⟨name, named, plain⟩
      obtain rfl := fault.unique (faults_of_blamed named (.refl _) (.inr rfl))
      obtain rfl : e = .invalidParameter name := by
        simpa [Fault.check, throwInvalidParameter, eq_comm] using outcome
      have field := named.offendingField_of_struct
      have letter := field.isAlpha (fun _ _ found => scanned_type constructed types found) root
      exact ⟨name, rfl, answered, field, fun value offending dumped =>
        plain value (texts.letter dumped letter) offending⟩
  · exact (blamed_or_misread fault (.refl _) (.inr rfl)).imp_left fun blamed => ⟨f, blamed⟩

end Reporting

def parameterFields : List (String × TypeExpr) :=
  [("e", .enum ["a", "b"]), ("p", .named "string")]

def parameterType : TypeSpec := (TypeExpr.struct parameterFields).toSpec

def parameterMethod : Member := ⟨.method, "P", "", { type := .struct [
  ("parameters", parameterType), ("return_value", { type := .struct [] })] }⟩

def parameterEntry : InterfaceEntry where
  spec := ⟨"org.test", "", [parameterMethod]⟩
  callbacks := [("P", none)]

theorem wellFormed_parameterMethod : WellFormed parameterMethod := by
  have enum : Readable { type := .enum ["a", "b"] } := by
    refine .enum (by decide) fun v member => ?_
    rcases List.mem_pair.mp member with rfl | rfl
    · exact token_identifier (x := []) (by decide) (by decide)
    · exact token_identifier (x := []) (by decide) (by decide)
  have string : Readable { type := .string "string" } :=
    .string ⟨token_type (x := []) (by decide) (by decide), by decide⟩
  have fields : Readable parameterType := by
    refine .struct (fun f member => ?_) fun f member => ?_
    all_goals rcases List.mem_pair.mp member with rfl | rfl
    · exact token_identifier (x := []) (by decide) (by decide)
    · exact token_identifier (x := []) (by decide) (by decide)
    · exact enum
    · exact string
  refine ⟨.inl rfl, token_member (x := []) (by decide) (by decide), .inr ⟨rfl, ?_⟩⟩
  exact ⟨_, _, rfl, ⟨fields, nofun⟩, .struct nofun nofun, nofun⟩

theorem constructed_parameterEntry : parameterEntry.spec.Constructed := by
  have wellFormed : parameterEntry.spec.WellFormed :=
    { nonempty := by decide
      name := ⟨[], by decide⟩
      documentation := .inl rfl
      some := List.cons_ne_nil _ _
      members := .cons wellFormed_parameterMethod .nil
      distinct := ⟨rfl, trivial⟩ }
  have printable : parameterEntry.spec.Printable :=
    ⟨.nil, List.forall_mem_singleton.mpr ⟨.nil, rfl, rfl, rfl⟩⟩
  obtain ⟨stack, read⟩ := VarlinkInterface.roundTrips_of_printable wellFormed printable
  exact ⟨stack, _, read⟩

def parameterRegistry : Registry where
  service := ⟨{}, [parameterEntry]⟩
  constructed := List.forall_mem_singleton.mpr constructed_parameterEntry
  names := by simp
  keys := by simp [parameterEntry]

def parameterCall (members : Object) : VarlinkMessage :=
  ⟨.object [("method", .string "org.test.P"), ("parameters", .object members)], .basic⟩

def undeclared : Declarations := fun _ => none

theorem declares_undeclared : Varlink.Declares undeclared parameterEntry.spec := by
  intro name
  refine ⟨.outOfRange name, ?_⟩
  simp [VarlinkInterface.type, VarlinkInterface.findMember, VarlinkInterface.matchesMember,
    parameterEntry, parameterMethod]

theorem head_natural (n : Nat) : n.repr.toList.head?.any Char.isAlpha = false := by
  have digits : n.repr.toList = Nat.toDigits 10 n := by simp [Nat.repr]
  rw [digits]
  cases head : (Nat.toDigits 10 n).head? with
  | none => rfl
  | some c =>
    have digit := Nat.isDigit_of_mem_toDigits (by decide) (by decide) (List.mem_of_head? head)
    obtain ⟨low, high⟩ := Char.isDigit_iff_toNat.mp digit
    have other : ∀ code < 58, 48 ≤ code → (Char.ofNat code).isAlpha = false := by decide
    rw [Option.any_some, ← Char.ofNat_toNat c]
    exact other c.toNat (Nat.lt_succ_of_le high) low

theorem head_integer (n : Int) : (toString n).toList.head?.any Char.isAlpha = false := by
  rw [show toString n = n.repr from rfl, Int.repr_eq_if]
  split
  · exact head_natural n.toNat
  · rw [String.toList_append]
    rfl

theorem dumpTexts_text : DumpTexts JsonText.dump := by
  constructor
  · intro name v literal
    cases literal with
    | null | true | false => rfl
    | float special => simp [JsonText.dump, JsonText.text, special]
  · intro name v dumped letter
    obtain rfl : String.ofList (JsonText.text v) = name := by simpa [JsonText.dump] using dumped
    rw [String.toList_ofList] at letter
    cases v with
    | null => exact .null
    | boolean b =>
      cases b with
      | false => exact .false
      | true => exact .true
    | integer n =>
      rw [JsonText.text, head_integer] at letter
      cases letter
    | float bits =>
      cases special : Json.isFinite bits with
      | false => simpa [JsonText.text, special] using Literal.float special
      | true =>
        simp only [JsonText.text, special, if_true] at letter
        exact absurd letter (by decide)
    | string | array | object =>
      simp [JsonText.text, JsonText.quoted] at letter

theorem names_field_iff_missing :
    ∃ what, Exn.invalidParameter "p" = .invalidParameter what ∧
      passed JsonText.dump 3 MethodErrors.keep parameterRegistry.service
          (parameterCall [("e", .string "a")]) 0 [] =
        [errorObject "org.varlink.service.InvalidParameter"
          (.object [("parameter", .string what)])] ∧
      NamesField JsonText.dump undeclared (.struct parameterFields)
        (.object [("e", .string "a")]) what := by
  have known : parameterRegistry.service.findInterface
      (parameterCall [("e", .string "a")]).interface = some parameterEntry := rfl
  have declares : parameterEntry.spec.Declares (parameterCall [("e", .string "a")]).method
      parameterMethod := ⟨List.mem_singleton_self _, rfl, rfl⟩
  have rejected : checkType JsonText.dump 3 parameterEntry.spec
      (parameterCall [("e", .string "a")]).parameters parameterType =
        .error (.thrown (.invalidParameter "p")) := rfl
  have enum : FieldConforms undeclared [("e", .string "a")] ("e", .enum ["a", "b"]) :=
    fieldConforms_iff.mpr ⟨nofun, fun _ => .enum List.mem_cons_self⟩
  have blamed : Blamed undeclared parameterType (.struct parameterFields) false "<root>"
      (.object [("e", .string "a")]) (.field "p") := by
    have split : parameterFields = [("e", .enum ["a", "b"])] ++ ("p", .named "string") :: [] := rfl
    refine .missing rfl split (fun g member => ?_) rfl rfl
    obtain rfl := List.mem_singleton.mp member
    exact ⟨enum, unhindered_field_iff.mpr fun _ => .enum rfl⟩
  refine ((names_field_iff MethodErrors.dumpErrors_text dumpTexts_text parameterRegistry known
    declares declares_undeclared rfl 0 [] rejected).1 ⟨_, blamed⟩).mpr
      ⟨"p", blamed, fun value literal => ?_⟩
  exact absurd literal.word (by decide)

/-- The enum `e` is given a number, and the number is reported. -/
theorem enum_value_reported :
    checkType JsonText.dump 3 parameterEntry.spec
        (parameterCall [("e", .integer 5), ("p", .string "x")]).parameters parameterType =
      .error (.thrown (.invalidParameter "5")) ∧
    passed JsonText.dump 3 MethodErrors.keep parameterRegistry.service
        (parameterCall [("e", .integer 5), ("p", .string "x")]) 0 [] =
      [errorObject "org.varlink.service.InvalidParameter" (.object [("parameter", .string "5")])] ∧
    ¬NamesField JsonText.dump undeclared (.struct parameterFields)
      (.object [("e", .integer 5), ("p", .string "x")]) "5" := by
  refine ⟨rfl, rfl, fun names => names.text (.integer 5) ?_ rfl⟩
  refine ⟨_, .field List.mem_cons_self rfl .here, fun conforms => ?_⟩
  cases conforms

end Varlink.ParameterNames
