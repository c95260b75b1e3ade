import Varlink.Message

/-! The messages that a client builds, and what a service reads out of them. -/

namespace Varlink

/-- `json["key"] = value` on an object, which keeps its members ordered by key. -/
def setMember (key : String) (value : Json) : Object → Object
  | [] => [(key, value)]
  | (k, v) :: rest =>
    if key < k then (key, value) :: (k, v) :: rest
    else if key = k then (key, value) :: rest
    else (k, v) :: setMember key value rest

def Json.isEmpty : Json → Bool
  | .null => true
  | .array elements => elements.isEmpty
  | .object members => members.isEmpty
  | _ => false

namespace VarlinkMessage

def modeFlag : Callmode → Option String
  | .basic => none
  | .oneway => some "oneway"
  | .more => some "more"
  | .upgrade => some "upgrade"

def build (method : String) (parameters : Json) (mode : Callmode := .basic) :
    Except Exn VarlinkMessage :=
  let json := [("method", Json.string method)]
  if !parameters.isNull && !parameters.isObject then
    .error (.standard .invalidArgument "parameters is not an object")
  else
    let json := if !parameters.isEmpty then setMember "parameters" parameters json else json
    let json := match modeFlag mode with
      | none => json
      | some key => setMember key (.boolean true) json
    .ok ⟨.object json, mode⟩

def fqmethod (m : VarlinkMessage) : String := (m.json.member "method").getString

structure SameCall (a b : VarlinkMessage) : Prop where
  mode : a.mode = b.mode
  interface : a.interface = b.interface
  method : a.method = b.method
  parameters : a.parameters = b.parameters

end VarlinkMessage

theorem lookup_setMember (key : String) (value : Json) (members : Object) :
    (setMember key value members).lookup key = some value := by
  induction members with
  | nil => simp [setMember]
  | cons m rest ih =>
    obtain ⟨k, v⟩ := m
    rw [setMember]
    split
    next => simp
    next =>
      split
      next => simp
      next other => rw [List.lookup_cons, beq_false_of_ne other, ih]

theorem lookup_setMember_of_ne {key other : String} (h : other ≠ key) (value : Json)
    (members : Object) : (setMember key value members).lookup other = members.lookup other := by
  induction members with
  | nil => simp [setMember, h]
  | cons m rest ih =>
    obtain ⟨k, v⟩ := m
    rw [setMember]
    split
    next => rw [List.lookup_cons, beq_false_of_ne h]
    next =>
      split
      next same => rw [List.lookup_cons, List.lookup_cons, ← same, beq_false_of_ne h]
      next => rw [List.lookup_cons, List.lookup_cons, ih]

namespace VarlinkMessage

variable {method : String} {parameters : Json} {mode : Callmode} {message : VarlinkMessage}

structure Carries (message : VarlinkMessage) (method : String) (parameters : Json)
    (mode : Callmode) : Prop where
  mode_eq : message.mode = mode
  isObject : message.json.isObject = true
  method_eq : message.json.find? "method" = some (.string method)
  parameters_eq : message.json.find? "parameters" =
    if parameters.isEmpty then none else some parameters
  flags : ∀ key ∈ ["more", "oneway", "upgrade"], message.json.find? key =
    if modeFlag mode = some key then some (.boolean true) else none

theorem build_carries (method : String) (mode : Callmode)
    (object : parameters.isNull = true ∨ parameters.isObject = true) :
    ∃ message, build method parameters mode = .ok message ∧
      Carries message method parameters mode := by
  have given : (!parameters.isNull && !parameters.isObject) = false := by
    rcases object with h | h <;> simp [h]
  rw [build, given]
  refine ⟨_, rfl, rfl, rfl, ?_, ?_, ?_⟩
  all_goals
    cases mode <;> cases parameters.isEmpty <;>
      simp [Json.find?, modeFlag, lookup_setMember, lookup_setMember_of_ne,
        List.lookup_cons, -List.lookup_eq_none_iff]

namespace Carries

variable (h : Carries message method parameters mode)
include h

theorem member_method : message.json.member "method" = .string method := by
  rw [Json.member, h.method_eq]
  rfl

theorem fqmethod_eq : message.fqmethod = method := by
  rw [fqmethod, h.member_method]
  rfl

theorem parameters_of (object : parameters.isNull = true ∨ parameters.isObject = true) :
    message.parameters = if parameters.isNull then .object [] else parameters := by
  rw [VarlinkMessage.parameters, Json.contains, Json.member, h.parameters_eq]
  rcases object with null | object
  · cases parameters <;> first | rfl | cases null
  · obtain ⟨members, rfl⟩ := Json.isObject_iff.mp object
    cases members <;> rfl

theorem flag_eq {key : String} (known : key ∈ ["more", "oneway", "upgrade"]) :
    flag key message.json = .ok (modeFlag mode = some key) := by
  rw [flag, Json.contains, Json.member, h.flags key known]
  by_cases set : modeFlag mode = some key
  · simp [set, getBool]
  · simp [set]

theorem ofJson_eq (object : parameters.isNull = true ∨ parameters.isObject = true) (dump : Dump) :
    VarlinkMessage.ofJson dump message.json = .ok message := by
  have shape : (message.json.contains "parameters" &&
      !(message.json.member "parameters").isObject) = false := by
    rw [Json.contains, Json.member, h.parameters_eq]
    rcases object with null | object
    · cases parameters <;> first | rfl | cases null
    · cases empty : parameters.isEmpty <;> simp [object]
  have named : message.json.contains "method" = true := by
    rw [Json.contains, h.method_eq]
    rfl
  have text : (message.json.member "method").isString = true := by
    rw [h.member_method]
    rfl
  rw [VarlinkMessage.ofJson, h.isObject, named, text, shape, h.flag_eq (by simp),
    h.flag_eq (by simp), h.flag_eq (by simp)]
  obtain ⟨json, found⟩ := message
  cases mode <;> (cases h.mode_eq; rfl)

end Carries

theorem sameCall_of_fqmethod {a b : VarlinkMessage} (mode : a.mode = b.mode)
    (fqmethod : a.fqmethod = b.fqmethod) (parameters : a.parameters = b.parameters) :
    SameCall a b := by
  refine ⟨mode, ?_, ?_, parameters⟩
  · unfold VarlinkMessage.fqmethod at fqmethod
    rw [VarlinkMessage.interface, VarlinkMessage.interface, fqmethod]
  · unfold VarlinkMessage.fqmethod at fqmethod
    rw [VarlinkMessage.method, VarlinkMessage.method, fqmethod]

theorem parameters_isObject {dump : Dump} {json : Json}
    (ok : VarlinkMessage.ofJson dump json = .ok message) :
    message.parameters.isObject = true := by
  rw [VarlinkMessage.ofJson] at ok
  split at ok
  next => split at ok <;> cases ok
  next valid =>
    have read : message.json = json := by
      obtain ⟨more, -, ok⟩ := of_bind_eq_ok ok
      cases more with
      | true => cases ok; rfl
      | false =>
        obtain ⟨oneway, -, ok⟩ := of_bind_eq_ok ok
        cases oneway with
        | true => cases ok; rfl
        | false =>
          obtain ⟨upgrade, -, ok⟩ := of_bind_eq_ok ok
          cases upgrade <;> (cases ok; rfl)
    rw [VarlinkMessage.parameters, read]
    split
    next given =>
      rw [Bool.not_eq_true, Bool.or_eq_false_iff] at valid
      simpa [given] using valid.2
    next => rfl

/-- Messages survive the wire: what a client builds is accepted with what it was built from,
and any accepted message, built anew from what it says, is the same call. -/
theorem survives_wire (dump : Dump) :
    (∀ method parameters mode, parameters.isNull = true ∨ parameters.isObject = true →
      ∃ message decoded, build method parameters mode = .ok message ∧
        VarlinkMessage.ofJson dump message.json = .ok decoded ∧ SameCall decoded message ∧
        decoded.mode = mode ∧ decoded.fqmethod = method ∧
        decoded.parameters = if parameters.isNull then .object [] else parameters) ∧
    ∀ json m, VarlinkMessage.ofJson dump json = .ok m →
      ∃ rebuilt decoded, build m.fqmethod m.parameters m.mode = .ok rebuilt ∧
        VarlinkMessage.ofJson dump rebuilt.json = .ok decoded ∧ SameCall decoded m := by
  constructor
  · intro method parameters mode object
    obtain ⟨message, built, carries⟩ := build_carries method mode object
    exact ⟨message, message, built, carries.ofJson_eq object dump, ⟨rfl, rfl, rfl, rfl⟩,
      carries.mode_eq, carries.fqmethod_eq, carries.parameters_of object⟩
  · intro json m accepted
    have object := parameters_isObject accepted
    obtain ⟨rebuilt, built, carries⟩ :=
      build_carries m.fqmethod m.mode (.inr object)
    refine ⟨rebuilt, rebuilt, built, carries.ofJson_eq (.inr object) dump, ?_⟩
    refine sameCall_of_fqmethod carries.mode_eq carries.fqmethod_eq ?_
    rw [carries.parameters_of (.inr object), if_neg]
    obtain ⟨members, shape⟩ := Json.isObject_iff.mp object
    rw [shape]
    exact Bool.false_ne_true

end VarlinkMessage

end Varlink
