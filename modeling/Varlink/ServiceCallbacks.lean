import Varlink.MethodErrors
import Varlink.ServiceDescription

/-! The callbacks of `org.varlink.service`, and the registries that the constructor of
`varlink_service` and `add_interface` build: the service's own interface comes first. -/

namespace Varlink

/-- What `send_reply` throws is not caught, and nothing is done behind it. -/
def passOn : Option Exn → Behaviour
  | none => .returns []
  | some e => .throws e

def getInfo (desc : Description) (interfaces : List VarlinkInterface) : CallbackFunction :=
  fun _ _ _ => .sendReply [
    ("interfaces", .array (interfaces.map fun i => .string i.ifname)),
    ("product", .string desc.product), ("url", .string desc.url),
    ("vendor", .string desc.vendor), ("version", .string desc.version)] false passOn

def getInterfaceDescription (interfaces : List VarlinkInterface) : CallbackFunction :=
  fun _ parameters _ =>
    match parameters.member "interface" with
    | .string ifname =>
      match interfaces.find? fun i => ifname == i.ifname with
      | some i => .sendReply [("description", .string (String.ofList i.toText))] false passOn
      | none => .throws (.varlinkError "org.varlink.service.InterfaceNotFound"
          (.object [("interface", .string ifname)]))
    -- `get<std::string>()`; the parameters have been checked, so it does not come to this
    | _ => .throws (.standard .json "type must be string")

structure ServiceRegistry where
  desc : Description
  spec : VarlinkInterface
  read : IsServiceInterface spec
  added : List InterfaceEntry
  constructed : ∀ entry ∈ added, entry.spec.Constructed
  names : (spec.ifname :: added.map (·.spec.ifname)).Nodup
  keys : ∀ entry ∈ added, (entry.callbacks.map (·.1)).Nodup

namespace ServiceRegistry

/-- The entry of the service's own interface. Its callbacks read the registry. -/
def own (r : ServiceRegistry) : InterfaceEntry where
  spec := r.spec
  callbacks := [
    ("GetInfo", some (getInfo r.desc (r.spec :: r.added.map (·.spec)))),
    ("GetInterfaceDescription",
      some (getInterfaceDescription (r.spec :: r.added.map (·.spec))))]

def registry (r : ServiceRegistry) : Registry where
  service := ⟨r.desc, r.own :: r.added⟩
  constructed := List.forall_mem_cons.mpr ⟨ServiceInterface.constructed r.read, r.constructed⟩
  names := r.names
  keys := List.forall_mem_cons.mpr
    ⟨(by decide : ["GetInfo", "GetInterfaceDescription"].Nodup), r.keys⟩

end ServiceRegistry

namespace ServiceInterface

open MethodErrors

variable {σ : Type} {dump : Dump} {stack : Nat} {replySender : Json → Action σ Unit}

theorem not_endsOwn_passOn {sendReply : Object → Bool → Action σ Unit} {params : Object}
    {continues : Bool} {last : Option Exn} {s : σ} {e : Exn} :
    ¬EndsOwn sendReply (.sendReply params continues passOn) last s e := by
  intro ends
  simp only [EndsOwn] at ends
  split at ends
  · exact ends
  · obtain ⟨rfl, other⟩ := ends
    exact other rfl
  · exact ends

def stringSpec : TypeSpec := { type := .string "string" }

theorem toSpec_ofStrings (fields : List String) :
    (ofStrings fields).toSpec =
      { type := .struct (fields.map fun name => (name, stringSpec)) } := by
  rw [ofStrings, TypeExpr.toSpec, TypeExpr.fieldSpecs_eq_map, List.map_map]
  rfl

theorem admits_string_iff {types : String → Option TypeSpec} (none : ∀ name, types name = none)
    {v : Json} : Admits types stringSpec false v ↔ ∃ text, v = .string text := by
  constructor
  · intro admits
    cases admits with
    | enum type => cases type
    | dict flag => cases flag
    | array flag => cases flag
    | primitive type free bare primitive =>
      cases type
      exact Json.isString_iff.mp (by simpa [isPrimitive] using primitive)
    | named type free bare other found => cases (none _).symm.trans found
    | struct type => cases type
  · rintro ⟨text, rfl⟩
    exact .primitive rfl rfl (.inr rfl) rfl

theorem admits_ofStrings_iff {types : String → Option TypeSpec} (none : ∀ name, types name = none)
    {fields : List String} {v : Json} : Admits types (ofStrings fields).toSpec false v ↔
      v.isObject = true ∧ ∀ field ∈ fields, ∃ text, v.member field = .string text := by
  rw [toSpec_ofStrings]
  constructor
  · intro admits
    cases admits with
    | enum type => cases type
    | dict flag => cases flag
    | array flag => cases flag
    | primitive type => cases type
    | named type => cases type
    | struct type free optional present =>
      cases type
      refine ⟨rfl, fun field listed => ?_⟩
      have member := List.mem_map_of_mem (f := fun name => (name, stringSpec)) listed
      cases null : (Json.object _ |>.member field).isNull with
      | true => cases optional _ member null
      | false => exact (admits_string_iff none).mp (present _ member null)
  · rintro ⟨object, strings⟩
    obtain ⟨members, rfl⟩ := Json.isObject_iff.mp object
    refine .struct rfl rfl (List.forall_mem_map.mpr fun field listed null => ?_)
      (List.forall_mem_map.mpr fun field listed _ => (admits_string_iff none).mpr
        (strings field listed))
    obtain ⟨text, same⟩ := strings field listed
    rw [same] at null
    cases null

theorem interface_is_string (r : ServiceRegistry) {message : VarlinkMessage}
    (method : message.method = "GetInterfaceDescription") {h : ReplyHandler} {f : CallbackFunction}
    (found : lookupCallback dump stack r.own message = .ok (h, f)) :
    ∃ ifname, message.parameters.member "interface" = .string ifname := by
  have constructed := ServiceInterface.constructed r.read
  obtain ⟨m, parameters, returnValue, declares, first, -, checked, -⟩ :=
    (Dispatch.lookupCallback_eq_ok_iff (r.registry.constructed r.own List.mem_cons_self)
      (r.registry.keys r.own List.mem_cons_self)).mp found
  have listed : MemberExpr.method "GetInterfaceDescription" (ofStrings ["interface"])
      (ofStrings ["description"]) ∈ declared.members := List.mem_cons_of_mem _ List.mem_cons_self
  obtain ⟨m', other, data⟩ := find_declared r.read listed
  have same := (VarlinkInterface.method_eq_ok_iff constructed).mpr declares
  rw [method] at same
  obtain rfl : m = m' := Except.ok.inj (same.symm.trans other)
  rw [Member.methodType?, data] at first
  obtain rfl : (ofStrings ["interface"]).toSpec = parameters := Option.some_inj.mp first
  have admits := admits_of_validate checked
  exact ((admits_ofStrings_iff (types_eq_none r.read)).mp admits).2 _ List.mem_cons_self

theorem own_throws (r : ServiceRegistry) {message : VarlinkMessage} {call : Nat}
    {handler : ReplyHandler} {behaviour : Behaviour} {s : σ} {e : Exn}
    (found : lookupCall dump stack r.own message call = .ok (handler, behaviour))
    (ends : EndsOwn (handler.call dump stack replySender) behaviour none s e) :
    ∃ ifname, e = .varlinkError "org.varlink.service.InterfaceNotFound"
      (.object [("interface", .string ifname)]) := by
  rw [Dispatch.lookupCall_eq] at found
  cases looked : lookupCallback dump stack r.own message with
  | error stop => simp [looked, Except.map] at found
  | ok p =>
    obtain ⟨h, f⟩ := p
    have constructed := r.registry.constructed r.own List.mem_cons_self
    have keys := r.registry.keys r.own List.mem_cons_self
    obtain ⟨m, parameters, returnValue, declares, -, -, -, registered, -⟩ :=
      (Dispatch.lookupCallback_eq_ok_iff constructed keys).mp looked
    simp only [looked, Except.map, Except.ok.injEq, Prod.mk.injEq] at found
    obtain ⟨rfl, rfl⟩ := found
    rcases List.mem_cons.mp registered with info | description
    · cases Option.some_inj.mp (Prod.mk.inj info).2
      exact absurd ends not_endsOwn_passOn
    · obtain ⟨method, same⟩ := Prod.mk.inj (List.mem_singleton.mp description)
      cases Option.some_inj.mp same
      obtain ⟨ifname, passed⟩ := interface_is_string r method looked
      simp only [getInterfaceDescription, passed] at ends
      split at ends
      · exact absurd ends not_endsOwn_passOn
      · exact ⟨ifname, ends.1⟩

end ServiceInterface

end Varlink
