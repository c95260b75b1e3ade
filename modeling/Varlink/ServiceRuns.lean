import Varlink.ServiceCallbacks

/-! A `varlink_service` from its constructor on, through calls of `add_interface` that may
throw. The two callbacks of the service itself have captured `this`: what they do depends on
the interfaces there are when they are called. -/

namespace Varlink

inductive BoundCallback where
  | given (f : CallbackFunction)
  | getInfo
  | getInterfaceDescription

/-- `interface_entry`. -/
structure LiveEntry where
  spec : VarlinkInterface
  callbacks : List (String × Option BoundCallback)

structure LiveService where
  desc : Description
  interfaces : List LiveEntry := []

namespace LiveService

def findInterface (s : LiveService) (ifname : String) : Option LiveEntry :=
  s.interfaces.find? fun i => ifname == i.spec.ifname

def addInterface (interface : VarlinkInterface)
    (callbacks : List (String × Option BoundCallback)) : Action LiveService Unit := fun s =>
  match s.findInterface interface.ifname with
  | none =>
    if callbacks.all fun callback => interface.hasMethod callback.1 then
      (.ok (), { s with interfaces := s.interfaces ++ [⟨interface, callbacks⟩] })
    else (.error (.thrown (.standard .invalidArgument "Callback for unknown method")), s)
  | some _ => (.error (.thrown (.standard .invalidArgument "Interface already exists!")), s)

def addDefinition (stack : Nat) (definition : String)
    (callbacks : List (String × Option BoundCallback)) : Action LiveService Unit := fun s =>
  match VarlinkInterface.construct stack definition with
  | .ok interface => addInterface interface callbacks s
  | .error stop => (.error stop, s)

def ownCallbacks : List (String × Option BoundCallback) :=
  [("GetInfo", some .getInfo), ("GetInterfaceDescription", some .getInterfaceDescription)]

def construct (stack : Nat) (desc : Description) : Except Stop Unit × LiveService :=
  addDefinition stack orgVarlinkServiceVarlink ownCallbacks { desc }

def resolve (s : LiveService) : BoundCallback → CallbackFunction
  | .given f => f
  | .getInfo => Varlink.getInfo s.desc (s.interfaces.map (·.spec))
  | .getInterfaceDescription => Varlink.getInterfaceDescription (s.interfaces.map (·.spec))

def LiveEntry.resolve (s : LiveService) (entry : LiveEntry) : InterfaceEntry where
  spec := entry.spec
  callbacks := entry.callbacks.map fun callback => (callback.1, callback.2.map s.resolve)

def service (s : LiveService) : VarlinkService where
  desc := s.desc
  interfaces := s.interfaces.map (LiveEntry.resolve s)

def bound (callbacks : List (String × Option CallbackFunction)) :
    List (String × Option BoundCallback) :=
  callbacks.map fun callback => (callback.1, callback.2.map .given)

/-- A call of `add_interface`, with an interface that has been read before or with a text. -/
inductive AddCall where
  | interface (spec : VarlinkInterface) (constructed : spec.Constructed) (callbacks : CallbackMap)
  | definition (text : String) (stack : Nat) (callbacks : CallbackMap)

namespace AddCall

def run : AddCall → Action LiveService Unit
  | .interface spec _ callbacks => addInterface spec (bound callbacks.entries)
  | .definition text stack callbacks => addDefinition stack text (bound callbacks.entries)

def spec : AddCall → Except Stop VarlinkInterface
  | .interface spec _ _ => .ok spec
  | .definition text stack _ => VarlinkInterface.construct stack text

def callbacks : AddCall → CallbackMap
  | .interface _ _ callbacks => callbacks
  | .definition _ _ callbacks => callbacks

end AddCall

/-- The calls so far, each with the exception it threw, and the service after them. -/
inductive Run (desc : Description) : List (AddCall × Option Exn) → LiveService → Prop where
  | start {stack : Nat} {s : LiveService} (made : construct stack desc = (.ok (), s)) :
    Run desc [] s
  | added {past : List (AddCall × Option Exn)} {s t : LiveService} {call : AddCall}
    (run : Run desc past s) (returns : call.run s = (.ok (), t)) :
    Run desc (past ++ [(call, none)]) t
  | threw {past : List (AddCall × Option Exn)} {s t : LiveService} {call : AddCall} {e : Exn}
    (run : Run desc past s) (throws : call.run s = (.error (.thrown e), t)) :
    Run desc (past ++ [(call, some e)]) t

/-- The names of the interfaces that were added, the service's own first. -/
def added (past : List (AddCall × Option Exn)) : List String :=
  "org.varlink.service" :: past.filterMap fun (call, thrown) =>
    if thrown.isNone then call.spec.toOption.map (·.ifname) else none

def names (s : LiveService) : List String := s.interfaces.map (·.spec.ifname)

/-- What a call of `add_interface` does: it throws and changes nothing, or adds one entry. -/
inductive Outcome (s : LiveService) (call : AddCall) : Except Stop Unit → LiveService → Prop where
  | unread {stop : Stop} (spec : call.spec = .error stop) : Outcome s call (.error stop) s
  | known {spec : VarlinkInterface} (read : call.spec = .ok spec) (known : spec.ifname ∈ s.names) :
    Outcome s call (.error (.thrown (.standard .invalidArgument "Interface already exists!"))) s
  | noMethod {spec : VarlinkInterface} {callback : String × Option CallbackFunction}
    (read : call.spec = .ok spec) (fresh : spec.ifname ∉ s.names)
    (registered : callback ∈ call.callbacks.entries) (other : spec.hasMethod callback.1 = false) :
    Outcome s call (.error (.thrown (.standard .invalidArgument "Callback for unknown method"))) s
  | added {spec : VarlinkInterface} (read : call.spec = .ok spec) (fresh : spec.ifname ∉ s.names)
    (methods : ∀ callback ∈ call.callbacks.entries, spec.hasMethod callback.1 = true) :
    Outcome s call (.ok ())
      { s with interfaces := s.interfaces ++ [⟨spec, bound call.callbacks.entries⟩] }

variable {s t : LiveService} {call : AddCall} {spec : VarlinkInterface} {desc : Description}
  {past : List (AddCall × Option Exn)}

theorem findInterface_eq_none_iff {ifname : String} :
    s.findInterface ifname = none ↔ ifname ∉ s.names := by
  rw [findInterface, List.find?_eq_none, names, List.mem_map]
  exact ⟨fun none ⟨entry, member, same⟩ => none entry member (beq_iff_eq.mpr same.symm),
    fun fresh entry member same => fresh ⟨entry, member, (beq_iff_eq.mp same).symm⟩⟩

theorem all_bound (callbacks : List (String × Option CallbackFunction)) (p : String → Bool) :
    ((bound callbacks).all fun callback => p callback.1) =
      callbacks.all fun callback => p callback.1 := by
  rw [bound, List.all_map]
  rfl

theorem AddCall.run_eq (call : AddCall) (s : LiveService) :
    call.run s = match call.spec with
      | .ok spec => addInterface spec (bound call.callbacks.entries) s
      | .error stop => (.error stop, s) := by
  cases call <;> rfl

theorem outcome (s : LiveService) (call : AddCall) :
    Outcome s call (call.run s).1 (call.run s).2 := by
  rw [AddCall.run_eq]
  cases read : call.spec with
  | error stop => exact .unread read
  | ok spec =>
    simp only [addInterface]
    cases found : s.findInterface spec.ifname with
    | some entry =>
      refine .known read (not_not.mp fun fresh => ?_)
      rw [findInterface_eq_none_iff.mpr fresh] at found
      cases found
    | none =>
      have fresh := findInterface_eq_none_iff.mp found
      dsimp only
      rw [all_bound]
      split
      next all => exact .added read fresh (List.all_eq_true.mp all)
      next some =>
        obtain ⟨callback, registered, other⟩ := List.all_eq_false.mp (Bool.eq_false_iff.mpr some)
        exact .noMethod read fresh registered (Bool.eq_false_iff.mpr other)

def ofRegistry (r : ServiceRegistry) : LiveService where
  desc := r.desc
  interfaces := ⟨r.spec, ownCallbacks⟩ ::
    r.added.map fun entry => ⟨entry.spec, bound entry.callbacks⟩

theorem names_ofRegistry (r : ServiceRegistry) :
    (ofRegistry r).names = r.spec.ifname :: r.added.map (·.spec.ifname) := by
  rw [names, ofRegistry, List.map_cons, List.map_map]
  rfl

theorem service_ofRegistry (r : ServiceRegistry) :
    (ofRegistry r).service = r.registry.service := by
  have specs : (ofRegistry r).interfaces.map (·.spec) = r.spec :: r.added.map (·.spec) := by
    rw [ofRegistry, List.map_cons, List.map_map]
    rfl
  have given (entry : InterfaceEntry) :
      LiveEntry.resolve (ofRegistry r) ⟨entry.spec, bound entry.callbacks⟩ = entry := by
    have same : (fun callback : String × Option CallbackFunction =>
        (callback.1, (callback.2.map BoundCallback.given).map (ofRegistry r).resolve)) = id := by
      funext ⟨name, f⟩
      cases f <;> rfl
    rw [LiveEntry.resolve, bound, List.map_map]
    exact congrArg (InterfaceEntry.mk entry.spec)
      ((congrArg (List.map · entry.callbacks) same).trans (List.map_id _))
  have own : LiveEntry.resolve (ofRegistry r) ⟨r.spec, ownCallbacks⟩ = r.own := by
    rw [LiveEntry.resolve, ServiceRegistry.own, ← specs]
    rfl
  rw [service, ServiceRegistry.registry, ofRegistry, List.map_cons, List.map_map]
  congr 1
  rw [← ofRegistry, own]
  congr 1
  exact (List.map_congr_left fun entry _ => given entry).trans (List.map_id _)

theorem AddCall.constructed (read : call.spec = .ok spec) : spec.Constructed := by
  cases call with
  | interface given constructed callbacks =>
    cases read
    exact constructed
  | definition text stack callbacks => exact ⟨stack, text, read⟩

theorem ofRegistry_added (r : ServiceRegistry) (constructed : spec.Constructed)
    (fresh : spec.ifname ∉ (ofRegistry r).names) (callbacks : CallbackMap) :
    ∃ r' : ServiceRegistry, r'.desc = r.desc ∧ ofRegistry r' = { ofRegistry r with
      interfaces := (ofRegistry r).interfaces ++ [⟨spec, bound callbacks.entries⟩] } := by
  rw [names_ofRegistry] at fresh
  refine ⟨{ r with
    added := r.added ++ [⟨spec, callbacks.entries⟩]
    constructed := List.forall_mem_append.mpr
      ⟨r.constructed, List.forall_mem_singleton.mpr constructed⟩
    names := ?_
    keys := List.forall_mem_append.mpr
      ⟨r.keys, List.forall_mem_singleton.mpr callbacks.keys⟩ }, rfl, ?_⟩
  · rw [List.map_append, ← List.cons_append, List.nodup_append]
    refine ⟨r.names, List.nodup_singleton _, fun name member other single => ?_⟩
    rw [List.mem_singleton.mp single]
    rintro rfl
    exact fresh member
  · simp [ofRegistry]

structure Invariant (desc : Description) (past : List (AddCall × Option Exn)) (s : LiveService) :
    Prop where
  registry : ∃ r : ServiceRegistry, r.desc = desc ∧ s = ofRegistry r
  methods : ∀ entry ∈ s.interfaces, ∀ callback ∈ entry.callbacks,
    entry.spec.hasMethod callback.1 = true
  listed : s.names = added past

theorem invariant_construct {stack : Nat} (made : construct stack desc = (.ok (), s)) :
    Invariant desc [] s := by
  rw [construct, addDefinition] at made
  split at made
  next spec read =>
    have declares := ServiceInterface.declares ⟨stack, read⟩
    simp only [addInterface, findInterface, List.find?_nil, List.nil_append] at made
    split at made
    next all =>
      cases made
      refine ⟨⟨{
        desc, spec
        read := ⟨stack, read⟩
        added := []
        constructed := nofun
        names := List.nodup_singleton _
        keys := nofun }, rfl, rfl⟩, List.forall_mem_singleton.mpr (List.all_eq_true.mp all), ?_⟩
      rw [added, ← declares.1]
      rfl
    next => cases made
  next => cases made

theorem Invariant.added (h : Invariant desc past s) (returns : call.run s = (.ok (), t)) :
    Invariant desc (past ++ [(call, none)]) t := by
  have step := outcome s call
  rw [returns] at step
  obtain ⟨r, same, rfl⟩ := h.registry
  cases step with
  | @added spec read fresh methods =>
    obtain ⟨r', kept, extended⟩ :=
      ofRegistry_added r (AddCall.constructed read) fresh call.callbacks
    refine ⟨⟨r', kept.trans same, extended.symm⟩, ?_, ?_⟩
    · refine List.forall_mem_append.mpr ⟨h.methods, List.forall_mem_singleton.mpr ?_⟩
      exact List.forall_mem_map.mpr methods
    · have name : call.spec.toOption = some spec := by
        rw [read]
        rfl
      have listed := h.listed
      simp only [LiveService.names, LiveService.added, List.map_append, List.filterMap_append]
        at listed ⊢
      rw [listed]
      simp [name]

theorem Invariant.threw (h : Invariant desc past s) {e : Exn}
    (throws : call.run s = (.error (.thrown e), t)) :
    Invariant desc (past ++ [(call, some e)]) t := by
  have step := outcome s call
  rw [throws] at step
  have listed : LiveService.added (past ++ [(call, some e)]) = LiveService.added past := by
    simp [LiveService.added]
  cases step <;> exact ⟨h.registry, h.methods, h.listed.trans listed.symm⟩

theorem invariant_run (run : Run desc past s) : Invariant desc past s := by
  induction run with
  | start made => exact invariant_construct made
  | added run returns ih => exact ih.added returns
  | threw run throws ih => exact ih.threw throws

end LiveService

section GetInfo

def info (desc : Description) (names : List String) : Object := [
  ("interfaces", .array (names.map .string)), ("product", .string desc.product),
  ("url", .string desc.url), ("vendor", .string desc.vendor), ("version", .string desc.version)]

def collect : Json → Action (List Json) Unit := fun reply replies => (.ok (), replies ++ [reply])

variable {types : String → Option TypeSpec} {desc : Description} {names : List String}

def infoSpec : TypeSpec where
  type := .struct (["vendor", "product", "version", "url"].map (fun name =>
    (name, ServiceInterface.stringSpec)) ++
      [("interfaces", { ServiceInterface.stringSpec with arrayType := true })])

theorem admits_info (none : ∀ name, types name = none) :
    Admits types infoSpec false (.object (info desc names)) := by
  have text (s : String) : Admits types ServiceInterface.stringSpec false (.string s) :=
    (ServiceInterface.admits_string_iff none).mpr ⟨s, rfl⟩
  have texts : Admits types { ServiceInterface.stringSpec with arrayType := true } false
      (.array (names.map .string)) :=
    .array rfl (List.forall_mem_map.mpr fun s _ => .primitive rfl rfl (.inl rfl) rfl)
  refine .struct rfl rfl ?_ ?_
  · simp [info, Json.member, Json.find?, List.lookup_cons, Json.isNull]
  · simp [info, Json.member, Json.find?, List.lookup_cons, Json.isNull, text, texts]

theorem messageCall_getInfo (r : ServiceRegistry) (dump : Dump) {message : VarlinkMessage}
    (interface : message.interface = "org.varlink.service") (method : message.method = "GetInfo")
    (mode : message.mode = .basic) (object : message.parameters.isObject = true) :
    ∃ n, ∀ stack, n ≤ stack → ∀ call,
      (messageCall dump stack collect r.registry.service message call []).2 =
        [.object [("parameters", .object (info r.desc (r.spec.ifname ::
          r.added.map (·.spec.ifname))))]] := by
  have none := ServiceInterface.types_eq_none r.read
  have constructed := ServiceInterface.constructed r.read
  obtain ⟨m, found, data⟩ := ServiceInterface.find_declared r.read List.mem_cons_self
  have declares : r.spec.Declares message.method m := by
    rw [method]
    exact (VarlinkInterface.method_eq_ok_iff constructed).mp found
  have first : m.methodType? 0 = some (ServiceInterface.ofStrings []).toSpec := by
    rw [Member.methodType?, data]
    rfl
  have second : m.methodType? 1 = some infoSpec := by
    rw [Member.methodType?, data]
    rfl
  have known : r.registry.service.findInterface message.interface = some r.own :=
    (r.registry.findInterface_eq_some_iff).mpr
      ⟨List.mem_cons_self, (ServiceInterface.declares r.read).1.trans interface.symm⟩
  have registered : (message.method,
      some (getInfo r.desc (r.spec :: r.added.map (·.spec)))) ∈ r.own.callbacks := by
    rw [method]
    exact List.mem_cons_self
  obtain ⟨n, taken⟩ : ∃ n, ∀ stack, n ≤ stack → ∀ name, validate dump r.spec (stack + 1)
      message.parameters (ServiceInterface.ofStrings []).toSpec name false = .ok () :=
    validate_of_admits ((ServiceInterface.admits_ofStrings_iff none).mpr
      ⟨object, fun field member => absurd member List.not_mem_nil⟩)
  obtain ⟨k, given⟩ : ∃ k, ∀ stack, k ≤ stack → ∀ name, validate dump r.spec (stack + 1)
      (.object (info r.desc (r.spec.ifname :: r.added.map (·.spec.ifname)))) infoSpec name false =
        .ok () :=
    validate_of_admits (admits_info none)
  refine ⟨max n k + 1, fun stack le call => ?_⟩
  obtain ⟨stack, rfl⟩ : ∃ j, stack = j + 1 := ⟨stack - 1, by omega⟩
  have looked := (Dispatch.lookupCallback_eq_ok_iff constructed (r.registry.keys r.own
    List.mem_cons_self)).mpr ⟨m, _, _, declares, first, second, taken stack (by omega) _,
      registered, rfl⟩
  have called : lookupCall dump (stack + 1) r.own message call = _ :=
    Dispatch.lookupCall_eq r.own message call
  rw [looked] at called
  have returned : callMethod dump (stack + 1) collect r.own message call [] = _ :=
    callMethod_found called []
  rw [mode] at returned
  have names : (r.spec :: r.added.map (·.spec)).map (·.ifname) =
      r.spec.ifname :: r.added.map (·.spec.ifname) := by
    rw [List.map_cons, List.map_map]
    rfl
  have sent : getInfo r.desc (r.spec :: r.added.map (·.spec)) call message.parameters .basic =
      .sendReply (info r.desc (r.spec.ifname :: r.added.map (·.spec.ifname))) false passOn := by
    rw [← names, info, List.map_map]
    rfl
  have answer : checkType dump (stack + 1) r.own.spec
      (.object (info r.desc (r.spec.ifname :: r.added.map (·.spec.ifname)))) infoSpec = .ok () :=
    given stack (by omega) "<root>"
  have replied : (ReplyHandler.mk .basic r.own.spec infoSpec).reply dump (stack + 1)
      (info r.desc (r.spec.ifname :: r.added.map (·.spec.ifname))) false =
        .ok (.object [("parameters",
          .object (info r.desc (r.spec.ifname :: r.added.map (·.spec.ifname))))]) := by
    rw [ReplyHandler.reply, answer]
    rfl
  simp only [sent, Behaviour.run, ReplyHandler.call, replied, collect, passOn, List.nil_append]
    at returned
  rw [messageCall_returned known returned]

end GetInfo

theorem VarlinkInterface.hasMethod_iff {i : VarlinkInterface} {name : String} :
    i.hasMethod name = true ↔ ∃ m, i.Declares name m := by
  rw [hasMethod, hasMember, List.any_eq_true]
  constructor
  · rintro ⟨m, member, found⟩
    simp only [matchesMember, Bool.and_eq_true, Bool.or_eq_true, beq_iff_eq] at found
    exact ⟨m, member, found.2.resolve_right (by rintro ⟨⟩), found.1⟩
  · rintro ⟨m, member, kind, named⟩
    exact ⟨m, member, by simp [matchesMember, kind, named]⟩

namespace LiveService

theorem addDefinition_of_read {stack : Nat} {definition : String} {spec : VarlinkInterface}
    (read : VarlinkInterface.construct stack definition = .ok spec)
    (callbacks : List (String × Option BoundCallback)) :
    addDefinition stack definition callbacks = addInterface spec callbacks := by
  funext s
  rw [addDefinition, read]

theorem construct_eq_ok {stack : Nat} {desc : Description} {spec : VarlinkInterface}
    (read : VarlinkInterface.construct stack orgVarlinkServiceVarlink = .ok spec) :
    construct stack desc = (.ok (), ⟨desc, [⟨spec, ownCallbacks⟩]⟩) := by
  have declared {e : MemberExpr} (member : e ∈ ServiceInterface.declared.members)
      (kind : e.kind = .method) : spec.hasMethod e.name = true := by
    obtain ⟨m, found, -⟩ := ServiceInterface.find_declared ⟨stack, read⟩ member
    rw [kind] at found
    exact VarlinkInterface.hasMethod_iff.mpr ⟨m, (VarlinkInterface.method_eq_ok_iff
      (ServiceInterface.constructed ⟨stack, read⟩)).mp found⟩
  have info : spec.hasMethod "GetInfo" = true := declared List.mem_cons_self rfl
  have description : spec.hasMethod "GetInterfaceDescription" = true :=
    declared (List.mem_cons_of_mem _ List.mem_cons_self) rfl
  rw [construct, addDefinition_of_read read]
  simp [addInterface, findInterface, ownCallbacks, info, description]

/-- What holds of every service, whatever calls of `add_interface` it has seen. -/
structure Registered (desc : Description) (past : List (AddCall × Option Exn)) (s : LiveService) :
    Prop where
  names : s.names.Nodup
  first : s.names.head? = some "org.varlink.service"
  callbacks : ∀ entry ∈ s.interfaces, ∀ callback ∈ entry.callbacks,
    ∃ m, entry.spec.Declares callback.1 m
  members : ∀ entry ∈ s.interfaces, (entry.spec.members.map (·.name)).Nodup
  outcome : ∀ call : AddCall, Outcome s call (call.run s).1 (call.run s).2
  unchanged : ∀ (call : AddCall) stop t, call.run s = (.error stop, t) → t = s
  listed : s.names = added past
  answered : ∀ (dump : Dump) (message : VarlinkMessage), message.interface = "org.varlink.service" →
    message.method = "GetInfo" → message.mode = .basic → message.parameters.isObject = true →
    ∃ n, ∀ stack, n ≤ stack → ∀ call, (messageCall dump stack collect s.service message call []).2 =
      [.object [("parameters", .object (info desc (added past)))]]

variable {desc : Description} {past : List (AddCall × Option Exn)} {s : LiveService}

theorem constructed_of_mem {r : ServiceRegistry} {entry : LiveEntry}
    (member : entry ∈ (ofRegistry r).interfaces) : entry.spec.Constructed := by
  rcases List.mem_cons.mp member with rfl | later
  · exact ServiceInterface.constructed r.read
  · obtain ⟨entry, given, rfl⟩ := List.mem_map.mp later
    exact r.constructed entry given

/-- Every service that can be reached has a registry of distinct names, its own interface
first; what throws changes nothing, and `GetInfo` lists what has been added. -/
theorem registered_of_run (run : Run desc past s) : Registered desc past s := by
  have held := invariant_run run
  obtain ⟨r, rfl, rfl⟩ := held.registry
  have listed : r.spec.ifname :: r.added.map (·.spec.ifname) = added past :=
    (names_ofRegistry r).symm.trans held.listed
  refine {
    names := by
      rw [names_ofRegistry]
      exact r.names
    first := by
      rw [held.listed]
      rfl
    callbacks := fun entry member callback registered =>
      VarlinkInterface.hasMethod_iff.mp (held.methods entry member callback registered)
    members := fun entry member =>
      (distinct_names (constructed_of_mem member).wellFormed.distinct).2
    outcome := outcome _
    unchanged := ?_
    listed := held.listed
    answered := ?_ }
  · intro call stop t throws
    have step := outcome (ofRegistry r) call
    rw [throws] at step
    cases step <;> rfl
  · intro dump message interface method mode object
    rw [service_ofRegistry, ← listed]
    exact messageCall_getInfo r dump interface method mode object

def addPing : AddCall :=
  .definition "interface org.test\nmethod Ping() -> ()" 3 ⟨[("Ping", none)], by simp⟩

theorem registered_of_run_twice : ∃ past s, added past = ["org.varlink.service", "org.test"] ∧
    past.length = 2 ∧ Registered {} past s := by
  obtain ⟨spec, stack, read⟩ := ServiceInterface.exists_isServiceInterface
  have own : spec.ifname = "org.varlink.service" := (ServiceInterface.declares ⟨stack, read⟩).1
  let ping := (pingEntry fun _ _ _ => .returns []).spec
  have called : addPing.spec = .ok ping := rfl
  have once : addPing.run ⟨{}, [⟨spec, ownCallbacks⟩]⟩ =
      (.ok (), ⟨{}, [⟨spec, ownCallbacks⟩, ⟨ping, bound addPing.callbacks.entries⟩]⟩) := by
    rw [AddCall.run_eq, called]
    simp only [addInterface, findInterface, List.find?_cons, own]
    rfl
  have twice : addPing.run ⟨{}, [⟨spec, ownCallbacks⟩, ⟨ping, bound addPing.callbacks.entries⟩]⟩ =
      (.error (.thrown (.standard .invalidArgument "Interface already exists!")),
        ⟨{}, [⟨spec, ownCallbacks⟩, ⟨ping, bound addPing.callbacks.entries⟩]⟩) := by
    rw [AddCall.run_eq, called]
    simp only [addInterface, findInterface, List.find?_cons, own]
    rfl
  have start : Run {} [] ⟨{}, [⟨spec, ownCallbacks⟩]⟩ := .start (construct_eq_ok read)
  exact ⟨_, _, rfl, rfl, registered_of_run (.threw (.added start once) twice)⟩

end LiveService

end Varlink
