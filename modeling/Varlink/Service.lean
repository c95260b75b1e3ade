import Varlink.Interface
import Varlink.Message

/-! `varlink_service`: the registry of interfaces and `message_call`. The reply
sender is the caller's: a function on the caller's state that may also throw. A
callback is what it does with `send_reply`, which tells it how each call ended. -/

namespace Varlink

/-- A callback's run: after each `send_reply` it sees the exception, if any,
that the call threw, and goes on. The replies it issues from later events,
after it has returned, are listed where it returns. -/
inductive Behaviour where
  | returns (later : List (Object × Bool))
  | throws (e : Exn)
  | sendReply (params : Object) (continues : Bool) (next : Option Exn → Behaviour)

/-- `callback_function`. What a callback does may change from call to call:
the first argument numbers the calls. -/
abbrev CallbackFunction := Nat → Json → Callmode → Behaviour

structure InterfaceEntry where
  spec : VarlinkInterface
  /-- `callback_map`; `none` is an empty `std::function`. -/
  callbacks : List (String × Option CallbackFunction)

/-- `interface_entry::callback` and the call operator of an empty function. -/
def InterfaceEntry.callback (entry : InterfaceEntry) (methodname : String) :
    Except Exn CallbackFunction :=
  match entry.callbacks.lookup methodname with
  | none => .error .badFunctionCall
  | some none => .error .badFunctionCall
  | some (some f) => .ok f

structure Description where
  vendor : String := ""
  product : String := ""
  version : String := ""
  url : String := ""

structure VarlinkService where
  desc : Description
  interfaces : List InterfaceEntry

def VarlinkService.findInterface (service : VarlinkService) (ifname : String) :
    Option InterfaceEntry :=
  service.interfaces.find? fun i => ifname == i.spec.ifname

namespace Member

def methodTypeOrThrow (m : Member) (i : Nat) : Except Exn TypeSpec :=
  if m.kind == .method then
    match m.methodType? i with
    | some t => .ok t
    | none => .error (.standard .badVariantAccess "std::get: wrong index for variant")
  else .error (.standard .invalidArgument "Not a method")

def methodParameterType (m : Member) : Except Exn TypeSpec := m.methodTypeOrThrow 0
def methodReturnType (m : Member) : Except Exn TypeSpec := m.methodTypeOrThrow 1

end Member

def errorObject (what : String) (params : Json) : Json :=
  .object [("error", .string what), ("parameters", params)]

structure ReplyHandler where
  mode : Callmode
  interface : VarlinkInterface
  returnType : TypeSpec

section MessageCall
variable {σ : Type} (dump : Dump) (stack : Nat) (replySender : Json → Action σ Unit)

/-- `interface->validate(data, typespec)`. -/
def checkType (interface : VarlinkInterface) (data : Json) (typespec : TypeSpec) :
    Except Stop Unit :=
  validate dump interface stack data typespec "<root>" false

def replyValue (mode : Callmode) (params : Object) (continues : Bool) : Except Exn Json :=
  match mode with
  | .oneway => .ok .null
  | .more => .ok (.object [("continues", .boolean continues), ("parameters", .object params)])
  | .basic | .upgrade =>
    if continues then .error .badFunctionCall
    else .ok (.object [("parameters", .object params)])

def ReplyHandler.reply (h : ReplyHandler) (params : Object) (continues : Bool) :
    Except Stop Json := do
  checkType dump stack h.interface (.object params) h.returnType
  (replyValue h.mode params continues).mapError .thrown

def ReplyHandler.call (h : ReplyHandler) (params : Object) (continues : Bool) : Action σ Unit :=
  fun s =>
    match h.reply dump stack params continues with
    | .error e => (.error e, s)
    | .ok reply => replySender reply s

def Behaviour.run (sendReply : Object → Bool → Action σ Unit) :
    Behaviour → Action σ (List (Object × Bool))
  | .returns later, s => (.ok later, s)
  | .throws e, s => (.error (.thrown e), s)
  | .sendReply params continues next, s =>
    match sendReply params continues s with
    | (.ok (), t) => (next none).run sendReply t
    | (.error (.thrown e), t) => (next (some e)).run sendReply t
    | (.error stop, t) => (.error stop, t)

/-- The lambda `error`, whose `assert` is on. -/
def sendError (what : String) (params : Json) : Action σ Unit := fun s =>
  if params.isObject then replySender (errorObject what params) s else (.error .assertion, s)

/-- The error reply of each catch clause; none for `std::system_error`, and
for what no clause catches. -/
def Exn.errorReply (method : String) : Exn → Option (String × Json)
  | .outOfRange _ => some ("org.varlink.service.MethodNotFound",
      .object [("method", .string method)])
  | .badFunctionCall => some ("org.varlink.service.MethodNotImplemented",
      .object [("method", .string method)])
  | .invalidParameter what => some ("org.varlink.service.InvalidParameter",
      .object [("parameter", .string what)])
  | .varlinkError what args => some (what, args)
  | .systemError => none
  | .standard _ what => some ("org.varlink.service.InternalError",
      .object [("what", .string what)])
  | .foreign => none

/-- Replies a callback issues after `message_call` has returned, with the
closure it issues them through. -/
structure Deferred where
  handler : ReplyHandler
  replies : List (Object × Bool)

def lookupCall (entry : InterfaceEntry) (message : VarlinkMessage) (call : Nat) :
    Except Stop (ReplyHandler × Behaviour) := do
  let m ← (entry.spec.method message.method).mapError .thrown
  let parameterType ← m.methodParameterType.mapError .thrown
  checkType dump stack entry.spec message.parameters parameterType
  let returnType ← m.methodReturnType.mapError .thrown
  let callback ← (entry.callback message.method).mapError .thrown
  return (⟨message.mode, entry.spec, returnType⟩, callback call message.parameters message.mode)

def callMethod (entry : InterfaceEntry) (message : VarlinkMessage) (call : Nat) :
    Action σ Deferred := fun s =>
  match lookupCall dump stack entry message call with
  | .error e => (.error e, s)
  | .ok (handler, behaviour) =>
    let (result, t) := behaviour.run (handler.call dump stack replySender) s
    (result.map fun later => ⟨handler, later⟩, t)

def catchClauses (method : String) (e : Exn) : Action σ Unit := fun s =>
  match e.errorReply method, e with
  | some (what, params), _ => sendError replySender what params s
  | none, .systemError => (.ok (), s)
  | none, e => (.error (.thrown e), s)

/-- `message_call`. It is `noexcept`: ending with `thrown` is `std::terminate`. -/
def messageCall (service : VarlinkService) (message : VarlinkMessage) (call : Nat) :
    Action σ (Option Deferred) := fun s =>
  match service.findInterface message.interface with
  | none =>
    let (result, t) := sendError replySender "org.varlink.service.InterfaceNotFound"
      (.object [("interface", .string message.interface)]) s
    (result.map fun _ => none, t)
  | some entry =>
    match callMethod dump stack replySender entry message call s with
    | (.ok deferred, t) => (.ok (some deferred), t)
    | (.error (.thrown e), t) =>
      let (result, u) := catchClauses replySender (message.interface ++ "." ++ message.method) e t
      (result.map fun _ => none, u)
    | (.error stop, t) => (.error stop, t)

variable {dump stack replySender}

theorem lookupCall_found {entry : InterfaceEntry} {message : VarlinkMessage} {call : Nat}
    {handler : ReplyHandler} {behaviour : Behaviour}
    (found : lookupCall dump stack entry message call = .ok (handler, behaviour)) :
    ∃ m callback, entry.spec.method message.method = .ok m ∧
      m.methodReturnType = .ok handler.returnType ∧
      entry.callback message.method = .ok callback ∧
      handler.mode = message.mode ∧ handler.interface = entry.spec ∧
      behaviour = callback call message.parameters message.mode := by
  unfold lookupCall at found
  obtain ⟨m, method, found⟩ := of_bind_eq_ok found
  obtain ⟨parameterType, -, found⟩ := of_bind_eq_ok found
  obtain ⟨valid, -, found⟩ := of_bind_eq_ok found
  obtain ⟨returnType, returned, found⟩ := of_bind_eq_ok found
  obtain ⟨callback, registered, found⟩ := of_bind_eq_ok found
  cases found
  exact ⟨m, callback, of_mapError_eq_ok method, of_mapError_eq_ok returned,
    of_mapError_eq_ok registered, rfl, rfl, rfl⟩

theorem lookupCall_mode {entry : InterfaceEntry} {message : VarlinkMessage} {call : Nat}
    {handler : ReplyHandler} {behaviour : Behaviour}
    (found : lookupCall dump stack entry message call = .ok (handler, behaviour)) :
    handler.mode = message.mode := by
  obtain ⟨_, _, _, _, _, mode, _, _⟩ := lookupCall_found found
  exact mode

theorem Behaviour.run_invariant (inv : σ → Prop) {sendReply : Object → Bool → Action σ Unit}
    (kept : ∀ params continues s, inv s → inv (sendReply params continues s).2) (b : Behaviour)
    {s : σ} (start : inv s) : inv (b.run sendReply s).2 := by
  induction b generalizing s with
  | returns later => exact start
  | throws e => exact start
  | sendReply params continues next ih =>
    have one := kept params continues s start
    simp only [Behaviour.run]
    generalize sendReply params continues s = r at one ⊢
    rcases r with ⟨stop | ⟨⟨⟩⟩, t⟩
    · cases stop with
      | thrown e => exact ih (some e) one
      | stackOverflow => exact one
      | assertion => exact one
    · exact ih none one

theorem messageCall_invariant (inv : σ → Prop)
    (kept : ∀ reply s, inv s → inv (replySender reply s).2) (service : VarlinkService)
    (message : VarlinkMessage) (call : Nat) {s : σ} (start : inv s) :
    inv (messageCall dump stack replySender service message call s).2 := by
  have error_ : ∀ what params t, inv t → inv (sendError replySender what params t).2 := by
    intro what params t held
    unfold sendError
    split
    · exact kept _ t held
    · exact held
  unfold messageCall
  split
  · exact error_ _ _ s start
  · next entry known =>
    have tried : inv (callMethod dump stack replySender entry message call s).2 := by
      unfold callMethod
      split
      · exact start
      · refine Behaviour.run_invariant inv (fun params continues t held => ?_) _ start
        unfold ReplyHandler.call
        split
        · exact held
        · exact kept _ t held
    generalize callMethod dump stack replySender entry message call s = r at tried
    rcases r with ⟨(_ | _ | _) | deferred, t⟩
    · next e =>
      simp only [catchClauses]
      split
      · exact error_ _ _ t tried
      · exact tried
      · exact tried
    · exact tried
    · exact tried
    · exact tried

theorem callMethod_stopped {entry : InterfaceEntry} {message : VarlinkMessage} {call : Nat}
    {stop : Stop} (stopped : lookupCall dump stack entry message call = .error stop) (s : σ) :
    callMethod dump stack replySender entry message call s = (.error stop, s) := by
  simp only [callMethod, stopped]

theorem callMethod_found {entry : InterfaceEntry} {message : VarlinkMessage} {call : Nat}
    {handler : ReplyHandler} {behaviour : Behaviour}
    (found : lookupCall dump stack entry message call = .ok (handler, behaviour)) (s : σ) :
    callMethod dump stack replySender entry message call s =
      ((behaviour.run (handler.call dump stack replySender) s).1.map fun later => ⟨handler, later⟩,
        (behaviour.run (handler.call dump stack replySender) s).2) := by
  simp only [callMethod, found]

theorem messageCall_unknown {service : VarlinkService} {message : VarlinkMessage} {call : Nat}
    (unknown : service.findInterface message.interface = none) (s : σ) :
    messageCall dump stack replySender service message call s =
      ((sendError replySender "org.varlink.service.InterfaceNotFound"
          (.object [("interface", .string message.interface)]) s).1.map fun _ => none,
        (sendError replySender "org.varlink.service.InterfaceNotFound"
          (.object [("interface", .string message.interface)]) s).2) := by
  simp only [messageCall, unknown]

theorem messageCall_returned {service : VarlinkService} {message : VarlinkMessage} {call : Nat}
    {entry : InterfaceEntry} {deferred : Deferred} {s t : σ}
    (known : service.findInterface message.interface = some entry)
    (returned : callMethod dump stack replySender entry message call s = (.ok deferred, t)) :
    messageCall dump stack replySender service message call s = (.ok (some deferred), t) := by
  simp only [messageCall, known, returned]

theorem messageCall_thrown {service : VarlinkService} {message : VarlinkMessage} {call : Nat}
    {entry : InterfaceEntry} {e : Exn} {s t : σ}
    (known : service.findInterface message.interface = some entry)
    (thrown : callMethod dump stack replySender entry message call s = (.error (.thrown e), t)) :
    messageCall dump stack replySender service message call s =
      ((catchClauses replySender (message.interface ++ "." ++ message.method) e t).1.map
          fun _ => none,
        (catchClauses replySender (message.interface ++ "." ++ message.method) e t).2) := by
  simp only [messageCall, known, thrown]

theorem messageCall_died {service : VarlinkService} {message : VarlinkMessage} {call : Nat}
    {entry : InterfaceEntry} {stop : Stop} {s t : σ}
    (known : service.findInterface message.interface = some entry)
    (died : callMethod dump stack replySender entry message call s = (.error stop, t))
    (uncaught : ∀ e, stop ≠ .thrown e) :
    messageCall dump stack replySender service message call s = (.error stop, t) := by
  cases stop with
  | thrown e => exact absurd rfl (uncaught e)
  | _ => simp only [messageCall, known, died]

end MessageCall

def pingMember : Member := ⟨.method, "Ping", "", { type := .struct [
  ("parameters", { type := .struct [] }), ("return_value", { type := .struct [] })] }⟩

def pingEntry (callback : CallbackFunction) : InterfaceEntry where
  spec := ⟨"org.test", "", [pingMember]⟩
  callbacks := [("Ping", some callback)]

def pingService (callback : CallbackFunction) : VarlinkService := ⟨{}, [pingEntry callback]⟩

end Varlink
