import Varlink.Registry
import Varlink.Recording
import Varlink.JsonText

/-! Which callback `message_call` invokes, and what is passed on for it. Beside the
reply sender's state a trace of the callbacks that are entered is kept; it changes
nothing in what `message_call` does. -/

namespace Varlink

structure CallbackCall where
  callback : CallbackFunction
  parameters : Json
  mode : Callmode

section Trace
variable {σ : Type} (dump : Dump) (stack : Nat) (replySender : Json → Action σ Unit)

/-- What the `try` block does before it enters the callback, up to the callback. -/
def lookupCallback (entry : InterfaceEntry) (message : VarlinkMessage) :
    Except Stop (ReplyHandler × CallbackFunction) := do
  let m ← (entry.spec.method message.method).mapError .thrown
  let parameterType ← m.methodParameterType.mapError .thrown
  checkType dump stack entry.spec message.parameters parameterType
  let returnType ← m.methodReturnType.mapError .thrown
  let callback ← (entry.callback message.method).mapError .thrown
  return (⟨message.mode, entry.spec, returnType⟩, callback)

def traced : Json → Action (σ × List CallbackCall) Unit := fun reply s =>
  let (result, t) := replySender reply s.1
  (result, (t, s.2))

/-- The `try` block of `message_call` beside a trace: a callback is written down as it is
entered. -/
def callMethodTraced (entry : InterfaceEntry) (message : VarlinkMessage) (call : Nat) :
    Action (σ × List CallbackCall) Deferred := fun s =>
  match lookupCallback dump stack entry message with
  | .error e => (.error e, s)
  | .ok (handler, callback) =>
    let (result, t) := (callback call message.parameters message.mode).run
      (handler.call dump stack (traced replySender))
      (s.1, s.2 ++ [⟨callback, message.parameters, message.mode⟩])
    (result.map fun later => ⟨handler, later⟩, t)

def messageCallWith {τ : Type} (replySender : Json → Action τ Unit)
    (tried : InterfaceEntry → Action τ Deferred) (service : VarlinkService)
    (message : VarlinkMessage) : Action τ (Option Deferred) := fun s =>
  match service.findInterface message.interface with
  | none =>
    let (result, t) := sendError replySender "org.varlink.service.InterfaceNotFound"
      (.object [("interface", .string message.interface)]) s
    (result.map fun _ => none, t)
  | some entry =>
    match tried entry s with
    | (.ok deferred, t) => (.ok (some deferred), t)
    | (.error (.thrown e), t) =>
      let (result, u) := catchClauses replySender (message.interface ++ "." ++ message.method) e t
      (result.map fun _ => none, u)
    | (.error stop, t) => (.error stop, t)

def messageCallTraced (service : VarlinkService) (message : VarlinkMessage) (call : Nat) :
    Action (σ × List CallbackCall) (Option Deferred) :=
  messageCallWith (traced replySender)
    (fun entry => callMethodTraced dump stack replySender entry message call) service message

theorem messageCallWith_callMethod (service : VarlinkService) (message : VarlinkMessage)
    (call : Nat) :
    messageCallWith replySender
      (fun entry => callMethod dump stack replySender entry message call) service message =
      messageCall dump stack replySender service message call := rfl

def callbacksEntered (service : VarlinkService) (message : VarlinkMessage) (call : Nat) (s : σ) :
    List CallbackCall :=
  (messageCallTraced dump stack replySender service message call (s, [])).2.2

end Trace

namespace Dispatch

variable {σ : Type} {dump : Dump} {stack : Nat} {replySender : Json → Action σ Unit}

theorem lookupCall_eq (entry : InterfaceEntry) (message : VarlinkMessage) (call : Nat) :
    lookupCall dump stack entry message call =
      (lookupCallback dump stack entry message).map fun p =>
        (p.1, p.2 call message.parameters message.mode) := by
  change _ = (fun p : ReplyHandler × CallbackFunction =>
    (p.1, p.2 call message.parameters message.mode)) <$> _
  simp only [lookupCall, lookupCallback, map_bind, map_pure]

theorem traced_projects : Projects (traced replySender) replySender Prod.fst :=
  fun _ _ => ⟨rfl, rfl⟩

theorem messageCallTraced_fst (service : VarlinkService) (message : VarlinkMessage) (call : Nat)
    (s : σ × List CallbackCall) :
    (messageCallTraced dump stack replySender service message call s).1 =
        (messageCall dump stack replySender service message call s.1).1 ∧
      (messageCallTraced dump stack replySender service message call s).2.1 =
        (messageCall dump stack replySender service message call s.1).2 := by
  have projects : Projects (traced replySender) replySender Prod.fst := traced_projects
  rw [← messageCallWith_callMethod, messageCallTraced]
  unfold messageCallWith
  cases service.findInterface message.interface with
  | none =>
    obtain ⟨result, state⟩ := projects.sendError "org.varlink.service.InterfaceNotFound"
      (.object [("interface", .string message.interface)]) s
    exact ⟨congrArg (Except.map fun _ => none) result, state⟩
  | some entry =>
    have tried : (callMethodTraced dump stack replySender entry message call s).1 =
          (callMethod dump stack replySender entry message call s.1).1 ∧
        (callMethodTraced dump stack replySender entry message call s).2.1 =
          (callMethod dump stack replySender entry message call s.1).2 := by
      unfold callMethodTraced callMethod
      rw [lookupCall_eq]
      cases lookupCallback dump stack entry message with
      | error e => exact ⟨rfl, rfl⟩
      | ok p =>
        obtain ⟨handler, callback⟩ := p
        obtain ⟨result, state⟩ := projects.run dump stack handler
          (callback call message.parameters message.mode)
          (s.1, s.2 ++ [⟨callback, message.parameters, message.mode⟩])
        exact ⟨congrArg (Except.map fun later => (⟨handler, later⟩ : Deferred)) result, state⟩
    simp only
    generalize callMethodTraced dump stack replySender entry message call s = r at tried ⊢
    generalize callMethod dump stack replySender entry message call s.1 = r' at tried ⊢
    obtain ⟨r, t⟩ := r
    obtain ⟨r', t'⟩ := r'
    obtain ⟨rfl, rfl⟩ : r = r' ∧ t.1 = t' := tried
    rcases r with stop | deferred
    · cases stop with
      | thrown e =>
        obtain ⟨result, state⟩ := projects.catchClauses
          (message.interface ++ "." ++ message.method) e t
        exact ⟨congrArg (Except.map fun _ => none) result, state⟩
      | stackOverflow => exact ⟨rfl, rfl⟩
      | assertion => exact ⟨rfl, rfl⟩
    · exact ⟨rfl, rfl⟩

theorem run_kept {τ γ : Type} {sender : Json → Action τ Unit} {ρ : τ → γ}
    (kept : ∀ reply s, ρ (sender reply s).2 = ρ s) (h : ReplyHandler) (b : Behaviour) (s : τ) :
    ρ (b.run (h.call dump stack sender) s).2 = ρ s := by
  refine Behaviour.run_invariant (fun t => ρ t = ρ s) (fun params continues t same => ?_) b rfl
  unfold ReplyHandler.call
  split
  · exact same
  · exact (kept _ t).trans same

theorem sendError_kept (what : String) (params : Json) (s : σ × List CallbackCall) :
    (sendError (traced replySender) what params s).2.2 = s.2 := by
  unfold sendError
  split <;> rfl

theorem catchClauses_kept (method : String) (e : Exn) (s : σ × List CallbackCall) :
    (catchClauses (traced replySender) method e s).2.2 = s.2 := by
  cases e with
  | systemError => rfl
  | foreign => rfl
  | _ => exact sendError_kept _ _ s

variable (dump stack replySender) in
theorem callMethodTraced_entered (entry : InterfaceEntry) (message : VarlinkMessage) (call : Nat)
    (s : σ × List CallbackCall) :
    (callMethodTraced dump stack replySender entry message call s).2.2 =
      match lookupCallback dump stack entry message with
      | .error _ => s.2
      | .ok (_, callback) => s.2 ++ [⟨callback, message.parameters, message.mode⟩] := by
  unfold callMethodTraced
  cases lookupCallback dump stack entry message with
  | error e => rfl
  | ok p => exact run_kept (ρ := Prod.snd) (fun _ _ => rfl) p.1 _ _

theorem callbacksEntered_eq (service : VarlinkService) (message : VarlinkMessage) (call : Nat)
    (s : σ) : callbacksEntered dump stack replySender service message call s =
      match service.findInterface message.interface with
      | none => []
      | some entry =>
        match lookupCallback dump stack entry message with
        | .error _ => []
        | .ok (_, callback) => [⟨callback, message.parameters, message.mode⟩] := by
  unfold callbacksEntered messageCallTraced messageCallWith
  cases service.findInterface message.interface with
  | none => exact sendError_kept _ _ (s, [])
  | some entry =>
    have entered := callMethodTraced_entered dump stack replySender entry message call (s, [])
    simp only [List.nil_append] at entered ⊢
    rw [← entered]
    rcases callMethodTraced dump stack replySender entry message call (s, []) with
      ⟨stop | deferred, t⟩
    · cases stop with
      | thrown e => exact catchClauses_kept _ e t
      | stackOverflow => rfl
      | assertion => rfl
    · rfl

/-- The interface of the message is registered and declares its method. -/
structure Declared (r : Registry) (message : VarlinkMessage) (entry : InterfaceEntry)
    (m : Member) : Prop where
  registered : entry ∈ r.service.interfaces
  interface : entry.spec.ifname = message.interface
  declares : entry.spec.Declares message.method m

/-- The message's parameters pass the check for the method, which has a callback. -/
structure Reaches (dump : Dump) (stack : Nat) (r : Registry) (message : VarlinkMessage)
    (f : CallbackFunction) (entry : InterfaceEntry) (m : Member) : Prop extends
    Declared r message entry m where
  valid : ∃ parameters, m.methodType? 0 = some parameters ∧
    checkType dump stack entry.spec message.parameters parameters = .ok ()
  callback : (message.method, some f) ∈ entry.callbacks

/-- A value that may be forwarded for the message: the parameters of a success reply
pass the check for what the method returns, and only in more mode do replies continue. -/
structure Forwards (dump : Dump) (stack : Nat) (r : Registry) (message : VarlinkMessage)
    (reply : Json) : Prop where
  valid : reply.isObject = true → reply.contains "error" = false →
    ∃ entry m returnValue, Declared r message entry m ∧ m.methodType? 1 = some returnValue ∧
      checkType dump stack entry.spec (reply.member "parameters") returnValue = .ok ()
  continues : reply.find? "continues" = some (.boolean true) → message.mode = .more

theorem lookupCallback_eq_ok_iff {entry : InterfaceEntry} {message : VarlinkMessage}
    (constructed : entry.spec.Constructed) (keys : (entry.callbacks.map (·.1)).Nodup)
    {h : ReplyHandler} {f : CallbackFunction} :
    lookupCallback dump stack entry message = .ok (h, f) ↔
      ∃ m parameters returnValue, entry.spec.Declares message.method m ∧
        m.methodType? 0 = some parameters ∧ m.methodType? 1 = some returnValue ∧
        checkType dump stack entry.spec message.parameters parameters = .ok () ∧
        (message.method, some f) ∈ entry.callbacks ∧
        h = ⟨message.mode, entry.spec, returnValue⟩ := by
  constructor
  · intro found
    obtain ⟨m, method, found⟩ := of_bind_eq_ok found
    obtain ⟨parameterType, first, found⟩ := of_bind_eq_ok found
    obtain ⟨valid, checked, found⟩ := of_bind_eq_ok found
    obtain ⟨returnType, second, found⟩ := of_bind_eq_ok found
    obtain ⟨callback, registered, found⟩ := of_bind_eq_ok found
    cases found
    have declares := (VarlinkInterface.method_eq_ok_iff constructed).mp (of_mapError_eq_ok method)
    obtain ⟨parameters, returnValue, parametersType, parametersRead, returnsType, returnsRead⟩ :=
      declares.types constructed
    cases parametersRead.symm.trans (of_mapError_eq_ok first)
    cases returnsRead.symm.trans (of_mapError_eq_ok second)
    exact ⟨m, _, _, declares, parametersType, returnsType, checked,
      (InterfaceEntry.callback_eq_ok_iff keys).mp (of_mapError_eq_ok registered), rfl⟩
  · rintro ⟨m, parameters, returnValue, declares, parametersType, returnsType, checked,
      registered, rfl⟩
    have method := (VarlinkInterface.method_eq_ok_iff constructed).mpr declares
    have callback := (InterfaceEntry.callback_eq_ok_iff keys).mpr registered
    obtain ⟨_, _, parametersType', parametersRead, returnsType', returnsRead⟩ :=
      declares.types constructed
    cases parametersType.symm.trans parametersType'
    cases returnsType.symm.trans returnsType'
    simp [lookupCallback, method, callback, parametersRead, returnsRead, checked, bind,
      Except.bind, Except.mapError, pure, Except.pure]

theorem forwards_of_reply {r : Registry} {message : VarlinkMessage} {entry : InterfaceEntry}
    {m : Member} (declared : Declared r message entry m) {returnValue : TypeSpec}
    (returns : m.methodType? 1 = some returnValue) {params : Object} {continues : Bool}
    {reply : Json} (passedOn : ReplyHandler.reply dump stack
      ⟨message.mode, entry.spec, returnValue⟩ params continues = .ok reply) :
    Forwards dump stack r message reply := by
  obtain ⟨valid, checked, value⟩ := of_bind_eq_ok passedOn
  have value := of_mapError_eq_ok value
  have ofParameters (read : reply.member "parameters" = .object params) :
      ∃ entry m returnValue, Declared r message entry m ∧ m.methodType? 1 = some returnValue ∧
        checkType dump stack entry.spec (reply.member "parameters") returnValue = .ok () :=
    ⟨entry, m, returnValue, declared, returns, read ▸ checked⟩
  have single (plain : reply = .object [("parameters", .object params)]) :
      Forwards dump stack r message reply := by
    subst plain
    refine ⟨fun _ _ => ofParameters rfl, fun contra => ?_⟩
    simp [Json.find?, List.lookup_cons] at contra
  cases mode : message.mode with
  | oneway =>
    simp only [replyValue, mode, Except.ok.injEq] at value
    subst value
    exact ⟨fun object => (Bool.false_ne_true object).elim, fun contra => by cases contra⟩
  | more =>
    simp only [replyValue, mode, Except.ok.injEq] at value
    subst value
    exact ⟨fun _ _ => ofParameters rfl, fun _ => mode⟩
  | basic =>
    cases continues <;> simp [replyValue, mode] at value
    exact single value.symm
  | upgrade =>
    cases continues <;> simp [replyValue, mode] at value
    exact single value.symm

theorem forwards_errorObject (dump : Dump) (stack : Nat) (r : Registry)
    (message : VarlinkMessage) (what : String) (params : Json) :
    Forwards dump stack r message (errorObject what params) := by
  refine ⟨fun _ contra => ?_, fun contra => ?_⟩
  · simp [errorObject, Json.contains, Json.find?] at contra
  · simp [errorObject, Json.find?, List.lookup_cons] at contra

theorem lookupCall_handler (r : Registry) {message : VarlinkMessage} {entry : InterfaceEntry}
    (known : r.service.findInterface message.interface = some entry) {call : Nat}
    {h : ReplyHandler} {b : Behaviour}
    (found : lookupCall dump stack entry message call = .ok (h, b)) {params : Object}
    {continues : Bool} {reply : Json} (passedOn : h.reply dump stack params continues = .ok reply) :
    Forwards dump stack r message reply := by
  obtain ⟨registered, interface⟩ := r.findInterface_eq_some_iff.mp known
  rw [lookupCall_eq] at found
  cases looked : lookupCallback dump stack entry message with
  | error e => simp [looked, Except.map] at found
  | ok p =>
    obtain ⟨h', f⟩ := p
    simp only [looked, Except.map, Except.ok.injEq, Prod.mk.injEq] at found
    obtain ⟨rfl, -⟩ := found
    obtain ⟨m, _, returnValue, declares, -, returns, -, -, rfl⟩ :=
      (lookupCallback_eq_ok_iff (r.constructed entry registered) (r.keys entry registered)).mp
        looked
    exact forwards_of_reply ⟨registered, interface, declares⟩ returns passedOn

theorem run_recorded_all {P : Json → Prop} {h : ReplyHandler}
    (passes : ∀ params continues reply, h.reply dump stack params continues = .ok reply → P reply)
    (b : Behaviour) {s : σ × List Json} (start : ∀ reply ∈ s.2, P reply) :
    ∀ reply ∈ (b.run (h.call dump stack (recorded replySender)) s).2.2, P reply := by
  refine Behaviour.run_invariant (fun t : σ × List Json => ∀ reply ∈ t.2, P reply)
    (fun params continues t all => ?_) b start
  unfold ReplyHandler.call
  split
  · exact all
  · rename_i reply passedOn
    exact List.forall_mem_append.mpr
      ⟨all, List.forall_mem_singleton.mpr (passes params continues reply passedOn)⟩

theorem forwards_of_passed (r : Registry) (message : VarlinkMessage) (call : Nat) (s : σ) :
    ∀ reply ∈ passed dump stack replySender r.service message call s,
      Forwards dump stack r message reply := by
  cases known : r.service.findInterface message.interface with
  | none =>
    rw [passed_unknown known]
    exact List.forall_mem_singleton.mpr (forwards_errorObject _ _ _ _ _ _)
  | some entry =>
    rcases tried : callMethod dump stack (recorded replySender) entry message call (s, []) with
      ⟨result, t⟩
    have tryBlock : ∀ reply ∈ t.2, Forwards dump stack r message reply := by
      cases found : lookupCall dump stack entry message call with
      | error stop =>
        cases tried.symm.trans (callMethod_stopped found (s, []))
        exact nofun
      | ok p =>
        cases tried.symm.trans (callMethod_found found (s, []))
        exact run_recorded_all (fun _ _ _ => lookupCall_handler r known found) p.2 nofun
    rcases passed_known known tried with ⟨-, log⟩ | ⟨-, what, params, log⟩
    · rw [log]
      exact tryBlock
    · rw [log]
      exact List.forall_mem_append.mpr
        ⟨tryBlock, List.forall_mem_singleton.mpr (forwards_errorObject _ _ _ _ _ _)⟩

theorem looked_of_reaches {r : Registry} {message : VarlinkMessage} {f : CallbackFunction}
    {entry : InterfaceEntry} {m : Member} (h : Reaches dump stack r message f entry m) :
    ∃ returnType, m.methodType? 1 = some returnType ∧
      lookupCallback dump stack entry message =
        .ok (⟨message.mode, entry.spec, returnType⟩, f) := by
  obtain ⟨⟨registered, interface, declares⟩, ⟨parameters, type, checked⟩, callback⟩ := h
  have constructed := r.constructed entry registered
  obtain ⟨_, returnType, -, -, returns, -⟩ := declares.types constructed
  exact ⟨returnType, returns, (lookupCallback_eq_ok_iff constructed (r.keys entry registered)).mpr
    ⟨m, parameters, returnType, declares, type, returns, checked, callback, rfl⟩⟩

theorem looked_iff_reaches (r : Registry) {message : VarlinkMessage} {f : CallbackFunction} :
    (∃ entry h, r.service.findInterface message.interface = some entry ∧
        lookupCallback dump stack entry message = .ok (h, f)) ↔
      ∃ entry m, Reaches dump stack r message f entry m := by
  constructor
  · rintro ⟨entry, h, known, looked⟩
    obtain ⟨registered, interface⟩ := r.findInterface_eq_some_iff.mp known
    obtain ⟨m, parameters, _, declares, type, -, checked, callback, -⟩ :=
      (lookupCallback_eq_ok_iff (r.constructed entry registered) (r.keys entry registered)).mp
        looked
    exact ⟨entry, m, ⟨registered, interface, declares⟩, ⟨parameters, type, checked⟩, callback⟩
  · rintro ⟨entry, m, reaches⟩
    obtain ⟨returnType, -, looked⟩ := looked_of_reaches reaches
    exact ⟨entry, _, r.findInterface_eq_some_iff.mpr ⟨reaches.registered, reaches.interface⟩,
      looked⟩

theorem callbacksEntered_iff_reaches (r : Registry) {message : VarlinkMessage} (call : Nat)
    (s : σ) (f : CallbackFunction) :
    callbacksEntered dump stack replySender r.service message call s =
        [⟨f, message.parameters, message.mode⟩] ↔
      ∃ entry m, Reaches dump stack r message f entry m := by
  rw [← looked_iff_reaches, callbacksEntered_eq]
  cases r.service.findInterface message.interface with
  | none => simp
  | some entry => rcases looked : lookupCallback dump stack entry message with e | ⟨h, g⟩ <;>
      simp [looked]

theorem callbacksEntered_nil_iff (r : Registry) {message : VarlinkMessage} (call : Nat) (s : σ) :
    callbacksEntered dump stack replySender r.service message call s = [] ↔
      ¬ ∃ f entry m, Reaches dump stack r message f entry m := by
  simp only [← looked_iff_reaches, callbacksEntered_eq]
  cases r.service.findInterface message.interface with
  | none => simp
  | some entry => rcases looked : lookupCallback dump stack entry message with e | ⟨h, g⟩ <;>
      simp [looked]

theorem lookupCall_of_returned {service : VarlinkService} {message : VarlinkMessage} {call : Nat}
    {s t : σ} {later : Deferred}
    (returned : messageCall dump stack replySender service message call s = (.ok (some later), t)) :
    ∃ entry b, service.findInterface message.interface = some entry ∧
      lookupCall dump stack entry message call = .ok (later.handler, b) := by
  have never (x : Except Stop Unit) : x.map (fun _ => (none : Option Deferred)) ≠
      .ok (some later) := by
    cases x <;> simp [Except.map]
  cases known : service.findInterface message.interface with
  | none =>
    rw [messageCall_unknown known] at returned
    exact absurd (Prod.mk.inj returned).1 (never _)
  | some entry =>
    refine ⟨entry, ?_⟩
    rcases tried : callMethod dump stack replySender entry message call s with ⟨result, u⟩
    cases result with
    | ok deferred =>
      cases (messageCall_returned known tried).symm.trans returned
      cases found : lookupCall dump stack entry message call with
      | error stop => cases (callMethod_stopped found s).symm.trans tried
      | ok p =>
        have result := (Prod.mk.inj ((callMethod_found found s).symm.trans tried)).1
        generalize (p.2.run (p.1.call dump stack replySender) s).1 = ran at result
        cases ran with
        | error e => cases result
        | ok replies =>
          cases result
          exact ⟨p.2, rfl, rfl⟩
    | error stop =>
      cases stop with
      | thrown e =>
        rw [messageCall_thrown known tried] at returned
        exact absurd (Prod.mk.inj returned).1 (never _)
      | stackOverflow => cases (messageCall_died known tried nofun).symm.trans returned
      | assertion => cases (messageCall_died known tried nofun).symm.trans returned

/-- A callback is entered exactly if the registry has one for the message, whose
parameters are valid: that one, once, with the message's own parameters and mode. Nothing
is passed on, then or later, but error replies and replies that the method may return. To
write down what is entered changes nothing in what `message_call` does, and the `try` block
is the run of the callback. -/
theorem dispatch_correct (dump : Dump) (stack : Nat) (replySender : Json → Action σ Unit)
    (r : Registry) (message : VarlinkMessage) (call : Nat) (s : σ) :
    (∀ entered, (messageCallTraced dump stack replySender r.service message call (s, entered)).1 =
        (messageCall dump stack replySender r.service message call s).1 ∧
      (messageCallTraced dump stack replySender r.service message call (s, entered)).2.1 =
        (messageCall dump stack replySender r.service message call s).2) ∧
    (∀ f, callbacksEntered dump stack replySender r.service message call s =
        [⟨f, message.parameters, message.mode⟩] ↔
      ∃ entry m, Reaches dump stack r message f entry m) ∧
    (callbacksEntered dump stack replySender r.service message call s = [] ↔
      ¬ ∃ f entry m, Reaches dump stack r message f entry m) ∧
    (∀ f entry m, Reaches dump stack r message f entry m →
      ∃ returnType, m.methodType? 1 = some returnType ∧
        let handler : ReplyHandler := ⟨message.mode, entry.spec, returnType⟩
        let ran := (f call message.parameters message.mode).run
          (handler.call dump stack replySender) s
        callMethod dump stack replySender entry message call s =
          (ran.1.map fun later => ⟨handler, later⟩, ran.2)) ∧
    (∀ reply ∈ passed dump stack replySender r.service message call s,
      Forwards dump stack r message reply) ∧
    ∀ later t, messageCall dump stack replySender r.service message call s =
        (.ok (some later), t) →
      ∀ params continues reply, later.handler.reply dump stack params continues = .ok reply →
        Forwards dump stack r message reply := by
  refine ⟨fun entered => messageCallTraced_fst r.service message call (s, entered),
    callbacksEntered_iff_reaches r call s, callbacksEntered_nil_iff r call s, ?_,
    forwards_of_passed r message call s, ?_⟩
  · intro f entry m reaches
    obtain ⟨returnType, returns, looked⟩ := looked_of_reaches reaches
    have found : lookupCall dump stack entry message call =
        .ok (⟨message.mode, entry.spec, returnType⟩, f call message.parameters message.mode) := by
      rw [lookupCall_eq, looked]
      rfl
    exact ⟨returnType, returns, callMethod_found found s⟩
  · intro later t returned params continues reply passedOn
    obtain ⟨entry, b, known, found⟩ := lookupCall_of_returned returned
    exact lookupCall_handler r known found passedOn

theorem dispatch_correct_ping :
    let f : CallbackFunction := fun _ _ _ => .sendReply [] false fun _ => .returns []
    let sender : Json → Action Unit Unit := fun _ s => (.ok (), s)
    callbacksEntered JsonText.dump 2 sender (pingRegistry f).service pingMessage 0 () =
        [⟨f, pingMessage.parameters, pingMessage.mode⟩] ∧
      ∀ reply ∈ passed JsonText.dump 2 sender (pingRegistry f).service pingMessage 0 (),
        Forwards JsonText.dump 2 (pingRegistry f) pingMessage reply := by
  intro f sender
  have interface : pingMessage.interface = "org.test" := by decide
  have method : pingMessage.method = "Ping" := by decide
  have reaches : Reaches JsonText.dump 2 (pingRegistry f) pingMessage f (pingEntry f) pingMember :=
    ⟨⟨List.mem_singleton_self _, interface.symm, List.mem_singleton_self _, rfl, method.symm⟩,
      ⟨_, rfl, rfl⟩, method ▸ List.mem_singleton_self _⟩
  obtain ⟨-, entered, -, -, forwards, -⟩ :=
    dispatch_correct JsonText.dump 2 sender (pingRegistry f) pingMessage 0 ()
  exact ⟨(entered f).mpr ⟨_, _, reaches⟩, forwards⟩

end Dispatch

end Varlink
