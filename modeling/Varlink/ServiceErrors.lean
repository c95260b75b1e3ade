import Varlink.ServiceCallbacks

/-! The errors that a service answers calls with under names of `org.varlink.service`,
against the types that its description declares for them. -/

namespace Varlink.ServiceErrors

open MethodErrors ServiceInterface

variable {σ : Type} {dump : Dump} {stack : Nat} {replySender : Json → Action σ Unit}

/-- An error of `org.varlink.service` is declared, and its parameters pass the check. -/
def Typed (dump : Dump) (spec : VarlinkInterface) (reply : Json) : Prop :=
  ∀ name, reply.find? "error" = some (.string ("org.varlink.service." ++ name)) →
    ∃ m, spec.error name = .ok m ∧ Accepts dump spec m.data (reply.member "parameters")

/-- The call is answered with a `varlink_error` that a callback of another interface ends with. -/
def Relays (dump : Dump) (stack : Nat) (replySender : Json → Action σ Unit) (r : ServiceRegistry)
    (message : VarlinkMessage) (call : Nat) (s : σ) : Prop :=
  ∃ entry ∈ r.added, entry.spec.ifname = message.interface ∧ ∃ what args,
    (callMethod dump stack replySender entry message call s).1 =
      .error (.thrown (.varlinkError what args))

/-- The errors that the service generates itself are typed. -/
def WellTyped (dump : Dump) (stack : Nat) (replySender : Json → Action σ Unit)
    (r : ServiceRegistry) (message : VarlinkMessage) (call : Nat) (s : σ) : Prop :=
  ¬Relays dump stack replySender r message call s →
    ∀ reply ∈ passed dump stack replySender r.registry.service message call s,
      Typed dump r.spec reply

/-- The check of the parameters or the callback ends with an exception that only the last of
the clauses catches. -/
def FailsInternally (dump : Dump) (stack : Nat) (replySender : Json → Action σ Unit)
    (r : ServiceRegistry) (message : VarlinkMessage) (call : Nat) (s : σ) : Prop :=
  ∃ entry type what, r.registry.service.findInterface message.interface = some entry ∧
    (lookupCall dump stack entry message call = .error (.thrown (.standard type what)) ∨
      ∃ handler behaviour, lookupCall dump stack entry message call = .ok (handler, behaviour) ∧
        (behaviour.run (handler.call dump stack replySender) s).1 =
          .error (.thrown (.standard type what)))

section Typed
variable {spec : VarlinkInterface}

theorem errorName_inj {name name' : String} (same : Json.string ("org.varlink.service." ++ name) =
    .string ("org.varlink.service." ++ name')) : name = name' :=
  (String.append_right_inj _).mp (Json.string.inj same)

theorem error_declared (service : IsServiceInterface spec) {name field : String}
    (listed : (name, field) ∈ errors) :
    ∃ m, spec.error name = .ok m ∧ m.data = (ofStrings [field]).toSpec :=
  find_declared (e := .error name (ofStrings [field])) service
    (List.mem_append_right _ (List.mem_map_of_mem listed))

theorem typed_errorObject (service : IsServiceInterface spec) {name field : String}
    (listed : (name, field) ∈ errors) (text : String) :
    Typed dump spec (errorObject ("org.varlink.service." ++ name)
      (.object [(field, .string text)])) := by
  intro name' named
  rw [find_error_errorObject] at named
  obtain rfl := errorName_inj (Option.some_inj.mp named)
  obtain ⟨m, found, data⟩ := error_declared service listed
  refine ⟨m, found, accepts_iff_admits.mpr ?_⟩
  rw [data, admits_ofStrings_iff (types_eq_none service)]
  refine ⟨rfl, List.forall_mem_singleton.mpr ⟨text, ?_⟩⟩
  show (Json.object [(field, .string text)]).member field = .string text
  simp [Json.member, Json.find?]

variable (dump) in
theorem not_typed_internal (service : IsServiceInterface spec) (text : String) :
    ¬Typed dump spec (errorObject "org.varlink.service.InternalError"
      (.object [("what", .string text)])) := by
  intro typed
  obtain ⟨m, found, accepts⟩ := typed "InternalError" rfl
  obtain ⟨m', found', data⟩ := error_declared service
    (by decide : ("InternalError", "exception") ∈ errors)
  obtain rfl : m = m' := Except.ok.inj (found.symm.trans found')
  rw [accepts_iff_admits, data, admits_ofStrings_iff (types_eq_none service)] at accepts
  obtain ⟨text', member⟩ := accepts.2 _ List.mem_cons_self
  cases member

theorem typed_answer (service : IsServiceInterface spec) {method : String} {e : Exn}
    (caught : ∀ type what, e ≠ .standard type what)
    (own : ∀ what args, e = .varlinkError what args → ∃ ifname,
      what = "org.varlink.service.InterfaceNotFound" ∧
        args = .object [("interface", .string ifname)]) :
    ∀ reply ∈ e.answer method, Typed dump spec reply := by
  have typed {name field : String} (listed : (name, field) ∈ errors) (text : String) :
      ∀ reply ∈ [errorObject ("org.varlink.service." ++ name) (.object [(field, .string text)])],
        Typed dump spec reply :=
    List.forall_mem_singleton.mpr (typed_errorObject service listed text)
  cases e with
  | outOfRange _ => exact typed (by decide : ("MethodNotFound", "method") ∈ errors) method
  | badFunctionCall => exact typed (by decide : ("MethodNotImplemented", "method") ∈ errors) method
  | invalidParameter what =>
    exact typed (by decide : ("InvalidParameter", "parameter") ∈ errors) what
  | varlinkError what args =>
    obtain ⟨ifname, rfl, rfl⟩ := own what args rfl
    exact typed (by decide : ("InterfaceNotFound", "interface") ∈ errors) ifname
  | systemError | foreign => exact nofun
  | standard type what => exact absurd rfl (caught type what)

end Typed

section Calls
variable {r : ServiceRegistry} {message : VarlinkMessage} {call : Nat} {s : σ}
variable {entry : InterfaceEntry}

theorem failsInternally_iff
    (known : r.registry.service.findInterface message.interface = some entry) :
    FailsInternally dump stack replySender r message call s ↔ ∃ type what,
      (callMethod dump stack replySender entry message call s).1 =
        .error (.thrown (.standard type what)) := by
  constructor
  · rintro ⟨entry', type, what, known', ends⟩
    obtain rfl : entry = entry' := Option.some_inj.mp (known.symm.trans known')
    refine ⟨type, what, ?_⟩
    rcases ends with stopped | ⟨handler, behaviour, found, ran⟩
    · rw [callMethod_stopped stopped]
    · exact (callMethod_of_lookup found).mpr ran
  · rintro ⟨type, what, ends⟩
    refine ⟨entry, type, what, known, ?_⟩
    cases found : lookupCall dump stack entry message call with
    | error stop =>
      rw [callMethod_stopped found] at ends
      cases ends
      exact .inl rfl
    | ok p => exact .inr ⟨p.1, p.2, rfl, (callMethod_of_lookup found).mp ends⟩

theorem relays_iff (known : r.registry.service.findInterface message.interface = some entry) :
    Relays dump stack replySender r message call s ↔ entry ∈ r.added ∧ ∃ what args,
      (callMethod dump stack replySender entry message call s).1 =
        .error (.thrown (.varlinkError what args)) := by
  constructor
  · rintro ⟨entry', added, named, ends⟩
    have known' := r.registry.findInterface_eq_some_iff.mpr ⟨List.mem_cons_of_mem _ added, named⟩
    obtain rfl : entry = entry' := Option.some_inj.mp (known.symm.trans known')
    exact ⟨added, ends⟩
  · rintro ⟨added, ends⟩
    exact ⟨entry, added, (r.registry.findInterface_eq_some_iff.mp known).2, ends⟩

theorem own_varlinkError (dumps : DumpErrors dump) (sends : SendErrors replySender) {what : String}
    {args : Json} (ends : (callMethod dump stack replySender r.own message call s).1 =
      .error (.thrown (.varlinkError what args))) :
    ∃ ifname, what = "org.varlink.service.InterfaceNotFound" ∧
      args = .object [("interface", .string ifname)] := by
  cases found : lookupCall dump stack r.own message call with
  | error stop =>
    rw [callMethod_stopped found] at ends
    cases ends
    rcases lookupCall_throws dumps found with
      undeclared | ⟨-, (⟨_, contra⟩ | ⟨_, _, contra⟩) | contra⟩
    · cases method_throws undeclared
    all_goals cases contra
  | ok p =>
    have ran := (callMethod_of_lookup found).mp ends
    have own : EndsOwn (p.1.call dump stack replySender) p.2 none s (.varlinkError what args) ∨ _ :=
      endsOwn_or (fun _ _ _ _ => call_throws dumps sends) nofun ran
    rcases own with own | (⟨_, contra⟩ | ⟨_, _, contra⟩) | contra | contra
    · obtain ⟨ifname, same⟩ := own_throws r found own
      cases same
      exact ⟨ifname, rfl, rfl⟩
    all_goals cases contra

end Calls

/-- The errors that the service generates are typed exactly if neither the check of the
parameters nor the callback ends with an exception that is reported as an internal error. -/
theorem wellTyped_iff (dumps : DumpErrors dump) (sends : SendErrors replySender)
    (r : ServiceRegistry) (message : VarlinkMessage) (call : Nat) (s : σ) :
    WellTyped dump stack replySender r message call s ↔
      ¬FailsInternally dump stack replySender r message call s := by
  cases known : r.registry.service.findInterface message.interface with
  | none =>
    refine iff_of_true (fun _ => ?_) fun ⟨entry, type, what, known', _⟩ => ?_
    · rw [passed_unknown known]
      exact List.forall_mem_singleton.mpr (typed_errorObject r.read
        (by decide : ("InterfaceNotFound", "interface") ∈ errors) _)
    · cases known.symm.trans known'
  | some entry =>
    obtain ⟨front, plain, log⟩ := passed_eq dump stack replySender call s known
    rw [WellTyped, failsInternally_iff known, relays_iff known, log]
    constructor
    · rintro typed ⟨type, what, ends⟩
      rw [ends] at typed
      refine not_typed_internal dump r.read what (typed ?_ _
        (List.mem_append_right front (List.mem_singleton_self _)))
      rintro ⟨-, _, _, contra⟩
      cases contra
    · intro caught relayed reply member
      rcases List.mem_append.mp member with member | member
      · intro name named
        cases (plain reply member).symm.trans named
      · generalize ended : (callMethod dump stack replySender entry message call s).1 = result
          at caught relayed member
        rcases result with (e | _ | _) | deferred
        · refine typed_answer r.read (fun type what same => caught ⟨type, what, by rw [same]⟩)
            (fun what args same => ?_) reply member
          subst same
          obtain ⟨registered, -⟩ := r.registry.findInterface_eq_some_iff.mp known
          rcases List.mem_cons.mp registered with rfl | added
          · exact own_varlinkError dumps sends ended
          · exact absurd ⟨added, what, args, rfl⟩ relayed
        all_goals cases member

def withPing (spec : VarlinkInterface) (read : IsServiceInterface spec)
    (callback : CallbackFunction) : ServiceRegistry where
  desc := {}
  spec := spec
  read := read
  added := [pingEntry callback]
  constructed := (pingRegistry callback).constructed
  names := by
    rw [(declares read).1]
    exact (by decide : ["org.varlink.service", "org.test"].Nodup)
  keys := (pingRegistry callback).keys

theorem find_ping {spec : VarlinkInterface} (read : IsServiceInterface spec)
    (callback : CallbackFunction) :
    (withPing spec read callback).registry.service.findInterface pingMessage.interface =
      some (pingEntry callback) :=
  (withPing spec read callback).registry.findInterface_eq_some_iff.mpr
    ⟨List.mem_cons_of_mem _ (List.mem_singleton_self _), rfl⟩

theorem wellTyped_iff_outOfRange : ∃ spec, ∃ read : IsServiceInterface spec,
    let r := withPing spec read fun _ _ _ => .throws (.outOfRange "map::at")
    passed JsonText.dump 2 keep r.registry.service pingMessage 0 [] =
        [errorObject "org.varlink.service.MethodNotFound"
          (.object [("method", .string "org.test.Ping")])] ∧
      ¬Relays JsonText.dump 2 keep r pingMessage 0 [] ∧
      WellTyped JsonText.dump 2 keep r pingMessage 0 [] := by
  obtain ⟨spec, read⟩ := exists_isServiceInterface
  refine ⟨spec, read, ?_⟩
  intro r
  have known := find_ping read fun _ _ _ => .throws (.outOfRange "map::at")
  refine ⟨?_, ?_, (wellTyped_iff dumpErrors_text sendErrors_keep _ _ _ _).mpr ?_⟩
  · rw [passed, messageCall_thrown known rfl]
    rfl
  · rw [relays_iff known]
    rintro ⟨-, _, _, ⟨⟩⟩
  · rw [failsInternally_iff known]
    rintro ⟨_, _, ⟨⟩⟩

/-- The callback of another interface throws an exception of the standard library. -/
theorem internal_error_untyped : ∃ spec, ∃ read : IsServiceInterface spec,
    let r := withPing spec read late
    passed JsonText.dump 2 keep r.registry.service pingMessage 0 [] =
        [errorObject "org.varlink.service.InternalError" (.object [("what", .string "late")])] ∧
      ¬WellTyped JsonText.dump 2 keep r pingMessage 0 [] := by
  obtain ⟨spec, read⟩ := exists_isServiceInterface
  refine ⟨spec, read, ?_⟩
  intro r
  have known := find_ping read late
  have log : passed JsonText.dump 2 keep r.registry.service pingMessage 0 [] =
      [errorObject "org.varlink.service.InternalError" (.object [("what", .string "late")])] := by
    rw [passed, messageCall_thrown known rfl]
    rfl
  refine ⟨log, fun typed => ?_⟩
  have own : ¬Relays JsonText.dump 2 keep r pingMessage 0 [] := by
    rw [relays_iff known]
    rintro ⟨-, _, _, ⟨⟩⟩
  exact not_typed_internal _ read "late"
    (typed own _ (by rw [log]; exact List.mem_singleton_self _))

end Varlink.ServiceErrors
