import Varlink.JsonText
import Varlink.Recording

/-! Oneway calls: the closure that a callback replies through passes no object
on, but the error replies of `message_call` look at no mode. -/

namespace Varlink.OnewayCalls

variable {σ : Type} {dump : Dump} {stack : Nat} {replySender : Json → Action σ Unit}

/-- The interface is known, and neither the steps before the callback nor the
callback itself end with an exception that a catch clause answers. -/
inductive NoErrorReply (dump : Dump) (stack : Nat) (replySender : Json → Action σ Unit)
    (service : VarlinkService) (message : VarlinkMessage) (call : Nat) (s : σ) : Prop where
  | notCalled {entry : InterfaceEntry} {stop : Stop}
      (known : service.findInterface message.interface = some entry)
      (stopped : lookupCall dump stack entry message call = .error stop)
      (unanswered : stop.Unanswered)
  | called {entry : InterfaceEntry} {handler : ReplyHandler} {behaviour : Behaviour}
      (known : service.findInterface message.interface = some entry)
      (found : lookupCall dump stack entry message call = .ok (handler, behaviour))
      (unanswered : ∀ stop, (behaviour.run (handler.call dump stack replySender) s).1 =
        .error stop → stop.Unanswered)

theorem run_oneway {h : ReplyHandler} (oneway : h.mode = .oneway) (b : Behaviour)
    (s : σ × List Json) :
    ∃ n, (b.run (h.call dump stack (recorded replySender)) s).2.2 =
      s.2 ++ List.replicate n .null := by
  induction b generalizing s with
  | returns later => exact ⟨0, (List.append_nil _).symm⟩
  | throws e => exact ⟨0, (List.append_nil _).symm⟩
  | sendReply params continues next ih =>
    simp only [Behaviour.run, ReplyHandler.call, ReplyHandler.reply, oneway, replyValue]
    cases checkType dump stack h.interface (.object params) h.returnType with
    | error stop =>
      cases stop with
      | thrown e => exact ih (some e) s
      | stackOverflow => exact ⟨0, (List.append_nil _).symm⟩
      | assertion => exact ⟨0, (List.append_nil _).symm⟩
    | ok valid =>
      have one : ∀ t (o : Option Exn), ∃ n,
          ((next o).run (h.call dump stack (recorded replySender)) (t, s.2 ++ [.null])).2.2 =
            s.2 ++ List.replicate n .null := by
        intro t o
        obtain ⟨n, hn⟩ := ih o (t, s.2 ++ [.null])
        exact ⟨n + 1, by rw [hn, List.append_assoc]; rfl⟩
      simp only [Except.mapError, bind, Except.bind, recorded]
      rcases replySender .null s.1 with ⟨⟨stop⟩ | ⟨⟨⟩⟩, t⟩
      · cases stop with
        | thrown e => exact one t (some e)
        | stackOverflow => exact ⟨1, rfl⟩
        | assertion => exact ⟨1, rfl⟩
      · exact one t none

theorem noErrorReply_iff_stopped {service : VarlinkService} {message : VarlinkMessage} {call : Nat}
    {s : σ} {entry : InterfaceEntry} {stop : Stop}
    (known : service.findInterface message.interface = some entry)
    (stopped : lookupCall dump stack entry message call = .error stop) :
    NoErrorReply dump stack replySender service message call s ↔ stop.Unanswered := by
  constructor
  · rintro (⟨known', stopped', unanswered⟩ | ⟨known', found', -⟩)
    · cases known.symm.trans known'
      cases stopped.symm.trans stopped'
      exact unanswered
    · cases known.symm.trans known'
      cases stopped.symm.trans found'
  · exact .notCalled known stopped

theorem noErrorReply_iff_called {service : VarlinkService} {message : VarlinkMessage} {call : Nat}
    {s : σ} {entry : InterfaceEntry} {handler : ReplyHandler} {behaviour : Behaviour}
    (known : service.findInterface message.interface = some entry)
    (found : lookupCall dump stack entry message call = .ok (handler, behaviour)) :
    NoErrorReply dump stack replySender service message call s ↔
      ∀ stop, (behaviour.run (handler.call dump stack replySender) s).1 = .error stop →
        stop.Unanswered := by
  constructor
  · rintro (⟨known', stopped', -⟩ | ⟨known', found', unanswered⟩)
    · cases known.symm.trans known'
      cases found.symm.trans stopped'
    · cases known.symm.trans known'
      cases found.symm.trans found'
      exact unanswered
  · exact .called known found

theorem callMethod_oneway {service : VarlinkService} {message : VarlinkMessage} {call : Nat} {s : σ}
    {entry : InterfaceEntry} (oneway : message.mode = .oneway)
    (known : service.findInterface message.interface = some entry)
    {result : Except Stop Deferred} {t : σ × List Json}
    (tried : callMethod dump stack (recorded replySender) entry message call (s, []) =
      (result, t)) :
    (∃ n, t.2 = List.replicate n .null) ∧
      (NoErrorReply dump stack replySender service message call s ↔
        ∀ stop, result = .error stop → stop.Unanswered) := by
  cases found : lookupCall dump stack entry message call with
  | error stop =>
    cases tried.symm.trans (callMethod_stopped found (s, []))
    refine ⟨⟨0, rfl⟩, (noErrorReply_iff_stopped known found).trans ?_⟩
    exact ⟨fun h _ same => by cases same; exact h, fun h => h stop rfl⟩
  | ok p =>
    obtain ⟨handler, behaviour⟩ := p
    cases tried.symm.trans (callMethod_found found (s, []))
    obtain ⟨n, nulls⟩ := run_oneway ((lookupCall_mode found).trans oneway) behaviour (s, [])
    refine ⟨⟨n, nulls⟩, (noErrorReply_iff_called known found).trans ?_⟩
    simp only [(run_recorded handler behaviour (s, [])).1, map_eq_error_iff]

/-- A oneway call passes no object to the sender exactly when its interface is
known and neither the dispatch nor the callback ends in an answered exception. -/
theorem oneway_silent_iff (dump : Dump) (stack : Nat) (replySender : Json → Action σ Unit)
    (service : VarlinkService) (message : VarlinkMessage) (call : Nat) (s : σ)
    (oneway : message.mode = .oneway) :
    (∀ reply ∈ passed dump stack replySender service message call s, reply.isObject = false) ↔
      NoErrorReply dump stack replySender service message call s := by
  cases known : service.findInterface message.interface with
  | none =>
    rw [passed_unknown known]
    constructor
    · intro silent
      exact absurd (silent _ (List.mem_singleton_self _)) (by simp [errorObject, Json.isObject])
    · rintro (⟨known', -, -⟩ | ⟨known', -, -⟩) <;> cases known.symm.trans known'
  | some entry =>
    rcases tried : callMethod dump stack (recorded replySender) entry message call (s, []) with
      ⟨result, t⟩
    obtain ⟨⟨n, nulls⟩, due⟩ := callMethod_oneway oneway known tried
    rw [due]
    rcases passed_known known tried with
      ⟨unanswered, log⟩ | ⟨⟨stop, stopped, answered⟩, what, params, log⟩
    · refine ⟨fun _ => unanswered, fun _ reply member => ?_⟩
      rw [log, nulls] at member
      rw [List.eq_of_mem_replicate member]
      rfl
    · constructor
      · intro silent
        have last : errorObject what params ∈
            passed dump stack replySender service message call s := by
          rw [log]
          exact List.mem_append_right _ (List.mem_singleton_self _)
        exact absurd (silent _ last) (by simp [errorObject, Json.isObject])
      · exact fun unanswered => absurd (unanswered stop stopped) answered

def onewayCall (method : String) : Json :=
  .object [("method", .string method), ("oneway", .boolean true)]

theorem oneway_silent_iff_ping :
    VarlinkMessage.ofJson JsonText.dump (onewayCall "org.test.Ping") =
        .ok ⟨onewayCall "org.test.Ping", .oneway⟩ ∧
      ∀ reply ∈ passed JsonText.dump 1 (fun _ s => (.ok (), s))
        (pingService fun _ _ _ => .sendReply [] false fun _ => .returns [])
        ⟨onewayCall "org.test.Ping", .oneway⟩ 0 (), reply.isObject = false :=
  ⟨rfl, (oneway_silent_iff _ _ _ _ _ _ () rfl).mpr (.called rfl rfl nofun)⟩

/-- A oneway call to an interface that is not registered is answered. -/
theorem unknownInterface_answered :
    let message : VarlinkMessage := ⟨onewayCall "org.none.Ping", .oneway⟩
    VarlinkMessage.ofJson JsonText.dump (onewayCall "org.none.Ping") = .ok message ∧
      ¬ ∀ reply ∈ passed JsonText.dump 1 (fun _ s => (.ok (), s))
        (pingService fun _ _ _ => .returns []) message 0 (), reply.isObject = false := by
  refine ⟨rfl, fun silent => ?_⟩
  rw [passed_unknown rfl] at silent
  exact absurd (silent _ (List.mem_singleton_self _)) (by simp [errorObject, Json.isObject])

end Varlink.OnewayCalls
