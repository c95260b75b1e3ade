import Varlink.Service

/-! What `message_call` passes to its reply sender: the sender is wrapped in one
that also writes down every value it is given. The wrapping changes nothing else. -/

namespace Varlink

variable {σ : Type} {dump : Dump} {stack : Nat} {replySender : Json → Action σ Unit}

def recorded (replySender : Json → Action σ Unit) : Json → Action (σ × List Json) Unit :=
  fun reply s =>
    let (result, t) := replySender reply s.1
    (result, (t, s.2 ++ [reply]))

/-- Whether one of the catch clauses sends an error reply for the exception. -/
def Exn.answered : Exn → Bool
  | .varlinkError _ args => args.isObject
  | .systemError | .foreign => false
  | _ => true

def passed (dump : Dump) (stack : Nat) (replySender : Json → Action σ Unit)
    (service : VarlinkService) (message : VarlinkMessage) (call : Nat) (s : σ) : List Json :=
  (messageCall dump stack (recorded replySender) service message call (s, [])).2.2

theorem sendError_recorded (what : String) (params : Json) (s : σ × List Json) :
    (sendError (recorded replySender) what params s).2.2 =
      if params.isObject then s.2 ++ [errorObject what params] else s.2 := by
  unfold sendError
  split <;> rfl

theorem catchClauses_recorded (method : String) (e : Exn) (s : σ × List Json) :
    (e.answered = true ∧ ∃ what params,
      (catchClauses (recorded replySender) method e s).2.2 = s.2 ++ [errorObject what params]) ∨
    (e.answered = false ∧ (catchClauses (recorded replySender) method e s).2.2 = s.2) := by
  unfold catchClauses
  cases e with
  | varlinkError what args =>
    simp only [Exn.errorReply, sendError_recorded, Exn.answered]
    cases args.isObject
    · exact .inr ⟨rfl, rfl⟩
    · exact .inl ⟨rfl, what, args, rfl⟩
  | systemError => exact .inr ⟨rfl, rfl⟩
  | foreign => exact .inr ⟨rfl, rfl⟩
  | _ => exact .inl ⟨rfl, _, _, rfl⟩

def Stop.Unanswered (stop : Stop) : Prop := ∀ e, stop = .thrown e → e.answered = false

theorem passed_unknown {service : VarlinkService} {message : VarlinkMessage} {call : Nat} {s : σ}
    (unknown : service.findInterface message.interface = none) :
    passed dump stack replySender service message call s =
      [errorObject "org.varlink.service.InterfaceNotFound"
        (.object [("interface", .string message.interface)])] := by
  rw [passed, messageCall_unknown unknown]
  exact sendError_recorded _ _ _

theorem passed_known {service : VarlinkService} {message : VarlinkMessage} {call : Nat} {s : σ}
    {entry : InterfaceEntry} (known : service.findInterface message.interface = some entry)
    {result : Except Stop Deferred} {t : σ × List Json}
    (tried : callMethod dump stack (recorded replySender) entry message call (s, []) =
      (result, t)) :
    ((∀ stop, result = .error stop → stop.Unanswered) ∧
        passed dump stack replySender service message call s = t.2) ∨
      ((∃ stop, result = .error stop ∧ ¬ stop.Unanswered) ∧ ∃ what params,
        passed dump stack replySender service message call s =
          t.2 ++ [errorObject what params]) := by
  rw [passed]
  cases result with
  | ok deferred => exact .inl ⟨nofun, by rw [messageCall_returned known tried]⟩
  | error stop =>
    cases stop with
    | thrown e =>
      rw [messageCall_thrown known tried]
      rcases catchClauses_recorded
        (message.interface ++ "." ++ message.method) e t with
        ⟨answered, what, params, log⟩ | ⟨silent, log⟩
      · refine .inr ⟨⟨_, rfl, fun h => ?_⟩, what, params, log⟩
        exact Bool.false_ne_true ((h e rfl).symm.trans answered)
      · refine .inl ⟨?_, log⟩
        rintro stop ⟨⟩ e' ⟨⟩
        exact silent
    | stackOverflow =>
      refine .inl ⟨?_, by rw [messageCall_died known tried nofun]⟩
      rintro stop ⟨⟩ e ⟨⟩
    | assertion =>
      refine .inl ⟨?_, by rw [messageCall_died known tried nofun]⟩
      rintro stop ⟨⟩ e ⟨⟩

/-- One reply sender does in a part of its state what another does in all of it. -/
def Projects {τ : Type} (sender : Json → Action τ Unit) (replySender : Json → Action σ Unit)
    (π : τ → σ) : Prop :=
  ∀ reply s, (sender reply s).1 = (replySender reply (π s)).1 ∧
    π (sender reply s).2 = (replySender reply (π s)).2

section Projects
variable {τ : Type} {sender : Json → Action τ Unit} {π : τ → σ}

variable (dump stack) in
theorem Projects.run (same : Projects sender replySender π) (h : ReplyHandler) (b : Behaviour)
    (s : τ) :
    (b.run (h.call dump stack sender) s).1 =
        (b.run (h.call dump stack replySender) (π s)).1 ∧
      π (b.run (h.call dump stack sender) s).2 =
        (b.run (h.call dump stack replySender) (π s)).2 := by
  induction b generalizing s with
  | returns later => exact ⟨rfl, rfl⟩
  | throws e => exact ⟨rfl, rfl⟩
  | sendReply params continues next ih =>
    simp only [Behaviour.run, ReplyHandler.call]
    cases h.reply dump stack params continues with
    | error stop =>
      cases stop with
      | thrown e => exact ih (some e) s
      | stackOverflow => exact ⟨rfl, rfl⟩
      | assertion => exact ⟨rfl, rfl⟩
    | ok reply =>
      obtain ⟨result, state⟩ := same reply s
      simp only
      generalize sender reply s = r at result state ⊢
      generalize replySender reply (π s) = r' at result state ⊢
      obtain ⟨r, t⟩ := r
      obtain ⟨r', t'⟩ := r'
      obtain rfl : r = r' := result
      obtain rfl : π t = t' := state
      rcases r with stop | ⟨⟨⟩⟩
      · cases stop with
        | thrown e => exact ih (some e) t
        | stackOverflow => exact ⟨rfl, rfl⟩
        | assertion => exact ⟨rfl, rfl⟩
      · exact ih none t

theorem Projects.sendError (same : Projects sender replySender π) (what : String) (params : Json)
    (s : τ) :
    (sendError sender what params s).1 = (Varlink.sendError replySender what params (π s)).1 ∧
      π (Varlink.sendError sender what params s).2 =
        (Varlink.sendError replySender what params (π s)).2 := by
  unfold Varlink.sendError
  cases params.isObject
  · exact ⟨rfl, rfl⟩
  · exact same _ s

theorem Projects.catchClauses (same : Projects sender replySender π) (method : String) (e : Exn)
    (s : τ) :
    (Varlink.catchClauses sender method e s).1 =
        (Varlink.catchClauses replySender method e (π s)).1 ∧
      π (Varlink.catchClauses sender method e s).2 =
        (Varlink.catchClauses replySender method e (π s)).2 := by
  cases e with
  | systemError => exact ⟨rfl, rfl⟩
  | foreign => exact ⟨rfl, rfl⟩
  | _ => exact same.sendError _ _ s

end Projects

theorem recorded_projects : Projects (recorded replySender) replySender Prod.fst :=
  fun _ _ => ⟨rfl, rfl⟩

theorem run_recorded (h : ReplyHandler) (b : Behaviour) (s : σ × List Json) :
    (b.run (h.call dump stack (recorded replySender)) s).1 =
        (b.run (h.call dump stack replySender) s.1).1 ∧
      (b.run (h.call dump stack (recorded replySender)) s).2.1 =
        (b.run (h.call dump stack replySender) s.1).2 :=
  recorded_projects.run dump stack h b s

end Varlink
