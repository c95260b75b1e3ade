import Varlink.JsonText
import Varlink.Recording

/-! The replies of one request. Neither the closure nor the catch clauses know
whether the request has been answered: it is the callback that has to stop. -/

namespace Varlink.TerminalReply

variable {σ : Type} {dump : Dump} {stack : Nat} {replySender : Json → Action σ Unit}

/-- An object without `continues: true`. -/
def isTerminal (reply : Json) : Bool :=
  reply.isObject && match reply.find? "continues" with
    | some (.boolean continues) => !continues
    | _ => true

/-- At most one reply is terminal, and none follows it. -/
def TerminalLast (replies : List Json) : Prop :=
  ∀ reply ∈ replies.dropLast, isTerminal reply = false

/-- What a callback must keep to: once a terminal reply has been passed on it
gets no further reply accepted and does not end in an answered exception. -/
def Settles (reply : Object → Bool → Except Stop Json) : Bool → Behaviour → Prop
  | _, .returns _ => True
  | answered, .throws e => answered = true → e.answered = false
  | answered, .sendReply params continues next =>
    match reply params continues with
    | .ok passedOn => answered = false ∧ Settles reply (isTerminal passedOn) (next none)
    | .error (.thrown e) => Settles reply answered (next (some e))
    | .error _ => True

theorem terminalLast_concat (log : List Json) (reply : Json) :
    TerminalLast (log ++ [reply]) ↔ log.any isTerminal = false := by
  simp only [TerminalLast, List.dropLast_concat, List.any_eq_false, Bool.not_eq_true]

theorem TerminalLast.of_isPrefix {log longer : List Json} (h : TerminalLast longer)
    (hpre : log <+: longer) : TerminalLast log := by
  obtain ⟨rest, rfl⟩ := hpre
  cases rest with
  | nil => rwa [List.append_nil] at h
  | cons reply rest =>
    intro r member
    refine h r ?_
    rw [List.dropLast_append_of_ne_nil (List.cons_ne_nil reply rest)]
    exact List.mem_append_left _ (List.dropLast_subset log member)

theorem TerminalLast.count_le {log : List Json} (h : TerminalLast log) :
    log.countP isTerminal ≤ 1 := by
  rcases List.eq_nil_or_concat log with rfl | ⟨front, last, rfl⟩
  · exact Nat.zero_le 1
  · rw [List.concat_eq_append] at h ⊢
    have front0 : front.countP isTerminal = 0 := by
      rw [List.countP_eq_zero]
      simpa [TerminalLast] using h
    rw [List.countP_append, front0, Nat.zero_add]
    exact List.countP_le_length

theorem run_log_isPrefix (h : ReplyHandler) (b : Behaviour) (s : σ × List Json) :
    s.2 <+: (b.run (h.call dump stack (recorded replySender)) s).2.2 := by
  refine Behaviour.run_invariant (fun t : σ × List Json => s.2 <+: t.2)
    (fun params continues t longer => ?_) b (List.prefix_refl _)
  unfold ReplyHandler.call
  split
  · exact longer
  · exact longer.trans (List.prefix_append _ _)

theorem run_settles_iff (dump : Dump) (stack : Nat)
    (never : ∀ reply s, (replySender reply s).1 = .ok ()) (h : ReplyHandler) (b : Behaviour)
    (s : σ × List Json) (hlast : TerminalLast s.2) :
    (TerminalLast (b.run (h.call dump stack (recorded replySender)) s).2.2 ∧
      ∀ stop, (b.run (h.call dump stack (recorded replySender)) s).1 = .error stop →
        ¬ stop.Unanswered →
          (b.run (h.call dump stack (recorded replySender)) s).2.2.any isTerminal = false) ↔
      Settles (h.reply dump stack) (s.2.any isTerminal) b := by
  induction b generalizing s with
  | returns later => simp [Behaviour.run, Settles, hlast]
  | throws e =>
    simp only [Behaviour.run, Settles, hlast, true_and, Except.error.injEq, forall_eq']
    simp only [Stop.Unanswered, Stop.thrown.injEq, forall_eq', Bool.not_eq_false]
    cases s.2.any isTerminal <;> cases e.answered <;> simp
  | sendReply params continues next ih =>
    simp only [Behaviour.run, ReplyHandler.call, Settles]
    cases h.reply dump stack params continues with
    | error stop =>
      cases stop with
      | thrown e => exact ih (some e) s hlast
      | stackOverflow => simp [hlast, Stop.Unanswered]
      | assertion => simp [hlast, Stop.Unanswered]
    | ok reply =>
      have sent : recorded replySender reply s =
          (.ok (), ((replySender reply s.1).2, s.2 ++ [reply])) :=
        Prod.ext (never reply s.1) rfl
      simp only [sent]
      cases settled : s.2.any isTerminal with
      | true =>
        simp only [Bool.true_eq_false, false_and, iff_false, not_and]
        intro terminal
        have extended := terminal.of_isPrefix
          (run_log_isPrefix h (next none) ((replySender reply s.1).2, s.2 ++ [reply]))
        rw [terminalLast_concat, settled] at extended
        exact absurd extended (by decide)
      | false =>
        have last : TerminalLast (s.2 ++ [reply]) := (terminalLast_concat _ _).mpr settled
        simpa [settled] using ih none ((replySender reply s.1).2, s.2 ++ [reply]) last

/-- Over a sender that never throws, `message_call` passes on at most one
terminal reply and nothing behind it exactly if the callback it reaches settles. -/
theorem terminalLast_iff (dump : Dump) (stack : Nat) (replySender : Json → Action σ Unit)
    (never : ∀ reply s, (replySender reply s).1 = .ok ())
    (service : VarlinkService) (message : VarlinkMessage) (call : Nat) (s : σ) :
    (TerminalLast (passed dump stack replySender service message call s) ↔
      ∀ entry handler behaviour, service.findInterface message.interface = some entry →
        lookupCall dump stack entry message call = .ok (handler, behaviour) →
          Settles (handler.reply dump stack) false behaviour) ∧
    (TerminalLast (passed dump stack replySender service message call s) →
      (passed dump stack replySender service message call s).countP isTerminal ≤ 1) := by
  refine ⟨?_, TerminalLast.count_le⟩
  cases known : service.findInterface message.interface with
  | none =>
    rw [passed_unknown known]
    exact ⟨fun _ => nofun, fun _ _ member => absurd member List.not_mem_nil⟩
  | some entry =>
    have only : (∀ entry' handler behaviour, some entry = some entry' →
        lookupCall dump stack entry' message call = .ok (handler, behaviour) →
          Settles (handler.reply dump stack) false behaviour) ↔
        ∀ handler behaviour, lookupCall dump stack entry message call = .ok (handler, behaviour) →
          Settles (handler.reply dump stack) false behaviour :=
      ⟨fun h handler behaviour => h entry handler behaviour rfl,
        fun h _ handler behaviour same => by cases same; exact h handler behaviour⟩
    rw [only]
    rcases tried : callMethod dump stack (recorded replySender) entry message call (s, []) with
      ⟨result, t⟩
    have total : TerminalLast (passed dump stack replySender service message call s) ↔
        TerminalLast t.2 ∧ ∀ stop, result = .error stop → ¬ stop.Unanswered →
          t.2.any isTerminal = false := by
      rcases passed_known known tried with
        ⟨unanswered, log⟩ | ⟨⟨stop, stopped, answered⟩, what, params, log⟩
      · rw [log]
        exact ⟨fun h => ⟨h, fun stop same contra => absurd (unanswered stop same) contra⟩, And.left⟩
      · rw [log, terminalLast_concat]
        constructor
        · intro none_
          refine ⟨?_, fun _ _ _ => none_⟩
          exact ((terminalLast_concat t.2 .null).mpr none_).of_isPrefix (List.prefix_append _ _)
        · exact fun h => h.2 stop stopped answered
    rw [total]
    cases found : lookupCall dump stack entry message call with
    | error stop =>
      cases tried.symm.trans (callMethod_stopped found (s, []))
      exact ⟨fun _ => nofun, fun _ => ⟨nofun, fun _ _ _ => rfl⟩⟩
    | ok p =>
      obtain ⟨handler, behaviour⟩ := p
      cases tried.symm.trans (callMethod_found found (s, []))
      have settles := run_settles_iff dump stack never handler behaviour (s, []) nofun
      simp only [map_eq_error_iff]
      refine settles.trans ⟨fun h _ _ same => ?_, fun h => h handler behaviour rfl⟩
      cases same
      exact h

theorem terminalLast_iff_ping :
    TerminalLast (passed JsonText.dump 1 (fun _ s => (.ok (), s))
      (pingService fun _ _ _ => .sendReply [] false fun _ => .returns [])
      ⟨.object [("method", .string "org.test.Ping")], .basic⟩ 0 ()) := by
  refine (terminalLast_iff _ 1 _ (fun _ _ => rfl) _ _ 0 ()).1.mpr ?_
  rintro entry handler behaviour ⟨⟩ ⟨⟩
  exact ⟨rfl, trivial⟩

/-- A callback that throws after its reply has the request answered twice. -/
theorem throws_after_reply :
    let late : Behaviour := .throws (.standard .runtimeError "late")
    ¬ TerminalLast (passed JsonText.dump 1 (fun _ s => (.ok (), s))
      (pingService fun _ _ _ => .sendReply [] false fun _ => late)
      ⟨.object [("method", .string "org.test.Ping")], .basic⟩ 0 ()) := by
  intro late h
  have first := h (.object [("parameters", .object [])]) List.mem_cons_self
  exact absurd first (by decide)

end Varlink.TerminalReply
