import Varlink.ErrorReplies
import Varlink.JsonText

/-! Which calls are answered with MethodNotFound. The catch clauses tell the exceptions
of a callback apart from those of the lookup by nothing but their classes. -/

namespace Varlink.MethodErrors

variable {σ : Type} {dump : Dump} {stack : Nat} {replySender : Json → Action σ Unit}

/-- The callback ends with an exception of its own, and does not let one through that
`send_reply` has just thrown. -/
def EndsOwn (sendReply : Object → Bool → Action σ Unit) :
    Behaviour → Option Exn → σ → Exn → Prop
  | .returns _, _, _, _ => False
  | .throws e, last, _, own => own = e ∧ last ≠ some e
  | .sendReply params continues next, _, s, own =>
    match sendReply params continues s with
    | (.ok (), t) => EndsOwn sendReply (next none) none t own
    | (.error (.thrown e), t) => EndsOwn sendReply (next (some e)) (some e) t own
    | (.error _, _) => False

section Callback
variable {sendReply : Object → Bool → Action σ Unit} {b : Behaviour} {last : Option Exn} {s : σ}
variable {e : Exn}

theorem EndsOwn.run (h : EndsOwn sendReply b last s e) :
    (b.run sendReply s).1 = .error (.thrown e) := by
  induction b generalizing last s with
  | returns later => exact h.elim
  | throws e' => rw [h.1]; rfl
  | sendReply params continues next ih =>
    simp only [EndsOwn] at h
    simp only [Behaviour.run]
    generalize sendReply params continues s = r at h ⊢
    rcases r with ⟨(_ | _ | _) | ⟨⟨⟩⟩, t⟩
    · exact ih _ h
    · exact h.elim
    · exact h.elim
    · exact ih _ h

theorem endsOwn_or {P : Exn → Prop}
    (throws : ∀ params continues s e, (sendReply params continues s).1 = .error (.thrown e) → P e)
    (before : ∀ e, last = some e → P e) (ends : (b.run sendReply s).1 = .error (.thrown e)) :
    EndsOwn sendReply b last s e ∨ P e := by
  induction b generalizing last s with
  | returns later => cases ends
  | throws e' =>
    cases ends
    by_cases through : last = some e
    · exact .inr (before e through)
    · exact .inl ⟨rfl, through⟩
  | sendReply params continues next ih =>
    have thrown := throws params continues s
    simp only [Behaviour.run] at ends
    simp only [EndsOwn]
    generalize sendReply params continues s = r at ends thrown ⊢
    rcases r with ⟨(_ | _ | _) | ⟨⟨⟩⟩, t⟩
    · exact ih _ (fun e' same => by cases same; exact thrown _ rfl) ends
    · cases ends
    · cases ends
    · exact ih _ (by rintro _ ⟨⟩) ends

end Callback

/-- The invoked callback ends with this exception of its own. -/
def Throws (dump : Dump) (stack : Nat) (replySender : Json → Action σ Unit)
    (service : VarlinkService) (message : VarlinkMessage) (call : Nat) (s : σ) (e : Exn) : Prop :=
  ∃ entry handler behaviour, service.findInterface message.interface = some entry ∧
    lookupCall dump stack entry message call = .ok (handler, behaviour) ∧
    EndsOwn (handler.call dump stack replySender) behaviour none s e

/-- The classes of the standard library, but for `std::system_error`. -/
def ofStandardLibrary : Exn → Bool
  | .outOfRange _ | .badFunctionCall | .standard _ _ => true
  | _ => false

/-- The exceptions of a callback that are taken for those of the lookup, and one that has
the name of their answer. -/
def mistaken : Exn → Bool
  | .outOfRange _ | .badFunctionCall => true
  | .varlinkError what args => what == "org.varlink.service.MethodNotFound" && args.isObject
  | _ => false

def Sends (what : String) (replies : List Json) : Prop :=
  ∃ reply ∈ replies, reply.find? "error" = some (.string what)

/-- MethodNotFound is sent if the interface is registered and does not declare the method,
and only then; an exception of the standard library is an internal error. -/
structure Reported (dump : Dump) (stack : Nat) (replySender : Json → Action σ Unit) (r : Registry)
    (message : VarlinkMessage) (call : Nat) (s : σ) : Prop where
  notFound : Sends "org.varlink.service.MethodNotFound"
      (passed dump stack replySender r.service message call s) ↔
    ∃ entry ∈ r.service.interfaces, entry.spec.ifname = message.interface ∧
      ∀ m, ¬entry.spec.Declares message.method m
  internal : ∀ e, Throws dump stack replySender r.service message call s e →
    ofStandardLibrary e = true → ∃ what,
      (passed dump stack replySender r.service message call s).getLast? =
        some (errorObject "org.varlink.service.InternalError" (.object [("what", .string what)]))

section Sending
variable {method : String} {e : Exn}

theorem find_error_errorObject (what : String) (params : Json) :
    (errorObject what params).find? "error" = some (.string what) := rfl

theorem sends_append {what : String} {replies replies' : List Json}
    (plain : ∀ reply ∈ replies, reply.find? "error" = none) :
    Sends what (replies ++ replies') ↔ Sends what replies' := by
  constructor
  · rintro ⟨reply, member, error_⟩
    rcases List.mem_append.mp member with member | member
    · cases (plain reply member).symm.trans error_
    · exact ⟨reply, member, error_⟩
  · rintro ⟨reply, member, error_⟩
    exact ⟨reply, List.mem_append_right replies member, error_⟩

theorem sends_answer_iff : Sends "org.varlink.service.MethodNotFound" (e.answer method) ↔
    (∃ what, e = .outOfRange what) ∨
      ∃ args, e = .varlinkError "org.varlink.service.MethodNotFound" args ∧
        args.isObject = true := by
  cases e with
  | varlinkError what args =>
    simp only [Exn.answer, Exn.errorReply, Sends]
    cases object : args.isObject <;> simp [find_error_errorObject, object]
  | _ => simp [Sends, Exn.answer, Exn.errorReply, Json.isObject, find_error_errorObject]

end Sending

section Calls
variable {r : Registry} {message : VarlinkMessage} {call : Nat} {s : σ} {entry : InterfaceEntry}

theorem method_throws {i : VarlinkInterface} {name : String} {e : Exn}
    (h : i.method name = .error e) : e = .outOfRange name := by
  unfold VarlinkInterface.method VarlinkInterface.findMember at h
  split at h
  · cases h
  · cases h
    rfl

theorem undeclared_iff (known : r.service.findInterface message.interface = some entry) :
    (∃ entry' ∈ r.service.interfaces, entry'.spec.ifname = message.interface ∧
        ∀ m, ¬entry'.spec.Declares message.method m) ↔
      ∀ m, entry.spec.method message.method ≠ .ok m := by
  obtain ⟨registered, named⟩ := r.findInterface_eq_some_iff.mp known
  have constructed := r.constructed entry registered
  constructor
  · rintro ⟨entry', registered', named', none⟩ m found
    have same := r.findInterface_eq_some_iff.mpr ⟨registered', named'⟩
    obtain rfl : entry = entry' := Option.some_inj.mp (known.symm.trans same)
    exact none m ((VarlinkInterface.method_eq_ok_iff constructed).mp found)
  · intro none
    exact ⟨entry, registered, named, fun m declares =>
      none m ((VarlinkInterface.method_eq_ok_iff constructed).mpr declares)⟩

theorem sends_known_iff (known : r.service.findInterface message.interface = some entry) :
    Sends "org.varlink.service.MethodNotFound"
        (passed dump stack replySender r.service message call s) ↔
      ∃ e, (callMethod dump stack replySender entry message call s).1 = .error (.thrown e) ∧
        ((∃ what, e = .outOfRange what) ∨
          ∃ args, e = .varlinkError "org.varlink.service.MethodNotFound" args ∧
            args.isObject = true) := by
  obtain ⟨front, plain, log⟩ := passed_eq dump stack replySender call s known
  rw [log, sends_append plain]
  generalize (callMethod dump stack replySender entry message call s).1 = result
  rcases result with (e | _ | _) | deferred
  · rw [answerOf, sends_answer_iff]
    exact ⟨fun sent => ⟨e, rfl, sent⟩, fun ⟨e', same, sent⟩ => by cases same; exact sent⟩
  · exact ⟨fun ⟨_, member, _⟩ => absurd member List.not_mem_nil, nofun⟩
  · exact ⟨fun ⟨_, member, _⟩ => absurd member List.not_mem_nil, nofun⟩
  · exact ⟨fun ⟨_, member, _⟩ => absurd member List.not_mem_nil, nofun⟩

theorem callMethod_of_lookup {handler : ReplyHandler} {behaviour : Behaviour} {e : Exn}
    (found : lookupCall dump stack entry message call = .ok (handler, behaviour)) :
    (callMethod dump stack replySender entry message call s).1 = .error (.thrown e) ↔
      (behaviour.run (handler.call dump stack replySender) s).1 = .error (.thrown e) := by
  rw [callMethod_found found]
  exact map_eq_error_iff

theorem sends_lookup_iff (dumps : DumpErrors dump) {stop : Stop}
    (stopped : lookupCall dump stack entry message call = .error stop) :
    (∃ e, stop = .thrown e ∧ ((∃ what, e = .outOfRange what) ∨
        ∃ args, e = .varlinkError "org.varlink.service.MethodNotFound" args ∧
          args.isObject = true)) ↔ ∀ m, entry.spec.method message.method ≠ .ok m := by
  constructor
  · rintro ⟨e, rfl, sent⟩ m found
    rcases lookupCall_throws dumps stopped with undeclared | ⟨-, (⟨_, rfl⟩ | ⟨_, _, rfl⟩) | rfl⟩
    · cases undeclared.symm.trans found
    all_goals rcases sent with ⟨_, contra⟩ | ⟨_, contra, -⟩ <;> cases contra
  · intro none
    rcases of_bind_eq_error stopped with undeclared | ⟨m, found, -⟩
    · obtain ⟨e, missing, rfl⟩ := of_mapError_eq_error undeclared
      exact ⟨e, rfl, .inl ⟨_, method_throws missing⟩⟩
    · exact absurd (of_mapError_eq_ok found) (none m)

theorem Throws.answered {e : Exn}
    (h : Throws dump stack replySender r.service message call s e) :
    ∃ entry m front, r.service.findInterface message.interface = some entry ∧
      entry.spec.method message.method = .ok m ∧
      (callMethod dump stack replySender entry message call s).1 = .error (.thrown e) ∧
      passed dump stack replySender r.service message call s =
        front ++ e.answer (message.interface ++ "." ++ message.method) := by
  obtain ⟨entry, handler, behaviour, known, found, own⟩ := h
  obtain ⟨m, _, method, -⟩ := lookupCall_found found
  have tried := (callMethod_of_lookup found).mpr own.run
  obtain ⟨front, -, log⟩ := passed_eq dump stack replySender call s known
  rw [tried] at log
  exact ⟨entry, m, front, known, method, tried, log⟩

theorem Reported.clean {e : Exn} (reported : Reported dump stack replySender r message call s)
    (throws : Throws dump stack replySender r.service message call s e) : mistaken e = false := by
  obtain ⟨entry, m, front, known, method, tried, log⟩ := throws.answered
  have declared : ¬Sends "org.varlink.service.MethodNotFound"
      (passed dump stack replySender r.service message call s) := fun sent =>
    (undeclared_iff known).mp (reported.notFound.mp sent) m method
  rw [sends_known_iff known] at declared
  cases e with
  | outOfRange what => exact absurd ⟨_, tried, .inl ⟨what, rfl⟩⟩ declared
  | badFunctionCall =>
    obtain ⟨what, last⟩ := reported.internal _ throws rfl
    rw [log] at last
    simp [Exn.answer, Exn.errorReply, Json.isObject, errorObject] at last
  | varlinkError what args =>
    by_contra named
    simp only [mistaken, Bool.not_eq_false, Bool.and_eq_true, beq_iff_eq] at named
    obtain ⟨rfl, object⟩ := named
    exact declared ⟨_, tried, .inr ⟨args, rfl, object⟩⟩
  | _ => rfl

theorem not_sends_unknown (unknown : r.service.findInterface message.interface = none) :
    ¬Sends "org.varlink.service.MethodNotFound"
      (passed dump stack replySender r.service message call s) := by
  rw [passed_unknown unknown]
  rintro ⟨reply, member, error_⟩
  obtain rfl := List.mem_singleton.mp member
  simp [find_error_errorObject] at error_

theorem not_notFound_of_clean (dumps : DumpErrors dump) (sends : SendErrors replySender)
    (clean : ∀ e, Throws dump stack replySender r.service message call s e → mistaken e = false)
    (known : r.service.findInterface message.interface = some entry) {handler : ReplyHandler}
    {behaviour : Behaviour} {e : Exn}
    (found : lookupCall dump stack entry message call = .ok (handler, behaviour))
    (ran : (behaviour.run (handler.call dump stack replySender) s).1 = .error (.thrown e)) :
    ¬((∃ what, e = .outOfRange what) ∨
      ∃ args, e = .varlinkError "org.varlink.service.MethodNotFound" args ∧
        args.isObject = true) := by
  intro sent
  have ends : EndsOwn (handler.call dump stack replySender) behaviour none s e ∨
      (e.Invalid ∨ e = .badFunctionCall ∨ e = .systemError) :=
    endsOwn_or (fun _ _ _ _ => call_throws dumps sends) nofun ran
  rcases ends with own | (⟨_, rfl⟩ | ⟨_, _, rfl⟩) | rfl | rfl
  · have plain := clean e ⟨entry, handler, behaviour, known, found, own⟩
    rcases sent with ⟨what, rfl⟩ | ⟨args, rfl, object⟩
    · cases plain
    · simp [mistaken, object] at plain
  all_goals rcases sent with ⟨_, contra⟩ | ⟨_, contra, -⟩ <;> cases contra

theorem Throws.internal {e : Exn}
    (throws : Throws dump stack replySender r.service message call s e)
    (plain : mistaken e = false) (standard : ofStandardLibrary e = true) : ∃ what,
      (passed dump stack replySender r.service message call s).getLast? =
        some (errorObject "org.varlink.service.InternalError"
          (.object [("what", .string what)])) := by
  obtain ⟨_, _, front, -, -, -, log⟩ := throws.answered
  cases e with
  | standard type what =>
    refine ⟨what, ?_⟩
    rw [log, Exn.answer]
    simp [Exn.errorReply, Json.isObject]
  | outOfRange | badFunctionCall => cases plain
  | _ => cases standard

end Calls

/-- Calls are answered so exactly if the callback ends with none of the exceptions that are
taken for those of the lookup. -/
theorem reported_iff (dumps : DumpErrors dump) (sends : SendErrors replySender) (r : Registry)
    (message : VarlinkMessage) (call : Nat) (s : σ) :
    Reported dump stack replySender r message call s ↔
      ∀ e, Throws dump stack replySender r.service message call s e → mistaken e = false := by
  refine ⟨fun reported e => reported.clean, fun clean =>
    ⟨?_, fun e throws => throws.internal (clean e throws)⟩⟩
  cases known : r.service.findInterface message.interface with
  | none =>
    refine iff_of_false (not_sends_unknown known) ?_
    rintro ⟨entry, registered, named, -⟩
    cases known.symm.trans (r.findInterface_eq_some_iff.mpr ⟨registered, named⟩)
  | some entry =>
    rw [undeclared_iff known, sends_known_iff known]
    cases found : lookupCall dump stack entry message call with
    | error stop =>
      rw [← sends_lookup_iff dumps found, callMethod_stopped found]
      simp only [Except.error.injEq]
    | ok p =>
      obtain ⟨m, _, method, -⟩ := lookupCall_found found
      refine iff_of_false ?_ fun undeclared => undeclared m method
      rintro ⟨e, tried, sent⟩
      exact not_notFound_of_clean dumps sends clean known found
        ((callMethod_of_lookup found).mp tried) sent

def keep : Json → Action (List Json) Unit := fun reply s => (.ok (), s ++ [reply])

theorem sendErrors_keep : SendErrors keep := fun _ _ _ thrown => by cases thrown

theorem dumpErrors_text : DumpErrors JsonText.dump := fun _ _ thrown => by cases thrown

def late : CallbackFunction := fun _ _ _ => .throws (.standard .runtimeError "late")

theorem reported_iff_standard :
    passed JsonText.dump 2 keep (pingService late) pingMessage 0 [] =
        [errorObject "org.varlink.service.InternalError" (.object [("what", .string "late")])] ∧
      Throws JsonText.dump 2 keep (pingService late) pingMessage 0 []
        (.standard .runtimeError "late") ∧
      Reported JsonText.dump 2 keep (pingRegistry late) pingMessage 0 [] := by
  refine ⟨rfl, ⟨_, _, _, rfl, rfl, rfl, nofun⟩,
    (reported_iff dumpErrors_text sendErrors_keep _ _ _ _).mpr ?_⟩
  rintro e ⟨entry, handler, behaviour, ⟨⟩, ⟨⟩, rfl, -⟩
  rfl

/-- The callback of a declared method looks something up that is not there. -/
theorem callback_out_of_range :
    let missing : CallbackFunction := fun _ _ _ => .throws (.outOfRange "map::at")
    passed JsonText.dump 2 keep (pingService missing) pingMessage 0 [] =
        [errorObject "org.varlink.service.MethodNotFound"
          (.object [("method", .string "org.test.Ping")])] ∧
      ¬Reported JsonText.dump 2 keep (pingRegistry missing) pingMessage 0 [] := by
  intro missing
  have log : passed JsonText.dump 2 keep (pingService missing) pingMessage 0 [] =
      [errorObject "org.varlink.service.MethodNotFound"
        (.object [("method", .string "org.test.Ping")])] := rfl
  refine ⟨log, fun reported => ?_⟩
  obtain ⟨entry, registered, -, undeclared⟩ := reported.notFound.mp
    ⟨_, by rw [pingRegistry, log]; exact List.mem_singleton_self _, rfl⟩
  obtain rfl := List.mem_singleton.mp registered
  exact undeclared _ ⟨List.mem_singleton_self _, rfl, rfl⟩

end Varlink.MethodErrors
