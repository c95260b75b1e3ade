import Varlink.Dispatch
import Varlink.Validation

/-! Which exceptions end the `try` block of `message_call`, and the error reply that
each of them is answered with. -/

namespace Varlink

/-- `json::dump` throws only exceptions of the JSON package. -/
def DumpErrors (dump : Dump) : Prop :=
  ∀ v e, dump v = .error e → ∃ type what, e = .standard type what

/-- The reply sender throws only send errors, and exceptions of the JSON package. -/
def SendErrors {σ : Type} (replySender : Json → Action σ Unit) : Prop :=
  ∀ reply s e, (replySender reply s).1 = .error (.thrown e) →
    e = .systemError ∨ ∃ type what, e = .standard type what

def Exn.answer (method : String) (e : Exn) : List Json :=
  match e.errorReply method with
  | some (what, params) => if params.isObject then [errorObject what params] else []
  | none => []

variable {σ : Type} {dump : Dump} {stack : Nat} {replySender : Json → Action σ Unit}

theorem catchClauses_answer (method : String) (e : Exn) (s : σ × List Json) :
    (catchClauses (recorded replySender) method e s).2.2 = s.2 ++ e.answer method := by
  unfold catchClauses Exn.answer
  cases e with
  | systemError | foreign => exact (List.append_nil s.2).symm
  | varlinkError what args =>
    simp only [Exn.errorReply, sendError_recorded]
    split
    · rfl
    · exact (List.append_nil s.2).symm
  | _ => rfl

def answerOf (method : String) : Except Stop Deferred → List Json
  | .error (.thrown e) => e.answer method
  | _ => []

theorem find_error_of_reply {h : ReplyHandler} {params : Object} {continues : Bool} {reply : Json}
    (passedOn : h.reply dump stack params continues = .ok reply) :
    reply.find? "error" = none := by
  obtain ⟨_, -, value⟩ := of_bind_eq_ok passedOn
  have value := of_mapError_eq_ok value
  unfold replyValue at value
  split at value
  · cases value; rfl
  · cases value; rfl
  all_goals
    split at value
    · cases value
    · cases value; rfl

variable (dump stack replySender) in
theorem passed_eq {service : VarlinkService} {message : VarlinkMessage} (call : Nat) (s : σ)
    {entry : InterfaceEntry} (known : service.findInterface message.interface = some entry) :
    ∃ front, (∀ reply ∈ front, reply.find? "error" = none) ∧
      passed dump stack replySender service message call s =
        front ++ answerOf (message.interface ++ "." ++ message.method)
          (callMethod dump stack replySender entry message call s).1 := by
  have block : ∃ t, callMethod dump stack (recorded replySender) entry message call (s, []) =
        ((callMethod dump stack replySender entry message call s).1, t) ∧
      ∀ reply ∈ t.2, reply.find? "error" = none := by
    cases found : lookupCall dump stack entry message call with
    | error stop =>
      rw [callMethod_stopped found, callMethod_stopped found]
      exact ⟨_, rfl, List.forall_mem_nil _⟩
    | ok p =>
      rw [callMethod_found found, callMethod_found found, ← (run_recorded p.1 p.2 (s, [])).1]
      exact ⟨_, rfl, Dispatch.run_recorded_all (fun _ _ _ => find_error_of_reply) p.2
        (List.forall_mem_nil _)⟩
  obtain ⟨t, tried, plain⟩ := block
  refine ⟨t.2, plain, ?_⟩
  generalize (callMethod dump stack replySender entry message call s).1 = result at tried ⊢
  rw [passed]
  rcases result with (e | _ | _) | deferred
  · rw [messageCall_thrown known tried]
    exact catchClauses_answer _ e t
  · rw [messageCall_died known tried (by rintro _ ⟨⟩)]
    exact (List.append_nil t.2).symm
  · rw [messageCall_died known tried (by rintro _ ⟨⟩)]
    exact (List.append_nil t.2).symm
  · rw [messageCall_returned known tried]
    exact (List.append_nil t.2).symm

section Exceptions
variable {i : VarlinkInterface}

def Exn.Invalid (e : Exn) : Prop :=
  (∃ what, e = .invalidParameter what) ∨ ∃ type what, e = .standard type what

theorem throwInvalidData_throws (dumps : DumpErrors dump) {v : Json} {e : Exn}
    (h : throwInvalidData dump v = .error (.thrown e)) : e.Invalid := by
  unfold throwInvalidData at h
  cases dumped : dump v with
  | ok text =>
    simp only [dumped, throwInvalidParameter] at h
    cases h
    exact .inl ⟨text, rfl⟩
  | error e' =>
    simp only [dumped] at h
    cases h
    exact .inr (dumps v e dumped)

theorem throwInvalidParameter_throws {name : String} {e : Exn}
    (h : throwInvalidParameter name = .error (.thrown e)) : e.Invalid := by
  cases h
  exact .inl ⟨name, rfl⟩

theorem of_forAll_eq_error {α : Type} {xs : List α} {check : α → Except Stop Unit} {stop : Stop}
    (h : forAll xs check = .error stop) :
    ∃ before x after, xs = before ++ x :: after ∧ (∀ y ∈ before, check y = .ok ()) ∧
      check x = .error stop := by
  induction xs with
  | nil => cases h
  | cons x rest ih =>
    rw [forAll] at h
    split at h
    · next accepted =>
      obtain ⟨before, y, after, rfl, ok, thrown⟩ := ih h
      exact ⟨x :: before, y, after, rfl, List.forall_mem_cons.mpr ⟨accepted, ok⟩, thrown⟩
    · next thrown =>
      cases h
      exact ⟨[], x, rest, rfl, List.forall_mem_nil _, thrown⟩

theorem validate_throws (dumps : DumpErrors dump) {v : Json} {t : TypeSpec} {name : String}
    {collection : Bool} {e : Exn}
    (h : validate dump i stack v t name collection = .error (.thrown e)) : e.Invalid := by
  induction stack generalizing v t name collection with
  | zero => cases h
  | succ stack ih =>
    cases branch_total t collection v with
    | enum type =>
      rw [validate_enum type] at h
      split at h
      · cases h
      · exact throwInvalidData_throws dumps h
    | items captured =>
      rw [validate_items captured] at h
      obtain ⟨-, x, -, -, -, thrown⟩ := of_forAll_eq_error h
      exact ih thrown
    | name type free bare =>
      rw [validate_name type free bare, validateName] at h
      split at h
      · cases h
      · split at h
        · exact throwInvalidParameter_throws h
        · split at h
          · exact throwInvalidParameter_throws h
          · exact ih h
    | struct type free =>
      rw [validate_struct type free] at h
      obtain ⟨-, field, -, -, -, thrown⟩ := of_forAll_eq_error h
      unfold validateField at thrown
      split at thrown
      · split at thrown
        · exact throwInvalidParameter_throws thrown
        · cases thrown
      · exact ih thrown
    | kind enum free string struct =>
      rw [validate_kind enum free string struct] at h
      exact throwInvalidData_throws dumps h

end Exceptions

theorem replyValue_throws {mode : Callmode} {params : Object} {continues : Bool} {e : Exn}
    (h : replyValue mode params continues = .error e) : e = .badFunctionCall := by
  unfold replyValue at h
  split at h
  · cases h
  · cases h
  all_goals
    split at h
    · cases h
      rfl
    · cases h

theorem call_throws (dumps : DumpErrors dump) (sends : SendErrors replySender) {h : ReplyHandler}
    {params : Object} {continues : Bool} {s : σ} {e : Exn}
    (thrown : (h.call dump stack replySender params continues s).1 = .error (.thrown e)) :
    e.Invalid ∨ e = .badFunctionCall ∨ e = .systemError := by
  unfold ReplyHandler.call at thrown
  split at thrown
  · next stop reply =>
    cases thrown
    rcases of_bind_eq_error reply with checked | ⟨_, -, value⟩
    · exact .inl (validate_throws dumps checked)
    · obtain ⟨e', value, same⟩ := of_mapError_eq_error value
      cases same
      exact .inr (.inl (replyValue_throws value))
  · next reply passedOn =>
    rcases sends reply s e thrown with rfl | standard
    · exact .inr (.inr rfl)
    · exact .inl (.inr standard)

theorem methodTypeOrThrow_throws {m : Member} {k : Nat} {e : Exn}
    (h : m.methodTypeOrThrow k = .error e) : ∃ type what, e = .standard type what := by
  unfold Member.methodTypeOrThrow at h
  split at h
  · split at h
    · cases h
    · cases h
      exact ⟨_, _, rfl⟩
  · cases h
    exact ⟨_, _, rfl⟩

theorem lookupCall_throws (dumps : DumpErrors dump) {entry : InterfaceEntry}
    {message : VarlinkMessage} {call : Nat} {e : Exn}
    (h : lookupCall dump stack entry message call = .error (.thrown e)) :
    entry.spec.method message.method = .error e ∨
      (∃ m, entry.spec.method message.method = .ok m) ∧ (e.Invalid ∨ e = .badFunctionCall) := by
  rcases of_bind_eq_error h with method | ⟨m, method, h⟩
  · obtain ⟨e', method, same⟩ := of_mapError_eq_error method
    cases same
    exact .inl method
  refine .inr ⟨⟨m, of_mapError_eq_ok method⟩, ?_⟩
  rcases of_bind_eq_error h with type | ⟨t, -, h⟩
  · obtain ⟨e', type, same⟩ := of_mapError_eq_error type
    cases same
    exact .inl (.inr (methodTypeOrThrow_throws type))
  rcases of_bind_eq_error h with checked | ⟨_, -, h⟩
  · exact .inl (validate_throws dumps checked)
  rcases of_bind_eq_error h with type | ⟨t', -, h⟩
  · obtain ⟨e', type, same⟩ := of_mapError_eq_error type
    cases same
    exact .inl (.inr (methodTypeOrThrow_throws type))
  rcases of_bind_eq_error h with callback | ⟨f, -, h⟩
  · obtain ⟨e', callback, same⟩ := of_mapError_eq_error callback
    cases same
    unfold InterfaceEntry.callback at callback
    split at callback
    · cases callback
      exact .inr rfl
    · cases callback
      exact .inr rfl
    · cases callback
  · cases h

end Varlink
