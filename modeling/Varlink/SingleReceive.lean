import Mathlib
import Varlink.JsonText
import Varlink.ServerTermination
import Varlink.OnewayCalls

/-! How many receives a session has under way. The reply sender starts one
whenever the value it is given does not say that more replies follow, and a oneway
call gives it null for each reply, also for one that the callback continues. -/

namespace Varlink.SingleReceive

open ServerSession ServerTermination

variable {parse : Bytes → ParseResult} {dump : Dump} {stack : Nat} {service : VarlinkService}

/-- A callback that, whatever the mode, sends continued replies and then the last
one, at once or later. What `send_reply` throws it lets through, or goes on. -/
def Streams : Behaviour → Prop
  | .returns later => ∃ (continued : List Object) (params : Object),
      later = continued.map (fun p => (p, true)) ++ [(params, false)]
  | .throws _ => False
  | .sendReply _ true next =>
    Streams (next none) ∧ ∀ e, next (some e) = .throws e ∨ Streams (next (some e))
  | .sendReply _ false next =>
    next none = .returns [] ∧ ∀ e, next (some e) = .throws e ∨ next (some e) = .returns []

def ServiceStreams (service : VarlinkService) : Prop :=
  ∀ entry ∈ service.interfaces, ∀ name callback, (name, some callback) ∈ entry.callbacks →
    ∀ call params mode, Streams (callback call params mode)

/-- No continued reply of the callback passes the check of its parameters. -/
def ContinuesNone (check : Object → Except Stop Unit) : Behaviour → Prop
  | .returns later => ∀ r ∈ later, r.2 = true → check r.1 ≠ .ok ()
  | .throws _ => True
  | .sendReply params true next =>
    match check params with
    | .ok () => False
    | .error (.thrown e) => ContinuesNone check (next (some e))
    | .error _ => True
  | .sendReply _ false _ => True

def replyCheck (dump : Dump) (stack : Nat) (h : ReplyHandler) (params : Object) :
    Except Stop Unit :=
  checkType dump stack h.interface (.object params) h.returnType

/-- The step dispatches no oneway request to a callback that continues its replies. -/
def AnswersOnce (parse : Bytes → ParseResult) (dump : Dump) (stack : Nat)
    (service : VarlinkService) (s : Server) (e : ServerEvent) : Prop :=
  ∀ message session entry handler behaviour,
    dispatchOf parse dump s e = some (message, session) → message.mode = .oneway →
    service.findInterface message.interface = some entry →
    lookupCall dump stack entry message s.dispatched.length = .ok (handler, behaviour) →
    ContinuesNone (replyCheck dump stack handler) behaviour

def outstanding (s : ServerSession) : Nat := s.connection.receives.length

def owed (d : Deferred) : Nat := d.replies.countP fun r => !r.2

/-- A callback that has returned has no continued reply left that would be taken
for the end of a oneway call. -/
def Settled (dump : Dump) (stack : Nat) (d : Deferred) : Prop :=
  d.handler.mode = .oneway → ∀ r ∈ d.replies, r.2 = true →
    replyCheck dump stack d.handler r.1 ≠ .ok ()

structure Single (dump : Dump) (stack : Nat) (s : Server) : Prop where
  tokens : outstanding s.session + (s.deferred.map owed).sum ≤ 1
  settled : ∀ d ∈ s.deferred, Settled dump stack d

variable (parse) in
theorem start_outstanding (s : ServerSession) :
    (∃ e, (s.start parse).1 = .error e ∧ outstanding (s.start parse).2 = outstanding s) ∨
      ((s.start parse).1 = .ok () ∧ outstanding (s.start parse).2 = outstanding s + 1) := by
  unfold start Connection.asyncReceive outstanding
  rcases s.connection.inbound.readNextMessage parse with ⟨_ | result, i⟩
  · exact .inr ⟨rfl, by simp⟩
  · cases result with
    | value j => exact .inr ⟨rfl, by simp [ParseResult.received]⟩
    | parseError => exact .inr ⟨rfl, by simp [ParseResult.received]⟩
    | exception what => exact .inl ⟨_, rfl, rfl⟩

theorem asyncSendReply_outstanding (reply : Json) (s : ServerSession) :
    outstanding (s.asyncSendReply dump reply).2 = outstanding s :=
  congrArg List.length (Connection.asyncSend_receives dump reply () s.connection)

variable (parse dump) in
theorem replySender_outstanding (reply : Json) (s : ServerSession) :
    ((replySender parse dump reply s).1 = .ok () →
        outstanding (replySender parse dump reply s).2 ≤ outstanding s + 1) ∧
      (∀ e, (replySender parse dump reply s).1 = .error e →
        outstanding (replySender parse dump reply s).2 = outstanding s) ∧
      (replyContinues reply = .ok true →
        outstanding (replySender parse dump reply s).2 = outstanding s) := by
  unfold replySender
  split
  · simp
  have sent : outstanding (if reply.isObject then s.asyncSendReply dump reply else (.ok (), s)).2 =
      outstanding s := by
    split
    · exact asyncSendReply_outstanding reply s
    · rfl
  generalize (if reply.isObject then s.asyncSendReply dump reply else (.ok (), s)) = r at sent
  rcases r with ⟨e | ⟨⟨⟩⟩, t⟩
  · simp only at sent
    simp [sent]
  · simp only at sent ⊢
    cases continues : replyContinues reply with
    | error e => simp [sent]
    | ok b =>
      cases b with
      | true => simp [sent]
      | false =>
        rcases start_outstanding parse t with ⟨e, error, same⟩ | ⟨ok, one⟩
        · simp [error, same, sent]
        · simp [ok, one, sent]

variable (parse dump stack) in
theorem call_outstanding (h : ReplyHandler) (params : Object) (continues : Bool)
    (s : ServerSession) :
    ((h.call dump stack (replySender parse dump) params continues s).1 = .ok () →
        outstanding (h.call dump stack (replySender parse dump) params continues s).2 ≤
          outstanding s + 1) ∧
      ∀ e, (h.call dump stack (replySender parse dump) params continues s).1 = .error e →
        outstanding (h.call dump stack (replySender parse dump) params continues s).2 =
          outstanding s := by
  unfold ReplyHandler.call
  cases h.reply dump stack params continues with
  | error e => simp
  | ok reply =>
    obtain ⟨ok, error, -⟩ := replySender_outstanding parse dump reply s
    exact ⟨ok, error⟩

variable (parse) in
/-- A continued reply starts no receive, unless it is taken for the end of a oneway call. -/
theorem call_continued {h : ReplyHandler} {params : Object}
    (refused : h.mode = .oneway → replyCheck dump stack h params ≠ .ok ()) (s : ServerSession) :
    outstanding (h.call dump stack (replySender parse dump) params true s).2 = outstanding s := by
  unfold ReplyHandler.call
  cases reply : h.reply dump stack params true with
  | error e => rfl
  | ok value =>
    obtain ⟨-, -, continued⟩ := replySender_outstanding parse dump value s
    refine continued ?_
    unfold ReplyHandler.reply at reply
    obtain ⟨valid, checked, value⟩ := of_bind_eq_ok reply
    have value := of_mapError_eq_ok value
    cases mode : h.mode with
    | oneway => exact absurd checked (refused mode)
    | more =>
      simp only [replyValue, mode, Except.ok.injEq] at value
      subst value
      rfl
    | basic => simp [replyValue, mode] at value
    | upgrade => simp [replyValue, mode] at value

theorem call_refused {h : ReplyHandler} {params : Object} {continues : Bool} {stop : Stop}
    (refused : replyCheck dump stack h params = .error stop) (s : ServerSession) :
    h.call dump stack (replySender parse dump) params continues s = (.error stop, s) := by
  have reply : h.reply dump stack params continues = .error stop := by
    unfold ReplyHandler.reply
    rw [show checkType dump stack h.interface (.object params) h.returnType = .error stop from
      refused]
    rfl
  simp only [ReplyHandler.call, reply]

theorem ContinuesNone.refused {check : Object → Except Stop Unit} {params : Object}
    {next : Option Exn → Behaviour} (once : ContinuesNone check (.sendReply params true next)) :
    ∃ stop, check params = .error stop ∧
      ∀ e, stop = .thrown e → ContinuesNone check (next (some e)) := by
  unfold ContinuesNone at once
  cases checked : check params with
  | ok valid => simp [checked] at once
  | error stop =>
    refine ⟨stop, rfl, ?_⟩
    rintro e rfl
    simpa [checked] using once

theorem owed_streams (h : ReplyHandler) (continued : List Object) (params : Object) :
    owed ⟨h, continued.map (fun p => (p, true)) ++ [(params, false)]⟩ = 1 := by
  simp [owed, List.countP_append, List.countP_map]

/-- What a callback leaves behind in a session that had `n` receives under way: one
more, or a last reply that it owes; neither if it is left by an exception. -/
inductive Leaves (dump : Dump) (stack : Nat) (h : ReplyHandler) (n : Nat) :
    Except Stop (List (Object × Bool)) × ServerSession → Prop where
  | returned {later : List (Object × Bool)} {t : ServerSession}
      (one : outstanding t + owed ⟨h, later⟩ ≤ n + 1) (settled : Settled dump stack ⟨h, later⟩) :
      Leaves dump stack h n (.ok later, t)
  | stopped {e : Stop} {t : ServerSession} (same : outstanding t = n) :
      Leaves dump stack h n (.error e, t)

variable (parse) in
theorem run_leaves {h : ReplyHandler} {b : Behaviour} (streams : Streams b)
    (once : h.mode = .oneway → ContinuesNone (replyCheck dump stack h) b) (s : ServerSession) :
    Leaves dump stack h (outstanding s)
      (b.run (h.call dump stack (replySender parse dump)) s) := by
  induction b generalizing s with
  | throws e => exact absurd streams id
  | returns later =>
    obtain ⟨continued, params, rfl⟩ := streams
    exact .returned (Nat.le_of_eq (by rw [owed_streams])) once
  | sendReply params continues next ih =>
    simp only [Behaviour.run]
    cases continues with
    | true =>
      obtain ⟨sent, refused⟩ := streams
      have same := call_continued parse (fun oneway valid => by
        obtain ⟨stop, error, -⟩ := (once oneway).refused
        cases valid.symm.trans error) s
      rcases called : h.call dump stack (replySender parse dump) params true s with
        ⟨stop | ⟨⟨⟩⟩, t⟩
      · simp only [called] at same
        cases stop with
        | thrown e =>
          simp only
          rcases refused e with lets | goesOn
          · rw [lets]
            exact .stopped same
          · rw [← same]
            refine ih (some e) goesOn (fun oneway => ?_) t
            obtain ⟨stop, error, rest⟩ := (once oneway).refused
            cases called.symm.trans (call_refused error s)
            exact rest e rfl
        | stackOverflow => exact .stopped same
        | assertion => exact .stopped same
      · simp only [called] at same
        have answered : h.mode ≠ .oneway := fun oneway => by
          obtain ⟨stop, error, -⟩ := (once oneway).refused
          cases called.symm.trans (call_refused error s)
        simp only
        rw [← same]
        exact ih none sent (fun oneway => absurd oneway answered) t
    | false =>
      obtain ⟨sent, refused⟩ := streams
      obtain ⟨ok, error⟩ := call_outstanding parse dump stack
        h params false s
      rcases called : h.call dump stack (replySender parse dump) params false s with
        ⟨stop | ⟨⟨⟩⟩, t⟩
      · have same : outstanding t = outstanding s := by simpa [called] using error stop
        cases stop with
        | thrown e =>
          simp only
          rcases refused e with lets | returns
          · rw [lets]
            exact .stopped same
          · rw [returns]
            exact .returned (by simp [same, owed]) (by rintro _ _ ⟨⟩)
        | stackOverflow => exact .stopped same
        | assertion => exact .stopped same
      · have one : outstanding t ≤ outstanding s + 1 := by simpa [called] using ok
        simp only
        rw [sent]
        exact .returned (by simpa [owed] using one) (by rintro _ _ ⟨⟩)

/-- The same for the whole of `message_call`; an error reply may have started the receive. -/
inductive Called (dump : Dump) (stack : Nat) (n : Nat) :
    Except Stop (Option Deferred) × ServerSession → Prop where
  | returned {later : Deferred} {t : ServerSession} (one : outstanding t + owed later ≤ n + 1)
      (settled : Settled dump stack later) : Called dump stack n (.ok (some later), t)
  | answered {t : ServerSession} (one : outstanding t ≤ n + 1) : Called dump stack n (.ok none, t)
  | ended {stop : Stop} {t : ServerSession} (one : outstanding t ≤ n + 1) :
      Called dump stack n (.error stop, t)

theorem Called.ofSender {n : Nat} {r : Except Stop Unit × ServerSession}
    (one : outstanding r.2 ≤ n + 1) : Called dump stack n (r.1.map fun _ => none, r.2) := by
  rcases r with ⟨stop | ⟨⟨⟩⟩, t⟩
  · exact .ended one
  · exact .answered one

theorem sendError_outstanding (what : String) (params : Json) (s : ServerSession) :
    outstanding (sendError (replySender parse dump) what params s).2 ≤ outstanding s + 1 := by
  unfold sendError
  split
  · obtain ⟨ok, error, -⟩ := replySender_outstanding parse dump
      (errorObject what params) s
    cases sent : (replySender parse dump (errorObject what params) s).1 with
    | ok done => exact ok sent
    | error e => exact Nat.le_succ_of_le (Nat.le_of_eq (error e sent))
  · exact Nat.le_succ _

theorem catchClauses_outstanding (method : String) (e : Exn) (s : ServerSession) :
    outstanding (catchClauses (replySender parse dump) method e s).2 ≤ outstanding s + 1 := by
  unfold catchClauses
  split
  · exact sendError_outstanding _ _ s
  · exact Nat.le_succ _
  · exact Nat.le_succ _

theorem lookupCall_streams (streams : ServiceStreams service) {message : VarlinkMessage}
    {entry : InterfaceEntry} (known : service.findInterface message.interface = some entry)
    {call : Nat} {handler : ReplyHandler} {behaviour : Behaviour}
    (found : lookupCall dump stack entry message call = .ok (handler, behaviour)) :
    Streams behaviour := by
  obtain ⟨m, callback, -, -, registered, -, -, rfl⟩ := lookupCall_found found
  unfold InterfaceEntry.callback at registered
  cases listed : entry.callbacks.lookup message.method with
  | none => simp [listed] at registered
  | some f =>
    cases f with
    | none => simp [listed] at registered
    | some f =>
      simp only [listed, Except.ok.injEq] at registered
      subst registered
      obtain ⟨before, behind, split, -⟩ := List.lookup_eq_some_iff.mp listed
      exact streams entry (List.mem_of_find?_eq_some known) message.method f
        (by simp [split]) call message.parameters message.mode

variable (parse) in
theorem messageCall_called (streams : ServiceStreams service) {message : VarlinkMessage}
    {call : Nat} (s : ServerSession)
    (once : message.mode = .oneway → ∀ entry handler behaviour,
      service.findInterface message.interface = some entry →
      lookupCall dump stack entry message call = .ok (handler, behaviour) →
      ContinuesNone (replyCheck dump stack handler) behaviour) :
    Called dump stack (outstanding s)
      (messageCall dump stack (replySender parse dump) service message call s) := by
  cases known : service.findInterface message.interface with
  | none =>
    rw [messageCall_unknown known]
    exact .ofSender (sendError_outstanding _ _ s)
  | some entry =>
    cases found : lookupCall dump stack entry message call with
    | error stop =>
      have tried : callMethod dump stack (replySender parse dump) entry message call s =
          (.error stop, s) := callMethod_stopped found s
      cases stop with
      | thrown e =>
        rw [messageCall_thrown known tried]
        exact .ofSender (catchClauses_outstanding _ e s)
      | stackOverflow =>
        rw [messageCall_died known tried nofun]
        exact .ended (Nat.le_succ _)
      | assertion =>
        rw [messageCall_died known tried nofun]
        exact .ended (Nat.le_succ _)
    | ok p =>
      obtain ⟨handler, behaviour⟩ := p
      have tried : callMethod dump stack (replySender parse dump) entry message call s = _ :=
        callMethod_found found s
      have leaves := run_leaves parse (lookupCall_streams streams known found)
        (fun oneway => once ((lookupCall_mode found).symm.trans oneway) entry handler behaviour
          known found) s
      cases ran : behaviour.run (handler.call dump stack (replySender parse dump)) s with
      | mk result t =>
        rw [ran] at tried leaves
        cases leaves with
        | returned one settled =>
          rw [messageCall_returned known tried]
          exact .returned one settled
        | @stopped stop _ same =>
          have bound : outstanding t + 1 ≤ outstanding s + 1 := Nat.le_of_eq (by rw [same])
          cases stop with
          | thrown e =>
            rw [messageCall_thrown known tried]
            exact .ofSender (Nat.le_trans (catchClauses_outstanding _ e t) bound)
          | stackOverflow =>
            rw [messageCall_died known tried nofun]
            exact .ended (Nat.le_trans (Nat.le_succ _) bound)
          | assertion =>
            rw [messageCall_died known tried nofun]
            exact .ended (Nat.le_trans (Nat.le_succ _) bound)

theorem dispatch_single (streams : ServiceStreams service) {message : VarlinkMessage} {s : Server}
    (free : outstanding s.session + 1 + (s.deferred.map owed).sum ≤ 1)
    (settled : ∀ d ∈ s.deferred, Settled dump stack d)
    (once : message.mode = .oneway → ∀ entry handler behaviour,
      service.findInterface message.interface = some entry →
      lookupCall dump stack entry message s.dispatched.length = .ok (handler, behaviour) →
      ContinuesNone (replyCheck dump stack handler) behaviour) :
    Single dump stack (s.dispatch parse dump stack service message) := by
  have called := messageCall_called parse streams s.session once
  unfold Server.dispatch
  generalize messageCall dump stack (replySender parse dump) service message s.dispatched.length
    s.session = r at called ⊢
  cases called with
  | ended one => exact ⟨by simp only; omega, settled⟩
  | answered one => exact ⟨by simp only; omega, settled⟩
  | @returned later t one fresh =>
    refine ⟨?_, ?_⟩
    · simp only [List.map_append, List.map_cons, List.map_nil, List.sum_append, List.sum_cons,
        List.sum_nil]
      omega
    · intro d member
      rcases List.mem_append.mp member with old | new
      · exact settled d old
      · exact List.mem_singleton.mp new ▸ fresh

variable (parse) in
theorem asyncReceive_receives {κ : Type} (handler : κ) (c : Connection κ) :
    (c.asyncReceive parse handler).2.receives.length ≤ c.receives.length + 1 := by
  unfold Connection.asyncReceive
  rcases c.inbound.readNextMessage parse with ⟨_ | _ | _ | _, i⟩ <;> simp [ParseResult.received]

theorem receiveStep_receives {κ : Type} {c : Connection κ} {n : Nat} {e : ReadEvent}
    {r : Option (κ × Received) × Connection κ} (step : c.receiveStep parse n e = some r) :
    r.2.receives.length ≤ c.receives.length ∧
      (r.1.isSome = true → r.2.receives.length + 1 = c.receives.length) := by
  unfold Connection.receiveStep at step
  cases found : c.receives[n]? with
  | none => simp [found] at step
  | some receive =>
    have inside : n < c.receives.length := (List.getElem?_eq_some_iff.mp found).1
    have fewer : (c.receives.eraseIdx n).length + 1 = c.receives.length := by
      rw [List.length_eraseIdx_of_lt inside]
      omega
    cases receive with
    | posted received handler =>
      cases e <;> simp only [found, reduceCtorEq] at step
      cases step
      exact ⟨by simp only; omega, fun _ => fewer⟩
    | reading w handler =>
      cases e with
      | run => simp [found] at step
      | error =>
        simp only [found] at step
        cases step
        exact ⟨by simp only; omega, fun _ => fewer⟩
      | read chunk =>
        simp only [found, Option.ite_none_right_eq_some, Option.some.injEq] at step
        obtain ⟨-, rfl⟩ := step
        unfold Connection.onRead
        simp only
        rcases (c.inbound.fill w chunk).readNextMessage parse with ⟨_ | result, i⟩
        · refine ⟨?_, nofun⟩
          have again := asyncReceive_receives parse handler
            { c with inbound := i, receives := c.receives.eraseIdx n }
          simp only at again ⊢
          omega
        · exact ⟨by simp only; omega, fun _ => fewer⟩

theorem writeStep_receives {κ : Type} {c t : Connection κ} {n : Nat} {handler : Option κ}
    (step : c.writeStep dump n = some (handler, t)) : t.receives = c.receives := by
  obtain ⟨job, -, step⟩ := Option.map_eq_some_iff.mp step
  have same := (Connection.execute_frame dump c.writeStrand.next
    { c with writing := c.writing.eraseIdx n }).2
  rcases executed : Connection.execute dump c.writeStrand.next
    { c with writing := c.writing.eraseIdx n } with ⟨_ | _, u⟩ <;>
    rw [executed] at step same <;> cases step <;> exact same

theorem receiveStep_single (streams : ServiceStreams service) {s t : Server} {n : Nat}
    {e : ReadEvent} (h : Single dump stack s)
    (once : AnswersOnce parse dump stack service s (.receive n e))
    (step : s.receiveStep parse dump stack service n e = some t) : Single dump stack t := by
  have tokens := h.tokens
  obtain ⟨⟨handled, c⟩, moved, rfl⟩ := Option.map_eq_some_iff.mp step
  obtain ⟨fewer, gone⟩ := receiveStep_receives moved
  simp only at fewer gone
  have kept : outstanding (s.withConnection c).session + (s.deferred.map owed).sum ≤ 1 := by
    simp only [outstanding] at tokens
    simp only [outstanding, Server.withConnection]
    omega
  rcases handled with _ | ⟨u, j | _⟩
  · exact ⟨kept, h.settled⟩
  · simp only [Server.onReceive]
    cases valid : VarlinkMessage.ofJson dump j with
    | error e => exact ⟨kept, h.settled⟩
    | ok message =>
      refine dispatch_single streams ?_ h.settled fun oneway entry handler behaviour =>
        once message { s.session with connection := c } entry handler behaviour
          (by simp [dispatchOf, moved, valid, Except.toOption]) oneway
      have gone := gone rfl
      simp only [outstanding] at tokens
      change c.receives.length + 1 + (s.deferred.map owed).sum ≤ 1
      omega
  · exact ⟨kept, h.settled⟩

theorem set_sum (ds : List Deferred) (d' : Deferred) {n : Nat} {d : Deferred}
    (found : ds[n]? = some d) :
    ((ds.set n d').map owed).sum + owed d = (ds.map owed).sum + owed d' := by
  induction ds generalizing n with
  | nil => simp at found
  | cons head rest ih =>
    cases n with
    | zero =>
      obtain rfl : head = d := by simpa using found
      simp only [List.set_cons_zero, List.map_cons, List.sum_cons]
      omega
    | succ n =>
      have tail := ih (n := n) (by simpa using found)
      simp only [List.set_cons_succ, List.map_cons, List.sum_cons]
      omega

variable (parse) in
theorem call_owed {h : ReplyHandler} {params : Object} {continues : Bool}
    {rest : List (Object × Bool)} (settled : Settled dump stack ⟨h, (params, continues) :: rest⟩)
    (s : ServerSession) :
    outstanding (h.call dump stack (replySender parse dump) params continues s).2 +
        owed ⟨h, rest⟩ ≤ outstanding s + owed ⟨h, (params, continues) :: rest⟩ := by
  cases continues with
  | true =>
    rw [call_continued parse (fun oneway => settled oneway (params, true) List.mem_cons_self rfl) s]
    exact Nat.le_of_eq (by simp [owed])
  | false =>
    obtain ⟨ok, error⟩ := call_outstanding parse dump stack
      h params false s
    have one : owed ⟨h, (params, false) :: rest⟩ = owed ⟨h, rest⟩ + 1 := by simp [owed]
    cases result : (h.call dump stack (replySender parse dump) params false s).1 with
    | ok done =>
      have := ok result
      omega
    | error e =>
      have := error e result
      omega

theorem replyStep_single {s t : Server} {n : Nat} (h : Single dump stack s)
    (step : s.replyStep parse dump stack n = some t) : Single dump stack t := by
  unfold Server.replyStep at step
  split at step
  · rename_i handler params continues rest found
    have before : Settled dump stack ⟨handler, (params, continues) :: rest⟩ :=
      h.settled _ (List.mem_of_getElem? found)
    have settled : ∀ d ∈ s.deferred.set n ⟨handler, rest⟩, Settled dump stack d := by
      intro d member
      rcases List.mem_or_eq_of_mem_set member with old | rfl
      · exact h.settled d old
      · exact fun oneway r later => before oneway r (List.mem_cons_of_mem _ later)
    have tokens := h.tokens
    have moved := set_sum s.deferred ⟨handler, rest⟩ found
    have taken := call_owed parse before s.session
    generalize handler.call dump stack (replySender parse dump) params continues s.session = r
      at step taken
    have kept : outstanding r.2 + ((s.deferred.set n ⟨handler, rest⟩).map owed).sum ≤ 1 := by
      omega
    rcases r with ⟨⟨_ | _ | _⟩ | _, session⟩ <;> cases step <;> exact ⟨kept, settled⟩
  · cases step

theorem step_single (streams : ServiceStreams service) {s t : Server} {e : ServerEvent}
    (h : Single dump stack s) (once : AnswersOnce parse dump stack service s e)
    (step : s.step parse dump stack service e = some t) : Single dump stack t := by
  cases e with
  | receive n e =>
    simp only [Server.step, Option.ite_none_left_eq_some] at step
    exact receiveStep_single streams h once step.2
  | written n success =>
    simp only [Server.step, Option.ite_none_left_eq_some] at step
    obtain ⟨⟨handled, c⟩, moved, rfl⟩ := Option.map_eq_some_iff.mp step.2
    have kept : Single dump stack (s.withConnection c) :=
      ⟨by simpa only [outstanding, Server.withConnection, writeStep_receives moved] using h.tokens,
        h.settled⟩
    rcases handled with _ | _
    · exact kept
    · cases success
      · exact ⟨kept.tokens, kept.settled⟩
      · exact kept
  | reply n =>
    simp only [Server.step, Option.ite_none_left_eq_some] at step
    exact replyStep_single h step.2

theorem init_single (parse : Bytes → ParseResult) (dump : Dump) (stack bufsiz : Nat) :
    Single dump stack (Server.init parse bufsiz) := by
  refine ⟨?_, nofun⟩
  rcases start_outstanding parse (ServerSession.new bufsiz) with
    ⟨e, -, same⟩ | ⟨-, one⟩
  · exact Nat.le_trans (Nat.le_of_eq same) (Nat.zero_le 1)
  · exact Nat.le_of_eq one

/-- In every run that dispatches no oneway request to a callback that continues its
replies, at most one receive is outstanding in the state reached. -/
theorem outstanding_le_one (parse : Bytes → ParseResult) (dump : Dump) (stack : Nat)
    (service : VarlinkService) (streams : ServiceStreams service) (bufsiz : Nat)
    (es : List ServerEvent) (s : Server)
    (run : Runs.run (Server.step parse dump stack service) (Server.init parse bufsiz) es = some s)
    (once : Runs.Along (Server.step parse dump stack service)
      (AnswersOnce parse dump stack service) (Server.init parse bufsiz) es) :
    outstanding s.session ≤ 1 := by
  have single := Runs.run_along_invariant (Server.step parse dump stack service)
    (fun s e t h once step => step_single streams h once step)
    (init_single parse dump stack bufsiz) once run
  exact Nat.le_trans (Nat.le_add_right _ _) single.tokens

def streamTwo : CallbackFunction := fun _ _ _ =>
  .sendReply [] true fun
    | none => .sendReply [] false fun _ => .returns []
    | some e => .throws e

theorem streamTwo_streams : ServiceStreams (pingService streamTwo) := by
  intro entry member name callback registered call params mode
  obtain rfl := List.mem_singleton.mp member
  cases List.mem_singleton.mp registered
  exact ⟨⟨rfl, fun _ => .inr rfl⟩, fun _ => .inl rfl⟩

open JsonText (frame parsePing moreCall)

theorem outstanding_le_one_streamTwo :
    ∃ s, Runs.run (Server.step parsePing JsonText.dump 1 (pingService streamTwo))
        (Server.init parsePing 64) [.receive 0 (.read (frame moreCall))] = some s ∧
      s.session.handed.length = 2 ∧ outstanding s.session ≤ 1 := by
  have enabled : (Runs.run (Server.step parsePing JsonText.dump 1 (pingService streamTwo))
      (Server.init parsePing 64) [.receive 0 (.read (frame moreCall))]).any
        (·.session.handed.length == 2) = true := by
    decide +kernel
  obtain ⟨s, hs, two⟩ := (Option.any_eq_true _ _).mp enabled
  refine ⟨s, hs, by simpa using two, ?_⟩
  refine outstanding_le_one parsePing _ 1 _ streamTwo_streams 64 _ s hs ⟨?_, fun _ _ => trivial⟩
  rintro message session entry handler behaviour ⟨⟩ oneway
  cases oneway

/-- In a oneway call each of the two replies of the same callback starts a receive. -/
theorem two_receives :
    let call := OnewayCalls.onewayCall "org.test.Ping"
    let parse := JsonText.parse [call]
    ServiceStreams (pingService streamTwo) ∧
      ∃ s, Runs.run (Server.step parse JsonText.dump 1 (pingService streamTwo))
        (Server.init parse 64) [.receive 0 (.read (frame call))] = some s ∧
        ¬ outstanding s.session ≤ 1 := by
  intro call parse
  have enabled : (Runs.run (Server.step parse JsonText.dump 1 (pingService streamTwo))
      (Server.init parse 64) [.receive 0 (.read (frame call))]).any (outstanding ·.session == 2) =
        true := by
    decide +kernel
  obtain ⟨s, hs, two⟩ := (Option.any_eq_true _ _).mp enabled
  refine ⟨streamTwo_streams, s, hs, ?_⟩
  simp only [beq_iff_eq] at two
  omega

end Varlink.SingleReceive
