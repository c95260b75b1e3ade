import Mathlib.Data.List.Perm.Basic
import Varlink.JsonText
import Varlink.ServerSession

/-! What becomes of a frame that `json::parse` rejects. `read_next_message` turns
a `parse_error` into an error code, and only that: any other exception leaves it,
after the frame was taken off the buffer. The server is watched: what the handlers
of its receives are called with, and what leaves its completion handlers. -/

namespace Varlink.DecodeErrors

section
variable {κ : Type} (parse : Bytes → ParseResult)

/-- `json::parse` throws something other than a `parse_error`. -/
def Throws (message : Bytes) : Prop := ∃ what, parse message = .exception what

/-- What a receive handler is to be called with for a message, if it is. -/
def report (message : Bytes) : Option Received := (parse message).received.toOption

def posted (c : Connection κ) : List Received :=
  c.receives.filterMap fun
    | .posted received _ => some received
    | .reading _ _ => none

/-- What leaves the completion handler of the `n`-th receive, which then calls nobody. -/
def escapes (n : Nat) (e : ReadEvent) (c : Connection κ) : Option Stop :=
  match c.receives[n]?, e with
  | some (.reading w _), .read chunk =>
    if chunk.length ≤ w.size then
      match ((c.inbound.fill w chunk).readNextMessage parse).1 with
      | some result =>
        match result.received with
        | .error stop => some stop
        | .ok _ => none
      | none => none
    else none
  | _, _ => none

/-- What a frame is reported with when the `n`-th receive goes on. A failed read
is reported too, but there is no frame to it. -/
def reports (n : Nat) (e : ReadEvent) (c : Connection κ) : List Received :=
  match e with
  | .error => []
  | _ => ((c.receiveStep parse n e).bind (·.1)).toList.map (·.2)

end

structure Watched where
  server : Server
  /-- What receive handlers were called with for frames, in order. -/
  handled : List Received := []
  /-- What left the completion handlers of socket reads. -/
  escaped : List Stop := []

section
variable (parse : Bytes → ParseResult) (dump : Dump) (stack : Nat) (service : VarlinkService)

def init (bufsiz : Nat) : Watched where
  server := Server.init parse bufsiz

def step (w : Watched) (e : ServerEvent) : Option Watched :=
  (w.server.step parse dump stack service e).map fun server =>
    match e with
    | .receive n r =>
      { server
        handled := w.handled ++ reports parse n r w.server.session.connection
        escaped := w.escaped ++ (escapes parse n r w.server.session.connection).toList }
    | .written _ _ | .reply _ => { w with server }

end

variable {κ : Type} {parse : Bytes → ParseResult} {dump : Dump} {stack : Nat}
  {service : VarlinkService}

/-- Whatever was reported, or is posted, are the messages that did not throw; and
only such messages make an exception leave. -/
structure Accounted (parse : Bytes → ParseResult) (handled : List Received) (escaped : List Stop)
    (c : Connection κ) : Prop where
  reported : (handled ++ posted c).Perm (c.inbound.messages.filterMap (report parse))
  blame : escaped ≠ [] → ∃ message ∈ c.inbound.messages, Throws parse message

theorem report_eq_none_iff {message : Bytes} :
    report parse message = none ↔ Throws parse message := by
  unfold report Throws
  cases parse message <;> simp [ParseResult.received, Except.toOption]

theorem readNextMessage_cases (parse : Bytes → ParseResult) (i : Inbound) :
    i.readNextMessage parse = (none, i) ∨ ∃ message t,
      i.readNextMessage parse = (some (parse message), t) ∧
        t.messages = i.messages ++ [message] := by
  unfold Inbound.readNextMessage ReceiveBuffer.readNextMessage
  cases i.buffer.takeMessage with
  | none => exact .inl rfl
  | some taken => exact .inr ⟨taken.1, _, rfl, rfl⟩

namespace Accounted

variable {handled : List Received} {escaped : List Stop}

theorem takes {c t : Connection κ} (h : Accounted parse handled escaped c) {message : Bytes}
    (messages : t.inbound.messages = c.inbound.messages ++ [message])
    {later : List Received} (told : (later ++ posted t).Perm
      (handled ++ posted c ++ (report parse message).toList)) {more : List Stop}
    (blame : more ≠ [] → Throws parse message) :
    Accounted parse later (escaped ++ more) t := by
  refine ⟨told.trans ?_, fun some_ => ?_⟩
  · rw [messages, List.filterMap_append]
    refine (h.reported.append_right _).trans ?_
    cases said : report parse message <;> simp [said]
  · rw [messages]
    by_cases before : escaped = []
    · have throws := blame fun none_ => some_ (by rw [before, none_]; rfl)
      exact ⟨message, by simp, throws⟩
    · obtain ⟨m, member, throws⟩ := h.blame before
      exact ⟨m, List.mem_append_left _ member, throws⟩

theorem asyncReceive {c : Connection κ} (h : Accounted parse handled escaped c) (handler : κ) :
    Accounted parse handled escaped (c.asyncReceive parse handler).2 := by
  unfold Connection.asyncReceive
  rcases readNextMessage_cases parse c.inbound with read | ⟨message, i, read, messages⟩
  · rw [read]
    exact ⟨by simpa [posted] using h.reported, h.blame⟩
  · rw [read]
    rw [← List.append_nil escaped]
    cases result : (parse message).received with
    | error stop =>
      simp only [result]
      refine h.takes messages ?_ (absurd rfl)
      simp [report, result, Except.toOption, posted]
    | ok received =>
      simp only [result]
      refine h.takes messages ?_ (absurd rfl)
      simp [report, result, Except.toOption, posted]

theorem congr {c t : Connection κ} (h : Accounted parse handled escaped c)
    (inbound : t.inbound = c.inbound) (receives : t.receives = c.receives) :
    Accounted parse handled escaped t :=
  ⟨by rw [inbound, posted, receives]; exact h.reported, inbound ▸ h.blame⟩

theorem posted_erase {c : Connection κ} {n : Nat} {r : Receive κ}
    (found : c.receives[n]? = some r) :
    (posted { c with receives := [r] } ++
      posted { c with receives := c.receives.eraseIdx n }).Perm (posted c) := by
  obtain ⟨within, rfl⟩ := List.getElem?_eq_some_iff.mp found
  have all := (List.getElem_cons_eraseIdx_perm within).filterMap fun
    | .posted received _ => some received
    | Receive.reading _ _ => none
  simpa only [posted, ← List.filterMap_append, List.singleton_append] using all

theorem onRead {c : Connection κ} {n : Nat} {w : ReadWindow} {chunk : Bytes} {handler : κ}
    {result : Option (κ × Received) × Connection κ} (h : Accounted parse handled escaped c)
    (found : c.receives[n]? = some (.reading w handler))
    (went : c.receiveStep parse n (.read chunk) = some result) :
    Accounted parse (handled ++ reports parse n (.read chunk) c)
      (escaped ++ (escapes parse n (.read chunk) c).toList) result.2 := by
  simp only [Connection.receiveStep, found, Option.ite_none_right_eq_some,
    Option.some.injEq] at went
  obtain ⟨fits, rfl⟩ := went
  let filled : Connection κ := { c with
    receives := c.receives.eraseIdx n
    inbound := c.inbound.fill w chunk }
  have rest : Accounted parse handled escaped filled :=
    ⟨((posted_erase found).append_left handled).trans h.reported, h.blame⟩
  rcases readNextMessage_cases parse filled.inbound with read | ⟨message, i, read, messages⟩
  · have went : Connection.onRead parse w chunk handler
        { c with receives := c.receives.eraseIdx n } =
        (none, (filled.asyncReceive parse handler).2) := by
      simp only [Connection.onRead, filled, read]
    have told : reports parse n (.read chunk) c = [] := by
      simp [reports, Connection.receiveStep, found, fits, went]
    have quiet : escapes parse n (.read chunk) c = none := by
      have read : (c.inbound.fill w chunk).readNextMessage parse = _ := read
      simp [escapes, found, fits, read]
    rw [told, quiet, went, List.append_nil, Option.toList_none, List.append_nil]
    exact rest.asyncReceive handler
  · have went : Connection.onRead parse w chunk handler
        { c with receives := c.receives.eraseIdx n } =
        ((report parse message).map fun received => (handler, received),
          { filled with inbound := i }) := by
      simp only [Connection.onRead, filled, read, report]
    have told : reports parse n (.read chunk) c = (report parse message).toList := by
      simp only [reports, Connection.receiveStep, found, fits, if_true, went,
        Option.bind_some]
      cases report parse message <;> rfl
    rw [told, went]
    refine rest.takes messages ?_ fun some_ => report_eq_none_iff.mp ?_
    · rw [List.append_assoc, List.append_assoc]
      exact List.perm_append_comm.append_left handled
    · have read : (c.inbound.fill w chunk).readNextMessage parse = _ := read
      cases result : (parse message).received with
      | error stop => simp [report, result, Except.toOption]
      | ok received => simp [escapes, found, fits, read, result] at some_

theorem receiveStep {c : Connection κ} {n : Nat} {e : ReadEvent}
    {result : Option (κ × Received) × Connection κ} (h : Accounted parse handled escaped c)
    (went : c.receiveStep parse n e = some result) :
    Accounted parse (handled ++ reports parse n e c)
      (escaped ++ (escapes parse n e c).toList) result.2 := by
  cases found : c.receives[n]? with
  | none => simp [Connection.receiveStep, found] at went
  | some r =>
    have erased := posted_erase found
    cases r with
    | posted received handler =>
      cases e with
      | read chunk => simp [Connection.receiveStep, found] at went
      | error => simp [Connection.receiveStep, found] at went
      | run =>
        have told : reports parse n .run c = [received] := by
          simp [reports, Connection.receiveStep, found]
        have quiet : escapes parse n .run c = none := by simp [escapes, found]
        simp only [Connection.receiveStep, found, Option.some.injEq] at went
        subst went
        rw [told, quiet, Option.toList_none, List.append_nil]
        refine ⟨?_, h.blame⟩
        rw [List.append_assoc]
        exact (erased.append_left handled).trans h.reported
    | reading w handler =>
      cases e with
      | run => simp [Connection.receiveStep, found] at went
      | error =>
        simp only [Connection.receiveStep, found, Option.some.injEq] at went
        subst went
        have quiet : escapes parse n .error c = none := by simp [escapes, found]
        rw [quiet, Option.toList_none, List.append_nil, reports, List.append_nil]
        exact ⟨(erased.append_left handled).trans h.reported, h.blame⟩
      | read chunk => exact h.onRead found went

end Accounted

section Server

variable {handled : List Received} {escaped : List Stop}

theorem replySender_accounted (reply : Json) (s : ServerSession)
    (h : Accounted parse handled escaped s.connection) :
    Accounted parse handled escaped
      (ServerSession.replySender parse dump reply s).2.connection := by
  have start : ∀ t : ServerSession, Accounted parse handled escaped t.connection →
      Accounted parse handled escaped (t.start parse).2.connection :=
    fun t held => held.asyncReceive ()
  have sent : ∀ t : ServerSession, Accounted parse handled escaped t.connection →
      Accounted parse handled escaped (ServerSession.asyncSendReply dump reply t).2.connection :=
    fun t held => held.congr (Connection.asyncSend_inbound dump reply () t.connection)
      (Connection.asyncSend_receives dump reply () t.connection)
  have tried : Accounted parse handled escaped (if reply.isObject
      then ServerSession.asyncSendReply dump reply s else (.ok (), s)).2.connection := by
    split
    · exact sent s h
    · exact h
  unfold ServerSession.replySender
  split
  · exact h
  · generalize (if reply.isObject then ServerSession.asyncSendReply dump reply s
      else (.ok (), s)) = r at tried
    rcases r with ⟨stop | ⟨⟨⟩⟩, t⟩
    · exact tried
    · cases replyContinues reply with
      | error e => exact tried
      | ok continues =>
        cases continues with
        | true => exact tried
        | false => exact start t tried

theorem onReceive_accounted (received : Received) (s : Server)
    (h : Accounted parse handled escaped s.session.connection) :
    Accounted parse handled escaped
      (s.onReceive parse dump stack service received).session.connection := by
  unfold Server.onReceive
  split
  · exact h
  · split
    · exact h
    · next message made =>
      have called : Accounted parse handled escaped (messageCall dump stack
          (ServerSession.replySender parse dump) service message s.dispatched.length
          s.session).2.connection :=
        messageCall_invariant
          (fun s : ServerSession => Accounted parse handled escaped s.connection)
          replySender_accounted service message _ h
      unfold Server.dispatch
      generalize messageCall dump stack (ServerSession.replySender parse dump) service message
        s.dispatched.length s.session = r at called
      rcases r with ⟨stop | _ | later, session⟩ <;> exact called

theorem step_accounted {w t : Watched} {e : ServerEvent}
    (h : Accounted parse w.handled w.escaped w.server.session.connection)
    (went : step parse dump stack service w e = some t) :
    Accounted parse t.handled t.escaped t.server.session.connection := by
  obtain ⟨server, stepped, rfl⟩ := Option.map_eq_some_iff.mp went
  cases e with
  | receive n r =>
    simp only [Server.step] at stepped
    split at stepped
    · cases stepped
    · obtain ⟨⟨handler, c⟩, received, rfl⟩ := Option.map_eq_some_iff.mp stepped
      have accounted := h.receiveStep received
      cases handler with
      | none => exact accounted
      | some call => exact onReceive_accounted call.2 _ accounted
  | written n success =>
    simp only [Server.step] at stepped
    split at stepped
    · cases stepped
    · obtain ⟨⟨handler, c⟩, written, rfl⟩ := Option.map_eq_some_iff.mp stepped
      obtain ⟨inbound, receives⟩ := Connection.execute_frame dump
        w.server.session.connection.writeStrand.next
        { w.server.session.connection with
          writing := w.server.session.connection.writing.eraseIdx n }
      rw [(Connection.of_writeStep dump written).2] at inbound receives
      have accounted : Accounted parse w.handled w.escaped c := h.congr inbound receives
      cases handler with
      | none => exact accounted
      | some handler =>
        simp only [Server.onWritten]
        split <;> exact accounted
  | reply n =>
    simp only [Server.step] at stepped
    split at stepped
    · cases stepped
    · unfold Server.replyStep at stepped
      split at stepped
      · next handler params continues rest waits =>
        have called : Accounted parse w.handled w.escaped
            (handler.call dump stack (ServerSession.replySender parse dump) params continues
              w.server.session).2.connection := by
          unfold ReplyHandler.call
          split
          · exact h
          · exact replySender_accounted _ _ h
        generalize handler.call dump stack (ServerSession.replySender parse dump) params continues
          w.server.session = r at called stepped
        rcases r with ⟨(_ | _ | _) | ⟨⟨⟩⟩, session⟩ <;> cases stepped <;> exact called
      · cases stepped

theorem run_watched {w : Watched} {s : Server} {es : List ServerEvent}
    (run : Runs.run (Server.step parse dump stack service) w.server es = some s) :
    ∃ t, Runs.run (step parse dump stack service) w es = some t ∧ t.server = s := by
  induction es generalizing w with
  | nil => exact ⟨w, rfl, Option.some.inj run⟩
  | cons e es ih =>
    rw [Runs.run_cons] at run
    obtain ⟨server, stepped, later⟩ := Option.bind_eq_some_iff.mp run
    obtain ⟨m, one, kept⟩ :
        ∃ m, step parse dump stack service w e = some m ∧ m.server = server := by
      refine ⟨_, Option.map_eq_some_iff.mpr ⟨server, stepped, rfl⟩, ?_⟩
      cases e <;> rfl
    obtain ⟨t, rest, same⟩ := ih (w := m) (kept ▸ later)
    exact ⟨t, by rw [Runs.run_cons, one]; exact rest, same⟩

/-- Every frame that was taken off has been reported to a receive handler, or is
posted for one, as a value or an error; and nothing has left a completion handler. -/
structure Reported (parse : Bytes → ParseResult) (w : Watched) : Prop where
  frames : ((w.handled ++ posted w.server.session.connection).map some).Perm
    (w.server.session.connection.inbound.messages.map (report parse))
  escaped : w.escaped = []

/-- `read_next_message` takes the first frame off the buffer, whatever it holds, and
ends with a value or an error code unless `json::parse` throws something other than
a `parse_error`; in every run of the server all frames are reported, and nothing
leaves a completion handler, exactly if that never happens. -/
theorem undecodable_reported_iff (parse : Bytes → ParseResult) (dump : Dump) (stack : Nat)
    (service : VarlinkService) (bufsiz : Nat) :
    (∀ (b : ReceiveBuffer) (frame rest : Bytes), b.readEnd ≤ b.readbuf.length → 0 ∉ frame →
      b.contents = frame ++ 0 :: rest →
      ∃ t, b.readNextMessage parse = (some (frame, parse frame), t) ∧ t.contents = rest ∧
        ((∃ received, (parse frame).received = .ok received) ↔ ¬ Throws parse frame)) ∧
    ∀ (es : List ServerEvent) (s : Server),
      Runs.run (Server.step parse dump stack service) (Server.init parse bufsiz) es = some s →
      ∃ w, Runs.run (step parse dump stack service) (init parse bufsiz) es = some w ∧
        w.server = s ∧
        (Reported parse w ↔
          ∀ frame ∈ s.session.connection.inbound.messages, ¬ Throws parse frame) := by
  refine ⟨fun b frame rest bound clean holds => ?_, fun es s run => ?_⟩
  · rcases b.readNextMessage_cases parse bound with
      ⟨-, none_⟩ | ⟨message, t, read, split, clean', -⟩
    · exact absurd (by simp [holds]) none_
    · obtain ⟨rfl, same⟩ := Delimited.split_unique clean clean' (holds.symm.trans split)
      refine ⟨t, read, same.symm, ?_⟩
      unfold Throws
      cases parse frame <;> simp [ParseResult.received]
  · obtain ⟨w, watched, rfl⟩ := run_watched (w := init parse bufsiz) run
    refine ⟨w, watched, rfl, ?_⟩
    have accounted : Accounted parse w.handled w.escaped w.server.session.connection := by
      refine Runs.run_invariant _ (fun _ _ _ => step_accounted) ?_ watched
      have fresh : Accounted parse [] [] (Connection.new bufsiz : Connection Unit) :=
        ⟨List.Perm.refl _, absurd rfl⟩
      exact fresh.asyncReceive ()
    constructor
    · intro reported frame member throws
      have counted := accounted.reported.length_eq
      have all := reported.frames.length_eq
      rw [List.length_map, List.length_map] at all
      have every := List.filterMap_length_eq_length.mp (counted.symm.trans all) frame member
      rw [report_eq_none_iff.mpr throws] at every
      cases every
    · intro fine
      have told : ∀ frame ∈ w.server.session.connection.inbound.messages,
          (report parse frame).isSome = true := by
        intro frame member
        rw [← Option.ne_none_iff_isSome]
        exact fun none_ => fine frame member (report_eq_none_iff.mp none_)
      refine ⟨?_, ?_⟩
      · refine (accounted.reported.map some).trans (List.Perm.of_eq ?_)
        rw [List.map_filterMap_some_eq_filter_map_isSome, List.filter_eq_self]
        intro result member
        obtain ⟨frame, taken, rfl⟩ := List.mem_map.mp member
        exact told frame taken
      · by_contra some_
        obtain ⟨message, member, throws⟩ := accounted.blame some_
        exact fine message member throws

open JsonText (frame encoded parsePing parsePing_encoded basicCall)

def parseOverflow (m : Bytes) : ParseResult :=
  if m = Frame.bytes "1e999" then
    .exception "[json.exception.out_of_range.406] number overflow parsing '1e999'"
  else parsePing m

theorem undecodable_reported_iff_malformed :
    let service := pingService fun _ _ _ => .sendReply [] false fun _ => .returns []
    let es : List ServerEvent := [.receive 0 (.read (frame basicCall ++ [0])), .receive 0 .run]
    ∃ w, Runs.run (step parseOverflow JsonText.dump 1 service) (init parseOverflow 64) es =
        some w ∧ w.handled.length = 2 ∧ Reported parseOverflow w := by
  intro service es
  have enabled : (Runs.run (step parseOverflow JsonText.dump 1 service)
      (init parseOverflow 64) es).any (fun w => w.handled.length = 2 &&
        w.server.session.connection.inbound.messages = [encoded basicCall, []]) = true := by
    decide +kernel
  obtain ⟨w, run, both⟩ := (Option.any_eq_true _ _).mp enabled
  simp only [Bool.and_eq_true, decide_eq_true_eq] at both
  obtain ⟨server, ran⟩ : ∃ s, Runs.run (Server.step parseOverflow JsonText.dump 1 service)
      (Server.init parseOverflow 64) es = some s :=
    Option.isSome_iff_exists.mp (by decide +kernel)
  obtain ⟨w', run', same, reported⟩ := (undecodable_reported_iff parseOverflow JsonText.dump 1
    service 64).2 es server ran
  cases run.symm.trans run'
  refine ⟨w, run, both.1, reported.mpr fun frame member => ?_⟩
  rw [← same, both.2] at member
  rintro ⟨what, throws⟩
  have request : parseOverflow (encoded basicCall) = .value basicCall := by
    rw [parseOverflow, if_neg (by decide +kernel), parsePing_encoded (by simp [JsonText.pings])]
  rcases List.mem_pair.mp member with rfl | rfl
  · cases request.symm.trans throws
  · have malformed : parseOverflow [] = .parseError := by rfl
    cases malformed.symm.trans throws

/-- The overflowing number is taken off the buffer, the receive handler is not
called, and the exception leaves the completion handler. -/
theorem overflow_escapes :
    let service := pingService fun _ _ _ => .sendReply [] false fun _ => .returns []
    ∃ w, Runs.run (step parseOverflow JsonText.dump 1 service) (init parseOverflow 64)
        [.receive 0 (.read (Frame.bytes "1e999" ++ [0]))] = some w ∧
      w.handled = [] ∧ w.server.session.connection.receives = [] ∧
      w.escaped = [.thrown (.standard .json
        "[json.exception.out_of_range.406] number overflow parsing '1e999'")] ∧
      ¬ Reported parseOverflow w := by
  intro service
  exact ⟨_, rfl, rfl, rfl, rfl, fun reported => nomatch reported.escaped⟩

end Server

end Varlink.DecodeErrors
