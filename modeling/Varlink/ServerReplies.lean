import Varlink.ServerSession

/-! Pipelined requests on one session: while the callbacks keep to the protocol
a request is dispatched only when its predecessor has been answered for good, so
that the replies leave in the order of the requests. -/

namespace Varlink.ServerReplies

open ServerSession

def replyObject (mode : Callmode) (params : Object) (continues : Bool) : Json :=
  if mode = .more then
    .object [("continues", .boolean continues), ("parameters", .object params)]
  else .object [("parameters", .object params)]

/-- The replies left to a callback: continued ones in more mode, then the last one. -/
inductive RepliesLeft (mode : Callmode) (valid : Object → Prop) : List (Object × Bool) → Prop where
  | last {params : Object} (ok : valid params) : RepliesLeft mode valid [(params, false)]
  | more {params : Object} {rest : List (Object × Bool)} (more : mode = .more)
      (ok : valid params) (then_ : RepliesLeft mode valid rest) :
      RepliesLeft mode valid ((params, true) :: rest)

/-- What a callback may do: any number of continued replies in more mode, and
then the last one, at once or later, or an exception instead of it. -/
inductive FollowsProtocol (mode : Callmode) (valid : Object → Prop) : Behaviour → Prop where
  | throws {e : Exn} (caught : e ≠ .systemError) (standard : e ≠ .foreign) :
      FollowsProtocol mode valid (.throws e)
  | more {params : Object} {next : Option Exn → Behaviour} (more : mode = .more)
      (ok : valid params) (then_ : FollowsProtocol mode valid (next none)) :
      FollowsProtocol mode valid (.sendReply params true next)
  | last {params : Object} {next : Option Exn → Behaviour} (ok : valid params)
      (then_ : next none = .returns []) : FollowsProtocol mode valid (.sendReply params false next)
  | later {replies : List (Object × Bool)} (left : RepliesLeft mode valid replies) :
      FollowsProtocol mode valid (.returns replies)

def errorAnswer (method : String) (e : Exn) : List Json :=
  match e.errorReply method with
  | some (what, params) => [errorObject what params]
  | none => []

def behaviourAnswers (mode : Callmode) (method : String) : Behaviour → List Json
  | .returns later => later.map fun r => replyObject mode r.1 r.2
  | .throws e => errorAnswer method e
  | .sendReply params continues next =>
    replyObject mode params continues :: behaviourAnswers mode method (next none)

section Answers
variable (dump : Dump) (stack : Nat) (service : VarlinkService)

/-- The replies of one request: they depend on the request, the service and the
number of the call alone. -/
def requestAnswers (message : VarlinkMessage) (call : Nat) : List Json :=
  match service.findInterface message.interface with
  | none => [errorObject "org.varlink.service.InterfaceNotFound"
      (.object [("interface", .string message.interface)])]
  | some entry =>
    let method := message.interface ++ "." ++ message.method
    match lookupCall dump stack entry message call with
    | .error (.thrown e) => errorAnswer method e
    | .error _ => []
    | .ok (_, behaviour) => behaviourAnswers message.mode method behaviour

def answersFrom (call : Nat) : List VarlinkMessage → List Json
  | [] => []
  | message :: rest => requestAnswers dump stack service message call ++ answersFrom (call + 1) rest

/-- The replies of a sequence of requests, one request after the other. -/
def answers (requests : List VarlinkMessage) : List Json :=
  answersFrom dump stack service 0 requests

/-- Every callback that a request of the sequence reaches keeps to the protocol. -/
def ServiceFollowsProtocol : Prop :=
  ∀ message call entry handler behaviour, message.mode ≠ .oneway →
    service.findInterface message.interface = some entry →
    lookupCall dump stack entry message call = .ok (handler, behaviour) →
    FollowsProtocol handler.mode
      (fun params => checkType dump stack handler.interface (.object params) handler.returnType =
        .ok ()) behaviour

theorem answersFrom_append (call : Nat) (first last : List VarlinkMessage) :
    answersFrom dump stack service call (first ++ last) =
      answersFrom dump stack service call first ++
        answersFrom dump stack service (call + first.length) last := by
  induction first generalizing call with
  | nil => rfl
  | cons message rest ih =>
    simp only [List.cons_append, answersFrom, ih, List.append_assoc, List.length_cons]
    rw [Nat.add_assoc, Nat.add_comm 1]

theorem answers_concat (requests : List VarlinkMessage) (message : VarlinkMessage) :
    answers dump stack service (requests ++ [message]) =
      answers dump stack service requests ++
        requestAnswers dump stack service message requests.length := by
  rw [answers, answersFrom_append, Nat.zero_add]
  simp only [answersFrom, List.append_nil, answers]

theorem answers_isPrefix {first all : List VarlinkMessage} (h : first <+: all) :
    answers dump stack service first <+: answers dump stack service all := by
  obtain ⟨last, rfl⟩ := h
  rw [answers, answers, answersFrom_append]
  exact List.prefix_append _ _

end Answers

section Requests
variable (parse : Bytes → ParseResult) (dump : Dump)

def requestOf (frame : Bytes) : Option VarlinkMessage :=
  match parse frame with
  | .value j => (VarlinkMessage.ofJson dump j).toOption
  | _ => none

structure Pipelined (frames : List Bytes) (requests : List VarlinkMessage) : Prop where
  clean : ∀ f ∈ frames, 0 ∉ f
  parsed : frames.map (requestOf parse dump) = requests.map some
  answered : ∀ m ∈ requests, m.mode ≠ .oneway

end Requests

end Varlink.ServerReplies
