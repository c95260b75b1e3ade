import Varlink.Introspection
import Varlink.SyncProgress

/-! What a remote client is told of a service. The callbacks of `org.varlink.service` keep
to the protocol, whatever has been added to the service, and a client that asks for an
interface reads the interface that the service has. -/

namespace Varlink.LiveService

open ServerReplies (FollowsProtocol ServiceFollowsProtocol replyObject requestAnswers)
open RemoteCalls (RemoteCall Conversation replies)

section Own
variable (r : ServiceRegistry) (dump : Dump)

theorem returnType_eq {name : String} {input output : TypeExpr} {m : Member} {t : TypeSpec}
    (listed : MemberExpr.method name input output ∈ ServiceInterface.declared.members)
    (method : r.spec.method name = .ok m) (returned : m.methodReturnType = .ok t) :
    t = output.toSpec := by
  have constructed := ServiceInterface.constructed r.read
  obtain ⟨other, found, data⟩ := ServiceInterface.find_declared r.read listed
  obtain rfl : other = m := Except.ok.inj (found.symm.trans method)
  obtain ⟨_, returnValue, -, -, second, same⟩ :=
    ((VarlinkInterface.method_eq_ok_iff constructed).mp method).types constructed
  obtain rfl : returnValue = t := Except.ok.inj (same.symm.trans returned)
  rw [Member.methodType?, data] at second
  exact (Option.some.inj second).symm

theorem checkType_of_admits {i : VarlinkInterface} {t : TypeSpec} {v : Json}
    (h : Admits i.types t false v) :
    ∃ n, ∀ stack, n ≤ stack → checkType dump stack i v t = .ok () := by
  obtain ⟨n, accepts⟩ : ∃ n, ∀ stack, n ≤ stack → ∀ name,
      validate dump i (stack + 1) v t name false = .ok () := validate_of_admits h
  refine ⟨n + 1, fun stack le => ?_⟩
  obtain ⟨stack, rfl⟩ : ∃ j, stack = j + 1 := ⟨stack - 1, by omega⟩
  exact accepts stack (by omega) "<root>"

theorem valid_replies : ∃ n, ∀ stack, n ≤ stack →
    checkType dump stack r.spec (.object (info r.desc ((specs r).map (·.ifname)))) infoSpec =
      .ok () ∧
    ∀ i ∈ specs r, checkType dump stack r.spec (.object [("description", .string (describedAs i))])
      (ServiceInterface.ofStrings ["description"]).toSpec = .ok () := by
  have none := ServiceInterface.types_eq_none r.read
  have admitted (i : VarlinkInterface) : Admits r.spec.types
      (ServiceInterface.ofStrings ["description"]).toSpec false
      (.object [("description", .string (describedAs i))]) :=
    (ServiceInterface.admits_ofStrings_iff none).mpr
      ⟨rfl, List.forall_mem_singleton.mpr ⟨describedAs i, rfl⟩⟩
  have all : Admits r.spec.types infoSpec false
      (.object (info r.desc ((specs r).map (·.ifname)))) := admits_info none
  obtain ⟨n, listed⟩ := checkType_of_admits dump all
  obtain ⟨k, described⟩ := eventually_forall fun i (_ : i ∈ specs r) =>
    checkType_of_admits dump (admitted i)
  exact ⟨max n k, fun stack le => ⟨listed stack (by omega), described stack (by omega)⟩⟩

theorem own_followsProtocol : ∃ n, ∀ stack, n ≤ stack → ∀ message call handler behaviour,
    lookupCall dump stack r.own message call = .ok (handler, behaviour) →
    FollowsProtocol handler.mode (fun params => checkType dump stack handler.interface
      (.object params) handler.returnType = .ok ()) behaviour := by
  obtain ⟨n, valid⟩ := valid_replies r dump
  refine ⟨n, fun stack le message call handler behaviour found => ?_⟩
  obtain ⟨m, callback, method, returned, registered, -, interface, rfl⟩ := lookupCall_found found
  obtain ⟨listed, described⟩ := valid stack le
  rw [interface]
  have keys := r.registry.keys r.own List.mem_cons_self
  have among := (InterfaceEntry.callback_eq_ok_iff keys).mp registered
  rcases List.mem_pair.mp among with same | same
  · obtain ⟨named, same⟩ := Prod.mk.inj same
    obtain rfl := Option.some.inj same
    rw [named] at method
    have type := returnType_eq r List.mem_cons_self method returned
    refine .last ?_ rfl
    rw [info, List.map_map] at listed
    rw [type]
    exact listed
  · obtain ⟨named, same⟩ := Prod.mk.inj same
    obtain rfl := Option.some.inj same
    rw [named] at method
    have type := returnType_eq r (List.mem_cons_of_mem _ List.mem_cons_self) method returned
    rw [type, getInterfaceDescription]
    split
    · split
      · next i known =>
        exact .last (described i (List.mem_of_find?_eq_some known)) rfl
      · exact .throws (by rintro ⟨⟩) (by rintro ⟨⟩)
    · exact .throws (by rintro ⟨⟩) (by rintro ⟨⟩)

end Own

def AddedFollowProtocol (dump : Dump) (stack : Nat) (s : LiveService) : Prop :=
  ∀ message call entry handler behaviour, message.mode ≠ .oneway →
    message.interface ≠ "org.varlink.service" →
    s.service.findInterface message.interface = some entry →
    lookupCall dump stack entry message call = .ok (handler, behaviour) →
    FollowsProtocol handler.mode (fun params => checkType dump stack handler.interface
      (.object params) handler.returnType = .ok ()) behaviour

variable {desc : Description} {past : List (AddCall × Option Exn)} {s : LiveService}

/-- The callbacks of the service's own interface send one reply each, or throw. -/
def OwnFollowProtocol (dump : Dump) (stack : Nat) (s : LiveService) : Prop :=
  ∀ message call entry handler behaviour, message.interface = "org.varlink.service" →
    s.service.findInterface message.interface = some entry →
    lookupCall dump stack entry message call = .ok (handler, behaviour) →
    FollowsProtocol handler.mode (fun params => checkType dump stack handler.interface
      (.object params) handler.returnType = .ok ()) behaviour

theorem ownFollowProtocol_of_run (run : Run desc past s) (dump : Dump) : ∃ n, ∀ stack, n ≤ stack →
    OwnFollowProtocol dump stack s := by
  obtain ⟨r, rfl, rfl⟩ := (invariant_run run).registry
  obtain ⟨n, own⟩ := own_followsProtocol r dump
  refine ⟨n, fun stack le message call entry handler behaviour same known found => ?_⟩
  rw [service_ofRegistry] at known
  have own_ : r.registry.service.findInterface message.interface = some r.own :=
    (r.registry.findInterface_eq_some_iff).mpr
      ⟨List.mem_cons_self, (ServiceInterface.declares r.read).1.trans same.symm⟩
  obtain rfl := Option.some.inj (own_.symm.trans known)
  exact own stack le message call handler behaviour found

theorem OwnFollowProtocol.service {dump : Dump} {stack : Nat}
    (own : OwnFollowProtocol dump stack s) (added : AddedFollowProtocol dump stack s) :
    ServiceFollowsProtocol dump stack s.service := by
  intro message call entry handler behaviour answered known found
  by_cases same : message.interface = "org.varlink.service"
  · exact own message call entry handler behaviour same known found
  · exact added message call entry handler behaviour answered same known found

/-- The own callbacks of a service that can be reached keep to the protocol, and so does the
whole service if what has been added to it does. -/
theorem followsProtocol_iff (run : Run desc past s) (dump : Dump) : ∃ n, ∀ stack, n ≤ stack →
    OwnFollowProtocol dump stack s ∧
      (ServiceFollowsProtocol dump stack s.service ↔ AddedFollowProtocol dump stack s) := by
  obtain ⟨n, own⟩ := ownFollowProtocol_of_run run dump
  refine ⟨n, fun stack le => ⟨own stack le, fun all => ?_, (own stack le).service⟩⟩
  exact fun message call entry handler behaviour answered _ =>
    all message call entry handler behaviour answered

def addTwice : AddCall :=
  .definition "interface org.test\nmethod Ping() -> ()" 3
    ⟨[("Ping", some ServerReplies.twice)], by simp⟩

def withTwice (spec : VarlinkInterface) : LiveService :=
  ⟨{}, [⟨spec, ownCallbacks⟩, ⟨⟨"org.test", "", [pingMember]⟩, bound addTwice.callbacks.entries⟩]⟩

theorem run_withTwice {spec : VarlinkInterface} {stack : Nat}
    (read : VarlinkInterface.construct stack orgVarlinkServiceVarlink = .ok spec) :
    Run {} [(addTwice, none)] (withTwice spec) := by
  have own : spec.ifname = "org.varlink.service" := (ServiceInterface.declares ⟨stack, read⟩).1
  have called : addTwice.spec = .ok ⟨"org.test", "", [pingMember]⟩ := rfl
  refine .added (.start (construct_eq_ok read)) ?_
  rw [AddCall.run_eq, called]
  simp only [addInterface, findInterface, List.find?_cons, own]
  rfl

theorem addedFollowProtocol_withTwice {spec : VarlinkInterface}
    (own : spec.ifname = "org.varlink.service") (dump : Dump) (stack : Nat) :
    AddedFollowProtocol dump (stack + 1) (withTwice spec) := by
  intro message call entry handler behaviour _ other known found
  have named := List.find?_some known
  rcases List.mem_pair.mp (List.mem_of_find?_eq_some known) with rfl | rfl
  · exact absurd ((eq_of_beq named).trans own) other
  · exact ServerReplies.lookupCall_twice found

theorem followsProtocol_iff_twice : ∃ s, Run {} [(addTwice, none)] s ∧ ∀ dump, ∃ n, ∀ stack,
    n ≤ stack → OwnFollowProtocol dump stack s ∧ ServiceFollowsProtocol dump stack s.service := by
  obtain ⟨spec, stack, read⟩ := ServiceInterface.exists_isServiceInterface
  have own : spec.ifname = "org.varlink.service" := (ServiceInterface.declares ⟨stack, read⟩).1
  refine ⟨_, run_withTwice read, fun dump => ?_⟩
  obtain ⟨n, follows⟩ := followsProtocol_iff (run_withTwice read) dump
  refine ⟨n + 1, fun stack le => ?_⟩
  obtain ⟨stack, rfl⟩ : ∃ j, stack = j + 1 := ⟨stack - 1, by omega⟩
  obtain ⟨ownFollows, all⟩ := follows (stack + 1) (by omega)
  exact ⟨ownFollows, all.mpr (addedFollowProtocol_withTwice own dump stack)⟩

open JsonText (encoded exists_encoded)

end Varlink.LiveService
