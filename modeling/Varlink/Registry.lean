import Mathlib.Data.List.Nodup
import Varlink.MemberScan
import Varlink.Service

/-! The registry of a service: no two of its interfaces have the same name, and each
of them comes from a description. What is found in it is what is declared there. -/

namespace Varlink

structure CallbackMap where
  entries : List (String × Option CallbackFunction)
  keys : (entries.map (·.1)).Nodup

structure Registry where
  service : VarlinkService
  constructed : ∀ entry ∈ service.interfaces, entry.spec.Constructed
  names : (service.interfaces.map (·.spec.ifname)).Nodup
  keys : ∀ entry ∈ service.interfaces, (entry.callbacks.map (·.1)).Nodup

structure VarlinkInterface.Declares (i : VarlinkInterface) (name : String) (m : Member) : Prop where
  member : m ∈ i.members
  kind : m.kind = .method
  named : m.name = name

theorem lookup_eq_some_iff_mem {α : Type} {l : List (String × α)} (keys : (l.map (·.1)).Nodup)
    {key : String} {value : α} : l.lookup key = some value ↔ (key, value) ∈ l := by
  induction l with
  | nil => simp
  | cons head rest ih =>
    obtain ⟨k, v⟩ := head
    simp only [List.map_cons, List.nodup_cons] at keys
    rw [List.lookup_cons, List.mem_cons, Prod.mk.injEq]
    by_cases same : key = k
    · subst same
      have absent : (key, value) ∉ rest := fun member =>
        keys.1 (List.mem_map_of_mem (f := Prod.fst) member)
      simp [absent, eq_comm]
    · rw [beq_eq_false_iff_ne.mpr same]
      simp only [same, false_and, false_or]
      exact ih keys.2

namespace VarlinkInterface

variable {i : VarlinkInterface}

theorem method_eq_ok_iff (h : i.Constructed) {name : String} {m : Member} :
    i.method name = .ok m ↔ i.Declares name m := by
  rw [VarlinkInterface.method, findMember_eq_ok_iff h (by decide)]
  exact ⟨fun ⟨member, kind, named⟩ => ⟨member, kind, named⟩,
    fun declares => ⟨declares.member, declares.kind, declares.named⟩⟩

theorem Declares.methodTypes (h : i.Constructed) {name : String} {m : Member}
    (declares : i.Declares name m) : MethodTypes m.data := by
  rcases h.wellFormed.members.cases m declares.member with wellFormed | cut
  · exact wellFormed.types declares.kind
  · exact absurd declares.kind cut.notMethod

theorem Declares.types (h : i.Constructed) {name : String} {m : Member}
    (declares : i.Declares name m) : ∃ parameters returnValue,
      m.methodType? 0 = some parameters ∧ m.methodParameterType = .ok parameters ∧
      m.methodType? 1 = some returnValue ∧ m.methodReturnType = .ok returnValue := by
  obtain ⟨parameters, returnValue, data, -⟩ := declares.methodTypes h
  have first : m.methodType? 0 = some { type := parameters } := by
    simp [Member.methodType?, data]
  have second : m.methodType? 1 = some { type := returnValue } := by
    simp [Member.methodType?, data]
  refine ⟨_, _, first, ?_, second, ?_⟩
  · simp [Member.methodParameterType, Member.methodTypeOrThrow, declares.kind, first]
  · simp [Member.methodReturnType, Member.methodTypeOrThrow, declares.kind, second]

end VarlinkInterface

theorem InterfaceEntry.callback_eq_ok_iff {entry : InterfaceEntry}
    (keys : (entry.callbacks.map (·.1)).Nodup) {name : String} {f : CallbackFunction} :
    entry.callback name = .ok f ↔ (name, some f) ∈ entry.callbacks := by
  rw [← lookup_eq_some_iff_mem keys]
  unfold InterfaceEntry.callback
  rcases entry.callbacks.lookup name with _ | _ | g <;> simp

namespace Registry

def new (desc : Description) : Registry where
  service := ⟨desc, []⟩
  constructed := nofun
  names := List.nodup_nil
  keys := nofun

theorem findInterface_eq_some_iff (r : Registry) {name : String} {entry : InterfaceEntry} :
    r.service.findInterface name = some entry ↔
      entry ∈ r.service.interfaces ∧ entry.spec.ifname = name := by
  unfold VarlinkService.findInterface
  rw [find?_eq_some_iff_of_unique]
  · rw [beq_iff_eq]
    exact and_congr_right fun _ => eq_comm
  · intro a ha b hb pa pb
    simp only [beq_iff_eq] at pa pb
    exact List.inj_on_of_nodup_map r.names ha hb (pa.symm.trans pb)

def addInterface (r : Registry) (interface : VarlinkInterface)
    (constructed : interface.Constructed) (callbacks : CallbackMap) : Except Exn Registry :=
  match known : r.service.findInterface interface.ifname with
  | none =>
    if callbacks.entries.all fun callback => interface.hasMethod callback.1 then
      .ok {
        service := { r.service with
          interfaces := r.service.interfaces ++ [⟨interface, callbacks.entries⟩] }
        constructed := List.forall_mem_append.mpr
          ⟨r.constructed, List.forall_mem_singleton.mpr constructed⟩
        names := by
          have fresh : ∀ entry ∈ r.service.interfaces, entry.spec.ifname ≠ interface.ifname :=
            fun entry member same => by
              simp [r.findInterface_eq_some_iff.mpr ⟨member, same⟩] at known
          simpa [List.nodup_append, r.names] using fresh
        keys := List.forall_mem_append.mpr
          ⟨r.keys, List.forall_mem_singleton.mpr callbacks.keys⟩ }
    else .error (.standard .invalidArgument "Callback for unknown method")
  | some _ => .error (.standard .invalidArgument "Interface already exists!")

example (f : CallbackFunction) : ∃ r, (Registry.new {}).addInterface (pingEntry f).spec
    ⟨3, "interface org.test\nmethod Ping() -> ()", rfl⟩ ⟨[("Ping", some f)], by simp⟩ = .ok r :=
  ⟨_, rfl⟩

end Registry

def pingMessage : VarlinkMessage := ⟨.object [("method", .string "org.test.Ping")], .basic⟩

def pingRegistry (callback : CallbackFunction) : Registry where
  service := pingService callback
  constructed := by
    rintro entry (_ | ⟨_, ⟨⟩⟩)
    exact ⟨3, "interface org.test\nmethod Ping() -> ()", rfl⟩
  names := by simp [pingService]
  keys := by simp [pingService, pingEntry]

end Varlink
