import Mathlib.Data.List.Nodup
import Varlink.ScannerSound

/-! The members that the constructor reads: what is well formed in them, and that the
end of the text can cut off only the last one. -/

namespace Varlink

open Scanner

def MethodTypes (t : TypeSpec) : Prop :=
  ∃ parameters returnValue, t = { type := .struct [("parameters", { type := parameters }),
      ("return_value", { type := returnValue })] } ∧
    (Readable { type := parameters } ∧ ∀ name, parameters ≠ .string name) ∧
    Readable { type := returnValue } ∧ ∀ name, returnValue ≠ .string name

def Slice (d : String) : Prop := d = "" ∨ Framed d.toList

structure WellFormed (m : Member) : Prop where
  description : Slice m.description
  name : Token [memberPattern] m.name.toList
  data : (m.kind = .type ∨ m.kind = .error) ∧ Readable m.data ∨
    m.kind = .method ∧ MethodTypes m.data

/-- A member whose type, and maybe its name, the end of the text cuts off. -/
structure CutMember (m : Member) : Prop where
  description : Slice m.description
  kind : m.kind = .type ∨ m.kind = .error
  name : Token [memberPattern] m.name.toList ∨ m.name = ""
  data : m.data.type = .string ""

inductive Members : List Member → Prop where
  | nil : Members []
  | cut {m : Member} (cut : CutMember m) : Members [m]
  | cons {m : Member} {rest : List Member} (wellFormed : WellFormed m) (members : Members rest) :
      Members (m :: rest)

def Distinct : List Member → List Member → Prop
  | _, [] => True
  | before, m :: rest =>
    before.any (·.name == m.name) = false ∧ Distinct (before ++ [m]) rest

theorem find?_eq_some_iff_of_unique {α : Type} {p : α → Bool} {l : List α}
    (unique : ∀ a ∈ l, ∀ b ∈ l, p a = true → p b = true → a = b) {a : α} :
    l.find? p = some a ↔ a ∈ l ∧ p a = true := by
  constructor
  · exact fun found => ⟨List.mem_of_find?_eq_some found, List.find?_some found⟩
  · rintro ⟨member, holds⟩
    cases found : l.find? p with
    | none => exact absurd holds (List.find?_eq_none.mp found a member)
    | some b =>
      rw [unique b (List.mem_of_find?_eq_some found) a member (List.find?_some found) holds]

theorem distinct_names {before ms : List Member} (h : Distinct before ms) :
    (∀ m ∈ ms, before.any (·.name == m.name) = false) ∧ (ms.map (·.name)).Nodup := by
  induction ms generalizing before with
  | nil => exact ⟨nofun, List.nodup_nil⟩
  | cons m rest ih =>
    obtain ⟨fresh, distinct⟩ := h
    obtain ⟨others, nodup⟩ := ih distinct
    refine ⟨?_, ?_⟩
    · intro m' member
      rcases List.mem_cons.mp member with rfl | later
      · exact fresh
      · have := others m' later
        rw [List.any_append, Bool.or_eq_false_iff] at this
        exact this.1
    · refine List.nodup_cons.mpr ⟨fun member => ?_, nodup⟩
      obtain ⟨m', later, same⟩ := List.mem_map.mp member
      have := others m' later
      simp [same] at this

theorem WellFormed.defined {m : Member} (h : WellFormed m) : m.kind ≠ .undefined := by
  rcases h.data with ⟨kind | kind, -⟩ | ⟨kind, -⟩ <;> rw [kind] <;> decide

theorem WellFormed.types {m : Member} (h : WellFormed m) (method : m.kind = .method) :
    MethodTypes m.data := by
  rcases h.data with ⟨kind | kind, -⟩ | ⟨-, types⟩
  · rw [kind] at method; cases method
  · rw [kind] at method; cases method
  · exact types

theorem CutMember.defined {m : Member} (h : CutMember m) : m.kind ≠ .undefined := by
  rcases h.kind with kind | kind <;> rw [kind] <;> decide

theorem CutMember.notMethod {m : Member} (h : CutMember m) : m.kind ≠ .method := by
  rcases h.kind with kind | kind <;> rw [kind] <;> decide

theorem Members.cases {ms : List Member} (h : Members ms) :
    ∀ m ∈ ms, WellFormed m ∨ CutMember m := by
  induction h with
  | nil => exact nofun
  | cut cut => exact fun m member => .inr (List.mem_singleton.mp member ▸ cut)
  | cons wellFormed members ih =>
    exact List.forall_mem_cons.mpr ⟨.inl wellFormed, ih⟩

section Sound
variable {desc : List Char} {stack : Nat} {s s' : Scanner}

theorem readKind_cases {keyword : List Char} {kind : MemberKind}
    (h : readKind keyword = .ok kind) : kind = .type ∧ keyword = "type".toList ∨
      kind = .error ∧ keyword = "error".toList ∨ kind = .method ∧ keyword = "method".toList ∨
      kind = .undefined ∧ keyword = [] := by
  unfold readKind at h
  split at h
  · cases h
    exact .inl ⟨rfl, ‹_›⟩
  · split at h
    · cases h
      exact .inr (.inl ⟨rfl, ‹_›⟩)
    · split at h
      · cases h
        exact .inr (.inr (.inl ⟨rfl, ‹_›⟩))
      · split at h
        · cases h
        · cases h
          exact .inr (.inr (.inr ⟨rfl, by simpa using ‹¬keyword ≠ []›⟩))

theorem readStruct_end {r : TypeDef TypeSpec × Scanner} (here : desc.drop s.pos = []) :
    readStruct desc stack true s ≠ .ok r := by
  intro h
  cases stack with
  | zero => cases h
  | succ stack =>
    obtain ⟨s₁, first, -⟩ := readStruct_eq_ok_iff.mp h
    rw [if_pos rfl, expectRe_end here] at first
    cases first

theorem methodTypes_of_read {t : TypeSpec} (h : readMethodSpec desc stack s = .ok (t, s')) :
    MethodTypes t := by
  obtain ⟨parameters, s₁, s₂, returnValue, first, -, second, rfl⟩ := readMethodSpec_eq_ok_iff.mp h
  exact ⟨parameters, returnValue, rfl, (wellRead desc stack).struct first,
    (wellRead desc stack).struct second⟩

theorem readTypeSpec_end {wasMaybe : Bool} {t : TypeSpec} (here : desc.drop s.pos = [])
    (h : readTypeSpec desc stack wasMaybe s = .ok (t, s')) :
    t = { type := .string "" } ∧ s' = s := by
  cases stack with
  | zero => cases h
  | succ stack =>
    cases readTypeSpec_eq_ok_iff.mp h with
    | maybe token => rw [expectRe_end here] at token; cases token
    | dict token => rw [expectRe_end here] at token; cases token
    | array token => rw [expectRe_end here] at token; cases token
    | struct token => rw [expectRe_end here] at token; cases token
    | name token =>
      rw [expectRe_end here] at token
      cases token
      exact ⟨rfl, rfl⟩

theorem member_of_read {m : Member} (sound : Sound desc s)
    (h : readMember desc stack s = .ok (m, s')) : Sound desc s' ∧
      (m.kind = .undefined ∨ WellFormed m ∨ CutMember m ∧ desc.drop s'.pos = []) := by
  obtain ⟨step⟩ := readMember_eq_ok_iff.mp h
  have sound₂ := (sound.expectRe step.readKeyword).expectRe step.readName
  refine ⟨(carried_sound desc).member h sound, ?_⟩
  have description : Slice m.description := step.description ▸ sound₂.docstring
  have name : Token [memberPattern] m.name.toList ∨
      m.name = "" ∧ desc.drop step.behind.pos = [] := by
    rw [step.name_eq]
    exact (token_of_expectRe token_member step.readName).imp (·.ofList)
      (And.imp_left fun empty => by rw [empty])
  have read := step.data
  by_cases method : m.kind = .method
  · rw [readData, if_pos method] at read
    right
    left
    refine ⟨description, name.resolve_right ?_, .inr ⟨method, methodTypes_of_read read⟩⟩
    rintro ⟨-, ends⟩
    obtain ⟨p, s₁, s₂, r, first, -⟩ := readMethodSpec_eq_ok_iff.mp read
    exact readStruct_end (s := (getDocstring desc step.behind).2) ends first
  · rw [readData, if_neg method] at read
    by_cases undefined : m.kind = .undefined
    · exact .inl undefined
    have kind : m.kind = .type ∨ m.kind = .error := by
      rcases readKind_cases step.kind with h | h | h | h
      · exact .inl h.1
      · exact .inr h.1
      · exact absurd h.1 method
      · exact absurd h.1 undefined
    right
    rcases name with token | ⟨empty, ends⟩
    · rcases (wellRead desc stack).type read with readable | ⟨cut, ends⟩
      · exact .inl ⟨description, token, .inl ⟨kind, readable⟩⟩
      · exact .inr ⟨⟨description, kind, .inl token, cut⟩, ends⟩
    · obtain ⟨data, same⟩ := readTypeSpec_end (s := (getDocstring desc step.behind).2) ends read
      refine .inr ⟨⟨description, kind, .inr empty, by rw [data]⟩, ?_⟩
      rw [same]
      exact ends

theorem readMembers_end {before r : List Member} (here : desc.drop s.pos = [])
    (h : readMembers desc stack before s = .ok r) : r = before := by
  cases stack with
  | zero => cases h
  | succ stack =>
    obtain ⟨m, s', read, next⟩ := readMembers_eq_ok_iff.mp h
    obtain ⟨step⟩ := readMember_eq_ok_iff.mp read
    have keyword := step.readKeyword
    rw [expectRe_end here] at keyword
    obtain ⟨empty, -⟩ := Prod.mk.inj (Except.ok.inj keyword)
    have undefined : m.kind = .undefined := by
      have kind := step.kind
      rw [← empty] at kind
      exact (Except.ok.inj kind).symm
    rwa [if_pos undefined] at next

theorem members_of_read {before r : List Member} (sound : Sound desc s)
    (h : readMembers desc stack before s = .ok r) :
    ∃ ms, r = before ++ ms ∧ Members ms ∧ Distinct before ms := by
  induction stack generalizing before s with
  | zero => cases h
  | succ stack ih =>
    obtain ⟨m, s', read, next⟩ := readMembers_eq_ok_iff.mp h
    obtain ⟨sound', member⟩ := member_of_read sound read
    split at next
    · exact ⟨[], by rw [next, List.append_nil], .nil, trivial⟩
    · obtain ⟨fresh, next⟩ := next
      rcases member.resolve_left ‹_› with wellFormed | ⟨cut, ends⟩
      · obtain ⟨ms, rfl, members, distinct⟩ := ih sound' next
        exact ⟨m :: ms, List.append_assoc .., .cons wellFormed members, fresh, distinct⟩
      · exact ⟨[m], readMembers_end ends next, .cut cut, fresh, trivial⟩

end Sound

namespace VarlinkInterface

def Constructed (i : VarlinkInterface) : Prop :=
  ∃ stack description, construct stack description = .ok i

structure WellFormed (i : VarlinkInterface) : Prop where
  nonempty : i.ifname.toList ≠ []
  name : ∃ after, matched [ifnamePattern] (i.ifname.toList ++ after) = i.ifname.toList.length
  documentation : Slice i.documentation
  some : i.members ≠ []
  members : Members i.members
  distinct : Distinct [] i.members

variable {i : VarlinkInterface}

theorem Constructed.wellFormed (h : i.Constructed) : i.WellFormed := by
  obtain ⟨stack, description, construct⟩ := h
  obtain ⟨s, ifname, s', keyword, name, ifname_eq, documentation, some, read⟩ :=
    construct_eq_ok_iff.mp construct
  have sound := (sound_init.expectRe keyword).expectRe name
  obtain ⟨ms, rfl, members, distinct⟩ := members_of_read sound.takeDocstring read
  obtain ⟨g, rest, here, stretch⟩ := exists_stretch (description.toList.drop s.pos)
  rcases of_expectRe here stretch name with ⟨rfl, rfl, rfl⟩ | ⟨after, -, nonempty, matched_, -⟩
  · have ends : description.toList.drop (s.past g []).pos = [] := drop_past here
    exact absurd (readMembers_end (s := (getDocstring _ (s.past g [])).2) ends read) some
  · rw [← String.toList_ofList (l := ifname), ← ifname_eq] at nonempty matched_
    exact ⟨nonempty, ⟨after, matched_⟩, documentation ▸ sound.docstring, some, members, distinct⟩

theorem findMember_eq_ok_iff (h : i.Constructed) {name : String} {kind : MemberKind}
    (defined : kind ≠ .undefined) {m : Member} :
    i.findMember name kind = .ok m ↔ m ∈ i.members ∧ m.kind = kind ∧ m.name = name := by
  have names := (distinct_names h.wellFormed.distinct).2
  have unique : ∀ a ∈ i.members, ∀ b ∈ i.members, matchesMember name kind a = true →
      matchesMember name kind b = true → a = b := by
    intro a ha b hb pa pb
    simp only [matchesMember, Bool.and_eq_true, beq_iff_eq] at pa pb
    exact List.inj_on_of_nodup_map names ha hb (pa.1.trans pb.1.symm)
  have found := find?_eq_some_iff_of_unique unique (a := m)
  have matches_ : matchesMember name kind m = true ↔ m.name = name ∧ m.kind = kind := by
    simp [matchesMember, defined]
  unfold findMember
  constructor
  · intro ok
    cases f : i.members.find? (matchesMember name kind) with
    | none => simp [f] at ok
    | some m' =>
      simp only [f, Except.ok.injEq] at ok
      subst ok
      obtain ⟨member, holds⟩ := found.mp f
      exact ⟨member, (matches_.mp holds).2, (matches_.mp holds).1⟩
  · rintro ⟨member, kind_, named⟩
    rw [found.mpr ⟨member, matches_.mpr ⟨named, kind_⟩⟩]

end VarlinkInterface

end Varlink
