import Varlink.MemberText
import Varlink.MixedDocs

/-! An interface that was constructed from a description, and the text that it prints
as. The text is read as the same interface if no comments run on through other tokens
and no member's own type has a flag, and only then. -/

namespace Varlink

open Regex Scanner

namespace Member

/-- The text of the member tells all of it: only whitespace and comments describe it, and
its own type has no flags. -/
structure Printable (m : Member) : Prop where
  description : Gap m.description.toList
  maybeType : m.data.maybeType = false
  dictType : m.data.dictType = false
  arrayType : m.data.arrayType = false

theorem Printable.printed {m : Member} (h : m.Printable) : m.printed = m := by
  obtain ⟨kind, name, description, type, maybe, dict, array⟩ := m
  obtain ⟨-, rfl, rfl, rfl⟩ := h
  rfl

theorem printable_of_printed {m : Member} (pure : Gap m.description.toList)
    (same : m.printed = m) : m.Printable := by
  rw [← same]
  exact ⟨pure, rfl, rfl, rfl⟩

end Member

section Impure
variable {desc p tail : List Char} {c : Char} {pattern : Regex Char} {s s₁ s₂ : Scanner}
variable {tok name : List Char} {d : String}

theorem gap_of_kept (description : Slice d) (newlines : ∀ x ∈ p, x = '\n')
    (empty : s.currentDoc.size = 0) (here : desc.drop s.pos = p ++ (d.toList ++ c :: tail))
    (stops : c ∉ '#' :: blanks) (none : matched [pattern] (c :: tail) = 0)
    (readKeyword : expectRe desc [keywordPattern] s = .ok (tok, s₁)) (noLine : '\n' ∉ tok)
    (readName : expectRe desc [pattern] s₁ = .ok (name, s₂))
    (kept : d = (getDocstring desc s₂).1) : Gap d.toList := by
  rcases description with rfl | framed
  · exact .nil
  · by_contra mixed
    refine text_ne_of_mixed framed mixed newlines empty here stops none readKeyword noLine
      readName ?_
    rw [kept, getDocstring, String.toList_ofList]

end Impure

section Members
variable {desc after p : List Char} {stack : Nat} {s s' : Scanner}

theorem keyword_head {m : Member} (defined : m.kind ≠ .undefined) :
    ∃ c tail, m.keyword = c :: tail ∧ c ∉ '#' :: blanks ∧ c.isUpper = false := by
  cases h : m.kind with
  | undefined => exact absurd h defined
  | type => exact ⟨'t', "ype".toList, by rw [Member.keyword, h]; decide, by decide, by decide⟩
  | error => exact ⟨'e', "rror".toList, by rw [Member.keyword, h]; decide, by decide, by decide⟩
  | method => exact ⟨'m', "ethod".toList, by rw [Member.keyword, h]; decide, by decide, by decide⟩

theorem gap_of_readMember {m : Member} (defined : m.kind ≠ .undefined)
    (types : m.kind = .method → MethodTypes m.data) (description : Slice m.description)
    (newlines : ∀ c ∈ p, c = '\n') (empty : s.currentDoc.size = 0)
    (here : desc.drop s.pos = p ++ (m.toText ++ after))
    (read : readMember desc stack s = .ok (m, s')) : Gap m.description.toList := by
  obtain ⟨step⟩ := readMember_eq_ok_iff.mp read
  obtain ⟨c, tail, keyword, stops, other⟩ := keyword_head defined
  rw [Member.toText_eq defined types, keyword, List.append_assoc, List.append_assoc] at here
  have noLine : '\n' ∉ step.keyword := by
    rcases readKind_cases step.kind with ⟨-, eq⟩ | ⟨-, eq⟩ | ⟨-, eq⟩ | ⟨undefined, -⟩
    · rw [eq]; decide
    · rw [eq]; decide
    · rw [eq]; decide
    · exact absurd undefined defined
  exact gap_of_kept description newlines empty here stops (matched_member_other other)
    step.readKeyword noLine step.readName step.description

def membersText (ms : List Member) : List Char := ms.flatMap fun m => '\n' :: m.toText

theorem membersText_cons {m : Member} {ms : List Member} :
    '\n' :: membersText (m :: ms) = ['\n', '\n'] ++ (m.toText ++ membersText ms) := rfl

theorem readMembers_printed {before ms : List Member} (members : Members ms)
    (printable : ∀ m ∈ ms, m.Printable) (distinct : Distinct before ms)
    (empty : s.currentDoc.size = 0) (here : desc.drop s.pos = '\n' :: membersText ms) :
    ∃ stack, readMembers desc stack before s = .ok (before ++ ms) := by
  induction members generalizing before s with
  | nil =>
    refine ⟨2, ?_⟩
    rw [List.append_nil]
    exact readMembers_blank (.gap (.blank (by decide) .nil) stops_nil) here
  | @cut m cut =>
    have own := printable m List.mem_cons_self
    obtain ⟨k, s', read, ends⟩ := readMember_cut cut own.description
      (p := ['\n', '\n']) (by simp) empty (by rw [here, membersText_cons]; simp [membersText])
    rw [own.printed] at read
    refine ⟨max k 2 + 1, readMembers_eq_ok_iff.mpr ⟨m, s', readMember_mono (by omega) read, ?_⟩⟩
    rw [if_neg cut.defined]
    exact ⟨distinct.1, readMembers_mono (by omega) (readMembers_blank (.gap .nil stops_nil) ends)⟩
  | @cons m rest wellFormed members ih =>
    have own := printable m List.mem_cons_self
    obtain ⟨k, s', read, next, empty'⟩ := readMember_printed wellFormed own.description
      (p := ['\n', '\n']) (by simp) empty (by rw [here, membersText_cons])
    rw [own.printed] at read
    obtain ⟨l, others⟩ := ih (fun m member => printable m (List.mem_cons_of_mem _ member))
      distinct.2 empty' next
    refine ⟨max k l + 1, readMembers_eq_ok_iff.mpr ⟨m, s', readMember_mono (by omega) read, ?_⟩⟩
    rw [if_neg wellFormed.defined]
    refine ⟨distinct.1, readMembers_mono (k := l) (by omega) ?_⟩
    rw [others, List.append_assoc]
    rfl

theorem readMember_of_readMembers {before rest : List Member} {m : Member}
    (h : readMembers desc stack before s = .ok (before ++ m :: rest)) : ∃ k s',
      readMember desc k s = .ok (m, s') ∧
        readMembers desc k (before ++ [m]) s' = .ok ((before ++ [m]) ++ rest) := by
  cases stack with
  | zero => cases h
  | succ k =>
    obtain ⟨m', s', read, next⟩ := readMembers_eq_ok_iff.mp h
    split at next
    · simp at next
    · have same : m' = m := by
        have := (List.prefix_append_right_inj before).mp (prefix_of_readMembers next.2)
        simpa using this
      rw [same] at read next
      exact ⟨k, s', read, by rw [next.2, List.append_assoc]; rfl⟩

theorem printable_of_readMembers {before ms : List Member} (members : Members ms)
    (empty : s.currentDoc.size = 0) (here : desc.drop s.pos = '\n' :: membersText ms)
    (h : readMembers desc stack before s = .ok (before ++ ms)) : ∀ m ∈ ms, m.Printable := by
  induction members generalizing before s stack with
  | nil => simp
  | @cut m cut =>
    obtain ⟨k, s', read, -⟩ := readMember_of_readMembers h
    rw [membersText_cons] at here
    have pure := gap_of_readMember cut.defined (fun method => absurd method cut.notMethod)
      cut.description (by simp) empty here read
    obtain ⟨l, t, again, -⟩ := readMember_cut cut pure (p := ['\n', '\n']) (by simp) empty
      (by rw [here]; simp [membersText])
    have both := (readMember_mono (Nat.le_max_left k l) read).symm.trans
      (readMember_mono (Nat.le_max_right k l) again)
    obtain ⟨same, -⟩ := Prod.mk.inj (Except.ok.inj both)
    intro m' member
    rw [List.mem_singleton.mp member]
    exact Member.printable_of_printed pure same.symm
  | @cons m rest wellFormed members ih =>
    obtain ⟨k, s', read, others⟩ := readMember_of_readMembers h
    rw [membersText_cons] at here
    have pure := gap_of_readMember wellFormed.defined wellFormed.types wellFormed.description
      (by simp) empty here read
    obtain ⟨l, t, again, next, empty'⟩ := readMember_printed wellFormed pure (by simp) empty here
    have both := (readMember_mono (Nat.le_max_left k l) read).symm.trans
      (readMember_mono (Nat.le_max_right k l) again)
    obtain ⟨same, rfl⟩ := Prod.mk.inj (Except.ok.inj both)
    intro m' member
    rcases List.mem_cons.mp member with rfl | member
    · exact Member.printable_of_printed pure same.symm
    · exact ih empty' next others m' member

end Members

namespace VarlinkInterface

/-- The constructor makes the same interface of the text that it prints as. -/
def RoundTrips (i : VarlinkInterface) : Prop :=
  ∃ stack, construct stack (String.ofList i.toText) = .ok i

structure Printable (i : VarlinkInterface) : Prop where
  documentation : Gap i.documentation.toList
  members : ∀ m ∈ i.members, m.Printable

variable {i : VarlinkInterface}

theorem toText_eq : i.toText = i.documentation.toList ++ ("interface".toList ++
    (' ' :: i.ifname.toList ++ ('\n' :: membersText i.members))) := by
  have keyword : "interface ".toList = "interface".toList ++ [' '] := by decide
  simp only [toText, membersText, keyword, List.append_assoc, List.cons_append, List.nil_append]

theorem roundTrips_of_printable (h : i.WellFormed) (printable : i.Printable) : i.RoundTrips := by
  obtain ⟨after, name⟩ := h.name
  obtain ⟨s₁, keyword, atName, kept⟩ := readKeyword_printed (s := {}) (p := [])
    (token_keyword (x := []) (by decide) (by decide)) h.documentation printable.documentation
    (boundary_cons.mpr (by decide)) nofun rfl toText_eq
  have ifname := expectRe_matched (g := [' ']) atName (.blank (by decide) .nil) h.nonempty
    (stops_ifname name) (matched_ifname (by decide) h.nonempty name)
  obtain ⟨stack, members⟩ := readMembers_printed h.members printable.members h.distinct
    (s := (getDocstring i.toText (s₁.past [' '] i.ifname.toList)).2) rfl
    (drop_past (g := [' ']) atName)
  refine ⟨stack, construct_eq_ok_iff.mpr ?_⟩
  rw [String.toList_ofList]
  exact ⟨s₁, i.ifname.toList, _, keyword, ifname, String.ofList_toList.symm,
    (docstring_past (by decide) kept).symm, h.some, members⟩

theorem printable_of_roundTrips (h : i.WellFormed) (roundTrips : i.RoundTrips) : i.Printable := by
  obtain ⟨stack, construct⟩ := roundTrips
  obtain ⟨s₁, ifname, s₂, keyword, readName, ifname_eq, kept, -, read⟩ :=
    construct_eq_ok_iff.mp construct
  rw [String.toList_ofList] at keyword readName kept read
  have start : i.toText.drop (Scanner.mk 0 {}).pos = [] ++ (i.documentation.toList ++
      'i' :: ("nterface".toList ++ (' ' :: i.ifname.toList ++ ('\n' :: membersText i.members)))) :=
    toText_eq
  have documentation := gap_of_kept h.documentation (p := []) nofun rfl start (by decide)
    (matched_ifname_interface (by decide) _) keyword (by decide) readName kept
  refine ⟨documentation, ?_⟩
  -- as far as the name, the text is read as it was printed
  obtain ⟨after, name⟩ := h.name
  obtain ⟨t, keyword', atName, -⟩ := readKeyword_printed (s := {}) (p := [])
    (token_keyword (x := []) (by decide) (by decide)) h.documentation documentation
    (boundary_cons.mpr (by decide)) nofun rfl toText_eq
  obtain ⟨-, rfl⟩ := Prod.mk.inj (Except.ok.inj (keyword.symm.trans keyword'))
  have readName' := expectRe_matched (g := [' ']) atName (.blank (by decide) .nil) h.nonempty
    (stops_ifname name) (matched_ifname (by decide) h.nonempty name)
  obtain ⟨-, rfl⟩ := Prod.mk.inj (Except.ok.inj (readName.symm.trans readName'))
  exact printable_of_readMembers h.members
    (s := (getDocstring i.toText (s₁.past [' '] i.ifname.toList)).2) rfl
    (drop_past (g := [' ']) atName) read

theorem roundTrips_iff_printable (constructed : i.Constructed) : i.RoundTrips ↔ i.Printable :=
  ⟨printable_of_roundTrips constructed.wellFormed, roundTrips_of_printable constructed.wellFormed⟩

def nameService (documentation : String) : VarlinkInterface where
  ifname := "a.b"
  documentation
  members := [{
    kind := .type
    name := "Name"
    description := "# Any\n"
    data := { type := .string "string" } }]

theorem constructed_nameService : (nameService "# Names\n").Constructed :=
  ⟨3, "# Names\ninterface a.b\n# Any\ntype Name string", rfl⟩

theorem roundTrips_nameService :
    (nameService "# Names\n").Constructed ∧ (nameService "# Names\n").RoundTrips := by
  refine ⟨constructed_nameService, (roundTrips_iff_printable constructed_nameService).mpr ?_⟩
  have comment (body : List Char) (line : '\n' ∉ body) : Gap ('#' :: (body ++ ['\n'])) :=
    .comment line .nil
  refine ⟨comment " Names".toList (by decide), fun m member => ?_⟩
  rw [List.mem_singleton.mp member]
  exact ⟨comment " Any".toList (by decide), rfl, rfl, rfl⟩

/-- The keyword stands in the documentation, and is read before the keyword that is printed. -/
theorem comment_before_name_unreadable :
    construct 3 "# Names\ninterface\n# Name\na.b\n# Any\ntype Name string" =
      .ok (nameService "# Names\ninterface\n# Name\n") ∧
    ∀ stack, construct stack (String.ofList (nameService "# Names\ninterface\n# Name\n").toText) =
      .error (.thrown (.standard .runtimeError "interface error interface a.b\n\n# Any")) :=
  ⟨rfl, fun _ => rfl⟩

end VarlinkInterface

end Varlink
