import Varlink.CommentLines

/-! Where the members of an interface stand in its description, and whose comments their
docstrings hold. -/

namespace Varlink

open Regex Scanner

/-- The scanner goes over the text, stride by stride. -/
inductive Walk (desc : List Char) : Scanner → List Char → Scanner → Prop where
  | nil {s : Scanner} : Walk desc s [] s
  | step {s s₁ s' : Scanner} {g tok text : List Char} (first : Stride desc s g tok s₁)
      (rest : Walk desc s₁ text s') : Walk desc s (g ++ (tok ++ text)) s'

section Walks
variable {desc text text' : List Char} {s s' t : Scanner}

theorem Walk.trans (first : Walk desc s text t) (second : Walk desc t text' s') :
    Walk desc s (text ++ text') s' := by
  induction first with
  | nil => exact second
  | step stride _ ih =>
    rw [List.append_assoc, List.append_assoc]
    exact .step stride (ih second)

theorem Stride.walk {g tok : List Char} (h : Stride desc s g tok s') :
    Walk desc s (g ++ tok) s' := by
  have walk := Walk.step h .nil
  rwa [List.append_nil] at walk

namespace Walk

theorem here (h : Walk desc s text s') : desc.drop s.pos = text ++ desc.drop s'.pos := by
  induction h with
  | nil => rfl
  | step first _ ih => rw [first.here, ih, List.append_assoc, List.append_assoc]

theorem sound (h : Walk desc s text s') (sound : Sound desc s) : Sound desc s' := by
  induction h with
  | nil => exact sound
  | step first _ ih => exact ih (first.sound sound)

theorem le (h : Walk desc s text s') (sound : Sound desc s) :
    s.currentDoc.size ≤ s'.currentDoc.size := by
  induction h with
  | nil => exact Nat.le_refl _
  | step first _ ih => exact Nat.le_trans (first.le sound) (ih (first.sound sound))

theorem kept (h : Walk desc s text s') (none : ¬Commented text) :
    s'.currentDoc = s.currentDoc := by
  induction h with
  | nil => rfl
  | step first _ ih =>
    rw [ih fun rest => none ((rest.right _).right _),
      first.kept fun gap => none (gap.left _)]

theorem grows (h : Walk desc s text s') (sound : Sound desc s) (inside : desc.drop s'.pos ≠ [])
    (hash : '#' ∈ text) : s.currentDoc.size < s'.currentDoc.size := by
  induction h with
  | nil => cases hash
  | @step s s₁ s' g tok text first rest ih =>
    have sound₁ := first.sound sound
    rw [List.mem_append, List.mem_append] at hash
    rcases hash with inGap | inToken | behind
    · have gap : Gap g := by
        have stretch := first.stretch
        generalize nothing : tok ++ desc.drop s₁.pos = after at stretch
        cases stretch with
        | gap gap => exact gap
        | unended =>
          rw [rest.here] at nothing
          simp [inside] at nothing
      exact Nat.lt_of_lt_of_le (first.grows sound (gap.commented inGap)) (rest.le sound₁)
    · exact absurd inToken first.plain
    · exact Nat.lt_of_le_of_lt (first.le sound) (ih sound₁ inside behind)

end Walk

end Walks

section Reading
variable {desc : List Char} {s s' : Scanner} {tok : List Char} {patterns : List (Regex Char)}

theorem stride_of_lexical (lexical : Lexical patterns)
    (h : expectRe desc patterns s = .ok (tok, s')) : ∃ g, Stride desc s g tok s' := by
  refine stride_of_expectRe h ?_
  rcases (spells_of_expectRe lexical h).1 with ⟨rfl, -⟩ | token
  · exact List.not_mem_nil
  · exact token.plain

theorem walk_of_lexical (lexical : Lexical patterns)
    (h : expectRe desc patterns s = .ok (tok, s')) : ∃ text, Walk desc s text s' := by
  obtain ⟨g, stride⟩ := stride_of_lexical lexical h
  exact ⟨_, stride.walk⟩

theorem walk_consumeWhitespace (s : Scanner) :
    ∃ text, Walk desc s text (consumeWhitespace desc s) := by
  obtain ⟨g, rest, here, stretch⟩ := exists_stretch (desc.drop s.pos)
  rw [consumeWhitespace_eq here stretch]
  have behind : desc.drop (s.past g []).pos = rest := drop_past here
  have stride : Stride desc s g [] (s.past g []) :=
    ⟨by rw [behind]; exact here, by rw [behind]; exact stretch, List.not_mem_nil, rfl⟩
  exact ⟨_, stride.walk⟩

structure Walks (desc : List Char) (stack : Nat) : Prop where
  struct : ∀ {bracket s type s'}, readStruct desc stack bracket s = .ok (type, s') →
    ∃ text, Walk desc s text s'
  fields : ∀ {fields s type s'}, readFields desc stack fields s = .ok (type, s') →
    ∃ text, Walk desc s text s'
  type : ∀ {wasMaybe s t s'}, readTypeSpec desc stack wasMaybe s = .ok (t, s') →
    ∃ text, Walk desc s text s'

theorem walks (desc : List Char) (stack : Nat) : Walks desc stack := by
  have join {s t u : Scanner} (first : ∃ text, Walk desc s text t)
      (second : ∃ text, Walk desc t text u) : ∃ text, Walk desc s text u := by
    obtain ⟨text, first⟩ := first
    obtain ⟨text', second⟩ := second
    exact ⟨_, first.trans second⟩
  induction stack with
  | zero => exact ⟨nofun, nofun, nofun⟩
  | succ stack ih =>
    refine ⟨fun {bracket s _ _} h => ?_, fun {_ s _ _} h => ?_, fun h => ?_⟩
    · obtain ⟨s₁, first, rest⟩ := readStruct_eq_ok_iff.mp h
      have opens : ∃ text, Walk desc s text s₁ := by
        cases bracket with
        | true => exact walk_of_lexical lexical_keyword first
        | false => exact ⟨[], first ▸ .nil⟩
      rcases rest with ⟨tok, s₂, closed, same⟩ | ⟨-, read⟩
      · cases same
        exact join opens (walk_of_lexical lexical_closingBracket closed)
      · exact join opens (join (walk_consumeWhitespace s₁) (ih.fields read))
    · obtain ⟨fields', sep, s₁, round, next⟩ := readFields_eq_ok_iff.mp h
      have through : ∃ text, Walk desc s text s₁ := by
        cases round with
        | field _ readName colon readType separator =>
          exact join (walk_of_lexical lexical_identifier readName)
            (join (walk_of_lexical lexical_keyword colon)
              (join (ih.type readType) (walk_of_lexical lexical_keyword separator)))
        | value _ readName separator =>
          exact join (walk_of_lexical lexical_identifier readName)
            (walk_of_lexical lexical_keyword separator)
      split at next
      · cases next
        exact through
      · exact join through (ih.fields next)
    · cases readTypeSpec_eq_ok_iff.mp h with
      | maybe token _ rest => exact join (walk_of_lexical lexical_type token) (ih.type rest)
      | dict token rest => exact join (walk_of_lexical lexical_type token) (ih.type rest)
      | array token rest => exact join (walk_of_lexical lexical_type token) (ih.type rest)
      | struct token rest => exact join (walk_of_lexical lexical_type token) (ih.struct rest)
      | name token => exact walk_of_lexical lexical_type token

theorem walk_of_readData {kind : MemberKind} {stack : Nat} {t : TypeSpec}
    (h : readData desc kind stack s = .ok (t, s')) : ∃ text, Walk desc s text s' := by
  unfold readData at h
  split at h
  · obtain ⟨p, s₁, s₂, r, first, arrow, second, -⟩ := readMethodSpec_eq_ok_iff.mp h
    obtain ⟨_, parameters⟩ := (walks desc stack).struct first
    obtain ⟨_, between⟩ := walk_of_lexical lexical_keyword arrow
    obtain ⟨_, returnValue⟩ := (walks desc stack).struct second
    exact ⟨_, parameters.trans (between.trans returnValue)⟩
  · exact (walks desc stack).type h

end Reading

/-! ### Where the members stand -/

/-- The text of a member, cut where the scanner stands behind its keyword, its name and its
type. -/
structure Part where
  before : List Char
  keyword : List Char
  between : List Char
  name : List Char
  body : List Char

def Part.text (p : Part) : List Char :=
  p.before ++ (p.keyword ++ (p.between ++ (p.name ++ p.body)))

inductive Part.Of (desc : List Char) (s : Scanner) (m : Member) (p : Part) (s' : Scanner) :
    Prop where
  | read {stack : Nat} (step : MemberStep desc stack s m s') (defined : m.kind ≠ .undefined)
      (keyword : p.keyword = step.keyword) (name : p.name = step.name)
      (atKeyword : desc.drop s.pos = p.before ++ (p.keyword ++ desc.drop step.atName.pos))
      (atName : desc.drop step.atName.pos = p.between ++ (p.name ++ desc.drop step.behind.pos))
      (atBody : desc.drop step.behind.pos = p.body ++ desc.drop s'.pos) : Part.Of desc s m p s'

/-- The members are read over these parts of the text, one behind the other. -/
inductive Lays (desc : List Char) : Scanner → List Member → List Part → List Char → Prop where
  | nil {s : Scanner} : Lays desc s [] [] (desc.drop s.pos)
  | cons {s s' : Scanner} {m : Member} {p : Part} {ms : List Member} {ps : List Part}
      {rest : List Char} (part : p.Of desc s m s') (others : Lays desc s' ms ps rest) :
      Lays desc s (m :: ms) (p :: ps) rest

/-- The text of an interface, cut into its parts. -/
structure Layout where
  before : List Char
  between : List Char
  name : List Char
  parts : List Part
  rest : List Char

namespace Layout

def text (l : Layout) : List Char :=
  l.before ++ ("interface".toList ++
    (l.between ++ (l.name ++ (l.parts.flatMap (·.text) ++ l.rest))))

def Of (desc : List Char) (i : VarlinkInterface) (l : Layout) : Prop :=
  ∃ s s', expectRe desc [keywordPattern] {} = .ok ("interface".toList, s) ∧
    expectRe desc [ifnamePattern] s = .ok (l.name, s') ∧
    i.documentation = (getDocstring desc s').1 ∧
    desc = l.before ++ ("interface".toList ++ desc.drop s.pos) ∧
    desc.drop s.pos = l.between ++ (l.name ++ desc.drop s'.pos) ∧
    Lays desc (getDocstring desc s').2 i.members l.parts l.rest

/-- Every docstring is the lines of comment in front of the keyword of its declaration. -/
def Documented (l : Layout) (i : VarlinkInterface) : Prop :=
  CommentsOf l.before i.documentation.toList ∧
    List.Forall₂ (fun p m => CommentsOf p.before m.description.toList) l.parts i.members

/-- No comment stands between a keyword and its name, nor in the body of a member that
another one follows. -/
def Undisturbed (l : Layout) : Prop :=
  ¬Commented l.between ∧ (∀ p ∈ l.parts, ¬Commented p.between) ∧
    ∀ p ∈ l.parts.dropLast, ¬Commented p.body

end Layout

section Docstrings
variable {desc : List Char} {s s₁ s' : Scanner}

theorem length_getDocstring (sound : Sound desc s) :
    (getDocstring desc s).1.toList.length = s.currentDoc.size := by
  rw [getDocstring, String.toList_ofList, length_text sound]

theorem commentsOf_iff {g tok g' tok' : List Char} (first : Stride desc s g tok s₁)
    (second : Stride desc s₁ g' tok' s') (sound : Sound desc s) (empty : s.currentDoc.size = 0) :
    CommentsOf g (getDocstring desc s').1.toList ↔ ¬Commented g' := by
  have own := first.comments empty
  have sound₁ := first.sound sound
  have length := length_getDocstring (second.sound sound₁)
  rw [getDocstring, String.toList_ofList] at *
  constructor
  · intro comments commented
    rw [comments.unique own, length_text sound₁] at length
    have := second.grows sound₁ commented
    omega
  · intro none
    rwa [second.kept none]

theorem not_commentsOf {g tok g' tok' : List Char} (first : Stride desc s g tok s₁)
    (second : Stride desc s₁ g' tok' s') (sound : Sound desc s) (some : s.currentDoc.size ≠ 0) :
    ¬CommentsOf g (getDocstring desc s').1.toList := by
  intro comments
  have sound₁ := first.sound sound
  have longer := first.longer sound some comments
  have le := second.le sound₁
  have length := length_getDocstring (second.sound sound₁)
  omega

end Docstrings

section Layouts
variable {desc text g tok : List Char} {s s' : Scanner} {m : Member} {p : Part}
variable {ms : List Member} {ps : List Part} {rest : List Char}

theorem Stride.of_here {g' : List Char} (h : Stride desc s g tok s')
    (here : desc.drop s.pos = g' ++ (tok ++ desc.drop s'.pos)) : Stride desc s g' tok s' := by
  obtain rfl := List.append_cancel_right (h.here.symm.trans here)
  exact h

theorem Walk.of_here {text' : List Char} (h : Walk desc s text s')
    (here : desc.drop s.pos = text' ++ desc.drop s'.pos) : Walk desc s text' s' := by
  obtain rfl := List.append_cancel_right (h.here.symm.trans here)
  exact h

theorem keyword_ne_nil (defined : m.kind ≠ .undefined) : m.keyword ≠ [] := by
  cases kind : m.kind with
  | undefined => exact absurd kind defined
  | type => rw [Member.keyword, kind]; decide
  | error => rw [Member.keyword, kind]; decide
  | method => rw [Member.keyword, kind]; decide

structure Part.Ways (desc : List Char) (s : Scanner) (m : Member) (p : Part) (s' : Scanner) where
  atName : Scanner
  behind : Scanner
  keyword : Stride desc s p.before p.keyword atName
  name : Stride desc atName p.between p.name behind
  body : Walk desc (getDocstring desc behind).2 p.body s'
  description : m.description = (getDocstring desc behind).1
  some : p.keyword ≠ []

theorem Part.Of.ways (h : p.Of desc s m s') : Nonempty (p.Ways desc s m s') := by
  obtain ⟨step, defined, keyword, name, atKeyword, atName, atBody⟩ := h
  obtain ⟨_, first⟩ := stride_of_lexical lexical_keyword step.readKeyword
  obtain ⟨_, second⟩ := stride_of_lexical lexical_member step.readName
  obtain ⟨_, third⟩ := walk_of_readData step.data
  rw [← keyword] at first
  rw [← name] at second
  have some : p.keyword ≠ [] := by
    rw [keyword, keyword_of_readKind step.kind]
    exact keyword_ne_nil defined
  exact ⟨step.atName, step.behind, first.of_here atKeyword, second.of_here atName,
    third.of_here atBody, step.description, some⟩

namespace Part.Ways

theorem sound (w : p.Ways desc s m s') (sound : Sound desc s) : Sound desc s' :=
  w.body.sound (w.name.sound (w.keyword.sound sound)).takeDocstring

theorem here (w : p.Ways desc s m s') : desc.drop s.pos = p.text ++ desc.drop s'.pos := by
  have body : desc.drop w.behind.pos = p.body ++ desc.drop s'.pos := w.body.here
  rw [w.keyword.here, w.name.here, body, Part.text]
  simp only [List.append_assoc]

theorem inside (w : p.Ways desc s m s') : desc.drop s.pos ≠ [] := by
  rw [w.keyword.here]
  simp [w.some]

theorem commentsOf_iff (w : p.Ways desc s m s') (sound : Sound desc s)
    (empty : s.currentDoc.size = 0) :
    CommentsOf p.before m.description.toList ↔ ¬Commented p.between := by
  rw [w.description]
  exact Varlink.commentsOf_iff w.keyword w.name sound empty

theorem not_commentsOf (w : p.Ways desc s m s') (sound : Sound desc s)
    (some : s.currentDoc.size ≠ 0) :
    ¬CommentsOf p.before m.description.toList := by
  rw [w.description]
  exact Varlink.not_commentsOf w.keyword w.name sound some

theorem empty_iff (w : p.Ways desc s m s') (sound : Sound desc s) (more : desc.drop s'.pos ≠ []) :
    s'.currentDoc.size = 0 ↔ ¬Commented p.body := by
  constructor
  · intro empty commented
    have grows := w.body.grows (w.name.sound (w.keyword.sound sound)).takeDocstring more
      commented.hash
    omega
  · intro none
    rw [w.body.kept none]
    rfl

end Part.Ways

theorem Lays.here (h : Lays desc s ms ps rest) :
    desc.drop s.pos = ps.flatMap (·.text) ++ rest := by
  induction h with
  | nil => rfl
  | cons part _ ih =>
    obtain ⟨ways⟩ := part.ways
    rw [ways.here, ih, List.flatMap_cons, List.append_assoc]

theorem Lays.documented_iff (h : Lays desc s ms ps rest) (sound : Sound desc s)
    (empty : s.currentDoc.size = 0) :
    List.Forall₂ (fun p m => CommentsOf p.before m.description.toList) ps ms ↔
      (∀ p ∈ ps, ¬Commented p.between) ∧ ∀ p ∈ ps.dropLast, ¬Commented p.body := by
  induction h with
  | nil => exact ⟨fun _ => ⟨nofun, nofun⟩, fun _ => .nil⟩
  | @cons s s' m p ms ps rest part others ih =>
    obtain ⟨ways⟩ := part.ways
    have own := ways.commentsOf_iff sound empty
    have sound' := ways.sound sound
    rw [List.forall₂_cons, own, List.forall_mem_cons]
    cases others with
    | nil => simp
    | @cons _ s'' m' p' ms' ps' _ part' others' =>
      obtain ⟨ways'⟩ := part'.ways
      have kept := ways.empty_iff sound ways'.inside
      rw [List.dropLast_cons_cons, List.forall_mem_cons (l := (p' :: ps').dropLast)]
      by_cases commented : Commented p.body
      · have foreign := ways'.not_commentsOf sound' (mt kept.mp (not_not.mpr commented))
        constructor
        · rintro ⟨-, documented⟩
          exact absurd (List.forall₂_cons.mp documented).1 foreign
        · rintro ⟨-, plain, -⟩
          exact absurd commented plain
      · rw [ih sound' (kept.mpr commented)]
        exact ⟨fun ⟨first, others, bodies⟩ => ⟨⟨first, others⟩, commented, bodies⟩,
          fun ⟨⟨first, others⟩, _, bodies⟩ => ⟨first, others, bodies⟩⟩

theorem exists_lays {stack : Nat} {before r : List Member}
    (h : readMembers desc stack before s = .ok r) :
    ∃ ms ps rest, r = before ++ ms ∧ Lays desc s ms ps rest := by
  induction stack generalizing before s with
  | zero => cases h
  | succ stack ih =>
    obtain ⟨m, s', read, next⟩ := readMembers_eq_ok_iff.mp h
    split at next
    · exact ⟨[], [], _, by rw [next, List.append_nil], .nil⟩
    · rename_i defined
      obtain ⟨step⟩ := readMember_eq_ok_iff.mp read
      obtain ⟨before_, first⟩ := stride_of_lexical lexical_keyword step.readKeyword
      obtain ⟨between, second⟩ := stride_of_lexical lexical_member step.readName
      obtain ⟨body, third⟩ := walk_of_readData step.data
      obtain ⟨ms, ps, rest, same, others⟩ := ih next.2
      exact ⟨m :: ms, ⟨before_, step.keyword, between, step.name, body⟩ :: ps, rest,
        by rw [same, List.append_assoc]; rfl,
        .cons (.read step defined rfl rfl first.here second.here third.here) others⟩

theorem stride_of_ifname {name : List Char}
    (h : expectRe desc [ifnamePattern] s = .ok (name, s')) : ∃ g, Stride desc s g name s' := by
  refine stride_of_expectRe h ?_
  rcases expectRe_inv h with ⟨rfl, -⟩ | ⟨-, g, -, -, found⟩
  · exact List.not_mem_nil
  · exact fun hash => clean_ifname found '#' hash List.mem_cons_self

end Layouts

namespace VarlinkInterface
variable {stack : Nat} {description : String} {i : VarlinkInterface}

theorem exists_layout (accepted : construct stack description = .ok i) :
    ∃ l : Layout, l.Of description.toList i := by
  obtain ⟨s, name, s', keyword, readName, -, documentation, -, read⟩ :=
    construct_eq_ok_iff.mp accepted
  obtain ⟨before, first⟩ := stride_of_lexical lexical_keyword keyword
  obtain ⟨between, second⟩ := stride_of_ifname readName
  obtain ⟨ms, ps, rest, same, lays⟩ := exists_lays read
  rw [List.nil_append] at same
  exact ⟨⟨before, between, name, ps, rest⟩, s, s', keyword, readName, documentation, first.here,
    second.here, same ▸ lays⟩

/-- The docstrings of an accepted description are the comments in front of the declarations,
unless a comment stands inside of one. -/
theorem documented_iff_undisturbed (accepted : construct stack description = .ok i) :
    (∃ l : Layout, l.Of description.toList i) ∧ ∀ l : Layout, l.Of description.toList i →
      l.text = description.toList ∧ (l.Documented i ↔ l.Undisturbed) := by
  refine ⟨exists_layout accepted, fun l of => ?_⟩
  obtain ⟨s, s', keyword, readName, documentation, atKeyword, atName, lays⟩ := of
  obtain ⟨_, first⟩ := stride_of_lexical lexical_keyword keyword
  obtain ⟨_, second⟩ := stride_of_ifname readName
  have first := first.of_here atKeyword
  have second := second.of_here atName
  have sound : Sound description.toList s' := second.sound (first.sound sound_init)
  constructor
  · have behind : description.toList.drop s'.pos = _ := lays.here
    rw [Layout.text, ← behind, ← atName, ← atKeyword]
  · rw [Layout.Documented, documentation, commentsOf_iff first second sound_init rfl,
      lays.documented_iff sound.takeDocstring rfl]
    rfl

def commentedText : String :=
  "# all\ninterface a.b\n# one\ntype T(x:int)\n# two\n# more\nerror E()"

def commentedInterface : VarlinkInterface :=
  ⟨"a.b", "# all\n", [
    ⟨.type, "T", "# one\n", { type := .struct [("x", { type := .string "int" })] }⟩,
    ⟨.error, "E", "# two\n# more\n", { type := .struct [] }⟩]⟩

def commentedLayout : Layout where
  before := "# all\n".toList
  between := [' ']
  name := "a.b".toList
  parts := [⟨"\n# one\n".toList, "type".toList, [' '], ['T'], "(x:int)".toList⟩,
    ⟨"\n# two\n# more\n".toList, "error".toList, [' '], ['E'], "()".toList⟩]
  rest := []

def typeStep : MemberStep commentedText.toList 5 ⟨19, {}⟩
    (commentedInterface.members.head (by decide)) ⟨39, {}⟩ :=
  ⟨_, _, rfl, rfl, _, _, rfl, rfl, rfl, rfl⟩

def errorStep : MemberStep commentedText.toList 5 ⟨39, {}⟩
    (commentedInterface.members.getLast (by decide)) ⟨62, {}⟩ :=
  ⟨_, _, rfl, rfl, _, _, rfl, rfl, rfl, rfl⟩

theorem commentedLayout_of : commentedLayout.Of commentedText.toList commentedInterface :=
  ⟨⟨15, 0, 6⟩, ⟨19, 0, 6⟩, rfl, rfl, rfl, rfl, rfl,
    .cons (.read typeStep (by decide) rfl rfl rfl rfl rfl)
      (.cons (.read errorStep (by decide) rfl rfl rfl rfl rfl) .nil)⟩

theorem documented_iff_undisturbed_commented :
    commentedLayout.text = commentedText.toList ∧
      commentedLayout.Documented commentedInterface := by
  have accepted : construct 5 commentedText = .ok commentedInterface := rfl
  obtain ⟨text, documented⟩ :=
    (documented_iff_undisturbed accepted).2 commentedLayout commentedLayout_of
  have plain {text : List Char} (none : '#' ∉ text) : ¬Commented text :=
    fun commented => none commented.hash
  refine ⟨text, documented.mpr ⟨plain (by decide), ?_, ?_⟩⟩
  · intro p member
    rcases List.mem_pair.mp member with rfl | rfl <;> exact plain (by decide)
  · intro p member
    obtain rfl := List.mem_singleton.mp member
    exact plain (by decide)

/-- What is read from a method with a comment in its body, and a type with one in front. -/
def heldOver : VarlinkInterface :=
  ⟨"a.b", "", [⟨.method, "M", "", { type := .struct [("parameters", { type := .struct [] }),
      ("return_value", { type := .struct [] })] }⟩,
    ⟨.type, "T", "#1\n)#2\n", { type := .string "x" }⟩]⟩

/-- The description of the type begins in the method, and has its bracket. -/
theorem comment_in_body_held_over :
    construct 5 "interface a.b method M()->(#1\n)#2\ntype T x" = .ok heldOver ∧
      ∀ l : Layout, ¬l.Documented heldOver := by
  refine ⟨rfl, ?_⟩
  rintro l ⟨-, documented⟩
  obtain ⟨-, _, -, documented, -⟩ := List.forall₂_cons_right_iff.mp documented
  obtain ⟨_, _, comments, -⟩ := List.forall₂_cons_right_iff.mp documented
  have split : "#1\n)#2\n".toList = ['#', '1'] ++ '\n' :: ')' :: ['#', '2', '\n'] := by decide
  exact absurd (comments.gap.behind_newline split) (by decide)

end VarlinkInterface

end Varlink
