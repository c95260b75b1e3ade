import Varlink.MemberScan

/-! The constructor of an interface ends for every text. A round of a loop and a nested call
are each behind a token; where the text has ended all tokens are empty, and there is none. -/

namespace Varlink

def Concludes {α : Type} (x : Except Stop α) : Prop :=
  ∀ stop, x = .error stop → ∃ e, stop = .thrown e

namespace Concludes

variable {α β : Type}

theorem ok (a : α) : Concludes (.ok a) := nofun

theorem thrown (e : Exn) : Concludes (.error (.thrown e) : Except Stop α) := by
  rintro _ ⟨⟩
  exact ⟨e, rfl⟩

theorem bind {x : Except Stop α} {f : α → Except Stop β} (first : Concludes x)
    (next : ∀ a, x = .ok a → Concludes (f a)) : Concludes (x >>= f) := by
  intro stop failed
  rcases of_bind_eq_error failed with failed | ⟨a, returned, failed⟩
  · exact first stop failed
  · exact next a returned stop failed

theorem ite {c : Prop} [Decidable c] {x y : Except Stop α} (yes : c → Concludes x)
    (no : ¬c → Concludes y) : Concludes (if c then x else y) := by
  split
  next h => exact yes h
  next h => exact no h

end Concludes

/-- The `while` loop over the comments of a stretch of whitespace, run to its end. -/
inductive DocLoop : List Char → Nat → View → View → Prop where
  | done {s : List Char} {data : Nat} {doc : View} (none : docstring.search s = none) :
    DocLoop s data doc doc
  | next {s : List Char} {data i j : Nat} {doc last : View}
    (found : docstring.search s = some (i, j))
    (rest : DocLoop (s.drop (j - i)) (data + (j - i))
      (if doc.size = 0 then ⟨data + i, j - i⟩
        else ⟨doc.data, (data + i - doc.data) + (j - i)⟩) last) :
    DocLoop s data doc last

theorem docLoop_collectDoc {s : List Char} {n : Nat} (enough : s.length ≤ n) (data : Nat)
    (doc : View) : DocLoop s data doc (collectDoc n s data doc) := by
  induction n generalizing s data doc with
  | zero =>
    refine .done (Option.eq_none_iff_forall_ne_some.mpr fun ⟨i, j⟩ found => ?_)
    have bounds := lt_of_search_docstring found
    omega
  | succ n ih =>
    rw [collectDoc]
    split
    next none => exact .done none
    next i j found =>
      have bounds := lt_of_search_docstring found
      refine .next found (ih ?_ _ _)
      rw [List.length_drop]
      omega

namespace Scanner

variable {desc : List Char} {s s' : Scanner} {patterns : List (Regex Char)} {tok : List Char}
  {stack : Nat}

def left (desc : List Char) (s : Scanner) : Nat := desc.length - s.pos

structure Forward (desc : List Char) (s s' : Scanner) : Prop where
  onward : s.pos ≤ s'.pos
  inside : s.pos ≤ desc.length → s'.pos ≤ desc.length

theorem Forward.left_le (h : Forward desc s s') : left desc s' ≤ left desc s :=
  Nat.sub_le_sub_left h.onward desc.length

theorem forward_past {g rest : List Char} (here : desc.drop s.pos = g ++ rest)
    (split : tok <+: rest) : Forward desc s (s.past g tok) := by
  have length := congrArg List.length here
  have part := split.length_le
  rw [List.length_drop, List.length_append] at length
  refine ⟨?_, fun bound => ?_⟩
  · show s.pos ≤ s.pos + g.length + tok.length
    omega
  · show s.pos + g.length + tok.length ≤ desc.length
    omega

theorem carried_forward (desc : List Char) : Carried desc (Forward desc) where
  refl s := ⟨Nat.le_refl _, id⟩
  trans first second := ⟨first.onward.trans second.onward, second.inside ∘ first.inside⟩
  whitespace s := by
    obtain ⟨g, rest, here, stretch⟩ := exists_stretch (desc.drop s.pos)
    rw [consumeWhitespace_eq here stretch]
    exact forward_past here List.nil_prefix
  token {_ s _ _} read := by
    obtain ⟨g, rest, here, stretch⟩ := exists_stretch (desc.drop s.pos)
    rcases of_expectRe here stretch read with ⟨-, rfl, rfl⟩ | ⟨after, split, -, -, rfl⟩
    · exact forward_past here List.nil_prefix
    · exact forward_past here ⟨after, split.symm⟩
  docstring s := ⟨Nat.le_refl _, id⟩

theorem left_of_expectRe (h : expectRe desc patterns s = .ok (tok, s')) :
    left desc s' + tok.length ≤ left desc s := by
  obtain ⟨g, rest, here, stretch⟩ := exists_stretch (desc.drop s.pos)
  rcases of_expectRe here stretch h with ⟨-, rfl, -⟩ | ⟨after, rfl, -, -, rfl⟩
  · exact ((carried_forward desc).token h).left_le
  · have length := congrArg List.length here
    simp only [List.length_append, List.length_drop] at length
    show desc.length - (s.pos + g.length + tok.length) + tok.length ≤ desc.length - s.pos
    omega

theorem concludes_expectRe (patterns : List (Regex Char)) (s : Scanner) :
    Concludes (expectRe desc patterns s) := by
  rw [expectRe]
  refine .ite (fun _ => .ok _) fun _ => ?_
  split
  · exact .thrown _
  · exact .ok _

theorem concludes_expectKeyword (keyword : List Char) (s : Scanner) :
    Concludes (expectKeyword desc keyword s) :=
  .bind (concludes_expectRe _ s) fun _ _ => .ite (fun _ => .ok _) fun _ => .thrown _

theorem concludes_openFields (fields : TypeDef TypeSpec) (keyword : List Char) :
    Concludes (openFields fields keyword) := by
  cases fields with
  | invalid => exact .ite (fun _ => .ok _) fun _ => .ite (fun _ => .ok _) fun _ => .thrown _
  | _ => exact .ok _

theorem concludes_readKind (keyword : List Char) : Concludes (readKind keyword) :=
  .ite (fun _ => .ok _) fun _ => .ite (fun _ => .ok _) fun _ => .ite (fun _ => .ok _) fun _ =>
    .ite (fun _ => .thrown _) fun _ => .ok _

/-- The stack that the three functions need for what is left of the text. -/
structure Within (desc : List Char) (stack : Nat) : Prop where
  struct : ∀ bracket s, 2 * left desc s + 2 ≤ stack → Concludes (readStruct desc stack bracket s)
  fields : ∀ fields s, 2 * left desc s + 1 ≤ stack → Concludes (readFields desc stack fields s)
  type : ∀ wasMaybe s, 2 * left desc s + 1 ≤ stack →
    Concludes (readTypeSpec desc stack wasMaybe s)

theorem concludes_openedStruct {stack : Nat} {t : Scanner}
    (fields : Concludes (readFields desc stack .invalid (consumeWhitespace desc t))) :
    Concludes (match expectRe desc [closingBracket] t with
      | .ok (_, t) => .ok (.struct [], t)
      | .error _ => readFields desc stack .invalid (consumeWhitespace desc t)) := by
  split
  · exact .ok _
  · exact fields

theorem within (desc : List Char) (stack : Nat) : Within desc stack := by
  induction stack with
  | zero => exact ⟨fun _ _ _ => by omega, fun _ _ _ => by omega, fun _ _ _ => by omega⟩
  | succ stack ih =>
    refine ⟨fun bracket s deep => ?_, fun fields s deep => ?_, fun wasMaybe s deep => ?_⟩
    · have behind (t : Scanner) (le : left desc t ≤ left desc s) :
          Concludes (readFields desc stack .invalid (consumeWhitespace desc t)) := by
        have blank := ((carried_forward desc).whitespace t).left_le
        exact ih.fields _ _ (by omega)
      rw [readStruct]
      refine .ite (fun _ => .bind (concludes_expectKeyword _ s) fun t opened => ?_)
        fun _ => .bind (.ok s) ?_
      · have token := left_of_expectRe (expectKeyword_eq_ok_iff.mp opened)
        exact concludes_openedStruct (behind t (by omega))
      · rintro t ⟨⟩
        exact concludes_openedStruct (behind s (Nat.le_refl _))
    · rw [readFields]
      refine .bind (concludes_expectRe _ s) ?_
      rintro ⟨name, s₁⟩ readName
      refine .bind (concludes_expectRe _ s₁) ?_
      rintro ⟨keyword, s₂⟩ readKeyword
      refine .bind (concludes_openFields fields keyword) fun opened _ => ?_
      have atName := left_of_expectRe readName
      have atKeyword := left_of_expectRe readKeyword
      cases opened with
      | invalid => exact .thrown _
      | string => exact .thrown _
      | struct acc =>
        refine .ite (fun colon => ?_) fun _ => .thrown _
        rw [colon, List.length_singleton] at atKeyword
        refine .bind (ih.type false s₂ (by omega)) ?_
        rintro ⟨type, s₃⟩ readType
        refine .bind (concludes_expectRe _ s₃) ?_
        rintro ⟨sep, s₄⟩ separator
        have atType := (((carried_forward desc).reading stack).type readType).left_le
        have atSeparator := left_of_expectRe separator
        exact .ite (fun _ => .ok _) fun _ => ih.fields _ s₄ (by omega)
      | enum acc =>
        refine .ite (fun _ => .ok _) fun _ => .ite (fun comma => ?_) fun _ => .thrown _
        rw [comma, List.length_singleton] at atKeyword
        exact ih.fields _ s₂ (by omega)
    · rw [readTypeSpec]
      refine .bind (concludes_expectRe _ s) ?_
      rintro ⟨keyword, s₁⟩ token
      have consumed := left_of_expectRe token
      have nested (some : 0 < keyword.length) (wasMaybe : Bool) :
          Concludes (readTypeSpec desc stack wasMaybe s₁) := ih.type wasMaybe s₁ (by omega)
      refine .ite (fun maybe => .ite (fun _ => .thrown _) fun _ => ?_) fun _ =>
        .ite (fun dict => ?_) fun _ => .ite (fun array => ?_) fun _ =>
        .ite (fun struct => ?_) fun _ => .ok _
      · exact .bind (nested (by rw [maybe]; decide) true) fun _ _ => .ok _
      · exact .bind (nested (by rw [dict]; decide) false) fun _ _ => .ok _
      · exact .bind (nested (by rw [array]; decide) false) fun _ _ => .ok _
      · rw [struct, List.length_singleton] at consumed
        exact .bind (ih.struct false s₁ (by omega)) fun _ _ => .ok _

theorem concludes_readData {kind : MemberKind} (deep : 2 * left desc s + 2 ≤ stack) :
    Concludes (readData desc kind stack s) := by
  refine .ite (fun _ => ?_) fun _ => (within desc stack).type false s (by omega)
  refine .bind ((within desc stack).struct true s deep) fun ⟨parameters, s₁⟩ first =>
    .bind (concludes_expectKeyword _ s₁) fun s₂ arrow => ?_
  have atArrow := (((carried_forward desc).reading stack).struct first).left_le
  have behind := left_of_expectRe (expectKeyword_eq_ok_iff.mp arrow)
  exact .bind ((within desc stack).struct true s₂ (by omega)) fun _ _ => .ok _

theorem concludes_readMember (deep : 2 * left desc s + 2 ≤ stack) :
    Concludes (readMember desc stack s) := by
  refine .bind (concludes_expectRe _ s) fun ⟨keyword, s₁⟩ readKeyword =>
    .bind (concludes_readKind keyword) fun kind _ =>
    .bind (concludes_expectRe _ s₁) fun ⟨name, s₂⟩ readName => ?_
  have atName := left_of_expectRe readKeyword
  have atData := left_of_expectRe readName
  have enough : 2 * left desc (getDocstring desc s₂).2 + 2 ≤ stack := by
    show 2 * left desc s₂ + 2 ≤ stack
    omega
  exact .bind (concludes_readData enough) fun _ _ => .ok _

theorem left_of_readMember {m : Member} (h : readMember desc stack s = .ok (m, s'))
    (defined : m.kind ≠ .undefined) : left desc s' < left desc s := by
  obtain ⟨step⟩ := readMember_eq_ok_iff.mp h
  have consumed := left_of_expectRe step.readKeyword
  have behind := ((carried_forward desc).behindKeyword step).left_le
  have some : 0 < step.keyword.length := by
    refine List.length_pos_iff.mpr fun empty => defined ?_
    have kind := step.kind
    rw [empty] at kind
    exact Except.ok.inj (kind.symm.trans rfl)
  omega

theorem concludes_readMembers (deep : 2 * left desc s + 3 ≤ stack) (members : List Member) :
    Concludes (readMembers desc stack members s) := by
  induction stack generalizing members s with
  | zero => omega
  | succ stack ih =>
    refine .bind (concludes_readMember (by omega)) fun ⟨m, s'⟩ read => ?_
    refine .ite (fun _ => .ok _) fun defined => .ite (fun _ => .thrown _) fun _ => ?_
    have consumed := left_of_readMember read defined
    exact ih (by omega) _

end Scanner

namespace VarlinkInterface

open Scanner

theorem concludes_construct {stack : Nat} {text : String} (deep : 2 * text.length + 3 ≤ stack) :
    Concludes (construct stack text) := by
  refine .bind (.bind (concludes_expectKeyword _ _) fun _ _ => concludes_expectRe _ _)
    fun ⟨ifname, s⟩ _ => ?_
  have room : 2 * left text.toList (getDocstring text.toList s).2 + 3 ≤ stack := by
    show 2 * (text.toList.length - s.pos) + 3 ≤ stack
    rw [String.length_toList]
    omega
  exact .bind (concludes_readMembers room []) fun _ _ => .ite (fun _ => .thrown _) fun _ => .ok _

/-- What the constructor and each of its loops and recursions come to on a text. -/
structure Terminates (text : String) : Prop where
  result : ∃ result : Except Exn VarlinkInterface,
    ∀ stack, 2 * text.length + 3 ≤ stack → construct stack text = result.mapError .thrown
  members : ∀ stack members s, 2 * left text.toList s + 3 ≤ stack →
    Concludes (readMembers text.toList stack members s)
  readers : ∀ stack, Within text.toList stack
  docstrings : ∀ s size, whitespace.starts (text.toList.drop s.pos) = some size →
    DocLoop ((text.toList.drop s.pos).take size) s.pos s.currentDoc
      (consumeWhitespace text.toList s).currentDoc
  moves : Carried text.toList (Forward text.toList)
  reads : ∀ stack, Carries text.toList (Forward text.toList) stack
  membersRead : ∀ stack s m s', readMember text.toList stack s = .ok (m, s') →
    Forward text.toList s s'

/-- For every text the constructor ends with an interface or with an exception, on a stack that
is linear in the length of the text, and the scanner only moves forward in the text. -/
theorem construct_terminates (text : String) : Terminates text where
  result := by
    have ended := concludes_construct (Nat.le_refl (2 * text.length + 3))
    have same (stack : Nat) (deep : 2 * text.length + 3 ≤ stack) :
        construct stack text = construct (2 * text.length + 3) text := by
      refine (construct_below deep text).eq_of_ne fun overflow => ?_
      obtain ⟨e, contra⟩ := ended _ overflow
      cases contra
    cases returned : construct (2 * text.length + 3) text with
    | ok i => exact ⟨.ok i, fun stack deep => (same stack deep).trans returned⟩
    | error stop =>
      obtain ⟨e, rfl⟩ := ended stop returned
      exact ⟨.error e, fun stack deep => (same stack deep).trans returned⟩
  members _ members _ deep := concludes_readMembers deep members
  readers := within text.toList
  docstrings s size found := by
    rw [consumeWhitespace, found]
    exact docLoop_collectDoc (List.length_take_le _ _) _ _
  moves := carried_forward text.toList
  reads := (carried_forward text.toList).reading
  membersRead _ _ _ _ read := (carried_forward text.toList).member read

end VarlinkInterface

end Varlink
