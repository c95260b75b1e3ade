import Varlink.Printing

/-! Which type expressions are printed back as they were written: the flags of a
specification keep neither the order nor the number of the prefixes. Texts are
compared without their whitespace. -/

namespace Varlink

open TypeSpec Scanner

namespace TypeExpr

def rank : TypeExpr → Nat
  | maybe _ => 0
  | array _ => 1
  | dict _ => 2
  | named _ | enum _ | struct _ => 3

/-- Everywhere in the expression at most one `?`, then at most one `[]`, then at
most one `[string]` stand in front of a name or a bracket. -/
inductive Canonical : TypeExpr → Prop where
  | maybe {e : TypeExpr} (canonical : Canonical e) (order : 0 < e.rank) : Canonical (.maybe e)
  | array {e : TypeExpr} (canonical : Canonical e) (order : 1 < e.rank) : Canonical (.array e)
  | dict {e : TypeExpr} (canonical : Canonical e) (order : 2 < e.rank) : Canonical (.dict e)
  | named {name : String} : Canonical (.named name)
  | enum {values : List String} : Canonical (.enum values)
  | struct {fields : List (String × TypeExpr)} (canonical : ∀ f ∈ fields, Canonical f.2) :
      Canonical (.struct fields)

theorem induct {P : TypeExpr → Prop} (maybe : ∀ e, P e → P (.maybe e))
    (array : ∀ e, P e → P (.array e)) (dict : ∀ e, P e → P (.dict e))
    (named : ∀ name, P (.named name)) (enum : ∀ values, P (.enum values))
    (struct : ∀ fields, (∀ f ∈ fields, P f.2) → P (.struct fields)) : ∀ e, P e
  | .maybe e => maybe e (induct maybe array dict named enum struct e)
  | .array e => array e (induct maybe array dict named enum struct e)
  | .dict e => dict e (induct maybe array dict named enum struct e)
  | .named name => named name
  | .enum values => enum values
  | .struct fields => struct fields fun f member =>
    have smaller : sizeOf f.2 < 1 + sizeOf fields := by
      have := List.sizeOf_lt_of_mem member
      obtain ⟨name, e⟩ := f
      simp only [Prod.mk.sizeOf_spec] at this ⊢
      omega
    induct maybe array dict named enum struct f.2

/-- The expression that is printed for what the scanner makes of this one. -/
def normal (e : TypeExpr) : TypeExpr := e.toSpec.prefixed e.toSpec.baseExpr

def tight : TypeExpr → List Char
  | maybe e => '?' :: tight e
  | array e => '[' :: ']' :: tight e
  | dict e => dictPrefix ++ tight e
  | named name => name.toList
  | enum values => '(' :: listed (values.map String.toList)
  | struct [] => ['(', ')']
  | struct (f :: rest) => '(' :: listed (fieldTexts (f :: rest))
where
  fieldTexts : List (String × TypeExpr) → List (List Char)
    | [] => []
    | (name, e) :: rest => (name.toList ++ ':' :: tight e) :: fieldTexts rest

theorem fieldTexts_eq_map (fields : List (String × TypeExpr)) :
    tight.fieldTexts fields = fields.map fun f => f.1.toList ++ ':' :: f.2.tight := by
  induction fields with
  | nil => rfl
  | cons f rest ih => rw [tight.fieldTexts, ih]; rfl

theorem tight_struct {fields : List (String × TypeExpr)} (some : fields ≠ []) :
    (struct fields).tight = '(' :: listed (fields.map fun f => f.1.toList ++ ':' :: f.2.tight) := by
  cases fields with
  | nil => exact absurd rfl some
  | cons f rest => rw [tight, fieldTexts_eq_map]

theorem baseExpr_flags (t : TypeSpec) (m d a : Bool) : baseExpr ⟨t.type, m, d, a⟩ = t.baseExpr := by
  obtain ⟨type, m', d', a'⟩ := t
  cases type <;> rfl

theorem normal_struct (fields : List (String × TypeExpr)) :
    (struct fields).normal = struct (fields.map fun f => (f.1, f.2.normal)) := by
  have all : baseExpr.fieldExprs (toSpec.fieldSpecs fields) =
      fields.map fun f => (f.1, f.2.normal) := by
    induction fields with
    | nil => rfl
    | cons f rest ih => rw [toSpec.fieldSpecs, baseExpr.fieldExprs, ih]; rfl
  rw [← all]
  rfl

def maybeText (flag : Bool) : List Char := if flag then ['?'] else []
def arrayText (flag : Bool) : List Char := if flag then ['[', ']'] else []
def dictText (flag : Bool) : List Char := if flag then dictPrefix else []

theorem tight_prefixed (t : TypeSpec) (base : TypeExpr) :
    (t.prefixed base).tight = maybeText t.maybeType ++
      (arrayText t.arrayType ++ (dictText t.dictType ++ base.tight)) := by
  obtain ⟨type, m, d, a⟩ := t
  cases m <;> cases d <;> cases a <;> rfl

theorem tight_normal (e : TypeExpr) : e.normal.tight = maybeText e.toSpec.maybeType ++
    (arrayText e.toSpec.arrayType ++ (dictText e.toSpec.dictType ++ e.toSpec.baseExpr.tight)) :=
  tight_prefixed _ _

theorem tight_normal_maybe (e : TypeExpr) : (maybe e).normal.tight = '?' ::
    (arrayText e.toSpec.arrayType ++ (dictText e.toSpec.dictType ++ e.toSpec.baseExpr.tight)) := by
  rw [tight_normal, toSpec, baseExpr_flags]
  rfl

theorem tight_normal_array (e : TypeExpr) :
    (array e).normal.tight = maybeText e.toSpec.maybeType ++ ('[' :: ']' ::
      (dictText e.toSpec.dictType ++ e.toSpec.baseExpr.tight)) := by
  rw [tight_normal, toSpec, baseExpr_flags]
  rfl

theorem tight_normal_dict (e : TypeExpr) :
    (dict e).normal.tight = maybeText e.toSpec.maybeType ++ (arrayText e.toSpec.arrayType ++
      (dictPrefix ++ e.toSpec.baseExpr.tight)) := by
  rw [tight_normal, toSpec, baseExpr_flags]
  rfl

theorem Canonical.flags {e : TypeExpr} (h : Canonical e) :
    (0 < e.rank → e.toSpec.maybeType = false) ∧ (1 < e.rank → e.toSpec.arrayType = false) ∧
      (2 < e.rank → e.toSpec.dictType = false) := by
  induction h with
  | maybe => exact ⟨nofun, nofun, nofun⟩
  | array _ order ih => exact ⟨fun _ => ih.1 (Nat.lt_of_succ_lt order), nofun, nofun⟩
  | dict _ order ih =>
    exact ⟨fun _ => ih.1 (Nat.zero_lt_of_lt order), fun _ => ih.2.1 (Nat.lt_of_succ_lt order),
      fun contra => absurd contra (Nat.lt_irrefl 2)⟩
  | named | enum | struct => exact ⟨fun _ => rfl, fun _ => rfl, fun _ => rfl⟩

theorem rank_of_not_flags (e : TypeExpr) :
    (e.toSpec.maybeType = false → 0 < e.rank) ∧
      (e.toSpec.maybeType = false → e.toSpec.arrayType = false → 1 < e.rank) ∧
      (e.toSpec.maybeType = false → e.toSpec.arrayType = false → e.toSpec.dictType = false →
        2 < e.rank) := by
  cases e <;> simp [toSpec, rank]

theorem Canonical.normal_eq {e : TypeExpr} (h : Canonical e) : e.normal = e := by
  induction h with
  | @maybe e canonical order ih =>
    have m := canonical.flags.1 order
    rw [normal, prefixed, m] at ih
    rw [normal, toSpec, baseExpr_flags, prefixed]
    exact congrArg TypeExpr.maybe ih
  | @array e canonical order ih =>
    have m := canonical.flags.1 (Nat.lt_of_succ_lt order)
    have a := canonical.flags.2.1 order
    rw [normal, prefixed, m, a] at ih
    rw [normal, toSpec, baseExpr_flags, prefixed, m]
    exact congrArg TypeExpr.array ih
  | @dict e canonical order ih =>
    have m := canonical.flags.1 (Nat.zero_lt_of_lt order)
    have a := canonical.flags.2.1 (Nat.lt_of_succ_lt order)
    have d := canonical.flags.2.2 order
    rw [normal, prefixed, m, a, d] at ih
    rw [normal, toSpec, baseExpr_flags, prefixed, m, a]
    exact congrArg TypeExpr.dict ih
  | named => rfl
  | enum => rfl
  | @struct fields canonical ih =>
    rw [normal_struct]
    refine congrArg TypeExpr.struct ?_
    calc fields.map (fun f => (f.1, f.2.normal))
        = fields.map id := List.map_congr_left fun f member => by rw [ih f member]; rfl
      _ = fields := List.map_id fields

theorem length_listed_cons (text : List Char) (texts : List (List Char)) :
    (listed (text :: texts)).length = text.length + 1 + (listed texts).length := by
  cases texts with
  | nil => simp [listed]
  | cons t ts =>
    simp only [listed, List.length_append, List.length_cons]
    omega

/-- Lists of texts of which none is longer than its partner agree as a whole only text by text. -/
theorem listed_eq_of_length_le {α : Type} {x y : α → List Char} {fs : List α}
    (le : ∀ f ∈ fs, (x f).length ≤ (y f).length) :
    (listed (fs.map x)).length ≤ (listed (fs.map y)).length ∧
      (listed (fs.map x) = listed (fs.map y) → ∀ f ∈ fs, x f = y f) := by
  induction fs with
  | nil => exact ⟨Nat.le_refl _, fun _ => nofun⟩
  | cons f rest ih =>
    obtain ⟨tail, same⟩ := ih fun g member => le g (List.mem_cons_of_mem f member)
    have head := le f List.mem_cons_self
    refine ⟨?_, fun eq => ?_⟩
    · rw [List.map_cons, List.map_cons, length_listed_cons, length_listed_cons]
      omega
    · have lengths := congrArg List.length eq
      rw [List.map_cons, List.map_cons, length_listed_cons, length_listed_cons] at lengths
      have equal : (x f).length = (y f).length := by omega
      cases rest with
      | nil => exact List.forall_mem_singleton.mpr (List.append_inj eq equal).1
      | cons g rest =>
        obtain ⟨first, later⟩ := List.append_inj eq equal
        exact List.forall_mem_cons.mpr ⟨first, same (List.cons.inj later).2⟩

/-- Printing makes the expression no longer, and gives it back only if it is canonical. -/
def Shrinks (e : TypeExpr) : Prop :=
  e.normal.tight.length ≤ e.tight.length ∧ (e.normal.tight = e.tight → Canonical e)

theorem Shrinks.maybe {e : TypeExpr} (h : Shrinks e) : Shrinks (.maybe e) := by
  unfold Shrinks at h
  rw [tight_normal] at h
  rw [Shrinks, tight_normal_maybe, tight]
  refine ⟨?_, fun eq => ?_⟩
  · have := h.1
    simp only [List.length_append, List.length_cons] at this ⊢
    omega
  · have same := (List.cons.inj eq).2
    have flag : e.toSpec.maybeType = false := by
      cases m : e.toSpec.maybeType with
      | false => rfl
      | true =>
        have := h.1
        rw [← same, m] at this
        simp only [maybeText, if_true, List.length_append, List.length_cons] at this
        omega
    refine .maybe (h.2 ?_) ((rank_of_not_flags e).1 flag)
    rw [flag]
    exact same

theorem Shrinks.array {e : TypeExpr} (h : Shrinks e) : Shrinks (.array e) := by
  unfold Shrinks at h
  rw [tight_normal] at h
  rw [Shrinks, tight_normal_array, tight]
  refine ⟨?_, fun eq => ?_⟩
  · have := h.1
    simp only [List.length_append, List.length_cons] at this ⊢
    omega
  · cases m : e.toSpec.maybeType with
    | true => simp [m, maybeText] at eq
    | false =>
      rw [m] at eq h
      have same := (List.cons.inj (List.cons.inj eq).2).2
      have flag : e.toSpec.arrayType = false := by
        cases a : e.toSpec.arrayType with
        | false => rfl
        | true =>
          have := h.1
          rw [← same, a] at this
          simp only [maybeText, arrayText, Bool.false_eq_true, if_false, if_true,
            List.length_append, List.length_cons] at this
          omega
      refine .array (h.2 ?_) ((rank_of_not_flags e).2.1 m flag)
      rw [flag]
      exact same

theorem Shrinks.dict {e : TypeExpr} (h : Shrinks e) : Shrinks (.dict e) := by
  unfold Shrinks at h
  rw [tight_normal] at h
  rw [Shrinks, tight_normal_dict, tight]
  refine ⟨?_, fun eq => ?_⟩
  · have := h.1
    have shorter : (dictText e.toSpec.dictType).length ≤ dictPrefix.length := by
      cases e.toSpec.dictType <;> decide
    simp only [List.length_append] at this ⊢
    omega
  · cases m : e.toSpec.maybeType with
    | true => simp [m, maybeText, dictPrefix] at eq
    | false =>
      cases a : e.toSpec.arrayType with
      | true => simp [m, a, maybeText, arrayText, dictPrefix] at eq
      | false =>
        rw [m, a] at eq h
        have same : e.toSpec.baseExpr.tight = e.tight :=
          List.append_cancel_left (show dictPrefix ++ _ = dictPrefix ++ _ from eq)
        have flag : e.toSpec.dictType = false := by
          cases d : e.toSpec.dictType with
          | false => rfl
          | true =>
            have := h.1
            rw [← same, d] at this
            simp [maybeText, arrayText, dictText, dictPrefix] at this
            omega
        refine .dict (h.2 ?_) ((rank_of_not_flags e).2.2 m a flag)
        rw [flag]
        exact same

theorem shrinks_struct {fields : List (String × TypeExpr)} (h : ∀ f ∈ fields, Shrinks f.2) :
    Shrinks (.struct fields) := by
  rw [Shrinks, normal_struct]
  by_cases none_ : fields = []
  · subst none_
    exact ⟨Nat.le_refl _, fun _ => .struct nofun⟩
  · rw [tight_struct none_, tight_struct (by simpa using none_), List.map_map]
    have le : ∀ f ∈ fields, (f.1.toList ++ ':' :: f.2.normal.tight).length ≤
        (f.1.toList ++ ':' :: f.2.tight).length := by
      intro f member
      have := (h f member).1
      simp only [List.length_append, List.length_cons]
      omega
    obtain ⟨length, same⟩ := listed_eq_of_length_le le
    refine ⟨Nat.succ_le_succ length, fun eq => .struct fun f member => (h f member).2 ?_⟩
    exact (List.cons.inj (List.append_cancel_left (same (List.cons.inj eq).2 f member))).2

theorem shrinks (e : TypeExpr) : Shrinks e := by
  induction e using induct with
  | maybe e ih => exact ih.maybe
  | array e ih => exact ih.array
  | dict e ih => exact ih.dict
  | named name => exact ⟨Nat.le_refl _, fun _ => .named⟩
  | enum values => exact ⟨Nat.le_refl _, fun _ => .enum⟩
  | struct fields ih => exact shrinks_struct ih

end TypeExpr

/-! ### Texts without comments -/

def notBlank (c : Char) : Bool := c ∉ blanks

theorem Gap.filter_notBlank {g : List Char} (h : Gap g) (plain : '#' ∉ g) :
    g.filter notBlank = [] := by
  induction h with
  | nil => rfl
  | blank blank _ ih =>
    rw [List.filter_cons_of_neg (by simpa [notBlank] using blank)]
    exact ih fun member => plain (List.mem_cons_of_mem _ member)
  | comment => exact absurd List.mem_cons_self plain

theorem Token.filter_notBlank {patterns : List (Regex Char)} {tok : List Char}
    (h : Token patterns tok) : tok.filter notBlank = tok :=
  List.filter_eq_self.mpr fun c member => by
    simpa [notBlank] using fun blank => h.clean c member (List.mem_cons_of_mem _ blank)

theorem listed_filter (texts : List (List Char)) :
    (listed texts).filter notBlank = listed (texts.map (·.filter notBlank)) := by
  induction texts with
  | nil => rfl
  | cons text texts ih =>
    cases texts with
    | nil =>
      simp only [listed, List.map_cons, List.map_nil, List.filter_append]
      rfl
    | cons t ts =>
      simp only [List.map_cons] at ih
      simp only [listed, List.map_cons, List.filter_append, ← ih]
      rfl

theorem listed_plain {texts : List (List Char)} (plain : '#' ∉ listed texts) :
    ∀ text ∈ texts, '#' ∉ text := by
  induction texts with
  | nil => exact nofun
  | cons text texts ih =>
    cases texts with
    | nil => exact List.forall_mem_singleton.mpr fun member =>
        plain (List.mem_append_left _ member)
    | cons t ts =>
      simp only [listed, List.mem_append, List.mem_cons, not_or] at plain
      exact List.forall_mem_cons.mpr ⟨plain.1, ih plain.2.2⟩

theorem Written.filter_notBlank {e : TypeExpr} {text : List Char} (h : Written e text)
    (plain : '#' ∉ text) : text.filter notBlank = e.tight := by
  induction h with
  | maybe gap _ _ ih =>
    simp only [List.mem_append, List.mem_cons, not_or] at plain
    rw [List.filter_append, gap.filter_notBlank plain.1, List.nil_append, TypeExpr.tight,
      ← ih plain.2.2]
    rfl
  | array gap _ ih =>
    simp only [List.mem_append, List.mem_cons, not_or] at plain
    rw [List.filter_append, gap.filter_notBlank plain.1, List.nil_append, TypeExpr.tight,
      ← ih plain.2.2.2]
    rfl
  | dict gap _ ih =>
    simp only [List.mem_append, not_or] at plain
    rw [List.filter_append, List.filter_append, gap.filter_notBlank plain.1, List.nil_append,
      ih plain.2.2, TypeExpr.tight]
    rfl
  | named gap typeName =>
    rw [List.mem_append, not_or] at plain
    rw [List.filter_append, gap.filter_notBlank plain.1, typeName.token.filter_notBlank]
    rfl
  | empty gap inner =>
    simp only [List.mem_append, List.mem_cons, not_or] at plain
    rw [List.filter_append, gap.filter_notBlank plain.1, List.nil_append,
      List.filter_cons_of_pos (by decide), List.filter_append, inner.filter_notBlank plain.2.2.1]
    rfl
  | @struct g fs gap some valid written ih =>
    simp only [List.mem_append, List.mem_cons, not_or] at plain
    have fields : ∀ f ∈ fs, f.source.filter notBlank = f.name.toList ++ ':' :: f.type.tight := by
      intro f member
      have here := listed_plain plain.2.2 f.source (List.mem_map_of_mem member)
      simp only [FieldSource.source, List.mem_append, List.mem_cons, not_or] at here
      obtain ⟨before, -, behind, -, text, after⟩ := here
      have v := valid f member
      have type := ih f member text
      simp only [FieldSource.source, List.filter_append, v.before.filter_notBlank before,
        v.name.filter_notBlank, v.behind.filter_notBlank behind, List.nil_append,
        List.filter_cons_of_pos (show notBlank ':' = true by decide), type,
        v.after.filter_notBlank after, List.append_nil]
    rw [List.filter_append, gap.filter_notBlank plain.1, List.nil_append,
      List.filter_cons_of_pos (by decide), listed_filter, List.map_map,
      TypeExpr.tight_struct (by simpa using some), List.map_map]
    exact congrArg (fun texts => '(' :: listed texts) (List.map_congr_left fields)
  | @enum g vs gap two valid =>
    simp only [List.mem_append, List.mem_cons, not_or] at plain
    have values : ∀ v ∈ vs, v.source.filter notBlank = v.name.toList := by
      intro v member
      have here := listed_plain plain.2.2 v.source (List.mem_map_of_mem member)
      simp only [ValueSource.source, List.mem_append, not_or] at here
      have w := valid v member
      simp only [ValueSource.source, List.filter_append, w.before.filter_notBlank here.1,
        w.name.filter_notBlank, w.after.filter_notBlank here.2.2, List.nil_append, List.append_nil]
    rw [List.filter_append, gap.filter_notBlank plain.1, List.nil_append,
      List.filter_cons_of_pos (by decide), listed_filter, List.map_map, TypeExpr.tight,
      List.map_map]
    exact congrArg (fun texts => '(' :: listed texts) (List.map_congr_left values)

theorem toSpec_of_readTypeSpec {e : TypeExpr} {text desc after : List Char} {stack : Nat}
    {s s' : Scanner} {t : TypeSpec} (written : Written e text) (kind : e.isBracketed = true)
    (here : desc.drop s.pos = text ++ after)
    (read : readTypeSpec desc stack false s = .ok (t, s')) : t = e.toSpec := by
  obtain ⟨g, inner, n, rfl, gap, bracketed⟩ := written.bracketed kind
  obtain ⟨s'', again, -⟩ := readTypeSpec_of_bracketed gap (TypeExpr.toSpec_of_isBracketed kind)
    bracketed (Nat.le_max_left n stack) here
  have deep : stack ≤ max n stack + 2 := by omega
  exact congrArg Prod.fst (Except.ok.inj ((readTypeSpec_mono deep read).symm.trans again))

theorem TypeExpr.Canonical.eq_of_toSpec {e e' : TypeExpr} (h : e.Canonical) (h' : e'.Canonical)
    (same : e.toSpec = e'.toSpec) : e = e' := by
  rw [← h.normal_eq, ← h'.normal_eq, normal, normal, same]

/-- The specification of a struct prints as a text of the struct exactly if the
types of its fields are canonical; and of such structs no two have the same one. -/
theorem struct_printed_back_iff (fields : List (String × TypeExpr)) (text desc after : List Char)
    (stack : Nat) (s s' : Scanner) (t : TypeSpec) (written : Written (.struct fields) text)
    (here : desc.drop s.pos = text ++ after)
    (read : readTypeSpec desc stack false s = .ok (t, s')) (indent : Int) (depth : Nat) :
    (Written (.struct fields) (t.toText indent depth) ↔ ∀ f ∈ fields, f.2.Canonical) ∧
    ∀ (others : List (String × TypeExpr)) (text' desc' after' : List Char) (stack' : Nat)
      (u u' : Scanner), Written (.struct others) text' → desc'.drop u.pos = text' ++ after' →
        readTypeSpec desc' stack' false u = .ok (t, u') → (∀ f ∈ fields, f.2.Canonical) →
          (∀ f ∈ others, f.2.Canonical) → others = fields := by
  obtain rfl := toSpec_of_readTypeSpec written rfl here read
  constructor
  swap
  · intro others text' desc' after' stack' u u' written' here' read' own own'
    have same := toSpec_of_readTypeSpec written' rfl here' read'
    exact TypeExpr.struct.inj
      ((TypeExpr.Canonical.struct own').eq_of_toSpec (.struct own) same.symm)
  have readable : Readable (TypeExpr.struct fields).toSpec := by
    rcases (wellRead desc stack).type read with readable | ⟨name, -⟩
    · exact readable
    · cases name
  have printed := written_toText readable indent depth
  have plain := plain_toText readable indent depth
  change Written (TypeExpr.struct fields).normal _ at printed
  constructor
  · intro back
    have same := (printed.filter_notBlank plain).symm.trans (back.filter_notBlank plain)
    cases (TypeExpr.shrinks _).2 same with
    | struct canonical => exact canonical
  · intro canonical
    rwa [(TypeExpr.Canonical.struct canonical).normal_eq] at printed

theorem written_int : Written (.named "int") "int".toList :=
  .named (g := []) .nil ⟨token_type (x := []) nofun rfl, by decide⟩

theorem written_field {e : TypeExpr} {text : List Char} (h : Written e text) :
    Written (.struct [("a", e)]) ('(' :: 'a' :: ':' :: (text ++ [')'])) := by
  have name : Token [identifierPattern] "a".toList :=
    token_identifier (x := []) (List.cons_ne_nil 'a' []) rfl
  let field : FieldSource := { name := "a", type := e, text }
  have written : Written (.struct ([field].map FieldSource.field)) _ := .struct .nil
    (List.cons_ne_nil field [])  (List.forall_mem_singleton.mpr ⟨.nil, name, .nil, .nil⟩)
    (List.forall_mem_singleton.mpr h)
  simpa [field, listed, FieldSource.source, FieldSource.field] using written

theorem struct_printed_back_iff_array :
    ∃ stack t s', readTypeSpec "(a:?[]int)".toList stack false {} = .ok (t, s') ∧
      Written (.struct [("a", .maybe (.array (.named "int")))]) (t.toText (-1) 0) := by
  have written : Written (.struct [("a", .maybe (.array (.named "int")))]) "(a:?[]int)".toList :=
    written_field (.maybe (g := []) .nil rfl (.array (g := []) .nil written_int))
  obtain ⟨n, reads⟩ := readAs_of_written written
  obtain ⟨s', read, -⟩ := reads n (Nat.le_refl n) _ [] {} false (List.append_nil _).symm
    boundary_nil nofun
  refine ⟨n + 1, _, s', read, (struct_printed_back_iff _ _ _ [] _ _ s' _ written
    (List.append_nil _).symm read (-1) 0).1.mpr (List.forall_mem_singleton.mpr ?_)⟩
  exact .maybe (.array .named (by decide)) (by decide)

/-- An array of optional numbers is read as an optional array of numbers, and printed as one. -/
theorem array_of_maybe_swapped :
    let swapped : TypeExpr := .struct [("a", .array (.maybe (.named "int")))]
    let printed : TypeExpr := .struct [("a", .maybe (.array (.named "int")))]
    Written swapped "(a:[]?int)".toList ∧ Written printed "(a:?[]int)".toList ∧
      (∃ stack s', readTypeSpec "(a:[]?int)".toList stack false {} = .ok (printed.toSpec, s')) ∧
      printed.toSpec.toText (-1) 0 = "(a: ?[]int)".toList ∧
      ¬ Written swapped (printed.toSpec.toText (-1) 0) := by
  intro swapped printed
  have written : Written swapped "(a:[]?int)".toList :=
    written_field (.array (g := []) .nil (.maybe (g := []) .nil rfl written_int))
  obtain ⟨n, reads⟩ := readAs_of_written written
  obtain ⟨s', read, -⟩ := reads n (Nat.le_refl n) _ [] {} false (List.append_nil _).symm
    boundary_nil nofun
  refine ⟨written, written_field (.maybe (g := []) .nil rfl (.array (g := []) .nil written_int)),
    ⟨n + 1, s', read⟩, by decide, fun contra => ?_⟩
  have tight := contra.filter_notBlank (by decide)
  exact absurd tight (by decide)

end Varlink
