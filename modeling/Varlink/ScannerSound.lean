import Varlink.ScannerSteps

/-! What the scanner returns is well formed: its names are tokens that would be read
again, and its slices are framed by comments. Only the last type of a text can be cut
off by its end. -/

namespace Varlink

open Scanner

structure TypeName (name : List Char) : Prop where
  token : Token [keywordPattern, memberPattern] name
  other : name ∉ [['?'], dictPrefix, ['[', ']'], ['(']]

inductive Readable : TypeSpec → Prop where
  | string {name : String} {m d a : Bool} (typeName : TypeName name.toList) :
      Readable ⟨.string name, m, d, a⟩
  | enum {values : List String} {m d a : Bool} (two : 2 ≤ values.length)
      (names : ∀ v ∈ values, Token [identifierPattern] v.toList) : Readable ⟨.enum values, m, d, a⟩
  | struct {fields : List (String × TypeSpec)} {m d a : Bool}
      (names : ∀ f ∈ fields, Token [identifierPattern] f.1.toList)
      (types : ∀ f ∈ fields, Readable f.2) : Readable ⟨.struct fields, m, d, a⟩

theorem Readable.flags {t : TypeSpec} (h : Readable t) (m d a : Bool) :
    Readable ⟨t.type, m, d, a⟩ := by
  cases h with
  | string typeName => exact .string typeName
  | enum two names => exact .enum two names
  | struct names types => exact .struct names types

inductive Gathered : TypeDef TypeSpec → Prop where
  | invalid : Gathered .invalid
  | struct {acc : List (String × TypeSpec)}
      (names : ∀ f ∈ acc, Token [identifierPattern] f.1.toList)
      (types : ∀ f ∈ acc, Readable f.2) : Gathered (.struct acc)
  | enum {acc : List String} (some : acc ≠ [])
      (names : ∀ v ∈ acc, Token [identifierPattern] v.toList) : Gathered (.enum acc)

variable {desc : List Char} {stack : Nat} {s s' : Scanner}

def CutOff (desc : List Char) (t : TypeSpec) (s' : Scanner) : Prop :=
  t.type = .string "" ∧ desc.drop s'.pos = []

theorem readFields_end {fields : TypeDef TypeSpec} {r : TypeDef TypeSpec × Scanner}
    (here : desc.drop s.pos = []) : readFields desc stack fields s ≠ .ok r := by
  intro h
  cases stack with
  | zero => cases h
  | succ stack =>
    obtain ⟨fields', sep, s', round, -⟩ := readFields_eq_ok_iff.mp h
    cases round with
    | field _ readName colon =>
      rw [expectRe_end here] at readName
      cases readName
      rw [expectRe_end here] at colon
      cases colon
    | value _ readName separator known =>
      rw [expectRe_end here] at readName
      cases readName
      rw [expectRe_end here] at separator
      cases separator
      rcases known with known | known <;> cases known

structure WellRead (desc : List Char) (stack : Nat) : Prop where
  struct : ∀ {bracket s type s'}, readStruct desc stack bracket s = .ok (type, s') →
    Readable { type := type } ∧ ∀ name, type ≠ .string name
  fields : ∀ {fields s type s'}, Gathered fields → readFields desc stack fields s = .ok (type, s') →
    Readable { type := type } ∧ ∀ name, type ≠ .string name
  type : ∀ {wasMaybe s t s'}, readTypeSpec desc stack wasMaybe s = .ok (t, s') →
    Readable t ∨ CutOff desc t s'

theorem Token.ofList {patterns : List (Regex Char)} {tok : List Char} (h : Token patterns tok) :
    Token patterns (String.ofList tok).toList := by
  rwa [String.toList_ofList]

/-- One round of the loop. It cannot have read to the end of the text if it goes on. -/
theorem gathered_of_round {fields fields' : TypeDef TypeSpec} {sep : List Char}
    (types : ∀ {wasMaybe s t s'}, readTypeSpec desc stack wasMaybe s = .ok (t, s') →
      Readable t ∨ CutOff desc t s')
    (gathered : Gathered fields) (round : Round desc stack fields s fields' sep s')
    (inside : sep = [] → desc.drop s'.pos ≠ []) :
    Gathered fields' ∧
      (sep = [')'] → Readable { type := fields' } ∧ ∀ name, fields' ≠ .string name) := by
  cases round with
  | @field acc name s₁ s₂ s₃ _ type _ shape readName colon readType separator =>
    have nameToken : Token [identifierPattern] (String.ofList name).toList := by
      rcases token_of_expectRe token_identifier readName with token | ⟨rfl, ends⟩
      · exact token.ofList
      · rw [expectRe_end ends] at colon
        cases colon
    have readable : Readable type := by
      rcases types readType with readable | ⟨-, ends⟩
      · exact readable
      · rw [expectRe_end ends] at separator
        cases separator
        exact absurd ends (inside rfl)
    have names : ∀ f ∈ acc ++ [(String.ofList name, type)],
        Token [identifierPattern] f.1.toList := by
      refine List.forall_mem_append.mpr ⟨?_, List.forall_mem_singleton.mpr nameToken⟩
      rcases shape with rfl | ⟨-, rfl⟩
      · cases gathered with
        | struct names => exact names
      · exact nofun
    have all : ∀ f ∈ acc ++ [(String.ofList name, type)], Readable f.2 := by
      refine List.forall_mem_append.mpr ⟨?_, List.forall_mem_singleton.mpr readable⟩
      rcases shape with rfl | ⟨-, rfl⟩
      · cases gathered with
        | struct _ types => exact types
      · exact nofun
    exact ⟨.struct names all, fun _ => ⟨.struct names all, nofun⟩⟩
  | @value acc name _ s₁ _ shape readName separator known =>
    have nameToken : Token [identifierPattern] (String.ofList name).toList := by
      rcases token_of_expectRe token_identifier readName with token | ⟨rfl, ends⟩
      · exact token.ofList
      · rw [expectRe_end ends] at separator
        cases separator
        rcases known with known | known <;> cases known
    have names : ∀ v ∈ acc ++ [String.ofList name], Token [identifierPattern] v.toList := by
      refine List.forall_mem_append.mpr ⟨?_, List.forall_mem_singleton.mpr nameToken⟩
      rcases shape with rfl | ⟨-, rfl, -⟩
      · cases gathered with
        | enum _ names => exact names
      · exact nofun
    refine ⟨.enum (by simp) names, fun closed => ⟨.enum ?_ names, nofun⟩⟩
    rcases shape with rfl | ⟨-, -, comma⟩
    · cases gathered with
      | enum some =>
        have := List.length_pos_iff.mpr some
        rw [List.length_append, List.length_singleton]
        omega
    · exact absurd (closed.symm.trans comma) (by decide)

theorem wellRead (desc : List Char) (stack : Nat) : WellRead desc stack := by
  induction stack with
  | zero => exact ⟨nofun, nofun, nofun⟩
  | succ stack ih =>
    refine ⟨fun h => ?_, fun gathered h => ?_, fun h => ?_⟩
    · obtain ⟨s₁, -, ⟨tok, s₂, -, same⟩ | ⟨-, read⟩⟩ := readStruct_eq_ok_iff.mp h
      · cases same
        exact ⟨.struct nofun nofun, nofun⟩
      · exact ih.fields .invalid read
    · obtain ⟨fields', sep, s₁, round, next⟩ := readFields_eq_ok_iff.mp h
      by_cases closed : sep = [')']
      · have inside : sep = [] → desc.drop s₁.pos ≠ [] := fun empty =>
          absurd (closed.symm.trans empty) (by decide)
        rw [if_pos closed] at next
        cases next
        exact (gathered_of_round ih.type gathered round inside).2 closed
      · rw [if_neg closed] at next
        have inside : sep = [] → desc.drop s₁.pos ≠ [] := fun _ ends => readFields_end ends next
        exact ih.fields (gathered_of_round ih.type gathered round inside).1 next
    · cases readTypeSpec_eq_ok_iff.mp h with
      | maybe _ _ rest =>
        exact (ih.type rest).imp (fun readable => readable.flags ..) id
      | dict _ rest =>
        exact (ih.type rest).imp (fun readable => readable.flags ..) id
      | array _ rest =>
        exact (ih.type rest).imp (fun readable => readable.flags ..) id
      | struct _ rest => exact .inl (ih.struct rest).1
      | name token other =>
        rcases token_of_expectRe token_type token with token | ⟨rfl, ends⟩
        · exact .inl (.string ⟨token.ofList, by rwa [String.toList_ofList]⟩)
        · exact .inr ⟨rfl, ends⟩

theorem carried_sound (desc : List Char) :
    Carried desc fun s s' => Sound desc s → Sound desc s' where
  refl _ := id
  trans first second sound := second (first sound)
  whitespace _ sound := sound.consumeWhitespace
  token read sound := sound.expectRe read
  docstring _ sound := sound.takeDocstring

end Varlink
