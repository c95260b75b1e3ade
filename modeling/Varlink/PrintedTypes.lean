import Varlink.Grammar
import Varlink.Printing

/-! The scanner reads a printed specification back, at any indentation, and stops where
the printed text stops. -/

namespace Varlink

open Regex Scanner

def LowercaseWord (name : List Char) : Prop := name ≠ [] ∧ ∀ c ∈ name, c.isLower = true

def CapitalizedName (name : List Char) : Prop :=
  ∃ c rest, name = c :: rest ∧ c.isUpper = true ∧ ∀ d ∈ rest, d.isAlphanum = true

def Identifier (name : List Char) : Prop := identifierPattern.starts name = some name.length

/-- The trees of type specifications whose names the description language has. -/
inductive Scannable : TypeSpec → Prop where
  | word {name : String} {m d a : Bool} (word : LowercaseWord name.toList) :
      Scannable ⟨.string name, m, d, a⟩
  | named {name : String} {m d a : Bool} (named : CapitalizedName name.toList) :
      Scannable ⟨.string name, m, d, a⟩
  | enum {values : List String} {m d a : Bool} (two : 2 ≤ values.length)
      (names : ∀ v ∈ values, Identifier v.toList) : Scannable ⟨.enum values, m, d, a⟩
  | struct {fields : List (String × TypeSpec)} {m d a : Bool}
      (names : ∀ f ∈ fields, Identifier f.1.toList) (types : ∀ f ∈ fields, Scannable f.2) :
      Scannable ⟨.struct fields, m, d, a⟩

section Names
variable {inner : Regex Char} {name : List Char}

theorem starts_word_self (nonempty : name ≠ []) (letters : ∀ c ∈ name, isWord c = true)
    (reads : inner.starts name = some name.length) :
    (word inner).starts name = some name.length := by
  obtain ⟨c, rest, rfl⟩ := List.exists_cons_of_ne_nil nonempty
  have head : isWord c = true := letters c List.mem_cons_self
  have last : isWord (c :: rest)[rest.length] = true := letters _ (List.getElem_mem _)
  have opens : (wordBoundary.run (c :: rest) 0).head? = some 0 := by
    simp [wordBoundary, run, before, head]
  have closes : (wordBoundary.run (c :: rest) (c :: rest).length).head? =
      some (c :: rest).length := by
    simp [wordBoundary, run, before, last]
  exact head_run_seq opens (head_run_seq reads closes)

theorem token_of_starts (plain : Plain inner) (nonempty : name ≠ [])
    (starts : (word inner).starts name = some name.length) : Token [word inner] name := by
  have reads : matched [word inner] (name ++ []) = name.length := by
    rw [List.append_nil, matched_singleton, starts]
    rfl
  exact token_word plain nonempty reads

theorem LowercaseWord.typeName (h : LowercaseWord name) : TypeName name := by
  obtain ⟨nonempty, lowercase⟩ := h
  have positive := List.length_pos_iff.mpr nonempty
  have first : (lower.run name 0).head? = some 1 :=
    head_run_one positive (lowercase _ (List.getElem_mem positive))
  have reads : (plus lower).starts name = some name.length := by
    rw [starts_plus first Nat.one_pos]
    exact head_run_star_all (Nat.zero_le _) fun k _ inside => lowercase _ (List.getElem_mem inside)
  have letters : ∀ c ∈ name, isWord c = true := fun c member =>
    isWord_of_lower (lowercase c member)
  exact typeName_of_token (.inl (token_of_starts plain_lower nonempty
    (starts_word_self nonempty letters reads)))

theorem CapitalizedName.typeName (h : CapitalizedName name) : TypeName name := by
  obtain ⟨c, rest, rfl, upper, alphanumeric⟩ := h
  have first : ((one Char.isUpper).run (c :: rest) 0).head? = some 1 :=
    head_run_one (Nat.zero_lt_succ _) upper
  have others : ((Regex.star alphanum).run (c :: rest) 1).head? = some (c :: rest).length := by
    refine head_run_star_all (Nat.le_add_left 1 _) fun k behind inside => ?_
    obtain ⟨k, rfl⟩ : ∃ l, k = l + 1 := ⟨k - 1, by omega⟩
    exact alphanumeric _ (List.getElem_mem (Nat.lt_of_succ_lt_succ inside))
  have letters : ∀ d ∈ c :: rest, isWord d = true := by
    refine List.forall_mem_cons.mpr ⟨isWord_of_alphanum ?_, fun d member =>
      isWord_of_alphanum (alphanumeric d member)⟩
    exact isAlphanum_of_upper upper
  exact typeName_of_token (.inr (token_of_starts plain_member (List.cons_ne_nil _ _)
    (starts_word_self (List.cons_ne_nil _ _) letters (head_run_seq first others))))

theorem Identifier.token (h : Identifier name) : Token [identifierPattern] name := by
  have nonempty : name ≠ [] := by
    rintro rfl
    exact absurd h (by unfold Identifier; decide)
  exact token_of_starts plain_identifier nonempty h

end Names

theorem Scannable.readable {t : TypeSpec} (h : Scannable t) : Readable t := by
  induction h with
  | word word => exact .string word.typeName
  | named named => exact .string named.typeName
  | enum two names => exact .enum two fun v member => (names v member).token
  | struct names _ ih => exact .struct (fun f member => (names f member).token) ih

theorem Written.reads {e : TypeExpr} {text : List Char} (h : Written e text)
    (single : e.isMaybe = false) :
    ∃ n, ∀ stack, n ≤ stack → ∀ (desc after : List Char) (s : Scanner) (wasMaybe : Bool),
      desc.drop s.pos = text ++ after → (e.isBracketed = false → Boundary after) →
        ∃ s', readTypeSpec desc stack wasMaybe s = .ok (e.toSpec, s') ∧ s.Over text s' := by
  cases kind : e.isBracketed with
  | false =>
    obtain ⟨n, reads⟩ := readAs_of_written h
    refine ⟨n + 1, fun stack deep desc after s wasMaybe here delimiter => ?_⟩
    obtain ⟨stack, rfl⟩ : ∃ k, stack = k + 1 := ⟨stack - 1, by omega⟩
    exact reads stack (by omega) desc after s wasMaybe here (delimiter rfl) fun _ => single
  | true =>
    obtain ⟨g, inner, n, rfl, gap, bracketed⟩ := h.bracketed kind
    refine ⟨n + 2, fun stack deep desc after s wasMaybe here _ => ?_⟩
    obtain ⟨stack, rfl⟩ : ∃ k, stack = k + 2 := ⟨stack - 2, by omega⟩
    exact readTypeSpec_of_bracketed gap (TypeExpr.toSpec_of_isBracketed kind) bracketed
      (by omega) here

theorem Scannable.isBracketed {t : TypeSpec} (h : Scannable t) :
    t.baseExpr.isBracketed = !t.isString := by
  cases h <;> rfl

/-- The type printer is inverted by the scanner. -/
theorem readTypeSpec_toText {t : TypeSpec} (scannable : Scannable t) (indent : Int) (depth : Nat) :
    ∃ n, ∀ stack, n ≤ stack → ∀ (desc after : List Char) (s : Scanner) (wasMaybe : Bool),
      desc.drop s.pos = t.toText indent depth ++ after → (t.isString = true → Boundary after) →
        ∃ s', readTypeSpec desc stack wasMaybe s = .ok ({ type := t.type }, s') ∧
          s'.pos = s.pos + (t.toText indent depth).length := by
  have readable := scannable.readable
  obtain ⟨n, reads⟩ := (written_toText readable indent depth).reads (isMaybe_baseExpr t)
  refine ⟨n, fun stack deep desc after s wasMaybe here delimiter => ?_⟩
  have behind : t.baseExpr.isBracketed = false → Boundary after := fun name =>
    delimiter (by rwa [scannable.isBracketed, Bool.not_eq_false'] at name)
  obtain ⟨s', read, across⟩ := reads stack deep desc after s wasMaybe here behind
  rw [toSpec_baseExpr readable] at read
  exact ⟨s', read, across.pos⟩

def brokenLines : TypeSpec :=
  { type := .struct [("a", { type := .string "T", maybeType := true, arrayType := true }),
      ("b", { type := .enum ["x", "y"] })] }

theorem scannable_brokenLines : Scannable brokenLines := by
  have letter (name : List Char) (reads : identifierPattern.starts name = some name.length) :
      Identifier name := reads
  refine .struct ?_ ?_
  · rintro f (_ | ⟨_, _ | ⟨_, ⟨⟩⟩⟩)
    · exact letter ['a'] (by decide)
    · exact letter ['b'] (by decide)
  · rintro f (_ | ⟨_, _ | ⟨_, ⟨⟩⟩⟩)
    · exact .named ⟨'T', [], rfl, rfl, nofun⟩
    · refine .enum (by decide) ?_
      rintro v (_ | ⟨_, _ | ⟨_, ⟨⟩⟩⟩)
      · exact letter ['x'] (by decide)
      · exact letter ['y'] (by decide)

theorem readTypeSpec_toText_lines :
    brokenLines.toText 2 0 = "(\n  a: ?[]T,\n  b: (x, y)\n)".toList ∧
      ∃ n, ∀ stack, n ≤ stack → ∃ s',
        readTypeSpec ("(\n  a: ?[]T,\n  b: (x, y)\n) -> ()".toList) stack false {} =
          .ok ({ type := brokenLines.type }, s') ∧ s'.pos = 26 := by
  have printed : brokenLines.toText 2 0 = "(\n  a: ?[]T,\n  b: (x, y)\n)".toList := by decide
  obtain ⟨n, reads⟩ := readTypeSpec_toText scannable_brokenLines 2 0
  refine ⟨printed, n, fun stack deep => ?_⟩
  obtain ⟨s', read, pos⟩ := reads stack deep _ " -> ()".toList {} false
    (by rw [printed]; rfl) nofun
  rw [printed] at pos
  exact ⟨s', read, pos⟩

end Varlink
