import Varlink.Json

/-! The C++ exceptions that the modelled code throws, catches or lets pass, by
the classes its catch clauses tell apart. -/

namespace Varlink

/-- The classes of `std::exception` that no catch clause has a case for. -/
inductive StandardClass where
  | runtimeError
  | invalidArgument
  | badVariantAccess
  /-- The exceptions of the JSON package. -/
  | json
  | other
deriving DecidableEq, Repr

inductive Exn where
  | outOfRange (what : String)
  | badFunctionCall
  | invalidParameter (what : String)
  | varlinkError (what : String) (args : Json)
  | systemError
  /-- Any other class derived from `std::exception`. -/
  | standard (type : StandardClass) (what : String)
  /-- An exception that is no `std::exception`. -/
  | foreign
deriving Inhabited

/-- How a computation ends other than with a value. Only what is thrown can be
caught: a recursion deeper than the stack and a failed `assert` end the process. -/
inductive Stop where
  | thrown (e : Exn)
  | stackOverflow
  | assertion

/-- A step on the state `σ` of whoever runs it. What it did before it stopped stays done. -/
abbrev Action (σ : Type) (α : Type) := σ → Except Stop α × σ

theorem map_eq_error_iff {ε α β : Type} {f : α → β} {x : Except ε α} {e : ε} :
    x.map f = .error e ↔ x = .error e := by
  cases x <;> simp [Except.map]

theorem of_bind_eq_ok {ε α β : Type} {x : Except ε α} {f : α → Except ε β} {b : β}
    (h : x >>= f = .ok b) : ∃ a, x = .ok a ∧ f a = .ok b := by
  cases x with
  | error e => cases h
  | ok a => exact ⟨a, rfl, h⟩

theorem of_bind_eq_error {ε α β : Type} {x : Except ε α} {f : α → Except ε β} {e : ε}
    (h : x >>= f = .error e) : x = .error e ∨ ∃ a, x = .ok a ∧ f a = .error e := by
  cases x with
  | error e' => cases h; exact .inl rfl
  | ok a => exact .inr ⟨a, rfl, h⟩

theorem of_mapError_eq_error {ε δ α : Type} {f : ε → δ} {x : Except ε α} {d : δ}
    (h : x.mapError f = .error d) : ∃ e, x = .error e ∧ f e = d := by
  cases x with
  | error e => cases h; exact ⟨e, rfl, rfl⟩
  | ok a => cases h

theorem of_mapError_eq_ok {ε δ α : Type} {f : ε → δ} {x : Except ε α} {a : α}
    (h : x.mapError f = .ok a) : x = .ok a := by
  cases x with
  | error e => cases h
  | ok b => cases h; rfl

theorem eventually_forall {α : Type} {P : α → Nat → Prop} {xs : List α}
    (h : ∀ x ∈ xs, ∃ n, ∀ s, n ≤ s → P x s) : ∃ n, ∀ s, n ≤ s → ∀ x ∈ xs, P x s := by
  induction xs with
  | nil => exact ⟨0, nofun⟩
  | cons x rest ih =>
    obtain ⟨n, head⟩ := h x List.mem_cons_self
    obtain ⟨m, tail⟩ := ih fun y member => h y (List.mem_cons_of_mem x member)
    refine ⟨max n m, fun s le => List.forall_mem_cons.mpr ⟨head s ?_, tail s ?_⟩⟩
    · exact Nat.le_trans (Nat.le_max_left n m) le
    · exact Nat.le_trans (Nat.le_max_right n m) le

/-- `json::dump`: the text, or the exception it throws on a string that is not UTF-8. -/
abbrev Dump := Json → Except Exn String

end Varlink
