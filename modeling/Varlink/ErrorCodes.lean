import Mathlib
import Varlink.AsyncClient
import Varlink.Library.Interning

/-! The error codes that stand for the error names of replies. The category is shared
by the whole process and numbers the names as they come in; `no_error` has number 0. -/

namespace Varlink

structure VarlinkErrorCategory where
  errors : List String := ["no_error"]

namespace VarlinkErrorCategory

/-- `static_cast<int>` of an index. -/
def toInt (idx : Nat) : Int := Int.bmod idx (2 ^ 32)

/-- `static_cast<size_t>` of an `int`. -/
def toSize (c : Int) : Nat := (c % 2 ^ 64).toNat

def message (category : VarlinkErrorCategory) (c : Int) : String :=
  category.errors[toSize c]?.getD "unknown"

/-- `get_error_code`: the value of the code, and the category with the name in it. -/
def getErrorCode (category : VarlinkErrorCategory) (error : String) :
    Int × VarlinkErrorCategory :=
  let idx := category.errors.idxOf error
  if idx = category.errors.length then (toInt idx, ⟨category.errors ++ [error]⟩)
  else (toInt idx, category)

/-- The category of a process that has handled error replies with these names. -/
def after (names : List String) : VarlinkErrorCategory :=
  names.foldl (fun category name => (category.getErrorCode name).2) {}

/-- The value of what `make_varlink_error` returns for a name, after others. -/
def code (before : List String) (name : String) : Int := ((after before).getErrorCode name).1

/-- Each name is a failure of its own, and its code keeps saying so. -/
structure OneToOne (names : List String) : Prop where
  failing : ∀ before name rest, names = before ++ name :: rest → code before name ≠ 0
  message : ∀ before name later rest, names = before ++ name :: later ++ rest →
    (after (before ++ name :: later)).message (code before name) = name
  distinct : ∀ before name rest before' name' rest', names = before ++ name :: rest →
    names = before' ++ name' :: rest' → (code before name = code before' name' ↔ name = name')
  reported : ∀ name ∈ names, ∀ mode call reply invocation,
    reply.find? "error" = some (.string name) →
    AsyncClient.invocationOf mode call (.message reply) = .ok invocation →
    invocation.ec.isError = true

/-- No name is that of success, and the names whose number does not fit an `int` are all
called what the category says of a number it does not know. -/
structure Numbered (names : List String) : Prop where
  failure : "no_error" ∉ names
  fits : ∀ before name rest, names = before ++ name :: rest →
    name ∈ before ∨ before.toFinset.card + 1 < 2 ^ 31 ∨ name = "unknown"

def slot (names : List String) (name : String) : Nat := (after names).errors.idxOf name

variable {names before rest : List String} {name : String}

theorem getErrorCode_eq (category : VarlinkErrorCategory) (error : String) :
    category.getErrorCode error =
      (toInt (category.errors.idxOf error), ⟨Interning.intern category.errors error⟩) := by
  rw [getErrorCode, Interning.intern]
  by_cases member : error ∈ category.errors
  · rw [if_neg (List.idxOf_eq_length_iff.not.mpr (not_not.mpr member)), if_pos member]
  · rw [if_pos (List.idxOf_eq_length_iff.mpr member), if_neg member]

theorem errors_after (names : List String) :
    (after names).errors = Interning.internAll ["no_error"] names := by
  suffices ∀ category : VarlinkErrorCategory,
      (names.foldl (fun category name => (category.getErrorCode name).2) category).errors =
        Interning.internAll category.errors names from this {}
  induction names with
  | nil => exact fun category => rfl
  | cons name names ih =>
    intro category
    rw [List.foldl_cons, ih, getErrorCode_eq]
    rfl

theorem mem_errors_after : name ∈ (after names).errors ↔ name = "no_error" ∨ name ∈ names := by
  rw [errors_after, Interning.mem_internAll, List.mem_singleton]

theorem nodup_errors_after (names : List String) : (after names).errors.Nodup := by
  rw [errors_after]
  exact Interning.nodup_internAll (List.nodup_singleton _)

theorem slot_append (member : name ∈ before) (later : List String) :
    slot (before ++ later) name = slot before name := by
  rw [slot, slot, errors_after, errors_after, Interning.internAll_append]
  refine Interning.idxOf_internAll ?_
  rw [Interning.mem_internAll]
  exact .inr member

theorem code_eq (split : names = before ++ name :: rest) :
    code before name = toInt (slot names name) := by
  have first : code before name = toInt (slot (before ++ [name]) name) := by
    rw [code, getErrorCode_eq, slot, errors_after, errors_after, Interning.internAll_append,
      Interning.internAll_singleton, Interning.idxOf_intern]
  have moved : slot (before ++ [name] ++ rest) name = slot (before ++ [name]) name :=
    slot_append (by simp) rest
  rw [first, split, List.append_cons before name rest, moved]

theorem getElem?_slot (member : name ∈ names) :
    (after names).errors[slot names name]? = some name :=
  List.getElem?_idxOf (mem_errors_after.mpr (.inr member))

theorem slot_lt (member : name ∈ names) : slot names name < (after names).errors.length :=
  List.idxOf_lt_length_of_mem (mem_errors_after.mpr (.inr member))

theorem slot_ne_zero (named : name ≠ "no_error") : slot names name ≠ 0 := by
  have stored : (after names).errors.idxOf "no_error" = 0 := by
    rw [errors_after, Interning.idxOf_internAll (List.mem_singleton_self _)]
    rfl
  intro zero
  have first : "no_error" ∈ (after names).errors := mem_errors_after.mpr (.inl rfl)
  exact named ((List.idxOf_inj first).mp (stored.trans zero.symm)).symm

theorem slot_no_error : slot names "no_error" = 0 := by
  rw [slot, errors_after, Interning.idxOf_internAll (List.mem_singleton_self _)]
  rfl

theorem slot_inj {other : String} (member : name ∈ names) :
    slot names name = slot names other ↔ name = other :=
  List.idxOf_inj (mem_errors_after.mpr (.inr member))

theorem length_errors_after (failure : "no_error" ∉ names) :
    (after names).errors.length = names.toFinset.card + 1 := by
  rw [errors_after, Interning.length_internAll (List.nodup_singleton _), List.singleton_append,
    List.toFinset_cons, Finset.card_insert_of_notMem (by simpa using failure)]

theorem errors_of_new (named : name ≠ "no_error") (new : name ∉ before) :
    (after (before ++ [name])).errors = (after before).errors ++ [name] := by
  have unseen : name ∉ (after before).errors := by
    rw [mem_errors_after]
    exact fun known => known.elim named new
  rw [errors_after, Interning.internAll_append, Interning.internAll_singleton, ← errors_after,
    Interning.intern, if_neg unseen]

theorem slot_of_new (failure : "no_error" ∉ names) (split : names = before ++ name :: rest)
    (new : name ∉ before) : slot names name = before.toFinset.card + 1 ∧
      (after (before ++ [name])).errors.length = slot names name + 1 := by
  rw [split] at failure
  have earlier : "no_error" ∉ before := fun member => failure (List.mem_append_left _ member)
  have named : name ≠ "no_error" := by
    rintro rfl
    exact failure (by simp)
  have unseen : name ∉ (after before).errors := by
    rw [mem_errors_after]
    exact fun known => known.elim named new
  have stored : slot (before ++ [name]) name = (after before).errors.length := by
    rw [slot, errors_of_new named new, List.idxOf_append_of_notMem unseen]
    simp
  have moved : slot (before ++ [name] ++ rest) name = slot (before ++ [name]) name :=
    slot_append (by simp) rest
  rw [split, List.append_cons before name rest, moved, stored, errors_of_new named new,
    List.length_append, length_errors_after earlier]
  exact ⟨rfl, rfl⟩

/-- A number that fits an `int` is its own code, and the next ones are negative. -/
theorem toInt_eq {idx : Nat} (small : idx < 2 ^ 32) :
    toInt idx = if idx < 2 ^ 31 then (idx : Int) else (idx : Int) - 2 ^ 32 := by
  change Int.bmod idx (2 ^ 32) = _
  split
  next fits => exact Int.bmod_eq_of_le (by omega) (by omega)
  next large =>
    have same : (idx : Int) % (2 ^ 32 : Nat) = idx := Int.emod_eq_of_lt (by omega) (by omega)
    rw [Int.bmod_neg _ _ (by rw [same]; omega), same]
    omega

theorem toInt_ne_zero_iff {idx : Nat} (small : idx < 2 ^ 32) : toInt idx ≠ 0 ↔ idx ≠ 0 := by
  rw [toInt_eq small]
  split <;> omega

theorem toInt_inj {i j : Nat} (hi : i < 2 ^ 32) (hj : j < 2 ^ 32) :
    toInt i = toInt j ↔ i = j := by
  rw [toInt_eq hi, toInt_eq hj]
  split <;> split <;> omega

theorem toSize_toInt_of_lt {idx : Nat} (small : idx < 2 ^ 31) : toSize (toInt idx) = idx := by
  rw [toInt_eq (by omega), if_pos small, toSize]
  omega

theorem toSize_toInt_of_ge {idx : Nat} (large : 2 ^ 31 ≤ idx) (small : idx < 2 ^ 32) :
    toSize (toInt idx) = 2 ^ 64 - 2 ^ 32 + idx := by
  rw [toInt_eq small, if_neg (by omega), toSize]
  omega

theorem code_ne_zero_iff (split : names = before ++ name :: rest)
    (small : slot names name < 2 ^ 32) :
    code before name ≠ 0 ↔ (ErrorCode.varlink name).isError = true := by
  rw [code_eq split, toInt_ne_zero_iff small, ErrorCode.isError, bne_iff_ne]
  refine ⟨?_, slot_ne_zero⟩
  rintro given rfl
  exact given slot_no_error

theorem message_of_slot_lt (member : name ∈ names) (small : slot names name < 2 ^ 31) :
    (after names).message (toInt (slot names name)) = name := by
  rw [message, toSize_toInt_of_lt small, getElem?_slot member]
  rfl

theorem message_of_slot_ge (few : (after names).errors.length < 2 ^ 32)
    (member : name ∈ names) (large : 2 ^ 31 ≤ slot names name) :
    (after names).message (toInt (slot names name)) = "unknown" := by
  have small := slot_lt member
  rw [message, toSize_toInt_of_ge large (by omega), List.getElem?_eq_none (by omega)]
  rfl

theorem ec_of_error {mode : Callmode} {call : Nat} {reply : Json} {invocation : Invocation}
    (error : reply.find? "error" = some (.string name))
    (ok : AsyncClient.invocationOf mode call (.message reply) = .ok invocation) :
    invocation.ec = .varlink name := by
  have given : AsyncClient.replyError .none reply = .ok (.varlink name) := by
    rw [AsyncClient.replyError, Json.contains, Json.member, error]
    rfl
  rw [AsyncClient.invocationOf] at ok
  dsimp only at ok
  rw [given] at ok
  obtain ⟨ec, ⟨⟩, ok⟩ := of_bind_eq_ok ok
  split at ok
  all_goals
    obtain ⟨continues, -, ok⟩ := of_bind_eq_ok ok
    obtain ⟨parameters, -, ok⟩ := of_bind_eq_ok ok
    cases ok
    rfl

theorem exists_slot (names : List String) (idx : Nat) (given : idx ≠ 0)
    (bound : idx < (after names).errors.length) : ∃ name ∈ names, slot names name = idx := by
  have place : slot names ((after names).errors[idx]) = idx :=
    (nodup_errors_after names).idxOf_getElem idx bound
  refine ⟨(after names).errors[idx], ?_, place⟩
  refine (mem_errors_after.mp (List.getElem_mem bound)).resolve_left fun same => given ?_
  rw [← place, same, slot_no_error]

namespace OneToOne

variable (h : OneToOne names)
include h

theorem failure : "no_error" ∉ names := by
  intro given
  obtain ⟨before, rest, split, -⟩ := List.eq_append_cons_of_mem given
  refine h.failing before _ rest split ?_
  rw [code_eq split, slot_no_error]
  rfl

theorem unknown_of_slot (member : name ∈ names) (large : 2 ^ 31 ≤ slot names name)
    (small : slot names name + 1 < 2 ^ 32) : name = "unknown" := by
  obtain ⟨before, rest, split, new⟩ := List.eq_append_cons_of_mem member
  have here : name ∈ before ++ [name] := by simp
  have stored : slot (before ++ [name] ++ rest) name = slot (before ++ [name]) name :=
    slot_append here rest
  rw [← List.append_cons before name rest, ← split] at stored
  have few := (slot_of_new h.failure split new).2
  have said := h.message before name [] rest (by simpa using split)
  rw [code_eq split, stored, message_of_slot_ge (by omega) here (by omega)] at said
  exact said.symm

theorem length_errors : (after names).errors.length ≤ 2 ^ 31 + 1 := by
  by_contra! many
  have stored (idx : Nat) (large : 2 ^ 31 ≤ idx) (small : idx ≤ 2 ^ 31 + 1) :
      idx = slot names "unknown" := by
    obtain ⟨name, member, rfl⟩ := exists_slot names idx (by omega) (by omega)
    rw [← h.unknown_of_slot member large (by omega)]
  have same := (stored (2 ^ 31) (by omega) (by omega)).trans
    (stored (2 ^ 31 + 1) (by omega) (by omega)).symm
  omega

end OneToOne

namespace Numbered

variable (h : Numbered names)
include h

theorem unknown_of_slot (member : name ∈ names) (large : 2 ^ 31 ≤ slot names name) :
    name = "unknown" := by
  obtain ⟨before, rest, split, new⟩ := List.eq_append_cons_of_mem member
  have place := (slot_of_new h.failure split new).1
  obtain old | small | unknown := h.fits before name rest split
  · exact absurd old new
  · omega
  · exact unknown

theorem slot_le (member : name ∈ names) : slot names name ≤ 2 ^ 31 := by
  by_contra! large
  have bound := slot_lt member
  obtain ⟨other, found, place⟩ :=
    exists_slot names (2 ^ 31) (by omega) (by omega)
  have same := h.unknown_of_slot found (by omega)
  rw [← h.unknown_of_slot member (by omega)] at same
  rw [same] at place
  omega

theorem length_errors_le {earlier later : List String} (split : names = earlier ++ later) :
    (after earlier).errors.length ≤ 2 ^ 31 + 1 := by
  by_contra! many
  obtain ⟨other, found, place⟩ :=
    exists_slot earlier (2 ^ 31 + 1) (by omega) (by omega)
  have kept := slot_append found later
  rw [← split, place] at kept
  have few := h.slot_le (split ▸ List.mem_append_left later found : other ∈ names)
  omega

theorem message_eq {earlier later : List String} (split : names = earlier ++ later)
    (member : name ∈ earlier) : (after earlier).message (toInt (slot names name)) = name := by
  have kept := slot_append member later
  rw [← split] at kept
  have few := h.length_errors_le split
  by_cases fits : slot earlier name < 2 ^ 31
  · rw [kept, message_of_slot_lt member fits]
  · rw [kept, message_of_slot_ge (by omega) member (by omega)]
    refine (h.unknown_of_slot ?_ (by omega)).symm
    rw [split]
    exact List.mem_append_left later member

end Numbered

/-- The names of a process are one to one with failing codes exactly if none is `no_error`
and their numbers are those of an `int`. -/
theorem oneToOne_iff_numbered (names : List String) : OneToOne names ↔ Numbered names := by
  constructor
  · intro h
    refine ⟨h.failure, fun before name rest split => ?_⟩
    by_cases new : name ∈ before
    · exact .inl new
    · have member : name ∈ names := split ▸ by simp
      have place := (slot_of_new h.failure split new).1
      have last := h.length_errors
      have bound := slot_lt member
      by_cases fits : slot names name < 2 ^ 31
      · exact .inr (.inl (by omega))
      · exact .inr (.inr (h.unknown_of_slot member (by omega) (by omega)))
  · intro h
    have small (name : String) (member : name ∈ names) : slot names name < 2 ^ 32 := by
      have limit := h.slot_le member
      omega
    have named (name : String) (member : name ∈ names) : name ≠ "no_error" :=
      fun same => h.failure (same ▸ member)
    have failing : ∀ before name rest, names = before ++ name :: rest → code before name ≠ 0 := by
      intro before name rest split
      have member : name ∈ names := split ▸ by simp
      rw [code_eq split, toInt_ne_zero_iff (small name member)]
      exact slot_ne_zero (named name member)
    refine ⟨failing, fun before name later rest split => ?_,
      fun before name rest before' name' rest' split split' => ?_,
      fun name member mode call reply invocation error ok => ?_⟩
    · have whole : names = before ++ name :: (later ++ rest) := by simpa using split
      rw [code_eq whole]
      exact h.message_eq split (by simp)
    · have member : name ∈ names := split ▸ by simp
      have member' : name' ∈ names := split' ▸ by simp
      rw [code_eq split, code_eq split', toInt_inj (small name member) (small name' member'),
        slot_inj member]
    · obtain ⟨before, rest, split, -⟩ := List.eq_append_cons_of_mem member
      rw [ec_of_error error ok]
      exact (code_ne_zero_iff split (small name member)).mp (failing before name rest split)

/-- A peer that calls its error `no_error` has it reported as success. -/
theorem no_error_succeeds : code [] "no_error" = 0 ∧
    (∃ invocation, AsyncClient.invocationOf .basic 0
      (.message (.object [("error", .string "no_error")])) = .ok invocation ∧
      invocation.ec.isError = false) ∧ ¬OneToOne ["no_error"] := by
  refine ⟨by decide, ⟨_, rfl, by decide⟩, fun h => ?_⟩
  exact h.failing [] "no_error" [] rfl (by decide)

end VarlinkErrorCategory

end Varlink
