import Mathlib.Data.List.Basic
import Mathlib.Data.List.Lemmas

/-! Backtracking regular expressions over any alphabet. A match is tried from a
position of the subject; `run` lists the positions where it can end in the order in
which a backtracking matcher meets them, so the first one is the match. -/

inductive Regex (α : Type*) where
  | one (p : α → Bool)
  | seq (a b : Regex α)
  | alt (a b : Regex α)
  | star (a : Regex α)
  /-- An assertion on the symbols before and behind the position. -/
  | look (t : Option α → Option α → Bool)

namespace Regex

variable {α : Type*}

def plus (a : Regex α) : Regex α := .seq a (.star a)

def opt (a : Regex α) : Regex α := .alt a (.look fun _ _ => true)

def literal [BEq α] : List α → Regex α
  | [] => .look fun _ _ => true
  | c :: cs => .seq (.one (· == c)) (literal cs)

def rounds (f : Nat → List Nat) : Nat → Nat → List Nat
  | 0, i => [i]
  | n + 1, i => ((f i).filter (i < ·)).flatMap (rounds f n) ++ [i]

def before (w : List α) : Nat → Option α
  | 0 => none
  | i + 1 => w[i]?

def run : Regex α → List α → Nat → List Nat
  | one p, w, i => match w[i]? with
    | some c => if p c then [i + 1] else []
    | none => []
  | seq a b, w, i => (run a w i).flatMap (run b w)
  | alt a b, w, i => run a w i ++ run b w i
  | star a, w, i => rounds (run a w) (w.length - i) i
  | look t, w, i => if t (before w i) w[i]? then [i] else []

def starts (e : Regex α) (w : List α) : Option Nat := (e.run w 0).head?

def search (e : Regex α) (w : List α) : Option (Nat × Nat) :=
  ((List.range (w.length + 1)).find? fun i => !(e.run w i).isEmpty).bind fun i =>
    (e.run w i).head?.map (i, ·)

section Membership
variable {w : List α} {i j : Nat}

@[simp] theorem mem_run_one {p : α → Bool} :
    j ∈ (one p).run w i ↔ j = i + 1 ∧ ∃ c, w[i]? = some c ∧ p c = true := by
  unfold run
  cases here : w[i]? with
  | none => simp
  | some c => cases holds : p c <;> simp [holds]

@[simp] theorem mem_run_seq {a b : Regex α} :
    j ∈ (seq a b).run w i ↔ ∃ k ∈ a.run w i, j ∈ b.run w k := by
  rw [run, List.mem_flatMap]

@[simp] theorem mem_run_alt {a b : Regex α} :
    j ∈ (alt a b).run w i ↔ j ∈ a.run w i ∨ j ∈ b.run w i := by
  rw [run, List.mem_append]

@[simp] theorem mem_run_look {t : Option α → Option α → Bool} :
    j ∈ (look t).run w i ↔ j = i ∧ t (before w i) w[i]? = true := by
  unfold run
  cases holds : t (before w i) w[i]? <;> simp

theorem le_of_mem_rounds {f : Nat → List Nat} {n : Nat} (h : j ∈ rounds f n i) : i ≤ j := by
  induction n generalizing i with
  | zero => exact (List.mem_singleton.mp h).ge
  | succ n ih =>
    rw [rounds, List.mem_append, List.mem_flatMap] at h
    rcases h with ⟨k, step, rest⟩ | stop
    · have progress := of_decide_eq_true (List.mem_filter.mp step).2
      exact Nat.le_trans (Nat.le_of_lt progress) (ih rest)
    · exact (List.mem_singleton.mp stop).ge

theorem rounds_invariant {P : Nat → Prop} {f : Nat → List Nat} {n : Nat}
    (step : ∀ i, P i → ∀ k ∈ f i, P k) (start : P i) (h : j ∈ rounds f n i) : P j := by
  induction n generalizing i with
  | zero => exact List.mem_singleton.mp h ▸ start
  | succ n ih =>
    rw [rounds, List.mem_append, List.mem_flatMap] at h
    rcases h with ⟨k, round, rest⟩ | stop
    · exact ih (step i start k (List.mem_filter.mp round).1) rest
    · exact List.mem_singleton.mp stop ▸ start

theorem le_of_mem_run {e : Regex α} (h : j ∈ e.run w i) : i ≤ j := by
  induction e generalizing i j with
  | one p => have := (mem_run_one.mp h).1; omega
  | seq a b iha ihb =>
    obtain ⟨k, first, second⟩ := mem_run_seq.mp h
    exact Nat.le_trans (iha first) (ihb second)
  | alt a b iha ihb => exact (mem_run_alt.mp h).elim iha ihb
  | star a _ => exact le_of_mem_rounds h
  | look t => exact (mem_run_look.mp h).1.ge

def least : Regex α → Nat
  | one _ => 1
  | seq a b => least a + least b
  | alt a b => min (least a) (least b)
  | star _ => 0
  | look _ => 0

theorem least_le_of_mem_run {e : Regex α} (h : j ∈ e.run w i) : i + e.least ≤ j := by
  induction e generalizing i j with
  | one p => exact (mem_run_one.mp h).1.ge
  | seq a b iha ihb =>
    obtain ⟨k, first, second⟩ := mem_run_seq.mp h
    have left := iha first
    have right := ihb second
    rw [least]
    omega
  | alt a b iha ihb =>
    rw [least]
    rcases mem_run_alt.mp h with h | h
    · have left := iha h
      omega
    · have right := ihb h
      omega
  | star a _ => exact le_of_mem_run h
  | look t => exact le_of_mem_run h

def alphabet : Regex α → α → Prop
  | one p, c => p c = true
  | seq a b, c => alphabet a c ∨ alphabet b c
  | alt a b, c => alphabet a c ∨ alphabet b c
  | star a, c => alphabet a c
  | look _, _ => False

theorem alphabet_of_mem_run {e : Regex α} (h : j ∈ e.run w i) :
    ∀ k, i ≤ k → k < j → ∃ c, w[k]? = some c ∧ e.alphabet c := by
  induction e generalizing i j with
  | one p =>
    obtain ⟨rfl, c, here, holds⟩ := mem_run_one.mp h
    intro k ge lt
    obtain rfl : k = i := by omega
    exact ⟨c, here, holds⟩
  | seq a b iha ihb =>
    obtain ⟨m, first, second⟩ := mem_run_seq.mp h
    intro k ge lt
    by_cases left : k < m
    · obtain ⟨c, here, named⟩ := iha first k ge left
      exact ⟨c, here, .inl named⟩
    · obtain ⟨c, here, named⟩ := ihb second k (by omega) lt
      exact ⟨c, here, .inr named⟩
  | alt a b iha ihb =>
    intro k ge lt
    rcases mem_run_alt.mp h with h | h
    · obtain ⟨c, here, named⟩ := iha h k ge lt
      exact ⟨c, here, .inl named⟩
    · obtain ⟨c, here, named⟩ := ihb h k ge lt
      exact ⟨c, here, .inr named⟩
  | star a ih =>
    refine rounds_invariant
      (P := fun j => ∀ k, i ≤ k → k < j → ∃ c, w[k]? = some c ∧ a.alphabet c) ?_ ?_ h
    · intro m known n round k ge lt
      by_cases left : k < m
      · exact known k ge left
      · exact ih round k (by omega) lt
    · intro k ge lt
      omega
  | look t =>
    obtain ⟨rfl, -⟩ := mem_run_look.mp h
    intro k ge lt
    omega

theorem le_length_of_mem_run {e : Regex α} (h : j ∈ e.run w i) (start : i ≤ w.length) :
    j ≤ w.length := by
  by_contra beyond
  obtain ⟨c, here, -⟩ := alphabet_of_mem_run h (j - 1) (by omega) (by omega)
  have := (List.getElem?_eq_some_iff.mp here).1
  omega

end Membership

section Agreement
variable {w v : List α} {n : Nat}

theorem filter_flatMap_of_le {xs : List Nat} {f : Nat → List Nat} (ge : ∀ x, ∀ y ∈ f x, x ≤ y) :
    (xs.flatMap f).filter (· ≤ n) =
      (xs.filter (· ≤ n)).flatMap fun x => (f x).filter (· ≤ n) := by
  induction xs with
  | nil => rfl
  | cons x xs ih =>
    rw [List.flatMap_cons, List.filter_append, ih]
    by_cases small : x ≤ n
    · rw [List.filter_cons_of_pos (by simpa using small), List.flatMap_cons]
    · have none : (f x).filter (· ≤ n) = [] := by
        rw [List.filter_eq_nil_iff]
        intro y member
        have := ge x y member
        simp only [decide_eq_true_eq]
        omega
      rw [List.filter_cons_of_neg (by simpa using small), none, List.nil_append]

theorem filter_rounds_self (f : Nat → List Nat) (m : Nat) :
    (rounds f m n).filter (· ≤ n) = [n] := by
  cases m with
  | zero => simp [rounds]
  | succ m =>
    have none : (f n).filter (fun x => decide (x ≤ n) && decide (n < x)) = [] := by
      rw [List.filter_eq_nil_iff]
      intro x _
      simp only [Bool.and_eq_true, decide_eq_true_eq, not_and]
      omega
    rw [rounds, List.filter_append, filter_flatMap_of_le fun x y => le_of_mem_rounds,
      List.filter_filter, none]
    simp

theorem filter_rounds_agree {f g : Nat → List Nat}
    (agree : ∀ i ≤ n, (f i).filter (· ≤ n) = (g i).filter (· ≤ n)) {i m k : Nat} (start : i ≤ n)
    (enough : n - i ≤ m) (enough' : n - i ≤ k) :
    (rounds f m i).filter (· ≤ n) = (rounds g k i).filter (· ≤ n) := by
  induction m generalizing i k with
  | zero =>
    obtain rfl : i = n := by omega
    rw [filter_rounds_self, filter_rounds_self]
  | succ m ih =>
    by_cases last : i = n
    · rw [last, filter_rounds_self, filter_rounds_self]
    obtain ⟨k, rfl⟩ : ∃ l, k = l + 1 := ⟨k - 1, by omega⟩
    simp only [rounds, List.filter_append]
    congr 1
    rw [filter_flatMap_of_le fun x y => le_of_mem_rounds,
      filter_flatMap_of_le fun x y => le_of_mem_rounds, List.filter_comm, agree i start,
      List.filter_comm]
    refine List.flatMap_congr fun x member => ?_
    simp only [List.mem_filter, decide_eq_true_eq] at member
    exact ih (by omega) (by omega) (by omega)

/-- No assertion of the expression tells the two symbols behind a position apart. -/
def SameLook : Regex α → Option α → Option α → Prop
  | one _, _, _ => True
  | seq a b, x, y => SameLook a x y ∧ SameLook b x y
  | alt a b, x, y => SameLook a x y ∧ SameLook b x y
  | star a, x, y => SameLook a x y
  | look t, x, y => ∀ p, t p x = t p y

/-- On subjects that start alike, the matches within the common start are the same. -/
theorem filter_run_agree {e : Regex α} (common : ∀ k < n, w[k]? = v[k]?)
    (looks : e.SameLook w[n]? v[n]?) (hw : n ≤ w.length) (hv : n ≤ v.length) {i : Nat}
    (start : i ≤ n) : (e.run w i).filter (· ≤ n) = (e.run v i).filter (· ≤ n) := by
  induction e generalizing i with
  | one p =>
    by_cases inside : i < n
    · rw [run, run, common i inside]
    · have none (u : List α) : ((one p).run u i).filter (· ≤ n) = [] := by
        rw [List.filter_eq_nil_iff]
        intro j member
        have := (mem_run_one.mp member).1
        simp only [decide_eq_true_eq]
        omega
      rw [none w, none v]
  | seq a b iha ihb =>
    rw [run, run, filter_flatMap_of_le fun x y => le_of_mem_run,
      filter_flatMap_of_le fun x y => le_of_mem_run, iha looks.1 start]
    refine List.flatMap_congr fun x member => ?_
    exact ihb looks.2 (of_decide_eq_true (List.mem_filter.mp member).2)
  | alt a b iha ihb =>
    rw [run, run, List.filter_append, List.filter_append, iha looks.1 start, ihb looks.2 start]
  | star a ih =>
    rw [run, run]
    exact filter_rounds_agree (fun i start => ih looks start) start (by omega) (by omega)
  | look t =>
    have behind : before w i = before v i := by
      cases i with
      | zero => rfl
      | succ i => exact common i start
    have ahead : t (before v i) w[i]? = t (before v i) v[i]? := by
      by_cases inside : i < n
      · rw [common i inside]
      · obtain rfl : i = n := by omega
        exact looks _
    rw [run, run, behind, ahead]

theorem getElem?_append_self (w x : List α) : (w ++ x)[w.length]? = x.head? := by
  rw [List.getElem?_append_right (Nat.le_refl _), Nat.sub_self, List.head?_eq_getElem?]

/-- What the expression can match on a common start is also the same if no match
can go past it on the second subject. -/
theorem run_append {e : Regex α} {x y : List α} (looks : e.SameLook x.head? y.head?)
    (stops : ∀ c, y.head? = some c → ¬e.alphabet c) :
    e.run (w ++ y) 0 = (e.run (w ++ x) 0).filter (· ≤ w.length) := by
  have common : ∀ k < w.length, (w ++ x)[k]? = (w ++ y)[k]? := fun k inside => by
    rw [List.getElem?_append_left inside, List.getElem?_append_left inside]
  rw [filter_run_agree common (by simpa only [getElem?_append_self] using looks) (by simp)
    (by simp) (Nat.zero_le _)]
  refine (List.filter_eq_self.mpr fun j member => ?_).symm
  by_contra beyond
  simp only [decide_eq_true_eq] at beyond
  obtain ⟨c, here, named⟩ := alphabet_of_mem_run member w.length (Nat.zero_le _) (by omega)
  exact stops c (getElem?_append_self w y ▸ here) named

theorem starts_append {e : Regex α} {x y : List α} (found : e.starts (w ++ x) = some w.length)
    (looks : e.SameLook x.head? y.head?) (stops : ∀ c, y.head? = some c → ¬e.alphabet c) :
    e.starts (w ++ y) = some w.length := by
  unfold starts at *
  rw [run_append looks stops]
  cases matches_ : e.run (w ++ x) 0 with
  | nil => simp [matches_] at found
  | cons j rest =>
    obtain rfl : j = w.length := by simpa [matches_] using found
    simp

theorem starts_append_none {e : Regex α} {x y : List α} (none : e.starts (w ++ x) = none)
    (looks : e.SameLook x.head? y.head?) (stops : ∀ c, y.head? = some c → ¬e.alphabet c) :
    e.starts (w ++ y) = .none := by
  unfold starts at *
  rw [run_append looks stops, List.head?_eq_none_iff.mp none]
  rfl

end Agreement

section First
variable {w : List α} {i j k : Nat}

theorem head_run_seq {a b : Regex α} (first : (a.run w i).head? = some j)
    (second : (b.run w j).head? = some k) : ((seq a b).run w i).head? = some k := by
  obtain ⟨rest, ends⟩ := List.head?_eq_some_iff.mp first
  rw [run, ends, List.flatMap_cons, List.head?_append, second]
  rfl

theorem of_head_run_seq {a b : Regex α} (total : ∀ j, (b.run w j).head? ≠ none)
    (h : ((seq a b).run w i).head? = some k) :
    ∃ j, (a.run w i).head? = some j ∧ (b.run w j).head? = some k := by
  rw [run] at h
  cases ends : a.run w i with
  | nil => simp [ends] at h
  | cons j rest =>
    refine ⟨j, rfl, ?_⟩
    obtain ⟨m, first⟩ := Option.ne_none_iff_exists'.mp (total j)
    rw [ends, List.flatMap_cons, List.head?_append, first] at h
    rw [first]
    exact h

theorem exists_of_head_run_seq {a b : Regex α} (h : ((seq a b).run w i).head? = some k) :
    ∃ j ∈ a.run w i, (b.run w j).head? = some k := by
  rw [run, List.head?_flatMap] at h
  exact List.exists_of_findSome?_eq_some h

theorem head_run_alt {a b : Regex α} :
    ((alt a b).run w i).head? = ((a.run w i).head?.or (b.run w i).head?) := by
  rw [run, List.head?_append]

theorem starts_alt {a b : Regex α} : (alt a b).starts w = (a.starts w).or (b.starts w) :=
  head_run_alt

theorem head_rounds_ne_none {f : Nat → List Nat} {n : Nat} : (rounds f n i).head? ≠ none := by
  cases n <;> simp [rounds]

theorem head_rounds_fuel {f : Nat → List Nat} {len : Nat} (bounded : ∀ i ≤ len, ∀ j ∈ f i, j ≤ len)
    {m n : Nat} (start : i ≤ len) (enough : len - i ≤ m) (enough' : len - i ≤ n) :
    rounds f m i = rounds f n i := by
  have all (n : Nat) : (rounds f n i).filter (· ≤ len) = rounds f n i := by
    refine List.filter_eq_self.mpr fun j member => decide_eq_true ?_
    exact rounds_invariant (P := (· ≤ len)) bounded start member
  rw [← all m, ← all n]
  exact filter_rounds_agree (fun _ _ => rfl) start enough enough'

theorem head_run_star {a : Regex α} (start : i ≤ w.length) (first : (a.run w i).head? = some j)
    (progress : i < j) : ((star a).run w i).head? = ((star a).run w j).head? := by
  have member : j ∈ a.run w i := List.mem_of_head? first
  have le := le_length_of_mem_run member start
  obtain ⟨n, fuel⟩ : ∃ n, w.length - i = n + 1 := ⟨w.length - i - 1, by omega⟩
  obtain ⟨rest, ends⟩ := List.head?_eq_some_iff.mp first
  rw [run, run, fuel, rounds, List.head?_append, ends,
    List.filter_cons_of_pos (by simpa using progress), List.flatMap_cons, List.head?_append,
    head_rounds_fuel (fun i start j member => le_length_of_mem_run member start) le
      (n := w.length - j) (by omega) (Nat.le_refl _)]
  cases head : (rounds (a.run w) (w.length - j) j).head? with
  | none => exact absurd head head_rounds_ne_none
  | some e => rfl

theorem head_run_one {p : α → Bool} (inside : i < w.length) (named : p w[i] = true) :
    ((one p).run w i).head? = some (i + 1) := by
  rw [run, List.getElem?_eq_getElem inside]
  simp only [named, if_true, List.head?_cons]

theorem head_run_star_none {a : Regex α} (none : a.run w i = []) :
    ((star a).run w i).head? = some i := by
  rw [run]
  cases w.length - i <;> simp [rounds, none]

theorem head_run_star_all {p : α → Bool} (start : i ≤ w.length)
    (all : ∀ k, i ≤ k → (inside : k < w.length) → p w[k] = true) :
    ((star (one p)).run w i).head? = some w.length := by
  obtain ⟨n, len⟩ : ∃ n, w.length - i = n := ⟨_, rfl⟩
  induction n generalizing i with
  | zero =>
    obtain rfl : i = w.length := by omega
    refine head_run_star_none ?_
    rw [run, List.getElem?_eq_none (Nat.le_refl _)]
  | succ n ih =>
    have inside : i < w.length := by omega
    rw [head_run_star start (head_run_one inside (all i (Nat.le_refl i) inside))
      (Nat.lt_succ_self i)]
    exact ih inside (fun k behind => all k (by omega)) (by omega)

theorem of_head_rounds {f : Nat → List Nat} {len n : Nat} (bounded : ∀ i ≤ len, ∀ j ∈ f i, j ≤ len)
    (start : i ≤ len) (enough : len - i ≤ n) (h : (rounds f n i).head? = some j) :
    (∀ k ∈ f j, k ≤ j) ∧ (j = i ∨ ∃ m, i ≤ m ∧ ((f m).filter (m < ·)).head? = some j) := by
  induction n generalizing i with
  | zero =>
    obtain rfl : i = j := by simpa [rounds] using h
    exact ⟨fun k member => Nat.le_trans (bounded i start k member) (by omega), .inl rfl⟩
  | succ n ih =>
    rw [rounds] at h
    cases further : (f i).filter (i < ·) with
    | nil =>
      obtain rfl : i = j := by simpa [further] using h
      refine ⟨fun k member => ?_, .inl rfl⟩
      have := List.filter_eq_nil_iff.mp further k member
      simpa using this
    | cons m ms =>
      have member : m ∈ (f i).filter (i < ·) := by rw [further]; exact List.mem_cons_self
      obtain ⟨round, progress⟩ := List.mem_filter.mp member
      have progress := of_decide_eq_true progress
      have first : (rounds f n m).head? = some j := by
        rw [further, List.flatMap_cons, List.append_assoc, List.head?_append] at h
        cases head : (rounds f n m).head? with
        | none => exact absurd head head_rounds_ne_none
        | some e => simpa [head] using h
      obtain ⟨stops, last⟩ := ih (bounded i start m round) (by omega) first
      refine ⟨stops, .inr ?_⟩
      rcases last with rfl | ⟨l, behind, ends⟩
      · exact ⟨i, Nat.le_refl i, by rw [further]; rfl⟩
      · exact ⟨l, by omega, ends⟩

theorem of_head_run_star {a : Regex α} (start : i ≤ w.length)
    (h : ((star a).run w i).head? = some j) : (∀ k ∈ a.run w j, k ≤ j) ∧
      (j = i ∨ ∃ m, i ≤ m ∧ ((a.run w m).filter (m < ·)).head? = some j) :=
  of_head_rounds (fun _ start _ member => le_length_of_mem_run member start) start (Nat.le_refl _)
    (by rwa [run] at h)

theorem starts_plus {a : Regex α} (first : (a.run w 0).head? = some j) (progress : 0 < j) :
    (plus a).starts w = (star a).starts w := by
  unfold starts
  rw [head_run_star (Nat.zero_le _) first progress]
  cases rest : ((star a).run w j).head? with
  | none => exact absurd rest (by rw [run]; exact head_rounds_ne_none)
  | some k => exact head_run_seq first rest

theorem starts_plus_none {a : Regex α} (none : a.run w 0 = []) : (plus a).starts w = .none := by
  unfold starts plus
  rw [run, none]
  rfl

theorem self_mem_run_star {a : Regex α} : i ∈ (star a).run w i := by
  rw [run]
  cases w.length - i <;> simp [rounds]

theorem mem_run_star {a : Regex α} (start : i ≤ w.length) :
    j ∈ (star a).run w i ↔ j = i ∨ ∃ k ∈ a.run w i, i < k ∧ j ∈ (star a).run w k := by
  by_cases last : i = w.length
  · have done : ∀ k ∈ a.run w i, ¬i < k := fun k round => by
      have := le_length_of_mem_run round start
      omega
    have stop : (star a).run w i = [i] := by
      rw [run, last, Nat.sub_self]
      rfl
    rw [stop, List.mem_singleton]
    exact ⟨.inl, fun h => h.elim id fun ⟨k, round, progress, _⟩ => absurd progress (done k round)⟩
  · obtain ⟨n, fuel⟩ : ∃ n, w.length - i = n + 1 := ⟨w.length - i - 1, by omega⟩
    have rest {k : Nat} (round : k ∈ a.run w i) (progress : i < k) :
        rounds (a.run w) n k = (star a).run w k :=
      head_rounds_fuel (fun i start j member => le_length_of_mem_run member start)
        (le_length_of_mem_run round start) (by omega) (Nat.le_refl _)
    rw [run, fuel, rounds, List.mem_append, List.mem_flatMap, List.mem_singleton, or_comm]
    refine or_congr_right ⟨?_, ?_⟩
    · rintro ⟨k, round, ends⟩
      obtain ⟨round, progress⟩ := List.mem_filter.mp round
      have progress := of_decide_eq_true progress
      exact ⟨k, round, progress, rest round progress ▸ ends⟩
    · rintro ⟨k, round, progress, ends⟩
      refine ⟨k, List.mem_filter.mpr ⟨round, decide_eq_true progress⟩, ?_⟩
      exact rest round progress ▸ ends

end First

/-! The same on a subject that is known from the position on. -/

section Drop
variable {w x : List α} {i j : Nat}

theorem drop_add_of_drop {y : List α} (here : w.drop i = y ++ x) : w.drop (i + y.length) = x := by
  rw [← List.drop_drop, here, List.drop_left]

theorem mem_run_one_drop {p : α → Bool} :
    j ∈ (one p).run w i ↔ ∃ c x, w.drop i = c :: x ∧ p c = true ∧ j = i + 1 := by
  rw [mem_run_one]
  constructor
  · rintro ⟨rfl, c, here, holds⟩
    obtain ⟨lt, rfl⟩ := List.getElem?_eq_some_iff.mp here
    exact ⟨w[i], w.drop (i + 1), List.drop_eq_getElem_cons lt, holds, rfl⟩
  · rintro ⟨c, x, here, holds, rfl⟩
    refine ⟨rfl, c, ?_, holds⟩
    rw [← List.head?_drop, here]
    rfl

theorem mem_run_literal [BEq α] [LawfulBEq α] {cs : List α} :
    j ∈ (literal cs).run w i ↔ ∃ x, w.drop i = cs ++ x ∧ j = i + cs.length := by
  induction cs generalizing i with
  | nil => simp [literal]
  | cons c cs ih =>
    rw [literal, mem_run_seq]
    constructor
    · rintro ⟨k, head, tail⟩
      obtain ⟨d, x, here, same, rfl⟩ := mem_run_one_drop.mp head
      obtain rfl : d = c := eq_of_beq same
      obtain ⟨y, here', rfl⟩ := ih.mp tail
      rw [← List.drop_drop, here] at here'
      obtain rfl : x = cs ++ y := here'
      exact ⟨y, here, by rw [List.length_cons]; omega⟩
    · rintro ⟨x, here, rfl⟩
      refine ⟨i + 1, mem_run_one_drop.mpr ⟨c, cs ++ x, here, beq_self_eq_true c, rfl⟩, ?_⟩
      refine ih.mpr ⟨x, ?_, by rw [List.length_cons]; omega⟩
      rw [← List.drop_drop, here]
      rfl

theorem mem_run_star_one {p : α → Bool} (start : i ≤ w.length) :
    j ∈ (star (one p)).run w i ↔
      ∃ y x, w.drop i = y ++ x ∧ (∀ c ∈ y, p c = true) ∧ j = i + y.length := by
  constructor
  · intro ends
    have le := le_of_mem_run ends
    have inside := le_length_of_mem_run ends start
    refine ⟨(w.drop i).take (j - i), (w.drop i).drop (j - i), (List.take_append_drop _ _).symm,
      fun c member => ?_, ?_⟩
    · obtain ⟨k, lt, rfl⟩ := List.mem_iff_getElem.mp member
      simp only [List.length_take, List.length_drop] at lt
      obtain ⟨c, here, named⟩ := alphabet_of_mem_run ends (i + k) (by omega) (by omega)
      rw [List.getElem_take, List.getElem_drop]
      rw [List.getElem?_eq_getElem (by omega)] at here
      cases here
      exact named
    · rw [List.length_take, List.length_drop]
      omega
  · rintro ⟨y, x, here, all, rfl⟩
    induction y generalizing i with
    | nil => exact self_mem_run_star
    | cons c y ih =>
      have lt : i < w.length := by
        by_contra beyond
        rw [List.drop_eq_nil_of_le (by omega)] at here
        cases here
      rw [mem_run_star start]
      refine .inr ⟨i + 1, mem_run_one_drop.mpr ⟨c, y ++ x, here, all c List.mem_cons_self, rfl⟩,
        Nat.lt_succ_self i, ?_⟩
      have next := ih (i := i + 1) lt (by rw [← List.drop_drop, here]; rfl)
        fun d member => all d (List.mem_cons_of_mem c member)
      rwa [List.length_cons, Nat.add_comm y.length, ← Nat.add_assoc]

end Drop

section Search
variable {e : Regex α} {w : List α} {i j : Nat}

theorem search_eq_some_iff : e.search w = some (i, j) ↔
    i ≤ w.length ∧ (e.run w i).head? = some j ∧ ∀ k < i, e.run w k = [] := by
  rw [search, Option.bind_eq_some_iff]
  constructor
  · rintro ⟨k, found, ends⟩
    obtain ⟨-, within, least⟩ := List.find?_range_eq_some.mp found
    obtain ⟨j', ends, same⟩ := Option.map_eq_some_iff.mp ends
    cases same
    exact ⟨Nat.lt_succ_iff.mp (List.mem_range.mp within), ends,
      fun k lt => by simpa using least k lt⟩
  · rintro ⟨within, ends, least⟩
    refine ⟨i, List.find?_range_eq_some.mpr ⟨?_, ?_, fun k lt => by simp [least k lt]⟩, ?_⟩
    · cases run : e.run w i with
      | nil => simp [run] at ends
      | cons => rfl
    · exact List.mem_range.mpr (Nat.lt_succ_iff.mpr within)
    · rw [ends]
      rfl

theorem search_eq_zero_iff : e.search w = some (0, j) ↔ e.starts w = some j := by
  rw [search_eq_some_iff]
  exact ⟨fun h => h.2.1, fun h => ⟨Nat.zero_le _, h, fun k lt => absurd lt (Nat.not_lt_zero k)⟩⟩

theorem search_eq_none_iff : e.search w = none ↔ ∀ i ≤ w.length, e.run w i = [] := by
  constructor
  · intro none i within
    rw [search, Option.bind_eq_none_iff] at none
    by_contra found
    cases least : (List.range (w.length + 1)).find? fun i => !(e.run w i).isEmpty with
    | none =>
      have := List.find?_range_eq_none.mp least i (Nat.lt_succ_iff.mpr within)
      simp [found] at this
    | some k =>
      have some := (List.find?_range_eq_some.mp least).1
      have := none k least
      simp only [Option.map_eq_none_iff, List.head?_eq_none_iff] at this
      simp [this] at some
  · intro none
    rw [search, List.find?_range_eq_none.mpr fun i lt => by simp [none i (Nat.lt_succ_iff.mp lt)]]
    rfl

end Search

end Regex
