import Mathlib.Data.List.Basic

/-! Runs of a labelled transition function. `step s e = none` means that event
`e` is not enabled in `s`; a run is a list of events, each enabled where it
happens. Invariants are proved on one step and carried to whole runs here. -/

namespace Runs

variable {σ ε : Type*} (step : σ → ε → Option σ)

def run (s : σ) : List ε → Option σ
  | [] => some s
  | e :: es => (step s e).bind fun t => run t es

@[simp] theorem run_nil (s : σ) : run step s [] = some s := rfl

theorem run_cons (s : σ) (e : ε) (es : List ε) :
    run step s (e :: es) = (step s e).bind fun t => run step t es := rfl

theorem run_append (s : σ) (es fs : List ε) :
    run step s (es ++ fs) = (run step s es).bind fun t => run step t fs := by
  induction es generalizing s with
  | nil => rfl
  | cons e es ih =>
    simp only [List.cons_append, run_cons]
    cases step s e with
    | none => rfl
    | some t => exact ih t

theorem run_append_of_run {s t u : σ} {es fs : List ε}
    (first : run step s es = some t) (last : run step t fs = some u) :
    run step s (es ++ fs) = some u := by
  rw [run_append, first]
  exact last

theorem run_singleton {s t : σ} {e : ε} (h : step s e = some t) :
    run step s [e] = some t := by
  rw [run_cons, h]
  rfl

theorem run_invariant {inv : σ → Prop}
    (hstep : ∀ s e t, inv s → step s e = some t → inv t)
    {s t : σ} {es : List ε} (h0 : inv s) (h : run step s es = some t) : inv t := by
  induction es generalizing s with
  | nil =>
    obtain rfl := Option.some.inj h
    exact h0
  | cons e es ih =>
    rw [run_cons] at h
    obtain ⟨m, hm, ht⟩ := Option.bind_eq_some_iff.mp h
    exact ih (hstep s e m h0 hm) ht

/-- An invariant that also speaks of the events so far. -/
theorem run_history (inv : List ε → σ → Prop)
    (hstep : ∀ es s e t, inv es s → step s e = some t → inv (es ++ [e]) t)
    {s t : σ} {es : List ε} (h0 : inv [] s) (h : run step s es = some t) : inv es t := by
  have longer : ∀ past s, inv past s → run step s es = some t → inv (past ++ es) t := by
    clear h h0 s
    induction es with
    | nil =>
      intro past s hs h
      obtain rfl := Option.some.inj h
      rwa [List.append_nil]
    | cons e es ih =>
      intro past s hs h
      rw [run_cons] at h
      obtain ⟨m, hm, ht⟩ := Option.bind_eq_some_iff.mp h
      rw [List.append_cons]
      exact ih (past ++ [e]) m (hstep past s e m hs hm) ht
  exact longer [] s h0 h

/-- Each event of the run is a good one where it happens. -/
def Along (good : σ → ε → Prop) (s : σ) : List ε → Prop
  | [] => True
  | e :: es => good s e ∧ ∀ t, step s e = some t → Along good t es

instance Along.decidable {good : σ → ε → Prop} [∀ s e, Decidable (good s e)] (s : σ) :
    (es : List ε) → Decidable (Along step good s es)
  | [] => isTrue trivial
  | e :: es =>
    match h : step s e with
    | none => decidable_of_iff (good s e)
        ⟨fun ok => ⟨ok, fun _ taken => nomatch h.symm.trans taken⟩, And.left⟩
    | some t =>
      have : Decidable (Along step good t es) := Along.decidable t es
      decidable_of_iff (good s e ∧ Along step good t es)
        ⟨fun ⟨ok, later⟩ => ⟨ok, fun _ taken => Option.some.inj (h.symm.trans taken) ▸ later⟩,
          fun ⟨ok, later⟩ => ⟨ok, later t h⟩⟩

theorem Along.append {good : σ → ε → Prop} {s t : σ} {es fs : List ε} (h : run step s es = some t)
    (first : Along step good s es) (last : Along step good t fs) :
    Along step good s (es ++ fs) := by
  induction es generalizing s with
  | nil =>
    obtain rfl := Option.some.inj h
    exact last
  | cons e es ih =>
    rw [run_cons] at h
    obtain ⟨m, taken, rest⟩ := Option.bind_eq_some_iff.mp h
    refine ⟨first.1, fun u same => ?_⟩
    cases taken.symm.trans same
    exact ih rest (first.2 m taken)

theorem Along.mono {good better : σ → ε → Prop} (h : ∀ s e, good s e → better s e) {s : σ}
    {es : List ε} (along : Along step good s es) : Along step better s es := by
  induction es generalizing s with
  | nil => trivial
  | cons e es ih => exact ⟨h s e along.1, fun t taken => ih (along.2 t taken)⟩

theorem run_along_invariant {good : σ → ε → Prop} {inv : σ → Prop}
    (hstep : ∀ s e t, inv s → good s e → step s e = some t → inv t)
    {s t : σ} {es : List ε} (h0 : inv s) (along : Along step good s es)
    (h : run step s es = some t) : inv t := by
  induction es generalizing s with
  | nil =>
    obtain rfl := Option.some.inj h
    exact h0
  | cons e es ih =>
    rw [run_cons] at h
    obtain ⟨m, hm, ht⟩ := Option.bind_eq_some_iff.mp h
    exact ih (hstep s e m h0 along.1 hm) (along.2 m hm) ht

/-- Where only an event that is not good leads to a bad state, and a bad state
ends the run, a run ends well exactly if all its events are good. -/
theorem run_ok_iff_along {good : σ → ε → Prop} {bad : σ → Prop}
    (stuck : ∀ s e, bad s → step s e = none)
    (blame : ∀ s e t, step s e = some t → (bad t ↔ ¬ good s e))
    {s t : σ} {es : List ε} (start : ¬ bad s) (h : run step s es = some t) :
    ¬ bad t ↔ Along step good s es := by
  induction es generalizing s with
  | nil =>
    obtain rfl := Option.some.inj h
    exact ⟨fun _ => trivial, fun _ => start⟩
  | cons e es ih =>
    rw [run_cons] at h
    obtain ⟨m, first, rest⟩ := Option.bind_eq_some_iff.mp h
    by_cases ok : good s e
    · have fine : ¬ bad m := fun contra => (blame s e m first).mp contra ok
      rw [ih fine rest]
      refine ⟨fun along => ⟨ok, fun t same => ?_⟩, fun along => along.2 m first⟩
      cases first.symm.trans same
      exact along
    · have gone : bad m := (blame s e m first).mpr ok
      refine ⟨fun fine => ?_, fun along => absurd along.1 ok⟩
      cases es with
      | nil =>
        obtain rfl := Option.some.inj rest
        exact absurd gone fine
      | cons f fs => simp [run_cons, stuck m f gone] at rest

/-- Each run of good steps keeps the invariant; any other run reaches a bad state,
where the first event that is not good leads to one and bad states stay bad. -/
theorem run_along_or_bad {good : σ → ε → Prop} {inv bad : σ → Prop}
    (keep : ∀ s e t, inv s → good s e → step s e = some t → inv t)
    (blame : ∀ s e t, inv s → ¬ good s e → step s e = some t → bad t)
    (lasts : ∀ s e t, bad s → step s e = some t → bad t)
    {s t : σ} {es : List ε} (start : inv s) (h : run step s es = some t) :
    Along step good s es ∧ inv t ∨ ¬ Along step good s es ∧ bad t := by
  induction es generalizing s with
  | nil =>
    obtain rfl := Option.some.inj h
    exact .inl ⟨trivial, start⟩
  | cons e es ih =>
    rw [run_cons] at h
    obtain ⟨m, first, rest⟩ := Option.bind_eq_some_iff.mp h
    by_cases ok : good s e
    · rcases ih (keep s e m start ok first) rest with ⟨along, final⟩ | ⟨astray, final⟩
      · refine .inl ⟨⟨ok, fun t same => ?_⟩, final⟩
        cases first.symm.trans same
        exact along
      · exact .inr ⟨fun along => astray (along.2 m first), final⟩
    · have gone : bad m := blame s e m start ok first
      exact .inr ⟨fun along => ok along.1, run_invariant step lasts gone rest⟩

section Components
variable {τ ι : Type*} {step} {part : σ → τ} {step' : τ → ι → Option τ}

/-- Where each event is one of a component or leaves it as it is, runs of the whole are
runs of the component. -/
theorem run_project {event : ε → Option ι}
    (hstep : ∀ s e t, step s e = some t → run step' (part s) (event e).toList = some (part t))
    {s t : σ} {es : List ε} (h : run step s es = some t) :
    run step' (part s) (es.filterMap event) = some (part t) := by
  induction es generalizing s with
  | nil =>
    obtain rfl := Option.some.inj h
    rfl
  | cons e es ih =>
    rw [run_cons] at h
    obtain ⟨m, first, rest⟩ := Option.bind_eq_some_iff.mp h
    have one := run_append_of_run step' (hstep s e m first) (ih rest)
    cases same : event e with
    | none => rwa [List.filterMap_cons_none same, ← List.nil_append (es.filterMap event),
        ← Option.toList_none, ← same]
    | some f => rwa [List.filterMap_cons_some same, ← List.singleton_append, ← Option.toList_some,
        ← same]

/-- Where the whole takes each good step that a component of it takes, runs of good steps
of the component are runs of the whole. -/
theorem run_lift {lift : ι → ε} {good : ι → Prop} {inv : σ → Prop}
    (hstep : ∀ s f p, inv s → good f → step' (part s) f = some p →
      ∃ t, step s (lift f) = some t ∧ part t = p ∧ inv t)
    {s : σ} {p : τ} {fs : List ι} (start : inv s) (all : ∀ f ∈ fs, good f)
    (h : run step' (part s) fs = some p) :
    ∃ t, run step s (fs.map lift) = some t ∧ part t = p ∧ inv t := by
  induction fs generalizing s with
  | nil =>
    obtain rfl := Option.some.inj h
    exact ⟨s, rfl, rfl, start⟩
  | cons f fs ih =>
    rw [run_cons] at h
    obtain ⟨m, first, rest⟩ := Option.bind_eq_some_iff.mp h
    obtain ⟨ok, others⟩ := List.forall_mem_cons.mp all
    obtain ⟨u, taken, rfl, kept⟩ := hstep s f m start ok first
    obtain ⟨t, later, final, kept⟩ := ih kept others rest
    refine ⟨t, ?_, final, kept⟩
    rw [List.map_cons, run_cons, taken]
    exact later

end Components

theorem along_iff_forall {good : ε → Prop} {s t : σ} {es : List ε} (h : run step s es = some t) :
    Along step (fun _ e => good e) s es ↔ ∀ e ∈ es, good e := by
  induction es generalizing s with
  | nil => exact ⟨fun _ => List.forall_mem_nil _, fun _ => trivial⟩
  | cons e es ih =>
    rw [run_cons] at h
    obtain ⟨m, first, rest⟩ := Option.bind_eq_some_iff.mp h
    rw [List.forall_mem_cons, ← ih rest]
    refine ⟨fun along => ⟨along.1, along.2 m first⟩, fun along => ⟨along.1, fun t same => ?_⟩⟩
    cases first.symm.trans same
    exact along.2

theorem run_along_grows {good : σ → ε → Prop} (inv : σ → Prop) (measure : σ → Int)
    (keep : ∀ s e t, inv s → good s e → step s e = some t → inv t)
    (grows : ∀ s e t, inv s → good s e → step s e = some t → measure s + 1 ≤ measure t)
    {s t : σ} {es : List ε} (start : inv s) (along : Along step good s es)
    (h : run step s es = some t) : inv t ∧ measure s + es.length ≤ measure t := by
  induction es generalizing s with
  | nil =>
    obtain rfl := Option.some.inj h
    exact ⟨start, by simp⟩
  | cons e es ih =>
    rw [run_cons] at h
    obtain ⟨m, first, rest⟩ := Option.bind_eq_some_iff.mp h
    obtain ⟨final, more⟩ := ih (keep s e m start along.1 first) (along.2 m first) rest
    have one := grows s e m start along.1 first
    refine ⟨final, ?_⟩
    rw [List.length_cons]
    omega

/-- Where a good step is possible until a goal is reached, and the measure that good steps
raise is bounded, some run of good steps reaches the goal. -/
theorem exists_run_along_of_goesOn {good : σ → ε → Prop} (inv : σ → Prop) (measure : σ → Int)
    {goal : σ → Prop} {bound : Int}
    (keep : ∀ s e t, inv s → good s e → step s e = some t → inv t)
    (grows : ∀ s e t, inv s → good s e → step s e = some t → measure s + 1 ≤ measure t)
    (bounded : ∀ s, inv s → measure s ≤ bound)
    (goesOn : ∀ s, inv s → goal s ∨ ∃ e t, good s e ∧ step s e = some t) {s : σ}
    (start : inv s) :
    ∃ es t, Along step good s es ∧ run step s es = some t ∧ inv t ∧ goal t := by
  generalize left : (bound - measure s).toNat = n
  induction n using Nat.strongRecOn generalizing s with
  | ind n ih =>
    rcases goesOn s start with reached | ⟨e, m, ok, taken⟩
    · exact ⟨[], s, trivial, rfl, start, reached⟩
    · have kept := keep s e m start ok taken
      have more := grows s e m start ok taken
      have most := bounded m kept
      obtain ⟨es, t, along, rest, final, reached⟩ := ih _ (by omega) kept rfl
      refine ⟨e :: es, t, ⟨ok, fun u same => ?_⟩, ?_, final, reached⟩
      · cases taken.symm.trans same
        exact along
      · rw [run_cons, taken]
        exact rest

theorem run_grows {good : ε → Prop} (inv : σ → Prop) (measure : σ → Int)
    (keep : ∀ s e t, inv s → good e → step s e = some t → inv t)
    (grows : ∀ s e t, inv s → good e → step s e = some t → measure s + 1 ≤ measure t)
    {s t : σ} {es : List ε} (start : inv s) (all : ∀ e ∈ es, good e)
    (h : run step s es = some t) : inv t ∧ measure s + es.length ≤ measure t :=
  run_along_grows step inv measure keep grows start ((along_iff_forall step h).mpr all) h

theorem exists_run_of_goesOn {good : ε → Prop} (inv : σ → Prop) (measure : σ → Int)
    {goal : σ → Prop} {bound : Int} (keep : ∀ s e t, inv s → good e → step s e = some t → inv t)
    (grows : ∀ s e t, inv s → good e → step s e = some t → measure s + 1 ≤ measure t)
    (bounded : ∀ s, inv s → measure s ≤ bound)
    (goesOn : ∀ s, inv s → goal s ∨ ∃ e t, good e ∧ step s e = some t) {s : σ} (start : inv s) :
    ∃ es t, (∀ e ∈ es, good e) ∧ run step s es = some t ∧ inv t ∧ goal t := by
  obtain ⟨es, t, along, taken, final, reached⟩ :=
    exists_run_along_of_goesOn step inv measure keep grows bounded goesOn start
  exact ⟨es, t, (along_iff_forall step taken).mp along, taken, final, reached⟩

end Runs
