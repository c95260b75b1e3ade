import Mathlib.Data.List.Basic

/-! Streams of frames that a delimiter ends. `encode` writes each frame with its
delimiter; where frames hold no delimiter, a stream has one reading as complete
frames and an unfinished rest, and a prefix of a stream has a prefix of its frames. -/

namespace Delimited

variable {α : Type*}

def encode (d : α) (frames : List (List α)) : List α :=
  frames.flatMap (· ++ [d])

@[simp] theorem encode_nil (d : α) : encode d [] = [] := rfl

@[simp] theorem encode_cons (d : α) (f : List α) (fs : List (List α)) :
    encode d (f :: fs) = f ++ d :: encode d fs := by
  simp [encode]

@[simp] theorem encode_append (d : α) (fs gs : List (List α)) :
    encode d (fs ++ gs) = encode d fs ++ encode d gs := by
  simp [encode]

theorem length_le_encode (d : α) (frames : List (List α)) :
    frames.length ≤ (encode d frames).length := by
  induction frames with
  | nil => exact Nat.le_refl 0
  | cons f fs ih =>
    simp only [encode_cons, List.length_append, List.length_cons]
    omega

/-- `s` is the complete frames `frames` and the unfinished frame `rest`. -/
structure Reads (d : α) (s : List α) (frames : List (List α)) (rest : List α) : Prop where
  eq : s = encode d frames ++ rest
  frames_clean : ∀ f ∈ frames, d ∉ f
  rest_clean : d ∉ rest

theorem reads_encode {d : α} {fs : List (List α)} (clean : ∀ f ∈ fs, d ∉ f) :
    Reads d (encode d fs) fs [] :=
  ⟨(List.append_nil _).symm, clean, List.not_mem_nil⟩

theorem split_unique {d : α} {f g x y : List α} (hf : d ∉ f) (hg : d ∉ g)
    (h : f ++ d :: x = g ++ d :: y) : f = g ∧ x = y := by
  induction f generalizing g with
  | nil =>
    cases g with
    | nil => exact ⟨rfl, (List.cons.inj h).2⟩
    | cons b g =>
      have hb : d = b := (List.cons.inj h).1
      exact absurd (hb ▸ List.mem_cons_self) hg
  | cons a f ih =>
    cases g with
    | nil =>
      have ha : a = d := (List.cons.inj h).1
      exact absurd (ha ▸ List.mem_cons_self) hf
    | cons b g =>
      obtain ⟨hab, htail⟩ := List.cons.inj h
      have hrec := ih (fun hm => hf (List.mem_cons_of_mem a hm))
        (fun hm => hg (List.mem_cons_of_mem b hm)) htail
      exact ⟨by rw [hab, hrec.1], hrec.2⟩

/-- The frames of a prefix are a prefix of the frames, and what is unfinished
in the prefix is the beginning of what follows these frames in the stream. -/
theorem Reads.of_isPrefix {d : α} {s t : List α} {fs gs : List (List α)} {x y : List α}
    (hs : Reads d s fs x) (ht : Reads d t gs y) (h : s <+: t) :
    ∃ hs, gs = fs ++ hs ∧ x <+: encode d hs ++ y := by
  obtain ⟨rfl, hf, hx⟩ := hs
  obtain ⟨rfl, hg, hy⟩ := ht
  induction fs generalizing gs with
  | nil => exact ⟨gs, rfl, by simpa using h⟩
  | cons f fs ih =>
    obtain ⟨u, hu⟩ := h
    have hfc : d ∉ f := hf f List.mem_cons_self
    cases gs with
    | nil =>
      have hmem : d ∈ y := by
        rw [encode_nil, List.nil_append] at hu
        rw [← hu]
        simp
      exact absurd hmem hy
    | cons g gs =>
      have hgc : d ∉ g := hg g List.mem_cons_self
      simp only [encode_cons, List.append_assoc, List.cons_append] at hu
      obtain ⟨rfl, htail⟩ := split_unique hfc hgc hu
      obtain ⟨ms, hms, hxp⟩ := ih (fun k hk => hf k (List.mem_cons_of_mem f hk))
        (fun k hk => hg k (List.mem_cons_of_mem f hk)) ⟨u, by simpa using htail⟩
      exact ⟨ms, by rw [hms, List.cons_append], hxp⟩

theorem Reads.unique {d : α} {s : List α} {fs gs : List (List α)} {x y : List α}
    (hs : Reads d s fs x) (ht : Reads d s gs y) : fs = gs ∧ x = y := by
  obtain ⟨ms, hms, -⟩ := hs.of_isPrefix ht (List.prefix_refl s)
  obtain ⟨ns, hns, -⟩ := ht.of_isPrefix hs (List.prefix_refl s)
  have hlen : fs.length = gs.length := by
    have h1 := congrArg List.length hms
    have h2 := congrArg List.length hns
    simp only [List.length_append] at h1 h2
    omega
  have hnil : ms = [] := by
    have h1 := congrArg List.length hms
    simp only [List.length_append] at h1
    exact List.eq_nil_of_length_eq_zero (by omega)
  rw [hnil, List.append_nil] at hms
  refine ⟨hms.symm, ?_⟩
  have heq := hs.eq.symm.trans ht.eq
  rw [hms] at heq
  exact List.append_cancel_left heq

theorem prefix_of_not_mem {d : α} {x m y : List α} (hx : d ∉ x)
    (h : x <+: m ++ d :: y) : x <+: m := by
  induction x generalizing m with
  | nil => exact List.nil_prefix
  | cons a x ih =>
    cases m with
    | nil =>
      obtain ⟨u, hu⟩ := h
      have ha : a = d := (List.cons.inj hu).1
      exact absurd (ha ▸ List.mem_cons_self) hx
    | cons b m =>
      obtain ⟨hab, hxm⟩ := List.cons_prefix_cons.mp h
      exact List.cons_prefix_cons.mpr ⟨hab, ih (fun hm => hx (List.mem_cons_of_mem a hm)) hxm⟩

theorem Reads.rest_length_le {d : α} {s : List α} {fs gs : List (List α)} {x : List α} {n : Nat}
    (hs : Reads d s fs x) (hg : ∀ g ∈ gs, d ∉ g) (h : s <+: encode d gs)
    (hn : ∀ g ∈ gs, g.length ≤ n) : x.length ≤ n := by
  obtain ⟨ms, hms, hx⟩ := hs.of_isPrefix (reads_encode hg) h
  rw [List.append_nil] at hx
  cases ms with
  | nil =>
    rw [List.prefix_nil.mp hx]
    exact Nat.zero_le n
  | cons m ms =>
    have hm : m ∈ gs := by simp [hms]
    rw [encode_cons] at hx
    exact Nat.le_trans (prefix_of_not_mem hs.rest_clean hx).length_le (hn m hm)

section Split
variable [DecidableEq α]

def split (d : α) : List α → List (List α) × List α
  | [] => ([], [])
  | c :: cs =>
    if c = d then ([] :: (split d cs).1, (split d cs).2)
    else match split d cs with
      | ([], rest) => ([], c :: rest)
      | (f :: fs, rest) => ((c :: f) :: fs, rest)

theorem reads_split (d : α) (s : List α) : Reads d s (split d s).1 (split d s).2 := by
  induction s with
  | nil => exact ⟨rfl, by simp [split], by simp [split]⟩
  | cons c cs ih =>
    by_cases hc : c = d
    · simp only [split, hc, if_true]
      refine ⟨?_, ?_, ih.rest_clean⟩
      · simpa using ih.eq
      · intro f hf
        rcases List.mem_cons.mp hf with rfl | hf
        · exact List.not_mem_nil
        · exact ih.frames_clean f hf
    · simp only [split, hc, if_false]
      obtain ⟨heq, hfs, hrest⟩ := ih
      cases hsp : split d cs with
      | mk fs rest =>
        rw [hsp] at heq hfs hrest
        cases fs with
        | nil => exact ⟨by simpa using heq, by simp, by simp [hrest, Ne.symm hc]⟩
        | cons f fs =>
          refine ⟨by simpa using heq, ?_, hrest⟩
          intro g hg
          rcases List.mem_cons.mp hg with rfl | hg
          · simp [Ne.symm hc, hfs f List.mem_cons_self]
          · exact hfs g (List.mem_cons_of_mem f hg)

def frames (d : α) (s : List α) : List (List α) := (split d s).1

theorem Reads.eq_frames_take {d : α} {s t : List α} {fs : List (List α)} {x : List α}
    (hs : Reads d s fs x) (h : s <+: t) : fs = (frames d t).take fs.length := by
  obtain ⟨ms, hms, -⟩ := hs.of_isPrefix (reads_split d t) h
  rw [frames, hms, List.take_left]

theorem frames_encode {d : α} {fs : List (List α)} (clean : ∀ f ∈ fs, d ∉ f) :
    frames d (encode d fs) = fs :=
  ((reads_split d (encode d fs)).unique (reads_encode clean)).1

end Split

end Delimited
