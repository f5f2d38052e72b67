import Mathlib.Data.List.Basic

/-!
# Length-prefixed framing

A stream of frames, each a header of fixed length and as many further symbols as the header
announces. The parser is stateless: it splits a whole stream at once. A stream is a list of
frames and a rest that is not one in exactly one way, so the parser is the only
reading of it.
-/

namespace BoostLearning

/-- How a header of `headerLength` symbols announces the length of the body; `none` for a
header that is refused. -/
structure FrameCodec (α : Type*) where
  headerLength : Nat
  headerLength_pos : 0 < headerLength
  bodyLength? : List α → Option Nat

namespace FrameCodec

variable {α : Type*} (C : FrameCodec α)

/-- A header that is accepted, and exactly the body it announces. -/
def IsFrame (s : List α) : Prop :=
  C.headerLength ≤ s.length ∧
    C.bodyLength? (s.take C.headerLength) = some (s.length - C.headerLength)

/-- Less than a header, or an accepted header and less than its body. -/
def Incomplete (s : List α) : Prop :=
  s.length < C.headerLength ∨
    ∃ n, C.bodyLength? (s.take C.headerLength) = some n ∧ s.length < C.headerLength + n

/-- A header that is refused stands in front. -/
def Rejected (s : List α) : Prop :=
  C.headerLength ≤ s.length ∧ C.bodyLength? (s.take C.headerLength) = none

/-- No frame can be taken from the front. -/
def Stuck (s : List α) : Prop := C.Incomplete s ∨ C.Rejected s

/-- Take a header, compute the length, take that many symbols, repeat. -/
def parse (s : List α) : List (List α) × List α :=
  if s.length < C.headerLength then ([], s)
  else
    match C.bodyLength? (s.take C.headerLength) with
    | none => ([], s)
    | some n =>
      if s.length < C.headerLength + n then ([], s)
      else
        let r := parse (s.drop (C.headerLength + n))
        (s.take (C.headerLength + n) :: r.1, r.2)
termination_by s.length
decreasing_by
  have := C.headerLength_pos
  simp only [List.length_drop]
  omega

variable {C}

theorem stuck_nil : C.Stuck [] := Or.inl (Or.inl C.headerLength_pos)

theorem IsFrame.length_eq {f g : List α} (hf : C.IsFrame f) (hg : C.IsFrame g)
    (h : f.take C.headerLength = g.take C.headerLength) : f.length = g.length := by
  have hlen := hf.2.symm.trans ((congrArg C.bodyLength? h).trans hg.2)
  have hf1 := hf.1
  have hg1 := hg.1
  simp only [Option.some.injEq] at hlen
  omega

theorem IsFrame.take_append {f : List α} (hf : C.IsFrame f) (s : List α) :
    (f ++ s).take C.headerLength = f.take C.headerLength :=
  List.take_append_of_le_length hf.1

private theorem Stuck.not_frame_prefix {s f : List α} (hs : C.Stuck s) (hf : C.IsFrame f) :
    ¬ f <+: s := by
  rintro ⟨t, rfl⟩
  have hlen : f.length ≤ (f ++ t).length := by simp
  have hhead := hf.1
  have htake := hf.take_append t
  rcases hs with (hs | ⟨n, hn, hs⟩) | ⟨-, hs⟩
  · omega
  · rw [htake, hf.2] at hn
    simp only [Option.some.injEq] at hn
    omega
  · rw [htake, hf.2] at hs
    exact absurd hs (Option.some_ne_none _)

/-- An accepted header and less than its body is the beginning of a frame. -/
theorem exists_frame_of_incomplete [Inhabited α] {s : List α} (h : C.Incomplete s)
    (hhead : C.headerLength ≤ s.length) : ∃ f, C.IsFrame f ∧ s <+: f ∧ s ≠ f := by
  rcases h with h | ⟨n, hn, h⟩
  · omega
  · have hlen : (s ++ List.replicate (C.headerLength + n - s.length) default).length =
        C.headerLength + n := by
      rw [List.length_append, List.length_replicate]
      omega
    refine ⟨s ++ List.replicate (C.headerLength + n - s.length) default, ⟨?_, ?_⟩,
      List.prefix_append _ _, ?_⟩
    · omega
    · rw [List.take_append_of_le_length hhead, hlen, hn]
      simp
    · intro heq
      rw [← heq] at hlen
      omega

/-- A strict beginning of a frame is stuck. -/
theorem stuck_of_strict_prefix {s f : List α} (hf : C.IsFrame f) (hs : s <+: f) (hne : s ≠ f) :
    C.Stuck s := by
  have hlt : s.length < f.length := by
    apply Nat.lt_of_le_of_ne hs.length_le
    intro hlen
    exact hne (hs.eq_of_length hlen)
  by_cases hshort : s.length < C.headerLength
  · exact Or.inl (Or.inl hshort)
  · obtain ⟨hlong, hhead⟩ := hf
    have htake : f.take C.headerLength = s.take C.headerLength := by
      obtain ⟨rest, rfl⟩ := hs
      exact List.take_append_of_le_length (Nat.not_lt.1 hshort)
    rw [htake] at hhead
    exact Or.inl (Or.inr ⟨_, hhead, by omega⟩)

/-- Frames in front of two equal streams agree, as far as the shorter list of them goes. -/
theorem prefix_of_flatten_prefix {F G : List (List α)} {r : List α}
    (hF : ∀ f ∈ F, C.IsFrame f) (hG : ∀ g ∈ G, C.IsFrame g) (hr : C.Stuck r)
    (h : F.flatten <+: G.flatten ++ r) : F <+: G := by
  induction F generalizing G with
  | nil => exact List.nil_prefix
  | cons f F ih =>
    have hf := hF f (by simp)
    cases G with
    | nil =>
      have hpre : f <+: r := (List.prefix_append f F.flatten).trans (by simpa using h)
      exact absurd hpre (hr.not_frame_prefix hf)
    | cons g G =>
      have hg := hG g (by simp)
      simp only [List.flatten_cons, List.append_assoc] at h
      have hhead : f.take C.headerLength = g.take C.headerLength := by
        obtain ⟨t, ht⟩ := h
        have := congrArg (List.take C.headerLength) ht
        rw [List.append_assoc, hf.take_append, hg.take_append] at this
        exact this
      have hlen := hf.length_eq hg hhead
      have hfg : f = g := by
        obtain ⟨t, ht⟩ := h
        rw [List.append_assoc] at ht
        exact (List.append_inj ht hlen).1
      subst g
      have htail := ih (fun f' hf' => hF f' (by simp [hf'])) (fun g' hg' => hG g' (by simp [hg']))
        ((List.prefix_append_right_inj f).1 h)
      exact (List.cons_prefix_cons).2 ⟨rfl, htail⟩

variable (C)

private theorem parse_spec (s : List α) :
    (∀ f ∈ (C.parse s).1, C.IsFrame f) ∧ (C.parse s).1.flatten ++ (C.parse s).2 = s ∧
      C.Stuck (C.parse s).2 := by
  induction s using parse.induct C with
  | case1 s hshort =>
    rw [parse, if_pos hshort]
    exact ⟨by simp, by simp, Or.inl (Or.inl hshort)⟩
  | case2 s hlong hnone =>
    rw [parse, if_neg hlong, hnone]
    exact ⟨by simp, by simp, Or.inr ⟨Nat.not_lt.1 hlong, hnone⟩⟩
  | case3 s hlong n hn hshort =>
    rw [parse, if_neg hlong, hn]
    simp only [if_pos hshort]
    exact ⟨by simp, by simp, Or.inl (Or.inr ⟨n, hn, hshort⟩)⟩
  | case4 s hlong n hn hfull ih =>
    rw [parse, if_neg hlong, hn]
    simp only [if_neg hfull]
    obtain ⟨hframes, hflat, hstuck⟩ := ih
    refine ⟨?_, ?_, hstuck⟩
    · intro f hf
      rcases List.mem_cons.1 hf with rfl | hf
      · have hlen : (s.take (C.headerLength + n)).length = C.headerLength + n := by
          rw [List.length_take]
          omega
        refine ⟨by omega, ?_⟩
        rw [List.take_take, Nat.min_eq_left (Nat.le_add_right _ _), hlen, hn]
        simp
      · exact hframes f hf
    · rw [List.flatten_cons, List.append_assoc, hflat, List.take_append_drop]

theorem parse_isFrame (s : List α) : ∀ f ∈ (C.parse s).1, C.IsFrame f := (C.parse_spec s).1

theorem parse_flatten (s : List α) : (C.parse s).1.flatten ++ (C.parse s).2 = s :=
  (C.parse_spec s).2.1

theorem parse_stuck (s : List α) : C.Stuck (C.parse s).2 := (C.parse_spec s).2.2

variable {C}

theorem prefix_parse {F : List (List α)} {s : List α} (hF : ∀ f ∈ F, C.IsFrame f)
    (h : F.flatten <+: s) : F <+: (C.parse s).1 := by
  refine prefix_of_flatten_prefix hF (C.parse_isFrame s) (C.parse_stuck s) ?_
  rwa [C.parse_flatten s]

/-- The parser's reading of a stream is the only one. -/
theorem parse_eq {F : List (List α)} {r s : List α} (hF : ∀ f ∈ F, C.IsFrame f)
    (hr : C.Stuck r) (h : F.flatten ++ r = s) : C.parse s = (F, r) := by
  subst h
  have hle : F <+: (C.parse (F.flatten ++ r)).1 := prefix_parse hF (List.prefix_append _ _)
  have hge : (C.parse (F.flatten ++ r)).1 <+: F :=
    prefix_of_flatten_prefix (C.parse_isFrame _) hF hr ⟨_, C.parse_flatten _⟩
  have heq : F = (C.parse (F.flatten ++ r)).1 := hle.eq_of_length_le hge.length_le
  have hrest := C.parse_flatten (F.flatten ++ r)
  rw [← heq, List.append_cancel_left_eq] at hrest
  exact Prod.ext heq.symm hrest

theorem parse_append_prefix (s t : List α) : (C.parse s).1 <+: (C.parse (s ++ t)).1 := by
  refine prefix_parse (C.parse_isFrame s) ?_
  refine List.IsPrefix.trans ⟨(C.parse s).2, C.parse_flatten s⟩ (List.prefix_append s t)

/-- Inside a stream of frames, every header met at a frame boundary is an accepted one. -/
theorem header_accepted {F G : List (List α)} {p : List α} (hF : ∀ f ∈ F, C.IsFrame f)
    (hG : ∀ g ∈ G, C.IsFrame g) (h : F.flatten ++ p <+: G.flatten)
    (hp : C.headerLength ≤ p.length) : ¬ C.Rejected p := by
  have hpre : F.flatten <+: G.flatten ++ [] := by
    rw [List.append_nil]
    exact (List.prefix_append _ p).trans h
  obtain ⟨G', rfl⟩ := prefix_of_flatten_prefix hF hG stuck_nil hpre
  rw [List.flatten_append, List.prefix_append_right_inj] at h
  cases G' with
  | nil =>
    have hnil : p = [] := by simpa using h
    have := C.headerLength_pos
    simp [hnil] at hp
    omega
  | cons g G' =>
    have hg := hG g (by simp)
    rw [List.flatten_cons] at h
    obtain ⟨t, ht⟩ := h
    have hhead := congrArg (List.take C.headerLength) ht
    rw [List.take_append_of_le_length hp, hg.take_append] at hhead
    rintro ⟨-, hrej⟩
    rw [hhead, hg.2] at hrej
    exact absurd hrej (Option.some_ne_none _)

end FrameCodec

end BoostLearning
