import Mathlib.Data.List.Basic

/-!
# Input streams

Reading lines from a stream into an array of fixed size. `getline` tests for the end of the input,
for the delimiter and for a full array, in this order, and a full array counts as a failure.
-/

namespace BoostLearning

/-- What can still be extracted, and the state bits. -/
structure InputStream (β : Type*) where
  rest : List β
  eofbit : Bool
  failbit : Bool
deriving DecidableEq

namespace InputStream

variable {β : Type*} [DecidableEq β]

inductive Stop where
  | endOfFile
  | delimiter
  | full
deriving DecidableEq

def ofList (input : List β) : InputStream β := ⟨input, false, false⟩

def good (s : InputStream β) : Bool := !s.eofbit && !s.failbit

/-- Extract up to `room` elements; the delimiter is extracted and not stored. -/
def extract (delim : β) : Nat → List β → List β × List β × Stop
  | _, [] => ([], [], .endOfFile)
  | room, c :: cs =>
    if c = delim then ([], cs, .delimiter)
    else
      match room with
      | 0 => ([], c :: cs, .full)
      | room + 1 =>
        let r := extract delim room cs
        (c :: r.1, r.2)

/-- `getline(s, n)`: the elements that are stored in front of the terminator. Extracting nothing
at all is a failure. -/
def getline (delim : β) (n : Nat) (s : InputStream β) : List β × InputStream β :=
  if s.good then
    let r := extract delim (n - 1) s.rest
    (r.1, {
      rest := r.2.1
      eofbit := r.2.2 = .endOfFile
      failbit := r.2.2 = .full || r.1.isEmpty && r.2.2 = .endOfFile })
  else ([], { s with failbit := true })

/-- The lines of an input; the last one may lack its delimiter, and is then not empty. -/
def lines (delim : β) : List β → List (List β)
  | [] => []
  | c :: cs =>
    if c = delim then [] :: lines delim cs
    else
      match lines delim cs with
      | [] => [[c]]
      | l :: ls => (c :: l) :: ls

variable {delim c : β} {l r : List β} {room n : Nat} {s : InputStream β}

/-! ## One line -/

private theorem extract_length (h : (extract delim room l).2.2 = .delimiter) :
    (extract delim room l).2.1.length < l.length := by
  induction l generalizing room with
  | nil => cases room <;> simp [extract] at h
  | cons a l ih =>
    by_cases ha : a = delim
    · cases room <;> simp [extract, ha]
    · cases room with
      | zero => simp [extract, ha] at h
      | succ room =>
        simp only [extract, if_neg ha] at h ⊢
        exact Nat.lt_succ_of_lt (ih h)

private theorem extract_delimiter (hl : delim ∉ l) (hroom : l.length ≤ room) :
    extract delim room (l ++ delim :: r) = (l, r, .delimiter) := by
  induction l generalizing room with
  | nil => cases room <;> rw [List.nil_append, extract, if_pos rfl]
  | cons a l ih =>
    obtain ⟨hne, hl⟩ := not_or.1 (mt List.mem_cons.2 hl)
    cases room with
    | zero => simp at hroom
    | succ room =>
      rw [List.cons_append, extract, if_neg (Ne.symm hne), ih hl (by simpa using hroom)]

private theorem extract_endOfFile (hl : delim ∉ l) (hroom : l.length ≤ room) :
    extract delim room l = (l, [], .endOfFile) := by
  induction l generalizing room with
  | nil => simp [extract]
  | cons a l ih =>
    obtain ⟨hne, hl⟩ := not_or.1 (mt List.mem_cons.2 hl)
    cases room with
    | zero => simp at hroom
    | succ room => rw [extract, if_neg (Ne.symm hne), ih hl (by simpa using hroom)]

private theorem extract_full (hl : delim ∉ l) (hc : c ≠ delim) (hroom : l.length = room) :
    extract delim room (l ++ c :: r) = (l, c :: r, .full) := by
  induction l generalizing room with
  | nil =>
    obtain rfl : 0 = room := hroom
    rw [List.nil_append, extract, if_neg hc]
  | cons a l ih =>
    obtain ⟨hne, hl⟩ := not_or.1 (mt List.mem_cons.2 hl)
    cases room with
    | zero => simp at hroom
    | succ room =>
      rw [List.cons_append, extract, if_neg (Ne.symm hne), ih hl (by simpa using hroom)]

private theorem lines_delimiter (hl : delim ∉ l) :
    lines delim (l ++ delim :: r) = l :: lines delim r := by
  induction l with
  | nil => simp [lines]
  | cons a l ih =>
    obtain ⟨hne, hl⟩ := not_or.1 (mt List.mem_cons.2 hl)
    rw [List.cons_append, lines, if_neg (Ne.symm hne), ih hl]

private theorem lines_last (hl : delim ∉ l) (hne : l ≠ []) : lines delim l = [l] := by
  induction l with
  | nil => exact absurd rfl hne
  | cons a l ih =>
    obtain ⟨hne, hl⟩ := not_or.1 (mt List.mem_cons.2 hl)
    rw [lines, if_neg (Ne.symm hne)]
    cases l with
    | nil => rfl
    | cons b l => rw [ih hl (List.cons_ne_nil b l)]

private theorem lines_long (hl : delim ∉ l) (hc : c ≠ delim) :
    ∃ l' ls, lines delim (l ++ c :: r) = (l ++ c :: l') :: ls := by
  induction l with
  | nil =>
    rw [List.nil_append, lines, if_neg hc]
    cases lines delim r with
    | nil => exact ⟨[], [], rfl⟩
    | cons l' ls => exact ⟨l', ls, rfl⟩
  | cons a l ih =>
    obtain ⟨hne, hl⟩ := not_or.1 (mt List.mem_cons.2 hl)
    obtain ⟨l', ls, heq⟩ := ih hl
    exact ⟨l', ls, by rw [List.cons_append, lines, if_neg (Ne.symm hne), heq]; rfl⟩

theorem extract_sublist (delim : β) (room : Nat) (l : List β) :
    (extract delim room l).1.length ≤ room ∧
      (extract delim room l).1.Sublist l ∧ (extract delim room l).2.1.Sublist l := by
  induction l generalizing room with
  | nil => cases room <;> simp [extract]
  | cons a l ih =>
    by_cases ha : a = delim
    · cases room <;> simp [extract, ha]
    · cases room with
      | zero => simp [extract, ha]
      | succ room =>
        simp only [extract, if_neg ha]
        obtain ⟨hlen, hline, hrest⟩ := ih room
        exact ⟨Nat.succ_le_succ hlen, hline.cons_cons a, hrest.cons a⟩

theorem getline_bounds {a : β} (ha : a ∉ s.rest) (delim : β) (n : Nat) :
    a ∉ (s.getline delim (n + 1)).1 ∧ a ∉ (s.getline delim (n + 1)).2.rest ∧
      (s.getline delim (n + 1)).1.length ≤ n := by
  simp only [getline, Nat.add_sub_cancel]
  split
  · obtain ⟨hlen, hline, hrest⟩ := extract_sublist delim n s.rest
    exact ⟨fun h => ha (hline.subset h), fun h => ha (hrest.subset h), hlen⟩
  · exact ⟨List.not_mem_nil, ha, Nat.zero_le n⟩

def remaining (s : InputStream β) : Nat := if s.eofbit then 0 else s.rest.length + 1

theorem remaining_getline (h : (s.getline delim n).2.failbit = false) :
    (s.getline delim n).2.remaining < s.remaining := by
  by_cases hgood : s.good = true
  · have heof : s.eofbit = false := by
      simp only [good, Bool.and_eq_true, Bool.not_eq_true'] at hgood
      exact hgood.1
    simp only [getline, if_pos hgood, Bool.or_eq_false_iff, decide_eq_false_iff_not] at h ⊢
    simp only [remaining, heof, Bool.false_eq_true, if_false, decide_eq_true_eq]
    cases hstop : (extract delim (n - 1) s.rest).2.2 with
    | endOfFile => simp
    | delimiter => simpa using extract_length hstop
    | full => exact absurd hstop h.1
  · simp [getline, hgood] at h

/-- `while (getline(s, n))`: the lines that were read, and the stream when the loop ends. -/
def readLines (delim : β) (n : Nat) (s : InputStream β) : List (List β) × InputStream β :=
  if _h : (s.getline delim n).2.failbit = true then ([], (s.getline delim n).2)
  else
    let r := readLines delim n (s.getline delim n).2
    ((s.getline delim n).1 :: r.1, r.2)
termination_by s.remaining
decreasing_by exact remaining_getline (Bool.eq_false_iff.2 _h)

theorem readLines_fail {t : List β} {s' : InputStream β} (h : s.getline delim n = (t, s'))
    (hfail : s'.failbit = true) : s.readLines delim n = ([], s') := by
  rw [readLines, dif_pos (by rw [h]; exact hfail), h]

theorem readLines_cons {t : List β} {s' : InputStream β} (h : s.getline delim n = (t, s'))
    (hgood : s'.failbit = false) :
    s.readLines delim n = (t :: (s'.readLines delim n).1, (s'.readLines delim n).2) := by
  rw [readLines, dif_neg (by rw [h, hgood]; exact Bool.false_ne_true), h]

/-- What an input begins with: nothing, a line that fits with its delimiter or without one, or
more than fits. -/
private theorem first_line (delim : β) (room : Nat) (input : List β) :
    input = [] ∨
    (∃ l r, input = l ++ delim :: r ∧ delim ∉ l ∧ l.length ≤ room) ∨
    (input ≠ [] ∧ delim ∉ input ∧ input.length ≤ room) ∨
    ∃ l c r, input = l ++ c :: r ∧ delim ∉ l ∧ c ≠ delim ∧ l.length = room := by
  induction input generalizing room with
  | nil => exact .inl rfl
  | cons a input ih =>
    right
    by_cases ha : a = delim
    · exact .inl ⟨[], input, by rw [ha, List.nil_append], List.not_mem_nil, Nat.zero_le _⟩
    · cases room with
      | zero => exact .inr (.inr ⟨[], a, input, rfl, List.not_mem_nil, ha, rfl⟩)
      | succ room =>
        have hcons : ∀ {l : List β}, delim ∉ l → delim ∉ a :: l := by
          intro l hl hmem
          cases List.mem_cons.1 hmem with
          | inl heq => exact ha heq.symm
          | inr hmem => exact hl hmem
        obtain rfl | ⟨l, r, rfl, hl, hroom⟩ | ⟨-, hl, hroom⟩ | ⟨l, c, r, rfl, hl, hc, hroom⟩ :=
          ih room
        · exact .inr (.inl ⟨List.cons_ne_nil _ _, hcons List.not_mem_nil, by simp⟩)
        · exact .inl ⟨a :: l, r, rfl, hcons hl, Nat.succ_le_succ hroom⟩
        · exact .inr (.inl ⟨List.cons_ne_nil _ _, hcons hl, Nat.succ_le_succ hroom⟩)
        · exact .inr (.inr ⟨a :: l, c, r, rfl, hcons hl, hc, congrArg Nat.succ hroom⟩)

/-! ## All lines -/

private theorem getline_delimiter (hl : delim ∉ l) (hroom : l.length ≤ room) :
    (ofList (l ++ delim :: r)).getline delim (room + 1) = (l, ofList r) := by
  simp [getline, good, ofList, extract_delimiter hl hroom]

private theorem getline_last (hl : delim ∉ l) (hroom : l.length ≤ room) :
    (ofList l).getline delim (room + 1) = (l, ⟨[], true, l.isEmpty⟩) := by
  simp [getline, good, ofList, extract_endOfFile hl hroom]

theorem getline_long (hl : delim ∉ l) (hc : c ≠ delim) (hroom : l.length = room) :
    (ofList (l ++ c :: r)).getline delim (room + 1) = (l, ⟨c :: r, false, true⟩) := by
  simp [getline, good, ofList, extract_full hl hc hroom]

private theorem getline_eof (h : s.eofbit = true) :
    s.getline delim n = ([], { s with failbit := true }) := by
  simp [getline, good, h]

/-- The loop reads the lines in front of the first one that is too long. It has come to the end
of the input if there is no such line, and stands in the middle of that line otherwise. -/
theorem readLines_spec (delim : β) (room : Nat) (input : List β) :
    ((ofList input).readLines delim (room + 1)).1 =
        (lines delim input).takeWhile (·.length ≤ room) ∧
      ((∀ l ∈ lines delim input, l.length ≤ room) →
        ((ofList input).readLines delim (room + 1)).2 = ⟨[], true, true⟩) ∧
      ((∃ l ∈ lines delim input, room < l.length) →
        ((ofList input).readLines delim (room + 1)).2.rest ≠ []) := by
  induction hlen : input.length using Nat.strongRecOn generalizing input with
  | ind k ih =>
    subst hlen
    obtain rfl | ⟨l, r, rfl, hl, hroom⟩ | ⟨hne, hl, hroom⟩ | ⟨l, c, r, rfl, hl, hc, hroom⟩ :=
      first_line delim room input
    · rw [readLines_fail (getline_last List.not_mem_nil (Nat.zero_le _)) rfl]
      simp [lines]
    · have hlt : r.length < (l ++ delim :: r).length := by
        rw [List.length_append, List.length_cons]
        omega
      obtain ⟨hread, hend, hstop⟩ := ih r.length hlt r rfl
      rw [readLines_cons (getline_delimiter hl hroom) rfl, lines_delimiter hl, hread]
      refine ⟨by simp [hroom], fun hall => ?_, ?_⟩
      · exact hend fun l' hl' => hall l' (List.mem_cons_of_mem l hl')
      · rintro ⟨l', hl', hlong⟩
        cases List.mem_cons.1 hl' with
        | inl heq => exact absurd hroom (heq ▸ Nat.not_le.2 hlong)
        | inr hmem => exact hstop ⟨l', hmem, hlong⟩
    · have hempty : input.isEmpty = false := by simpa using hne
      rw [readLines_cons (getline_last hl hroom) hempty, readLines_fail (getline_eof rfl) rfl,
        lines_last hl hne]
      exact ⟨by simp [hroom], fun _ => rfl, by simp [hroom]⟩
    · obtain ⟨l', ls, heq⟩ := lines_long (r := r) hl hc
      have hlong : room < (l ++ c :: l').length := by simp [hroom]
      rw [readLines_fail (getline_long hl hc hroom) rfl, heq]
      refine ⟨?_, fun hall => ?_, fun _ => List.cons_ne_nil c r⟩
      · rw [List.takeWhile_cons_of_neg (by simpa using hlong)]
      · exact absurd (hall _ List.mem_cons_self) (Nat.not_le.2 hlong)

end InputStream

end BoostLearning
