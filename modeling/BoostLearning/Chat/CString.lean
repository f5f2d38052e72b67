import Mathlib.Data.List.Induction
import Mathlib.Data.List.TakeWhile
import Mathlib.Algebra.Order.Group.Nat
import Mathlib.Algebra.Order.Ring.Int

/-!
# The C string functions of the header codec

`strncat` and `atoi` read a length, `sprintf` with `"%4d"` writes one. Reading back what was
written gives the same number.
-/

namespace BoostLearning.Chat

abbrev Byte := UInt8

/-- `strncat` onto the empty string: at most `n` characters, and none from the first NUL on. -/
def strncat (src : List Byte) (n : Nat) : List Byte := (src.take n).takeWhile (· ≠ 0)

def isspace (c : Byte) : Bool := c == 32 || (9 ≤ c && c ≤ 13)

def isdigit (c : Byte) : Bool := 48 ≤ c && c ≤ 57

def digitsValue (ds : List Byte) : Nat := ds.foldl (fun v c => 10 * v + (c.toNat - 48)) 0

/-- White space, an optional sign, and the digits up to the first other character. A value beyond
`int`, for which C defines nothing, is what the digits say. -/
def atoi (s : List Byte) : Int :=
  match s.dropWhile isspace with
  | [] => 0
  | c :: t =>
    if c = 43 then digitsValue (t.takeWhile isdigit)
    else if c = 45 then -digitsValue (t.takeWhile isdigit)
    else digitsValue ((c :: t).takeWhile isdigit)

def decimal (n : Nat) : List Byte := (Nat.toDigits 10 n).map fun c => c.toNat.toUInt8

/-- `sprintf` with `"%4d"`: padded with spaces on the left up to four characters. -/
def sprintf4d (i : Int) : List Byte :=
  let ds := if i < 0 then 45 :: decimal i.natAbs else decimal i.natAbs
  List.replicate (4 - ds.length) 32 ++ ds

private theorem digitChar_byte (d : Nat) (h : d < 10) :
    (Nat.digitChar d).toNat.toUInt8 = (48 + d).toUInt8 := by
  revert d
  decide

private theorem digit_toNat (d : Nat) (h : d < 10) : ((48 + d).toUInt8).toNat = 48 + d := by
  revert d
  decide

private theorem isdigit_digit (d : Nat) (h : d < 10) : isdigit ((48 + d).toUInt8) = true := by
  revert d
  decide

private theorem decimal_eq (n : Nat) :
    decimal n = (if n < 10 then [] else decimal (n / 10)) ++ [(48 + n % 10).toUInt8] := by
  unfold decimal
  rw [Nat.toDigits_eq_if (by omega)]
  split
  · rename_i h
    simp [digitChar_byte n h, Nat.mod_eq_of_lt h]
  · simp [digitChar_byte (n % 10) (Nat.mod_lt _ (by omega))]

private theorem decimal_ne_nil (n : Nat) : decimal n ≠ [] := by
  rw [decimal_eq]
  simp

private theorem decimal_isdigit (n : Nat) : ∀ c ∈ decimal n, isdigit c = true := by
  induction n using Nat.strongRecOn with
  | ind n ih =>
    intro c hc
    rw [decimal_eq] at hc
    rcases List.mem_append.1 hc with hc | hc
    · split at hc
      · simp at hc
      · exact ih (n / 10) (by omega) c hc
    · rw [List.mem_singleton] at hc
      exact hc ▸ isdigit_digit _ (Nat.mod_lt _ (by omega))

private theorem decimal_length_le (n k : Nat) (hk : 1 ≤ k) (h : n < 10 ^ k) :
    (decimal n).length ≤ k := by
  induction k generalizing n with
  | zero => omega
  | succ k ih =>
    rw [decimal_eq]
    split
    · simp
    · rename_i hn
      have hk' : 1 ≤ k := by
        rcases k with _ | k
        · simp only [Nat.zero_add, pow_one] at h
          omega
        · omega
      have hdiv : n / 10 < 10 ^ k := by
        rw [pow_succ] at h
        omega
      have := ih (n / 10) hk' hdiv
      simp only [List.length_append, List.length_singleton]
      omega

private theorem digitsValue_concat (ds : List Byte) (c : Byte) :
    digitsValue (ds ++ [c]) = 10 * digitsValue ds + (c.toNat - 48) := by
  simp [digitsValue, List.foldl_append]

private theorem digitsValue_decimal (n : Nat) : digitsValue (decimal n) = n := by
  induction n using Nat.strongRecOn with
  | ind n ih =>
    rw [decimal_eq, digitsValue_concat, digit_toNat _ (Nat.mod_lt _ (by omega))]
    split
    · have : digitsValue [] = 0 := rfl
      omega
    · rw [ih (n / 10) (by omega)]
      omega

private theorem isdigit_toNat {c : Byte} (h : isdigit c = true) :
    48 ≤ c.toNat ∧ c.toNat ≤ 57 := by
  simpa [isdigit, UInt8.le_iff_toNat_le] using h

private theorem digitsValue_lt (ds : List Byte) (h : ∀ c ∈ ds, isdigit c = true) :
    digitsValue ds < 10 ^ ds.length := by
  induction ds using List.reverseRecOn with
  | nil => simp [digitsValue]
  | append_singleton ds c ih =>
    have hds := ih fun c' hc' => h c' (by simp [hc'])
    have hc := isdigit_toNat (h c (by simp))
    rw [digitsValue_concat, List.length_append, List.length_singleton, pow_succ]
    omega

private theorem digitsValue_takeWhile_lt (s : List Byte) :
    digitsValue (s.takeWhile isdigit) < 10 ^ s.length := by
  have hlen : (s.takeWhile isdigit).length ≤ s.length := (List.takeWhile_prefix _).length_le
  refine (digitsValue_lt _ fun c hc => ?_).trans_le (Nat.pow_le_pow_right (by omega) hlen)
  exact List.mem_takeWhile_imp hc

/-- A string of `k` characters stands for a number of at most `k` digits. -/
theorem atoi_natAbs_lt (s : List Byte) : (atoi s).natAbs < 10 ^ s.length := by
  have hlen : (s.dropWhile isspace).length ≤ s.length := (List.dropWhile_suffix _).length_le
  unfold atoi
  cases hs : s.dropWhile isspace with
  | nil => exact Nat.pow_pos (by decide)
  | cons c t =>
    rw [hs, List.length_cons] at hlen
    have ht := digitsValue_takeWhile_lt t
    have hct := digitsValue_takeWhile_lt (c :: t)
    have hpow : 10 ^ t.length ≤ 10 ^ s.length := Nat.pow_le_pow_right (by omega) (by omega)
    have hpow' : 10 ^ (c :: t).length ≤ 10 ^ s.length :=
      Nat.pow_le_pow_right (by omega) (by simpa using hlen)
    simp only
    split
    · rw [Int.natAbs_natCast]
      omega
    · split
      · rw [Int.natAbs_neg, Int.natAbs_natCast]
        omega
      · rw [Int.natAbs_natCast]
        omega

theorem strncat_length_le (s : List Byte) (n : Nat) : (strncat s n).length ≤ n := by
  have h : (strncat s n).length ≤ (s.take n).length := (List.takeWhile_prefix _).length_le
  rw [List.length_take] at h
  omega

theorem strncat_take (s : List Byte) (n : Nat) : strncat (s.take n) n = strncat s n := by
  rw [strncat, strncat, List.take_take, Nat.min_self]

theorem isdigit_not_space {c : Byte} (h : isdigit c = true) : isspace c = false := by
  have hc := isdigit_toNat h
  simp only [isspace, Bool.or_eq_false_iff, beq_eq_false_iff_ne, Bool.and_eq_false_imp,
    decide_eq_true_eq, decide_eq_false_iff_not, UInt8.le_iff_toNat_le]
  refine ⟨?_, fun _ => ?_⟩
  · rintro rfl
    exact absurd hc.1 (by decide)
  · change ¬ c.toNat ≤ 13
    omega

theorem isdigit_ne {c : Byte} (h : isdigit c = true) : c ≠ 0 ∧ c ≠ 43 ∧ c ≠ 45 := by
  have hc := isdigit_toNat h
  refine ⟨?_, ?_, ?_⟩ <;> rintro rfl <;> exact absurd hc.1 (by decide)

private theorem atoi_padded (k n : Nat) : atoi (List.replicate k 32 ++ decimal n) = n := by
  have hdrop : (List.replicate k 32 ++ decimal n).dropWhile isspace = decimal n := by
    rw [List.dropWhile_append_of_pos]
    · cases hd : decimal n with
      | nil => rfl
      | cons c t =>
        have hc : isspace c = false :=
          isdigit_not_space (decimal_isdigit n c (by simp [hd]))
        rw [List.dropWhile_cons_of_neg (by simp [hc])]
    · intro c hc
      rw [List.eq_of_mem_replicate hc]
      rfl
  have hall : (decimal n).takeWhile isdigit = decimal n :=
    List.takeWhile_eq_self_iff.2 (decimal_isdigit n)
  unfold atoi
  rw [hdrop]
  cases hd : decimal n with
  | nil => exact absurd hd (decimal_ne_nil n)
  | cons c t =>
    obtain ⟨-, hplus, hminus⟩ := isdigit_ne (decimal_isdigit n c (by simp [hd]))
    simp only [if_neg hplus, if_neg hminus]
    rw [← hd, hall, digitsValue_decimal]

private theorem sprintf4d_natCast (n : Nat) :
    sprintf4d n = List.replicate (4 - (decimal n).length) 32 ++ decimal n := by
  have hn : ¬ (n : Int) < 0 := by omega
  simp [sprintf4d, hn]

theorem sprintf4d_length {n : Nat} (h : n < 10000) : (sprintf4d n).length = 4 := by
  have := decimal_length_le n 4 (by omega) (by simpa using h)
  rw [sprintf4d_natCast, List.length_append, List.length_replicate]
  omega

/-- What `sprintf` writes for a number, `strncat` and `atoi` read as that number. -/
theorem atoi_sprintf4d {n : Nat} (h : n < 10000) : atoi (strncat (sprintf4d n) 4) = n := by
  have htake : (sprintf4d n).take 4 = sprintf4d n := by
    apply List.take_of_length_le
    rw [sprintf4d_length h]
  have hnul : (sprintf4d n).takeWhile (· ≠ 0) = sprintf4d n := by
    rw [List.takeWhile_eq_self_iff]
    intro c hc
    rw [sprintf4d_natCast, List.mem_append] at hc
    rcases hc with hc | hc
    · rw [List.eq_of_mem_replicate hc]
      rfl
    · simpa using (isdigit_ne (decimal_isdigit n c hc)).1
  rw [strncat, htake, hnul, sprintf4d_natCast, atoi_padded]

end BoostLearning.Chat
