import Mathlib.Data.List.Basic

/-!
# File descriptors

A process opens a file at its lowest free descriptor.
-/

namespace BoostLearning

/-- The open files by descriptor. -/
structure Descriptors (α : Type*) where
  slots : List (Option α)
deriving DecidableEq

namespace Descriptors

variable {α : Type*} (d : Descriptors α) {f g : α} {fs : List α} {fd k : Nat}

def get (fd : Nat) : Option α := (d.slots[fd]?).join

def lowest : Nat := d.slots.findIdx Option.isNone

def openFile (f : α) : Descriptors α :=
  if d.lowest < d.slots.length then ⟨d.slots.set d.lowest (some f)⟩ else ⟨d.slots ++ [some f]⟩

def close (fd : Nat) : Descriptors α := ⟨d.slots.set fd none⟩

def dup (fd : Nat) : Option (Descriptors α) := (d.get fd).map d.openFile

def openAll (fs : List α) : Descriptors α := fs.foldl openFile d

variable {d}

theorem get_lowest : d.get d.lowest = none := by
  by_cases h : d.lowest < d.slots.length
  · have hnone : (d.slots[d.lowest]).isNone = true := List.findIdx_getElem (w := h)
    rw [get, List.getElem?_eq_getElem h, Option.isNone_iff_eq_none.1 hnone]
    rfl
  · rw [get, List.getElem?_eq_none (Nat.not_lt.1 h)]
    rfl

theorem lowest_le (h : d.get fd = none) : d.lowest ≤ fd := by
  by_contra hlt
  have hlt := Nat.not_le.1 hlt
  have hlen : fd < d.slots.length :=
    Nat.lt_of_lt_of_le hlt List.findIdx_le_length
  have hsome : d.slots[fd].isNone = false := List.not_of_lt_findIdx hlt
  rw [get, List.getElem?_eq_getElem hlen] at h
  have hnone : d.slots[fd] = none := h
  rw [hnone] at hsome
  exact absurd hsome (by simp)

theorem lowest_eq (h : d.get fd = none) (hbelow : ∀ k < fd, d.get k ≠ none) : d.lowest = fd := by
  apply Nat.le_antisymm (lowest_le h)
  by_contra hlt
  exact hbelow _ (Nat.not_le.1 hlt) get_lowest

@[simp] theorem get_close : (d.close fd).get k = if k = fd then none else d.get k := by
  by_cases hk : k = fd
  · subst hk
    by_cases hlt : k < d.slots.length <;> simp [get, close, hlt]
  · simp [get, close, hk, List.getElem?_set_ne (Ne.symm hk)]

@[simp] theorem get_openFile : (d.openFile f).get k = if k = d.lowest then some f else d.get k := by
  by_cases hlow : d.lowest < d.slots.length
  · by_cases hk : k = d.lowest
    · subst hk
      simp [get, openFile, hlow]
    · simp [get, openFile, hlow, hk, List.getElem?_set_ne (Ne.symm hk)]
  · have heq : d.lowest = d.slots.length :=
      Nat.le_antisymm List.findIdx_le_length (Nat.not_lt.1 hlow)
    by_cases hk : k = d.lowest
    · simp [get, openFile, hk, heq]
    · rw [heq] at hk
      rw [openFile, if_neg hlow, heq, if_neg hk]
      rcases Nat.lt_or_gt_of_ne hk with hk | hk
      · simp [get, List.getElem?_append_left hk]
      · have hlen : (d.slots ++ [some f]).length ≤ k := by
          rw [List.length_append, List.length_singleton]
          exact hk
        rw [get, get, List.getElem?_eq_none hlen, List.getElem?_eq_none (Nat.le_of_lt hk)]

theorem get_openFile_of_open (h : d.get fd ≠ none) : (d.openFile f).get fd = d.get fd := by
  have hne : fd ≠ d.lowest := by
    rintro rfl
    exact h get_lowest
  simp [hne]

theorem get_openAll_of_open (h : d.get fd ≠ none) : (d.openAll fs).get fd = d.get fd := by
  induction fs generalizing d with
  | nil => rfl
  | cons f fs ih =>
    have hopen : (d.openFile f).get fd ≠ none := by rwa [get_openFile_of_open h]
    exact (ih hopen).trans (get_openFile_of_open h)

end Descriptors

end BoostLearning
