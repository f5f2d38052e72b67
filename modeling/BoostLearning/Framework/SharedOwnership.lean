import Mathlib.Data.List.Nodup
import Mathlib.Data.List.Perm.Basic
import Mathlib.Logic.Function.Basic

/-!
# Shared ownership

Objects that are only reached through pointers which count themselves: the object is destroyed
with the last of them. Copies and destructions of pointers happen one by one, also those of
parameters and of local variables. What a program has to show is which pointers there are; that no
pointer dangles and that nothing is left behind or destroyed twice follows.
-/

namespace BoostLearning

structure Counted (α : Type*) where
  object : α
  useCount : Nat
  pos : 0 < useCount

/-- Objects by their address. Addresses are not reused; `destroyed` is a history variable, the
objects in the order of their destruction. -/
structure Heap (α : Type*) where
  next : Nat
  cells : Nat → Option (Counted α)
  destroyed : List Nat

namespace Heap

variable {α : Type*}

def empty : Heap α := ⟨0, fun _ => none, []⟩

def get (h : Heap α) (p : Nat) : Option α := (h.cells p).map Counted.object

def useCount (h : Heap α) (p : Nat) : Nat := (h.cells p).elim 0 Counted.useCount

def make (h : Heap α) (a : α) : Nat × Heap α :=
  (h.next, { h with
    next := h.next + 1
    cells := Function.update h.cells h.next (some ⟨a, 1, Nat.one_pos⟩) })

def modify (h : Heap α) (p : Nat) (f : α → α) : Heap α :=
  let cell := (h.cells p).map fun c => { c with object := f c.object }
  { h with cells := Function.update h.cells p cell }

def copy (h : Heap α) (p : Nat) : Heap α :=
  let cell := (h.cells p).map fun c => ⟨c.object, c.useCount + 1, Nat.succ_pos _⟩
  { h with cells := Function.update h.cells p cell }

/-- Destroy a pointer. -/
def drop (h : Heap α) (p : Nat) : Heap α :=
  match h.cells p with
  | none => h
  | some c =>
    if hc : 1 < c.useCount then
      let cell := ⟨c.object, c.useCount - 1, Nat.sub_pos_of_lt hc⟩
      { h with cells := Function.update h.cells p (some cell) }
    else
      { h with
        cells := Function.update h.cells p none
        destroyed := h.destroyed ++ [p] }

/-- The pointers that there are, and the objects that are gone. -/
structure Owned (h : Heap α) (pointers : List Nat) : Prop where
  counted : ∀ p, h.useCount p = pointers.count p
  made : ∀ p, p < h.next ↔ (h.get p).isSome ∨ p ∈ h.destroyed
  gone : ∀ p ∈ h.destroyed, h.get p = none
  once : h.destroyed.Nodup

variable {h : Heap α} {ps qs : List Nat} {p q : Nat} {a : α}

@[simp]
theorem copy_get : (h.copy p).get = h.get := by
  funext q
  by_cases hq : q = p
  · subst q
    cases hp : h.cells p <;> simp [get, copy, hp]
  · simp [get, copy, hq]

theorem modify_get {f : α → α} :
    (h.modify p f).get q = if q = p then (h.get p).map f else h.get q := by
  by_cases hq : q = p
  · subst q
    cases hp : h.cells p <;> simp [get, modify, hp]
  · simp [get, modify, hq]

theorem make_get : (h.make a).2.get q = if q = h.next then some a else h.get q := by
  by_cases hq : q = h.next
  · simp [get, make, hq]
  · simp [get, make, hq]

@[simp]
theorem copy_next : (h.copy p).next = h.next := rfl

@[simp]
theorem modify_next {f : α → α} : (h.modify p f).next = h.next := rfl

theorem useCount_pos : 0 < h.useCount p ↔ (h.get p).isSome := by
  cases hp : h.cells p with
  | none => simp [useCount, get, hp]
  | some c => simp [useCount, get, hp, c.pos]

theorem owned_empty : (empty : Heap α).Owned [] where
  counted := fun p => by simp [useCount, empty]
  made := fun p => by simp [get, empty]
  gone := fun p hp => absurd hp (by simp [empty])
  once := List.nodup_nil

theorem Owned.perm (h' : h.Owned ps) (hperm : ps.Perm qs) : h.Owned qs :=
  ⟨fun p => (h'.counted p).trans (hperm.count_eq p), h'.made, h'.gone, h'.once⟩

/-- No pointer dangles, and an object without a pointer is gone. -/
theorem Owned.isSome_iff (h' : h.Owned ps) : (h.get p).isSome ↔ p ∈ ps := by
  rw [← useCount_pos, h'.counted, List.count_pos_iff]

theorem Owned.destroyed_iff (h' : h.Owned ps) : p ∈ h.destroyed ↔ p < h.next ∧ p ∉ ps := by
  rw [h'.made, ← h'.isSome_iff]
  constructor
  · intro hp
    exact ⟨.inr hp, by simp [h'.gone p hp]⟩
  · rintro ⟨hmade, hp⟩
    exact hmade.resolve_left hp

theorem Owned.swap (h' : h.Owned (p :: q :: ps)) : h.Owned (q :: p :: ps) :=
  h'.perm (.swap q p ps)

theorem Owned.lt_next (h' : h.Owned ps) (hp : p ∈ ps) : p < h.next :=
  (h'.made p).2 (.inl (h'.isSome_iff.2 hp))

theorem Owned.next_notMem (h' : h.Owned ps) : h.next ∉ ps :=
  fun hmem => absurd (h'.lt_next hmem) (Nat.lt_irrefl _)

private theorem Owned.exists_cell (h' : h.Owned ps) (hp : p ∈ ps) :
    ∃ c, h.cells p = some c ∧ c.useCount = ps.count p := by
  have hcount := h'.counted p
  obtain ⟨c, hc⟩ : ∃ c, h.cells p = some c := by
    have hsome := h'.isSome_iff.2 hp
    simpa [get, Option.isSome_iff_exists] using hsome
  exact ⟨c, hc, by simpa [useCount, hc] using hcount⟩

/-! ## What becomes of the pointers -/

theorem Owned.make (h' : h.Owned ps) (a : α) : (h.make a).2.Owned (h.next :: ps) where
  counted := by
    intro q
    by_cases hq : q = h.next
    · subst q
      have hnone : h.next ∉ ps := h'.next_notMem
      simp [useCount, Heap.make, List.count_eq_zero_of_not_mem hnone]
    · have hcount := h'.counted q
      rw [List.count_cons_of_ne (Ne.symm hq), ← hcount]
      simp [useCount, Heap.make, hq]
  made := by
    intro q
    rw [make_get]
    have hmade := h'.made q
    by_cases hq : q = h.next
    · simp [Heap.make, hq]
    · rw [if_neg hq]
      change q < h.next + 1 ↔ (h.get q).isSome ∨ q ∈ h.destroyed
      rw [← hmade]
      omega
  gone := by
    intro q hq
    have hlt : q < h.next := (h'.made q).2 (.inr hq)
    rw [make_get, if_neg (Nat.ne_of_lt hlt)]
    exact h'.gone q hq
  once := h'.once

theorem Owned.copy (h' : h.Owned ps) (hp : p ∈ ps) : (h.copy p).Owned (p :: ps) where
  counted := by
    intro q
    by_cases hq : q = p
    · obtain ⟨c, hc, huse⟩ := h'.exists_cell hp
      rw [hq, List.count_cons_self, ← huse]
      simp [useCount, Heap.copy, hc]
    · have hcount := h'.counted q
      rw [List.count_cons_of_ne (Ne.symm hq), ← hcount]
      simp [useCount, Heap.copy, hq]
  made := by
    rw [copy_get]
    exact h'.made
  gone := by
    rw [copy_get]
    exact h'.gone
  once := h'.once

theorem Owned.modify (h' : h.Owned ps) (p : Nat) (f : α → α) : (h.modify p f).Owned ps where
  counted := by
    intro q
    rw [← h'.counted q]
    by_cases hq : q = p
    · subst q
      cases hc : h.cells p <;> simp [useCount, Heap.modify, hc]
    · simp [useCount, Heap.modify, hq]
  made := by
    intro q
    change q < h.next ↔ ((h.modify p f).get q).isSome ∨ q ∈ h.destroyed
    rw [h'.made q, modify_get]
    by_cases hq : q = p
    · simp [hq]
    · simp [hq]
  gone := by
    intro q hq
    have hgone := h'.gone q hq
    rw [modify_get]
    split
    · rename_i heq
      rw [← heq, hgone]
      rfl
    · exact hgone
  once := h'.once

/-- A pointer that is not the last one leaves the object. -/
theorem Owned.drop_of_mem (h' : h.Owned (p :: ps)) (hp : p ∈ ps) :
    (h.drop p).Owned ps ∧ (h.drop p).get = h.get ∧ (h.drop p).destroyed = h.destroyed := by
  obtain ⟨c, hc, huse⟩ := h'.exists_cell List.mem_cons_self
  have hpos := List.count_pos_iff.2 hp
  rw [List.count_cons_self] at huse
  have hmore : 1 < c.useCount := by omega
  have hdrop : h.drop p = { h with
      cells := Function.update h.cells p
        (some ⟨c.object, c.useCount - 1, Nat.sub_pos_of_lt hmore⟩) } := by
    simp [drop, hc, hmore]
  have hget : (h.drop p).get = h.get := by
    funext q
    by_cases hq : q = p
    · simp [get, hdrop, hc, hq]
    · simp [get, hdrop, hq]
  refine ⟨⟨?_, ?_, ?_, ?_⟩, hget, by rw [hdrop]⟩
  · intro q
    by_cases hq : q = p
    · simp [useCount, hdrop, huse, hq]
    · rw [← List.count_cons_of_ne (Ne.symm hq), ← h'.counted q]
      simp [useCount, hdrop, hq]
  · rw [hget, hdrop]
    exact h'.made
  · rw [hget, hdrop]
    exact h'.gone
  · rw [hdrop]
    exact h'.once

/-- The last pointer takes the object with it. -/
theorem Owned.drop_last (h' : h.Owned (p :: ps)) (hp : p ∉ ps) :
    (h.drop p).Owned ps ∧ (∀ q, (h.drop p).get q = if q = p then none else h.get q) ∧
      (h.drop p).destroyed = h.destroyed ++ [p] := by
  obtain ⟨c, hc, huse⟩ := h'.exists_cell List.mem_cons_self
  have hnone := List.count_eq_zero_of_not_mem hp
  rw [List.count_cons_self, hnone] at huse
  have hlast : ¬1 < c.useCount := by omega
  have hdrop : h.drop p = { h with
      cells := Function.update h.cells p none
      destroyed := h.destroyed ++ [p] } := by
    simp [drop, hc, hlast]
  have hsome : (h.get p).isSome := h'.isSome_iff.2 List.mem_cons_self
  have hget : ∀ q, (h.drop p).get q = if q = p then none else h.get q := by
    intro q
    by_cases hq : q = p
    · simp [get, hdrop, hq]
    · simp [get, hdrop, hq]
  refine ⟨⟨?_, ?_, ?_, ?_⟩, hget, by rw [hdrop]⟩
  · intro q
    by_cases hq : q = p
    · simp [useCount, hdrop, hnone, hq]
    · rw [← List.count_cons_of_ne (Ne.symm hq), ← h'.counted q]
      simp [useCount, hdrop, hq]
  · intro q
    rw [hget, hdrop]
    change q < h.next ↔ _
    rw [h'.made q]
    by_cases hq : q = p
    · simp [hq, hsome]
    · simp [hq]
  · intro q hq
    rw [hget]
    split
    · rfl
    · rename_i hne
      rw [hdrop, List.mem_append, List.mem_singleton] at hq
      exact h'.gone q (hq.resolve_right hne)
  · have hlive : p ∉ h.destroyed := by
      intro hmem
      rw [h'.gone p hmem] at hsome
      exact absurd hsome (by simp)
    rw [hdrop]
    refine List.nodup_append.2 ⟨h'.once, by simp, ?_⟩
    intro a ha b hb heq
    exact hlive (List.mem_singleton.1 hb ▸ heq ▸ ha)

theorem Owned.drop (h' : h.Owned (p :: ps)) : (h.drop p).Owned ps := by
  by_cases hp : p ∈ ps
  · exact (h'.drop_of_mem hp).1
  · exact (h'.drop_last hp).1

@[simp]
theorem drop_next : (h.drop p).next = h.next := by
  unfold Heap.drop
  split
  · rfl
  · split <;> rfl

end Heap

/-! ## Pointers that operations hold -/

/-- Of the pointers in several places, those in one place become one more. -/
theorem perm_flatMap_range {f g : Nat → List Nat} {n r p : Nat} (hr : r < n)
    (hother : ∀ k, k ≠ r → g k = f k) (hat : (g r).Perm (p :: f r)) :
    ((List.range n).flatMap g).Perm (p :: (List.range n).flatMap f) := by
  induction n with
  | zero => omega
  | succ n ih =>
    simp only [List.range_succ, List.flatMap_append, List.flatMap_singleton]
    by_cases hrn : r = n
    · subst hrn
      have hsame : (List.range r).flatMap g = (List.range r).flatMap f := by
        apply List.flatMap_congr
        intro k hk
        exact hother k (Nat.ne_of_lt (List.mem_range.1 hk))
      rw [hsame]
      exact (hat.append_left _).trans List.perm_middle
    · rw [hother n (Ne.symm hrn)]
      exact (ih (by omega)).append_right _

theorem perm_map_eraseIdx {α : Type*} {f : α → Nat} {l : List α} {i : Nat} {a : α}
    (hi : l[i]? = some a) : (f a :: (l.eraseIdx i).map f).Perm (l.map f) := by
  obtain ⟨hlt, rfl⟩ := List.getElem?_eq_some_iff.1 hi
  have hperm := (List.getElem_cons_eraseIdx_perm hlt).map f
  rwa [List.map_cons] at hperm

end BoostLearning
