import BoostLearning.Allocation.Memory

/-!
# Blocks for `n` elements

`allocate(n)` multiplies in `std::size_t`, and nothing checks the product before it reaches the
memory. A product that wraps is more than any block can hold, and what is left of it may still be
small enough for the storage.
-/

namespace BoostLearning.Allocation

/-- How many bytes a block has: the storage as many as it is declared with, and a block of the heap
at least as many as `::operator new` was asked for. -/
structure Extents (m : HandlerMemory) (calls : List HeapCall) (extent : Pointer → UInt64) :
    Prop where
  storage : extent m.storage = storageSize
  heap : ∀ size p, .operatorNew size (some p) ∈ calls → size ≤ extent p

namespace HandlerAllocator

/-- When the heap would answer `fresh`, `allocate(n)` fails or the block has room for `n`
elements. -/
def AllocatesEnough (a : HandlerAllocator) (m : HandlerMemory) (n : UInt64)
    (fresh : Option Pointer) : Prop :=
  ∀ extent, Extents m (a.allocate m n fresh).2.2 extent →
    ∀ p, (a.allocate m n fresh).2.1 = some p → a.valueSize.toNat * n.toNat ≤ (extent p).toNat

variable {a : HandlerAllocator} {m : HandlerMemory} {n : UInt64} {fresh : Option Pointer}

private theorem toNat_size (h : a.valueSize.toNat * n.toNat < UInt64.size) :
    (a.size n).toNat = a.valueSize.toNat * n.toNat := by
  rw [size, UInt64.toNat_mul]
  exact Nat.mod_eq_of_lt h

private theorem allocate_cases (a : HandlerAllocator) (m : HandlerMemory) (n : UInt64)
    (fresh : Option Pointer) :
    (m.isUse = false ∧ a.size n < storageSize ∧
      a.allocate m n fresh = ({ m with isUse := true }, some m.storage, [])) ∨
    ((m.isUse = true ∨ ¬ a.size n < storageSize) ∧
      a.allocate m n fresh = (m, fresh, [.operatorNew (a.size n) fresh])) :=
  m.allocate_cases (a.size n) fresh

private theorem allocatesEnough_of_lt (h : a.valueSize.toNat * n.toNat < UInt64.size) :
    a.AllocatesEnough m n fresh := by
  intro extent hextent p hp
  rw [← toNat_size h]
  obtain ⟨-, hsize, heq⟩ | ⟨-, heq⟩ := a.allocate_cases m n fresh
  · rw [heq] at hp
    obtain rfl : m.storage = p := Option.some.inj hp
    rw [hextent.storage]
    exact Nat.le_of_lt (UInt64.lt_iff_toNat_lt.1 hsize)
  · rw [heq] at hextent hp
    obtain rfl : fresh = some p := hp
    exact UInt64.le_iff_toNat_le.1 (hextent.heap (a.size n) p List.mem_cons_self)

private theorem exists_extents (a : HandlerAllocator) (n : UInt64)
    (hfresh : fresh ≠ some m.storage) :
    ∃ extent, Extents m (a.allocate m n fresh).2.2 extent := by
  refine ⟨fun p => if p = m.storage then storageSize else a.size n, if_pos rfl, ?_⟩
  intro size p hmem
  obtain ⟨-, -, heq⟩ | ⟨-, heq⟩ := a.allocate_cases m n fresh
  · rw [heq] at hmem
    exact absurd hmem List.not_mem_nil
  · rw [heq] at hmem
    obtain ⟨rfl, rfl⟩ : size = a.size n ∧ some p = fresh := by simpa using hmem
    have hne : p ≠ m.storage := fun hp => hfresh (congrArg some hp)
    rw [if_neg hne]
    exact UInt64.le_refl _

private theorem AllocatesEnough.lt_size (h : a.AllocatesEnough m n fresh)
    (hfresh : fresh ≠ some m.storage) {p : Pointer} (hp : (a.allocate m n fresh).2.1 = some p) :
    a.valueSize.toNat * n.toNat < UInt64.size := by
  obtain ⟨extent, hextent⟩ := a.exists_extents n hfresh
  exact Nat.lt_of_le_of_lt (h extent hextent p hp) (UInt64.toNat_lt_size _)

private theorem allocatesEnough_cases (hfresh : fresh ≠ some m.storage) :
    a.AllocatesEnough m n fresh ↔ a.valueSize.toNat * n.toNat < UInt64.size ∨
      (fresh = none ∧ (m.isUse = true ∨ ¬ a.size n < storageSize)) := by
  constructor
  · intro h
    obtain ⟨-, -, heq⟩ | ⟨htaken, heq⟩ := a.allocate_cases m n fresh
    · exact .inl (h.lt_size hfresh (by rw [heq]))
    · cases fresh with
      | none => exact .inr ⟨rfl, htaken⟩
      | some p => exact .inl (h.lt_size hfresh (by rw [heq]))
  · rintro (hlt | ⟨rfl, htaken⟩)
    · exact allocatesEnough_of_lt hlt
    · intro extent _ p hp
      obtain ⟨hfree, hsize, -⟩ | ⟨-, heq⟩ := a.allocate_cases m n none
      · cases htaken with
        | inl huse => exact absurd (hfree.symm.trans huse) Bool.false_ne_true
        | inr hbig => exact absurd hsize hbig
      · rw [heq] at hp
        exact absurd hp (Option.some_ne_none p).symm

end HandlerAllocator

/-- In every state of the memory, `allocate(n)` hands out blocks with room for `n` elements exactly
when the bytes of `n` elements can be counted in a `std::size_t`. A product that wraps does no harm
only where no block is handed out: not that of the storage, and the heap has none. -/
theorem allocatesEnough_iff (a : HandlerAllocator) (m : HandlerMemory) (n : UInt64) :
    ((∀ fresh, fresh ≠ some m.storage → a.AllocatesEnough m n fresh) ↔
      a.valueSize.toNat * n.toNat < UInt64.size) ∧
    ∀ fresh, fresh ≠ some m.storage →
      (a.AllocatesEnough m n fresh ↔ a.valueSize.toNat * n.toNat < UInt64.size ∨
        (fresh = none ∧ (m.isUse = true ∨ ¬ a.size n < storageSize))) := by
  refine ⟨⟨fun h => ?_, fun h fresh _ => HandlerAllocator.allocatesEnough_of_lt h⟩,
    fun fresh => HandlerAllocator.allocatesEnough_cases⟩
  -- a heap that has a block for every request
  have hfresh : some (m.storage + 1) ≠ some m.storage :=
    fun heq => Nat.succ_ne_self m.storage (Option.some.inj heq)
  cases (HandlerAllocator.allocatesEnough_cases hfresh).1 (h _ hfresh) with
  | inl hlt => exact hlt
  | inr hnone => exact absurd hnone.1 (Option.some_ne_none _)

/-- For `2 ^ 60 + 1` elements of 16 bytes the storage is handed out, as if for one of them. -/
theorem not_allocatesEnough_wrapped :
    1 ≤ (HandlerAllocator.mk 1 16).valueSize ∧
      ((HandlerAllocator.mk 1 16).allocate (.new 1) 0x1000000000000001 none).2.1 = some 1 ∧
      ¬ (HandlerAllocator.mk 1 16).AllocatesEnough (.new 1) 0x1000000000000001 none := by
  have hstorage : (HandlerAllocator.mk 1 16).allocate (.new 1) 0x1000000000000001 none =
      (⟨1, true⟩, some 1, []) := by decide
  refine ⟨by decide, by rw [hstorage], ?_⟩
  intro h
  have hextent : Extents (.new 1)
      ((HandlerAllocator.mk 1 16).allocate (.new 1) 0x1000000000000001 none).2.2
      (fun _ => storageSize) := by
    rw [hstorage]
    exact ⟨rfl, fun _ _ hmem => absurd hmem List.not_mem_nil⟩
  have hle := h _ hextent 1 (by rw [hstorage])
  exact absurd hle (by decide)

/-! ## Allocations of a run -/

namespace World

variable {w w' : World} {storage : Pointer} {k : Nat} {a : HandlerAllocator} {n : UInt64}
  {fresh : Option Pointer}

private theorem step_allocate (hk : w.allocators[k]? = some a)
    (he : w.step (.allocate (some k) n fresh) = some w') :
    w'.memory = (a.allocate w.memory n fresh).1 ∧
      w'.live = w.live ++ ((a.allocate w.memory n fresh).2.1.map (⟨·, a.size n⟩)).toList ∧
      w'.calls = w.calls ++ (a.allocate w.memory n fresh).2.2 := by
  simp only [World.step, Option.ite_none_right_eq_some] at he
  obtain ⟨-, he⟩ := he
  obtain ⟨size, hsize, rfl⟩ := Option.map_eq_some_iff.1 he
  obtain ⟨b, hb, rfl⟩ := Option.map_eq_some_iff.1 hsize
  obtain ⟨hb, -⟩ := Option.filter_eq_some_iff.1 hb
  obtain rfl : a = b := Option.some.inj (hk.symm.trans hb)
  exact ⟨rfl, rfl, rfl⟩

/-- In every run, a block that is handed out for elements whose bytes can be counted has been
requested with all of them, and has room for them if it is the storage. -/
theorem step_allocate_enough (hr : (handlerMemory storage).Reachable w)
    (hk : w.allocators[k]? = some a) (hfit : a.valueSize.toNat * n.toNat < UInt64.size)
    (he : w.step (.allocate (some k) n fresh) = some w') :
    ∀ b ∈ w'.live, b ∈ w.live ∨ (b.size.toNat = a.valueSize.toNat * n.toNat ∧
      (b.pointer = storage → a.valueSize.toNat * n.toNat < storageSize.toNat)) := by
  intro b hb
  have hsmall := ((inv_reachable hr).step he).small b hb
  rw [(step_allocate hk he).2.1] at hb
  cases List.mem_append.1 hb with
  | inl hold => exact .inl hold
  | inr hnew =>
    obtain ⟨p, -, rfl⟩ := Option.map_eq_some_iff.1 (Option.mem_toList.1 hnew)
    have hsize := HandlerAllocator.toNat_size hfit
    refine .inr ⟨hsize, fun hp => ?_⟩
    rw [← hsize]
    exact UInt64.lt_iff_toNat_lt.1 (hsmall hp)

end World

end BoostLearning.Allocation
