import BoostLearning.Framework.Transition
import Mathlib.Data.List.InsertIdx
import Mathlib.Data.List.Nodup

/-!
# The handler storage

A `handler_memory` hands out its storage to one block at a time and everything else to the heap.
The heap is the program's own: what `::operator new` answers is left open, but for being distinct
from the storage and from what it handed out before and was not given back.
-/

namespace BoostLearning.Allocation

abbrev Pointer := Nat

/-- Calls of the global heap; `new` fails with an exception. -/
inductive HeapCall where
  | operatorNew (size : UInt64) (p : Option Pointer)
  | operatorDelete (p : Pointer)
deriving DecidableEq

@[simp]
def HeapCall.apply : HeapCall → List Pointer → List Pointer
  | .operatorNew _ (some p), heap => heap ++ [p]
  | .operatorNew _ none, heap => heap
  | .operatorDelete p, heap => heap.erase p

/-- The blocks that `::operator new` handed out and `::operator delete` did not get back. -/
def heapOf (calls : List HeapCall) : List Pointer := calls.foldl (fun heap c => c.apply heap) []

@[simp]
theorem heapOf_nil : heapOf [] = [] := rfl

@[simp]
theorem heapOf_concat (calls : List HeapCall) (c : HeapCall) :
    heapOf (calls ++ [c]) = c.apply (heapOf calls) := by
  rw [heapOf, List.foldl_concat]
  rfl

/-- `sizeof(_storage)`. -/
def storageSize : UInt64 := 1024

/-- `handler_memory`, which is never copied: `storage` is the address of its `_storage`. -/
structure HandlerMemory where
  storage : Pointer
  isUse : Bool
deriving DecidableEq

namespace HandlerMemory

def new (storage : Pointer) : HandlerMemory := ⟨storage, false⟩

/-- `allocate`, when `::operator new` would answer `fresh`. -/
def allocate (m : HandlerMemory) (size : UInt64) (fresh : Option Pointer) :
    HandlerMemory × Option Pointer × List HeapCall :=
  if !m.isUse && size < storageSize then ({ m with isUse := true }, some m.storage, [])
  else (m, fresh, [.operatorNew size fresh])

def deallocate (m : HandlerMemory) (pointer : Pointer) : HandlerMemory × List HeapCall :=
  if pointer = m.storage then ({ m with isUse := false }, [])
  else (m, [.operatorDelete pointer])

end HandlerMemory

/-- `handler_allocator<T>`: the memory that it refers to, and `sizeof(T)`. -/
structure HandlerAllocator where
  memory : Pointer
  valueSize : UInt64
deriving DecidableEq

namespace HandlerAllocator

def ofMemory (mem : HandlerMemory) (valueSize : UInt64) : HandlerAllocator :=
  ⟨mem.storage, valueSize⟩

/-- The conversion from `handler_allocator<U>`, or a copy. -/
def rebind (other : HandlerAllocator) (valueSize : UInt64) : HandlerAllocator :=
  ⟨other.memory, valueSize⟩

def eq (a b : HandlerAllocator) : Bool := a.memory = b.memory

/-- The size that `allocate(n)` asks of the memory, in the arithmetic of `std::size_t`. -/
def size (a : HandlerAllocator) (n : UInt64) : UInt64 := a.valueSize * n

/-- `allocate(n)`, on the memory that the allocator refers to. -/
def allocate (a : HandlerAllocator) (m : HandlerMemory) (n : UInt64) (fresh : Option Pointer) :
    HandlerMemory × Option Pointer × List HeapCall :=
  m.allocate (a.size n) fresh

end HandlerAllocator

/-- A block that was handed out and not freed, with the size it was requested with. -/
structure Block where
  pointer : Pointer
  size : UInt64
deriving DecidableEq

/-- A memory, the allocators that refer to it, the live blocks, and the calls of the heap. -/
structure World where
  memory : HandlerMemory
  allocators : List HandlerAllocator
  live : List Block
  calls : List HeapCall
deriving DecidableEq

/-- What is done with a memory and its allocators. A call is made on the memory itself or through
an allocator; a block is named by its place among the live ones. -/
inductive Event where
  | wrap (valueSize : UInt64)
  | rebind (k : Nat) (valueSize : UInt64)
  | allocate (via : Option Nat) (n : UInt64) (fresh : Option Pointer)
  | deallocate (via : Option Nat) (i : Nat)
deriving DecidableEq

namespace World

/-- The size that reaches the memory; `none` when the allocator does not refer to it. -/
def request (w : World) (n : UInt64) : Option Nat → Option UInt64
  | none => some n
  | some k => (w.allocators[k]?.filter fun a => a.memory = w.memory.storage).map (·.size n)

def allocate (w : World) (size : UInt64) (fresh : Option Pointer) : World :=
  let r := w.memory.allocate size fresh
  { w with
    memory := r.1
    live := w.live ++ (r.2.1.map (⟨·, size⟩)).toList
    calls := w.calls ++ r.2.2 }

def deallocate (w : World) (i : Nat) (pointer : Pointer) : World :=
  let r := w.memory.deallocate pointer
  { w with memory := r.1, live := w.live.eraseIdx i, calls := w.calls ++ r.2 }

/-- One event. A new block of the heap is distinct from the other ones and from the storage. -/
def step (w : World) : Event → Option World
  | .wrap valueSize =>
    some { w with allocators := w.allocators ++ [.ofMemory w.memory valueSize] }
  | .rebind k valueSize =>
    w.allocators[k]?.map fun a => { w with allocators := w.allocators ++ [a.rebind valueSize] }
  | .allocate via n fresh =>
    if fresh.all fun p => p ≠ w.memory.storage ∧ p ∉ heapOf w.calls then
      (w.request n via).map fun size => w.allocate size fresh
    else none
  | .deallocate via i =>
    (w.request 0 via).bind fun _ => w.live[i]?.map fun b => w.deallocate i b.pointer

end World

def handlerMemory (storage : Pointer) : System World Event :=
  ⟨⟨.new storage, [], [], []⟩, World.step⟩

/-! ## Who has the storage -/

/-- What `allocate` hands out is the storage, or what `::operator new` answered. -/
theorem HandlerMemory.allocate_cases (m : HandlerMemory) (size : UInt64)
    (fresh : Option Pointer) :
    (m.isUse = false ∧ size < storageSize ∧
      m.allocate size fresh = ({ m with isUse := true }, some m.storage, [])) ∨
    ((m.isUse = true ∨ ¬ size < storageSize) ∧
      m.allocate size fresh = (m, fresh, [.operatorNew size fresh])) := by
  unfold allocate
  split
  · rename_i huse
    simp only [Bool.and_eq_true, Bool.not_eq_true', decide_eq_true_eq] at huse
    exact .inl ⟨huse.1, huse.2, rfl⟩
  · rename_i huse
    refine .inr ⟨?_, rfl⟩
    cases hm : m.isUse with
    | true => exact .inl rfl
    | false => exact .inr fun hsize => huse (by simp [hm, hsize])

private theorem nodup_append_singleton {α : Type*} {l : List α} {a : α} (hl : l.Nodup)
    (ha : a ∉ l) : (l ++ [a]).Nodup := by
  rw [← List.concat_eq_append]
  exact hl.concat ha

/-- Every call of `::operator delete` got a block of the heap, and never the storage. -/
def DeletesHeap (storage : Pointer) (calls : List HeapCall) : Prop :=
  ∀ before p after, calls = before ++ .operatorDelete p :: after →
    p ∈ heapOf before ∧ p ≠ storage

private theorem DeletesHeap.concat {storage : Pointer} {calls : List HeapCall} {c : HeapCall}
    (h : DeletesHeap storage calls)
    (hc : ∀ p, c = .operatorDelete p → p ∈ heapOf calls ∧ p ≠ storage) :
    DeletesHeap storage (calls ++ [c]) := by
  intro before p after heq
  rcases List.eq_nil_or_concat after with rfl | ⟨after, d, rfl⟩
  · obtain ⟨rfl, hcp⟩ := List.append_inj' heq rfl
    exact hc p (List.head_eq_of_cons_eq hcp)
  · rw [List.concat_eq_append, ← List.cons_append, ← List.append_assoc] at heq
    exact h before p after (List.append_inj' heq rfl).1

namespace World

variable {w w' : World} {storage p : Pointer} {size : UInt64} {e : Event}

def pointers (w : World) : List Pointer := w.live.map Block.pointer

/-- The flag tells whether the storage is out; the other live blocks are those of the heap. -/
structure Inv (storage : Pointer) (w : World) : Prop where
  address : w.memory.storage = storage
  allocators : ∀ a ∈ w.allocators, a.memory = storage
  used : w.memory.isUse = true ↔ storage ∈ w.pointers
  nodup : w.pointers.Nodup
  small : ∀ b ∈ w.live, b.pointer = storage → b.size < storageSize
  heap : ∀ p, p ∈ heapOf w.calls ↔ p ∈ w.pointers ∧ p ≠ storage
  heapNodup : (heapOf w.calls).Nodup
  deletes : DeletesHeap storage w.calls

private theorem inv_init (storage : Pointer) : (handlerMemory storage).init.Inv storage := by
  constructor
  case address => rfl
  case allocators => exact fun a ha => absurd ha List.not_mem_nil
  case used => simp [handlerMemory, HandlerMemory.new, pointers]
  case nodup => exact List.nodup_nil
  case small => exact fun b hb => absurd hb List.not_mem_nil
  case heap => simp [handlerMemory, pointers]
  case heapNodup => exact List.nodup_nil
  case deletes =>
    intro before p after heq
    exact absurd heq.symm (by simp [handlerMemory])

private theorem Inv.addAllocator (hi : w.Inv storage) {a : HandlerAllocator}
    (ha : a.memory = storage) :
    Inv storage { w with allocators := w.allocators ++ [a] } := by
  refine ⟨hi.address, ?_, hi.used, hi.nodup, hi.small, hi.heap, hi.heapNodup, hi.deletes⟩
  intro b hb
  cases List.mem_append.1 hb with
  | inl hb => exact hi.allocators b hb
  | inr hb => rw [List.mem_singleton.1 hb, ha]

/-- The storage is handed out. -/
private theorem Inv.allocateStorage (hi : w.Inv storage) (hfree : w.memory.isUse = false)
    (hsize : size < storageSize) :
    Inv storage { w with
      memory := { w.memory with isUse := true }
      live := w.live ++ [⟨storage, size⟩] } := by
  have hnot : storage ∉ w.pointers := fun h => absurd (hi.used.2 h) (by simp [hfree])
  have hpointers : (w.live ++ [(⟨storage, size⟩ : Block)]).map Block.pointer =
      w.pointers ++ [storage] := List.map_append
  constructor
  case address => exact hi.address
  case allocators => exact hi.allocators
  case used => simp [pointers]
  case nodup =>
    rw [pointers, hpointers]
    exact nodup_append_singleton hi.nodup hnot
  case small =>
    intro b hb hp
    cases List.mem_append.1 hb with
    | inl hb => exact hi.small b hb hp
    | inr hb =>
      rw [List.mem_singleton.1 hb]
      exact hsize
  case heap =>
    intro p
    change _ ↔ p ∈ (w.live ++ [(⟨storage, size⟩ : Block)]).map Block.pointer ∧ _
    rw [hi.heap, hpointers, List.mem_append, List.mem_singleton]
    constructor
    · rintro ⟨hp, hne⟩
      exact ⟨.inl hp, hne⟩
    · rintro ⟨hp | hp, hne⟩
      · exact ⟨hp, hne⟩
      · exact absurd hp hne
  case heapNodup => exact hi.heapNodup
  case deletes => exact hi.deletes

/-- `::operator new` is called. -/
private theorem Inv.allocateHeap (hi : w.Inv storage) {fresh : Option Pointer}
    (hfresh : ∀ p, fresh = some p → p ≠ storage ∧ p ∉ heapOf w.calls) :
    Inv storage { w with
      live := w.live ++ (fresh.map (⟨·, size⟩)).toList
      calls := w.calls ++ [.operatorNew size fresh] } := by
  have hdeletes := hi.deletes.concat (c := .operatorNew size fresh) (fun p hp => by simp at hp)
  cases fresh with
  | none =>
    refine ⟨hi.address, hi.allocators, ?_, ?_, ?_, ?_, ?_, hdeletes⟩
    · simpa [pointers] using hi.used
    · simpa [pointers] using hi.nodup
    · simpa using hi.small
    · simpa [pointers] using hi.heap
    · simpa using hi.heapNodup
  | some q =>
    obtain ⟨hq, hqheap⟩ := hfresh q rfl
    have hnot : q ∉ w.pointers := fun h => hqheap ((hi.heap q).2 ⟨h, hq⟩)
    have hpointers : (w.live ++ [(⟨q, size⟩ : Block)]).map Block.pointer = w.pointers ++ [q] :=
      List.map_append
    constructor
    case address => exact hi.address
    case allocators => exact hi.allocators
    case used =>
      change _ ↔ storage ∈ (w.live ++ [(⟨q, size⟩ : Block)]).map Block.pointer
      rw [hi.used, hpointers, List.mem_append, List.mem_singleton]
      exact ⟨.inl, fun h => h.resolve_right (Ne.symm hq)⟩
    case nodup =>
      change ((w.live ++ [(⟨q, size⟩ : Block)]).map Block.pointer).Nodup
      rw [hpointers]
      exact nodup_append_singleton hi.nodup hnot
    case small =>
      intro b hb hp
      cases List.mem_append.1 hb with
      | inl hb => exact hi.small b hb hp
      | inr hb =>
        rw [List.mem_singleton.1 hb] at hp
        exact absurd hp hq
    case heap =>
      intro p
      change _ ↔ p ∈ (w.live ++ [(⟨q, size⟩ : Block)]).map Block.pointer ∧ _
      rw [heapOf_concat, HeapCall.apply, hpointers, List.mem_append, List.mem_append, hi.heap,
        List.mem_singleton]
      constructor
      · rintro (⟨hp, hne⟩ | rfl)
        · exact ⟨.inl hp, hne⟩
        · exact ⟨.inr rfl, hq⟩
      · rintro ⟨hp | hp, hne⟩
        · exact .inl ⟨hp, hne⟩
        · exact .inr hp
    case heapNodup =>
      rw [heapOf_concat, HeapCall.apply]
      exact nodup_append_singleton hi.heapNodup hqheap
    case deletes => exact hdeletes

private theorem Inv.mem_eraseIdx (hi : w.Inv storage) {i : Nat} {b : Block}
    (hb : w.live[i]? = some b) :
    p ∈ (w.live.eraseIdx i).map Block.pointer ↔ p ∈ w.pointers ∧ p ≠ b.pointer := by
  obtain ⟨hlt, hget⟩ := List.getElem?_eq_some_iff.1 hb
  have hlt' : i < w.pointers.length := by simpa [pointers] using hlt
  have hat : w.pointers[i] = b.pointer := by simp [pointers, hget]
  rw [← List.eraseIdx_map, ← pointers, ← hi.nodup.erase_getElem i hlt', hat,
    hi.nodup.mem_erase_iff, and_comm]

/-- A block goes back to where it came from. -/
private theorem Inv.deallocate (hi : w.Inv storage) {i : Nat} {b : Block}
    (hb : w.live[i]? = some b) :
    (w.deallocate i b.pointer).Inv storage := by
  have hmem : b ∈ w.live := List.mem_of_getElem? hb
  have hpointer : b.pointer ∈ w.pointers := List.mem_map.2 ⟨b, hmem, rfl⟩
  have hnodup : ((w.live.eraseIdx i).map Block.pointer).Nodup := by
    rw [← List.eraseIdx_map]
    exact hi.nodup.sublist (List.eraseIdx_sublist _ _)
  have hsmall : ∀ c ∈ w.live.eraseIdx i, c.pointer = storage → c.size < storageSize :=
    fun c hc => hi.small c (List.mem_of_mem_eraseIdx hc)
  by_cases hstorage : b.pointer = storage
  · simp only [World.deallocate, HandlerMemory.deallocate, hi.address, if_pos hstorage]
    constructor
    case address => rfl
    case allocators => exact hi.allocators
    case used =>
      rw [pointers, hi.mem_eraseIdx hb]
      simp [hstorage]
    case nodup => exact hnodup
    case small => exact hsmall
    case heap =>
      intro p
      change _ ↔ p ∈ (w.live.eraseIdx i).map Block.pointer ∧ _
      rw [List.append_nil, hi.heap, hi.mem_eraseIdx hb, hstorage]
      exact ⟨fun h => ⟨h, h.2⟩, fun h => h.1⟩
    case heapNodup =>
      rw [List.append_nil]
      exact hi.heapNodup
    case deletes =>
      rw [List.append_nil]
      exact hi.deletes
  · have hheap : b.pointer ∈ heapOf w.calls := (hi.heap _).2 ⟨hpointer, hstorage⟩
    simp only [World.deallocate, HandlerMemory.deallocate, hi.address, if_neg hstorage]
    constructor
    case address => exact hi.address
    case allocators => exact hi.allocators
    case used =>
      rw [pointers, hi.mem_eraseIdx hb, hi.used]
      exact ⟨fun h => ⟨h, Ne.symm hstorage⟩, fun h => h.1⟩
    case nodup => exact hnodup
    case small => exact hsmall
    case heap =>
      intro p
      change _ ↔ p ∈ (w.live.eraseIdx i).map Block.pointer ∧ _
      rw [heapOf_concat, HeapCall.apply, hi.heapNodup.mem_erase_iff, hi.heap, hi.mem_eraseIdx hb]
      constructor
      · rintro ⟨hne, hp, hps⟩
        exact ⟨⟨hp, hne⟩, hps⟩
      · rintro ⟨⟨hp, hne⟩, hps⟩
        exact ⟨hne, hp, hps⟩
    case heapNodup =>
      rw [heapOf_concat, HeapCall.apply]
      exact hi.heapNodup.erase _
    case deletes =>
      apply hi.deletes.concat
      intro p hp
      obtain rfl : b.pointer = p := by simpa using hp
      exact ⟨hheap, hstorage⟩

theorem Inv.step (hi : w.Inv storage) (he : w.step e = some w') : w'.Inv storage := by
  cases e with
  | wrap valueSize =>
    obtain rfl := Option.some.inj he
    exact hi.addAllocator hi.address
  | rebind k valueSize =>
    obtain ⟨a, ha, rfl⟩ := Option.map_eq_some_iff.1 he
    exact hi.addAllocator (hi.allocators a (List.mem_of_getElem? ha))
  | allocate via n fresh =>
    simp only [World.step, Option.ite_none_right_eq_some] at he
    obtain ⟨hfresh, he⟩ := he
    obtain ⟨size, -, rfl⟩ := Option.map_eq_some_iff.1 he
    unfold World.allocate
    obtain ⟨hfree, hsize, heq⟩ | ⟨-, heq⟩ := w.memory.allocate_cases size fresh
    · simpa [heq, hi.address] using hi.allocateStorage hfree hsize
    · rw [heq]
      apply hi.allocateHeap
      rintro p rfl
      simpa [hi.address] using hfresh
  | deallocate via i =>
    obtain ⟨_, -, he⟩ := Option.bind_eq_some_iff.1 he
    obtain ⟨b, hb, rfl⟩ := Option.map_eq_some_iff.1 he
    exact hi.deallocate hb

theorem inv_reachable (hr : (handlerMemory storage).Reachable w) : w.Inv storage :=
  System.reachable_induction (inv_init storage) (fun _ _ _ _ hi he => hi.step he) hr

private theorem Inv.countP_storage (hi : w.Inv storage) :
    w.memory.isUse = true ↔ (w.live.countP fun b => b.pointer = storage) = 1 := by
  have hcount : (w.live.countP fun b => b.pointer = storage) = w.pointers.count storage := by
    rw [pointers, List.count, List.countP_map]
    rfl
  rw [hi.used, hcount]
  constructor
  · exact List.count_eq_one_of_mem hi.nodup
  · intro h
    exact List.count_pos_iff.1 (h ▸ Nat.one_pos)

private theorem Inv.eq_new (hi : w.Inv storage) (h : w.live = []) :
    w.memory = .new storage ∧ heapOf w.calls = [] := by
  have hnone : w.pointers = [] := by rw [pointers, h, List.map_nil]
  have hfree : w.memory.isUse = false := by
    rw [← Bool.not_eq_true, hi.used, hnone]
    exact List.not_mem_nil
  constructor
  · rw [HandlerMemory.new, ← hi.address, ← hfree]
  · apply List.eq_nil_iff_forall_not_mem.2
    intro p hp
    exact absurd (hnone ▸ ((hi.heap p).1 hp).1) List.not_mem_nil

/-- Only the block in the storage gives the storage back, through whatever allocator. -/
private theorem Inv.deallocate_cases (hi : w.Inv storage) {via : Option Nat} {i : Nat}
    (he : w.step (.deallocate via i) = some w') :
    ∃ b, w.live[i]? = some b ∧ w'.live = w.live.eraseIdx i ∧
      (b.pointer = storage → w'.memory = .new storage ∧ w'.calls = w.calls) ∧
      (b.pointer ≠ storage → w'.memory = w.memory ∧
        w'.calls = w.calls ++ [.operatorDelete b.pointer]) := by
  obtain ⟨_, -, he⟩ := Option.bind_eq_some_iff.1 he
  obtain ⟨b, hb, rfl⟩ := Option.map_eq_some_iff.1 he
  refine ⟨b, hb, rfl, ?_, ?_⟩
  · intro hp
    simp [World.deallocate, HandlerMemory.deallocate, hi.address, hp, HandlerMemory.new]
  · intro hp
    simp [World.deallocate, HandlerMemory.deallocate, hi.address, hp]

end World

/-- The storage is handed out to one block at a time and comes back from that block only; all
other blocks come from the heap and go back to it. -/
theorem storage_handed_out_once {storage : Pointer} {w : World}
    (hr : (handlerMemory storage).Reachable w) :
    (w.memory.isUse = true ↔ (w.live.countP fun b => b.pointer = storage) = 1) ∧
    (w.live.map Block.pointer).Nodup ∧
    (∀ b ∈ w.live, b.pointer = storage → b.size < storageSize) ∧
    (∀ p, p ∈ heapOf w.calls ↔ p ∈ w.live.map Block.pointer ∧ p ≠ storage) ∧
    DeletesHeap storage w.calls ∧
    (∀ via i w', w.step (.deallocate via i) = some w' → ∃ b, w.live[i]? = some b ∧
      w'.live = w.live.eraseIdx i ∧
      (b.pointer = storage → w'.memory = .new storage ∧ w'.calls = w.calls) ∧
      (b.pointer ≠ storage → w'.memory = w.memory ∧
        w'.calls = w.calls ++ [.operatorDelete b.pointer])) ∧
    (w.live = [] → w.memory = .new storage ∧ heapOf w.calls = []) ∧
    ∀ a ∈ w.allocators, a.eq (.ofMemory w.memory a.valueSize) := by
  have hi := World.inv_reachable hr
  refine ⟨hi.countP_storage, hi.nodup, hi.small, hi.heap, hi.deletes, ?_, hi.eq_new, ?_⟩
  · intro via i w' he
    exact hi.deallocate_cases he
  · intro a ha
    simp [HandlerAllocator.eq, HandlerAllocator.ofMemory, hi.allocators a ha, hi.address]

/-- Blocks of the storage and of the heap, requested on the memory and through two allocators. -/
def overlappingBlocks : List Event :=
  [.wrap 16, .rebind 0 1024, .allocate (some 0) 2 none, .allocate (some 0) 2 (some 7),
    .allocate none 1023 (some 3), .deallocate (some 1) 0, .allocate (some 1) 1 (some 5),
    .deallocate none 0, .allocate none 1023 none]

theorem storage_handed_out_once_overlappingBlocks :
    let w := (handlerMemory 1).final overlappingBlocks
    w.live.map Block.pointer = [3, 5, 1] ∧
      (w.live.countP fun b => b.pointer = 1) = 1 ∧ DeletesHeap 1 w.calls := by
  have hr := (handlerMemory 1).reachable_final overlappingBlocks
  obtain ⟨huse, -, -, -, hdeletes, -⟩ := storage_handed_out_once hr
  exact ⟨by decide +kernel, huse.1 (by decide +kernel), hdeletes⟩

end BoostLearning.Allocation
