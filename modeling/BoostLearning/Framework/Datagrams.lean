import Mathlib.Data.List.Basic

/-!
# Datagrams

A network that may lose a datagram, deliver it twice, and deliver two in another order. It makes
none of its own: what it has in flight was put there, and what was put there is still in flight,
was delivered, or was lost.
-/

namespace BoostLearning

/-- The datagrams that are on their way, and those that were lost. -/
structure Datagrams (α : Type*) where
  flight : List α
  lost : List α
deriving DecidableEq

namespace Datagrams

variable {α : Type*} {d d' : Datagrams α} {i : Nat} {x y : α}

def send (d : Datagrams α) (xs : List α) : Datagrams α := { d with flight := d.flight ++ xs }

def deliver (d : Datagrams α) (i : Nat) : Option (α × Datagrams α) :=
  d.flight[i]?.map fun x => (x, { d with flight := d.flight.eraseIdx i })

def lose (d : Datagrams α) (i : Nat) : Option (Datagrams α) :=
  d.flight[i]?.map fun x => ⟨d.flight.eraseIdx i, d.lost ++ [x]⟩

def duplicate (d : Datagrams α) (i : Nat) : Option (Datagrams α) :=
  d.flight[i]?.map fun x => { d with flight := d.flight ++ [x] }

theorem mem_eraseIdx {l : List α} (hi : l[i]? = some x) (hy : y ∈ l) :
    y = x ∨ y ∈ l.eraseIdx i := by
  obtain ⟨j, hj⟩ := List.mem_iff_getElem?.1 hy
  by_cases hij : j = i
  · subst hij
    exact .inl (Option.some.inj (hj.symm.trans hi))
  · exact .inr (List.mem_eraseIdx_iff_getElem?.2 ⟨j, hij, hj⟩)

@[simp] theorem mem_send {xs : List α} : y ∈ (d.send xs).flight ↔ y ∈ d.flight ∨ y ∈ xs :=
  List.mem_append

@[simp] theorem lost_send {xs : List α} : (d.send xs).lost = d.lost := rfl

/-- Delivering takes one datagram out of the network. -/
structure Delivers (d : Datagrams α) (x : α) (d' : Datagrams α) : Prop where
  mem : x ∈ d.flight
  sub : ∀ y ∈ d'.flight, y ∈ d.flight
  rest : ∀ y ∈ d.flight, y = x ∨ y ∈ d'.flight
  lost : d'.lost = d.lost

theorem delivers (h : d.deliver i = some (x, d')) : Delivers d x d' := by
  obtain ⟨y, hi, heq⟩ := Option.map_eq_some_iff.1 h
  obtain ⟨rfl, rfl⟩ := Prod.mk.inj heq
  exact ⟨List.mem_of_getElem? hi, fun _ => List.mem_of_mem_eraseIdx,
    fun _ => mem_eraseIdx hi, rfl⟩

theorem deliver_zero (h : d.deliver 0 = some (x, d')) : d.flight = x :: d'.flight := by
  obtain ⟨y, hy, heq⟩ := Option.map_eq_some_iff.1 h
  obtain ⟨rfl, rfl⟩ := Prod.mk.inj heq
  obtain ⟨flight, hflight⟩ := List.head?_eq_some_iff.1 (List.head?_eq_getElem? ▸ hy)
  rw [hflight]
  rfl

/-- Nothing is made, and what is gone is lost. -/
structure Suffers (d d' : Datagrams α) : Prop where
  sub : ∀ y ∈ d'.flight, y ∈ d.flight
  rest : ∀ y ∈ d.flight, y ∈ d'.flight ∨ y ∈ d'.lost
  lost : ∀ y ∈ d.lost, y ∈ d'.lost

theorem suffers_lose (h : d.lose i = some d') : Suffers d d' := by
  obtain ⟨x, hi, rfl⟩ := Option.map_eq_some_iff.1 h
  refine ⟨fun _ => List.mem_of_mem_eraseIdx, ?_, fun _ => List.mem_append_left _⟩
  intro y hy
  rcases mem_eraseIdx hi hy with rfl | hy
  · exact .inr (by simp)
  · exact .inl hy

theorem suffers_duplicate (h : d.duplicate i = some d') : Suffers d d' := by
  obtain ⟨x, hi, rfl⟩ := Option.map_eq_some_iff.1 h
  refine ⟨?_, fun _ hy => .inl (List.mem_append_left _ hy), fun _ hy => hy⟩
  intro y hy
  rcases List.mem_append.1 hy with hy | hy
  · exact hy
  · obtain rfl := List.mem_singleton.1 hy
    exact List.mem_of_getElem? hi

end Datagrams

end BoostLearning
