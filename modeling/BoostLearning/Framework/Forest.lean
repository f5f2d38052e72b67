import Mathlib.Data.List.Basic
import Mathlib.Logic.Function.Basic

/-!
# Stacks linked through memory, and forests

Cells at addresses, each with the address of the one below it. Such a chain stands for a list: the
pointer to the top is that of its first element, a cell is pushed at an address that is not in
use, and following the link of the top pops it.

A forest is a list of nodes that are added one after another, each below an older one or as a root.
Labels are what a node takes over from the one it is added below.
-/

namespace BoostLearning

/-! ## Linked stacks -/

abbrev Addr := Nat

variable {κ β : Type*}

/-- The cells from `top` on are at the addresses of the list, and each stands for its element. -/
def Linked (next : κ → Option Addr) (R : κ → β → Prop) (mem : Addr → Option κ) :
    Option Addr → List (Addr × β) → Prop
  | top, [] => top = none
  | top, (p, b) :: l => top = some p ∧ ∃ c, mem p = some c ∧ R c b ∧ Linked next R mem (next c) l

namespace Linked

variable {next : κ → Option Addr} {R R' : κ → β → Prop} {mem : Addr → Option κ}
  {top : Option Addr} {l : List (Addr × β)} {p : Addr} {b : β} {c : κ}

theorem update (h : Linked next R mem top l) (hp : p ∉ l.map Prod.fst) (c : Option κ) :
    Linked next R (Function.update mem p c) top l := by
  induction l generalizing top with
  | nil => exact h
  | cons x l ih =>
    obtain ⟨htop, c', hc', hR, hl⟩ := h
    obtain ⟨hne, hp⟩ := not_or.1 (mt List.mem_cons.2 hp)
    exact ⟨htop, c', by rw [Function.update_of_ne (Ne.symm hne), hc'], hR, ih hl hp⟩

theorem push (h : Linked next R mem top l) (hp : p ∉ l.map Prod.fst) (hR : R c b)
    (hnext : next c = top) :
    Linked next R (Function.update mem p (some c)) (some p) ((p, b) :: l) := by
  refine ⟨rfl, c, Function.update_self p (some c) mem, hR, ?_⟩
  rw [hnext]
  exact h.update hp (some c)

theorem mono (h : Linked next R mem top l) (hR : ∀ c b, R c b → R' c b) :
    Linked next R' mem top l := by
  induction l generalizing top with
  | nil => exact h
  | cons x l ih =>
    obtain ⟨htop, c, hc, hRc, hl⟩ := h
    exact ⟨htop, c, hc, hR _ _ hRc, ih hl⟩

end Linked

/-! ## Forests -/

/-- The parent of every node; the roots have none. -/
structure Forest where
  parents : List (Option Nat)
  older : ∀ i p : Nat, parents[i]? = some (some p) → p < i

namespace Forest

def empty : Forest := ⟨[], fun i p h => absurd h (by simp)⟩

def size (f : Forest) : Nat := f.parents.length

/-- Add a node below `p`, or as a root when there is no such node. -/
def grow (f : Forest) (p : Option Nat) : Forest where
  parents := f.parents ++ [p.filter (· < f.parents.length)]
  older := by
    intro i q h
    rw [List.getElem?_append] at h
    split at h
    · exact f.older i q h
    · rename_i hi
      obtain ⟨hlt, heq⟩ := List.getElem?_eq_some_iff.1 h
      have hq : p = some q ∧ q < f.parents.length := by simpa using heq
      omega

def IsRoot (f : Forest) (r : Nat) : Prop := f.parents[r]? = some none

inductive Descends (f : Forest) (r : Nat) : Nat → Prop
  | refl (h : r < f.size) : Descends f r r
  | child {a b : Nat} (h : Descends f r a) (hp : f.parents[b]? = some (some a)) : Descends f r b

def SameTree (f : Forest) (a b : Nat) : Prop := ∃ r, f.IsRoot r ∧ f.Descends r a ∧ f.Descends r b

def SingleTree (f : Forest) : Prop := ∀ r r', f.IsRoot r → f.IsRoot r' → r = r'

/-- Every node below another one has its label. -/
def Inherited {γ : Type*} (f : Forest) (label : Nat → γ) : Prop :=
  ∀ b a : Nat, f.parents[b]? = some (some a) → label b = label a

variable {f : Forest} {a b r r' : Nat} {p : Option Nat}

@[simp]
theorem grow_size (f : Forest) (p : Option Nat) : (f.grow p).size = f.size + 1 := by
  simp [size, grow]

theorem grow_parents {o : Option Nat} (h : (f.grow p).parents[b]? = some o) :
    f.parents[b]? = some o ∨ (b = f.size ∧ o = p.filter (· < f.size)) := by
  simp only [grow, List.getElem?_append] at h
  split at h
  · exact .inl h
  · rename_i hb
    obtain ⟨hlt, heq⟩ := List.getElem?_eq_some_iff.1 h
    have hb' : b = f.size := by
      simp only [List.length_singleton] at hlt
      simp only [size]
      omega
    rw [List.getElem_singleton] at heq
    exact .inr ⟨hb', heq.symm⟩

theorem IsRoot.lt_size (h : f.IsRoot r) : r < f.size := (List.getElem?_eq_some_iff.1 h).1

theorem exists_root (h : a < f.size) : ∃ r, f.IsRoot r ∧ f.Descends r a := by
  induction a using Nat.strongRecOn with
  | ind a ih =>
    cases hp : f.parents[a]? with
    | none => exact absurd (List.getElem?_eq_none_iff.1 hp) (Nat.not_le.2 h)
    | some o =>
      cases o with
      | none => exact ⟨a, hp, .refl h⟩
      | some q =>
        have hlt := f.older a q hp
        obtain ⟨r, hr, hd⟩ := ih q hlt (Nat.lt_trans hlt h)
        exact ⟨r, hr, hd.child hp⟩

theorem root_unique (hr : f.IsRoot r) (hr' : f.IsRoot r') (h : f.Descends r a)
    (h' : f.Descends r' a) : r = r' := by
  induction h with
  | refl =>
    cases h' with
    | refl => rfl
    | child _ hp => rw [hr] at hp; exact absurd hp (by simp)
  | child _ hp ih =>
    cases h' with
    | refl => rw [hr'] at hp; exact absurd hp (by simp)
    | child hd' hp' =>
      rw [hp'] at hp
      simp only [Option.some.injEq] at hp
      exact ih (hp ▸ hd')

theorem eq_of_sameTree (hr : f.IsRoot r) (hr' : f.IsRoot r') (h : f.SameTree r r') : r = r' := by
  obtain ⟨r'', hr'', hd, hd'⟩ := h
  have heq := root_unique hr'' hr hd (.refl hr.lt_size)
  have heq' := root_unique hr'' hr' hd' (.refl hr'.lt_size)
  rw [← heq, ← heq']

theorem SingleTree.sameTree (h : f.SingleTree) (ha : a < f.size) (hb : b < f.size) :
    f.SameTree a b := by
  obtain ⟨r, hr, hd⟩ := exists_root ha
  obtain ⟨r', hr', hd'⟩ := exists_root hb
  exact ⟨r, hr, hd, h r' r hr' hr ▸ hd'⟩

section Labels

variable {γ : Type*} {label : Nat → γ}

theorem Inherited.eq_of_descends (hl : f.Inherited label) (h : f.Descends r a) :
    label a = label r := by
  induction h with
  | refl => rfl
  | child _ hp ih => rw [hl _ _ hp, ih]

/-- Labels that all roots share tell the trees apart only when there is no more than one. -/
theorem Inherited.tell_apart_iff {x : γ} (hl : f.Inherited label)
    (hroots : ∀ r, f.IsRoot r → label r = x) :
    (∀ a b, a < f.size → b < f.size → (label a = label b ↔ f.SameTree a b)) ↔ f.SingleTree := by
  constructor
  · intro h r r' hr hr'
    apply eq_of_sameTree hr hr'
    rw [← h r r' hr.lt_size hr'.lt_size, hroots r hr, hroots r' hr']
  · intro hsingle a b ha hb
    obtain ⟨r, hr, hd⟩ := exists_root ha
    obtain ⟨r', hr', hd'⟩ := exists_root hb
    constructor
    · exact fun _ => hsingle.sameTree ha hb
    · intro _
      rw [hl.eq_of_descends hd, hl.eq_of_descends hd', hroots r hr, hroots r' hr']

end Labels

end Forest

end BoostLearning
