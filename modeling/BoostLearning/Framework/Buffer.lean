import Mathlib.Data.List.Basic

/-!
# Fixed-size buffers

The contents of an array whose size is part of its type. A store that runs past the end is
cut there: the elements behind the array are not part of it.
-/

namespace BoostLearning

/-- The `n` elements of an array. -/
structure Buffer (β : Type*) (n : Nat) where
  elems : List β
  size_eq : elems.length = n
deriving DecidableEq

namespace Buffer

variable {β : Type*} {n : Nat}

/-- Overwrite the elements from `offset` on with `bs`. -/
def store (b : Buffer β n) (offset : Nat) (bs : List β) : Buffer β n where
  elems := (b.elems.take offset ++ bs ++ b.elems.drop (offset + bs.length)).take n
  size_eq := by
    have := b.size_eq
    simp only [List.length_take, List.length_append, List.length_drop]
    omega

def fill (n : Nat) (x : β) : Buffer β n where
  elems := List.replicate n x
  size_eq := List.length_replicate

theorem length_take_elems (b : Buffer β n) {k : Nat} (hk : k ≤ n) :
    (b.elems.take k).length = k := by
  rw [List.length_take, b.size_eq, Nat.min_eq_left hk]

theorem store_elems (b : Buffer β n) {offset : Nat} {bs : List β} (h : offset + bs.length ≤ n) :
    (b.store offset bs).elems =
      b.elems.take offset ++ bs ++ b.elems.drop (offset + bs.length) := by
  have hlen := b.size_eq
  apply List.take_of_length_le
  simp only [List.length_take, List.length_append, List.length_drop]
  omega

theorem take_store (b : Buffer β n) (offset : Nat) (bs : List β)
    (h : offset + bs.length ≤ n) :
    (b.store offset bs).elems.take (offset + bs.length) = b.elems.take offset ++ bs := by
  have hpre : (b.elems.take offset ++ bs).length = offset + bs.length := by
    rw [List.length_append, b.length_take_elems (by omega)]
  rw [store_elems b h, ← hpre, List.take_left]

theorem take_store_of_le (b : Buffer β n) (offset k : Nat) (bs : List β)
    (h : offset + bs.length ≤ n) (hk : k ≤ offset) :
    (b.store offset bs).elems.take k = b.elems.take k := by
  have hpre : k ≤ (b.elems.take offset).length := by
    rw [b.length_take_elems (by omega)]
    exact hk
  rw [store_elems b h, List.append_assoc, List.take_append_of_le_length hpre, List.take_take,
    Nat.min_eq_left hk]

theorem drop_store (b : Buffer β n) {offset k : Nat} {bs : List β}
    (h : offset + bs.length ≤ n) (hk : offset + bs.length ≤ k) :
    (b.store offset bs).elems.drop k = b.elems.drop k := by
  have hpre : (b.elems.take offset ++ bs).length = offset + bs.length := by
    rw [List.length_append, b.length_take_elems (by omega)]
  rw [store_elems b h, List.drop_append, hpre, List.drop_drop,
    List.drop_eq_nil_of_le (by omega), List.nil_append, Nat.add_sub_cancel' hk]

end Buffer

end BoostLearning
