import Mathlib.Data.List.Basic
import Mathlib.Logic.Function.Basic

/-!
# Total-order broadcast with a bounded replay

What a room is for, stated without queues or sockets: one log of messages, and for every
member the position of the log at which it joined and at which it first left. A member's view
is one contiguous segment of the log, which starts up to `k` messages before its join.
-/

namespace BoostLearning

/-- The log of a room and the spans of its members. -/
structure Broadcast (ι α : Type*) where
  log : List α
  joinedAt : ι → Option Nat
  leftAt : ι → Option Nat
  joined_le : ∀ i j, joinedAt i = some j → j ≤ log.length
  left_le : ∀ i j, leftAt i = some j → j ≤ log.length

inductive RoomAct (ι α : Type*) where
  | publish (m : α)
  | join (i : ι)
  | leave (i : ι)
deriving DecidableEq

namespace Broadcast

variable {ι α : Type*}

def empty : Broadcast ι α where
  log := []
  joinedAt := fun _ => none
  leftAt := fun _ => none
  joined_le := by simp
  left_le := by simp

def publish (b : Broadcast ι α) (m : α) : Broadcast ι α where
  log := b.log ++ [m]
  joinedAt := b.joinedAt
  leftAt := b.leftAt
  joined_le := fun i j h => by
    have := b.joined_le i j h
    simp only [List.length_append]
    omega
  left_le := fun i j h => by
    have := b.left_le i j h
    simp only [List.length_append]
    omega

def Present (b : Broadcast ι α) (i : ι) : Prop := (b.joinedAt i).isSome ∧ b.leftAt i = none

/-- The view of a member: the log from `k` messages before its join up to its first leave. -/
def segment (k : Nat) (b : Broadcast ι α) (i : ι) : List α :=
  match b.joinedAt i with
  | none => []
  | some j => (b.log.take ((b.leftAt i).getD b.log.length)).drop (j - k)

variable {b : Broadcast ι α} {i : ι} {k : Nat}

theorem segment_publish_of_present (h : b.Present i) (m : α) :
    (b.publish m).segment k i = b.segment k i ++ [m] := by
  obtain ⟨hj, hl⟩ := h
  obtain ⟨j, hj⟩ := Option.isSome_iff_exists.1 hj
  have hle := b.joined_le i j hj
  simp only [segment, publish, hj, hl, Option.getD_none, List.take_length]
  exact List.drop_append_of_le_length (by omega)

theorem segment_publish_of_not_present (h : ¬ b.Present i) (m : α) :
    (b.publish m).segment k i = b.segment k i := by
  cases hj : b.joinedAt i with
  | none => simp [segment, publish, hj]
  | some j =>
    obtain ⟨e, he⟩ := Option.ne_none_iff_exists'.1 (fun hl => h ⟨by simp [hj], hl⟩)
    have hle := b.left_le i e he
    simp only [segment, publish, hj, he, Option.getD_some]
    rw [List.take_append_of_le_length hle]

theorem present_publish (m : α) : (b.publish m).Present i ↔ b.Present i := Iff.rfl

variable [DecidableEq ι]

def join (b : Broadcast ι α) (i : ι) : Broadcast ι α where
  log := b.log
  joinedAt := Function.update b.joinedAt i (some b.log.length)
  leftAt := b.leftAt
  joined_le := fun i' j h => by
    by_cases hi : i' = i
    · subst i'
      simp only [Function.update_self, Option.some.injEq] at h
      omega
    · rw [Function.update_of_ne hi] at h
      exact b.joined_le i' j h
  left_le := b.left_le

/-- Only the first leave counts. -/
def leave (b : Broadcast ι α) (i : ι) : Broadcast ι α where
  log := b.log
  joinedAt := b.joinedAt
  leftAt := Function.update b.leftAt i (some ((b.leftAt i).getD b.log.length))
  joined_le := b.joined_le
  left_le := fun i' j h => by
    by_cases hi : i' = i
    · subst i'
      simp only [Function.update_self, Option.some.injEq] at h
      cases hl : b.leftAt i with
      | none =>
        rw [hl, Option.getD_none] at h
        omega
      | some e =>
        rw [hl, Option.getD_some] at h
        exact h ▸ b.left_le i e hl
    · rw [Function.update_of_ne hi] at h
      exact b.left_le i' j h

def step (b : Broadcast ι α) : RoomAct ι α → Broadcast ι α
  | .publish m => b.publish m
  | .join i => b.join i
  | .leave i => b.leave i

def run (acts : List (RoomAct ι α)) : Broadcast ι α := acts.foldl step empty

theorem run_append (as bs : List (RoomAct ι α)) : run (as ++ bs) = bs.foldl step (run as) :=
  List.foldl_append

theorem segment_join_self (h : b.leftAt i = none) :
    (b.join i).segment k i = b.log.drop (b.log.length - k) := by
  simp [segment, join, h]

theorem segment_join_of_ne {i' : ι} (h : i ≠ i') : (b.join i').segment k i = b.segment k i := by
  simp [segment, join, Function.update_of_ne h]

theorem segment_leave (i' : ι) : (b.leave i').segment k i = b.segment k i := by
  by_cases h : i = i'
  · subst i'
    simp [segment, leave]
  · simp [segment, leave, Function.update_of_ne h]

theorem present_join_self (h : b.leftAt i = none) : (b.join i).Present i := by
  simp [Present, join, h]

theorem present_join_of_ne {i' : ι} (h : i ≠ i') : (b.join i').Present i ↔ b.Present i := by
  simp [Present, join, Function.update_of_ne h]

theorem not_present_leave_self : ¬ (b.leave i).Present i := by
  simp [Present, leave]

theorem present_leave_of_ne {i' : ι} (h : i ≠ i') : (b.leave i').Present i ↔ b.Present i := by
  simp [Present, leave, Function.update_of_ne h]

/-! ## Spans and the actions that made them -/

private theorem foldl_joinedAt_of_not_mem {acts : List (RoomAct ι α)} (h : .join i ∉ acts) :
    (acts.foldl step b).joinedAt i = b.joinedAt i := by
  induction acts generalizing b with
  | nil => rfl
  | cons a acts ih =>
    rw [List.mem_cons, not_or] at h
    rw [List.foldl_cons, ih h.2]
    cases a with
    | publish m => rfl
    | leave i' => rfl
    | join i' =>
      have hne : i ≠ i' := fun heq => h.1 (heq ▸ rfl)
      exact Function.update_of_ne hne _ _

theorem foldl_leftAt_of_not_mem {acts : List (RoomAct ι α)} (h : .leave i ∉ acts) :
    (acts.foldl step b).leftAt i = b.leftAt i := by
  induction acts generalizing b with
  | nil => rfl
  | cons a acts ih =>
    rw [List.mem_cons, not_or] at h
    rw [List.foldl_cons, ih h.2]
    cases a with
    | publish m => rfl
    | join i' => rfl
    | leave i' =>
      have hne : i ≠ i' := fun heq => h.1 (heq ▸ rfl)
      exact Function.update_of_ne hne _ _

private theorem foldl_leftAt_of_some {acts : List (RoomAct ι α)} {e : Nat}
    (h : b.leftAt i = some e) :
    (acts.foldl step b).leftAt i = some e := by
  induction acts generalizing b with
  | nil => exact h
  | cons a acts ih =>
    apply ih
    cases a with
    | publish m => exact h
    | join i' => exact h
    | leave i' =>
      by_cases hi : i = i'
      · subst i'
        simp [step, leave, h]
      · simp [step, leave, Function.update_of_ne hi, h]

/-- The span of a member ends at its first leave, if there is one. -/
theorem leftAt_run (acts : List (RoomAct ι α)) (i : ι) :
    (.leave i ∉ acts ∧ (run acts).leftAt i = none) ∨
      ∃ before after, acts = before ++ .leave i :: after ∧ .leave i ∉ before ∧
        (run acts).leftAt i = some (run before).log.length := by
  by_cases h : .leave i ∈ acts
  · right
    obtain ⟨before, after, rfl, hfirst⟩ := List.eq_append_cons_of_mem h
    have hnone : (run before).leftAt i = none := foldl_leftAt_of_not_mem hfirst
    refine ⟨before, after, rfl, hfirst, ?_⟩
    rw [run_append, List.foldl_cons]
    apply foldl_leftAt_of_some
    simp [step, leave, hnone]
  · left
    exact ⟨h, foldl_leftAt_of_not_mem h⟩

theorem joinedAt_run {before after : List (RoomAct ι α)} (h : .join i ∉ after) :
    (run (before ++ .join i :: after)).joinedAt i = some (run before).log.length := by
  rw [run_append, List.foldl_cons, foldl_joinedAt_of_not_mem h]
  simp [step, join]

end Broadcast

end BoostLearning
