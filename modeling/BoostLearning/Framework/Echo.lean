import BoostLearning.Framework.Transition

/-!
# Echo loops

A loop that reads a chunk, writes all of it back, possibly in several parts, and reads again,
until an operation fails. What it has written is a prefix of what it has read, and the two are
equal whenever it reads.
-/

namespace BoostLearning

/-- Not started, reading, writing a chunk of which some elements are written, or ended. -/
inductive EchoStage (β : Type*) where
  | fresh
  | reading
  | writing (chunk : List β) (sent : Nat)
  | stopped

/-- Where a loop stands, with everything it has read and written. -/
structure EchoLoop (β : Type*) where
  stage : EchoStage β
  received : List β
  wrote : List β

inductive EchoEvent (β : Type*) where
  | start
  | receive (chunk : List β)
  | transmit (n : Nat)
  | written
  | stop

namespace EchoLoop

variable {β : Type*} {s t : EchoLoop β} {e : EchoEvent β}

def step (s : EchoLoop β) : EchoEvent β → Option (EchoLoop β)
  | .start =>
    match s.stage with
    | .fresh => some { s with stage := .reading }
    | _ => none
  | .receive chunk =>
    match s.stage with
    | .reading => some { s with stage := .writing chunk 0, received := s.received ++ chunk }
    | _ => none
  | .transmit n =>
    match s.stage with
    | .writing chunk sent =>
      if sent + n ≤ chunk.length then
        some { s with
          stage := .writing chunk (sent + n)
          wrote := s.wrote ++ (chunk.drop sent).take n }
      else none
    | _ => none
  | .written =>
    match s.stage with
    | .writing chunk sent =>
      if sent = chunk.length then some { s with stage := .reading } else none
    | _ => none
  | .stop => some { s with stage := .stopped }

def Inv (s : EchoLoop β) : Prop :=
  match s.stage with
  | .fresh => s.wrote = s.received
  | .reading => s.wrote = s.received
  | .writing chunk sent => sent ≤ chunk.length ∧
      ∃ before, s.received = before ++ chunk ∧ s.wrote = before ++ chunk.take sent
  | .stopped => s.wrote <+: s.received

private theorem Inv.isPrefix (hi : s.Inv) : s.wrote <+: s.received := by
  unfold Inv at hi
  split at hi
  · exact hi ▸ List.prefix_rfl
  · exact hi ▸ List.prefix_rfl
  · obtain ⟨-, before, hreceived, hwrote⟩ := hi
    rw [hreceived, hwrote]
    exact List.prefix_append_right_inj before |>.2 (List.take_prefix _ _)
  · exact hi

theorem Inv.step (hi : s.Inv) (he : s.step e = some t) : t.Inv := by
  obtain ⟨stage, received, wrote⟩ := s
  cases e with
  | start =>
    cases stage with
    | fresh => exact Option.some.inj he ▸ hi
    | _ => simp [EchoLoop.step] at he
  | receive chunk =>
    cases stage with
    | reading =>
      have hi : wrote = received := hi
      obtain rfl := Option.some.inj he
      exact ⟨Nat.zero_le _, received, rfl, by rw [hi, List.take_zero, List.append_nil]⟩
    | _ => simp [EchoLoop.step] at he
  | transmit n =>
    cases stage with
    | writing chunk sent =>
      obtain ⟨-, before, hreceived, hwrote⟩ : sent ≤ chunk.length ∧
        ∃ before, received = before ++ chunk ∧ wrote = before ++ chunk.take sent := hi
      simp only [EchoLoop.step, Option.ite_none_right_eq_some, Option.some.injEq] at he
      obtain ⟨hle, rfl⟩ := he
      refine ⟨hle, before, hreceived, ?_⟩
      rw [hwrote, List.append_assoc, List.take_add]
    | _ => simp [EchoLoop.step] at he
  | written =>
    cases stage with
    | writing chunk sent =>
      obtain ⟨-, before, hreceived, hwrote⟩ : sent ≤ chunk.length ∧
        ∃ before, received = before ++ chunk ∧ wrote = before ++ chunk.take sent := hi
      simp only [EchoLoop.step, Option.ite_none_right_eq_some, Option.some.injEq] at he
      obtain ⟨hsent, rfl⟩ := he
      change wrote = received
      rw [hreceived, hwrote, hsent, List.take_length]
    | _ => simp [EchoLoop.step] at he
  | stop =>
    have hprefixed := hi.isPrefix
    obtain rfl := Option.some.inj he
    exact hprefixed

end EchoLoop

def echoLoop (β : Type*) : System (EchoLoop β) (EchoEvent β) := ⟨⟨.fresh, [], []⟩, EchoLoop.step⟩

namespace EchoLoop

variable {β : Type*} {s : EchoLoop β}

theorem inv_reachable (hr : (echoLoop β).Reachable s) : s.Inv := by
  apply System.reachable_induction (P := Inv) _ (fun _ _ _ _ hi he => hi.step he) hr
  rfl

theorem wrote_prefix (hr : (echoLoop β).Reachable s) : s.wrote <+: s.received :=
  (inv_reachable hr).isPrefix

/-- A read is started only after everything has been written back. -/
theorem wrote_eq_of_reading (hr : (echoLoop β).Reachable s) (h : s.stage = .reading) :
    s.wrote = s.received := by
  have hi := inv_reachable hr
  rwa [Inv, h] at hi

theorem take_drop_take {l : List β} {size sent n : Nat} (h : sent + n ≤ size) :
    ((l.take size).drop sent).take n = (l.drop sent).take n := by
  rw [List.drop_take, List.take_take, Nat.min_eq_left (by omega)]

end EchoLoop

end BoostLearning
