import BoostLearning.Framework.Buffer
import BoostLearning.Framework.Transition

/-!
# The multicast receiver

`Receiver` of `receiver.cpp` prints every datagram, with one receive at a time into its only
buffer, until one fails. A datagram that is longer than the buffer is cut, and one that is shorter
leaves the rest of the buffer as it was.
-/

namespace BoostLearning.Multicast

/-- An outstanding `async_receive_from`, or its handler that is ready to run, with the length that
was received or with an error. -/
inductive Receiving where
  | pending
  | done (length : Option Nat)
deriving DecidableEq

/-- `queue` holds the datagrams that have come to the socket, `printed` the lines on `std::cout`. -/
structure Receiver where
  data : Buffer Char 1024
  receives : List Receiving
  queue : List (List Char)
  printed : List (List Char)
deriving DecidableEq

/-- A datagram is received, or an error is; a handler runs. -/
inductive ReceiverEvent where
  | receive (i : Nat)
  | fail (i : Nat)
  | handle (i : Nat)
deriving DecidableEq

namespace Receiver

def doReceive (r : Receiver) : Receiver := { r with receives := r.receives ++ [.pending] }

def new (data : Buffer Char 1024) : Receiver := doReceive ⟨data, [], [], []⟩

/-- The handler of `async_receive_from`. -/
def handle (r : Receiver) : Option Nat → Receiver
  | some length => { r with printed := r.printed ++ [r.data.elems.take length] }.doReceive
  | none => r

def step (r : Receiver) : ReceiverEvent → Option Receiver
  | .receive i =>
    match r.receives[i]?, r.queue with
    | some .pending, x :: queue =>
      some { r with
        data := r.data.store 0 (x.take 1024)
        receives := r.receives.set i (.done (some (x.take 1024).length))
        queue := queue }
    | _, _ => none
  | .fail i =>
    if r.receives[i]? = some .pending then
      some { r with receives := r.receives.set i (.done none) }
    else none
  | .handle i =>
    match r.receives[i]? with
    | some (.done length) => some ({ r with receives := r.receives.eraseIdx i }.handle length)
    | _ => none

def arrive (r : Receiver) (x : List Char) : Receiver := { r with queue := r.queue ++ [x] }

def UpToDate (r : Receiver) : Prop := r.queue = [] ∧ r.receives = [.pending]

instance (r : Receiver) : Decidable r.UpToDate := inferInstanceAs (Decidable (_ ∧ _))

variable {r r' : Receiver} {heard : List (List Char)} {x : List Char} {e : ReceiverEvent}

def line (x : List Char) : List Char := x.take 1024

private theorem take_store_line (data : Buffer Char 1024) (x : List Char) :
    (data.store 0 (line x)).elems.take (line x).length = line x := by
  have hle : (line x).length ≤ 1024 := List.length_take_le 1024 x
  simpa using data.take_store 0 (line x) (by omega)

/-- The datagrams that have come were printed up to one, which is in the buffer, and the others
are in the queue. -/
inductive Inv (heard : List (List Char)) : Receiver → Prop
  | waiting {data : Buffer Char 1024} {before queue : List (List Char)}
      (hheard : heard = before ++ queue) :
      Inv heard ⟨data, [.pending], queue, before.map line⟩
  | ready {data : Buffer Char 1024} {before queue : List (List Char)} {x : List Char}
      (hheard : heard = before ++ x :: queue)
      (hdata : data.elems.take (line x).length = line x) :
      Inv heard ⟨data, [.done (some (line x).length)], queue, before.map line⟩
  | failed {data : Buffer Char 1024} {before queue : List (List Char)}
      (hheard : heard = before ++ queue) :
      Inv heard ⟨data, [.done none], queue, before.map line⟩
  | stopped {data : Buffer Char 1024} {before queue : List (List Char)}
      (hheard : heard = before ++ queue) :
      Inv heard ⟨data, [], queue, before.map line⟩

theorem Inv.init (data : Buffer Char 1024) : Inv [] (new data) := by
  have hnew : Inv [] ⟨data, [.pending], [], List.map line []⟩ := .waiting rfl
  exact hnew

theorem Inv.arrive (h : r.Inv heard) (x : List Char) : (r.arrive x).Inv (heard ++ [x]) := by
  cases h with
  | waiting hheard => exact .waiting (by rw [hheard, List.append_assoc])
  | ready hheard hdata => exact .ready (by rw [hheard, List.append_assoc]; rfl) hdata
  | failed hheard => exact .failed (by rw [hheard, List.append_assoc])
  | stopped hheard => exact .stopped (by rw [hheard, List.append_assoc])

private theorem Inv.receive {i : Nat} (h : r.Inv heard) (he : r.step (.receive i) = some r') :
    r'.Inv heard := by
  simp only [Receiver.step] at he
  split at he
  · rename_i x queue hi hqueue
    obtain rfl := Option.some.inj he
    have hmem := List.mem_of_getElem? hi
    cases h with
    | @waiting data before _ hheard =>
      obtain ⟨rfl, -⟩ := eq_singleton_of_getElem? (by simp) hi
      obtain rfl := hqueue
      exact .ready hheard (take_store_line data x)
    | ready => exact absurd hmem (by simp)
    | failed => exact absurd hmem (by simp)
    | stopped => exact absurd hmem (by simp)
  · exact absurd he (by simp)

private theorem Inv.fail {i : Nat} (h : r.Inv heard) (he : r.step (.fail i) = some r') :
    r'.Inv heard := by
  simp only [Receiver.step, Option.ite_none_right_eq_some, Option.some.injEq] at he
  obtain ⟨hi, rfl⟩ := he
  have hmem := List.mem_of_getElem? hi
  cases h with
  | waiting hheard =>
    obtain ⟨rfl, -⟩ := eq_singleton_of_getElem? (by simp) hi
    exact .failed hheard
  | ready => exact absurd hmem (by simp)
  | failed => exact absurd hmem (by simp)
  | stopped => exact absurd hmem (by simp)

private theorem Inv.handle {i : Nat} (h : r.Inv heard) (he : r.step (.handle i) = some r') :
    r'.Inv heard := by
  simp only [Receiver.step] at he
  split at he
  · rename_i length hi
    obtain rfl := Option.some.inj he
    have hmem := List.mem_of_getElem? hi
    cases h with
    | waiting => exact absurd hmem (by simp)
    | @ready data before queue x hheard hdata =>
      obtain ⟨rfl, heq⟩ := eq_singleton_of_getElem? (by simp) hi
      obtain rfl := Receiving.done.inj (List.singleton_inj.1 heq)
      have hheard' : heard = (before ++ [x]) ++ queue := by rw [hheard, List.append_assoc]; rfl
      have hprinted : Inv heard ⟨data, [.pending], queue, (before ++ [x]).map line⟩ :=
        .waiting hheard'
      rw [List.map_append, List.map_singleton, ← hdata] at hprinted
      exact hprinted
    | failed hheard =>
      obtain ⟨rfl, heq⟩ := eq_singleton_of_getElem? (by simp) hi
      obtain rfl := Receiving.done.inj (List.singleton_inj.1 heq)
      exact .stopped hheard
    | stopped => exact absurd hmem (by simp)
  · exact absurd he (by simp)

theorem Inv.step (h : r.Inv heard) (he : r.step e = some r') : r'.Inv heard := by
  cases e with
  | receive i => exact h.receive he
  | fail i => exact h.fail he
  | handle i => exact h.handle he

/-- The lines are the datagrams that have come, in order, up to one. -/
theorem Inv.printed_prefix (h : r.Inv heard) : r.printed <+: heard.map line := by
  cases h with
  | waiting hheard => exact hheard ▸ List.map_append ▸ List.prefix_append ..
  | ready hheard hdata => exact hheard ▸ List.map_append ▸ List.prefix_append ..
  | failed hheard => exact hheard ▸ List.map_append ▸ List.prefix_append ..
  | stopped hheard => exact hheard ▸ List.map_append ▸ List.prefix_append ..

theorem Inv.printed_eq (h : r.Inv heard) (hdone : r.UpToDate) : r.printed = heard.map line := by
  obtain ⟨hqueue, hreceives⟩ := hdone
  cases h with
  | waiting hheard =>
    obtain rfl := hqueue
    rw [hheard, List.append_nil]
  | ready => exact absurd hreceives (by simp)
  | failed => exact absurd hreceives (by simp)
  | stopped => exact absurd hreceives (by simp)

end Receiver

end BoostLearning.Multicast
