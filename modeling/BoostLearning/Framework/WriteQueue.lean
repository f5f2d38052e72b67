import BoostLearning.Framework.Transition
import Mathlib.Data.List.Basic

/-!
# Queued asynchronous writes

Completion codes, and the pattern of a queue that is drained by one `async_write` at a time:
a message is pushed at the back, a write of the front is started only when the queue was
empty, and its completion handler pops the front and starts the next write. Whether a write
is outstanding is inferred from the queue, so after a failed write the queue stays non-empty
with nothing running.

An outstanding write holds a reference into the queue, not a copy. The queue is a deque, whose
`push_back` and `pop_front` leave references to the other elements valid; an element is
therefore named by its position in the sequence of all pushes.
-/

namespace BoostLearning

/-- The `error_code` a completion handler receives, as far as handlers look at it. -/
inductive ErrorCode where
  | success
  | failure
deriving DecidableEq, Repr

/-- Where the bytes of an element start, and how many of them a write of it covers. -/
structure WireFormat (α β : Type*) where
  data : α → List β
  length : α → Nat

/-- The bytes a complete write of an element transmits. -/
def WireFormat.image {α β : Type*} (W : WireFormat α β) (m : α) : List β :=
  (W.data m).take (W.length m)

/-- An outstanding `async_write`: the referenced element, the size of the buffer and the number
of bytes transmitted so far. `started` is a history variable, the contents of the buffer when
the write was initiated; nothing reads it. -/
structure AsyncWrite (β : Type*) where
  slot : Nat
  size : Nat
  sent : Nat
  started : List β
deriving DecidableEq

/-- A deque of messages, the number of elements popped from it so far, and the outstanding
writes of its elements. -/
structure WriteQueue (α β : Type*) where
  popped : Nat
  msgs : List α
  writes : List (AsyncWrite β)
deriving DecidableEq

namespace WriteQueue

variable {α β : Type*} (W : WireFormat α β)

def empty : WriteQueue α β := ⟨0, [], []⟩

/-- Initiate a write of the front. The front of an empty deque is undefined and no caller
asks for it. -/
def doWrite (q : WriteQueue α β) : WriteQueue α β :=
  match q.msgs with
  | [] => q
  | m :: _ => { q with writes := q.writes ++ [⟨q.popped, W.length m, 0, W.image m⟩] }

/-- Push a message, and start writing unless a write was in progress already. -/
def enqueue (q : WriteQueue α β) (m : α) : WriteQueue α β :=
  let writeInProgress := !q.msgs.isEmpty
  let q := { q with msgs := q.msgs ++ [m] }
  if !writeInProgress then q.doWrite W else q

/-- The bytes behind a reference; a popped element has none. -/
def deref (q : WriteQueue α β) (slot : Nat) : List β :=
  if q.popped ≤ slot then ((q.msgs[slot - q.popped]?).map W.data).getD [] else []

/-- The `i`-th outstanding write transmits `n` more bytes of its buffer. -/
def transmit (q : WriteQueue α β) (i n : Nat) : Option (WriteQueue α β × List β) :=
  match q.writes[i]? with
  | none => none
  | some op =>
    if n ≤ op.size - op.sent then
      some ({ q with writes := q.writes.set i { op with sent := op.sent + n } },
        (((q.deref W op.slot).take op.size).drop op.sent).take n)
    else none

/-- The `i`-th outstanding write completes: without error only once the whole buffer has been
transmitted. -/
def retire (q : WriteQueue α β) (i : Nat) (ec : ErrorCode) : Option (WriteQueue α β) :=
  match q.writes[i]? with
  | none => none
  | some op =>
    if ec = .success ∧ op.sent ≠ op.size then none
    else some { q with writes := q.writes.eraseIdx i }

def advance (q : WriteQueue α β) : WriteQueue α β :=
  let q := { q with popped := q.popped + 1, msgs := q.msgs.tail }
  if !q.msgs.isEmpty then q.doWrite W else q

/-- The write `op` is one of the front of the queue, whose bytes are still those the write was
started with. -/
structure WritesFront (q : WriteQueue α β) (op : AsyncWrite β) (m : α) : Prop where
  front : q.msgs.head? = some m
  slot : op.slot = q.popped
  size : op.size = W.length m
  started : op.started = W.image m
  sent : op.sent ≤ op.size

/-- What the pushes so far and the bytes transmitted so far say about the queue. At most one
write is outstanding; without one, what has been transmitted of the front is what a failed
write left behind. -/
structure Inv (q : WriteQueue α β) (pushed : List α) (wire : List β) : Prop where
  queue : q.msgs = pushed.drop q.popped
  popped_le : q.popped ≤ pushed.length
  wire_eq :
    (∃ op m, q.writes = [op] ∧ q.WritesFront W op m ∧
      wire = (pushed.take q.popped).flatMap W.image ++ (W.image m).take op.sent) ∨
    (q.writes = [] ∧ ∃ part, part <+: ((q.msgs.head?).map W.image).getD [] ∧
      wire = (pushed.take q.popped).flatMap W.image ++ part)

def unsent (q : WriteQueue α β) : List β :=
  match q.msgs with
  | [] => []
  | m :: rest => (W.image m).drop (q.writes.head?.elim 0 AsyncWrite.sent) ++ rest.flatMap W.image

/-- A write is outstanding exactly when there is something to write. -/
def Live (q : WriteQueue α β) : Prop := q.writes ≠ [] ↔ q.msgs ≠ []

variable {W} {q : WriteQueue α β} {pushed : List α} {wire : List β}

@[simp]
theorem doWrite_msgs (q : WriteQueue α β) : (q.doWrite W).msgs = q.msgs := by
  unfold doWrite
  split <;> simp_all

@[simp]
theorem advance_msgs (q : WriteQueue α β) : (q.advance W).msgs = q.msgs.tail := by
  simp only [advance]
  split <;> simp

theorem inv_empty : (empty : WriteQueue α β).Inv W [] [] :=
  ⟨rfl, Nat.le_refl 0, Or.inr ⟨rfl, [], List.nil_prefix, rfl⟩⟩

theorem live_empty : (empty : WriteQueue α β).Live := by simp [Live, empty]

theorem Inv.writes_length (h : q.Inv W pushed wire) : q.writes.length ≤ 1 := by
  rcases h.wire_eq with ⟨op, m, hw, -⟩ | ⟨hw, -⟩ <;> simp [hw]

theorem Inv.writesFront (h : q.Inv W pushed wire) {op : AsyncWrite β} (hop : op ∈ q.writes) :
    ∃ m, q.WritesFront W op m := by
  rcases h.wire_eq with ⟨op', m, hw, hfront, -⟩ | ⟨hw, -⟩
  · rw [hw, List.mem_singleton] at hop
    exact ⟨m, hop ▸ hfront⟩
  · simp [hw] at hop

private theorem Inv.live_of_writes (h : q.Inv W pushed wire) (hw : q.writes ≠ []) : q.Live := by
  rcases h.wire_eq with ⟨op, m, -, hfront, -⟩ | ⟨hnil, -⟩
  · refine ⟨fun _ hm => ?_, fun _ => hw⟩
    have := hfront.front
    simp [hm] at this
  · exact absurd hnil hw

private theorem Inv.msgs_eq_cons (h : q.Inv W pushed wire) {m : α} (hm : q.msgs.head? = some m) :
    pushed.drop q.popped = m :: pushed.drop (q.popped + 1) := by
  cases hq : q.msgs with
  | nil => simp [hq] at hm
  | cons m' rest =>
    have hrest : rest = pushed.drop (q.popped + 1) := by
      rw [← List.drop_drop, ← h.queue, hq]
      simp
    rw [← h.queue, hq, ← hrest]
    simpa [hq] using hm

private theorem flatMap_take_append_prefix (f : α → List β) (l : List α) (k : Nat) (m : α)
    (part : List β) (hm : (l.drop k).head? = some m) (hpart : part <+: f m) :
    (l.take k).flatMap f ++ part <+: l.flatMap f := by
  have hsplit : l.flatMap f = (l.take k).flatMap f ++ (l.drop k).flatMap f := by
    rw [← List.flatMap_append, List.take_append_drop]
  cases hd : l.drop k with
  | nil => simp [hd] at hm
  | cons m' rest =>
    have heq : m' = m := by simpa [hd] using hm
    rw [hsplit, hd, List.flatMap_cons, heq]
    exact (List.prefix_append_right_inj _).2 (hpart.trans (List.prefix_append _ _))

/-- What is on the wire is a prefix of the messages pushed, one after another. -/
theorem Inv.wire_prefix (h : q.Inv W pushed wire) : wire <+: pushed.flatMap W.image := by
  rcases h.wire_eq with ⟨op, m, -, hfront, rfl⟩ | ⟨-, part, hpart, rfl⟩
  · refine flatMap_take_append_prefix _ _ _ m _ ?_ (List.take_prefix _ _)
    rw [← h.queue]
    exact hfront.front
  · cases hm : q.msgs.head? with
    | none =>
      have hpart' : part = [] := by simpa [hm] using hpart
      rw [hpart', List.append_nil]
      conv_rhs => rw [← List.take_append_drop q.popped pushed]
      rw [List.flatMap_append]
      exact List.prefix_append _ _
    | some m =>
      refine flatMap_take_append_prefix _ _ _ m _ ?_ (by simpa [hm] using hpart)
      rw [← h.queue]
      exact hm

theorem Inv.popped_prefix (h : q.Inv W pushed wire) :
    (pushed.take q.popped).flatMap W.image <+: wire := by
  rcases h.wire_eq with ⟨op, m, -, -, rfl⟩ | ⟨-, part, -, rfl⟩ <;> exact List.prefix_append _ _

/-- Everything pushed is on the wire as soon as the queue is empty. -/
theorem Inv.wire_eq_of_msgs_nil (h : q.Inv W pushed wire) (hm : q.msgs = []) :
    wire = pushed.flatMap W.image := by
  have htake : pushed.take q.popped = pushed := by
    apply List.take_of_length_le
    have := congrArg List.length h.queue
    simp only [hm, List.length_nil, List.length_drop] at this
    omega
  rcases h.wire_eq with ⟨op, m, -, hfront, -⟩ | ⟨-, part, hpart, rfl⟩
  · have := hfront.front
    simp [hm] at this
  · have hpart' : part = [] := by simpa [hm] using hpart
    rw [hpart', List.append_nil, htake]

/-- What is on the wire and what is left of the queue are all that was pushed. -/
theorem Inv.wire_append_unsent (h : q.Inv W pushed wire) (hl : q.Live) :
    wire ++ q.unsent W = pushed.flatMap W.image := by
  have hall : pushed.flatMap W.image =
      (pushed.take q.popped).flatMap W.image ++ q.msgs.flatMap W.image := by
    rw [h.queue, ← List.flatMap_append, List.take_append_drop]
  rcases h.wire_eq with ⟨op, m, hw, hfront, hwire⟩ | ⟨hw, part, hpart, hwire⟩
  · cases hq : q.msgs with
    | nil =>
      have := hfront.front
      simp [hq] at this
    | cons m' rest =>
      have hm : m' = m := by simpa [hq] using hfront.front
      subst m'
      have htake : (W.image m).take op.sent ++ (W.image m).drop op.sent = W.image m :=
        List.take_append_drop _ _
      rw [hall, hq, hwire, unsent, hq, hw, List.flatMap_cons, List.append_assoc,
        ← List.append_assoc ((W.image m).take op.sent)]
      simp [htake]
  · have hmsgs : q.msgs = [] := by
      by_contra hne
      exact hl.2 hne hw
    rw [h.wire_eq_of_msgs_nil hmsgs, unsent, hmsgs, List.append_nil]

theorem Inv.enqueue (h : q.Inv W pushed wire) (m : α) :
    (q.enqueue W m).Inv W (pushed ++ [m]) wire := by
  have hdrop : (pushed ++ [m]).drop q.popped = q.msgs ++ [m] := by
    rw [List.drop_append_of_le_length h.popped_le, h.queue]
  have htake : (pushed ++ [m]).take q.popped = pushed.take q.popped :=
    List.take_append_of_le_length h.popped_le
  have hle : q.popped ≤ (pushed ++ [m]).length := by
    have := h.popped_le
    simp only [List.length_append, List.length_singleton]
    omega
  cases hq : q.msgs with
  | nil =>
    -- the queue was empty, so nothing was outstanding and this push starts a write
    have hwrites : q.writes = [] := by
      rcases h.wire_eq with ⟨op, m', -, hfront, -⟩ | ⟨hw, -⟩
      · have := hfront.front
        simp [hq] at this
      · exact hw
    have hwire := h.wire_eq_of_msgs_nil hq
    have hpopped : q.popped = pushed.length := by
      have := congrArg List.length h.queue
      simp only [hq, List.length_nil, List.length_drop] at this
      have := h.popped_le
      omega
    have heq : q.enqueue W m = ⟨q.popped, [m], [⟨q.popped, W.length m, 0, W.image m⟩]⟩ := by
      simp [WriteQueue.enqueue, doWrite, hq, hwrites]
    rw [heq]
    refine ⟨?_, hle, Or.inl ⟨_, m, rfl, ⟨rfl, rfl, rfl, rfl, Nat.zero_le _⟩, ?_⟩⟩
    · rw [hdrop, hq, List.nil_append]
    · rw [htake, hpopped, List.take_length, hwire, List.take_zero, List.append_nil]
  | cons m' rest =>
    have heq : q.enqueue W m = { q with msgs := q.msgs ++ [m] } := by
      simp [WriteQueue.enqueue, hq]
    have hhead : (q.msgs ++ [m]).head? = q.msgs.head? := by simp [hq]
    rw [heq]
    refine ⟨hdrop.symm, hle, ?_⟩
    rcases h.wire_eq with ⟨op, m'', hw, hfront, hwire⟩ | ⟨hw, part, hpart, hwire⟩
    · refine Or.inl ⟨op, m'', hw, ⟨?_, hfront.slot, hfront.size, hfront.started, hfront.sent⟩, ?_⟩
      · rw [hhead]
        exact hfront.front
      · rw [htake]
        exact hwire
    · refine Or.inr ⟨hw, part, ?_, ?_⟩
      · rw [hhead]
        exact hpart
      · rw [htake]
        exact hwire

theorem Live.enqueue (hl : q.Live) (m : α) : (q.enqueue W m).Live := by
  cases hq : q.msgs with
  | nil => simp [Live, WriteQueue.enqueue, doWrite, hq]
  | cons m' rest =>
    have hw : q.writes ≠ [] := hl.2 (by simp [hq])
    simp [Live, WriteQueue.enqueue, hq, hw]

private theorem deref_front {op : AsyncWrite β} {m : α} (h : q.WritesFront W op m) :
    q.deref W op.slot = W.data m := by
  have hfront : q.msgs[0]? = some m := by
    rw [← List.head?_eq_getElem?]
    exact h.front
  simp [deref, h.slot, hfront]

theorem Inv.transmit (h : q.Inv W pushed wire) {i n : Nat} {q' : WriteQueue α β}
    {bs : List β} (ht : q.transmit W i n = some (q', bs)) :
    q'.Inv W pushed (wire ++ bs) ∧ (q'.Live ↔ q.Live) ∧ q'.msgs = q.msgs := by
  rcases h.wire_eq with ⟨op, m, hw, hfront, hwire⟩ | ⟨hw, -⟩
  · cases i with
    | succ i => simp [WriteQueue.transmit, hw] at ht
    | zero =>
      simp only [WriteQueue.transmit, hw, List.getElem?_cons_zero, List.set_cons_zero] at ht
      split at ht
      · rename_i hn
        simp only [Option.some.injEq, Prod.mk.injEq] at ht
        obtain ⟨rfl, rfl⟩ := ht
        have hsent := hfront.sent
        refine ⟨⟨h.queue, h.popped_le, Or.inl ⟨_, m, rfl, ⟨hfront.front, hfront.slot,
          hfront.size, hfront.started, ?_⟩, ?_⟩⟩, ?_, rfl⟩
        · change op.sent + n ≤ op.size
          omega
        · change wire ++ _ = _ ++ (W.image m).take (op.sent + n)
          rw [deref_front hfront, hfront.size, hwire, List.append_assoc, List.take_add]
          rfl
        · simp [Live, hw]
      · exact absurd ht (by simp)
  · simp [WriteQueue.transmit, hw] at ht

theorem retire_cases (hlen : q.writes.length ≤ 1) {i : Nat} {ec : ErrorCode}
    {q' : WriteQueue α β} (hr : q.retire i ec = some q') :
    ∃ op, q.writes = [op] ∧ q' = { q with writes := [] } ∧
      (ec = .success → op.sent = op.size) := by
  simp only [WriteQueue.retire] at hr
  split at hr
  · exact absurd hr (by simp)
  · rename_i op hop
    obtain ⟨rfl, hw⟩ := eq_singleton_of_getElem? hlen hop
    split at hr
    · exact absurd hr (by simp)
    · rename_i hec
      simp only [Option.some.injEq] at hr
      refine ⟨op, hw, by rw [← hr, hw, List.eraseIdx_cons_zero], fun hs => ?_⟩
      by_contra hne
      exact hec ⟨hs, hne⟩

/-- A completed write leaves none outstanding; a success means that the front is out. -/
theorem Inv.retire (h : q.Inv W pushed wire) {i : Nat} {ec : ErrorCode} {q' : WriteQueue α β}
    (hr : q.retire i ec = some q') :
    q' = { q with writes := [] } ∧ q'.Inv W pushed wire ∧ q.Live ∧
      ∃ m, q.msgs.head? = some m ∧ (ec = .success →
        wire = (pushed.take q.popped).flatMap W.image ++ W.image m) := by
  obtain ⟨op, hop, rfl, hfull⟩ := retire_cases h.writes_length hr
  rcases h.wire_eq with ⟨op', m, hw, hfront, hwire⟩ | ⟨hw, -⟩
  · have hlive : q.Live := h.live_of_writes (by simp [hw])
    obtain rfl : op' = op := by simpa [hw] using hop
    refine ⟨rfl, ⟨h.queue, h.popped_le, Or.inr ⟨rfl, _, ?_, hwire⟩⟩, hlive, m, hfront.front, ?_⟩
    · rw [hfront.front]
      exact List.take_prefix _ _
    · intro hs
      rw [hwire, hfull hs, hfront.size, WireFormat.image, List.take_take, Nat.min_self]
  · simp [hw] at hop

/-- The success branch pops the front and starts the next write. -/
theorem Inv.advance (h : q.Inv W pushed wire) (hw : q.writes = []) {m : α}
    (hm : q.msgs.head? = some m)
    (hwire : wire = (pushed.take q.popped).flatMap W.image ++ W.image m) :
    (q.advance W).Inv W pushed wire ∧ (q.advance W).Live := by
  have hcons := h.msgs_eq_cons hm
  have htail : q.msgs.tail = pushed.drop (q.popped + 1) := by
    rw [h.queue, hcons, List.tail_cons]
  have hlt : q.popped + 1 ≤ pushed.length := by
    have := congrArg List.length hcons
    simp only [List.length_drop, List.length_cons] at this
    omega
  have hget : pushed[q.popped]? = some m := by
    have := congrArg List.head? hcons
    simpa using this
  have htake : (pushed.take (q.popped + 1)).flatMap W.image = wire := by
    rw [List.take_add_one, hget, List.flatMap_append, hwire]
    simp
  cases hq : q.msgs.tail with
  | nil =>
    have heq : q.advance W = ⟨q.popped + 1, [], []⟩ := by
      simp [WriteQueue.advance, hq, hw]
    rw [heq]
    refine ⟨⟨?_, hlt, Or.inr ⟨rfl, [], List.nil_prefix, ?_⟩⟩, by simp [Live]⟩
    · rw [← htail, hq]
    · rw [htake, List.append_nil]
  | cons m' rest =>
    have heq : q.advance W = ⟨q.popped + 1, m' :: rest,
        [⟨q.popped + 1, W.length m', 0, W.image m'⟩]⟩ := by
      simp [WriteQueue.advance, doWrite, hq, hw]
    rw [heq]
    refine ⟨⟨?_, hlt, Or.inl ⟨_, m', rfl, ⟨rfl, rfl, rfl, rfl, Nat.zero_le _⟩, ?_⟩⟩,
      by simp [Live]⟩
    · rw [← htail, hq]
    · rw [htake, List.take_zero, List.append_nil]

/-! ## How far a queue has come -/

def progress (q : WriteQueue α β) (wire : List β) : Nat := wire.length + q.popped

@[simp]
theorem enqueue_popped (q : WriteQueue α β) (m : α) : (q.enqueue W m).popped = q.popped := by
  simp only [WriteQueue.enqueue, doWrite]
  split
  · split <;> rfl
  · rfl

private theorem advance_popped (q : WriteQueue α β) : (q.advance W).popped = q.popped + 1 := by
  simp only [WriteQueue.advance, doWrite]
  split
  · split <;> rfl
  · rfl

/-- A transmission carries as many bytes as it is said to. -/
theorem Inv.transmit_length (h : q.Inv W pushed wire) {i n : Nat} {q' : WriteQueue α β}
    {bs : List β} (ht : q.transmit W i n = some (q', bs))
    (hdata : ∀ m ∈ pushed, W.length m ≤ (W.data m).length) :
    bs.length = n ∧ q'.popped = q.popped := by
  simp only [WriteQueue.transmit] at ht
  split at ht
  · exact absurd ht (by simp)
  · rename_i op hop
    obtain ⟨m, hfront⟩ := h.writesFront (List.mem_of_getElem? hop)
    have hm : m ∈ pushed := by
      have hmem := List.mem_of_mem_head? hfront.front
      rw [h.queue] at hmem
      exact List.mem_of_mem_drop hmem
    have hsize := hdata m hm
    have hsent := hfront.sent
    rw [hfront.size] at hsent
    simp only [Option.ite_none_right_eq_some, Option.some.injEq, Prod.mk.injEq] at ht
    obtain ⟨hn, rfl, rfl⟩ := ht
    rw [hfront.size] at hn
    refine ⟨?_, rfl⟩
    rw [deref_front hfront, hfront.size]
    simp only [List.length_take, List.length_drop]
    omega

theorem Inv.progress_written (h : q.Inv W pushed wire) {i : Nat} {q' : WriteQueue α β}
    (hr : q.retire i .success = some q') :
    (q'.advance W).progress wire = q.progress wire + 1 := by
  obtain ⟨rfl, -⟩ := h.retire hr
  rw [progress, advance_popped, progress, Nat.add_assoc]

theorem length_flatMap_le {f : α → List β} {k : Nat} {l : List α}
    (h : ∀ a ∈ l, (f a).length ≤ k) : (l.flatMap f).length ≤ k * l.length := by
  induction l with
  | nil => simp
  | cons a l ih =>
    have ha := h a List.mem_cons_self
    have hl := ih fun b hb => h b (List.mem_cons_of_mem a hb)
    rw [List.flatMap_cons, List.length_append, List.length_cons, Nat.mul_succ]
    omega

theorem Inv.progress_le (h : q.Inv W pushed wire) {k : Nat}
    (hk : ∀ m ∈ pushed, (W.image m).length ≤ k) :
    q.progress wire ≤ (k + 1) * pushed.length := by
  have hwire := h.wire_prefix.length_le
  have hpopped := h.popped_le
  have hbytes := length_flatMap_le hk
  rw [progress, Nat.add_mul, Nat.one_mul]
  omega

theorem Inv.exists_next (h : q.Inv W pushed wire) (hw : q.writes ≠ []) :
    (∃ n r, 0 < n ∧ q.transmit W 0 n = some r) ∨ ∃ q', q.retire 0 .success = some q' := by
  rcases h.wire_eq with ⟨op, m, hop, hfront, -⟩ | ⟨hnil, -⟩
  · by_cases hfull : op.sent = op.size
    · right
      simp [WriteQueue.retire, hop, hfull]
    · left
      have hsent := hfront.sent
      refine ⟨op.size - op.sent, ?_⟩
      simp [WriteQueue.transmit, hop]
      omega
  · exact absurd hnil hw

/-! ## When nothing is transmitted any more -/

/-- How many completions the outstanding writes can still lead to. A complete write is followed by
the next one, and a write that lacks something can only fail. -/
def handlersLeft (q : WriteQueue α β) : Nat :=
  q.writes.length + q.writes.countP fun op => op.sent = op.size

theorem handlersLeft_le (q : WriteQueue α β) : q.handlersLeft ≤ 2 * q.writes.length := by
  have hle := List.countP_le_length (p := fun op : AsyncWrite β => op.sent = op.size)
    (l := q.writes)
  rw [handlersLeft]
  omega

private theorem handlersLeft_doWrite (hq : ∀ m ∈ q.msgs, 0 < W.length m) :
    (q.doWrite W).handlersLeft ≤ q.handlersLeft + 1 := by
  cases hm : q.msgs with
  | nil => simp [doWrite, hm]
  | cons m rest =>
    have hpos : 0 < W.length m := hq m (by rw [hm]; exact List.mem_cons_self)
    simp only [doWrite, handlersLeft, hm, List.length_append, List.length_singleton,
      List.countP_append, List.countP_singleton, decide_eq_true_eq, if_neg (Nat.ne_of_lt hpos)]
    omega

theorem handlersLeft_enqueue {m : α} (hq : ∀ m' ∈ q.msgs, 0 < W.length m')
    (hm : 0 < W.length m) : (q.enqueue W m).handlersLeft ≤ q.handlersLeft + 1 := by
  have hall : ∀ m' ∈ q.msgs ++ [m], 0 < W.length m' := by
    intro m' hm'
    cases List.mem_append.1 hm' with
    | inl hold => exact hq m' hold
    | inr hnew => exact (List.mem_singleton.1 hnew) ▸ hm
  simp only [WriteQueue.enqueue]
  split
  · exact handlersLeft_doWrite (q := { q with msgs := q.msgs ++ [m] }) hall
  · exact Nat.le_succ _

/-- A completion and what its handler does leave less behind. -/
theorem handlersLeft_retire (W : WireFormat α β) (hlen : q.writes.length ≤ 1) {i : Nat}
    {ec : ErrorCode} {q' : WriteQueue α β} (hr : q.retire i ec = some q') :
    q'.handlersLeft < q.handlersLeft ∧ (ec = .success →
      (∀ m ∈ q.msgs, 0 < W.length m) → (q'.advance W).handlersLeft < q.handlersLeft) := by
  obtain ⟨op, hw, rfl, hfull⟩ := retire_cases hlen hr
  have hq : q.handlersLeft = 1 + if op.sent = op.size then 1 else 0 := by
    simp [handlersLeft, hw, List.countP_cons]
  refine ⟨?_, fun hs hpos => ?_⟩
  · rw [hq]
    exact Nat.lt_of_lt_of_le Nat.zero_lt_one (Nat.le_add_right 1 _)
  · rw [hq, if_pos (hfull hs)]
    simp only [WriteQueue.advance]
    split
    · have hle := handlersLeft_doWrite (W := W)
        (q := ⟨q.popped + 1, q.msgs.tail, []⟩) fun m hm => hpos m (List.mem_of_mem_tail hm)
      exact Nat.lt_succ_of_le hle
    · simp [handlersLeft]

end WriteQueue

end BoostLearning
