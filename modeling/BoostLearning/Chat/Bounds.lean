import BoostLearning.Chat.ClientInvariant
import BoostLearning.Chat.Relay

/-!
# No access outside `_data`

Whatever is done to a message, `_body_length` stays within the limit: it is set through a check
that cuts it, or through one that refuses a header. Every buffer that is handed to `async_read` or
`async_write` is measured with it.
-/

namespace BoostLearning.Chat

def sizeofData : Nat := headerLength + maxBodyLength

/-- What can be done to a message: its members are called, a read stores into its array, and it
is copied. -/
inductive MessageOp where
  | setBodyLength (newLength : UInt64)
  | store (offset : Nat) (bytes : List Byte)
  | decodeHeader
  | encodeHeader
  | copy
deriving DecidableEq

namespace ChatMessage

/-- The copy constructor and the assignment of `chat_message`, which copy both members. -/
def copy (m : ChatMessage) : ChatMessage := ⟨m.data, m.bodyLength⟩

def apply (m : ChatMessage) : MessageOp → ChatMessage
  | .setBodyLength newLength => m.setBodyLength newLength
  | .store offset bytes => { m with data := m.data.store offset bytes }
  | .decodeHeader => m.decodeHeader.2
  | .encodeHeader => m.encodeHeader
  | .copy => m.copy

/-- A message that some sequence of operations has made. -/
def Built (m : ChatMessage) : Prop :=
  ∃ (storage : Storage) (ops : List MessageOp), m = ops.foldl apply (init storage)

private theorem setBodyLength_le (m : ChatMessage) (n : UInt64) :
    (m.setBodyLength n).bodyLength.toNat ≤ maxBodyLength := by
  have hmax : maxBodyLength.toUInt64.toNat = maxBodyLength := by decide
  simp only [setBodyLength, gt_iff_lt]
  split
  · exact Nat.le_of_eq hmax
  · rename_i hle
    rw [UInt64.lt_iff_toNat_lt, hmax] at hle
    exact Nat.le_of_not_lt hle

private theorem decodeHeader_le (m : ChatMessage) :
    m.decodeHeader.2.bodyLength.toNat ≤ maxBodyLength := by
  rw [decodeHeader_eq]
  cases h : chatCodec.bodyLength? (m.data.elems.take headerLength) with
  | none => exact Nat.zero_le _
  | some n =>
    have hle := headerBodyLength?_le h
    exact (toNat_toUInt64 hle).trans_le hle

private theorem apply_le {m : ChatMessage} (h : m.bodyLength.toNat ≤ maxBodyLength)
    (op : MessageOp) :
    (m.apply op).bodyLength.toNat ≤ maxBodyLength := by
  cases op with
  | setBodyLength n => exact m.setBodyLength_le n
  | store offset bytes => exact h
  | decodeHeader => exact m.decodeHeader_le
  | encodeHeader => exact h
  | copy => exact h

theorem Built.bodyLength_le {m : ChatMessage} (h : m.Built) :
    m.bodyLength.toNat ≤ maxBodyLength := by
  obtain ⟨storage, ops, rfl⟩ := h
  induction ops using List.reverseRecOn with
  | nil => exact Nat.zero_le _
  | append_singleton ops op ih =>
    rw [List.foldl_concat]
    exact apply_le ih op

theorem ofBody_built (storage : Storage) (line : List Byte) : (ofBody storage line).Built := by
  let m := (init storage).setBodyLength line.length.toUInt64
  exact ⟨storage, [.setBodyLength line.length.toUInt64,
    .store headerLength (line.take m.bodyLength.toNat), .encodeHeader], rfl⟩

private theorem length_le {m : ChatMessage} (h : m.bodyLength.toNat ≤ maxBodyLength) :
    m.length.toNat ≤ sizeofData := by
  rw [length_toNat h]
  exact Nat.add_le_add_left h _

private theorem encodeHeader_bounds {m : ChatMessage} (h : m.bodyLength.toNat ≤ maxBodyLength) :
    (sprintf4d (toInt m.bodyLength)).length = 4 ∧
      m.encodeHeader.data.elems.drop headerLength = m.data.elems.drop headerLength := by
  have h512 : maxBodyLength = 512 := rfl
  have h4 : headerLength = 4 := rfl
  have hlen : (sprintf4d (toInt m.bodyLength)).length = 4 := by
    rw [toInt_of_le h]
    exact sprintf4d_length (by omega)
  refine ⟨hlen, ?_⟩
  have htake : ((sprintf4d (toInt m.bodyLength)).take headerLength).length = 4 := by
    rw [List.length_take, hlen, h4, Nat.min_self]
  exact m.data.drop_store (by omega) (by omega)

private theorem atoi_not_wrapped (header : List Byte)
    (h : (UInt64.ofInt (atoi (strncat header headerLength))).toNat ≤ maxBodyLength) :
    0 ≤ atoi (strncat header headerLength) ∧
      ((UInt64.ofInt (atoi (strncat header headerLength))).toNat : Int) =
        atoi (strncat header headerLength) := by
  have hbound : (atoi (strncat header headerLength)).natAbs < 10 ^ 4 :=
    (atoi_natAbs_lt _).trans_le (Nat.pow_le_pow_right (by omega) (strncat_length_le _ _))
  obtain ⟨hiff, hval⟩ := ofInt_le_iff hbound
  have hpos := (hiff.1 h).1
  refine ⟨hpos, ?_⟩
  rw [hval hpos, Int.toNat_of_nonneg hpos]

end ChatMessage

/-! ## The buffers of the operations -/

private theorem ReadChain.Inv.inside {clean : Prop} {c : ReadChain} {input : List Byte}
    {published : List ChatMessage} (h : c.Inv clean input published) {op : AsyncRead}
    (hop : op ∈ c.reads) : op.offset + op.size ≤ sizeofData := by
  obtain ⟨pending, -, hfresh⟩ := h.split
  cases hfresh with
  | header got hreads =>
    rw [hreads, List.mem_singleton] at hop
    subst op
    exact Nat.le_add_right _ _
  | body got hreads hframed =>
    rw [hreads, List.mem_singleton] at hop
    subst op
    exact Nat.add_le_add_left hframed.bodyLength_le _
  | stopped hreads => simp [hreads] at hop

private theorem inside_of_writes {q : WriteQueue ChatMessage Byte} {pushed : List ChatMessage}
    {wire : List Byte} (h : q.Inv wireFormat pushed wire)
    (hpushed : ∀ m ∈ pushed, m.bodyLength.toNat ≤ maxBodyLength) {op : AsyncWrite Byte}
    (hop : op ∈ q.writes) : op.size ≤ sizeofData := by
  obtain ⟨op', m, hwrites, hfront, -⟩ | ⟨hwrites, -⟩ := h.wire_eq
  · rw [hwrites, List.mem_singleton] at hop
    subst op
    have hm : m ∈ pushed := by
      apply List.mem_of_mem_drop (i := q.popped)
      rw [← h.queue]
      exact List.mem_of_mem_head? hfront.front
    rw [hfront.size]
    exact ChatMessage.length_le (hpushed m hm)
  · simp [hwrites] at hop

theorem ClientRun.Inv.pushed_called {w : ClientRun} (h : w.Inv) :
    ∀ m ∈ pushedOf w.trace, m ∈ calledOf w.trace := by
  intro m hm
  rw [h.order]
  exact List.mem_append_left _ hm

/-- A message stays within its array whatever is done to it, whatever its header holds, and so
does every buffer that a session or a client passes to its socket. -/
theorem message_bounds :
    (∀ m : ChatMessage, m.Built →
      m.bodyLength.toNat ≤ maxBodyLength ∧ m.length.toNat ≤ sizeofData ∧
      (sprintf4d (toInt m.bodyLength)).length = 4 ∧
      m.encodeHeader.data.elems.drop headerLength = m.data.elems.drop headerLength) ∧
    (∀ header : List Byte,
      (UInt64.ofInt (atoi (strncat header headerLength))).toNat ≤ maxBodyLength →
      0 ≤ atoi (strncat header headerLength) ∧
        ((UInt64.ofInt (atoi (strncat header headerLength))).toNat : Int) =
          atoi (strncat header headerLength)) ∧
    (∀ ports w, (chatServer ports).Reachable w → ∀ s x, w.sessions s = some x →
      (∀ op ∈ x.reads.reads, op.offset + op.size ≤ sizeofData) ∧
      ∀ op ∈ x.writes.writes, op.size ≤ sizeofData) ∧
    (∀ storage line, (ChatMessage.ofBody storage line).Built) ∧
    ∀ storage w, (chatClient storage).Reachable w → (∀ m ∈ calledOf w.trace, m.Built) →
      (∀ op ∈ w.client.reads.reads, op.offset + op.size ≤ sizeofData) ∧
      ∀ op ∈ w.client.writes.writes, op.size ≤ sizeofData := by
  refine ⟨?_, ChatMessage.atoi_not_wrapped, ?_, ChatMessage.ofBody_built, ?_⟩
  · intro m hm
    have hle := hm.bodyLength_le
    exact ⟨hle, ChatMessage.length_le hle, ChatMessage.encodeHeader_bounds hle⟩
  · intro ports w hw s x hx
    have hi := World.inv_reachable hw
    refine ⟨fun op => (hi.session s x hx).reads.inside, fun op => ?_⟩
    apply inside_of_writes (hi.session s x hx).writes
    intro m hm
    exact (hi.pushed_framed hx m hm).bodyLength_le
  · intro storage w hw hbuilt
    have hi := ClientRun.inv_reachable hw
    obtain ⟨published, -, hreads⟩ := hi.printing
    refine ⟨fun op => hreads.inside, fun op => ?_⟩
    apply inside_of_writes hi.writes
    intro m hm
    exact (hbuilt m (hi.pushed_called m hm)).bodyLength_le

end BoostLearning.Chat
