import BoostLearning.Chat.CString
import BoostLearning.Framework.Buffer
import BoostLearning.Framework.Framing
import BoostLearning.Framework.WriteQueue

/-!
# `chat_message`

One array holds the header and the body. `bodyLength` is a `size_t` and `atoi` returns an
`int`, so a negative length from the header becomes a large unsigned one, which the limit
check refuses like any other length above the maximum.
-/

namespace BoostLearning.Chat

def headerLength : Nat := 4

def maxBodyLength : Nat := 512

abbrev Storage := Buffer Byte (headerLength + maxBodyLength)

/-- `_data` and `_body_length`. -/
structure ChatMessage where
  data : Storage
  bodyLength : UInt64
deriving DecidableEq

/-- `static_cast<int>`: the low 32 bits in two's complement. -/
def toInt (n : UInt64) : Int := (n.toBitVec.setWidth 32).toInt

/-- The length a header announces, as an integer; what is negative or too large is refused. -/
def headerBodyLength? (header : List Byte) : Option Nat :=
  let n := atoi (strncat header headerLength)
  if 0 ≤ n ∧ n ≤ maxBodyLength then some n.toNat else none

/-- The framing of the chat protocol. -/
def chatCodec : FrameCodec Byte where
  headerLength := headerLength
  headerLength_pos := by decide
  bodyLength? := headerBodyLength?

@[simp]
theorem chatCodec_headerLength : chatCodec.headerLength = headerLength := rfl

@[simp]
theorem chatCodec_bodyLength? : chatCodec.bodyLength? = headerBodyLength? := rfl

namespace ChatMessage

/-- The constructor leaves `_data` as it finds it. -/
def init (storage : Storage) : ChatMessage := ⟨storage, 0⟩

def length (m : ChatMessage) : UInt64 := headerLength.toUInt64 + m.bodyLength

/-- The bytes from `body()` on, as many as `body_length()` says. -/
def body (m : ChatMessage) : List Byte :=
  (m.data.elems.drop headerLength).take m.bodyLength.toNat

def setBodyLength (m : ChatMessage) (newLength : UInt64) : ChatMessage :=
  let m := { m with bodyLength := newLength }
  if m.bodyLength > maxBodyLength.toUInt64 then
    { m with bodyLength := maxBodyLength.toUInt64 }
  else m

def decodeHeader (m : ChatMessage) : Bool × ChatMessage :=
  let header := strncat m.data.elems headerLength
  let m := { m with bodyLength := UInt64.ofInt (atoi header) }
  if m.bodyLength > maxBodyLength.toUInt64 then (false, { m with bodyLength := 0 })
  else (true, m)

def encodeHeader (m : ChatMessage) : ChatMessage :=
  let header := sprintf4d (toInt m.bodyLength)
  { m with data := m.data.store 0 (header.take headerLength) }

/-- A message as the client's `main` makes it from a line. -/
def ofBody (storage : Storage) (line : List Byte) : ChatMessage :=
  let m := (init storage).setBodyLength line.length.toUInt64
  let m := { m with data := m.data.store headerLength (line.take m.bodyLength.toNat) }
  m.encodeHeader

end ChatMessage

/-- The buffer of a write of a message: `data()`, `length()` bytes of it. -/
def wireFormat : WireFormat ChatMessage Byte where
  data := fun m => m.data.elems
  length := fun m => m.length.toNat

abbrev ChatMessage.wire (m : ChatMessage) : List Byte := wireFormat.image m

/-! ## The header codec -/

private theorem toNat_maxBodyLength : maxBodyLength.toUInt64.toNat = 512 := by decide

theorem toInt_of_le {n : UInt64} (h : n.toNat ≤ maxBodyLength) : toInt n = n.toNat := by
  have h512 : maxBodyLength = 512 := rfl
  have hmod : n.toNat % 2 ^ 32 = n.toNat := Nat.mod_eq_of_lt (by omega)
  rw [toInt, BitVec.toInt_eq_toNat_of_lt]
  · rw [BitVec.toNat_setWidth, UInt64.toNat_toBitVec, hmod]
  · rw [BitVec.toNat_setWidth, UInt64.toNat_toBitVec, hmod]
    omega

/-- The conversion to `size_t` does not wrap a length past the limit check: what the check
lets through is what lies in the range as an integer. -/
theorem ofInt_le_iff {i : Int} (h : i.natAbs < 10 ^ 4) :
    ((UInt64.ofInt i).toNat ≤ maxBodyLength ↔ 0 ≤ i ∧ i ≤ maxBodyLength) ∧
      (0 ≤ i → (UInt64.ofInt i).toNat = i.toNat) := by
  have h512 : maxBodyLength = 512 := rfl
  have hval : (UInt64.ofInt i).toNat = (i % 2 ^ 64).toNat := by
    rw [UInt64.ofInt, UInt64.toNat_ofNat']
    omega
  omega

/-- Running `decode_header` is asking the framing for the announced length. -/
theorem ChatMessage.decodeHeader_eq (m : ChatMessage) :
    m.decodeHeader = match chatCodec.bodyLength? (m.data.elems.take headerLength) with
      | some n => (true, { m with bodyLength := n.toUInt64 })
      | none => (false, { m with bodyLength := 0 }) := by
  have hbound : (atoi (strncat m.data.elems headerLength)).natAbs < 10 ^ 4 :=
    (atoi_natAbs_lt _).trans_le
      (Nat.pow_le_pow_right (by omega) (strncat_length_le _ _))
  obtain ⟨hiff, hval⟩ := ofInt_le_iff hbound
  simp only [decodeHeader, chatCodec, headerBodyLength?, strncat_take, gt_iff_lt,
    UInt64.lt_iff_toNat_lt, toNat_maxBodyLength]
  by_cases hin : 0 ≤ atoi (strncat m.data.elems headerLength) ∧
      atoi (strncat m.data.elems headerLength) ≤ maxBodyLength
  · have hle : ¬ 512 < (UInt64.ofInt (atoi (strncat m.data.elems headerLength))).toNat :=
      Nat.not_lt.2 (hiff.2 hin)
    have heq : UInt64.ofInt (atoi (strncat m.data.elems headerLength)) =
        (atoi (strncat m.data.elems headerLength)).toNat.toUInt64 := by
      rw [← UInt64.toNat_inj, hval hin.1]
      have := (hval hin.1).symm.trans_le (hiff.2 hin)
      have h512 : maxBodyLength = 512 := rfl
      simp only [Nat.toUInt64, UInt64.toNat_ofNat']
      omega
    rw [if_neg hle, if_pos hin, heq]
  · have hgt : 512 < (UInt64.ofInt (atoi (strncat m.data.elems headerLength))).toNat :=
      Nat.not_le.1 fun hle => hin (hiff.1 hle)
    rw [if_pos hgt, if_neg hin]

theorem headerBodyLength?_le {header : List Byte} {n : Nat}
    (h : headerBodyLength? header = some n) : n ≤ maxBodyLength := by
  simp only [headerBodyLength?] at h
  split at h
  · simp only [Option.some.injEq] at h
    omega
  · exact absurd h (by simp)

theorem toNat_toUInt64 {n : Nat} (h : n ≤ maxBodyLength) : n.toUInt64.toNat = n := by
  have h512 : maxBodyLength = 512 := rfl
  simp only [Nat.toUInt64, UInt64.toNat_ofNat']
  omega

theorem ChatMessage.length_toNat {m : ChatMessage} (h : m.bodyLength.toNat ≤ maxBodyLength) :
    m.length.toNat = headerLength + m.bodyLength.toNat := by
  have h512 : maxBodyLength = 512 := rfl
  have h4 : headerLength.toUInt64.toNat = 4 := by decide
  have h4' : headerLength = 4 := rfl
  rw [length, UInt64.toNat_add, h4]
  omega

/-! ## The messages of the client -/

theorem ChatMessage.wire_eq {m : ChatMessage} (h : m.bodyLength.toNat ≤ maxBodyLength) :
    m.wire = m.data.elems.take headerLength ++ m.body := by
  change m.data.elems.take m.length.toNat = _
  rw [length_toNat h, List.take_add, body]

theorem ChatMessage.wire_length {m : ChatMessage} (h : m.bodyLength.toNat ≤ maxBodyLength) :
    m.wire.length = headerLength + m.bodyLength.toNat := by
  change (m.data.elems.take m.length.toNat).length = _
  rw [length_toNat h, m.data.length_take_elems (by omega)]

/-- A message built from a line goes out as the header for its length and the line. -/
theorem ChatMessage.ofBody_wire (storage : Storage) {line : List Byte}
    (h : line.length ≤ maxBodyLength) :
    (ofBody storage line).wire = sprintf4d line.length ++ line ∧
      (ofBody storage line).body = line ∧
      (ofBody storage line).bodyLength = line.length.toUInt64 := by
  have h512 : maxBodyLength = 512 := rfl
  have h4 : headerLength = 4 := rfl
  have hlen : line.length.toUInt64.toNat = line.length := toNat_toUInt64 h
  have hset : (init storage).setBodyLength line.length.toUInt64 =
      ⟨storage, line.length.toUInt64⟩ := by
    simp only [setBodyLength, init, gt_iff_lt, UInt64.lt_iff_toNat_lt, toNat_maxBodyLength, hlen]
    rw [if_neg (by omega)]
  have hheader : (sprintf4d line.length).length = 4 := sprintf4d_length (by omega)
  have htake : (sprintf4d line.length).take headerLength = sprintf4d line.length :=
    List.take_of_length_le (by omega)
  have heq : ofBody storage line = ⟨(storage.store headerLength line).store 0
      (sprintf4d line.length), line.length.toUInt64⟩ := by
    simp only [ofBody, hset, hlen, List.take_length, encodeHeader]
    rw [toInt_of_le (by rw [hlen]; exact h), hlen, htake]
  have hbl : (ofBody storage line).bodyLength.toNat = line.length := by rw [heq, hlen]
  have hbody : (ofBody storage line).body = line := by
    have hstore := storage.take_store headerLength line (by omega)
    rw [body, hbl, heq]
    dsimp only
    rw [Buffer.drop_store _ (by omega) (by omega), List.take_drop, hstore]
    exact List.drop_left' (storage.length_take_elems (by omega))
  refine ⟨?_, hbody, by rw [heq]⟩
  rw [wire_eq (by omega), hbody, heq]
  have := (storage.store headerLength line).take_store 0 (sprintf4d line.length) (by omega)
  simpa [hheader, h4] using this

theorem ChatMessage.ofBody_isFrame (storage : Storage) {line : List Byte}
    (h : line.length ≤ maxBodyLength) : chatCodec.IsFrame (ofBody storage line).wire := by
  have h512 : maxBodyLength = 512 := rfl
  have hheader : (sprintf4d line.length).length = headerLength := sprintf4d_length (by omega)
  rw [(ofBody_wire storage h).1]
  constructor
  · rw [chatCodec_headerLength, List.length_append]
    omega
  · rw [chatCodec_headerLength, chatCodec_bodyLength?, List.take_left' hheader,
      List.length_append, hheader, Nat.add_sub_cancel_left, headerBodyLength?]
    have hatoi : atoi (strncat (sprintf4d line.length) headerLength) = line.length :=
      atoi_sprintf4d (by omega)
    rw [hatoi, if_pos (by omega), Int.toNat_natCast]

end BoostLearning.Chat
