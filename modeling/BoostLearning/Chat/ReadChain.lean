import BoostLearning.Chat.Message
import BoostLearning.Framework.Transition

/-!
# The header/body read loop

`do_read_header` and `do_read_body` of the session and of the client read into one
`chat_message` that is never cleared. The invariant says which of its bytes are fresh: those
received since the last complete frame stand in front of the array, and whatever is behind
them, left over from an earlier message or never initialised, is not published.
-/

namespace BoostLearning.Chat

inductive ReadStage where
  | header
  | body
deriving DecidableEq, Repr

/-- An outstanding `async_read` into `_read_msg`: where its buffer starts in `_data`, the size of
the buffer and the number of bytes received so far. -/
structure AsyncRead where
  stage : ReadStage
  offset : Nat
  size : Nat
  got : Nat
deriving DecidableEq

/-- `_read_msg` and the outstanding reads into it. -/
structure ReadChain where
  readMsg : ChatMessage
  reads : List AsyncRead
deriving DecidableEq

namespace ReadChain

def doReadHeader (c : ReadChain) : ReadChain :=
  { c with reads := c.reads ++ [⟨.header, 0, headerLength, 0⟩] }

def doReadBody (c : ReadChain) : ReadChain :=
  { c with reads := c.reads ++ [⟨.body, headerLength, c.readMsg.bodyLength.toNat, 0⟩] }

/-- The `i`-th outstanding read receives more bytes, no more than it still lacks. -/
def receive (c : ReadChain) (i : Nat) (bytes : List Byte) : Option ReadChain :=
  match c.reads[i]? with
  | none => none
  | some op =>
    if bytes.length ≤ op.size - op.got then
      some
        { readMsg := { c.readMsg with data := c.readMsg.data.store (op.offset + op.got) bytes }
          reads := c.reads.set i { op with got := op.got + bytes.length } }
    else none

/-- The `i`-th outstanding read completes: without error only once its buffer is full. -/
def retire (c : ReadChain) (i : Nat) (ec : ErrorCode) : Option (AsyncRead × ReadChain) :=
  match c.reads[i]? with
  | none => none
  | some op =>
    if ec = .success ∧ op.got ≠ op.size then none
    else some (op, { c with reads := c.reads.eraseIdx i })

/-- The condition `!ec && _read_msg.decode_header()` of the header handlers. -/
def headerAccepted (c : ReadChain) (ec : ErrorCode) : Bool × ReadChain :=
  match ec with
  | .failure => (false, c)
  | .success =>
    let r := c.readMsg.decodeHeader
    (r.1, { c with readMsg := r.2 })

end ReadChain

/-- The header bytes of a message decode to the length the message records. -/
structure ChatMessage.Framed (m : ChatMessage) : Prop where
  bodyLength_le : m.bodyLength.toNat ≤ maxBodyLength
  header : headerBodyLength? (m.data.elems.take headerLength) = some m.bodyLength.toNat

theorem ChatMessage.Framed.isFrame {m : ChatMessage} (h : m.Framed) :
    chatCodec.IsFrame m.wire := by
  have hlen := wire_length h.bodyLength_le
  have htake : m.wire.take headerLength = m.data.elems.take headerLength := by
    rw [wire_eq h.bodyLength_le]
    exact List.take_left' (m.data.length_take_elems (by omega))
  refine ⟨?_, ?_⟩
  · change headerLength ≤ m.wire.length
    omega
  · change headerBodyLength? (m.wire.take headerLength) = some (m.wire.length - headerLength)
    rw [htake, hlen, Nat.add_sub_cancel_left]
    exact h.header

theorem ChatMessage.Framed.body_eq {m : ChatMessage} (h : m.Framed) :
    m.body = m.wire.drop headerLength := by
  rw [wire_eq h.bodyLength_le]
  exact (List.drop_left' (m.data.length_take_elems (by omega))).symm

namespace ReadChain

/-- What the bytes received since the last complete frame say about the chain. A read that
ended leaves something the framing is stuck on, provided that a full read does not fail. -/
inductive Fresh (clean : Prop) (c : ReadChain) (pending : List Byte) : Prop
  | header (got : Nat) (hreads : c.reads = [⟨.header, 0, headerLength, got⟩])
      (hgot : got ≤ headerLength) (hlen : pending.length = got)
      (hdata : c.readMsg.data.elems.take got = pending)
  | body (got : Nat) (hreads : c.reads = [⟨.body, headerLength, c.readMsg.bodyLength.toNat, got⟩])
      (hframed : c.readMsg.Framed) (hgot : got ≤ c.readMsg.bodyLength.toNat)
      (hlen : pending.length = headerLength + got)
      (hdata : c.readMsg.data.elems.take (headerLength + got) = pending)
  | stopped (hreads : c.reads = []) (hstuck : clean → chatCodec.Stuck pending)

/-- The published messages are frames of the input, one after another, and what follows them
is in the buffer. -/
structure Inv (clean : Prop) (c : ReadChain) (input : List Byte) (published : List ChatMessage) :
    Prop where
  framed : ∀ m ∈ published, m.Framed
  split : ∃ pending, published.flatMap ChatMessage.wire ++ pending = input ∧ c.Fresh clean pending

/-- No outstanding read has filled its buffer: the next bytes, or the end, have to come first. -/
def Waiting (c : ReadChain) : Prop := ∀ op ∈ c.reads, op.got < op.size

variable {clean : Prop} {c : ReadChain} {input : List Byte} {published : List ChatMessage}

theorem inv_doReadHeader (clean : Prop) (c : ReadChain) (hreads : c.reads = [])
    (hframed : ∀ m ∈ published, m.Framed) :
    c.doReadHeader.Inv clean (published.flatMap ChatMessage.wire) published :=
  ⟨hframed, [], List.append_nil _,
    .header 0 (by simp [doReadHeader, hreads]) (Nat.zero_le _) rfl rfl⟩

theorem Inv.mono {clean' : Prop} (h : c.Inv clean input published) (hc : clean' → clean) :
    c.Inv clean' input published := by
  obtain ⟨pending, hsplit, hfresh⟩ := h.split
  refine ⟨h.framed, pending, hsplit, ?_⟩
  cases hfresh with
  | header got hreads hgot hlen hdata => exact .header got hreads hgot hlen hdata
  | body got hreads hframed hgot hlen hdata => exact .body got hreads hframed hgot hlen hdata
  | stopped hreads hstuck => exact .stopped hreads fun h' => hstuck (hc h')

theorem Inv.reads_length (h : c.Inv clean input published) : c.reads.length ≤ 1 := by
  obtain ⟨pending, -, hfresh⟩ := h.split
  cases hfresh with
  | header got hreads => simp [hreads]
  | body got hreads => simp [hreads]
  | stopped hreads => simp [hreads]

/-- What a reception does to the only outstanding read. -/
theorem receive_cases (hlen : c.reads.length ≤ 1) {i : Nat} {bytes : List Byte} {c' : ReadChain}
    (hr : c.receive i bytes = some c') :
    ∃ op, c.reads = [op] ∧ bytes.length ≤ op.size - op.got ∧
      c' = ⟨{ c.readMsg with data := c.readMsg.data.store (op.offset + op.got) bytes },
        [{ op with got := op.got + bytes.length }]⟩ := by
  simp only [ReadChain.receive] at hr
  split at hr
  · exact absurd hr (by simp)
  · rename_i op hop
    obtain ⟨rfl, hreads⟩ := eq_singleton_of_getElem? hlen hop
    split at hr
    · rename_i hroom
      simp only [Option.some.injEq] at hr
      refine ⟨op, hreads, hroom, ?_⟩
      rw [← hr, hreads, List.set_cons_zero]
    · exact absurd hr (by simp)

/-- What a completion does to the only outstanding read. -/
theorem retire_cases (hlen : c.reads.length ≤ 1) {i : Nat} {ec : ErrorCode} {op : AsyncRead}
    {c' : ReadChain} (hr : c.retire i ec = some (op, c')) :
    c.reads = [op] ∧ c' = { c with reads := [] } ∧ (ec = .success → op.got = op.size) := by
  simp only [ReadChain.retire] at hr
  split at hr
  · exact absurd hr (by simp)
  · rename_i op' hop
    obtain ⟨rfl, hreads⟩ := eq_singleton_of_getElem? hlen hop
    split at hr
    · exact absurd hr (by simp)
    · rename_i hfull
      simp only [Option.some.injEq, Prod.mk.injEq] at hr
      obtain ⟨rfl, rfl⟩ := hr
      refine ⟨hreads, by rw [hreads, List.eraseIdx_cons_zero], fun hec => ?_⟩
      by_contra hne
      exact hfull ⟨hec, hne⟩

/-- Received bytes are stored behind the fresh ones. -/
theorem Inv.receive (h : c.Inv clean input published) {i : Nat} {bytes : List Byte}
    {c' : ReadChain} (hr : c.receive i bytes = some c') :
    c'.Inv clean (input ++ bytes) published ∧ c'.reads.length = c.reads.length := by
  have h4 : headerLength = 4 := rfl
  have h512 : maxBodyLength = 512 := rfl
  obtain ⟨op, hop, hroom, rfl⟩ := receive_cases h.reads_length hr
  obtain ⟨pending, hsplit, hfresh⟩ := h.split
  have hsplit' : published.flatMap ChatMessage.wire ++ (pending ++ bytes) = input ++ bytes := by
    rw [← hsplit, List.append_assoc]
  refine ⟨⟨h.framed, _, hsplit', ?_⟩, by simp [hop]⟩
  cases hfresh with
  | header got hreads hgot hlen hdata =>
    rw [hop, List.cons.injEq] at hreads
    obtain ⟨rfl, -⟩ := hreads
    simp only at hroom
    refine .header (got + bytes.length) rfl (by omega) ?_ ?_
    · rw [List.length_append, hlen]
    · have hstore := c.readMsg.data.take_store (0 + got) bytes (by omega)
      simpa only [Nat.zero_add, hdata] using hstore
  | body got hreads hframed hgot hlen hdata =>
    rw [hop, List.cons.injEq] at hreads
    obtain ⟨rfl, -⟩ := hreads
    have hle := hframed.bodyLength_le
    simp only at hroom
    refine .body (got + bytes.length) rfl ⟨hle, ?_⟩ ?_ ?_ ?_
    · -- the header is in front of everything a body read stores
      have hhead := c.readMsg.data.take_store_of_le (headerLength + got) headerLength bytes
        (by omega) (by omega)
      simp only [hhead]
      exact hframed.header
    · change got + bytes.length ≤ c.readMsg.bodyLength.toNat
      omega
    · rw [List.length_append, hlen]
      omega
    · have hstore := c.readMsg.data.take_store (headerLength + got) bytes (by omega)
      simpa only [Nat.add_assoc, hdata] using hstore
  | stopped hreads => simp [hop] at hreads

/-- A read that fails ends the chain. Unless it had filled its buffer, the input ends inside a
frame. -/
theorem Inv.fail (h : c.Inv clean input published) {i : Nat} {op : AsyncRead} {c' : ReadChain}
    (hr : c.retire i .failure = some (op, c')) :
    c'.reads = [] ∧ c'.Inv (clean ∧ op.got ≠ op.size) input published := by
  obtain ⟨hop, rfl, -⟩ := retire_cases h.reads_length hr
  obtain ⟨pending, hsplit, hfresh⟩ := h.split
  refine ⟨rfl, h.framed, pending, hsplit, .stopped rfl ?_⟩
  rintro ⟨hclean, hne⟩
  cases hfresh with
  | header got hreads hgot hlen hdata =>
    rw [hop, List.cons.injEq] at hreads
    obtain ⟨rfl, -⟩ := hreads
    refine Or.inl (Or.inl ?_)
    change pending.length < headerLength
    simp only at hne
    omega
  | body got hreads hframed hgot hlen hdata =>
    rw [hop, List.cons.injEq] at hreads
    obtain ⟨rfl, -⟩ := hreads
    refine Or.inl (Or.inr ⟨c.readMsg.bodyLength.toNat, ?_, ?_⟩)
    · change headerBodyLength? (pending.take headerLength) = _
      rw [← hdata, List.take_take, Nat.min_eq_left (by omega)]
      exact hframed.header
    · change pending.length < headerLength + c.readMsg.bodyLength.toNat
      simp only at hne
      omega
  | stopped hreads => simp [hop] at hreads

private theorem Inv.header_pending (h : c.Inv clean input published) {op : AsyncRead}
    (hop : c.reads = [op]) (hstage : op.stage = .header) (hfull : op.got = op.size) :
    published.flatMap ChatMessage.wire ++ c.readMsg.data.elems.take headerLength = input := by
  obtain ⟨pending, hsplit, hfresh⟩ := h.split
  cases hfresh with
  | header got hreads hgot hlen hdata =>
    rw [hop, List.cons.injEq] at hreads
    obtain ⟨rfl, -⟩ := hreads
    simp only at hfull
    rw [hfull] at hdata
    rw [hdata]
    exact hsplit
  | body got hreads =>
    rw [hop, List.cons.injEq] at hreads
    obtain ⟨rfl, -⟩ := hreads
    exact absurd hstage (by simp)
  | stopped hreads => simp [hop] at hreads

/-- A full header is accepted, and the body it announces is read next. -/
theorem Inv.header_accepted (h : c.Inv clean input published) {i : Nat} {op : AsyncRead}
    {c' : ReadChain} (hr : c.retire i .success = some (op, c')) (hstage : op.stage = .header)
    (hacc : (c'.headerAccepted .success).1 = true) :
    (c'.headerAccepted .success).2.reads = [] ∧
      (c'.headerAccepted .success).2.doReadBody.Inv clean input published := by
  have h4 : headerLength = 4 := rfl
  obtain ⟨hop, rfl, hfull⟩ := retire_cases h.reads_length hr
  have hpend := h.header_pending hop hstage (hfull rfl)
  have hlen := c.readMsg.data.length_take_elems (k := headerLength) (by omega)
  simp only [headerAccepted, ChatMessage.decodeHeader_eq] at hacc ⊢
  cases hn : chatCodec.bodyLength? (c.readMsg.data.elems.take headerLength) with
  | none => simp [hn] at hacc
  | some n =>
    have hle : n ≤ maxBodyLength := headerBodyLength?_le hn
    have hnat : n.toUInt64.toNat = n := toNat_toUInt64 hle
    refine ⟨trivial, h.framed, _, hpend,
      .body 0 rfl ⟨hnat.trans_le hle, ?_⟩ (Nat.zero_le _) hlen rfl⟩
    simp only [doReadBody, hnat]
    exact hn

/-- A full header is refused, and the chain ends in front of it. -/
theorem Inv.header_rejected (h : c.Inv clean input published) {i : Nat} {op : AsyncRead}
    {c' : ReadChain} (hr : c.retire i .success = some (op, c')) (hstage : op.stage = .header)
    (hrej : (c'.headerAccepted .success).1 = false) :
    (c'.headerAccepted .success).2.reads = [] ∧
      (c'.headerAccepted .success).2.Inv clean input published ∧
      ∃ header, published.flatMap ChatMessage.wire ++ header = input ∧
        chatCodec.Rejected header := by
  have h4 : headerLength = 4 := rfl
  obtain ⟨hop, rfl, hfull⟩ := retire_cases h.reads_length hr
  have hpend := h.header_pending hop hstage (hfull rfl)
  have hlen := c.readMsg.data.length_take_elems (k := headerLength) (by omega)
  simp only [headerAccepted, ChatMessage.decodeHeader_eq] at hrej ⊢
  cases hn : chatCodec.bodyLength? (c.readMsg.data.elems.take headerLength) with
  | some n => simp [hn] at hrej
  | none =>
    have hrejected : chatCodec.Rejected (c.readMsg.data.elems.take headerLength) := by
      refine ⟨hlen.ge, ?_⟩
      change chatCodec.bodyLength? ((c.readMsg.data.elems.take headerLength).take headerLength) = _
      rw [List.take_take, Nat.min_self]
      exact hn
    exact ⟨trivial, ⟨h.framed, _, hpend, .stopped rfl fun _ => Or.inr hrejected⟩, _, hpend,
      hrejected⟩

/-- A full body: the buffer holds exactly the bytes of the frame that has just ended. -/
theorem Inv.body (h : c.Inv clean input published) {i : Nat} {op : AsyncRead} {c' : ReadChain}
    (hr : c.retire i .success = some (op, c')) (hstage : op.stage = .body) :
    c'.reads = [] ∧ c'.readMsg.Framed ∧
      c'.doReadHeader.Inv clean input (published ++ [c'.readMsg]) := by
  obtain ⟨hop, rfl, hfull⟩ := retire_cases h.reads_length hr
  obtain ⟨pending, hsplit, hfresh⟩ := h.split
  cases hfresh with
  | header got hreads =>
    rw [hop, List.cons.injEq] at hreads
    obtain ⟨rfl, -⟩ := hreads
    exact absurd hstage (by simp)
  | body got hreads hframed hgot hlen hdata =>
    rw [hop, List.cons.injEq] at hreads
    obtain ⟨rfl, -⟩ := hreads
    have hgot' : got = c.readMsg.bodyLength.toNat := hfull rfl
    have hwire : c.readMsg.wire = pending := by
      change c.readMsg.data.elems.take c.readMsg.length.toNat = pending
      rw [ChatMessage.length_toNat hframed.bodyLength_le, ← hgot', hdata]
    have hall : (published ++ [c.readMsg]).flatMap ChatMessage.wire = input := by
      rw [List.flatMap_append, List.flatMap_singleton, hwire, hsplit]
    have hframed' : ∀ m ∈ published ++ [c.readMsg], m.Framed := by
      intro m hm
      rcases List.mem_append.1 hm with hm | hm
      · exact h.framed m hm
      · exact (List.mem_singleton.1 hm) ▸ hframed
    have hinv := inv_doReadHeader clean { c with reads := [] } rfl hframed'
    rw [hall] at hinv
    exact ⟨rfl, hframed, hinv⟩
  | stopped hreads => simp [hop] at hreads

theorem Inv.isFrame (h : c.Inv clean input published) :
    ∀ f ∈ published.map ChatMessage.wire, chatCodec.IsFrame f := by
  intro f hf
  obtain ⟨m, hm, rfl⟩ := List.mem_map.1 hf
  exact (h.framed m hm).isFrame

/-- What has been published are always the first frames of the input. -/
theorem Inv.published_prefix (h : c.Inv clean input published) :
    published.map ChatMessage.wire <+: (chatCodec.parse input).1 := by
  obtain ⟨pending, hsplit, -⟩ := h.split
  refine FrameCodec.prefix_parse h.isFrame ⟨pending, ?_⟩
  rw [← List.flatMap_def]
  exact hsplit

/-- As long as the chain has to wait for bytes, and after it has ended, no frame is left in what
it has not published. -/
theorem Fresh.stuck {pending : List Byte} (h : c.Fresh clean pending) (hclean : clean)
    (hw : c.Waiting) : chatCodec.Stuck pending := by
  cases h with
  | header got hreads hgot hlen hdata =>
    have := hw ⟨.header, 0, headerLength, got⟩ (by simp [hreads])
    exact Or.inl (Or.inl (hlen.trans_lt this))
  | body got hreads hframed hgot hlen hdata =>
    have hlt := hw _ (by rw [hreads]; exact List.mem_singleton_self _)
    refine Or.inl (Or.inr ⟨c.readMsg.bodyLength.toNat, ?_, ?_⟩)
    · rw [chatCodec_headerLength, chatCodec_bodyLength?, ← hdata, List.take_take,
        Nat.min_eq_left (by omega)]
      exact hframed.header
    · rw [chatCodec_headerLength]
      simp only at hlt
      omega
  | stopped hreads hstuck => exact hstuck hclean

/-- In front of a rejected header the chain has ended. -/
theorem Fresh.stopped_of_rejected {pending : List Byte} (h : c.Fresh clean pending)
    (hw : c.Waiting) (hrej : chatCodec.Rejected pending) : c.reads = [] := by
  obtain ⟨hlong, hnone⟩ := hrej
  rw [chatCodec_headerLength] at hlong
  cases h with
  | header got hreads hgot hlen hdata =>
    have := hw ⟨.header, 0, headerLength, got⟩ (by simp [hreads])
    simp only at this
    omega
  | body got hreads hframed hgot hlen hdata =>
    rw [chatCodec_headerLength, chatCodec_bodyLength?, ← hdata, List.take_take,
      Nat.min_eq_left (by omega), hframed.header] at hnone
    exact absurd hnone (by simp)
  | stopped hreads => exact hreads

theorem Inv.got_le (h : c.Inv clean input published) {op : AsyncRead} (hop : op ∈ c.reads) :
    op.got ≤ op.size := by
  obtain ⟨pending, -, hfresh⟩ := h.split
  cases hfresh with
  | header got hreads hgot =>
    rw [hreads, List.mem_singleton] at hop
    subst op
    exact hgot
  | body got hreads hframed hgot =>
    rw [hreads, List.mem_singleton] at hop
    subst op
    exact hgot
  | stopped hreads => simp [hreads] at hop

theorem Inv.parse_eq_of_stuck (h : c.Inv clean input published) {pending : List Byte}
    (hstuck : chatCodec.Stuck pending)
    (hsplit : published.flatMap ChatMessage.wire ++ pending = input) :
    chatCodec.parse input = (published.map ChatMessage.wire, pending) := by
  apply FrameCodec.parse_eq h.isFrame hstuck
  rw [← List.flatMap_def]
  exact hsplit

end ReadChain

end BoostLearning.Chat
