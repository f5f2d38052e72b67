import BoostLearning.Chat.ReadChain

/-!
# Feeding a read loop from a transport

The transport holds the stream in chunks. An outstanding read takes what it still lacks from the
first chunk, or the whole chunk, and completes when its buffer is full; at the end of the stream
the outstanding read fails. Session and client are two instances of such a reader, so that what
is proved of the loop holds of both.
-/

namespace BoostLearning.Chat

/-- A program around one read chain: where the chain is, and the steps in which the outstanding
read receives bytes and completes. -/
structure StreamReader (σ : Type) where
  chain : σ → Option ReadChain
  receive : σ → List Byte → Option σ
  complete : σ → ErrorCode → Option σ

namespace StreamReader

variable {σ : Type} (R : StreamReader σ)

def lacking (s : σ) : Option Nat :=
  (R.chain s).bind fun c => c.reads.head?.map fun op => op.size - op.got

/-- Let the loop read the chunks until they are used up or it has no read outstanding. The result
is the state and the chunks that were not read; `none` without enough fuel, or when a step was
refused. -/
def feed : Nat → σ → List (List Byte) → Option (σ × List (List Byte))
  | 0, _, _ => none
  | fuel + 1, s, chunks =>
    match R.lacking s, chunks with
    | none, _ => some (s, chunks)
    | some 0, _ => (R.complete s .success).bind fun t => feed fuel t chunks
    | some (_ + 1), [] => some (s, [])
    | some (_ + 1), [] :: chunks => feed fuel s chunks
    | some (k + 1), (b :: bs) :: chunks =>
      (R.receive s ((b :: bs).take (k + 1))).bind fun t =>
        feed fuel t ((b :: bs).drop (k + 1) :: chunks)

def readToEnd (fuel : Nat) (s : σ) (chunks : List (List Byte)) : Option (σ × List (List Byte)) :=
  (R.feed fuel s chunks).bind fun (t, rest) => (R.complete t .failure).map fun u => (u, rest)

/-- What a reader does is what its chain does. `I s input published` is known while the loop
runs, `Done s published` after it has ended. -/
structure Lawful (I : σ → List Byte → List ChatMessage → Prop)
    (Done : σ → List ChatMessage → Prop) : Prop where
  chain : ∀ {s input published}, I s input published →
    ∃ c, R.chain s = some c ∧ c.Inv False input published
  receive : ∀ {s input published c c' bytes}, I s input published → R.chain s = some c →
    c.receive 0 bytes = some c' →
    ∃ t, R.receive s bytes = some t ∧ R.chain t = some c' ∧ I t (input ++ bytes) published
  header : ∀ {s input published c c' op}, I s input published → R.chain s = some c →
    c.retire 0 .success = some (op, c') → op.stage = .header →
    (c'.headerAccepted .success).1 = true →
    ∃ t, R.complete s .success = some t ∧
      R.chain t = some (c'.headerAccepted .success).2.doReadBody ∧ I t input published
  body : ∀ {s input published c c' op}, I s input published → R.chain s = some c →
    c.retire 0 .success = some (op, c') → op.stage = .body →
    ∃ t, R.complete s .success = some t ∧ R.chain t = some c'.doReadHeader ∧
      I t input (published ++ [c'.readMsg])
  fail : ∀ {s input published c c' op}, I s input published → R.chain s = some c →
    c.retire 0 .failure = some (op, c') →
    ∃ t, R.complete s .failure = some t ∧ R.chain t = some c' ∧ Done t published

def due (c : ReadChain) : Nat :=
  match c.reads with
  | [op] => if op.got = op.size then (if op.stage = .header then 2 else 1) else 0
  | _ => 0

end StreamReader

namespace ReadChain

variable {clean : Prop} {c : ReadChain} {input : List Byte} {published : List ChatMessage}

private theorem Inv.reads_cases (h : c.Inv clean input published) (hne : c.reads ≠ []) :
    ∃ op, c.reads = [op] ∧ op.got ≤ op.size := by
  have hlen := h.reads_length
  cases hc : c.reads with
  | nil => exact absurd hc hne
  | cons op rest =>
    have hrest : rest = [] := by
      rw [hc, List.length_cons] at hlen
      exact List.length_eq_zero_iff.1 (by omega)
    subst rest
    exact ⟨op, rfl, h.got_le (by simp [hc])⟩

theorem Inv.header_not_rejected (h : c.Inv clean input published) {op : AsyncRead}
    {c' : ReadChain} (hr : c.retire 0 .success = some (op, c')) (hstage : op.stage = .header)
    {frames : List (List Byte)} (hframes : ∀ f ∈ frames, chatCodec.IsFrame f)
    (hinput : input <+: frames.flatten) : (c'.headerAccepted .success).1 = true := by
  by_contra hrej
  rw [Bool.not_eq_true] at hrej
  obtain ⟨-, -, header, hsplit, hheader⟩ := h.header_rejected hr hstage hrej
  apply FrameCodec.header_accepted h.isFrame hframes _ hheader.1 hheader
  rw [← List.flatMap_def, hsplit]
  exact hinput

theorem Inv.parse_eq_of_reading (h : c.Inv clean input published) (hne : c.reads ≠ [])
    (hw : c.Waiting) : (chatCodec.parse input).1 = published.map ChatMessage.wire := by
  obtain ⟨pending, hsplit, hfresh⟩ := h.split
  have hstuck : chatCodec.Stuck pending := by
    have hfresh' : c.Fresh True pending := by
      cases hfresh with
      | header got hreads hgot hlen hdata => exact .header got hreads hgot hlen hdata
      | body got hreads hframed hgot hlen hdata => exact .body got hreads hframed hgot hlen hdata
      | stopped hreads => exact absurd hreads hne
    exact hfresh'.stuck trivial hw
  rw [h.parse_eq_of_stuck hstuck hsplit]

end ReadChain

namespace StreamReader

variable {σ : Type} {R : StreamReader σ} {I : σ → List Byte → List ChatMessage → Prop}
  {Done : σ → List ChatMessage → Prop}

private theorem receive_some {c : ReadChain} {op : AsyncRead} (hop : c.reads = [op])
    {bytes : List Byte} (hlen : bytes.length ≤ op.size - op.got) :
    ∃ c', c.receive 0 bytes = some c' ∧
      c'.reads = [{ op with got := op.got + bytes.length }] := by
  refine ⟨⟨{ c.readMsg with data := c.readMsg.data.store (op.offset + op.got) bytes },
    [{ op with got := op.got + bytes.length }]⟩, ?_, rfl⟩
  simp [ReadChain.receive, hop, hlen]

private theorem retire_some {c : ReadChain} {op : AsyncRead} (hop : c.reads = [op])
    {ec : ErrorCode} (hec : ec = .success → op.got = op.size) :
    c.retire 0 ec = some (op, { c with reads := [] }) := by
  have hok : ¬ (ec = .success ∧ op.got ≠ op.size) := fun h => h.2 (hec h.1)
  simp [ReadChain.retire, hop, hok]

private theorem due_le (c : ReadChain) : due c ≤ 2 := by
  unfold due
  split
  · split
    · split <;> omega
    · omega
  · omega

private theorem due_doReadHeader {c : ReadChain} (hreads : c.reads = []) :
    due c.doReadHeader = 0 := by
  simp [due, ReadChain.doReadHeader, hreads, headerLength]

private theorem due_doReadBody {c : ReadChain} (hreads : c.reads = []) :
    due c.doReadBody ≤ 1 := by
  have heq : due c.doReadBody = if 0 = c.readMsg.bodyLength.toNat then 1 else 0 := by
    simp [due, ReadChain.doReadBody, hreads]
  rw [heq]
  split <;> omega

/-- The loop reads all the chunks of a stream of frames, whichever way it is cut, and is left
waiting for more. -/
private theorem Lawful.feed_all (L : R.Lawful I Done) {frames : List (List Byte)}
    (hframes : ∀ f ∈ frames, chatCodec.IsFrame f) (fuel : Nat) {s : σ} {input : List Byte}
    {published : List ChatMessage} {c : ReadChain} (chunks : List (List Byte))
    (hs : I s input published) (hc : R.chain s = some c) (hne : c.reads ≠ [])
    (hstream : input ++ chunks.flatten <+: frames.flatten)
    (hfuel : 3 * chunks.flatten.length + chunks.length + due c < fuel) :
    ∃ t c' published', R.feed fuel s chunks = some (t, []) ∧
      I t (input ++ chunks.flatten) published' ∧ R.chain t = some c' ∧ c'.reads ≠ [] ∧
      c'.Waiting := by
  induction fuel generalizing s input published c chunks with
  | zero => omega
  | succ fuel ih =>
    have hinv : c.Inv False input published := by
      obtain ⟨c', hc', hinv⟩ := L.chain hs
      rw [hc, Option.some.injEq] at hc'
      exact hc' ▸ hinv
    obtain ⟨op, hop, hgot⟩ := hinv.reads_cases hne
    have hlacking : R.lacking s = some (op.size - op.got) := by
      simp [lacking, hc, hop]
    cases hk : op.size - op.got with
    | zero =>
      -- the read is full: its handler runs, and takes no byte
      have hfull : op.got = op.size := by omega
      have hr : c.retire 0 .success = some (op, { c with reads := [] }) :=
        retire_some hop fun _ => hfull
      cases hstage : op.stage with
      | header =>
        have hacc := hinv.header_not_rejected hr hstage hframes
          ((List.prefix_append _ _).trans hstream)
        obtain ⟨t, ht, hct, hIt⟩ := L.header hs hc hr hstage hacc
        have hnil := (hinv.header_accepted hr hstage hacc).1
        have hdue : due c = 2 := by simp [due, hop, hfull, hstage]
        have hdue' := due_doReadBody hnil
        have hnext := ih chunks hIt hct (by simp [ReadChain.doReadBody]) hstream (by omega)
        simpa [feed, hlacking, hk, ht] using hnext
      | body =>
        obtain ⟨t, ht, hct, hIt⟩ := L.body hs hc hr hstage
        have hdue : due c = 1 := by simp [due, hop, hfull, hstage]
        have hdue' : due ({ c with reads := [] } : ReadChain).doReadHeader = 0 :=
          due_doReadHeader rfl
        have hnext := ih chunks hIt hct (by simp [ReadChain.doReadHeader]) hstream (by omega)
        simpa [feed, hlacking, hk, ht] using hnext
    | succ k =>
      have hdue : due c = 0 := by
        have hpart : op.got ≠ op.size := by omega
        simp [due, hop, hpart]
      cases chunks with
      | nil =>
        refine ⟨s, c, published, by simp [feed, hlacking, hk], by simpa using hs, hc, hne, ?_⟩
        intro op' hop'
        rw [hop, List.mem_singleton] at hop'
        subst op'
        omega
      | cons chunk chunks =>
        cases chunk with
        | nil =>
          have hnext := ih chunks hs hc hne (by simpa using hstream) (by
            simp only [List.flatten_cons, List.nil_append, List.length_cons] at hfuel
            omega)
          simpa [feed, hlacking, hk] using hnext
        | cons b bs =>
          have hlen : ((b :: bs).take (k + 1)).length ≤ op.size - op.got := by
            rw [List.length_take, hk]
            omega
          obtain ⟨c', hr, hreads⟩ := receive_some hop hlen
          obtain ⟨t, ht, hct, hIt⟩ := L.receive hs hc hr
          have hsplit : (b :: bs).take (k + 1) ++ (b :: bs).drop (k + 1) = b :: bs :=
            List.take_append_drop _ _
          have hflat : input ++ (b :: bs).take (k + 1) ++
              ((b :: bs).drop (k + 1) :: chunks).flatten =
                input ++ ((b :: bs) :: chunks).flatten := by
            rw [List.flatten_cons, List.flatten_cons, List.append_assoc,
              ← List.append_assoc ((b :: bs).take (k + 1)), hsplit]
          have hnext := ih ((b :: bs).drop (k + 1) :: chunks) hIt hct (by simp [hreads])
            (by rw [hflat]; exact hstream) (by
              have hdue' := due_le c'
              simp only [List.flatten_cons, List.length_append, List.length_cons,
                List.length_drop] at hfuel ⊢
              omega)
          rw [hflat] at hnext
          simpa only [feed, hlacking, hk, ht, Option.bind_some] using hnext

/-- The reader of a stream of frames that ends inside one publishes exactly the frames. -/
theorem Lawful.readToEnd_frames (L : R.Lawful I Done) {ms : List ChatMessage}
    (hms : ∀ m ∈ ms, chatCodec.IsFrame m.wire) {last part : List Byte}
    (hlast : chatCodec.IsFrame last) (hpart : part <+: last) (hne : part ≠ last)
    {chunks : List (List Byte)} (hcut : chunks.flatten = ms.flatMap ChatMessage.wire ++ part)
    {fuel : Nat} (hfuel : 3 * chunks.flatten.length + chunks.length + 2 < fuel) {s : σ}
    {published : List ChatMessage} {c : ReadChain} (hs : I s [] published)
    (hc : R.chain s = some c) (hreading : c.reads ≠ []) :
    ∃ u c' published', R.readToEnd fuel s chunks = some (u, []) ∧ Done u published' ∧
      R.chain u = some c' ∧ c'.reads = [] ∧ (∀ m ∈ published', m.Framed) ∧
      published'.map ChatMessage.wire = ms.map ChatMessage.wire := by
  have hframes : ∀ f ∈ ms.map ChatMessage.wire ++ [last], chatCodec.IsFrame f := by
    intro f hf
    rcases List.mem_append.1 hf with hf | hf
    · obtain ⟨m, hm, rfl⟩ := List.mem_map.1 hf
      exact hms m hm
    · rw [List.mem_singleton] at hf
      exact hf ▸ hlast
  have hstream : [] ++ chunks.flatten <+: (ms.map ChatMessage.wire ++ [last]).flatten := by
    rw [List.nil_append, hcut, List.flatten_append, ← List.flatMap_def, List.flatten_singleton]
    exact (List.prefix_append_right_inj _).2 hpart
  have hdue := due_le c
  obtain ⟨t, c', published', hfeed, hIt, hct, hne', hwait⟩ :=
    L.feed_all hframes fuel chunks hs hc hreading hstream (by omega)
  rw [List.nil_append] at hIt
  obtain ⟨c'', hc'', hinv⟩ := L.chain hIt
  rw [hct, Option.some.injEq] at hc''
  subst c''
  obtain ⟨op, hop, hgot⟩ := hinv.reads_cases hne'
  have hretire : c'.retire 0 .failure = some (op, { c' with reads := [] }) :=
    retire_some hop fun h => absurd h (by simp)
  obtain ⟨u, hu, hcu, hdone⟩ := L.fail hIt hct hretire
  refine ⟨u, _, published', by simp [readToEnd, hfeed, hu], hdone, hcu, rfl, hinv.framed, ?_⟩
  have hwhole : chatCodec.parse chunks.flatten = (ms.map ChatMessage.wire, part) := by
    apply FrameCodec.parse_eq (fun f hf => hframes f (List.mem_append_left _ hf))
      (FrameCodec.stuck_of_strict_prefix hlast hpart hne)
    rw [hcut, List.flatMap_def]
  rw [← hinv.parse_eq_of_reading hne' hwait, hwhole]

end StreamReader

end BoostLearning.Chat
