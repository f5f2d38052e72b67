import BoostLearning.Chat.Settling

/-!
# Deliveries come to an end

Every byte that moves, every lambda that runs and every operation that completes without an error
brings a client or its session one step further, and there are only so many steps for the lines
that were typed: a message that one client sends is pushed on all the sessions of its room, but on
each of them once. So the room comes to rest after boundedly many steps, whatever their order.
-/

namespace BoostLearning.Chat

def SessionEvent.delivers : SessionEvent → Bool
  | .receive _ bytes => !bytes.isEmpty
  | .readDone _ ec => ec = .success
  | .transmit _ n => 0 < n
  | .writeDone _ ec => ec = .success

/-- A lambda runs, a byte moves, or an operation completes without an error. -/
def ClientEvent.delivers : ClientEvent → Bool
  | .runPosted => true
  | .receive _ bytes => !bytes.isEmpty
  | .readDone _ ec => ec = .success
  | .transmit _ n => 0 < n
  | .writeDone _ ec => ec = .success
  | _ => false

def NetEvent.delivers : NetEvent → Bool
  | .client _ e => e.delivers
  | .server (.session _ e) => e.delivers
  | _ => false

theorem ChatMessage.length_le_data {m : ChatMessage} (h : m.bodyLength.toNat ≤ maxBodyLength) :
    wireFormat.length m ≤ (wireFormat.data m).length := by
  change m.length.toNat ≤ m.data.elems.length
  rw [length_toNat h, m.data.size_eq]
  omega

/-! ## How far a read loop has come -/

namespace ReadChain

def inBody (c : ReadChain) : Nat := c.reads.countP fun op => op.stage = .body

/-- The bytes that were received, and the handlers that have run: two for each message. -/
def progress (c : ReadChain) (input : List Byte) (published : Nat) : Nat :=
  input.length + 2 * published + c.inBody

variable {clean : Prop} {c c' : ReadChain} {input : List Byte} {published : List ChatMessage}
  {i : Nat} {op : AsyncRead}

theorem Inv.inBody_le (h : c.Inv clean input published) : c.inBody ≤ 1 :=
  Nat.le_trans List.countP_le_length h.reads_length

private theorem Inv.inBody_receive (h : c.Inv clean input published) {bytes : List Byte}
    (hr : c.receive i bytes = some c') : c'.inBody = c.inBody := by
  obtain ⟨op, hop, -, rfl⟩ := receive_cases h.reads_length hr
  simp [inBody, hop, List.countP_cons]

private theorem Inv.inBody_header (h : c.Inv clean input published)
    (hr : c.retire i .success = some (op, c')) (hstage : op.stage = .header) :
    c.inBody = 0 ∧ (c'.headerAccepted .success).2.doReadBody.inBody = 1 := by
  obtain ⟨hop, rfl, -⟩ := retire_cases h.reads_length hr
  simp [inBody, hop, hstage, headerAccepted, doReadBody]

private theorem Inv.inBody_body (h : c.Inv clean input published)
    (hr : c.retire i .success = some (op, c')) (hstage : op.stage = .body) :
    c.inBody = 1 ∧ c'.doReadHeader.inBody = 0 := by
  obtain ⟨hop, rfl, -⟩ := retire_cases h.reads_length hr
  simp [inBody, hop, hstage, doReadHeader]

theorem Inv.exists_next (h : c.Inv clean input published) {op : AsyncRead} (hop : op ∈ c.reads) :
    (op.got < op.size ∧ ∀ b, ∃ c', c.receive 0 [b] = some c') ∨
      ∃ r, c.retire 0 .success = some r := by
  obtain ⟨i, hi⟩ := List.getElem?_of_mem hop
  obtain ⟨-, hreads⟩ := eq_singleton_of_getElem? h.reads_length hi
  have hgot := h.got_le hop
  by_cases hfull : op.got = op.size
  · right
    simp [ReadChain.retire, hreads, hfull]
  · left
    refine ⟨by omega, fun b => ?_⟩
    simp [ReadChain.receive, hreads]
    omega

end ReadChain

/-! ## A delivery at a client -/

/-- The lambdas that have run, and how far the two chains have come. -/
def ChatClient.progress (c : ChatClient) (tr : List ClientObs) : Nat :=
  (pushedOf tr).length + c.writes.progress (sentOf tr) +
    c.reads.progress (receivedOf tr) (printedOf tr).length

namespace ClientHandled

variable {c c' : ChatClient} {e : ClientEvent} {tr obs : List ClientObs}

/-- A delivery brings the client further. -/
theorem progress_lt (hh : ClientHandled c e c' obs) (hdel : e.delivers = true)
    (hclose : .close ∉ c.posted) (hrej : .decoded false ∉ obs) {clean : Prop}
    {published : List ChatMessage} (hreads : c.reads.Inv clean (receivedOf tr) published)
    (hwrites : c.writes.Inv wireFormat (pushedOf tr) (sentOf tr))
    (hdata : ∀ m ∈ pushedOf tr, wireFormat.length m ≤ (wireFormat.data m).length) :
    c.progress tr < c'.progress (tr ++ obs) := by
  cases hh with
  | pushed hp => simp [ChatClient.progress, WriteQueue.progress]
  | closed hp => exact absurd (by simp [hp]) hclose
  | @receive i bytes r hopen hr =>
    have hpos : 0 < bytes.length := by
      simpa [ClientEvent.delivers, List.length_pos_iff] using hdel
    have hbody := hreads.inBody_receive hr
    simp [ChatClient.progress, ReadChain.progress, SocketAct.input, SocketAct.output, hbody, hpos]
  | headerAccepted hr hs hacc =>
    obtain ⟨hzero, hone⟩ := hreads.inBody_header hr hs
    simp [ChatClient.progress, ReadChain.progress, hzero, hone]
  | headerRejected hr hs hrejected => exact absurd (by simp) hrej
  | body hr hs =>
    obtain ⟨hone, hzero⟩ := hreads.inBody_body hr hs
    simp [ChatClient.progress, ReadChain.progress, hzero, hone]
    omega
  | @transmit i k q bytes hopen hq =>
    obtain ⟨hlen, hpopped⟩ := hwrites.transmit_length hq hdata
    have hpos : 0 < bytes.length := by
      rw [hlen]
      simpa [ClientEvent.delivers] using hdel
    simp [ChatClient.progress, WriteQueue.progress, SocketAct.input, SocketAct.output, hpopped,
      hpos]
  | @written i q hq =>
    have hwritten := hwrites.progress_written hq
    simp [ChatClient.progress, hwritten]
  | _ => exact absurd hdel (by simp [ClientEvent.delivers])

/-- A delivery leaves the client reading, on an open socket. -/
theorem goesOn (hh : ClientHandled c e c' obs) (hdel : e.delivers = true)
    (hclose : .close ∉ c.posted) (hrej : .decoded false ∉ obs) (hopen : c.closed = false)
    (hreading : c.reads.reads ≠ []) {clean : Prop} {published : List ChatMessage}
    (hreads : c.reads.Inv clean (receivedOf tr) published) :
    c'.closed = false ∧ .close ∉ c'.posted ∧ c'.reads.reads ≠ [] := by
  cases hh with
  | pushed hp =>
    refine ⟨hopen, ?_, hreading⟩
    intro hmem
    exact hclose (by simp [hp, hmem])
  | closed hp => exact absurd (by simp [hp]) hclose
  | receive hsocket hr =>
    refine ⟨hopen, hclose, ?_⟩
    have hlen := (hreads.receive hr).2
    intro hnil
    rw [hnil] at hlen
    exact hreading (List.length_eq_zero_iff.1 hlen.symm)
  | headerAccepted hr hs hacc => exact ⟨hopen, hclose, by simp [ReadChain.doReadBody]⟩
  | headerRejected hr hs hrejected => exact absurd (by simp) hrej
  | body hr hs => exact ⟨hopen, hclose, by simp [ReadChain.doReadHeader]⟩
  | transmit hsocket hq => exact ⟨hopen, hclose, hreading⟩
  | written hq => exact ⟨hopen, hclose, hreading⟩
  | _ => exact absurd hdel (by simp [ClientEvent.delivers])

end ClientHandled

/-! ## A delivery at a session -/

def ChatSession.progress (x : ChatSession) (c : SessionId) (tr : List Obs) : Nat :=
  x.writes.progress (wroteBy c tr) + x.reads.progress (inputOf c tr) (publishedBy c tr).length

private theorem ChatSession.progress_elsewhere (x : ChatSession) {c : SessionId} {tr obs : List Obs}
    (hacts : socketActs c obs = []) (hpublished : publishedBy c obs = []) :
    x.progress c (tr ++ obs) = x.progress c tr := by
  simp [progress, wroteBy, inputOf, hacts, hpublished]

private theorem ChatSession.progress_socket (x : ChatSession) (c : SessionId) (tr : List Obs)
    (acts : List SocketAct) : x.progress c (tr ++ acts.map (.socket c)) =
      x.progress c tr + (acts.flatMap SocketAct.output).length +
        (acts.flatMap SocketAct.input).length := by
  simp only [progress, WriteQueue.progress, ReadChain.progress, wroteBy, inputOf,
    socketActs_append, socketActs_socket, if_pos, publishedBy_append, publishedBy_socket,
    List.append_nil, List.flatMap_append, List.length_append]
  omega

private theorem ChatSession.progress_deliver (x : ChatSession) (m : ChatMessage) (c : SessionId)
    (tr : List Obs) : (x.deliver m).progress c tr = x.progress c tr := by
  simp [progress, WriteQueue.progress]

namespace World

variable {w w' : World} {c : SessionId} {e : SessionEvent} {x : ChatSession}

/-- A delivery at a session whose input are frames: the session gets further, and nothing else
does; no one leaves. -/
structure Delivered (w w' : World) (c : SessionId) (x : ChatSession) : Prop where
  self : ∃ x', w'.sessions c = some x' ∧ x'.room = x.room ∧
    x.progress c w.trace < x'.progress c w'.trace
  others : ∀ d y, d ≠ c → w.sessions d = some y → ∃ y', w'.sessions d = some y' ∧
    y'.room = y.room ∧ y'.progress d w'.trace = y.progress d w.trace
  members : ∀ r, (w'.room r).participants = (w.room r).participants

private theorem progress_quiet {ρ : Reaction} (h : SessionInv w.trace (w.room x.room) c x)
    (hframed : ∀ m ∈ pushedOn c w.trace, m.Framed) (hρ : x.handle e = some ρ)
    (hcall : ρ.call = .none) (hdel : e.delivers = true) :
    x.progress c w.trace <
      ρ.session.progress c (w.trace ++ ρ.socket.map (.socket c)) := by
  cases ChatSession.handle_cases hρ with
  | @receive i bytes r hr =>
    have hpos : 0 < bytes.length := by
      simpa [SessionEvent.delivers, List.length_pos_iff] using hdel
    have hbody := h.reads.inBody_receive hr
    rw [ChatSession.progress_socket]
    simp [ChatSession.progress, ReadChain.progress, SocketAct.input, SocketAct.output, hbody, hpos]
  | headerAccepted hr hs hacc =>
    obtain ⟨hzero, hone⟩ := h.reads.inBody_header hr hs
    simp [ChatSession.progress, ReadChain.progress, hzero, hone]
  | @transmit i k q bytes hq =>
    have hdata : ∀ m ∈ pushedOn c w.trace, wireFormat.length m ≤ (wireFormat.data m).length :=
      fun m hm => ChatMessage.length_le_data (hframed m hm).bodyLength_le
    obtain ⟨hlen, hpopped⟩ := h.writes.transmit_length hq hdata
    have hpos : 0 < bytes.length := by
      rw [hlen]
      simpa [SessionEvent.delivers] using hdel
    rw [ChatSession.progress_socket]
    simp [ChatSession.progress, WriteQueue.progress, SocketAct.input, SocketAct.output, hpopped,
      hpos]
  | @written i q hq =>
    have hwritten := h.writes.progress_written hq
    simp [ChatSession.progress, hwritten]
  | _ => exact absurd hcall (by simp)

private theorem progress_delivered {ρ : Reaction} {m : ChatMessage} {obs : List Obs} {member : Prop}
    [Decidable member] (h : SessionInv w.trace (w.room x.room) c x) (hρ : x.handle e = some ρ)
    (hcall : ρ.call = .deliver m) (hacts : socketActs c obs = [])
    (hpublished : publishedBy c obs = [m]) :
    x.progress c w.trace <
      (if member then ρ.session.deliver m else ρ.session).doReadHeader.progress c
        (w.trace ++ obs) := by
  cases ChatSession.handle_cases hρ with
  | @body i op r hr hs =>
    obtain ⟨hone, hzero⟩ := h.reads.inBody_body hr hs
    have hsame : ∀ y : ChatSession, y.reads = r → y.writes.popped = x.writes.popped →
        x.progress c w.trace < y.doReadHeader.progress c (w.trace ++ obs) := by
      intro y hreads hpopped
      simp [ChatSession.progress, ReadChain.progress, WriteQueue.progress, wroteBy, inputOf, hacts,
        hpublished, hreads, hone, hzero, hpopped]
      omega
    split
    · apply hsame
      · rfl
      · simp
    · exact hsame _ rfl rfl
  | _ => exact absurd hcall (by simp)

/-- On an input of frames no header is rejected, so that a delivery never leaves the room. -/
private theorem not_left {ρ : Reaction} {chain : Chain} {frames : List (List Byte)}
    (h : SessionInv w.trace (w.room x.room) c x) (hρ : x.handle e = some ρ)
    (hdel : e.delivers = true) (hframes : ∀ f ∈ frames, chatCodec.IsFrame f)
    (hinput : inputOf c w.trace <+: frames.flatten) : ρ.call ≠ .leave chain := by
  intro hcall
  cases ChatSession.handle_cases hρ with
  | @headerRejected i op r hr hs hrej =>
    obtain ⟨hop, -, -⟩ := ReadChain.retire_cases h.reads.reads_length hr
    obtain rfl : i = 0 := by
      cases i with
      | zero => rfl
      | succ i => simp [ReadChain.retire, hop] at hr
    have hacc := h.reads.header_not_rejected hr hs hframes hinput
    exact absurd (hacc.symm.trans hrej) (by simp)
  | readFailed hr => exact absurd hdel (by simp [SessionEvent.delivers])
  | writeFailed hq => exact absurd hdel (by simp [SessionEvent.delivers])
  | _ => exact absurd hcall (by simp)

theorem Inv.deliveredAt (h : w.Inv) (he : w.step (.session c e) = some w')
    (hx : w.sessions c = some x) (hdel : e.delivers = true) {frames : List (List Byte)}
    (hframes : ∀ f ∈ frames, chatCodec.IsFrame f)
    (hinput : inputOf c w.trace <+: frames.flatten) : Delivered w w' c x := by
  have hsession := h.session c x hx
  generalize hev : Event.session c e = ev at he
  cases step_iff.1 he with
  | accepted => exact absurd hev (by simp)
  | refused => exact absurd hev (by simp)
  | @quiet s e' y ρ hy hρ hcall =>
    rw [Event.session.injEq] at hev
    obtain ⟨rfl, rfl⟩ := hev
    rw [hx, Option.some.injEq] at hy
    subst y
    constructor
    · refine ⟨ρ.session, Function.update_self _ _ _, ChatSession.handle_room hρ, ?_⟩
      exact progress_quiet hsession (h.pushed_framed hx) hρ hcall hdel
    · intro d y hdc hd
      refine ⟨y, (Function.update_of_ne hdc _ _).trans hd, rfl, ?_⟩
      apply y.progress_elsewhere
      · simp [Ne.symm hdc]
      · simp
    · exact fun r => rfl
  | @left s e' y ρ chain hy hρ hcall =>
    rw [Event.session.injEq] at hev
    obtain ⟨rfl, rfl⟩ := hev
    rw [hx, Option.some.injEq] at hy
    subst y
    exact absurd hcall (not_left hsession hρ hdel hframes hinput)
  | @delivered s e' y ρ m hy hρ hcall =>
    rw [Event.session.injEq] at hev
    obtain ⟨rfl, rfl⟩ := hev
    rw [hx, Option.some.injEq] at hy
    subst y
    have hsocket := (ChatSession.handle_reads_deliver hsession.reads hρ hcall).1
    constructor
    · refine ⟨_, if_pos rfl, ?_, ?_⟩
      · rw [ChatSession.doReadHeader_room, ← ChatSession.handle_room hρ]
        split <;> rfl
      · apply progress_delivered hsession hρ hcall
        · simp [hsocket, Obs.socketAct?]
        · simp [Obs.published?]
    · intro d y hdc hd
      have hacts : socketActs d (ρ.socket.map (.socket c) ++ .deliver x.room c m ::
          (w.room x.room).participants.ids.map fun p => .push p m) = [] := by
        simp [hsocket, Obs.socketAct?]
      have hpublished : publishedBy d (ρ.socket.map (.socket c) ++ .deliver x.room c m ::
          (w.room x.room).participants.ids.map fun p => .push p m) = [] := by
        simp [Obs.published?, Ne.symm hdc]
      simp only [if_neg hdc, hd, Option.map_some]
      split
      · refine ⟨y.deliver m, rfl, rfl, ?_⟩
        rw [ChatSession.progress_deliver, y.progress_elsewhere hacts hpublished]
      · exact ⟨y, rfl, rfl, y.progress_elsewhere hacts hpublished⟩
    · intro r
      rw [room_mk, update_room]
      split
      · rename_i hr
        rw [hr]
      · rfl

end World

end BoostLearning.Chat
