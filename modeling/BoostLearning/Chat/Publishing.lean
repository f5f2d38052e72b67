import BoostLearning.Chat.Membership

/-!
# What a room guarantees its members

A session publishes what a stateless parser makes of the bytes it receives; everyone in the room
is given one contiguous segment of the same sequence of messages, and is reading and, when there
is something to write, writing. `leave` takes a session out of the set of participants and stops
nothing: a session whose read chain has ended never publishes again, but one whose write has
failed publishes what it still reads.
-/

namespace BoostLearning.Chat

/-! ## Who publishes -/

namespace World

variable {w w' : World} {e : Event}

/-- A session without an outstanding read stays so and publishes nothing. -/
private theorem stopped_step {s : SessionId} {x : ChatSession} (hw : w.Inv)
    (hx : w.sessions s = some x)
    (hnil : x.reads.reads = []) (he : w.step e = some w') :
    ∃ y, w'.sessions s = some y ∧ y.reads.reads = [] ∧
      publishedBy s w'.trace = publishedBy s w.trace := by
  cases step_iff.1 he with
  | @accepted r' t pos storage hacc hnew =>
    have hst : s ≠ t := by
      rintro rfl
      simp [hx] at hnew
    exact ⟨x, (Function.update_of_ne hst _ _).trans hx, hnil, by simp [Obs.published?]⟩
  | refused hacc => exact ⟨x, hx, hnil, rfl⟩
  | @quiet t e z ρ hz hρ hcall =>
    by_cases hst : s = t
    · subst t
      rw [hx, Option.some.injEq] at hz
      subst z
      have hlength := (ChatSession.handle_reads_length (hw.session s x hx).reads hρ).1 hcall
      rw [hnil, List.length_nil] at hlength
      exact ⟨ρ.session, Function.update_self _ _ _, List.length_eq_zero_iff.1 hlength, by simp⟩
    · exact ⟨x, (Function.update_of_ne hst _ _).trans hx, hnil, by simp⟩
  | @left t e z ρ chain hz hρ hcall =>
    by_cases hst : s = t
    · subst t
      rw [hx, Option.some.injEq] at hz
      subst z
      obtain ⟨-, hwrite, hread⟩ := ChatSession.handle_reads_length (hw.session s x hx).reads hρ
      refine ⟨ρ.session, Function.update_self _ _ _, ?_, by simp [Obs.published?]⟩
      cases chain with
      | read => exact hread hcall
      | write => rw [hwrite hcall, hnil]
    · exact ⟨x, (Function.update_of_ne hst _ _).trans hx, hnil, by simp [Obs.published?]⟩
  | @delivered t e z ρ m hz hρ hcall =>
    by_cases hst : s = t
    · subst t
      rw [hx, Option.some.injEq] at hz
      subst z
      obtain ⟨-, -, -, -, hne, -⟩ :=
        ChatSession.handle_reads_deliver (hw.session s x hx).reads hρ hcall
      exact absurd hnil hne
    · have hpub : publishedBy s (w.trace ++ (ρ.socket.map (.socket t) ++ .deliver z.room t m ::
          (w.room z.room).participants.ids.map fun p => .push p m)) = publishedBy s w.trace := by
        simp [Obs.published?, Ne.symm hst]
      by_cases hs : s ∈ (w.room z.room).participants.ids
      · exact ⟨x.deliver m, by simp [hst, hs, hx], hnil, hpub⟩
      · exact ⟨x, by simp [hst, hs, hx], hnil, hpub⟩

theorem stopped_exec {ports : Nat} {es : List Event} {s : SessionId} {x : ChatSession}
    (hw : w.Inv) (hx : w.sessions s = some x) (hnil : x.reads.reads = [])
    (hrun : (chatServer ports).exec w es = some w') :
    publishedBy s w'.trace = publishedBy s w.trace := by
  have hall : w'.Inv ∧ ∃ y, w'.sessions s = some y ∧ y.reads.reads = [] ∧
      publishedBy s w'.trace = publishedBy s w.trace := by
    apply System.exec_induction (M := chatServer ports)
      (P := fun u => u.Inv ∧ ∃ y, u.sessions s = some y ∧ y.reads.reads = [] ∧
        publishedBy s u.trace = publishedBy s w.trace) _ ⟨hw, x, hx, hnil, rfl⟩ hrun
    rintro u e u' ⟨hu, y, hy, hynil, hpub⟩ he
    obtain ⟨z, hz, hznil, hpub'⟩ := stopped_step hu hy hynil he
    exact ⟨hu.step he, z, hz, hznil, hpub'.trans hpub⟩
  obtain ⟨-, _, -, -, hpub⟩ := hall
  exact hpub

/-- After its read chain has called `leave`, a session has no read outstanding. -/
def ReadersStopped (w : World) : Prop :=
  ∀ r s, .leave r s .read ∈ w.trace → ∃ x, w.sessions s = some x ∧ x.reads.reads = []

private theorem leave_read_cases {r : ServerId} {s : SessionId} (hw : w.Inv)
    (he : w.step e = some w') (h : .leave r s .read ∈ w'.trace) :
    .leave r s .read ∈ w.trace ∨ ∃ x, w'.sessions s = some x ∧ x.reads.reads = [] := by
  cases step_iff.1 he with
  | accepted hacc hnew => exact Or.inl (by simpa using h)
  | refused hacc => exact Or.inl h
  | quiet hx hρ hcall => exact Or.inl (by simpa using h)
  | @left t e x ρ chain hx hρ hcall =>
    rcases List.mem_append.1 h with h | h
    · exact Or.inl h
    · right
      have heq : s = t ∧ chain = .read := by
        simp only [List.mem_append, List.mem_map, List.mem_singleton, Obs.leave.injEq] at h
        rcases h with ⟨_, -, h⟩ | ⟨-, h, hc⟩
        · exact absurd h (by simp)
        · exact ⟨h, hc.symm⟩
      obtain ⟨rfl, rfl⟩ := heq
      obtain ⟨-, -, hread⟩ := ChatSession.handle_reads_length (hw.session s x hx).reads hρ
      exact ⟨ρ.session, Function.update_self _ _ _, hread hcall⟩
  | delivered hx hρ hcall => exact Or.inl (by simpa using h)

theorem ReadersStopped.step (hw : w.Inv) (h : w.ReadersStopped) (he : w.step e = some w') :
    w'.ReadersStopped := by
  intro r s hleave
  rcases leave_read_cases hw he hleave with hold | hnew
  · obtain ⟨x, hx, hnil⟩ := h r s hold
    obtain ⟨y, hy, hynil, -⟩ := stopped_step hw hx hnil he
    exact ⟨y, hy, hynil⟩
  · exact hnew

theorem readersStopped_reachable {ports : Nat} (h : (chatServer ports).Reachable w) :
    w.ReadersStopped := by
  apply System.reachable_induction (M := chatServer ports) (P := ReadersStopped) _ _ h
  · intro r s hleave
    exact absurd hleave (by simp [chatServer, init])
  · intro u e u' hu hstopped he
    exact hstopped.step (inv_reachable hu) he

/-- A step in which a session publishes is the completion of its body read. -/
private theorem delivered_of_published {s : SessionId} {m : ChatMessage} (hw : w.Inv)
    (he : w.step e = some w') (hpub : publishedBy s w'.trace = publishedBy s w.trace ++ [m]) :
    ∃ x, w.sessions s = some x ∧ x.reads.reads ≠ [] ∧ pushedOn s w'.trace = pushedOn s w.trace ++
      if s ∈ (w.room x.room).participants.ids then [m] else [] := by
  cases step_iff.1 he with
  | accepted hacc hnew => simp [Obs.published?] at hpub
  | refused hacc => simp at hpub
  | quiet hx hρ hcall => simp at hpub
  | left hx hρ hcall => simp [Obs.published?] at hpub
  | @delivered t e x ρ msg hx hρ hcall =>
    have hnodup := (w.room x.room).participants.nodup
    obtain ⟨-, -, -, -, hne, -⟩ :=
      ChatSession.handle_reads_deliver (hw.session t x hx).reads hρ hcall
    by_cases hts : t = s
    · subst t
      have hmsg : msg = m := by simpa [Obs.published?] using hpub
      subst msg
      exact ⟨x, hx, hne, by simp [Obs.pushed?, pushedOn_fanOut _ _ hnodup]⟩
    · simp [Obs.published?, hts] at hpub

end World

/-- A session publishes while it is in the room, and then to itself too, or after its own write
has failed. It never publishes again once its read chain has left the room. -/
theorem publisher_present_or_write_failed (ports : Nat) (w w' : World) (e : Event)
    (s : SessionId) (m : ChatMessage) (h : (chatServer ports).Reachable w)
    (he : w.step e = some w') (hpub : publishedBy s w'.trace = publishedBy s w.trace ++ [m]) :
    ∃ x, w.sessions s = some x ∧ (∀ r, .leave r s .read ∉ w.trace) ∧
      ((s ∈ (w.room x.room).participants.ids ∧
          pushedOn s w'.trace = pushedOn s w.trace ++ [m]) ∨
        (s ∉ (w.room x.room).participants.ids ∧ .leave x.room s .write ∈ w.trace ∧
          pushedOn s w'.trace = pushedOn s w.trace)) := by
  have hw := World.inv_reachable h
  obtain ⟨x, hx, hne, hpushed⟩ := World.delivered_of_published hw he hpub
  have hread : ∀ r, .leave r s .read ∉ w.trace := by
    intro r hleave
    obtain ⟨y, hy, hnil⟩ := World.readersStopped_reachable h r s hleave
    rw [hx, Option.some.injEq] at hy
    exact hne (hy ▸ hnil)
  refine ⟨x, hx, hread, ?_⟩
  by_cases hs : s ∈ (w.room x.room).participants.ids
  · left
    rw [if_pos hs] at hpushed
    exact ⟨hs, hpushed⟩
  · right
    rw [if_neg hs, List.append_nil] at hpushed
    rcases (hw.session s x hx).left_split with ⟨hs', -⟩ | ⟨-, chain, before, after, hsplit, -⟩
    · exact absurd hs' hs
    · have hleave : .leave x.room s chain ∈ w.trace := by simp [hsplit]
      cases chain with
      | write => exact ⟨hs, hleave, hpushed⟩
      | read => exact absurd hleave (hread _)

def emptyMessage : ChatMessage := ⟨(Buffer.fill _ 0).store 0 [32, 32, 32, 48], 0⟩

/-- The first session of a room publishes an empty message, its write of it fails, and it
publishes another one. -/
def writeFails : List Event :=
  .acceptDone 0 7 0 (.fill _ 0) :: receiveFrame 7 [32, 32, 32, 48] [] ++
    .session 7 (.writeDone 0 .failure) ::
      [.session 7 (.receive 0 [32, 32, 32, 48]), .session 7 (.readDone 0 .success)]

private theorem writeFails_publishes :
    ∃ w', ((chatServer 1).final writeFails).step (.session 7 (.readDone 0 .success)) = some w' ∧
      publishedBy 7 w'.trace =
        publishedBy 7 ((chatServer 1).final writeFails).trace ++ [emptyMessage] := by
  have hrun : (((chatServer 1).final writeFails).step (.session 7 (.readDone 0 .success))).any
      (fun w' => publishedBy 7 w'.trace =
        publishedBy 7 ((chatServer 1).final writeFails).trace ++ [emptyMessage]) = true := by
    decide +kernel
  obtain ⟨w', hw', hpub⟩ := exists_eq_some_of_any hrun
  exact ⟨w', hw', of_decide_eq_true hpub⟩

private theorem writeFails_left : ∃ x, ((chatServer 1).final writeFails).sessions 7 = some x ∧
    x.room = 0 ∧ 7 ∉ (((chatServer 1).final writeFails).room x.room).participants.ids := by
  have hout : (((chatServer 1).final writeFails).sessions 7).any (fun x => decide (x.room = 0 ∧
      7 ∉ (((chatServer 1).final writeFails).room x.room).participants.ids)) = true := by
    decide +kernel
  obtain ⟨x, hx, htest⟩ := exists_eq_some_of_any hout
  exact ⟨x, hx, of_decide_eq_true htest⟩

theorem publisher_present_or_write_failed_out :
    ∃ w w' : World, (chatServer 1).Reachable w ∧
      w.step (.session 7 (.readDone 0 .success)) = some w' ∧
      publishedBy 7 w'.trace = publishedBy 7 w.trace ++ [emptyMessage] ∧
      7 ∉ (w.room 0).participants.ids ∧ .leave 0 7 .write ∈ w.trace ∧
      (∀ r, .leave r 7 .read ∉ w.trace) ∧ pushedOn 7 w'.trace = pushedOn 7 w.trace := by
  obtain ⟨w', hw', hpub⟩ := writeFails_publishes
  obtain ⟨x, hx, hroom, hout⟩ := writeFails_left
  have hreach := (chatServer 1).reachable_final writeFails
  obtain ⟨y, hy, hread, hwhere⟩ :=
    publisher_present_or_write_failed 1 _ w' _ 7 _ hreach hw' hpub
  rw [hx, Option.some.injEq] at hy
  subst y
  rcases hwhere with ⟨hin, -⟩ | ⟨-, hleave, hpushed⟩
  · exact absurd hin hout
  · rw [hroom] at hleave hout
    exact ⟨_, w', hreach, hw', hpub, hout, hleave, hread, hpushed⟩

/-- A session that has left may still publish. -/
theorem publisher_not_always_participant :
    ¬ ∀ (ports : Nat) (w w' : World) (e : Event) (s : SessionId) (m : ChatMessage)
      (x : ChatSession), (chatServer ports).Reachable w → w.step e = some w' →
      publishedBy s w'.trace = publishedBy s w.trace ++ [m] → w.sessions s = some x →
      s ∈ (w.room x.room).participants.ids := by
  intro h
  obtain ⟨x, hx, -, hnot⟩ := writeFails_left
  obtain ⟨w', hw', hpub⟩ := writeFails_publishes
  exact hnot (h 1 _ w' _ 7 _ x ((chatServer 1).reachable_final writeFails) hw' hpub hx)

/-! ## What is published -/

private theorem ChatSession.reads_eq_singleton {x : ChatSession} {clean : Prop}
    {input : List Byte} {published : List ChatMessage} (h : x.reads.Inv clean input published)
    {op : AsyncRead} (hop : op ∈ x.reads.reads) : x.reads.reads = [op] := by
  have hlen := h.reads_length
  cases hc : x.reads.reads with
  | nil => simp [hc] at hop
  | cons op' rest =>
    simp only [hc, List.length_cons] at hlen
    obtain rfl : rest = [] := List.length_eq_zero_iff.1 (by omega)
    simpa [hc, eq_comm] using hop

private theorem ChatSession.handle_readDone_isSome {x : ChatSession} {clean : Prop}
    {input : List Byte}
    {published : List ChatMessage} (h : x.reads.Inv clean input published)
    (hw : ¬ x.reads.Waiting) : (x.handle (.readDone 0 .success)).isSome = true := by
  simp only [ReadChain.Waiting, not_forall, not_lt] at hw
  obtain ⟨op, hop, hfull⟩ := hw
  have hreads := reads_eq_singleton h hop
  have hgot : op.got = op.size := Nat.le_antisymm (h.got_le hop) hfull
  simp [handle, ReadChain.retire, hreads, hgot]

private theorem ChatSession.handle_receive_isSome {x : ChatSession} {clean : Prop}
    {input : List Byte}
    {published : List ChatMessage} (h : x.reads.Inv clean input published)
    (hne : x.reads.reads ≠ []) (hw : x.reads.Waiting) (b : Byte) :
    (x.handle (.receive 0 [b])).isSome = true := by
  obtain ⟨op, hop⟩ := List.exists_mem_of_ne_nil _ hne
  have hreads := reads_eq_singleton h hop
  have hroom : 1 ≤ op.size - op.got := by
    have := hw op hop
    omega
  simp [handle, ReadChain.receive, hreads, hroom]

/-- What a session has published are the first frames of its input, as they were received, and
it goes on reading until a read fails or a header is rejected: a full read can complete, and
any other one takes whatever byte comes next. Once its reads have to wait for bytes it has
published all of the frames, and the rest is the beginning of one, or a header that is rejected,
after which nothing more is published. -/
theorem publishes_parsed_frames (ports : Nat) (w : World) (s : SessionId) (x : ChatSession)
    (h : (chatServer ports).Reachable w) (hx : w.sessions s = some x) :
    (publishedBy s w.trace).map ChatMessage.wire <+: (chatCodec.parse (inputOf s w.trace)).1 ∧
    ∃ rest, (publishedBy s w.trace).flatMap ChatMessage.wire ++ rest = inputOf s w.trace ∧
      (x.reads.reads ≠ [] ∨ (∃ got size, .readError got size ∈ socketActs s w.trace) ∨
        chatCodec.Rejected rest) ∧
      (¬ x.reads.Waiting → (w.step (.session s (.readDone 0 .success))).isSome = true) ∧
      (x.reads.reads ≠ [] → x.reads.Waiting →
        ∀ b, (w.step (.session s (.receive 0 [b]))).isSome = true) ∧
      (x.reads.Waiting → CleanReads (socketActs s w.trace) →
        chatCodec.parse (inputOf s w.trace) =
          ((publishedBy s w.trace).map ChatMessage.wire, rest) ∧
        (rest.length < headerLength ∨
          (∃ frame, chatCodec.IsFrame frame ∧ rest <+: frame ∧ rest ≠ frame) ∨
          (chatCodec.Rejected rest ∧ ∀ es w', (chatServer ports).exec w es = some w' →
            publishedBy s w'.trace = publishedBy s w.trace))) := by
  have hw := World.inv_reachable h
  have hsession := hw.session s x hx
  have hreads := hsession.reads
  refine ⟨hreads.published_prefix, ?_⟩
  obtain ⟨rest, hsplit, hfresh⟩ := hreads.split
  refine ⟨rest, hsplit, ?_, ?_, ?_, ?_⟩
  · by_cases hnil : x.reads.reads = []
    · right
      rcases hsession.ended hnil with herror | ⟨header, hheader, hrej⟩
      · exact Or.inl herror
      · right
        rw [← hsplit, List.append_cancel_left_eq] at hheader
        exact hheader ▸ hrej
    · exact Or.inl hnil
  · intro hnot
    have hsome := ChatSession.handle_readDone_isSome hreads hnot
    simpa [World.step, hx] using hsome
  · intro hne hwait b
    have hsome := ChatSession.handle_receive_isSome hreads hne hwait b
    simpa [World.step, hx] using hsome
  · intro hwait hclean
    have hstuck := hfresh.stuck hclean hwait
    refine ⟨hreads.parse_eq_of_stuck hstuck hsplit, ?_⟩
    by_cases hshort : rest.length < headerLength
    · exact Or.inl hshort
    · right
      rcases hstuck with hinc | hrej
      · left
        exact FrameCodec.exists_frame_of_incomplete hinc (Nat.not_lt.1 hshort)
      · right
        refine ⟨hrej, ?_⟩
        intro es w' hrun
        exact World.stopped_exec hw hx (hfresh.stopped_of_rejected hwait hrej) hrun

/-- A session sends a frame with one byte and half of the header of another one. -/
def halfHeader : List Event :=
  .acceptDone 0 7 0 (.fill _ 0) :: receiveFrame 7 [32, 32, 32, 49] [104] ++
    [.session 7 (.receive 0 [32, 32])]

theorem publishes_parsed_frames_halfHeader :
    ∃ w x, (chatServer 1).exec (World.init 1) halfHeader = some w ∧ w.sessions 7 = some x ∧
      x.reads.reads = [⟨.header, 0, headerLength, 2⟩] ∧ x.reads.Waiting ∧
      CleanReads (socketActs 7 w.trace) ∧
      (publishedBy 7 w.trace).map ChatMessage.wire = [[32, 32, 32, 49, 104]] ∧
      chatCodec.parse (inputOf 7 w.trace) = ([[32, 32, 32, 49, 104]], [32, 32]) ∧
      (w.step (.session 7 (.receive 0 [32]))).isSome = true := by
  have hend : ((chatServer 1).exec (World.init 1) halfHeader).any (fun w =>
      (w.sessions 7).any fun x => decide (x.reads.reads = [⟨.header, 0, headerLength, 2⟩] ∧
        socketActs 7 w.trace = [.received [32, 32, 32, 49], .received [104], .received [32, 32]] ∧
        (publishedBy 7 w.trace).map ChatMessage.wire = [[32, 32, 32, 49, 104]])) = true := by
    decide +kernel
  obtain ⟨w, hrun, hany⟩ := exists_eq_some_of_any hend
  obtain ⟨x, hx, htest⟩ := exists_eq_some_of_any hany
  obtain ⟨hreads, hacts, hpublished⟩ := of_decide_eq_true htest
  have hwait : x.reads.Waiting := by
    simp [ReadChain.Waiting, hreads, headerLength]
  have hclean : CleanReads (socketActs 7 w.trace) := by
    simp [CleanReads, hacts]
  obtain ⟨-, rest, hsplit, -, -, hnext, hwhole⟩ :=
    publishes_parsed_frames 1 w 7 x ⟨halfHeader, hrun⟩ hx
  rw [List.flatMap_def, hpublished] at hsplit
  have hrest : rest = [32, 32] := by
    simpa [inputOf, hacts, SocketAct.input] using hsplit
  have hparse := (hwhole hwait hclean).1
  rw [hpublished, hrest] at hparse
  exact ⟨w, x, hrun, hx, hreads, hwait, hclean, hpublished, hparse,
    hnext (by simp [hreads]) hwait 32⟩

/-! ## Total order -/

/-- The pushes on a session are the messages of its room from `maxRecentMsgs` before its start
up to its first leave. Those that it has popped are on its socket, the others are in its queue,
and the socket carries a prefix of all of them. -/
theorem pushed_eq_segment (ports : Nat) (w : World) (s : SessionId) (x : ChatSession)
    (h : (chatServer ports).Reachable w) (hx : w.sessions s = some x) :
    ∃ before after, w.trace = before ++ .join x.room s :: after ∧
      roomsOf s before = [] ∧ roomsOf s after = [] ∧
      ((s ∈ (w.room x.room).participants.ids ∧
          pushedOn s w.trace = (deliveredIn x.room w.trace).drop
            ((deliveredIn x.room before).length - maxRecentMsgs)) ∨
        (s ∉ (w.room x.room).participants.ids ∧ ∃ chain stayed rest,
          w.trace = stayed ++ .leave x.room s chain :: rest ∧
          (∀ chain, .leave x.room s chain ∉ stayed) ∧
          pushedOn s w.trace =
            ((deliveredIn x.room w.trace).take (deliveredIn x.room stayed).length).drop
              ((deliveredIn x.room before).length - maxRecentMsgs))) ∧
      x.writes.popped ≤ (pushedOn s w.trace).length ∧
      x.writes.msgs = (pushedOn s w.trace).drop x.writes.popped ∧
      ((pushedOn s w.trace).take x.writes.popped).flatMap ChatMessage.wire <+:
        wroteBy s w.trace ∧
      wroteBy s w.trace <+: (pushedOn s w.trace).flatMap ChatMessage.wire := by
  have hsession := (World.inv_reachable h).session s x hx
  have hwrites := hsession.writes
  obtain ⟨before, after, hsplit, hbefore, hafter, hjoined⟩ := hsession.started_split
  refine ⟨before, after, hsplit, hbefore, hafter, ?_, hwrites.popped_le, hwrites.queue,
    hwrites.popped_prefix, hwrites.wire_prefix⟩
  rcases hsession.left_split with
    ⟨hs, -, hleft⟩ | ⟨hs, chain, stayed, rest, hrest, hfirst, hleft⟩
  · left
    refine ⟨hs, ?_⟩
    rw [hsession.pushed, Broadcast.segment, hjoined, hleft]
    simp [roomLog_log]
  · right
    refine ⟨hs, chain, stayed, rest, hrest, hfirst, ?_⟩
    rw [hsession.pushed, Broadcast.segment, hjoined, hleft]
    simp [roomLog_log]

/-- Session 8 joins behind a first message of session 7, its write of it fails behind a second
one, and session 7 sends a third one. -/
def leavesBetween : List Event :=
  .acceptDone 0 7 0 (.fill _ 0) :: receiveFrame 7 [32, 32, 32, 49] [97] ++
    .acceptDone 0 8 0 (.fill _ 0) :: receiveFrame 7 [32, 32, 32, 49] [98] ++
      [.session 8 (.transmit 0 2), .session 8 (.writeDone 0 .failure)] ++
        receiveFrame 7 [32, 32, 32, 49] [99]

theorem pushed_eq_segment_leavesBetween :
    ∃ w x, (chatServer 1).exec (World.init 1) leavesBetween = some w ∧ w.sessions 8 = some x ∧
      8 ∉ (w.room x.room).participants.ids ∧
      (deliveredIn 0 w.trace).map ChatMessage.body = [[97], [98], [99]] ∧
      (pushedOn 8 w.trace).map ChatMessage.body = [[97], [98]] ∧
      x.writes.msgs = pushedOn 8 w.trace ∧
      wroteBy 8 w.trace = [32, 32] ∧
      wroteBy 8 w.trace <+: (pushedOn 8 w.trace).flatMap ChatMessage.wire := by
  have hend : ((chatServer 1).exec (World.init 1) leavesBetween).any (fun w =>
      (w.sessions 8).any fun x => decide (8 ∉ (w.room x.room).participants.ids ∧
        (deliveredIn 0 w.trace).map ChatMessage.body = [[97], [98], [99]] ∧
        (pushedOn 8 w.trace).map ChatMessage.body = [[97], [98]] ∧
        x.writes.popped = 0 ∧ wroteBy 8 w.trace = [32, 32])) = true := by
    decide +kernel
  obtain ⟨w, hrun, hany⟩ := exists_eq_some_of_any hend
  obtain ⟨x, hx, htest⟩ := exists_eq_some_of_any hany
  obtain ⟨hout, hdelivered, hpushed, hpopped, hwrote⟩ := of_decide_eq_true htest
  obtain ⟨_, _, -, -, -, -, -, hqueue, -, hwire⟩ :=
    pushed_eq_segment 1 w 8 x ⟨leavesBetween, hrun⟩ hx
  rw [hpopped, List.drop_zero] at hqueue
  exact ⟨w, x, hrun, hx, hout, hdelivered, hpushed, hqueue, hwrote, hwire⟩

/-! ## No lost wake-up -/

/-- Participants always read, and write as soon as there is something to write; no session has
two writes outstanding, and the one it has is of the unchanged front of its queue; on a session
that has left nothing is pushed again. -/
theorem no_lost_wakeup (ports : Nat) (w : World) (h : (chatServer ports).Reachable w) :
    (∀ r, ∀ s ∈ (w.room r).participants.ids, ∃ x, w.sessions s = some x ∧ x.room = r ∧
      x.reads.reads.length = 1 ∧ (x.writes.writes ≠ [] ↔ x.writes.msgs ≠ [])) ∧
    (∀ s x, w.sessions s = some x → x.writes.writes.length ≤ 1 ∧
      ∀ op ∈ x.writes.writes, ∃ m, x.writes.WritesFront wireFormat op m) ∧
    (∀ s x chain, w.sessions s = some x → .leave x.room s chain ∈ w.trace →
      s ∉ (w.room x.room).participants.ids ∧
      ∀ es w', (chatServer ports).exec w es = some w' →
        pushedOn s w'.trace = pushedOn s w.trace ∧ s ∉ (w'.room x.room).participants.ids ∧
        ∃ x', w'.sessions s = some x' ∧ x'.writes.msgs <:+ x.writes.msgs) := by
  have hw := World.inv_reachable h
  refine ⟨?_, ?_, ?_⟩
  · intro r s hs
    obtain ⟨x, hx, hr⟩ := hw.member r s hs
    have hsession := hw.session s x hx
    subst r
    exact ⟨x, hx, rfl, hsession.reading hs, hsession.live hs⟩
  · intro s x hx
    have hwrites := (hw.session s x hx).writes
    exact ⟨hwrites.writes_length, fun op hop => hwrites.writesFront hop⟩
  · intro s x chain hx hleave
    have hgone : s ∉ (w.room x.room).participants.ids := by
      rcases (hw.session s x hx).left_split with ⟨-, hnever, -⟩ | ⟨hs, -⟩
      · exact absurd hleave (hnever chain)
      · exact hs
    refine ⟨hgone, ?_⟩
    intro es w' hrun
    have hdep : w.Departed s x.room (pushedOn s w.trace) x.writes.msgs :=
      ⟨⟨x, hx, rfl, List.suffix_rfl⟩, hgone, rfl⟩
    obtain ⟨⟨x', hx', -, hsuffix⟩, hgone', hpushed⟩ := hdep.exec hw hrun
    exact ⟨hpushed, hgone', x', hx', hsuffix⟩

theorem no_lost_wakeup_leavesBetween :
    ∃ w, (chatServer 1).exec (World.init 1) leavesBetween = some w ∧
      (∃ x, w.sessions 7 = some x ∧ x.reads.reads.length = 1 ∧ x.writes.writes ≠ [] ∧
        x.writes.msgs.map ChatMessage.body = [[97], [98], [99]]) ∧
      ∃ w', (chatServer 1).exec w (receiveFrame 7 [32, 32, 32, 49] [100]) = some w' ∧
        (deliveredIn 0 w'.trace).length = 4 ∧ pushedOn 8 w'.trace = pushedOn 8 w.trace ∧
        8 ∉ (w'.room 0).participants.ids := by
  have hend : ((chatServer 1).exec (World.init 1) leavesBetween).any (fun w =>
      decide (7 ∈ (w.room 0).participants.ids ∧ .leave 0 8 .write ∈ w.trace) &&
      ((w.sessions 7).any fun x =>
        x.writes.msgs.map ChatMessage.body = [[97], [98], [99]]) &&
      ((w.sessions 8).any fun x => x.room = 0) &&
      ((chatServer 1).exec w (receiveFrame 7 [32, 32, 32, 49] [100])).any fun w' =>
        (deliveredIn 0 w'.trace).length = 4) = true := by
    decide +kernel
  obtain ⟨w, hrun, htest⟩ := exists_eq_some_of_any hend
  simp only [Bool.and_eq_true, decide_eq_true_eq] at htest
  obtain ⟨⟨⟨⟨hin, hleave⟩, h7⟩, h8⟩, hmore⟩ := htest
  obtain ⟨x, hx, hmsgs⟩ := exists_eq_some_of_any h7
  obtain ⟨y, hy, hroom⟩ := exists_eq_some_of_any h8
  obtain ⟨w', hrun', hlen⟩ := exists_eq_some_of_any hmore
  rw [decide_eq_true_eq] at hmsgs hroom hlen
  obtain ⟨hmember, -, hleft⟩ := no_lost_wakeup 1 w ⟨leavesBetween, hrun⟩
  obtain ⟨x', hx', -, hreads, hwrites⟩ := hmember 0 7 hin
  rw [hx, Option.some.injEq] at hx'
  subst x'
  have hqueued : x.writes.msgs ≠ [] := by
    intro hnil
    simp [hnil] at hmsgs
  obtain ⟨-, hlater⟩ := hleft 8 y .write hy (hroom ▸ hleave)
  obtain ⟨hpushed, hout, -⟩ := hlater _ w' hrun'
  exact ⟨w, hrun, ⟨x, hx, hreads, hwrites.2 hqueued, hmsgs⟩, w', hrun', hlen, hpushed,
    hroom ▸ hout⟩

end BoostLearning.Chat
