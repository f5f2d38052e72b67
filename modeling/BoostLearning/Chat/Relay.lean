import BoostLearning.Chat.ClientInvariant
import BoostLearning.Chat.ServerInvariant

/-!
# From sender to receiver

The server forwards the header bytes as it received them. Whatever spelling of a length they
are, the message records the length they decode to, so the receiver finds the same frames in the
bytes of its socket that the server has put there.
-/

namespace BoostLearning.Chat

namespace World

variable {w w' : World} {e : Event} {ports : Nat}

def Home (w : World) : Prop :=
  ∀ r s m, .deliver r s m ∈ w.trace → ∃ x, w.sessions s = some x ∧ x.room = r

theorem Home.step (h : w.Home) (he : w.step e = some w') : w'.Home := by
  have hold : ∀ r s m, .deliver r s m ∈ w.trace → ∃ x, w'.sessions s = some x ∧ x.room = r := by
    intro r s m hmem
    obtain ⟨x, hx, hr⟩ := h r s m hmem
    obtain ⟨⟨y, hy, hroom⟩, -⟩ := step_session he hx
    exact ⟨y, hy, hroom.trans hr⟩
  intro r s m hmem
  cases step_iff.1 he with
  | accepted hacc hnew =>
    apply hold r s m
    simpa using hmem
  | refused hacc => exact hold r s m hmem
  | quiet hx hρ hcall =>
    apply hold r s m
    simpa using hmem
  | left hx hρ hcall =>
    apply hold r s m
    simpa using hmem
  | @delivered t e x ρ msg hx hρ hcall =>
    rcases List.mem_append.1 hmem with hmem | hmem
    · exact hold r s m hmem
    · have hnew : r = x.room ∧ s = t ∧ m = msg := by simpa using hmem
      obtain ⟨rfl, rfl, rfl⟩ := hnew
      obtain ⟨⟨y, hy, hroom⟩, -⟩ := step_session he hx
      exact ⟨y, hy, hroom⟩

theorem home_reachable (h : (chatServer ports).Reachable w) : w.Home := by
  apply System.reachable_induction (M := chatServer ports) (P := Home) _ _ h
  · intro r s m hmem
    exact absurd hmem (by simp [chatServer, init])
  · intro u e u' _ hu he
    exact hu.step he

/-- The messages of a room by one sender are those the sender has published. -/
theorem sentBy_eq {s : SessionId} {x : ChatSession} (h : w.Home) (hx : w.sessions s = some x)
    (r : ServerId) : sentBy r s w.trace = if x.room = r then publishedBy s w.trace else [] := by
  have hhome : ∀ r' m, .deliver r' s m ∈ w.trace → r' = x.room := by
    intro r' m hmem
    obtain ⟨y, hy, hr⟩ := h r' s m hmem
    rw [hx, Option.some.injEq] at hy
    rw [hy, hr]
  by_cases hr : x.room = r
  · rw [if_pos hr]
    apply List.filterMap_congr
    intro o ho
    cases o with
    | deliver r' s' m =>
      by_cases hs : s' = s
      · subst s'
        simp [Obs.published?, hhome r' m ho, hr]
      · simp [Obs.published?, hs]
    | _ => rfl
  · rw [if_neg hr]
    apply List.filterMap_eq_nil_iff.2
    intro o ho
    cases o with
    | deliver r' s' m =>
      by_cases hs : s' = s
      · subst s'
        simp [hhome r' m ho, hr]
      · simp [hs]
    | _ => rfl

private theorem Inv.framed (h : w.Inv) {r : ServerId} {m : ChatMessage}
    (hm : m ∈ deliveredIn r w.trace) : m.Framed := by
  obtain ⟨o, ho, hdel⟩ := List.mem_filterMap.1 hm
  cases o with
  | deliver r' s msg =>
    have hmsg : msg = m := by
      simp only [Obs.delivered?] at hdel
      split at hdel
      · simpa using hdel
      · exact absurd hdel (by simp)
    have hpub : m ∈ publishedBy s w.trace := by
      rw [← hmsg]
      exact List.mem_filterMap.2 ⟨_, ho, by simp [Obs.published?]⟩
    cases hx : w.sessions s with
    | none =>
      rw [(h.unstarted s hx).published] at hpub
      exact absurd hpub (by simp)
    | some x => exact (h.session s x hx).reads.framed m hpub
  | _ => exact absurd hdel (by simp [Obs.delivered?])

theorem Inv.pushed_framed (h : w.Inv) {t : SessionId} {y : ChatSession}
    (hy : w.sessions t = some y) : ∀ m ∈ pushedOn t w.trace, m.Framed := by
  intro m hm
  apply h.framed (r := y.room)
  rw [← roomLog_log]
  rw [(h.session t y hy).pushed, Broadcast.segment] at hm
  split at hm
  · exact absurd hm (by simp)
  · exact List.mem_of_mem_take (List.mem_of_mem_drop hm)

end World

private theorem ChatMessage.Framed.shown_eq {m : ChatMessage} (h : m.Framed) :
    m.shown = m.wire.drop headerLength ++ [10] := by
  rw [ChatMessage.shown, h.body_eq]

theorem map_shown {ms : List ChatMessage} (h : ∀ m ∈ ms, m.Framed) :
    ms.map ChatMessage.shown =
      (ms.map ChatMessage.wire).map fun f => f.drop headerLength ++ [10] := by
  rw [List.map_map]
  apply List.map_congr_left
  intro m hm
  exact (h m hm).shown_eq

/-- A client that is fed what the server has written to a session never meets a header that is
rejected, and prints the messages that were pushed on that session, one after another. -/
theorem ClientRun.Inv.prints_frames {c : ClientRun} (h : c.Inv) {ms : List ChatMessage}
    (hms : ∀ m ∈ ms, m.Framed) (hfeed : receivedOf c.trace <+: ms.flatMap ChatMessage.wire) :
    .decoded false ∉ c.trace ∧
      ∃ seen, seen <+: ms ∧ printedOf c.trace = seen.map ChatMessage.shown ∧
        (c.client.reads.Waiting → CleanReads (actsOf c.trace) →
          (chatCodec.parse (receivedOf c.trace)).1 = seen.map ChatMessage.wire) := by
  have hframes : ∀ f ∈ ms.map ChatMessage.wire, chatCodec.IsFrame f := by
    intro f hf
    obtain ⟨m, hm, rfl⟩ := List.mem_map.1 hf
    exact (hms m hm).isFrame
  rw [List.flatMap_def] at hfeed
  constructor
  · intro hmem
    obtain ⟨frames, header, hF, hpre, hrej⟩ := h.rejected hmem
    exact FrameCodec.header_accepted hF hframes (hpre.trans hfeed) hrej.1 hrej
  · obtain ⟨published, hprinted, hreads⟩ := h.printing
    obtain ⟨pending, hsplit, hfresh⟩ := hreads.split
    have hpre : published.map ChatMessage.wire <+: ms.map ChatMessage.wire := by
      apply FrameCodec.prefix_of_flatten_prefix hreads.isFrame hframes FrameCodec.stuck_nil
      rw [List.append_nil, ← List.flatMap_def]
      exact (hsplit ▸ List.prefix_append _ _).trans hfeed
    obtain ⟨seen, hseen, hwires⟩ := List.prefix_map_iff.1 hpre
    refine ⟨seen, hseen, ?_, ?_⟩
    · rw [hprinted, map_shown hreads.framed, hwires,
        map_shown fun m hm => hms m (hseen.subset hm)]
    · intro hwait hclean
      rw [hreads.parse_eq_of_stuck (hfresh.stuck hclean hwait) hsplit, hwires]

/-- No sender can desynchronise a receiver: a client that is fed what was written to a session
prints a prefix of that session's segment of the room, and the room holds of every sender the
first frames of its stream. -/
theorem relay_transparent (ports : Nat) (w : World) (h : (chatServer ports).Reachable w) :
    (∀ r, ∀ m ∈ deliveredIn r w.trace, m.Framed) ∧
    (∀ t y storage c, w.sessions t = some y → (chatClient storage).Reachable c →
      receivedOf c.trace <+: wroteBy t w.trace →
      .decoded false ∉ c.trace ∧
        ∃ seen, seen <+: (roomLog y.room w.trace).segment maxRecentMsgs t ∧
          printedOf c.trace = seen.map ChatMessage.shown ∧
          (c.client.reads.Waiting → CleanReads (actsOf c.trace) →
            (chatCodec.parse (receivedOf c.trace)).1 = seen.map ChatMessage.wire)) ∧
    (∀ r s x stream, w.sessions s = some x → inputOf s w.trace <+: stream →
      (sentBy r s w.trace).map ChatMessage.wire <+: (chatCodec.parse stream).1) := by
  have hw := World.inv_reachable h
  refine ⟨?_, ?_, ?_⟩
  · intro r m hm
    exact hw.framed hm
  · intro t y storage c hy hc hfeed
    have hsession := hw.session t y hy
    rw [← hsession.pushed]
    apply (ClientRun.inv_reachable hc).prints_frames (hw.pushed_framed hy)
    exact hfeed.trans hsession.writes.wire_prefix
  · intro r s x stream hx hstream
    rw [World.sentBy_eq (World.home_reachable h) hx]
    split
    · obtain ⟨rest, rfl⟩ := hstream
      exact (hw.session s x hx).reads.published_prefix.trans
        (FrameCodec.parse_append_prefix _ _)
    · exact List.nil_prefix

/-- One session sends a frame whose header is a sign and a digit among blanks, and gets it back. -/
def oddHeader : List Event :=
  .acceptDone 0 7 0 (.fill _ 0) :: receiveFrame 7 [9, 43, 49, 32] [104] ++
    [.session 7 (.transmit 0 3), .session 7 (.transmit 0 2), .session 7 (.writeDone 0 .success)]

def oddHeaderClient : List ClientEvent :=
  [.connectDone .success, .receive 0 [9, 43], .receive 0 [49, 32], .readDone 0 .success,
    .receive 0 [104], .readDone 0 .success]

theorem relay_transparent_oddHeader :
    ∃ w c, (chatServer 1).exec (World.init 1) oddHeader = some w ∧
      (chatClient (.fill _ 0)).exec (ClientRun.init (.fill _ 0)) oddHeaderClient = some c ∧
      wroteBy 7 w.trace = [9, 43, 49, 32, 104] ∧ receivedOf c.trace = [9, 43, 49, 32, 104] ∧
      .decoded false ∉ c.trace ∧ printedOf c.trace = [[104, 10]] ∧
      ∃ seen, seen <+: (roomLog 0 w.trace).segment maxRecentMsgs 7 ∧
        seen.map ChatMessage.shown = [[104, 10]] := by
  have hserver : ((chatServer 1).exec (World.init 1) oddHeader).any (fun w =>
      (w.sessions 7).any (fun y => y.room = 0) &&
        decide (wroteBy 7 w.trace = [9, 43, 49, 32, 104])) = true := by
    decide +kernel
  have hclient : ((chatClient (.fill _ 0)).exec (ClientRun.init (.fill _ 0)) oddHeaderClient).any
      (fun c => decide (receivedOf c.trace = [9, 43, 49, 32, 104] ∧
        printedOf c.trace = [[104, 10]])) = true := by
    decide +kernel
  obtain ⟨w, hw, htest⟩ := exists_eq_some_of_any hserver
  obtain ⟨c, hc, htest'⟩ := exists_eq_some_of_any hclient
  rw [Bool.and_eq_true, decide_eq_true_eq] at htest
  obtain ⟨hstarted, hwrote⟩ := htest
  obtain ⟨y, hy, hroom⟩ := exists_eq_some_of_any hstarted
  rw [decide_eq_true_eq] at hroom
  obtain ⟨hreceived, hprinted⟩ := of_decide_eq_true htest'
  obtain ⟨-, hreceiver, -⟩ := relay_transparent 1 w ⟨oddHeader, hw⟩
  obtain ⟨hdecoded, seen, hseen, hshown, -⟩ := hreceiver 7 y (.fill _ 0) c hy ⟨_, hc⟩
    ((hreceived.trans hwrote.symm) ▸ List.prefix_rfl)
  rw [hroom] at hseen
  exact ⟨w, c, hw, hc, hwrote, hreceived, hdecoded, hprinted, seen, hseen,
    hshown.symm.trans hprinted⟩

end BoostLearning.Chat
