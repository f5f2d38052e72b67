import BoostLearning.Chat.Membership
import BoostLearning.Chat.Network

/-!
# What the members of a room read

The lines of a room are delivered in one order. Whatever the clients, the connections and the
server do meanwhile, this order has every author's lines in the order of typing, and everyone's
screen shows one contiguous part of it.
-/

namespace BoostLearning.Chat

/-- The lines of a room in the order of their delivery, each with the client whose session
delivered it. -/
def conversation (r : ServerId) (tr : List Obs) : List (SessionId × List Byte) :=
  tr.filterMap fun
    | .deliver r' s m => if r' = r then some (s, m.body) else none
    | _ => none

def saidBy (c : SessionId) (lines : List (SessionId × List Byte)) : List (List Byte) :=
  (lines.filter fun l => l.1 = c).map Prod.snd

def printLine (l : SessionId × List Byte) : List Byte := l.2 ++ [newline]

namespace Network

def typed (n : Network) (c : SessionId) : List (List Byte) := ((n.peers c).map Peer.typed).getD []

def screen (n : Network) (c : SessionId) : List (List Byte) :=
  ((n.peers c).map fun p => printedOf p.run.trace).getD []

end Network

private theorem conversation_snd (r : ServerId) (tr : List Obs) :
    (conversation r tr).map Prod.snd = (deliveredIn r tr).map ChatMessage.body := by
  simp only [conversation, deliveredIn, List.map_filterMap]
  apply List.filterMap_congr
  intro o _
  cases o with
  | deliver r' s m => by_cases h : r' = r <;> simp [Obs.delivered?, h]
  | _ => rfl

theorem map_printLine (r : ServerId) (tr : List Obs) :
    (conversation r tr).map printLine = (deliveredIn r tr).map ChatMessage.shown := by
  change (conversation r tr).map ((· ++ [newline]) ∘ Prod.snd) = _
  rw [← List.map_map, conversation_snd, List.map_map]
  rfl

theorem conversation_length (r : ServerId) (tr : List Obs) :
    (conversation r tr).length = (deliveredIn r tr).length := by
  rw [← List.length_map Prod.snd, conversation_snd, List.length_map]

theorem saidBy_conversation (c : SessionId) (r : ServerId) (tr : List Obs) :
    saidBy c (conversation r tr) = (sentBy r c tr).map ChatMessage.body := by
  simp only [saidBy, conversation, sentBy, List.map_filterMap, List.filter_filterMap]
  apply List.filterMap_congr
  intro o _
  cases o with
  | deliver r' s m =>
    by_cases hr : r' = r
    · by_cases hs : s = c <;> simp [hr, hs]
    · simp [hr]
  | _ => rfl

theorem OfLine.bodyLength_le {ms : List ChatMessage} {texts : List (List Byte)}
    (h : List.Forall₂ ChatMessage.OfLine ms texts) :
    ∀ m ∈ ms, m.bodyLength.toNat ≤ maxBodyLength := by
  induction h with
  | nil => simp
  | @cons m text ms texts hm hms ih =>
    obtain ⟨hlen, storage, rfl⟩ := hm
    intro m' hm'
    rcases List.mem_cons.1 hm' with rfl | hm'
    · rw [(ChatMessage.ofBody_wire storage hlen).2.2, toNat_toUInt64 hlen]
      exact hlen
    · exact ih m' hm'

/-- The messages of a list of lines are frames, whose bodies are the lines. -/
theorem OfLine.bodies {ms : List ChatMessage} {texts : List (List Byte)}
    (h : List.Forall₂ ChatMessage.OfLine ms texts) :
    (∀ f ∈ ms.map ChatMessage.wire, chatCodec.IsFrame f) ∧
      (ms.map ChatMessage.wire).map (List.drop headerLength) = texts := by
  induction h with
  | nil => exact ⟨by simp, rfl⟩
  | @cons m text ms texts hm hms ih =>
    obtain ⟨hframes, hbodies⟩ := ih
    obtain ⟨hlen, storage, rfl⟩ := hm
    constructor
    · intro f hf
      rcases List.mem_cons.1 hf with rfl | hf
      · exact ChatMessage.ofBody_isFrame storage hlen
      · exact hframes f hf
    · have h512 : maxBodyLength = 512 := rfl
      have hheader : (sprintf4d text.length).length = headerLength := sprintf4d_length (by omega)
      rw [List.map_cons, List.map_cons, hbodies, (ChatMessage.ofBody_wire storage hlen).1,
        List.drop_left' hheader]

theorem map_body_eq {ms : List ChatMessage} (h : ∀ m ∈ ms, m.Framed) :
    ms.map ChatMessage.body = (ms.map ChatMessage.wire).map (List.drop headerLength) := by
  rw [List.map_map]
  apply List.map_congr_left
  intro m hm
  exact (h m hm).body_eq

namespace Network

variable {ports : Nat} {n : Network} {c : SessionId} {p : Peer} {x : ChatSession}

theorem Inv.sent_prefix (h : n.Inv ports) (hp : n.peers c = some p) :
    sentOf p.run.trace <+: (calledOf p.run.trace).flatMap ChatMessage.wire := by
  obtain ⟨storage, hr⟩ := (h.peer c p hp).reachable
  have hrun := ClientRun.inv_reachable hr
  rw [hrun.order, List.flatMap_append]
  exact hrun.writes.wire_prefix.trans (List.prefix_append _ _)

/-- What a session publishes are the first lines of its client. -/
theorem Inv.published_prefix (h : n.Inv ports) (hp : n.peers c = some p)
    (hx : n.server.sessions c = some x) :
    (publishedBy c n.server.trace).map ChatMessage.body <+: p.typed := by
  have hreads := ((World.inv_reachable h.server).session c x hx).reads
  obtain ⟨pending, hsplit, -⟩ := hreads.split
  obtain ⟨hframes, hbodies⟩ := OfLine.bodies (h.peer c p hp).called
  have hinput : inputOf c n.server.trace <+: sentOf p.run.trace :=
    ⟨p.up, (h.peer c p hp).up.symm⟩
  have hwires : (publishedBy c n.server.trace).map ChatMessage.wire <+:
      (calledOf p.run.trace).map ChatMessage.wire := by
    apply FrameCodec.prefix_of_flatten_prefix hreads.isFrame hframes FrameCodec.stuck_nil
    rw [List.append_nil, ← List.flatMap_def, ← List.flatMap_def]
    exact ((hsplit ▸ List.prefix_append _ _ : _ <+: inputOf c n.server.trace).trans hinput).trans
      (h.sent_prefix hp)
  rw [map_body_eq hreads.framed, ← hbodies]
  exact hwires.map _

theorem Inv.saidBy_prefix (h : n.Inv ports) (r : ServerId) (c : SessionId) :
    saidBy c (conversation r n.server.trace) <+: n.typed c := by
  rw [saidBy_conversation]
  cases hx : n.server.sessions c with
  | none =>
    have hnil : sentBy r c n.server.trace = [] := by
      apply List.filterMap_eq_nil_iff.2
      intro o ho
      cases o with
      | deliver r' s m =>
        obtain ⟨x, hs, -⟩ := World.home_reachable h.server r' s m ho
        have hne : s ≠ c := fun heq => absurd (hx.symm.trans (heq ▸ hs)) (by simp)
        simp [hne]
      | _ => rfl
    rw [hnil]
    exact List.nil_prefix
  | some x =>
    obtain ⟨p, hp, -⟩ := h.home c x hx
    rw [World.sentBy_eq (World.home_reachable h.server) hx]
    split
    · have hpublished := h.published_prefix hp hx
      rwa [typed, hp]
    · exact List.nil_prefix

private theorem Inv.screen_eq_nil (h : n.Inv ports) (hx : n.server.sessions c = none) :
    n.screen c = [] := by
  cases hp : n.peers c with
  | none => simp [screen, hp]
  | some p =>
    have hpeer := h.peer c p hp
    obtain ⟨storage, hr⟩ := hpeer.reachable
    have hreceived : receivedOf p.run.trace = [] := by
      have hdown := hpeer.down
      simp only [wroteBy, h.socketActs_eq_nil hx, List.flatMap_nil] at hdown
      exact (List.append_eq_nil_iff.1 hdown.symm).1
    have hnone : ∀ m ∈ ([] : List ChatMessage), m.Framed := List.forall_mem_nil _
    obtain ⟨-, seen, hseen, hprinted, -⟩ :=
      (ClientRun.inv_reachable hr).prints_frames hnone (by simp [hreceived])
    rw [List.prefix_nil.1 hseen] at hprinted
    simpa [screen, hp] using hprinted

theorem Inv.screen_eq (h : n.Inv ports) (hx : n.server.sessions c = some x) :
    ∃ seen, seen <+: pushedOn c n.server.trace ∧
      n.screen c = seen.map ChatMessage.shown := by
  have hw := World.inv_reachable h.server
  obtain ⟨p, hp, -⟩ := h.home c x hx
  have hpeer := h.peer c p hp
  obtain ⟨storage, hr⟩ := hpeer.reachable
  have hfeed : receivedOf p.run.trace <+:
      (pushedOn c n.server.trace).flatMap ChatMessage.wire := by
    have hdown : receivedOf p.run.trace <+: wroteBy c n.server.trace := ⟨p.down, hpeer.down.symm⟩
    exact hdown.trans (hw.session c x hx).writes.wire_prefix
  obtain ⟨-, seen, hseen, hprinted, -⟩ :=
    (ClientRun.inv_reachable hr).prints_frames (hw.pushed_framed hx) hfeed
  exact ⟨seen, hseen, by simpa [screen, hp] using hprinted⟩

theorem Inv.joinedAt (h : n.Inv ports) (hx : n.server.sessions c = some x) :
    ∃ j, (roomLog x.room n.server.trace).joinedAt c = some j := by
  obtain ⟨before, after, -, -, -, hjoined⟩ :=
    ((World.inv_reachable h.server).session c x hx).started_split
  exact ⟨_, hjoined⟩

/-- The screen of a client is a contiguous part of the conversation. -/
private theorem Inv.screen_part (h : n.Inv ports) (hx : n.server.sessions c = some x) {j : Nat}
    (hj : (roomLog x.room n.server.trace).joinedAt c = some j) :
    n.screen c <+: ((conversation x.room n.server.trace).drop (j - maxRecentMsgs)).map
      printLine := by
  obtain ⟨seen, hseen, hscreen⟩ := h.screen_eq hx
  have hpushed : pushedOn c n.server.trace <+:
      (deliveredIn x.room n.server.trace).drop (j - maxRecentMsgs) := by
    simp only [((World.inv_reachable h.server).session c x hx).pushed, Broadcast.segment, hj,
      roomLog_log, List.drop_take]
    exact List.take_prefix _ _
  rw [hscreen, List.map_drop, map_printLine, ← List.map_drop]
  exact (hseen.trans hpushed).map _

end Network

/-- Everyone in a room reads one contiguous part of the same conversation, from the replay at the
start of the session on, and the conversation has of every author the first lines that were
typed, in order. -/
theorem chat_total_order {ports : Nat} {n : Network} (h : (chatNetwork ports).Reachable n) :
    (∀ r c, saidBy c (conversation r n.server.trace) <+: n.typed c) ∧
    (∀ c, n.server.sessions c = none → n.screen c = []) ∧
    (∀ c x, n.server.sessions c = some x →
      ∃ j k, (roomLog x.room n.server.trace).joinedAt c = some j ∧
        n.screen c = (((conversation x.room n.server.trace).drop (j - maxRecentMsgs)).take k).map
          printLine) := by
  have hn := Network.inv_reachable h
  refine ⟨hn.saidBy_prefix, fun c => hn.screen_eq_nil, ?_⟩
  intro c x hx
  obtain ⟨j, hj⟩ := hn.joinedAt hx
  refine ⟨j, (n.screen c).length, hj, ?_⟩
  rw [List.map_take]
  exact List.prefix_iff_eq_take.1 (hn.screen_part hx hj)

/-- Two clients in a room, one of which says hi to the other. -/
def sayHi : List NetEvent :=
  [.start 0 (.fill _ 0), .start 1 (.fill _ 0), .establish 0 0, .establish 1 0,
    .client 0 (.connectDone .success), .client 1 (.connectDone .success),
    .server (.acceptDone 0 1 0 (.fill _ 0)), .server (.acceptDone 0 0 0 (.fill _ 0)),
    .line 0 (.fill _ 0) [104, 105], .client 0 .runPosted, .client 0 (.transmit 0 6)] ++
  (receiveFrame 0 [32, 32, 32, 50] [104, 105]).map .server ++
  [.server (.session 1 (.transmit 0 6)), .client 1 (.receive 0 [32, 32, 32, 50]),
    .client 1 (.readDone 0 .success), .client 1 (.receive 0 [104, 105]),
    .client 1 (.readDone 0 .success)]

theorem chat_total_order_sayHi :
    let n := (chatNetwork 1).final sayHi
    n.screen 1 = [[104, 105, newline]] ∧
    (∀ r c, saidBy c (conversation r n.server.trace) <+: n.typed c) ∧
    (∀ c, n.server.sessions c = none → n.screen c = []) ∧
    (∀ c x, n.server.sessions c = some x →
      ∃ j k, (roomLog x.room n.server.trace).joinedAt c = some j ∧
        n.screen c = (((conversation x.room n.server.trace).drop (j - maxRecentMsgs)).take k).map
          printLine) :=
  ⟨by decide +kernel, chat_total_order ((chatNetwork 1).reachable_final sayHi)⟩

private theorem drop_prefix_drop {α : Type} {l m : List α} (h : l <+: m) (k : Nat) :
    l.drop k <+: m.drop k := by
  rw [List.prefix_iff_eq_take.1 h, List.drop_take]
  exact List.take_prefix _ _

/-- Two clients of one room never disagree: from the line on at which the view of the later one
starts, what one of them has printed is the beginning of what the other one has. -/
theorem chat_agreement {ports : Nat} {n : Network} (h : (chatNetwork ports).Reachable n)
    {c d : SessionId} {x y : ChatSession} (hx : n.server.sessions c = some x)
    (hy : n.server.sessions d = some y) (hroom : x.room = y.room) {i j : Nat}
    (hi : (roomLog x.room n.server.trace).joinedAt c = some i)
    (hj : (roomLog y.room n.server.trace).joinedAt d = some j) (hij : i ≤ j) :
    (n.screen c).drop ((j - maxRecentMsgs) - (i - maxRecentMsgs)) <+: n.screen d ∨
      n.screen d <+: (n.screen c).drop ((j - maxRecentMsgs) - (i - maxRecentMsgs)) := by
  have hn := Network.inv_reachable h
  have hc := drop_prefix_drop (hn.screen_part hx hi) ((j - maxRecentMsgs) - (i - maxRecentMsgs))
  have hd := hn.screen_part hy hj
  have hsum : i - maxRecentMsgs + ((j - maxRecentMsgs) - (i - maxRecentMsgs)) =
      j - maxRecentMsgs := by omega
  rw [← List.map_drop, List.drop_drop, hsum, hroom] at hc
  exact List.prefix_or_prefix_of_prefix hc hd

theorem chat_agreement_sayHi :
    let n := (chatNetwork 1).final sayHi
    (n.screen 1).drop 0 <+: n.screen 0 ∨ n.screen 0 <+: (n.screen 1).drop 0 := by
  have hone : (((chatNetwork 1).final sayHi).server.sessions 1).isSome = true := by decide +kernel
  have hzero : (((chatNetwork 1).final sayHi).server.sessions 0).isSome = true := by
    decide +kernel
  obtain ⟨x, hx⟩ := Option.isSome_iff_exists.1 hone
  obtain ⟨y, hy⟩ := Option.isSome_iff_exists.1 hzero
  have hxroom : x.room = 0 := by
    have hroom : (((chatNetwork 1).final sayHi).server.sessions 1).map ChatSession.room =
        some 0 := by decide +kernel
    simpa [hx] using hroom
  have hyroom : y.room = 0 := by
    have hroom : (((chatNetwork 1).final sayHi).server.sessions 0).map ChatSession.room =
        some 0 := by decide +kernel
    simpa [hy] using hroom
  exact chat_agreement ((chatNetwork 1).reachable_final sayHi) hx hy (hxroom.trans hyroom.symm)
    (i := 0) (j := 0) (by rw [hxroom]; decide +kernel) (by rw [hyroom]; decide +kernel)
    (Nat.le_refl 0)

end BoostLearning.Chat
