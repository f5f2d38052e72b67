import BoostLearning.Chat.Conversation
import BoostLearning.Chat.StreamReader

/-!
# A room at rest

When nothing is under way between a client and its session, every line the client was given has
been delivered in the room, and every line of the room is on its screen. Being at rest is a
condition on the queues and the connection only; that nothing was lost on the way is not assumed.
-/

namespace BoostLearning.Chat

/-- A client goes on: `run()` has not returned, the socket is open and `close` was not called, it
reads, and its session `x` is a participant. -/
structure Network.InTouch (n : Network) (c : SessionId) (p : Peer) (x : ChatSession) : Prop where
  running : p.run.running = true
  socketOpen : p.run.client.closed = false
  goesOn : .close ∉ p.run.client.posted
  reading : p.run.client.reads.reads ≠ []
  session : n.server.sessions c = some x
  member : c ∈ (n.server.room x.room).participants.ids

structure Peer.Quiet (p : Peer) (x : ChatSession) : Prop where
  posted : p.run.client.posted = []
  clientWrites : p.run.client.writes.writes = []
  clientWaits : p.run.client.reads.Waiting
  up : p.up = []
  down : p.down = []
  sessionWrites : x.writes.writes = []
  sessionWaits : x.reads.Waiting

private theorem ReadChain.Inv.wires_eq {clean : Prop} {c : ReadChain} {input : List Byte}
    {published ms : List ChatMessage} (h : c.Inv clean input published) (hreading : c.reads ≠ [])
    (hwaits : c.Waiting) (hframes : ∀ f ∈ ms.map ChatMessage.wire, chatCodec.IsFrame f)
    (hinput : input = ms.flatMap ChatMessage.wire) :
    published.map ChatMessage.wire = ms.map ChatMessage.wire := by
  have hparse : chatCodec.parse input = (ms.map ChatMessage.wire, []) := by
    apply FrameCodec.parse_eq hframes FrameCodec.stuck_nil
    rw [List.append_nil, hinput, List.flatMap_def]
  rw [← h.parse_eq_of_reading hreading hwaits, hparse]

namespace Network

variable {ports : Nat} {n : Network} {c : SessionId} {p : Peer} {x : ChatSession}

private theorem Inv.sent_eq (h : n.Inv ports) (hp : n.peers c = some p) (hin : n.InTouch c p x)
    (hquiet : p.Quiet x) :
    sentOf p.run.trace = (calledOf p.run.trace).flatMap ChatMessage.wire := by
  obtain ⟨storage, hr⟩ := (h.peer c p hp).reachable
  have hrun := ClientRun.inv_reachable hr
  have hmsgs : p.run.client.writes.msgs = [] := by
    by_contra hne
    exact (hrun.live hin.socketOpen).2 hne hquiet.clientWrites
  rw [hrun.writes.wire_eq_of_msgs_nil hmsgs, hrun.order, hquiet.posted, waiting,
    List.filterMap_nil, List.append_nil]

private theorem Inv.published_eq (h : n.Inv ports) (hp : n.peers c = some p) (hin : n.InTouch c p x)
    (hquiet : p.Quiet x) : (publishedBy c n.server.trace).map ChatMessage.body = p.typed := by
  have hsession := (World.inv_reachable h.server).session c x hin.session
  obtain ⟨hframes, hbodies⟩ := OfLine.bodies (h.peer c p hp).called
  have hinput : inputOf c n.server.trace =
      (calledOf p.run.trace).flatMap ChatMessage.wire := by
    rw [← h.sent_eq hp hin hquiet, (h.peer c p hp).up, hquiet.up, List.append_nil]
  have hreading : x.reads.reads ≠ [] := by
    intro hnil
    have hone := hsession.reading hin.member
    simp [hnil] at hone
  rw [map_body_eq hsession.reads.framed,
    hsession.reads.wires_eq hreading hquiet.sessionWaits hframes hinput, hbodies]

private theorem Inv.received_eq (h : n.Inv ports) (hp : n.peers c = some p) (hin : n.InTouch c p x)
    (hquiet : p.Quiet x) :
    receivedOf p.run.trace = (pushedOn c n.server.trace).flatMap ChatMessage.wire := by
  have hsession := (World.inv_reachable h.server).session c x hin.session
  have hmsgs : x.writes.msgs = [] := by
    by_contra hne
    exact (hsession.live hin.member).2 hne hquiet.sessionWrites
  have hdown := (h.peer c p hp).down
  rw [hquiet.down, List.append_nil] at hdown
  rw [← hdown]
  exact hsession.writes.wire_eq_of_msgs_nil hmsgs

private theorem Inv.printed_eq (h : n.Inv ports) (hp : n.peers c = some p) (hin : n.InTouch c p x)
    (hquiet : p.Quiet x) :
    n.screen c = (pushedOn c n.server.trace).map ChatMessage.shown := by
  have hframed := (World.inv_reachable h.server).pushed_framed hin.session
  have hframes : ∀ f ∈ (pushedOn c n.server.trace).map ChatMessage.wire, chatCodec.IsFrame f := by
    intro f hf
    obtain ⟨m, hm, rfl⟩ := List.mem_map.1 hf
    exact (hframed m hm).isFrame
  obtain ⟨storage, hr⟩ := (h.peer c p hp).reachable
  obtain ⟨published, hprinted, hreads⟩ := (ClientRun.inv_reachable hr).printing
  have hwires := hreads.wires_eq hin.reading hquiet.clientWaits hframes
    (h.received_eq hp hin hquiet)
  rw [screen, hp, Option.map_some, Option.getD_some, hprinted, map_shown hreads.framed, hwires,
    ← map_shown hframed]

/-- Everything the client was given is in the conversation, and the conversation is on its screen
from the replay on. -/
def Settled (n : Network) (c : SessionId) (r : ServerId) : Prop :=
  saidBy c (conversation r n.server.trace) = n.typed c ∧
    ∃ j, (roomLog r n.server.trace).joinedAt c = some j ∧
      n.screen c = ((conversation r n.server.trace).drop (j - maxRecentMsgs)).map printLine

theorem Inv.settled (h : n.Inv ports) (hp : n.peers c = some p) (hin : n.InTouch c p x)
    (hquiet : p.Quiet x) : n.Settled c x.room := by
  have hsession := (World.inv_reachable h.server).session c x hin.session
  constructor
  · rw [saidBy_conversation, World.sentBy_eq (World.home_reachable h.server) hin.session,
      if_pos rfl, h.published_eq hp hin hquiet, typed, hp]
    rfl
  · obtain ⟨j, hj⟩ := h.joinedAt hin.session
    have hleft := (hsession.present.1 hin.member).2
    refine ⟨j, hj, ?_⟩
    have hpushed : pushedOn c n.server.trace =
        (deliveredIn x.room n.server.trace).drop (j - maxRecentMsgs) := by
      simp [hsession.pushed, Broadcast.segment, hj, hleft, roomLog_log]
    rw [h.printed_eq hp hin hquiet, hpushed, List.map_drop, List.map_drop, map_printLine]

end Network

end BoostLearning.Chat
