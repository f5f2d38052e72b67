import BoostLearning.Chat.ServerTrace

/-!
# The invariant of the chat server

For every session it relates four things that no variable of the program relates: the history
of its room, the bounded replay, its own queue with the write in flight, and the chain of its
reads. Queue emptiness stands for a write in progress only while the session is a participant.
-/

namespace BoostLearning.Chat

/-- What the history says about a session, given its room. -/
structure SessionInv (tr : List Obs) (room : ChatRoom) (s : SessionId) (x : ChatSession) :
    Prop where
  reads : x.reads.Inv (CleanReads (socketActs s tr)) (inputOf s tr) (publishedBy s tr)
  writes : x.writes.Inv wireFormat (pushedOn s tr) (wroteBy s tr)
  pushed : pushedOn s tr = (roomLog x.room tr).segment maxRecentMsgs s
  present : s ∈ room.participants.ids ↔ (roomLog x.room tr).Present s
  reading : s ∈ room.participants.ids → x.reads.reads.length = 1
  ended : x.reads.reads = [] → ReadsEnded (socketActs s tr) (inputOf s tr) (publishedBy s tr)
  live : s ∈ room.participants.ids → x.writes.Live
  started : roomsOf s tr = [x.room]

structure Unstarted (tr : List Obs) (s : SessionId) : Prop where
  acts : socketActs s tr = []
  pushed : pushedOn s tr = []
  published : publishedBy s tr = []
  started : roomsOf s tr = []
  leftAt : ∀ r, (roomLog r tr).leftAt s = none

namespace World

structure Inv (w : World) : Prop where
  session : ∀ s x, w.sessions s = some x → SessionInv w.trace (w.room x.room) s x
  unstarted : ∀ s, w.sessions s = none → Unstarted w.trace s
  member : ∀ r, ∀ s ∈ (w.room r).participants.ids, ∃ x, w.sessions s = some x ∧ x.room = r
  recent : ∀ r, (w.room r).recentMsgs =
    (deliveredIn r w.trace).drop ((deliveredIn r w.trace).length - maxRecentMsgs)

end World

/-- Observations in which a session has no part. -/
structure Elsewhere (s : SessionId) (obs : List Obs) : Prop where
  acts : socketActs s obs = []
  pushed : pushedOn s obs = []
  published : publishedBy s obs = []
  started : roomsOf s obs = []

section Frame

variable {tr obs : List Obs} {m m' : ChatRoom} {s : SessionId} {x : ChatSession}

private theorem SessionInv.frame (h : SessionInv tr m s x) (hobs : Elsewhere s obs)
    (hsegment : (roomLog x.room (tr ++ obs)).segment maxRecentMsgs s =
      (roomLog x.room tr).segment maxRecentMsgs s)
    (hpresent : (roomLog x.room (tr ++ obs)).Present s ↔ (roomLog x.room tr).Present s)
    (hmember : s ∈ m'.participants.ids ↔ s ∈ m.participants.ids) :
    SessionInv (tr ++ obs) m' s x where
  reads := by simpa [inputOf, hobs.acts, hobs.published] using h.reads
  writes := by simpa [wroteBy, hobs.acts, hobs.pushed] using h.writes
  pushed := by rw [pushedOn_append, hobs.pushed, List.append_nil, hsegment, h.pushed]
  present := by rw [hmember, hpresent, h.present]
  reading := fun hs => h.reading (hmember.1 hs)
  ended := fun hnil => by simpa [inputOf, hobs.acts, hobs.published] using h.ended hnil
  live := fun hs => h.live (hmember.1 hs)
  started := by rw [roomsOf_append, hobs.started, List.append_nil, h.started]

private theorem SessionInv.deliver (h : SessionInv tr m s x) {msg : ChatMessage}
    (hs : s ∈ m.participants.ids) (hacts : socketActs s obs = [])
    (hpushed : pushedOn s obs = [msg]) (hpublished : publishedBy s obs = [])
    (hstarted : roomsOf s obs = [])
    (hlog : roomLog x.room (tr ++ obs) = (roomLog x.room tr).publish msg)
    (hmember : m'.participants = m.participants) :
    SessionInv (tr ++ obs) m' s (x.deliver msg) where
  reads := by simpa [inputOf, hacts, hpublished] using h.reads
  writes := by simpa [wroteBy, hacts, hpushed] using h.writes.enqueue msg
  pushed := by
    change _ = (roomLog x.room (tr ++ obs)).segment maxRecentMsgs s
    rw [hlog, Broadcast.segment_publish_of_present (h.present.1 hs), pushedOn_append, hpushed,
      h.pushed]
  present := by
    change _ ↔ (roomLog x.room (tr ++ obs)).Present s
    rw [hmember, hlog, Broadcast.present_publish, h.present]
  reading := fun _ => h.reading hs
  ended := fun hnil => by simpa [inputOf, hacts, hpublished] using h.ended hnil
  live := fun _ => (h.live hs).enqueue msg
  started := by
    rw [roomsOf_append, hstarted, List.append_nil, h.started]
    rfl

private theorem SessionInv.react (h : SessionInv tr m s x) {e : SessionEvent} {ρ : Reaction}
    (hρ : x.handle e = some ρ) (hcall : ∀ msg, ρ.call ≠ .deliver msg)
    (hacts : socketActs s obs = ρ.socket) (hpushed : pushedOn s obs = [])
    (hpublished : publishedBy s obs = []) (hstarted : roomsOf s obs = [])
    (hsegment : (roomLog x.room (tr ++ obs)).segment maxRecentMsgs s =
      (roomLog x.room tr).segment maxRecentMsgs s)
    (hpresent : s ∈ m'.participants.ids ↔ (roomLog x.room (tr ++ obs)).Present s)
    (hstay : s ∈ m'.participants.ids → s ∈ m.participants.ids ∧ ρ.call = .none) :
    SessionInv (tr ++ obs) m' s ρ.session := by
  have hroom := ChatSession.handle_room hρ
  have hlength := ChatSession.handle_reads_length h.reads hρ
  obtain ⟨hwrites, hlive, -⟩ := ChatSession.handle_writes h.writes hρ
  constructor
  · simpa [inputOf, hacts, hpublished] using ChatSession.handle_reads h.reads hρ hcall
  · simpa [wroteBy, hacts, hpushed] using hwrites
  · rw [hroom, pushedOn_append, hpushed, List.append_nil, hsegment, h.pushed]
  · rw [hroom]
    exact hpresent
  · intro hs
    rw [hlength.1 (hstay hs).2]
    exact h.reading (hstay hs).1
  · intro hnil
    simpa [inputOf, hacts, hpublished] using
      ChatSession.handle_ended h.reads hρ hcall h.ended hnil
  · intro hs
    apply hlive _ (h.live (hstay hs).1)
    rw [(hstay hs).2]
    simp
  · rw [hroom, roomsOf_append, hstarted, List.append_nil, h.started]

/-- The session publishes a message, which is pushed on its own queue while it is in the room. -/
private theorem SessionInv.publish (h : SessionInv tr m s x) {e : SessionEvent} {ρ : Reaction}
    {msg : ChatMessage} (hρ : x.handle e = some ρ) (hcall : ρ.call = .deliver msg)
    (hacts : socketActs s obs = ρ.socket)
    (hpushed : pushedOn s obs = if s ∈ m.participants.ids then [msg] else [])
    (hpublished : publishedBy s obs = [msg]) (hstarted : roomsOf s obs = [])
    (hlog : roomLog x.room (tr ++ obs) = (roomLog x.room tr).publish msg)
    (hmember : m'.participants = m.participants) :
    SessionInv (tr ++ obs) m' s
      (if s ∈ m.participants.ids then ρ.session.deliver msg else ρ.session).doReadHeader := by
  have hroom := ChatSession.handle_room hρ
  obtain ⟨hsocket, -, hwrites, hlength, -, hreads⟩ :=
    ChatSession.handle_reads_deliver h.reads hρ hcall
  rw [hsocket] at hacts
  by_cases hs : s ∈ m.participants.ids
  · rw [if_pos hs] at hpushed ⊢
    constructor
    · simpa [inputOf, hacts, hpublished] using hreads
    · simpa [wroteBy, hacts, hpushed, hwrites] using h.writes.enqueue msg
    · rw [ChatSession.doReadHeader_room, ChatSession.deliver_room, hroom, hlog,
        Broadcast.segment_publish_of_present (h.present.1 hs), pushedOn_append, hpushed, h.pushed]
    · rw [ChatSession.doReadHeader_room, ChatSession.deliver_room, hroom, hlog, hmember,
        Broadcast.present_publish, h.present]
    · intro _
      simpa using hlength
    · intro hnil
      exact absurd hnil (by simp [ReadChain.doReadHeader])
    · intro _
      simpa [hwrites] using (h.live hs).enqueue msg
    · simp [hroom, hstarted, h.started]
  · rw [if_neg hs] at hpushed ⊢
    constructor
    · simpa [inputOf, hacts, hpublished] using hreads
    · simpa [wroteBy, hacts, hpushed, hwrites] using h.writes
    · rw [ChatSession.doReadHeader_room, hroom, hlog,
        Broadcast.segment_publish_of_not_present (fun hp => hs (h.present.2 hp)), pushedOn_append,
        hpushed, List.append_nil, h.pushed]
    · rw [ChatSession.doReadHeader_room, hroom, hlog, hmember, Broadcast.present_publish,
        h.present]
    · intro _
      simpa using hlength
    · intro hnil
      exact absurd hnil (by simp [ReadChain.doReadHeader])
    · intro hs'
      rw [hmember] at hs'
      exact absurd hs' hs
    · simp [hroom, hstarted, h.started]

private theorem Unstarted.frame (h : Unstarted tr s) (hobs : Elsewhere s obs)
    (hleave : ∀ r, .leave s ∉ obs.filterMap (Obs.roomAct? r)) : Unstarted (tr ++ obs) s where
  acts := by rw [socketActs_append, h.acts, hobs.acts, List.nil_append]
  pushed := by rw [pushedOn_append, h.pushed, hobs.pushed, List.nil_append]
  published := by rw [publishedBy_append, h.published, hobs.published, List.nil_append]
  started := by rw [roomsOf_append, h.started, hobs.started, List.nil_append]
  leftAt := by
    intro r
    rw [roomLog_append, Broadcast.foldl_leftAt_of_not_mem (hleave r), h.leftAt r]

end Frame

/-! ## The first state of a session -/

@[simp]
theorem foldl_deliver_room (ms : List ChatMessage) (x : ChatSession) :
    (ms.foldl ChatSession.deliver x).room = x.room := by
  induction ms generalizing x with
  | nil => rfl
  | cons m ms ih => exact ih (x.deliver m)

@[simp]
theorem foldl_deliver_reads (ms : List ChatMessage) (x : ChatSession) :
    (ms.foldl ChatSession.deliver x).reads = x.reads := by
  induction ms generalizing x with
  | nil => rfl
  | cons m ms ih => exact ih (x.deliver m)

private theorem foldl_deliver_writes (ms : List ChatMessage) {x : ChatSession}
    {pushed : List ChatMessage} {wire : List Byte} (h : x.writes.Inv wireFormat pushed wire)
    (hlive : x.writes.Live) :
    (ms.foldl ChatSession.deliver x).writes.Inv wireFormat (pushed ++ ms) wire ∧
      (ms.foldl ChatSession.deliver x).writes.Live := by
  induction ms generalizing x pushed with
  | nil => simpa using ⟨h, hlive⟩
  | cons m ms ih =>
    have := ih (x := x.deliver m) (h.enqueue m) (hlive.enqueue m)
    simpa using this

/-- A session that has just been started has the replay in its queue and reads a header. -/
private theorem sessionInv_start {tr : List Obs} {s : SessionId} (h : Unstarted tr s) (r : ServerId)
    (storage : Storage) (m : ChatRoom) (ms : List ChatMessage)
    (hms : ms = (deliveredIn r tr).drop ((deliveredIn r tr).length - maxRecentMsgs))
    (hs : s ∈ m.participants.ids) :
    SessionInv (tr ++ .join r s :: ms.map (.push s)) m s
      (ms.foldl ChatSession.deliver (.init r storage)).doReadHeader := by
  obtain ⟨hwrites, hlive⟩ := foldl_deliver_writes ms (x := .init r storage)
    WriteQueue.inv_empty WriteQueue.live_empty
  have hlog : roomLog r (tr ++ .join r s :: ms.map (.push s)) = (roomLog r tr).join s := by
    rw [roomLog_append, List.filterMap_cons_some (b := .join s) (by simp [Obs.roomAct?]),
      roomAct_replay]
    rfl
  have hreads : (ReadChain.mk (.init storage) []).doReadHeader.Inv
      (CleanReads (socketActs s (tr ++ .join r s :: ms.map (.push s)))) [] [] :=
    ReadChain.inv_doReadHeader _ _ rfl (List.forall_mem_nil _)
  constructor
  · simpa [inputOf, h.acts, h.published, Obs.socketAct?, Obs.published?] using hreads
  · simpa [wroteBy, h.acts, h.pushed, Obs.socketAct?, Obs.pushed?] using hwrites
  · simp only [ChatSession.doReadHeader_room, foldl_deliver_room, ChatSession.init_room]
    rw [hlog, Broadcast.segment_join_self (h.leftAt r), roomLog_log, ← hms]
    simp [h.pushed, Obs.pushed?]
  · simp only [ChatSession.doReadHeader_room, foldl_deliver_room, ChatSession.init_room]
    rw [hlog]
    exact ⟨fun _ => Broadcast.present_join_self (h.leftAt r), fun _ => hs⟩
  · intro _
    simp [ReadChain.doReadHeader]
  · intro hnil
    exact absurd hnil (by simp [ReadChain.doReadHeader])
  · intro _
    exact hlive
  · simp [h.started, Obs.joined?]

/-! ## Preservation -/

namespace World

variable {w : World}

@[simp]
theorem room_mk (servers : ServerId → ChatServer) (sessions : SessionId → Option ChatSession)
    (trace : List Obs) (r : ServerId) :
    (World.mk servers sessions trace).room r = (servers r).room := rfl

theorem update_room (w : World) (r r' : ServerId) (m : ChatRoom) :
    (Function.update w.servers r { w.servers r with room := m } r').room =
      if r' = r then m else w.room r' := by
  by_cases h : r' = r
  · subst r'
    simp
  · simp [h, room]

theorem update_accepts (w : World) (r r' : ServerId) (m : ChatRoom) :
    (Function.update w.servers r { w.servers r with room := m } r').accepts =
      (w.servers r').accepts := by
  by_cases h : r' = r
  · subst r'
    simp
  · simp [h]

private theorem trimRecent_concat (ms : List ChatMessage) (m : ChatMessage) :
    trimRecent (ms.drop (ms.length - maxRecentMsgs) ++ [m]) =
      (ms ++ [m]).drop ((ms ++ [m]).length - maxRecentMsgs) := by
  have hle : ms.length - maxRecentMsgs ≤ ms.length := Nat.sub_le _ _
  have hsum : ms.length - maxRecentMsgs + (ms.length + 1 - (ms.length - maxRecentMsgs) -
      maxRecentMsgs) = ms.length + 1 - maxRecentMsgs := by omega
  rw [trimRecent_eq, ← List.drop_append_of_le_length hle, List.drop_drop]
  simp only [List.length_drop, List.length_append, List.length_singleton]
  rw [hsum]

theorem inv_init (ports : Nat) : (init ports).Inv := by
  constructor
  case session =>
    intro s x hx
    exact absurd hx (by simp [init])
  case unstarted =>
    intro s _
    constructor <;> intros <;> rfl
  case member =>
    intro r s hs
    by_cases hr : r < ports <;>
      simp [init, room, hr, ChatServer.doAccept, ChatRoom.empty, PointerSet.empty] at hs
  case recent =>
    intro r
    by_cases hr : r < ports <;> simp [init, room, hr, ChatServer.doAccept, ChatRoom.empty]

private theorem roomLog_concat {tr obs : List Obs} {r r' : ServerId}
    {a : RoomAct SessionId ChatMessage}
    (h : obs.filterMap (Obs.roomAct? r') = if r = r' then [a] else []) :
    roomLog r' (tr ++ obs) = if r = r' then (roomLog r' tr).step a else roomLog r' tr := by
  rw [roomLog_append, h]
  split <;> rfl

/-- The servers when room `r` has become `m`. -/
abbrev withRoom (w : World) (r : ServerId) (m : ChatRoom) : ServerId → ChatServer :=
  Function.update w.servers r { w.servers r with room := m }

theorem mem_insert_withRoom {r r' : ServerId} {s t : SessionId} (hts : t ≠ s) (pos : Nat) :
    t ∈ (w.withRoom r { w.room r with participants := (w.room r).participants.insert s pos }
      r').room.participants.ids ↔ t ∈ (w.room r').participants.ids := by
  rw [update_room]
  split
  · rename_i hr
    simp [PointerSet.mem_insert, hts, hr]
  · rfl

theorem mem_erase_withRoom {r r' : ServerId} {s t : SessionId} (hts : t ≠ s) :
    t ∈ (w.withRoom r { w.room r with participants := (w.room r).participants.erase s }
      r').room.participants.ids ↔ t ∈ (w.room r').participants.ids := by
  rw [update_room]
  split
  · rename_i hr
    simp [PointerSet.mem_erase, hts, hr]
  · rfl

theorem recentMsgs_withRoom {r r' : ServerId} {m : ChatRoom}
    (hm : m.recentMsgs = (w.room r).recentMsgs) :
    (w.withRoom r m r').room.recentMsgs = (w.room r').recentMsgs := by
  rw [update_room]
  split
  · rename_i hr
    rw [hr, hm]
  · rfl

private theorem Inv.recent_withRoom (h : w.Inv) {r : ServerId} {m : ChatRoom} {obs : List Obs}
    (hm : m.recentMsgs = (deliveredIn r (w.trace ++ obs)).drop
      ((deliveredIn r (w.trace ++ obs)).length - maxRecentMsgs))
    (hobs : ∀ r', r' ≠ r → deliveredIn r' obs = []) (r' : ServerId) :
    (w.withRoom r m r').room.recentMsgs = (deliveredIn r' (w.trace ++ obs)).drop
      ((deliveredIn r' (w.trace ++ obs)).length - maxRecentMsgs) := by
  rw [update_room]
  split
  · rename_i hr
    rw [hr]
    exact hm
  · rename_i hr
    rw [deliveredIn_append, hobs r' hr, List.append_nil]
    exact h.recent r'

/-- A session keeps its room, so the members of a room stay sessions of it. -/
private theorem Inv.member_update (h : w.Inv) {s t : SessionId} {x y : ChatSession} {r : ServerId}
    (hx : w.sessions s = some x) (hroom : y.room = x.room)
    (ht : t ∈ (w.room r).participants.ids) :
    ∃ z, Function.update w.sessions s (some y) t = some z ∧ z.room = r := by
  obtain ⟨z, hz, hzr⟩ := h.member r t ht
  by_cases hts : t = s
  · subst t
    rw [hx, Option.some.injEq] at hz
    exact ⟨y, Function.update_self _ _ _, by rw [hroom, hz, hzr]⟩
  · exact ⟨z, (Function.update_of_ne hts _ _).trans hz, hzr⟩

/-! ### An accept -/

section Accepted

variable {r : ServerId} {s t : SessionId} {y : ChatSession}

private theorem roomAct_join (r r' : ServerId) (s : SessionId) (ms : List ChatMessage) :
    (Obs.join r s :: ms.map (.push s)).filterMap (Obs.roomAct? r') =
      if r = r' then [.join s] else [] := by
  by_cases hr : r = r' <;> simp [Obs.roomAct?, hr]

private theorem elsewhere_join (hts : t ≠ s) (r : ServerId) (ms : List ChatMessage) :
    Elsewhere t (.join r s :: ms.map (.push s)) where
  acts := by simp [Obs.socketAct?]
  pushed := by simp [Obs.pushed?, Ne.symm hts]
  published := by simp [Obs.published?]
  started := by simp [Obs.joined?, Ne.symm hts]

private theorem Inv.accepted_other (h : w.Inv) (hy : w.sessions t = some y) (hts : t ≠ s)
    (pos : Nat) :
    SessionInv (w.trace ++ .join r s :: (w.room r).recentMsgs.map (.push s))
      (w.withRoom r { w.room r with participants := (w.room r).participants.insert s pos }
        y.room).room t y := by
  apply (h.session t y hy).frame (elsewhere_join hts _ _)
  · rw [roomLog_concat (roomAct_join r y.room s _)]
    split
    · exact Broadcast.segment_join_of_ne hts
    · rfl
  · rw [roomLog_concat (roomAct_join r y.room s _)]
    split
    · exact Broadcast.present_join_of_ne hts
    · rfl
  · exact mem_insert_withRoom hts pos

private theorem Inv.accepted_member (h : w.Inv) (hnew : w.sessions s = none) {pos : Nat}
    {r' : ServerId} (ht : t ∈ (w.withRoom r { w.room r with
      participants := (w.room r).participants.insert s pos } r').room.participants.ids)
    {z : ChatSession} (hz : z.room = r) :
    ∃ y, Function.update w.sessions s (some z) t = some y ∧ y.room = r' := by
  rw [update_room] at ht
  by_cases hts : t = s
  · subst t
    split at ht
    · rename_i hr
      exact ⟨z, Function.update_self _ _ _, hz.trans hr.symm⟩
    · obtain ⟨y, hy, -⟩ := h.member r' s ht
      simp [hnew] at hy
  · have ht' : t ∈ (w.room r').participants.ids := by
      split at ht
      · rename_i hr
        simpa [PointerSet.mem_insert, hts, hr] using ht
      · exact ht
    simpa [Function.update_of_ne hts] using h.member r' t ht'

theorem Inv.accepted (h : w.Inv) (hnew : w.sessions s = none) (pos : Nat) (storage : Storage) :
    Inv ⟨Function.update w.servers r { w.servers r with room :=
        { w.room r with participants := (w.room r).participants.insert s pos } },
      Function.update w.sessions s (some ((w.room r).recentMsgs.foldl ChatSession.deliver
        (.init r storage)).doReadHeader),
      w.trace ++ .join r s :: (w.room r).recentMsgs.map (.push s)⟩ := by
  constructor
  case session =>
    intro t y hy
    by_cases hts : t = s
    · subst t
      simp only [Function.update_self, Option.some.injEq] at hy
      subst y
      apply sessionInv_start (h.unstarted s hnew) r storage _ _ (h.recent r)
      simp [PointerSet.mem_insert]
    · exact h.accepted_other ((Function.update_of_ne hts _ _).symm.trans hy) hts pos
  case unstarted =>
    intro t ht
    by_cases hts : t = s
    · simp [hts] at ht
    · have ht' := (Function.update_of_ne hts _ _).symm.trans ht
      apply (h.unstarted t ht').frame (elsewhere_join hts _ _)
      intro r'
      rw [roomAct_join]
      split <;> simp
  case member =>
    intro r' t ht
    exact h.accepted_member hnew ht (by simp)
  case recent =>
    have hnone : ∀ r', deliveredIn r' (.join r s :: (w.room r).recentMsgs.map (.push s)) = [] := by
      simp [Obs.delivered?]
    intro r'
    apply h.recent_withRoom _ (fun r' _ => hnone r')
    rw [deliveredIn_append, hnone, List.append_nil]
    exact h.recent r

end Accepted

/-! ### A reaction that the room does not see -/

section Reactions

variable {s t : SessionId} {e : SessionEvent} {x y : ChatSession} {ρ : Reaction}

private theorem elsewhere_socket (hts : t ≠ s) (acts : List SocketAct) :
    Elsewhere t (acts.map (.socket s)) where
  acts := by simp [Ne.symm hts]
  pushed := by simp
  published := by simp
  started := by simp

theorem Inv.quiet (h : w.Inv) (hx : w.sessions s = some x) (hρ : x.handle e = some ρ)
    (hcall : ρ.call = .none) :
    Inv ⟨w.servers, Function.update w.sessions s (some ρ.session),
      w.trace ++ ρ.socket.map (.socket s)⟩ := by
  have hroom := ChatSession.handle_room hρ
  have hlog : ∀ r, roomLog r (w.trace ++ ρ.socket.map (.socket s)) = roomLog r w.trace := by
    intro r
    rw [roomLog_append, roomAct_socket]
    rfl
  constructor
  case session =>
    intro t y hy
    by_cases hts : t = s
    · subst t
      simp only [Function.update_self, Option.some.injEq] at hy
      subst y
      rw [hroom]
      apply (h.session s x hx).react hρ
      · simp [hcall]
      · simp
      · simp
      · simp
      · simp
      · rw [hlog]
      · rw [hlog]
        exact (h.session s x hx).present
      · intro hs
        exact ⟨hs, hcall⟩
    · simp only [Function.update_of_ne hts] at hy
      apply (h.session t y hy).frame (elsewhere_socket hts _)
      · rw [hlog]
      · rw [hlog]
      · rfl
  case unstarted =>
    intro t ht
    by_cases hts : t = s
    · simp [hts] at ht
    · simp only [Function.update_of_ne hts] at ht
      apply (h.unstarted t ht).frame (elsewhere_socket hts _)
      intro r
      rw [roomAct_socket]
      simp
  case member =>
    intro r t ht
    exact h.member_update hx hroom ht
  case recent =>
    intro r
    rw [deliveredIn_append, deliveredIn_socket, List.append_nil]
    exact h.recent r

/-! ### A session leaves -/

private theorem roomAct_leave (r r' : ServerId) (s : SessionId) (chain : Chain)
    (acts : List SocketAct) :
    (acts.map (Obs.socket s) ++ [Obs.leave r s chain]).filterMap (Obs.roomAct? r') =
      if r = r' then [.leave s] else [] := by
  rw [List.filterMap_append, roomAct_socket, List.nil_append, List.filterMap_cons]
  by_cases hr : r = r' <;> simp [Obs.roomAct?, hr]

private theorem elsewhere_leave (hts : t ≠ s) (r : ServerId) (chain : Chain)
    (acts : List SocketAct) :
    Elsewhere t (acts.map (.socket s) ++ [.leave r s chain]) where
  acts := by simp [Obs.socketAct?, Ne.symm hts]
  pushed := by simp [Obs.pushed?]
  published := by simp [Obs.published?]
  started := by simp [Obs.joined?]

private theorem Inv.left_self (h : w.Inv) (hx : w.sessions s = some x)
    (hρ : x.handle e = some ρ) {chain : Chain} (hcall : ρ.call = .leave chain) :
    SessionInv (w.trace ++ (ρ.socket.map (.socket s) ++ [.leave x.room s chain]))
      (w.withRoom x.room
        { w.room x.room with participants := (w.room x.room).participants.erase s } x.room).room
      s ρ.session := by
  have hgone : s ∉ ((w.room x.room).participants.erase s).ids := by
    simp [PointerSet.mem_erase]
  rw [update_room, if_pos rfl]
  apply (h.session s x hx).react hρ
  · simp [hcall]
  · simp [Obs.socketAct?]
  · simp [Obs.pushed?]
  · simp [Obs.published?]
  · simp [Obs.joined?]
  · rw [roomLog_concat (roomAct_leave x.room x.room s chain _), if_pos rfl]
    exact Broadcast.segment_leave _
  · rw [roomLog_concat (roomAct_leave x.room x.room s chain _), if_pos rfl]
    exact ⟨fun hs => absurd hs hgone, fun hs => absurd hs Broadcast.not_present_leave_self⟩
  · intro hs
    exact absurd hs hgone

private theorem Inv.left_other (h : w.Inv) (hy : w.sessions t = some y) (hts : t ≠ s)
    (r : ServerId) (chain : Chain) (acts : List SocketAct) :
    SessionInv (w.trace ++ (acts.map (.socket s) ++ [.leave r s chain]))
      (w.withRoom r { w.room r with participants := (w.room r).participants.erase s }
        y.room).room t y := by
  apply (h.session t y hy).frame (elsewhere_leave hts r chain acts)
  · rw [roomLog_concat (roomAct_leave r y.room s chain acts)]
    split
    · exact Broadcast.segment_leave _
    · rfl
  · rw [roomLog_concat (roomAct_leave r y.room s chain acts)]
    split
    · exact Broadcast.present_leave_of_ne hts
    · rfl
  · exact mem_erase_withRoom hts

theorem Inv.left (h : w.Inv) {chain : Chain} (hx : w.sessions s = some x)
    (hρ : x.handle e = some ρ) (hcall : ρ.call = .leave chain) :
    Inv ⟨Function.update w.servers x.room { w.servers x.room with room :=
        { w.room x.room with participants := (w.room x.room).participants.erase s } },
      Function.update w.sessions s (some ρ.session),
      w.trace ++ (ρ.socket.map (.socket s) ++ [.leave x.room s chain])⟩ := by
  have hroom := ChatSession.handle_room hρ
  constructor
  case session =>
    intro t y hy
    by_cases hts : t = s
    · subst t
      simp only [Function.update_self, Option.some.injEq] at hy
      subst y
      rw [hroom]
      exact h.left_self hx hρ hcall
    · exact h.left_other ((Function.update_of_ne hts _ _).symm.trans hy) hts _ _ _
  case unstarted =>
    intro t ht
    by_cases hts : t = s
    · simp [hts] at ht
    · have ht' := (Function.update_of_ne hts _ _).symm.trans ht
      apply (h.unstarted t ht').frame (elsewhere_leave hts _ _ _)
      intro r
      rw [roomAct_leave]
      split <;> simp [hts]
  case member =>
    intro r t ht
    rw [room_mk, update_room] at ht
    have ht' : t ∈ (w.room r).participants.ids := by
      split at ht
      · rename_i hr
        rw [hr]
        exact (PointerSet.mem_erase.1 ht).2
      · exact ht
    exact h.member_update hx hroom ht'
  case recent =>
    have hnone : ∀ r, deliveredIn r (ρ.socket.map (.socket s) ++ [.leave x.room s chain]) = [] := by
      simp [Obs.delivered?]
    intro r
    apply h.recent_withRoom _ (fun r _ => hnone r)
    rw [deliveredIn_append, hnone, List.append_nil]
    exact h.recent x.room

/-! ### A session publishes -/

/-- What is seen when session `s` publishes a message in room `r`. -/
abbrev deliverObs (w : World) (s : SessionId) (acts : List SocketAct) (r : ServerId)
    (m : ChatMessage) : List Obs :=
  acts.map (.socket s) ++ .deliver r s m :: (w.room r).participants.ids.map fun p => .push p m

/-- The room after it. -/
abbrev deliverRoom (w : World) (r : ServerId) (m : ChatMessage) : ChatRoom :=
  { w.room r with recentMsgs := trimRecent ((w.room r).recentMsgs ++ [m]) }

variable {r : ServerId} {m : ChatMessage} {acts : List SocketAct}

private theorem roomAct_deliver (r' : ServerId) :
    (w.deliverObs s acts r m).filterMap (Obs.roomAct? r') =
      if r = r' then [.publish m] else [] := by
  rw [List.filterMap_append, roomAct_socket, List.nil_append, List.filterMap_cons]
  by_cases hr : r = r' <;> simp [Obs.roomAct?, hr]

private theorem pushedOn_deliver : pushedOn t (w.deliverObs s acts r m) =
    if t ∈ (w.room r).participants.ids then [m] else [] := by
  simp [Obs.pushed?, pushedOn_fanOut _ _ (w.room r).participants.nodup]

private theorem elsewhere_deliver (hts : t ≠ s) (ht : t ∉ (w.room r).participants.ids) :
    Elsewhere t (w.deliverObs s acts r m) where
  acts := by simp [Obs.socketAct?, Ne.symm hts]
  pushed := by rw [pushedOn_deliver, if_neg ht]
  published := by simp [Obs.published?, Ne.symm hts]
  started := by simp [Obs.joined?]

private theorem participants_deliverRoom (r' : ServerId) :
    (w.withRoom r (w.deliverRoom r m) r').room.participants = (w.room r').participants := by
  rw [update_room]
  split
  · rename_i hr
    rw [hr]
  · rfl

private theorem Inv.delivered_self (h : w.Inv) (hx : w.sessions s = some x)
    (hρ : x.handle e = some ρ) (hcall : ρ.call = .deliver m) :
    SessionInv (w.trace ++ w.deliverObs s ρ.socket x.room m)
      (w.withRoom x.room (w.deliverRoom x.room m) x.room).room s
      (if s ∈ (w.room x.room).participants.ids then ρ.session.deliver m
        else ρ.session).doReadHeader := by
  apply (h.session s x hx).publish hρ hcall
  · simp [Obs.socketAct?]
  · exact pushedOn_deliver
  · simp [Obs.published?]
  · simp [Obs.joined?]
  · rw [roomLog_concat (roomAct_deliver x.room), if_pos rfl]
    rfl
  · exact participants_deliverRoom x.room

private theorem Inv.delivered_member (h : w.Inv) (hy : w.sessions t = some y) (hts : t ≠ s)
    (ht : t ∈ (w.room y.room).participants.ids) :
    SessionInv (w.trace ++ w.deliverObs s acts y.room m)
      (w.withRoom y.room (w.deliverRoom y.room m) y.room).room t (y.deliver m) := by
  apply (h.session t y hy).deliver ht
  · simp [Obs.socketAct?, Ne.symm hts]
  · rw [pushedOn_deliver, if_pos ht]
  · simp [Obs.published?, Ne.symm hts]
  · simp [Obs.joined?]
  · rw [roomLog_concat (roomAct_deliver y.room), if_pos rfl]
    rfl
  · exact participants_deliverRoom y.room

private theorem Inv.delivered_other (h : w.Inv) (hy : w.sessions t = some y) (hts : t ≠ s)
    (ht : t ∉ (w.room r).participants.ids) :
    SessionInv (w.trace ++ w.deliverObs s acts r m)
      (w.withRoom r (w.deliverRoom r m) y.room).room t y := by
  have hout : r = y.room → ¬ (roomLog y.room w.trace).Present t := by
    intro hr hp
    rw [hr] at ht
    exact ht ((h.session t y hy).present.2 hp)
  apply (h.session t y hy).frame (elsewhere_deliver hts ht)
  · rw [roomLog_concat (roomAct_deliver y.room)]
    split
    · rename_i hr
      exact Broadcast.segment_publish_of_not_present (hout hr) m
    · rfl
  · rw [roomLog_concat (roomAct_deliver y.room)]
    split
    · exact Broadcast.present_publish m
    · rfl
  · rw [participants_deliverRoom]

/-- The sessions after it. -/
abbrev deliverSessions (w : World) (s : SessionId) (z : ChatSession) (r : ServerId)
    (m : ChatMessage) : SessionId → Option ChatSession := fun t =>
  if t = s then
    some (if s ∈ (w.room r).participants.ids then z.deliver m else z).doReadHeader
  else if t ∈ (w.room r).participants.ids then (w.sessions t).map fun y => y.deliver m
  else w.sessions t

private theorem Inv.delivered_session (h : w.Inv) (hx : w.sessions s = some x)
    (hρ : x.handle e = some ρ) (hcall : ρ.call = .deliver m)
    (hy : w.deliverSessions s ρ.session x.room m t = some y) :
    SessionInv (w.trace ++ w.deliverObs s ρ.socket x.room m)
      (w.withRoom x.room (w.deliverRoom x.room m) y.room).room t y := by
  by_cases hts : t = s
  · subst t
    simp only [deliverSessions, if_pos, Option.some.injEq] at hy
    have hyroom : y.room = x.room := by
      rw [← hy, ChatSession.doReadHeader_room]
      split <;> simp [ChatSession.handle_room hρ]
    rw [hyroom, ← hy]
    exact h.delivered_self hx hρ hcall
  · simp only [deliverSessions, if_neg hts] at hy
    by_cases htp : t ∈ (w.room x.room).participants.ids
    · obtain ⟨z, hz, hzr⟩ := h.member x.room t htp
      rw [if_pos htp, hz, Option.map_some, Option.some.injEq] at hy
      subst y
      rw [ChatSession.deliver_room, ← hzr]
      exact h.delivered_member hz hts (hzr ▸ htp)
    · rw [if_neg htp] at hy
      exact h.delivered_other hy hts htp

private theorem Inv.delivered_unstarted (h : w.Inv) {z : ChatSession}
    (ht : w.deliverSessions s z r m t = none) :
    Unstarted (w.trace ++ w.deliverObs s acts r m) t := by
  by_cases hts : t = s
  · simp [deliverSessions, hts] at ht
  · simp only [deliverSessions, if_neg hts] at ht
    have ht' : w.sessions t = none := by
      split at ht
      · exact Option.map_eq_none_iff.1 ht
      · exact ht
    have htp : t ∉ (w.room r).participants.ids := by
      intro hp
      obtain ⟨y, hy, -⟩ := h.member r t hp
      simp [ht'] at hy
    apply (h.unstarted t ht').frame (elsewhere_deliver hts htp)
    intro r'
    rw [roomAct_deliver]
    split <;> simp

private theorem Inv.delivered_found (h : w.Inv) (hx : w.sessions s = some x) {z : ChatSession}
    (hz : z.room = x.room) {r' : ServerId} (ht : t ∈ (w.room r').participants.ids) :
    ∃ y, w.deliverSessions s z r m t = some y ∧ y.room = r' := by
  obtain ⟨y, hy, hyr⟩ := h.member r' t ht
  by_cases hts : t = s
  · subst t
    rw [hx, Option.some.injEq] at hy
    refine ⟨_, if_pos rfl, ?_⟩
    rw [← hyr, ← hy, ChatSession.doReadHeader_room]
    split <;> simp [hz]
  · simp only [deliverSessions, if_neg hts]
    split
    · exact ⟨y.deliver m, by rw [hy, Option.map_some], hyr⟩
    · exact ⟨y, hy, hyr⟩

theorem Inv.delivered (h : w.Inv) (hx : w.sessions s = some x) (hρ : x.handle e = some ρ)
    (hcall : ρ.call = .deliver m) :
    Inv ⟨Function.update w.servers x.room { w.servers x.room with room :=
        { w.room x.room with
          recentMsgs := trimRecent ((w.room x.room).recentMsgs ++ [m]) } },
      fun t =>
        if t = s then
          some (if s ∈ (w.room x.room).participants.ids then ρ.session.deliver m
            else ρ.session).doReadHeader
        else if t ∈ (w.room x.room).participants.ids then
          (w.sessions t).map fun y => y.deliver m
        else w.sessions t,
      w.trace ++ (ρ.socket.map (.socket s) ++
        .deliver x.room s m :: (w.room x.room).participants.ids.map fun p => .push p m)⟩ := by
  constructor
  case session =>
    intro t y hy
    exact h.delivered_session hx hρ hcall hy
  case unstarted =>
    intro t ht
    exact h.delivered_unstarted ht
  case member =>
    intro r t ht
    rw [room_mk, participants_deliverRoom] at ht
    exact h.delivered_found hx (ChatSession.handle_room hρ) ht
  case recent =>
    intro r
    apply h.recent_withRoom
    · have hone : deliveredIn x.room (w.deliverObs s ρ.socket x.room m) = [m] := by
        simp [Obs.delivered?]
      rw [deliveredIn_append, hone, ← trimRecent_concat, ← h.recent]
    · intro r' hr
      simp [Obs.delivered?, Ne.symm hr]

end Reactions

theorem Inv.step (h : w.Inv) {e : Event} {w' : World} (he : w.step e = some w') : w'.Inv := by
  cases step_iff.1 he with
  | accepted hacc hnew => exact h.accepted hnew _ _
  | refused hacc => exact h
  | quiet hx hρ hcall => exact h.quiet hx hρ hcall
  | left hx hρ hcall => exact h.left hx hρ hcall
  | delivered hx hρ hcall => exact h.delivered hx hρ hcall

/-- The invariant holds in every reachable state of the program. -/
theorem inv_reachable {ports : Nat} (h : (chatServer ports).Reachable w) : w.Inv := by
  apply System.reachable_induction (M := chatServer ports) (P := Inv) (inv_init ports) _ h
  intro w e w' _ hw he
  exact hw.step he

theorem step_accepts {w' : World} {e : Event} (he : w.step e = some w') (r : ServerId) :
    (w'.servers r).accepts = (w.servers r).accepts := by
  cases step_iff.1 he with
  | accepted hacc hnew => exact update_accepts _ _ _ _
  | refused hacc => rfl
  | quiet hx hρ hcall => rfl
  | left hx hρ hcall => exact update_accepts _ _ _ _
  | delivered hx hρ hcall => exact update_accepts _ _ _ _

/-- Every server of the program has one accept outstanding. -/
theorem accepts_reachable {ports : Nat} (h : (chatServer ports).Reachable w) {r : ServerId}
    (hr : r < ports) : (w.servers r).accepts = 1 := by
  apply System.reachable_induction (M := chatServer ports)
    (P := fun w => (w.servers r).accepts = 1) _ _ h
  · simp [chatServer, init, hr, ChatServer.doAccept]
  · intro u e u' _ hu he
    rw [step_accepts he, hu]

/-- A step keeps every session in its room, and only adds to what it has published. -/
theorem step_session {w' : World} {e : Event} {t : SessionId} {y : ChatSession}
    (he : w.step e = some w') (hy : w.sessions t = some y) :
    (∃ y', w'.sessions t = some y' ∧ y'.room = y.room) ∧
      publishedBy t w.trace <+: publishedBy t w'.trace := by
  cases step_iff.1 he with
  | @accepted r' s pos storage hacc hnew =>
    have hts : t ≠ s := by
      intro hts
      rw [← hts, hy] at hnew
      exact absurd hnew (by simp)
    constructor
    · exact ⟨y, (Function.update_of_ne hts _ _).trans hy, rfl⟩
    · rw [publishedBy_append]
      exact List.prefix_append _ _
  | refused hacc => exact ⟨⟨y, hy, rfl⟩, List.prefix_rfl⟩
  | @quiet s e x ρ hx hρ hcall =>
    constructor
    · by_cases hts : t = s
      · subst t
        rw [hx, Option.some.injEq] at hy
        exact ⟨_, Function.update_self _ _ _, by rw [ChatSession.handle_room hρ, hy]⟩
      · exact ⟨y, (Function.update_of_ne hts _ _).trans hy, rfl⟩
    · rw [publishedBy_append]
      exact List.prefix_append _ _
  | @left s e x ρ chain hx hρ hcall =>
    constructor
    · by_cases hts : t = s
      · subst t
        rw [hx, Option.some.injEq] at hy
        exact ⟨_, Function.update_self _ _ _, by rw [ChatSession.handle_room hρ, hy]⟩
      · exact ⟨y, (Function.update_of_ne hts _ _).trans hy, rfl⟩
    · rw [publishedBy_append]
      exact List.prefix_append _ _
  | @delivered s e x ρ m hx hρ hcall =>
    constructor
    · by_cases hts : t = s
      · subst t
        rw [hx, Option.some.injEq] at hy
        subst y
        refine ⟨_, if_pos rfl, ?_⟩
        rw [ChatSession.doReadHeader_room, ← ChatSession.handle_room hρ]
        split <;> rfl
      · simp only [if_neg hts, hy, Option.map_some]
        split
        · exact ⟨y.deliver m, rfl, rfl⟩
        · exact ⟨y, rfl, rfl⟩
    · rw [publishedBy_append]
      exact List.prefix_append _ _

theorem started_exec {ports : Nat} {w' : World} {es : List Event} {t : SessionId}
    {y : ChatSession} (hy : w.sessions t = some y)
    (hrun : (chatServer ports).exec w es = some w') : ∃ y', w'.sessions t = some y' := by
  apply System.exec_induction (M := chatServer ports)
    (P := fun u => ∃ y', u.sessions t = some y') _ ⟨y, hy⟩ hrun
  rintro u e u' ⟨z, hz⟩ he
  obtain ⟨⟨z', hz', -⟩, -⟩ := step_session he hz
  exact ⟨z', hz'⟩

end World

end BoostLearning.Chat
