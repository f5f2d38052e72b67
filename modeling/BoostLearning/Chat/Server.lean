import BoostLearning.Chat.Session
import BoostLearning.Framework.Broadcast
import BoostLearning.Framework.Transition

/-!
# The chat server program

`main` owns one `io_context` and one `chat_server` for each port, every server a room. A state is
what the program holds between two handlers; an event is one completion, or one step of an
outstanding operation. Handlers run one at a time and never inside the call that starts an
operation. The trace is a history variable: what an observer of the rooms and of the sockets
has seen. No handler reads it.
-/

namespace BoostLearning.Chat

def maxRecentMsgs : Nat := 100

/-- `std::set` of pointers, listed in its iteration order. -/
structure PointerSet where
  ids : List SessionId
  nodup : ids.Nodup
deriving DecidableEq

namespace PointerSet

def empty : PointerSet := ⟨[], List.nodup_nil⟩

/-- Where the new pointer sorts depends on its address, here on `pos`. -/
def insert (p : PointerSet) (id : SessionId) (pos : Nat) : PointerSet :=
  if h : id ∈ p.ids then p
  else
    ⟨p.ids.take pos ++ id :: p.ids.drop pos, by
      rw [List.perm_middle.nodup_iff, List.take_append_drop]
      exact List.nodup_cons.2 ⟨h, p.nodup⟩⟩

def erase (p : PointerSet) (id : SessionId) : PointerSet := ⟨p.ids.erase id, p.nodup.erase id⟩

theorem mem_insert {p : PointerSet} {id id' : SessionId} {pos : Nat} :
    id' ∈ (p.insert id pos).ids ↔ id' = id ∨ id' ∈ p.ids := by
  unfold insert
  split
  · rename_i h
    constructor
    · exact Or.inr
    · rintro (rfl | h')
      · exact h
      · exact h'
  · rw [List.mem_append, List.mem_cons, or_left_comm, ← List.mem_append, List.take_append_drop]

theorem mem_erase {p : PointerSet} {id id' : SessionId} :
    id' ∈ (p.erase id).ids ↔ id' ≠ id ∧ id' ∈ p.ids := p.nodup.mem_erase_iff

end PointerSet

/-- `while (_recent_msgs.size() > max_recent_msgs) _recent_msgs.pop_front();` -/
def trimRecent : List ChatMessage → List ChatMessage
  | [] => []
  | m :: ms => if (m :: ms).length > maxRecentMsgs then trimRecent ms else m :: ms

theorem trimRecent_eq (ms : List ChatMessage) :
    trimRecent ms = ms.drop (ms.length - maxRecentMsgs) := by
  induction ms with
  | nil => rfl
  | cons m ms ih =>
    unfold trimRecent
    split
    · rename_i h
      simp only [List.length_cons] at h
      rw [ih, List.length_cons, show ms.length + 1 - maxRecentMsgs =
        (ms.length - maxRecentMsgs) + 1 by omega, List.drop_succ_cons]
    · rename_i h
      rw [Nat.sub_eq_zero_of_le (by omega), List.drop_zero]

/-- `_participants` and `_recent_msgs`. -/
structure ChatRoom where
  participants : PointerSet
  recentMsgs : List ChatMessage
deriving DecidableEq

def ChatRoom.empty : ChatRoom := ⟨.empty, []⟩

/-- A `chat_server`: its room and the number of outstanding `async_accept`s. -/
structure ChatServer where
  accepts : Nat
  room : ChatRoom
deriving DecidableEq

def ChatServer.doAccept (v : ChatServer) : ChatServer := { v with accepts := v.accepts + 1 }

/-- What is seen of the program: calls on the rooms, pushes on `_write_msgs`, and the sockets. -/
inductive Obs where
  | join (r : ServerId) (s : SessionId)
  | leave (r : ServerId) (s : SessionId) (chain : Chain)
  | deliver (r : ServerId) (s : SessionId) (msg : ChatMessage)
  | push (s : SessionId) (msg : ChatMessage)
  | socket (s : SessionId) (act : SocketAct)
deriving DecidableEq

/-- The servers, the sessions that were ever started, and the trace. -/
structure World where
  servers : ServerId → ChatServer
  sessions : SessionId → Option ChatSession
  trace : List Obs

/-- Completions of the accepts, and the events of the sessions. A new session gets an id, a
position in the set of participants and some storage. -/
inductive Event where
  | acceptDone (r : ServerId) (s : SessionId) (pos : Nat) (storage : Storage)
  | acceptFailed (r : ServerId)
  | session (s : SessionId) (e : SessionEvent)
deriving DecidableEq

namespace World

def room (w : World) (r : ServerId) : ChatRoom := (w.servers r).room

def emit (w : World) (obs : List Obs) : World := { w with trace := w.trace ++ obs }

def setRoom (w : World) (r : ServerId) (room : ChatRoom) : World :=
  { w with servers := Function.update w.servers r { w.servers r with room := room } }

def setSession (w : World) (s : SessionId) (x : ChatSession) : World :=
  { w with sessions := Function.update w.sessions s (some x) }

def callSession (w : World) (s : SessionId) (f : ChatSession → ChatSession) : World :=
  match w.sessions s with
  | none => w
  | some x => w.setSession s (f x)

/-- `participant->deliver(msg)`. -/
def deliverTo (w : World) (s : SessionId) (msg : ChatMessage) : World :=
  (w.emit [.push s msg]).callSession s fun x => x.deliver msg

def join (w : World) (r : ServerId) (s : SessionId) (pos : Nat) : World :=
  let w := w.emit [.join r s]
  let w := w.setRoom r
    { w.room r with participants := (w.room r).participants.insert s pos }
  (w.room r).recentMsgs.foldl (fun w msg => w.deliverTo s msg) w

def leave (w : World) (r : ServerId) (s : SessionId) (chain : Chain) : World :=
  let w := w.emit [.leave r s chain]
  w.setRoom r { w.room r with participants := (w.room r).participants.erase s }

def deliver (w : World) (r : ServerId) (s : SessionId) (msg : ChatMessage) : World :=
  let w := w.emit [.deliver r s msg]
  let w := w.setRoom r
    { w.room r with recentMsgs := trimRecent ((w.room r).recentMsgs ++ [msg]) }
  (w.room r).participants.ids.foldl (fun w p => w.deliverTo p msg) w

def start (w : World) (r : ServerId) (s : SessionId) (pos : Nat) : World :=
  (w.join r s pos).callSession s ChatSession.doReadHeader

def setServer (w : World) (r : ServerId) (v : ChatServer) : World :=
  { w with servers := Function.update w.servers r v }

def doAccept (w : World) (r : ServerId) : World := w.setServer r (w.servers r).doAccept

def takeAccept (w : World) (r : ServerId) : World :=
  w.setServer r { w.servers r with accepts := (w.servers r).accepts - 1 }

/-- The handler of `do_accept` for a new connection. -/
def onAccept (w : World) (r : ServerId) (s : SessionId) (pos : Nat) (storage : Storage) : World :=
  ((w.setSession s (.init r storage)).start r s pos).doAccept r

def perform (w : World) (s : SessionId) (ρ : Reaction) : World :=
  let w := (w.emit (ρ.socket.map (.socket s))).setSession s ρ.session
  match ρ.call with
  | .none => w
  | .leave chain => w.leave ρ.session.room s chain
  | .deliver msg => (w.deliver ρ.session.room s msg).callSession s ChatSession.doReadHeader

/-- One event; `none` when no outstanding operation allows it. -/
def step (w : World) : Event → Option World
  | .acceptDone r s pos storage =>
    if 0 < (w.servers r).accepts ∧ (w.sessions s).isNone then
      some ((w.takeAccept r).onAccept r s pos storage)
    else none
  | .acceptFailed r =>
    if 0 < (w.servers r).accepts then some ((w.takeAccept r).doAccept r) else none
  | .session s e => (w.sessions s).bind fun x => (x.handle e).map (w.perform s)

/-- `main`: one server for each of the ports, each with its first `do_accept`. -/
def init (ports : Nat) : World where
  servers := fun r =>
    let server : ChatServer := ⟨0, .empty⟩
    if r < ports then server.doAccept else server
  sessions := fun _ => none
  trace := []

end World

def chatServer (ports : Nat) : System World Event := ⟨World.init ports, World.step⟩

/-- The events of a session that receives one frame, undisturbed. -/
def receiveFrame (s : SessionId) (header body : List Byte) : List Event :=
  [.session s (.receive 0 header), .session s (.readDone 0 .success),
    .session s (.receive 0 body), .session s (.readDone 0 .success)]

/-! ## What a step does to the state -/

namespace World

variable {w w' : World} {s t : SessionId} {r : ServerId}

@[simp]
theorem emit_sessions (obs : List Obs) : (w.emit obs).sessions = w.sessions := rfl

@[simp]
theorem emit_servers (obs : List Obs) : (w.emit obs).servers = w.servers := rfl

@[simp]
theorem emit_trace (obs : List Obs) : (w.emit obs).trace = w.trace ++ obs := rfl

@[simp]
theorem callSession_servers (f : ChatSession → ChatSession) :
    (w.callSession s f).servers = w.servers := by
  unfold callSession
  split <;> rfl

@[simp]
theorem callSession_trace (f : ChatSession → ChatSession) :
    (w.callSession s f).trace = w.trace := by
  unfold callSession
  split <;> rfl

theorem callSession_sessions (f : ChatSession → ChatSession) :
    (w.callSession s f).sessions = Function.update w.sessions s ((w.sessions s).map f) := by
  unfold callSession
  cases h : w.sessions s with
  | none => exact (Function.update_eq_self_iff.2 (by simp [h])).symm
  | some x => rfl

@[simp]
theorem deliverTo_servers (m : ChatMessage) : (w.deliverTo s m).servers = w.servers := by
  simp [deliverTo]

@[simp]
theorem deliverTo_trace (m : ChatMessage) : (w.deliverTo s m).trace = w.trace ++ [.push s m] := by
  simp [deliverTo]

private theorem deliverTo_sessions (m : ChatMessage) : (w.deliverTo s m).sessions =
    Function.update w.sessions s ((w.sessions s).map fun x => x.deliver m) := by
  simp [deliverTo, callSession_sessions]

private theorem replay_eq (ms : List ChatMessage) (w : World) (s : SessionId) :
    ms.foldl (fun w msg => w.deliverTo s msg) w =
      ⟨w.servers, Function.update w.sessions s
        ((w.sessions s).map fun x => ms.foldl ChatSession.deliver x),
        w.trace ++ ms.map (.push s)⟩ := by
  induction ms generalizing w with
  | nil => simp
  | cons m ms ih =>
    simp only [List.foldl_cons, ih, deliverTo_servers, deliverTo_trace, deliverTo_sessions,
      Function.update_idem, Function.update_self, Option.map_map, List.map_cons,
      List.append_assoc, List.singleton_append]
    rfl

private theorem fanOut_eq (ids : List SessionId) (hids : ids.Nodup) (w : World) (m : ChatMessage) :
    ids.foldl (fun w p => w.deliverTo p m) w =
      ⟨w.servers, fun t =>
        if t ∈ ids then (w.sessions t).map fun x => x.deliver m else w.sessions t,
        w.trace ++ ids.map fun p => .push p m⟩ := by
  induction ids generalizing w with
  | nil => simp
  | cons p ids ih =>
    have hp : p ∉ ids := (List.nodup_cons.1 hids).1
    simp only [List.foldl_cons, ih (List.nodup_cons.1 hids).2, deliverTo_servers,
      deliverTo_trace, deliverTo_sessions, List.map_cons, List.append_assoc,
      List.singleton_append, World.mk.injEq, true_and, and_true]
    funext t
    by_cases htp : t = p
    · subst t
      simp [hp]
    · simp [htp]

private theorem deliver_eq (w : World) (r : ServerId) (s : SessionId) (m : ChatMessage) :
    w.deliver r s m =
      ⟨Function.update w.servers r { w.servers r with room :=
          { w.room r with recentMsgs := trimRecent ((w.room r).recentMsgs ++ [m]) } },
        fun t => if t ∈ (w.room r).participants.ids then
          (w.sessions t).map fun x => x.deliver m else w.sessions t,
        w.trace ++ .deliver r s m :: (w.room r).participants.ids.map fun p => .push p m⟩ := by
  simp only [deliver, fanOut_eq _ (PointerSet.nodup _)]
  simp [setRoom, emit, room]
  rfl

private theorem join_eq (w : World) (r : ServerId) (s : SessionId) (pos : Nat) :
    w.join r s pos =
      ⟨Function.update w.servers r { w.servers r with room :=
          { w.room r with participants := (w.room r).participants.insert s pos } },
        Function.update w.sessions s ((w.sessions s).map fun x =>
          (w.room r).recentMsgs.foldl ChatSession.deliver x),
        w.trace ++ .join r s :: (w.room r).recentMsgs.map (.push s)⟩ := by
  simp only [join, replay_eq]
  simp [setRoom, emit, room]

end World

/-- Everything a step can do, with the state it leads to written out. -/
inductive Effect (w : World) : Event → World → Prop
  | accepted {r : ServerId} {s : SessionId} {pos : Nat} {storage : Storage}
      (hacc : 0 < (w.servers r).accepts) (hnew : w.sessions s = none) :
      Effect w (.acceptDone r s pos storage)
        ⟨Function.update w.servers r { w.servers r with room :=
            { w.room r with participants := (w.room r).participants.insert s pos } },
          Function.update w.sessions s (some ((w.room r).recentMsgs.foldl ChatSession.deliver
            (.init r storage)).doReadHeader),
          w.trace ++ .join r s :: (w.room r).recentMsgs.map (.push s)⟩
  | refused {r : ServerId} (hacc : 0 < (w.servers r).accepts) : Effect w (.acceptFailed r) w
  | quiet {s : SessionId} {e : SessionEvent} {x : ChatSession} {ρ : Reaction}
      (hx : w.sessions s = some x) (hρ : x.handle e = some ρ) (hcall : ρ.call = .none) :
      Effect w (.session s e)
        ⟨w.servers, Function.update w.sessions s (some ρ.session),
          w.trace ++ ρ.socket.map (.socket s)⟩
  | left {s : SessionId} {e : SessionEvent} {x : ChatSession} {ρ : Reaction} {chain : Chain}
      (hx : w.sessions s = some x) (hρ : x.handle e = some ρ) (hcall : ρ.call = .leave chain) :
      Effect w (.session s e)
        ⟨Function.update w.servers x.room { w.servers x.room with room :=
            { w.room x.room with participants := (w.room x.room).participants.erase s } },
          Function.update w.sessions s (some ρ.session),
          w.trace ++ (ρ.socket.map (.socket s) ++ [.leave x.room s chain])⟩
  | delivered {s : SessionId} {e : SessionEvent} {x : ChatSession} {ρ : Reaction}
      {m : ChatMessage} (hx : w.sessions s = some x) (hρ : x.handle e = some ρ)
      (hcall : ρ.call = .deliver m) :
      Effect w (.session s e)
        ⟨Function.update w.servers x.room { w.servers x.room with room :=
            { w.room x.room with
              recentMsgs := trimRecent ((w.room x.room).recentMsgs ++ [m]) } },
          fun t =>
            if t = s then
              some (if s ∈ (w.room x.room).participants.ids then ρ.session.deliver m
                else ρ.session).doReadHeader
            else if t ∈ (w.room x.room).participants.ids then
              (w.sessions t).map fun y => y.deliver m
            else w.sessions t,
          w.trace ++ (ρ.socket.map (.socket s) ++
            .deliver x.room s m :: (w.room x.room).participants.ids.map fun p => .push p m)⟩

namespace World

private theorem accept_eq (w : World) (r : ServerId) (s : SessionId) (pos : Nat)
    (storage : Storage) (hacc : 0 < (w.servers r).accepts) :
    (w.takeAccept r).onAccept r s pos storage =
      ⟨Function.update w.servers r { w.servers r with room :=
          { w.room r with participants := (w.room r).participants.insert s pos } },
        Function.update w.sessions s (some ((w.room r).recentMsgs.foldl ChatSession.deliver
          (.init r storage)).doReadHeader),
        w.trace ++ .join r s :: (w.room r).recentMsgs.map (.push s)⟩ := by
  have hcount : (w.servers r).accepts - 1 + 1 = (w.servers r).accepts := by omega
  simp [onAccept, start, join_eq, takeAccept, doAccept, setServer, setSession, callSession, room,
    ChatServer.doAccept, hcount]

private theorem reaccept_eq (w : World) (r : ServerId) (hacc : 0 < (w.servers r).accepts) :
    (w.takeAccept r).doAccept r = w := by
  have hcount : (w.servers r).accepts - 1 + 1 = (w.servers r).accepts := by omega
  simp [takeAccept, doAccept, setServer, ChatServer.doAccept, hcount]

private theorem perform_leave_eq (w : World) (s : SessionId) (ρ : Reaction) (chain : Chain)
    (hcall : ρ.call = .leave chain) : w.perform s ρ =
      ⟨Function.update w.servers ρ.session.room { w.servers ρ.session.room with room :=
          { w.room ρ.session.room with
            participants := (w.room ρ.session.room).participants.erase s } },
        Function.update w.sessions s (some ρ.session),
        w.trace ++ (ρ.socket.map (.socket s) ++ [.leave ρ.session.room s chain])⟩ := by
  simp [perform, hcall, leave, setRoom, emit, setSession, room]

private theorem perform_deliver_eq (w : World) (s : SessionId) (ρ : Reaction) (m : ChatMessage)
    (hcall : ρ.call = .deliver m) : w.perform s ρ =
      ⟨Function.update w.servers ρ.session.room { w.servers ρ.session.room with room :=
          { w.room ρ.session.room with
            recentMsgs := trimRecent ((w.room ρ.session.room).recentMsgs ++ [m]) } },
        fun t =>
          if t = s then
            some (if s ∈ (w.room ρ.session.room).participants.ids then ρ.session.deliver m
              else ρ.session).doReadHeader
          else if t ∈ (w.room ρ.session.room).participants.ids then
            (w.sessions t).map fun y => y.deliver m
          else w.sessions t,
        w.trace ++ (ρ.socket.map (.socket s) ++
          .deliver ρ.session.room s m ::
            (w.room ρ.session.room).participants.ids.map fun p => .push p m)⟩ := by
  simp only [perform, hcall, deliver_eq, emit, setSession, room, callSession,
    Function.update_self, Option.map_some, List.append_assoc]
  by_cases hs : s ∈ (w.servers ρ.session.room).room.participants.ids
  · simp only [if_pos hs, World.mk.injEq, true_and, and_true]
    funext t
    by_cases ht : t = s
    · simp [ht, hs]
    · simp only [Function.update_of_ne ht, if_neg ht]
      rfl
  · simp only [if_neg hs, World.mk.injEq, true_and, and_true]
    funext t
    by_cases ht : t = s
    · simp [ht, hs]
    · simp only [Function.update_of_ne ht, if_neg ht]
      rfl

/-- The steps of the program are the effects. -/
theorem step_iff {w w' : World} {e : Event} : w.step e = some w' ↔ Effect w e w' := by
  constructor
  · intro h
    cases e with
    | acceptDone r s pos storage =>
      simp only [step] at h
      split at h
      · rename_i hacc
        rw [accept_eq w r s pos storage hacc.1, Option.some.injEq] at h
        exact h ▸ .accepted hacc.1 (Option.isNone_iff_eq_none.1 hacc.2)
      · exact absurd h (by simp)
    | acceptFailed r =>
      simp only [step] at h
      split at h
      · rename_i hacc
        rw [reaccept_eq w r hacc, Option.some.injEq] at h
        exact h ▸ .refused hacc
      · exact absurd h (by simp)
    | session s e =>
      obtain ⟨x, hx, hmap⟩ := Option.bind_eq_some_iff.1 h
      obtain ⟨ρ, hρ, rfl⟩ := Option.map_eq_some_iff.1 hmap
      cases hcall : ρ.call with
      | none =>
        have heq : w.perform s ρ = ⟨w.servers, Function.update w.sessions s (some ρ.session),
            w.trace ++ ρ.socket.map (.socket s)⟩ := by
          simp [perform, hcall, emit, setSession]
        exact heq ▸ .quiet hx hρ hcall
      | leave chain =>
        rw [perform_leave_eq w s ρ chain hcall, ChatSession.handle_room hρ]
        exact .left hx hρ hcall
      | deliver m =>
        rw [perform_deliver_eq w s ρ m hcall, ChatSession.handle_room hρ]
        exact .delivered hx hρ hcall
  · intro h
    cases h with
    | accepted hacc hnew => simp [step, hacc, hnew, accept_eq w _ _ _ _ hacc]
    | refused hacc => simp [step, hacc, reaccept_eq w _ hacc]
    | quiet hx hρ hcall => simp [step, hx, hρ, perform, hcall, emit, setSession]
    | left hx hρ hcall =>
      simp [step, hx, hρ, perform_leave_eq w _ _ _ hcall, ChatSession.handle_room hρ]
    | delivered hx hρ hcall =>
      simp [step, hx, hρ, perform_deliver_eq w _ _ _ hcall, ChatSession.handle_room hρ]

end World

end BoostLearning.Chat
