import BoostLearning.Chat.Server

/-!
# Reading the trace of the chat server

The history of one session and of one room, projected from what was seen of the whole program.
The history of a room is a run of the broadcast it implements.
-/

namespace BoostLearning.Chat

namespace Obs

def roomAct? (r : ServerId) : Obs → Option (RoomAct SessionId ChatMessage)
  | .join r' s => if r' = r then some (.join s) else none
  | .leave r' s _ => if r' = r then some (.leave s) else none
  | .deliver r' _ m => if r' = r then some (.publish m) else none
  | _ => none

def delivered? (r : ServerId) : Obs → Option ChatMessage
  | .deliver r' _ m => if r' = r then some m else none
  | _ => none

def published? (s : SessionId) : Obs → Option ChatMessage
  | .deliver _ s' m => if s' = s then some m else none
  | _ => none

def pushed? (s : SessionId) : Obs → Option ChatMessage
  | .push s' m => if s' = s then some m else none
  | _ => none

def joined? (s : SessionId) : Obs → Option ServerId
  | .join r s' => if s' = s then some r else none
  | _ => none

def socketAct? (s : SessionId) : Obs → Option SocketAct
  | .socket s' a => if s' = s then some a else none
  | _ => none

end Obs

/-- The messages passed to `chat_room::deliver` of a room. -/
def deliveredIn (r : ServerId) (tr : List Obs) : List ChatMessage :=
  tr.filterMap (Obs.delivered? r)

def publishedBy (s : SessionId) (tr : List Obs) : List ChatMessage :=
  tr.filterMap (Obs.published? s)

/-- The messages of a room that one of its sessions has delivered. -/
def sentBy (r : ServerId) (s : SessionId) (tr : List Obs) : List ChatMessage :=
  tr.filterMap fun
    | .deliver r' s' m => if r' = r ∧ s' = s then some m else none
    | _ => none

def pushedOn (s : SessionId) (tr : List Obs) : List ChatMessage := tr.filterMap (Obs.pushed? s)

def roomsOf (s : SessionId) (tr : List Obs) : List ServerId := tr.filterMap (Obs.joined? s)

def socketActs (s : SessionId) (tr : List Obs) : List SocketAct :=
  tr.filterMap (Obs.socketAct? s)

/-- The bytes a session has received, and those transmitted on its socket. -/
def inputOf (s : SessionId) (tr : List Obs) : List Byte :=
  (socketActs s tr).flatMap SocketAct.input

def wroteBy (s : SessionId) (tr : List Obs) : List Byte :=
  (socketActs s tr).flatMap SocketAct.output

/-- The broadcast a room implements. -/
def roomLog (r : ServerId) (tr : List Obs) : Broadcast SessionId ChatMessage :=
  Broadcast.run (tr.filterMap (Obs.roomAct? r))

section Projections

variable (r : ServerId) (s t : SessionId) (m : ChatMessage) (tr obs : List Obs)

theorem roomLog_append : roomLog r (tr ++ obs) =
    (obs.filterMap (Obs.roomAct? r)).foldl Broadcast.step (roomLog r tr) := by
  rw [roomLog, List.filterMap_append, Broadcast.run_append, roomLog]

@[simp]
theorem publishedBy_append : publishedBy s (tr ++ obs) = publishedBy s tr ++ publishedBy s obs :=
  List.filterMap_append

@[simp]
theorem pushedOn_append : pushedOn s (tr ++ obs) = pushedOn s tr ++ pushedOn s obs :=
  List.filterMap_append

@[simp]
theorem deliveredIn_append :
    deliveredIn r (tr ++ obs) = deliveredIn r tr ++ deliveredIn r obs :=
  List.filterMap_append

@[simp]
theorem socketActs_append : socketActs s (tr ++ obs) = socketActs s tr ++ socketActs s obs :=
  List.filterMap_append

@[simp]
theorem roomsOf_append : roomsOf s (tr ++ obs) = roomsOf s tr ++ roomsOf s obs :=
  List.filterMap_append

@[simp]
theorem publishedBy_cons (o : Obs) :
    publishedBy s (o :: tr) = (o.published? s).toList ++ publishedBy s tr := by
  cases h : o.published? s <;> simp [publishedBy, h]

@[simp]
theorem pushedOn_cons (o : Obs) :
    pushedOn s (o :: tr) = (o.pushed? s).toList ++ pushedOn s tr := by
  cases h : o.pushed? s <;> simp [pushedOn, h]

@[simp]
theorem deliveredIn_cons (o : Obs) :
    deliveredIn r (o :: tr) = (o.delivered? r).toList ++ deliveredIn r tr := by
  cases h : o.delivered? r <;> simp [deliveredIn, h]

@[simp]
theorem socketActs_cons (o : Obs) :
    socketActs s (o :: tr) = (o.socketAct? s).toList ++ socketActs s tr := by
  cases h : o.socketAct? s <;> simp [socketActs, h]

@[simp]
theorem roomsOf_cons (o : Obs) : roomsOf s (o :: tr) = (o.joined? s).toList ++ roomsOf s tr := by
  cases h : o.joined? s <;> simp [roomsOf, h]

@[simp]
theorem roomsOf_nil : roomsOf s [] = [] := rfl

@[simp]
theorem publishedBy_nil : publishedBy s [] = [] := rfl

@[simp]
theorem pushedOn_nil : pushedOn s [] = [] := rfl

@[simp]
theorem deliveredIn_nil : deliveredIn r [] = [] := rfl

@[simp]
theorem socketActs_nil : socketActs s [] = [] := rfl

/-! Pushes and socket events touch one history each. -/

private theorem filterMap_map_none {α β γ : Type} (f : β → Option γ) (g : α → β) (l : List α)
    (h : ∀ a, f (g a) = none) : (l.map g).filterMap f = [] := by
  rw [List.filterMap_map]
  exact List.filterMap_eq_nil_iff.2 fun a _ => h a

@[simp]
theorem roomAct_replay (ms : List ChatMessage) :
    (ms.map (Obs.push s)).filterMap (Obs.roomAct? r) = [] :=
  filterMap_map_none _ _ _ fun _ => rfl

@[simp]
theorem roomAct_socket (acts : List SocketAct) :
    (acts.map (Obs.socket s)).filterMap (Obs.roomAct? r) = [] :=
  filterMap_map_none _ _ _ fun _ => rfl

@[simp]
theorem roomsOf_fanOut (ids : List SessionId) : roomsOf s (ids.map fun p => .push p m) = [] :=
  filterMap_map_none _ _ _ fun _ => rfl

@[simp]
theorem roomsOf_replay (ms : List ChatMessage) : roomsOf t (ms.map (.push s)) = [] :=
  filterMap_map_none _ _ _ fun _ => rfl

@[simp]
theorem roomsOf_socket (acts : List SocketAct) : roomsOf t (acts.map (.socket s)) = [] :=
  filterMap_map_none _ _ _ fun _ => rfl

@[simp]
theorem deliveredIn_fanOut (ids : List SessionId) :
    deliveredIn r (ids.map fun p => .push p m) = [] :=
  filterMap_map_none _ _ _ fun _ => rfl

@[simp]
theorem deliveredIn_replay (ms : List ChatMessage) : deliveredIn r (ms.map (.push s)) = [] :=
  filterMap_map_none _ _ _ fun _ => rfl

@[simp]
theorem deliveredIn_socket (acts : List SocketAct) : deliveredIn r (acts.map (.socket s)) = [] :=
  filterMap_map_none _ _ _ fun _ => rfl

@[simp]
theorem publishedBy_fanOut (ids : List SessionId) :
    publishedBy s (ids.map fun p => .push p m) = [] :=
  filterMap_map_none _ _ _ fun _ => rfl

@[simp]
theorem publishedBy_replay (ms : List ChatMessage) : publishedBy t (ms.map (.push s)) = [] :=
  filterMap_map_none _ _ _ fun _ => rfl

@[simp]
theorem publishedBy_socket (acts : List SocketAct) : publishedBy t (acts.map (.socket s)) = [] :=
  filterMap_map_none _ _ _ fun _ => rfl

@[simp]
theorem socketActs_fanOut (ids : List SessionId) :
    socketActs s (ids.map fun p => .push p m) = [] :=
  filterMap_map_none _ _ _ fun _ => rfl

@[simp]
theorem socketActs_replay (ms : List ChatMessage) : socketActs t (ms.map (.push s)) = [] :=
  filterMap_map_none _ _ _ fun _ => rfl

@[simp]
theorem socketActs_socket (acts : List SocketAct) :
    socketActs t (acts.map (.socket s)) = if s = t then acts else [] := by
  by_cases h : s = t
  · simp [socketActs, List.filterMap_map, Function.comp_def, Obs.socketAct?, h]
  · simp only [if_neg h]
    apply filterMap_map_none
    intro a
    simp [Obs.socketAct?, h]

@[simp]
theorem pushedOn_socket (acts : List SocketAct) : pushedOn t (acts.map (.socket s)) = [] :=
  filterMap_map_none _ _ _ fun _ => rfl

@[simp]
theorem pushedOn_replay (ms : List ChatMessage) :
    pushedOn t (ms.map (.push s)) = if s = t then ms else [] := by
  by_cases h : s = t
  · simp [pushedOn, List.filterMap_map, Function.comp_def, Obs.pushed?, h]
  · simp only [if_neg h]
    apply filterMap_map_none
    intro a
    simp [Obs.pushed?, h]

theorem pushedOn_fanOut {ids : List SessionId} (hids : ids.Nodup) :
    pushedOn s (ids.map fun p => .push p m) = if s ∈ ids then [m] else [] := by
  induction ids with
  | nil => simp
  | cons p ids ih =>
    have hp : p ∉ ids := (List.nodup_cons.1 hids).1
    rw [List.map_cons, pushedOn_cons, ih (List.nodup_cons.1 hids).2]
    by_cases h : s = p
    · subst p
      simp [Obs.pushed?, hp]
    · simp [Obs.pushed?, h, Ne.symm h]

end Projections

/-- The log of the broadcast is what was passed to `deliver`. -/
theorem roomLog_log (r : ServerId) (tr : List Obs) : (roomLog r tr).log = deliveredIn r tr := by
  induction tr using List.reverseRecOn with
  | nil => rfl
  | append_singleton tr o ih =>
    rw [roomLog_append, deliveredIn_append, ← ih]
    cases o with
    | join r' s =>
      by_cases h : r' = r <;>
        simp [Obs.roomAct?, Obs.delivered?, h, Broadcast.step, Broadcast.join]
    | leave r' s chain =>
      by_cases h : r' = r <;>
        simp [Obs.roomAct?, Obs.delivered?, h, Broadcast.step, Broadcast.leave]
    | deliver r' s m =>
      by_cases h : r' = r <;>
        simp [Obs.roomAct?, Obs.delivered?, h, Broadcast.step, Broadcast.publish]
    | push s m => simp [Obs.roomAct?, Obs.delivered?, List.filterMap_cons]
    | socket s a => simp [Obs.roomAct?, Obs.delivered?, List.filterMap_cons]

end BoostLearning.Chat
