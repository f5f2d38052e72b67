import BoostLearning.Chat.ServerInvariant
import BoostLearning.Framework.SharedOwnership
import Mathlib.Data.List.Perm.Lattice

/-!
# The lifetime of a session

Nothing but `shared_ptr`s owns a `chat_session`: the set of participants, the handlers of the
outstanding operations, each of which has captured `self`, and for the time of a call its
parameters and local variables. Here every copy of a pointer is counted when it is made and when
it is destroyed. The address of a session is its id.
-/

namespace BoostLearning.Chat

def ChatSession.operations (x : ChatSession) : Nat :=
  x.reads.reads.length + x.writes.writes.length

def World.operations (w : World) (s : SessionId) : Nat :=
  (w.sessions s).elim 0 ChatSession.operations

/-- The program, the counted sessions, the pointers that handlers have captured, and the calls on a
session that was gone. -/
structure Shared where
  world : World
  heap : Heap Unit
  held : List SessionId
  dangling : List SessionId

def SessionEvent.completes : SessionEvent → Bool
  | .readDone _ _ => true
  | .writeDone _ _ => true
  | _ => false

namespace Shared

def copy (m : Shared) (s : SessionId) : Shared := { m with heap := m.heap.copy s }

def drop (m : Shared) (s : SessionId) : Shared := { m with heap := m.heap.drop s }

def touch (m : Shared) (s : SessionId) : Shared :=
  if (m.heap.get s).isSome then m else { m with dangling := m.dangling ++ [s] }

/-- `auto self(shared_from_this())`, and its copy in the handler. -/
def capture (m : Shared) (s : SessionId) : Shared :=
  (({ m with held := m.held ++ [s] }.copy s).copy s).drop s

/-- A member function that captures a pointer when it starts an operation. -/
def call (m : Shared) (s : SessionId) (f : World → World) : Shared :=
  let m' := { m with world := f m.world }
  if m.world.operations s < m'.world.operations s then m'.capture s else m'

def deliverTo (m : Shared) (s : SessionId) (msg : ChatMessage) : Shared :=
  (m.touch s).call s fun w => w.deliverTo s msg

def doReadHeader (m : Shared) (s : SessionId) : Shared :=
  (m.touch s).call s fun w => w.callSession s ChatSession.doReadHeader

/-- `chat_room::join`, whose parameter is a copy, as is the element of the set. -/
def join (m : Shared) (r : ServerId) (s : SessionId) (pos : Nat) : Shared :=
  let m := m.copy s
  let m := if s ∈ (m.world.room r).participants.ids then m else m.copy s
  let w := m.world.emit [.join r s]
  let room := { w.room r with participants := (w.room r).participants.insert s pos }
  let m := { m with world := w.setRoom r room }
  ((m.world.room r).recentMsgs.foldl (fun m msg => m.deliverTo s msg) m).drop s

def leave (m : Shared) (r : ServerId) (s : SessionId) (chain : Chain) : Shared :=
  let m := m.copy s
  let m := if s ∈ (m.world.room r).participants.ids then m.drop s else m
  { m with world := m.world.leave r s chain }.drop s

/-- `chat_room::deliver`: the variable of the loop is a copy. -/
def deliver (m : Shared) (r : ServerId) (s : SessionId) (msg : ChatMessage) : Shared :=
  let w := m.world.emit [.deliver r s msg]
  let room := { w.room r with recentMsgs := trimRecent ((w.room r).recentMsgs ++ [msg]) }
  let m := { m with world := w.setRoom r room }
  (m.world.room r).participants.ids.foldl (fun m p => ((m.copy p).deliverTo p msg).drop p) m

def start (m : Shared) (r : ServerId) (s : SessionId) (pos : Nat) : Shared :=
  ((m.touch s).join r s pos).doReadHeader s

/-- The handler of `do_accept`: the pointer of `make_shared` lives until `start` returns. -/
def onAccept (m : Shared) (r : ServerId) (s : SessionId) (pos : Nat) (storage : Storage) : Shared :=
  let m := { m with world := m.world.setSession s (.init r storage), heap := (m.heap.make ()).2 }
  let m := (m.start r s pos).drop s
  { m with world := m.world.doAccept r }

/-- An operation of session `s` has completed, and its handler may start the next one. -/
def resume (m : Shared) (s : SessionId) (x : ChatSession) (ρ : Reaction) : Shared :=
  let m := { m with
    world := (m.world.emit (ρ.socket.map (.socket s))).setSession s ρ.session
    held := m.held.erase s }
  if x.operations = ρ.session.operations then m.capture s else m

/-- Run the handler, and destroy it with its pointer. -/
def perform (m : Shared) (s : SessionId) (x : ChatSession) (ρ : Reaction) : Shared :=
  let m := (m.touch s).resume s x ρ
  let m := match ρ.call with
    | .none => m
    | .leave chain => m.leave ρ.session.room s chain
    | .deliver msg => (m.deliver ρ.session.room s msg).doReadHeader s
  m.drop s

/-- One event. A new session is at the next address. -/
def step (m : Shared) : Event → Option Shared
  | .acceptDone r s pos storage =>
    if 0 < (m.world.servers r).accepts ∧ (m.world.sessions s).isNone ∧ s = m.heap.next then
      some ({ m with world := m.world.takeAccept r }.onAccept r s pos storage)
    else none
  | .acceptFailed r =>
    if 0 < (m.world.servers r).accepts then
      some { m with world := (m.world.takeAccept r).doAccept r }
    else none
  | .session s e =>
    (m.world.sessions s).bind fun x => (x.handle e).map fun ρ =>
      if e.completes then m.perform s x ρ else { m with world := m.world.perform s ρ }

end Shared

def sharedServer (ports : Nat) : System Shared Event :=
  ⟨⟨World.init ports, .empty, [], []⟩, Shared.step⟩

namespace Shared

variable {m m' : Shared} {s t : SessionId} {r : ServerId} {ports : Nat} {locals : List SessionId}

/-! ## The program underneath -/

@[simp] theorem copy_world : (m.copy s).world = m.world := rfl

@[simp] theorem drop_world : (m.drop s).world = m.world := rfl

@[simp] theorem touch_world : (m.touch s).world = m.world := by
  unfold touch
  split <;> rfl

@[simp] theorem capture_world : (m.capture s).world = m.world := rfl

@[simp] theorem call_world (f : World → World) : (m.call s f).world = f m.world := by
  simp only [call]
  split <;> rfl

@[simp] theorem deliverTo_world (msg : ChatMessage) :
    (m.deliverTo s msg).world = m.world.deliverTo s msg := by
  simp [deliverTo]

@[simp] theorem doReadHeader_world :
    (m.doReadHeader s).world = m.world.callSession s ChatSession.doReadHeader := by
  simp [doReadHeader]

private theorem replay_world (ms : List ChatMessage) (m : Shared) :
    (ms.foldl (fun m msg => m.deliverTo s msg) m).world =
      ms.foldl (fun w msg => w.deliverTo s msg) m.world := by
  induction ms generalizing m with
  | nil => rfl
  | cons msg ms ih => simp only [List.foldl_cons, ih, deliverTo_world]

private theorem fanOut_world (ids : List SessionId) (msg : ChatMessage) (m : Shared) :
    (ids.foldl (fun m p => ((m.copy p).deliverTo p msg).drop p) m).world =
      ids.foldl (fun w p => w.deliverTo p msg) m.world := by
  induction ids generalizing m with
  | nil => rfl
  | cons p ids ih => simp only [List.foldl_cons, ih, drop_world, deliverTo_world, copy_world]

@[simp] theorem join_world (pos : Nat) : (m.join r s pos).world = m.world.join r s pos := by
  have hset : (if s ∈ ((m.copy s).world.room r).participants.ids then m.copy s
      else (m.copy s).copy s).world = m.world := by
    split <;> rfl
  simp only [join, drop_world, replay_world, hset, World.join]

@[simp] theorem leave_world (chain : Chain) :
    (m.leave r s chain).world = m.world.leave r s chain := by
  simp only [leave, drop_world]
  split <;> rfl

@[simp] theorem deliver_world (msg : ChatMessage) :
    (m.deliver r s msg).world = m.world.deliver r s msg := by
  simp only [deliver, fanOut_world, World.deliver]

@[simp] theorem start_world (pos : Nat) : (m.start r s pos).world = m.world.start r s pos := by
  simp [start, World.start]

@[simp] theorem resume_world (x : ChatSession) (ρ : Reaction) : (m.resume s x ρ).world =
    (m.world.emit (ρ.socket.map (.socket s))).setSession s ρ.session := by
  simp only [resume]
  split <;> rfl

private theorem perform_world (x : ChatSession) (ρ : Reaction) :
    (m.perform s x ρ).world = m.world.perform s ρ := by
  simp only [perform, drop_world, World.perform]
  cases ρ.call <;> simp

private theorem step_world {e : Event} (he : m.step e = some m') :
    m.world.step e = some m'.world := by
  cases e with
  | acceptDone r s pos storage =>
    simp only [step, Option.ite_none_right_eq_some, Option.some.injEq] at he
    obtain ⟨⟨haccepts, hnew, -⟩, rfl⟩ := he
    simp [World.step, haccepts, hnew, onAccept, World.onAccept]
  | acceptFailed r =>
    simp only [step, Option.ite_none_right_eq_some, Option.some.injEq] at he
    obtain ⟨haccepts, rfl⟩ := he
    simp [World.step, haccepts]
  | session s e =>
    obtain ⟨x, hx, he⟩ := Option.bind_eq_some_iff.1 he
    obtain ⟨ρ, hρ, rfl⟩ := Option.map_eq_some_iff.1 he
    cases hc : e.completes <;> simp [World.step, hx, hρ, perform_world]

/-! ## Where the pointers are -/

def members (ports : Nat) (w : World) : List SessionId :=
  (List.range ports).flatMap fun r => (w.room r).participants.ids

def pointers (ports : Nat) (m : Shared) : List SessionId := members ports m.world ++ m.held

/-- Besides some local variables, the sets and the handlers have all the pointers, and a session's
handlers have one for each of its operations. -/
structure Sound (ports : Nat) (m : Shared) (locals : List SessionId) : Prop where
  owned : m.heap.Owned (locals ++ m.pointers ports)
  held : ∀ s, m.held.count s = m.world.operations s
  safe : m.dangling = []
  made : ∀ s, (m.world.sessions s).isSome = true ↔ s < m.heap.next
  idle : ∀ r, ports ≤ r → (m.world.servers r).accepts = 0 ∧ (m.world.room r).participants.ids = []

private theorem members_congr {w w' : World} (h : w'.servers = w.servers) :
    members ports w' = members ports w := by
  simp only [members, World.room, h]

private theorem touch_eq (h : m.heap.Owned (locals ++ m.pointers ports))
    (hs : s ∈ locals ++ m.pointers ports) : m.touch s = m := by
  rw [touch, if_pos (h.isSome_iff.2 hs)]

private theorem Sound.copy (h : m.Sound ports locals) (hs : s ∈ locals ++ m.pointers ports) :
    (m.copy s).Sound ports (s :: locals) :=
  ⟨h.owned.copy hs, h.held, h.safe, h.made, h.idle⟩

private theorem Sound.drop (h : m.Sound ports (s :: locals)) : (m.drop s).Sound ports locals :=
  ⟨h.owned.drop, h.held, h.safe, fun t => by simpa [Shared.drop] using h.made t, h.idle⟩

private theorem capture_owned {held : List SessionId}
    (h : m.heap.Owned (locals ++ (members ports m.world ++ held))) (hheld : m.held = held)
    (hs : s ∈ locals ++ (members ports m.world ++ held)) :
    (m.capture s).heap.Owned (locals ++ (m.capture s).pointers ports) := by
  have hcopies := (h.copy hs).copy List.mem_cons_self
  have hdrop := hcopies.drop
  refine hdrop.perm ?_
  subst hheld
  simp only [pointers, capture_world]
  have hheld : (m.capture s).held = m.held ++ [s] := rfl
  rw [hheld, ← List.append_assoc, ← List.append_assoc, ← List.append_assoc]
  exact (List.perm_append_singleton s _).symm

/-- A member function of a session, called through some pointer. -/
private theorem Sound.call (h : m.Sound ports locals) (hs : s ∈ locals ++ m.pointers ports)
    {f : World → World} (hservers : (f m.world).servers = m.world.servers)
    (hmade : ∀ t, ((f m.world).sessions t).isSome = (m.world.sessions t).isSome)
    (hother : ∀ t, t ≠ s → (f m.world).operations t = m.world.operations t)
    (hself : (f m.world).operations s = m.world.operations s ∨
      (f m.world).operations s = m.world.operations s + 1) :
    (m.call s f).Sound ports locals := by
  have howned := h.owned
  simp only [pointers] at howned hs
  rw [← members_congr hservers] at howned hs
  have hidle : ∀ r, ports ≤ r → ((f m.world).servers r).accepts = 0 ∧
      ((f m.world).room r).participants.ids = [] := by
    intro r hr
    simpa only [World.room, hservers] using h.idle r hr
  by_cases hstarts : m.world.operations s < (f m.world).operations s
  · have hcall : m.call s f = { m with world := f m.world }.capture s := if_pos hstarts
    rw [hcall]
    refine ⟨capture_owned (m := { m with world := f m.world }) howned rfl hs, ?_, h.safe, ?_, hidle⟩
    · intro t
      have hheld : ({ m with world := f m.world }.capture s).held = m.held ++ [s] := rfl
      rw [hheld, List.count_append, h.held]
      by_cases ht : t = s
      · subst ht
        simp only [capture_world, List.count_singleton_self]
        omega
      · simp only [capture_world, hother t ht, List.count_singleton]
        simp [Ne.symm ht]
    · intro t
      have hnext : ({ m with world := f m.world }.capture s).heap.next = m.heap.next := by
        simp [capture, Shared.copy, Shared.drop]
      rw [hnext, capture_world, hmade]
      exact h.made t
  · have hcall : m.call s f = { m with world := f m.world } := if_neg hstarts
    rw [hcall]
    refine ⟨howned, ?_, h.safe, fun t => (hmade t) ▸ h.made t, hidle⟩
    intro t
    rw [h.held]
    by_cases ht : t = s
    · subst ht
      simp only
      omega
    · exact (hother t ht).symm

/-! ## The functions of the room -/

private theorem callSession_operations {w : World} {f : ChatSession → ChatSession} :
    (w.callSession s f).operations t =
      if t = s then (w.sessions s).elim 0 fun x => (f x).operations else w.operations t := by
  rw [World.operations, World.callSession_sessions]
  by_cases ht : t = s
  · subst ht
    cases w.sessions t <;> simp
  · simp [ht, World.operations]

private theorem callSession_isSome {w : World} {f : ChatSession → ChatSession} :
    ((w.callSession s f).sessions t).isSome = (w.sessions t).isSome := by
  rw [World.callSession_sessions]
  by_cases ht : t = s
  · subst ht
    simp
  · simp [ht]

private theorem Sound.callSession (h : m.Sound ports locals) (hs : s ∈ locals ++ m.pointers ports)
    {f : World → World} {g : ChatSession → ChatSession} (obs : List Obs)
    (hf : ∀ w, f w = (w.emit obs).callSession s g)
    (hg : ∀ x, (g x).operations = x.operations ∨ (g x).operations = x.operations + 1) :
    (m.call s f).Sound ports locals := by
  have hoperations : ∀ t, (f m.world).operations t =
      if t = s then (m.world.sessions s).elim 0 fun x => (g x).operations
      else m.world.operations t := by
    intro t
    rw [hf, callSession_operations]
    rfl
  refine h.call hs ?_ ?_ ?_ ?_
  · rw [hf, World.callSession_servers]
    rfl
  · intro t
    rw [hf, callSession_isSome]
    rfl
  · intro t ht
    rw [hoperations, if_neg ht]
  · rw [hoperations, if_pos rfl, World.operations]
    cases m.world.sessions s with
    | none => exact .inl rfl
    | some x => exact hg x

private theorem deliver_operations (x : ChatSession) (msg : ChatMessage) :
    (x.deliver msg).operations = x.operations ∨
      (x.deliver msg).operations = x.operations + 1 := by
  simp only [ChatSession.operations, ChatSession.deliver_reads, ChatSession.deliver_writes]
  cases hmsgs : x.writes.msgs <;>
    simp [WriteQueue.enqueue, WriteQueue.doWrite, hmsgs, Nat.add_assoc]

private theorem doReadHeader_operations (x : ChatSession) :
    x.doReadHeader.operations = x.operations + 1 := by
  simp [ChatSession.operations, ReadChain.doReadHeader, Nat.add_right_comm]

private theorem Sound.deliverTo (h : m.Sound ports locals) (hs : s ∈ locals ++ m.pointers ports)
    (msg : ChatMessage) : (m.deliverTo s msg).Sound ports locals := by
  rw [Shared.deliverTo, touch_eq h.owned hs]
  exact h.callSession hs [.push s msg] (g := fun x => x.deliver msg) (fun _ => rfl)
    fun x => deliver_operations x msg

private theorem Sound.doReadHeader (h : m.Sound ports locals)
    (hs : s ∈ locals ++ m.pointers ports) :
    (m.doReadHeader s).Sound ports locals := by
  rw [Shared.doReadHeader, touch_eq h.owned hs]
  exact h.callSession hs [] (g := ChatSession.doReadHeader) (fun w => by simp [World.emit])
    fun x => .inr (doReadHeader_operations x)

private theorem members_deliverTo (msg : ChatMessage) :
    members ports (m.deliverTo s msg).world = members ports m.world :=
  members_congr (by simp)

private theorem Sound.replay (ms : List ChatMessage) (h : m.Sound ports (s :: locals)) :
    (ms.foldl (fun m msg => m.deliverTo s msg) m).Sound ports (s :: locals) := by
  induction ms generalizing m with
  | nil => exact h
  | cons msg ms ih => exact ih (h.deliverTo List.mem_cons_self msg)

private theorem Sound.fanOut (ids : List SessionId) (msg : ChatMessage) (h : m.Sound ports locals)
    (hids : ∀ p ∈ ids, p ∈ members ports m.world) :
    (ids.foldl (fun m p => ((m.copy p).deliverTo p msg).drop p) m).Sound ports locals := by
  induction ids generalizing m with
  | nil => exact h
  | cons p ids ih =>
    have hp : p ∈ locals ++ m.pointers ports :=
      List.mem_append_right _ (List.mem_append_left _ (hids p List.mem_cons_self))
    have hdeliver := ((h.copy hp).deliverTo List.mem_cons_self msg).drop
    apply ih hdeliver
    intro q hq
    have hmembers : members ports (((m.copy p).deliverTo p msg).drop p).world =
        members ports m.world := members_deliverTo (m := m.copy p) msg
    rw [hmembers]
    exact hids q (List.mem_cons_of_mem _ hq)

/-- A change of one room that is not seen by the sessions. -/
private theorem Sound.setRoom (h : m.Sound ports locals) {w : World} (room : ChatRoom)
    (hservers : w.servers = m.world.servers) (hsessions : w.sessions = m.world.sessions)
    (hids : room.participants.ids = (m.world.room r).participants.ids) :
    Sound ports { m with world := w.setRoom r room } locals := by
  have hroom : ∀ k, ((w.setRoom r room).room k).participants.ids =
      (m.world.room k).participants.ids := by
    intro k
    by_cases hk : k = r
    · subst hk
      simp [World.room, World.setRoom, hids]
    · simp [World.room, World.setRoom, hk, hservers]
  have hmembers : members ports (w.setRoom r room) = members ports m.world := by
    simp only [members, hroom]
  refine ⟨?_, ?_, h.safe, ?_, ?_⟩
  · have howned := h.owned
    simp only [pointers] at howned ⊢
    rwa [hmembers]
  · intro t
    rw [h.held]
    simp [World.operations, World.setRoom, hsessions]
  · intro t
    simpa [World.setRoom, hsessions] using h.made t
  · intro k hk
    refine ⟨?_, (hroom k).trans (h.idle k hk).2⟩
    have haccepts : ((w.setRoom r room).servers k).accepts = (m.world.servers k).accepts := by
      by_cases hkr : k = r
      · subst hkr
        simp [World.setRoom, hservers]
      · simp [World.setRoom, hkr, hservers]
    exact haccepts.trans (h.idle k hk).1

private theorem mem_members (hr : r < ports) (hs : s ∈ (m.world.room r).participants.ids) :
    s ∈ members ports m.world :=
  List.mem_flatMap.2 ⟨r, List.mem_range.2 hr, hs⟩

private theorem Sound.lt_ports (h : m.Sound ports locals)
    (hs : s ∈ (m.world.room r).participants.ids) :
    r < ports := by
  by_contra hge
  rw [(h.idle r (Nat.not_lt.1 hge)).2] at hs
  exact absurd hs List.not_mem_nil

private theorem Sound.deliver (h : m.Sound ports locals) (r : ServerId) (s : SessionId)
    (msg : ChatMessage) : (m.deliver r s msg).Sound ports locals := by
  have hset := h.setRoom (r := r) (w := m.world.emit [.deliver r s msg])
    { m.world.room r with
      recentMsgs := trimRecent ((m.world.room r).recentMsgs ++ [msg]) } rfl rfl rfl
  apply hset.fanOut
  intro p hp
  exact mem_members (hset.lt_ports hp) hp

private theorem members_insert {w : World} {room : ChatRoom} (hr : r < ports)
    (hids : room.participants.ids.Perm (s :: (w.room r).participants.ids)) :
    (members ports (w.setRoom r room)).Perm (s :: members ports w) := by
  apply perm_flatMap_range hr
  · intro k hk
    simp [World.room, World.setRoom, hk]
  · simpa [World.room, World.setRoom] using hids

private theorem members_erase {w : World} {room : ChatRoom} (hr : r < ports)
    (hids : (w.room r).participants.ids.Perm (s :: room.participants.ids)) :
    (members ports w).Perm (s :: members ports (w.setRoom r room)) := by
  apply perm_flatMap_range hr
  · intro k hk
    simp [World.room, World.setRoom, hk]
  · simpa [World.room, World.setRoom] using hids

private theorem perm_locals {before after held : List SessionId} (h : after.Perm (s :: before)) :
    (locals ++ (after ++ held)).Perm (s :: (locals ++ (before ++ held))) := by
  have hmiddle : (locals ++ s :: (before ++ held)).Perm (s :: (locals ++ (before ++ held))) :=
    List.perm_middle
  exact ((h.append_right held).append_left locals).trans hmiddle

private theorem Sound.moveRoom {w : World} {room : ChatRoom} (h : m.Sound ports locals)
    (heap : Heap Unit) (hr : r < ports) (hservers : w.servers = m.world.servers)
    (hsessions : w.sessions = m.world.sessions) (hnext : heap.next = m.heap.next)
    (howned : heap.Owned (locals ++ (members ports (w.setRoom r room) ++ m.held))) :
    Sound ports { m with world := w.setRoom r room, heap := heap } locals := by
  refine ⟨howned, ?_, h.safe, ?_, ?_⟩
  · intro t
    rw [h.held]
    simp [World.operations, World.setRoom, hsessions]
  · intro t
    simpa [World.setRoom, hsessions, hnext] using h.made t
  · intro k hk
    have hkr : k ≠ r := fun heq => absurd (heq ▸ hk) (Nat.not_le.2 hr)
    simpa [World.room, World.setRoom, hkr, hservers] using h.idle k hk

private theorem Sound.join (h : m.Sound ports (s :: locals)) (hr : r < ports)
    (hs : s ∉ (m.world.room r).participants.ids) (pos : Nat) :
    (m.join r s pos).Sound ports (s :: locals) := by
  have hcopy := h.copy List.mem_cons_self
  have hcopies := hcopy.copy List.mem_cons_self
  let room : ChatRoom := { m.world.room r with
    participants := (m.world.room r).participants.insert s pos }
  let w := m.world.emit [.join r s]
  have hids : room.participants.ids.Perm (s :: (w.room r).participants.ids) := by
    have hinsert : room.participants.ids = (m.world.room r).participants.ids.take pos ++
        s :: (m.world.room r).participants.ids.drop pos := by
      simp [room, PointerSet.insert, hs]
    rw [hinsert]
    have hsplit : ((m.world.room r).participants.ids.take pos ++
        s :: (m.world.room r).participants.ids.drop pos).Perm (s ::
          ((m.world.room r).participants.ids.take pos ++
            (m.world.room r).participants.ids.drop pos)) := List.perm_middle
    rw [List.take_append_drop] at hsplit
    exact hsplit
  have hjoined : Sound ports { (m.copy s).copy s with world := w.setRoom r room }
      (s :: s :: locals) := by
    refine hcopy.moveRoom ((m.copy s).copy s).heap hr rfl rfl rfl ?_
    exact hcopies.owned.perm (((perm_locals (members_insert hr hids)).cons s).cons s).symm
  have hset : (if s ∈ ((m.copy s).world.room r).participants.ids then m.copy s
      else (m.copy s).copy s) = (m.copy s).copy s := if_neg hs
  simp only [Shared.join, hset]
  exact (hjoined.replay _).drop

private theorem Sound.leave (h : m.Sound ports (s :: locals)) (r : ServerId) (chain : Chain) :
    (m.leave r s chain).Sound ports (s :: locals) := by
  have hcopy := h.copy List.mem_cons_self
  by_cases hs : s ∈ (m.world.room r).participants.ids
  · have hr := h.lt_ports hs
    let room : ChatRoom := { m.world.room r with
      participants := (m.world.room r).participants.erase s }
    let w := m.world.emit [.leave r s chain]
    have hids : (w.room r).participants.ids.Perm (s :: room.participants.ids) :=
      List.perm_cons_erase hs
    have hleft : Sound ports { (m.copy s).drop s with world := m.world.leave r s chain }
        (s :: s :: locals) := by
      refine hcopy.moveRoom ((m.copy s).drop s).heap hr rfl rfl ?_ ?_
      · exact Heap.drop_next
      · -- The pointer of the set is the one that is destroyed.
        have hperm : (locals ++ (members ports m.world ++ m.held)).Perm
            (s :: (locals ++ (members ports (w.setRoom r room) ++ m.held))) :=
          perm_locals (members_erase hr hids)
        exact (hcopy.owned.perm ((hperm.cons s).cons s)).drop
    have hset : (if s ∈ ((m.copy s).world.room r).participants.ids then (m.copy s).drop s
        else m.copy s) = (m.copy s).drop s := if_pos hs
    simp only [Shared.leave, hset]
    exact hleft.drop
  · have hset : (if s ∈ ((m.copy s).world.room r).participants.ids then (m.copy s).drop s
        else m.copy s) = m.copy s := if_neg hs
    simp only [Shared.leave, hset]
    have hsame : Sound ports { m.copy s with world := m.world.leave r s chain }
        (s :: s :: locals) := by
      exact hcopy.setRoom (w := m.world.emit [.leave r s chain]) _ rfl rfl
        (List.erase_of_not_mem hs)
    exact hsame.drop

/-! ## The handlers -/

private theorem retire_reads {c c' : ReadChain} {i : Nat} {ec : ErrorCode} {op : AsyncRead}
    (h : c.retire i ec = some (op, c')) : c'.reads.length + 1 = c.reads.length := by
  simp only [ReadChain.retire] at h
  split at h
  · exact absurd h (by simp)
  · rename_i op' hop
    split at h
    · exact absurd h (by simp)
    · simp only [Option.some.injEq, Prod.mk.injEq] at h
      obtain ⟨-, rfl⟩ := h
      exact List.length_eraseIdx_add_one (List.getElem?_eq_some_iff.1 hop).1

private theorem retire_writes {q q' : WriteQueue ChatMessage Byte} {i : Nat} {ec : ErrorCode}
    (h : q.retire i ec = some q') : q'.writes.length + 1 = q.writes.length := by
  simp only [WriteQueue.retire] at h
  split at h
  · exact absurd h (by simp)
  · rename_i op hop
    split at h
    · exact absurd h (by simp)
    · obtain rfl := Option.some.inj h
      exact List.length_eraseIdx_add_one (List.getElem?_eq_some_iff.1 hop).1

private theorem advance_writes (q : WriteQueue ChatMessage Byte) :
    (q.advance wireFormat).writes.length = q.writes.length ∨
      (q.advance wireFormat).writes.length = q.writes.length + 1 := by
  cases hmsgs : q.msgs.tail <;> simp [WriteQueue.advance, WriteQueue.doWrite, hmsgs]

/-- A handler runs because an operation has completed, and starts one or none. -/
private theorem completes_operations {x : ChatSession} {e : SessionEvent} {ρ : Reaction}
    (hρ : x.handle e = some ρ) (hc : e.completes = true) :
    0 < x.operations ∧ (ρ.session.operations = x.operations ∨
      ρ.session.operations + 1 = x.operations) := by
  cases ChatSession.handle_cases hρ with
  | receive h => exact absurd hc (by simp [SessionEvent.completes])
  | transmit h => exact absurd hc (by simp [SessionEvent.completes])
  | @headerAccepted i op c h hstage hacc =>
    have hlen := retire_reads h
    simp only [ChatSession.operations, ReadChain.doReadBody, ReadChain.headerAccepted,
      List.length_append, List.length_singleton]
    omega
  | headerRejected h hstage hrej =>
    have hlen := retire_reads h
    simp only [ChatSession.operations, ReadChain.headerAccepted]
    omega
  | body h hstage =>
    have hlen := retire_reads h
    simp only [ChatSession.operations]
    omega
  | readFailed h =>
    have hlen := retire_reads h
    simp only [ChatSession.operations]
    omega
  | @written i q h =>
    have hlen := retire_writes h
    have hadvance := advance_writes q
    simp only [ChatSession.operations]
    omega
  | writeFailed h =>
    have hlen := retire_writes h
    simp only [ChatSession.operations]
    omega

private theorem progress_operations {x : ChatSession} {e : SessionEvent} {ρ : Reaction}
    (hρ : x.handle e = some ρ) (hc : e.completes = false) :
    ρ.session.operations = x.operations ∧ ρ.call = .none := by
  cases ChatSession.handle_cases hρ with
  | receive h =>
    simp only [ReadChain.receive] at h
    split at h
    · exact absurd h (by simp)
    · split at h
      · obtain rfl := Option.some.inj h
        simp [ChatSession.operations]
      · exact absurd h (by simp)
  | transmit h =>
    simp only [WriteQueue.transmit] at h
    split at h
    · exact absurd h (by simp)
    · split at h
      · obtain ⟨rfl, -⟩ := Prod.mk.inj (Option.some.inj h)
        simp [ChatSession.operations]
      · exact absurd h (by simp)
  | headerAccepted h hstage hacc => exact absurd hc (by simp [SessionEvent.completes])
  | headerRejected h hstage hrej => exact absurd hc (by simp [SessionEvent.completes])
  | body h hstage => exact absurd hc (by simp [SessionEvent.completes])
  | readFailed h => exact absurd hc (by simp [SessionEvent.completes])
  | written h => exact absurd hc (by simp [SessionEvent.completes])
  | writeFailed h => exact absurd hc (by simp [SessionEvent.completes])

private theorem setSession_operations {w : World} {y : ChatSession} :
    (w.setSession s y).operations t = if t = s then y.operations else w.operations t := by
  by_cases ht : t = s
  · subst ht
    simp [World.operations, World.setSession]
  · simp [World.operations, World.setSession, ht]

private theorem setSession_made {x y : ChatSession} (h : m.Sound ports locals)
    (hx : m.world.sessions s = some x) {obs : List Obs} (t : SessionId) :
    (((m.world.emit obs).setSession s y).sessions t).isSome = true ↔ t < m.heap.next := by
  rw [← h.made]
  by_cases ht : t = s
  · subst ht
    simp [World.setSession, hx]
  · simp [World.setSession, ht]

private theorem Sound.resume (h : m.Sound ports []) {x : ChatSession}
    (hx : m.world.sessions s = some x)
    {ρ : Reaction} (hpos : 0 < x.operations)
    (hops : ρ.session.operations = x.operations ∨ ρ.session.operations + 1 = x.operations) :
    (m.resume s x ρ).Sound ports [s] := by
  have hcount : m.held.count s = x.operations := by
    rw [h.held, World.operations, hx]
    rfl
  have hmem : s ∈ m.held := List.count_pos_iff.1 (by omega)
  have howned : m.heap.Owned ([s] ++ (members ports m.world ++ m.held.erase s)) := by
    refine h.owned.perm ?_
    exact ((List.perm_cons_erase hmem).append_left _).trans List.perm_middle
  have hcounts : ∀ t, (m.held.erase s).count t + (if t = s then 1 else 0) =
      m.world.operations t := by
    intro t
    rw [← h.held]
    by_cases ht : t = s
    · subst ht
      rw [List.count_erase_self]
      simp only [if_true]
      omega
    · rw [List.count_erase_of_ne ht, if_neg ht, Nat.add_zero]
  let w := (m.world.emit (ρ.socket.map (.socket s))).setSession s ρ.session
  have hoperations : ∀ t, w.operations t =
      if t = s then ρ.session.operations else m.world.operations t := fun t =>
    setSession_operations
  by_cases hstarts : x.operations = ρ.session.operations
  · have hresume : m.resume s x ρ =
        { m with world := w, held := m.held.erase s }.capture s := if_pos hstarts
    rw [hresume]
    refine ⟨capture_owned (m := { m with world := w, held := m.held.erase s }) howned rfl
      List.mem_cons_self, ?_, h.safe, ?_, h.idle⟩
    · intro t
      have hheld : ({ m with world := w, held := m.held.erase s }.capture s).held =
          m.held.erase s ++ [s] := rfl
      have ht := hcounts t
      rw [hheld, List.count_append, capture_world, hoperations]
      by_cases hts : t = s
      · subst hts
        rw [if_pos rfl] at ht
        rw [List.count_singleton_self, if_pos rfl, ← hstarts, ht, World.operations, hx]
        rfl
      · rw [if_neg hts] at ht ⊢
        simpa [List.count_singleton, Ne.symm hts] using ht
    · intro t
      have hnext : ({ m with world := w, held := m.held.erase s }.capture s).heap.next =
          m.heap.next := by
        simp [capture, Shared.copy, Shared.drop]
      rw [hnext, capture_world]
      exact setSession_made h hx t
  · have hresume : m.resume s x ρ = { m with world := w, held := m.held.erase s } :=
      if_neg hstarts
    rw [hresume]
    refine ⟨howned, ?_, h.safe, fun t => setSession_made h hx t, h.idle⟩
    intro t
    have ht := hcounts t
    simp only [hoperations]
    by_cases hts : t = s
    · subst hts
      rw [if_pos rfl, World.operations, hx] at ht
      have hsum : (m.held.erase t).count t + 1 = x.operations := ht
      have heq : (m.held.erase t).count t = ρ.session.operations := by omega
      rw [if_pos rfl, heq]
    · rw [if_neg hts] at ht ⊢
      exact ht

private theorem Sound.perform (h : m.Sound ports []) {x : ChatSession}
    (hx : m.world.sessions s = some x)
    {e : SessionEvent} {ρ : Reaction} (hρ : x.handle e = some ρ) (hc : e.completes = true) :
    (m.perform s x ρ).Sound ports [] := by
  obtain ⟨hpos, hops⟩ := completes_operations hρ hc
  have hmem : s ∈ [] ++ m.pointers ports := by
    have hheld : 0 < m.held.count s := by
      rw [h.held, World.operations, hx]
      exact hpos
    exact List.mem_append_right _ (List.mem_append_right _ (List.count_pos_iff.1 hheld))
  have hresume := h.resume hx hpos hops
  simp only [Shared.perform, touch_eq h.owned hmem]
  cases ρ.call with
  | none => exact hresume.drop
  | leave chain => exact (hresume.leave _ chain).drop
  | deliver msg => exact ((hresume.deliver _ s msg).doReadHeader List.mem_cons_self).drop

private theorem Sound.progress (h : m.Sound ports []) {x : ChatSession}
    (hx : m.world.sessions s = some x)
    {e : SessionEvent} {ρ : Reaction} (hρ : x.handle e = some ρ) (hc : e.completes = false) :
    Sound ports { m with world := m.world.perform s ρ } [] := by
  obtain ⟨hops, hcall⟩ := progress_operations hρ hc
  have hworld : m.world.perform s ρ =
      (m.world.emit (ρ.socket.map (.socket s))).setSession s ρ.session := by
    simp only [World.perform, hcall]
  rw [hworld]
  refine ⟨h.owned, ?_, h.safe, fun t => setSession_made h hx t, h.idle⟩
  intro t
  rw [h.held]
  by_cases ht : t = s
  · subst ht
    rw [setSession_operations, if_pos rfl, hops, World.operations, hx]
    rfl
  · rw [setSession_operations, if_neg ht]
    rfl

private theorem Sound.setServer (h : m.Sound ports locals) (hr : r < ports) {v : ChatServer}
    (hroom : v.room = m.world.room r) :
    Sound ports { m with world := m.world.setServer r v } locals := by
  have hrooms : ∀ k, (m.world.setServer r v).room k = m.world.room k := by
    intro k
    by_cases hk : k = r
    · subst hk
      simp [World.room, World.setServer, hroom]
    · simp [World.room, World.setServer, hk]
  have hmembers : members ports (m.world.setServer r v) = members ports m.world := by
    simp only [members, hrooms]
  refine ⟨?_, h.held, h.safe, h.made, ?_⟩
  · have howned := h.owned
    simp only [pointers] at howned ⊢
    rwa [hmembers]
  · intro k hk
    have hkr : k ≠ r := fun heq => absurd (heq ▸ hk) (Nat.not_le.2 hr)
    refine ⟨?_, (congrArg (fun room => room.participants.ids) (hrooms k)).trans (h.idle k hk).2⟩
    simpa [World.setServer, hkr] using (h.idle k hk).1

/-- The accept handler: `make_shared`, and everything that `start` does. -/
private theorem Sound.onAccept (h : m.Sound ports []) (hr : r < ports)
    (hnew : m.world.sessions m.heap.next = none) (pos : Nat) (storage : Storage) :
    (m.onAccept r m.heap.next pos storage).Sound ports [] := by
  have hmake := h.owned.make ()
  have hfresh : m.heap.next ∉ (m.world.room r).participants.ids := by
    intro hmem
    have hpointer : m.heap.next ∈ m.pointers ports := List.mem_append_left _ (mem_members hr hmem)
    exact h.owned.next_notMem (List.mem_append_right [] hpointer)
  let made : Shared := { m with
    world := m.world.setSession m.heap.next (.init r storage)
    heap := (m.heap.make ()).2 }
  have hmade : made.Sound ports [m.heap.next] := by
    refine ⟨hmake, ?_, h.safe, ?_, h.idle⟩
    · intro t
      rw [h.held, setSession_operations]
      by_cases ht : t = m.heap.next
      · subst ht
        simp [World.operations, hnew, ChatSession.init, ChatSession.operations, WriteQueue.empty]
      · rw [if_neg ht]
    · intro t
      have hnext : (m.heap.make ()).2.next = m.heap.next + 1 := rfl
      have ht := h.made t
      rw [hnext]
      by_cases htn : t = m.heap.next
      · simp [htn, made, World.setSession]
      · have hsame : (m.world.setSession m.heap.next (.init r storage)).sessions t =
            m.world.sessions t := by
          simp [World.setSession, htn]
        rw [hsame, ht]
        exact ⟨Nat.lt_succ_of_lt, fun hlt => Nat.lt_of_le_of_ne (Nat.le_of_lt_succ hlt) htn⟩
  have hstart := ((hmade.join hr hfresh pos).doReadHeader List.mem_cons_self).drop
  rw [← touch_eq hmade.owned List.mem_cons_self] at hstart
  exact hstart.setServer hr rfl

theorem Sound.step (h : m.Sound ports []) {e : Event} (he : m.step e = some m') :
    m'.Sound ports [] := by
  cases e with
  | acceptDone r s pos storage =>
    simp only [Shared.step, Option.ite_none_right_eq_some, Option.some.injEq] at he
    obtain ⟨⟨haccepts, hnew, rfl⟩, rfl⟩ := he
    have hr : r < ports := by
      by_contra hge
      rw [(h.idle r (Nat.not_lt.1 hge)).1] at haccepts
      exact absurd haccepts (Nat.lt_irrefl 0)
    have htaken := h.setServer (v := { m.world.servers r with
      accepts := (m.world.servers r).accepts - 1 }) hr rfl
    exact htaken.onAccept hr (Option.isNone_iff_eq_none.1 hnew) pos storage
  | acceptFailed r =>
    simp only [Shared.step, Option.ite_none_right_eq_some, Option.some.injEq] at he
    obtain ⟨haccepts, rfl⟩ := he
    have hr : r < ports := by
      by_contra hge
      rw [(h.idle r (Nat.not_lt.1 hge)).1] at haccepts
      exact absurd haccepts (Nat.lt_irrefl 0)
    have htaken := h.setServer (v := { m.world.servers r with
      accepts := (m.world.servers r).accepts - 1 }) hr rfl
    exact htaken.setServer (v := ((m.world.takeAccept r).servers r).doAccept) hr rfl
  | session s e =>
    obtain ⟨x, hx, he⟩ := Option.bind_eq_some_iff.1 he
    obtain ⟨ρ, hρ, rfl⟩ := Option.map_eq_some_iff.1 he
    cases hc : e.completes with
    | true => simpa only [hc, if_true] using h.perform hx hρ hc
    | false => simpa only [hc, Bool.false_eq_true, if_false] using h.progress hx hρ hc

private theorem sound_init : Sound ports (sharedServer ports).init [] := by
  have hids : ∀ r, ((World.init ports).room r).participants.ids = [] := by
    intro r
    simp only [World.room, World.init]
    split <;> rfl
  have hmembers : members ports (World.init ports) = [] := by
    simp [members, hids]
  refine ⟨?_, ?_, rfl, ?_, ?_⟩
  · have hpointers : pointers ports (sharedServer ports).init = [] := by
      simp [pointers, sharedServer, hmembers]
    rw [hpointers]
    exact Heap.owned_empty
  · intro s
    rfl
  · intro s
    simp [sharedServer, World.init, Heap.empty]
  · intro r hr
    refine ⟨?_, hids r⟩
    simp [sharedServer, World.init, Nat.not_lt.2 hr]

theorem sound_reachable (h : (sharedServer ports).Reachable m) : m.Sound ports [] :=
  System.reachable_induction (P := fun m => m.Sound ports []) sound_init
    (fun _ _ _ _ hm he => hm.step he) h

/-- With the pointers counted, the program is the chat server. -/
theorem world_reachable (h : (sharedServer ports).Reachable m) :
    (chatServer ports).Reachable m.world := by
  refine System.reachable_of_simulation (N := chatServer ports) (f := Shared.world) rfl ?_ h
  intro m e m' _ he
  exact ⟨[e], System.exec_singleton_some.2 (step_world he)⟩

/-- Counting the pointers is in nobody's way. -/
private theorem exists_step {e : Event} {w : World} (he : m.world.step e = some w)
    (hnext : ∀ r s pos storage, e = .acceptDone r s pos storage → s = m.heap.next) :
    ∃ m', m.step e = some m' ∧ m'.world = w := by
  have hsome : ∃ m', m.step e = some m' := by
    cases e with
    | acceptDone r s pos storage =>
      simp only [World.step, Option.ite_none_right_eq_some] at he
      exact ⟨_, if_pos ⟨he.1.1, he.1.2, hnext r s pos storage rfl⟩⟩
    | acceptFailed r =>
      simp only [World.step, Option.ite_none_right_eq_some] at he
      exact ⟨_, if_pos he.1⟩
    | session s e =>
      obtain ⟨x, hx, he⟩ := Option.bind_eq_some_iff.1 he
      obtain ⟨ρ, hρ, -⟩ := Option.map_eq_some_iff.1 he
      simp only [step, hx, hρ, Option.bind_some, Option.map_some]
      exact ⟨_, rfl⟩
  obtain ⟨m', hm'⟩ := hsome
  exact ⟨m', hm', Option.some.inj ((step_world hm').symm.trans he)⟩

private theorem operations_of_member {w : World} (h : w.Inv)
    (hs : s ∈ (w.room r).participants.ids) :
    0 < w.operations s := by
  obtain ⟨x, hx, rfl⟩ := h.member r s hs
  have hreading := (h.session s x hx).reading hs
  rw [World.operations, hx]
  simp only [Option.elim, ChatSession.operations]
  omega

private theorem Sound.alive_iff (h : m.Sound ports []) (hw : m.world.Inv) (s : SessionId) :
    (m.heap.get s).isSome = true ↔ 0 < m.world.operations s := by
  rw [h.owned.isSome_iff, ← h.held, List.count_pos_iff]
  constructor
  · intro hs
    rcases List.mem_append.1 (List.mem_append.1 hs |>.resolve_left List.not_mem_nil) with hs | hs
    · obtain ⟨r, -, hs⟩ := List.mem_flatMap.1 hs
      rw [← List.count_pos_iff, h.held]
      exact operations_of_member hw hs
    · exact hs
  · intro hs
    exact List.mem_append_right _ (List.mem_append_right _ hs)

end Shared

/-- Counting every copy of every `shared_ptr`, the chat server never calls a session that is gone.
A session lives exactly as long as one of its operations is outstanding, as those in a room all
have, and is destroyed once. The counting changes nothing else. -/
theorem chatServer_lifetime {ports : Nat} {m : Shared} (hm : (sharedServer ports).Reachable m) :
    (chatServer ports).Reachable m.world ∧ m.dangling = [] ∧
      (∀ s, (m.heap.get s).isSome = true ↔ 0 < m.world.operations s) ∧
      (∀ r, ∀ s ∈ (m.world.room r).participants.ids, (m.heap.get s).isSome = true) ∧
      (∀ s, s ∈ m.heap.destroyed ↔
        (m.world.sessions s).isSome = true ∧ m.world.operations s = 0) ∧
      m.heap.destroyed.Nodup ∧
      ∀ e w, m.world.step e = some w →
        (∀ r s pos storage, e = .acceptDone r s pos storage → s = m.heap.next) →
        ∃ m', m.step e = some m' ∧ m'.world = w := by
  have h := Shared.sound_reachable hm
  have hworld := Shared.world_reachable hm
  have hw := World.inv_reachable hworld
  refine ⟨hworld, h.safe, h.alive_iff hw, ?_, ?_, h.owned.once, fun _ _ => m.exists_step⟩
  · intro r s hs
    exact (h.alive_iff hw s).2 (Shared.operations_of_member hw hs)
  · intro s
    rw [h.owned.destroyed_iff, ← h.owned.isSome_iff, h.alive_iff hw, h.made, Nat.pos_iff_ne_zero,
      not_not]

/-- A session has to leave while it is still written to. -/
def leavesEarly : List Event :=
  [.acceptDone 0 0 0 (.fill _ 0), .acceptDone 0 1 0 (.fill _ 0)] ++
    receiveFrame 0 [32, 32, 32, 49] [104] ++
    [.session 0 (.receive 0 [57, 57, 57, 57]), .session 0 (.readDone 0 .success)]

def gone : List Event :=
  leavesEarly ++ [.session 0 (.transmit 0 5), .session 0 (.writeDone 0 .success)]

theorem chatServer_lifetime_gone :
    ((sharedServer 1).exec (sharedServer 1).init gone).isSome = true ∧
      (((sharedServer 1).final leavesEarly).heap.get 0).isSome = true ∧
      0 ∈ ((sharedServer 1).final gone).heap.destroyed ∧
      ((sharedServer 1).final gone).dangling = [] := by
  have hearly := chatServer_lifetime ((sharedServer 1).reachable_final leavesEarly)
  have hgone := chatServer_lifetime ((sharedServer 1).reachable_final gone)
  refine ⟨by decide +kernel, (hearly.2.2.1 0).2 (by decide +kernel),
    (hgone.2.2.2.2.1 0).2 ⟨by decide +kernel, by decide +kernel⟩, hgone.2.1⟩

end BoostLearning.Chat
