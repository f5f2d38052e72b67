import BoostLearning.Daytime.Service
import BoostLearning.Framework.SharedOwnership

/-!
# The reference-counted daytime server

`refence_count.cpp`: the message is not a part of the session, but of a `shared_const_buffer`,
which is copied into the operation that writes it. Sessions and messages have owners of their own,
and a message stays where it is because the operation is one of them.
-/

namespace BoostLearning.Daytime

/-- An outstanding `async_write`: its copy of the `shared_const_buffer`, which is the pointer
`_data` and the size of `_buffer`, and `self`, which its handler has captured. -/
structure SharedWrite where
  self : Nat
  data : Nat
  size : Nat
  sent : Nat
deriving DecidableEq

/-- The sessions, each with the client that `_socket` is connected to, the vectors of characters,
and the outstanding operations. -/
structure SharedServer where
  sessions : Heap ClientId
  buffers : Heap (List UInt8)
  accepts : Nat
  writes : List SharedWrite
  trace : List Obs

inductive SharedEvent where
  | acceptDone (c : ClientId) (now : List UInt8)
  | acceptFailed
  | transmit (i n : Nat)
  | writeDone (i : Nat) (ec : ErrorCode)
deriving DecidableEq

namespace SharedServer

def emit (s : SharedServer) (p : Nat) (act : Act) : SharedServer :=
  { s with trace := s.trace ++ (s.sessions.get p).toList.map fun c => ⟨c, act⟩ }

/-- A pointer to a session is destroyed. The destructor of a session closes its socket. -/
def releaseSession (s : SharedServer) (p : Nat) : SharedServer :=
  let last := (s.sessions.get p).isSome && ((s.sessions.drop p).get p).isNone
  let s' := if last then s.emit p .closed else s
  { s' with sessions := s.sessions.drop p }

def releaseBuffer (s : SharedServer) (p : Nat) : SharedServer :=
  { s with buffers := s.buffers.drop p }

def doAccept (s : SharedServer) : SharedServer := { s with accepts := s.accepts + 1 }

/-- `session::do_write`: `buffer` and `self` are local, and the operation has a copy of each. -/
def doWrite (s : SharedServer) (p : Nat) (now : List UInt8) : SharedServer :=
  let (data, buffers) := s.buffers.make now
  let s := s.emit p (.serving now)
  let s := { s with buffers := buffers, sessions := s.sessions.copy p }
  let write : SharedWrite := ⟨p, data, now.length, 0⟩
  let s := { s with
    sessions := s.sessions.copy p
    buffers := s.buffers.copy data
    writes := s.writes ++ [write] }
  (s.releaseSession p).releaseBuffer data

/-- The handler of `do_accept` without an error: `std::make_shared<session>(..)->start()`. -/
def onAccept (s : SharedServer) (c : ClientId) (now : List UInt8) : SharedServer :=
  let (p, sessions) := s.sessions.make c
  (({ s with sessions := sessions } : SharedServer).doWrite p now).releaseSession p

/-- One event; a client is one that was not there before. -/
def step (s : SharedServer) : SharedEvent → Option SharedServer
  | .acceptDone c now =>
    if 0 < s.accepts ∧ unseen c s.trace then
      some (({ s with accepts := s.accepts - 1 } : SharedServer).onAccept c now).doAccept
    else none
  | .acceptFailed =>
    if 0 < s.accepts then some ({ s with accepts := s.accepts - 1 } : SharedServer).doAccept
    else none
  | .transmit i n =>
    s.writes[i]?.bind fun w =>
      (s.buffers.get w.data).bind fun message =>
        if n ≤ w.size - w.sent then
          let s := s.emit w.self (.wrote (((message.take w.size).drop w.sent).take n))
          some { s with writes := s.writes.set i { w with sent := w.sent + n } }
        else none
  | .writeDone i ec =>
    s.writes[i]?.bind fun w =>
      if ec = .success ∧ w.sent ≠ w.size then none
      else
        let s := if ec = .failure then s.emit w.self .failed else s
        let s := ({ s with writes := s.writes.eraseIdx i } : SharedServer)
        some ((s.releaseSession w.self).releaseBuffer w.data)

def init : SharedServer := doAccept ⟨.empty, .empty, 0, [], []⟩

end SharedServer

def sharedServer : System SharedServer SharedEvent := ⟨.init, SharedServer.step⟩

namespace SharedServer

variable {s s' : SharedServer} {t : Service} {ps qs : List Nat} {p q : Nat}

/-! ## What the functions do to the sessions and the messages -/

private theorem releaseSession_of_mem (h : s.sessions.Owned (p :: ps)) (hp : p ∈ ps) :
    ∃ sessions, s.releaseSession p = { s with sessions := sessions } ∧ sessions.Owned ps ∧
      sessions.get = s.sessions.get := by
  obtain ⟨howned, hget, -⟩ := h.drop_of_mem hp
  have hlive : ((s.sessions.drop p).get p).isSome := howned.isSome_iff.2 hp
  refine ⟨s.sessions.drop p, ?_, howned, hget⟩
  simp only [releaseSession, Option.isNone_eq_false_iff.2 hlive, Bool.and_false,
    Bool.false_eq_true, if_false]

private theorem releaseSession_last (h : s.sessions.Owned (p :: ps)) (hp : p ∉ ps) {c : ClientId}
    (hc : s.sessions.get p = some c) :
    ∃ sessions, s.releaseSession p = { s with
        sessions := sessions
        trace := s.trace ++ [⟨c, .closed⟩] } ∧
      sessions.Owned ps ∧ ∀ q, sessions.get q = if q = p then none else s.sessions.get q := by
  obtain ⟨howned, hget, -⟩ := h.drop_last hp
  refine ⟨s.sessions.drop p, ?_, howned, hget⟩
  simp [releaseSession, emit, hc, hget]

private theorem doWrite_eq (h : s.sessions.Owned ps) (hp : p ∈ ps) {c : ClientId}
    (hc : s.sessions.get p = some c) (hb : s.buffers.Owned qs) (now : List UInt8) :
    ∃ sessions buffers, s.doWrite p now = ⟨sessions, buffers, s.accepts,
        s.writes ++ [⟨p, s.buffers.next, now.length, 0⟩], s.trace ++ [⟨c, .serving now⟩]⟩ ∧
      sessions.Owned (p :: ps) ∧ sessions.get = s.sessions.get ∧
      buffers.Owned (s.buffers.next :: qs) ∧
      ∀ q, buffers.get q = if q = s.buffers.next then some now else s.buffers.get q := by
  have hself := (h.copy hp).copy List.mem_cons_self
  have hdata := (hb.make now).copy List.mem_cons_self
  obtain ⟨sessions, hrelease, howned, hget⟩ := releaseSession_of_mem
    (s := ⟨(s.sessions.copy p).copy p, (s.buffers.make now).2.copy s.buffers.next, s.accepts,
      s.writes ++ [⟨p, s.buffers.next, now.length, 0⟩], s.trace ++ [⟨c, .serving now⟩]⟩)
    hself List.mem_cons_self
  obtain ⟨howned', hget', -⟩ := hdata.drop_of_mem List.mem_cons_self
  refine ⟨sessions, _, ?_, howned, ?_, howned', ?_⟩
  · have hemit : s.emit p (.serving now) = { s with trace := s.trace ++ [⟨c, .serving now⟩] } := by
      simp [emit, hc]
    simp only [doWrite, hemit]
    have hreleases := congrArg (fun x : SharedServer => x.releaseBuffer s.buffers.next) hrelease
    exact hreleases
  · simpa using hget
  · intro q
    rw [hget', Heap.copy_get, Heap.make_get]

private theorem onAccept_eq (h : s.sessions.Owned ps) (hb : s.buffers.Owned qs) (c : ClientId)
    (now : List UInt8) :
    ∃ sessions buffers, s.onAccept c now = ⟨sessions, buffers, s.accepts,
        s.writes ++ [⟨s.sessions.next, s.buffers.next, now.length, 0⟩],
        s.trace ++ [⟨c, .serving now⟩]⟩ ∧
      sessions.Owned (s.sessions.next :: ps) ∧
      (∀ q, sessions.get q = if q = s.sessions.next then some c else s.sessions.get q) ∧
      buffers.Owned (s.buffers.next :: qs) ∧
      ∀ q, buffers.get q = if q = s.buffers.next then some now else s.buffers.get q := by
  obtain ⟨sessions, buffers, hwrite, howned, hget, howned', hget'⟩ := doWrite_eq
    (s := ⟨(s.sessions.make c).2, s.buffers, s.accepts, s.writes, s.trace⟩)
    (h.make c) List.mem_cons_self (c := c) (by rw [Heap.make_get, if_pos rfl]) hb now
  obtain ⟨sessions', hrelease, howned'', hget''⟩ := releaseSession_of_mem
    (s := ⟨sessions, buffers, s.accepts,
      s.writes ++ [⟨s.sessions.next, s.buffers.next, now.length, 0⟩],
      s.trace ++ [⟨c, .serving now⟩]⟩) howned List.mem_cons_self
  refine ⟨sessions', buffers, ?_, howned'', ?_, howned', hget'⟩
  · have honAccept : s.onAccept c now = ((⟨(s.sessions.make c).2, s.buffers, s.accepts, s.writes,
        s.trace⟩ : SharedServer).doWrite s.sessions.next now).releaseSession s.sessions.next := rfl
    rw [honAccept, hwrite]
    exact hrelease
  · intro q
    rw [hget'', hget, Heap.make_get]

/-! ## What the clients see -/

def connectionOf (sessions : Heap ClientId) (buffers : Heap (List UInt8)) (w : SharedWrite) :
    Option Connection :=
  (sessions.get w.self).bind fun c => (buffers.get w.data).map fun m => ⟨c, m, w.sent⟩

/-- The server is the service: every write is the only owner of its session and of its message. -/
structure Serves (s : SharedServer) (t : Service) : Prop where
  trace : s.trace = t.trace
  connections : s.writes.map (connectionOf s.sessions s.buffers) = t.connections.map some
  sized : ∀ w ∈ s.writes, ∀ m, s.buffers.get w.data = some m → w.size = m.length
  accepts : s.accepts = 1
  sessions : s.sessions.Owned (s.writes.map SharedWrite.self)
  buffers : s.buffers.Owned (s.writes.map SharedWrite.data)
  selves : (s.writes.map SharedWrite.self).Nodup
  datas : (s.writes.map SharedWrite.data).Nodup

private theorem serves_init : Serves init ⟨[], []⟩ :=
  ⟨rfl, rfl, by simp [init, doAccept], rfl, Heap.owned_empty, Heap.owned_empty, .nil, .nil⟩

private theorem map_connectionOf {sessions sessions' : Heap ClientId}
    {buffers buffers' : Heap (List UInt8)}
    {ws : List SharedWrite} (hs : ∀ w ∈ ws, sessions'.get w.self = sessions.get w.self)
    (hb : ∀ w ∈ ws, buffers'.get w.data = buffers.get w.data) :
    ws.map (connectionOf sessions' buffers') = ws.map (connectionOf sessions buffers) := by
  apply List.map_congr_left
  intro w hw
  simp [connectionOf, hs w hw, hb w hw]

private theorem Serves.writing (h : Serves s t) {i : Nat} {x : Connection}
    (hi : t.connections[i]? = some x) : ∃ w, s.writes[i]? = some w ∧
      s.sessions.get w.self = some x.client ∧ s.buffers.get w.data = some x.message ∧
      w.sent = x.sent ∧ w.size = x.message.length := by
  have hmap := congrArg (fun l => l[i]?) h.connections
  simp only [List.getElem?_map, hi, Option.map_some] at hmap
  obtain ⟨w, hw, hconnection⟩ := Option.map_eq_some_iff.1 hmap
  obtain ⟨c, hc, hconnection⟩ := Option.bind_eq_some_iff.1 hconnection
  obtain ⟨m, hm, rfl⟩ := Option.map_eq_some_iff.1 hconnection
  exact ⟨w, hw, hc, hm, rfl, h.sized w (List.mem_of_getElem? hw) m hm⟩

private theorem Serves.written (h : Serves s t) {i : Nat} {w : SharedWrite}
    (hi : s.writes[i]? = some w) :
    ∃ x, t.connections[i]? = some x := by
  have hmap := congrArg (fun l => l[i]?) h.connections
  simp only [List.getElem?_map, hi, Option.map_some] at hmap
  obtain ⟨x, hx, -⟩ := Option.map_eq_some_iff.1 hmap.symm
  exact ⟨x, hx⟩

private theorem Serves.accept (h : Serves s t) {c : ClientId} (hc : unseen c t.trace)
    (now : List UInt8) : ∃ s', s.step (.acceptDone c now) = some s' ∧
      Serves s' ⟨t.connections ++ [⟨c, now, 0⟩], t.trace ++ [⟨c, .serving now⟩]⟩ := by
  obtain ⟨sessions, buffers, heq, hsessions, hsget, hbuffers, hbget⟩ := onAccept_eq
    (s := ⟨s.sessions, s.buffers, 0, s.writes, s.trace⟩) h.sessions h.buffers c now
  have hstep : s.step (.acceptDone c now) = some ⟨sessions, buffers, 1,
      s.writes ++ [⟨s.sessions.next, s.buffers.next, now.length, 0⟩],
      s.trace ++ [⟨c, .serving now⟩]⟩ := by
    have hunseen : unseen c s.trace := h.trace ▸ hc
    simp only [step, h.accepts, hunseen, Nat.one_pos, and_self, if_true]
    exact congrArg (fun s => some s.doAccept) heq
  have hself : ∀ w ∈ s.writes, sessions.get w.self = s.sessions.get w.self := by
    intro w hw
    have hlt := h.sessions.lt_next (List.mem_map_of_mem (f := SharedWrite.self) hw)
    rw [hsget, if_neg (Nat.ne_of_lt hlt)]
  have hdata : ∀ w ∈ s.writes, buffers.get w.data = s.buffers.get w.data := by
    intro w hw
    have hlt := h.buffers.lt_next (List.mem_map_of_mem (f := SharedWrite.data) hw)
    rw [hbget, if_neg (Nat.ne_of_lt hlt)]
  have hsession : sessions.get s.sessions.next = some c := by rw [hsget, if_pos rfl]
  have hmessage : buffers.get s.buffers.next = some now := by rw [hbget, if_pos rfl]
  refine ⟨_, hstep, ?_⟩
  constructor
  · simp [h.trace]
  · simp [map_connectionOf hself hdata, h.connections, connectionOf, hsession, hmessage]
  · intro w hw m hm
    rcases List.mem_append.1 hw with hw | hw
    · exact h.sized w hw m (hdata w hw ▸ hm)
    · obtain rfl := List.mem_singleton.1 hw
      obtain rfl := Option.some.inj (hmessage.symm.trans hm)
      rfl
  · rfl
  · rw [List.map_append]
    exact hsessions.perm (List.perm_append_singleton _ _).symm
  · rw [List.map_append]
    exact hbuffers.perm (List.perm_append_singleton _ _).symm
  · rw [List.map_append]
    exact (List.perm_append_singleton _ _).nodup_iff.2
      (List.nodup_cons.2 ⟨h.sessions.next_notMem, h.selves⟩)
  · rw [List.map_append]
    exact (List.perm_append_singleton _ _).nodup_iff.2
      (List.nodup_cons.2 ⟨h.buffers.next_notMem, h.datas⟩)

private theorem Serves.send (h : Serves s t) {i n : Nat} {x : Connection}
    (hi : t.connections[i]? = some x) (hn : n ≤ x.message.length - x.sent) :
    ∃ s', s.step (.transmit i n) = some s' ∧
      Serves s' ⟨t.connections.set i { x with sent := x.sent + n },
        t.trace ++ [⟨x.client, .wrote ((x.message.drop x.sent).take n)⟩]⟩ := by
  obtain ⟨w, hw, hc, hm, hsent, hsize⟩ := h.writing hi
  have hstep : s.step (.transmit i n) = some { s with
      writes := s.writes.set i { w with sent := w.sent + n }
      trace := s.trace ++ [⟨x.client, .wrote ((x.message.drop x.sent).take n)⟩] } := by
    simp [step, hw, hc, hm, hsize, hsent, hn, emit]
  have hselves : (s.writes.set i { w with sent := w.sent + n }).map SharedWrite.self =
      s.writes.map SharedWrite.self := map_set_of_eq hw rfl
  have hdatas : (s.writes.set i { w with sent := w.sent + n }).map SharedWrite.data =
      s.writes.map SharedWrite.data := map_set_of_eq hw rfl
  refine ⟨_, hstep, ?_⟩
  constructor
  · simp [h.trace]
  · have hview : connectionOf s.sessions s.buffers { w with sent := w.sent + n } =
        some { x with sent := x.sent + n } := by
      simp [connectionOf, hc, hm, hsent]
    rw [List.map_set, h.connections, hview, List.map_set]
  · intro w' hw' m hm'
    rcases List.mem_or_eq_of_mem_set hw' with hw' | rfl
    · exact h.sized w' hw' m hm'
    · exact h.sized w (List.mem_of_getElem? hw) m hm'
  · exact h.accepts
  · exact hselves ▸ h.sessions
  · exact hdatas ▸ h.buffers
  · exact hselves ▸ h.selves
  · exact hdatas ▸ h.datas

private theorem Serves.close (h : Serves s t) {i : Nat} {ec : ErrorCode} {x : Connection}
    (hi : t.connections[i]? = some x) (hec : ec = .success → x.sent = x.message.length) :
    ∃ s', s.step (.writeDone i ec) = some s' ∧
      Serves s' ⟨t.connections.eraseIdx i, t.trace ++ ending x.client ec⟩ := by
  obtain ⟨w, hw, hc, hm, hsent, hsize⟩ := h.writing hi
  have hselves : (w.self :: (s.writes.eraseIdx i).map SharedWrite.self).Perm
      (s.writes.map SharedWrite.self) := perm_map_eraseIdx hw
  have hdatas : (w.data :: (s.writes.eraseIdx i).map SharedWrite.data).Perm
      (s.writes.map SharedWrite.data) := perm_map_eraseIdx hw
  have hself := List.nodup_cons.1 (hselves.nodup_iff.2 h.selves)
  have hdata := List.nodup_cons.1 (hdatas.nodup_iff.2 h.datas)
  let failed := if ec = .failure then [(⟨x.client, .failed⟩ : Obs)] else []
  obtain ⟨sessions, heq, hsessions, hsget⟩ := releaseSession_last
    (s := ⟨s.sessions, s.buffers, s.accepts, s.writes.eraseIdx i, s.trace ++ failed⟩)
    (h.sessions.perm hselves.symm) hself.1 hc
  obtain ⟨hbuffers, hbget, -⟩ := (h.buffers.perm hdatas.symm).drop_last hdata.1
  have hstep : s.step (.writeDone i ec) = some ⟨sessions, s.buffers.drop w.data, s.accepts,
      s.writes.eraseIdx i, s.trace ++ ending x.client ec⟩ := by
    have hfull : ¬(ec = .success ∧ w.sent ≠ w.size) := by
      rintro ⟨hsuccess, hne⟩
      rw [hsent, hsize] at hne
      exact hne (hec hsuccess)
    have hrelease := congrArg (fun s => some (s.releaseBuffer w.data)) heq
    simp only [step, hw, Option.bind_some, hfull, if_false]
    cases ec with
    | success => simpa [failed, ending, releaseBuffer] using hrelease
    | failure => simpa [failed, ending, emit, hc, releaseBuffer] using hrelease
  have hsother : ∀ w' ∈ s.writes.eraseIdx i, sessions.get w'.self = s.sessions.get w'.self := by
    intro w' hw'
    rw [hsget, if_neg]
    intro heq
    exact hself.1 (heq ▸ List.mem_map_of_mem hw')
  have hbother : ∀ w' ∈ s.writes.eraseIdx i,
      (s.buffers.drop w.data).get w'.data = s.buffers.get w'.data := by
    intro w' hw'
    rw [hbget, if_neg]
    intro heq
    exact hdata.1 (heq ▸ List.mem_map_of_mem hw')
  refine ⟨_, hstep, ?_⟩
  constructor
  · simp [h.trace]
  · rw [map_connectionOf hsother hbother, ← List.eraseIdx_map, h.connections, List.eraseIdx_map]
  · intro w' hw' m hm'
    exact h.sized w' (List.mem_of_mem_eraseIdx hw') m (hbother w' hw' ▸ hm')
  · exact h.accepts
  · exact hsessions
  · exact hbuffers
  · exact hself.2
  · exact hdata.2

/-- Whatever the server does, the service can do. -/
theorem Serves.step (h : Serves s t) {e : SharedEvent} (he : s.step e = some s') :
    Serves s' t ∨ ∃ t', Service.Effect t t' ∧ Serves s' t' := by
  cases e with
  | acceptDone c now =>
    have hc : unseen c t.trace := by
      simp only [SharedServer.step, Option.ite_none_right_eq_some] at he
      exact h.trace ▸ he.1.2
    obtain ⟨s'', hs'', hserves⟩ := h.accept hc now
    obtain rfl := Option.some.inj (hs''.symm.trans he)
    exact .inr ⟨_, .accept hc, hserves⟩
  | acceptFailed =>
    simp only [SharedServer.step, h.accepts, Nat.one_pos, if_true, Option.some.injEq] at he
    left
    subst s'
    exact ⟨h.trace, h.connections, h.sized, rfl, h.sessions, h.buffers, h.selves, h.datas⟩
  | transmit i n =>
    obtain ⟨w, hw, hx⟩ := Option.bind_eq_some_iff.1 he
    obtain ⟨x, hi⟩ := h.written hw
    obtain ⟨w', hw', hc, hm, hsent, hsize⟩ := h.writing hi
    obtain rfl := Option.some.inj (hw.symm.trans hw')
    have hn : n ≤ x.message.length - x.sent := by
      simp only [hm, Option.bind_some, Option.ite_none_right_eq_some, hsize, hsent] at hx
      exact hx.1
    obtain ⟨s'', hs'', hserves⟩ := h.send hi hn
    obtain rfl := Option.some.inj (hs''.symm.trans he)
    exact .inr ⟨_, .send hi hn, hserves⟩
  | writeDone i ec =>
    obtain ⟨w, hw, hx⟩ := Option.bind_eq_some_iff.1 he
    obtain ⟨x, hi⟩ := h.written hw
    obtain ⟨w', hw', hc, hm, hsent, hsize⟩ := h.writing hi
    obtain rfl := Option.some.inj (hw.symm.trans hw')
    have hec : ec = .success → x.sent = x.message.length := by
      simp only [Option.ite_none_left_eq_some, hsize, hsent, ne_eq, not_and, not_not] at hx
      exact hx.1
    obtain ⟨s'', hs'', hserves⟩ := h.close hi hec
    obtain rfl := Option.some.inj (hs''.symm.trans he)
    exact .inr ⟨_, .close hi hec, hserves⟩

private theorem Serves.served (h : Serves s t) {t' : Service} (hd : Service.Effect t t') :
    ∃ e s', s.step e = some s' ∧ Serves s' t' := by
  cases hd with
  | @accept c message hc => exact ⟨_, h.accept hc message⟩
  | send hi hn => exact ⟨_, h.send hi hn⟩
  | close hi hec => exact ⟨_, h.close hi hec⟩

theorem implements : Implements sharedServer SharedServer.trace Serves where
  init := serves_init
  trace := fun _ _ h => h.trace
  step := fun _ _ _ _ h he => h.step he
  served := fun _ _ _ h hd => h.served hd

end SharedServer

/-- A session and a message live for one outstanding write, which owns them, and there are no
others: each of the rest was destroyed once. -/
theorem sharedServer_memory {s : SharedServer} (h : sharedServer.Reachable s) :
    s.accepts = 1 ∧
    (s.writes.map SharedWrite.self).Nodup ∧ (s.writes.map SharedWrite.data).Nodup ∧
    (∀ p, (s.sessions.get p).isSome ↔ ∃ w ∈ s.writes, w.self = p) ∧
    (∀ p, (s.buffers.get p).isSome ↔ ∃ w ∈ s.writes, w.data = p) ∧
    s.sessions.destroyed.Nodup ∧ s.buffers.destroyed.Nodup ∧
    (∀ p < s.sessions.next, (∃ w ∈ s.writes, w.self = p) ∨ p ∈ s.sessions.destroyed) ∧
    (∀ p < s.buffers.next, (∃ w ∈ s.writes, w.data = p) ∨ p ∈ s.buffers.destroyed) := by
  obtain ⟨t, -, hserves⟩ := SharedServer.implements.exists_related h
  have hself : ∀ p, (s.sessions.get p).isSome ↔ ∃ w ∈ s.writes, w.self = p := by
    intro p
    rw [hserves.sessions.isSome_iff, List.mem_map]
  have hdata : ∀ p, (s.buffers.get p).isSome ↔ ∃ w ∈ s.writes, w.data = p := by
    intro p
    rw [hserves.buffers.isSome_iff, List.mem_map]
  refine ⟨hserves.accepts, hserves.selves, hserves.datas, hself, hdata, hserves.sessions.once,
    hserves.buffers.once, ?_, ?_⟩
  · intro p hp
    rw [← hself]
    exact (hserves.sessions.made p).1 hp
  · intro p hp
    rw [← hdata]
    exact (hserves.buffers.made p).1 hp

theorem sharedServer_memory_serveOne :
    let s := sharedServer.final [.acceptDone 7 [65, 66], .transmit 0 2, .writeDone 0 .success]
    s.buffers.destroyed = [0] ∧ ∀ p, (s.buffers.get p).isSome ↔ ∃ w ∈ s.writes, w.data = p :=
  ⟨by decide +kernel, (sharedServer_memory (sharedServer.reachable_final _)).2.2.2.2.1⟩

end BoostLearning.Daytime
