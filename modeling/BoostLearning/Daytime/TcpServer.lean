import BoostLearning.Daytime.Service
import BoostLearning.Framework.SharedOwnership

/-!
# The asynchronous daytime server

`tcp_server` of `async_server.cpp`, and of `two_server.cpp`, where `handle_write` takes no
arguments. There is nothing that closes a socket: a connection lives as long as a handler is bound
to a pointer to it, and the message is transmitted from the connection itself.
-/

namespace BoostLearning.Daytime

/-- `_socket`, once it is connected to a client, and `_message`. -/
structure TcpConnection where
  socket : Option ClientId
  message : List UInt8
deriving DecidableEq

/-- An outstanding `async_write` of `_message`, and the pointer that its handler is bound to. -/
structure TcpWrite where
  connection : Nat
  size : Nat
  sent : Nat
deriving DecidableEq

/-- The connections, the pointers that the handlers of outstanding accepts are bound to, the
outstanding writes, and what was seen at the sockets. -/
structure TcpServer where
  heap : Heap TcpConnection
  accepts : List Nat
  writes : List TcpWrite
  trace : List Obs

/-- An accept completes, for a client and at a time of day; a write transmits, or completes. -/
inductive TcpEvent where
  | acceptDone (i : Nat) (c : ClientId) (now : List UInt8)
  | acceptFailed (i : Nat)
  | transmit (i n : Nat)
  | writeDone (i : Nat) (ec : ErrorCode)
deriving DecidableEq

namespace TcpServer

def clientOf (s : TcpServer) (p : Nat) : Option ClientId := (s.heap.get p).bind TcpConnection.socket

def emit (s : TcpServer) (p : Nat) (act : Act) : TcpServer :=
  { s with trace := s.trace ++ (s.clientOf p).toList.map fun c => ⟨c, act⟩ }

/-- A pointer is destroyed. The destructor of a connection closes its socket. -/
def release (s : TcpServer) (p : Nat) : TcpServer :=
  let last := (s.heap.get p).isSome && ((s.heap.drop p).get p).isNone
  let s' := if last then s.emit p .closed else s
  { s' with heap := s.heap.drop p }

/-- `start_accept`: the local `new_connection`, and its copy in the handler. -/
def startAccept (s : TcpServer) : TcpServer :=
  let (newConnection, heap) := s.heap.make ⟨none, []⟩
  let s := { s with heap := heap.copy newConnection, accepts := s.accepts ++ [newConnection] }
  s.release newConnection

def start (s : TcpServer) (p : Nat) (now : List UInt8) : TcpServer :=
  let s := { s with heap := s.heap.modify p fun x => { x with message := now } }
  let s := s.emit p (.serving now)
  { s with heap := s.heap.copy p, writes := s.writes ++ [⟨p, now.length, 0⟩] }

def handleAccept (s : TcpServer) (newConnection : Nat) (error : ErrorCode) (now : List UInt8) :
    TcpServer :=
  (match error with
    | .success => s.start newConnection now
    | .failure => s).startAccept

/-- Call `handle_accept` with a copy of the pointer that the handler is bound to; both are
destroyed afterwards. -/
def callHandleAccept (s : TcpServer) (i p : Nat) (error : ErrorCode) (now : List UInt8) :
    TcpServer :=
  let s := { s with heap := s.heap.copy p, accepts := s.accepts.eraseIdx i }
  ((s.handleAccept p error now).release p).release p

/-- One event; a client is one that was not there before. -/
def step (s : TcpServer) : TcpEvent → Option TcpServer
  | .acceptDone i c now =>
    s.accepts[i]?.bind fun p =>
      if unseen c s.trace then
        let s := { s with heap := s.heap.modify p fun x => { x with socket := some c } }
        some (s.callHandleAccept i p .success now)
      else none
  | .acceptFailed i => s.accepts[i]?.map fun p => s.callHandleAccept i p .failure []
  | .transmit i n =>
    s.writes[i]?.bind fun w =>
      (s.heap.get w.connection).bind fun x =>
        if n ≤ w.size - w.sent then
          let s := s.emit w.connection (.wrote (((x.message.take w.size).drop w.sent).take n))
          some { s with writes := s.writes.set i { w with sent := w.sent + n } }
        else none
  | .writeDone i ec =>
    s.writes[i]?.bind fun w =>
      if ec = .success ∧ w.sent ≠ w.size then none
      else
        let s := if ec = .failure then s.emit w.connection .failed else s
        some (({ s with writes := s.writes.eraseIdx i } : TcpServer).release w.connection)

def init : TcpServer := startAccept ⟨.empty, [], [], []⟩

end TcpServer

def tcpServer : System TcpServer TcpEvent := ⟨.init, TcpServer.step⟩

namespace TcpServer

variable {s s' : TcpServer} {t : Service} {ps : List Nat} {p q : Nat}

def pointers (s : TcpServer) : List Nat := s.accepts ++ s.writes.map TcpWrite.connection

/-! ## What the functions do to the connections -/

private theorem release_of_mem (h : s.heap.Owned (p :: ps)) (hp : p ∈ ps) :
    ∃ heap, s.release p = { s with heap := heap } ∧ heap.Owned ps ∧ heap.get = s.heap.get := by
  obtain ⟨howned, hget, -⟩ := h.drop_of_mem hp
  have hlive : ((s.heap.drop p).get p).isSome := howned.isSome_iff.2 hp
  refine ⟨s.heap.drop p, ?_, howned, hget⟩
  simp only [release, Option.isNone_eq_false_iff.2 hlive, Bool.and_false, Bool.false_eq_true,
    if_false]

private theorem release_last (h : s.heap.Owned (p :: ps)) (hp : p ∉ ps) {x : TcpConnection}
    (hx : s.heap.get p = some x) :
    ∃ heap, s.release p = { s with
        heap := heap
        trace := s.trace ++ x.socket.toList.map fun c => ⟨c, .closed⟩ } ∧
      heap.Owned ps ∧ ∀ q, heap.get q = if q = p then none else s.heap.get q := by
  obtain ⟨howned, hget, -⟩ := h.drop_last hp
  refine ⟨s.heap.drop p, ?_, howned, hget⟩
  simp [release, emit, clientOf, hx, hget]

private theorem startAccept_eq (h : s.heap.Owned ps) :
    ∃ heap, s.startAccept = { s with heap := heap, accepts := s.accepts ++ [s.heap.next] } ∧
      heap.Owned (s.heap.next :: ps) ∧
      ∀ q, heap.get q = if q = s.heap.next then some ⟨none, []⟩ else s.heap.get q := by
  have hcopy := (h.make ⟨none, []⟩).copy List.mem_cons_self
  obtain ⟨heap, hrelease, howned, hget⟩ := release_of_mem
    (s := ⟨(s.heap.make ⟨none, []⟩).2.copy s.heap.next, s.accepts ++ [s.heap.next], s.writes,
      s.trace⟩) hcopy List.mem_cons_self
  refine ⟨heap, hrelease, howned, ?_⟩
  intro q
  rw [hget, Heap.copy_get, Heap.make_get]

private theorem start_eq (h : s.heap.Owned ps) (hp : p ∈ ps) {x : TcpConnection}
    (hx : s.heap.get p = some x) (now : List UInt8) :
    ∃ heap, s.start p now =
        ⟨heap, s.accepts, s.writes ++ [⟨p, now.length, 0⟩],
          s.trace ++ x.socket.toList.map fun c => ⟨c, .serving now⟩⟩ ∧
      heap.Owned (p :: ps) ∧ heap.next = s.heap.next ∧
      ∀ q, heap.get q = if q = p then some ⟨x.socket, now⟩ else s.heap.get q := by
  refine ⟨_, ?_, (h.modify p fun x => { x with message := now }).copy hp, rfl, ?_⟩
  · simp [start, emit, clientOf, Heap.modify_get, hx]
  · intro q
    rw [Heap.copy_get, Heap.modify_get, hx, Option.map_some]

private theorem callHandleAccept_success {i : Nat} (h : s.heap.Owned (p :: ps)) {x : TcpConnection}
    (hx : s.heap.get p = some x) (now : List UInt8) :
    ∃ heap, s.callHandleAccept i p .success now =
        ⟨heap, s.accepts.eraseIdx i ++ [s.heap.next], s.writes ++ [⟨p, now.length, 0⟩],
          s.trace ++ x.socket.toList.map fun c => ⟨c, .serving now⟩⟩ ∧
      heap.Owned (s.heap.next :: p :: ps) ∧
      ∀ q, heap.get q = if q = s.heap.next then some ⟨none, []⟩
        else if q = p then some ⟨x.socket, now⟩ else s.heap.get q := by
  have hcopy := h.copy List.mem_cons_self
  obtain ⟨heap₁, hstart, h₁, hnext, hget₁⟩ := start_eq
    (s := ⟨s.heap.copy p, s.accepts.eraseIdx i, s.writes, s.trace⟩) hcopy List.mem_cons_self
    (x := x) (by simpa using hx) now
  obtain ⟨heap₂, haccept, h₂, hget₂⟩ := startAccept_eq
    (s := ⟨heap₁, s.accepts.eraseIdx i, s.writes ++ [⟨p, now.length, 0⟩],
      s.trace ++ x.socket.toList.map fun c => ⟨c, .serving now⟩⟩) h₁
  have hfresh : heap₁.next = s.heap.next := hnext
  rw [hfresh] at haccept h₂ hget₂
  obtain ⟨heap₃, hrelease₃, h₃, hget₃⟩ := release_of_mem
    (s := ⟨heap₂, s.accepts.eraseIdx i ++ [s.heap.next], s.writes ++ [⟨p, now.length, 0⟩],
      s.trace ++ x.socket.toList.map fun c => ⟨c, .serving now⟩⟩) h₂.swap (by simp)
  obtain ⟨heap₄, hrelease₄, h₄, hget₄⟩ := release_of_mem
    (s := ⟨heap₃, s.accepts.eraseIdx i ++ [s.heap.next], s.writes ++ [⟨p, now.length, 0⟩],
      s.trace ++ x.socket.toList.map fun c => ⟨c, .serving now⟩⟩) h₃.swap (by simp)
  refine ⟨heap₄, ?_, h₄, ?_⟩
  · simp only [callHandleAccept, handleAccept, hstart, haccept, hrelease₃, hrelease₄]
  · intro q
    have hget : heap₄.get = heap₂.get := hget₄.trans hget₃
    rw [hget, hget₂, hget₁, Heap.copy_get]

private theorem callHandleAccept_failure {i : Nat} (h : s.heap.Owned (p :: ps)) (hp : p ∉ ps)
    {x : TcpConnection} (hx : s.heap.get p = some x) (now : List UInt8) :
    ∃ heap, s.callHandleAccept i p .failure now =
        ⟨heap, s.accepts.eraseIdx i ++ [s.heap.next], s.writes,
          s.trace ++ x.socket.toList.map fun c => ⟨c, .closed⟩⟩ ∧
      heap.Owned (s.heap.next :: ps) ∧
      ∀ q, heap.get q = if q = p then none
        else if q = s.heap.next then some ⟨none, []⟩ else s.heap.get q := by
  have hne : p ≠ s.heap.next := Nat.ne_of_lt (h.lt_next List.mem_cons_self)
  obtain ⟨heap₁, haccept, h₁, hget₁⟩ := startAccept_eq
    (s := ⟨s.heap.copy p, s.accepts.eraseIdx i, s.writes, s.trace⟩) (h.copy List.mem_cons_self)
  obtain ⟨heap₂, hrelease₂, h₂, hget₂⟩ := release_of_mem
    (s := ⟨heap₁, s.accepts.eraseIdx i ++ [s.heap.next], s.writes, s.trace⟩) h₁.swap (by simp)
  have hx₂ : heap₂.get p = some x := by
    rw [hget₂, hget₁, Heap.copy_next, if_neg hne, Heap.copy_get, hx]
  obtain ⟨heap₃, hrelease₃, h₃, hget₃⟩ := release_last
    (s := ⟨heap₂, s.accepts.eraseIdx i ++ [s.heap.next], s.writes, s.trace⟩) h₂.swap
    (by simp [hne, hp]) hx₂
  refine ⟨heap₃, ?_, h₃, ?_⟩
  · simp only [Heap.copy_next] at haccept
    simp only [callHandleAccept, handleAccept, haccept, hrelease₂, hrelease₃]
  · intro q
    rw [hget₃, hget₂, hget₁, Heap.copy_get]
    rfl

/-! ## What the clients see -/

def connectionOf (heap : Heap TcpConnection) (w : TcpWrite) : Option Connection :=
  (heap.get w.connection).bind fun x => x.socket.map fun c => ⟨c, x.message, w.sent⟩

/-- The server is the service: one accept is outstanding, with a connection of its own, and the
other connections are those that are written to. -/
structure Serves (s : TcpServer) (t : Service) : Prop where
  trace : s.trace = t.trace
  connections : s.writes.map (connectionOf s.heap) = t.connections.map some
  sized : ∀ w ∈ s.writes, ∀ x, s.heap.get w.connection = some x → w.size = x.message.length
  accepts : ∃ p, s.accepts = [p] ∧ s.heap.get p = some ⟨none, []⟩
  owned : s.heap.Owned s.pointers
  nodup : s.pointers.Nodup

private theorem serves_init : Serves init ⟨[], []⟩ := by
  obtain ⟨heap, heq, howned, hget⟩ := startAccept_eq (s := ⟨.empty, [], [], []⟩)
    Heap.owned_empty
  have hinit : init = ⟨heap, [0], [], []⟩ := heq
  rw [hinit]
  exact ⟨rfl, rfl, by simp, ⟨0, rfl, hget 0⟩, howned, List.nodup_singleton 0⟩

private theorem map_connectionOf {heap heap' : Heap TcpConnection} {ws : List TcpWrite}
    (h : ∀ w ∈ ws, heap'.get w.connection = heap.get w.connection) :
    ws.map (connectionOf heap') = ws.map (connectionOf heap) := by
  apply List.map_congr_left
  intro w hw
  simp [connectionOf, h w hw]

private theorem Serves.accepting (h : Serves s t) : ∃ p, s.accepts = [p] ∧
    s.heap.get p = some ⟨none, []⟩ ∧ s.heap.Owned (p :: s.writes.map TcpWrite.connection) ∧
    (∀ w ∈ s.writes, w.connection ≠ p ∧ w.connection ≠ s.heap.next) ∧
    (p :: s.writes.map TcpWrite.connection).Nodup ∧ p ≠ s.heap.next := by
  obtain ⟨p, haccepts, hget⟩ := h.accepts
  have howned : s.heap.Owned (p :: s.writes.map TcpWrite.connection) := by
    have howned := h.owned
    rwa [pointers, haccepts] at howned
  have hnodup : (p :: s.writes.map TcpWrite.connection).Nodup := by
    have hnodup := h.nodup
    rwa [pointers, haccepts] at hnodup
  refine ⟨p, haccepts, hget, howned, ?_, hnodup, ?_⟩
  · intro w hw
    have hmem : w.connection ∈ s.writes.map TcpWrite.connection := List.mem_map_of_mem hw
    constructor
    · intro heq
      exact (List.nodup_cons.1 hnodup).1 (heq ▸ hmem)
    · exact Nat.ne_of_lt (howned.lt_next (List.mem_cons_of_mem _ hmem))
  · exact Nat.ne_of_lt (howned.lt_next List.mem_cons_self)

private theorem Serves.accept (h : Serves s t) {c : ClientId} (hc : unseen c t.trace)
    (now : List UInt8) : ∃ s', s.step (.acceptDone 0 c now) = some s' ∧
      Serves s' ⟨t.connections ++ [⟨c, now, 0⟩], t.trace ++ [⟨c, .serving now⟩]⟩ := by
  obtain ⟨p, haccepts, hp, howned, hne, hnodup, hpn⟩ := h.accepting
  let connect (x : TcpConnection) : TcpConnection := { x with socket := some c }
  have hconnected : (s.heap.modify p connect).get p = some ⟨some c, []⟩ := by
    rw [Heap.modify_get, if_pos rfl, hp]
    rfl
  obtain ⟨heap, heq, howned', hget⟩ := callHandleAccept_success (i := 0)
    (s := ⟨s.heap.modify p connect, [p], s.writes, s.trace⟩)
    (howned.modify p connect) hconnected now
  simp only [Heap.modify_next, List.eraseIdx_cons_zero, List.nil_append] at heq howned' hget
  have hframe : ∀ w ∈ s.writes, heap.get w.connection = s.heap.get w.connection := by
    intro w hw
    rw [hget, if_neg (hne w hw).2, if_neg (hne w hw).1, Heap.modify_get, if_neg (hne w hw).1]
  have hconnection : heap.get p = some ⟨some c, now⟩ := by
    rw [hget, if_neg hpn, if_pos rfl]
  have hstep : s.step (.acceptDone 0 c now) = some ⟨heap, [s.heap.next],
      s.writes ++ [⟨p, now.length, 0⟩], s.trace ++ [⟨c, .serving now⟩]⟩ := by
    have hunseen : unseen c s.trace := h.trace ▸ hc
    simp only [step, haccepts, List.getElem?_cons_zero, Option.bind_some, hunseen, if_true]
    exact congrArg some heq
  have hperm := (List.perm_append_singleton p (s.writes.map TcpWrite.connection)).symm.cons
    s.heap.next
  refine ⟨_, hstep, ?_⟩
  constructor
  · simp [h.trace]
  · simp [map_connectionOf hframe, h.connections, connectionOf, hconnection]
  · intro w hw x hx
    rcases List.mem_append.1 hw with hw | hw
    · exact h.sized w hw x (hframe w hw ▸ hx)
    · obtain rfl := List.mem_singleton.1 hw
      obtain rfl := Option.some.inj (hconnection.symm.trans hx)
      rfl
  · exact ⟨s.heap.next, rfl, by rw [hget, if_pos rfl]⟩
  · simp only [pointers, List.map_append, List.map_singleton, List.singleton_append]
    exact howned'.perm hperm
  · simp only [pointers, List.map_append, List.map_singleton, List.singleton_append]
    exact hperm.nodup_iff.1 (List.nodup_cons.2 ⟨howned.next_notMem, hnodup⟩)

private theorem Serves.refuse (h : Serves s t) : ∃ s', s.step (.acceptFailed 0) = some s' ∧
    Serves s' t := by
  obtain ⟨p, haccepts, hp, howned, hne, hnodup, hpn⟩ := h.accepting
  obtain ⟨heap, heq, howned', hget⟩ := callHandleAccept_failure (i := 0)
    (s := ⟨s.heap, [p], s.writes, s.trace⟩) howned (List.nodup_cons.1 hnodup).1 hp []
  simp only [List.eraseIdx_cons_zero, List.nil_append] at heq howned' hget
  have hframe : ∀ w ∈ s.writes, heap.get w.connection = s.heap.get w.connection := by
    intro w hw
    rw [hget, if_neg (hne w hw).1, if_neg (hne w hw).2]
  have hstep : s.step (.acceptFailed 0) = some ⟨heap, [s.heap.next], s.writes, s.trace⟩ := by
    have hs : s = ⟨s.heap, [p], s.writes, s.trace⟩ := by rw [← haccepts]
    simp only [step, haccepts, List.getElem?_cons_zero, Option.map_some]
    rw [← hs] at heq
    simpa using heq
  refine ⟨_, hstep, ?_⟩
  constructor
  · exact h.trace
  · rw [map_connectionOf hframe]
    exact h.connections
  · intro w hw x hx
    exact h.sized w hw x (hframe w hw ▸ hx)
  · exact ⟨s.heap.next, rfl, by rw [hget, if_neg (Ne.symm hpn), if_pos rfl]⟩
  · exact howned'
  · refine List.nodup_cons.2 ⟨?_, (List.nodup_cons.1 hnodup).2⟩
    intro hmem
    exact howned.next_notMem (List.mem_cons_of_mem _ hmem)

private theorem connectionOf_eq_some {heap : Heap TcpConnection} {w : TcpWrite} {x : Connection}
    (h : connectionOf heap w = some x) :
    heap.get w.connection = some ⟨some x.client, x.message⟩ ∧ w.sent = x.sent := by
  obtain ⟨y, hy, h⟩ := Option.bind_eq_some_iff.1 h
  obtain ⟨c, hc, rfl⟩ := Option.map_eq_some_iff.1 h
  exact ⟨by rw [hy, ← hc], rfl⟩

private theorem Serves.writing (h : Serves s t) {i : Nat} {x : Connection}
    (hi : t.connections[i]? = some x) : ∃ w, s.writes[i]? = some w ∧
      s.heap.get w.connection = some ⟨some x.client, x.message⟩ ∧ w.sent = x.sent ∧
      w.size = x.message.length := by
  have hmap := congrArg (fun l => l[i]?) h.connections
  simp only [List.getElem?_map, hi, Option.map_some] at hmap
  obtain ⟨w, hw, hconnection⟩ := Option.map_eq_some_iff.1 hmap
  obtain ⟨hget, hsent⟩ := connectionOf_eq_some hconnection
  exact ⟨w, hw, hget, hsent, h.sized w (List.mem_of_getElem? hw) _ hget⟩

private theorem Serves.written (h : Serves s t) {i : Nat} {w : TcpWrite}
    (hi : s.writes[i]? = some w) :
    ∃ x, t.connections[i]? = some x := by
  have hmap := congrArg (fun l => l[i]?) h.connections
  simp only [List.getElem?_map, hi, Option.map_some] at hmap
  obtain ⟨x, hx, -⟩ := Option.map_eq_some_iff.1 hmap.symm
  exact ⟨x, hx⟩

private theorem Serves.send (h : Serves s t) {i n : Nat} {x : Connection}
    (hi : t.connections[i]? = some x) (hn : n ≤ x.message.length - x.sent) :
    ∃ s', s.step (.transmit i n) = some s' ∧
      Serves s' ⟨t.connections.set i { x with sent := x.sent + n },
        t.trace ++ [⟨x.client, .wrote ((x.message.drop x.sent).take n)⟩]⟩ := by
  obtain ⟨w, hw, hget, hsent, hsize⟩ := h.writing hi
  have hstep : s.step (.transmit i n) = some { s with
      writes := s.writes.set i { w with sent := w.sent + n }
      trace := s.trace ++ [⟨x.client, .wrote ((x.message.drop x.sent).take n)⟩] } := by
    simp [step, hw, hget, hsize, hsent, hn, emit, clientOf]
  have hpointers : (s.writes.set i { w with sent := w.sent + n }).map TcpWrite.connection =
      s.writes.map TcpWrite.connection := map_set_of_eq hw rfl
  refine ⟨_, hstep, ?_⟩
  constructor
  · simp [h.trace]
  · have hview : connectionOf s.heap { w with sent := w.sent + n } =
        some { x with sent := x.sent + n } := by
      simp [connectionOf, hget, hsent]
    rw [List.map_set, h.connections, hview, List.map_set]
  · intro w' hw' y hy
    rcases List.mem_or_eq_of_mem_set hw' with hw' | rfl
    · exact h.sized w' hw' y hy
    · exact h.sized w (List.mem_of_getElem? hw) y hy
  · exact h.accepts
  · simpa [pointers, hpointers] using h.owned
  · simpa [pointers, hpointers] using h.nodup

private theorem Serves.close (h : Serves s t) {i : Nat} {ec : ErrorCode} {x : Connection}
    (hi : t.connections[i]? = some x) (hec : ec = .success → x.sent = x.message.length) :
    ∃ s', s.step (.writeDone i ec) = some s' ∧
      Serves s' ⟨t.connections.eraseIdx i, t.trace ++ ending x.client ec⟩ := by
  obtain ⟨w, hw, hget, hsent, hsize⟩ := h.writing hi
  have hperm : (w.connection ::
      (s.accepts ++ (s.writes.eraseIdx i).map TcpWrite.connection)).Perm s.pointers :=
    List.perm_middle.symm.trans ((perm_map_eraseIdx hw).append_left _)
  have hnodup := List.nodup_cons.1 (hperm.nodup_iff.2 h.nodup)
  let failed := if ec = .failure then [(⟨x.client, .failed⟩ : Obs)] else []
  obtain ⟨heap, heq, howned, hget'⟩ := release_last
    (s := ⟨s.heap, s.accepts, s.writes.eraseIdx i, s.trace ++ failed⟩)
    (h.owned.perm hperm.symm) hnodup.1 hget
  have hstep : s.step (.writeDone i ec) = some ⟨heap, s.accepts, s.writes.eraseIdx i,
      s.trace ++ ending x.client ec⟩ := by
    have hfull : ¬(ec = .success ∧ w.sent ≠ w.size) := by
      rintro ⟨hsuccess, hne⟩
      rw [hsent, hsize] at hne
      exact hne (hec hsuccess)
    simp only [step, hw, Option.bind_some, hfull, if_false]
    cases ec with
    | success => simpa [failed, ending] using heq
    | failure => simpa [failed, ending, emit, clientOf, hget] using heq
  have hother : ∀ w' ∈ s.writes.eraseIdx i, heap.get w'.connection = s.heap.get w'.connection := by
    intro w' hw'
    rw [hget', if_neg]
    intro heq
    apply hnodup.1
    rw [← heq]
    exact List.mem_append_right _ (List.mem_map_of_mem hw')
  refine ⟨_, hstep, ?_⟩
  constructor
  · simp [h.trace]
  · rw [map_connectionOf hother, ← List.eraseIdx_map, h.connections, List.eraseIdx_map]
  · intro w' hw' y hy
    exact h.sized w' (List.mem_of_mem_eraseIdx hw') y (hother w' hw' ▸ hy)
  · obtain ⟨p, haccepts, hp⟩ := h.accepts
    refine ⟨p, haccepts, ?_⟩
    rw [hget', if_neg]
    · exact hp
    · rintro rfl
      exact hnodup.1 (List.mem_append_left _ (by simp [haccepts]))
  · exact howned
  · exact hnodup.2

/-- Whatever the server does, the service can do. -/
theorem Serves.step (h : Serves s t) {e : TcpEvent} (he : s.step e = some s') :
    Serves s' t ∨ ∃ t', Service.Effect t t' ∧ Serves s' t' := by
  obtain ⟨p, haccepts, -⟩ := h.accepts
  cases e with
  | acceptDone i c now =>
    obtain ⟨q, hq, hc⟩ := Option.bind_eq_some_iff.1 he
    obtain ⟨rfl, -⟩ := eq_singleton_of_getElem? (by simp [haccepts]) hq
    have hunseen : unseen c t.trace := by
      simp only [Option.ite_none_right_eq_some] at hc
      exact h.trace ▸ hc.1
    obtain ⟨s'', hs'', hserves⟩ := h.accept hunseen now
    obtain rfl := Option.some.inj (hs''.symm.trans he)
    exact .inr ⟨_, .accept hunseen, hserves⟩
  | acceptFailed i =>
    obtain ⟨q, hq, -⟩ := Option.map_eq_some_iff.1 he
    obtain ⟨rfl, -⟩ := eq_singleton_of_getElem? (by simp [haccepts]) hq
    obtain ⟨s'', hs'', hserves⟩ := h.refuse
    obtain rfl := Option.some.inj (hs''.symm.trans he)
    exact .inl hserves
  | transmit i n =>
    obtain ⟨w, hw, hx⟩ := Option.bind_eq_some_iff.1 he
    obtain ⟨x, hi⟩ := h.written hw
    obtain ⟨w', hw', hget, hsent, hsize⟩ := h.writing hi
    obtain rfl := Option.some.inj (hw.symm.trans hw')
    have hn : n ≤ x.message.length - x.sent := by
      simp only [hget, Option.bind_some, Option.ite_none_right_eq_some, hsize, hsent] at hx
      exact hx.1
    obtain ⟨s'', hs'', hserves⟩ := h.send hi hn
    obtain rfl := Option.some.inj (hs''.symm.trans he)
    exact .inr ⟨_, .send hi hn, hserves⟩
  | writeDone i ec =>
    obtain ⟨w, hw, hx⟩ := Option.bind_eq_some_iff.1 he
    obtain ⟨x, hi⟩ := h.written hw
    obtain ⟨w', hw', hget, hsent, hsize⟩ := h.writing hi
    obtain rfl := Option.some.inj (hw.symm.trans hw')
    have hec : ec = .success → x.sent = x.message.length := by
      simp only [Option.ite_none_left_eq_some, hsize, hsent, ne_eq, not_and, not_not] at hx
      exact hx.1
    obtain ⟨s'', hs'', hserves⟩ := h.close hi hec
    obtain rfl := Option.some.inj (hs''.symm.trans he)
    exact .inr ⟨_, .close hi hec, hserves⟩

private theorem Serves.served (h : Serves s t) {t' : Service} (hd : Service.Effect t t') :
    ∃ e s', s.step e = some s' ∧ Serves s' t' := by
  cases hd with
  | @accept c message hc => exact ⟨_, h.accept hc message⟩
  | send hi hn => exact ⟨_, h.send hi hn⟩
  | close hi hec => exact ⟨_, h.close hi hec⟩

theorem implements : Implements tcpServer TcpServer.trace Serves where
  init := serves_init
  trace := fun _ _ h => h.trace
  step := fun _ _ _ _ h he => h.step he
  served := fun _ _ _ h hd => h.served hd

end TcpServer

/-- No handler is ever bound to a connection that is gone, and there are no other connections:
one that waits for a client, and one for each write. Each of the rest was destroyed once. -/
theorem tcpServer_memory {s : TcpServer} (h : tcpServer.Reachable s) :
    s.accepts.length = 1 ∧ s.pointers.Nodup ∧ (∀ p, (s.heap.get p).isSome ↔ p ∈ s.pointers) ∧
      (∀ p, s.heap.useCount p = if p ∈ s.pointers then 1 else 0) ∧
      (∀ p, p ∈ s.heap.destroyed ↔ p < s.heap.next ∧ p ∉ s.pointers) ∧
      s.heap.destroyed.Nodup := by
  obtain ⟨t, -, hserves⟩ := TcpServer.implements.exists_related h
  obtain ⟨p, haccepts, -⟩ := hserves.accepts
  refine ⟨by simp [haccepts], hserves.nodup, fun p => hserves.owned.isSome_iff, ?_,
    fun p => hserves.owned.destroyed_iff, hserves.owned.once⟩
  intro p
  rw [hserves.owned.counted]
  split
  · rename_i hp
    exact List.count_eq_one_of_mem hserves.nodup hp
  · rename_i hp
    exact List.count_eq_zero_of_not_mem hp

def serveOne : List TcpEvent := [.acceptDone 0 7 [65, 66], .transmit 0 2, .writeDone 0 .success]

theorem tcpServer_memory_serveOne :
    let s := tcpServer.final serveOne
    s.heap.destroyed = [0] ∧ ∀ p, (s.heap.get p).isSome ↔ p ∈ s.pointers :=
  ⟨by decide +kernel, (tcpServer_memory (tcpServer.reachable_final serveOne)).2.2.1⟩

end BoostLearning.Daytime
