import BoostLearning.Chat.Session
import BoostLearning.Framework.Transition

/-!
# `chat_client`

Two threads: the input thread calls `write` and `close`, which post lambdas; the other one runs
the lambdas, in the order they were posted, and the completion handlers, until the
`io_context` has no work left. On a closed socket no byte is received or transmitted any more,
but an operation that had already done its work may still complete without error.
-/

namespace BoostLearning.Chat

inductive Posted where
  | write (msg : ChatMessage)
  | close
deriving DecidableEq

/-- Whether `_socket` has been closed, the outstanding operations, `_read_msg`, `_write_msgs` and
the lambdas that are posted to the `io_context`. -/
structure ChatClient where
  closed : Bool
  connects : Nat
  reads : ReadChain
  writes : WriteQueue ChatMessage Byte
  posted : List Posted
deriving DecidableEq

inductive ClientObs where
  | called (msg : ChatMessage)
  | pushed (msg : ChatMessage)
  | decoded (ok : Bool)
  | printed (text : List Byte)
  | closed
  | socket (act : SocketAct)
deriving DecidableEq

/-- Calls of the input thread, and what happens on the other one. -/
inductive ClientEvent where
  | write (msg : ChatMessage)
  | close
  | runPosted
  | connectDone (ec : ErrorCode)
  | receive (i : Nat) (bytes : List Byte)
  | readDone (i : Nat) (ec : ErrorCode)
  | transmit (i n : Nat)
  | writeDone (i : Nat) (ec : ErrorCode)
deriving DecidableEq

/-- What `std::cout` is given for a message. -/
def ChatMessage.shown (m : ChatMessage) : List Byte := m.body ++ [10]

namespace ChatClient

/-- The constructor: `do_connect` starts an `async_connect`. -/
def init (storage : Storage) : ChatClient := ⟨false, 1, ⟨.init storage, []⟩, .empty, []⟩

def closeSocket (c : ChatClient) : ChatClient × List ClientObs :=
  ({ c with closed := true }, [.closed])

def doReadHeader (c : ChatClient) : ChatClient := { c with reads := c.reads.doReadHeader }

def doReadBody (c : ChatClient) : ChatClient := { c with reads := c.reads.doReadBody }

/-- The lambda of `write`, with `do_write` in `WriteQueue.doWrite`. -/
def push (c : ChatClient) (msg : ChatMessage) : ChatClient × List ClientObs :=
  ({ c with writes := c.writes.enqueue wireFormat msg }, [.pushed msg])

/-- The handler of `do_connect`. -/
def onConnect (c : ChatClient) (ec : ErrorCode) : ChatClient :=
  match ec with
  | .success => c.doReadHeader
  | .failure => c

/-- The handler of `do_read_header`; the header is not decoded after an error. -/
def onReadHeader (c : ChatClient) (ec : ErrorCode) : ChatClient × List ClientObs :=
  let r := c.reads.headerAccepted ec
  let c := { c with reads := r.2 }
  let decoded := if ec = .success then [ClientObs.decoded r.1] else []
  if r.1 then (c.doReadBody, decoded) else (c.closeSocket.1, decoded ++ c.closeSocket.2)

/-- The handler of `do_read_body`. -/
def onReadBody (c : ChatClient) (ec : ErrorCode) : ChatClient × List ClientObs :=
  match ec with
  | .success => (c.doReadHeader, [.printed c.reads.readMsg.shown])
  | .failure => c.closeSocket

/-- The handler of `do_write`. -/
def onWrite (c : ChatClient) (ec : ErrorCode) : ChatClient × List ClientObs :=
  match ec with
  | .success => ({ c with writes := c.writes.advance wireFormat }, [])
  | .failure => c.closeSocket

/-- One event; `none` when nothing posted or outstanding allows it. -/
def handle (c : ChatClient) : ClientEvent → Option (ChatClient × List ClientObs)
  | .write msg => some ({ c with posted := c.posted ++ [.write msg] }, [.called msg])
  | .close => some ({ c with posted := c.posted ++ [.close] }, [])
  | .runPosted =>
    match c.posted with
    | [] => none
    | .write msg :: rest => some ({ c with posted := rest }.push msg)
    | .close :: rest => some { c with posted := rest }.closeSocket
  | .connectDone ec =>
    if 0 < c.connects then some ({ c with connects := c.connects - 1 }.onConnect ec, []) else none
  | .receive i bytes =>
    if c.closed then none
    else
      (c.reads.receive i bytes).map fun r =>
        ({ c with reads := r }, [.socket (.received bytes)])
  | .readDone i ec =>
    (c.reads.retire i ec).map fun (op, r) =>
      let c := { c with reads := r }
      let r := match op.stage with
        | .header => c.onReadHeader ec
        | .body => c.onReadBody ec
      (r.1, (if ec = .failure then [.socket (.readError op.got op.size)] else []) ++ r.2)
  | .transmit i n =>
    if c.closed then none
    else
      (c.writes.transmit wireFormat i n).map fun (q, bytes) =>
        ({ c with writes := q }, [.socket (.wrote bytes)])
  | .writeDone i ec => (c.writes.retire i ec).map fun q => { c with writes := q }.onWrite ec

/-- Whether the `io_context` has something left to do. -/
def hasWork (c : ChatClient) : Bool :=
  c.connects ≠ 0 || !c.reads.reads.isEmpty || !c.writes.writes.isEmpty || !c.posted.isEmpty

end ChatClient

/-- Calls of the input thread; they do not need the other one. -/
def ClientEvent.isCall : ClientEvent → Bool
  | .write _ => true
  | .close => true
  | _ => false

/-- A client, whether `io_context.run()` has not returned yet, and the trace. -/
structure ClientRun where
  client : ChatClient
  running : Bool
  trace : List ClientObs
deriving DecidableEq

namespace ClientRun

def init (storage : Storage) : ClientRun := ⟨.init storage, true, []⟩

/-- `run()` returns as soon as a handler leaves no work behind. -/
def step (w : ClientRun) (e : ClientEvent) : Option ClientRun :=
  if e.isCall || w.running then
    (w.client.handle e).map fun (c, obs) =>
      ⟨c, w.running && (e.isCall || c.hasWork), w.trace ++ obs⟩
  else none

end ClientRun

def chatClient (storage : Storage) : System ClientRun ClientEvent :=
  ⟨.init storage, ClientRun.step⟩

/-! ## What a handler does -/

/-- Every way an event can be handled, with the handler's branch spelled out. -/
inductive ClientHandled (c : ChatClient) : ClientEvent → ChatClient → List ClientObs → Prop
  | write {msg : ChatMessage} :
      ClientHandled c (.write msg) { c with posted := c.posted ++ [.write msg] } [.called msg]
  | close : ClientHandled c .close { c with posted := c.posted ++ [.close] } []
  | pushed {msg : ChatMessage} {rest : List Posted} (h : c.posted = .write msg :: rest) :
      ClientHandled c .runPosted
        { c with posted := rest, writes := c.writes.enqueue wireFormat msg } [.pushed msg]
  | closed {rest : List Posted} (h : c.posted = .close :: rest) :
      ClientHandled c .runPosted { c with posted := rest, closed := true } [.closed]
  | connected (h : 0 < c.connects) :
      ClientHandled c (.connectDone .success)
        { c with connects := c.connects - 1, reads := c.reads.doReadHeader } []
  | notConnected (h : 0 < c.connects) :
      ClientHandled c (.connectDone .failure) { c with connects := c.connects - 1 } []
  | receive {i : Nat} {bytes : List Byte} {r : ReadChain} (hopen : c.closed = false)
      (h : c.reads.receive i bytes = some r) :
      ClientHandled c (.receive i bytes) { c with reads := r } [.socket (.received bytes)]
  | headerAccepted {i : Nat} {op : AsyncRead} {r : ReadChain}
      (h : c.reads.retire i .success = some (op, r)) (hstage : op.stage = .header)
      (hacc : (r.headerAccepted .success).1 = true) :
      ClientHandled c (.readDone i .success)
        { c with reads := (r.headerAccepted .success).2.doReadBody } [.decoded true]
  | headerRejected {i : Nat} {op : AsyncRead} {r : ReadChain}
      (h : c.reads.retire i .success = some (op, r)) (hstage : op.stage = .header)
      (hrej : (r.headerAccepted .success).1 = false) :
      ClientHandled c (.readDone i .success)
        { c with reads := (r.headerAccepted .success).2, closed := true } [.decoded false, .closed]
  | body {i : Nat} {op : AsyncRead} {r : ReadChain}
      (h : c.reads.retire i .success = some (op, r)) (hstage : op.stage = .body) :
      ClientHandled c (.readDone i .success) { c with reads := r.doReadHeader }
        [.printed r.readMsg.shown]
  | readFailed {i : Nat} {op : AsyncRead} {r : ReadChain}
      (h : c.reads.retire i .failure = some (op, r)) :
      ClientHandled c (.readDone i .failure) { c with reads := r, closed := true }
        [.socket (.readError op.got op.size), .closed]
  | transmit {i n : Nat} {q : WriteQueue ChatMessage Byte} {bytes : List Byte}
      (hopen : c.closed = false) (h : c.writes.transmit wireFormat i n = some (q, bytes)) :
      ClientHandled c (.transmit i n) { c with writes := q } [.socket (.wrote bytes)]
  | written {i : Nat} {q : WriteQueue ChatMessage Byte} (h : c.writes.retire i .success = some q) :
      ClientHandled c (.writeDone i .success) { c with writes := q.advance wireFormat } []
  | writeFailed {i : Nat} {q : WriteQueue ChatMessage Byte}
      (h : c.writes.retire i .failure = some q) :
      ClientHandled c (.writeDone i .failure) { c with writes := q, closed := true } [.closed]

namespace ChatClient

theorem handle_cases {c c' : ChatClient} {e : ClientEvent} {obs : List ClientObs}
    (h : c.handle e = some (c', obs)) : ClientHandled c e c' obs := by
  cases e with
  | write msg =>
    simp only [handle, Option.some.injEq, Prod.mk.injEq] at h
    obtain ⟨rfl, rfl⟩ := h
    exact .write
  | close =>
    simp only [handle, Option.some.injEq, Prod.mk.injEq] at h
    obtain ⟨rfl, rfl⟩ := h
    exact .close
  | runPosted =>
    simp only [handle] at h
    split at h
    · exact absurd h (by simp)
    · rename_i msg rest hposted
      simp only [push, Option.some.injEq, Prod.mk.injEq] at h
      obtain ⟨rfl, rfl⟩ := h
      exact .pushed hposted
    · rename_i rest hposted
      simp only [closeSocket, Option.some.injEq, Prod.mk.injEq] at h
      obtain ⟨rfl, rfl⟩ := h
      exact .closed hposted
  | connectDone ec =>
    simp only [handle] at h
    split at h
    · rename_i hpos
      simp only [Option.some.injEq, Prod.mk.injEq] at h
      obtain ⟨rfl, rfl⟩ := h
      cases ec with
      | success => exact .connected hpos
      | failure => exact .notConnected hpos
    · exact absurd h (by simp)
  | receive i bytes =>
    simp only [handle] at h
    split at h
    · exact absurd h (by simp)
    · rename_i hopen
      obtain ⟨r, hr, heq⟩ := Option.map_eq_some_iff.1 h
      simp only [Prod.mk.injEq] at heq
      obtain ⟨rfl, rfl⟩ := heq
      exact .receive (Bool.not_eq_true _ ▸ hopen) hr
  | readDone i ec =>
    obtain ⟨⟨op, r⟩, hr, heq⟩ := Option.map_eq_some_iff.1 h
    simp only [Prod.mk.injEq] at heq
    obtain ⟨rfl, rfl⟩ := heq
    cases ec with
    | failure => cases hs : op.stage <;> simpa [onReadHeader, onReadBody, hs,
        ReadChain.headerAccepted, closeSocket] using ClientHandled.readFailed hr
    | success =>
      cases hs : op.stage with
      | body => simpa [onReadBody, hs, doReadHeader] using ClientHandled.body hr hs
      | header =>
        cases hacc : (r.headerAccepted .success).1 with
        | true => simpa [onReadHeader, hacc, hs, doReadBody]
            using ClientHandled.headerAccepted hr hs hacc
        | false => simpa [onReadHeader, hacc, hs, closeSocket]
            using ClientHandled.headerRejected hr hs hacc
  | transmit i n =>
    simp only [handle] at h
    split at h
    · exact absurd h (by simp)
    · rename_i hopen
      obtain ⟨⟨q, bytes⟩, hq, heq⟩ := Option.map_eq_some_iff.1 h
      simp only [Prod.mk.injEq] at heq
      obtain ⟨rfl, rfl⟩ := heq
      exact .transmit (Bool.not_eq_true _ ▸ hopen) hq
  | writeDone i ec =>
    obtain ⟨q, hq, heq⟩ := Option.map_eq_some_iff.1 h
    cases ec with
    | success =>
      simp only [onWrite, Prod.mk.injEq] at heq
      obtain ⟨rfl, rfl⟩ := heq
      exact .written hq
    | failure =>
      simp only [onWrite, closeSocket, Prod.mk.injEq] at heq
      obtain ⟨rfl, rfl⟩ := heq
      exact .writeFailed hq

end ChatClient

theorem ClientRun.step_cases {w w' : ClientRun} {e : ClientEvent} (h : w.step e = some w') :
    (e.isCall = true ∨ w.running = true) ∧
      ∃ c obs, ClientHandled w.client e c obs ∧
        w' = ⟨c, w.running && (e.isCall || c.hasWork), w.trace ++ obs⟩ := by
  simp only [step] at h
  split at h
  · rename_i hrun
    obtain ⟨⟨c, obs⟩, hc, rfl⟩ := Option.map_eq_some_iff.1 h
    exact ⟨by simpa using hrun, c, obs, ChatClient.handle_cases hc, rfl⟩
  · exact absurd h (by simp)

end BoostLearning.Chat
