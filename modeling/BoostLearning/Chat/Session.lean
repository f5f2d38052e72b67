import BoostLearning.Chat.ReadChain

/-!
# `chat_session`

A session is a read chain and a write queue that share nothing but the room. Handlers are pure
functions of the session: they return the session as they leave it and what they call on
`_room`, which the server carries out.
-/

namespace BoostLearning.Chat

abbrev ServerId := Nat

/-- A `chat_session`; ids are not reused. -/
abbrev SessionId := Nat

inductive Chain where
  | read
  | write
deriving DecidableEq, Repr

/-- `_room`, `_read_msg` and `_write_msgs`, and the operations outstanding on `_socket`. -/
structure ChatSession where
  room : ServerId
  reads : ReadChain
  writes : WriteQueue ChatMessage Byte
deriving DecidableEq

/-- What a session calls on its room at the end of a handler; `deliver` is followed by
`do_read_header`. -/
inductive RoomCall where
  | none
  | leave (chain : Chain)
  | deliver (msg : ChatMessage)
deriving DecidableEq

/-- What is seen of a session at its socket: bytes received, bytes transmitted, and a read that
failed with `got` of its `size` bytes. -/
inductive SocketAct where
  | received (bytes : List Byte)
  | wrote (bytes : List Byte)
  | readError (got size : Nat)
deriving DecidableEq

/-- Progress and completions of the operations outstanding on a session's socket. -/
inductive SessionEvent where
  | receive (i : Nat) (bytes : List Byte)
  | readDone (i : Nat) (ec : ErrorCode)
  | transmit (i n : Nat)
  | writeDone (i : Nat) (ec : ErrorCode)
deriving DecidableEq

structure Reaction where
  session : ChatSession
  socket : List SocketAct
  call : RoomCall

namespace ChatSession

/-- The constructor; the storage of `_read_msg` is not initialised. -/
def init (room : ServerId) (storage : Storage) : ChatSession :=
  ⟨room, ⟨.init storage, []⟩, .empty⟩

def doReadHeader (x : ChatSession) : ChatSession := { x with reads := x.reads.doReadHeader }

def doReadBody (x : ChatSession) : ChatSession := { x with reads := x.reads.doReadBody }

/-- `deliver`, with `do_write` in `WriteQueue.doWrite`. -/
def deliver (x : ChatSession) (msg : ChatMessage) : ChatSession :=
  { x with writes := x.writes.enqueue wireFormat msg }

/-- The handler of `do_read_header`. -/
def onReadHeader (x : ChatSession) (ec : ErrorCode) : ChatSession × RoomCall :=
  let r := x.reads.headerAccepted ec
  let x := { x with reads := r.2 }
  if r.1 then (x.doReadBody, .none) else (x, .leave .read)

/-- The handler of `do_read_body`. -/
def onReadBody (x : ChatSession) (ec : ErrorCode) : ChatSession × RoomCall :=
  match ec with
  | .success => (x, .deliver x.reads.readMsg)
  | .failure => (x, .leave .read)

/-- The handler of `do_write`. -/
def onWrite (x : ChatSession) (ec : ErrorCode) : ChatSession × RoomCall :=
  match ec with
  | .success => ({ x with writes := x.writes.advance wireFormat }, .none)
  | .failure => (x, .leave .write)

/-- One event at the session's socket; `none` when no outstanding operation allows it. -/
def handle (x : ChatSession) : SessionEvent → Option Reaction
  | .receive i bytes =>
    (x.reads.receive i bytes).map fun c => ⟨{ x with reads := c }, [.received bytes], .none⟩
  | .readDone i ec =>
    (x.reads.retire i ec).map fun (op, c) =>
      let x := { x with reads := c }
      let r := match op.stage with
        | .header => x.onReadHeader ec
        | .body => x.onReadBody ec
      ⟨r.1, if ec = .failure then [.readError op.got op.size] else [], r.2⟩
  | .transmit i n =>
    (x.writes.transmit wireFormat i n).map fun (q, bytes) =>
      ⟨{ x with writes := q }, [.wrote bytes], .none⟩
  | .writeDone i ec =>
    (x.writes.retire i ec).map fun q =>
      let r := { x with writes := q }.onWrite ec
      ⟨r.1, [], r.2⟩

end ChatSession

section Fields

variable (x : ChatSession) (msg : ChatMessage) (room : ServerId) (storage : Storage)

@[simp]
theorem ChatSession.init_room : (init room storage).room = room := rfl

@[simp]
theorem ChatSession.init_reads : (init room storage).reads = ⟨.init storage, []⟩ := rfl

@[simp]
theorem ChatSession.deliver_room : (x.deliver msg).room = x.room := rfl

@[simp]
theorem ChatSession.deliver_reads : (x.deliver msg).reads = x.reads := rfl

@[simp]
theorem ChatSession.deliver_writes :
    (x.deliver msg).writes = x.writes.enqueue wireFormat msg := rfl

@[simp]
theorem ChatSession.doReadHeader_room : x.doReadHeader.room = x.room := rfl

@[simp]
theorem ChatSession.doReadHeader_reads : x.doReadHeader.reads = x.reads.doReadHeader := rfl

@[simp]
theorem ChatSession.doReadHeader_writes : x.doReadHeader.writes = x.writes := rfl

end Fields

/-! ## What a reaction does to the chains -/

/-- Every way an event can be handled, with the handler's branch spelled out. -/
inductive Handled (x : ChatSession) : SessionEvent → Reaction → Prop
  | receive {i : Nat} {bytes : List Byte} {c : ReadChain}
      (h : x.reads.receive i bytes = some c) :
      Handled x (.receive i bytes) ⟨{ x with reads := c }, [.received bytes], .none⟩
  | headerAccepted {i : Nat} {op : AsyncRead} {c : ReadChain}
      (h : x.reads.retire i .success = some (op, c)) (hstage : op.stage = .header)
      (hacc : (c.headerAccepted .success).1 = true) :
      Handled x (.readDone i .success)
        ⟨{ x with reads := (c.headerAccepted .success).2.doReadBody }, [], .none⟩
  | headerRejected {i : Nat} {op : AsyncRead} {c : ReadChain}
      (h : x.reads.retire i .success = some (op, c)) (hstage : op.stage = .header)
      (hrej : (c.headerAccepted .success).1 = false) :
      Handled x (.readDone i .success)
        ⟨{ x with reads := (c.headerAccepted .success).2 }, [], .leave .read⟩
  | body {i : Nat} {op : AsyncRead} {c : ReadChain}
      (h : x.reads.retire i .success = some (op, c)) (hstage : op.stage = .body) :
      Handled x (.readDone i .success) ⟨{ x with reads := c }, [], .deliver c.readMsg⟩
  | readFailed {i : Nat} {op : AsyncRead} {c : ReadChain}
      (h : x.reads.retire i .failure = some (op, c)) :
      Handled x (.readDone i .failure)
        ⟨{ x with reads := c }, [.readError op.got op.size], .leave .read⟩
  | transmit {i n : Nat} {q : WriteQueue ChatMessage Byte} {bytes : List Byte}
      (h : x.writes.transmit wireFormat i n = some (q, bytes)) :
      Handled x (.transmit i n) ⟨{ x with writes := q }, [.wrote bytes], .none⟩
  | written {i : Nat} {q : WriteQueue ChatMessage Byte} (h : x.writes.retire i .success = some q) :
      Handled x (.writeDone i .success) ⟨{ x with writes := q.advance wireFormat }, [], .none⟩
  | writeFailed {i : Nat} {q : WriteQueue ChatMessage Byte}
      (h : x.writes.retire i .failure = some q) :
      Handled x (.writeDone i .failure) ⟨{ x with writes := q }, [], .leave .write⟩

theorem ChatSession.handle_cases {x : ChatSession} {e : SessionEvent} {ρ : Reaction}
    (h : x.handle e = some ρ) : Handled x e ρ := by
  cases e with
  | receive i bytes =>
    obtain ⟨c, hc, rfl⟩ := Option.map_eq_some_iff.1 h
    exact .receive hc
  | readDone i ec =>
    obtain ⟨⟨op, c⟩, hc, rfl⟩ := Option.map_eq_some_iff.1 h
    cases ec with
    | failure => cases hs : op.stage <;> simpa [onReadHeader, onReadBody, hs,
        ReadChain.headerAccepted] using Handled.readFailed hc
    | success =>
      cases hs : op.stage with
      | body => simpa [onReadBody, hs] using Handled.body hc hs
      | header =>
        cases hacc : (c.headerAccepted .success).1 with
        | true => simpa [onReadHeader, hs, hacc, doReadBody] using Handled.headerAccepted hc hs hacc
        | false => simpa [onReadHeader, hs, hacc] using Handled.headerRejected hc hs hacc
  | transmit i n =>
    obtain ⟨⟨q, bytes⟩, hq, rfl⟩ := Option.map_eq_some_iff.1 h
    exact .transmit hq
  | writeDone i ec =>
    obtain ⟨q, hq, rfl⟩ := Option.map_eq_some_iff.1 h
    cases ec with
    | success => exact .written hq
    | failure => exact .writeFailed hq

def SocketAct.input : SocketAct → List Byte
  | .received bytes => bytes
  | _ => []

def SocketAct.output : SocketAct → List Byte
  | .wrote bytes => bytes
  | _ => []

/-- No read failed after it had filled its buffer: `async_read` reports an error only when it
could not read all it was asked for. -/
def CleanReads (acts : List SocketAct) : Prop := ∀ n, .readError n n ∉ acts

theorem CleanReads.of_append {acts acts' : List SocketAct} (h : CleanReads (acts ++ acts')) :
    CleanReads acts :=
  fun n hn => h n (List.mem_append_left _ hn)

/-- What ends a read loop: a read that failed, or a header that is rejected behind the published
messages. -/
def ReadsEnded (acts : List SocketAct) (input : List Byte) (published : List ChatMessage) : Prop :=
  (∃ got size, .readError got size ∈ acts) ∨
    ∃ header, published.flatMap ChatMessage.wire ++ header = input ∧ chatCodec.Rejected header

private theorem ReadsEnded.append {acts acts' : List SocketAct} {input : List Byte}
    {published : List ChatMessage} (h : ReadsEnded acts input published) :
    ReadsEnded (acts ++ acts') input published := by
  rcases h with ⟨got, size, herror⟩ | hheader
  · exact Or.inl ⟨got, size, List.mem_append_left _ herror⟩
  · exact Or.inr hheader

namespace ChatSession

variable {x : ChatSession} {e : SessionEvent} {ρ : Reaction}

theorem handle_room (h : x.handle e = some ρ) : ρ.session.room = x.room := by
  cases handle_cases h <;> rfl

section Reads

variable {acts : List SocketAct} {input : List Byte} {published : List ChatMessage}

/-- The read chain after a reaction that publishes nothing. -/
theorem handle_reads (hinv : x.reads.Inv (CleanReads acts) input published)
    (h : x.handle e = some ρ) (hcall : ∀ m, ρ.call ≠ .deliver m) :
    ρ.session.reads.Inv (CleanReads (acts ++ ρ.socket))
      (input ++ ρ.socket.flatMap SocketAct.input) published := by
  cases handle_cases h with
  | receive hc => simpa [SocketAct.input] using (hinv.receive hc).1.mono CleanReads.of_append
  | headerAccepted hc hs hacc => simpa using (hinv.header_accepted hc hs hacc).2
  | headerRejected hc hs hrej => simpa using (hinv.header_rejected hc hs hrej).2.1
  | body hc hs => exact absurd rfl (hcall _)
  | @readFailed i op c hc =>
    have hclean : CleanReads (acts ++ [.readError op.got op.size]) →
        CleanReads acts ∧ op.got ≠ op.size := by
      intro hclean
      refine ⟨hclean.of_append, fun heq => hclean op.size ?_⟩
      simp [heq]
    simpa [SocketAct.input] using (hinv.fail hc).2.mono hclean
  | transmit hq => simpa [SocketAct.input] using hinv.mono CleanReads.of_append
  | written hq => simpa using hinv
  | writeFailed hq => simpa using hinv

/-- A reaction that publishes nothing leaves a read outstanding unless the loop has ended. -/
theorem handle_ended (hinv : x.reads.Inv (CleanReads acts) input published)
    (h : x.handle e = some ρ) (hcall : ∀ m, ρ.call ≠ .deliver m)
    (hended : x.reads.reads = [] → ReadsEnded acts input published)
    (hnil : ρ.session.reads.reads = []) :
    ReadsEnded (acts ++ ρ.socket) (input ++ ρ.socket.flatMap SocketAct.input) published := by
  cases handle_cases h with
  | receive hc =>
    obtain ⟨op, -, -, rfl⟩ := ReadChain.receive_cases hinv.reads_length hc
    exact absurd hnil (by simp)
  | headerAccepted hc hs hacc => exact absurd hnil (by simp [ReadChain.doReadBody])
  | headerRejected hc hs hrej =>
    right
    simpa using (hinv.header_rejected hc hs hrej).2.2
  | body hc hs => exact absurd rfl (hcall _)
  | @readFailed i op c hc => exact Or.inl ⟨op.got, op.size, by simp⟩
  | transmit hq => simpa [SocketAct.input] using (hended hnil).append
  | written hq => simpa using hended hnil
  | writeFailed hq => simpa using hended hnil

theorem handle_reads_deliver (hinv : x.reads.Inv (CleanReads acts) input published)
    (h : x.handle e = some ρ) {m : ChatMessage} (hcall : ρ.call = .deliver m) :
    ρ.socket = [] ∧ m.Framed ∧ ρ.session.writes = x.writes ∧
      ρ.session.reads.doReadHeader.reads.length = 1 ∧ x.reads.reads ≠ [] ∧
      ρ.session.reads.doReadHeader.Inv (CleanReads acts) input (published ++ [m]) := by
  cases handle_cases h with
  | @body i op c hc hs =>
    obtain rfl : c.readMsg = m := by simpa using hcall
    obtain ⟨hreads, hframed, hinv'⟩ := hinv.body hc hs
    have hop := (ReadChain.retire_cases hinv.reads_length hc).1
    exact ⟨rfl, hframed, rfl, by simp [ReadChain.doReadHeader, hreads], by simp [hop], hinv'⟩
  | _ => exact absurd hcall (by simp)

/-- Only a room call changes the number of outstanding reads. -/
theorem handle_reads_length (hinv : x.reads.Inv (CleanReads acts) input published)
    (h : x.handle e = some ρ) :
    (ρ.call = .none → ρ.session.reads.reads.length = x.reads.reads.length) ∧
      (ρ.call = .leave .write → ρ.session.reads = x.reads) ∧
      (ρ.call = .leave .read → ρ.session.reads.reads = []) := by
  cases handle_cases h with
  | receive hc => simpa using (hinv.receive hc).2
  | headerAccepted hc hs hacc =>
    have hop := (ReadChain.retire_cases hinv.reads_length hc).1
    have hnil := (hinv.header_accepted hc hs hacc).1
    simp [ReadChain.doReadBody, hnil, hop]
  | headerRejected hc hs hrej => simpa using (hinv.header_rejected hc hs hrej).1
  | body hc hs => simp
  | readFailed hc => simpa using (hinv.fail hc).1
  | transmit hq => simp
  | written hq => simp
  | writeFailed hq => simp

end Reads

/-- The write queue after a reaction: it stays live unless the write chain has failed, and it
only drains. -/
theorem handle_writes {pushed : List ChatMessage} {wire : List Byte}
    (hinv : x.writes.Inv wireFormat pushed wire) (h : x.handle e = some ρ) :
    ρ.session.writes.Inv wireFormat pushed (wire ++ ρ.socket.flatMap SocketAct.output) ∧
      (ρ.call ≠ .leave .write → x.writes.Live → ρ.session.writes.Live) ∧
      ρ.session.writes.msgs <:+ x.writes.msgs := by
  cases handle_cases h with
  | receive hc => simpa [SocketAct.output] using hinv
  | headerAccepted hc hs hacc => simpa using hinv
  | headerRejected hc hs hrej => simpa using hinv
  | body hc hs => simpa using hinv
  | readFailed hc => simpa [SocketAct.output] using hinv
  | transmit hq =>
    obtain ⟨hinv', hlive, hmsgs⟩ := hinv.transmit hq
    exact ⟨by simpa [SocketAct.output] using hinv', fun _ hl => hlive.2 hl,
      hmsgs ▸ List.suffix_rfl⟩
  | written hq =>
    obtain ⟨rfl, hinv', -, m, hm, hwire⟩ := hinv.retire hq
    obtain ⟨hadv, hlive⟩ := hinv'.advance rfl hm (hwire rfl)
    exact ⟨by simpa using hadv, fun _ _ => hlive, by simpa using List.tail_suffix x.writes.msgs⟩
  | writeFailed hq =>
    obtain ⟨rfl, hinv', -⟩ := hinv.retire hq
    exact ⟨by simpa using hinv', fun hcall => absurd rfl hcall, List.suffix_rfl⟩

end ChatSession

end BoostLearning.Chat
