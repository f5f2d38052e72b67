import BoostLearning.Allocation.Memory
import BoostLearning.Framework.Buffer
import BoostLearning.Framework.Echo

/-!
# A session with its handler storage

The session reads into `_data` and writes from it, and every operation keeps its state in a block
that it gets from the allocator of its handler. An `async_write` is a sequence of
`async_write_some`, each of which gets its block and gives it back before the next one, or the
handler, is called.
-/

namespace BoostLearning.Allocation

/-- An outstanding operation and the address of its block: `async_read_some`, or the current part
of an `async_write` of the front of `_data`. -/
inductive Op where
  | read (block : Pointer)
  | write (size sent : Nat) (block : Pointer)
deriving DecidableEq

def Op.block : Op → Pointer
  | .read block => block
  | .write _ _ block => block

/-- What an operation asks for when it starts: the size of its state, and what `::operator new`
would answer; an exception goes through to `main`, and the operation is not started. -/
structure Request where
  size : UInt64
  fresh : Option Pointer
deriving DecidableEq

inductive SessionObs where
  | allocated (size : UInt64) (p : Option Pointer)
  | asyncRead
  | received (bytes : List UInt8)
  | asyncWrite (length : Nat)
  | wrote (bytes : List UInt8)
deriving DecidableEq

structure Session where
  started : Bool
  data : Buffer UInt8 1024
  memory : HandlerMemory
  ops : List Op
  calls : List HeapCall
  trace : List SessionObs
deriving DecidableEq

/-- What happens to a session. Each part of a write that succeeds transmits something. -/
inductive SessionEvent where
  | start (r : Request)
  | received (i : Nat) (bytes : List UInt8) (r : Request)
  | readFailed (i : Nat)
  | transmit (i n : Nat) (r : Request)
  | writeFailed (i : Nat)
deriving DecidableEq

namespace Session

/-- The block for an operation, through `get_allocator` rebound to the type of its state. -/
def allocate (s : Session) (r : Request) : Session × Option Pointer :=
  let size := (HandlerAllocator.ofMemory s.memory r.size).size 1
  let a := s.memory.allocate size r.fresh
  ({ s with
      memory := a.1
      calls := s.calls ++ a.2.2
      trace := s.trace ++ [.allocated size a.2.1] }, a.2.1)

/-- An operation that has its block is outstanding, and is seen to be started. -/
def launch (s : Session) (op : Pointer → Op) (obs : List SessionObs) (r : Request) : Session :=
  match s.allocate r with
  | (s, some p) => { s with ops := s.ops ++ [op p], trace := s.trace ++ obs }
  | (s, none) => s

/-- An operation ends, and gives its block back before its handler is called. -/
def finish (s : Session) (i : Nat) (block : Pointer) : Session :=
  let d := s.memory.deallocate block
  { s with memory := d.1, calls := s.calls ++ d.2, ops := s.ops.eraseIdx i }

def doRead (s : Session) (r : Request) : Session := s.launch .read [.asyncRead] r

def doWrite (s : Session) (length : Nat) (r : Request) : Session :=
  s.launch (.write length 0) [.asyncWrite length] r

/-- The next part of an `async_write`, or its handler without an error. -/
def continueWrite (s : Session) (size sent : Nat) (r : Request) : Session :=
  if sent < size then s.launch (.write size sent) [] r else s.doRead r

/-- One event; a block of the heap is never the storage. -/
def step (s : Session) : SessionEvent → Option Session
  | .start r =>
    if s.started = false ∧ r.fresh ≠ some s.memory.storage then
      some (({ s with started := true } : Session).doRead r)
    else none
  | .received i bytes r =>
    match s.ops[i]? with
    | some (.read block) =>
      if 0 < bytes.length ∧ bytes.length ≤ 1024 ∧ r.fresh ≠ some s.memory.storage then
        let s := s.finish i block
        some (({ s with
          data := s.data.store 0 bytes
          trace := s.trace ++ [.received bytes] } : Session).doWrite bytes.length r)
      else none
    | _ => none
  | .readFailed i =>
    match s.ops[i]? with
    | some (.read block) => some (s.finish i block)
    | _ => none
  | .transmit i n r =>
    match s.ops[i]? with
    | some (.write size sent block) =>
      if 0 < n ∧ sent + n ≤ size ∧ r.fresh ≠ some s.memory.storage then
        let s := s.finish i block
        some (({ s with
          trace := s.trace ++ [.wrote ((s.data.elems.drop sent).take n)] } :
            Session).continueWrite size (sent + n) r)
      else none
    | _ => none
  | .writeFailed i =>
    match s.ops[i]? with
    | some (.write _ _ block) => some (s.finish i block)
    | _ => none

end Session

def session (storage : Pointer) (data : Buffer UInt8 1024) : System Session SessionEvent :=
  ⟨⟨false, data, .new storage, [], [], []⟩, Session.step⟩

namespace Session

inductive Effect (s : Session) : SessionEvent → Session → Prop
  | start {r : Request} (hs : s.started = false) (hr : r.fresh ≠ some s.memory.storage) :
      Effect s (.start r) (({ s with started := true } : Session).doRead r)
  | received {i : Nat} {bytes : List UInt8} {r : Request} {block : Pointer}
      (h : s.ops[i]? = some (.read block)) (hpos : 0 < bytes.length) (hle : bytes.length ≤ 1024)
      (hr : r.fresh ≠ some s.memory.storage) :
      Effect s (.received i bytes r) (({ s.finish i block with
        data := s.data.store 0 bytes
        trace := s.trace ++ [.received bytes] } : Session).doWrite bytes.length r)
  | readFailed {i : Nat} {block : Pointer} (h : s.ops[i]? = some (.read block)) :
      Effect s (.readFailed i) (s.finish i block)
  | transmit {i n size sent : Nat} {r : Request} {block : Pointer}
      (h : s.ops[i]? = some (.write size sent block)) (hpos : 0 < n) (hle : sent + n ≤ size)
      (hr : r.fresh ≠ some s.memory.storage) :
      Effect s (.transmit i n r) (({ s.finish i block with
        data := s.data
        trace := s.trace ++ [.wrote ((s.data.elems.drop sent).take n)] } :
          Session).continueWrite size (sent + n) r)
  | writeFailed {i size sent : Nat} {block : Pointer}
      (h : s.ops[i]? = some (.write size sent block)) :
      Effect s (.writeFailed i) (s.finish i block)

theorem step_cases {s t : Session} {e : SessionEvent} (he : s.step e = some t) : Effect s e t := by
  cases e with
  | start r =>
    simp only [step, Option.ite_none_right_eq_some, Option.some.injEq] at he
    obtain ⟨⟨hs, hr⟩, rfl⟩ := he
    exact .start hs hr
  | received i bytes r =>
    simp only [step] at he
    split at he
    · rename_i block hop
      simp only [Option.ite_none_right_eq_some, Option.some.injEq] at he
      obtain ⟨⟨hpos, hle, hr⟩, rfl⟩ := he
      exact .received hop hpos hle hr
    · exact absurd he (by simp)
  | readFailed i =>
    simp only [step] at he
    split at he
    · rename_i block hop
      obtain rfl := Option.some.inj he
      exact .readFailed hop
    · exact absurd he (by simp)
  | transmit i n r =>
    simp only [step] at he
    split at he
    · rename_i size sent block hop
      simp only [Option.ite_none_right_eq_some, Option.some.injEq] at he
      obtain ⟨⟨hpos, hle, hr⟩, rfl⟩ := he
      exact .transmit hop hpos hle hr
    · exact absurd he (by simp)
  | writeFailed i =>
    simp only [step] at he
    split at he
    · rename_i size sent block hop
      obtain rfl := Option.some.inj he
      exact .writeFailed hop
    · exact absurd he (by simp)

end Session

/-! ## The blocks of the operations -/

namespace Session

variable {s t : Session} {storage : Pointer} {op : Pointer → Op} {obs : List SessionObs}
  {r : Request} {e : SessionEvent}

private theorem allocate_size (m : HandlerMemory) (size : UInt64) :
    (HandlerAllocator.ofMemory m size).size 1 = size := by
  simp [HandlerAllocator.ofMemory, HandlerAllocator.size]

/-- One operation at a time, in the storage whenever its state fits there. -/
structure Inv (storage : Pointer) (s : Session) : Prop where
  address : s.memory.storage = storage
  unstarted : s.started = false → s.ops = []
  one : s.ops.length ≤ 1
  used : s.memory.isUse = true ↔ ∃ op ∈ s.ops, op.block = storage
  sizes : ∀ size sent block, .write size sent block ∈ s.ops → sent < size ∧ size ≤ 1024
  served : ∀ size p, .allocated size p ∈ s.trace → size < storageSize → p = some storage
  heap : s.calls ≠ [] ∨ (∃ op ∈ s.ops, op.block ≠ storage) →
    ∃ size p, .allocated size p ∈ s.trace ∧ ¬ size < storageSize

private theorem inv_init (storage : Pointer) (data : Buffer UInt8 1024) :
    (session storage data).init.Inv storage := by
  constructor <;> simp [session, HandlerMemory.new]

theorem Inv.ops_eq (hi : s.Inv storage) {i : Nat} {op : Op} (h : s.ops[i]? = some op) :
    s.ops = [op] :=
  (eq_singleton_of_getElem? hi.one h).2

/-- When an operation has ended, none is outstanding and the storage is free. -/
theorem Inv.finish (hi : s.Inv storage) {i : Nat} {op : Op} (h : s.ops[i]? = some op) :
    (s.finish i op.block).Inv storage ∧ (s.finish i op.block).ops = [] := by
  obtain ⟨rfl, hops⟩ := eq_singleton_of_getElem? hi.one h
  have hnone : s.ops.eraseIdx 0 = [] := by rw [hops, List.eraseIdx_cons_zero]
  refine ⟨?_, hnone⟩
  by_cases hp : op.block = storage
  · simp only [Session.finish, HandlerMemory.deallocate, hi.address, if_pos hp, hnone]
    refine ⟨rfl, fun _ => rfl, Nat.zero_le _, by simp, by simp, hi.served, ?_⟩
    rintro (hcalls | ⟨_, hmem, -⟩)
    · exact hi.heap (.inl (by simpa using hcalls))
    · exact absurd hmem List.not_mem_nil
  · have hfree : s.memory.isUse = false := by
      rw [← Bool.not_eq_true, hi.used, hops]
      simpa using hp
    simp only [Session.finish, HandlerMemory.deallocate, hi.address, if_neg hp, hnone]
    refine ⟨hi.address, fun _ => rfl, Nat.zero_le _, by simp [hfree], by simp, hi.served, ?_⟩
    intro _
    exact hi.heap (.inr ⟨op, by simp [hops], hp⟩)

theorem Inv.note (hi : s.Inv storage) (d : Buffer UInt8 1024) (obs : List SessionObs)
    (hobs : ∀ size p, .allocated size p ∉ obs) :
    Inv storage { s with data := d, trace := s.trace ++ obs } := by
  have hmem : ∀ size p, .allocated size p ∈ s.trace ++ obs ↔ .allocated size p ∈ s.trace := by
    intro size p
    simp [hobs size p]
  refine ⟨hi.address, hi.unstarted, hi.one, hi.used, hi.sizes, ?_, ?_⟩
  · intro size p h
    exact hi.served size p ((hmem size p).1 h)
  · intro h
    obtain ⟨size, p, hp, hsize⟩ := hi.heap h
    exact ⟨size, p, (hmem size p).2 hp, hsize⟩

/-- An operation has its block, or the exception of `::operator new` went through. -/
theorem launch_cases (s : Session) (op : Pointer → Op) (obs : List SessionObs) (r : Request) :
    let a := s.memory.allocate r.size r.fresh
    (∃ p, a.2.1 = some p ∧ s.launch op obs r = { s with
      memory := a.1
      calls := s.calls ++ a.2.2
      ops := s.ops ++ [op p]
      trace := s.trace ++ [.allocated r.size (some p)] ++ obs }) ∨
    a.2.1 = none ∧ s.launch op obs r = { s with
      memory := a.1
      calls := s.calls ++ a.2.2
      trace := s.trace ++ [.allocated r.size none] } := by
  unfold launch Session.allocate
  rw [allocate_size]
  cases h : (s.memory.allocate r.size r.fresh).2.1 with
  | some p =>
    refine .inl ⟨p, h, ?_⟩
    simp only [h]
  | none =>
    refine .inr ⟨h, ?_⟩
    simp only [h]

private theorem Inv.launch (hi : s.Inv storage) (hnone : s.ops = []) (hstarted : s.started = true)
    (hfresh : r.fresh ≠ some storage)
    (hsizes : ∀ p size sent block, op p = .write size sent block → sent < size ∧ size ≤ 1024)
    (hblock : ∀ p, (op p).block = p) (hobs : ∀ size p, .allocated size p ∉ obs) :
    (s.launch op obs r).Inv storage := by
  have hfree : s.memory.isUse = false := by
    rw [← Bool.not_eq_true, hi.used, hnone]
    simp
  have hserved : ∀ p (tr : List SessionObs), (r.size < storageSize → p = some storage) →
      (∀ size q, .allocated size q ∉ tr) →
      ∀ size q, .allocated size q ∈ s.trace ++ [.allocated r.size p] ++ tr →
        size < storageSize → q = some storage := by
    intro p tr hp htr size q hmem hsize
    simp only [List.mem_append, List.mem_singleton, SessionObs.allocated.injEq] at hmem
    rcases hmem with (hmem | ⟨rfl, rfl⟩) | hmem
    · exact hi.served size q hmem hsize
    · exact hp hsize
    · exact absurd hmem (htr size q)
  obtain ⟨-, hsize, hstorage⟩ | ⟨htaken, hheap⟩ := s.memory.allocate_cases r.size r.fresh
  · obtain ⟨p, hp, heq⟩ | ⟨hp, -⟩ := launch_cases s op obs r
    · rw [hstorage] at hp heq
      obtain rfl : storage = p := hi.address.symm.trans (Option.some.inj hp)
      rw [heq, hnone]
      refine ⟨hi.address, ?_, Nat.le_refl _, ?_, ?_, hserved _ _ (fun _ => rfl) hobs, ?_⟩
      · intro h
        exact absurd (h.symm.trans hstarted) (by simp)
      · simp [hblock]
      · intro size sent block hmem
        exact hsizes _ _ _ _ (List.mem_singleton.1 hmem).symm
      · rintro (hcalls | ⟨_, hmem, hne⟩)
        · obtain ⟨size, p, hmem, hbig⟩ := hi.heap (.inl (by simpa using hcalls))
          exact ⟨size, p, by simp [hmem], hbig⟩
        · rw [List.mem_singleton.1 hmem, hblock] at hne
          exact absurd rfl hne
    · rw [hstorage] at hp
      exact absurd hp (by simp)
  · have hsize : ¬ r.size < storageSize := htaken.resolve_left (by simp [hfree])
    obtain ⟨p, hp, heq⟩ | ⟨hp, heq⟩ := launch_cases s op obs r
    · rw [hheap] at hp heq
      have hne : p ≠ storage := by
        rintro rfl
        exact hfresh hp
      rw [heq, hnone]
      refine ⟨hi.address, ?_, Nat.le_refl _, ?_, ?_, hserved _ _ (fun h => absurd h hsize) hobs, ?_⟩
      · intro h
        exact absurd (h.symm.trans hstarted) (by simp)
      · simp [hfree, hblock, hne]
      · intro size sent block hmem
        exact hsizes _ _ _ _ (List.mem_singleton.1 hmem).symm
      · intro _
        exact ⟨r.size, some p, by simp, hsize⟩
    · rw [hheap] at hp heq
      rw [heq, hnone]
      refine ⟨hi.address, fun _ => rfl, Nat.zero_le _, by simp [hfree], by simp, ?_, ?_⟩
      · intro size q hmem
        exact hserved none [] (fun h => absurd h hsize) (by simp) size q
          (by rwa [List.append_nil])
      · intro _
        exact ⟨r.size, none, by simp, hsize⟩

private theorem Inv.doRead (hi : s.Inv storage) (hnone : s.ops = []) (hstarted : s.started = true)
    (hfresh : r.fresh ≠ some storage) : (s.doRead r).Inv storage := by
  apply hi.launch hnone hstarted hfresh
  · intro p size sent block h
    exact absurd h (by simp)
  · exact fun p => rfl
  · simp

private theorem Inv.continueWrite (hi : s.Inv storage) (hnone : s.ops = [])
    (hstarted : s.started = true)
    (hfresh : r.fresh ≠ some storage) {size sent : Nat} (hsize : size ≤ 1024) :
    (s.continueWrite size sent r).Inv storage := by
  unfold Session.continueWrite
  split
  · rename_i hlt
    apply hi.launch hnone hstarted hfresh
    · intro p size' sent' block h
      simp only [Op.write.injEq] at h
      obtain ⟨rfl, rfl, -⟩ := h
      exact ⟨hlt, hsize⟩
    · exact fun p => rfl
    · simp
  · exact hi.doRead hnone hstarted hfresh

private theorem Inv.started (hi : s.Inv storage) {i : Nat} {op : Op} (h : s.ops[i]? = some op) :
    s.started = true := by
  rw [← Bool.not_eq_false]
  intro hs
  rw [hi.unstarted hs] at h
  exact absurd h (by simp)

theorem Inv.step (hi : s.Inv storage) (he : s.step e = some t) : t.Inv storage := by
  cases step_cases he with
  | start hs hr =>
    have hnone := hi.unstarted hs
    have hstart : Inv storage { s with started := true } :=
      ⟨hi.address, fun _ => hnone, hi.one, hi.used, hi.sizes, hi.served, hi.heap⟩
    exact hstart.doRead hnone rfl (hi.address ▸ hr)
  | @received i bytes r block h hpos hle hr =>
    obtain ⟨hfinish, hnone⟩ := hi.finish h
    have hnote := hfinish.note (s.data.store 0 bytes) [.received bytes] (by simp)
    apply hnote.launch hnone (hi.started h) (hi.address ▸ hr)
    · intro p size sent block hop
      simp only [Op.write.injEq] at hop
      obtain ⟨rfl, rfl, -⟩ := hop
      exact ⟨hpos, hle⟩
    · exact fun p => rfl
    · simp
  | readFailed h => exact (hi.finish h).1
  | @transmit i n size sent r block h hpos hle hr =>
    obtain ⟨hfinish, hnone⟩ := hi.finish h
    have hnote := hfinish.note s.data [.wrote ((s.data.elems.drop sent).take n)]
      (by simp)
    exact hnote.continueWrite hnone (hi.started h) (hi.address ▸ hr)
      (hi.sizes _ _ _ (List.mem_of_getElem? h)).2
  | writeFailed h => exact (hi.finish h).1

theorem inv_reachable {data : Buffer UInt8 1024} (hr : (session storage data).Reachable s) :
    s.Inv storage :=
  System.reachable_induction (inv_init storage data) (fun _ _ _ _ hi he => hi.step he) hr

/-! ## The session as an echo loop -/

end Session

def SessionObs.receivedBytes : SessionObs → List UInt8
  | .received bytes => bytes
  | _ => []

def SessionObs.wroteBytes : SessionObs → List UInt8
  | .wrote bytes => bytes
  | _ => []

namespace Session

variable {s t : Session} {storage : Pointer} {op : Pointer → Op} {obs : List SessionObs}
  {r : Request} {e : SessionEvent}

def received (s : Session) : List UInt8 := s.trace.flatMap SessionObs.receivedBytes

def wrote (s : Session) : List UInt8 := s.trace.flatMap SessionObs.wroteBytes

/-- What the outstanding operation says about where the loop stands. -/
def stageOf (data : Buffer UInt8 1024) : List Op → EchoStage UInt8
  | [] => .stopped
  | .read _ :: _ => .reading
  | .write size sent _ :: _ => .writing (data.elems.take size) sent

def echo (s : Session) : EchoLoop UInt8 where
  stage := if s.started then stageOf s.data s.ops else .fresh
  received := s.received
  wrote := s.wrote

private theorem echo_launch (s : Session) (op : Pointer → Op) (obs : List SessionObs) (r : Request)
    (stage : EchoStage UInt8) (hnone : s.ops = []) (hstarted : s.started = true)
    (hobs : obs.flatMap SessionObs.receivedBytes = [] ∧ obs.flatMap SessionObs.wroteBytes = [])
    (hstage : ∀ p, stageOf s.data [op p] = stage) :
    (s.launch op obs r).echo = ⟨stage, s.received, s.wrote⟩ ∨
      (s.launch op obs r).echo = ⟨.stopped, s.received, s.wrote⟩ := by
  obtain ⟨p, -, heq⟩ | ⟨-, heq⟩ := launch_cases s op obs r
  · left
    rw [heq, hnone]
    simp [echo, hstarted, hstage, received, wrote, SessionObs.receivedBytes,
      SessionObs.wroteBytes, hobs]
  · right
    rw [heq]
    simp [echo, hstarted, hnone, stageOf, received, wrote, SessionObs.receivedBytes,
      SessionObs.wroteBytes]

private theorem Inv.echo_finish (hi : s.Inv storage) {i : Nat} {op : Op} (h : s.ops[i]? = some op) :
    (s.finish i op.block).echo = ⟨.stopped, s.received, s.wrote⟩ := by
  have hstarted : (s.finish i op.block).started = true := hi.started h
  have hnone := (hi.finish h).2
  rw [echo, hstarted, if_pos rfl, hnone]
  rfl

private theorem echo_doRead (hnone : s.ops = []) (hstarted : s.started = true) :
    (s.doRead r).echo = ⟨.reading, s.received, s.wrote⟩ ∨
      (s.doRead r).echo = ⟨.stopped, s.received, s.wrote⟩ :=
  echo_launch s _ _ r .reading hnone hstarted ⟨rfl, rfl⟩ (fun _ => rfl)

/-- Every step is one of an echo loop, except that the loop may stop right after it. -/
private theorem echo_step (hi : s.Inv storage) (he : s.step e = some t) :
    ∃ ds, (echoLoop UInt8).exec s.echo ds = some t.echo := by
  cases step_cases he with
  | @start r hs hr =>
    have hbefore : s.echo = ⟨.fresh, s.received, s.wrote⟩ := by simp [echo, hs]
    obtain heq | heq := echo_doRead (s := { s with started := true }) (r := r)
      (hi.unstarted hs) rfl
    · exact ⟨[.start], by rw [hbefore, heq]; rfl⟩
    · exact ⟨[.stop], by rw [hbefore, heq]; rfl⟩
  | @received i bytes r block h hpos hle hr =>
    have hbefore : s.echo = ⟨.reading, s.received, s.wrote⟩ := by
      simp [echo, hi.started h, hi.ops_eq h, stageOf]
    let s' : Session := { s.finish i block with
      data := s.data.store 0 bytes
      trace := s.trace ++ [.received bytes] }
    have hnone : s'.ops = [] := (hi.finish h).2
    have hchunk : s'.data.elems.take bytes.length = bytes := by
      simpa using s.data.take_store 0 bytes (by omega)
    have hreceived : s'.received = s.received ++ bytes := by
      simp [s', received, SessionObs.receivedBytes]
    have hwrote : s'.wrote = s.wrote := by simp [s', wrote, SessionObs.wroteBytes]
    obtain heq | heq := echo_launch s' (.write bytes.length 0) [.asyncWrite bytes.length] r
      (.writing bytes 0) hnone (hi.started h) ⟨rfl, rfl⟩ (fun _ => by rw [stageOf, hchunk])
    · exact ⟨[.receive bytes], by rw [hbefore, doWrite, heq, hreceived, hwrote]; rfl⟩
    · exact ⟨[.receive bytes, .stop], by rw [hbefore, doWrite, heq, hreceived, hwrote]; rfl⟩
  | readFailed h => exact ⟨[.stop], congrArg some (hi.echo_finish h).symm⟩
  | @transmit i n size sent r block h hpos hle hr =>
    let chunk := s.data.elems.take size
    have hlen : chunk.length = size :=
      s.data.length_take_elems (hi.sizes _ _ _ (List.mem_of_getElem? h)).2
    have hbefore : s.echo = ⟨.writing chunk sent, s.received, s.wrote⟩ := by
      simp [echo, hi.started h, hi.ops_eq h, stageOf, chunk]
    let s' : Session := { s.finish i block with
      data := s.data
      trace := s.trace ++ [.wrote ((s.data.elems.drop sent).take n)] }
    have hnone : s'.ops = [] := (hi.finish h).2
    have hstarted : s'.started = true := hi.started h
    have hreceived : s'.received = s.received := by
      simp [s', received, SessionObs.receivedBytes]
    have hwrote : s'.wrote = s.wrote ++ (chunk.drop sent).take n := by
      simp [s', wrote, SessionObs.wroteBytes, chunk, EchoLoop.take_drop_take hle]
    have hfirst : (echoLoop UInt8).step s.echo (.transmit n) =
        some ⟨.writing chunk (sent + n), s'.received, s'.wrote⟩ := by
      rw [hbefore, hreceived, hwrote]
      exact if_pos (by omega)
    by_cases hlt : sent + n < size
    · obtain heq | heq := echo_launch s' (.write size (sent + n)) [] r (.writing chunk (sent + n))
        hnone hstarted ⟨rfl, rfl⟩ (fun _ => rfl)
      · refine ⟨[.transmit n], (System.exec_cons_some _).2 ⟨_, hfirst, ?_⟩⟩
        rw [continueWrite, if_pos hlt, heq]
        rfl
      · refine ⟨[.transmit n, .stop], (System.exec_cons_some _).2 ⟨_, hfirst, ?_⟩⟩
        rw [continueWrite, if_pos hlt, heq]
        rfl
    · have hdone : sent + n = chunk.length := by omega
      have hsecond : (echoLoop UInt8).step ⟨.writing chunk (sent + n), s'.received, s'.wrote⟩
          .written = some ⟨.reading, s'.received, s'.wrote⟩ := if_pos hdone
      obtain heq | heq := echo_doRead (s := s') (r := r) hnone hstarted
      · refine ⟨[.transmit n, .written], (System.exec_cons_some _).2 ⟨_, hfirst,
          (System.exec_cons_some _).2 ⟨_, hsecond, ?_⟩⟩⟩
        rw [continueWrite, if_neg hlt, heq]
        rfl
      · refine ⟨[.transmit n, .stop], (System.exec_cons_some _).2 ⟨_, hfirst, ?_⟩⟩
        rw [continueWrite, if_neg hlt, heq]
        rfl
  | writeFailed h => exact ⟨[.stop], congrArg some (hi.echo_finish h).symm⟩

theorem echo_reachable {data : Buffer UInt8 1024} (hr : (session storage data).Reachable s) :
    (echoLoop UInt8).Reachable s.echo :=
  System.reachable_of_simulation (f := echo) rfl
    (fun _ _ _ hs he => echo_step (inv_reachable hs) he) hr

private theorem launch_data (s : Session) (op : Pointer → Op) (obs : List SessionObs)
    (r : Request) :
    (s.launch op obs r).data = s.data := by
  obtain ⟨p, -, heq⟩ | ⟨-, heq⟩ := launch_cases s op obs r <;> rw [heq]

private theorem continueWrite_data (s : Session) (size sent : Nat) (r : Request) :
    (s.continueWrite size sent r).data = s.data := by
  unfold continueWrite
  split <;> exact launch_data _ _ _ _

theorem Inv.data_cases (hi : s.Inv storage) (he : s.step e = some t) :
    t.data = s.data ∨ ∃ block, s.ops = [.read block] := by
  cases step_cases he with
  | start hs hr => exact .inl (launch_data _ _ _ _)
  | @received i bytes r block h hpos hle hr => exact .inr ⟨block, hi.ops_eq h⟩
  | readFailed h => exact .inl rfl
  | transmit h hpos hle hr => exact .inl (continueWrite_data _ _ _ _)
  | writeFailed h => exact .inl rfl

theorem wrote_eq_of_read {data : Buffer UInt8 1024} (hr : (session storage data).Reachable s)
    {block : Pointer} (h : .read block ∈ s.ops) : s.wrote = s.received := by
  obtain ⟨i, hop⟩ := List.mem_iff_getElem?.1 h
  have hi := inv_reachable hr
  apply EchoLoop.wrote_eq_of_reading (echo_reachable hr)
  simp [echo, hi.started hop, hi.ops_eq hop, stageOf]

theorem Inv.no_heap (hi : s.Inv storage)
    (h : ∀ size p, .allocated size p ∈ s.trace → size < storageSize) : s.calls = [] := by
  rcases s.calls.eq_nil_or_concat with hnone | ⟨calls, c, hcalls⟩
  · exact hnone
  · obtain ⟨size, p, hmem, hbig⟩ := hi.heap (.inl (by simp [hcalls]))
    exact absurd (h size p hmem) hbig

end Session

end BoostLearning.Allocation
