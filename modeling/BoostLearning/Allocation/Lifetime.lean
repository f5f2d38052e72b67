import BoostLearning.Allocation.Session
import BoostLearning.Framework.SharedOwnership

/-!
# Sessions that are kept alive from their own storage

The handler of an operation owns the session, and the storage that it lies in is a part of the
session. Its block is given back when the handler has been moved out of it and before it is called,
so that the session is there as long as the memory is used. Here any number of sessions run, and
every `shared_ptr` to them is counted. An operation that is destroyed with its `io_context` ends
like one that fails.
-/

namespace BoostLearning.Allocation

/-- The sessions, whose addresses stand for those of their storage; the pointers in the handlers of
outstanding operations; the sessions that were destroyed, as they were then; and the calls on
sessions that were gone. -/
structure Sessions where
  heap : Heap Session
  held : List Nat
  ended : List (Nat × Session)
  dangling : List Nat

inductive SessionsEvent where
  | connect (data : Buffer UInt8 1024) (r : Request)
  | session (p : Nat) (e : SessionEvent)
deriving DecidableEq

def SessionEvent.index : SessionEvent → Nat
  | .start _ => 0
  | .received i _ _ => i
  | .readFailed i => i
  | .transmit i _ _ => i
  | .writeFailed i => i

/-- Where a handler goes when its operation has ended: nowhere, into the next part of its
`async_write`, or on to `do_read` or `do_write`. -/
inductive Upcall where
  | none
  | part
  | next
deriving DecidableEq

def Op.upcall (op : Op) : SessionEvent → Upcall
  | .received _ _ _ => .next
  | .transmit _ n _ =>
    match op with
    | .write size sent _ => if sent + n < size then .part else .next
    | .read _ => .none
  | _ => .none

namespace Sessions

def copy (n : Sessions) (p : Nat) : Sessions := { n with heap := n.heap.copy p }

/-- A pointer is destroyed. The last one takes its session with it. -/
def release (n : Sessions) (p : Nat) : Sessions :=
  { n with
    heap := n.heap.drop p
    ended := n.ended ++ match n.heap.get p, (n.heap.drop p).get p with
      | some s, none => [(p, s)]
      | _, _ => [] }

/-- Something is done to a session, which has to be there. -/
def call (n : Sessions) (p : Nat) (f : Session → Session) : Sessions :=
  { n with
    heap := n.heap.modify p f
    dangling := if (n.heap.get p).isSome then n.dangling else n.dangling ++ [p] }

/-- A handler is moved out of the block of its operation, and the block is given back. -/
def takeHandler (n : Sessions) (p i : Nat) (block : Pointer) : Sessions :=
  { n with held := n.held.erase p }.call p fun s => s.finish i block

/-- A handler is moved into the block of an operation, or destroyed if the exception of
`::operator new` goes through. -/
def store (n : Sessions) (p : Nat) (s : Session) : Sessions :=
  let n := n.call p fun _ => s
  if s.ops = [] then n.release p else { n with held := n.held ++ [p] }

/-- `make_custom_alloc_handler`: the handler that has captured `self` is copied from parameter to
parameter into the wrapper. -/
def makeCustomAllocHandler (n : Sessions) (p : Nat) : Sessions :=
  ((((n.copy p).copy p).copy p).release p).release p

/-- `do_read` or `do_write`, with its local variable `self`, when the session is `s` after it. -/
def startOp (n : Sessions) (p : Nat) (s : Session) : Sessions :=
  (((n.copy p).makeCustomAllocHandler p).store p s).release p

/-- The handler, which is destroyed at last. -/
def perform (n : Sessions) (p : Nat) (s : Session) : Upcall → Sessions
  | .none => n.release p
  | .part => n.store p s
  | .next => (n.startOp p s).release p

/-- One event. `std::make_shared<session>(std::move(socket))->start()` makes a session. -/
def step (n : Sessions) : SessionsEvent → Option Sessions
  | .connect data r =>
    let s := (session n.heap.next data).init
    (s.step (.start r)).map fun s' =>
      let (p, heap) := n.heap.make s
      ({ n with heap := heap }.startOp p s').release p
  | .session p e =>
    (n.heap.get p).bind fun s => s.ops[e.index]?.bind fun op => (s.step e).map fun s' =>
      (n.takeHandler p e.index op.block).perform p s' (op.upcall e)

end Sessions

def echoSessions : System Sessions SessionsEvent := ⟨⟨.empty, [], [], []⟩, Sessions.step⟩

/-! ## The heap gets everything back -/

namespace Session

variable {s t : Session} {storage : Pointer} {op : Pointer → Op} {obs : List SessionObs}
  {r : Request} {e : SessionEvent}

def Balanced (storage : Pointer) (s : Session) : Prop :=
  heapOf s.calls = (s.ops.map Op.block).filter fun p => p ≠ storage

private theorem Balanced.finish (h : s.Balanced storage) (hi : s.Inv storage) {i : Nat} {op : Op}
    (hop : s.ops[i]? = some op) : (s.finish i op.block).Balanced storage := by
  obtain ⟨rfl, hops⟩ := eq_singleton_of_getElem? hi.one hop
  rw [Balanced, hops] at h
  by_cases hp : op.block = storage
  · simpa [Balanced, Session.finish, HandlerMemory.deallocate, hi.address, hp, hops] using h
  · have hheap : heapOf s.calls = [op.block] := by simpa [hp] using h
    simp [Balanced, Session.finish, HandlerMemory.deallocate, hi.address, hp, hops, hheap]

private theorem Balanced.launch (h : s.Balanced storage) (hi : s.Inv storage) (hnone : s.ops = [])
    (hfresh : r.fresh ≠ some storage) (hblock : ∀ p, (op p).block = p) :
    (s.launch op obs r).Balanced storage := by
  have hempty : heapOf s.calls = [] := by simpa [Balanced, hnone] using h
  obtain ⟨-, -, hstorage⟩ | ⟨-, hheap⟩ := s.memory.allocate_cases r.size r.fresh
  · obtain ⟨p, hp, heq⟩ | ⟨hp, -⟩ := launch_cases s op obs r
    · rw [hstorage] at hp heq
      obtain rfl : storage = p := hi.address.symm.trans (Option.some.inj hp)
      rw [Balanced, heq, hnone]
      simp [hempty, hblock]
    · rw [hstorage] at hp
      exact absurd hp (by simp)
  · obtain ⟨p, hp, heq⟩ | ⟨hp, heq⟩ := launch_cases s op obs r
    · rw [hheap] at hp heq
      have hne : p ≠ storage := fun hps => hfresh (hps ▸ hp)
      simp only at hp
      rw [Balanced, heq, hnone]
      simp [hempty, hblock, hne, hp]
    · rw [hheap] at hp heq
      simp only at hp
      rw [Balanced, heq, hnone]
      simp [hempty, hp]

theorem Balanced.step (h : s.Balanced storage) (hi : s.Inv storage) (he : s.step e = some t) :
    t.Balanced storage := by
  cases step_cases he with
  | start hs hr =>
    have hnone := hi.unstarted hs
    have hstart : Inv storage { s with started := true } :=
      ⟨hi.address, fun _ => hnone, hi.one, hi.used, hi.sizes, hi.served, hi.heap⟩
    have hbalanced : Balanced storage { s with started := true } := h
    exact hbalanced.launch hstart hnone (hi.address ▸ hr) fun _ => rfl
  | @received i bytes r block hop hpos hle hr =>
    obtain ⟨hfinish, hnone⟩ := hi.finish hop
    have hnote := hfinish.note (s.data.store 0 bytes) [.received bytes] (by simp)
    have hbalanced : Balanced storage { s.finish i block with
        data := s.data.store 0 bytes
        trace := s.trace ++ [.received bytes] } := h.finish hi hop
    exact hbalanced.launch hnote hnone (hi.address ▸ hr) fun _ => rfl
  | readFailed hop => exact h.finish hi hop
  | @transmit i n size sent r block hop hpos hle hr =>
    obtain ⟨hfinish, hnone⟩ := hi.finish hop
    have hnote := hfinish.note s.data [.wrote ((s.data.elems.drop sent).take n)] (by simp)
    have hbalanced : Balanced storage { s.finish i block with
        data := s.data
        trace := s.trace ++ [.wrote ((s.data.elems.drop sent).take n)] } := h.finish hi hop
    unfold Session.continueWrite
    split
    · exact hbalanced.launch hnote hnone (hi.address ▸ hr) fun _ => rfl
    · exact hbalanced.launch hnote hnone (hi.address ▸ hr) fun _ => rfl
  | writeFailed hop => exact h.finish hi hop

theorem balanced_reachable {data : Buffer UInt8 1024} (hr : (session storage data).Reachable s) :
    s.Balanced storage := by
  have hinit : Balanced storage (session storage data).init := rfl
  exact System.reachable_induction hinit (fun _ _ _ hs h he => h.step (inv_reachable hs) he) hr

theorem finish_reachable {data : Buffer UInt8 1024} (hr : (session storage data).Reachable s)
    {i : Nat} {op : Op} (hop : s.ops[i]? = some op) :
    (session storage data).Reachable (s.finish i op.block) := by
  cases op with
  | read block =>
    exact hr.step (e := .readFailed i) (by simp [session, Session.step, hop, Op.block])
  | write size sent block =>
    exact hr.step (e := .writeFailed i) (by simp [session, Session.step, hop, Op.block])

end Session

namespace Sessions

variable {n n' : Sessions} {p q i : Nat} {s s' : Session} {locals : List Nat}
  {data : Buffer UInt8 1024}

/-! ## Where the pointers are -/

/-- Besides some local variables, the handlers of the operations have the pointers, one each. -/
structure Sound (locals : List Nat) (n : Sessions) : Prop where
  owned : n.heap.Owned (locals ++ n.held)
  held : ∀ p, n.held.count p = (n.heap.get p).elim 0 fun s => s.ops.length
  runs : ∀ p s, n.heap.get p = some s → ∃ data, (session p data).Reachable s
  ended : ∀ p s, (p, s) ∈ n.ended → s.ops = [] ∧ ∃ data, (session p data).Reachable s
  gone : n.ended.map Prod.fst = n.heap.destroyed
  safe : n.dangling = []

private theorem Sound.copy (h : n.Sound locals) (hp : p ∈ locals ++ n.held) :
    (n.copy p).Sound (p :: locals) := by
  refine ⟨h.owned.copy hp, ?_, ?_, h.ended, h.gone, h.safe⟩
  · intro q
    rw [Sessions.copy, Heap.copy_get]
    exact h.held q
  · intro q s hs
    rw [Sessions.copy, Heap.copy_get] at hs
    exact h.runs q s hs

private theorem release_of_mem (h : n.Sound (p :: locals)) (hp : p ∈ locals ++ n.held) :
    (n.release p).heap.get = n.heap.get ∧ (n.release p).ended = n.ended := by
  obtain ⟨howned, hget, -⟩ := h.owned.drop_of_mem hp
  obtain ⟨s, hs⟩ := Option.isSome_iff_exists.1 (h.owned.isSome_iff.2 List.mem_cons_self)
  exact ⟨hget, by simp [release, hget, hs]⟩

/-- A session goes when its handlers have no pointer any more. -/
private theorem Sound.release (h : n.Sound (p :: locals)) : (n.release p).Sound locals := by
  obtain ⟨s, hs⟩ := Option.isSome_iff_exists.1 (h.owned.isSome_iff.2 List.mem_cons_self)
  by_cases hp : p ∈ locals ++ n.held
  · obtain ⟨hget, hended⟩ := release_of_mem h hp
    obtain ⟨howned, -, hdestroyed⟩ := h.owned.drop_of_mem hp
    refine ⟨howned, ?_, ?_, ?_, ?_, h.safe⟩
    · intro q
      rw [hget]
      exact h.held q
    · intro q s hs
      rw [hget] at hs
      exact h.runs q s hs
    · rw [hended]
      exact h.ended
    · rw [hended, h.gone]
      exact hdestroyed.symm
  · obtain ⟨howned, hget, hdestroyed⟩ := h.owned.drop_last hp
    have hended : (n.release p).ended = n.ended ++ [(p, s)] := by
      simp [Sessions.release, hget, hs]
    have hnone : n.held.count p = 0 :=
      List.count_eq_zero_of_not_mem fun hmem => hp (List.mem_append_right _ hmem)
    have hops : s.ops = [] := by
      rw [h.held, hs] at hnone
      exact List.length_eq_zero_iff.1 hnone
    refine ⟨howned, ?_, ?_, ?_, ?_, h.safe⟩
    · intro q
      change n.held.count q = ((n.heap.drop p).get q).elim 0 fun s => s.ops.length
      rw [hget]
      by_cases hq : q = p
      · simp [hq, hnone]
      · rw [if_neg hq]
        exact h.held q
    · intro q t ht
      change (n.heap.drop p).get q = some t at ht
      rw [hget] at ht
      by_cases hq : q = p
      · simp [hq] at ht
      · rw [if_neg hq] at ht
        exact h.runs q t ht
    · intro q t hqt
      rw [hended] at hqt
      rcases List.mem_append.1 hqt with hqt | hqt
      · exact h.ended q t hqt
      · obtain ⟨rfl, rfl⟩ := Prod.mk.inj (List.mem_singleton.1 hqt)
        exact ⟨hops, h.runs q t hs⟩
    · rw [hended, List.map_append, h.gone]
      exact hdestroyed.symm

private theorem call_get (f : Session → Session) :
    (n.call p f).heap.get q = if q = p then (n.heap.get p).map f else n.heap.get q :=
  Heap.modify_get

private theorem Sound.update {held : List Nat} (h : n.Sound locals) {f : Session → Session}
    (hs : n.heap.get p = some s) {pointers : List Nat}
    (hperm : (locals ++ n.held).Perm (pointers ++ held))
    (hself : held.count p = (f s).ops.length)
    (hother : ∀ q, q ≠ p → held.count q = n.held.count q)
    (hr : ∃ data, (session p data).Reachable (f s)) :
    Sound pointers ({ n with held := held }.call p f) := by
  have hget : ∀ q, ({ n with held := held }.call p f).heap.get q =
      if q = p then some (f s) else n.heap.get q := by
    intro q
    rw [call_get, hs, Option.map_some]
  refine ⟨(h.owned.perm hperm).modify p f, ?_, ?_, h.ended, h.gone, ?_⟩
  · intro q
    rw [hget]
    by_cases hq : q = p
    · subst hq
      rw [if_pos rfl]
      exact hself
    · rw [if_neg hq, ← h.held]
      exact hother q hq
  · intro q t ht
    rw [hget] at ht
    by_cases hq : q = p
    · subst hq
      simp only [if_true, Option.some.injEq] at ht
      exact ht ▸ hr
    · rw [if_neg hq] at ht
      exact h.runs q t ht
  · simpa [call, hs] using h.safe

private theorem Sound.one (h : n.Sound locals) (hs : n.heap.get p = some s) : s.ops.length ≤ 1 := by
  obtain ⟨data, hr⟩ := h.runs p s hs
  exact (Session.inv_reachable hr).one

private theorem Sound.takeHandler (h : n.Sound locals) (hs : n.heap.get p = some s) {op : Op}
    (hop : s.ops[i]? = some op) : (n.takeHandler p i op.block).Sound (p :: locals) := by
  obtain ⟨data, hr⟩ := h.runs p s hs
  have hops := (Session.inv_reachable hr).ops_eq hop
  have hcount : n.held.count p = 1 := by simp [h.held, hs, hops]
  have hmem : p ∈ n.held := List.count_pos_iff.1 (by omega)
  apply h.update hs
  · have hperm := (List.perm_cons_erase hmem).append_left locals
    exact hperm.trans List.perm_middle
  · rw [List.count_erase_self, hcount, ((Session.inv_reachable hr).finish hop).2]
    rfl
  · exact fun q hq => List.count_erase_of_ne hq
  · exact ⟨data, Session.finish_reachable hr hop⟩

private theorem takeHandler_get (hs : n.heap.get p = some s) {block : Pointer} :
    (n.takeHandler p i block).heap.get p = some (s.finish i block) := by
  rw [takeHandler, call_get, if_pos rfl, hs, Option.map_some]

private theorem Sound.store (h : n.Sound (p :: locals)) (hs : n.heap.get p = some s)
    (hnone : s.ops = [])
    (hr : ∃ data, (session p data).Reachable s') : (n.store p s').Sound locals := by
  have hcount : n.held.count p = 0 := by simp [h.held, hs, hnone]
  by_cases hops : s'.ops = []
  · have hupdate : (n.call p fun _ => s').Sound (p :: locals) :=
      h.update (f := fun _ => s') hs .rfl (by simp [hcount, hops]) (fun _ _ => rfl) hr
    simp only [Sessions.store, if_pos hops]
    exact hupdate.release
  · obtain ⟨data, hdata⟩ := hr
    have hone : s'.ops.length = 1 := by
      have hle := (Session.inv_reachable hdata).one
      have hpos := List.length_pos_iff.2 hops
      omega
    have hupdate : Sound locals ({ n with held := n.held ++ [p] }.call p fun _ => s') := by
      apply h.update hs _ _ _ ⟨data, hdata⟩
      · rw [← List.append_assoc]
        exact (List.perm_append_singleton p _).symm
      · simp [hcount, hone]
      · intro q hq
        simp [List.count_append, Ne.symm hq]
    simp only [Sessions.store, if_neg hops]
    exact hupdate

private theorem Sound.makeCustomAllocHandler (h : n.Sound locals) (hp : p ∈ locals ++ n.held) :
    (n.makeCustomAllocHandler p).Sound (p :: locals) ∧
      (n.makeCustomAllocHandler p).heap.get = n.heap.get := by
  have hcopy := h.copy hp
  have hcopy₂ := hcopy.copy List.mem_cons_self
  have hcopy₃ := hcopy₂.copy List.mem_cons_self
  have hget₃ := (release_of_mem hcopy₃ List.mem_cons_self).1
  have hrelease := hcopy₃.release
  have hget := (release_of_mem hrelease List.mem_cons_self).1
  refine ⟨hrelease.release, ?_⟩
  rw [Sessions.makeCustomAllocHandler, hget, hget₃]
  simp [Sessions.copy]

private theorem Sound.startOp (h : n.Sound (p :: locals)) (hs : n.heap.get p = some s)
    (hnone : s.ops = []) (hr : ∃ data, (session p data).Reachable s') :
    (n.startOp p s').Sound (p :: locals) := by
  have hself := h.copy (p := p) List.mem_cons_self
  obtain ⟨hmake, hget⟩ := hself.makeCustomAllocHandler (p := p) List.mem_cons_self
  have hs' : ((n.copy p).makeCustomAllocHandler p).heap.get p = some s := by
    rw [hget, Sessions.copy, Heap.copy_get, hs]
  exact (hmake.store hs' hnone hr).release

theorem Sound.step {e : SessionsEvent} (h : n.Sound []) (he : n.step e = some n') :
    n'.Sound [] := by
  cases e with
  | connect data r =>
    obtain ⟨s', hs', rfl⟩ := Option.map_eq_some_iff.1 he
    have hnext : n.heap.next ∉ n.held := h.owned.next_notMem
    have hget : ∀ q, (n.heap.make (session n.heap.next data).init).2.get q =
        if q = n.heap.next then some (session n.heap.next data).init else n.heap.get q :=
      fun _ => Heap.make_get
    have hmade : Sound [n.heap.next]
        { n with heap := (n.heap.make (session n.heap.next data).init).2 } := by
      refine ⟨h.owned.make _, ?_, ?_, h.ended, h.gone, h.safe⟩
      · intro q
        rw [hget]
        by_cases hq : q = n.heap.next
        · rw [if_pos hq, hq, List.count_eq_zero_of_not_mem hnext]
          rfl
        · rw [if_neg hq]
          exact h.held q
      · intro q t ht
        rw [hget] at ht
        by_cases hq : q = n.heap.next
        · rw [if_pos hq] at ht
          exact ⟨data, hq ▸ Option.some.inj ht ▸ System.reachable_init _⟩
        · rw [if_neg hq] at ht
          exact h.runs q t ht
    have hreach : (session n.heap.next data).Reachable s' :=
      (System.reachable_init _).step (e := .start r) hs'
    exact (hmade.startOp ((hget _).trans (if_pos rfl)) rfl ⟨data, hreach⟩).release
  | session p e =>
    obtain ⟨s, hs, he⟩ := Option.bind_eq_some_iff.1 he
    obtain ⟨op, hop, he⟩ := Option.bind_eq_some_iff.1 he
    obtain ⟨s', hs', rfl⟩ := Option.map_eq_some_iff.1 he
    obtain ⟨data, hr⟩ := h.runs p s hs
    have htaken := h.takeHandler hs hop
    have hnone := ((Session.inv_reachable hr).finish hop).2
    cases op.upcall e with
    | none => exact htaken.release
    | part => exact htaken.store (takeHandler_get hs) hnone ⟨data, hr.step hs'⟩
    | next => exact (htaken.startOp (takeHandler_get hs) hnone ⟨data, hr.step hs'⟩).release

private theorem sound_init : echoSessions.init.Sound [] :=
  ⟨Heap.owned_empty, by simp [echoSessions, Heap.empty, Heap.get],
    by simp [echoSessions, Heap.empty, Heap.get], by simp [echoSessions], rfl, rfl⟩

theorem sound_reachable (h : echoSessions.Reachable n) : n.Sound [] :=
  System.reachable_induction (P := Sound []) sound_init (fun _ _ _ _ hn he => hn.step he) h

private theorem exists_step {e : SessionEvent} (hs : n.heap.get p = some s)
    (hpos : s.ops ≠ []) (he : s.step e = some s') : (n.step (.session p e)).isSome = true := by
  have hindex : ∃ op, s.ops[e.index]? = some op := by
    cases Session.step_cases he with
    | start => exact ⟨_, List.getElem?_eq_getElem (List.length_pos_iff.2 hpos)⟩
    | received hop => exact ⟨_, hop⟩
    | readFailed hop => exact ⟨_, hop⟩
    | transmit hop => exact ⟨_, hop⟩
    | writeFailed hop => exact ⟨_, hop⟩
  obtain ⟨op, hop⟩ := hindex
  simp [step, hs, hop, he]

end Sessions

/-- The states of the first client's write do not fit into the storage, and its next read fails. -/
def twoSessions : List SessionsEvent :=
  [.connect (.fill 1024 0) ⟨88, none⟩, .connect (.fill 1024 0) ⟨88, none⟩,
    .session 0 (.received 0 [104, 105] ⟨1024, some 7⟩), .session 0 (.transmit 0 1 ⟨2048, some 8⟩),
    .session 1 (.received 0 [33] ⟨96, none⟩), .session 0 (.transmit 0 1 ⟨88, none⟩),
    .session 0 (.readFailed 0)]

end BoostLearning.Allocation
