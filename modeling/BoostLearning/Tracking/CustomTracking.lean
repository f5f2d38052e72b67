import BoostLearning.Framework.Forest
import BoostLearning.Framework.Transition

/-!
# `custom_tracking`

Handlers are numbered when they are created, and a `completion` around every invocation keeps a
copy of the handler and makes it the current one of its thread. The completions of a thread are
automatic objects on its stack, linked to each other from the innermost outwards. The counter is
atomic and nothing else is shared, so what a thread does between two events is one step.
-/

namespace BoostLearning.Tracking

abbrev ThreadId := Nat

structure TrackedHandler where
  handlerId : UInt64
  treeId : UInt64
  objectType : String
  nativeHandle : UInt64
deriving DecidableEq

/-- The first two members have initialisers; the other two are set before they are read. -/
def TrackedHandler.init : TrackedHandler := ⟨0, 0, "", 0⟩

structure Completion where
  handler : TrackedHandler
  next : Option Addr
deriving DecidableEq

inductive Report where
  | starting (objectType opName : String) (nativeHandle handlerId treeId : UInt64)
  | entering (handlerId treeId : UInt64)
  | leaving (handlerId treeId : UInt64)
deriving DecidableEq

/-- The thread's `*current_completion()`, its memory, and the scopes it is in: where the
completion of a scope is and which handler it was constructed for, innermost first. -/
structure Thread where
  current : Option Addr
  completions : Addr → Option Completion
  scopes : List (Addr × Nat)

/-- The counter, the handlers in the order of their creation, the threads, and what has been
printed. `forest` is a history variable: below which other handler, the innermost running one of
its thread, each handler was created. -/
structure World where
  nextHandlerId : UInt64
  handlers : List TrackedHandler
  threads : ThreadId → Thread
  output : List Report
  forest : Forest

/-- A handler is created; a `completion` is constructed at `p` for the `i`-th handler; its
invocation begins and ends; the completion is destroyed. -/
inductive Event where
  | creation (t : ThreadId) (objectType : String) (nativeHandle : UInt64) (opName : String)
  | completion (t : ThreadId) (p : Addr) (i : Nat)
  | invocationBegin (t : ThreadId)
  | invocationEnd (t : ThreadId)
  | destroy (t : ThreadId)
deriving DecidableEq

namespace Thread

def init : Thread := ⟨none, fun _ => none, []⟩

/-- `(*current_completion())->_handler`, unless there is no current completion. -/
def currentHandler (x : Thread) : Option TrackedHandler :=
  (x.current.bind x.completions).map Completion.handler

def running (x : Thread) : Option Nat := x.scopes.head?.map Prod.snd

/-- The constructor of `completion`, for the `i`-th handler. -/
def construct (x : Thread) (p : Addr) (i : Nat) (h : TrackedHandler) : Thread where
  current := some p
  completions := Function.update x.completions p (some ⟨h, x.current⟩)
  scopes := (p, i) :: x.scopes

/-- The destructor of the innermost completion. -/
def destroy (x : Thread) : Option Thread :=
  match x.scopes with
  | [] => none
  | (p, _) :: rest =>
    (x.completions p).map fun c => { x with current := c.next, scopes := rest }

end Thread

namespace World

def init : World := ⟨1, [], fun _ => .init, [], .empty⟩

def creation (w : World) (t : ThreadId) (objectType : String) (nativeHandle : UInt64)
    (opName : String) : World :=
  let h := { TrackedHandler.init with handlerId := w.nextHandlerId }
  let h := match (w.threads t).currentHandler with
    | some current => { h with treeId := current.treeId }
    | none => h
  let h := { h with objectType := objectType, nativeHandle := nativeHandle }
  { w with
    nextHandlerId := w.nextHandlerId + 1
    handlers := w.handlers ++ [h]
    output := w.output ++ [.starting objectType opName h.nativeHandle h.handlerId h.treeId]
    forest := w.forest.grow (w.threads t).running }

def print (w : World) (t : ThreadId) (report : TrackedHandler → Report) : Option World :=
  match (w.threads t).scopes with
  | [] => none
  | (p, _) :: _ =>
    ((w.threads t).completions p).map fun c => { w with output := w.output ++ [report c.handler] }

def invocationBegin (w : World) (t : ThreadId) : Option World :=
  w.print t fun h => .entering h.handlerId h.treeId

def invocationEnd (w : World) (t : ThreadId) : Option World :=
  w.print t fun h => .leaving h.handlerId h.treeId

/-- One event; `none` when there is no such handler or scope, or when the memory is in use. -/
def step (w : World) : Event → Option World
  | .creation t objectType nativeHandle opName =>
    some (w.creation t objectType nativeHandle opName)
  | .completion t p i =>
    if p ∈ (w.threads t).scopes.map Prod.fst then none
    else
      (w.handlers[i]?).map fun h =>
        { w with threads := Function.update w.threads t ((w.threads t).construct p i h) }
  | .invocationBegin t => w.invocationBegin t
  | .invocationEnd t => w.invocationEnd t
  | .destroy t =>
    (w.threads t).destroy.map fun x => { w with threads := Function.update w.threads t x }

end World

def customTracking : System World Event := ⟨.init, World.step⟩

/-! ## The stack of completions -/

/-- The completions of a thread are linked in the order of its scopes, and each holds a copy of the
handler of its scope. -/
def Thread.Nested (handlers : List TrackedHandler) (x : Thread) : Prop :=
  Linked Completion.next (fun c i => handlers[i]? = some c.handler) x.completions x.current x.scopes

namespace Thread

variable {handlers : List TrackedHandler} {x x' : Thread}

theorem nested_init (handlers : List TrackedHandler) : init.Nested handlers := rfl

theorem Nested.construct (h : x.Nested handlers) {p : Addr} {i : Nat} {t : TrackedHandler}
    (hp : p ∉ x.scopes.map Prod.fst) (ht : handlers[i]? = some t) :
    (x.construct p i t).Nested handlers :=
  h.push hp ht rfl

theorem Nested.destroy (h : x.Nested handlers) (hd : x.destroy = some x') :
    x'.Nested handlers := by
  simp only [Thread.destroy] at hd
  split at hd
  · exact absurd hd (by simp)
  · rename_i p i rest hscopes
    obtain ⟨c, hc, rfl⟩ := Option.map_eq_some_iff.1 hd
    rw [Nested, hscopes] at h
    obtain ⟨-, c', hc', -, hrest⟩ := h
    rw [hc] at hc'
    exact Option.some.inj hc' ▸ hrest

theorem Nested.append (h : x.Nested handlers) (t : TrackedHandler) :
    x.Nested (handlers ++ [t]) := by
  apply h.mono
  intro c i hi
  rw [List.getElem?_append_left (List.getElem?_eq_some_iff.1 hi).1]
  exact hi

theorem Nested.currentHandler_cases (h : x.Nested handlers) :
    (x.running = none ∧ x.currentHandler = none) ∨
      ∃ i t, x.running = some i ∧ handlers[i]? = some t ∧ x.currentHandler = some t := by
  rw [Nested] at h
  cases hscopes : x.scopes with
  | nil =>
    rw [hscopes] at h
    have hnone : x.current = none := h
    exact .inl ⟨by simp [running, hscopes], by simp [currentHandler, hnone]⟩
  | cons s rest =>
    rw [hscopes] at h
    obtain ⟨htop, c, hc, ht, -⟩ := h
    exact .inr ⟨s.2, c.handler, by simp [running, hscopes], ht, by simp [currentHandler, htop, hc]⟩

end Thread

end BoostLearning.Tracking
