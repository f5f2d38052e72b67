import BoostLearning.Framework.Buffer
import BoostLearning.Framework.Transition
import BoostLearning.Framework.WriteQueue

/-!
# The process-per-connection server

A state is the table of all processes that ever ran the program. They run the same handlers on
their own copies of `server`. The accept handler and the signal handler are cut where they call
the operating system, since the other processes go on meanwhile; a phase says where in a handler
a process stands.
-/

namespace BoostLearning.Fork

abbrev Pid := Nat

abbrev Conn := Nat

inductive Life where
  | running
  | zombie
  | reaped
deriving DecidableEq

/-- Between handlers; before `fork()` and in each of its branches; in the `waitpid` loop and
behind it. -/
inductive Phase where
  | idle
  | forking
  | parent
  | child
  | reaping
  | rearming
deriving DecidableEq

/-- An outstanding `async_wait`, and whether its handler is queued already. -/
inductive Wait where
  | pending
  | ready (ec : ErrorCode)
deriving DecidableEq

def Wait.complete (ec : ErrorCode) : Wait → Wait
  | .pending => .ready ec
  | .ready ec' => .ready ec'

structure Echo where
  conn : Option Conn
  size : Nat
  sent : Nat
deriving DecidableEq

/-- One process: where it stands, the `SIGCHLD`s on their way to `_signal` and those that
`_signal` keeps for its next wait, and the members of `server` with their outstanding
operations. -/
structure Proc where
  parent : Option Pid
  life : Life
  phase : Phase
  signals : Nat
  undelivered : Nat
  waits : List Wait
  acceptorOpen : Bool
  accepts : Nat
  socket : Option Conn
  data : Buffer UInt8 1024
  reads : List (Option Conn)
  writes : List Echo
deriving DecidableEq

/-- What is seen of a process: its system calls, and the operations it starts. -/
inductive Act where
  | asyncWait
  | asyncAccept
  | accepted (c : Conn)
  | forked (c : Option Conn) (child : Option Pid)
  | waitpid (ret : Int)
  | asyncRead (c : Option Conn)
  | received (c : Conn) (bytes : List UInt8)
  | asyncWrite (c : Option Conn) (size : Nat)
  | wrote (c : Conn) (bytes : List UInt8)
deriving DecidableEq

structure Obs where
  pid : Pid
  act : Act
deriving DecidableEq

/-- What can happen to one process alone. Several `SIGCHLD`s may merge on their way. -/
inductive Action where
  | raise
  | merge
  | deliver
  | acceptFailed
  | resumeParent
  | resumeChild
  | waitDone (i : Nat)
  | rearm
  | received (i : Nat) (bytes : List UInt8)
  | readFailed (i : Nat)
  | transmit (i n : Nat)
  | writeDone (i : Nat) (ec : ErrorCode)
deriving DecidableEq

/-- What the processes do: an accepted connection is new, `fork` may fail, and `waitpid`
answers with a process that ended, or with none when there is none. -/
inductive Event where
  | proc (p : Pid) (a : Action)
  | acceptDone (p : Pid)
  | fork (p : Pid) (ok : Bool)
  | waitpid (p : Pid) (q : Option Pid)
  | exit (p : Pid)
deriving DecidableEq

namespace Proc

/-- `_signal.async_wait`: a signal that came before it completes it at once. -/
def waitForSignal (x : Proc) : Proc × List Act :=
  if 0 < x.undelivered then
    ({ x with undelivered := x.undelivered - 1, waits := x.waits ++ [.ready .success] },
      [.asyncWait])
  else ({ x with waits := x.waits ++ [.pending] }, [.asyncWait])

/-- A `SIGCHLD` reaches `_signal`: it completes the waits there are, or is kept. -/
def deliverSignal (x : Proc) : Proc :=
  if .pending ∈ x.waits then
    { x with waits := x.waits.map (.complete .success) }
  else { x with undelivered := x.undelivered + 1 }

def cancelSignal (x : Proc) : Proc :=
  { x with waits := x.waits.map (.complete .failure) }

def accept (x : Proc) : Proc × List Act := ({ x with accepts := x.accepts + 1 }, [.asyncAccept])

def read (x : Proc) : Proc × List Act :=
  ({ x with reads := x.reads ++ [x.socket] }, [.asyncRead x.socket])

def write (x : Proc) (length : Nat) : Proc × List Act :=
  ({ x with writes := x.writes ++ [⟨x.socket, length, 0⟩] }, [.asyncWrite x.socket length])

/-- The handler of `wait_for_signal`, up to the `waitpid` loop. -/
def onSignal (x : Proc) : Proc := if x.acceptorOpen then { x with phase := .reaping } else x

/-- The handler of `accept` without an error, up to `fork()`. -/
def onAccept (x : Proc) (c : Conn) : Proc × List Act :=
  ({ x with socket := some c, phase := .forking }, [.accepted c])

/-- `if (fork() == 0)`. -/
def afterFork (x : Proc) (ret : Int) : Proc :=
  { x with phase := if ret = 0 then .child else .parent }

/-- `while (waitpid(-1, &status, WNOHANG) > 0)`. -/
def afterWaitpid (x : Proc) (ret : Int) : Proc :=
  { x with phase := if 0 < ret then .reaping else .rearming }

def asChild (x : Proc) : Proc × List Act :=
  (({ x with acceptorOpen := false }).cancelSignal).read

def asParent (x : Proc) : Proc × List Act := ({ x with socket := none } : Proc).accept

/-- One action; `none` when the process does not stand where it could happen. -/
def handle (x : Proc) : Action → Option (Proc × List Act)
  | .raise => some ({ x with signals := x.signals + 1 }, [])
  | .merge => if 1 < x.signals then some ({ x with signals := x.signals - 1 }, []) else none
  | .deliver =>
    if 0 < x.signals then some (({ x with signals := x.signals - 1 }).deliverSignal, []) else none
  | .acceptFailed =>
    if x.phase = .idle ∧ 0 < x.accepts then
      some ({ x with accepts := x.accepts - 1 } : Proc).accept
    else none
  | .resumeParent =>
    if x.phase = .parent then some ({ x with phase := .idle } : Proc).asParent else none
  | .resumeChild =>
    if x.phase = .child then some ({ x with phase := .idle } : Proc).asChild else none
  | .waitDone i =>
    match x.phase, x.waits[i]? with
    | .idle, some (.ready _) => some (({ x with waits := x.waits.eraseIdx i }).onSignal, [])
    | _, _ => none
  | .rearm =>
    if x.phase = .rearming then some ({ x with phase := .idle } : Proc).waitForSignal else none
  | .received i bytes =>
    match x.phase, x.reads[i]? with
    | .idle, some (some c) =>
      if 0 < bytes.length ∧ bytes.length ≤ 1024 then
        let r := ({ x with reads := x.reads.eraseIdx i, data := x.data.store 0 bytes }).write
          bytes.length
        some (r.1, .received c bytes :: r.2)
      else none
    | _, _ => none
  | .readFailed i =>
    if x.phase = .idle ∧ i < x.reads.length then some ({ x with reads := x.reads.eraseIdx i }, [])
    else none
  | .transmit i n =>
    match x.phase, x.writes[i]? with
    | .idle, some ⟨some c, size, sent⟩ =>
      if 0 < n ∧ sent + n ≤ size then
        some ({ x with writes := x.writes.set i ⟨some c, size, sent + n⟩ },
          [.wrote c ((x.data.elems.drop sent).take n)])
      else none
    | _, _ => none
  | .writeDone i ec =>
    match x.phase, x.writes[i]?, ec with
    | .idle, some _, .failure => some ({ x with writes := x.writes.eraseIdx i }, [])
    | .idle, some op, .success =>
      if op.sent = op.size then some ({ x with writes := x.writes.eraseIdx i } : Proc).read
      else none
    | _, _, _ => none

/-- The process that `main` starts as, before the constructor of `server`. -/
def start (data : Buffer UInt8 1024) : Proc where
  parent := none
  life := .running
  phase := .idle
  signals := 0
  undelivered := 0
  waits := []
  acceptorOpen := true
  accepts := 0
  socket := none
  data := data
  reads := []
  writes := []

end Proc

/-- The processes, the number of connections accepted so far, and the trace. -/
structure World where
  procs : List Proc
  conns : Nat
  trace : List Obs
deriving DecidableEq

namespace World

def running (w : World) (p : Pid) : Option Proc := w.procs[p]?.filter fun x => x.life = .running

def perform (w : World) (p : Pid) (x : Proc) (acts : List Act) : World :=
  { w with procs := w.procs.set p x, trace := w.trace ++ acts.map (⟨p, ·⟩) }

/-- `fork()` in process `p`. The child gets a copy of everything but the signals that are still
on their way. -/
def fork (w : World) (p : Pid) (x : Proc) (ok : Bool) : World :=
  if ok then
    let child := w.procs.length
    let w := w.perform p (x.afterFork child) [.forked x.socket (some child)]
    { w with procs := w.procs ++ [{ x.afterFork 0 with parent := some p, signals := 0 }] }
  else w.perform p (x.afterFork (-1)) [.forked x.socket none]

def zombies (w : World) (p : Pid) : List Pid :=
  (List.range w.procs.length).filter fun q =>
    w.procs[q]?.any fun y => y.parent = some p && y.life = .zombie

def children (w : World) (p : Pid) : List Pid :=
  (List.range w.procs.length).filter fun q =>
    w.procs[q]?.any fun y => y.parent = some p && y.life ≠ .reaped

def bury (w : World) (q : Pid) : World :=
  { w with procs := w.procs.modify q fun y => { y with life := .reaped } }

/-- `waitpid(-1, &status, WNOHANG)` in process `p`. -/
def waitpid (w : World) (p : Pid) (x : Proc) : Option Pid → Option World
  | some q =>
    if q ∈ w.zombies p then some ((w.bury q).perform p (x.afterWaitpid q) [.waitpid q]) else none
  | none =>
    if w.zombies p = [] then
      let ret : Int := if w.children p = [] then -1 else 0
      some (w.perform p (x.afterWaitpid ret) [.waitpid ret])
    else none

/-- Process `p` ends, wherever it stands, and its parent is sent a `SIGCHLD`. Children of its own
are not handed over to anyone: only the first process ever has any. -/
def exit (w : World) (p : Pid) (x : Proc) : World :=
  let procs := w.procs.set p { x with life := .zombie }
  match x.parent with
  | none => { w with procs := procs }
  | some q => { w with procs := procs.modify q fun y => { y with signals := y.signals + 1 } }

/-- One event; the first process is never ended. -/
def step (w : World) : Event → Option World
  | .proc p a =>
    (w.running p).bind fun x => (x.handle a).map fun (x, acts) => w.perform p x acts
  | .acceptDone p =>
    (w.running p).bind fun x =>
      if x.phase = .idle ∧ 0 < x.accepts then
        let r := ({ x with accepts := x.accepts - 1 }).onAccept w.conns
        some ({ w with conns := w.conns + 1 }.perform p r.1 r.2)
      else none
  | .fork p ok =>
    (w.running p).bind fun x => if x.phase = .forking then some (w.fork p x ok) else none
  | .waitpid p q =>
    (w.running p).bind fun x => if x.phase = .reaping then w.waitpid p x q else none
  | .exit p => if p = 0 then none else (w.running p).map fun x => w.exit p x

def init (data : Buffer UInt8 1024) : World :=
  let r := (Proc.start data).waitForSignal
  let s := r.1.accept
  ⟨[s.1], 0, (r.2 ++ s.2).map (⟨0, ·⟩)⟩

end World

def forkServer (data : Buffer UInt8 1024) : System World Event := ⟨.init data, World.step⟩

/-! ## What a step does -/

/-- Every way an action can go, with the handler's branch spelled out. -/
inductive Handled (x : Proc) : Action → Proc → List Act → Prop
  | raise : Handled x .raise { x with signals := x.signals + 1 } []
  | merge (h : 1 < x.signals) : Handled x .merge { x with signals := x.signals - 1 } []
  | deliver (h : 0 < x.signals) :
      Handled x .deliver ({ x with signals := x.signals - 1 }).deliverSignal []
  | acceptFailed (hp : x.phase = .idle) (h : 0 < x.accepts) :
      Handled x .acceptFailed x [.asyncAccept]
  | resumeParent (hp : x.phase = .parent) :
      Handled x .resumeParent
        { x with phase := .idle, socket := none, accepts := x.accepts + 1 } [.asyncAccept]
  | resumeChild (hp : x.phase = .child) :
      Handled x .resumeChild
        { x with
          phase := .idle
          acceptorOpen := false
          waits := x.waits.map (.complete .failure)
          reads := x.reads ++ [x.socket] }
        [.asyncRead x.socket]
  | reap {i : Nat} {ec : ErrorCode} (hp : x.phase = .idle) (h : x.waits[i]? = some (.ready ec))
      (hopen : x.acceptorOpen = true) :
      Handled x (.waitDone i) { x with waits := x.waits.eraseIdx i, phase := .reaping } []
  | ignore {i : Nat} {ec : ErrorCode} (hp : x.phase = .idle) (h : x.waits[i]? = some (.ready ec))
      (hclosed : x.acceptorOpen = false) :
      Handled x (.waitDone i) { x with waits := x.waits.eraseIdx i } []
  | rearm (hp : x.phase = .rearming) :
      Handled x .rearm (({ x with phase := .idle } : Proc).waitForSignal).1 [.asyncWait]
  | received {i : Nat} {bytes : List UInt8} {c : Conn} (hp : x.phase = .idle)
      (h : x.reads[i]? = some (some c)) (hpos : 0 < bytes.length) (hle : bytes.length ≤ 1024) :
      Handled x (.received i bytes)
        { x with
          reads := x.reads.eraseIdx i
          data := x.data.store 0 bytes
          writes := x.writes ++ [⟨x.socket, bytes.length, 0⟩] }
        [.received c bytes, .asyncWrite x.socket bytes.length]
  | readFailed {i : Nat} (hp : x.phase = .idle) (h : i < x.reads.length) :
      Handled x (.readFailed i) { x with reads := x.reads.eraseIdx i } []
  | transmit {i n size sent : Nat} {c : Conn} (hp : x.phase = .idle)
      (h : x.writes[i]? = some ⟨some c, size, sent⟩) (hpos : 0 < n) (hle : sent + n ≤ size) :
      Handled x (.transmit i n) { x with writes := x.writes.set i ⟨some c, size, sent + n⟩ }
        [.wrote c ((x.data.elems.drop sent).take n)]
  | written {i : Nat} {op : Echo} (hp : x.phase = .idle) (h : x.writes[i]? = some op)
      (hsent : op.sent = op.size) :
      Handled x (.writeDone i .success)
        { x with writes := x.writes.eraseIdx i, reads := x.reads ++ [x.socket] }
        [.asyncRead x.socket]
  | writeFailed {i : Nat} {op : Echo} (hp : x.phase = .idle) (h : x.writes[i]? = some op) :
      Handled x (.writeDone i .failure) { x with writes := x.writes.eraseIdx i } []

namespace Proc

theorem waitForSignal_snd (x : Proc) : x.waitForSignal.2 = [.asyncWait] := by
  unfold waitForSignal
  split <;> rfl

private theorem handle_cases {x y : Proc} {a : Action} {acts : List Act}
    (h : x.handle a = some (y, acts)) : Handled x a y acts := by
  cases a with
  | raise =>
    simp only [handle, Option.some.injEq, Prod.mk.injEq] at h
    obtain ⟨rfl, rfl⟩ := h
    exact .raise
  | merge =>
    simp only [handle, Option.ite_none_right_eq_some, Option.some.injEq, Prod.mk.injEq] at h
    obtain ⟨hpos, rfl, rfl⟩ := h
    exact .merge hpos
  | deliver =>
    simp only [handle, Option.ite_none_right_eq_some, Option.some.injEq, Prod.mk.injEq] at h
    obtain ⟨hpos, rfl, rfl⟩ := h
    exact .deliver hpos
  | acceptFailed =>
    simp only [handle, accept, Option.ite_none_right_eq_some, Option.some.injEq,
      Prod.mk.injEq] at h
    obtain ⟨⟨hp, hpos⟩, rfl, rfl⟩ := h
    simpa only [Nat.sub_add_cancel hpos] using Handled.acceptFailed hp hpos
  | resumeParent =>
    simp only [handle, asParent, accept, Option.ite_none_right_eq_some, Option.some.injEq,
      Prod.mk.injEq] at h
    obtain ⟨hp, rfl, rfl⟩ := h
    exact .resumeParent hp
  | resumeChild =>
    simp only [handle, asChild, cancelSignal, read, Option.ite_none_right_eq_some,
      Option.some.injEq, Prod.mk.injEq] at h
    obtain ⟨hp, rfl, rfl⟩ := h
    exact .resumeChild hp
  | waitDone i =>
    simp only [handle] at h
    split at h
    · rename_i ec hp hwait
      simp only [onSignal, Option.some.injEq, Prod.mk.injEq] at h
      obtain ⟨rfl, rfl⟩ := h
      split
      · rename_i hopen
        exact .reap hp hwait hopen
      · rename_i hopen
        exact .ignore hp hwait (Bool.not_eq_true _ ▸ hopen)
    · exact absurd h (by simp)
  | rearm =>
    simp only [handle, Option.ite_none_right_eq_some, Option.some.injEq] at h
    obtain ⟨hp, h⟩ := h
    have hacts : acts = [.asyncWait] := by
      rw [← waitForSignal_snd { x with phase := .idle }, h]
    have hrearm := Handled.rearm hp
    rw [h] at hrearm
    rw [hacts]
    exact hrearm
  | received i bytes =>
    simp only [handle] at h
    split at h
    · rename_i c hp hread
      simp only [write, Option.ite_none_right_eq_some, Option.some.injEq, Prod.mk.injEq] at h
      obtain ⟨⟨hpos, hle⟩, rfl, rfl⟩ := h
      exact .received hp hread hpos hle
    · exact absurd h (by simp)
  | readFailed i =>
    simp only [handle, Option.ite_none_right_eq_some, Option.some.injEq, Prod.mk.injEq] at h
    obtain ⟨⟨hp, hlt⟩, rfl, rfl⟩ := h
    exact .readFailed hp hlt
  | transmit i n =>
    simp only [handle] at h
    split at h
    · rename_i c size sent hp hwrite
      simp only [Option.ite_none_right_eq_some, Option.some.injEq, Prod.mk.injEq] at h
      obtain ⟨⟨hpos, hle⟩, rfl, rfl⟩ := h
      exact .transmit hp hwrite hpos hle
    · exact absurd h (by simp)
  | writeDone i ec =>
    simp only [handle] at h
    split at h
    · rename_i op hp hwrite
      simp only [Option.some.injEq, Prod.mk.injEq] at h
      obtain ⟨rfl, rfl⟩ := h
      exact .writeFailed hp hwrite
    · rename_i op hp hwrite
      simp only [read, Option.ite_none_right_eq_some, Option.some.injEq, Prod.mk.injEq] at h
      obtain ⟨hsent, rfl, rfl⟩ := h
      exact .written hp hwrite hsent
    · exact absurd h (by simp)

end Proc

namespace World

theorem running_eq_some {w : World} {p : Pid} {x : Proc} :
    w.running p = some x ↔ w.procs[p]? = some x ∧ x.life = .running := by
  simp [running, Option.filter_eq_some_iff]

theorem mem_zombies {w : World} {p q : Pid} :
    q ∈ w.zombies p ↔ ∃ y, w.procs[q]? = some y ∧ y.parent = some p ∧ y.life = .zombie := by
  simp only [zombies, List.mem_filter, List.mem_range, Option.any_eq_true, Bool.and_eq_true,
    decide_eq_true_eq]
  constructor
  · intro h
    exact h.2
  · rintro ⟨y, hy, hzombie⟩
    exact ⟨(List.getElem?_eq_some_iff.1 hy).1, y, hy, hzombie⟩

/-- Every way a step can go, with the process that makes it. -/
inductive Effect (w : World) : Event → World → Prop
  | proc {p : Pid} {a : Action} {x y : Proc} {acts : List Act} (hx : w.procs[p]? = some x)
      (hlife : x.life = .running) (h : Handled x a y acts) :
      Effect w (.proc p a) (w.perform p y acts)
  | accepted {p : Pid} {x : Proc} (hx : w.procs[p]? = some x) (hlife : x.life = .running)
      (hp : x.phase = .idle) (h : 0 < x.accepts) :
      Effect w (.acceptDone p)
        ({ w with conns := w.conns + 1 }.perform p
          { x with accepts := x.accepts - 1, socket := some w.conns, phase := .forking }
          [.accepted w.conns])
  | forked {p : Pid} {x : Proc} (hx : w.procs[p]? = some x) (hlife : x.life = .running)
      (hp : x.phase = .forking) :
      Effect w (.fork p true)
        ⟨w.procs.set p { x with phase := .parent } ++
            [{ x with phase := .child, parent := some p, signals := 0 }],
          w.conns, w.trace ++ [⟨p, .forked x.socket (some w.procs.length)⟩]⟩
  | forkFailed {p : Pid} {x : Proc} (hx : w.procs[p]? = some x) (hlife : x.life = .running)
      (hp : x.phase = .forking) :
      Effect w (.fork p false) (w.perform p { x with phase := .parent } [.forked x.socket none])
  | reaped {p q : Pid} {x : Proc} (hx : w.procs[p]? = some x) (hlife : x.life = .running)
      (hp : x.phase = .reaping) (h : q ∈ w.zombies p) :
      Effect w (.waitpid p (some q)) ((w.bury q).perform p (x.afterWaitpid q) [.waitpid q])
  | noneEnded {p : Pid} {x : Proc} {ret : Int} (hx : w.procs[p]? = some x)
      (hlife : x.life = .running) (hp : x.phase = .reaping) (h : w.zombies p = [])
      (hret : ret ≤ 0) :
      Effect w (.waitpid p none) (w.perform p { x with phase := .rearming } [.waitpid ret])
  | exited {p : Pid} {x : Proc} (hp : p ≠ 0) (hx : w.procs[p]? = some x)
      (hlife : x.life = .running) :
      Effect w (.exit p) (w.exit p x)

theorem step_cases {w w' : World} {e : Event} (h : w.step e = some w') : Effect w e w' := by
  cases e with
  | proc p a =>
    obtain ⟨x, hx, h⟩ := Option.bind_eq_some_iff.1 h
    obtain ⟨hx, hlife⟩ := running_eq_some.1 hx
    obtain ⟨⟨y, acts⟩, hy, rfl⟩ := Option.map_eq_some_iff.1 h
    exact .proc hx hlife (Proc.handle_cases hy)
  | acceptDone p =>
    obtain ⟨x, hx, h⟩ := Option.bind_eq_some_iff.1 h
    obtain ⟨hx, hlife⟩ := running_eq_some.1 hx
    simp only [Proc.onAccept, Option.ite_none_right_eq_some, Option.some.injEq] at h
    obtain ⟨⟨hp, hpos⟩, rfl⟩ := h
    exact .accepted hx hlife hp hpos
  | fork p ok =>
    obtain ⟨x, hx, h⟩ := Option.bind_eq_some_iff.1 h
    obtain ⟨hx, hlife⟩ := running_eq_some.1 hx
    simp only [Option.ite_none_right_eq_some, Option.some.injEq] at h
    obtain ⟨hp, rfl⟩ := h
    cases ok with
    | false => exact .forkFailed hx hlife hp
    | true =>
      -- a child has a positive process id
      have hpos : (w.procs.length : Int) ≠ 0 := by
        have := (List.getElem?_eq_some_iff.1 hx).1
        omega
      have hparent : x.afterFork w.procs.length = { x with phase := .parent } := by
        rw [Proc.afterFork, if_neg hpos]
      simp only [fork, perform, hparent]
      exact .forked hx hlife hp
  | waitpid p q =>
    obtain ⟨x, hx, h⟩ := Option.bind_eq_some_iff.1 h
    obtain ⟨hx, hlife⟩ := running_eq_some.1 hx
    simp only [Option.ite_none_right_eq_some] at h
    obtain ⟨hp, h⟩ := h
    cases q with
    | some q =>
      simp only [waitpid, Option.ite_none_right_eq_some, Option.some.injEq] at h
      obtain ⟨hq, rfl⟩ := h
      exact .reaped hx hlife hp hq
    | none =>
      simp only [waitpid, Option.ite_none_right_eq_some, Option.some.injEq] at h
      obtain ⟨hnone, rfl⟩ := h
      have hret : (if w.children p = [] then (-1 : Int) else 0) ≤ 0 := by
        split <;> omega
      have hloop : ∀ ret : Int, ret ≤ 0 →
          x.afterWaitpid ret = { x with phase := .rearming } := by
        intro ret hle
        rw [Proc.afterWaitpid, if_neg (by omega)]
      rw [hloop _ hret]
      exact .noneEnded hx hlife hp hnone hret
  | exit p =>
    simp only [step, Option.ite_none_left_eq_some] at h
    obtain ⟨hp, h⟩ := h
    obtain ⟨x, hx, rfl⟩ := Option.map_eq_some_iff.1 h
    obtain ⟨hx, hlife⟩ := running_eq_some.1 hx
    exact .exited hp hx hlife

end World

end BoostLearning.Fork
