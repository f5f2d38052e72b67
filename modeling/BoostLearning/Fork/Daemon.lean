import BoostLearning.Fork.Server
import BoostLearning.Framework.Descriptors

/-!
# Becoming a daemon

`main` of `daemon.cpp` forks twice, leaves its session and replaces the standard streams. Every
system call is a step of its process, and may fail where it can. The descriptors that the objects
of the library need besides the socket are a parameter.
-/

namespace BoostLearning.Fork

/-- What a descriptor stands for: something that the program or the library has opened, the socket
of the server, what `main` opens, and the socket that `syslog` opens at its first call. -/
inductive File where
  | opened (name : Nat)
  | socket
  | devNull
  | output
  | log
deriving DecidableEq

/-- The call that comes next; `closing` is followed by the other standard streams. -/
inductive Stage where
  | constructing
  | firstFork
  | setsid
  | chdir
  | umask
  | secondFork
  | parent
  | closing (fd : Nat)
  | openNull
  | openOutput
  | dup
  | starting
  | running
  | exited (status : Nat)
deriving DecidableEq

/-- A process with its group, its session, whether that has a controlling terminal, its working
directory, its mask and its descriptors. -/
structure DaemonProc where
  stage : Stage
  group : Pid
  session : Pid
  terminal : Bool
  cwd : String
  umask : Nat
  fds : Descriptors File
deriving DecidableEq

structure Daemon where
  procs : List DaemonProc
  syslog : List (Pid × String)
deriving DecidableEq

/-- The next call of a process succeeds or fails; `run` returns, or throws. -/
structure DaemonEvent where
  pid : Pid
  ok : Bool
deriving DecidableEq

namespace DaemonProc

abbrev Result := DaemonProc × Option DaemonProc × List String

def goto (x : DaemonProc) (stage : Stage) : Option Result :=
  some ({ x with stage := stage }, none, [])

def fail (x : DaemonProc) (status : Nat) (message : String) : Option Result :=
  some ({ x with stage := .exited status }, none, [message])

/-- The constructor of the server opens its socket, and the library its own files before and after
it. -/
def files (before after : List Nat) : List File :=
  before.map .opened ++ .socket :: after.map .opened

/-- One call; `setsid` fails in the leader of a group. -/
def step (before after : List Nat) (pid : Pid) (x : DaemonProc) (ok : Bool) : Option Result :=
  match x.stage with
  | .constructing =>
    if ok then { x with fds := x.fds.openAll (files before after) }.goto .firstFork
    else x.fail 0 "Exception: %s"
  | .firstFork =>
    if ok then some ({ x with stage := .parent }, some { x with stage := .setsid }, [])
    else x.fail 1 "First fork failed: %m"
  | .parent => x.goto (.exited 0)
  | .setsid =>
    if x.group = pid then x.goto .chdir
    else { x with group := pid, session := pid, terminal := false }.goto .chdir
  | .chdir => if ok then { x with cwd := "/" }.goto .umask else x.goto .umask
  | .umask => { x with umask := 0 }.goto .secondFork
  | .secondFork =>
    if ok then some ({ x with stage := .parent }, some { x with stage := .closing 0 }, [])
    else x.fail 1 "Second fork failed: %m"
  | .closing fd =>
    { x with fds := x.fds.close fd }.goto (if fd < 2 then .closing (fd + 1) else .openNull)
  | .openNull =>
    if ok then { x with fds := x.fds.openFile .devNull }.goto .openOutput
    else x.fail 1 "Unable to open /dev/null: %m"
  | .openOutput =>
    if ok then { x with fds := x.fds.openFile .output }.goto .dup
    else x.fail 1 "Uable to open output file %s: %m"
  | .dup =>
    match ok, x.fds.dup 1 with
    | true, some fds => { x with fds := fds }.goto .starting
    | _, _ => x.fail 1 "Unable to dup output descriptor: %m"
  | .starting =>
    -- `syslog` connects to the log, or cannot
    let fds := if ok then x.fds.openFile .log else x.fds
    some ({ x with stage := .running, fds := fds }, none, ["Daemon started"])
  | .running => if ok then x.fail 0 "Daemon stopped" else x.fail 0 "Exception: %s"
  | .exited _ => none

end DaemonProc

namespace Daemon

def step (before after : List Nat) (w : Daemon) (e : DaemonEvent) : Option Daemon :=
  w.procs[e.pid]?.bind fun x => (x.step before after e.pid e.ok).map fun (y, child, log) =>
    ⟨w.procs.set e.pid y ++ child.toList, w.syslog ++ log.map (e.pid, ·)⟩

end Daemon

/-- `daemon.cpp`, started as the first process `0` with some open files. -/
def daemon (fds : Descriptors File) (cwd : String) (umask : Nat) (before after : List Nat) :
    System Daemon DaemonEvent :=
  ⟨⟨[⟨.constructing, 0, 0, true, cwd, umask, fds⟩], []⟩, Daemon.step before after⟩

namespace DaemonProc

variable {fds base : Descriptors File} {before after : List Nat} {pid : Pid} {x y : DaemonProc}
  {ok : Bool} {child : Option DaemonProc} {log : List String}

/-! ## The standard streams -/

def closed (base : Descriptors File) : Descriptors File := ((base.close 0).close 1).close 2

/-- The descriptors before each call of the last process. -/
def fdsAt (base : Descriptors File) : Stage → Descriptors File
  | .closing 1 => base.close 0
  | .closing 2 => (base.close 0).close 1
  | .openNull => closed base
  | .openOutput => (closed base).openFile .devNull
  | .dup => ((closed base).openFile .devNull).openFile .output
  | .starting => (((closed base).openFile .devNull).openFile .output).openFile .output
  | _ => base

private theorem get_closed (fd : Nat) :
    (closed base).get fd = if fd < 3 then none else base.get fd := by
  simp only [closed, Descriptors.get_close]
  by_cases h : fd < 3
  · have hfd : fd = 0 ∨ fd = 1 ∨ fd = 2 := by omega
    rcases hfd with rfl | rfl | rfl <;> simp
  · have h0 : fd ≠ 0 := by omega
    have h1 : fd ≠ 1 := by omega
    have h2 : fd ≠ 2 := by omega
    simp [h, h0, h1, h2]

private theorem lowest_closed : (closed base).lowest = 0 :=
  Descriptors.lowest_eq (by simp [get_closed]) (by simp)

private theorem lowest_openNull : ((closed base).openFile .devNull).lowest = 1 := by
  apply Descriptors.lowest_eq
  · simp [get_closed, lowest_closed]
  · intro k hk
    obtain rfl : k = 0 := by omega
    simp [lowest_closed]

private theorem lowest_openOutput :
    (((closed base).openFile .devNull).openFile .output).lowest = 2 := by
  apply Descriptors.lowest_eq
  · simp [get_closed, lowest_closed, lowest_openNull]
  · intro k hk
    have hk : k = 0 ∨ k = 1 := by omega
    rcases hk with rfl | rfl <;> simp [lowest_closed, lowest_openNull]

private theorem get_output : (fdsAt base .dup).get 1 = some .output := by
  simp [fdsAt, lowest_openNull]

/-- No input, the log for the other two, and everything else as it was. -/
theorem get_starting (fd : Nat) : (fdsAt base .starting).get fd =
    if fd = 0 then some .devNull else if fd < 3 then some .output else base.get fd := by
  simp only [fdsAt, Descriptors.get_openFile, lowest_openOutput, lowest_openNull, lowest_closed,
    get_closed]
  by_cases h : fd < 3
  · have hfd : fd = 0 ∨ fd = 1 ∨ fd = 2 := by omega
    rcases hfd with rfl | rfl | rfl <;> simp
  · have h0 : fd ≠ 0 := by omega
    have h1 : fd ≠ 1 := by omega
    have h2 : fd ≠ 2 := by omega
    simp [h, h0, h1, h2]

/-- What `syslog` opens does not take the place of an open file. -/
private theorem get_running {fds : Descriptors File}
    (h : fds = fdsAt base .starting ∨ fds = (fdsAt base .starting).openFile .log) (fd : Nat) :
    fds.get fd = (fdsAt base .starting).get fd ∨
      (fdsAt base .starting).get fd = none ∧ fds.get fd = some .log := by
  rcases h with rfl | rfl
  · exact .inl rfl
  · by_cases hopen : (fdsAt base .starting).get fd = none
    · rw [Descriptors.get_openFile]
      split
      · exact .inr ⟨hopen, rfl⟩
      · exact .inl rfl
    · exact .inl (Descriptors.get_openFile_of_open hopen)

private theorem get_standard {fds : Descriptors File} {fd : Nat}
    (h : fds = fdsAt base .starting ∨ fds = (fdsAt base .starting).openFile .log) (hfd : fd < 3) :
    fds.get fd = if fd = 0 then some .devNull else some .output := by
  have hstart := @get_starting base fd
  rw [if_pos hfd] at hstart
  rcases get_running h fd with hsame | ⟨hnone, -⟩
  · exact hsame.trans hstart
  · rw [hstart] at hnone
    split at hnone <;> exact absurd hnone (by simp)

private theorem get_other {fds : Descriptors File} {fd : Nat}
    (h : fds = fdsAt base .starting ∨ fds = (fdsAt base .starting).openFile .log) (hfd : 3 ≤ fd) :
    fds.get fd = base.get fd ∨ base.get fd = none ∧ fds.get fd = some .log := by
  have hsame := get_running h fd
  rw [get_starting, if_neg (by omega), if_neg (by omega)] at hsame
  exact hsame

/-! ## The three processes -/

def Gone (x : DaemonProc) : Prop := x.stage = .parent ∨ x.stage = .exited 0

/-- In a session of its own, or that of its parent, without a terminal. -/
structure Detached (x : DaemonProc) : Prop where
  group : x.group = 1
  session : x.session = 1
  terminal : x.terminal = false

inductive First (fds base : Descriptors File) (x : DaemonProc) : Prop
  | constructing (h : x.stage = .constructing) (hgroup : x.group = 0) (hfds : x.fds = fds)
  | firstFork (h : x.stage = .firstFork) (hgroup : x.group = 0) (hfds : x.fds = base)
  | exited (status : Nat) (h : x.stage = .exited status)

inductive Second (base : Descriptors File) (x : DaemonProc) : Prop
  | setsid (h : x.stage = .setsid) (hgroup : x.group = 0) (hfds : x.fds = base)
  | chdir (h : x.stage = .chdir) (hx : x.Detached) (hfds : x.fds = base)
  | umask (h : x.stage = .umask) (hx : x.Detached) (hfds : x.fds = base)
  | secondFork (h : x.stage = .secondFork) (hx : x.Detached) (hmask : x.umask = 0)
      (hfds : x.fds = base)
  | exited (status : Nat) (h : x.stage = .exited status)

inductive Stage.Last : Stage → Prop
  | closing {fd : Nat} (h : fd < 3) : Stage.Last (.closing fd)
  | openNull : Stage.Last .openNull
  | openOutput : Stage.Last .openOutput
  | dup : Stage.Last .dup
  | starting : Stage.Last .starting

inductive Third (base : Descriptors File) (x : DaemonProc) : Prop
  | stage (h : Stage.Last x.stage) (hx : x.Detached) (hmask : x.umask = 0)
      (hfds : x.fds = fdsAt base x.stage)
  | running (h : x.stage = .running) (hx : x.Detached) (hmask : x.umask = 0)
      (hfds : x.fds = fdsAt base .starting ∨ x.fds = (fdsAt base .starting).openFile .log)
  | exited (status : Nat) (h : x.stage = .exited status)

theorem Gone.step (hx : x.Gone) (h : x.step before after pid ok = some (y, child, log)) :
    y.Gone ∧ child = none := by
  rcases hx with hx | hx
  · simp only [DaemonProc.step, hx, goto, Option.some.injEq, Prod.mk.injEq] at h
    obtain ⟨rfl, rfl, -⟩ := h
    exact ⟨.inr rfl, rfl⟩
  · simp [DaemonProc.step, hx] at h

theorem First.step (hx : First fds (fds.openAll (files before after)) x)
    (h : x.step before after 0 ok = some (y, child, log)) :
    (First fds (fds.openAll (files before after)) y ∧ child = none) ∨
      y.Gone ∧ ∃ z, child = some z ∧ Second (fds.openAll (files before after)) z := by
  cases hx with
  | constructing hx hgroup hfds =>
    cases ok <;> simp only [DaemonProc.step, hx, goto, fail, Bool.false_eq_true, if_false, if_true,
      Option.some.injEq, Prod.mk.injEq] at h <;> obtain ⟨rfl, rfl, -⟩ := h
    · exact .inl ⟨.exited 0 rfl, rfl⟩
    · exact .inl ⟨.firstFork rfl hgroup (by rw [hfds]), rfl⟩
  | firstFork hx hgroup hfds =>
    cases ok <;> simp only [DaemonProc.step, hx, fail, Bool.false_eq_true, if_false, if_true,
      Option.some.injEq, Prod.mk.injEq] at h <;> obtain ⟨rfl, rfl, -⟩ := h
    · exact .inl ⟨.exited 1 rfl, rfl⟩
    · exact .inr ⟨.inl rfl, _, rfl, .setsid rfl hgroup hfds⟩
  | exited status hx => simp [DaemonProc.step, hx] at h

theorem Second.step (hx : Second base x) (h : x.step before after 1 ok = some (y, child, log)) :
    (Second base y ∧ child = none) ∨ y.Gone ∧ ∃ z, child = some z ∧ Third base z := by
  cases hx with
  | setsid hx hgroup hfds =>
    simp only [DaemonProc.step, hx, hgroup, goto, Nat.zero_ne_one, if_false, Option.some.injEq,
      Prod.mk.injEq] at h
    obtain ⟨rfl, rfl, -⟩ := h
    exact .inl ⟨.chdir rfl ⟨rfl, rfl, rfl⟩ hfds, rfl⟩
  | chdir hx hdetached hfds =>
    cases ok <;> simp only [DaemonProc.step, hx, goto, Bool.false_eq_true, if_false, if_true,
      Option.some.injEq, Prod.mk.injEq] at h <;> obtain ⟨rfl, rfl, -⟩ := h
    · exact .inl ⟨.umask rfl ⟨hdetached.1, hdetached.2, hdetached.3⟩ hfds, rfl⟩
    · exact .inl ⟨.umask rfl ⟨hdetached.1, hdetached.2, hdetached.3⟩ hfds, rfl⟩
  | umask hx hdetached hfds =>
    simp only [DaemonProc.step, hx, goto, Option.some.injEq, Prod.mk.injEq] at h
    obtain ⟨rfl, rfl, -⟩ := h
    exact .inl ⟨.secondFork rfl ⟨hdetached.1, hdetached.2, hdetached.3⟩ rfl hfds, rfl⟩
  | secondFork hx hdetached hmask hfds =>
    cases ok <;> simp only [DaemonProc.step, hx, fail, Bool.false_eq_true, if_false, if_true,
      Option.some.injEq, Prod.mk.injEq] at h <;> obtain ⟨rfl, rfl, -⟩ := h
    · exact .inl ⟨.exited 1 rfl, rfl⟩
    · exact .inr ⟨.inl rfl, _, rfl, .stage (.closing (by decide))
        ⟨hdetached.1, hdetached.2, hdetached.3⟩ hmask hfds⟩
  | exited status hx => simp [DaemonProc.step, hx] at h

theorem Third.step (hx : Third base x) (h : x.step before after pid ok = some (y, child, log)) :
    Third base y ∧ child = none := by
  cases hx with
  | exited status hx => simp [DaemonProc.step, hx] at h
  | running hx hdetached hmask hfds =>
    cases ok <;> simp only [DaemonProc.step, hx, fail, Bool.false_eq_true, if_false, if_true,
      Option.some.injEq, Prod.mk.injEq] at h <;> obtain ⟨rfl, rfl, -⟩ := h
    · exact ⟨.exited 0 rfl, rfl⟩
    · exact ⟨.exited 0 rfl, rfl⟩
  | stage hlast hdetached hmask hfds =>
    have hgoes : ∀ (stage : Stage) (fds : Descriptors File), Stage.Last stage →
        fds = fdsAt base stage → Third base { x with stage := stage, fds := fds } := by
      intro stage fds hlast hfds
      exact .stage hlast ⟨hdetached.1, hdetached.2, hdetached.3⟩ hmask hfds
    generalize hstage : x.stage = stage at hlast
    rw [hstage] at hfds
    cases hlast with
    | @closing fd hlt =>
      simp only [DaemonProc.step, hstage, goto, Option.some.injEq, Prod.mk.injEq] at h
      obtain ⟨rfl, rfl, -⟩ := h
      refine ⟨?_, rfl⟩
      have hfd : fd = 0 ∨ fd = 1 ∨ fd = 2 := by omega
      rcases hfd with rfl | rfl | rfl
      · exact hgoes _ _ (.closing (by decide)) (by rw [hfds]; rfl)
      · exact hgoes _ _ (.closing (by decide)) (by rw [hfds]; rfl)
      · exact hgoes _ _ .openNull (by rw [hfds]; rfl)
    | openNull =>
      cases ok <;> simp only [DaemonProc.step, hstage, goto, fail, Bool.false_eq_true, if_false,
        if_true, Option.some.injEq, Prod.mk.injEq] at h <;> obtain ⟨rfl, rfl, -⟩ := h
      · exact ⟨.exited 1 rfl, rfl⟩
      · exact ⟨hgoes _ _ .openOutput (by rw [hfds]; rfl), rfl⟩
    | openOutput =>
      cases ok <;> simp only [DaemonProc.step, hstage, goto, fail, Bool.false_eq_true, if_false,
        if_true, Option.some.injEq, Prod.mk.injEq] at h <;> obtain ⟨rfl, rfl, -⟩ := h
      · exact ⟨.exited 1 rfl, rfl⟩
      · exact ⟨hgoes _ _ .dup (by rw [hfds]; rfl), rfl⟩
    | dup =>
      have hdup : x.fds.dup 1 = some (fdsAt base .starting) := by
        rw [hfds, Descriptors.dup, get_output]
        rfl
      cases ok <;> simp only [DaemonProc.step, hstage, hdup, goto, fail, Option.some.injEq,
        Prod.mk.injEq] at h <;> obtain ⟨rfl, rfl, -⟩ := h
      · exact ⟨.exited 1 rfl, rfl⟩
      · exact ⟨hgoes _ _ .starting rfl, rfl⟩
    | starting =>
      simp only [DaemonProc.step, hstage, Option.some.injEq, Prod.mk.injEq] at h
      obtain ⟨rfl, rfl, -⟩ := h
      refine ⟨.running rfl ⟨hdetached.1, hdetached.2, hdetached.3⟩ hmask ?_, rfl⟩
      cases ok
      · exact .inl hfds
      · exact .inr (by rw [hfds]; rfl)

private theorem get_lowest_files (fds : Descriptors File) (before after : List Nat) :
    ∃ f, f ≠ .devNull ∧ f ≠ .output ∧
      (fds.openAll (files before after)).get fds.lowest = some f := by
  obtain ⟨f, rest, hfiles, hnull, houtput⟩ : ∃ f rest, files before after = f :: rest ∧
      f ≠ .devNull ∧ f ≠ .output := by
    cases before with
    | nil => exact ⟨_, _, rfl, by simp, by simp⟩
    | cons name before => exact ⟨_, _, rfl, by simp, by simp⟩
  refine ⟨f, hnull, houtput, ?_⟩
  have hopen : (fds.openFile f).get fds.lowest = some f := by simp
  have hne : (fds.openFile f).get fds.lowest ≠ none := by simp
  rw [hfiles]
  exact (Descriptors.get_openAll_of_open hne).trans hopen

end DaemonProc

namespace Daemon

variable {fds : Descriptors File} {cwd : String} {umask : Nat} {before after : List Nat}
  {w w' : Daemon}

/-- As many processes as there were forks, all but the last of which only exit. -/
inductive Inv (fds base : Descriptors File) : Daemon → Prop
  | one {x : DaemonProc} {log : List (Pid × String)} (hx : x.First fds base) :
      Inv fds base ⟨[x], log⟩
  | two {x y : DaemonProc} {log : List (Pid × String)} (hx : x.Gone) (hy : y.Second base) :
      Inv fds base ⟨[x, y], log⟩
  | three {x y z : DaemonProc} {log : List (Pid × String)} (hx : x.Gone) (hy : y.Gone)
      (hz : z.Third base) : Inv fds base ⟨[x, y, z], log⟩

theorem Inv.step (h : Inv fds (fds.openAll (DaemonProc.files before after)) w) {e : DaemonEvent}
    (he : w.step before after e = some w') :
    Inv fds (fds.openAll (DaemonProc.files before after)) w' := by
  obtain ⟨pid, ok⟩ := e
  obtain ⟨x, hx, he⟩ := Option.bind_eq_some_iff.1 he
  obtain ⟨⟨x', child, log⟩, hstep, rfl⟩ := Option.map_eq_some_iff.1 he
  cases h with
  | one hfirst =>
    match pid, hx with
    | 0, hx =>
      obtain rfl := Option.some.inj hx
      rcases hfirst.step hstep with ⟨hx', rfl⟩ | ⟨hx', z, rfl, hz⟩
      · exact .one hx'
      · exact .two hx' hz
    | pid + 1, hx => exact absurd hx (by simp)
  | two hgone hsecond =>
    match pid, hx with
    | 0, hx =>
      obtain rfl := Option.some.inj hx
      obtain ⟨hx', rfl⟩ := hgone.step hstep
      exact .two hx' hsecond
    | 1, hx =>
      obtain rfl := Option.some.inj hx
      rcases hsecond.step hstep with ⟨hx', rfl⟩ | ⟨hx', z, rfl, hz⟩
      · exact .two hgone hx'
      · exact .three hgone hx' hz
    | pid + 2, hx => exact absurd hx (by simp)
  | three hgone hgone' hthird =>
    match pid, hx with
    | 0, hx =>
      obtain rfl := Option.some.inj hx
      obtain ⟨hx', rfl⟩ := hgone.step hstep
      exact .three hx' hgone' hthird
    | 1, hx =>
      obtain rfl := Option.some.inj hx
      obtain ⟨hx', rfl⟩ := hgone'.step hstep
      exact .three hgone hx' hthird
    | 2, hx =>
      obtain rfl := Option.some.inj hx
      obtain ⟨hx', rfl⟩ := hthird.step hstep
      exact .three hgone hgone' hx'
    | pid + 3, hx => exact absurd hx (by simp)

theorem inv_reachable (h : (daemon fds cwd umask before after).Reachable w) :
    Inv fds (fds.openAll (DaemonProc.files before after)) w := by
  have hinit : Inv fds (fds.openAll (DaemonProc.files before after))
      (daemon fds cwd umask before after).init := .one (.constructing rfl rfl rfl)
  exact System.reachable_induction hinit (fun _ _ _ _ hw he => hw.step he) h

/-- Only the third process runs the server. -/
private theorem Inv.running {base : Descriptors File} (h : Inv fds base w) {p : Pid}
    {x : DaemonProc}
    (hx : w.procs[p]? = some x) (hrun : x.stage = .running) :
    p = 2 ∧ x.Third base ∧ ∀ q y, w.procs[q]? = some y → q ≠ p → y.Gone := by
  have hgone : ¬ x.Gone := by
    rintro (h | h) <;> exact absurd (hrun.symm.trans h) (by simp)
  cases h with
  | one hfirst =>
    match p, hx with
    | 0, hx =>
      obtain rfl := Option.some.inj hx
      cases hfirst <;> simp_all
    | p + 1, hx => exact absurd hx (by simp)
  | two hx' hsecond =>
    match p, hx with
    | 0, hx =>
      obtain rfl := Option.some.inj hx
      exact absurd hx' hgone
    | 1, hx =>
      obtain rfl := Option.some.inj hx
      cases hsecond <;> simp_all
    | p + 2, hx => exact absurd hx (by simp)
  | three hx' hy' hthird =>
    match p, hx with
    | 0, hx =>
      obtain rfl := Option.some.inj hx
      exact absurd hx' hgone
    | 1, hx =>
      obtain rfl := Option.some.inj hx
      exact absurd hy' hgone
    | 2, hx =>
      obtain rfl := Option.some.inj hx
      refine ⟨rfl, hthird, ?_⟩
      intro q y hy hq
      match q, hy with
      | 0, hy => exact Option.some.inj hy ▸ hx'
      | 1, hy => exact Option.some.inj hy ▸ hy'
      | 2, hy => exact absurd rfl hq
      | q + 3, hy => exact absurd hy (by simp)
    | p + 3, hx => exact absurd hx (by simp)

end Daemon

/-- Started from a shell, with the descriptors of the reactor and of the signals. -/
def fromShell : System Daemon DaemonEvent :=
  daemon ⟨[some (.opened 0), some (.opened 1), some (.opened 2)]⟩ "/root" 18 [3, 4, 5] [6, 7]

def everyCall : List DaemonEvent :=
  List.replicate 2 ⟨0, true⟩ ++ List.replicate 4 ⟨1, true⟩ ++ List.replicate 7 ⟨2, true⟩

end BoostLearning.Fork
