import BoostLearning.Fork.Server

/-!
# Parent and child

All processes run the same handlers; what tells them apart is the acceptor. The first process is
followed through the phases of its handlers, and every other one from the copy that `fork` left
of it: a copy made inside the accept handler has no accept outstanding.
-/

namespace BoostLearning.Fork

namespace Act

@[simp]
def serves : Act → Bool
  | .asyncWait => true
  | .asyncAccept => true
  | .accepted _ => true
  | .forked _ _ => true
  | .waitpid _ => true
  | _ => false

@[simp]
def echoes (c : Conn) : Act → Bool
  | .asyncRead d => d = some c
  | .received d _ => d = c
  | .asyncWrite d _ => d = some c
  | .wrote d _ => d = c
  | _ => false

theorem eq_of_echoes {act : Act} {c d : Conn} (hc : act.echoes c = true)
    (hd : act.echoes d = true) : c = d := by
  cases act <;> simp_all

theorem serves_of_echoes {act : Act} {c : Conn} (hc : act.echoes c = true) :
    act.serves = false := by
  cases act <;> simp_all

end Act

namespace Proc

def pending (x : Proc) : Option Conn := if x.phase = .forking then x.socket else none

/-- What holds of the first process at each place of its handlers. -/
structure Original (x : Proc) : Prop where
  life : x.life = .running
  acceptorOpen : x.acceptorOpen = true
  reads : x.reads = []
  writes : x.writes = []
  phase : x.phase ≠ .child
  accepts : x.accepts = if x.phase = .forking ∨ x.phase = .parent then 0 else 1
  waits : x.waits.length = if x.phase = .reaping ∨ x.phase = .rearming then 0 else 1
  socket : x.socket.isSome = decide (x.phase = .forking ∨ x.phase = .parent)

/-- What holds of a process that was forked for connection `c`. -/
structure Child (x : Proc) (c : Conn) : Prop where
  phase : x.phase = .child ∨ x.phase = .idle ∧ x.acceptorOpen = false
  accepts : x.accepts = 0
  waits : x.waits.length ≤ 1
  socket : x.socket = some c
  reads : ∀ d ∈ x.reads, d = some c
  writes : ∀ op ∈ x.writes, op.conn = some c

theorem deliverSignal_eq (x : Proc) :
    ∃ n ws, x.deliverSignal = { x with undelivered := n, waits := ws } ∧
      ws.length = x.waits.length := by
  unfold deliverSignal
  split
  · exact ⟨_, _, rfl, List.length_map _⟩
  · exact ⟨_, _, rfl, rfl⟩

theorem waitForSignal_eq (x : Proc) :
    ∃ n wait, x.waitForSignal.1 = { x with undelivered := n, waits := x.waits ++ [wait] } := by
  unfold waitForSignal
  split <;> exact ⟨_, _, rfl⟩

variable {x y : Proc} {c : Conn} {a : Action} {acts : List Act}

theorem Original.signalled (hx : x.Original) {m n : Nat} {ws : List Wait}
    (hlen : ws.length = x.waits.length) :
    ({ x with signals := m, undelivered := n, waits := ws } : Proc).Original :=
  ⟨hx.life, hx.acceptorOpen, hx.reads, hx.writes, hx.phase, hx.accepts, hlen.trans hx.waits,
    hx.socket⟩

theorem Original.move (hx : x.Original) {p : Phase} (hp : p ≠ .child)
    (haccept : (p = .forking ∨ p = .parent) = (x.phase = .forking ∨ x.phase = .parent))
    (hwait : (p = .reaping ∨ p = .rearming) = (x.phase = .reaping ∨ x.phase = .rearming)) :
    ({ x with phase := p } : Proc).Original := by
  refine ⟨hx.life, hx.acceptorOpen, hx.reads, hx.writes, hp, ?_, ?_, ?_⟩
  · simp only [haccept]
    exact hx.accepts
  · simp only [hwait]
    exact hx.waits
  · simp only [haccept]
    exact hx.socket

theorem Original.pending_eq (hx : x.Original) (hp : x.phase = .forking) :
    ∃ c, x.socket = some c ∧ x.pending = some c := by
  have hsocket := hx.socket
  simp only [hp, true_or, decide_true] at hsocket
  obtain ⟨c, hc⟩ := Option.isSome_iff_exists.1 hsocket
  exact ⟨c, hc, by rw [pending, if_pos hp, hc]⟩

theorem Original.copy (hx : x.Original) (hp : x.phase = .forking) (hc : x.socket = some c)
    (p : Pid) : ({ x with phase := .child, parent := some p, signals := 0 } : Proc).Child c := by
  have haccepts := hx.accepts
  have hwaits := hx.waits
  simp only [hp] at haccepts hwaits
  exact ⟨.inl rfl, haccepts, Nat.le_of_eq hwaits, hc, by simp [hx.reads], by simp [hx.writes]⟩

theorem Child.signalled (hx : x.Child c) {l : Life} {m n : Nat} {ws : List Wait}
    (hlen : ws.length ≤ x.waits.length) :
    ({ x with life := l, signals := m, undelivered := n, waits := ws } : Proc).Child c :=
  ⟨hx.phase, hx.accepts, Nat.le_trans hlen hx.waits, hx.socket, hx.reads, hx.writes⟩

/-- No handler of the first process is cut short, and none touches a connection. -/
theorem Original.handled (hx : x.Original) (h : Handled x a y acts) :
    y.Original ∧ y.pending = x.pending ∧ ∀ act ∈ acts, act.serves = true := by
  have hreads := hx.reads
  have hwrites := hx.writes
  have haccepts := hx.accepts
  have hwaits := hx.waits
  have hsocket := hx.socket
  cases h with
  | raise => exact ⟨hx.signalled rfl, rfl, by simp⟩
  | merge h => exact ⟨hx.signalled rfl, rfl, by simp⟩
  | deliver h =>
    obtain ⟨n, ws, heq, hlen⟩ := deliverSignal_eq { x with signals := x.signals - 1 }
    rw [heq]
    exact ⟨hx.signalled hlen, rfl, by simp⟩
  | acceptFailed hp h => exact ⟨hx, rfl, by simp⟩
  | resumeParent hp =>
    simp only [hp] at haccepts hwaits
    refine ⟨⟨hx.life, hx.acceptorOpen, hreads, hwrites, ?_, ?_, hwaits, ?_⟩, ?_, ?_⟩
    · simp
    · simp [haccepts]
    · simp
    · simp [pending, hp]
    · simp
  | resumeChild hp => exact absurd hp hx.phase
  | @reap i ec hp h hopen =>
    have hi := (List.getElem?_eq_some_iff.1 h).1
    simp only [hp] at haccepts hwaits hsocket
    refine ⟨⟨hx.life, hopen, hreads, hwrites, ?_, haccepts, ?_, hsocket⟩, ?_, ?_⟩
    · simp
    · simp [List.length_eraseIdx_of_lt hi, hwaits]
    · simp [pending, hp]
    · simp
  | ignore hp h hclosed =>
    rw [hx.acceptorOpen] at hclosed
    exact absurd hclosed (by simp)
  | rearm hp =>
    obtain ⟨n, wait, heq⟩ := waitForSignal_eq { x with phase := .idle }
    rw [heq]
    simp only [hp] at haccepts hwaits hsocket
    refine ⟨⟨hx.life, hx.acceptorOpen, hreads, hwrites, ?_, haccepts, ?_, hsocket⟩, ?_, ?_⟩
    · simp
    · simpa using hwaits
    · simp [pending, hp]
    · simp
  | received hp h hpos hle =>
    rw [hreads] at h
    exact absurd h (by simp)
  | readFailed hp h =>
    rw [hreads] at h
    exact absurd h (by simp)
  | transmit hp h hpos hle =>
    rw [hwrites] at h
    exact absurd h (by simp)
  | written hp h hsent =>
    rw [hwrites] at h
    exact absurd h (by simp)
  | writeFailed hp h =>
    rw [hwrites] at h
    exact absurd h (by simp)

/-- A handler of a child stays with its connection, and the first one reads from it. -/
theorem Child.handled (hx : x.Child c) (h : Handled x a y acts) :
    y.Child c ∧ (∀ act ∈ acts, act.echoes c = true) ∧
      (y.phase = .idle → x.phase = .idle ∨ .asyncRead (some c) ∈ acts) := by
  have hnot : x.phase ≠ .parent ∧ x.phase ≠ .rearming := by
    cases hx.phase with
    | inl hp => simp [hp]
    | inr hp => simp [hp.1]
  have hclosed : x.phase = .idle → x.acceptorOpen = false := by
    intro hp
    cases hx.phase with
    | inl hp' => exact absurd (hp.symm.trans hp') (by simp)
    | inr hp' => exact hp'.2
  have hread : ∀ d ∈ x.reads ++ [x.socket], d = some c := by
    intro d hd
    cases List.mem_append.1 hd with
    | inl hd => exact hx.reads d hd
    | inr hd => exact (List.mem_singleton.1 hd).trans hx.socket
  have hsocket := hx.socket
  cases h with
  | raise => exact ⟨hx.signalled (Nat.le_refl _), by simp, Or.inl⟩
  | merge h => exact ⟨hx.signalled (Nat.le_refl _), by simp, Or.inl⟩
  | deliver h =>
    obtain ⟨n, ws, heq, hlen⟩ := deliverSignal_eq { x with signals := x.signals - 1 }
    rw [heq]
    exact ⟨hx.signalled (Nat.le_of_eq hlen), by simp, Or.inl⟩
  | acceptFailed hp h =>
    rw [hx.accepts] at h
    exact absurd h (by simp)
  | resumeParent hp => exact absurd hp hnot.1
  | resumeChild hp =>
    refine ⟨⟨.inr ⟨rfl, rfl⟩, hx.accepts, ?_, hx.socket, hread, hx.writes⟩, ?_, ?_⟩
    · simpa using hx.waits
    · simp [hsocket]
    · simp [hsocket]
  | reap hp h hopen =>
    rw [hclosed hp] at hopen
    exact absurd hopen (by simp)
  | ignore hp h _ =>
    exact ⟨hx.signalled (List.eraseIdx_sublist _ _).length_le, by simp, Or.inl⟩
  | rearm hp => exact absurd hp hnot.2
  | @received i bytes d hp h hpos hle =>
    have hd : d = c := by simpa using hx.reads _ (List.mem_of_getElem? h)
    refine ⟨⟨hx.phase, hx.accepts, hx.waits, hx.socket, ?_, ?_⟩, ?_, Or.inl⟩
    · intro d' hd'
      exact hx.reads d' ((List.eraseIdx_sublist _ _).mem hd')
    · intro op hop
      cases List.mem_append.1 hop with
      | inl hop => exact hx.writes op hop
      | inr hop => rw [List.mem_singleton.1 hop, hx.socket]
    · simp [hd, hsocket]
  | readFailed hp h =>
    refine ⟨⟨hx.phase, hx.accepts, hx.waits, hx.socket, ?_, hx.writes⟩, by simp, Or.inl⟩
    intro d hd
    exact hx.reads d ((List.eraseIdx_sublist _ _).mem hd)
  | @transmit i n size sent d hp h hpos hle =>
    have hd : some d = some c := hx.writes _ (List.mem_of_getElem? h)
    refine ⟨⟨hx.phase, hx.accepts, hx.waits, hx.socket, hx.reads, ?_⟩, ?_, Or.inl⟩
    · intro op hop
      cases List.mem_or_eq_of_mem_set hop with
      | inl hop => exact hx.writes op hop
      | inr hop => rw [hop, hd]
    · simpa using hd
  | written hp h hsent =>
    refine ⟨⟨hx.phase, hx.accepts, hx.waits, hx.socket, hread, ?_⟩, by simp [hsocket], Or.inl⟩
    intro op hop
    exact hx.writes op ((List.eraseIdx_sublist _ _).mem hop)
  | writeFailed hp h =>
    refine ⟨⟨hx.phase, hx.accepts, hx.waits, hx.socket, hx.reads, ?_⟩, by simp, Or.inl⟩
    intro op hop
    exact hx.writes op ((List.eraseIdx_sublist _ _).mem hop)

end Proc

end BoostLearning.Fork
