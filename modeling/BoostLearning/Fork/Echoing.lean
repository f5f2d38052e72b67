import BoostLearning.Allocation.Session
import BoostLearning.Fork.Reaping
import BoostLearning.Framework.Echo

/-!
# A child echoes its connection

The child that `fork` left reads from its connection and writes back what it reads. It is followed
in the table of all processes by what it has outstanding and by what has been seen of it. The
session with its own handler storage runs the same loop over one array.
-/

namespace BoostLearning.Fork

def Act.receivedBytes : Act → List UInt8
  | .received _ bytes => bytes
  | _ => []

def Act.wroteBytes : Act → List UInt8
  | .wrote _ bytes => bytes
  | _ => []

def receivedBy (q : Pid) (tr : List Obs) : List UInt8 :=
  tr.flatMap fun o => if o.pid = q then o.act.receivedBytes else []

def wroteBy (q : Pid) (tr : List Obs) : List UInt8 :=
  tr.flatMap fun o => if o.pid = q then o.act.wroteBytes else []

namespace Proc

/-- Where a child stands in its echo loop. -/
def echoStage (x : Proc) : EchoStage UInt8 :=
  if x.phase = .child then .fresh
  else match x.reads, x.writes with
    | _ :: _, _ => .reading
    | [], op :: _ => .writing (x.data.elems.take op.size) op.sent
    | [], [] => .stopped

/-- At most one operation on the connection, and none before the first read. -/
structure OneOp (x : Proc) : Prop where
  fresh : x.phase = .child → x.reads = [] ∧ x.writes = []
  one : x.reads.length + x.writes.length ≤ 1
  sizes : ∀ op ∈ x.writes, op.size ≤ 1024

/-- A step that has nothing to do with the connection. -/
structure SameEcho (x y : Proc) : Prop where
  phase : y.phase = .child ↔ x.phase = .child
  data : y.data = x.data
  reads : y.reads = x.reads
  writes : y.writes = x.writes

variable {x y : Proc} {c : Conn} {a : Action} {acts : List Act}

private theorem SameEcho.oneOp (h : SameEcho x y) (hx : x.OneOp) : y.OneOp := by
  constructor
  case fresh =>
    rw [h.phase, h.reads, h.writes]
    exact hx.fresh
  case one =>
    rw [h.reads, h.writes]
    exact hx.one
  case sizes =>
    rw [h.writes]
    exact hx.sizes

private theorem SameEcho.echoStage (h : SameEcho x y) : y.echoStage = x.echoStage := by
  unfold Proc.echoStage
  simp only [h.phase, h.data, h.reads, h.writes]

private theorem OneOp.reads_eq (hx : x.OneOp) {i : Nat} {d : Option Conn}
    (h : x.reads[i]? = some d) :
    x.reads = [d] ∧ x.reads.eraseIdx i = [] ∧ x.writes = [] := by
  have hone := hx.one
  obtain ⟨rfl, hreads⟩ := eq_singleton_of_getElem? (by omega) h
  refine ⟨hreads, by rw [hreads, List.eraseIdx_cons_zero], List.eq_nil_of_length_eq_zero ?_⟩
  rw [hreads, List.length_singleton] at hone
  omega

private theorem OneOp.writes_eq (hx : x.OneOp) {i : Nat} {op : Echo} (h : x.writes[i]? = some op) :
    x.writes = [op] ∧ x.writes.eraseIdx i = [] ∧ x.reads = [] := by
  have hone := hx.one
  obtain ⟨rfl, hwrites⟩ := eq_singleton_of_getElem? (by omega) h
  refine ⟨hwrites, by rw [hwrites, List.eraseIdx_cons_zero], List.eq_nil_of_length_eq_zero ?_⟩
  rw [hwrites, List.length_singleton] at hone
  omega

/-- From `x` to `y`, an echo loop can do what is seen. -/
def EchoesTo (x y : Proc) (acts : List Act) : Prop :=
  y.OneOp ∧ ∀ r v, ∃ ds, (echoLoop UInt8).exec ⟨x.echoStage, r, v⟩ ds =
    some ⟨y.echoStage, r ++ acts.flatMap Act.receivedBytes, v ++ acts.flatMap Act.wroteBytes⟩

private theorem SameEcho.echoesTo (h : SameEcho x y) (hx : x.OneOp)
    (hreceived : acts.flatMap Act.receivedBytes = []) (hwrote : acts.flatMap Act.wroteBytes = []) :
    EchoesTo x y acts := by
  refine ⟨h.oneOp hx, fun r v => ⟨[], ?_⟩⟩
  rw [h.echoStage, hreceived, hwrote, List.append_nil, List.append_nil]
  rfl

private theorem echoStage_reading {d : Option Conn} (hp : x.phase = .idle) (hr : x.reads = [d]) :
    x.echoStage = .reading := by
  simp [echoStage, hp, hr]

private theorem echoStage_writing {op : Echo} (hp : x.phase = .idle) (hr : x.reads = [])
    (hw : x.writes = [op]) :
    x.echoStage = .writing (x.data.elems.take op.size) op.sent := by
  simp [echoStage, hp, hr, hw]

private theorem echoStage_stopped (hp : x.phase = .idle) (hr : x.reads = []) (hw : x.writes = []) :
    x.echoStage = .stopped := by
  simp [echoStage, hp, hr, hw]

private theorem echoesTo_of_step {s t : EchoStage UInt8} (d : EchoEvent UInt8) (hy : y.OneOp)
    (hx : x.echoStage = s) (hyt : y.echoStage = t)
    (hstep : ∀ r v, EchoLoop.step ⟨s, r, v⟩ d = some ⟨t,
      r ++ acts.flatMap Act.receivedBytes, v ++ acts.flatMap Act.wroteBytes⟩) :
    EchoesTo x y acts := by
  refine ⟨hy, fun r v => ⟨[d], ?_⟩⟩
  rw [hx, hyt]
  exact (System.exec_cons_some _).2 ⟨_, hstep r v, rfl⟩

/-- The handlers of a child are steps of an echo loop. -/
private theorem OneOp.handled (hx : x.OneOp) (h : Handled x a y acts) : EchoesTo x y acts := by
  cases h with
  | raise => exact SameEcho.echoesTo ⟨Iff.rfl, rfl, rfl, rfl⟩ hx rfl rfl
  | merge hlt => exact SameEcho.echoesTo ⟨Iff.rfl, rfl, rfl, rfl⟩ hx rfl rfl
  | deliver hpos =>
    obtain ⟨n, ws, heq, -⟩ := deliverSignal_eq { x with signals := x.signals - 1 }
    rw [heq]
    exact SameEcho.echoesTo ⟨Iff.rfl, rfl, rfl, rfl⟩ hx rfl rfl
  | acceptFailed hp hpos => exact SameEcho.echoesTo ⟨Iff.rfl, rfl, rfl, rfl⟩ hx rfl rfl
  | resumeParent hp => exact SameEcho.echoesTo ⟨by simp [hp], rfl, rfl, rfl⟩ hx rfl rfl
  | resumeChild hp =>
    obtain ⟨hreads, hwrites⟩ := hx.fresh hp
    refine echoesTo_of_step .start ⟨by simp, by simp [hreads, hwrites], by simp [hwrites]⟩
      (s := .fresh) (by simp [echoStage, hp]) (echoStage_reading (d := x.socket) rfl ?_) ?_
    · simp [hreads]
    intro r v
    simp [EchoLoop.step, Act.receivedBytes, Act.wroteBytes]
  | reap hp hwait hopen => exact SameEcho.echoesTo ⟨by simp [hp], rfl, rfl, rfl⟩ hx rfl rfl
  | ignore hp hwait hclosed => exact SameEcho.echoesTo ⟨Iff.rfl, rfl, rfl, rfl⟩ hx rfl rfl
  | rearm hp =>
    obtain ⟨n, wait, heq⟩ := waitForSignal_eq { x with phase := .idle }
    rw [heq]
    exact SameEcho.echoesTo ⟨by simp [hp], rfl, rfl, rfl⟩ hx rfl rfl
  | @received i bytes d hp h hpos hle =>
    obtain ⟨hreads, hnone, hwrites⟩ := hx.reads_eq h
    have hchunk : (x.data.store 0 bytes).elems.take bytes.length = bytes := by
      simpa using x.data.take_store 0 bytes (by omega)
    refine echoesTo_of_step (.receive bytes)
      ⟨by simp [hp], by simp [hnone, hwrites], by simp [hwrites, hle]⟩
      (echoStage_reading hp hreads) (echoStage_writing hp hnone (by rw [hwrites]; rfl)) ?_
    intro r v
    simp [EchoLoop.step, hchunk, Act.receivedBytes, Act.wroteBytes]
  | readFailed hp hlt =>
    obtain ⟨hreads, hnone, hwrites⟩ := hx.reads_eq (List.getElem?_eq_getElem hlt)
    refine echoesTo_of_step .stop ⟨by simp [hp], by simp [hnone, hwrites], by simp [hwrites]⟩
      rfl (echoStage_stopped hp hnone hwrites) ?_
    intro r v
    simp [EchoLoop.step]
  | @transmit i n size sent d hp h hpos hle =>
    obtain ⟨hwrites, -, hreads⟩ := hx.writes_eq h
    have hsize : size ≤ 1024 := hx.sizes _ (List.mem_of_getElem? h)
    have hi : i = 0 := by
      have := (List.getElem?_eq_some_iff.1 h).1
      rw [hwrites, List.length_singleton] at this
      omega
    have hset : x.writes.set i ⟨some d, size, sent + n⟩ = [⟨some d, size, sent + n⟩] := by
      rw [hwrites, hi]
      rfl
    refine echoesTo_of_step (.transmit n)
      ⟨by simp [hp], by simp [hset, hreads], by simp [hset, hsize]⟩
      (echoStage_writing hp hreads hwrites) (echoStage_writing hp hreads hset) ?_
    intro r v
    have hlen := x.data.length_take_elems hsize
    simp only [EchoLoop.step, hlen, if_pos hle]
    simp [Act.receivedBytes, Act.wroteBytes, EchoLoop.take_drop_take hle]
  | @written i op hp h hsent =>
    obtain ⟨hwrites, hnone, hreads⟩ := hx.writes_eq h
    have hsize : op.size ≤ 1024 := hx.sizes _ (List.mem_of_getElem? h)
    refine echoesTo_of_step .written
      ⟨by simp [hp], by simp [hnone, hreads], by simp [hnone]⟩
      (echoStage_writing hp hreads hwrites) (echoStage_reading hp (by rw [hreads]; rfl)) ?_
    intro r v
    have hlen := x.data.length_take_elems hsize
    simp only [EchoLoop.step, hlen, if_pos hsent]
    simp [Act.receivedBytes, Act.wroteBytes]
  | writeFailed hp h =>
    obtain ⟨hwrites, hnone, hreads⟩ := hx.writes_eq h
    refine echoesTo_of_step .stop ⟨by simp [hp], by simp [hnone, hreads], by simp [hnone]⟩
      rfl (echoStage_stopped hp hreads hnone) ?_
    intro r v
    simp [EchoLoop.step]

private theorem OneOp.data_cases (hx : x.OneOp) (h : Handled x a y acts) :
    y.data = x.data ∨ x.writes = [] := by
  cases h with
  | deliver hpos =>
    obtain ⟨n, ws, heq, -⟩ := deliverSignal_eq { x with signals := x.signals - 1 }
    rw [heq]
    exact .inl rfl
  | rearm hp =>
    obtain ⟨n, wait, heq⟩ := waitForSignal_eq { x with phase := .idle }
    rw [heq]
    exact .inl rfl
  | received hp h hpos hle => exact .inr (hx.reads_eq h).2.2
  | _ => exact .inl rfl

end Proc

namespace World

variable {w w' : World} {p q : Pid} {x y : Proc} {acts : List Act} {e : Event}

def echo (w : World) (q : Pid) : EchoLoop UInt8 where
  stage := (w.procs[q]?.map Proc.echoStage).getD .fresh
  received := receivedBy q w.trace
  wrote := wroteBy q w.trace

private theorem bytes_other (h : p ≠ q) (acts : List Act) :
    receivedBy q (acts.map (⟨p, ·⟩)) = [] ∧ wroteBy q (acts.map (⟨p, ·⟩)) = [] := by
  simp [receivedBy, wroteBy, h]

private theorem bytes_self (q : Pid) (acts : List Act) :
    receivedBy q (acts.map (⟨q, ·⟩)) = acts.flatMap Act.receivedBytes ∧
      wroteBy q (acts.map (⟨q, ·⟩)) = acts.flatMap Act.wroteBytes := by
  constructor
  · rw [receivedBy, List.flatMap_map]
    simp
  · rw [wroteBy, List.flatMap_map]
    simp

private theorem receivedBy_append (q : Pid) (tr obs : List Obs) :
    receivedBy q (tr ++ obs) = receivedBy q tr ++ receivedBy q obs := List.flatMap_append

private theorem wroteBy_append (q : Pid) (tr obs : List Obs) :
    wroteBy q (tr ++ obs) = wroteBy q tr ++ wroteBy q obs := List.flatMap_append

def OneOps (w : World) : Prop :=
  ∀ (q : Nat) (x : Proc), q ≠ 0 → w.procs[q]? = some x → x.OneOp

/-- What a step does to a process other than the first: it is one of its own handlers, or has
nothing to do with its connection, or the process is new. -/
inductive EchoEffect (w w' : World) (q : Pid) : Prop
  | handled {x y : Proc} {a : Action} {acts : List Act} (hx : w.procs[q]? = some x)
      (h : Handled x a y acts) (hw : w' = w.perform q y acts)
  | same {x y : Proc} (hx : w.procs[q]? = some x) (hy : w'.procs[q]? = some y)
      (h : x.SameEcho y) (hbytes : receivedBy q w'.trace = receivedBy q w.trace ∧
        wroteBy q w'.trace = wroteBy q w.trace)
  | absent (hx : w.procs[q]? = none) (hy : ∀ y, w'.procs[q]? = some y →
        y.phase = .child ∧ y.reads = [] ∧ y.writes = [])
      (hbytes : receivedBy q w'.trace = receivedBy q w.trace ∧
        wroteBy q w'.trace = wroteBy q w.trace)

private theorem EchoEffect.other (hprocs : w'.procs[q]? = w.procs[q]?)
    (hbytes : receivedBy q w'.trace = receivedBy q w.trace ∧
      wroteBy q w'.trace = wroteBy q w.trace) : EchoEffect w w' q := by
  cases hx : w.procs[q]? with
  | none =>
    refine .absent hx ?_ hbytes
    intro y hy
    rw [hprocs, hx] at hy
    exact absurd hy (by simp)
  | some x => exact .same hx (hprocs.trans hx) ⟨Iff.rfl, rfl, rfl, rfl⟩ hbytes

private theorem bytes_perform (w : World) (p q : Pid) (y : Proc) (acts : List Act)
    (hacts : p ≠ q ∨ acts.flatMap Act.receivedBytes = [] ∧
    acts.flatMap Act.wroteBytes = []) :
    receivedBy q (w.perform p y acts).trace = receivedBy q w.trace ∧
      wroteBy q (w.perform p y acts).trace = wroteBy q w.trace := by
  have hnone : receivedBy q (acts.map (⟨p, ·⟩)) = [] ∧ wroteBy q (acts.map (⟨p, ·⟩)) = [] := by
    by_cases hp : p = q
    · rw [hp, (bytes_self q acts).1, (bytes_self q acts).2]
      exact hacts.resolve_left (fun hne => hne hp)
    · exact bytes_other hp acts
  rw [perform_trace, receivedBy_append, wroteBy_append, hnone.1, hnone.2, List.append_nil,
    List.append_nil]
  exact ⟨rfl, rfl⟩

private theorem perform_other (hp : p ≠ q) : EchoEffect w (w.perform p y acts) q := by
  apply EchoEffect.other _ (bytes_perform w p q y acts (.inl hp))
  rw [perform_procs, List.getElem?_set_ne hp]

private theorem perform_same (hx : w.procs[p]? = some x) (h : x.SameEcho y)
    (hreceived : acts.flatMap Act.receivedBytes = []) (hwrote : acts.flatMap Act.wroteBytes = []) :
    EchoEffect w (w.perform p y acts) q := by
  by_cases hp : p = q
  · subst hp
    exact .same hx (procs_set_self hx) h (bytes_perform w p p y acts (.inr ⟨hreceived, hwrote⟩))
  · exact perform_other hp

private theorem exit_same (hx : w.procs[p]? = some x) : EchoEffect w (w.exit p x) q := by
  have htrace : (w.exit p x).trace = w.trace := by
    unfold exit
    split <;> rfl
  have hlength : (w.exit p x).procs.length = w.procs.length := by
    unfold exit
    split <;> simp
  have hbytes : receivedBy q (w.exit p x).trace = receivedBy q w.trace ∧
      wroteBy q (w.exit p x).trace = wroteBy q w.trace := by
    rw [htrace]
    exact ⟨rfl, rfl⟩
  cases hz : w.procs[q]? with
  | none =>
    refine .other ?_ hbytes
    rw [hz, List.getElem?_eq_none_iff, hlength]
    exact List.getElem?_eq_none_iff.1 hz
  | some z =>
    have hset : ∃ y, (w.procs.set p { x with life := .zombie })[q]? = some y ∧ z.SameEcho y := by
      by_cases hp : p = q
      · subst hp
        obtain rfl : x = z := Option.some.inj (hx.symm.trans hz)
        exact ⟨_, procs_set_self hx, Iff.rfl, rfl, rfl, rfl⟩
      · exact ⟨z, by rw [List.getElem?_set_ne hp, hz], Iff.rfl, rfl, rfl, rfl⟩
    obtain ⟨y, hy, hsame⟩ := hset
    cases hparent : x.parent with
    | none => exact .same hz (by simpa [exit, hparent] using hy) hsame hbytes
    | some r =>
      -- the signal goes to the parent, whoever that is
      have hsignal : (w.exit p x).procs[q]? =
          some (if r = q then { y with signals := y.signals + 1 } else y) := by
        rw [exit_procs hparent, List.getElem?_modify, hy]
        rfl
      refine .same hz hsignal ?_ hbytes
      split
      · exact ⟨hsame.phase, hsame.data, hsame.reads, hsame.writes⟩
      · exact hsame

private theorem forked_effect (hi : w.Inv) (hq : q ≠ 0) (hx : w.procs[0]? = some x) :
    EchoEffect w ⟨w.procs.set 0 { x with phase := .parent } ++
      [{ x with phase := .child, parent := some 0, signals := 0 }],
      w.conns, w.trace ++ [⟨0, .forked x.socket (some w.procs.length)⟩]⟩ q := by
  have hbytes : receivedBy q (w.trace ++ [⟨0, .forked x.socket (some w.procs.length)⟩]) =
      receivedBy q w.trace ∧
      wroteBy q (w.trace ++ [⟨0, .forked x.socket (some w.procs.length)⟩]) = wroteBy q w.trace := by
    simp [receivedBy, wroteBy, Act.receivedBytes, Act.wroteBytes]
  cases hz : w.procs[q]? with
  | some z => exact .same hz (table_old hq hz) ⟨Iff.rfl, rfl, rfl, rfl⟩ hbytes
  | none =>
    refine .absent hz ?_ hbytes
    intro y hy
    cases table_cases hq hy with
    | inl hold => exact absurd (hold.symm.trans hz) (by simp)
    | inr hnew =>
      rw [hnew, table_new, Option.some.injEq] at hy
      rw [← hy]
      exact ⟨rfl, (hi.original_of hx).reads, (hi.original_of hx).writes⟩

private theorem reaped_effect (hq : q ≠ 0) {r : Pid} (ret : Int) :
    EchoEffect w ((w.bury r).perform 0 y [.waitpid ret]) q := by
  have hbytes := bytes_perform (w.bury r) 0 q y [.waitpid ret] (.inl (Ne.symm hq))
  have hprocs : ((w.bury r).perform 0 y [.waitpid ret]).procs[q]? =
      w.procs[q]?.map fun z => if r = q then { z with life := .reaped } else z := by
    rw [perform_procs, List.getElem?_set_ne (Ne.symm hq), bury, List.getElem?_modify]
    rfl
  cases hz : w.procs[q]? with
  | none => exact .other (by rw [hprocs, hz]; rfl) hbytes
  | some z =>
    rw [hz, Option.map_some] at hprocs
    refine .same hz hprocs ?_ hbytes
    split <;> exact ⟨Iff.rfl, rfl, rfl, rfl⟩

private theorem echoEffect (hi : w.Inv) (hq : q ≠ 0) (he : w.step e = some w') :
    EchoEffect w w' q := by
  cases step_cases he with
  | @proc p a x y acts hx hlife h =>
    by_cases hp : p = q
    · subst hp
      exact .handled hx h rfl
    · exact perform_other hp
  | @accepted p x hx hlife hp h =>
    have hbytes := bytes_perform { w with conns := w.conns + 1 } p q
      { x with accepts := x.accepts - 1, socket := some w.conns, phase := .forking }
      [.accepted w.conns]
    by_cases hpq : p = q
    · subst hpq
      exact .same hx (procs_set_self hx) ⟨by simp [hp], rfl, rfl, rfl⟩ (hbytes (.inr ⟨rfl, rfl⟩))
    · exact .other (List.getElem?_set_ne hpq) (hbytes (.inl hpq))
  | @forked p x hx hlife hp =>
    obtain rfl := hi.eq_zero_of_phase hx (by simp [hp]) (by simp [hp])
    exact forked_effect hi hq hx
  | @forkFailed p x hx hlife hp =>
    exact perform_same hx ⟨by simp [hp], rfl, rfl, rfl⟩ (by rfl) (by rfl)
  | @reaped p r x hx hlife hp h =>
    obtain rfl := hi.eq_zero_of_phase hx (by simp [hp]) (by simp [hp])
    exact reaped_effect hq r
  | @noneEnded p x ret hx hlife hp h hret =>
    exact perform_same hx ⟨by simp [hp], rfl, rfl, rfl⟩ (by rfl) (by rfl)
  | @exited p x hp hx hlife => exact exit_same hx

private theorem oneOps_init (data : Buffer UInt8 1024) : (World.init data).OneOps := by
  intro q x hq hx
  obtain ⟨k, rfl⟩ := Nat.exists_eq_succ_of_ne_zero hq
  exact absurd hx (by simp [World.init])

theorem OneOps.step (hi : w.Inv) (hw : w.OneOps) (he : w.step e = some w') : w'.OneOps := by
  intro q y hq hy
  cases echoEffect hi hq he with
  | handled hx h heq =>
    rw [heq, perform_procs, procs_set_self hx, Option.some.injEq] at hy
    exact hy ▸ ((hw q _ hq hx).handled h).1
  | same hx hy' h hbytes =>
    rw [hy', Option.some.injEq] at hy
    exact hy ▸ h.oneOp (hw q _ hq hx)
  | absent hx hnew hbytes =>
    obtain ⟨-, hreads, hwrites⟩ := hnew y hy
    exact ⟨fun _ => ⟨hreads, hwrites⟩, by simp [hreads, hwrites], by simp [hwrites]⟩

theorem oneOps_reachable {data : Buffer UInt8 1024} (hr : (forkServer data).Reachable w) :
    w.OneOps :=
  System.reachable_induction (oneOps_init data)
    (fun _ _ _ hu hw he => hw.step (inv_reachable hu) he) hr

private theorem echo_step (hi : w.Inv) (hw : w.OneOps) (hq : q ≠ 0) (he : w.step e = some w') :
    ∃ ds, (echoLoop UInt8).exec (w.echo q) ds = some (w'.echo q) := by
  cases echoEffect hi hq he with
  | @handled x y a acts hx h heq =>
    obtain ⟨ds, hds⟩ := ((hw q x hq hx).handled h).2 (receivedBy q w.trace) (wroteBy q w.trace)
    refine ⟨ds, ?_⟩
    rw [heq]
    simp only [echo, hx, perform_procs, procs_set_self hx, perform_trace, receivedBy_append,
      wroteBy_append, (bytes_self q acts).1, (bytes_self q acts).2]
    exact hds
  | same hx hy h hbytes =>
    refine ⟨[], congrArg some ?_⟩
    simp only [echo, hx, hy, hbytes.1, hbytes.2, Option.map_some, h.echoStage]
  | absent hx hnew hbytes =>
    refine ⟨[], congrArg some ?_⟩
    simp only [echo, hx, hbytes.1, hbytes.2]
    cases hy : w'.procs[q]? with
    | none => rfl
    | some y => simp [Proc.echoStage, (hnew y hy).1]

theorem echo_reachable {data : Buffer UInt8 1024} (hr : (forkServer data).Reachable w)
    (hq : q ≠ 0) : (echoLoop UInt8).Reachable (w.echo q) := by
  apply System.reachable_of_simulation (f := fun w : World => w.echo q) _ _ hr
  · obtain ⟨k, rfl⟩ := Nat.exists_eq_succ_of_ne_zero hq
    simp [echo, forkServer, World.init, echoLoop, receivedBy, wroteBy, Act.receivedBytes,
      Act.wroteBytes, Proc.accept, Proc.waitForSignal_snd]
  · intro u e v hu he
    exact echo_step (inv_reachable hu) (oneOps_reachable hu) hq he

private theorem OneOps.data_cases (hi : w.Inv) (hw : w.OneOps) (hq : q ≠ 0)
    (hx : w.procs[q]? = some x)
    (he : w.step e = some w') (hy : w'.procs[q]? = some y) : y.data = x.data ∨ x.writes = [] := by
  cases echoEffect hi hq he with
  | handled hx' h heq =>
    rw [hx, Option.some.injEq] at hx'
    subst hx'
    rw [heq, perform_procs, procs_set_self hx, Option.some.injEq] at hy
    exact hy ▸ (hw q x hq hx).data_cases h
  | same hx' hy' h hbytes =>
    rw [hx, Option.some.injEq] at hx'
    rw [hy, Option.some.injEq] at hy'
    subst hx' hy'
    exact .inl h.data
  | absent hx' hnew hbytes =>
    rw [hx] at hx'
    exact absurd hx' (by simp)

private theorem wrote_eq_of_read {data : Buffer UInt8 1024} (hr : (forkServer data).Reachable w)
    (hq : q ≠ 0) (hx : w.procs[q]? = some x) (h : x.reads ≠ []) :
    wroteBy q w.trace = receivedBy q w.trace := by
  have hone := oneOps_reachable hr q x hq hx
  apply EchoLoop.wrote_eq_of_reading (echo_reachable hr hq)
  obtain ⟨d, reads, hreads⟩ := List.exists_cons_of_ne_nil h
  have hphase : x.phase ≠ .child := fun hp => h (hone.fresh hp).1
  simp [echo, hx, Proc.echoStage, hphase, hreads]

end World

end BoostLearning.Fork

namespace BoostLearning

open Allocation Fork in
/-- What is written back is a prefix of what was read, and all of it while a read is outstanding;
there is never more than one operation, and no read stores into the array while it is being
written from. An operation of the session whose state fits into the storage has it there. -/
theorem echo_fidelity {storage : Pointer} {data : Buffer UInt8 1024} {s : Session}
    (hs : (session storage data).Reachable s) {data' : Buffer UInt8 1024} {w : Fork.World}
    (hw : (forkServer data').Reachable w) :
    (s.wrote <+: s.received ∧ s.ops.length ≤ 1 ∧
      (∀ block, .read block ∈ s.ops → s.wrote = s.received) ∧
      (∀ e t, s.step e = some t → t.data = s.data ∨ ∃ block, s.ops = [.read block]) ∧
      (∀ size p, .allocated size p ∈ s.trace → size < storageSize → p = some storage) ∧
      ((∀ size p, .allocated size p ∈ s.trace → size < storageSize) → s.calls = [])) ∧
    ∀ (q : Nat) (x : Proc), q ≠ 0 → w.procs[q]? = some x →
      wroteBy q w.trace <+: receivedBy q w.trace ∧ x.reads.length + x.writes.length ≤ 1 ∧
      (x.reads ≠ [] → wroteBy q w.trace = receivedBy q w.trace) ∧
      ∀ e w' (y : Proc), w.step e = some w' → w'.procs[q]? = some y →
        y.data = x.data ∨ x.writes = [] := by
  constructor
  · have hi := Session.inv_reachable hs
    refine ⟨EchoLoop.wrote_prefix (Session.echo_reachable hs), hi.one, ?_, ?_, hi.served,
      hi.no_heap⟩
    · intro block h
      exact Session.wrote_eq_of_read hs h
    · intro e t he
      exact hi.data_cases he
  · intro q x hq hx
    have hone := World.oneOps_reachable hw
    refine ⟨EchoLoop.wrote_prefix (World.echo_reachable hw hq), (hone q x hq hx).one, ?_, ?_⟩
    · exact World.wrote_eq_of_read hw hq hx
    · intro e w' y he hy
      exact hone.data_cases (World.inv_reachable hw) hq hx he hy

/-- A chunk of two bytes is written in two parts, and the next write fails. The state of the first
write does not fit into the storage. -/
def smallChunks : List Allocation.SessionEvent :=
  [.start ⟨88, none⟩, .received 0 [104, 105] ⟨1024, some 7⟩, .transmit 0 1 ⟨96, none⟩,
    .transmit 0 1 ⟨88, none⟩, .received 0 [33] ⟨96, none⟩, .writeFailed 0]

theorem echo_fidelity_smallChunks :
    ((Allocation.session 1 (.fill 1024 0)).final smallChunks).wrote = [104, 105] ∧
      ((Allocation.session 1 (.fill 1024 0)).final smallChunks).wrote <+:
        ((Allocation.session 1 (.fill 1024 0)).final smallChunks).received ∧
      Fork.receivedBy 1 ((Fork.forkServer (.fill 1024 0)).final Fork.oneChild).trace = [104] ∧
      Fork.wroteBy 1 ((Fork.forkServer (.fill 1024 0)).final Fork.oneChild).trace <+:
        Fork.receivedBy 1 ((Fork.forkServer (.fill 1024 0)).final Fork.oneChild).trace := by
  have h := echo_fidelity ((Allocation.session 1 (.fill 1024 0)).reachable_final smallChunks)
    ((Fork.forkServer (.fill 1024 0)).reachable_final Fork.oneChild)
  have hchild : (((Fork.forkServer (.fill 1024 0)).final Fork.oneChild).procs[1]?.isSome) = true :=
    by decide +kernel
  obtain ⟨x, hx⟩ := Option.isSome_iff_exists.1 hchild
  exact ⟨by decide +kernel, h.1.1, by decide +kernel, (h.2 1 x (by decide) hx).1⟩

end BoostLearning
