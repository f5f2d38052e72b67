import BoostLearning.Fork.Connections
import Mathlib.Data.List.Induction

/-!
# No zombie is forgotten

Signals merge, so their number says nothing about the number of children that have ended. What
holds is weaker and enough: while there is a zombie, something is still under way that takes the
first process into its `waitpid` loop again, or it stands there. The loop itself is counted: each
of its rounds takes one zombie, and only an exit makes a new one.
-/

namespace BoostLearning.Fork

/-- A signal is pending, queued in `_signal`, or its handler is ready to run or in its loop. -/
def Proc.Noticed (x : Proc) : Prop :=
  0 < x.signals ∨ 0 < x.undelivered ∨ (∃ ec, .ready ec ∈ x.waits) ∨ x.phase = .reaping

def Proc.isZombieOf (p : Pid) (x : Proc) : Bool := x.parent = some p && x.life = .zombie

namespace Proc

variable {x y : Proc} {a : Action} {acts : List Act}

private theorem handled_parent_life (h : Handled x a y acts) :
    y.parent = x.parent ∧ y.life = x.life := by
  cases h with
  | deliver h =>
    obtain ⟨n, ws, heq, -⟩ := deliverSignal_eq { x with signals := x.signals - 1 }
    rw [heq]
    exact ⟨rfl, rfl⟩
  | rearm hp =>
    obtain ⟨n, wait, heq⟩ := waitForSignal_eq { x with phase := .idle }
    rw [heq]
    exact ⟨rfl, rfl⟩
  | _ => exact ⟨rfl, rfl⟩

private theorem noticed_deliverSignal (x : Proc) : x.deliverSignal.Noticed := by
  unfold deliverSignal
  split
  · rename_i hpending
    right; right; left
    exact ⟨.success, List.mem_map.2 ⟨.pending, hpending, rfl⟩⟩
  · right; left
    exact Nat.succ_pos _

private theorem Noticed.waitForSignal (h : x.Noticed) (hp : x.phase ≠ .reaping) :
    x.waitForSignal.1.Noticed := by
  unfold Proc.waitForSignal
  split
  · right; right; left
    exact ⟨.success, List.mem_append_right _ (List.mem_singleton.2 rfl)⟩
  · rename_i hnone
    rcases h with hs | hu | ⟨ec, hec⟩ | hphase
    · exact .inl hs
    · exact absurd hu hnone
    · right; right; left
      exact ⟨ec, List.mem_append_left _ hec⟩
    · exact absurd hphase hp

/-- No handler of the first process drops a notice; taking the wait leads into the loop. -/
private theorem Noticed.handled (h : x.Noticed) (hx : x.Original) (hh : Handled x a y acts) :
    y.Noticed := by
  cases hh with
  | raise => exact .inl (Nat.succ_pos _)
  | merge hlt =>
    left
    change 0 < x.signals - 1
    omega
  | deliver hpos => exact noticed_deliverSignal _
  | acceptFailed hp hpos => exact h
  | resumeParent hp =>
    rcases h with hs | hu | hready | hphase
    · exact .inl hs
    · exact .inr (.inl hu)
    · exact .inr (.inr (.inl hready))
    · exact absurd (hp.symm.trans hphase) (by simp)
  | resumeChild hp => exact absurd hp hx.phase
  | reap hp hwait hopen => exact .inr (.inr (.inr rfl))
  | ignore hp hwait hclosed =>
    rw [hx.acceptorOpen] at hclosed
    exact absurd hclosed (by simp)
  | rearm hp =>
    apply Noticed.waitForSignal
    · rcases h with hs | hu | hready | hphase
      · exact .inl hs
      · exact .inr (.inl hu)
      · exact .inr (.inr (.inl hready))
      · exact absurd (hp.symm.trans hphase) (by simp)
    · simp
  | received hp hread hpos hle => exact h
  | readFailed hp hlt => exact h
  | transmit hp hwrite hpos hle => exact h
  | written hp hwrite hsent => exact h
  | writeFailed hp hwrite => exact h

private theorem Noticed.of_phase (h : x.Noticed) (hp : x.phase ≠ .reaping)
    (hs : y.signals = x.signals)
    (hu : y.undelivered = x.undelivered) (hw : y.waits = x.waits) : y.Noticed := by
  rcases h with h | h | h | h
  · exact .inl (hs ▸ h)
  · exact .inr (.inl (hu ▸ h))
  · exact .inr (.inr (.inl (hw ▸ h)))
  · exact absurd h hp

end Proc

/-! ## Counting zombies -/

section Count

variable {α : Type*} {f : α → Bool}

private theorem countP_set_add {l : List α} {i : Nat} {x : α} (hx : l[i]? = some x) (y : α) :
    (l.set i y).countP f + (if f x then 1 else 0) = l.countP f + (if f y then 1 else 0) := by
  induction l generalizing i with
  | nil => simp at hx
  | cons z l ih =>
    cases i with
    | zero =>
      obtain rfl : z = x := by simpa using hx
      rw [List.set_cons_zero, List.countP_cons, List.countP_cons]
      omega
    | succ i =>
      rw [List.set_cons_succ, List.countP_cons, List.countP_cons]
      have := ih (by simpa using hx)
      omega

private theorem countP_modify {g : α → α} (hg : ∀ a, f (g a) = f a) (l : List α) (i : Nat) :
    (l.modify i g).countP f = l.countP f := by
  induction l generalizing i with
  | nil => rw [List.modify_nil]
  | cons z l ih =>
    cases i with
    | zero => rw [List.modify_zero_cons, List.countP_cons, List.countP_cons, hg]
    | succ i => rw [List.modify_succ_cons, List.countP_cons, List.countP_cons, ih]

end Count

namespace World

variable {w w' : World} {p q : Pid} {x y : Proc} {acts : List Act} {e : Event}

private theorem length_zombies (w : World) (p : Pid) :
    (w.zombies p).length = w.procs.countP (Proc.isZombieOf p) := by
  have hcount : ∀ procs : List Proc, ((List.range procs.length).filter fun q =>
      procs[q]?.any (Proc.isZombieOf p)).length = procs.countP (Proc.isZombieOf p) := by
    intro procs
    induction procs using List.reverseRecOn with
    | nil => rfl
    | append_singleton procs y ih =>
      have hold : (List.range procs.length).filter (fun q =>
          (procs ++ [y])[q]?.any (Proc.isZombieOf p)) =
          (List.range procs.length).filter fun q => procs[q]?.any (Proc.isZombieOf p) := by
        apply List.filter_congr
        intro q hq
        rw [List.getElem?_append_left (List.mem_range.1 hq)]
      have hlast : (procs ++ [y])[procs.length]? = some y := by simp
      rw [List.length_append, List.length_singleton, List.range_succ, List.filter_append, hold,
        List.length_append, ih, List.countP_append]
      congr 1
      rw [List.filter_cons, List.filter_nil, hlast, Option.any_some, List.countP_cons,
        List.countP_nil]
      cases Proc.isZombieOf p y <;> rfl
  exact hcount w.procs

private theorem Inv.zombie_ne_zero (hi : w.Inv) (h : q ∈ w.zombies p) : q ≠ 0 := by
  obtain ⟨y, hy, -, hzombie⟩ := mem_zombies.1 h
  rintro rfl
  rw [(hi.original_of hy).life] at hzombie
  exact absurd hzombie (by simp)

/-- Every other process is a child of the first one, and the zombies among them are noticed. -/
structure Watched (w : World) : Prop where
  parent : ∀ q x, q ≠ 0 → w.procs[q]? = some x → x.parent = some 0
  noticed : ∀ x, w.procs[0]? = some x → w.zombies 0 ≠ [] → x.Noticed

private theorem zombies_ne_nil : w.zombies p ≠ [] ↔
    ∃ (q : Nat) (y : Proc), w.procs[q]? = some y ∧ y.parent = some p ∧ y.life = .zombie := by
  constructor
  · intro h
    obtain ⟨q, hq⟩ := List.exists_mem_of_ne_nil _ h
    obtain ⟨y, hy⟩ := mem_zombies.1 hq
    exact ⟨q, y, hy⟩
  · rintro ⟨q, y, hy⟩
    exact List.ne_nil_of_mem (mem_zombies.2 ⟨y, hy⟩)

private theorem zombies_perform (hx : w.procs[p]? = some x) (hparent : y.parent = x.parent)
    (hlife : y.life = x.life) (h : (w.perform p y acts).zombies q ≠ []) : w.zombies q ≠ [] := by
  obtain ⟨r, z, hz, hzombie⟩ := zombies_ne_nil.1 h
  rw [perform_procs] at hz
  by_cases hr : p = r
  · subst hr
    rw [procs_set_self hx, Option.some.injEq] at hz
    subst hz
    rw [hparent, hlife] at hzombie
    exact zombies_ne_nil.2 ⟨p, x, hx, hzombie⟩
  · rw [List.getElem?_set_ne hr] at hz
    exact zombies_ne_nil.2 ⟨r, z, hz, hzombie⟩

private theorem Watched.perform (hw : w.Watched) (hx : w.procs[p]? = some x)
    (hparent : y.parent = x.parent) (hlife : y.life = x.life)
    (hnoticed : p = 0 → w.zombies 0 ≠ [] → x.Noticed → y.Noticed) :
    (w.perform p y acts).Watched := by
  constructor
  · intro q z hq hz
    rw [perform_procs] at hz
    by_cases hpq : p = q
    · subst hpq
      rw [procs_set_self hx, Option.some.injEq] at hz
      rw [← hz, hparent]
      exact hw.parent p x hq hx
    · rw [List.getElem?_set_ne hpq] at hz
      exact hw.parent q z hq hz
  · intro z hz hzombies
    have hbefore := zombies_perform hx hparent hlife hzombies
    rw [perform_procs] at hz
    by_cases hp : p = 0
    · subst hp
      rw [procs_set_self hx, Option.some.injEq] at hz
      exact hz ▸ hnoticed rfl hbefore (hw.noticed x hx hbefore)
    · rw [List.getElem?_set_ne hp] at hz
      exact hw.noticed z hz hbefore

private theorem watched_init (data : Buffer UInt8 1024) : (World.init data).Watched := by
  constructor
  · intro q x hq hx
    obtain ⟨k, rfl⟩ := Nat.exists_eq_succ_of_ne_zero hq
    exact absurd hx (by simp [World.init])
  · intro x _ hzombies
    obtain ⟨q, y, hy, hparent, -⟩ := zombies_ne_nil.1 hzombies
    cases q with
    | zero =>
      obtain rfl : _ = y := Option.some.inj hy
      exact absurd hparent (by simp [Proc.accept, Proc.waitForSignal, Proc.start])
    | succ q => exact absurd hy (by simp [World.init])

/-- `fork()` succeeds: the new child runs. -/
private theorem Watched.forked (hw : w.Watched) (hx : w.procs[0]? = some x)
    (hp : x.phase = .forking)
    (hlife : x.life = .running) :
    Watched ⟨w.procs.set 0 { x with phase := .parent } ++
      [{ x with phase := .child, parent := some 0, signals := 0 }],
      w.conns, w.trace ++ [⟨0, .forked x.socket (some w.procs.length)⟩]⟩ := by
  have hpos : 0 < w.procs.length := (List.getElem?_eq_some_iff.1 hx).1
  constructor
  · intro q z hq hz
    cases table_cases hq hz with
    | inl hold => exact hw.parent q z hq hold
    | inr hnew =>
      rw [hnew, table_new, Option.some.injEq] at hz
      rw [← hz]
  · intro z hz hzombies
    rw [table_zero hpos, Option.some.injEq] at hz
    subst hz
    obtain ⟨q, u, hu, hparent, hzombie⟩ := zombies_ne_nil.1 hzombies
    have hbefore : w.zombies 0 ≠ [] := by
      by_cases hq : q = 0
      · subst hq
        rw [table_zero hpos, Option.some.injEq] at hu
        subst hu
        exact absurd (hlife.symm.trans hzombie) (by simp)
      · cases table_cases hq hu with
        | inl hold => exact zombies_ne_nil.2 ⟨q, u, hold, hparent, hzombie⟩
        | inr hnew =>
          rw [hnew, table_new, Option.some.injEq] at hu
          subst hu
          exact absurd (hlife.symm.trans hzombie) (by simp)
    exact (hw.noticed x hx hbefore).of_phase (by simp [hp]) rfl rfl rfl

private theorem Watched.bury (hw : w.Watched) (hq : q ≠ 0) : (w.bury q).Watched := by
  have hprocs : ∀ (r : Nat) (z : Proc), (w.bury q).procs[r]? = some z → ∃ y, w.procs[r]? = some y ∧
      z.parent = y.parent ∧ (z.life = .zombie → y.life = .zombie) := by
    intro r z hz
    by_cases hr : q = r
    · subst hr
      rw [World.bury, List.getElem?_modify_eq] at hz
      obtain ⟨y, hy, rfl⟩ := Option.map_eq_some_iff.1 hz
      exact ⟨y, hy, rfl, fun h => absurd h (by simp)⟩
    · rw [World.bury, List.getElem?_modify_ne _ _ hr] at hz
      exact ⟨z, hz, rfl, id⟩
  constructor
  · intro r z hr hz
    obtain ⟨y, hy, hparent, -⟩ := hprocs r z hz
    rw [hparent]
    exact hw.parent r y hr hy
  · intro x hx hzombies
    obtain ⟨r, z, hz, hparent, hzombie⟩ := zombies_ne_nil.1 hzombies
    obtain ⟨y, hy, hsame, hlife⟩ := hprocs r z hz
    rw [World.bury, List.getElem?_modify_ne _ _ hq] at hx
    exact hw.noticed x hx (zombies_ne_nil.2 ⟨r, y, hy, hsame ▸ hparent, hlife hzombie⟩)

theorem exit_procs (hparent : x.parent = some q) :
    (w.exit p x).procs = (w.procs.set p { x with life := .zombie }).modify q
      fun y => { y with signals := y.signals + 1 } := by
  simp [exit, hparent]

private theorem Watched.exited (hw : w.Watched) (hp : p ≠ 0) (hx : w.procs[p]? = some x) :
    (w.exit p x).Watched := by
  have hprocs := exit_procs (w := w) (p := p) (hw.parent p x hp hx)
  constructor
  · intro q z hq hz
    rw [hprocs, List.getElem?_modify_ne _ _ (Ne.symm hq)] at hz
    by_cases hpq : p = q
    · subst hpq
      rw [procs_set_self hx, Option.some.injEq] at hz
      rw [← hz]
      exact hw.parent p x hp hx
    · rw [List.getElem?_set_ne hpq] at hz
      exact hw.parent q z hq hz
  · intro z hz _
    rw [hprocs, List.getElem?_modify_eq] at hz
    obtain ⟨y, -, rfl⟩ := Option.map_eq_some_iff.1 hz
    exact .inl (Nat.succ_pos _)

theorem Watched.step (hi : w.Inv) (hw : w.Watched) (he : w.step e = some w') : w'.Watched := by
  cases step_cases he with
  | @proc p a x y acts hx hlife h =>
    obtain ⟨hparent, hlife'⟩ := Proc.handled_parent_life h
    apply hw.perform hx hparent hlife'
    rintro rfl _ hnoticed
    exact hnoticed.handled (hi.original_of hx) h
  | @accepted p x hx hlife hp h =>
    refine Watched.perform (w := { w with conns := w.conns + 1 }) ⟨hw.parent, hw.noticed⟩ hx
      ?_ ?_ ?_
    · rfl
    · rfl
    intro _ _ hnoticed
    exact hnoticed.of_phase (by simp [hp]) rfl rfl rfl
  | @forked p x hx hlife hp =>
    obtain rfl := hi.eq_zero_of_phase hx (by simp [hp]) (by simp [hp])
    exact hw.forked hx hp hlife
  | @forkFailed p x hx hlife hp =>
    refine hw.perform hx ?_ ?_ ?_
    · rfl
    · rfl
    intro _ _ hnoticed
    exact hnoticed.of_phase (by simp [hp]) rfl rfl rfl
  | @reaped p q x hx hlife hp h =>
    obtain rfl := hi.eq_zero_of_phase hx (by simp [hp]) (by simp [hp])
    have hq := hi.zombie_ne_zero h
    have hx' : (w.bury q).procs[0]? = some x := by
      rw [World.bury, List.getElem?_modify_ne _ _ hq]
      exact hx
    refine (hw.bury hq).perform hx' ?_ ?_ ?_
    · rfl
    · rfl
    intro _ _ _
    have hret : (0 : Int) < (q : Int) := Int.natCast_pos.2 (Nat.pos_of_ne_zero hq)
    exact .inr (.inr (.inr (by rw [Proc.afterWaitpid, if_pos hret])))
  | @noneEnded p x ret hx hlife hp h hret =>
    obtain rfl := hi.eq_zero_of_phase hx (by simp [hp]) (by simp [hp])
    refine hw.perform hx ?_ ?_ ?_
    · rfl
    · rfl
    intro _ hzombies
    exact absurd h hzombies
  | @exited p x hp hx hlife => exact hw.exited hp hx

theorem watched_reachable {data : Buffer UInt8 1024} (hr : (forkServer data).Reachable w) :
    w.Watched :=
  System.reachable_induction (watched_init data)
    (fun _ _ _ hu hw he => hw.step (inv_reachable hu) he) hr

end World

/-- A `waitpid` of the first process, and one that takes a zombie. -/
def Event.isWaitpid : Event → Bool
  | .waitpid p _ => p = 0
  | _ => false

def Event.isReap : Event → Bool
  | .waitpid p q => p = 0 && q.isSome
  | _ => false

def Event.isExit : Event → Bool
  | .exit _ => true
  | _ => false

namespace World

variable {w w' : World} {p q : Pid} {x y : Proc} {acts : List Act} {e : Event}

private theorem length_zombies_perform (hx : w.procs[p]? = some x) (hparent : y.parent = x.parent)
    (hlife : y.life = x.life) (q : Pid) :
    ((w.perform p y acts).zombies q).length = (w.zombies q).length := by
  have hsame : Proc.isZombieOf q y = Proc.isZombieOf q x := by
    rw [Proc.isZombieOf, Proc.isZombieOf, hparent, hlife]
  have hcount := countP_set_add (f := Proc.isZombieOf q) hx y
  rw [hsame] at hcount
  rw [length_zombies, length_zombies, perform_procs]
  omega

private theorem length_zombies_bury (h : q ∈ w.zombies p) :
    ((w.bury q).zombies p).length + 1 = (w.zombies p).length := by
  obtain ⟨y, hy, hparent, hzombie⟩ := mem_zombies.1 h
  have hbefore : Proc.isZombieOf p y = true := by simp [Proc.isZombieOf, hparent, hzombie]
  have hafter : Proc.isZombieOf p { y with life := .reaped } = false := by simp [Proc.isZombieOf]
  have hcount := countP_set_add (f := Proc.isZombieOf p) hy { y with life := .reaped }
  rw [hbefore, hafter] at hcount
  rw [length_zombies, length_zombies, bury, List.modify_eq_set_getElem?, hy]
  simpa using hcount

private theorem length_zombies_exit (hx : w.procs[p]? = some x) (hlife : x.life = .running)
    (hparent : x.parent = some q) :
    ((w.exit p x).zombies q).length = (w.zombies q).length + 1 := by
  have hbefore : Proc.isZombieOf q x = false := by simp [Proc.isZombieOf, hlife]
  have hafter : Proc.isZombieOf q { x with life := .zombie } = true := by
    simp [Proc.isZombieOf, hparent]
  have hcount := countP_set_add (f := Proc.isZombieOf q) hx { x with life := .zombie }
  rw [hbefore, hafter] at hcount
  rw [length_zombies, length_zombies, exit_procs hparent]
  refine Eq.trans (countP_modify ?_ _ q) hcount
  intro y
  rfl

/-- A reaped zombie is one less, an exit is one more, and nothing else counts. -/
private theorem Watched.count_step (hi : w.Inv) (hw : w.Watched) (he : w.step e = some w') :
    (w'.zombies 0).length + (if e.isReap then 1 else 0) =
      (w.zombies 0).length + (if e.isExit then 1 else 0) := by
  cases step_cases he with
  | @proc p a x y acts hx hlife h =>
    obtain ⟨hparent, hlife'⟩ := Proc.handled_parent_life h
    exact length_zombies_perform hx hparent hlife' 0
  | @accepted p x hx hlife hp h =>
    refine length_zombies_perform (w := { w with conns := w.conns + 1 }) hx ?_ ?_ 0
    · rfl
    · rfl
  | @forked p x hx hlife hp =>
    have hnew : ∀ z : Proc, z.life = .running → Proc.isZombieOf 0 z = false := by
      intro z hz
      simp [Proc.isZombieOf, hz]
    have hcount := countP_set_add (f := Proc.isZombieOf 0) hx { x with phase := .parent }
    rw [hnew x hlife, hnew { x with phase := .parent } hlife] at hcount
    rw [length_zombies, length_zombies, List.countP_append, List.countP_singleton,
      hnew { x with phase := .child, parent := some p, signals := 0 } hlife]
    exact hcount
  | @forkFailed p x hx hlife hp =>
    refine length_zombies_perform hx ?_ ?_ 0
    · rfl
    · rfl
  | @reaped p q x hx hlife hp h =>
    obtain rfl := hi.eq_zero_of_phase hx (by simp [hp]) (by simp [hp])
    have hx' : (w.bury q).procs[0]? = some x := by
      rw [World.bury, List.getElem?_modify_ne _ _ (hi.zombie_ne_zero h)]
      exact hx
    rw [length_zombies_perform hx' (by rfl) (by rfl)]
    exact length_zombies_bury h
  | @noneEnded p x ret hx hlife hp h hret =>
    have hreap : (Event.waitpid p none).isReap = false := by simp [Event.isReap]
    rw [hreap]
    refine length_zombies_perform hx ?_ ?_ 0
    · rfl
    · rfl
  | @exited p x hp hx hlife => exact length_zombies_exit hx hlife (hw.parent p x hp hx)

/-- Over a run, the zombies that `waitpid` took and those that are left are the ones that there
were and the ones that exits have made. -/
private theorem Watched.count_run {data : Buffer UInt8 1024} {es : List Event} (hi : w.Inv)
    (hw : w.Watched) (h : (forkServer data).exec w es = some w') :
    (w'.zombies 0).length + es.countP Event.isReap =
      (w.zombies 0).length + es.countP Event.isExit := by
  induction es generalizing w with
  | nil =>
    obtain rfl : w = w' := Option.some.inj h
    rfl
  | cons e es ih =>
    obtain ⟨u, hu, hrun⟩ := (System.exec_cons_some _).1 h
    have hfirst := hw.count_step hi hu
    have hrest := ih (hi.step hu) (hw.step hi hu) hrun
    rw [List.countP_cons, List.countP_cons]
    omega

private theorem waitpid_loop (hx : w.procs[0]? = some x) (hlife : x.life = .running)
    (hp : x.phase = .reaping) :
    (∀ q ∈ w.zombies 0, (w.step (.waitpid 0 (some q))).isSome) ∧
      ((w.step (.waitpid 0 none)).isSome ↔ w.zombies 0 = []) := by
  have hrun : w.running 0 = some x := running_eq_some.2 ⟨hx, hlife⟩
  constructor
  · intro q hq
    simp [step, hrun, hp, waitpid, hq]
  · simp [step, hrun, hp, waitpid]

end World

/-- Two children end while the first process is about to fork again; their signals merge. -/
def mergedSignals : List Event :=
  [.acceptDone 0, .fork 0 true, .proc 0 .resumeParent, .acceptDone 0, .fork 0 true,
    .proc 0 .resumeParent, .acceptDone 0, .exit 1, .exit 2, .proc 0 .merge, .fork 0 false,
    .proc 0 .resumeParent, .proc 0 .deliver, .proc 0 (.waitDone 0)]

end BoostLearning.Fork
