import BoostLearning.Framework.Transition

/-!
# Timers and strands

Several threads run the handlers of one strand, each of them step by step on its own local
variables and on a state that they share. A thread takes a handler only when no other thread is in
the middle of one. If what happens outside of the handlers does not depend on how far the running
one has come, the threads do what one thread does that runs every handler at once. What happens
outside may be that a timer expires.
-/

namespace BoostLearning

/-! ## Timers -/

/-- A `steady_timer`: when it expires, its outstanding waits, which end then, and those that
`expires_at` or `expires_after` has cancelled, which end without success. -/
structure Timer where
  expiry : Nat
  waits : Nat
  cancelled : Nat
deriving DecidableEq

namespace Timer

variable (t : Timer) {t' : Timer} {now : Nat}

def expiresAt (expiry : Nat) : Timer := ⟨expiry, 0, t.cancelled + t.waits⟩

def asyncWait : Timer := { t with waits := t.waits + 1 }

def expire (now : Nat) : Option Timer :=
  if 0 < t.waits ∧ t.expiry ≤ now then some { t with waits := t.waits - 1 } else none

def abort : Option Timer :=
  if 0 < t.cancelled then some { t with cancelled := t.cancelled - 1 } else none

variable {t}

theorem expire_eq_some : t.expire now = some t' ↔
    0 < t.waits ∧ t.expiry ≤ now ∧ t' = { t with waits := t.waits - 1 } := by
  simp [expire, and_assoc, eq_comm]

theorem abort_eq_some : t.abort = some t' ↔
    0 < t.cancelled ∧ t' = { t with cancelled := t.cancelled - 1 } := by
  simp [abort, eq_comm]

end Timer

/-! ## Strands -/

/-- The steps of each handler, what its local variables are at first, and what may happen outside:
it changes the state and makes handlers ready. -/
structure Handlers (σ ρ η ε : Type*) where
  locals : ρ
  body : η → List (σ × ρ → σ × ρ)
  outside : σ → ε → Option (σ × List η)

structure Running (ρ η : Type*) where
  handler : η
  pc : Nat
  locals : ρ
deriving DecidableEq

/-- The handlers that are ready, in their order, and what the threads are in the middle of. -/
structure Pool (σ ρ η : Type*) where
  shared : σ
  ready : List η
  threads : List (Option (Running ρ η))

/-- A thread takes a handler, makes one step, or returns from it. -/
inductive PoolEvent (ε : Type*) where
  | take (i : Nat)
  | step (i : Nat)
  | outside (e : ε)

/-- One thread, whose handlers are one step each. -/
structure Serial (σ η : Type*) where
  shared : σ
  ready : List η

inductive SerialEvent (ε : Type*) where
  | run
  | outside (e : ε)

namespace Handlers

variable {σ ρ η ε : Type*} (P : Handlers σ ρ η ε)

def finish (x : Running ρ η) (s : σ) : σ :=
  (((P.body x.handler).drop x.pc).foldl (fun y f => f y) (s, x.locals)).1

def start (h : η) : Running ρ η := ⟨h, 0, P.locals⟩

def poolStep (p : Pool σ ρ η) : PoolEvent ε → Option (Pool σ ρ η)
  | .take i =>
    match p.threads[i]?, p.ready with
    | some none, h :: rest =>
      if p.threads.all Option.isNone then
        some { p with ready := rest, threads := p.threads.set i (some (P.start h)) }
      else none
    | _, _ => none
  | .step i =>
    match p.threads[i]? with
    | some (some x) =>
      match (P.body x.handler)[x.pc]? with
      | some f =>
        let y := f (p.shared, x.locals)
        some { p with
          shared := y.1
          threads := p.threads.set i (some { x with pc := x.pc + 1, locals := y.2 }) }
      | none => some { p with threads := p.threads.set i none }
    | _ => none
  | .outside e =>
    (P.outside p.shared e).map fun (s, hs) => { p with shared := s, ready := p.ready ++ hs }

def serialStep (s : Serial σ η) : SerialEvent ε → Option (Serial σ η)
  | .run =>
    match s.ready with
    | h :: rest => some ⟨P.finish (P.start h) s.shared, rest⟩
    | [] => none
  | .outside e => (P.outside s.shared e).map fun (t, hs) => ⟨t, s.ready ++ hs⟩

def pool (s : σ) (threads : Nat) : System (Pool σ ρ η) (PoolEvent ε) :=
  ⟨⟨s, [], List.replicate threads none⟩, P.poolStep⟩

def serial (s : σ) : System (Serial σ η) (SerialEvent ε) := ⟨⟨s, []⟩, P.serialStep⟩

end Handlers

namespace Pool

variable {σ ρ η : Type*}

def running (p : Pool σ ρ η) : List (Running ρ η) := p.threads.filterMap id

private theorem running_set_of_nil {l : List (Option (Running ρ η))} (hl : l.filterMap id = [])
    {i : Nat}
    (hi : i < l.length) (x : Running ρ η) : (l.set i (some x)).filterMap id = [x] := by
  induction l generalizing i with
  | nil => exact absurd hi (by simp)
  | cons t l ih =>
    cases t with
    | some y => exact absurd hl (by simp)
    | none =>
      have hl : l.filterMap id = [] := hl
      cases i with
      | zero => exact congrArg (x :: ·) hl
      | succ i => exact ih hl (by simpa using hi)

private theorem running_set {l : List (Option (Running ρ η))} {i : Nat} {x : Running ρ η}
    (hl : (l.filterMap id).length ≤ 1) (hi : l[i]? = some (some x)) :
    l.filterMap id = [x] ∧ (l.set i none).filterMap id = [] ∧
      ∀ y, (l.set i (some y)).filterMap id = [y] := by
  induction l generalizing i with
  | nil => exact absurd hi (by simp)
  | cons t l ih =>
    cases i with
    | zero =>
      simp only [List.getElem?_cons_zero, Option.some.injEq] at hi
      subst t
      have hl : (l.filterMap id).length + 1 ≤ 1 := hl
      have hnil : l.filterMap id = [] := List.length_eq_zero_iff.1 (by omega)
      exact ⟨congrArg (x :: ·) hnil, hnil, fun y => congrArg (y :: ·) hnil⟩
    | succ i =>
      rw [List.getElem?_cons_succ] at hi
      have hmem : x ∈ l.filterMap id :=
        List.mem_filterMap.2 ⟨some x, List.mem_of_getElem? hi, rfl⟩
      have hpos := List.length_pos_of_mem hmem
      cases t with
      | some y =>
        have hl : (l.filterMap id).length + 1 ≤ 1 := hl
        omega
      | none => exact ih hl hi

end Pool

namespace Handlers

variable {σ ρ η ε : Type*} {P : Handlers σ ρ η ε} {p p' : Pool σ ρ η} {s₀ : σ} {threads : Nat}

/-- The state as it will be when the running handler has returned. -/
def completed (P : Handlers σ ρ η ε) (p : Pool σ ρ η) : σ :=
  match p.running with
  | [] => p.shared
  | x :: _ => P.finish x p.shared

theorem completed_idle (h : p.running = []) : P.completed p = p.shared := by
  rw [completed, h]

theorem completed_running {x : Running ρ η} (h : p.running = [x]) :
    P.completed p = P.finish x p.shared := by
  rw [completed, h]

private theorem running_eq_nil_iff : p.threads.all Option.isNone ↔ p.running = [] := by
  simp [Pool.running, List.filterMap_eq_nil_iff]

/-- What happens outside does not depend on how far a handler has come. -/
def Commutes (P : Handlers σ ρ η ε) (p : Pool σ ρ η) : Prop :=
  ∀ x e s hs, p.running = [x] → P.outside p.shared e = some (s, hs) →
    P.outside (P.finish x p.shared) e = some (P.finish x s, hs)

/-- What a step of the threads can be, when no more than one handler is running. -/
inductive Stepped (P : Handlers σ ρ η ε) (p p' : Pool σ ρ η) : PoolEvent ε → Prop where
  | take (i : Nat) (h : η) (hidle : p.running = []) (hready : p.ready = h :: p'.ready)
      (hshared : p'.shared = p.shared) (hrunning : p'.running = [P.start h]) :
      Stepped P p p' (.take i)
  | step (i : Nat) (x : Running ρ η) (f : σ × ρ → σ × ρ) (hx : p.running = [x])
      (hf : (P.body x.handler)[x.pc]? = some f) (hready : p'.ready = p.ready)
      (hshared : p'.shared = (f (p.shared, x.locals)).1)
      (hrunning : p'.running = [{ x with
        pc := x.pc + 1, locals := (f (p.shared, x.locals)).2 }]) : Stepped P p p' (.step i)
  | finish (i : Nat) (x : Running ρ η) (hx : p.running = [x])
      (hf : (P.body x.handler)[x.pc]? = none) (hready : p'.ready = p.ready)
      (hshared : p'.shared = p.shared) (hrunning : p'.running = []) : Stepped P p p' (.step i)
  | outside (e : ε) (hs : List η) (hout : P.outside p.shared e = some (p'.shared, hs))
      (hready : p'.ready = p.ready ++ hs) (hrunning : p'.running = p.running) :
      Stepped P p p' (.outside e)

theorem stepped (hone : p.running.length ≤ 1) {e : PoolEvent ε} (he : P.poolStep p e = some p') :
    P.Stepped p p' e := by
  cases e with
  | take i =>
    simp only [poolStep] at he
    split at he
    · rename_i h rest hi hready
      simp only [Option.ite_none_right_eq_some, Option.some.injEq] at he
      obtain ⟨hall, rfl⟩ := he
      have hidle := running_eq_nil_iff.1 hall
      have hlt : i < p.threads.length := (List.getElem?_eq_some_iff.1 hi).1
      exact .take i h hidle hready rfl (Pool.running_set_of_nil hidle hlt (P.start h))
    · exact absurd he (by simp)
  | step i =>
    simp only [poolStep] at he
    split at he
    · rename_i x hi
      obtain ⟨hx, hnone, hsome⟩ := Pool.running_set hone hi
      split at he
      · rename_i f hf
        obtain rfl := Option.some.inj he
        exact .step i x f hx hf rfl rfl (hsome _)
      · rename_i hf
        obtain rfl := Option.some.inj he
        exact .finish i x hx hf rfl rfl hnone
    · exact absurd he (by simp)
  | outside e =>
    obtain ⟨⟨s, hs⟩, hout, rfl⟩ := Option.map_eq_some_iff.1 he
    exact .outside e hs hout rfl rfl

private theorem poolStep_threads {e : PoolEvent ε} (he : P.poolStep p e = some p') :
    p'.threads.length = p.threads.length := by
  cases e with
  | take i =>
    simp only [poolStep] at he
    split at he
    · simp only [Option.ite_none_right_eq_some, Option.some.injEq] at he
      obtain ⟨-, rfl⟩ := he
      exact List.length_set
    · exact absurd he (by simp)
  | step i =>
    simp only [poolStep] at he
    split at he
    · split at he
      · obtain rfl := Option.some.inj he
        exact List.length_set
      · obtain rfl := Option.some.inj he
        exact List.length_set
    · exact absurd he (by simp)
  | outside e =>
    obtain ⟨⟨s, hs⟩, -, rfl⟩ := Option.map_eq_some_iff.1 he
    rfl

theorem threads_reachable (h : (P.pool s₀ threads).Reachable p) : p.threads.length = threads := by
  apply System.reachable_induction (M := P.pool s₀ threads)
    (P := fun p => p.threads.length = threads) _ _ h
  · exact List.length_replicate
  · intro p e p' _ hlength he
    exact (poolStep_threads he).trans hlength

/-- A thread that is in the middle of a handler can go on, and one can take a handler when none
is. -/
theorem exists_poolStep (hthreads : 0 < p.threads.length) (h : p.running ≠ [] ∨ p.ready ≠ []) :
    ∃ i, (P.poolStep p (.step i)).isSome = true ∨ (P.poolStep p (.take i)).isSome = true := by
  by_cases hidle : p.running = []
  · have hall := running_eq_nil_iff.2 hidle
    obtain ⟨t, rest, hlist⟩ := List.exists_cons_of_length_pos hthreads
    obtain ⟨h, ready, hready⟩ := List.exists_cons_of_ne_nil (h.resolve_left (not_not_intro hidle))
    rw [hlist] at hall
    obtain rfl : t = none := by
      simp only [List.all_cons, Bool.and_eq_true, Option.isNone_iff_eq_none] at hall
      exact hall.1
    refine ⟨0, .inr ?_⟩
    simp only [poolStep, hlist, hready, List.getElem?_cons_zero, hall, if_true, Option.isSome_some]
  · obtain ⟨x, hx⟩ := List.exists_mem_of_ne_nil _ hidle
    obtain ⟨t, ht, rfl⟩ := List.mem_filterMap.1 hx
    obtain ⟨i, hi⟩ := List.mem_iff_getElem?.1 ht
    refine ⟨i, .inl ?_⟩
    simp only [poolStep, hi]
    split <;> rfl

private theorem Stepped.running_le_one {e : PoolEvent ε} (hone : p.running.length ≤ 1)
    (h : P.Stepped p p' e) :
    p'.running.length ≤ 1 := by
  cases h with
  | take i h hidle hready hshared hrunning => simp [hrunning]
  | step i x f hx hf hready hshared hrunning => simp [hrunning]
  | finish i x hx hf hready hshared hrunning => simp [hrunning]
  | outside e hs hout hready hrunning => rwa [hrunning]

/-- What survives every step of a pool in which no more than one handler is running. -/
theorem pool_induction {Q : Pool σ ρ η → Prop}
    (hinit : Q ⟨s₀, [], List.replicate threads none⟩)
    (hstep : ∀ p p' e, (P.pool s₀ threads).Reachable p → p.running.length ≤ 1 → Q p →
      P.Stepped p p' e → Q p')
    (h : (P.pool s₀ threads).Reachable p) : p.running.length ≤ 1 ∧ Q p := by
  apply System.reachable_induction (M := P.pool s₀ threads)
    (P := fun p => p.running.length ≤ 1 ∧ Q p) _ _ h
  · exact ⟨by simp [pool, Pool.running], hinit⟩
  · rintro p e p' hp ⟨hone, hQ⟩ he
    have hstepped := stepped hone he
    exact ⟨hstepped.running_le_one hone, hstep p p' e hp hone hQ hstepped⟩

theorem finish_step {x : Running ρ η} {f : σ × ρ → σ × ρ} {s : σ}
    (hf : (P.body x.handler)[x.pc]? = some f) :
    P.finish { x with pc := x.pc + 1, locals := (f (s, x.locals)).2 } (f (s, x.locals)).1 =
      P.finish x s := by
  obtain ⟨hlt, rfl⟩ := List.getElem?_eq_some_iff.1 hf
  simp only [finish]
  rw [List.drop_eq_getElem_cons hlt, List.foldl_cons]

theorem finish_end {x : Running ρ η} (hf : (P.body x.handler)[x.pc]? = none) (s : σ) :
    P.finish x s = s := by
  rw [finish, List.drop_eq_nil_of_le (List.getElem?_eq_none_iff.1 hf), List.foldl_nil]

/-- What every step of a handler keeps, its rest does. -/
theorem finish_preserves {x : Running ρ η} {Q : σ → Prop}
    (hstep : ∀ f ∈ P.body x.handler, ∀ s l, Q s → Q (f (s, l)).1) {s : σ} (hs : Q s) :
    Q (P.finish x s) := by
  have hfold : ∀ fs : List (σ × ρ → σ × ρ), fs ⊆ P.body x.handler → ∀ s l, Q s →
      Q (fs.foldl (fun y f => f y) (s, l)).1 := by
    intro fs hfs
    induction fs with
    | nil =>
      intro s l hs
      exact hs
    | cons f fs ih =>
      intro s l hs
      obtain ⟨hf, hfs⟩ := List.cons_subset.1 hfs
      exact ih hfs _ _ (hstep f hf s l hs)
  exact hfold _ (List.drop_subset ..) s x.locals hs

/-- What happens outside and commutes with every step of a handler does so with its rest. -/
theorem finish_outside {x : Running ρ η} {e : ε} {hs : List η}
    (hstep : ∀ f ∈ P.body x.handler, ∀ s l t, P.outside s e = some (t, hs) →
      P.outside (f (s, l)).1 e = some ((f (t, l)).1, hs) ∧ (f (t, l)).2 = (f (s, l)).2)
    {s t : σ} (h : P.outside s e = some (t, hs)) :
    P.outside (P.finish x s) e = some (P.finish x t, hs) := by
  have hfold : ∀ fs : List (σ × ρ → σ × ρ), fs ⊆ P.body x.handler → ∀ s l t,
      P.outside s e = some (t, hs) →
      P.outside (fs.foldl (fun y f => f y) (s, l)).1 e =
        some ((fs.foldl (fun y f => f y) (t, l)).1, hs) := by
    intro fs hfs
    induction fs with
    | nil =>
      intro s l t h
      exact h
    | cons f fs ih =>
      intro s l t h
      obtain ⟨hf, hfs⟩ := List.cons_subset.1 hfs
      obtain ⟨hout, hlocals⟩ := hstep f hf s l t h
      have heq : f (t, l) = ((f (t, l)).1, (f (s, l)).2) := Prod.ext rfl hlocals
      rw [List.foldl_cons, List.foldl_cons, heq]
      exact ih hfs (f (s, l)).1 (f (s, l)).2 (f (t, l)).1 hout
  exact hfold _ (List.drop_subset ..) s x.locals t h

theorem outside_completed (hone : p.running.length ≤ 1) (hcomm : P.Commutes p) {e : ε} {hs : List η}
    (hout : P.outside p.shared e = some (p'.shared, hs)) (hrunning : p'.running = p.running) :
    P.outside (P.completed p) e = some (P.completed p', hs) := by
  cases hx : p.running with
  | nil =>
    rw [completed_idle hx, completed_idle (hrunning.trans hx)]
    exact hout
  | cons x rest =>
    obtain rfl : rest = [] := by
      rw [hx, List.length_cons] at hone
      exact List.length_eq_zero_iff.1 (by omega)
    rw [completed_running hx, completed_running (hrunning.trans hx)]
    exact hcomm x e _ hs hx hout

private theorem Stepped.completed {e : PoolEvent ε} (hone : p.running.length ≤ 1)
    (hcomm : P.Commutes p)
    (h : P.Stepped p p' e) :
    ∃ ds, (P.serial s₀).exec ⟨P.completed p, p.ready⟩ ds = some ⟨P.completed p', p'.ready⟩ := by
  cases h with
  | take i h hidle hready hshared hrunning =>
    refine ⟨[.run], ?_⟩
    rw [completed_idle hidle, completed_running hrunning, hready, hshared]
    rfl
  | step i x f hx hf hready hshared hrunning =>
    refine ⟨[], ?_⟩
    rw [completed_running hx, completed_running hrunning, hready, hshared, finish_step hf]
    rfl
  | finish i x hx hf hready hshared hrunning =>
    refine ⟨[], ?_⟩
    rw [completed_running hx, completed_idle hrunning, hready, hshared, finish_end hf]
    rfl
  | outside e hs hout hready hrunning =>
    refine ⟨[.outside e], ?_⟩
    rw [System.exec_singleton_some, hready]
    simp [serial, serialStep, outside_completed hone hcomm hout hrunning]

/-- The strand rule: where outside events commute with the running handler, one thread gets as far
as the threads do. -/
theorem serial_of_pool (hcomm : ∀ p, (P.pool s₀ threads).Reachable p → P.Commutes p)
    (h : (P.pool s₀ threads).Reachable p) : (P.serial s₀).Reachable ⟨P.completed p, p.ready⟩ := by
  refine (pool_induction (Q := fun p => (P.serial s₀).Reachable ⟨P.completed p, p.ready⟩) ?_ ?_
    h).2
  · have hidle : (⟨s₀, [], List.replicate threads none⟩ : Pool σ ρ η).running = [] := by
      simp [Pool.running]
    rw [completed_idle hidle]
    exact System.reachable_init _
  · intro p p' e hp hone hserial hstepped
    obtain ⟨ds, hds⟩ := hstepped.completed hone (hcomm p hp)
    exact hserial.exec hds

end Handlers

end BoostLearning
