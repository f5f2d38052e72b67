import BoostLearning.Framework.Strand

/-!
# Timers that count

`bind_args_to_handle.cpp`, `mem_fun_bind.cpp` and `syn_multi_thread.cpp` print a count that the
handlers of one or two timers share. In the last of them two threads run the handlers, which are
bound to a strand.
-/

namespace BoostLearning.Tutorial

/-- The count, the timers, what was printed of which timer, and the clock. -/
structure Printer where
  count : Nat
  timers : Nat → Timer
  out : List (Nat × Nat)
  now : Nat

/-- The outcome of the test, and the value that `++` has read. -/
structure Locals where
  more : Bool
  loaded : Nat
deriving DecidableEq

/-- Time passes; a wait ends, because the timer has expired or was cancelled. -/
inductive Outside where
  | tick
  | expire (i : Nat)
  | abort (i : Nat)
deriving DecidableEq

namespace Printer

def setTimer (s : Printer) (i : Nat) (t : Timer) : Printer :=
  { s with timers := Function.update s.timers i t }

def expiresAt (s : Printer) (i expiry : Nat) : Printer :=
  s.setTimer i ((s.timers i).expiresAt expiry)

def asyncWait (s : Printer) (i : Nat) : Printer := s.setTimer i (s.timers i).asyncWait

/-- The handler of timer `i`, which ignores its error: the test, the output, the two halves of
`++`, and the next wait. -/
def print (limit i : Nat) : List (Printer × Locals → Printer × Locals) :=
  [fun (s, l) => (s, { l with more := s.count < limit }),
    fun (s, l) => (if l.more then { s with out := s.out ++ [(i, s.count)] } else s, l),
    fun (s, l) => (s, { l with loaded := s.count }),
    fun (s, l) => (if l.more then { s with count := l.loaded + 1 } else s, l),
    fun (s, l) => (if l.more then s.expiresAt i ((s.timers i).expiry + 1) else s, l),
    fun (s, l) => (if l.more then s.asyncWait i else s, l)]

def outside (s : Printer) : Outside → Option (Printer × List Nat)
  | .tick => some ({ s with now := s.now + 1 }, [])
  | .expire i => ((s.timers i).expire s.now).map fun t => (s.setTimer i t, [i])
  | .abort i => (s.timers i).abort.map fun t => (s.setTimer i t, [i])

def handlers (limit : Nat) : Handlers Printer Locals Nat Outside :=
  ⟨⟨false, 0⟩, print limit, outside⟩

def init (starts : List Nat) (now : Nat) : Printer :=
  ⟨0, fun i => (starts[i]?).elim ⟨0, 0, 0⟩ fun start => ⟨start + 1, 1, 0⟩, [], now⟩

end Printer

/-- A program that counts to a limit, with its timers, and the threads that call `run`. -/
def printer (limit : Nat) (starts : List Nat) (now threads : Nat) :
    System (Pool Printer Locals Nat) (PoolEvent Outside) :=
  (Printer.handlers limit).pool (.init starts now) threads

def bindArgsToHandle (start now : Nat) : System (Pool Printer Locals Nat) (PoolEvent Outside) :=
  printer 5 [start] now 1

def memFunBind (start now : Nat) : System (Pool Printer Locals Nat) (PoolEvent Outside) :=
  printer 5 [start] now 1

def synMultiThread (start₁ start₂ now : Nat) :
    System (Pool Printer Locals Nat) (PoolEvent Outside) := printer 10 [start₁, start₂] now 2

namespace Printer

variable {limit i j : Nat} {starts : List Nat} {now threads : Nat}
  {p p' : Pool Printer Locals Nat} {s s' : Printer}

/-! ## A timer does one thing at a time -/

def busy (p : Pool Printer Locals Nat) (i : Nat) : Nat :=
  p.running.countP fun x => x.handler = i ∧ x.pc ≤ 5

/-- What a timer is doing: waiting, about to be handled, or being handled. -/
def OneThing (p : Pool Printer Locals Nat) : Prop :=
  ∀ i, (p.shared.timers i).waits + (p.shared.timers i).cancelled + p.ready.count i + busy p i ≤ 1

@[simp] theorem setTimer_timers (t : Timer) :
    (s.setTimer i t).timers j = if j = i then t else s.timers j :=
  Function.update_apply ..

@[simp] theorem setTimer_count (t : Timer) : (s.setTimer i t).count = s.count := rfl

@[simp] theorem setTimer_out (t : Timer) : (s.setTimer i t).out = s.out := rfl

@[simp] theorem setTimer_now (t : Timer) : (s.setTimer i t).now = s.now := rfl

private theorem setTimer_comm (hij : i ≠ j) (t u : Timer) :
    (s.setTimer i t).setTimer j u = (s.setTimer j u).setTimer i t := by
  simp only [setTimer]
  rw [Function.update_comm hij.symm]

private theorem pc_le_five {pc : Nat} {f : Printer × Locals → Printer × Locals}
    (hf : (print limit i)[pc]? = some f) : pc ≤ 5 := by
  have hlt := (List.getElem?_eq_some_iff.1 hf).1
  simp only [print, List.length_cons, List.length_nil] at hlt
  omega

/-- A step of the handler of one timer does not see the others or the clock, and leaves them
alone. -/
private theorem print_frame {pc : Nat} {f : Printer × Locals → Printer × Locals} {l : Locals}
    {t : Timer}
    {n : Nat} (hf : (print limit i)[pc]? = some f) (hj : j ≠ i) :
    (f (s, l)).1.timers j = s.timers j ∧ (f (s, l)).1.now = s.now ∧
      f (s.setTimer j t, l) = ((f (s, l)).1.setTimer j t, (f (s, l)).2) ∧
      f ({ s with now := n }, l) = ({ (f (s, l)).1 with now := n }, (f (s, l)).2) := by
  match pc with
  | 0 =>
    obtain rfl := Option.some.inj hf
    exact ⟨rfl, rfl, rfl, rfl⟩
  | 1 =>
    obtain rfl := Option.some.inj hf
    cases hl : l.more <;> simp [hl, setTimer]
  | 2 =>
    obtain rfl := Option.some.inj hf
    exact ⟨rfl, rfl, rfl, rfl⟩
  | 3 =>
    obtain rfl := Option.some.inj hf
    cases hl : l.more <;> simp [hl, setTimer]
  | 4 =>
    obtain rfl := Option.some.inj hf
    cases hl : l.more with
    | false => simp [hl]
    | true =>
      refine ⟨by simp [hl, expiresAt, hj], by simp [hl, expiresAt, setTimer], ?_, ?_⟩
      · simp [hl, expiresAt, setTimer_comm hj, Ne.symm hj]
      · simp [hl, expiresAt, setTimer]
  | 5 =>
    obtain rfl := Option.some.inj hf
    cases hl : l.more with
    | false => simp [hl]
    | true =>
      refine ⟨by simp [hl, asyncWait, hj], by simp [hl, asyncWait, setTimer], ?_, ?_⟩
      · simp [hl, asyncWait, setTimer_comm hj, Ne.symm hj]
      · simp [hl, asyncWait, setTimer]
  | pc + 6 => exact absurd hf (by simp [print])

private theorem print_timers {pc : Nat} {f : Printer × Locals → Printer × Locals} {l : Locals}
    (hf : (print limit i)[pc]? = some f) (hidle : (s.timers i).waits = 0) :
    ((f (s, l)).1.timers i).cancelled = (s.timers i).cancelled ∧
      ((f (s, l)).1.timers i).waits ≤ if pc = 5 then 1 else 0 := by
  match pc with
  | 0 =>
    obtain rfl := Option.some.inj hf
    simp [hidle]
  | 1 =>
    obtain rfl := Option.some.inj hf
    cases hl : l.more <;> simp [hl, hidle]
  | 2 =>
    obtain rfl := Option.some.inj hf
    simp [hidle]
  | 3 =>
    obtain rfl := Option.some.inj hf
    cases hl : l.more <;> simp [hl, hidle]
  | 4 =>
    obtain rfl := Option.some.inj hf
    cases hl : l.more <;> simp [hl, expiresAt, Timer.expiresAt, hidle]
  | 5 =>
    obtain rfl := Option.some.inj hf
    cases hl : l.more <;> simp [hl, asyncWait, Timer.asyncWait, hidle]
  | pc + 6 => exact absurd hf (by simp [print])

private theorem outside_cases {e : Outside} {hs : List Nat} (h : s.outside e = some (s', hs)) :
    (e = .tick ∧ s' = { s with now := s.now + 1 } ∧ hs = []) ∨
      ∃ i, hs = [i] ∧
        ((e = .expire i ∧ 0 < (s.timers i).waits ∧ (s.timers i).expiry ≤ s.now ∧
          s' = s.setTimer i { s.timers i with waits := (s.timers i).waits - 1 }) ∨
        (e = .abort i ∧ 0 < (s.timers i).cancelled ∧
          s' = s.setTimer i { s.timers i with cancelled := (s.timers i).cancelled - 1 })) := by
  cases e with
  | tick =>
    simp only [outside, Option.some.injEq, Prod.mk.injEq] at h
    exact .inl ⟨rfl, h.1.symm, h.2.symm⟩
  | expire i =>
    obtain ⟨t, ht, heq⟩ := Option.map_eq_some_iff.1 h
    obtain ⟨rfl, rfl⟩ := Prod.mk.inj heq
    obtain ⟨hwaits, hexpiry, rfl⟩ := Timer.expire_eq_some.1 ht
    exact .inr ⟨i, rfl, .inl ⟨rfl, hwaits, hexpiry, rfl⟩⟩
  | abort i =>
    obtain ⟨t, ht, heq⟩ := Option.map_eq_some_iff.1 h
    obtain ⟨rfl, rfl⟩ := Prod.mk.inj heq
    obtain ⟨hcancelled, rfl⟩ := Timer.abort_eq_some.1 ht
    exact .inr ⟨i, rfl, .inr ⟨rfl, hcancelled, rfl⟩⟩

private theorem oneThing_step {e : PoolEvent Outside} (hp : OneThing p)
    (h : (handlers limit).Stepped p p' e) : OneThing p' := by
  intro j
  have hj := hp j
  cases h with
  | take i h hidle hready hshared hrunning =>
    rw [hready, List.count_cons] at hj
    simp only [busy, hidle, List.countP_nil] at hj
    simp only [busy, hrunning, hshared, List.countP_singleton, Handlers.start]
    by_cases hij : h = j <;> simp [hij] at hj ⊢ <;> omega
  | step i x f hx hf hready hshared hrunning =>
    have hpc := pc_le_five hf
    have hidle : (p.shared.timers x.handler).waits = 0 := by
      have hone := hp x.handler
      simp only [busy, hx, List.countP_singleton, hpc] at hone
      simp at hone
      omega
    obtain ⟨hcancelled, hwaits⟩ := print_timers (l := x.locals) hf hidle
    simp only [busy, hx, List.countP_singleton] at hj
    simp only [busy, hrunning, hshared, hready, List.countP_singleton]
    by_cases hij : x.handler = j
    · subst hij
      rw [hcancelled]
      simp only [hpc, true_and, decide_true, if_true] at hj
      by_cases hlast : x.pc = 5
      · simp [hlast] at hwaits ⊢
        omega
      · simp [hlast] at hwaits
        simp [hwaits]
        split <;> omega
    · have hother := print_frame (s := p.shared) (l := x.locals) (t := ⟨0, 0, 0⟩) (n := 0) hf
        (Ne.symm hij)
      rw [hother.1]
      simpa [hij] using hj
  | finish i x hx hf hready hshared hrunning =>
    simp only [busy, hrunning, hready, hshared, List.countP_nil]
    omega
  | outside e hs hout hready hrunning =>
    have hbusy : busy p' j = busy p j := by rw [busy, busy, hrunning]
    rw [hbusy, hready, List.count_append]
    rcases outside_cases hout with
      ⟨-, hs', rfl⟩ | ⟨i, rfl, ⟨-, hwaits, -, hs'⟩ | ⟨-, hcancelled, hs'⟩⟩
    · simpa [hs'] using hj
    · rw [hs']
      by_cases hij : j = i
      · subst hij
        simp
        omega
      · simpa [hij, Ne.symm hij] using hj
    · rw [hs']
      by_cases hij : j = i
      · subst hij
        simp
        omega
      · simpa [hij, Ne.symm hij] using hj

private theorem oneThing_init : OneThing ⟨.init starts now, [], List.replicate threads none⟩ := by
  intro i
  have hbusy : busy ⟨.init starts now, [], List.replicate threads none⟩ i = 0 := by
    simp [busy, Pool.running]
  rw [hbusy]
  cases h : starts[i]? <;> simp [init, h]

theorem oneThing_reachable (hp : (printer limit starts now threads).Reachable p) :
    p.running.length ≤ 1 ∧ OneThing p :=
  Handlers.pool_induction oneThing_init (fun _ _ _ _ _ h => oneThing_step h) hp

/-! ## What the threads do is what one thread does -/

/-- What happens to the clock or to another timer commutes with a step of the handler. -/
private theorem print_outside {f : Printer × Locals → Printer × Locals} {l : Locals} {e : Outside}
    {hs : List Nat} (hf : f ∈ print limit i) (hexpire : e ≠ .expire i) (habort : e ≠ .abort i)
    (h : s.outside e = some (s', hs)) :
    (f (s, l)).1.outside e = some ((f (s', l)).1, hs) ∧ (f (s', l)).2 = (f (s, l)).2 := by
  obtain ⟨pc, hpc⟩ := List.mem_iff_getElem?.1 hf
  rcases outside_cases h with ⟨rfl, rfl, rfl⟩ | ⟨j, rfl, hj⟩
  · obtain ⟨-, hnow, -, htick⟩ := print_frame (s := s) (l := l) (t := ⟨0, 0, 0⟩) (n := s.now + 1)
      hpc (Nat.succ_ne_self i)
    rw [htick]
    simp [outside, hnow]
  · have hne : j ≠ i := by
      rintro rfl
      rcases hj with ⟨rfl, -⟩ | ⟨rfl, -⟩
      · exact hexpire rfl
      · exact habort rfl
    rcases hj with ⟨rfl, hwaits, hexpiry, rfl⟩ | ⟨rfl, hcancelled, rfl⟩
    · obtain ⟨htimer, hnow, hset, -⟩ := print_frame (s := s) (l := l)
        (t := { s.timers j with waits := (s.timers j).waits - 1 }) (n := 0) hpc hne
      rw [hset]
      simp [outside, Timer.expire, htimer, hnow, hwaits, hexpiry]
    · obtain ⟨htimer, -, hset, -⟩ := print_frame (s := s) (l := l)
        (t := { s.timers j with cancelled := (s.timers j).cancelled - 1 }) (n := 0) hpc hne
      rw [hset]
      simp [outside, Timer.abort, htimer, hcancelled]

private theorem commutes (hp : (printer limit starts now threads).Reachable p) :
    (handlers limit).Commutes p := by
  intro x e s hs hx hout
  by_cases hpc : x.pc ≤ 5
  · have hone := (oneThing_reachable hp).2 x.handler
    simp only [busy, hx, List.countP_singleton, hpc] at hone
    simp at hone
    have hidle : (p.shared.timers x.handler).waits = 0 ∧
        (p.shared.timers x.handler).cancelled = 0 := by omega
    have hother : e ≠ .expire x.handler ∧ e ≠ .abort x.handler := by
      rcases outside_cases hout with ⟨rfl, -⟩ | ⟨j, -, ⟨rfl, hwaits, -⟩ | ⟨rfl, hcancelled, -⟩⟩
      · simp
      · refine ⟨?_, by simp⟩
        intro heq
        obtain rfl := Outside.expire.inj heq
        omega
      · refine ⟨by simp, ?_⟩
        intro heq
        obtain rfl := Outside.abort.inj heq
        omega
    apply Handlers.finish_outside _ hout
    intro f hf s l t h
    exact print_outside hf hother.1 hother.2 h
  · have hend : ((handlers limit).body x.handler)[x.pc]? = none := by
      simp only [handlers, print, List.getElem?_eq_none_iff, List.length_cons, List.length_nil]
      omega
    rw [Handlers.finish_end hend, Handlers.finish_end hend]
    exact hout

/-! ## One thread -/

def printed (s : Printer) (i : Nat) : Nat := (s.out.map Prod.fst).count i

/-- The limit on the count, the lines, and every timer: it waits or is about to be handled until
the limit is reached, expires one second after the other, and is never early. -/
structure Counted (limit : Nat) (starts : List Nat) (q : Serial Printer Nat) : Prop where
  count_le : q.shared.count ≤ limit
  out : q.shared.out.map Prod.snd = List.range q.shared.count
  one : ∀ i, (q.shared.timers i).waits + q.ready.count i ≤ if i < starts.length then 1 else 0
  goes_on : ∀ i < starts.length, (q.shared.timers i).waits + q.ready.count i = 0 →
    q.shared.count = limit
  cancelled : ∀ i, (q.shared.timers i).cancelled = 0
  expiry : ∀ i start, starts[i]? = some start →
    (q.shared.timers i).expiry = start + 1 + q.shared.printed i
  due : ∀ i ∈ q.ready, (q.shared.timers i).expiry ≤ q.shared.now
  late : ∀ i start, starts[i]? = some start →
    q.shared.printed i = 0 ∨ start + q.shared.printed i ≤ q.shared.now

private theorem counted_init : Counted limit starts ⟨.init starts now, []⟩ where
  count_le := Nat.zero_le limit
  out := rfl
  one i := by
    cases h : starts[i]? with
    | none => simp [init, h]
    | some start => simp [init, (List.getElem?_eq_some_iff.1 h).1]
  goes_on i hi hidle := by
    simp [init, List.getElem?_eq_getElem hi] at hidle
  cancelled i := by
    cases h : starts[i]? <;> simp [init, h]
  expiry i start h := by simp [init, h, printed]
  due := by simp
  late i start h := .inl rfl

private theorem finish_print (s : Printer) : (handlers limit).finish ((handlers limit).start i) s =
    if s.count < limit then
      { s with
        count := s.count + 1
        out := s.out ++ [(i, s.count)]
        timers := Function.update s.timers i
          ⟨(s.timers i).expiry + 1, 1, (s.timers i).cancelled + (s.timers i).waits⟩ }
    else s := by
  by_cases h : s.count < limit <;>
    simp [Handlers.finish, Handlers.start, handlers, print, h, expiresAt, asyncWait, setTimer,
      Timer.expiresAt, Timer.asyncWait]

private theorem Counted.run {q : Serial Printer Nat} (hq : Counted limit starts q) {rest : List Nat}
    (hready : q.ready = i :: rest) :
    Counted limit starts ⟨(handlers limit).finish ((handlers limit).start i) q.shared, rest⟩ := by
  obtain ⟨hle, hout, hone, hgoes, hcancelled, hexpiry, hdue, hlate⟩ := hq
  rw [hready] at hdue
  have hi := hone i
  rw [hready, List.count_cons_self] at hi
  have hlt : i < starts.length := by
    by_contra hge
    rw [if_neg hge] at hi
    omega
  rw [if_pos hlt] at hi
  have hcount : ∀ j, j ≠ i → rest.count j = q.ready.count j := by
    intro j hj
    rw [hready, List.count_cons_of_ne (Ne.symm hj)]
  rw [finish_print]
  by_cases hmore : q.shared.count < limit
  · rw [if_pos hmore]
    have hprinted : ∀ j, printed { q.shared with
        count := q.shared.count + 1, out := q.shared.out ++ [(i, q.shared.count)]
        timers := Function.update q.shared.timers i ⟨(q.shared.timers i).expiry + 1, 1,
          (q.shared.timers i).cancelled + (q.shared.timers i).waits⟩ } j =
        q.shared.printed j + if j = i then 1 else 0 := by
      intro j
      by_cases hj : j = i
      · simp [printed, hj]
      · simp [printed, hj, Ne.symm hj]
    refine ⟨hmore, ?_, ?_, ?_, ?_, ?_, ?_, ?_⟩
    · simp [hout, List.range_succ]
    · intro j
      by_cases hj : j = i
      · subst hj
        simp [hlt]
        omega
      · simpa [hj, hcount j hj] using hone j
    · intro j hjlt hidle
      by_cases hj : j = i
      · simp [hj] at hidle
      · have hlimit := hgoes j hjlt (by simpa [hj, hcount j hj] using hidle)
        omega
    · intro j
      by_cases hj : j = i
      · subst hj
        simp [hcancelled j]
        omega
      · simpa [hj] using hcancelled j
    · intro j start hstart
      rw [hprinted]
      by_cases hj : j = i
      · subst hj
        simp [hexpiry j start hstart]
        omega
      · simpa [hj] using hexpiry j start hstart
    · intro j hmem
      have hj : j ≠ i := by
        rintro rfl
        have hpos : 0 < rest.count j := List.count_pos_iff.2 hmem
        omega
      simpa [hj] using hdue j (List.mem_cons_of_mem i hmem)
    · intro j start hstart
      rw [hprinted]
      by_cases hj : j = i
      · subst hj
        have hexp := hexpiry j start hstart
        have hnow := hdue j List.mem_cons_self
        simp
        omega
      · simpa [hj] using hlate j start hstart
  · rw [if_neg hmore]
    refine ⟨hle, hout, ?_, ?_, hcancelled, hexpiry, ?_, hlate⟩
    · intro j
      by_cases hj : j = i
      · subst hj
        simp [hlt]
        omega
      · simpa [hcount j hj] using hone j
    · intro j _ _
      simp only
      omega
    · intro j hmem
      exact hdue j (List.mem_cons_of_mem i hmem)

private theorem Counted.outside {q : Serial Printer Nat} (hq : Counted limit starts q) {e : Outside}
    {hs : List Nat} (h : q.shared.outside e = some (s', hs)) :
    Counted limit starts ⟨s', q.ready ++ hs⟩ := by
  obtain ⟨hle, hout, hone, hgoes, hcancelled, hexpiry, hdue, hlate⟩ := hq
  rcases outside_cases h with ⟨-, rfl, rfl⟩ | ⟨i, rfl, ⟨-, hwaits, hnow, rfl⟩ | ⟨-, hpos, -⟩⟩
  · refine ⟨hle, hout, by simpa using hone, by simpa using hgoes, hcancelled, hexpiry, ?_, ?_⟩
    · intro j hj
      have hj := hdue j (by simpa using hj)
      simp only
      omega
    · intro j start hstart
      have hj := hlate j start hstart
      simp only [printed] at hj ⊢
      omega
  · -- The wait becomes a handler that is ready.
    have hsum : ∀ j, ((q.shared.setTimer i { q.shared.timers i with
        waits := (q.shared.timers i).waits - 1 }).timers j).waits + (q.ready ++ [i]).count j =
        (q.shared.timers j).waits + q.ready.count j := by
      intro j
      rw [List.count_append]
      by_cases hj : j = i
      · subst hj
        simp
        omega
      · simp [hj, Ne.symm hj]
    refine ⟨hle, hout, ?_, ?_, ?_, ?_, ?_, hlate⟩
    · intro j
      rw [hsum]
      exact hone j
    · intro j hj hidle
      exact hgoes j hj ((hsum j).symm.trans hidle)
    · intro j
      by_cases hj : j = i <;> simp [hj, hcancelled]
    · intro j start hstart
      have hj := hexpiry j start hstart
      by_cases hji : j = i
      · subst hji
        simpa [printed] using hj
      · simpa [printed, hji] using hj
    · intro j hj
      rcases List.mem_append.1 hj with hj | hj
      · have hexp := hdue j hj
        by_cases hji : j = i
        · subst hji
          simpa using hexp
        · simpa [hji] using hexp
      · obtain rfl := List.mem_singleton.1 hj
        simpa using hnow
  · rw [hcancelled i] at hpos
    omega

private theorem counted_serial {q : Serial Printer Nat}
    (hq : ((handlers limit).serial (.init starts now)).Reachable q) : Counted limit starts q := by
  apply System.reachable_induction (P := Counted limit starts) counted_init _ hq
  rintro q e q' - hcounted he
  cases e with
  | run =>
    simp only [Handlers.serial, Handlers.serialStep] at he
    split at he
    · rename_i i rest hready
      obtain rfl := Option.some.inj he
      exact hcounted.run hready
    · exact absurd he (by simp)
  | outside e =>
    obtain ⟨⟨s, hs⟩, hout, rfl⟩ := Option.map_eq_some_iff.1 he
    exact hcounted.outside hout

/-! ## All threads -/

private theorem counted_completed (hp : (printer limit starts now threads).Reachable p) :
    Counted limit starts ⟨(handlers limit).completed p, p.ready⟩ :=
  counted_serial (Handlers.serial_of_pool (fun _ => commutes) hp)

private theorem finish_out (x : Running Locals Nat) (s : Printer) :
    s.out <+: ((handlers limit).finish x s).out ∧ ((handlers limit).finish x s).now = s.now := by
  refine Handlers.finish_preserves (P := handlers limit) (Q := fun t =>
    s.out <+: t.out ∧ t.now = s.now) ?_ ?_
  · intro f hf t l ht
    simp only [handlers, print, List.mem_cons, List.not_mem_nil, or_false] at hf
    rcases hf with rfl | rfl | rfl | rfl | rfl | rfl
    · exact ht
    · cases hl : l.more with
      | false => simpa [hl] using ht
      | true => simpa [hl] using ⟨ht.1.trans (List.prefix_append ..), ht.2⟩
    · exact ht
    all_goals cases hl : l.more <;> simpa [hl, expiresAt, asyncWait, setTimer] using ht
  · exact ⟨List.prefix_rfl, rfl⟩

private theorem out_prefix_completed (limit : Nat) (hone : p.running.length ≤ 1) :
    p.shared.out <+: ((handlers limit).completed p).out ∧
      ((handlers limit).completed p).now = p.shared.now := by
  cases hx : p.running with
  | nil =>
    rw [Handlers.completed_idle hx]
    exact ⟨List.prefix_rfl, rfl⟩
  | cons x rest =>
    obtain rfl : rest = [] := by
      rw [hx, List.length_cons] at hone
      exact List.length_eq_zero_iff.1 (by omega)
    rw [Handlers.completed_running hx]
    exact finish_out x p.shared

private theorem range_prefix {m n : Nat} (h : m ≤ n) : List.range m <+: List.range n := by
  obtain ⟨k, rfl⟩ := Nat.le.dest h
  rw [List.range_add]
  exact List.prefix_append ..

def OutOfWork (timers : Nat) (p : Pool Printer Locals Nat) : Prop :=
  p.running = [] ∧ p.ready = [] ∧
    ∀ i < timers, (p.shared.timers i).waits = 0 ∧ (p.shared.timers i).cancelled = 0

instance (timers : Nat) (p : Pool Printer Locals Nat) : Decidable (OutOfWork timers p) :=
  inferInstanceAs (Decidable (_ ∧ _ ∧ _))

end Printer

/-- However the threads take turns: no two of them run a handler, the lines count from zero, no
timer prints its `k`-th line in less than `k` seconds, and at the end the count is at its limit. -/
theorem printer_prints {limit : Nat} {starts : List Nat} {now threads : Nat}
    {p : Pool Printer Locals Nat} (hp : (printer limit starts now threads).Reachable p) :
    p.running.length ≤ 1 ∧ p.shared.out.map Prod.snd <+: List.range limit ∧
      (∀ i start, starts[i]? = some start →
        p.shared.printed i = 0 ∨ start + p.shared.printed i ≤ p.shared.now) ∧
      (starts ≠ [] → Printer.OutOfWork starts.length p →
        p.shared.count = limit ∧ p.shared.out.map Prod.snd = List.range limit) := by
  have hone := (Printer.oneThing_reachable hp).1
  obtain ⟨hle, hout, -, hgoes, -, -, -, hlate⟩ := Printer.counted_completed hp
  obtain ⟨hpart, hnow⟩ := Printer.out_prefix_completed limit hone
  refine ⟨hone, ?_, ?_, ?_⟩
  · have hlines := hpart.map Prod.snd
    rw [hout] at hlines
    exact hlines.trans (Printer.range_prefix hle)
  · intro i start hstart
    have hprinted : p.shared.printed i ≤ ((Printer.handlers limit).completed p).printed i :=
      (hpart.map Prod.fst).sublist.count_le i
    have hi := hlate i start hstart
    simp only [hnow] at hi
    omega
  · rintro hstarts ⟨hx, hready, hidle⟩
    rw [Handlers.completed_idle hx] at hout hgoes
    have hpos := List.length_pos_iff.2 hstarts
    have hcount := hgoes 0 hpos (by simp [hready, hidle 0 hpos])
    exact ⟨hcount, hcount ▸ hout⟩

/-- Both threads have run a handler, ten lines are printed and nothing is left. -/
def bothRun : List (PoolEvent Outside) :=
  let handler (i thread : Nat) : List (PoolEvent Outside) :=
    .outside (.expire i) :: .take thread :: List.replicate 7 (.step thread)
  let round : List (PoolEvent Outside) := .outside .tick :: handler 0 0 ++ handler 1 1
  (List.replicate 6 round).flatten

theorem printer_prints_bothRun :
    ((synMultiThread 0 0 0).exec (synMultiThread 0 0 0).init bothRun).isSome = true ∧
      ((synMultiThread 0 0 0).final bothRun).running.length ≤ 1 ∧
      ((synMultiThread 0 0 0).final bothRun).shared.out.map Prod.snd = List.range 10 := by
  have hrun : ((synMultiThread 0 0 0).exec (synMultiThread 0 0 0).init bothRun).isSome = true := by
    decide +kernel
  have hprints := printer_prints (p := (synMultiThread 0 0 0).final bothRun)
    ((synMultiThread 0 0 0).reachable_final bothRun)
  exact ⟨hrun, hprints.1, (hprints.2.2.2 (by simp) (by decide +kernel)).2⟩

namespace Printer

variable {limit i : Nat} {starts : List Nat} {now threads : Nat} {p p' : Pool Printer Locals Nat}
  {s s' : Printer}

/-! ## The end -/

def waiting (timers : Nat) (s : Printer) : Nat :=
  (List.range timers).countP fun i => 0 < (s.timers i).waits

def left (limit timers : Nat) (p : Pool Printer Locals Nat) : Nat :=
  let s := (handlers limit).completed p
  9 * (limit - s.count) + 9 * s.waiting timers + 8 * p.ready.length +
    (p.running.head?.elim 0 fun x => 6 - x.pc + 1)

def worked : PoolEvent Outside → Bool
  | .outside .tick => false
  | _ => true

private theorem countP_range_update {n : Nat} (hi : i < n) (q : Nat → Bool) (b : Bool) :
    (List.range n).countP (Function.update q i b) + (if q i then 1 else 0) =
      (List.range n).countP q + if b then 1 else 0 := by
  induction n with
  | zero => omega
  | succ n ih =>
    simp only [List.range_succ, List.countP_append, List.countP_singleton]
    by_cases hin : i = n
    · subst hin
      have hsame : (List.range i).countP (Function.update q i b) = (List.range i).countP q := by
        apply List.countP_congr
        intro j hj
        have hne : j ≠ i := by simpa using Nat.ne_of_lt (List.mem_range.1 hj)
        simp [hne]
      rw [hsame]
      simp
      omega
    · have hlt := ih (by omega)
      rw [Function.update_of_ne (Ne.symm hin)]
      omega

private theorem waiting_setTimer {timers : Nat} (hi : i < timers) (t : Timer) :
    (s.setTimer i t).waiting timers + (if 0 < (s.timers i).waits then 1 else 0) =
      s.waiting timers + if 0 < t.waits then 1 else 0 := by
  have hupdate := countP_range_update hi (fun j => decide (0 < (s.timers j).waits))
    (decide (0 < t.waits))
  have heq : (fun j => decide (0 < ((s.setTimer i t).timers j).waits)) =
      Function.update (fun j => decide (0 < (s.timers j).waits)) i (decide (0 < t.waits)) := by
    funext j
    by_cases hj : j = i
    · subst hj
      simp
    · simp [hj]
  simp only [waiting, heq]
  simpa using hupdate

private theorem Counted.waits_one {q : Serial Printer Nat} (hq : Counted limit starts q)
    (hi : 0 < (q.shared.timers i).waits + q.ready.count i) :
    i < starts.length ∧ (q.shared.timers i).waits + q.ready.count i = 1 := by
  have hone := hq.one i
  split at hone <;> omega

private theorem left_idle {timers : Nat} (h : p.running = []) : left limit timers p =
    9 * (limit - p.shared.count) + 9 * p.shared.waiting timers + 8 * p.ready.length := by
  simp [left, Handlers.completed_idle h, h]

private theorem left_running {timers : Nat} {x : Running Locals Nat} (h : p.running = [x]) :
    left limit timers p = 9 * (limit - ((handlers limit).finish x p.shared).count) +
      9 * ((handlers limit).finish x p.shared).waiting timers + 8 * p.ready.length +
      (6 - x.pc + 1) := by
  simp [left, Handlers.completed_running h, h]

private theorem finish_left (limit : Nat) {timers : Nat} (hi : i < timers)
    (hidle : (s.timers i).waits = 0) :
    9 * (limit - ((handlers limit).finish ((handlers limit).start i) s).count) +
        9 * ((handlers limit).finish ((handlers limit).start i) s).waiting timers ≤
      9 * (limit - s.count) + 9 * s.waiting timers := by
  rw [finish_print]
  by_cases hmore : s.count < limit
  · rw [if_pos hmore]
    have hwaiting := waiting_setTimer (s := s) hi ⟨(s.timers i).expiry + 1, 1,
      (s.timers i).cancelled + (s.timers i).waits⟩
    simp only [waiting, setTimer, hidle, Nat.lt_irrefl, if_false, Nat.zero_lt_one, if_true]
      at hwaiting
    simp only [waiting, hidle]
    omega
  · exact Nat.le_of_eq (by rw [if_neg hmore])

private theorem left_step (hp : (printer limit starts now threads).Reachable p)
    {e : PoolEvent Outside}
    (h : (handlers limit).Stepped p p' e) :
    (if worked e then 1 else 0) + left limit starts.length p' ≤ left limit starts.length p := by
  have hone := (oneThing_reachable hp).1
  have hcounted := counted_completed hp
  cases h with
  | take j i hidle hready hshared hrunning =>
    rw [Handlers.completed_idle hidle, hready] at hcounted
    have hpos : 0 < (i :: p'.ready).count i := List.count_pos_iff.2 List.mem_cons_self
    obtain ⟨hlt, hsum⟩ := hcounted.waits_one (i := i) (by simp only; omega)
    have hle := finish_left limit (s := p.shared) hlt (by simp only at hsum; omega)
    rw [left_idle hidle, left_running hrunning, hshared, hready, List.length_cons]
    simp only [worked, if_true, Handlers.start] at hle ⊢
    omega
  | step j x f hx hf hready hshared hrunning =>
    have hpc := pc_le_five hf
    rw [left_running hx, left_running hrunning, hshared, hready, Handlers.finish_step hf]
    simp only [worked, if_true]
    omega
  | finish j x hx hf hready hshared hrunning =>
    rw [left_running hx, left_idle hrunning, hshared, hready, Handlers.finish_end hf]
    simp only [worked, if_true]
    omega
  | outside e hs hout hready hrunning =>
    have hcompleted := Handlers.outside_completed hone (commutes hp) hout hrunning
    simp only [left, hready, hrunning]
    rcases outside_cases hcompleted with
      ⟨rfl, hs', rfl⟩ | ⟨i, rfl, ⟨rfl, hwaits, -, hs'⟩ | ⟨-, hpos, -⟩⟩
    · simp [hs', worked, waiting]
    · obtain ⟨hlt, hsum⟩ := hcounted.waits_one (i := i) (by simp only; omega)
      have hwaiting := waiting_setTimer (s := (handlers limit).completed p) hlt
        { ((handlers limit).completed p).timers i with
          waits := (((handlers limit).completed p).timers i).waits - 1 }
      simp only at hsum hwaiting
      rw [if_pos hwaits, if_neg (by omega)] at hwaiting
      rw [hs', setTimer_count]
      simp only [worked, if_true, List.length_append, List.length_singleton]
      omega
    · have hzero := hcounted.cancelled i
      simp only at hzero
      omega

private theorem exec_ticks (k : Nat) (p : Pool Printer Locals Nat) :
    (printer limit starts now threads).exec p (List.replicate k (.outside .tick)) =
      some { p with shared := { p.shared with now := p.shared.now + k } } := by
  induction k generalizing p with
  | zero => rfl
  | succ k ih =>
    rw [List.replicate_succ, System.exec]
    have hstep : (printer limit starts now threads).step p (.outside .tick) =
        some { p with shared := { p.shared with now := p.shared.now + 1 } } := by
      simp [printer, Handlers.pool, Handlers.poolStep, handlers, outside]
    rw [hstep, Option.bind_some, ih]
    simp only [Nat.add_assoc, Nat.add_comm 1 k]

/-- Unless nothing is left, time makes something happen. -/
private theorem exists_worked (hthreads : 0 < threads)
    (hp : (printer limit starts now threads).Reachable p) (h : ¬ OutOfWork starts.length p) :
    ∃ k e, worked e = true ∧ ((printer limit starts now threads).exec p
      (List.replicate k (.outside .tick) ++ [e])).isSome = true := by
  have hlength := Handlers.threads_reachable hp
  by_cases hbusy : p.running ≠ [] ∨ p.ready ≠ []
  · obtain ⟨i, hi | hi⟩ := Handlers.exists_poolStep (P := handlers limit) (hlength ▸ hthreads) hbusy
    · refine ⟨0, .step i, rfl, ?_⟩
      obtain ⟨p', hp'⟩ := Option.isSome_iff_exists.1 hi
      simp [System.exec, printer, Handlers.pool, hp']
    · refine ⟨0, .take i, rfl, ?_⟩
      obtain ⟨p', hp'⟩ := Option.isSome_iff_exists.1 hi
      simp [System.exec, printer, Handlers.pool, hp']
  · simp only [ne_eq, not_or, not_not] at hbusy
    have htimer : ∃ i, 0 < (p.shared.timers i).waits ∨ 0 < (p.shared.timers i).cancelled := by
      by_contra hnone
      refine h ⟨hbusy.1, hbusy.2, ?_⟩
      intro i _
      have hi := not_exists.1 hnone i
      omega
    obtain ⟨i, hwaits | hcancelled⟩ := htimer
    · refine ⟨(p.shared.timers i).expiry - p.shared.now, .outside (.expire i), rfl, ?_⟩
      have hnow : (p.shared.timers i).expiry ≤
          p.shared.now + ((p.shared.timers i).expiry - p.shared.now) := by omega
      rw [System.exec_append, exec_ticks]
      simp [System.exec, printer, Handlers.pool, Handlers.poolStep, handlers, outside,
        Timer.expire, hwaits, hnow]
    · refine ⟨0, .outside (.abort i), rfl, ?_⟩
      simp [System.exec, printer, Handlers.pool, Handlers.poolStep, handlers, outside,
        Timer.abort, hcancelled]

end Printer

/-- However the threads take turns, they make no more than nine steps for each count and each timer,
and as long as work is left, some time makes another step possible. -/
theorem printer_ends {limit : Nat} {starts : List Nat} {now threads : Nat}
    {es : List (PoolEvent Outside)} {p : Pool Printer Locals Nat} (hthreads : 0 < threads)
    (h : (printer limit starts now threads).exec (printer limit starts now threads).init es =
      some p) :
    es.countP Printer.worked ≤ 9 * (limit + starts.length) ∧
      (Printer.OutOfWork starts.length p ∨ ∃ k e, Printer.worked e = true ∧
        ((printer limit starts now threads).exec p
          (List.replicate k (.outside .tick) ++ [e])).isSome = true) := by
  have hreach : (printer limit starts now threads).Reachable p := ⟨es, h⟩
  constructor
  · have hbound := System.exec_countP_le (P := (printer limit starts now threads).Reachable)
      (p := Printer.worked) (f := Printer.left limit starts.length) ?_
      (System.reachable_init _) h
    · have hinit : Printer.left limit starts.length (printer limit starts now threads).init ≤
          9 * limit + 9 * starts.length := by
        rw [Printer.left_idle (by simp [printer, Handlers.pool, Pool.running])]
        have hwaiting : Printer.waiting starts.length (Printer.init starts now) ≤
            starts.length := by
          simpa [Printer.waiting] using List.countP_le_length (l := List.range starts.length)
        simp only [printer, Handlers.pool, List.length_nil]
        have hcount : (Printer.init starts now).count = 0 := rfl
        omega
      omega
    · intro s e t hs he
      have hstepped := Handlers.stepped (Printer.oneThing_reachable hs).1 he
      exact ⟨hs.step he, Printer.left_step hs hstepped⟩
  · by_cases hwork : Printer.OutOfWork starts.length p
    · exact .inl hwork
    · exact .inr (Printer.exists_worked hthreads hreach hwork)

theorem printer_ends_bothRun : bothRun.countP Printer.worked ≤ 9 * (10 + 2) := by
  have hrun : ((synMultiThread 0 0 0).exec (synMultiThread 0 0 0).init bothRun).isSome = true := by
    decide +kernel
  have hends := printer_ends (by decide : 0 < 2) (System.exec_final (synMultiThread 0 0 0) hrun)
  exact hends.1

end BoostLearning.Tutorial
