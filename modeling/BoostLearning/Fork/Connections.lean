import BoostLearning.Fork.Roles

/-!
# Who serves a connection

Every process keeps to its role, and `fork()` is called once for each connection, so that a
connection belongs to the child that was made for it, or to nobody.
-/

namespace BoostLearning.Fork

@[simp]
def Act.forkOf (c : Conn) : Act → Option (Option Pid)
  | .forked d r => if d = some c then some r else none
  | _ => none

/-- The children that `fork()` has made for a connection, `none` for a failure. -/
def forksOf (c : Conn) (tr : List Obs) : List (Option Pid) := tr.filterMap fun o => o.act.forkOf c

@[simp]
theorem forksOf_nil (c : Conn) : forksOf c [] = [] := rfl

@[simp]
theorem forksOf_append (c : Conn) (tr obs : List Obs) :
    forksOf c (tr ++ obs) = forksOf c tr ++ forksOf c obs := List.filterMap_append

@[simp]
theorem forksOf_cons (c : Conn) (o : Obs) (tr : List Obs) :
    forksOf c (o :: tr) = (o.act.forkOf c).toList ++ forksOf c tr := by
  unfold forksOf
  rw [List.filterMap_cons]
  cases o.act.forkOf c <;> rfl

private theorem mem_forksOf_append {c : Conn} {r : Option Pid} {tr : List Obs} (obs : List Obs)
    (h : r ∈ forksOf c tr) : r ∈ forksOf c (tr ++ obs) := by
  rw [forksOf_append]
  exact List.mem_append_left _ h

namespace World

def pending (w : World) : Option Conn := w.procs[0]?.bind Proc.pending

/-- Every process and everything seen of it fits its role; a connection that is not pending has
been forked for once. -/
structure Inv (w : World) : Prop where
  original : ∃ x, w.procs[0]? = some x ∧ x.Original
  born : ∀ q x, q ≠ 0 → w.procs[q]? = some x → ∃ c, some q ∈ forksOf c w.trace
  served : ∀ c q, some q ∈ forksOf c w.trace →
    q ≠ 0 ∧ ∃ x, w.procs[q]? = some x ∧ x.Child c ∧
      (x.phase = .idle → ⟨q, .asyncRead (some c)⟩ ∈ w.trace)
  role : ∀ o ∈ w.trace, if o.pid = 0 then o.act.serves = true
    else ∃ c, some o.pid ∈ forksOf c w.trace ∧ o.act.echoes c = true
  accepted : ∀ o ∈ w.trace, ∀ c, o.act = .accepted c → c < w.conns
  pending_lt : ∀ c, w.pending = some c → c < w.conns
  forks : ∀ c, if c < w.conns ∧ w.pending ≠ some c then ∃ r, forksOf c w.trace = [r]
    else forksOf c w.trace = []

variable {w : World} {p q : Pid} {x y : Proc} {acts : List Act}

theorem Inv.original_of (hi : w.Inv) (hx : w.procs[0]? = some x) : x.Original := by
  obtain ⟨y, hy, hyo⟩ := hi.original
  rw [hx] at hy
  exact Option.some.inj hy ▸ hyo

private theorem Inv.pending_eq (hi : w.Inv) (hx : w.procs[0]? = some x) (hp : x.phase = .forking) :
    ∃ c, x.socket = some c ∧ w.pending = some c := by
  obtain ⟨c, hc, hpend⟩ := (hi.original_of hx).pending_eq hp
  exact ⟨c, hc, by rw [pending, hx, Option.bind_some, hpend]⟩

private theorem Inv.served_of (hi : w.Inv) {c : Conn} (hq : some q ∈ forksOf c w.trace)
    (hx : w.procs[q]? = some x) :
    q ≠ 0 ∧ x.Child c ∧ (x.phase = .idle → ⟨q, .asyncRead (some c)⟩ ∈ w.trace) := by
  obtain ⟨hne, y, hy, hyc⟩ := hi.served c q hq
  rw [hx] at hy
  exact ⟨hne, Option.some.inj hy ▸ hyc⟩

private theorem Inv.child_of (hi : w.Inv) (hq : q ≠ 0) (hx : w.procs[q]? = some x) :
    ∃ c, some q ∈ forksOf c w.trace ∧ x.Child c := by
  obtain ⟨c, hc⟩ := hi.born q x hq hx
  exact ⟨c, hc, (hi.served_of hc hx).2.1⟩

@[simp]
theorem perform_procs (w : World) (p : Pid) (x : Proc) (acts : List Act) :
    (w.perform p x acts).procs = w.procs.set p x := rfl

@[simp]
theorem perform_trace (w : World) (p : Pid) (x : Proc) (acts : List Act) :
    (w.perform p x acts).trace = w.trace ++ acts.map (⟨p, ·⟩) := rfl

theorem procs_set_self (hx : w.procs[p]? = some x) : (w.procs.set p y)[p]? = some y := by
  have hp := (List.getElem?_eq_some_iff.1 hx).1
  rw [List.getElem?_set_self hp]

private theorem perform_pending_zero (hx : w.procs[0]? = some x) :
    (w.perform 0 y acts).pending = y.pending := by
  simp [pending, procs_set_self hx]

private theorem perform_pending_of_ne (hp : p ≠ 0) : (w.perform p y acts).pending = w.pending := by
  simp [pending, List.getElem?_set_ne hp]

def Quiet (acts : List Act) : Prop := ∀ act ∈ acts, ∀ c, act.forkOf c = none ∧ act ≠ .accepted c

private theorem forksOf_quiet (h : Quiet acts) (c : Conn) (p : Pid) :
    forksOf c (acts.map (⟨p, ·⟩)) = [] := by
  apply List.filterMap_eq_nil_iff.2
  intro o ho
  obtain ⟨act, hact, rfl⟩ := List.mem_map.1 ho
  exact (h act hact c).1

private theorem quiet_of_handled {a : Action} (h : Handled x a y acts) : Quiet acts := by
  intro act hact c
  cases h with
  | received hp h hpos hle =>
    cases List.mem_cons.1 hact with
    | inl hact => simp [hact]
    | inr hact => simp [List.mem_singleton.1 hact]
  | _ => simp_all

private theorem quiet_of_echoes {c : Conn} (h : ∀ act ∈ acts, act.echoes c = true) :
    Quiet acts := by
  intro act hact d
  have := h act hact
  cases act <;> simp_all

private theorem Inv.role_mono (hi : w.Inv) {tr : List Obs} {o : Obs} (ho : o ∈ w.trace) :
    if o.pid = 0 then o.act.serves = true
      else ∃ c, some o.pid ∈ forksOf c (w.trace ++ tr) ∧ o.act.echoes c = true := by
  have hrole := hi.role o ho
  split
  · rename_i hpid
    rwa [if_pos hpid] at hrole
  · rename_i hpid
    rw [if_neg hpid] at hrole
    obtain ⟨c, hc, hecho⟩ := hrole
    exact ⟨c, mem_forksOf_append _ hc, hecho⟩

/-- A step of the first process that makes no child. -/
private theorem Inv.perform_original (hi : w.Inv) (hx : w.procs[0]? = some x) (hy : y.Original)
    (hserves : ∀ act ∈ acts, act.serves = true) {n : Nat} (hn : w.conns ≤ n)
    (haccepted : ∀ c, .accepted c ∈ acts → c < n) (hpending : ∀ c, y.pending = some c → c < n)
    (hchild : ∀ c q, some q ∉ forksOf c (acts.map (⟨0, ·⟩)))
    (hforks : ∀ c, if c < n ∧ y.pending ≠ some c
      then ∃ r, forksOf c w.trace ++ forksOf c (acts.map (⟨0, ·⟩)) = [r]
      else forksOf c w.trace ++ forksOf c (acts.map (⟨0, ·⟩)) = []) :
    ({ w with conns := n }.perform 0 y acts).Inv := by
  have hpend : ({ w with conns := n }.perform 0 y acts).pending = y.pending :=
    perform_pending_zero (w := { w with conns := n }) hx
  constructor
  case original =>
    exact ⟨y, procs_set_self hx, hy⟩
  case born =>
    intro q z hq hz
    rw [perform_procs, List.getElem?_set_ne (Ne.symm hq)] at hz
    obtain ⟨c, hc⟩ := hi.born q z hq hz
    exact ⟨c, mem_forksOf_append _ hc⟩
  case served =>
    intro c q hq
    rw [perform_trace, forksOf_append] at hq
    cases List.mem_append.1 hq with
    | inr hnew => exact absurd hnew (hchild c q)
    | inl hold =>
      obtain ⟨hne, z, hz, hzc, hread⟩ := hi.served c q hold
      refine ⟨hne, z, ?_, hzc, fun hidle => List.mem_append_left _ (hread hidle)⟩
      rw [perform_procs, List.getElem?_set_ne (Ne.symm hne)]
      exact hz
  case role =>
    intro o ho
    cases List.mem_append.1 ho with
    | inl hold => exact hi.role_mono hold
    | inr hnew =>
      obtain ⟨act, hact, rfl⟩ := List.mem_map.1 hnew
      exact hserves act hact
  case accepted =>
    intro o ho c hc
    cases List.mem_append.1 ho with
    | inl hold => exact Nat.lt_of_lt_of_le (hi.accepted o hold c hc) hn
    | inr hnew =>
      obtain ⟨act, hact, rfl⟩ := List.mem_map.1 hnew
      exact haccepted c (hc ▸ hact)
  case pending_lt =>
    intro c hc
    exact hpending c (hpend ▸ hc)
  case forks =>
    intro c
    rw [hpend, perform_trace, forksOf_append]
    exact hforks c

private theorem Inv.perform_quiet (hi : w.Inv) (hx : w.procs[0]? = some x) (hy : y.Original)
    (hserves : ∀ act ∈ acts, act.serves = true) (hquiet : Quiet acts)
    (hpending : y.pending = x.pending) : (w.perform 0 y acts).Inv := by
  have hpend : w.pending = y.pending := by simp [pending, hx, hpending]
  apply hi.perform_original hx hy hserves (Nat.le_refl _)
  · intro c hc
    exact absurd rfl (hquiet _ hc c).2
  · intro c hc
    exact hi.pending_lt c (hpend.trans hc)
  · intro c q
    rw [forksOf_quiet hquiet]
    exact List.not_mem_nil
  · intro c
    rw [forksOf_quiet hquiet, List.append_nil, ← hpend]
    exact hi.forks c

/-- A step of a child. -/
private theorem Inv.perform_child (hi : w.Inv) {c : Conn} (hq : some q ∈ forksOf c w.trace)
    (hx : w.procs[q]? = some x) (hy : y.Child c) (hechoes : ∀ act ∈ acts, act.echoes c = true)
    (hread : y.phase = .idle → x.phase = .idle ∨ .asyncRead (some c) ∈ acts) :
    (w.perform q y acts).Inv := by
  obtain ⟨hne, hxc, hxread⟩ := hi.served_of hq hx
  have hquiet := quiet_of_echoes hechoes
  have hforks : ∀ d, forksOf d (w.perform q y acts).trace = forksOf d w.trace := by
    intro d
    rw [perform_trace, forksOf_append, forksOf_quiet hquiet, List.append_nil]
  constructor
  case original =>
    obtain ⟨z, hz, hzo⟩ := hi.original
    refine ⟨z, ?_, hzo⟩
    rw [perform_procs, List.getElem?_set_ne hne]
    exact hz
  case born =>
    intro p z hp hz
    by_cases hpq : p = q
    · exact ⟨c, by rw [hforks, hpq]; exact hq⟩
    · rw [perform_procs, List.getElem?_set_ne (Ne.symm hpq)] at hz
      obtain ⟨d, hd⟩ := hi.born p z hp hz
      exact ⟨d, by rw [hforks]; exact hd⟩
  case served =>
    intro d p hp
    rw [hforks] at hp
    obtain ⟨hp0, z, hz, hzd, hzread⟩ := hi.served d p hp
    by_cases hpq : p = q
    · subst hpq
      rw [hx] at hz
      obtain rfl := Option.some.inj hz
      obtain rfl : c = d := Option.some.inj (hxc.socket.symm.trans hzd.socket)
      refine ⟨hp0, y, procs_set_self hx, hy, ?_⟩
      intro hidle
      cases hread hidle with
      | inl hbefore => exact List.mem_append_left _ (hxread hbefore)
      | inr hnow => exact List.mem_append_right _ (List.mem_map.2 ⟨_, hnow, rfl⟩)
    · refine ⟨hp0, z, ?_, hzd, fun hidle => List.mem_append_left _ (hzread hidle)⟩
      rw [perform_procs, List.getElem?_set_ne (Ne.symm hpq)]
      exact hz
  case role =>
    intro o ho
    cases List.mem_append.1 ho with
    | inl hold => exact hi.role_mono hold
    | inr hnew =>
      obtain ⟨act, hact, rfl⟩ := List.mem_map.1 hnew
      rw [if_neg hne]
      exact ⟨c, by rw [hforks]; exact hq, hechoes act hact⟩
  case accepted =>
    intro o ho d hd
    cases List.mem_append.1 ho with
    | inl hold => exact hi.accepted o hold d hd
    | inr hnew =>
      obtain ⟨act, hact, rfl⟩ := List.mem_map.1 hnew
      exact absurd hd (hquiet act hact d).2
  case pending_lt =>
    intro d hd
    rw [perform_pending_of_ne hne] at hd
    exact hi.pending_lt d hd
  case forks =>
    intro d
    rw [hforks, perform_pending_of_ne hne]
    exact hi.forks d

/-! ## What a step preserves -/

section Table

variable {procs : List Proc} {u z : Proc}

theorem table_zero (hpos : 0 < procs.length) : (procs.set 0 y ++ [z])[0]? = some y := by
  rw [List.getElem?_append_left (by simpa using hpos), List.getElem?_set_self hpos]

theorem table_old (hq : q ≠ 0) (hu : procs[q]? = some u) :
    (procs.set 0 y ++ [z])[q]? = some u := by
  have hlt := (List.getElem?_eq_some_iff.1 hu).1
  rw [List.getElem?_append_left (by simpa using hlt), List.getElem?_set_ne (Ne.symm hq)]
  exact hu

theorem table_new : (procs.set 0 y ++ [z])[procs.length]? = some z := by
  rw [List.getElem?_append_right (by simp), List.length_set, Nat.sub_self]
  rfl

theorem table_cases (hq : q ≠ 0) (hu : (procs.set 0 y ++ [z])[q]? = some u) :
    procs[q]? = some u ∨ q = procs.length := by
  by_cases hlt : q < procs.length
  · rw [List.getElem?_append_left (by simpa using hlt), List.getElem?_set_ne (Ne.symm hq)] at hu
    exact .inl hu
  · have hlen := (List.getElem?_eq_some_iff.1 hu).1
    rw [List.length_append, List.length_set, List.length_singleton] at hlen
    exact .inr (Nat.le_antisymm (Nat.le_of_lt_succ hlen) (Nat.le_of_not_lt hlt))

end Table

/-- `fork()` succeeds: the copy becomes the child of the pending connection. -/
private theorem Inv.forked (hi : w.Inv) (hx : w.procs[0]? = some x) (hp : x.phase = .forking) :
    Inv ⟨w.procs.set 0 { x with phase := .parent } ++
      [{ x with phase := .child, parent := some 0, signals := 0 }],
      w.conns, w.trace ++ [⟨0, .forked x.socket (some w.procs.length)⟩]⟩ := by
  have hxo := hi.original_of hx
  have hpos : 0 < w.procs.length := (List.getElem?_eq_some_iff.1 hx).1
  obtain ⟨c, hc, hpend⟩ := hi.pending_eq hx hp
  have hold : forksOf c w.trace = [] := by
    have hforks := hi.forks c
    rwa [if_neg (by simp [hpend])] at hforks
  have hparent : ({ x with phase := .parent } : Proc).Original :=
    hxo.move (by simp) (by simp [hp]) (by simp [hp])
  have hchild := hxo.copy hp hc 0
  have hforks : ∀ d, forksOf d (w.trace ++ [⟨0, .forked x.socket (some w.procs.length)⟩]) =
      if d = c then [some w.procs.length] else forksOf d w.trace := by
    intro d
    by_cases hd : d = c
    · simp [hd, hold, hc]
    · simp [hd, hc, Ne.symm hd]
  have hnone : pending ⟨w.procs.set 0 { x with phase := .parent } ++
      [{ x with phase := .child, parent := some 0, signals := 0 }], w.conns,
      w.trace ++ [⟨0, .forked x.socket (some w.procs.length)⟩]⟩ = none := by
    simp only [pending, table_zero hpos]
    rfl
  constructor
  case original =>
    exact ⟨_, table_zero hpos, hparent⟩
  case born =>
    intro q z hq hz
    cases table_cases hq hz with
    | inl hz =>
      obtain ⟨d, hd⟩ := hi.born q z hq hz
      exact ⟨d, mem_forksOf_append _ hd⟩
    | inr hq => exact ⟨c, by rw [hforks, if_pos rfl, hq]; exact List.mem_singleton.2 rfl⟩
  case served =>
    intro d q hq
    rw [hforks] at hq
    split at hq
    · rename_i hd
      have hq : q = w.procs.length := Option.some.inj (List.mem_singleton.1 hq)
      rw [hd, hq]
      exact ⟨Nat.ne_of_gt hpos, _, table_new, hchild, fun hidle => absurd hidle (by simp)⟩
    · obtain ⟨hne, z, hz, hzd, hread⟩ := hi.served d q hq
      exact ⟨hne, z, table_old hne hz, hzd, fun hidle => List.mem_append_left _ (hread hidle)⟩
  case role =>
    intro o ho
    cases List.mem_append.1 ho with
    | inl hold => exact hi.role_mono hold
    | inr hnew =>
      rw [List.mem_singleton.1 hnew]
      rfl
  case accepted =>
    intro o ho d hd
    cases List.mem_append.1 ho with
    | inl hold => exact hi.accepted o hold d hd
    | inr hnew =>
      rw [List.mem_singleton.1 hnew] at hd
      exact absurd hd (by simp)
  case pending_lt =>
    intro d hd
    rw [hnone] at hd
    exact absurd hd (by simp)
  case forks =>
    intro d
    have hd := hi.forks d
    rw [hpend] at hd
    rw [hnone, hforks]
    by_cases hdc : d = c
    · rw [if_pos ⟨hdc ▸ hi.pending_lt c hpend, by simp⟩, if_pos hdc]
      exact ⟨_, rfl⟩
    · simpa [hdc, Ne.symm hdc] using hd

private theorem Inv.forkFailed (hi : w.Inv) (hx : w.procs[0]? = some x) (hp : x.phase = .forking) :
    (w.perform 0 { x with phase := .parent } [.forked x.socket none]).Inv := by
  have hxo := hi.original_of hx
  obtain ⟨c, hc, hpend⟩ := hi.pending_eq hx hp
  have hy : ({ x with phase := .parent } : Proc).Original :=
    hxo.move (by simp) (by simp [hp]) (by simp [hp])
  apply hi.perform_original hx hy (by simp) (Nat.le_refl _) (by simp) (by simp [Proc.pending])
  · intro d q
    by_cases hd : c = d <;> simp [hc, hd]
  · intro d
    have hd := hi.forks d
    rw [hpend] at hd
    by_cases hdc : c = d
    · rw [if_neg (by simp [hdc])] at hd
      rw [if_pos ⟨hdc ▸ hi.pending_lt c hpend, by simp [Proc.pending]⟩, hd]
      exact ⟨none, by simp [hc, hdc]⟩
    · simpa [Proc.pending, hc, hdc] using hd

private theorem Inv.acceptDone (hi : w.Inv) (hx : w.procs[0]? = some x) (hp : x.phase = .idle) :
    ({ w with conns := w.conns + 1 }.perform 0
      { x with accepts := x.accepts - 1, socket := some w.conns, phase := .forking }
      [.accepted w.conns]).Inv := by
  have hxo := hi.original_of hx
  have haccepts := hxo.accepts
  have hwaits := hxo.waits
  simp only [hp] at haccepts hwaits
  have hpend : w.pending = none := by simp [pending, hx, Proc.pending, hp]
  have hy : ({ x with accepts := x.accepts - 1, socket := some w.conns, phase := .forking } :
      Proc).Original :=
    ⟨hxo.life, hxo.acceptorOpen, hxo.reads, hxo.writes, by simp, by simp [haccepts], hwaits, rfl⟩
  apply hi.perform_original hx hy (by simp) (Nat.le_succ _) (by simp) (by simp [Proc.pending])
  · simp
  · intro d
    have hd := hi.forks d
    rw [hpend] at hd
    simp only [List.map_cons, List.map_nil, forksOf_cons, forksOf_nil, Act.forkOf,
      Option.toList_none, List.append_nil, Proc.pending, if_true, ne_eq, Option.some.injEq]
    by_cases hlt : d < w.conns
    · rw [if_pos ⟨hlt, by simp⟩] at hd
      rw [if_pos ⟨Nat.lt_succ_of_lt hlt, Ne.symm (Nat.ne_of_lt hlt)⟩]
      exact hd
    · rw [if_neg (fun h => hlt h.1)] at hd
      rw [if_neg]
      · exact hd
      · rintro ⟨hle, hne⟩
        exact hne (Nat.le_antisymm (Nat.le_of_not_lt hlt) (Nat.le_of_lt_succ hle))

private theorem Inv.set (hi : w.Inv) (hx : w.procs[p]? = some x)
    (horiginal : p = 0 → x.Original → y.Original ∧ y.pending = x.pending)
    (hchild : ∀ c, p ≠ 0 → x.Child c → y.Child c ∧ y.phase = x.phase) :
    (w.perform p y []).Inv := by
  by_cases hp : p = 0
  · subst hp
    obtain ⟨hy, hpend⟩ := horiginal rfl (hi.original_of hx)
    exact hi.perform_quiet hx hy (by simp) (by simp [Quiet]) hpend
  · obtain ⟨c, hc, hxc⟩ := hi.child_of hp hx
    obtain ⟨hy, hphase⟩ := hchild c hp hxc
    exact hi.perform_child hc hx hy (by simp) (fun hidle => .inl (hphase ▸ hidle))

private theorem Inv.modify (hi : w.Inv) {f : Proc → Proc}
    (horiginal : ∀ x, p = 0 → x.Original → (f x).Original ∧ (f x).pending = x.pending)
    (hchild : ∀ x c, p ≠ 0 → x.Child c → (f x).Child c ∧ (f x).phase = x.phase) :
    Inv { w with procs := w.procs.modify p f } := by
  cases hx : w.procs[p]? with
  | none =>
    rw [List.modify_eq_self (List.getElem?_eq_none_iff.1 hx)]
    exact hi
  | some x =>
    have : Inhabited Proc := ⟨x⟩
    have hset := hi.set (y := f x) hx (horiginal x) (hchild x)
    rw [List.modify_eq_set, hx]
    simpa [perform] using hset

private theorem inv_init (data : Buffer UInt8 1024) : (World.init data).Inv := by
  have htrace : (World.init data).trace = [⟨0, .asyncWait⟩, ⟨0, .asyncAccept⟩] := rfl
  have hforks : ∀ c, forksOf c (World.init data).trace = [] := fun c => rfl
  constructor
  case original =>
    exact ⟨_, rfl, by constructor <;> simp [Proc.start, Proc.waitForSignal, Proc.accept]⟩
  case born =>
    intro q x hq hx
    obtain ⟨k, rfl⟩ := Nat.exists_eq_succ_of_ne_zero hq
    exact absurd hx (by simp [World.init])
  case served =>
    intro c q hq
    rw [hforks] at hq
    exact absurd hq (List.not_mem_nil)
  case role =>
    intro o ho
    rw [htrace] at ho
    cases List.mem_cons.1 ho with
    | inl ho => simp [ho]
    | inr ho => simp [List.mem_singleton.1 ho]
  case accepted =>
    intro o ho c hc
    rw [htrace] at ho
    cases List.mem_cons.1 ho with
    | inl ho => exact absurd hc (by simp [ho])
    | inr ho => exact absurd hc (by simp [List.mem_singleton.1 ho])
  case pending_lt =>
    intro c hc
    exact absurd hc (by simp [pending, World.init, Proc.pending, Proc.start, Proc.waitForSignal,
      Proc.accept])
  case forks =>
    intro c
    rw [if_neg (fun h => Nat.not_lt_zero _ h.1), hforks]

/-- Only the first process stands in the accept handler or in the signal handler. -/
theorem Inv.eq_zero_of_phase (hi : w.Inv) (hx : w.procs[p]? = some x) (hidle : x.phase ≠ .idle)
    (hchild : x.phase ≠ .child) : p = 0 := by
  by_contra hp
  obtain ⟨c, -, hxc⟩ := hi.child_of hp hx
  cases hxc.phase with
  | inl h => exact hchild h
  | inr h => exact hidle h.1

private theorem Inv.waitpid (hi : w.Inv) (hx : w.procs[0]? = some x) (hp : x.phase = .reaping)
    (ret : Int) :
    (w.perform 0 (x.afterWaitpid ret) [.waitpid ret]).Inv := by
  have hxo := hi.original_of hx
  have hy : (x.afterWaitpid ret).Original := by
    unfold Proc.afterWaitpid
    split <;> exact hxo.move (by simp) (by simp [hp]) (by simp [hp])
  have hpend : (x.afterWaitpid ret).pending = x.pending := by
    unfold Proc.afterWaitpid
    split <;> simp [Proc.pending, hp]
  exact hi.perform_quiet hx hy (by simp) (by simp [Quiet]) hpend

theorem Inv.step {w' : World} {e : Event} (hi : w.Inv) (he : w.step e = some w') : w'.Inv := by
  cases step_cases he with
  | @proc p a x y acts hx hlife h =>
    by_cases hp : p = 0
    · subst hp
      obtain ⟨hy, hpend, hserves⟩ := (hi.original_of hx).handled h
      exact hi.perform_quiet hx hy hserves (quiet_of_handled h) hpend
    · obtain ⟨c, hc, hxc⟩ := hi.child_of hp hx
      obtain ⟨hy, hechoes, hread⟩ := hxc.handled h
      exact hi.perform_child hc hx hy hechoes hread
  | @accepted p x hx hlife hp h =>
    by_cases hp0 : p = 0
    · subst hp0
      exact hi.acceptDone hx hp
    · obtain ⟨c, -, hxc⟩ := hi.child_of hp0 hx
      rw [hxc.accepts] at h
      exact absurd h (by simp)
  | @forked p x hx hlife hp =>
    obtain rfl := hi.eq_zero_of_phase hx (by simp [hp]) (by simp [hp])
    exact hi.forked hx hp
  | @forkFailed p x hx hlife hp =>
    obtain rfl := hi.eq_zero_of_phase hx (by simp [hp]) (by simp [hp])
    exact hi.forkFailed hx hp
  | @reaped p q x hx hlife hp h =>
    obtain rfl := hi.eq_zero_of_phase hx (by simp [hp]) (by simp [hp])
    obtain ⟨z, hz, -, hzombie⟩ := mem_zombies.1 h
    have hq : q ≠ 0 := by
      rintro rfl
      rw [(hi.original_of hz).life] at hzombie
      exact absurd hzombie (by simp)
    have hburied : (w.bury q).Inv := by
      apply hi.modify
      · intro x hq0
        exact absurd hq0 hq
      · intro x c _ hxc
        exact ⟨hxc.signalled (Nat.le_refl _), rfl⟩
    have hx' : (w.bury q).procs[0]? = some x := by
      rw [bury, List.getElem?_modify_ne _ _ hq]
      exact hx
    exact hburied.waitpid hx' hp q
  | @noneEnded p x ret hx hlife hp h hret =>
    obtain rfl := hi.eq_zero_of_phase hx (by simp [hp]) (by simp [hp])
    have hloop : x.afterWaitpid ret = { x with phase := .rearming } := by
      rw [Proc.afterWaitpid, if_neg (Int.not_lt.2 hret)]
    exact hloop ▸ hi.waitpid hx hp ret
  | @exited p x hp hx hlife =>
    have hended : (w.perform p { x with life := .zombie } []).Inv := by
      apply hi.set hx
      · intro hp0
        exact absurd hp0 hp
      · intro c _ hxc
        exact ⟨hxc.signalled (Nat.le_refl _), rfl⟩
    cases hparent : x.parent with
    | none => simpa [exit, hparent, perform] using hended
    | some q =>
      have hsent : Inv { w.perform p { x with life := .zombie } [] with
          procs := (w.perform p { x with life := .zombie } []).procs.modify q fun y =>
            { y with signals := y.signals + 1 } } := by
        apply hended.modify
        · intro x _ hxo
          exact ⟨hxo.signalled rfl, rfl⟩
        · intro x c _ hxc
          exact ⟨hxc.signalled (Nat.le_refl _), rfl⟩
      simpa [exit, hparent, perform] using hsent

theorem inv_reachable {data : Buffer UInt8 1024} (hr : (forkServer data).Reachable w) : w.Inv :=
  System.reachable_induction (inv_init data) (fun _ _ _ _ hi he => hi.step he) hr

/-! ## Who serves a connection -/

/-- Process `p` has started to read from connection `c`, or done more with it. -/
def Echoes (w : World) (p : Pid) (c : Conn) : Prop :=
  ∃ o ∈ w.trace, o.pid = p ∧ o.act.echoes c = true

private theorem Inv.fork_unique (hi : w.Inv) {c : Conn} {r s : Option Pid}
    (hr : r ∈ forksOf c w.trace)
    (hs : s ∈ forksOf c w.trace) : r = s := by
  have hforks := hi.forks c
  split at hforks
  · obtain ⟨t, ht⟩ := hforks
    rw [ht, List.mem_singleton] at hr hs
    rw [hr, hs]
  · rw [hforks] at hr
    exact absurd hr List.not_mem_nil

private theorem Inv.forked_of_echoes (hi : w.Inv) {c : Conn} (h : w.Echoes p c) :
    some p ∈ forksOf c w.trace := by
  obtain ⟨o, ho, rfl, hecho⟩ := h
  have hrole := hi.role o ho
  split at hrole
  · rw [Act.serves_of_echoes hecho] at hrole
    exact absurd hrole (by simp)
  · obtain ⟨d, hd, hechod⟩ := hrole
    rwa [Act.eq_of_echoes hecho hechod]

end World

open World in
/-- Parent and child keep to their roles, and every connection is served by the one child that was
made for it, if there is one. -/
theorem fork_roles {data : Buffer UInt8 1024} {w : World} (hr : (forkServer data).Reachable w) :
    (∃ x, w.procs[0]? = some x ∧ (x.phase = .idle →
      x.acceptorOpen = true ∧ x.accepts = 1 ∧ x.waits.length = 1 ∧ x.socket = none ∧
        ∀ c, ⟨0, .accepted c⟩ ∈ w.trace → ∃ r, forksOf c w.trace = [r])) ∧
    (∀ q x, q ≠ 0 → w.procs[q]? = some x → x.phase = .idle →
      x.acceptorOpen = false ∧ x.accepts = 0 ∧ x.waits.length ≤ 1) ∧
    (∀ o ∈ w.trace, o.pid ≠ 0 → o.act.serves = false) ∧
    ∀ c, (none ∈ forksOf c w.trace → ∀ p, ¬ w.Echoes p c) ∧
      ∀ q, some q ∈ forksOf c w.trace → (∀ p, w.Echoes p c → p = q) ∧
        ∃ x, w.procs[q]? = some x ∧ (x.phase = .idle → w.Echoes q c) := by
  have hi := inv_reachable hr
  refine ⟨?_, ?_, ?_, fun c => ⟨?_, ?_⟩⟩
  · obtain ⟨x, hx, hxo⟩ := hi.original
    refine ⟨x, hx, fun hidle => ?_⟩
    have haccepts := hxo.accepts
    have hwaits := hxo.waits
    have hsocket := hxo.socket
    simp only [hidle] at haccepts hwaits hsocket
    refine ⟨hxo.acceptorOpen, haccepts, hwaits, by simpa using hsocket, fun c hc => ?_⟩
    have hpend : w.pending = none := by simp [World.pending, hx, Proc.pending, hidle]
    have hforks := hi.forks c
    rwa [if_pos ⟨hi.accepted _ hc c rfl, by simp [hpend]⟩] at hforks
  · intro q x hq hx hidle
    obtain ⟨c, -, hxc⟩ := hi.child_of hq hx
    cases hxc.phase with
    | inl hp => exact absurd (hidle.symm.trans hp) (by simp)
    | inr hp => exact ⟨hp.2, hxc.accepts, hxc.waits⟩
  · intro o ho hpid
    have hrole := hi.role o ho
    rw [if_neg hpid] at hrole
    obtain ⟨c, -, hecho⟩ := hrole
    exact Act.serves_of_echoes hecho
  · intro hnone p hecho
    have heq := hi.fork_unique hnone (hi.forked_of_echoes hecho)
    exact absurd heq (by simp)
  · intro q hq
    constructor
    · intro p hecho
      exact Option.some.inj (hi.fork_unique (hi.forked_of_echoes hecho) hq)
    · obtain ⟨-, x, hx, -, hread⟩ := hi.served c q hq
      exact ⟨x, hx, fun hidle => ⟨_, hread hidle, rfl, by simp⟩⟩

/-- Two connections: one is echoed by a child, which then ends, and for the other `fork` fails. -/
def oneChild : List Event :=
  [.acceptDone 0, .fork 0 true, .proc 1 .resumeChild, .proc 0 .resumeParent, .acceptDone 0,
    .proc 1 (.received 0 [104]), .proc 1 (.waitDone 0), .fork 0 false, .proc 1 (.transmit 0 1),
    .proc 0 .resumeParent, .proc 1 (.writeDone 0 .success), .proc 1 (.readFailed 0), .exit 1,
    .proc 0 .deliver, .proc 0 (.waitDone 0), .waitpid 0 (some 1), .waitpid 0 none,
    .proc 0 .rearm]

theorem fork_roles_oneChild :
    let w := (forkServer (.fill 1024 0)).final oneChild
    forksOf 0 w.trace = [some 1] ∧ forksOf 1 w.trace = [none] ∧
      (∀ p, w.Echoes p 0 → p = 1) ∧ ∀ p, ¬ w.Echoes p 1 := by
  have hfirst : forksOf 0 ((forkServer (.fill 1024 0)).final oneChild).trace = [some 1] := by
    decide +kernel
  have hsecond : forksOf 1 ((forkServer (.fill 1024 0)).final oneChild).trace = [none] := by
    decide +kernel
  obtain ⟨-, -, -, hserved⟩ := fork_roles ((forkServer (.fill 1024 0)).reachable_final oneChild)
  exact ⟨hfirst, hsecond, ((hserved 0).2 1 (by rw [hfirst]; decide)).1,
    (hserved 1).1 (by rw [hsecond]; decide)⟩

end BoostLearning.Fork
