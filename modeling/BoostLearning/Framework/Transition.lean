import Mathlib.Data.List.Basic

/-!
# Executable transition systems

A system is an initial state and a guarded step function: `step s e = some t` when the event
`e` is enabled in `s` and leads to `t`. Runs are lists of events, so that a concrete schedule
can be evaluated and an arbitrary one can be reasoned about by induction.
-/

namespace BoostLearning

structure System (σ ε : Type*) where
  init : σ
  step : σ → ε → Option σ

theorem exists_eq_some_of_any {α : Type*} {o : Option α} {p : α → Bool} (h : o.any p = true) :
    ∃ a, o = some a ∧ p a = true := by
  cases o with
  | none => exact absurd h (by simp)
  | some a => exact ⟨a, rfl, h⟩

theorem eq_singleton_of_getElem? {α : Type*} {l : List α} (hlen : l.length ≤ 1) {i : Nat} {a : α}
    (h : l[i]? = some a) : i = 0 ∧ l = [a] := by
  have hi : i < l.length := (List.getElem?_eq_some_iff.1 h).1
  obtain rfl : i = 0 := by omega
  obtain ⟨b, hl⟩ := List.length_eq_one_iff.1 (by omega : l.length = 1)
  simp only [hl, List.getElem?_cons_zero, Option.some.injEq] at h
  exact ⟨rfl, h ▸ hl⟩

theorem map_set_of_eq {α β : Type*} {f : α → β} {l : List α} {i : Nat} {a b : α}
    (hi : l[i]? = some a) (hf : f b = f a) : (l.set i b).map f = l.map f := by
  obtain ⟨hlt, rfl⟩ := List.getElem?_eq_some_iff.1 hi
  rw [List.map_set, hf, ← List.getElem_map f (h := by simpa using hlt), List.set_getElem_self]

namespace System

variable {σ ε : Type*} (M : System σ ε)

/-- Run the events from `s`; `none` when one of them is not enabled. -/
def exec : σ → List ε → Option σ
  | s, [] => some s
  | s, e :: es => (M.step s e).bind fun t => exec t es

/-- A state that some run from the initial state ends in. -/
def Reachable (s : σ) : Prop :=
  ∃ es, M.exec M.init es = some s

theorem exec_cons_some {s t : σ} {e : ε} {es : List ε} :
    M.exec s (e :: es) = some t ↔ ∃ u, M.step s e = some u ∧ M.exec u es = some t := by
  simp [exec, Option.bind_eq_some_iff]

theorem exec_append (s : σ) (es fs : List ε) :
    M.exec s (es ++ fs) = (M.exec s es).bind fun t => M.exec t fs := by
  induction es generalizing s with
  | nil => simp [exec]
  | cons e es ih =>
    simp only [List.cons_append, exec, Option.bind_assoc]
    congr 1
    funext t
    exact ih t

theorem exec_append_some {s u : σ} {es fs : List ε} :
    M.exec s (es ++ fs) = some u ↔ ∃ t, M.exec s es = some t ∧ M.exec t fs = some u := by
  rw [exec_append, Option.bind_eq_some_iff]

theorem exec_concat_some {s u : σ} {es : List ε} {e : ε} :
    M.exec s (es ++ [e]) = some u ↔ ∃ t, M.exec s es = some t ∧ M.step t e = some u := by
  rw [exec_append_some]
  simp [exec]

theorem reachable_init : M.Reachable M.init := ⟨[], rfl⟩

/-- The state a given run ends in, or the initial one if it is not a run. -/
def final (es : List ε) : σ := (M.exec M.init es).getD M.init

theorem exec_final {es : List ε} (h : (M.exec M.init es).isSome = true) :
    M.exec M.init es = some (M.final es) := by
  obtain ⟨s, hs⟩ := Option.isSome_iff_exists.1 h
  rw [final, hs, Option.getD_some]

theorem reachable_final (es : List ε) : M.Reachable (M.final es) := by
  cases h : M.exec M.init es with
  | none => simpa [final, h] using M.reachable_init
  | some s => exact ⟨es, by simp [final, h]⟩

variable {M}

theorem Reachable.step {s t : σ} {e : ε} (h : M.Reachable s) (he : M.step s e = some t) :
    M.Reachable t := by
  obtain ⟨es, hes⟩ := h
  exact ⟨es ++ [e], (M.exec_concat_some).2 ⟨s, hes, he⟩⟩

theorem Reachable.exec {s t : σ} {es : List ε} (h : M.Reachable s) (hrun : M.exec s es = some t) :
    M.Reachable t := by
  obtain ⟨fs, hfs⟩ := h
  exact ⟨fs ++ es, (M.exec_append_some).2 ⟨s, hfs, hrun⟩⟩

/-- What holds at the start of a run and survives every step holds at its end. -/
theorem exec_induction {P : σ → Prop} (hstep : ∀ s e t, P s → M.step s e = some t → P t)
    {s t : σ} {es : List ε} (hs : P s) (h : M.exec s es = some t) : P t := by
  induction es generalizing s with
  | nil =>
    simp only [System.exec, Option.some.injEq] at h
    exact h ▸ hs
  | cons e es ih =>
    obtain ⟨u, hu, ht⟩ := (M.exec_cons_some).1 h
    exact ih (hstep s e u hs hu) ht

/-- The invariant rule: initially true and preserved by every step from a reachable state. -/
theorem reachable_induction {P : σ → Prop} (hinit : P M.init)
    (hstep : ∀ s e t, M.Reachable s → P s → M.step s e = some t → P t)
    {s : σ} (h : M.Reachable s) : P s := by
  obtain ⟨es, hes⟩ := h
  refine (exec_induction (M := M) (P := fun s => M.Reachable s ∧ P s) ?_
    ⟨M.reachable_init, hinit⟩ hes).2
  intro s e t hs he
  exact ⟨hs.1.step he, hstep s e t hs.1 hs.2 he⟩

/-- The simulation rule: when every step of `M` is a run of `N` under `f`, so is every run. -/
theorem reachable_of_simulation {τ δ : Type*} {N : System τ δ} {f : σ → τ}
    (hinit : f M.init = N.init)
    (hstep : ∀ s e t, M.Reachable s → M.step s e = some t → ∃ ds, N.exec (f s) ds = some (f t))
    {s : σ} (h : M.Reachable s) : N.Reachable (f s) := by
  apply reachable_induction (P := fun s => N.Reachable (f s)) _ _ h
  · exact hinit ▸ N.reachable_init
  · intro s e t hs hreached he
    obtain ⟨ds, hds⟩ := hstep s e t hs he
    exact hreached.exec hds

theorem exists_related {τ δ : Type*} {N : System τ δ} {R : σ → τ → Prop}
    (hinit : R M.init N.init)
    (hstep : ∀ s e s' t, R s t → M.step s e = some s' → ∃ ds t', N.exec t ds = some t' ∧ R s' t')
    {s : σ} (h : M.Reachable s) : ∃ t, N.Reachable t ∧ R s t := by
  apply reachable_induction (P := fun s => ∃ t, N.Reachable t ∧ R s t) _ _ h
  · exact ⟨N.init, N.reachable_init, hinit⟩
  · rintro s e s' - ⟨t, ht, hR⟩ he
    obtain ⟨ds, t', hds, hR'⟩ := hstep s e s' t hR he
    exact ⟨t', ht.exec hds, hR'⟩

theorem exec_singleton_some {s t : σ} {e : ε} : M.exec s [e] = some t ↔ M.step s e = some t := by
  simp [exec]

/-- The rule for bounded runs: when a measure drops with every allowed step, it bounds the number
of allowed steps. -/
theorem exec_bounded {P : σ → Prop} {p : ε → Prop} {f : σ → Nat}
    (hstep : ∀ s e t, P s → p e → M.step s e = some t → P t ∧ f t < f s)
    {s t : σ} {es : List ε} (hs : P s) (hes : ∀ e ∈ es, p e)
    (h : M.exec s es = some t) : P t ∧ es.length + f t ≤ f s := by
  induction es generalizing s with
  | nil =>
    simp only [System.exec, Option.some.injEq] at h
    subst h
    exact ⟨hs, by simp⟩
  | cons e es ih =>
    obtain ⟨u, hu, ht⟩ := (M.exec_cons_some).1 h
    obtain ⟨hPu, hlt⟩ := hstep s e u hs (hes e List.mem_cons_self) hu
    obtain ⟨hPt, hle⟩ := ih hPu (fun e' he' => hes e' (List.mem_cons_of_mem e he')) ht
    refine ⟨hPt, ?_⟩
    rw [List.length_cons]
    omega

/-- When a measure never rises and drops with every step that counts, it bounds how many count. -/
theorem exec_countP_le {P : σ → Prop} {p : ε → Bool} {f : σ → Nat}
    (hstep : ∀ s e t, P s → M.step s e = some t → P t ∧ (if p e then 1 else 0) + f t ≤ f s)
    {s t : σ} {es : List ε} (hs : P s) (h : M.exec s es = some t) :
    es.countP p + f t ≤ f s := by
  induction es generalizing s with
  | nil =>
    simp only [System.exec, Option.some.injEq] at h
    subst h
    simp
  | cons e es ih =>
    obtain ⟨u, hu, ht⟩ := (M.exec_cons_some).1 h
    obtain ⟨hPu, hle⟩ := hstep s e u hs hu
    have hrest := ih hPu ht
    rw [List.countP_cons]
    omega

/-- When a measure drops with every allowed step, some run of allowed steps ends where none is
possible any more. -/
theorem exists_stuck {P : σ → Prop} {p : ε → Prop} {f : σ → Nat}
    (hstep : ∀ s e t, P s → p e → M.step s e = some t → P t ∧ f t < f s)
    {s : σ} (hs : P s) :
    ∃ es t, (∀ e ∈ es, p e) ∧ M.exec s es = some t ∧ ∀ e, p e → M.step t e = none := by
  induction hk : f s using Nat.strongRecOn generalizing s with
  | ind k ih =>
    by_cases hstuck : ∀ e, p e → M.step s e = none
    · exact ⟨[], s, by simp, rfl, hstuck⟩
    · simp only [not_forall] at hstuck
      obtain ⟨e, he, hne⟩ := hstuck
      obtain ⟨u, hu⟩ := Option.ne_none_iff_exists'.1 hne
      obtain ⟨hPu, hlt⟩ := hstep s e u hs he hu
      obtain ⟨es, t, hes, hexec, ht⟩ := ih (f u) (hk ▸ hlt) hPu rfl
      refine ⟨e :: es, t, ?_, (M.exec_cons_some).2 ⟨u, hu, hexec⟩, ht⟩
      intro e' he'
      cases List.mem_cons.1 he' with
      | inl heq => exact heq ▸ he
      | inr hmem => exact hes e' hmem

/-- A run that makes a test true has a first step that does. -/
theorem exec_first {p : σ → Bool} {s t : σ} {es : List ε} (hs : p s = false) (ht : p t = true)
    (h : M.exec s es = some t) :
    ∃ before e after u v, es = before ++ e :: after ∧ M.exec s before = some u ∧ p u = false ∧
      M.step u e = some v ∧ p v = true ∧ M.exec v after = some t := by
  induction es generalizing s with
  | nil =>
    simp only [System.exec, Option.some.injEq] at h
    rw [h, ht] at hs
    exact absurd hs (by simp)
  | cons e es ih =>
    obtain ⟨u, hu, hut⟩ := (M.exec_cons_some).1 h
    cases hpu : p u with
    | true => exact ⟨[], e, es, s, u, rfl, rfl, hs, hu, hpu, hut⟩
    | false =>
      obtain ⟨before, e', after, u', v, rfl, hbefore, hu', hstep, hv, hafter⟩ := ih hpu hut
      refine ⟨e :: before, e', after, u', v, rfl, ?_, hu', hstep, hv, hafter⟩
      exact (M.exec_cons_some).2 ⟨u, hu, hbefore⟩

variable (M)

/-- Only the steps that `p` allows. -/
def restrict (p : σ → ε → Bool) : System σ ε :=
  ⟨M.init, fun s e => if p s e then M.step s e else none⟩

variable {M}

theorem restrict_step {p : σ → ε → Bool} {s t : σ} {e : ε} :
    (M.restrict p).step s e = some t ↔ p s e = true ∧ M.step s e = some t := by
  simp [restrict]

theorem exec_of_restrict {p : σ → ε → Bool} {s t : σ} {es : List ε}
    (h : (M.restrict p).exec s es = some t) : M.exec s es = some t := by
  induction es generalizing s with
  | nil => exact h
  | cons e es ih =>
    obtain ⟨u, hu, hut⟩ := ((M.restrict p).exec_cons_some).1 h
    exact (M.exec_cons_some).2 ⟨u, (restrict_step.1 hu).2, ih hut⟩

/-- Deleting the events that `keep` refuses from a run leaves a run, when kept events are
matched across `R` and deleted ones do not disturb it. The condition `good` is one on the
whole run: it is assumed of the last state and handed back to every earlier one. -/
theorem exec_filter {keep : ε → Bool} {R : σ → σ → Prop} {good : σ → Prop}
    (hback : ∀ s e t, good t → M.step s e = some t → good s)
    (hkeep : ∀ s e t s', R s s' → good t → keep e = true → M.step s e = some t →
      ∃ t', M.step s' e = some t' ∧ R t t')
    (hdrop : ∀ s e t s', R s s' → good t → keep e = false → M.step s e = some t → R t s')
    {s t s' : σ} {es : List ε} (hR : R s s') (hgood : good t) (h : M.exec s es = some t) :
    ∃ t', M.exec s' (es.filter keep) = some t' ∧ R t t' := by
  have hgoods : ∀ (es : List ε) (s : σ), M.exec s es = some t → good s := by
    intro es
    induction es with
    | nil =>
      intro s hs
      simp only [System.exec, Option.some.injEq] at hs
      exact hs ▸ hgood
    | cons e es ih =>
      intro s hs
      obtain ⟨u, hu, hut⟩ := (M.exec_cons_some).1 hs
      exact hback s e u (ih u hut) hu
  induction es generalizing s s' with
  | nil =>
    simp only [System.exec, Option.some.injEq] at h
    exact ⟨s', rfl, h ▸ hR⟩
  | cons e es ih =>
    obtain ⟨u, hu, hut⟩ := (M.exec_cons_some).1 h
    have hgu : good u := hgoods es u hut
    cases hk : keep e with
    | true =>
      obtain ⟨u', hu', hRu⟩ := hkeep s e u s' hR hgu hk hu
      obtain ⟨t', ht', hRt⟩ := ih hRu hut
      refine ⟨t', ?_, hRt⟩
      rw [List.filter_cons_of_pos hk]
      exact (M.exec_cons_some).2 ⟨u', hu', ht'⟩
    | false =>
      obtain ⟨t', ht', hRt⟩ := ih (hdrop s e u s' hR hgu hk hu) hut
      refine ⟨t', ?_, hRt⟩
      rw [List.filter_cons_of_neg (by simp [hk])]
      exact ht'

end System

end BoostLearning
