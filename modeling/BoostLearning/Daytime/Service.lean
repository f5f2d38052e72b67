import BoostLearning.Framework.Transition
import BoostLearning.Framework.WriteQueue

/-!
# The daytime service over TCP

What the TCP programs are for, whatever they keep in memory: every client that is accepted gets
the text that was made for it, and then the end of the stream. A client is named by its
connection, of which it has one.
-/

namespace BoostLearning.Daytime

abbrev ClientId := Nat

/-- What happens on a connection: a message is going to be sent, bytes are transmitted, the write
fails, the socket is closed. -/
inductive Act where
  | serving (message : List UInt8)
  | wrote (bytes : List UInt8)
  | failed
  | closed
deriving DecidableEq

structure Obs where
  client : ClientId
  act : Act
deriving DecidableEq

def actsAt (c : ClientId) (tr : List Obs) : List Act :=
  (tr.filter fun o => o.client = c).map Obs.act

def unseen (c : ClientId) (tr : List Obs) : Bool := tr.all fun o => o.client ≠ c

structure Connection where
  client : ClientId
  message : List UInt8
  sent : Nat
deriving DecidableEq

/-- The open connections in the order of their acceptance, and all that has happened. -/
structure Service where
  connections : List Connection
  trace : List Obs
deriving DecidableEq

inductive ServiceEvent where
  | accept (c : ClientId) (message : List UInt8)
  | send (i n : Nat)
  | close (i : Nat) (ec : ErrorCode)
deriving DecidableEq

def ending (c : ClientId) : ErrorCode → List Obs
  | .success => [⟨c, .closed⟩]
  | .failure => [⟨c, .failed⟩, ⟨c, .closed⟩]

namespace Service

/-- A connection is closed after all of the message, or after an error. -/
def step (s : Service) : ServiceEvent → Option Service
  | .accept c message =>
    if unseen c s.trace then
      some ⟨s.connections ++ [⟨c, message, 0⟩], s.trace ++ [⟨c, .serving message⟩]⟩
    else none
  | .send i n =>
    s.connections[i]?.bind fun x =>
      if n ≤ x.message.length - x.sent then
        some ⟨s.connections.set i { x with sent := x.sent + n },
          s.trace ++ [⟨x.client, .wrote ((x.message.drop x.sent).take n)⟩]⟩
      else none
  | .close i ec =>
    s.connections[i]?.bind fun x =>
      if ec = .success ∧ x.sent ≠ x.message.length then none
      else some ⟨s.connections.eraseIdx i, s.trace ++ ending x.client ec⟩

end Service

def service : System Service ServiceEvent := ⟨⟨[], []⟩, Service.step⟩

namespace Service

inductive Effect (s : Service) : Service → Prop
  | accept {c : ClientId} {message : List UInt8} (hc : unseen c s.trace) :
      Effect s ⟨s.connections ++ [⟨c, message, 0⟩], s.trace ++ [⟨c, .serving message⟩]⟩
  | send {i n : Nat} {x : Connection} (hi : s.connections[i]? = some x)
      (hn : n ≤ x.message.length - x.sent) :
      Effect s ⟨s.connections.set i { x with sent := x.sent + n },
        s.trace ++ [⟨x.client, .wrote ((x.message.drop x.sent).take n)⟩]⟩
  | close {i : Nat} {ec : ErrorCode} {x : Connection} (hi : s.connections[i]? = some x)
      (hec : ec = .success → x.sent = x.message.length) :
      Effect s ⟨s.connections.eraseIdx i, s.trace ++ ending x.client ec⟩

private theorem Effect.exists_trace {s t : Service} (h : Effect s t) :
    ∃ obs, t.trace = s.trace ++ obs := by
  cases h with
  | accept hc => exact ⟨_, rfl⟩
  | send hi hn => exact ⟨_, rfl⟩
  | close hi hec => exact ⟨_, rfl⟩

theorem exists_step_iff {s t : Service} : (∃ e, s.step e = some t) ↔ Effect s t := by
  constructor
  · rintro ⟨e, he⟩
    cases e with
    | accept c message =>
      simp only [step, Option.ite_none_right_eq_some, Option.some.injEq] at he
      obtain ⟨hc, rfl⟩ := he
      exact .accept hc
    | send i n =>
      obtain ⟨x, hi, he⟩ := Option.bind_eq_some_iff.1 he
      simp only [Option.ite_none_right_eq_some, Option.some.injEq] at he
      obtain ⟨hn, rfl⟩ := he
      exact .send hi hn
    | close i ec =>
      obtain ⟨x, hi, he⟩ := Option.bind_eq_some_iff.1 he
      simp only [Option.ite_none_left_eq_some, Option.some.injEq, ne_eq, not_and, not_not] at he
      obtain ⟨hec, rfl⟩ := he
      exact .close hi hec
  · intro he
    cases he with
    | @accept c message hc => exact ⟨.accept c message, by simp [step, hc]⟩
    | @send i n x hi hn => exact ⟨.send i n, by simp [step, hi, hn]⟩
    | @close i ec x hi hec =>
      refine ⟨.close i ec, ?_⟩
      simp only [step, hi, Option.bind_some, Option.ite_none_left_eq_some, ne_eq, not_and, not_not]
      exact ⟨hec, trivial⟩

end Service

/-! ## What a client sees -/

/-- All that can happen on a connection. -/
inductive Dialogue : List Act → Prop
  | unserved : Dialogue []
  | serving {message : List UInt8} {parts : List (List UInt8)} (h : parts.flatten <+: message) :
      Dialogue (.serving message :: parts.map .wrote)
  | complete {message : List UInt8} {parts : List (List UInt8)} (h : parts.flatten = message) :
      Dialogue (.serving message :: (parts.map .wrote ++ [.closed]))
  | broken {message : List UInt8} {parts : List (List UInt8)} (h : parts.flatten <+: message) :
      Dialogue (.serving message :: (parts.map .wrote ++ [.failed, .closed]))

/-- Nothing comes after the end. -/
theorem Dialogue.closed_last {acts acts' : List Act} (h : Dialogue (acts ++ acts'))
    (hclosed : .closed ∈ acts) : acts' = [] := by
  have hlast : ∀ before, .closed ∉ before → acts ++ acts' = before ++ [.closed] → acts' = [] := by
    intro before hbefore heq
    rcases List.eq_nil_or_concat acts' with hnil | ⟨middle, last, rfl⟩
    · exact hnil
    · rw [List.concat_eq_append, ← List.append_assoc] at heq
      obtain ⟨hinit, -⟩ := List.append_inj' heq rfl
      exact absurd (hinit ▸ List.mem_append_left _ hclosed) hbefore
  have hmem := List.mem_append_left acts' hclosed
  generalize hall : acts ++ acts' = all at h hmem
  cases h with
  | unserved => exact absurd hmem (by simp)
  | serving hparts => exact absurd hmem (by simp)
  | @complete message parts hparts =>
    exact hlast (.serving message :: parts.map .wrote) (by simp) (by simpa using hall)
  | @broken message parts hparts =>
    exact hlast (.serving message :: (parts.map .wrote ++ [.failed])) (by simp)
      (by simpa using hall)

section Acts

variable {c d : ClientId} {tr obs : List Obs}

@[simp]
theorem actsAt_append : actsAt c (tr ++ obs) = actsAt c tr ++ actsAt c obs := by
  simp [actsAt]

@[simp]
theorem actsAt_single {a : Act} : actsAt c [⟨d, a⟩] = if d = c then [a] else [] := by
  by_cases h : d = c <;> simp [actsAt, h]

@[simp]
theorem actsAt_nil : actsAt c [] = [] := rfl

private theorem actsAt_ending {ec : ErrorCode} : actsAt c (ending d ec) =
    if d = c then (if ec = .success then [.closed] else [.failed, .closed]) else [] := by
  by_cases h : d = c <;> cases ec <;> simp [actsAt, ending, h]

theorem unseen_iff : unseen c tr ↔ actsAt c tr = [] := by
  simp [unseen, actsAt]

end Acts

namespace Service

variable {s t : Service} {c : ClientId} {e : ServiceEvent}

def Served (tr : List Obs) (x : Connection) : Prop :=
  x.sent ≤ x.message.length ∧ ∃ parts : List (List UInt8),
    parts.flatten = x.message.take x.sent ∧
    actsAt x.client tr = .serving x.message :: parts.map .wrote

/-- Everyone's connection is open, or the dialogue is over. -/
structure Inv (s : Service) : Prop where
  served : ∀ x ∈ s.connections, Served s.trace x
  nodup : (s.connections.map Connection.client).Nodup
  dialogue : ∀ c, Dialogue (actsAt c s.trace)
  ended : ∀ c, actsAt c s.trace = [] ∨ .closed ∈ actsAt c s.trace ∨
    ∃ x ∈ s.connections, x.client = c

private theorem Served.dialogue {tr : List Obs} {x : Connection} (h : Served tr x) :
    Dialogue (actsAt x.client tr) := by
  obtain ⟨-, parts, hparts, hacts⟩ := h
  rw [hacts]
  exact .serving (hparts ▸ List.take_prefix _ _)

private theorem Served.frame {tr obs : List Obs} {x : Connection} (h : Served tr x)
    (hobs : actsAt x.client obs = []) : Served (tr ++ obs) x := by
  obtain ⟨hle, parts, hparts, hacts⟩ := h
  exact ⟨hle, parts, hparts, by rw [actsAt_append, hobs, List.append_nil, hacts]⟩

private theorem Inv.client_ne (h : s.Inv) {i j : Nat} {x y : Connection}
    (hi : s.connections[i]? = some x)
    (hj : s.connections[j]? = some y) (hij : i ≠ j) : x.client ≠ y.client := by
  intro heq
  apply hij
  have hxy : (s.connections.map Connection.client)[i]? =
      (s.connections.map Connection.client)[j]? := by
    rw [List.getElem?_map, List.getElem?_map, hi, hj, Option.map_some, Option.map_some, heq]
  have hlt : i < (s.connections.map Connection.client).length := by
    rw [List.length_map]
    exact (List.getElem?_eq_some_iff.1 hi).1
  exact (List.getElem?_inj hlt h.nodup).1 hxy

private theorem Inv.accept (h : s.Inv) {message : List UInt8} (hc : unseen c s.trace) :
    Inv ⟨s.connections ++ [⟨c, message, 0⟩], s.trace ++ [⟨c, .serving message⟩]⟩ := by
  have hnil := unseen_iff.1 hc
  have hne : ∀ x ∈ s.connections, c ≠ x.client := by
    intro x hx heq
    obtain ⟨-, parts, -, hacts⟩ := h.served x hx
    rw [← heq, hnil] at hacts
    exact absurd hacts (by simp)
  have hnew : Served (s.trace ++ [⟨c, .serving message⟩]) ⟨c, message, 0⟩ :=
    ⟨Nat.zero_le _, [], by simp, by simp [hnil]⟩
  constructor
  · intro x hx
    rcases List.mem_append.1 hx with hx | hx
    · exact (h.served x hx).frame (by simp [hne x hx])
    · exact List.mem_singleton.1 hx ▸ hnew
  · rw [List.map_append, List.nodup_append]
    refine ⟨h.nodup, by simp, ?_⟩
    intro d hd d' hd' heq
    obtain ⟨x, hx, rfl⟩ := List.mem_map.1 hd
    exact hne x hx (heq.trans (List.mem_singleton.1 hd')).symm
  · intro d
    by_cases hdc : d = c
    · exact hdc ▸ hnew.dialogue
    · simpa [Ne.symm hdc] using h.dialogue d
  · intro d
    by_cases hdc : d = c
    · exact .inr (.inr ⟨⟨c, message, 0⟩, by simp, hdc.symm⟩)
    · have hd := h.ended d
      simp only [actsAt_append, actsAt_single, if_neg (Ne.symm hdc), List.append_nil]
      apply hd.imp_right
      apply Or.imp_right
      rintro ⟨x, hx, rfl⟩
      exact ⟨x, List.mem_append_left _ hx, rfl⟩

private theorem Inv.send (h : s.Inv) {i n : Nat} {x : Connection} (hi : s.connections[i]? = some x)
    (hn : n ≤ x.message.length - x.sent) :
    Inv ⟨s.connections.set i { x with sent := x.sent + n },
      s.trace ++ [⟨x.client, .wrote ((x.message.drop x.sent).take n)⟩]⟩ := by
  obtain ⟨hle, parts, hparts, hacts⟩ := h.served x (List.mem_of_getElem? hi)
  have hlt : i < s.connections.length := (List.getElem?_eq_some_iff.1 hi).1
  have hself : Served (s.trace ++ [⟨x.client, .wrote ((x.message.drop x.sent).take n)⟩])
      { x with sent := x.sent + n } := by
    refine ⟨?_, parts ++ [(x.message.drop x.sent).take n], ?_, by simp [hacts]⟩
    · change x.sent + n ≤ x.message.length
      omega
    · simp [hparts, List.take_add]
  constructor
  · intro y hy
    obtain ⟨j, hj⟩ := List.getElem?_of_mem hy
    by_cases hij : i = j
    · subst j
      rw [List.getElem?_set_self hlt, Option.some.injEq] at hj
      exact hj ▸ hself
    · rw [List.getElem?_set_ne hij] at hj
      exact (h.served y (List.mem_of_getElem? hj)).frame (by simp [h.client_ne hi hj hij])
  · rw [map_set_of_eq hi]
    · exact h.nodup
    · rfl
  · intro d
    by_cases hd : x.client = d
    · exact hd ▸ hself.dialogue
    · simpa [hd] using h.dialogue d
  · intro d
    by_cases hd : x.client = d
    · exact .inr (.inr ⟨_, List.mem_set hlt _, hd⟩)
    · simp only [actsAt_append, actsAt_single, if_neg hd, List.append_nil]
      apply (h.ended d).imp_right
      apply Or.imp_right
      rintro ⟨y, hy, rfl⟩
      obtain ⟨j, hj⟩ := List.getElem?_of_mem hy
      have hij : i ≠ j := by
        rintro rfl
        exact hd (congrArg Connection.client (Option.some.inj (hi.symm.trans hj)))
      exact ⟨y, List.mem_of_getElem? ((List.getElem?_set_ne hij).trans hj), rfl⟩

private theorem Inv.close (h : s.Inv) {i : Nat} {ec : ErrorCode} {x : Connection}
    (hi : s.connections[i]? = some x) (hec : ec = .success → x.sent = x.message.length) :
    Inv ⟨s.connections.eraseIdx i, s.trace ++ ending x.client ec⟩ := by
  obtain ⟨hle, parts, hparts, hacts⟩ := h.served x (List.mem_of_getElem? hi)
  constructor
  · intro y hy
    obtain ⟨j, hij, hj⟩ := List.mem_eraseIdx_iff_getElem?.1 hy
    have hne := h.client_ne hi hj (Ne.symm hij)
    exact (h.served y (List.mem_of_getElem? hj)).frame (by simp [actsAt_ending, hne])
  · exact h.nodup.sublist ((List.eraseIdx_sublist _ _).map _)
  · intro d
    by_cases hd : x.client = d
    · subst d
      simp only [actsAt_append, actsAt_ending, hacts]
      cases ec with
      | success =>
        rw [hec rfl, List.take_length] at hparts
        exact .complete hparts
      | failure => exact .broken (hparts ▸ List.take_prefix _ _)
    · simpa [actsAt_ending, hd] using h.dialogue d
  · intro d
    by_cases hd : x.client = d
    · right
      left
      rw [actsAt_append, actsAt_ending, if_pos hd]
      split <;> simp
    · simp only [actsAt_append, actsAt_ending, if_neg hd, List.append_nil]
      apply (h.ended d).imp_right
      apply Or.imp_right
      rintro ⟨y, hy, rfl⟩
      obtain ⟨j, hj⟩ := List.getElem?_of_mem hy
      have hij : j ≠ i := by
        rintro rfl
        exact hd (congrArg Connection.client (Option.some.inj (hi.symm.trans hj)))
      exact ⟨y, List.mem_eraseIdx_iff_getElem?.2 ⟨j, hij, hj⟩, rfl⟩

theorem Inv.step (h : s.Inv) (he : Effect s t) : t.Inv := by
  cases he with
  | accept hc => exact h.accept hc
  | send hi hn => exact h.send hi hn
  | close hi hec => exact h.close hi hec

theorem inv_reachable (h : service.Reachable s) : s.Inv := by
  apply System.reachable_induction (P := Inv) _
    (fun _ _ _ _ hs he => hs.step (exists_step_iff.1 ⟨_, he⟩)) h
  exact ⟨by simp [service], by simp [service], fun c => .unserved, fun c => .inl rfl⟩

end Service

/-! ## Programs that are the service -/

section Programs

variable {σ ε : Type*} {M : System σ ε} {trace : σ → List Obs} {R : σ → Service → Prop}

/-- Whatever the program does, the service can do. -/
structure Refines (M : System σ ε) (trace : σ → List Obs) (R : σ → Service → Prop) : Prop where
  init : R M.init ⟨[], []⟩
  trace : ∀ s t, R s t → trace s = t.trace
  step : ∀ s e s' t, R s t → M.step s e = some s' →
    R s' t ∨ ∃ t', Service.Effect t t' ∧ R s' t'

/-- And the program can do whatever the service does. -/
structure Implements (M : System σ ε) (trace : σ → List Obs) (R : σ → Service → Prop) : Prop
    extends Refines M trace R where
  served : ∀ t t' s, R s t → Service.Effect t t' → ∃ e s', M.step s e = some s' ∧ R s' t'

theorem Refines.exists_related (h : Refines M trace R) {s : σ} (hs : M.Reachable s) :
    ∃ t, service.Reachable t ∧ R s t := by
  apply System.exists_related (R := R) h.init _ hs
  intro s e s' t hR he
  rcases h.step s e s' t hR he with hR' | ⟨t', heffect, hR'⟩
  · exact ⟨[], t, rfl, hR'⟩
  · obtain ⟨d, hd⟩ := Service.exists_step_iff.2 heffect
    exact ⟨[d], t', (service.exec_singleton_some).2 hd, hR'⟩

theorem Refines.step_trace (h : Refines M trace R) {s s' : σ} {e : ε} {t : Service}
    (ht : service.Reachable t) (hR : R s t) (he : M.step s e = some s') :
    ∃ t' obs, service.Reachable t' ∧ R s' t' ∧ trace s' = trace s ++ obs := by
  rcases h.step s e s' t hR he with hR' | ⟨t', heffect, hR'⟩
  · refine ⟨t, [], ht, hR', ?_⟩
    rw [h.trace s' t hR', h.trace s t hR, List.append_nil]
  · obtain ⟨d, hd⟩ := Service.exists_step_iff.2 heffect
    obtain ⟨obs, hobs⟩ := heffect.exists_trace
    refine ⟨t', obs, ht.step hd, hR', ?_⟩
    rw [h.trace s' t' hR', h.trace s t hR, hobs]

theorem Refines.exists_trace (h : Refines M trace R) {s : σ} (hs : M.Reachable s) :
    ∃ t, service.Reachable t ∧ t.trace = trace s := by
  obtain ⟨t, ht, hR⟩ := h.exists_related hs
  exact ⟨t, ht, (h.trace s t hR).symm⟩

theorem Implements.traces (h : Implements M trace R) (tr : List Obs) :
    (∃ s, M.Reachable s ∧ trace s = tr) ↔ ∃ t, service.Reachable t ∧ t.trace = tr := by
  constructor
  · rintro ⟨s, hs, rfl⟩
    exact h.exists_trace hs
  · rintro ⟨t, ht, rfl⟩
    obtain ⟨s, hs, hR⟩ := System.exists_related (R := fun t s => R s t) (N := M) h.init (by
      intro t d t' s hR hd
      obtain ⟨e, s', he, hR'⟩ := h.served t t' s hR (Service.exists_step_iff.1 ⟨d, hd⟩)
      exact ⟨[e], s', (M.exec_singleton_some).2 he, hR'⟩) ht
    exact ⟨s, hs, h.trace s t hR⟩

end Programs

end BoostLearning.Daytime
