import BoostLearning.Daytime.Service

/-!
# The iterative daytime server

`sync_server.cpp` handles one connection at a time. It can be seen to do what the service does as
long as this has no more than one connection open, and nothing else.
-/

namespace BoostLearning.Daytime

/-- Where `main` is: in `accept`, in `write` with the local `socket` and `message`, or at the end,
because `accept` has thrown. -/
inductive Loop where
  | accepting
  | writing (socket : ClientId) (message : List UInt8) (sent : Nat)
  | exited
deriving DecidableEq

structure IterativeServer where
  loop : Loop
  trace : List Obs
deriving DecidableEq

inductive IterativeEvent where
  | accept (c : ClientId) (now : List UInt8)
  | acceptThrows
  | transmit (n : Nat)
  | writeReturns (ignoredError : ErrorCode)
deriving DecidableEq

namespace IterativeServer

/-- One step of `main`. The body of the loop ends with the `write`, and `socket` with the body. -/
def step (s : IterativeServer) : IterativeEvent → Option IterativeServer
  | .accept c now =>
    if s.loop = .accepting ∧ unseen c s.trace then
      some ⟨.writing c now 0, s.trace ++ [⟨c, .serving now⟩]⟩
    else none
  | .acceptThrows => if s.loop = .accepting then some { s with loop := .exited } else none
  | .transmit n =>
    match s.loop with
    | .writing socket message sent =>
      if n ≤ message.length - sent then
        some ⟨.writing socket message (sent + n),
          s.trace ++ [⟨socket, .wrote ((message.drop sent).take n)⟩]⟩
      else none
    | _ => none
  | .writeReturns ignoredError =>
    match s.loop with
    | .writing socket message sent =>
      if ignoredError = .success ∧ sent ≠ message.length then none
      else some ⟨.accepting, s.trace ++ ending socket ignoredError⟩
    | _ => none

end IterativeServer

def iterativeServer : System IterativeServer IterativeEvent :=
  ⟨⟨.accepting, []⟩, IterativeServer.step⟩

/-- The service with no more than one connection. -/
def serialService : System Service ServiceEvent :=
  service.restrict fun s e =>
    match e with
    | .accept _ _ => s.connections.isEmpty
    | _ => true

namespace IterativeServer

variable {s s' : IterativeServer} {t t' : Service}

def connections : Loop → List Connection
  | .writing socket message sent => [⟨socket, message, sent⟩]
  | _ => []

def Serves (s : IterativeServer) (t : Service) : Prop :=
  s.trace = t.trace ∧ t.connections = connections s.loop

theorem Serves.step (h : Serves s t) {e : IterativeEvent} (he : s.step e = some s') :
    Serves s' t ∨ ∃ d t', serialService.step t d = some t' ∧ Serves s' t' := by
  obtain ⟨loop, trace⟩ := s
  obtain ⟨connections', trace'⟩ := t
  obtain ⟨rfl, rfl⟩ : trace = trace' ∧ connections' = connections loop := h
  cases e with
  | accept c now =>
    simp only [IterativeServer.step, Option.ite_none_right_eq_some, Option.some.injEq] at he
    obtain ⟨⟨rfl, hc⟩, rfl⟩ := he
    refine .inr ⟨.accept c now, ⟨[⟨c, now, 0⟩], trace ++ [⟨c, .serving now⟩]⟩, ?_, rfl, rfl⟩
    simp [serialService, System.restrict, service, Service.step, connections, hc]
  | acceptThrows =>
    simp only [IterativeServer.step, Option.ite_none_right_eq_some, Option.some.injEq] at he
    obtain ⟨rfl, rfl⟩ := he
    exact .inl ⟨rfl, rfl⟩
  | transmit n =>
    cases loop with
    | writing socket message sent =>
      simp only [IterativeServer.step, Option.ite_none_right_eq_some, Option.some.injEq] at he
      obtain ⟨hn, rfl⟩ := he
      refine .inr ⟨.send 0 n, ⟨[⟨socket, message, sent + n⟩],
        trace ++ [⟨socket, .wrote ((message.drop sent).take n)⟩]⟩, ?_, rfl, rfl⟩
      simp [serialService, System.restrict, service, Service.step, connections, hn]
    | _ => exact absurd he (by simp [IterativeServer.step])
  | writeReturns ec =>
    cases loop with
    | writing socket message sent =>
      simp only [IterativeServer.step, Option.ite_none_left_eq_some, Option.some.injEq] at he
      obtain ⟨hec, rfl⟩ := he
      refine .inr ⟨.close 0 ec, ⟨[], trace ++ ending socket ec⟩, ?_, rfl, rfl⟩
      simp [serialService, System.restrict, service, Service.step, connections, hec]
    | _ => exact absurd he (by simp [IterativeServer.step])

def Running (s : IterativeServer) : Prop := s.loop ≠ .exited

/-- What the service with one connection does, the loop does too. -/
theorem Serves.served (h : Serves s t) (hrunning : s.Running) {d : ServiceEvent}
    (hd : serialService.step t d = some t') :
    ∃ e s', s.step e = some s' ∧ Serves s' t' ∧ s'.Running := by
  obtain ⟨loop, trace⟩ := s
  obtain ⟨connections', trace'⟩ := t
  obtain ⟨rfl, rfl⟩ : trace = trace' ∧ connections' = connections loop := h
  obtain ⟨hallowed, hd⟩ := System.restrict_step.1 hd
  cases loop with
  | accepting =>
    cases d with
    | accept c message =>
      simp only [service, Service.step, connections, Option.ite_none_right_eq_some,
        Option.some.injEq] at hd
      obtain ⟨hc, rfl⟩ := hd
      refine ⟨.accept c message, ⟨.writing c message 0, trace ++ [⟨c, .serving message⟩]⟩, ?_,
        ⟨rfl, rfl⟩, by simp [Running]⟩
      simp [IterativeServer.step, hc]
    | send i n => exact absurd hd (by simp [service, Service.step, connections])
    | close i ec => exact absurd hd (by simp [service, Service.step, connections])
  | writing socket message sent =>
    cases d with
    | accept c message' => exact absurd hallowed (by simp [connections])
    | send i n =>
      obtain ⟨x, hi, hd⟩ := Option.bind_eq_some_iff.1 hd
      obtain ⟨rfl, hx⟩ := eq_singleton_of_getElem?
        (l := connections (.writing socket message sent)) (Nat.le_refl 1) hi
      obtain rfl := List.singleton_inj.1 hx
      simp only [connections, List.set_cons_zero, Option.ite_none_right_eq_some,
        Option.some.injEq] at hd
      obtain ⟨hn, rfl⟩ := hd
      refine ⟨.transmit n, ⟨.writing socket message (sent + n),
        trace ++ [⟨socket, .wrote ((message.drop sent).take n)⟩]⟩, ?_, ⟨rfl, rfl⟩,
        by simp [Running]⟩
      simp [IterativeServer.step, hn]
    | close i ec =>
      obtain ⟨x, hi, hd⟩ := Option.bind_eq_some_iff.1 hd
      obtain ⟨rfl, hx⟩ := eq_singleton_of_getElem?
        (l := connections (.writing socket message sent)) (Nat.le_refl 1) hi
      obtain rfl := List.singleton_inj.1 hx
      simp only [connections, List.eraseIdx_cons_zero, Option.ite_none_left_eq_some,
        Option.some.injEq] at hd
      obtain ⟨hec, rfl⟩ := hd
      refine ⟨.writeReturns ec, ⟨.accepting, trace ++ ending socket ec⟩, ?_, ⟨rfl, rfl⟩,
        by simp [Running]⟩
      simp [IterativeServer.step, hec]
  | exited => exact absurd rfl hrunning

theorem refines : Refines iterativeServer IterativeServer.trace Serves where
  init := ⟨rfl, rfl⟩
  trace := fun _ _ h => h.1
  step := by
    intro s e s' t h he
    rcases h.step he with hserves | ⟨d, t', hd, hserves⟩
    · exact .inl hserves
    · exact .inr ⟨t', Service.exists_step_iff.1 ⟨d, (System.restrict_step.1 hd).2⟩, hserves⟩

end IterativeServer

/-- The iterative server can be seen to do exactly what the service can do with no more than one
connection at a time. -/
theorem iterativeServer_traces (tr : List Obs) :
    (∃ s, iterativeServer.Reachable s ∧ s.trace = tr) ↔
      ∃ t, serialService.Reachable t ∧ t.trace = tr := by
  constructor
  · rintro ⟨s, hs, rfl⟩
    obtain ⟨t, ht, hserves⟩ := System.exists_related (R := IterativeServer.Serves)
      (N := serialService) ⟨rfl, rfl⟩ (by
      intro s e s' t h he
      rcases h.step he with hserves | ⟨d, t', hd, hserves⟩
      · exact ⟨[], t, rfl, hserves⟩
      · exact ⟨[d], t', (serialService.exec_singleton_some).2 hd, hserves⟩) hs
    exact ⟨t, ht, hserves.1.symm⟩
  · rintro ⟨t, ht, rfl⟩
    obtain ⟨s, hs, hserves, -⟩ := System.exists_related
      (R := fun t s => IterativeServer.Serves s t ∧ s.Running) (N := iterativeServer)
      ⟨⟨rfl, rfl⟩, by simp [IterativeServer.Running, iterativeServer]⟩ (by
      rintro t d t' s ⟨h, hrunning⟩ hd
      obtain ⟨e, s', he, hserves, hrunning'⟩ := h.served hrunning hd
      exact ⟨[e], s', (iterativeServer.exec_singleton_some).2 he, hserves, hrunning'⟩) ht
    exact ⟨s, hs, hserves.1⟩

end BoostLearning.Daytime
