import BoostLearning.Daytime.Iterative
import BoostLearning.Daytime.ReferenceCounted
import BoostLearning.Daytime.TcpServer

/-!
# Clients of the daytime service

`sync_client.cpp` reads from its connection until the end of the stream and prints what it reads;
the file of that name under `UDP` is the same program, whose `std::count` is read as `std::cout`.
The program at the other end of the connections can be any that is the service.
-/

namespace BoostLearning.Daytime

/-- `main` is in the loop, has left it at the end of the stream, or has thrown. -/
inductive Reading where
  | reading
  | finished
  | threw
deriving DecidableEq

/-- The bytes on their way to a client, whether the end of the stream comes after them, and what
the client has printed. -/
structure DaytimeClient where
  incoming : List UInt8
  ended : Bool
  printed : List UInt8
  status : Reading
deriving DecidableEq

def Act.output : Act → List UInt8
  | .wrote bytes => bytes
  | _ => []

namespace DaytimeClient

def connected : DaytimeClient := ⟨[], false, [], .reading⟩

def see (p : DaytimeClient) (acts : List Act) : DaytimeClient :=
  { p with
    incoming := p.incoming ++ acts.flatMap Act.output
    ended := p.ended || acts.contains .closed }

/-- `read_some` into the 128 characters of `buf`, which are printed. -/
def readSome (p : DaytimeClient) (len : Nat) : Option DaytimeClient :=
  if p.status = .reading ∧ 0 < len ∧ len ≤ 128 ∧ len ≤ p.incoming.length then
    some { p with
      incoming := p.incoming.drop len
      printed := p.printed ++ p.incoming.take len }
  else none

def readEof (p : DaytimeClient) : Option DaytimeClient :=
  if p.status = .reading ∧ p.incoming = [] ∧ p.ended then some { p with status := .finished }
  else none

def readError (p : DaytimeClient) : Option DaytimeClient :=
  if p.status = .reading then some { p with status := .threw } else none

end DaytimeClient

/-- A server and its clients. -/
structure Clients (σ : Type*) where
  server : σ
  clients : ClientId → Option DaytimeClient

inductive ClientsEvent (ε : Type*) where
  | connect (c : ClientId)
  | server (e : ε)
  | readSome (c : ClientId) (len : Nat)
  | readEof (c : ClientId)
  | readError (c : ClientId)

namespace Clients

variable {σ ε : Type*}

def atClient (n : Clients σ) (c : ClientId) (f : DaytimeClient → Option DaytimeClient) :
    Option (Clients σ) :=
  ((n.clients c).bind f).map fun p => { n with clients := Function.update n.clients c (some p) }

/-- One event. The server serves clients that have connected. -/
def step (M : System σ ε) (trace : σ → List Obs) (n : Clients σ) :
    ClientsEvent ε → Option (Clients σ)
  | .connect c =>
    if (n.clients c).isNone then
      some { n with clients := Function.update n.clients c (some .connected) }
    else none
  | .server e =>
    (M.step n.server e).bind fun s =>
      let obs := (trace s).drop (trace n.server).length
      if obs.all fun o => (n.clients o.client).isSome then
        some ⟨s, fun c => (n.clients c).map fun p => p.see (actsAt c obs)⟩
      else none
  | .readSome c len => n.atClient c fun p => p.readSome len
  | .readEof c => n.atClient c DaytimeClient.readEof
  | .readError c => n.atClient c DaytimeClient.readError

end Clients

def withClients {σ ε : Type*} (M : System σ ε) (trace : σ → List Obs) :
    System (Clients σ) (ClientsEvent ε) := ⟨⟨M.init, fun _ => none⟩, Clients.step M trace⟩

/-! ## What a client knows -/

/-- The client has read a part of what was put on its connection, and nothing else. -/
structure DaytimeClient.Knows (tr : List Obs) (c : ClientId) (p : DaytimeClient) : Prop where
  bytes : p.printed ++ p.incoming = (actsAt c tr).flatMap Act.output
  ended : p.ended = (actsAt c tr).contains .closed
  finished : p.status = .finished → p.incoming = [] ∧ p.ended = true

namespace DaytimeClient

variable {tr obs : List Obs} {c : ClientId} {p p' : DaytimeClient} {len : Nat}

private theorem Knows.see (h : p.Knows tr c) (hopen : p.status = .finished → actsAt c obs = []) :
    (p.see (actsAt c obs)).Knows (tr ++ obs) c where
  bytes := by
    simp only [DaytimeClient.see, actsAt_append, List.flatMap_append]
    rw [← h.bytes, List.append_assoc]
  ended := by
    simp only [DaytimeClient.see, actsAt_append, List.contains_append]
    rw [h.ended]
  finished := by
    intro hfinished
    obtain ⟨hincoming, hended⟩ := h.finished hfinished
    simp [DaytimeClient.see, hopen hfinished, hincoming, hended]

private theorem Knows.readSome (h : p.Knows tr c) (hr : p.readSome len = some p') :
    p'.Knows tr c := by
  simp only [DaytimeClient.readSome, Option.ite_none_right_eq_some, Option.some.injEq] at hr
  obtain ⟨⟨hreading, -⟩, rfl⟩ := hr
  constructor
  · simp only [List.append_assoc, List.take_append_drop]
    exact h.bytes
  · exact h.ended
  · intro hfinished
    exact absurd (hreading.symm.trans hfinished) (by simp)

private theorem Knows.readEof (h : p.Knows tr c) (hr : p.readEof = some p') : p'.Knows tr c := by
  simp only [DaytimeClient.readEof, Option.ite_none_right_eq_some, Option.some.injEq] at hr
  obtain ⟨⟨-, hincoming, hended⟩, rfl⟩ := hr
  exact ⟨h.bytes, h.ended, fun _ => ⟨hincoming, hended⟩⟩

private theorem Knows.readError (h : p.Knows tr c) (hr : p.readError = some p') :
    p'.Knows tr c := by
  simp only [DaytimeClient.readError, Option.ite_none_right_eq_some, Option.some.injEq] at hr
  obtain ⟨-, rfl⟩ := hr
  exact ⟨h.bytes, h.ended, fun hfinished => absurd hfinished (by simp)⟩

end DaytimeClient

section Composition

variable {σ ε : Type*} {M : System σ ε} {trace : σ → List Obs} {R : σ → Service → Prop}

namespace Clients

variable {n n' : Clients σ} {c : ClientId} {p : DaytimeClient}

structure Inv (trace : σ → List Obs) (R : σ → Service → Prop) (n : Clients σ) : Prop where
  server : ∃ t, service.Reachable t ∧ R n.server t
  knows : ∀ c p, n.clients c = some p → p.Knows (trace n.server) c
  unconnected : ∀ c, n.clients c = none → actsAt c (trace n.server) = []

private theorem Inv.update (h : n.Inv trace R) (hp : p.Knows (trace n.server) c) :
    Inv trace R { n with clients := Function.update n.clients c (some p) } where
  server := h.server
  knows := by
    intro d q hq
    by_cases hdc : d = c
    · subst d
      simp only [Function.update_self, Option.some.injEq] at hq
      exact hq ▸ hp
    · simp only [Function.update_of_ne hdc] at hq
      exact h.knows d q hq
  unconnected := by
    intro d hd
    by_cases hdc : d = c
    · subst d
      exact absurd hd (by simp)
    · simp only [Function.update_of_ne hdc] at hd
      exact h.unconnected d hd

private theorem Inv.atClient (h : n.Inv trace R) {f : DaytimeClient → Option DaytimeClient}
    (hf : ∀ p p', p.Knows (trace n.server) c → f p = some p' → p'.Knows (trace n.server) c)
    (he : n.atClient c f = some n') : n'.Inv trace R := by
  obtain ⟨p', hp', rfl⟩ := Option.map_eq_some_iff.1 he
  obtain ⟨p, hp, hfp⟩ := Option.bind_eq_some_iff.1 hp'
  exact h.update (hf p p' (h.knows c p hp) hfp)

private theorem Inv.served (h : n.Inv trace R) (hM : Refines M trace R) {e : ε} {s : σ}
    (hs : M.step n.server e = some s)
    (hknown : ((trace s).drop (trace n.server).length).all fun o => (n.clients o.client).isSome) :
    Inv trace R ⟨s, fun c => (n.clients c).map fun p =>
      p.see (actsAt c ((trace s).drop (trace n.server).length))⟩ := by
  obtain ⟨t, ht, hR⟩ := h.server
  obtain ⟨t', obs, ht', hR', htrace⟩ := hM.step_trace ht hR hs
  rw [htrace, List.drop_left] at hknown
  constructor
  · exact ⟨t', ht', hR'⟩
  · intro c p hp
    obtain ⟨q, hq, rfl⟩ := Option.map_eq_some_iff.1 hp
    rw [htrace, List.drop_left]
    have hknows := h.knows c q hq
    apply hknows.see
    intro hfinished
    have hdialogue := (Service.inv_reachable ht').dialogue c
    rw [← hM.trace s t' hR', htrace, actsAt_append] at hdialogue
    apply hdialogue.closed_last
    have hended := (hknows.finished hfinished).2
    rw [hknows.ended] at hended
    simpa using hended
  · intro c hc
    have hnone : n.clients c = none := Option.map_eq_none_iff.1 hc
    have hobs : actsAt c obs = [] := by
      rw [← unseen_iff, unseen, List.all_eq_true]
      intro o ho
      have hsome := List.all_eq_true.1 hknown o ho
      have hne : o.client ≠ c := fun heq => absurd (heq ▸ hsome) (by simp [hnone])
      simpa using hne
    rw [htrace, actsAt_append, h.unconnected c hnone, hobs, List.append_nil]

theorem Inv.step (h : n.Inv trace R) (hM : Refines M trace R) {e : ClientsEvent ε}
    (he : n.step M trace e = some n') : n'.Inv trace R := by
  cases e with
  | connect c =>
    simp only [Clients.step, Option.ite_none_right_eq_some, Option.some.injEq] at he
    obtain ⟨hc, rfl⟩ := he
    have hacts := h.unconnected c (Option.isNone_iff_eq_none.1 hc)
    apply h.update
    constructor
    · rw [hacts]
      rfl
    · rw [hacts]
      rfl
    · intro hfinished
      exact absurd hfinished (by simp [DaytimeClient.connected])
  | server e =>
    obtain ⟨s, hs, he⟩ := Option.bind_eq_some_iff.1 he
    simp only [Option.ite_none_right_eq_some, Option.some.injEq] at he
    obtain ⟨hknown, rfl⟩ := he
    exact h.served hM hs hknown
  | readSome c len => exact h.atClient (fun _ _ hp hr => hp.readSome hr) he
  | readEof c => exact h.atClient (fun _ _ hp hr => hp.readEof hr) he
  | readError c => exact h.atClient (fun _ _ hp hr => hp.readError hr) he

theorem inv_reachable (hM : Refines M trace R) (h : (withClients M trace).Reachable n) :
    n.Inv trace R := by
  apply System.reachable_induction (P := Inv trace R) _ (fun _ _ _ _ hn he => hn.step hM he) h
  constructor
  · exact ⟨_, System.reachable_init _, hM.init⟩
  · intro c p hp
    exact absurd hp (by simp [withClients])
  · intro c _
    change actsAt c (trace M.init) = []
    rw [hM.trace _ _ hM.init]
    rfl

end Clients

end Composition

/-- A client has printed a part of the message that was made for it, and all of it when it has
reached the end of the stream and the write has not failed. -/
def DaytimeClient.PrintsMessage (tr : List Obs) (c : ClientId) (p : DaytimeClient) : Prop :=
  (actsAt c tr = [] ∧ p.printed = [] ∧ p.status ≠ .finished) ∨
    ∃ message, (∀ m, .serving m ∈ actsAt c tr ↔ m = message) ∧ p.printed <+: message ∧
      (p.status = .finished → .failed ∉ actsAt c tr → p.printed = message)

/-- What a dialogue has put on the connection. -/
private theorem DaytimeClient.Knows.printsMessage {tr : List Obs} {c : ClientId} {p : DaytimeClient}
    (h : p.Knows tr c) (hd : Dialogue (actsAt c tr)) : p.PrintsMessage tr c := by
  have hbytes := h.bytes
  have hended := h.ended
  unfold PrintsMessage
  generalize actsAt c tr = acts at *
  have houtput : ∀ parts : List (List UInt8), (parts.map Act.wrote).flatMap Act.output =
      parts.flatten := by
    intro parts
    rw [List.flatMap_map]
    exact List.flatMap_id
  cases hd with
  | unserved =>
    left
    refine ⟨rfl, (List.append_eq_nil_iff.1 hbytes).1, ?_⟩
    intro hfinished
    exact absurd ((h.finished hfinished).2.symm.trans hended) (by simp)
  | @serving message parts hparts =>
    right
    simp only [List.flatMap_cons, Act.output, List.nil_append, houtput] at hbytes
    have hprinted : p.printed <+: parts.flatten := ⟨_, hbytes⟩
    refine ⟨message, by simp [eq_comm], hprinted.trans hparts, ?_⟩
    intro hfinished
    exact absurd ((h.finished hfinished).2.symm.trans hended) (by simp)
  | @complete message parts hparts =>
    right
    simp only [List.flatMap_cons, List.flatMap_append, List.flatMap_nil, Act.output,
      List.nil_append, List.append_nil, houtput, hparts] at hbytes
    refine ⟨message, by simp [eq_comm], ⟨_, hbytes⟩, ?_⟩
    intro hfinished _
    rwa [(h.finished hfinished).1, List.append_nil] at hbytes
  | @broken message parts hparts =>
    right
    simp only [List.flatMap_cons, List.flatMap_append, List.flatMap_nil, Act.output,
      List.nil_append, List.append_nil, houtput] at hbytes
    have hprinted : p.printed <+: parts.flatten := ⟨_, hbytes⟩
    refine ⟨message, by simp [eq_comm], hprinted.trans hparts, ?_⟩
    intro _ hfailed
    exact absurd (by simp) hfailed

/-! ## When nothing moves any more -/

section Rest

variable {σ ε : Type*} {M : System σ ε} {trace : σ → List Obs} {R : σ → Service → Prop}

namespace Clients

variable {n n' : Clients σ}

/-- The server cannot do anything but fail or transmit nothing, and no client can read. -/
structure AtRest (M : System σ ε) (trace : σ → List Obs) (n : Clients σ) : Prop where
  server : ∀ e n' obs, n.step M trace (.server e) = some n' →
    trace n'.server = trace n.server ++ obs → obs ≠ [] →
    ∃ o ∈ obs, o.act = .failed ∨ o.act = .wrote []
  readSome : ∀ c len, n.step M trace (.readSome c len) = none
  readEof : ∀ c, n.step M trace (.readEof c) = none

private theorem AtRest.not_served (h : n.AtRest M trace) {s : σ} {e : ε} {obs : List Obs}
    (he : M.step n.server e = some s) (htrace : trace s = trace n.server ++ obs)
    (hknown : ∀ o ∈ obs, (n.clients o.client).isSome) (hne : obs ≠ [])
    (hacts : ∀ o ∈ obs, o.act ≠ .failed ∧ o.act ≠ .wrote []) : False := by
  have hall : ((trace s).drop (trace n.server).length).all
      fun o => (n.clients o.client).isSome := by
    rw [htrace, List.drop_left, List.all_eq_true]
    exact hknown
  have hstep : n.step M trace (.server e) = some ⟨s, fun c => (n.clients c).map fun p =>
      p.see (actsAt c ((trace s).drop (trace n.server).length))⟩ := by
    simp only [Clients.step, he, Option.bind_some, hall, if_true]
  obtain ⟨o, ho, hact⟩ := h.server e _ obs hstep htrace hne
  exact hact.elim (hacts o ho).1 (hacts o ho).2

/-- Everyone has reached the end of the stream, or has thrown. -/
private theorem Inv.not_reading (h : n.Inv trace R) (hM : Refines M trace R)
    (hserves : ∀ t d t', R n.server t → serialService.step t d = some t' →
      ∃ e s, M.step n.server e = some s ∧ R s t')
    (hrest : n.AtRest M trace) {c : ClientId} {p : DaytimeClient} (hp : n.clients c = some p) :
    p.status ≠ .reading := by
  obtain ⟨t, ht, hR⟩ := h.server
  have ht' := Service.inv_reachable ht
  have htrace := hM.trace _ _ hR
  have hserved : ∀ d t' obs, serialService.step t d = some t' → t'.trace = t.trace ++ obs →
      (∀ o ∈ obs, (n.clients o.client).isSome) → obs ≠ [] →
      ¬∀ o ∈ obs, o.act ≠ .failed ∧ o.act ≠ .wrote [] := by
    intro d t' obs hd hobs hknown hne hacts
    obtain ⟨e, s, he, hR'⟩ := hserves t d t' hR hd
    apply hrest.not_served he _ hknown hne hacts
    rw [hM.trace _ _ hR', htrace, hobs]
  -- a connection would be written to, or closed
  have hnone : t.connections = [] := by
    by_contra hne
    obtain ⟨x, rest, hx⟩ := List.exists_cons_of_ne_nil hne
    have hi : t.connections[0]? = some x := by rw [hx, List.getElem?_cons_zero]
    obtain ⟨hle, parts, -, hacts⟩ := ht'.served x (List.mem_of_getElem? hi)
    have hknown : (n.clients x.client).isSome := by
      by_contra hnot
      have hnil := h.unconnected x.client (by simpa using hnot)
      rw [htrace, hacts] at hnil
      exact absurd hnil (by simp)
    by_cases hfull : x.sent = x.message.length
    · apply hserved (.close 0 .success) ⟨t.connections.eraseIdx 0, t.trace ++ [⟨x.client, .closed⟩]⟩
        [⟨x.client, .closed⟩] _ rfl
      · simpa using hknown
      · simp
      · simp
      · simp [serialService, System.restrict, service, Service.step, hi, hfull, ending]
    · have hone : ((x.message.drop x.sent).take 1).length = 1 := by
        rw [List.length_take, List.length_drop]
        omega
      apply hserved (.send 0 1) ⟨t.connections.set 0 { x with sent := x.sent + 1 },
        t.trace ++ [⟨x.client, .wrote ((x.message.drop x.sent).take 1)⟩]⟩
        [⟨x.client, .wrote ((x.message.drop x.sent).take 1)⟩] _ rfl
      · simpa using hknown
      · simp
      · intro o ho
        obtain rfl := List.mem_singleton.1 ho
        refine ⟨by simp, ?_⟩
        intro heq
        rw [Act.wrote.injEq] at heq
        rw [heq] at hone
        exact absurd hone (by simp)
      · have hlt : 1 ≤ x.message.length - x.sent := by omega
        simp [serialService, System.restrict, service, Service.step, hi, hlt]
  have hknows := h.knows c p hp
  -- so the client's dialogue is over
  have hclosed : .closed ∈ actsAt c (trace n.server) := by
    rcases ht'.ended c with hnil | hclosed | ⟨x, hx, -⟩
    · exfalso
      apply hserved (.accept c []) ⟨[⟨c, [], 0⟩], t.trace ++ [⟨c, .serving []⟩]⟩ [⟨c, .serving []⟩]
        _ rfl
      · simp [hp]
      · simp
      · simp
      · simp [serialService, System.restrict, service, Service.step, hnone, unseen_iff.2 hnil]
    · rwa [htrace]
    · exact absurd (hnone ▸ hx) (by simp)
  have hended : p.ended = true := by
    rw [hknows.ended]
    simpa using hclosed
  intro hreading
  cases hincoming : p.incoming with
  | nil =>
    have heof := hrest.readEof c
    simp [Clients.step, Clients.atClient, hp, DaytimeClient.readEof, hreading, hincoming,
      hended] at heof
  | cons b rest =>
    have hsome := hrest.readSome c 1
    simp [Clients.step, Clients.atClient, hp, DaytimeClient.readSome, hreading, hincoming] at hsome

end Clients

end Rest

/-- Every client of the program prints the message that was made for it, and where nothing moves any
more while the program is running, no client waits. -/
def DeliversTo {σ ε : Type*} (M : System σ ε) (trace : σ → List Obs) (running : σ → Prop) : Prop :=
  ∀ n, (withClients M trace).Reachable n → ∀ c p, n.clients c = some p →
    p.PrintsMessage (trace n.server) c ∧
      (running n.server → n.AtRest M trace → p.status ≠ .reading)

private theorem Refines.deliversTo {σ ε : Type*} {M : System σ ε} {trace : σ → List Obs}
    {R : σ → Service → Prop} {running : σ → Prop} (hM : Refines M trace R)
    (hserves : ∀ s t d t', running s → R s t → serialService.step t d = some t' →
      ∃ e s', M.step s e = some s' ∧ R s' t') : DeliversTo M trace running := by
  intro n hn c p hp
  have hinv := Clients.inv_reachable hM hn
  obtain ⟨t, ht, hR⟩ := hinv.server
  have hdialogue := (Service.inv_reachable ht).dialogue c
  rw [← hM.trace _ _ hR] at hdialogue
  refine ⟨(hinv.knows c p hp).printsMessage hdialogue, ?_⟩
  intro hrunning hrest
  exact hinv.not_reading hM (fun t d t' hR hd => hserves _ t d t' hrunning hR hd) hrest hp

private theorem Implements.deliversTo {σ ε : Type*} {M : System σ ε} {trace : σ → List Obs}
    {R : σ → Service → Prop} (hM : Implements M trace R) :
    DeliversTo M trace fun _ => True := by
  apply hM.toRefines.deliversTo
  intro s t d t' _ hR hd
  exact hM.served t t' s hR (Service.exists_step_iff.1 ⟨d, (System.restrict_step.1 hd).2⟩)

/-- The clients of the asynchronous servers and of the iterative one. -/
theorem daytime_deliversTo :
    DeliversTo tcpServer TcpServer.trace (fun _ => True) ∧
    DeliversTo sharedServer SharedServer.trace (fun _ => True) ∧
    DeliversTo iterativeServer IterativeServer.trace IterativeServer.Running := by
  refine ⟨TcpServer.implements.deliversTo, SharedServer.implements.deliversTo, ?_⟩
  apply IterativeServer.refines.deliversTo
  intro s t d t' hrunning hR hd
  obtain ⟨e, s', he, hserves, -⟩ := hR.served hrunning hd
  exact ⟨e, s', he, hserves⟩

/-- The two asynchronous servers cannot be told apart, and the iterative one does nothing that they
do not. -/
theorem daytime_same_traces (tr : List Obs) :
    ((∃ s, tcpServer.Reachable s ∧ s.trace = tr) ↔
      ∃ s, sharedServer.Reachable s ∧ s.trace = tr) ∧
    ((∃ s, iterativeServer.Reachable s ∧ s.trace = tr) →
      ∃ s, tcpServer.Reachable s ∧ s.trace = tr) := by
  have htcp := TcpServer.implements.traces tr
  constructor
  · rw [htcp, SharedServer.implements.traces tr]
  · rintro ⟨s, hs, rfl⟩
    exact htcp.2 (IterativeServer.refines.exists_trace hs)

end BoostLearning.Daytime
