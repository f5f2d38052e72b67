import BoostLearning.Chat.ClientStops
import BoostLearning.Chat.InputLoop
import BoostLearning.Chat.Relay
import Mathlib.Data.List.Forall2

/-!
# Clients and server together

Any number of clients, the server program, and the connections between them. A connection is the
bytes on their way in each direction: what one end transmits is put behind them, and what the other
end receives is taken from their front, in pieces of any size. A client connects once, so that a
session and its connection are named after the client at the other end.
-/

namespace BoostLearning.Chat

/-- A client program: what it holds, the lines that `main` has passed to `write`, whether its input
has ended, the server it is connected to, and the bytes on their way from it and to it. -/
structure Peer where
  run : ClientRun
  typed : List (List Byte)
  inputEnded : Bool
  server : Option ServerId
  up : List Byte
  down : List Byte
deriving DecidableEq

namespace Peer

def start (storage : Storage) : Peer := ⟨.init storage, [], false, none, [], []⟩

/-- An event of the client: it receives from the connection, and transmits on it. -/
def act (p : Peer) (e : ClientEvent) : Option Peer :=
  (p.run.step e).bind fun run =>
    let seen := run.trace.drop p.run.trace.length
    if receivedOf seen <+: p.down ∧ (p.server.isSome ∨ sentOf seen = []) then
      some { p with
        run := run
        up := p.up ++ sentOf seen
        down := p.down.drop (receivedOf seen).length }
    else none

end Peer

/-- The server program and the clients that were started. -/
structure Network where
  server : World
  peers : SessionId → Option Peer

/-- A client is started, reads a line or the end of its input; a connection to a port comes about;
anything else that happens at a client, and what happens at the server. -/
inductive NetEvent where
  | start (c : SessionId) (storage : Storage)
  | line (c : SessionId) (storage : Storage) (text : List Byte)
  | endOfInput (c : SessionId)
  | establish (c : SessionId) (r : ServerId)
  | client (c : SessionId) (e : ClientEvent)
  | server (e : Event)
deriving DecidableEq

namespace Network

def setPeer (n : Network) (c : SessionId) (p : Peer) : Network :=
  { n with peers := Function.update n.peers c (some p) }

/-- The server has come to `w`, and its session for client `c` has received and transmitted. -/
def exchange (n : Network) (w : World) (c : SessionId) : Option Network :=
  (n.peers c).bind fun p =>
    let seen := w.trace.drop n.server.trace.length
    if inputOf c seen <+: p.up then
      some (({ n with server := w } : Network).setPeer c
        { p with up := p.up.drop (inputOf c seen).length, down := p.down ++ wroteBy c seen })
    else none

/-- One event. `async_connect` can only succeed on a connection, and a connection that is accepted
is one to that server. -/
def step (n : Network) : NetEvent → Option Network
  | .start c storage => if (n.peers c).isNone then some (n.setPeer c (.start storage)) else none
  | .line c storage text =>
    (n.peers c).bind fun p =>
      if !p.inputEnded ∧ text.length ≤ maxBodyLength then
        (p.act (.write (.ofBody storage text))).map fun p =>
          n.setPeer c { p with typed := p.typed ++ [text] }
      else none
  | .endOfInput c =>
    (n.peers c).bind fun p =>
      if p.inputEnded then none
      else (p.act .close).map fun p => n.setPeer c { p with inputEnded := true }
  | .establish c r =>
    (n.peers c).bind fun p =>
      if p.server = none ∧ 0 < p.run.client.connects ∧ p.run.client.closed = false ∧
          0 < (n.server.servers r).accepts then
        some (n.setPeer c { p with server := some r })
      else none
  | .client c e =>
    (n.peers c).bind fun p =>
      if e.isCall ∨ (e = .connectDone .success ∧ p.server = none) then none
      else (p.act e).map (n.setPeer c)
  | .server e =>
    (n.server.step e).bind fun w =>
      match e with
      | .acceptDone r c _ _ =>
        if (n.peers c).any fun p => p.server = some r then some { n with server := w } else none
      | .acceptFailed _ => some { n with server := w }
      | .session c _ => n.exchange w c

def init (ports : Nat) : Network := ⟨.init ports, fun _ => none⟩

end Network

def chatNetwork (ports : Nat) : System Network NetEvent := ⟨.init ports, Network.step⟩

/-! ## What a step does -/

/-- An event of the client: what it was seen to do, and what the connection took and gave for it. -/
structure Peer.Acted (p : Peer) (e : ClientEvent) (obs : List ClientObs) (p' : Peer) : Prop where
  step : p.run.step e = some p'.run
  trace : p'.run.trace = p.run.trace ++ obs
  handled : ClientHandled p.run.client e p'.run.client obs
  typed : p'.typed = p.typed
  inputEnded : p'.inputEnded = p.inputEnded
  server : p'.server = p.server
  linked : p.server.isSome ∨ sentOf obs = []
  up : p'.up = p.up ++ sentOf obs
  down : p.down = receivedOf obs ++ p'.down

private theorem Peer.act_cases {p p' : Peer} {e : ClientEvent} (h : p.act e = some p') :
    ∃ obs, p.Acted e obs p' := by
  obtain ⟨run, hrun, h⟩ := Option.bind_eq_some_iff.1 h
  obtain ⟨-, c, obs, hh, rfl⟩ := ClientRun.step_cases hrun
  simp only [List.drop_left, Option.ite_none_right_eq_some, Option.some.injEq] at h
  obtain ⟨⟨hpre, hlinked⟩, rfl⟩ := h
  refine ⟨obs, hrun, rfl, hh, rfl, rfl, rfl, hlinked, rfl, ?_⟩
  exact (List.prefix_iff_eq_append.1 hpre).symm

private theorem World.step_trace {w w' : World} {e : Event} (he : w.step e = some w') :
    ∃ obs, w'.trace = w.trace ++ obs := by
  cases World.step_iff.1 he with
  | accepted hacc hnew => exact ⟨_, rfl⟩
  | refused hacc => exact ⟨[], (List.append_nil _).symm⟩
  | quiet hx hρ hcall => exact ⟨_, rfl⟩
  | left hx hρ hcall => exact ⟨_, rfl⟩
  | delivered hx hρ hcall => exact ⟨_, rfl⟩

private theorem World.step_socketActs {w w' : World} {e : Event} {obs : List Obs} {c : SessionId}
    (he : w.step e = some w') (htrace : w'.trace = w.trace ++ obs)
    (hc : ∀ e', e ≠ .session c e') : socketActs c obs = [] := by
  cases World.step_iff.1 he with
  | accepted hacc hnew =>
    rw [← List.append_cancel_left htrace]
    simp [Obs.socketAct?]
  | refused hacc =>
    rw [List.self_eq_append_right.1 htrace]
    rfl
  | @quiet s e x ρ hx hρ hcall =>
    have hne : s ≠ c := fun h => hc e (h ▸ rfl)
    rw [← List.append_cancel_left htrace]
    simp [hne]
  | @left s e x ρ chain hx hρ hcall =>
    have hne : s ≠ c := fun h => hc e (h ▸ rfl)
    rw [← List.append_cancel_left htrace]
    simp [hne, Obs.socketAct?]
  | @delivered s e x ρ m hx hρ hcall =>
    have hne : s ≠ c := fun h => hc e (h ▸ rfl)
    rw [← List.append_cancel_left htrace]
    simp [hne, Obs.socketAct?]

/-- A session is there after a step if it was before, in the same room, or has just been
accepted. -/
private theorem World.step_sessions {w w' : World} {e : Event} {c : SessionId} {x' : ChatSession}
    (he : w.step e = some w') (hx' : w'.sessions c = some x') :
    (∃ x, w.sessions c = some x ∧ x.room = x'.room) ∨
      ∃ pos storage, e = .acceptDone x'.room c pos storage := by
  cases hx : w.sessions c with
  | some x =>
    obtain ⟨⟨y, hy, hroom⟩, -⟩ := step_session he hx
    rw [hx', Option.some.injEq] at hy
    exact .inl ⟨x, rfl, by rw [hy, hroom]⟩
  | none =>
    right
    cases World.step_iff.1 he with
    | @accepted r s pos storage hacc hnew =>
      have hcs : c = s := by
        by_contra hne
        simp only [Function.update_of_ne hne, hx] at hx'
        exact absurd hx' (by simp)
      subst s
      simp only [Function.update_self, Option.some.injEq] at hx'
      exact ⟨pos, storage, by simp [← hx']⟩
    | refused hacc => exact absurd (hx.symm.trans hx') (by simp)
    | @quiet s e x ρ hs hρ hcall =>
      have hne : c ≠ s := fun h => absurd (hx.symm.trans (h ▸ hs)) (by simp)
      simp only [Function.update_of_ne hne, hx] at hx'
      exact absurd hx' (by simp)
    | @left s e x ρ chain hs hρ hcall =>
      have hne : c ≠ s := fun h => absurd (hx.symm.trans (h ▸ hs)) (by simp)
      simp only [Function.update_of_ne hne, hx] at hx'
      exact absurd hx' (by simp)
    | @delivered s e x ρ m hs hρ hcall =>
      have hne : c ≠ s := fun h => absurd (hx.symm.trans (h ▸ hs)) (by simp)
      simp [hne, hx] at hx'

namespace Network

variable {n n' : Network}

inductive Effect (n : Network) : NetEvent → Network → Prop
  | started {c : SessionId} {storage : Storage} (hnew : n.peers c = none) :
      Effect n (.start c storage) (n.setPeer c (.start storage))
  | line {c : SessionId} {storage : Storage} {text : List Byte} {p p' : Peer}
      {obs : List ClientObs} (hp : n.peers c = some p) (hopen : p.inputEnded = false)
      (hlen : text.length ≤ maxBodyLength)
      (hact : p.Acted (.write (.ofBody storage text)) obs p') :
      Effect n (.line c storage text) (n.setPeer c { p' with typed := p'.typed ++ [text] })
  | ended {c : SessionId} {p p' : Peer} {obs : List ClientObs} (hp : n.peers c = some p)
      (hopen : p.inputEnded = false) (hact : p.Acted .close obs p') :
      Effect n (.endOfInput c) (n.setPeer c { p' with inputEnded := true })
  | established {c : SessionId} {r : ServerId} {p : Peer} (hp : n.peers c = some p)
      (hnone : p.server = none) (hconnects : 0 < p.run.client.connects)
      (hopen : p.run.client.closed = false) (hlistens : 0 < (n.server.servers r).accepts) :
      Effect n (.establish c r) (n.setPeer c { p with server := some r })
  | client {c : SessionId} {e : ClientEvent} {p p' : Peer} {obs : List ClientObs}
      (hp : n.peers c = some p) (hcall : e.isCall = false)
      (hlinked : e = .connectDone .success → p.server ≠ none) (hact : p.Acted e obs p') :
      Effect n (.client c e) (n.setPeer c p')
  | accepted {r : ServerId} {c : SessionId} {pos : Nat} {storage : Storage} {p : Peer} {w : World}
      (hp : n.peers c = some p) (hr : p.server = some r)
      (hw : n.server.step (.acceptDone r c pos storage) = some w) :
      Effect n (.server (.acceptDone r c pos storage)) { n with server := w }
  | refused {r : ServerId} {w : World} (hw : n.server.step (.acceptFailed r) = some w) :
      Effect n (.server (.acceptFailed r)) { n with server := w }
  | session {c : SessionId} {e : SessionEvent} {p : Peer} {w : World} {obs : List Obs}
      {up : List Byte} (hp : n.peers c = some p) (hw : n.server.step (.session c e) = some w)
      (htrace : w.trace = n.server.trace ++ obs) (hup : p.up = inputOf c obs ++ up) :
      Effect n (.server (.session c e))
        (({ n with server := w } : Network).setPeer c
          { p with up := up, down := p.down ++ wroteBy c obs })

theorem step_cases {e : NetEvent} (h : n.step e = some n') : Effect n e n' := by
  cases e with
  | start c storage =>
    simp only [step, Option.ite_none_right_eq_some, Option.some.injEq] at h
    obtain ⟨hnew, rfl⟩ := h
    exact .started (Option.isNone_iff_eq_none.1 hnew)
  | line c storage text =>
    obtain ⟨p, hp, h⟩ := Option.bind_eq_some_iff.1 h
    simp only [Option.ite_none_right_eq_some, Bool.not_eq_true'] at h
    obtain ⟨⟨hopen, hlen⟩, h⟩ := h
    obtain ⟨p', hact, rfl⟩ := Option.map_eq_some_iff.1 h
    obtain ⟨obs, hact⟩ := Peer.act_cases hact
    exact .line hp hopen hlen hact
  | endOfInput c =>
    obtain ⟨p, hp, h⟩ := Option.bind_eq_some_iff.1 h
    simp only [Option.ite_none_left_eq_some, Bool.not_eq_true] at h
    obtain ⟨hopen, h⟩ := h
    obtain ⟨p', hact, rfl⟩ := Option.map_eq_some_iff.1 h
    obtain ⟨obs, hact⟩ := Peer.act_cases hact
    exact .ended hp hopen hact
  | establish c r =>
    obtain ⟨p, hp, h⟩ := Option.bind_eq_some_iff.1 h
    simp only [Option.ite_none_right_eq_some, Option.some.injEq] at h
    obtain ⟨⟨hnone, hconnects, hopen, hlistens⟩, rfl⟩ := h
    exact .established hp hnone hconnects hopen hlistens
  | client c e =>
    obtain ⟨p, hp, h⟩ := Option.bind_eq_some_iff.1 h
    simp only [Option.ite_none_left_eq_some, not_or, Bool.not_eq_true, not_and] at h
    obtain ⟨⟨hcall, hlinked⟩, h⟩ := h
    obtain ⟨p', hact, rfl⟩ := Option.map_eq_some_iff.1 h
    obtain ⟨obs, hact⟩ := Peer.act_cases hact
    exact .client hp hcall hlinked hact
  | server e =>
    obtain ⟨w, hw, h⟩ := Option.bind_eq_some_iff.1 h
    cases e with
    | acceptDone r c pos storage =>
      simp only [Option.ite_none_right_eq_some, Option.some.injEq] at h
      obtain ⟨hany, rfl⟩ := h
      obtain ⟨p, hp, hr⟩ := exists_eq_some_of_any hany
      exact .accepted hp (by simpa using hr) hw
    | acceptFailed r => exact Option.some.inj h ▸ .refused hw
    | session c e =>
      obtain ⟨obs, htrace⟩ := World.step_trace hw
      obtain ⟨p, hp, h⟩ := Option.bind_eq_some_iff.1 h
      simp only [htrace, List.drop_left, Option.ite_none_right_eq_some, Option.some.injEq] at h
      obtain ⟨hpre, rfl⟩ := h
      exact .session hp hw htrace (List.prefix_iff_eq_append.1 hpre).symm

end Network

/-! ## What the two ends know of each other -/

/-- A message is one that the input loop makes of a line. -/
def ChatMessage.OfLine (m : ChatMessage) (text : List Byte) : Prop :=
  text.length ≤ maxBodyLength ∧ ∃ storage, m = .ofBody storage text

/-- The client runs by itself, what it was given to write are its lines, and each direction of
its connection has carried what one end has transmitted as far as the other has received it. -/
structure PeerInv (w : World) (c : SessionId) (p : Peer) : Prop where
  reachable : ∃ storage, (chatClient storage).Reachable p.run
  called : List.Forall₂ ChatMessage.OfLine (calledOf p.run.trace) p.typed
  up : sentOf p.run.trace = inputOf c w.trace ++ p.up
  down : wroteBy c w.trace = receivedOf p.run.trace ++ p.down

namespace ClientHandled

variable {c c' : ChatClient} {msg : ChatMessage} {obs : List ClientObs}

private theorem calledOf_write (hh : ClientHandled c (.write msg) c' obs) : calledOf obs =
    [msg] := by
  cases hh
  rfl

private theorem calledOf_close (hh : ClientHandled c .close c' obs) : calledOf obs = [] := by
  cases hh
  rfl

end ClientHandled

private theorem PeerInv.acted {w : World} {c : SessionId} {p p' : Peer} {e : ClientEvent}
    {obs : List ClientObs} (h : PeerInv w c p) (hact : p.Acted e obs p')
    {texts : List (List Byte)} (htyped : List.Forall₂ ChatMessage.OfLine (calledOf obs) texts) :
    PeerInv w c { p' with typed := p'.typed ++ texts } where
  reachable := by
    obtain ⟨storage, hr⟩ := h.reachable
    exact ⟨storage, hr.step hact.step⟩
  called := by
    simp only [hact.trace, calledOf_append, hact.typed]
    exact List.rel_append h.called htyped
  up := by
    simp only [hact.trace, sentOf_append, hact.up]
    rw [h.up, List.append_assoc]
  down := by
    simp only [hact.trace, receivedOf_append]
    rw [h.down, hact.down, List.append_assoc]

private theorem PeerInv.elsewhere {w w' : World} {c : SessionId} {p : Peer} {obs : List Obs}
    (h : PeerInv w c p) (htrace : w'.trace = w.trace ++ obs) (hacts : socketActs c obs = []) :
    PeerInv w' c p where
  reachable := h.reachable
  called := h.called
  up := by
    rw [h.up, htrace]
    simp [inputOf, hacts]
  down := by
    rw [← h.down, htrace]
    simp [wroteBy, hacts]

namespace Network

structure Inv (ports : Nat) (n : Network) : Prop where
  server : (chatServer ports).Reachable n.server
  peer : ∀ c p, n.peers c = some p → PeerInv n.server c p
  home : ∀ c x, n.server.sessions c = some x →
    ∃ p, n.peers c = some p ∧ p.server = some x.room

variable {ports : Nat} {n n' : Network}

private theorem inv_init (ports : Nat) : (init ports).Inv ports where
  server := System.reachable_init _
  peer := fun c p hp => absurd hp (by simp [init])
  home := fun c x hx => absurd hx (by simp [init, World.init])

theorem Inv.socketActs_eq_nil (h : n.Inv ports) {c : SessionId}
    (hc : n.server.sessions c = none) : socketActs c n.server.trace = [] :=
  ((World.inv_reachable h.server).unstarted c hc).acts

private theorem Inv.setPeer (h : n.Inv ports) {c : SessionId} {p : Peer} (hp : PeerInv n.server c p)
    (hserver : ∀ x, n.server.sessions c = some x → p.server = some x.room) :
    (n.setPeer c p).Inv ports where
  server := h.server
  peer := by
    intro d q hq
    by_cases hdc : d = c
    · subst d
      simp only [Network.setPeer, Function.update_self, Option.some.injEq] at hq
      exact hq ▸ hp
    · simp only [Network.setPeer, Function.update_of_ne hdc] at hq
      exact h.peer d q hq
  home := by
    intro d x hx
    by_cases hdc : d = c
    · subst d
      exact ⟨p, Function.update_self _ _ _, hserver x hx⟩
    · obtain ⟨q, hq, hr⟩ := h.home d x hx
      exact ⟨q, (Function.update_of_ne hdc _ _).trans hq, hr⟩

private theorem Inv.acted (h : n.Inv ports) {c : SessionId} {p p' : Peer} {e : ClientEvent}
    {obs : List ClientObs} (hp : n.peers c = some p) (hact : p.Acted e obs p') (ended : Bool)
    {texts : List (List Byte)} (htyped : List.Forall₂ ChatMessage.OfLine (calledOf obs) texts) :
    (n.setPeer c { p' with typed := p'.typed ++ texts, inputEnded := ended }).Inv ports := by
  have hpeer := (h.peer c p hp).acted hact htyped
  have hended : PeerInv n.server c
      { p' with typed := p'.typed ++ texts, inputEnded := ended } :=
    ⟨hpeer.reachable, hpeer.called, hpeer.up, hpeer.down⟩
  apply h.setPeer hended
  intro x hx
  obtain ⟨q, hq, hr⟩ := h.home c x hx
  rw [hp, Option.some.injEq] at hq
  exact hact.server.trans (hq ▸ hr)

/-- A step of the server that no client has a part in. -/
private theorem Inv.served (h : n.Inv ports) {e : Event} {w : World} (hw : n.server.step e = some w)
    (hsession : ∀ c e', e ≠ .session c e')
    (haccept : ∀ r c pos storage, e = .acceptDone r c pos storage →
      ∃ p, n.peers c = some p ∧ p.server = some r) :
    Inv ports { n with server := w } where
  server := h.server.step hw
  peer := by
    intro c p hp
    obtain ⟨obs, htrace⟩ := World.step_trace hw
    exact (h.peer c p hp).elsewhere htrace (World.step_socketActs hw htrace (hsession c))
  home := by
    intro c x hx
    rcases World.step_sessions hw hx with ⟨y, hy, hroom⟩ | ⟨pos, storage, rfl⟩
    · exact hroom ▸ h.home c y hy
    · exact haccept _ c pos storage rfl

private theorem Inv.session (h : n.Inv ports) {c : SessionId} {e : SessionEvent} {p : Peer}
    {w : World}
    {obs : List Obs} {up : List Byte} (hp : n.peers c = some p)
    (hw : n.server.step (.session c e) = some w) (htrace : w.trace = n.server.trace ++ obs)
    (hup : p.up = inputOf c obs ++ up) :
    (({ n with server := w } : Network).setPeer c
      { p with up := up, down := p.down ++ wroteBy c obs }).Inv ports where
  server := h.server.step (e := .session c e) hw
  peer := by
    intro d q hq
    by_cases hdc : d = c
    · subst d
      simp only [Network.setPeer, Function.update_self, Option.some.injEq] at hq
      subst q
      have hpeer := h.peer c p hp
      refine ⟨hpeer.reachable, hpeer.called, ?_, ?_⟩
      · change sentOf p.run.trace = inputOf c w.trace ++ up
        rw [hpeer.up, hup, htrace]
        simp [inputOf]
      · change wroteBy c w.trace = receivedOf p.run.trace ++ (p.down ++ wroteBy c obs)
        rw [← List.append_assoc, ← hpeer.down, htrace]
        simp [wroteBy]
    · simp only [Network.setPeer, Function.update_of_ne hdc] at hq
      apply (h.peer d q hq).elsewhere htrace
      apply World.step_socketActs hw htrace
      intro e' heq
      rw [Event.session.injEq] at heq
      exact hdc heq.1.symm
  home := by
    intro d x hx
    obtain ⟨y, hy, hroom⟩ : ∃ y, n.server.sessions d = some y ∧ y.room = x.room := by
      rcases World.step_sessions hw hx with hy | ⟨pos, storage, heq⟩
      · exact hy
      · exact absurd heq (by simp)
    obtain ⟨q, hq, hr⟩ := h.home d y hy
    by_cases hdc : d = c
    · subst d
      rw [hp, Option.some.injEq] at hq
      exact ⟨_, Function.update_self _ _ _, by rw [← hroom, ← hr, ← hq]⟩
    · exact ⟨q, (Function.update_of_ne hdc _ _).trans hq, hroom ▸ hr⟩

theorem Inv.step {e : NetEvent} (h : n.Inv ports) (he : n.step e = some n') : n'.Inv ports := by
  cases step_cases he with
  | @started c storage hnew =>
    have hnone : n.server.sessions c = none := by
      by_contra hsome
      obtain ⟨x, hx⟩ := Option.ne_none_iff_exists'.1 hsome
      obtain ⟨p, hp, -⟩ := h.home c x hx
      exact absurd (hnew.symm.trans hp) (by simp)
    have hacts := h.socketActs_eq_nil hnone
    apply h.setPeer
    · refine ⟨⟨storage, System.reachable_init _⟩, .nil, ?_, ?_⟩
      · simp [inputOf, hacts, Peer.start, ClientRun.init]
      · simp [wroteBy, hacts, Peer.start, ClientRun.init]
    · intro x hx
      exact absurd (hnone.symm.trans hx) (by simp)
  | @line c storage text p p' obs hp hopen hlen hact =>
    have htexts : List.Forall₂ ChatMessage.OfLine (calledOf obs) [text] := by
      rw [hact.handled.calledOf_write]
      exact .cons ⟨hlen, storage, rfl⟩ .nil
    exact h.acted hp hact _ htexts
  | @ended c p p' obs hp hopen hact =>
    have htexts : List.Forall₂ ChatMessage.OfLine (calledOf obs) [] := by
      rw [hact.handled.calledOf_close]
      exact .nil
    have hended := h.acted hp hact true htexts
    simpa using hended
  | @established c r p hp hnone hconnects hopen hlistens =>
    have hpeer := h.peer c p hp
    have hlinked : PeerInv n.server c { p with server := some r } :=
      ⟨hpeer.reachable, hpeer.called, hpeer.up, hpeer.down⟩
    apply h.setPeer hlinked
    intro x hx
    obtain ⟨q, hq, hr⟩ := h.home c x hx
    rw [hp, Option.some.injEq] at hq
    rw [← hq, hnone] at hr
    exact absurd hr (by simp)
  | @client c e p p' obs hp hcall hlinked hact =>
    have htexts : List.Forall₂ ChatMessage.OfLine (calledOf obs) [] := by
      rw [hact.handled.calledOf_eq hcall]
      exact .nil
    have hended := h.acted hp hact p'.inputEnded htexts
    simpa using hended
  | accepted hp hr hw =>
    apply h.served hw
    · intro c e'
      simp
    · intro r' c' pos' storage' heq
      rw [Event.acceptDone.injEq] at heq
      obtain ⟨rfl, rfl, -, -⟩ := heq
      exact ⟨_, hp, hr⟩
  | refused hw =>
    apply h.served hw
    · intro c e'
      simp
    · intro r' c' pos' storage' heq
      exact absurd heq (by simp)
  | session hp hw htrace hup => exact h.session hp hw htrace hup

theorem inv_reachable (h : (chatNetwork ports).Reachable n) : n.Inv ports :=
  System.reachable_induction (M := chatNetwork ports) (inv_init ports)
    (fun _ _ _ _ hn he => hn.step he) h

end Network

end BoostLearning.Chat
