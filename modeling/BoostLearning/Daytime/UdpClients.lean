import BoostLearning.Daytime.Server
import BoostLearning.Daytime.Service
import BoostLearning.Framework.Datagrams
import Mathlib.Logic.Function.Basic

/-!
# Clients of the daytime service over UDP

`get_daytime` of `daytime_client.cpp` sends a datagram and waits for one, with a future for every
operation. Between the clients and the server is a network that may lose, duplicate and reorder
datagrams. Every server of the service answers here: the three asynchronous ones, and
`UDP/sync_server.cpp`, which leaves its loop at the first error.
-/

namespace BoostLearning.Daytime

/-- One iteration of the loop in `main` of `sync_server.cpp`, after `receive_from`, which throws
when there is an error. -/
def UdpServer.iteration {ε : Type*} (s : UdpServer ε) (error : Bool) : UdpServer ε :=
  if !error then (s.sendTo s.remoteEndpoint).startReceive else s

private theorem UdpServer.answers_iteration {ε : Type*} :
    Answers false (iteration : UdpServer ε → Bool → UdpServer ε) := by
  constructor
  case datagram => exact fun s => ⟨_, rfl⟩
  case error => exact fun s => rfl

/-- Clients are named by the endpoint of their socket. -/
inductive Packet where
  | request (client : ClientId)
  | reply (client : ClientId) (text : List UInt8)
deriving DecidableEq

def Packet.client : Packet → ClientId
  | .request c => c
  | .reply c _ => c

/-- Where `get_daytime` is: at one of its three `get`s, or it has printed a text at some time, or
a `get` has thrown. -/
inductive Getting where
  | endpoints
  | sendLength
  | recvLength
  | printed (text : List UInt8) (now : Nat)
  | threw
deriving DecidableEq

/-- When the client sent its datagram, and what has arrived at its socket. -/
structure FutureClient where
  status : Getting
  since : Option Nat
  queue : List (List UInt8)
deriving DecidableEq

inductive Future where
  | endpoints
  | sendLength
  | recvLength
  | throws
deriving DecidableEq

namespace FutureClient

/-- `get` returns, or throws. `recv_buf` has 128 characters. -/
def get (p : FutureClient) (now : Nat) : Future → Option FutureClient
  | .endpoints =>
    if p.status = .endpoints then some { p with status := .sendLength, since := some now } else none
  | .sendLength => if p.status = .sendLength then some { p with status := .recvLength } else none
  | .recvLength =>
    match p.status, p.queue with
    | .recvLength, text :: queue =>
      some { p with status := .printed (text.take 128) now, queue := queue }
    | _, _ => none
  | .throws =>
    match p.status with
    | .printed _ _ => none
    | .threw => none
    | _ => some { p with status := .threw }

end FutureClient

/-- The clock, the server, what has arrived at its socket, the network and the clients. -/
structure Udp where
  now : Nat
  server : UdpServer ClientId
  arrived : List (Outcome ClientId)
  net : Datagrams Packet
  clients : ClientId → FutureClient

inductive UdpEvent where
  | tick
  | get (c : ClientId) (f : Future)
  | deliver (i : Nat)
  | lose (i : Nat)
  | duplicate (i : Nat)
  | refuse (left : ClientId)
  | server (e : Event)
deriving DecidableEq

namespace Udp

def arrive (n : Udp) (o : Outcome ClientId) : Udp :=
  { n with
    server := { n.server with offered := n.server.offered ++ [o] }
    arrived := n.arrived ++ [o] }

def setClient (n : Udp) (c : ClientId) (p : FutureClient) : Udp :=
  { n with clients := Function.update n.clients c p }

/-- `ctime` is the text for a time. A text is made when the reply is issued. -/
def step (ctime : Nat → List UInt8)
    (handler : UdpServer ClientId → Bool → UdpServer ClientId) (n : Udp) : UdpEvent → Option Udp
  | .tick => some { n with now := n.now + 1 }
  | .get c f =>
    ((n.clients c).get n.now f).map fun p =>
      let n' := n.setClient c p
      if f = .endpoints then { n' with net := n'.net.send [.request c] } else n'
  | .deliver i =>
    (n.net.deliver i).map fun (x, net) =>
      match x with
      | .request c => { n with net := net }.arrive (.datagram c)
      | .reply c text =>
        { n with net := net }.setClient c
          { n.clients c with queue := (n.clients c).queue ++ [text] }
  | .lose i => (n.net.lose i).map fun net => { n with net := net }
  | .duplicate i => (n.net.duplicate i).map fun net => { n with net := net }
  | .refuse left => some (n.arrive (.error left))
  | .server e =>
    (n.server.step handler e).map fun s =>
      { n with
        server := s
        net := n.net.send ((s.replies.drop n.server.replies.length).map fun c =>
          .reply c (ctime n.now)) }

end Udp

def udp (ctime : Nat → List UInt8) (handler : UdpServer ClientId → Bool → UdpServer ClientId)
    (ep : ClientId) : System Udp UdpEvent :=
  ⟨⟨0, .start ep [], [], ⟨[], []⟩, fun _ => ⟨.endpoints, none, []⟩⟩, Udp.step ctime handler⟩

namespace UdpServer

variable {ε : Type*} {handler : UdpServer ε → Bool → UdpServer ε} {rearm : Bool} {s t : UdpServer ε}
  {os : List (Outcome ε)} {c : ε}

/-! ## The server in the network -/

private theorem mem_sources : c ∈ sources os ↔ .datagram c ∈ os := by
  constructor
  · intro h
    obtain ⟨o, ho, rfl⟩ := List.mem_map.1 h
    obtain ⟨hmem, herror⟩ := List.mem_filter.1 ho
    cases o with
    | datagram source => exact hmem
    | error left => exact absurd herror (by simp [Outcome.isError])
  · intro h
    exact List.mem_map.2 ⟨_, List.mem_filter.2 ⟨h, rfl⟩, rfl⟩

private theorem inv_start {ep : ε} : Inv rearm [] (start ep []) := by
  have hstart : Inv rearm [] ⟨ep, [.pending], [], sources [], []⟩ := .waiting rfl (.inr (by simp))
  exact hstart

private theorem Inv.arrive (h : Inv rearm os s) (o : Outcome ε) :
    Inv rearm (os ++ [o]) { s with offered := s.offered ++ [o] } := by
  cases h with
  | waiting hos hok => exact .waiting (by rw [hos, List.append_assoc]) hok
  | ready hos hok => exact .ready (by rw [hos, List.append_assoc]; rfl) hok
  | stopped hos hrearm ho => exact .stopped (by rw [hos, List.append_assoc]; rfl) hrearm ho

private theorem Inv.replies_sub (h : Inv rearm os s) (hc : c ∈ s.replies) : .datagram c ∈ os := by
  cases h with
  | waiting hos hok => exact hos ▸ List.mem_append_left _ (mem_sources.1 hc)
  | ready hos hok => exact hos ▸ List.mem_append_left _ (mem_sources.1 hc)
  | stopped hos hrearm ho => exact hos ▸ List.mem_append_left _ (mem_sources.1 hc)

private theorem Inv.replies_atRest (h : Inv rearm os s) (hrest : s.AtRest)
    (hgoes : s.receives ≠ []) :
    s.replies = sources os := by
  cases h with
  | @waiting ep sends served offered hos hok =>
    obtain rfl : offered = [] := hrest.1.resolve_right hgoes
    rw [hos, List.append_nil]
  | ready hos hok => exact absurd (List.mem_singleton.2 rfl) (hrest.2 _)
  | stopped hos hrearm ho => exact absurd rfl hgoes

private theorem Inv.receives_ne_nil (h : Inv rearm os s)
    (hok : rearm = true ∨ ∀ o ∈ os, o.isError = false) : s.receives ≠ [] := by
  cases h with
  | waiting hos _ => simp
  | ready hos _ => simp
  | @stopped ep sends served offered o hos hrearm ho =>
    rcases hok with h | h
    · exact absurd (hrearm.symm.trans h) (by simp)
    · have ho' := h o (by simp [hos])
      exact absurd (ho.symm.trans ho') (by simp)

private theorem step_replies (hh : Answers rearm handler) {e : Event}
    (he : s.step handler e = some t) :
    s.replies <+: t.replies := by
  cases e with
  | arrive i =>
    simp only [UdpServer.step] at he
    split at he
    · obtain rfl := Option.some.inj he
      exact List.prefix_rfl
    · exact absurd he (by simp)
  | handleReceive i =>
    simp only [UdpServer.step] at he
    split at he
    · rename_i error _
      obtain rfl := Option.some.inj he
      cases error with
      | false =>
        obtain ⟨sends, heq⟩ := hh.datagram { s with receives := s.receives.eraseIdx i }
        rw [heq]
        exact List.prefix_append ..
      | true =>
        rw [hh.error]
        split <;> exact List.prefix_rfl
    · exact absurd he (by simp)
  | handleSend i =>
    simp only [UdpServer.step, Option.ite_none_right_eq_some, Option.some.injEq] at he
    exact he.2 ▸ List.prefix_rfl

end UdpServer

namespace FutureClient

variable {ctime : Nat → List UInt8} {now now' : Nat} {p p' : FutureClient} {text : List UInt8}

/-- The text for a time at which the client waits. -/
def Fresh (ctime : Nat → List UInt8) (now : Nat) (p : FutureClient) (text : List UInt8) : Prop :=
  ∃ since t, p.since = some since ∧ since ≤ t ∧ t ≤ now ∧ text = ctime t

def Got (p : FutureClient) : Prop := p.queue ≠ [] ∨ ∃ text now, p.status = .printed text now

/-- What a client knows at some time: the text it has printed is one for a time between its
sending and its printing. -/
structure Ok (ctime : Nat → List UInt8) (now : Nat) (p : FutureClient) : Prop where
  unsent : p.status = .endpoints → p.since = none
  since_le : ∀ since, p.since = some since → since ≤ now
  queue : ∀ text ∈ p.queue, p.Fresh ctime now text
  printed : ∀ text at', p.status = .printed text at' → ∃ since t, p.since = some since ∧
    since ≤ t ∧ t ≤ at' ∧ at' ≤ now ∧ text = (ctime t).take 128
  waits : p.status = .sendLength ∨ p.status = .recvLength → p.since.isSome = true

private theorem Fresh.mono (h : p.Fresh ctime now text) (hnow : now ≤ now')
    (hsince : ∀ since, p.since = some since → p'.since = some since) :
    p'.Fresh ctime now' text := by
  obtain ⟨since, t, hs, hle, ht, rfl⟩ := h
  exact ⟨since, t, hsince since hs, hle, Nat.le_trans ht hnow, rfl⟩

private theorem Ok.mono (h : p.Ok ctime now) (hnow : now ≤ now') : p.Ok ctime now' := by
  refine ⟨h.unsent, ?_, ?_, ?_, h.waits⟩
  · intro since hs
    exact Nat.le_trans (h.since_le since hs) hnow
  · intro text htext
    exact (h.queue text htext).mono hnow fun _ hs => hs
  · intro text at' hprinted
    obtain ⟨since, t, hs, hle, ht, hat, rfl⟩ := h.printed text at' hprinted
    exact ⟨since, t, hs, hle, ht, Nat.le_trans hat hnow, rfl⟩

private theorem Ok.get (h : p.Ok ctime now) {f : Future} (hget : p.get now f = some p') :
    p'.Ok ctime now ∧ (∀ since, p.since = some since → p'.since = some since) ∧
      (p.Got → p'.Got) ∧ (p'.since.isSome = true → p.since.isSome = true ∨ f = .endpoints) ∧
      (f = .endpoints → p'.since.isSome = true) := by
  cases f with
  | endpoints =>
    simp only [FutureClient.get, Option.ite_none_right_eq_some, Option.some.injEq] at hget
    obtain ⟨hstatus, rfl⟩ := hget
    have hnone := h.unsent hstatus
    have hqueue : p.queue = [] := by
      apply List.eq_nil_iff_forall_not_mem.2
      intro text htext
      obtain ⟨since, t, hs, -⟩ := h.queue text htext
      exact absurd (hnone.symm.trans hs) (by simp)
    refine ⟨⟨by simp, ?_, ?_, by simp, by simp⟩, ?_, ?_, by simp, by simp⟩
    · simp
    · simp [hqueue]
    · intro since hs
      exact absurd (hnone.symm.trans hs) (by simp)
    · intro hgot
      simp [Got, hqueue, hstatus] at hgot
  | sendLength =>
    simp only [FutureClient.get, Option.ite_none_right_eq_some, Option.some.injEq] at hget
    obtain ⟨hstatus, rfl⟩ := hget
    have hwaits := h.waits (.inl hstatus)
    refine ⟨⟨by simp, h.since_le, h.queue, by simp, fun _ => hwaits⟩, fun _ hs => hs, ?_,
      fun _ => .inl hwaits, by simp⟩
    intro hgot
    simpa [Got, hstatus] using hgot
  | recvLength =>
    simp only [FutureClient.get] at hget
    split at hget
    · rename_i text queue hstatus hqueue
      obtain rfl := Option.some.inj hget
      have hwaits := h.waits (.inr hstatus)
      obtain ⟨since, t, hs, hle, ht, rfl⟩ := h.queue text (hqueue ▸ List.mem_cons_self)
      refine ⟨⟨by simp, h.since_le, ?_, ?_, by simp⟩, fun _ hs => hs, ?_, fun _ => .inl hwaits,
        by simp⟩
      · intro text' htext'
        exact h.queue text' (hqueue ▸ List.mem_cons_of_mem _ htext')
      · intro text' at' hprinted
        obtain ⟨rfl, rfl⟩ := Getting.printed.inj hprinted
        exact ⟨since, t, hs, hle, ht, Nat.le_refl _, rfl⟩
      · intro _
        exact .inr ⟨_, _, rfl⟩
    · exact absurd hget (by simp)
  | throws =>
    have hthrows : p' = { p with status := .threw } ∧
        ∀ text at', p.status ≠ .printed text at' := by
      simp only [FutureClient.get] at hget
      split at hget
      · exact absurd hget (by simp)
      · exact absurd hget (by simp)
      · rename_i hprinted _
        exact ⟨(Option.some.inj hget).symm, fun text at' heq => hprinted text at' heq⟩
    obtain ⟨rfl, hprinted⟩ := hthrows
    refine ⟨⟨by simp, h.since_le, h.queue, by simp, by simp⟩, fun _ hs => hs, ?_, .inl, by simp⟩
    rintro (hqueue | ⟨text, at', heq⟩)
    · exact .inl hqueue
    · exact absurd heq (hprinted text at')

end FutureClient

namespace Udp

variable {ctime : Nat → List UInt8} {handler : UdpServer ClientId → Bool → UdpServer ClientId}
  {rearm : Bool} {ep : ClientId} {n n' : Udp} {c d : ClientId} {text : List UInt8}

/-! ## What the clients print -/

def Lost (n : Udp) (c : ClientId) : Prop := ∃ x ∈ n.net.lost, x.client = c

@[simp] theorem setClient_now (p : FutureClient) : (n.setClient c p).now = n.now := rfl

structure Inv (ctime : Nat → List UInt8) (rearm : Bool) (n : Udp) : Prop where
  server : UdpServer.Inv rearm n.arrived n.server
  clients : ∀ c, (n.clients c).Ok ctime n.now
  arrived : ∀ c, .datagram c ∈ n.arrived → (n.clients c).since.isSome = true
  request : ∀ c, .request c ∈ n.net.flight → (n.clients c).since.isSome = true
  reply : ∀ c text, .reply c text ∈ n.net.flight → (n.clients c).Fresh ctime n.now text
  asked : ∀ c, (n.clients c).since.isSome = true →
    .request c ∈ n.net.flight ∨ n.Lost c ∨ .datagram c ∈ n.arrived
  replied : ∀ c ∈ n.server.replies,
    (∃ text, .reply c text ∈ n.net.flight) ∨ n.Lost c ∨ (n.clients c).Got

private theorem Inv.init : Inv ctime rearm (udp ctime handler ep).init where
  server := UdpServer.inv_start
  clients c := ⟨by simp [udp], by simp [udp], by simp [udp], by simp [udp], by simp [udp]⟩
  arrived := by simp [udp]
  request := by simp [udp]
  reply := by simp [udp]
  asked := by simp [udp]
  replied := by simp [udp, UdpServer.start, UdpServer.startReceive]

private theorem Inv.tick (h : n.Inv ctime rearm) : Inv ctime rearm { n with now := n.now + 1 } := by
  refine ⟨h.server, ?_, h.arrived, h.request, ?_, h.asked, h.replied⟩
  · intro c
    exact (h.clients c).mono (Nat.le_succ _)
  · intro c text hc
    exact (h.reply c text hc).mono (Nat.le_succ _) fun _ hs => hs

private theorem Inv.suffer (h : n.Inv ctime rearm) {net : Datagrams Packet}
    (hnet : Datagrams.Suffers n.net net) : Inv ctime rearm { n with net := net } := by
  have hlost : ∀ c, n.Lost c → Lost { n with net := net } c := by
    rintro c ⟨x, hx, rfl⟩
    exact ⟨x, hnet.lost x hx, rfl⟩
  refine ⟨h.server, h.clients, h.arrived, ?_, ?_, ?_, ?_⟩
  · intro c hc
    exact h.request c (hnet.sub _ hc)
  · intro c text hc
    exact h.reply c text (hnet.sub _ hc)
  · intro c hc
    rcases h.asked c hc with hflight | hc | hc
    · rcases hnet.rest _ hflight with hflight | hmem
      · exact .inl hflight
      · exact .inr (.inl ⟨_, hmem, rfl⟩)
    · exact .inr (.inl (hlost c hc))
    · exact .inr (.inr hc)
  · intro c hc
    rcases h.replied c hc with ⟨text, hflight⟩ | hc | hc
    · rcases hnet.rest _ hflight with hflight | hmem
      · exact .inl ⟨text, hflight⟩
      · exact .inr (.inl ⟨_, hmem, rfl⟩)
    · exact .inr (.inl (hlost c hc))
    · exact .inr (.inr hc)

private theorem Inv.refuse (h : n.Inv ctime rearm) (left : ClientId) :
    Inv ctime rearm (n.arrive (.error left)) := by
  refine ⟨h.server.arrive _, h.clients, ?_, h.request, h.reply, ?_, h.replied⟩
  · intro c hc
    exact h.arrived c (by simpa [Udp.arrive] using hc)
  · intro c hc
    exact (h.asked c hc).imp_right fun h => h.imp_right (List.mem_append_left _)

/-- A request comes to the server. -/
private theorem Inv.deliver_request (h : n.Inv ctime rearm) {net : Datagrams Packet}
    (hnet : Datagrams.Delivers n.net (.request c) net) :
    Inv ctime rearm ({ n with net := net }.arrive (.datagram c)) := by
  have hlost : ∀ d, n.Lost d → Lost ({ n with net := net }.arrive (.datagram c)) d := by
    rintro d ⟨x, hx, rfl⟩
    exact ⟨x, hnet.lost ▸ hx, rfl⟩
  refine ⟨h.server.arrive _, h.clients, ?_, ?_, ?_, ?_, ?_⟩
  · intro d hd
    rcases List.mem_append.1 hd with hd | hd
    · exact h.arrived d hd
    · obtain rfl := Outcome.datagram.inj (List.mem_singleton.1 hd)
      exact h.request d hnet.mem
  · intro d hd
    exact h.request d (hnet.sub _ hd)
  · intro d text hd
    exact h.reply d text (hnet.sub _ hd)
  · intro d hd
    rcases h.asked d hd with hflight | hd | hd
    · rcases hnet.rest _ hflight with heq | hflight
      · obtain rfl := Packet.request.inj heq
        exact .inr (.inr (List.mem_append_right _ (List.mem_singleton.2 rfl)))
      · exact .inl hflight
    · exact .inr (.inl (hlost d hd))
    · exact .inr (.inr (List.mem_append_left _ hd))
  · intro d hd
    rcases h.replied d hd with ⟨text, hflight⟩ | hd | hd
    · rcases hnet.rest _ hflight with heq | hflight
      · exact absurd heq (by simp)
      · exact .inl ⟨text, hflight⟩
    · exact .inr (.inl (hlost d hd))
    · exact .inr (.inr hd)

/-- Something happens at a client, which may send its request or take a reply. -/
private theorem Inv.client (h : n.Inv ctime rearm) {net : Datagrams Packet} {p : FutureClient}
    (hp : p.Ok ctime n.now)
    (hsince : ∀ since, (n.clients c).since = some since → p.since = some since)
    (hgot : (n.clients c).Got → p.Got)
    (hsub : ∀ y ∈ net.flight, y ∈ n.net.flight ∨ y = .request c ∧ p.since.isSome = true)
    (hrest : ∀ y ∈ n.net.flight, y ∈ net.flight ∨ ∃ text, y = .reply c text ∧ p.Got)
    (hasked : p.since.isSome = true →
      (n.clients c).since.isSome = true ∨ .request c ∈ net.flight)
    (hlost : net.lost = n.net.lost) : Inv ctime rearm { n.setClient c p with net := net } := by
  have hclient : ∀ d, { n.setClient c p with net := net }.clients d =
      if d = c then p else n.clients d := fun d => Function.update_apply ..
  have hsome : ∀ d, (n.clients d).since.isSome = true →
      ({ n.setClient c p with net := net }.clients d).since.isSome = true := by
    intro d hd
    rw [hclient]
    by_cases hdc : d = c
    · subst hdc
      obtain ⟨since, hd⟩ := Option.isSome_iff_exists.1 hd
      simp [hsince since hd]
    · simpa [hdc] using hd
  have hgone : ∀ d, n.Lost d → Lost { n.setClient c p with net := net } d := by
    rintro d ⟨x, hx, rfl⟩
    exact ⟨x, hlost ▸ hx, rfl⟩
  refine ⟨h.server, ?_, ?_, ?_, ?_, ?_, ?_⟩
  · intro d
    rw [hclient]
    by_cases hdc : d = c
    · simpa [hdc] using hp
    · simpa [hdc] using h.clients d
  · intro d hd
    exact hsome d (h.arrived d hd)
  · intro d hd
    rcases hsub _ hd with hflight | ⟨heq, hasks⟩
    · exact hsome d (h.request d hflight)
    · obtain rfl := Packet.request.inj heq
      rw [hclient]
      simpa using hasks
  · intro d text hd
    rcases hsub _ hd with hflight | ⟨heq, -⟩
    · rw [hclient]
      by_cases hdc : d = c
      · subst hdc
        simpa using (h.reply d text hflight).mono (Nat.le_refl _) hsince
      · simpa [hdc] using h.reply d text hflight
    · exact absurd heq (by simp)
  · intro d hd
    have hold : (n.clients d).since.isSome = true ∨ .request d ∈ net.flight := by
      rw [hclient] at hd
      by_cases hdc : d = c
      · subst hdc
        exact hasked (by simpa using hd)
      · exact .inl (by simpa [hdc] using hd)
    rcases hold with hold | hnew
    · rcases h.asked d hold with hflight | hd | hd
      · rcases hrest _ hflight with hflight | ⟨text, heq, -⟩
        · exact .inl hflight
        · exact absurd heq (by simp)
      · exact .inr (.inl (hgone d hd))
      · exact .inr (.inr hd)
    · exact .inl hnew
  · intro d hd
    have hkeeps : (n.clients d).Got → ({ n.setClient c p with net := net }.clients d).Got := by
      intro hold
      rw [hclient]
      by_cases hdc : d = c
      · subst hdc
        simpa using hgot hold
      · simpa [hdc] using hold
    rcases h.replied d hd with ⟨text, hflight⟩ | hd | hd
    · rcases hrest _ hflight with hflight | ⟨text', heq, hp⟩
      · exact .inl ⟨text, hflight⟩
      · obtain ⟨rfl, -⟩ := Packet.reply.inj heq
        right
        right
        rw [hclient]
        simpa using hp
    · exact .inr (.inl (hgone d hd))
    · exact .inr (.inr (hkeeps hd))

private theorem Inv.get (h : n.Inv ctime rearm) {f : Future} {p : FutureClient}
    (hget : (n.clients c).get n.now f = some p) :
    Inv ctime rearm (if f = .endpoints then
      { n.setClient c p with net := n.net.send [.request c] } else n.setClient c p) := by
  obtain ⟨hp, hsince, hgot, hasked, hsent⟩ := (h.clients c).get hget
  by_cases hf : f = .endpoints
  · rw [if_pos hf]
    apply h.client hp hsince hgot
    · intro y hy
      rcases Datagrams.mem_send.1 hy with hy | hy
      · exact .inl hy
      · exact .inr ⟨List.mem_singleton.1 hy, hsent hf⟩
    · intro y hy
      exact .inl (Datagrams.mem_send.2 (.inl hy))
    · intro _
      exact .inr (by simp)
    · rfl
  · rw [if_neg hf]
    have hnet : ∀ y ∈ n.net.flight, y ∈ n.net.flight ∨ y = .request c ∧ p.since.isSome = true :=
      fun _ hy => .inl hy
    exact h.client hp hsince hgot hnet (fun _ hy => .inl hy)
      (fun hs => .inl ((hasked hs).resolve_right hf)) rfl

private theorem Inv.deliver_reply (h : n.Inv ctime rearm) {net : Datagrams Packet}
    (hnet : Datagrams.Delivers n.net (.reply c text) net) :
    Inv ctime rearm { n.setClient c { n.clients c with queue := (n.clients c).queue ++ [text] }
      with net := net } := by
  obtain ⟨hunsent, hle, hqueue, hprinted, hwaits⟩ := h.clients c
  have hgot : FutureClient.Got { n.clients c with queue := (n.clients c).queue ++ [text] } :=
    .inl (by simp)
  apply h.client
  · refine ⟨hunsent, hle, ?_, hprinted, hwaits⟩
    intro text' htext'
    rcases List.mem_append.1 htext' with htext' | htext'
    · exact hqueue text' htext'
    · obtain rfl := List.mem_singleton.1 htext'
      exact h.reply c text' hnet.mem
  · exact fun _ hs => hs
  · exact fun _ => hgot
  · exact fun y hy => .inl (hnet.sub y hy)
  · intro y hy
    rcases hnet.rest y hy with rfl | hy
    · exact .inr ⟨text, rfl, hgot⟩
    · exact .inl hy
  · exact .inl
  · exact hnet.lost

private theorem Inv.serve (h : n.Inv ctime rearm) (hh : UdpServer.Answers rearm handler) {e : Event}
    {s : UdpServer ClientId} (he : n.server.step handler e = some s) :
    Inv ctime rearm { n with
      server := s
      net := n.net.send ((s.replies.drop n.server.replies.length).map fun c =>
        .reply c (ctime n.now)) } := by
  have hserver := h.server.step hh he
  have hgrows := UdpServer.step_replies hh he
  refine ⟨hserver, h.clients, h.arrived, ?_, ?_, ?_, ?_⟩
  · intro d hd
    rcases Datagrams.mem_send.1 hd with hd | hd
    · exact h.request d hd
    · obtain ⟨_, _, heq⟩ := List.mem_map.1 hd
      exact absurd heq (by simp)
  · intro d text hd
    rcases Datagrams.mem_send.1 hd with hd | hd
    · exact h.reply d text hd
    · -- The receiver of a new reply has sent its request before.
      obtain ⟨c, hc, heq⟩ := List.mem_map.1 hd
      obtain ⟨rfl, rfl⟩ := Packet.reply.inj heq
      have hsent := h.arrived c (hserver.replies_sub (List.mem_of_mem_drop hc))
      obtain ⟨since, hsince⟩ := Option.isSome_iff_exists.1 hsent
      exact ⟨since, n.now, hsince, (h.clients c).since_le since hsince, Nat.le_refl _, rfl⟩
  · intro d hd
    rcases h.asked d hd with hd | hd | hd
    · exact .inl (Datagrams.mem_send.2 (.inl hd))
    · exact .inr (.inl hd)
    · exact .inr (.inr hd)
  · intro d hd
    obtain ⟨new, hnew⟩ := hgrows
    rw [← hnew] at hd
    rcases List.mem_append.1 hd with hd | hd
    · rcases h.replied d hd with ⟨text, hd⟩ | hd | hd
      · exact .inl ⟨text, Datagrams.mem_send.2 (.inl hd)⟩
      · exact .inr (.inl hd)
      · exact .inr (.inr hd)
    · left
      refine ⟨ctime n.now, Datagrams.mem_send.2 (.inr (List.mem_map.2 ⟨d, ?_, rfl⟩))⟩
      rw [← hnew, List.drop_left]
      exact hd

theorem Inv.step (h : n.Inv ctime rearm) (hh : UdpServer.Answers rearm handler) {e : UdpEvent}
    (he : n.step ctime handler e = some n') : n'.Inv ctime rearm := by
  cases e with
  | tick => exact Option.some.inj he ▸ h.tick
  | get c f =>
    obtain ⟨p, hp, rfl⟩ := Option.map_eq_some_iff.1 he
    exact h.get hp
  | deliver i =>
    obtain ⟨⟨x, net⟩, hx, rfl⟩ := Option.map_eq_some_iff.1 he
    cases x with
    | request c => exact h.deliver_request (Datagrams.delivers hx)
    | reply c text => exact h.deliver_reply (Datagrams.delivers hx)
  | lose i =>
    obtain ⟨net, hnet, rfl⟩ := Option.map_eq_some_iff.1 he
    exact h.suffer (Datagrams.suffers_lose hnet)
  | duplicate i =>
    obtain ⟨net, hnet, rfl⟩ := Option.map_eq_some_iff.1 he
    exact h.suffer (Datagrams.suffers_duplicate hnet)
  | refuse left => exact Option.some.inj he ▸ h.refuse left
  | server e =>
    obtain ⟨s, hs, rfl⟩ := Option.map_eq_some_iff.1 he
    exact h.serve hh hs

theorem inv_reachable (hh : UdpServer.Answers rearm handler)
    (h : (udp ctime handler ep).Reachable n) : n.Inv ctime rearm :=
  System.reachable_induction (P := Inv ctime rearm) .init
    (fun _ _ _ _ hn he => hn.step hh he) h

end Udp

/-- What a client prints is the text for a time at which it waited for it, cut to the size of its
buffer. -/
def PrintsTheTime (ctime : Nat → List UInt8) (M : System Udp UdpEvent) : Prop :=
  ∀ n, M.Reachable n → ∀ c text now, (n.clients c).status = .printed text now →
    ∃ since t, (n.clients c).since = some since ∧ since ≤ t ∧ t ≤ now ∧ now ≤ n.now ∧
      text = (ctime t).take 128

/-- Where nothing moves any more, a client waits in vain only if something of its was lost, or the
server has met an error after which it does not receive again. -/
def AnswersAll (rearm : Bool) (M : System Udp UdpEvent) : Prop :=
  ∀ n, M.Reachable n → n.net.flight = [] → n.server.AtRest →
    (rearm = true ∨ ∀ o ∈ n.arrived, o.isError = false) →
    ∀ c, (n.clients c).status = .recvLength → (n.clients c).queue = [] → n.Lost c

private theorem printsTheTime {ctime : Nat → List UInt8}
    {handler : UdpServer ClientId → Bool → UdpServer ClientId} {rearm : Bool} (ep : ClientId)
    (hh : UdpServer.Answers rearm handler) : PrintsTheTime ctime (udp ctime handler ep) := by
  intro n hn c text now hprinted
  exact ((Udp.inv_reachable hh hn).clients c).printed text now hprinted

private theorem answersAll {ctime : Nat → List UInt8}
    {handler : UdpServer ClientId → Bool → UdpServer ClientId} {rearm : Bool} (ep : ClientId)
    (hh : UdpServer.Answers rearm handler) : AnswersAll rearm (udp ctime handler ep) := by
  intro n hn hflight hrest hok c hstatus hqueue
  have h := Udp.inv_reachable hh hn
  have hgoes := h.server.receives_ne_nil hok
  rcases h.asked c ((h.clients c).waits (.inr hstatus)) with hc | hc | hc
  · exact absurd hc (by simp [hflight])
  · exact hc
  · rw [← UdpServer.mem_sources, ← h.server.replies_atRest hrest hgoes] at hc
    rcases h.replied c hc with ⟨text, hc⟩ | hc | hc | ⟨text, at', hc⟩
    · exact absurd hc (by simp [hflight])
    · exact hc
    · exact absurd hqueue hc
    · exact absurd (hstatus.symm.trans hc) (by simp)

section Programs

variable (ctime : Nat → List UInt8) (ep : ClientId)

def daemonUdp : System Udp UdpEvent := udp ctime UdpServer.receive ep

def twoServerUdp : System Udp UdpEvent := udp ctime UdpServer.handleReceive ep

def asyncServerUdp : System Udp UdpEvent := udp ctime UdpServer.handleReceive ep

def syncServerUdp : System Udp UdpEvent := udp ctime UdpServer.iteration ep

/-- All the servers with their clients, over a network that loses, duplicates and reorders. -/
theorem udp_clients :
    (PrintsTheTime ctime (daemonUdp ctime ep) ∧ AnswersAll true (daemonUdp ctime ep)) ∧
    (PrintsTheTime ctime (twoServerUdp ctime ep) ∧ AnswersAll false (twoServerUdp ctime ep)) ∧
    (PrintsTheTime ctime (asyncServerUdp ctime ep) ∧ AnswersAll false (asyncServerUdp ctime ep)) ∧
    (PrintsTheTime ctime (syncServerUdp ctime ep) ∧ AnswersAll false (syncServerUdp ctime ep)) := by
  have hasync : UdpServer.Answers false
      (UdpServer.handleReceive : UdpServer ClientId → Bool → UdpServer ClientId) :=
    UdpServer.answers_handleReceive
  refine ⟨⟨?_, ?_⟩, ⟨?_, ?_⟩, ⟨?_, ?_⟩, ?_, ?_⟩
  · exact printsTheTime ep UdpServer.answers_receive
  · exact answersAll ep UdpServer.answers_receive
  · exact printsTheTime ep hasync
  · exact answersAll ep hasync
  · exact printsTheTime ep hasync
  · exact answersAll ep hasync
  · exact printsTheTime ep UdpServer.answers_iteration
  · exact answersAll ep UdpServer.answers_iteration

end Programs

/-- The request is delivered twice, and the later reply comes first. -/
example : ((daemonUdp (fun t => [t.toUInt8]) 0).final [.tick, .get 7 .endpoints, .duplicate 0,
    .deliver 0, .server (.arrive 0), .server (.handleReceive 0), .tick, .deliver 0,
    .server (.arrive 0), .server (.handleReceive 0), .get 7 .sendLength, .deliver 1, .tick,
    .get 7 .recvLength]).clients 7 = ⟨.printed [2] 3, some 1, []⟩ := by
  decide +kernel

end BoostLearning.Daytime
