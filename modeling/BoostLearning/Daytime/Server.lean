import BoostLearning.Framework.Transition
import Mathlib.Data.List.Induction

/-!
# The daytime servers over UDP

Three programs answer every datagram with the time of day. They share one `_remote_endpoint`
between the receive that is outstanding and the replies, and differ in where the next receive is
started: always, or only after a datagram. A state holds the outcomes that receives will have and
that were not offered yet.
-/

namespace BoostLearning.Daytime

/-- What a receive ends with: a datagram and where it came from, or an error and what it left in
the endpoint. -/
inductive Outcome (ε : Type*) where
  | datagram (source : ε)
  | error (left : ε)
deriving DecidableEq

namespace Outcome

variable {ε : Type*}

def endpoint : Outcome ε → ε
  | .datagram source => source
  | .error left => left

def isError : Outcome ε → Bool
  | .datagram _ => false
  | .error _ => true

end Outcome

def sources {ε : Type*} (os : List (Outcome ε)) : List ε :=
  (os.filter fun o => !o.isError).map Outcome.endpoint

/-- An outstanding `async_receive_from`, or its handler that is ready to run. -/
inductive Receive where
  | pending
  | done (error : Bool)
deriving DecidableEq

/-- A server: the replies were issued in this order, and `sends` are those that are outstanding,
each with its own copy of the destination. -/
structure UdpServer (ε : Type*) where
  remoteEndpoint : ε
  receives : List Receive
  sends : List ε
  replies : List ε
  offered : List (Outcome ε)
deriving DecidableEq

/-- A receive takes the next outcome, a handler of a receive runs, or one of a reply. -/
inductive Event where
  | arrive (i : Nat)
  | handleReceive (i : Nat)
  | handleSend (i : Nat)
deriving DecidableEq

namespace UdpServer

variable {ε : Type*}

def startReceive (s : UdpServer ε) : UdpServer ε := { s with receives := s.receives ++ [.pending] }

def asyncSendTo (s : UdpServer ε) (destination : ε) : UdpServer ε :=
  { s with sends := s.sends ++ [destination], replies := s.replies ++ [destination] }

/-- `send_to`, whose error is ignored. -/
def sendTo (s : UdpServer ε) (destination : ε) : UdpServer ε :=
  { s with replies := s.replies ++ [destination] }

/-- `udp_server::handle_receive` of both programs that have one. -/
def handleReceive (s : UdpServer ε) (error : Bool) : UdpServer ε :=
  if !error then (s.asyncSendTo s.remoteEndpoint).startReceive else s

def receive (s : UdpServer ε) (ec : Bool) : UdpServer ε :=
  (if !ec then s.sendTo s.remoteEndpoint else s).startReceive

/-- One event, with the handler of the receives. -/
def step (handler : UdpServer ε → Bool → UdpServer ε) (s : UdpServer ε) :
    Event → Option (UdpServer ε)
  | .arrive i =>
    match s.receives[i]?, s.offered with
    | some .pending, o :: offered =>
      some { s with
        remoteEndpoint := o.endpoint
        receives := s.receives.set i (.done o.isError)
        offered := offered }
    | _, _ => none
  | .handleReceive i =>
    match s.receives[i]? with
    | some (.done error) => some (handler { s with receives := s.receives.eraseIdx i } error)
    | _ => none
  | .handleSend i =>
    if i < s.sends.length then some { s with sends := s.sends.eraseIdx i } else none

def start (ep : ε) (os : List (Outcome ε)) : UdpServer ε :=
  ({ remoteEndpoint := ep, receives := [], sends := [], replies := [], offered := os } :
    UdpServer ε).startReceive

def system (handler : UdpServer ε → Bool → UdpServer ε) (ep : ε) (os : List (Outcome ε)) :
    System (UdpServer ε) Event := ⟨.start ep os, step handler⟩

end UdpServer

section Servers

variable {ε : Type*}

/-- `udp_server` of `two_server.cpp`. -/
def twoServer (ep : ε) (os : List (Outcome ε)) : System (UdpServer ε) Event :=
  UdpServer.system UdpServer.handleReceive ep os

/-- `udp_server` of `async_server.cpp`; the slips in its punctuation are read as intended. -/
def asyncServer (ep : ε) (os : List (Outcome ε)) : System (UdpServer ε) Event :=
  UdpServer.system UdpServer.handleReceive ep os

/-- `udp_daytime_server` of `daemon.cpp`. -/
def udpDaytimeServer (ep : ε) (os : List (Outcome ε)) : System (UdpServer ε) Event :=
  UdpServer.system UdpServer.receive ep os

end Servers

namespace UdpServer

variable {ε : Type*} {handler : UdpServer ε → Bool → UdpServer ε} {rearm : Bool}
  {s t : UdpServer ε} {os : List (Outcome ε)} {ep : ε} {e : Event}

def AtRest (s : UdpServer ε) : Prop :=
  (s.offered = [] ∨ s.receives = []) ∧ ∀ error, .done error ∉ s.receives

/-! ## What a handler does -/

/-- A handler answers a datagram and starts the next receive; after an error it starts one or
not. -/
structure Answers (rearm : Bool) (handler : UdpServer ε → Bool → UdpServer ε) : Prop where
  datagram : ∀ s, ∃ sends, handler s false = { s with
    receives := s.receives ++ [.pending]
    sends := sends
    replies := s.replies ++ [s.remoteEndpoint] }
  error : ∀ s, handler s true = if rearm then s.startReceive else s

theorem answers_handleReceive :
    Answers false (handleReceive : UdpServer ε → Bool → UdpServer ε) := by
  constructor
  case datagram => exact fun s => ⟨_, rfl⟩
  case error => exact fun s => rfl

theorem answers_receive : Answers true (receive : UdpServer ε → Bool → UdpServer ε) := by
  constructor
  case datagram => exact fun s => ⟨_, rfl⟩
  case error => exact fun s => rfl

/-! ## What a run does -/

private theorem sources_concat (served : List (Outcome ε)) (o : Outcome ε) :
    sources (served ++ [o]) = sources served ++ if o.isError then [] else [o.endpoint] := by
  cases o <;> simp [sources, Outcome.isError, Outcome.endpoint]

private theorem step_rearms (hh : Answers rearm handler) {o : Outcome ε}
    (ho : rearm = true ∨ o.isError = false) (sends : List ε) (served offered : List (Outcome ε)) :
    ∃ sends', step handler ⟨o.endpoint, [.done o.isError], sends, sources served, offered⟩
      (.handleReceive 0) =
        some ⟨o.endpoint, [.pending], sends', sources (served ++ [o]), offered⟩ := by
  cases he : o.isError with
  | false =>
    obtain ⟨sends', heq⟩ := hh.datagram ⟨o.endpoint, [], sends, sources served, offered⟩
    refine ⟨sends', ?_⟩
    rw [sources_concat, he]
    simpa [step] using heq
  | true =>
    have heq := hh.error ⟨o.endpoint, [], sends, sources served, offered⟩
    have hrearm : rearm = true := ho.resolve_right (by simp [he])
    refine ⟨sends, ?_⟩
    rw [sources_concat, he]
    simpa [step, hrearm, startReceive] using heq

private theorem step_stops (hh : Answers false handler) {o : Outcome ε} (ho : o.isError = true)
    (sends : List ε) (served offered : List (Outcome ε)) :
    step handler ⟨o.endpoint, [.done o.isError], sends, sources served, offered⟩
      (.handleReceive 0) = some ⟨o.endpoint, [], sends, sources served, offered⟩ := by
  simpa [step, ho] using hh.error ⟨o.endpoint, [], sends, sources served, offered⟩

private theorem served_concat {served : List (Outcome ε)} {o : Outcome ε}
    (hok : rearm = true ∨ ∀ o ∈ served, o.isError = false) (ho : rearm = true ∨ o.isError = false) :
    rearm = true ∨ ∀ o' ∈ served ++ [o], o'.isError = false := by
  cases hok with
  | inl hrearm => exact .inl hrearm
  | inr hserved =>
    apply ho.imp_right
    intro ho o' ho'
    cases List.mem_append.1 ho' with
    | inl ho' => exact hserved o' ho'
    | inr ho' => rw [List.mem_singleton.1 ho', ho]

/-- The outcomes that were served, and the receive that is outstanding: none is after an error when
the handler does not start one. -/
inductive Inv (rearm : Bool) (os : List (Outcome ε)) : UdpServer ε → Prop
  | waiting {ep : ε} {sends : List ε} {served offered : List (Outcome ε)}
      (hos : os = served ++ offered) (hok : rearm = true ∨ ∀ o ∈ served, o.isError = false) :
      Inv rearm os ⟨ep, [.pending], sends, sources served, offered⟩
  | ready {sends : List ε} {served offered : List (Outcome ε)} {o : Outcome ε}
      (hos : os = served ++ o :: offered)
      (hok : rearm = true ∨ ∀ o ∈ served, o.isError = false) :
      Inv rearm os ⟨o.endpoint, [.done o.isError], sends, sources served, offered⟩
  | stopped {ep : ε} {sends : List ε} {served offered : List (Outcome ε)} {o : Outcome ε}
      (hos : os = served ++ o :: offered) (hrearm : rearm = false) (ho : o.isError = true) :
      Inv rearm os ⟨ep, [], sends, sources served, offered⟩

theorem Inv.step (hh : Answers rearm handler) (hi : Inv rearm os s)
    (he : s.step handler e = some t) : Inv rearm os t := by
  cases hi with
  | @waiting ep sends served offered hos hok =>
    cases e with
    | arrive i =>
      cases offered with
      | nil => cases i <;> simp [UdpServer.step] at he
      | cons o offered =>
        cases i with
        | zero => exact Option.some.inj he ▸ .ready hos hok
        | succ i => simp [UdpServer.step] at he
    | handleReceive i => cases i <;> simp [UdpServer.step] at he
    | handleSend i =>
      simp only [UdpServer.step, Option.ite_none_right_eq_some, Option.some.injEq] at he
      exact he.2 ▸ .waiting hos hok
  | @ready sends served offered o hos hok =>
    cases e with
    | arrive i => cases i <;> simp [UdpServer.step] at he
    | handleReceive i =>
      cases i with
      | succ i => simp [UdpServer.step] at he
      | zero =>
        have hos' : os = served ++ [o] ++ offered := by rw [hos, List.append_assoc]; rfl
        by_cases ho : rearm = true ∨ o.isError = false
        · obtain ⟨sends', heq⟩ := step_rearms hh ho sends served offered
          rw [heq, Option.some.injEq] at he
          exact he ▸ .waiting hos' (served_concat hok ho)
        · simp only [not_or, Bool.not_eq_true, Bool.not_eq_false] at ho
          obtain ⟨rfl, ho⟩ := ho
          rw [step_stops hh ho, Option.some.injEq] at he
          exact he ▸ .stopped hos rfl ho
    | handleSend i =>
      simp only [UdpServer.step, Option.ite_none_right_eq_some, Option.some.injEq] at he
      exact he.2 ▸ .ready hos hok
  | @stopped ep sends served offered o hos hrearm ho =>
    cases e with
    | arrive i => simp [UdpServer.step] at he
    | handleReceive i => simp [UdpServer.step] at he
    | handleSend i =>
      simp only [UdpServer.step, Option.ite_none_right_eq_some, Option.some.injEq] at he
      exact he.2 ▸ .stopped hos hrearm ho

theorem inv_reachable (hh : Answers rearm handler) (hr : (system handler ep os).Reachable s) :
    Inv rearm os s := by
  apply System.reachable_induction (P := Inv rearm os) _ (fun _ _ _ _ hi he => hi.step hh he) hr
  have hstart : Inv rearm os ⟨ep, [.pending], [], sources [], os⟩ := .waiting rfl (.inr (by simp))
  exact hstart

private theorem reachable_served (hh : Answers rearm handler) {served offered : List (Outcome ε)}
    (hos : os = served ++ offered) (hok : rearm = true ∨ ∀ o ∈ served, o.isError = false) :
    ∃ ep' sends, (system handler ep os).Reachable
      ⟨ep', [.pending], sends, sources served, offered⟩ := by
  induction served using List.reverseRecOn generalizing offered with
  | nil => exact ⟨ep, [], hos ▸ System.reachable_init _⟩
  | append_singleton served o ih =>
    have hos' : os = served ++ o :: offered := by rw [hos, List.append_assoc]; rfl
    have hbefore : rearm = true ∨ ∀ o ∈ served, o.isError = false :=
      hok.imp_right fun h o' ho' => h o' (List.mem_append_left _ ho')
    have ho : rearm = true ∨ o.isError = false :=
      hok.imp_right fun h => h o (List.mem_append_right _ (List.mem_singleton.2 rfl))
    obtain ⟨ep', sends, hr⟩ := ih hos' hbefore
    obtain ⟨sends', heq⟩ := step_rearms hh ho sends served offered
    have harrive := hr.step (e := .arrive 0)
      (t := ⟨o.endpoint, [.done o.isError], sends, sources served, offered⟩) rfl
    exact ⟨o.endpoint, sends', harrive.step (e := .handleReceive 0) heq⟩

/-! ## Answering every datagram -/

/-- In every run on `os`, one receive is outstanding between handlers, and when no more can be
offered the replies went to the senders of the datagrams, in order. -/
def Serves (M : System (UdpServer ε) Event) (os : List (Outcome ε)) : Prop :=
  ∀ s, M.Reachable s → s.receives.length = 1 ∧ (s.AtRest → s.replies = sources os)

def SameReplies (M N : System (UdpServer ε) Event) : Prop :=
  ∀ s t, M.Reachable s → N.Reachable t → s.AtRest → t.AtRest → s.replies = t.replies

private theorem Serves.sameReplies {M N : System (UdpServer ε) Event} (hM : Serves M os)
    (hN : Serves N os) : SameReplies M N := by
  intro s t hs ht hsrest htrest
  rw [(hM s hs).2 hsrest, (hN t ht).2 htrest]

private theorem serves_of_ok (hh : Answers rearm handler)
    (hok : rearm = true ∨ ∀ o ∈ os, o.isError = false) : Serves (system handler ep os) os := by
  intro s hr
  cases inv_reachable hh hr with
  | @waiting ep sends served offered hos _ =>
    refine ⟨rfl, fun hrest => ?_⟩
    obtain rfl : offered = [] := hrest.1.resolve_right (by simp)
    rw [hos, List.append_nil]
  | ready hos _ => exact ⟨rfl, fun hrest => absurd (List.mem_singleton.2 rfl) (hrest.2 _)⟩
  | @stopped ep sends served offered o hos hrearm ho =>
    cases hok with
    | inl h => exact absurd (hrearm.symm.trans h) (by simp)
    | inr h =>
      have ho' := h o (by simp [hos])
      exact absurd (ho.symm.trans ho') (by simp)

private theorem exists_first_error {o : Outcome ε} (ho : o ∈ os) (herror : o.isError = true) :
    ∃ served o' offered, os = served ++ o' :: offered ∧ (∀ o ∈ served, o.isError = false) ∧
      o'.isError = true := by
  induction os with
  | nil => exact absurd ho List.not_mem_nil
  | cons o₁ os ih =>
    cases h₁ : o₁.isError with
    | true => exact ⟨[], o₁, os, rfl, by simp, h₁⟩
    | false =>
      have ho' : o ∈ os := by
        cases List.mem_cons.1 ho with
        | inl heq =>
          rw [heq, h₁] at herror
          exact absurd herror (by simp)
        | inr hmem => exact hmem
      obtain ⟨served, o', offered, rfl, hserved, herror'⟩ := ih ho'
      refine ⟨o₁ :: served, o', offered, rfl, ?_, herror'⟩
      intro o hmem
      cases List.mem_cons.1 hmem with
      | inl heq => rw [heq, h₁]
      | inr hmem => exact hserved o hmem

private theorem not_serves_of_error (hh : Answers false handler) {o : Outcome ε} (ho : o ∈ os)
    (herror : o.isError = true) : ¬ Serves (system handler ep os) os := by
  intro hserves
  -- everything before the first error is served
  obtain ⟨served, o, offered, hos, hserved, ho⟩ := exists_first_error ho herror
  obtain ⟨ep', sends, hr⟩ : ∃ ep' sends, (system handler ep os).Reachable
      ⟨ep', [.pending], sends, sources served, o :: offered⟩ :=
    reachable_served hh hos (.inr hserved)
  have harrive := hr.step (e := .arrive 0)
    (t := ⟨o.endpoint, [.done o.isError], sends, sources served, offered⟩) rfl
  have hstop : (system handler ep os).Reachable
      ⟨o.endpoint, [], sends, sources served, offered⟩ :=
    harrive.step (e := .handleReceive 0) (step_stops hh ho sends served offered)
  exact absurd (hserves _ hstop).1 (by simp)

private theorem serves_iff (hh : Answers false handler) :
    Serves (system handler ep os) os ↔ ∀ o ∈ os, o.isError = false := by
  constructor
  · intro hserves o ho
    rw [← Bool.not_eq_true]
    intro herror
    exact not_serves_of_error hh ho herror hserves
  · intro h
    exact serves_of_ok hh (.inr h)

end UdpServer

open UdpServer in
/-- The daemon answers every datagram, whatever its receives end with. The other two servers do,
and reply as the daemon does, exactly for the outcomes without an error. -/
theorem udpServers_serve_iff {ε : Type*} (ep : ε) (os : List (Outcome ε)) :
    Serves (udpDaytimeServer ep os) os ∧
    (Serves (twoServer ep os) os ∧ SameReplies (twoServer ep os) (udpDaytimeServer ep os) ↔
      ∀ o ∈ os, o.isError = false) ∧
    (Serves (asyncServer ep os) os ∧ SameReplies (asyncServer ep os) (udpDaytimeServer ep os) ↔
      ∀ o ∈ os, o.isError = false) := by
  have hdaemon : Serves (udpDaytimeServer ep os) os := serves_of_ok answers_receive (.inl rfl)
  have hiff : Serves (twoServer ep os) os ↔ ∀ o ∈ os, o.isError = false :=
    serves_iff answers_handleReceive
  have hboth : Serves (twoServer ep os) os ∧
      SameReplies (twoServer ep os) (udpDaytimeServer ep os) ↔ ∀ o ∈ os, o.isError = false := by
    constructor
    · intro h
      exact hiff.1 h.1
    · intro h
      have hserves := hiff.2 h
      exact ⟨hserves, hserves.sameReplies hdaemon⟩
  exact ⟨hdaemon, hboth, hboth⟩

/-- A refused receive between two datagrams: the second one is not answered. -/
theorem not_serves_refused :
    ¬ UdpServer.Serves (twoServer 0 [.datagram 5001, .error 5001, .datagram 5002])
      [.datagram 5001, .error 5001, .datagram 5002] := by
  intro hserves
  have hrest := hserves _ (System.reachable_final _
    [.arrive 0, .handleReceive 0, .handleSend 0, .arrive 0, .handleReceive 0])
  exact absurd hrest.1 (by decide +kernel)

end BoostLearning.Daytime
