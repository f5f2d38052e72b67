import BoostLearning.Chat.Delivery
import Mathlib.Algebra.BigOperators.Group.Finset.Piecewise
import Mathlib.Algebra.Order.BigOperators.Group.Finset

/-!
# Everything that is typed is read

From any state in which all clients go on, deliveries in any order come to an end, and then
everyone in a room has everything on the screen that anyone in it has typed.
-/

namespace BoostLearning.Chat

private theorem World.step_own_socket {w w' : World} {c : SessionId} {e : SessionEvent}
    {x : ChatSession}
    {ρ : Reaction} (he : w.step (.session c e) = some w') (hx : w.sessions c = some x)
    (hρ : x.handle e = some ρ) :
    ∃ obs, w'.trace = w.trace ++ obs ∧ socketActs c obs = ρ.socket := by
  generalize hev : Event.session c e = ev at he
  cases step_iff.1 he with
  | accepted => exact absurd hev (by simp)
  | refused => exact absurd hev (by simp)
  | @quiet s e' y ρ' hy hρ' hcall =>
    rw [Event.session.injEq] at hev
    obtain ⟨rfl, rfl⟩ := hev
    obtain rfl : x = y := Option.some.inj (hx.symm.trans hy)
    obtain rfl : ρ = ρ' := Option.some.inj (hρ.symm.trans hρ')
    exact ⟨_, rfl, by simp⟩
  | @left s e' y ρ' chain hy hρ' hcall =>
    rw [Event.session.injEq] at hev
    obtain ⟨rfl, rfl⟩ := hev
    obtain rfl : x = y := Option.some.inj (hx.symm.trans hy)
    obtain rfl : ρ = ρ' := Option.some.inj (hρ.symm.trans hρ')
    exact ⟨_, rfl, by simp [Obs.socketAct?]⟩
  | @delivered s e' y ρ' m hy hρ' hcall =>
    rw [Event.session.injEq] at hev
    obtain ⟨rfl, rfl⟩ := hev
    obtain rfl : x = y := Option.some.inj (hx.symm.trans hy)
    obtain rfl : ρ = ρ' := Option.some.inj (hρ.symm.trans hρ')
    exact ⟨_, rfl, by simp [Obs.socketAct?]⟩

namespace Network

variable {ports : Nat} {n n' : Network} {c : SessionId} {p : Peer} {x : ChatSession}

def Connected (n : Network) : Prop := ∀ c p, n.peers c = some p → ∃ x, n.InTouch c p x

def progress (n : Network) (c : SessionId) : Nat :=
  match n.peers c, n.server.sessions c with
  | some p, some x => p.run.client.progress p.run.trace + x.progress c n.server.trace
  | _, _ => 0

private theorem progress_eq (hp : n.peers c = some p) (hx : n.server.sessions c = some x) :
    n.progress c = p.run.client.progress p.run.trace + x.progress c n.server.trace := by
  rw [progress, hp, hx]

/-- A delivery is a step forward of one client with its session. -/
structure Advances (n n' : Network) (c : SessionId) : Prop where
  known : (n.peers c).isSome
  connected : n'.Connected
  self : n.progress c < n'.progress c
  others : ∀ d, d ≠ c → n'.progress d = n.progress d
  typed : ∀ d, n'.typed d = n.typed d
  peers : ∀ d, (n'.peers d).isSome = (n.peers d).isSome

private theorem Inv.not_rejected (h : n.Inv ports) (hp : n.peers c = some p)
    (hx : n.server.sessions c = some x) : .decoded false ∉ p.run.trace := by
  have hw := World.inv_reachable h.server
  obtain ⟨storage, hr⟩ := (h.peer c p hp).reachable
  have hdown : receivedOf p.run.trace <+: wroteBy c n.server.trace :=
    ⟨p.down, (h.peer c p hp).down.symm⟩
  have hfeed := hdown.trans (hw.session c x hx).writes.wire_prefix
  exact ((ClientRun.inv_reachable hr).prints_frames (hw.pushed_framed hx) hfeed).1

/-- A delivery at a client. -/
private theorem Inv.advances_client (h : n.Inv ports) (hconn : n.Connected) {e : ClientEvent}
    {p' : Peer}
    {obs : List ClientObs} (hp : n.peers c = some p) (hact : p.Acted e obs p')
    (hdel : e.delivers = true) (h' : (n.setPeer c p').Inv ports) :
    Advances n (n.setPeer c p') c := by
  obtain ⟨x, hin⟩ := hconn c p hp
  have hp' : (n.setPeer c p').peers c = some p' := Function.update_self _ _ _
  have hother : ∀ d, d ≠ c → (n.setPeer c p').peers d = n.peers d :=
    fun d hdc => Function.update_of_ne hdc _ _
  have hrej : .decoded false ∉ obs := by
    intro hmem
    apply h'.not_rejected hp' hin.session
    rw [hact.trace]
    exact List.mem_append_right _ hmem
  obtain ⟨storage, hr⟩ := (h.peer c p hp).reachable
  have hrun := ClientRun.inv_reachable hr
  obtain ⟨published, -, hreads⟩ := hrun.printing
  obtain ⟨hopen, hgoes, hreading⟩ :=
    hact.handled.goesOn hdel hin.goesOn hrej hin.socketOpen hin.reading hreads
  constructor
  case known => simp [hp]
  case connected =>
    intro d q hq
    by_cases hdc : d = c
    · subst d
      obtain rfl : p' = q := Option.some.inj (hp'.symm.trans hq)
      refine ⟨x, ⟨?_, hopen, hgoes, hreading, hin.session, hin.member⟩⟩
      obtain ⟨-, c', obs', -, heq⟩ := ClientRun.step_cases hact.step
      have hwork : p'.run.client.hasWork = true := by
        simp [ChatClient.hasWork, hreading]
      rw [heq] at hwork ⊢
      simp [hin.running, hwork]
    · rw [hother d hdc] at hq
      obtain ⟨y, hy⟩ := hconn d q hq
      exact ⟨y, ⟨hy.running, hy.socketOpen, hy.goesOn, hy.reading, hy.session, hy.member⟩⟩
  case self =>
    have hlength : ∀ m ∈ pushedOf p.run.trace,
        wireFormat.length m ≤ (wireFormat.data m).length := by
      intro m hm
      apply ChatMessage.length_le_data
      apply OfLine.bodyLength_le (h.peer c p hp).called m
      rw [hrun.order]
      exact List.mem_append_left _ hm
    have hlt := hact.handled.progress_lt hdel hin.goesOn hrej hreads hrun.writes hlength
    rw [progress_eq hp hin.session, progress_eq (n := n.setPeer c p') hp' hin.session, hact.trace]
    exact Nat.add_lt_add_right hlt _
  case others =>
    intro d hdc
    simp only [progress, hother d hdc]
    rfl
  case typed =>
    intro d
    by_cases hdc : d = c
    · subst d
      rw [typed, typed, hp', hp, Option.map_some, Option.map_some, hact.typed]
    · rw [typed, typed, hother d hdc]
  case peers =>
    intro d
    by_cases hdc : d = c
    · subst d
      rw [hp', hp]
      rfl
    · rw [hother d hdc]

/-- A delivery at a session. -/
private theorem Inv.advances_session (h : n.Inv ports) (hconn : n.Connected) {e : SessionEvent}
    {w : World} {obs : List Obs} {up : List Byte} (hp : n.peers c = some p)
    (hw : n.server.step (.session c e) = some w) (hdel : e.delivers = true) :
    Advances n (({ n with server := w } : Network).setPeer c
      { p with up := up, down := p.down ++ wroteBy c obs }) c := by
  obtain ⟨x, hin⟩ := hconn c p hp
  have hserver := World.inv_reachable h.server
  obtain ⟨hframes, -⟩ := OfLine.bodies (h.peer c p hp).called
  have hinput : inputOf c n.server.trace <+:
      ((calledOf p.run.trace).map ChatMessage.wire).flatten := by
    have hup : inputOf c n.server.trace <+: sentOf p.run.trace := ⟨p.up, (h.peer c p hp).up.symm⟩
    rw [← List.flatMap_def]
    exact hup.trans (h.sent_prefix hp)
  obtain ⟨⟨x', hx', hroom, hlt⟩, hothers, hmembers⟩ :=
    hserver.deliveredAt hw hin.session hdel hframes hinput
  have hmember : ∀ d r, d ∈ (w.room r).participants.ids ↔
      d ∈ (n.server.room r).participants.ids := by
    intro d r
    rw [hmembers r]
  generalize hq : ({ p with up := up, down := p.down ++ wroteBy c obs } : Peer) = q
  have hrun : q.run = p.run := by rw [← hq]
  have htyped : q.typed = p.typed := by rw [← hq]
  have hp' : (({ n with server := w } : Network).setPeer c q).peers c = some q :=
    Function.update_self _ _ _
  have hother : ∀ d, d ≠ c → (({ n with server := w } : Network).setPeer c q).peers d =
      n.peers d := fun d hdc => Function.update_of_ne hdc _ _
  constructor
  case known => simp [hp]
  case connected =>
    intro d u hu
    by_cases hdc : d = c
    · subst d
      obtain rfl : q = u := Option.some.inj (hp'.symm.trans hu)
      refine ⟨x', ⟨?_, ?_, ?_, ?_, hx', ?_⟩⟩
      · rw [hrun]
        exact hin.running
      · rw [hrun]
        exact hin.socketOpen
      · rw [hrun]
        exact hin.goesOn
      · rw [hrun]
        exact hin.reading
      · rw [hroom]
        exact (hmember c x.room).2 hin.member
    · rw [hother d hdc] at hu
      obtain ⟨y, hy⟩ := hconn d u hu
      obtain ⟨y', hy', hyroom, -⟩ := hothers d y hdc hy.session
      refine ⟨y', ⟨hy.running, hy.socketOpen, hy.goesOn, hy.reading, hy', ?_⟩⟩
      rw [hyroom]
      exact (hmember d y.room).2 hy.member
  case self =>
    rw [progress_eq hp hin.session,
      progress_eq (n := ({ n with server := w } : Network).setPeer c q) hp' hx', hrun]
    exact Nat.add_lt_add_left hlt _
  case others =>
    intro d hdc
    cases hu : n.peers d with
    | none => simp only [progress, hother d hdc, hu]
    | some u =>
      obtain ⟨y, hy⟩ := hconn d u hu
      obtain ⟨y', hy', -, hprogress⟩ := hothers d y hdc hy.session
      rw [progress_eq hu hy.session,
        progress_eq (n := ({ n with server := w } : Network).setPeer c q)
          ((hother d hdc).trans hu) hy']
      exact congrArg (_ + ·) hprogress
  case typed =>
    intro d
    by_cases hdc : d = c
    · subst d
      rw [typed, typed, hp', hp, Option.map_some, Option.map_some, htyped]
    · rw [typed, typed, hother d hdc]
  case peers =>
    intro d
    by_cases hdc : d = c
    · subst d
      rw [hp', hp]
      rfl
    · rw [hother d hdc]

private theorem Inv.advances (h : n.Inv ports) (hconn : n.Connected) {e : NetEvent}
    (hdel : e.delivers = true) (he : n.step e = some n') : ∃ c, Advances n n' c := by
  have h' := h.step he
  cases step_cases he with
  | client hp hcall hlinked hact => exact ⟨_, h.advances_client hconn hp hact hdel h'⟩
  | session hp hw htrace hup => exact ⟨_, h.advances_session hconn hp hw hdel⟩
  | _ => exact absurd hdel (by simp [NetEvent.delivers])

end Network

/-! ## How far they can come -/

private theorem length_eq_sum_saidBy {lines : List (SessionId × List Byte)} {ids : Finset SessionId}
    (h : ∀ l ∈ lines, l.1 ∈ ids) : lines.length = ∑ c ∈ ids, (saidBy c lines).length := by
  induction lines with
  | nil => simp [saidBy]
  | cons l lines ih =>
    have hl : l.1 ∈ ids := h l List.mem_cons_self
    have hcons : ∀ c, (saidBy c (l :: lines)).length =
        (if l.1 = c then 1 else 0) + (saidBy c lines).length := by
      intro c
      by_cases hc : l.1 = c
      · simp [saidBy, hc]
        omega
      · simp [saidBy, hc]
    rw [List.length_cons, ih fun l' hl' => h l' (List.mem_cons_of_mem l hl')]
    simp only [hcons, Finset.sum_add_distrib, Finset.sum_ite_eq, if_pos hl]
    omega

namespace Network

variable {ports : Nat} {n n' : Network} {c : SessionId} {p : Peer} {x : ChatSession}
  {ids : Finset SessionId}

def Within (n : Network) (ids : Finset SessionId) : Prop := ∀ c p, n.peers c = some p → c ∈ ids

def lines (n : Network) (ids : Finset SessionId) : Nat := ∑ c ∈ ids, (n.typed c).length

private theorem Inv.delivered_le (h : n.Inv ports) (hids : n.Within ids) (r : ServerId) :
    (deliveredIn r n.server.trace).length ≤ n.lines ids := by
  have hauthors : ∀ l ∈ conversation r n.server.trace, l.1 ∈ ids := by
    intro l hl
    obtain ⟨o, ho, hsome⟩ := List.mem_filterMap.1 hl
    cases o with
    | deliver r' s m =>
      obtain ⟨x, hs, -⟩ := World.home_reachable h.server r' s m ho
      obtain ⟨p, hp, -⟩ := h.home s x hs
      simp only [Option.ite_none_right_eq_some, Option.some.injEq] at hsome
      rw [← hsome.2]
      exact hids s p hp
    | _ => exact absurd hsome (by simp)
  rw [← conversation_length, length_eq_sum_saidBy hauthors]
  apply Finset.sum_le_sum
  intro c _
  exact (h.saidBy_prefix r c).length_le

private theorem image_length_le {m : ChatMessage} (h : m.bodyLength.toNat ≤ maxBodyLength) :
    m.wire.length ≤ 516 := by
  have h4 : headerLength = 4 := rfl
  have h512 : maxBodyLength = 512 := rfl
  rw [ChatMessage.wire_length h]
  omega

/-- What a client and its session can do for the lines that were typed: write each of the client's
own, and read each one of the room. -/
private theorem Inv.progress_le (h : n.Inv ports) (hids : n.Within ids) (hp : n.peers c = some p)
    (hx : n.server.sessions c = some x) : n.progress c ≤ 2071 * n.lines ids + 2 := by
  have hpeer := h.peer c p hp
  obtain ⟨storage, hr⟩ := hpeer.reachable
  have hrun := ClientRun.inv_reachable hr
  have hserver := World.inv_reachable h.server
  have hsession := hserver.session c x hx
  -- the client's own lines
  have hown : (calledOf p.run.trace).length ≤ n.lines ids := by
    have htyped : (n.typed c).length ≤ n.lines ids :=
      Finset.single_le_sum (f := fun d => (n.typed d).length) (fun _ _ => Nat.zero_le _)
        (hids c p hp)
    rwa [typed, hp, Option.map_some, Option.getD_some, ← hpeer.called.length_eq] at htyped
  have hcalled := OfLine.bodyLength_le hpeer.called
  have hpushedOf : (pushedOf p.run.trace).length ≤ (calledOf p.run.trace).length := by
    rw [hrun.order, List.length_append]
    omega
  have hwrites := hrun.writes.progress_le (k := 516) (by
    intro m hm
    apply image_length_le (hcalled m _)
    rw [hrun.order]
    exact List.mem_append_left _ hm)
  have hinput : (inputOf c n.server.trace).length ≤ 516 * (calledOf p.run.trace).length := by
    have hsent := (h.sent_prefix hp).length_le
    have hbytes := WriteQueue.length_flatMap_le (f := ChatMessage.wire)
      fun m hm => image_length_le (hcalled m hm)
    have hup := congrArg List.length hpeer.up
    rw [List.length_append] at hup
    omega
  have hpublished : (publishedBy c n.server.trace).length ≤ (calledOf p.run.trace).length := by
    have hle := (h.published_prefix hp hx).length_le
    rwa [List.length_map, ← hpeer.called.length_eq] at hle
  -- the lines of the room
  have hpushed : (pushedOn c n.server.trace).length ≤ n.lines ids := by
    apply Nat.le_trans _ (h.delivered_le hids x.room)
    rw [hsession.pushed, Broadcast.segment]
    split
    · simp
    · rw [List.length_drop, List.length_take, roomLog_log]
      omega
  have hframed : ∀ m ∈ pushedOn c n.server.trace, m.wire.length ≤ 516 :=
    fun m hm => image_length_le (hserver.pushed_framed hx m hm).bodyLength_le
  have hqueue := hsession.writes.progress_le (k := 516) hframed
  have hreceived : (receivedOf p.run.trace).length ≤
      516 * (pushedOn c n.server.trace).length := by
    have hwrote := hsession.writes.wire_prefix.length_le
    have hbytes := WriteQueue.length_flatMap_le (f := wireFormat.image) hframed
    have hdown := congrArg List.length hpeer.down
    rw [List.length_append] at hdown
    exact Nat.le_trans (by omega) hbytes
  have hprinted : (printedOf p.run.trace).length ≤ (pushedOn c n.server.trace).length := by
    obtain ⟨seen, hseen, hscreen⟩ := h.screen_eq hx
    have hlen := congrArg List.length hscreen
    rw [screen, hp, Option.map_some, Option.getD_some, List.length_map] at hlen
    exact hlen.trans_le hseen.length_le
  obtain ⟨published, -, hreads⟩ := hrun.printing
  have hbody := hreads.inBody_le
  have hbody' := hsession.reads.inBody_le
  rw [progress_eq hp hx]
  simp only [ChatClient.progress, ChatSession.progress, ReadChain.progress]
  omega

end Network

/-! ## When nothing moves any more -/

namespace Network

variable {ports : Nat} {n n' : Network} {c : SessionId} {p : Peer} {x : ChatSession}

private theorem client_enabled {e : ClientEvent} {c' : ChatClient} {obs : List ClientObs}
    (hp : n.peers c = some p) (hrunning : p.run.running = true) (hserver : p.server.isSome)
    (hcall : e.isCall = false) (hh : p.run.client.handle e = some (c', obs))
    (hdown : receivedOf obs <+: p.down) : n.step (.client c e) ≠ none := by
  have hne : p.server ≠ none := fun hnone => absurd hserver (by simp [hnone])
  simp [step, hp, hcall, hne, Peer.act, ClientRun.step, hrunning, hh, hserver, hdown]

private theorem session_enabled {e : SessionEvent} {ρ : Reaction} (hp : n.peers c = some p)
    (hx : n.server.sessions c = some x) (hh : x.handle e = some ρ)
    (hup : ρ.socket.flatMap SocketAct.input <+: p.up) :
    n.step (.server (.session c e)) ≠ none := by
  have hw : n.server.step (.session c e) = some (n.server.perform c ρ) := by
    simp [World.step, hx, hh]
  obtain ⟨obs, htrace, hacts⟩ := World.step_own_socket hw hx hh
  have hinput : inputOf c obs <+: p.up := by
    rw [inputOf, hacts]
    exact hup
  simp [step, hw, exchange, hp, htrace, hinput]

def AtRest (n : Network) : Prop := ∀ e, e.delivers = true → n.step e = none

private theorem Inv.quiet_client (h : n.Inv ports) (hrest : n.AtRest) (hp : n.peers c = some p)
    (hin : n.InTouch c p x) :
    p.run.client.posted = [] ∧ p.run.client.writes.writes = [] ∧ p.run.client.reads.Waiting ∧
      p.down = [] := by
  obtain ⟨storage, hr⟩ := (h.peer c p hp).reachable
  have hrun := ClientRun.inv_reachable hr
  obtain ⟨published, -, hreads⟩ := hrun.printing
  have hserver : p.server.isSome := by
    obtain ⟨q, hq, hroom⟩ := h.home c x hin.session
    obtain rfl : p = q := Option.some.inj (hp.symm.trans hq)
    rw [hroom]
    rfl
  have hstuck : ∀ e c' obs, e.isCall = false → e.delivers = true →
      p.run.client.handle e = some (c', obs) → ¬receivedOf obs <+: p.down :=
    fun e c' obs hcall hdel hh hpre =>
      client_enabled hp hin.running hserver hcall hh hpre (hrest _ hdel)
  have hwaits : p.run.client.reads.Waiting := by
    intro op hop
    rcases hreads.exists_next hop with ⟨hlt, -⟩ | ⟨⟨op', r⟩, hretire⟩
    · exact hlt
    · have hsome : (p.run.client.handle (.readDone 0 .success)).isSome := by
        simp [ChatClient.handle, hretire]
      obtain ⟨⟨c', obs⟩, hh⟩ := Option.isSome_iff_exists.1 hsome
      have hnil : receivedOf obs = [] := by
        cases ChatClient.handle_cases hh <;> simp
      exact absurd (hnil ▸ List.nil_prefix) (hstuck _ c' obs rfl rfl hh)
  refine ⟨?_, ?_, hwaits, ?_⟩
  · by_contra hne
    obtain ⟨φ, rest, hposted⟩ := List.exists_cons_of_ne_nil hne
    cases φ with
    | write msg =>
      have hh : p.run.client.handle .runPosted =
          some ({ p.run.client with posted := rest }.push msg) := by
        simp only [ChatClient.handle, hposted]
      exact hstuck .runPosted _ _ rfl rfl hh (by simp)
    | close => exact hin.goesOn (by simp [hposted])
  · by_contra hne
    rcases hrun.writes.exists_next hne with ⟨k, ⟨q, bytes⟩, hpos, htransmit⟩ | ⟨q, hretire⟩
    · have hh : p.run.client.handle (.transmit 0 k) =
          some ({ p.run.client with writes := q }, [.socket (.wrote bytes)]) := by
        simp [ChatClient.handle, hin.socketOpen, htransmit]
      have hdel : (ClientEvent.transmit 0 k).delivers = true := by
        simpa [ClientEvent.delivers] using hpos
      exact hstuck _ _ _ rfl hdel hh (by simp [SocketAct.input])
    · have hh : p.run.client.handle (.writeDone 0 .success) =
          some ({ p.run.client with writes := q.advance wireFormat }, []) := by
        simp [ChatClient.handle, hretire, ChatClient.onWrite]
      exact hstuck _ _ _ rfl rfl hh (by simp)
  · by_contra hne
    obtain ⟨b, rest, hdown⟩ := List.exists_cons_of_ne_nil hne
    obtain ⟨op, ops, hops⟩ := List.exists_cons_of_ne_nil hin.reading
    have hop : op ∈ p.run.client.reads.reads := by simp [hops]
    rcases hreads.exists_next hop with ⟨-, hreceives⟩ | ⟨⟨op', r⟩, hretire⟩
    · obtain ⟨r, hreceive⟩ := hreceives b
      have hh : p.run.client.handle (.receive 0 [b]) =
          some ({ p.run.client with reads := r }, [.socket (.received [b])]) := by
        simp [ChatClient.handle, hin.socketOpen, hreceive]
      exact hstuck _ _ _ rfl rfl hh (by simp [SocketAct.input, hdown])
    · have hfull := (ReadChain.retire_cases hreads.reads_length hretire).2.2 rfl
      obtain ⟨hreads', -⟩ := ReadChain.retire_cases hreads.reads_length hretire
      have hlt := hwaits op' (by simp [hreads'])
      omega

private theorem Inv.quiet_session (h : n.Inv ports) (hrest : n.AtRest) (hp : n.peers c = some p)
    (hx : n.server.sessions c = some x) (hmember : c ∈ (n.server.room x.room).participants.ids) :
    x.writes.writes = [] ∧ x.reads.Waiting ∧ p.up = [] := by
  have hsession := (World.inv_reachable h.server).session c x hx
  have hstuck : ∀ e ρ, e.delivers = true → x.handle e = some ρ →
      ¬ρ.socket.flatMap SocketAct.input <+: p.up :=
    fun e ρ hdel hh hpre => session_enabled hp hx hh hpre (hrest _ hdel)
  have hwaits : x.reads.Waiting := by
    intro op hop
    rcases hsession.reads.exists_next hop with ⟨hlt, -⟩ | ⟨⟨op', r⟩, hretire⟩
    · exact hlt
    · have hsome : (x.handle (.readDone 0 .success)).isSome := by
        simp [ChatSession.handle, hretire]
      obtain ⟨ρ, hh⟩ := Option.isSome_iff_exists.1 hsome
      have hnil : ρ.socket.flatMap SocketAct.input = [] := by
        cases ChatSession.handle_cases hh <;> rfl
      exact absurd (hnil ▸ List.nil_prefix) (hstuck _ ρ rfl hh)
  refine ⟨?_, hwaits, ?_⟩
  · by_contra hne
    rcases hsession.writes.exists_next hne with ⟨k, ⟨q, bytes⟩, hpos, htransmit⟩ | ⟨q, hretire⟩
    · have hh : x.handle (.transmit 0 k) =
          some ⟨{ x with writes := q }, [.wrote bytes], .none⟩ := by
        simp [ChatSession.handle, htransmit]
      have hdel : (SessionEvent.transmit 0 k).delivers = true := by
        simpa [SessionEvent.delivers] using hpos
      exact hstuck _ _ hdel hh (by simp [SocketAct.input])
    · have hh : x.handle (.writeDone 0 .success) =
          some ⟨{ x with writes := q.advance wireFormat }, [], .none⟩ := by
        simp [ChatSession.handle, hretire, ChatSession.onWrite]
      exact hstuck _ _ rfl hh (by simp)
  · by_contra hne
    obtain ⟨b, rest, hup⟩ := List.exists_cons_of_ne_nil hne
    obtain ⟨op, hops⟩ := List.length_eq_one_iff.1 (hsession.reading hmember)
    have hop : op ∈ x.reads.reads := by simp [hops]
    rcases hsession.reads.exists_next hop with ⟨-, hreceives⟩ | ⟨⟨op', r⟩, hretire⟩
    · obtain ⟨r, hreceive⟩ := hreceives b
      have hh : x.handle (.receive 0 [b]) =
          some ⟨{ x with reads := r }, [.received [b]], .none⟩ := by
        simp [ChatSession.handle, hreceive]
      exact hstuck _ _ rfl hh (by simp [SocketAct.input, hup])
    · have hfull := (ReadChain.retire_cases hsession.reads.reads_length hretire).2.2 rfl
      obtain ⟨hreads', -⟩ := ReadChain.retire_cases hsession.reads.reads_length hretire
      have hlt := hwaits op' (by simp [hreads'])
      omega

private theorem Inv.quiet (h : n.Inv ports) (hrest : n.AtRest) (hp : n.peers c = some p)
    (hin : n.InTouch c p x) : p.Quiet x := by
  obtain ⟨hposted, hwrites, hwaits, hdown⟩ := h.quiet_client hrest hp hin
  obtain ⟨hswrites, hswaits, hup⟩ := h.quiet_session hrest hp hin.session hin.member
  exact ⟨hposted, hwrites, hwaits, hup, hdown, hswrites, hswaits⟩

end Network

/-! ## Runs of deliveries -/

def startedIn (es : List NetEvent) : List SessionId :=
  es.filterMap fun
    | .start c _ => some c
    | _ => none

namespace Network

variable {ports : Nat} {n n' : Network} {c : SessionId} {ids : Finset SessionId}

private theorem setPeer_of_ne {d : SessionId} (hdc : d ≠ c) (q : Peer) :
    (n.setPeer c q).peers d = n.peers d := Function.update_of_ne hdc _ _

private theorem step_peers {e : NetEvent} (he : n.step e = some n') {d : SessionId}
    (hd : (n'.peers d).isSome) : (n.peers d).isSome ∨ d ∈ startedIn [e] := by
  have hset : ∀ (c : SessionId) (q : Peer), (((n.setPeer c q).peers d).isSome →
      (n.peers c).isSome → (n.peers d).isSome) := by
    intro c q hq hc
    by_cases hdc : d = c
    · exact hdc ▸ hc
    · rwa [setPeer_of_ne hdc] at hq
  cases step_cases he with
  | @started c storage hnew =>
    by_cases hdc : d = c
    · exact .inr (by simp [startedIn, hdc])
    · left
      rwa [setPeer_of_ne hdc] at hd
  | line hp hopen hlen hact => exact .inl (hset _ _ hd (by simp [hp]))
  | ended hp hopen hact => exact .inl (hset _ _ hd (by simp [hp]))
  | established hp hnone hconnects hopen hlistens => exact .inl (hset _ _ hd (by simp [hp]))
  | client hp hcall hlinked hact => exact .inl (hset _ _ hd (by simp [hp]))
  | accepted hp hr hw => exact .inl hd
  | refused hw => exact .inl hd
  | session hp hw htrace hup => exact .inl (hset _ _ hd (by simp [hp]))

private theorem exec_peers {es : List NetEvent} (h : (chatNetwork ports).exec n es = some n')
    {d : SessionId} (hd : (n'.peers d).isSome) : (n.peers d).isSome ∨ d ∈ startedIn es := by
  induction es generalizing n with
  | nil =>
    simp only [System.exec, Option.some.injEq] at h
    exact .inl (h ▸ hd)
  | cons e es ih =>
    obtain ⟨m, hm, hmn⟩ := ((chatNetwork ports).exec_cons_some).1 h
    rcases ih hmn with hleft | hmem
    · rcases step_peers hm hleft with hn | hstarted
      · exact .inl hn
      · right
        rw [← List.singleton_append, startedIn, List.filterMap_append]
        exact List.mem_append_left _ hstarted
    · right
      rw [← List.singleton_append, startedIn, List.filterMap_append]
      exact List.mem_append_right _ hmem

private theorem exists_clients (h : (chatNetwork ports).Reachable n) :
    ∃ ids : Finset SessionId, ∀ c, c ∈ ids ↔ (n.peers c).isSome := by
  obtain ⟨es, hes⟩ := h
  refine ⟨(startedIn es).toFinset.filter fun c => (n.peers c).isSome, fun c => ?_⟩
  rw [Finset.mem_filter, List.mem_toFinset, and_iff_right_iff_imp]
  intro hc
  rcases exec_peers hes hc with hinit | hmem
  · exact absurd hinit (by simp [chatNetwork, init])
  · exact hmem

/-- What deliveries keep, from `n` on. -/
structure Kept (ports : Nat) (n m : Network) : Prop where
  inv : m.Inv ports
  connected : m.Connected
  typed : ∀ c, m.typed c = n.typed c
  peers : ∀ c, (m.peers c).isSome = (n.peers c).isSome

def remaining (n : Network) (ids : Finset SessionId) : Nat :=
  ids.card * (2071 * n.lines ids + 2) - ∑ c ∈ ids, n.progress c

private theorem Inv.sum_progress_le (h : n.Inv ports) (hconn : n.Connected) (hids : n.Within ids) :
    ∑ c ∈ ids, n.progress c ≤ ids.card * (2071 * n.lines ids + 2) := by
  have hle : ∀ c ∈ ids, n.progress c ≤ 2071 * n.lines ids + 2 := by
    intro c _
    cases hp : n.peers c with
    | none => simp [progress, hp]
    | some p =>
      obtain ⟨x, hin⟩ := hconn c p hp
      exact h.progress_le hids hp hin.session
  exact Finset.sum_le_card_nsmul ids n.progress _ hle

private theorem Advances.sum_progress_lt (h : Advances n n' c) (hc : c ∈ ids) :
    ∑ d ∈ ids, n.progress d < ∑ d ∈ ids, n'.progress d := by
  apply Finset.sum_lt_sum
  · intro d _
    by_cases hdc : d = c
    · exact hdc ▸ Nat.le_of_lt h.self
    · exact Nat.le_of_eq (h.others d hdc).symm
  · exact ⟨c, hc, h.self⟩

private theorem Kept.delivery {m m' : Network} (h : Kept ports n m)
    (hids : ∀ c, c ∈ ids ↔ (n.peers c).isSome) {e : NetEvent} (hdel : e.delivers = true)
    (he : m.step e = some m') : Kept ports n m' ∧ m'.remaining ids < m.remaining ids := by
  have hm' := h.inv.step he
  obtain ⟨c, hadv⟩ := h.inv.advances h.connected hdel he
  have hkept : Kept ports n m' := by
    refine ⟨hm', hadv.connected, ?_, ?_⟩
    · intro d
      rw [hadv.typed, h.typed]
    · intro d
      rw [hadv.peers, h.peers]
  refine ⟨hkept, ?_⟩
  have hwithin : m'.Within ids := by
    intro d p hp
    rw [hids, ← hkept.peers, hp]
    rfl
  have hlines : m'.lines ids = m.lines ids := by
    simp only [lines, hadv.typed]
  have hc : c ∈ ids := by
    rw [hids, ← h.peers]
    exact hadv.known
  have hlt := hadv.sum_progress_lt hc
  have hle := hm'.sum_progress_le hadv.connected hwithin
  rw [remaining, remaining, hlines]
  rw [hlines] at hle
  omega

end Network

/-- Where all clients go on, deliveries in any order come to an end, some run of them does so, and
wherever they do, all that anyone in a room has typed is in its conversation, and on the screen of
everyone in it from the replay on. -/
theorem chat_settles {ports : Nat} {n : Network} (h : (chatNetwork ports).Reachable n)
    (hconn : n.Connected) :
    (∃ ids : Finset SessionId, (∀ c, c ∈ ids ↔ (n.peers c).isSome) ∧
      ∀ es n', (∀ e ∈ es, e.delivers = true) → (chatNetwork ports).exec n es = some n' →
        es.length ≤ ids.card * (2071 * n.lines ids + 2)) ∧
    (∃ es n', (∀ e ∈ es, e.delivers = true) ∧ (chatNetwork ports).exec n es = some n' ∧
      n'.AtRest) ∧
    (∀ es n', (∀ e ∈ es, e.delivers = true) → (chatNetwork ports).exec n es = some n' →
      n'.AtRest → ∀ c, (n.peers c).isSome → n'.typed c = n.typed c ∧
        ∃ x, n'.server.sessions c = some x ∧ n'.Settled c x.room) := by
  obtain ⟨ids, hids⟩ := Network.exists_clients h
  have hstart : Network.Kept ports n n :=
    ⟨Network.inv_reachable h, hconn, fun _ => rfl, fun _ => rfl⟩
  have hstep : ∀ s e t, Network.Kept ports n s → e.delivers = true →
      (chatNetwork ports).step s e = some t →
      Network.Kept ports n t ∧ t.remaining ids < s.remaining ids :=
    fun s e t hs hdel he => hs.delivery hids hdel he
  refine ⟨⟨ids, hids, ?_⟩, ?_, ?_⟩
  · intro es n' hes hexec
    have hle := (System.exec_bounded (p := fun e => NetEvent.delivers e = true) hstep hstart hes
      hexec).2
    exact Nat.le_trans (Nat.le_of_add_right_le hle) (Nat.sub_le _ _)
  · exact System.exists_stuck (p := fun e => NetEvent.delivers e = true) hstep hstart
  · intro es n' hes hexec hrest c hc
    have hkept := (System.exec_bounded (p := fun e => NetEvent.delivers e = true) hstep hstart hes
      hexec).1
    refine ⟨hkept.typed c, ?_⟩
    rw [← hkept.peers] at hc
    obtain ⟨p, hp⟩ := Option.isSome_iff_exists.1 hc
    obtain ⟨x, hin⟩ := hkept.connected c p hp
    exact ⟨x, hin.session, hkept.inv.settled hp hin (hkept.inv.quiet hrest hp hin)⟩

/-- Both clients are connected, and one of them has typed hi. -/
def beforeHi : List NetEvent := sayHi.take 9

instance (n : Network) (c : SessionId) (p : Peer) (x : ChatSession) : Decidable (n.InTouch c p x) :=
  decidable_of_iff (p.run.running = true ∧ p.run.client.closed = false ∧
    .close ∉ p.run.client.posted ∧ p.run.client.reads.reads ≠ [] ∧ n.server.sessions c = some x ∧
    c ∈ (n.server.room x.room).participants.ids)
    ⟨fun ⟨h₁, h₂, h₃, h₄, h₅, h₆⟩ => ⟨h₁, h₂, h₃, h₄, h₅, h₆⟩,
      fun ⟨h₁, h₂, h₃, h₄, h₅, h₆⟩ => ⟨h₁, h₂, h₃, h₄, h₅, h₆⟩⟩

private theorem connected_beforeHi : ((chatNetwork 1).final beforeHi).Connected := by
  have hboth : ∀ c ∈ [0, 1], ∀ p ∈ ((chatNetwork 1).final beforeHi).peers c,
      ∃ x ∈ ((chatNetwork 1).final beforeHi).server.sessions c,
        ((chatNetwork 1).final beforeHi).InTouch c p x := by decide +kernel
  intro c p hp
  have hrun := (chatNetwork 1).exec_final (show ((chatNetwork 1).exec _ beforeHi).isSome = true by
    decide +kernel)
  rcases Network.exec_peers hrun (d := c) (by simp [hp]) with hinit | hmem
  · exact absurd hinit (by simp [chatNetwork, Network.init])
  · obtain ⟨x, -, hin⟩ := hboth c hmem p hp
    exact ⟨x, hin⟩

theorem chat_settles_beforeHi :
    let n := (chatNetwork 1).final beforeHi
    ∃ es n' r, (∀ e ∈ es, e.delivers = true) ∧ (chatNetwork 1).exec n es = some n' ∧
      saidBy 0 (conversation r n'.server.trace) = [[104, 105]] := by
  intro n
  have htyped : n.typed 0 = [[104, 105]] := by decide +kernel
  have hstarted : (n.peers 0).isSome = true := by decide +kernel
  obtain ⟨-, ⟨es, n', hes, hexec, hrest⟩, hsettled⟩ :=
    chat_settles ((chatNetwork 1).reachable_final beforeHi) connected_beforeHi
  obtain ⟨htyped', x, -, hsaid, -⟩ := hsettled es n' hes hexec hrest 0 hstarted
  exact ⟨es, n', x.room, hes, hexec, by rw [hsaid, htyped', htyped]⟩

end BoostLearning.Chat
