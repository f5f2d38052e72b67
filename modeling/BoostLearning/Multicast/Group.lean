import BoostLearning.Framework.Datagrams
import BoostLearning.Multicast.Receiver
import BoostLearning.Multicast.Sender

/-!
# The multicast group

One sender, and receivers that join the group at any time. What the sender sends goes to those that
have joined. Between it and each of them is a network that may lose, duplicate and reorder, and
strangers may send datagrams to a receiver too.
-/

namespace BoostLearning.Multicast

/-- A receiver that has joined: how many messages were sent before, the datagrams on their way to
it, those that have come, and those that strangers have sent. -/
structure Member where
  receiver : Receiver
  missed : Nat
  net : Datagrams (List Char)
  heard : List (List Char)
  strangers : List (List Char)
deriving DecidableEq

inductive MemberEvent where
  | deliver (i : Nat)
  | lose (i : Nat)
  | duplicate (i : Nat)
  | stranger (x : List Char)
  | receiver (e : ReceiverEvent)
deriving DecidableEq

namespace Member

def multicast (m : Member) (out : List (List Char)) : Member := { m with net := m.net.send out }

def step (m : Member) : MemberEvent → Option Member
  | .deliver i => (m.net.deliver i).map fun (x, net) =>
      { m with receiver := m.receiver.arrive x, net := net, heard := m.heard ++ [x] }
  | .lose i => (m.net.lose i).map fun net => { m with net := net }
  | .duplicate i => (m.net.duplicate i).map fun net => { m with net := net }
  | .stranger x => some { m with net := m.net.send [x], strangers := m.strangers ++ [x] }
  | .receiver e => (m.receiver.step e).map fun r => { m with receiver := r }

end Member

/-- The clock, the sender, what it has sent and when, and the members. -/
structure Group where
  now : Nat
  sender : Sender
  sent : List (List Char × Nat)
  members : List Member
deriving DecidableEq

/-- A receiver joins with any contents of its buffer. -/
inductive Event where
  | tick
  | sender (e : SenderEvent)
  | join (data : Buffer Char 1024)
  | member (k : Nat) (e : MemberEvent)
deriving DecidableEq

namespace Group

def texts (g : Group) : List (List Char) := g.sent.map Prod.fst

def step (g : Group) : Event → Option Group
  | .tick => some { g with now := g.now + 1 }
  | .sender e => (g.sender.step g.now e).map fun (s, out) =>
      { g with
        sender := s
        sent := g.sent ++ out.map fun text => (text, g.now)
        members := g.members.map fun m => m.multicast out }
  | .join data =>
    some { g with members := g.members ++ [⟨.new data, g.sent.length, ⟨[], []⟩, [], []⟩] }
  | .member k e =>
    g.members[k]?.bind fun m => (m.step e).map fun m' => { g with members := g.members.set k m' }

end Group

def multicast : System Group Event := ⟨⟨0, .new, [], []⟩, Group.step⟩

namespace Member

variable {m m' : Member} {texts out : List (List Char)} {e : MemberEvent}

/-- What has come to a member was sent to it, and what the sender has sent to it is on its way, was
lost or has come. -/
structure Ok (texts : List (List Char)) (m : Member) : Prop where
  missed : m.missed ≤ texts.length
  receiver : m.receiver.Inv m.heard
  flight : ∀ x ∈ m.net.flight, x ∈ texts.drop m.missed ∨ x ∈ m.strangers
  heard : ∀ x ∈ m.heard, x ∈ texts.drop m.missed ∨ x ∈ m.strangers
  kept : ∀ x ∈ texts.drop m.missed, x ∈ m.net.flight ∨ x ∈ m.net.lost ∨ x ∈ m.heard

private theorem Ok.join (texts : List (List Char)) (data : Buffer Char 1024) :
    Ok texts ⟨.new data, texts.length, ⟨[], []⟩, [], []⟩ :=
  ⟨Nat.le_refl _, .init data, by simp, by simp, by simp⟩

private theorem Ok.multicast (h : m.Ok texts) (out : List (List Char)) :
    (m.multicast out).Ok (texts ++ out) := by
  have hdrop : (texts ++ out).drop m.missed = texts.drop m.missed ++ out :=
    List.drop_append_of_le_length h.missed
  refine ⟨?_, h.receiver, ?_, ?_, ?_⟩
  · exact Nat.le_trans h.missed (by simp)
  · intro x hx
    simp only [Member.multicast, hdrop, List.mem_append, Datagrams.mem_send] at hx ⊢
    rcases hx with hx | hx
    · exact (h.flight x hx).imp_left .inl
    · exact .inl (.inr hx)
  · intro x hx
    simp only [Member.multicast, hdrop, List.mem_append] at hx ⊢
    exact (h.heard x hx).imp_left .inl
  · intro x hx
    simp only [Member.multicast, hdrop, List.mem_append, Datagrams.mem_send,
      Datagrams.lost_send] at hx ⊢
    rcases hx with hx | hx
    · exact (h.kept x hx).imp_left .inl
    · exact .inl (.inr hx)

private theorem Ok.suffer (h : m.Ok texts) {net : Datagrams (List Char)}
    (hnet : Datagrams.Suffers m.net net) : Ok texts { m with net := net } := by
  refine ⟨h.missed, h.receiver, ?_, h.heard, ?_⟩
  · intro x hx
    exact h.flight x (hnet.sub x hx)
  · intro x hx
    rcases h.kept x hx with hflight | hlost | hheard
    · exact (hnet.rest x hflight).imp_right .inl
    · exact .inr (.inl (hnet.lost x hlost))
    · exact .inr (.inr hheard)

private theorem Ok.deliver (h : m.Ok texts) {x : List Char} {net : Datagrams (List Char)}
    (hnet : Datagrams.Delivers m.net x net) :
    Ok texts { m with receiver := m.receiver.arrive x, net := net, heard := m.heard ++ [x] } := by
  refine ⟨h.missed, h.receiver.arrive x, ?_, ?_, ?_⟩
  · intro y hy
    exact h.flight y (hnet.sub y hy)
  · intro y hy
    rcases List.mem_append.1 hy with hy | hy
    · exact h.heard y hy
    · obtain rfl := List.mem_singleton.1 hy
      exact h.flight y hnet.mem
  · intro y hy
    rcases h.kept y hy with hflight | hlost | hheard
    · rcases hnet.rest y hflight with rfl | hflight
      · exact .inr (.inr (by simp))
      · exact .inl hflight
    · exact .inr (.inl (hnet.lost ▸ hlost))
    · exact .inr (.inr (List.mem_append_left _ hheard))

private theorem Ok.stranger (h : m.Ok texts) (x : List Char) :
    Ok texts { m with net := m.net.send [x], strangers := m.strangers ++ [x] } := by
  refine ⟨h.missed, h.receiver, ?_, ?_, ?_⟩
  · intro y hy
    rcases Datagrams.mem_send.1 hy with hy | hy
    · exact (h.flight y hy).imp_right (List.mem_append_left _)
    · exact .inr (List.mem_append_right _ hy)
  · intro y hy
    exact (h.heard y hy).imp_right (List.mem_append_left _)
  · intro y hy
    exact (h.kept y hy).imp_left fun hy => Datagrams.mem_send.2 (.inl hy)

theorem Ok.step (h : m.Ok texts) (he : m.step e = some m') : m'.Ok texts := by
  cases e with
  | deliver i =>
    obtain ⟨⟨x, net⟩, hx, rfl⟩ := Option.map_eq_some_iff.1 he
    exact h.deliver (Datagrams.delivers hx)
  | lose i =>
    obtain ⟨net, hnet, rfl⟩ := Option.map_eq_some_iff.1 he
    exact h.suffer (Datagrams.suffers_lose hnet)
  | duplicate i =>
    obtain ⟨net, hnet, rfl⟩ := Option.map_eq_some_iff.1 he
    exact h.suffer (Datagrams.suffers_duplicate hnet)
  | stranger x => exact Option.some.inj he ▸ h.stranger x
  | receiver e =>
    obtain ⟨r, hr, rfl⟩ := Option.map_eq_some_iff.1 he
    exact ⟨h.missed, h.receiver.step hr, h.flight, h.heard, h.kept⟩

end Member

namespace Group

variable {g g' : Group} {m m' : Member} {e : Event}

private theorem forall_members {P : List (List Char) → Member → Prop}
    (hjoin : ∀ data, P g.texts ⟨.new data, g.texts.length, ⟨[], []⟩, [], []⟩)
    (hsend : ∀ m out, m ∈ g.members → P (g.texts ++ out) (m.multicast out))
    (hstep : ∀ m k e' m', m ∈ g.members → e = .member k e' → m.step e' = some m' → P g.texts m')
    (h : ∀ m ∈ g.members, P g.texts m) (he : g.step e = some g') :
    ∀ m ∈ g'.members, P g'.texts m := by
  cases e with
  | tick =>
    obtain rfl := Option.some.inj he
    exact h
  | sender e =>
    obtain ⟨⟨s, out⟩, hs, rfl⟩ := Option.map_eq_some_iff.1 he
    intro n hn
    obtain ⟨m, hm, rfl⟩ := List.mem_map.1 hn
    simpa [texts, Function.comp_def] using hsend m out hm
  | join data =>
    obtain rfl := Option.some.inj he
    intro n hn
    rcases List.mem_append.1 hn with hn | hn
    · exact h n hn
    · obtain rfl := List.mem_singleton.1 hn
      simpa [texts] using hjoin data
  | member k e =>
    obtain ⟨m, hk, he⟩ := Option.bind_eq_some_iff.1 he
    obtain ⟨m', hm', rfl⟩ := Option.map_eq_some_iff.1 he
    intro n hn
    rcases List.mem_or_eq_of_mem_set hn with hn | rfl
    · exact h n hn
    · exact hstep m k e n (List.mem_of_getElem? hk) rfl hm'

structure Inv (g : Group) : Prop where
  sender : g.sender.Inv g.now g.sent
  members : ∀ m ∈ g.members, m.Ok g.texts

private theorem Inv.init : multicast.init.Inv := ⟨.init, by simp [multicast]⟩

private theorem Inv.sender_step (h : g.Inv) (he : g.step e = some g') :
    g'.sender.Inv g'.now g'.sent := by
  cases e with
  | tick => exact Option.some.inj he ▸ h.sender.later (Nat.le_succ _)
  | sender e =>
    obtain ⟨⟨s, out⟩, hs, rfl⟩ := Option.map_eq_some_iff.1 he
    exact (h.sender.step hs).1
  | join data => exact Option.some.inj he ▸ h.sender
  | member k e =>
    obtain ⟨m, hk, he⟩ := Option.bind_eq_some_iff.1 he
    obtain ⟨m', hm', rfl⟩ := Option.map_eq_some_iff.1 he
    exact h.sender

theorem Inv.step (h : g.Inv) (he : g.step e = some g') : g'.Inv := by
  refine ⟨h.sender_step he, ?_⟩
  apply forall_members (P := fun texts m => m.Ok texts) _ _ _ h.members he
  · exact fun data => .join g.texts data
  · exact fun m out hm => (h.members m hm).multicast out
  · exact fun m _ _ _ hm _ he' => (h.members m hm).step he'

theorem inv_reachable (h : multicast.Reachable g) : g.Inv :=
  System.reachable_induction (P := Inv) .init (fun _ _ _ _ hg he => hg.step he) h

/-! ## The sender -/

private theorem exec_ticks (g : Group) (n : Nat) :
    multicast.exec g (List.replicate n .tick) = some { g with now := g.now + n } := by
  induction n generalizing g with
  | zero => rfl
  | succ n ih =>
    rw [List.replicate_succ, System.exec_cons_some]
    refine ⟨{ g with now := g.now + 1 }, rfl, ?_⟩
    rw [ih, Nat.add_right_comm]
    rfl

private theorem Inv.goes (h : g.Inv) (hgoes : ¬ g.sender.AtRest) :
    ∃ n e, (multicast.exec g (List.replicate n .tick ++ [.sender e])).isSome = true := by
  obtain ⟨later, e, hle, he⟩ := h.sender.goes hgoes
  obtain ⟨⟨s, out⟩, hs⟩ := Option.isSome_iff_exists.1 he
  have hnow : g.now + (later - g.now) = later := by omega
  refine ⟨later - g.now, e, ?_⟩
  rw [System.exec_append, exec_ticks, hnow, Option.bind_some]
  simp [System.exec, multicast, Group.step, hs]

def isSender : Event → Bool
  | .sender _ => true
  | _ => false

private theorem Inv.left_step (h : g.Inv) (he : g.step e = some g') :
    (if isSender e then 1 else 0) + g'.sender.left ≤ g.sender.left := by
  cases e with
  | tick => simp [isSender, ← Option.some.inj he]
  | sender e =>
    obtain ⟨⟨s, out⟩, hs, rfl⟩ := Option.map_eq_some_iff.1 he
    have hlt := (h.sender.step hs).2
    simp only [isSender, if_true]
    omega
  | join data => simp [isSender, ← Option.some.inj he]
  | member k e =>
    obtain ⟨m, hk, he⟩ := Option.bind_eq_some_iff.1 he
    obtain ⟨m', hm', rfl⟩ := Option.map_eq_some_iff.1 he
    simp [isSender]

end Group

/-- In every run the sender sends its messages in order, a second or more apart and fifteen at
most. It stops by itself, after the last one or one that cannot be sent. -/
theorem sender_paces {es : List Event} {g : Group}
    (h : multicast.exec multicast.init es = some g) :
    g.texts = (List.range g.sent.length).map messageText ∧ g.sent.length ≤ maxMessageCount ∧
      (g.sent.Pairwise fun x y => x.2 + 1000 ≤ y.2) ∧
      es.countP Group.isSender < 3 * maxMessageCount ∧
      (g.sender.AtRest →
        g.sent.length = maxMessageCount ∨ g.sender.messageCount = g.sent.length + 1) ∧
      (¬ g.sender.AtRest →
        ∃ n e, (multicast.exec g (List.replicate n .tick ++ [.sender e])).isSome = true) := by
  have hinv := Group.inv_reachable ⟨es, h⟩
  have hleft : es.countP Group.isSender + g.sender.left ≤ multicast.init.sender.left :=
    System.exec_countP_le (P := Group.Inv) (f := fun g => g.sender.left)
      (fun _ _ _ hg he => ⟨hg.step he, hg.left_step he⟩) Group.Inv.init h
  have hinit : multicast.init.sender.left + 1 = 3 * maxMessageCount := rfl
  exact ⟨hinv.sender.series.numbered, hinv.sender.length_le, hinv.sender.series.paced, by omega,
    hinv.sender.ended, hinv.goes⟩

/-- A receiver joins when the first message is out, and prints the second. -/
def joinLate : List Event :=
  [.sender (.transmit 0), .sender (.handleSend 0), .join (Buffer.fill 1024 ' ')] ++
    List.replicate 1000 .tick ++
    [.sender (.handleTimeout false), .sender (.transmit 0), .member 0 (.deliver 0),
      .member 0 (.receiver (.receive 0)), .member 0 (.receiver (.handle 0))]

theorem sender_paces_joinLate :
    (multicast.final joinLate).sent = [(messageText 0, 0), (messageText 1, 1000)] ∧
      (multicast.final joinLate).sent.Pairwise fun x y => x.2 + 1000 ≤ y.2 := by
  have hrun : (multicast.exec multicast.init joinLate).isSome = true := by decide +kernel
  have hpaces := sender_paces (System.exec_final multicast hrun)
  exact ⟨by decide +kernel, hpaces.2.2.1⟩

/-! ## The receivers -/

private theorem line_messageText {j : Nat} (hj : j < maxMessageCount) :
    Receiver.line (messageText j) = messageText j := by
  have hlength : ∀ j < maxMessageCount, (messageText j).length ≤ 1024 := by decide
  exact List.take_of_length_le (hlength j hj)

namespace Group

variable {g g' : Group} {m : Member} {e : Event} {x : List Char}

private theorem Inv.line_text (h : g.Inv) (hx : x ∈ g.texts) : Receiver.line x = x := by
  have hnumbered : g.texts = (List.range g.sent.length).map messageText := h.sender.series.numbered
  rw [hnumbered] at hx
  obtain ⟨j, hj, rfl⟩ := List.mem_map.1 hx
  exact line_messageText (Nat.lt_of_lt_of_le (List.mem_range.1 hj) h.sender.length_le)

end Group

/-- What a receiver prints was sent after it had joined, or is what its buffer holds of a stranger's
datagram; a message is missing only if it was lost, as long as there is no error. -/
theorem receivers_print {g : Group} {m : Member} (h : multicast.Reachable g) (hm : m ∈ g.members) :
    (∀ line ∈ m.receiver.printed,
      line ∈ g.texts.drop m.missed ∨ ∃ x ∈ m.strangers, line = x.take 1024) ∧
    (m.receiver.UpToDate → m.net.flight = [] →
      ∀ text ∈ g.texts.drop m.missed, text ∈ m.net.lost ∨ text ∈ m.receiver.printed) := by
  have hinv := Group.inv_reachable h
  have hok := hinv.members m hm
  constructor
  · intro line hline
    obtain ⟨x, hx, rfl⟩ := List.mem_map.1 (hok.receiver.printed_prefix.subset hline)
    rcases hok.heard x hx with hx | hx
    · left
      rwa [hinv.line_text (List.mem_of_mem_drop hx)]
    · exact .inr ⟨x, hx, rfl⟩
  · intro hdone hflight text htext
    rcases hok.kept text htext with hx | hx | hx
    · exact absurd hx (by simp [hflight])
    · exact .inl hx
    · right
      rw [hok.receiver.printed_eq hdone, ← hinv.line_text (List.mem_of_mem_drop htext)]
      exact List.mem_map_of_mem hx

theorem receivers_print_joinLate : ∃ m ∈ (multicast.final joinLate).members,
    ∀ text ∈ (multicast.final joinLate).texts.drop m.missed,
      text ∈ m.net.lost ∨ text ∈ m.receiver.printed := by
  have hm : ∃ m, (multicast.final joinLate).members[0]? = some m ∧
      decide (m.receiver.UpToDate ∧ m.net.flight = []) = true :=
    exists_eq_some_of_any (by decide +kernel)
  obtain ⟨m, hm, hdone⟩ := hm
  obtain ⟨hdone, hflight⟩ := of_decide_eq_true hdone
  refine ⟨m, List.mem_of_getElem? hm, ?_⟩
  exact (receivers_print (multicast.reachable_final joinLate) (List.mem_of_getElem? hm)).2 hdone
    hflight

/-! ## A network in order -/

/-- Only the oldest datagram is delivered, none is lost or comes twice, and there are no
strangers. -/
def inOrder : Event → Bool
  | .member _ (.deliver i) => i = 0
  | .member _ (.lose _) => false
  | .member _ (.duplicate _) => false
  | .member _ (.stranger _) => false
  | _ => true

def orderly : System Group Event := multicast.restrict fun _ e => inOrder e

namespace Member

variable {m m' : Member} {texts out : List (List Char)} {e : MemberEvent} {k : Nat}

/-- What has come and what is on its way are the messages that were sent since the receiver has
joined. -/
def InOrder (texts : List (List Char)) (m : Member) : Prop :=
  m.heard ++ m.net.flight = texts.drop m.missed

private theorem InOrder.multicast (h : m.InOrder texts) (hok : m.Ok texts)
    (out : List (List Char)) :
    (m.multicast out).InOrder (texts ++ out) := by
  have hdrop : (texts ++ out).drop m.missed = texts.drop m.missed ++ out :=
    List.drop_append_of_le_length hok.missed
  simp only [InOrder, Member.multicast, Datagrams.send, hdrop, ← List.append_assoc]
  rw [h]

theorem InOrder.step (h : m.InOrder texts) (horder : inOrder (.member k e) = true)
    (he : m.step e = some m') : m'.InOrder texts := by
  cases e with
  | deliver i =>
    obtain ⟨⟨x, net⟩, hx, rfl⟩ := Option.map_eq_some_iff.1 he
    obtain rfl : i = 0 := by simpa [inOrder] using horder
    have hflight := Datagrams.deliver_zero hx
    rw [InOrder, hflight] at h
    rw [InOrder, ← h, List.append_assoc]
    rfl
  | lose i => exact absurd horder (by simp [inOrder])
  | duplicate i => exact absurd horder (by simp [inOrder])
  | stranger x => exact absurd horder (by simp [inOrder])
  | receiver e =>
    obtain ⟨r, hr, rfl⟩ := Option.map_eq_some_iff.1 he
    exact h

end Member

namespace Group

variable {g g' : Group} {e : Event}

private theorem inOrder_step (hinv : g.Inv) (h : ∀ m ∈ g.members, m.InOrder g.texts)
    (horder : inOrder e = true) (he : g.step e = some g') :
    ∀ m ∈ g'.members, m.InOrder g'.texts := by
  apply forall_members (P := fun texts m => m.InOrder texts) _ _ _ h he
  · intro data
    simp [Member.InOrder]
  · exact fun m out hm => (h m hm).multicast (hinv.members m hm) out
  · intro m k e' m' hm heq he'
    exact (h m hm).step (heq ▸ horder) he'

theorem orderly_reachable (h : orderly.Reachable g) :
    g.Inv ∧ ∀ m ∈ g.members, m.InOrder g.texts := by
  apply System.reachable_induction (P := fun g => g.Inv ∧ ∀ m ∈ g.members, m.InOrder g.texts) _ _ h
  · exact ⟨.init, by simp [orderly, multicast, System.restrict]⟩
  · rintro g e g' - ⟨hinv, hmembers⟩ he
    obtain ⟨horder, he⟩ := System.restrict_step.1 he
    exact ⟨hinv.step he, inOrder_step hinv hmembers horder he⟩

end Group

/-- Over a network in order, a receiver prints the messages from the first one that was sent after
it had joined, one after the other, and all of them if there is no error. -/
theorem receivers_agree {g : Group} {m : Member} (h : orderly.Reachable g) (hm : m ∈ g.members) :
    m.receiver.printed <+: ((List.range g.sent.length).drop m.missed).map messageText ∧
    (m.receiver.UpToDate → m.net.flight = [] →
      m.receiver.printed = ((List.range g.sent.length).drop m.missed).map messageText) := by
  obtain ⟨hinv, hmembers⟩ := Group.orderly_reachable h
  have hreceiver := (hinv.members m hm).receiver
  have hnumbered : g.texts = (List.range g.sent.length).map messageText :=
    hinv.sender.series.numbered
  have horder : m.heard ++ m.net.flight =
      ((List.range g.sent.length).drop m.missed).map messageText := by
    rw [List.map_drop, ← hnumbered]
    exact hmembers m hm
  have hlines : m.heard.map Receiver.line = m.heard := by
    conv_rhs => rw [← List.map_id m.heard]
    apply List.map_congr_left
    intro x hx
    have hmem : x ∈ g.texts.drop m.missed := by
      rw [← hmembers m hm]
      exact List.mem_append_left _ hx
    exact hinv.line_text (List.mem_of_mem_drop hmem)
  constructor
  · rw [← horder]
    exact (hlines ▸ hreceiver.printed_prefix).trans (List.prefix_append ..)
  · intro hdone hflight
    rw [← horder, hflight, List.append_nil, hreceiver.printed_eq hdone, hlines]

theorem receivers_agree_joinLate :
    ∃ m ∈ (orderly.final joinLate).members, m.receiver.printed = [messageText 1] := by
  have hm : ∃ m, (orderly.final joinLate).members[0]? = some m ∧
      decide (m.receiver.UpToDate ∧ m.net.flight = [] ∧ m.missed = 1) = true :=
    exists_eq_some_of_any (by decide +kernel)
  obtain ⟨m, hm, hdone⟩ := hm
  obtain ⟨hdone, hflight, hmissed⟩ := of_decide_eq_true hdone
  have hsent : (orderly.final joinLate).sent.length = 2 := by decide +kernel
  refine ⟨m, List.mem_of_getElem? hm, ?_⟩
  have hagree := (receivers_agree (orderly.reachable_final joinLate) (List.mem_of_getElem? hm)).2
    hdone hflight
  rw [hagree, hsent, hmissed]
  rfl

end BoostLearning.Multicast
