import BoostLearning.Framework.Strand
import BoostLearning.Framework.Transition

/-!
# The multicast sender

`Sender` of `sender.cpp` sends a message, waits for a second and sends the next one, which it makes
in the same `_message` that the send before was given. The clock counts milliseconds.
-/

namespace BoostLearning.Multicast

def maxMessageCount : Nat := 15

/-- What `os` holds after `"Message "` and a count. -/
def messageText (count : Nat) : List Char :=
  ['M', 'e', 's', 's', 'a', 'g', 'e', ' '] ++ Nat.toDigits 10 count

/-- An outstanding `async_send_to`, or its handler that is ready to run. -/
inductive Sending where
  | pending
  | done (error : Bool)
deriving DecidableEq

structure Sender where
  timer : Timer
  messageCount : Nat
  message : List Char
  sends : List Sending
deriving DecidableEq

/-- A datagram goes out, or cannot; a handler of a send runs, or one of a wait. -/
inductive SenderEvent where
  | transmit (i : Nat)
  | fail (i : Nat)
  | handleSend (i : Nat)
  | handleTimeout (error : Bool)
deriving DecidableEq

namespace Sender

def doSend (s : Sender) : Sender :=
  { s with
    messageCount := s.messageCount + 1
    message := messageText s.messageCount
    sends := s.sends ++ [.pending] }

def doTimeout (s : Sender) (now : Nat) : Sender :=
  { s with timer := (s.timer.expiresAt (now + 1000)).asyncWait }

def new : Sender := doSend ⟨⟨0, 0, 0⟩, 0, [], []⟩

def handleSend (s : Sender) (ec : Bool) (now : Nat) : Sender :=
  if !ec && s.messageCount < maxMessageCount then s.doTimeout now else s

def handleTimeout (s : Sender) (ec : Bool) : Sender := if !ec then s.doSend else s

/-- One event at a time, and what goes out with it. A datagram is read from `_message` when it goes
out, not when the send is started. -/
def step (s : Sender) (now : Nat) : SenderEvent → Option (Sender × List (List Char))
  | .transmit i =>
    if s.sends[i]? = some .pending then
      some ({ s with sends := s.sends.set i (.done false) }, [s.message])
    else none
  | .fail i =>
    if s.sends[i]? = some .pending then
      some ({ s with sends := s.sends.set i (.done true) }, [])
    else none
  | .handleSend i =>
    match s.sends[i]? with
    | some (.done ec) => some ({ s with sends := s.sends.eraseIdx i }.handleSend ec now, [])
    | _ => none
  | .handleTimeout false =>
    (s.timer.expire now).map fun t => ({ s with timer := t }.handleTimeout false, [])
  | .handleTimeout true => s.timer.abort.map fun t => ({ s with timer := t }.handleTimeout true, [])

def AtRest (s : Sender) : Prop := s.sends = [] ∧ s.timer.waits = 0 ∧ s.timer.cancelled = 0

def left (s : Sender) : Nat :=
  match s.sends with
  | .pending :: _ => 3 * (maxMessageCount - s.messageCount) + 2
  | .done false :: _ => 3 * (maxMessageCount - s.messageCount) + 1
  | .done true :: _ => 1
  | [] => if s.timer.waits = 0 then 0 else 3 * (maxMessageCount - s.messageCount)

variable {s s' : Sender} {now now' : Nat} {sent : List (List Char × Nat)}
  {e : SenderEvent} {out : List (List Char)}

/-- Messages with consecutive numbers, each sent a second or more after those before it. -/
structure Series (sent : List (List Char × Nat)) : Prop where
  numbered : sent.map Prod.fst = (List.range sent.length).map messageText
  paced : sent.Pairwise fun x y => x.2 + 1000 ≤ y.2

private theorem Series.nil : Series [] := ⟨rfl, .nil⟩

private theorem Series.concat (h : Series sent) (hpace : ∀ x ∈ sent, x.2 + 1000 ≤ now) :
    Series (sent ++ [(messageText sent.length, now)]) := by
  refine ⟨?_, ?_⟩
  · simp [h.numbered, List.range_succ]
  · rw [List.pairwise_append]
    refine ⟨h.paced, List.pairwise_singleton .., ?_⟩
    intro x hx y hy
    obtain rfl := List.mem_singleton.1 hy
    exact hpace x hx

/-- The one thing that the sender is doing, after it has sent some messages. -/
inductive Inv (now : Nat) (sent : List (List Char × Nat)) : Sender → Prop
  | sending {expiry : Nat} (hsent : Series sent) (hlen : sent.length < maxMessageCount)
      (hpace : ∀ x ∈ sent, x.2 + 1000 ≤ now) :
      Inv now sent ⟨⟨expiry, 0, 0⟩, sent.length + 1, messageText sent.length, [.pending]⟩
  | out {expiry : Nat} {message : List Char} (hsent : Series sent) (hpos : 0 < sent.length)
      (hlen : sent.length ≤ maxMessageCount) (hnow : ∀ x ∈ sent, x.2 ≤ now) :
      Inv now sent ⟨⟨expiry, 0, 0⟩, sent.length, message, [.done false]⟩
  | failed {expiry : Nat} {message : List Char} (hsent : Series sent)
      (hlen : sent.length < maxMessageCount) :
      Inv now sent ⟨⟨expiry, 0, 0⟩, sent.length + 1, message, [.done true]⟩
  | waiting {expiry : Nat} {message : List Char} (hsent : Series sent)
      (hlen : sent.length < maxMessageCount) (hpace : ∀ x ∈ sent, x.2 + 1000 ≤ expiry) :
      Inv now sent ⟨⟨expiry, 1, 0⟩, sent.length, message, []⟩
  | finished {expiry count : Nat} {message : List Char} (hsent : Series sent)
      (hlen : sent.length ≤ maxMessageCount)
      (hend : sent.length = maxMessageCount ∨ count = sent.length + 1) :
      Inv now sent ⟨⟨expiry, 0, 0⟩, count, message, []⟩

theorem Inv.init : Inv now [] new :=
  .sending .nil (by decide) (by simp)

theorem Inv.later (h : s.Inv now sent) (hnow : now ≤ now') : s.Inv now' sent := by
  cases h with
  | sending hsent hlen hpace => exact .sending hsent hlen fun x hx => Nat.le_trans (hpace x hx) hnow
  | out hsent hpos hlen hle => exact .out hsent hpos hlen fun x hx => Nat.le_trans (hle x hx) hnow
  | failed hsent hlen => exact .failed hsent hlen
  | waiting hsent hlen hpace => exact .waiting hsent hlen hpace
  | finished hsent hlen hend => exact .finished hsent hlen hend

theorem Inv.series (h : s.Inv now sent) : Series sent := by
  cases h <;> assumption

theorem Inv.length_le (h : s.Inv now sent) : sent.length ≤ maxMessageCount := by
  cases h <;> omega

/-! ## What a step does -/

/-- The cases of `step`. -/
inductive Stepped (now : Nat) (s : Sender) : SenderEvent → Sender → List (List Char) → Prop
  | transmit {i : Nat} (hi : s.sends[i]? = some .pending) :
      Stepped now s (.transmit i) { s with sends := s.sends.set i (.done false) } [s.message]
  | fail {i : Nat} (hi : s.sends[i]? = some .pending) :
      Stepped now s (.fail i) { s with sends := s.sends.set i (.done true) } []
  | handleSend {i : Nat} {ec : Bool} (hi : s.sends[i]? = some (.done ec)) :
      Stepped now s (.handleSend i) ({ s with sends := s.sends.eraseIdx i }.handleSend ec now) []
  | expired {t : Timer} (ht : s.timer.expire now = some t) :
      Stepped now s (.handleTimeout false) ({ s with timer := t }.handleTimeout false) []
  | aborted {t : Timer} (ht : s.timer.abort = some t) :
      Stepped now s (.handleTimeout true) ({ s with timer := t }.handleTimeout true) []

private theorem stepped (he : s.step now e = some (s', out)) : Stepped now s e s' out := by
  cases e with
  | transmit i =>
    simp only [Sender.step, Option.ite_none_right_eq_some, Option.some.injEq, Prod.mk.injEq] at he
    obtain ⟨hi, rfl, rfl⟩ := he
    exact .transmit hi
  | fail i =>
    simp only [Sender.step, Option.ite_none_right_eq_some, Option.some.injEq, Prod.mk.injEq] at he
    obtain ⟨hi, rfl, rfl⟩ := he
    exact .fail hi
  | handleSend i =>
    simp only [Sender.step] at he
    split at he
    · rename_i ec hi
      obtain ⟨rfl, rfl⟩ := Prod.mk.inj (Option.some.inj he)
      exact .handleSend hi
    · exact absurd he (by simp)
  | handleTimeout ec =>
    cases ec with
    | false =>
      obtain ⟨t, ht, heq⟩ := Option.map_eq_some_iff.1 he
      obtain ⟨rfl, rfl⟩ := Prod.mk.inj heq
      exact .expired ht
    | true =>
      obtain ⟨t, ht, heq⟩ := Option.map_eq_some_iff.1 he
      obtain ⟨rfl, rfl⟩ := Prod.mk.inj heq
      exact .aborted ht

private theorem Inv.pending {i : Nat} (h : s.Inv now sent) (hi : s.sends[i]? = some .pending) :
    i = 0 ∧ Series sent ∧ sent.length < maxMessageCount ∧ (∀ x ∈ sent, x.2 + 1000 ≤ now) ∧
      ∃ expiry, s = ⟨⟨expiry, 0, 0⟩, sent.length + 1, messageText sent.length, [.pending]⟩ := by
  have hmem := List.mem_of_getElem? hi
  cases h with
  | @sending expiry hsent hlen hpace =>
    have hzero := (eq_singleton_of_getElem? (by simp) hi).1
    exact ⟨hzero, hsent, hlen, hpace, expiry, rfl⟩
  | out => exact absurd hmem (by simp)
  | failed => exact absurd hmem (by simp)
  | waiting => exact absurd hmem (by simp)
  | finished => exact absurd hmem (by simp)

private theorem Inv.transmit {i : Nat} (h : s.Inv now sent) (hi : s.sends[i]? = some .pending) :
    Inv now (sent ++ [(s.message, now)]) { s with sends := s.sends.set i (.done false) } ∧
      left { s with sends := s.sends.set i (.done false) } < s.left := by
  obtain ⟨rfl, hsent, hlen, hpace, expiry, rfl⟩ := h.pending hi
  have hnow : ∀ x ∈ sent ++ [(messageText sent.length, now)], x.2 ≤ now := by
    intro x hx
    rcases List.mem_append.1 hx with hx | hx
    · exact Nat.le_trans (Nat.le_add_right _ _) (hpace x hx)
    · exact List.mem_singleton.1 hx ▸ Nat.le_refl now
  refine ⟨?_, by simp [left]⟩
  have hout : Inv now (sent ++ [(messageText sent.length, now)]) ⟨⟨expiry, 0, 0⟩,
      (sent ++ [(messageText sent.length, now)]).length, messageText sent.length, [.done false]⟩ :=
    .out (hsent.concat hpace) (by simp) (by rw [List.length_append]; exact hlen) hnow
  rw [List.length_append] at hout
  exact hout

private theorem Inv.fail {i : Nat} (h : s.Inv now sent) (hi : s.sends[i]? = some .pending) :
    Inv now sent { s with sends := s.sends.set i (.done true) } ∧
      left { s with sends := s.sends.set i (.done true) } < s.left := by
  obtain ⟨rfl, hsent, hlen, hpace, expiry, rfl⟩ := h.pending hi
  exact ⟨.failed hsent hlen, by simp [left]⟩

private theorem Inv.handleSend {i : Nat} {ec : Bool} (h : s.Inv now sent)
    (hi : s.sends[i]? = some (.done ec)) :
    Inv now sent (Sender.handleSend { s with sends := s.sends.eraseIdx i } ec now) ∧
      left (Sender.handleSend { s with sends := s.sends.eraseIdx i } ec now) < s.left := by
  have hmem := List.mem_of_getElem? hi
  cases h with
  | sending => exact absurd hmem (by simp)
  | @out expiry message hsent hpos hlen hnow =>
    obtain ⟨rfl, heq⟩ := eq_singleton_of_getElem? (by simp) hi
    obtain rfl := Sending.done.inj (List.singleton_inj.1 heq)
    by_cases hlt : sent.length < maxMessageCount
    · have hpace : ∀ x ∈ sent, x.2 + 1000 ≤ now + 1000 :=
        fun x hx => Nat.add_le_add_right (hnow x hx) 1000
      simp only [Sender.handleSend, Bool.not_false, Bool.true_and, decide_eq_true_eq, hlt, if_true]
      exact ⟨.waiting hsent hlt hpace, by simp [left, doTimeout, Timer.expiresAt, Timer.asyncWait]⟩
    · simp only [Sender.handleSend, Bool.not_false, Bool.true_and, decide_eq_true_eq, hlt, if_false]
      exact ⟨.finished hsent hlen (.inl (by omega)), by simp [left]⟩
  | failed hsent hlen =>
    obtain ⟨rfl, heq⟩ := eq_singleton_of_getElem? (by simp) hi
    obtain rfl := Sending.done.inj (List.singleton_inj.1 heq)
    exact ⟨.finished hsent (Nat.le_of_lt hlen) (.inr rfl), by simp [Sender.handleSend, left]⟩
  | waiting => exact absurd hmem (by simp)
  | finished => exact absurd hmem (by simp)

private theorem Inv.expired {t : Timer} (h : s.Inv now sent) (ht : s.timer.expire now = some t) :
    Inv now sent (Sender.handleTimeout { s with timer := t } false) ∧
      left (Sender.handleTimeout { s with timer := t } false) < s.left := by
  obtain ⟨hwaits, hexpiry, rfl⟩ := Timer.expire_eq_some.1 ht
  cases h with
  | sending => exact absurd hwaits (by simp)
  | out => exact absurd hwaits (by simp)
  | failed => exact absurd hwaits (by simp)
  | waiting hsent hlen hpace =>
    have hnow : ∀ x ∈ sent, x.2 + 1000 ≤ now := fun x hx => Nat.le_trans (hpace x hx) hexpiry
    refine ⟨.sending hsent hlen hnow, ?_⟩
    simp [Sender.handleTimeout, doSend, left]
    omega
  | finished => exact absurd hwaits (by simp)

private theorem Inv.cancelled (h : s.Inv now sent) : s.timer.cancelled = 0 := by
  cases h <;> rfl

theorem Inv.step (h : s.Inv now sent) (he : s.step now e = some (s', out)) :
    s'.Inv now (sent ++ out.map fun text => (text, now)) ∧ s'.left < s.left := by
  cases stepped he with
  | transmit hi => exact h.transmit hi
  | fail hi => simpa using h.fail hi
  | handleSend hi => simpa using h.handleSend hi
  | expired ht => simpa using h.expired ht
  | aborted ht =>
    have hcancelled := (Timer.abort_eq_some.1 ht).1
    exact absurd h.cancelled (by omega)

theorem Inv.ended (h : s.Inv now sent) (hrest : s.AtRest) :
    sent.length = maxMessageCount ∨ s.messageCount = sent.length + 1 := by
  cases h with
  | sending => exact absurd hrest.1 (by simp)
  | out => exact absurd hrest.1 (by simp)
  | failed => exact absurd hrest.1 (by simp)
  | waiting => exact absurd hrest.2.1 (by simp)
  | finished _ _ hend => exact hend

theorem Inv.goes (h : s.Inv now sent) (hgoes : ¬ s.AtRest) :
    ∃ later e, now ≤ later ∧ (s.step later e).isSome = true := by
  cases h with
  | sending => exact ⟨now, .transmit 0, Nat.le_refl _, rfl⟩
  | out => exact ⟨now, .handleSend 0, Nat.le_refl _, rfl⟩
  | failed => exact ⟨now, .handleSend 0, Nat.le_refl _, rfl⟩
  | @waiting expiry message _ _ _ =>
    have ht : Timer.expire ⟨expiry, 1, 0⟩ (max now expiry) = some ⟨expiry, 0, 0⟩ :=
      Timer.expire_eq_some.2 ⟨Nat.one_pos, Nat.le_max_right .., rfl⟩
    refine ⟨max now expiry, .handleTimeout false, Nat.le_max_left .., ?_⟩
    simp [Sender.step, ht]
  | finished => exact absurd ⟨rfl, rfl, rfl⟩ hgoes

end Sender

end BoostLearning.Multicast
