import BoostLearning.Chat.ServerInvariant

/-!
# Joining and leaving a room

When a session is in the room, read off the history: from its start to the first call of
`leave`, whichever of its handlers makes it. From then on nothing is pushed on its queue.
-/

namespace BoostLearning.Chat

variable {tr : List Obs} {m : ChatRoom} {r : ServerId} {s : SessionId} {x : ChatSession}

private theorem join_mem_roomActs : .join s ∈ tr.filterMap (Obs.roomAct? r) ↔ .join r s ∈ tr := by
  rw [List.mem_filterMap]
  constructor
  · rintro ⟨o, ho, hact⟩
    cases o with
    | join r' s' =>
      simp only [Obs.roomAct?] at hact
      split at hact
      · rename_i hr
        simp only [Option.some.injEq, RoomAct.join.injEq] at hact
        subst r' s'
        exact ho
      · exact absurd hact (by simp)
    | leave r' s' chain => simp [Obs.roomAct?] at hact
    | deliver r' s' msg => simp [Obs.roomAct?] at hact
    | push s' msg => simp [Obs.roomAct?] at hact
    | socket s' act => simp [Obs.roomAct?] at hact
  · intro h
    exact ⟨_, h, by simp [Obs.roomAct?]⟩

private theorem eq_leave_of_roomAct {o : Obs} (h : o.roomAct? r = some (.leave s)) :
    ∃ chain, o = .leave r s chain := by
  cases o with
  | leave r' s' chain =>
    simp only [Obs.roomAct?] at h
    split at h
    · rename_i hr
      simp only [Option.some.injEq, RoomAct.leave.injEq] at h
      subst r' s'
      exact ⟨chain, rfl⟩
    · exact absurd h (by simp)
  | join r' s' => simp [Obs.roomAct?] at h
  | deliver r' s' msg => simp [Obs.roomAct?] at h
  | push s' msg => simp [Obs.roomAct?] at h
  | socket s' act => simp [Obs.roomAct?] at h

private theorem leave_mem_roomActs :
    .leave s ∈ tr.filterMap (Obs.roomAct? r) ↔ ∃ chain, .leave r s chain ∈ tr := by
  rw [List.mem_filterMap]
  constructor
  · rintro ⟨o, ho, hact⟩
    obtain ⟨chain, rfl⟩ := eq_leave_of_roomAct hact
    exact ⟨chain, ho⟩
  · rintro ⟨chain, h⟩
    exact ⟨_, h, by simp [Obs.roomAct?]⟩

private theorem mem_roomsOf_of_join (h : .join r s ∈ tr) : r ∈ roomsOf s tr :=
  List.mem_filterMap.2 ⟨_, h, by simp [Obs.joined?]⟩

/-- A session is started once, in its own room. -/
theorem SessionInv.started_split (h : SessionInv tr m s x) :
    ∃ before after, tr = before ++ .join x.room s :: after ∧ roomsOf s before = [] ∧
      roomsOf s after = [] ∧
      (roomLog x.room tr).joinedAt s = some (deliveredIn x.room before).length := by
  obtain ⟨before, o, after, rfl, hbefore, ho, hafter⟩ := List.filterMap_eq_cons_iff.1 h.started
  have hjoin : o = .join x.room s := by
    cases o with
    | join r' s' =>
      simp only [Obs.joined?] at ho
      split at ho
      · rename_i hs
        simp only [Option.some.injEq] at ho
        rw [ho, hs]
      · exact absurd ho (by simp)
    | leave r' s' chain => simp [Obs.joined?] at ho
    | deliver r' s' msg => simp [Obs.joined?] at ho
    | push s' msg => simp [Obs.joined?] at ho
    | socket s' act => simp [Obs.joined?] at ho
  subst o
  have hnot : .join s ∉ after.filterMap (Obs.roomAct? x.room) := by
    intro hmem
    have := mem_roomsOf_of_join (join_mem_roomActs.1 hmem)
    rw [roomsOf, hafter] at this
    exact absurd this (by simp)
  refine ⟨before, after, rfl, List.filterMap_eq_nil_iff.2 hbefore, hafter, ?_⟩
  rw [← roomLog_log, roomLog, List.filterMap_append,
    List.filterMap_cons_some (b := .join s) (by simp [Obs.roomAct?]), Broadcast.joinedAt_run hnot]
  rfl

/-- Either the session is still in the room, or there was a first call of `leave`. -/
theorem SessionInv.left_split (h : SessionInv tr m s x) :
    (s ∈ m.participants.ids ∧ (∀ chain, .leave x.room s chain ∉ tr) ∧
      (roomLog x.room tr).leftAt s = none) ∨
    (s ∉ m.participants.ids ∧ ∃ chain before after, tr = before ++ .leave x.room s chain :: after ∧
      (∀ chain, .leave x.room s chain ∉ before) ∧
      (roomLog x.room tr).leftAt s = some (deliveredIn x.room before).length) := by
  obtain ⟨_, _, _, _, _, hjoined⟩ := h.started_split
  rcases Broadcast.leftAt_run (tr.filterMap (Obs.roomAct? x.room)) s with
    ⟨hnot, hnone⟩ | ⟨before, after, hsplit, hfirst, hsome⟩
  · left
    refine ⟨h.present.2 ⟨?_, hnone⟩, ?_, hnone⟩
    · rw [hjoined]
      rfl
    · intro chain hmem
      exact hnot (leave_mem_roomActs.2 ⟨chain, hmem⟩)
  · right
    obtain ⟨before', rest, rfl, hbefore, hrest⟩ := List.filterMap_eq_append_iff.1 hsplit
    obtain ⟨quiet, o, after', rfl, hquiet, ho, -⟩ := List.filterMap_eq_cons_iff.1 hrest
    obtain ⟨chain, rfl⟩ := eq_leave_of_roomAct ho
    have hacts : (before' ++ quiet).filterMap (Obs.roomAct? x.room) = before := by
      rw [List.filterMap_append, List.filterMap_eq_nil_iff.2 hquiet, List.append_nil, hbefore]
    refine ⟨?_, chain, before' ++ quiet, after', by simp, ?_, ?_⟩
    · intro hs
      have := (h.present.1 hs).2
      rw [roomLog, hsome] at this
      exact absurd this (by simp)
    · intro chain' hmem
      apply hfirst
      rw [← hacts]
      exact leave_mem_roomActs.2 ⟨chain', hmem⟩
    · rw [roomLog, hsome, ← roomLog_log, roomLog, hacts]

/-! ## After the leave -/

namespace World

variable {w w' : World} {e : Event} {es : List Event}

/-- A session that is in no set of participants is outside the broadcast for good. -/
structure Departed (w : World) (s : SessionId) (r : ServerId) (pushed msgs : List ChatMessage) :
    Prop where
  session : ∃ x, w.sessions s = some x ∧ x.room = r ∧ x.writes.msgs <:+ msgs
  gone : s ∉ (w.room r).participants.ids
  pushed : pushedOn s w.trace = pushed

private theorem Departed.react {pushed msgs : List ChatMessage} (hw : w.Inv)
    (h : w.Departed s r pushed msgs) {t : SessionId} {e : SessionEvent} {x : ChatSession}
    {ρ : Reaction} (hx : w.sessions t = some x) (hρ : x.handle e = some ρ) :
    ∃ y, Function.update w.sessions t (some ρ.session) s = some y ∧ y.room = r ∧
      y.writes.msgs <:+ msgs := by
  obtain ⟨y, hy, hyr, hsuffix⟩ := h.session
  by_cases hst : s = t
  · subst t
    rw [hy, Option.some.injEq] at hx
    subst x
    obtain ⟨-, -, hmsgs⟩ := ChatSession.handle_writes (hw.session s y hy).writes hρ
    exact ⟨ρ.session, Function.update_self _ _ _, (ChatSession.handle_room hρ).trans hyr,
      hmsgs.trans hsuffix⟩
  · exact ⟨y, (Function.update_of_ne hst _ _).trans hy, hyr, hsuffix⟩

theorem Departed.step {pushed msgs : List ChatMessage} (hw : w.Inv)
    (h : w.Departed s r pushed msgs) (he : w.step e = some w') : w'.Departed s r pushed msgs := by
  obtain ⟨y, hy, hyr, hsuffix⟩ := h.session
  have hgone := h.gone
  cases step_iff.1 he with
  | @accepted r' t pos storage hacc hnew =>
    have hst : s ≠ t := by
      rintro rfl
      simp [hy] at hnew
    constructor
    case session =>
      exact ⟨y, (Function.update_of_ne hst _ _).trans hy, hyr, hsuffix⟩
    case gone =>
      rw [room_mk, update_room]
      split
      · rename_i hr
        subst r'
        simpa [PointerSet.mem_insert, hst] using hgone
      · exact hgone
    case pushed =>
      simp [Obs.pushed?, Ne.symm hst, h.pushed]
  | refused hacc => exact h
  | @quiet t e x ρ hx hρ hcall =>
    constructor
    case session =>
      exact h.react hw hx hρ
    case gone =>
      exact hgone
    case pushed =>
      simp [h.pushed]
  | @left t e x ρ chain hx hρ hcall =>
    constructor
    case session =>
      exact h.react hw hx hρ
    case gone =>
      rw [room_mk, update_room]
      split
      · rename_i hr
        subst r
        intro hs
        rw [hr] at hgone
        exact hgone (PointerSet.mem_erase.1 hs).2
      · exact hgone
    case pushed =>
      simp [h.pushed, Obs.pushed?]
  | @delivered t e x ρ m hx hρ hcall =>
    have hroom := ChatSession.handle_room hρ
    have hnodup := (w.room x.room).participants.nodup
    have hsx : s ∉ (w.room x.room).participants.ids := by
      intro hs
      obtain ⟨z, hz, hzr⟩ := hw.member x.room s hs
      rw [hy, Option.some.injEq] at hz
      subst z
      rw [← hzr, hyr] at hs
      exact hgone hs
    constructor
    case session =>
      by_cases hst : s = t
      · subst t
        rw [hy, Option.some.injEq] at hx
        subst x
        obtain ⟨-, -, hwrites, -⟩ :=
          ChatSession.handle_reads_deliver (hw.session s y hy).reads hρ hcall
        refine ⟨_, if_pos rfl, ?_⟩
        rw [if_neg hsx, ChatSession.doReadHeader_room, ChatSession.doReadHeader_writes, hwrites,
          hroom]
        exact ⟨hyr, hsuffix⟩
      · refine ⟨y, ?_, hyr, hsuffix⟩
        simp only [if_neg hst, if_neg hsx]
        exact hy
    case gone =>
      rw [room_mk, update_room]
      split
      · rename_i hr
        rw [hr] at hgone
        exact hgone
      · exact hgone
    case pushed =>
      simp [h.pushed, Obs.pushed?, pushedOn_fanOut _ _ hnodup, hsx]

/-- Whatever happens next, a session that has left is never pushed another message. -/
theorem Departed.exec {ports : Nat} {pushed msgs : List ChatMessage} (hw : w.Inv)
    (h : w.Departed s r pushed msgs) (hrun : (chatServer ports).exec w es = some w') :
    w'.Departed s r pushed msgs := by
  have hboth : w'.Inv ∧ w'.Departed s r pushed msgs := by
    apply System.exec_induction (M := chatServer ports)
      (P := fun w => w.Inv ∧ w.Departed s r pushed msgs) _ ⟨hw, h⟩ hrun
    rintro u e u' ⟨hu, hdep⟩ he
    exact ⟨hu.step he, hdep.step hu he⟩
  exact hboth.2

end World

end BoostLearning.Chat
