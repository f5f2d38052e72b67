import BoostLearning.Chat.ServerInvariant

/-!
# Isolation of rooms and of silent sessions

A session reaches another one only through the messages its room is given. Deleting from a run
what happens to sessions of other rooms, and to sessions of the same room that publish nothing,
leaves a run in which the sessions that are kept do not notice the difference.
-/

namespace BoostLearning.Chat

/-- The events of the sessions in `K`; of the failed accepts, those of the servers in `refused`. -/
def retained (K : SessionId → Bool) (refused : ServerId → Bool) : Event → Bool
  | .acceptDone _ s _ _ => K s
  | .acceptFailed r => refused r
  | .session s _ => K s

/-- `s` itself, and the sessions of its room that have called `chat_room::deliver`. -/
def relevant (w : World) (s : SessionId) (r : ServerId) (t : SessionId) : Bool :=
  t = s || (w.sessions t).any fun y => y.room = r && publishedBy t w.trace ≠ []

namespace World

variable {w w' u u' : World} {e : Event} {K : SessionId → Bool} {r : ServerId}

/-- The kept sessions belong to room `r`, and the others publish nothing there. -/
def Silent (K : SessionId → Bool) (r : ServerId) (w : World) : Prop :=
  ∀ t y, w.sessions t = some y →
    (K t = true → y.room = r) ∧ (K t = false → y.room = r → publishedBy t w.trace = [])

private theorem Silent.back (h : Silent K r w') (he : w.step e = some w') : Silent K r w := by
  intro t y hy
  obtain ⟨⟨y', hy', hroom⟩, hpre⟩ := step_session he hy
  obtain ⟨hkept, hquiet⟩ := h t y' hy'
  rw [hroom] at hkept hquiet
  refine ⟨hkept, ?_⟩
  intro hK hr
  rw [hquiet hK hr, List.prefix_nil] at hpre
  exact hpre

/-- Two states that look the same to the kept sessions; the second one has no others. -/
structure Agree (K : SessionId → Bool) (r : ServerId) (w w' : World) : Prop where
  inv : w.Inv
  accepts : ∀ r', (w'.servers r').accepts = (w.servers r').accepts
  kept : ∀ t, K t = true → w'.sessions t = w.sessions t
  dropped : ∀ t, K t = false → w'.sessions t = none
  acts : ∀ t, K t = true → socketActs t w'.trace = socketActs t w.trace
  member : ∀ t, K t = true →
    (t ∈ (w'.room r).participants.ids ↔ t ∈ (w.room r).participants.ids)
  recent : (w'.room r).recentMsgs = (w.room r).recentMsgs

private theorem ne_of_kept {s : SessionId} (hs : K s = false) (t : SessionId)
    (hK : K t = true) : t ≠ s := by
  intro hts
  rw [hts, hs] at hK
  exact absurd hK (by simp)

/-- The first state takes a step that the kept sessions do not notice. -/
private theorem Agree.unnoticed (h : Agree K r w u) (he : w.step e = some w')
    (hkept : ∀ t, K t = true → w'.sessions t = w.sessions t)
    (hacts : ∀ t, K t = true → socketActs t w'.trace = socketActs t w.trace)
    (hmember : ∀ t, K t = true →
      (t ∈ (w'.room r).participants.ids ↔ t ∈ (w.room r).participants.ids))
    (hrecent : (w'.room r).recentMsgs = (w.room r).recentMsgs) : Agree K r w' u where
  inv := h.inv.step he
  accepts := fun r' => (h.accepts r').trans (step_accepts he r').symm
  kept := fun t hK => (h.kept t hK).trans (hkept t hK).symm
  dropped := h.dropped
  acts := fun t hK => (h.acts t hK).trans (hacts t hK).symm
  member := fun t hK => (h.member t hK).trans (hmember t hK).symm
  recent := h.recent.trans hrecent.symm

/-- A deleted session that publishes is one of another room. -/
private theorem Silent.elsewhere {s : SessionId} {x : ChatSession} (h : Silent K r w')
    (hs : K s = false) (he : w.step e = some w') (hx : w.sessions s = some x)
    (hpublished : publishedBy s w'.trace ≠ []) : x.room ≠ r := by
  intro hr
  obtain ⟨⟨y, hy, hyr⟩, -⟩ := step_session he hx
  exact hpublished ((h s y hy).2 hs (hyr.trans hr))

/-- A step of a session that is not kept is not seen by the kept ones. -/
private theorem Agree.drop (refused : ServerId → Bool) (h : Agree K r w u) (hsilent : Silent K r w')
    (hdrop : retained K refused e = false) (he : w.step e = some w') : Agree K r w' u := by
  cases step_iff.1 he with
  | @accepted r' s pos storage hacc hnew =>
    have hne := ne_of_kept (K := K) (s := s) hdrop
    apply h.unnoticed he
    · intro t hK
      exact Function.update_of_ne (hne t hK) _ _
    · intro t _
      simp [Obs.socketAct?]
    · intro t hK
      exact mem_insert_withRoom (hne t hK) pos
    · exact recentMsgs_withRoom rfl
  | refused hacc => exact h
  | @quiet s e x ρ hx hρ hcall =>
    have hne := ne_of_kept (K := K) (s := s) hdrop
    apply h.unnoticed he
    · intro t hK
      exact Function.update_of_ne (hne t hK) _ _
    · intro t hK
      simp [Ne.symm (hne t hK)]
    · intro t _
      rfl
    · rfl
  | @left s e x ρ chain hx hρ hcall =>
    have hne := ne_of_kept (K := K) (s := s) hdrop
    apply h.unnoticed he
    · intro t hK
      exact Function.update_of_ne (hne t hK) _ _
    · intro t hK
      simp [Obs.socketAct?, Ne.symm (hne t hK)]
    · intro t hK
      exact mem_erase_withRoom (hne t hK)
    · exact recentMsgs_withRoom rfl
  | @delivered s e x ρ m hx hρ hcall =>
    have hne := ne_of_kept (K := K) (s := s) hdrop
    have hroom : x.room ≠ r := hsilent.elsewhere hdrop he hx (by simp [Obs.published?])
    have hout : ∀ t, K t = true → t ∉ (w.room x.room).participants.ids := by
      intro t hK ht
      obtain ⟨y, hy, hyr⟩ := h.inv.member x.room t ht
      exact hroom (hyr.symm.trans ((hsilent.back he t y hy).1 hK))
    apply h.unnoticed he
    · intro t hK
      simp [hne t hK, hout t hK]
    · intro t hK
      simp [Obs.socketAct?, Ne.symm (hne t hK)]
    · intro t _
      rw [room_mk, update_room, if_neg (Ne.symm hroom)]
    · rw [room_mk, update_room, if_neg (Ne.symm hroom)]

/-- Both states take a step of a kept session. -/
private theorem Agree.noticed (h : Agree K r w u) (he : w.step e = some w')
    (he' : u.step e = some u') (hkept : ∀ t, K t = true → u'.sessions t = w'.sessions t)
    (hdropped : ∀ t, K t = false → u'.sessions t = none)
    (hacts : ∀ t, K t = true → socketActs t u'.trace = socketActs t w'.trace)
    (hmember : ∀ t, K t = true →
      (t ∈ (u'.room r).participants.ids ↔ t ∈ (w'.room r).participants.ids))
    (hrecent : (u'.room r).recentMsgs = (w'.room r).recentMsgs) : Agree K r w' u' where
  inv := h.inv.step he
  accepts := by
    intro r'
    rw [step_accepts he', step_accepts he, h.accepts]
  kept := hkept
  dropped := hdropped
  acts := hacts
  member := hmember
  recent := hrecent

private theorem Agree.kept_update (h : Agree K r w u) (s : SessionId) (y : ChatSession)
    (t : SessionId) (hK : K t = true) :
    Function.update u.sessions s (some y) t = Function.update w.sessions s (some y) t := by
  by_cases hts : t = s
  · rw [hts, Function.update_self, Function.update_self]
  · rw [Function.update_of_ne hts, Function.update_of_ne hts, h.kept t hK]

private theorem Agree.dropped_update {s : SessionId} (h : Agree K r w u) (hs : K s = true)
    (y : ChatSession) (t : SessionId) (hK : K t = false) :
    Function.update u.sessions s (some y) t = none := by
  rw [Function.update_of_ne (ne_of_kept hK s hs).symm, h.dropped t hK]

/-- A step of a kept session is possible in both states, and has the same effect on them. -/
private theorem Agree.keep (refused : ServerId → Bool) (h : Agree K r w u) (hsilent : Silent K r w')
    (hkeep : retained K refused e = true) (he : w.step e = some w') :
    ∃ u', u.step e = some u' ∧ Agree K r w' u' := by
  cases step_iff.1 he with
  | @accepted r' s pos storage hacc hnew =>
    have hroom : r' = r := by
      simpa using (hsilent s _ (Function.update_self _ _ _)).1 hkeep
    subst r'
    rw [← h.accepts] at hacc
    have he' : u.step (.acceptDone r s pos storage) = some _ :=
      step_iff.2 (.accepted hacc ((h.kept s hkeep).trans hnew))
    refine ⟨_, he', h.noticed he he' ?_ ?_ ?_ ?_ ?_⟩
    · rw [h.recent]
      exact h.kept_update s _
    · exact h.dropped_update hkeep _
    · intro t hK
      simp [Obs.socketAct?, h.acts t hK]
    · intro t hK
      simp [PointerSet.mem_insert, h.member t hK]
    · simpa using h.recent
  | refused hacc =>
    rw [← h.accepts] at hacc
    exact ⟨u, step_iff.2 (.refused hacc), h⟩
  | @quiet s e x ρ hx hρ hcall =>
    have he' := step_iff.2 (.quiet ((h.kept s hkeep).trans hx) hρ hcall)
    refine ⟨_, he', h.noticed he he' (h.kept_update s _) (h.dropped_update hkeep _) ?_ h.member
      h.recent⟩
    intro t hK
    simp [h.acts t hK]
  | @left s e x ρ chain hx hρ hcall =>
    have hroom : x.room = r := (hsilent.back he s x hx).1 hkeep
    have he' := step_iff.2 (.left ((h.kept s hkeep).trans hx) hρ hcall)
    refine ⟨_, he', h.noticed he he' (h.kept_update s _) (h.dropped_update hkeep _) ?_ ?_ ?_⟩
    · intro t hK
      simp [Obs.socketAct?, h.acts t hK]
    · intro t hK
      simp [PointerSet.mem_erase, hroom, h.member t hK]
    · simpa [hroom] using h.recent
  | @delivered s e x ρ m hx hρ hcall =>
    have hroom : x.room = r := (hsilent.back he s x hx).1 hkeep
    have he' := step_iff.2 (.delivered ((h.kept s hkeep).trans hx) hρ hcall)
    refine ⟨_, he', h.noticed he he' ?_ ?_ ?_ ?_ ?_⟩
    · intro t hK
      simp only [hroom, h.member t hK, h.member s hkeep, h.kept t hK]
    · intro t hK
      have hts : t ≠ s := (ne_of_kept hK s hkeep).symm
      simp [hts, h.dropped t hK]
    · intro t hK
      simp [Obs.socketAct?, h.acts t hK]
    · intro t hK
      simpa [hroom] using h.member t hK
    · simp [hroom, h.recent]

private theorem agree_init (ports : Nat) (K : SessionId → Bool) (r : ServerId) :
    Agree K r (init ports) (init ports) := by
  constructor
  · exact inv_init ports
  · intro r'
    rfl
  · intro t _
    rfl
  · intro t _
    rfl
  · intro t _
    rfl
  · intro t _
    rfl
  · rfl

private theorem silent_relevant {s : SessionId} {x : ChatSession} (hx : w.sessions s = some x) :
    Silent (relevant w s x.room) x.room w := by
  intro t y hy
  constructor
  · intro hK
    simp only [relevant, hy, Option.any_some, Bool.or_eq_true, decide_eq_true_eq,
      Bool.and_eq_true] at hK
    rcases hK with hts | hK
    · rw [hts, hx, Option.some.injEq] at hy
      rw [hy]
    · exact hK.1
  · intro hK hroom
    simp only [relevant, hy, Option.any_some, Bool.or_eq_false_iff, Bool.and_eq_false_iff,
      decide_eq_false_iff_not, not_not] at hK
    rcases hK.2 with hne | hnil
    · exact absurd hroom hne
    · exact hnil

end World

/-- Deleting the events of other rooms, and of the silent sessions of the same room, from a run
leaves a run at whose end the session is what it was: its queue, its outstanding operations,
the bytes it has written, and the replay of its room. -/
theorem rooms_isolated (ports : Nat) (es : List Event) (w : World) (s : SessionId)
    (x : ChatSession) (refused : ServerId → Bool)
    (hrun : (chatServer ports).exec (World.init ports) es = some w)
    (hx : w.sessions s = some x) :
    ∃ w', (chatServer ports).exec (World.init ports)
        (es.filter (retained (relevant w s x.room) refused)) = some w' ∧
      w'.sessions s = some x ∧ wroteBy s w'.trace = wroteBy s w.trace ∧
      (w'.room x.room).recentMsgs = (w.room x.room).recentMsgs := by
  have hfilter := System.exec_filter (M := chatServer ports)
    (R := World.Agree (relevant w s x.room) x.room) (fun u e u' hu he => World.Silent.back hu he)
    (fun u e u' v hR hgood hkeep he => hR.keep refused hgood hkeep he)
    (fun u e u' v hR hgood hdrop he => hR.drop refused hgood hdrop he)
    (World.agree_init ports _ x.room) (World.silent_relevant hx) hrun
  obtain ⟨w', hrun', hagree⟩ := hfilter
  have hs : relevant w s x.room s = true := by simp [relevant]
  refine ⟨w', hrun', (hagree.kept s hs).trans hx, ?_, hagree.recent⟩
  rw [wroteBy, hagree.acts s hs, wroteBy]

/-- Session 7 publishes; session 8 of its room and session 5 of the other one send rubbish. -/
def twoRooms : List Event :=
  [.acceptDone 1 5 0 (.fill _ 0), .acceptDone 0 8 0 (.fill _ 0), .acceptDone 0 7 0 (.fill _ 0),
    .session 8 (.receive 0 [120]), .session 5 (.receive 0 [45, 49, 32, 32]), .acceptFailed 1,
    .session 5 (.readDone 0 .success)] ++ receiveFrame 7 [32, 32, 32, 48] [] ++
    [.session 8 (.writeDone 0 .failure), .session 7 (.transmit 0 3)]

theorem rooms_isolated_twoRooms :
    ∃ w x, (chatServer 2).exec (World.init 2) twoRooms = some w ∧ w.sessions 7 = some x ∧
      ∃ w', (chatServer 2).exec (World.init 2)
          (twoRooms.filter (retained (relevant w 7 x.room) fun _ => false)) = some w' ∧
        w'.sessions 7 = some x ∧ wroteBy 7 w'.trace = wroteBy 7 w.trace ∧
        (w'.room x.room).recentMsgs = (w.room x.room).recentMsgs := by
  have hsome : ((chatServer 2).exec (World.init 2) twoRooms).any
      (fun w => (w.sessions 7).isSome) = true := by decide +kernel
  obtain ⟨w, hrun, hstarted⟩ := exists_eq_some_of_any hsome
  obtain ⟨x, hx⟩ := Option.isSome_iff_exists.1 hstarted
  exact ⟨w, x, hrun, hx, rooms_isolated 2 twoRooms w 7 x (fun _ => false) hrun hx⟩

end BoostLearning.Chat
