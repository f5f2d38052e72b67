import BoostLearning.Tracking.CustomTracking

/-!
# Handler trees

A handler that is created while another one runs takes over its tree identifier. One that is
created outside any invocation keeps the identifier it was initialised with, which is the same for
all of them.
-/

namespace BoostLearning.Tracking

def World.treeId (w : World) (i : Nat) : Option UInt64 :=
  (w.handlers[i]?).map TrackedHandler.treeId

/-- The handlers are numbered one after another, every handler below another one has its tree
identifier, and every thread attributes what is created to the innermost running handler. -/
structure World.Inv (w : World) : Prop where
  next : w.nextHandlerId = UInt64.ofNat (w.handlers.length + 1)
  ids : ∀ i h, w.handlers[i]? = some h → h.handlerId = UInt64.ofNat (i + 1)
  size : w.forest.size = w.handlers.length
  roots : ∀ r, w.forest.IsRoot r → w.treeId r = some 0
  inherited : w.forest.Inherited w.treeId
  nested : ∀ t, (w.threads t).Nested w.handlers

/-- The identifiers are distinct, the tree identifiers tell the trees apart, and creations are
attributed to the innermost running handler. -/
structure World.ToldApart (w : World) : Prop where
  ids : (w.handlers.map TrackedHandler.handlerId).Nodup
  trees : ∀ a b x y, w.handlers[a]? = some x → w.handlers[b]? = some y →
    (x.treeId = y.treeId ↔ w.forest.SameTree a b)
  attributed : ∀ t, (w.threads t).currentHandler =
    (w.threads t).running.bind fun i => w.handlers[i]?

namespace World

variable {w w' : World}

private theorem inv_init : init.Inv where
  next := rfl
  ids := fun i h hi => absurd hi (by simp [init])
  size := rfl
  roots := fun r hr => absurd hr.lt_size (Nat.not_lt_zero r)
  inherited := fun b a h => absurd h (by simp [init, Forest.empty])
  nested := fun _ => Thread.nested_init []

private theorem creation_handlers (w : World) (t : ThreadId) (objectType : String)
    (nativeHandle : UInt64)
    (opName : String) :
    ∃ h, (w.creation t objectType nativeHandle opName).handlers = w.handlers ++ [h] ∧
      h.handlerId = w.nextHandlerId ∧
      h.treeId = ((w.threads t).currentHandler.map TrackedHandler.treeId).getD 0 := by
  refine ⟨_, rfl, ?_, ?_⟩
  · cases (w.threads t).currentHandler <;> rfl
  · cases (w.threads t).currentHandler <;> rfl

private theorem creation_treeId (w : World) (t : ThreadId) (objectType : String)
    (nativeHandle : UInt64)
    (opName : String) :
    (∀ i, i < w.handlers.length →
      (w.creation t objectType nativeHandle opName).treeId i = w.treeId i) ∧
    (w.creation t objectType nativeHandle opName).treeId w.handlers.length =
      some (((w.threads t).currentHandler.map TrackedHandler.treeId).getD 0) := by
  obtain ⟨h, hhandlers, -, htree⟩ := w.creation_handlers t objectType nativeHandle opName
  constructor
  · intro i hi
    rw [treeId, hhandlers, List.getElem?_append_left hi, treeId]
  · rw [treeId, hhandlers, List.getElem?_concat_length, Option.map_some, htree]

private theorem Inv.creation (hw : w.Inv) (t : ThreadId) (objectType : String)
    (nativeHandle : UInt64)
    (opName : String) : (w.creation t objectType nativeHandle opName).Inv := by
  obtain ⟨h, hhandlers, hid, -⟩ := w.creation_handlers t objectType nativeHandle opName
  obtain ⟨hold, hnew⟩ := w.creation_treeId t objectType nativeHandle opName
  have hcases := (hw.nested t).currentHandler_cases
  constructor
  · rw [hhandlers, List.length_append, List.length_singleton, UInt64.ofNat_add, ← hw.next]
    rfl
  · intro i h' hi
    rw [hhandlers, List.getElem?_append] at hi
    split at hi
    · exact hw.ids i h' hi
    · rename_i hge
      obtain ⟨hlt, heq⟩ := List.getElem?_eq_some_iff.1 hi
      rw [List.length_singleton] at hlt
      rw [List.getElem_singleton] at heq
      rw [← heq, hid, hw.next, show i = w.handlers.length by omega]
  · rw [hhandlers, List.length_append, List.length_singleton, ← hw.size]
    exact Forest.grow_size w.forest _
  · intro r hr
    obtain hr | ⟨rfl, hnone⟩ := Forest.grow_parents hr
    · rw [hold r (hw.size ▸ Forest.IsRoot.lt_size hr)]
      exact hw.roots r hr
    · rw [hw.size, hnew]
      obtain ⟨-, hcurrent⟩ | ⟨i, h', hrunning, hi, -⟩ := hcases
      · rw [hcurrent]
        rfl
      · have hlt : i < w.forest.size := hw.size ▸ (List.getElem?_eq_some_iff.1 hi).1
        rw [hrunning, Option.filter_some, if_pos (decide_eq_true hlt)] at hnone
        exact absurd hnone (by simp)
  · intro b a hb
    obtain hb | ⟨rfl, hsome⟩ := Forest.grow_parents hb
    · have hlt : b < w.handlers.length := hw.size ▸ (List.getElem?_eq_some_iff.1 hb).1
      rw [hold b hlt, hold a (Nat.lt_trans (w.forest.older b a hb) hlt)]
      exact hw.inherited b a hb
    · obtain ⟨hrunning, ha⟩ : (w.threads t).running = some a ∧ a < w.forest.size := by
        simpa using hsome.symm
      rw [hw.size, hnew, hold a (hw.size ▸ ha)]
      obtain ⟨hnone, -⟩ | ⟨i, h', hrunning', hi, hcurrent⟩ := hcases
      · rw [hnone] at hrunning
        exact absurd hrunning (by simp)
      · rw [hrunning'] at hrunning
        obtain rfl := Option.some.inj hrunning
        rw [hcurrent, treeId, hi]
        rfl
  · intro t'
    rw [hhandlers]
    exact (hw.nested t').append h

private theorem Inv.thread (hw : w.Inv) {t : ThreadId} {x : Thread} (hx : x.Nested w.handlers) :
    Inv { w with threads := Function.update w.threads t x } where
  next := hw.next
  ids := hw.ids
  size := hw.size
  roots := hw.roots
  inherited := hw.inherited
  nested := by
    intro t'
    change (Function.update w.threads t x t').Nested w.handlers
    by_cases ht : t' = t
    · subst ht
      rw [Function.update_self]
      exact hx
    · rw [Function.update_of_ne ht]
      exact hw.nested t'

private theorem Inv.print (hw : w.Inv) {t : ThreadId} {report : TrackedHandler → Report}
    (hp : w.print t report = some w') : w'.Inv := by
  simp only [World.print] at hp
  split at hp
  · exact absurd hp (by simp)
  · obtain ⟨c, -, rfl⟩ := Option.map_eq_some_iff.1 hp
    exact ⟨hw.next, hw.ids, hw.size, hw.roots, hw.inherited, hw.nested⟩

theorem Inv.step {e : Event} (hw : w.Inv) (he : w.step e = some w') : w'.Inv := by
  cases e with
  | creation t objectType nativeHandle opName =>
    obtain rfl := Option.some.inj he
    exact hw.creation t objectType nativeHandle opName
  | completion t p i =>
    simp only [World.step] at he
    split at he
    · exact absurd he (by simp)
    · rename_i hp
      obtain ⟨h, hi, rfl⟩ := Option.map_eq_some_iff.1 he
      exact hw.thread ((hw.nested t).construct hp hi)
  | invocationBegin t => exact hw.print (show w.invocationBegin t = some w' from he)
  | invocationEnd t => exact hw.print (show w.invocationEnd t = some w' from he)
  | destroy t =>
    obtain ⟨x, hx, rfl⟩ := Option.map_eq_some_iff.1 he
    exact hw.thread ((hw.nested t).destroy hx)

theorem inv_reachable (h : customTracking.Reachable w) : w.Inv := by
  apply System.reachable_induction (M := customTracking) (P := Inv) inv_init _ h
  intro w e w' _ hw he
  exact hw.step he

private theorem Inv.ids_nodup (hw : w.Inv) (hlen : w.handlers.length < UInt64.size) :
    (w.handlers.map TrackedHandler.handlerId).Nodup := by
  rw [List.Nodup, List.pairwise_iff_getElem]
  intro i j hi hj hij heq
  rw [List.length_map] at hi hj
  rw [List.getElem_map, List.getElem_map, hw.ids i _ (List.getElem?_eq_getElem hi),
    hw.ids j _ (List.getElem?_eq_getElem hj)] at heq
  have hnat := congrArg UInt64.toNat heq
  have hsize : UInt64.size = 18446744073709551616 := rfl
  rw [UInt64.toNat_ofNat', UInt64.toNat_ofNat'] at hnat
  omega

private theorem Inv.attributed (hw : w.Inv) (t : ThreadId) :
    (w.threads t).currentHandler = (w.threads t).running.bind fun i => w.handlers[i]? := by
  obtain ⟨hnone, hcurrent⟩ | ⟨i, h, hrunning, hi, hcurrent⟩ := (hw.nested t).currentHandler_cases
  · rw [hnone, hcurrent, Option.bind_none]
  · rw [hrunning, hcurrent, Option.bind_some, hi]

/-- The tree identifiers tell the trees apart as long as there is one tree. -/
private theorem Inv.trees_iff (hw : w.Inv) :
    (∀ a b x y, w.handlers[a]? = some x → w.handlers[b]? = some y →
      (x.treeId = y.treeId ↔ w.forest.SameTree a b)) ↔ w.forest.SingleTree := by
  rw [← hw.inherited.tell_apart_iff hw.roots, hw.size]
  constructor
  · intro h a b ha hb
    have hiff := h a b _ _ (List.getElem?_eq_getElem ha) (List.getElem?_eq_getElem hb)
    simpa [treeId, List.getElem?_eq_getElem ha, List.getElem?_eq_getElem hb] using hiff
  · intro h a b x y hx hy
    have hiff := h a b (List.getElem?_eq_some_iff.1 hx).1 (List.getElem?_eq_some_iff.1 hy).1
    simpa [treeId, hx, hy] using hiff

end World

/-- In a run of less than `UInt64.size` creations the handlers are told apart exactly when no two of
them were created outside any invocation. -/
theorem toldApart_iff {w : World} (hw : customTracking.Reachable w)
    (hlen : w.handlers.length < UInt64.size) : w.ToldApart ↔ w.forest.SingleTree := by
  have hinv := World.inv_reachable hw
  constructor
  · intro h
    exact hinv.trees_iff.1 h.trees
  · intro h
    exact ⟨hinv.ids_nodup hlen, hinv.trees_iff.2 h, hinv.attributed⟩

/-- A handler that creates another one, which runs inside of it and creates a third one, before
the first one goes on and creates a fourth one. -/
def nestedInvocations : List Event :=
  [.creation 0 "socket" 3 "async_connect", .completion 0 100 0, .invocationBegin 0,
    .creation 0 "socket" 3 "async_read", .completion 0 200 1, .invocationBegin 0,
    .creation 0 "socket" 3 "async_write", .invocationEnd 0, .destroy 0,
    .creation 0 "socket" 3 "async_wait", .invocationEnd 0, .destroy 0]

theorem toldApart_iff_nestedInvocations :
    (customTracking.final nestedInvocations).forest.parents = [none, some 0, some 1, some 0] ∧
      (customTracking.final nestedInvocations).ToldApart := by
  have hparents : (customTracking.final nestedInvocations).forest.parents =
      [none, some 0, some 1, some 0] := by decide +kernel
  have hsingle : (customTracking.final nestedInvocations).forest.SingleTree := by
    have hroot : ∀ r, (customTracking.final nestedInvocations).forest.IsRoot r → r = 0 := by
      intro r hr
      have hlt := hr.lt_size
      rw [Forest.IsRoot, hparents] at hr
      rw [Forest.size, hparents] at hlt
      revert hr
      revert r
      decide
    intro r r' hr hr'
    rw [hroot r hr, hroot r' hr']
  exact ⟨hparents, (toldApart_iff (System.reachable_final _ nestedInvocations)
    (by decide +kernel)).2 hsingle⟩

/-- Two handlers are created outside any invocation. -/
def twoTrees : List Event :=
  [.creation 0 "acceptor" 3 "async_accept", .creation 0 "signal_set" 0 "async_wait"]

/-- Both trees are tree 0. -/
theorem not_toldApart_twoTrees :
    (customTracking.final twoTrees).handlers.length < UInt64.size ∧
      (customTracking.final twoTrees).handlers.map TrackedHandler.treeId = [0, 0] ∧
      ¬ (customTracking.final twoTrees).ToldApart := by
  have hparents : (customTracking.final twoTrees).forest.parents = [none, none] := by
    decide +kernel
  have hhandlers : (customTracking.final twoTrees).handlers =
      [⟨1, 0, "acceptor", 3⟩, ⟨2, 0, "signal_set", 0⟩] := by decide +kernel
  refine ⟨by rw [hhandlers]; decide, by rw [hhandlers]; rfl, ?_⟩
  intro h
  have hsame : (customTracking.final twoTrees).forest.SameTree 0 1 :=
    (h.trees 0 1 ⟨1, 0, "acceptor", 3⟩ ⟨2, 0, "signal_set", 0⟩ (by rw [hhandlers]; rfl)
      (by rw [hhandlers]; rfl)).1 rfl
  have heq : 0 = 1 := Forest.eq_of_sameTree (by rw [Forest.IsRoot, hparents]; rfl)
    (by rw [Forest.IsRoot, hparents]; rfl) hsame
  exact absurd heq (by decide)

end BoostLearning.Tracking
