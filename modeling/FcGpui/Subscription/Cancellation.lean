import FcGpui.Subscription.SubscriberSet

/-!
# Dropped subscriptions

A subscription is documented to be cancelled when it is dropped.  A drop made
while a pass holds the subscriber relies on two things: the emitter is still
taken out of the map, so that the drop is marked, and the mark is still there
when the pass puts its subscribers back.  Neither is assured.  A callback that
inserts a subscriber for the same emitter puts the emitter back into the map,
and then a drop finds nothing to remove and marks nothing; a pass nested in
another takes every mark when it ends, also those of the outer pass.

`Respected` says at each step that neither happens, and `Cancelled` is the
invariant: a dropped id is in no entry of the map, and a pass that holds it will
find it marked.  `dropped_not_called` follows for every run whose steps are
respected.  `dropped_called_again` is a run where an insertion gets in between.
-/

namespace FcGpui

variable {K C : Type} [DecidableEq K]

/-! ### What is in the map -/

namespace SubscriberSetState

theorem entries_set_self (s : SubscriberSetState K C) (k : K)
    (entry : Option (Option (OrdMap Nat C))) :
    (s.set k entry).entries k = (entry.bind id).getD [] := by
  show ((Function.update s.subscribers k entry k).bind id).getD [] = _
  rw [Function.update_self]

theorem entries_set_of_ne (s : SubscriberSetState K C) {k j : K} (h : j ≠ k)
    (entry : Option (Option (OrdMap Nat C))) : (s.set k entry).entries j = s.entries j := by
  show ((Function.update s.subscribers k entry j).bind id).getD [] = _
  rw [Function.update_of_ne h]
  rfl

theorem entryOf_entries (m : OrdMap Nat C) : ((entryOf m).bind id).getD [] = m := by
  cases m with
  | nil => rfl
  | cons e m => rfl

theorem mem_entries_insert (s : SubscriberSetState K C) (k j : K) (c : C) (i : Nat) :
    i ∈ ((s.insert k c).2.entries j).keys ↔
      (j = k ∧ i = s.nextSubscriberId) ∨ i ∈ (s.entries j).keys := by
  by_cases h : j = k
  · subst h
    rw [insert, entries_set_self, Option.bind_some, id, Option.getD_some, OrdMap.mem_keys_insert]
    exact or_congr_left ⟨fun h => ⟨rfl, h⟩, fun h => h.2⟩
  · rw [insert, entries_set_of_ne _ h]
    exact ⟨fun hi => Or.inr hi, fun hi => hi.resolve_left fun e => h e.1⟩

theorem mem_entries_unsubscribe (s : SubscriberSetState K C) (k j : K) (id i : Nat) :
    i ∈ ((s.unsubscribe k id).entries j).keys ↔ i ∈ (s.entries j).keys ∧ ¬ (j = k ∧ i = id) := by
  have hnil : s.entries k = [] → i ∈ (s.entries j).keys → ¬ (j = k ∧ i = id) := by
    intro hn hi he
    rw [he.1, hn] at hi
    exact List.not_mem_nil hi
  rw [unsubscribe]
  split
  · rename_i hk
    have hn : s.entries k = [] := by rw [entries, hk]; rfl
    exact ⟨fun hi => ⟨hi, hnil hn hi⟩, fun hi => hi.1⟩
  · rename_i subscribers hk
    have hsubs : s.entries k = subscribers := by rw [entries, hk]; rfl
    by_cases h : j = k
    · subst h
      rw [entries_set_self, entryOf_entries, OrdMap.mem_keys_erase, hsubs]
      exact and_congr_right fun _ => ⟨fun hne he => hne he.2, fun hne he => hne ⟨rfl, he⟩⟩
    · rw [entries_set_of_ne _ h]
      exact ⟨fun hi => ⟨hi, fun he => h he.1⟩, fun hi => hi.1⟩
  · rename_i hk
    have hn : s.entries k = [] := by rw [entries, hk]; rfl
    exact ⟨fun hi => ⟨hi, hnil hn hi⟩, fun hi => hi.1⟩

theorem mem_entries_putBack_self (s : SubscriberSetState K C) (k : K) (m : OrdMap Nat C) (i : Nat) :
    i ∈ ((s.putBack k m).entries k).keys ↔
      (i ∈ m.keys ∨ i ∈ (s.entries k).keys) ∧ i ∉ s.droppedSubscribers.image Prod.snd := by
  have he : (s.putBack k m).entries k = (m.extend (s.entries k)).filter
      fun e => e.1 ∉ s.droppedSubscribers.image Prod.snd := by
    rw [putBack]
    exact (entries_set_self _ _ _).trans (entryOf_entries _)
  rw [he, ← OrdMap.mem_keys_extend, OrdMap.keys, OrdMap.keys, List.mem_map, List.mem_map]
  constructor
  · intro h
    obtain ⟨e, he, rfl⟩ := h
    obtain ⟨he, hd⟩ := List.mem_filter.mp he
    exact ⟨⟨e, he, rfl⟩, of_decide_eq_true hd⟩
  · intro h
    obtain ⟨⟨e, he, rfl⟩, hd⟩ := h
    exact ⟨e, List.mem_filter.mpr ⟨he, decide_eq_true hd⟩, rfl⟩

theorem entries_putBack_of_ne (s : SubscriberSetState K C) {k j : K} (h : j ≠ k)
    (m : OrdMap Nat C) : (s.putBack k m).entries j = s.entries j :=
  entries_set_of_ne s h _

end SubscriberSetState

namespace SubscriberSet

/-! ### The invariant -/

/-- What a step has to respect.  A drop of a subscriber that a pass holds finds
its emitter taken out of the map; a pass that ends takes no mark of a subscriber
that another pass holds. -/
def Respected (s : SubscriberSet K C) : Act K C → Prop
  | .drop id => (∃ p ∈ s.passes, id ∈ p.held) →
      ∀ k ∈ s.subscriptions id, s.state.subscribers k = some none
  | .endRetain => ∀ d ∈ s.state.droppedSubscribers, ∀ q ∈ s.passes.tail, d.2 ∉ q.held
  | _ => True

instance [DecidableEq C] (s : SubscriberSet K C) : ∀ a, Decidable (s.Respected a)
  | .drop id => inferInstanceAs (Decidable ((∃ p ∈ s.passes, id ∈ p.held) →
      ∀ k ∈ s.subscriptions id, s.state.subscribers k = some none))
  | .endRetain => inferInstanceAs (Decidable (∀ d ∈ s.state.droppedSubscribers,
      ∀ q ∈ s.passes.tail, d.2 ∉ q.held))
  | .insert _ _ | .activate _ | .detach _ | .remove _ | .beginRetain _ | .visit | .return _ _ =>
    isTrue trivial

structure Cancelled (s : SubscriberSet K C) : Prop where
  /-- Ids are handed out in turn. -/
  entries_lt : ∀ k, ∀ i ∈ (s.state.entries k).keys, i < s.state.nextSubscriberId
  held_lt : ∀ p ∈ s.passes, ∀ i ∈ p.held, i < s.state.nextSubscriberId
  dropped_lt : ∀ i ∈ s.dropped, i < s.state.nextSubscriberId
  subscribed_lt : ∀ i j, s.subscriptions i = some j → i < s.state.nextSubscriberId
  /-- A subscriber is found under the emitter its subscription names. -/
  entries_keyed : ∀ k, ∀ i ∈ (s.state.entries k).keys, ∀ j, s.subscriptions i = some j → j = k
  held_keyed : ∀ p ∈ s.passes, ∀ i ∈ p.held, ∀ j, s.subscriptions i = some j → j = p.emitter
  gone : ∀ i ∈ s.dropped, ∀ k, i ∉ (s.state.entries k).keys
  marked : ∀ p ∈ s.passes, ∀ i ∈ p.held, i ∈ s.dropped →
    i ∈ s.state.droppedSubscribers.image Prod.snd
  before : ∀ p ∈ s.passes, ∀ i ∈ p.held, i ∉ p.droppedBefore
  calls : ∀ c ∈ s.calls, c.id ∉ c.droppedBefore

omit [DecidableEq K] in
theorem cancelled_new : (new : SubscriberSet K C).Cancelled where
  entries_lt _ _ hi := absurd hi List.not_mem_nil
  held_lt _ hp := absurd hp List.not_mem_nil
  dropped_lt i hi := absurd hi (Finset.notMem_empty i)
  subscribed_lt _ _ h := absurd h (by simp [new])
  entries_keyed _ _ hi := absurd hi List.not_mem_nil
  held_keyed _ hp := absurd hp List.not_mem_nil
  gone i hi := absurd hi (Finset.notMem_empty i)
  marked _ hp := absurd hp List.not_mem_nil
  before _ hp := absurd hp List.not_mem_nil
  calls _ hc := absurd hc List.not_mem_nil

/-! ### The clients -/

variable {s s' : SubscriberSet K C} {k : K}

theorem Cancelled.insert (h : s.Cancelled) (k : K) (c : C) :
    Cancelled { s with
      state := (s.state.insert k c).2
      active := Function.update s.active (s.state.insert k c).1 false
      subscriptions := Function.update s.subscriptions (s.state.insert k c).1 (some k) } where
  entries_lt j i hi := by
    rcases (SubscriberSetState.mem_entries_insert s.state k j c i).mp hi with ⟨-, rfl⟩ | hi
    · exact Nat.lt_succ_self _
    · exact Nat.lt_succ_of_lt (h.entries_lt j i hi)
  held_lt p hp i hi := Nat.lt_succ_of_lt (h.held_lt p hp i hi)
  dropped_lt i hi := Nat.lt_succ_of_lt (h.dropped_lt i hi)
  subscribed_lt i j hj := by
    by_cases he : i = s.state.nextSubscriberId
    · rw [he]; exact Nat.lt_succ_self _
    · have hne : i ≠ (s.state.insert k c).1 := he
      exact Nat.lt_succ_of_lt
        (h.subscribed_lt i j ((Function.update_of_ne hne _ s.subscriptions).symm.trans hj))
  entries_keyed j i hi l hl := by
    rcases (SubscriberSetState.mem_entries_insert s.state k j c i).mp hi with ⟨rfl, rfl⟩ | hi
    · have hjl : some j = some l := (Function.update_self _ _ s.subscriptions).symm.trans hl
      exact (Option.some.inj hjl).symm
    · have hne : i ≠ (s.state.insert k c).1 := (h.entries_lt j i hi).ne
      exact h.entries_keyed j i hi l ((Function.update_of_ne hne _ s.subscriptions).symm.trans hl)
  held_keyed p hp i hi l hl := by
    have hne : i ≠ (s.state.insert k c).1 := (h.held_lt p hp i hi).ne
    exact h.held_keyed p hp i hi l ((Function.update_of_ne hne _ s.subscriptions).symm.trans hl)
  gone i hi j hj := by
    rcases (SubscriberSetState.mem_entries_insert s.state k j c i).mp hj with ⟨-, rfl⟩ | hj
    · exact absurd (h.dropped_lt _ hi) (lt_irrefl _)
    · exact h.gone i hi j hj
  marked := h.marked
  before := h.before
  calls := h.calls

omit [DecidableEq K] in
/-- A subscription that was not forgotten is as it was. -/
theorem subscribed_of_forget {f : Nat → Option K} {id i : Nat}
    (h : Function.update f id none i = some k) : f i = some k := by
  by_cases he : i = id
  · subst he
    rw [Function.update_self] at h
    exact absurd h (by simp)
  · rwa [Function.update_of_ne he] at h

omit [DecidableEq K] in
/-- A subscription that ends without a drop leaves the set as it is. -/
theorem Cancelled.forget (h : s.Cancelled) (id : Nat) :
    Cancelled { s with subscriptions := Function.update s.subscriptions id none } where
  entries_lt := h.entries_lt
  held_lt := h.held_lt
  dropped_lt := h.dropped_lt
  subscribed_lt i j hj := h.subscribed_lt i j (subscribed_of_forget hj)
  entries_keyed k i hi j hj := h.entries_keyed k i hi j (subscribed_of_forget hj)
  held_keyed p hp i hi j hj := h.held_keyed p hp i hi j (subscribed_of_forget hj)
  gone := h.gone
  marked := h.marked
  before := h.before
  calls := h.calls

theorem nextSubscriberId_unsubscribe (s : SubscriberSetState K C) (k : K) (id : Nat) :
    (s.unsubscribe k id).nextSubscriberId = s.nextSubscriberId := by
  rw [SubscriberSetState.unsubscribe]
  split <;> rfl

theorem droppedSubscribers_unsubscribe (s : SubscriberSetState K C) (k : K) (id : Nat) :
    s.droppedSubscribers ⊆ (s.unsubscribe k id).droppedSubscribers := by
  rw [SubscriberSetState.unsubscribe]
  split
  · exact Finset.Subset.refl _
  · exact Finset.Subset.refl _
  · exact Finset.subset_insert _ _

/-- A drop under the condition removes the subscriber from the map, or marks
it. -/
theorem Cancelled.drop (h : s.Cancelled) {id : Nat}
    (hk : s.subscriptions id = some k) (hr : s.Respected (.drop id)) :
    Cancelled { s with
      state := s.state.unsubscribe k id
      subscriptions := Function.update s.subscriptions id none
      dropped := Insert.insert id s.dropped } := by
  have hf := h.forget id
  have hmem := SubscriberSetState.mem_entries_unsubscribe s.state k
  have hnext := nextSubscriberId_unsubscribe s.state k id
  refine ⟨fun j i hi => ?_, fun p hp i hi => ?_, fun i hi => ?_, fun i j hj => ?_,
    fun j i hi => ?_, hf.held_keyed,
    fun i hi j hj => ?_, fun p hp i hi hd => ?_, h.before, h.calls⟩
  · show i < (s.state.unsubscribe k id).nextSubscriberId
    rw [hnext]
    exact h.entries_lt j i ((hmem j id i).mp hi).1
  · show i < (s.state.unsubscribe k id).nextSubscriberId
    rw [hnext]
    exact h.held_lt p hp i hi
  · show i < (s.state.unsubscribe k id).nextSubscriberId
    rw [hnext]
    rcases Finset.mem_insert.mp hi with rfl | hi
    · exact h.subscribed_lt i k hk
    · exact h.dropped_lt i hi
  · show i < (s.state.unsubscribe k id).nextSubscriberId
    rw [hnext]
    exact hf.subscribed_lt i j hj
  · exact hf.entries_keyed j i ((hmem j id i).mp hi).1
  · obtain ⟨hold, hne⟩ := (hmem j id i).mp hj
    rcases Finset.mem_insert.mp hi with rfl | hi
    · exact hne ⟨(h.entries_keyed j i hold k hk).symm, rfl⟩
    · exact h.gone i hi j hold
  · have hsub := Finset.image_subset_image (f := Prod.snd)
      (droppedSubscribers_unsubscribe s.state k id)
    rcases Finset.mem_insert.mp hd with rfl | hd
    · have hnone := hr ⟨p, hp, hi⟩ k hk
      show i ∈ (s.state.unsubscribe k i).droppedSubscribers.image Prod.snd
      rw [SubscriberSetState.unsubscribe, hnone]
      exact Finset.mem_image.mpr ⟨(k, i), Finset.mem_insert_self _ _, rfl⟩
    · exact hsub (h.marked p hp i hi hd)

theorem Cancelled.remove (h : s.Cancelled) (k : K) : Cancelled { s with state := (s.state.remove k).2 } := by
  have hmem : ∀ j i, i ∈ ((s.state.remove k).2.entries j).keys → i ∈ (s.state.entries j).keys := by
    intro j i hi
    by_cases hj : j = k
    · subst hj
      rw [SubscriberSetState.remove, SubscriberSetState.entries_set_self] at hi
      exact absurd hi List.not_mem_nil
    · rwa [SubscriberSetState.remove, SubscriberSetState.entries_set_of_ne _ hj] at hi
  exact ⟨fun j i hi => h.entries_lt j i (hmem j i hi), h.held_lt, h.dropped_lt, h.subscribed_lt,
    fun j i hi => h.entries_keyed j i (hmem j i hi), h.held_keyed,
    fun i hi j hj => h.gone i hi j (hmem j i hj), h.marked, h.before, h.calls⟩

/-! ### A pass -/

/-- The subscribers a new pass holds were in the map, so none of them has been
dropped. -/
theorem Cancelled.beginRetain (h : s.Cancelled)
    {subscribers : OrdMap Nat C} (hk : s.state.subscribers k = some (some subscribers)) :
    Cancelled { s with
      state := s.state.set k (some none)
      passes := ⟨k, [], none, subscribers, s.dropped⟩ :: s.passes } := by
  have hsubs : s.state.entries k = subscribers := by
    rw [SubscriberSetState.entries, hk]
    rfl
  have hheld : ∀ i ∈ (⟨k, [], none, subscribers, s.dropped⟩ : Pass K C).held,
      i ∈ (s.state.entries k).keys := by
    intro i hi
    rw [hsubs]
    exact hi
  have hmem : ∀ j i, i ∈ ((s.state.set k (some none)).entries j).keys →
      i ∈ (s.state.entries j).keys := by
    intro j i hi
    by_cases hj : j = k
    · subst hj
      rw [SubscriberSetState.entries_set_self] at hi
      exact absurd hi List.not_mem_nil
    · rwa [SubscriberSetState.entries_set_of_ne _ hj] at hi
  refine ⟨fun j i hi => h.entries_lt j i (hmem j i hi), fun p hp i hi => ?_, h.dropped_lt,
    h.subscribed_lt, fun j i hi => h.entries_keyed j i (hmem j i hi), fun p hp i hi => ?_,
    fun i hi j hj => h.gone i hi j (hmem j i hj), fun p hp i hi hd => ?_, fun p hp i hi => ?_,
    h.calls⟩
  · rcases List.mem_cons.mp hp with rfl | hp
    · exact h.entries_lt k i (hheld i hi)
    · exact h.held_lt p hp i hi
  · rcases List.mem_cons.mp hp with rfl | hp
    · exact h.entries_keyed k i (hheld i hi)
    · exact h.held_keyed p hp i hi
  · rcases List.mem_cons.mp hp with rfl | hp
    · exact absurd (hheld i hi) (h.gone i hd k)
    · exact h.marked p hp i hi hd
  · rcases List.mem_cons.mp hp with rfl | hp
    · exact fun hd => h.gone i hd k (hheld i hi)
    · exact h.before p hp i hi

omit [DecidableEq K] in
/-- A pass that goes on holds no more than before, and the callback it invokes
is one it holds. -/
theorem Cancelled.advance (h : s.Cancelled) {p : Pass K C}
    {rest : List (Pass K C)} (hp : s.passes = p :: rest) (p' : Pass K C)
    (he : p'.emitter = p.emitter) (hb : p'.droppedBefore = p.droppedBefore)
    (hheld : ∀ i ∈ p'.held, i ∈ p.held) (calls : List Call) (hc : ∀ c ∈ calls, c.id ∈ p.held ∧ c.droppedBefore = p.droppedBefore) :
    Cancelled { s with passes := p' :: rest, calls := s.calls ++ calls } := by
  have htop : p ∈ s.passes := by rw [hp]; exact List.mem_cons_self
  have hrest : ∀ q ∈ rest, q ∈ s.passes := by
    intro q hq
    rw [hp]
    exact List.mem_cons_of_mem _ hq
  refine ⟨h.entries_lt, fun q hq i hi => ?_, h.dropped_lt, h.subscribed_lt, h.entries_keyed,
    fun q hq i hi => ?_, h.gone, fun q hq i hi hd => ?_, fun q hq i hi => ?_, fun c hc' => ?_⟩
  · rcases List.mem_cons.mp hq with rfl | hq
    · exact h.held_lt p htop i (hheld i hi)
    · exact h.held_lt q (hrest q hq) i hi
  · rcases List.mem_cons.mp hq with rfl | hq
    · rw [he]; exact h.held_keyed p htop i (hheld i hi)
    · exact h.held_keyed q (hrest q hq) i hi
  · rcases List.mem_cons.mp hq with rfl | hq
    · exact h.marked p htop i (hheld i hi) hd
    · exact h.marked q (hrest q hq) i hi hd
  · rcases List.mem_cons.mp hq with rfl | hq
    · rw [hb]; exact h.before p htop i (hheld i hi)
    · exact h.before q (hrest q hq) i hi
  · rcases List.mem_append.mp hc' with hold | hnew
    · exact h.calls c hold
    · obtain ⟨hid, hbefore⟩ := hc c hnew
      rw [hbefore]
      exact h.before p htop _ hid

/-- A pass that ends puts back nothing that was dropped, and takes no mark
another pass needs. -/
theorem Cancelled.endRetain (h : s.Cancelled) {p : Pass K C}
    {rest : List (Pass K C)} (hp : s.passes = p :: rest) (hr : s.Respected .endRetain) :
    Cancelled { s with state := s.state.putBack p.emitter p.kept, passes := rest } := by
  have htop : p ∈ s.passes := by rw [hp]; exact List.mem_cons_self
  have hrest : ∀ q ∈ rest, q ∈ s.passes := by
    intro q hq
    rw [hp]
    exact List.mem_cons_of_mem _ hq
  have hkept : ∀ i ∈ p.kept.keys, i ∈ p.held := fun i hi =>
    List.mem_append_left _ (List.mem_append_left _ hi)
  have hmem : ∀ j i, i ∈ ((s.state.putBack p.emitter p.kept).entries j).keys →
      i ∈ (s.state.entries j).keys ∨ (j = p.emitter ∧ i ∈ p.held ∧
        i ∉ s.state.droppedSubscribers.image Prod.snd) := by
    intro j i hi
    by_cases hj : j = p.emitter
    · subst hj
      obtain ⟨hi, hd⟩ := (SubscriberSetState.mem_entries_putBack_self s.state _ p.kept i).mp hi
      rcases hi with hi | hi
      · exact Or.inr ⟨rfl, hkept i hi, hd⟩
      · exact Or.inl hi
    · rw [SubscriberSetState.entries_putBack_of_ne _ hj] at hi
      exact Or.inl hi
  refine ⟨fun j i hi => ?_, fun q hq => h.held_lt q (hrest q hq), h.dropped_lt, h.subscribed_lt,
    fun j i hi => ?_, fun q hq => h.held_keyed q (hrest q hq), fun i hi j hj => ?_,
    fun q hq i hi hd => ?_, fun q hq => h.before q (hrest q hq), h.calls⟩
  · rcases hmem j i hi with hi | ⟨-, hi, -⟩
    · exact h.entries_lt j i hi
    · exact h.held_lt p htop i hi
  · rcases hmem j i hi with hi | ⟨rfl, hi, -⟩
    · exact h.entries_keyed j i hi
    · exact h.held_keyed p htop i hi
  · rcases hmem j i hj with hj | ⟨-, hj, hd⟩
    · exact h.gone i hi j hj
    · exact hd (h.marked p htop i hj hi)
  · obtain ⟨d, hdm, rfl⟩ := Finset.mem_image.mp (h.marked q (hrest q hq) i hi hd)
    exact absurd hi (hr d hdm q (by rw [hp]; exact hq))

/-! ### Whole runs -/

theorem Cancelled.visit (h : s.Cancelled) (hs : s.step .visit = some s') : s'.Cancelled := by
  obtain ⟨p, p', rest, called, hp, hnext, rfl⟩ := step_visit_next hs
  refine h.advance hp p' hnext.emitter hnext.droppedBefore hnext.held.subset _ fun c hc => ?_
  obtain ⟨i, hi, rfl⟩ := List.mem_map.mp hc
  exact ⟨hnext.called_held i hi, rfl⟩

theorem Cancelled.return (h : s.Cancelled) {keep : Bool} {callback : C}
    (hs : s.step (.return keep callback) = some s') : s'.Cancelled := by
  obtain ⟨p, p', rest, hp, hnext, rfl⟩ := step_return_next hs
  have hadvanced := h.advance hp p' hnext.emitter hnext.droppedBefore hnext.held.subset []
    fun c hc => absurd hc List.not_mem_nil
  rwa [List.append_nil] at hadvanced

/-- One step under the condition keeps the invariant. -/
theorem Cancelled.step (h : s.Cancelled) {a : Act K C}
    (hr : s.Respected a) (hs : s.step a = some s') : s'.Cancelled := by
  cases a with
  | insert k c =>
    obtain rfl := Option.some.inj hs
    exact h.insert k c
  | activate id =>
    obtain rfl := step_activate hs
    exact ⟨h.entries_lt, h.held_lt, h.dropped_lt, h.subscribed_lt, h.entries_keyed, h.held_keyed,
      h.gone, h.marked, h.before, h.calls⟩
  | drop id =>
    obtain ⟨k, hk, rfl⟩ := step_drop hs
    exact h.drop hk hr
  | detach id =>
    obtain rfl := step_detach hs
    exact h.forget id
  | remove k =>
    obtain rfl := Option.some.inj hs
    exact h.remove k
  | beginRetain k =>
    obtain ⟨subscribers, hk, rfl⟩ | ⟨-, rfl⟩ := step_beginRetain hs
    · exact h.beginRetain hk
    · exact h
  | visit => exact h.visit hs
  | «return» keep callback => exact h.return hs
  | endRetain =>
    obtain ⟨p, rest, hp, -, -, rfl⟩ := step_endRetain hs
    exact h.endRetain hp hr

/-- **A dropped subscription stays cancelled.**  In every run of a new set whose
steps are all respected, no callback is invoked by a pass that began after its
subscription was dropped. -/
theorem dropped_not_called (acts : List (Act K C)) (s : SubscriberSet K C)
    (hr : RunMeets step Respected new acts) (hs : run step new acts = some s) :
    ∀ c ∈ s.calls, c.id ∉ c.droppedBefore :=
  (run_invariant (fun _ _ _ h hr hs => h.step hr hs) acts cancelled_new hr hs).calls

/-- A callback drops the subscription of another subscriber of its emitter,
which the pass still calls, and the next pass does not. -/
def dropInCallback : List (Act Nat Unit) :=
  [.insert 7 (), .insert 7 (), .activate 0, .activate 1, .beginRetain 7, .visit, .drop 1,
    .return true (), .visit, .return true (), .endRetain, .beginRetain 7, .visit,
    .return true (), .endRetain]

theorem dropped_not_called_in_callback : ∃ s : SubscriberSet Nat Unit,
    run step new dropInCallback = some s ∧ ∀ c ∈ s.calls, c.id ∉ c.droppedBefore := by
  cases hs : run step (new : SubscriberSet Nat Unit) dropInCallback with
  | none => exact absurd (congrArg Option.isNone hs) (by decide)
  | some s => exact ⟨s, rfl, dropped_not_called dropInCallback s (by decide) hs⟩

/-- A callback inserts a subscriber for its own emitter and then drops its own
subscription; the next pass calls it again. -/
def insertThenDrop : List (Act Nat Unit) :=
  [.insert 7 (), .activate 0, .beginRetain 7, .visit, .insert 7 (), .drop 0, .return true (),
    .endRetain, .beginRetain 7, .visit]

theorem dropped_called_again : ¬ ∀ (acts : List (Act Nat Unit)) (s : SubscriberSet Nat Unit),
    run step new acts = some s → ∀ c ∈ s.calls, c.id ∉ c.droppedBefore := by
  intro h
  have hcalls : (run step new insertThenDrop).map (fun s => s.calls) = some [⟨0, ∅⟩, ⟨0, {0}⟩] := by
    decide
  obtain ⟨s, hs, hc⟩ := Option.map_eq_some_iff.mp hcalls
  exact h insertThenDrop s hs ⟨0, {0}⟩ (by rw [hc]; decide) (by decide)

end SubscriberSet

end FcGpui
