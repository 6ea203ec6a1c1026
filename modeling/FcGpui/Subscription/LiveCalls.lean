import FcGpui.Lib.Custody
import FcGpui.Subscription.Cancellation

/-!
# Live subscribers are called once

A retain call takes the subscribers of its emitter out of the map and puts them back at
its end, and calls nested in its callbacks do the same with the ones that came in
meanwhile.  `Custody` of `FcGpui.Lib` is the invariant: at any time a subscriber is in
one entry of the map or held by one pass.  `Spared` says what must not be done with a
subscriber for it to stay, and `Kept` that it is still in the entry of its emitter or held
by a pass over it.

`live_called_once`: a subscriber that was activated and spared is called once by every
outermost pass over its emitter, and the pass makes its calls in the order of the ids.
-/

namespace FcGpui

variable {K C : Type} [DecidableEq K]

namespace SubscriberSetState

variable {s : SubscriberSetState K C}

theorem ordered_set (h : ∀ k, (s.entries k).Ordered) {k : K}
    {entry : Option (Option (OrdMap Nat C))} (hk : OrdMap.Ordered ((entry.bind id).getD [])) (j : K) :
    ((s.set k entry).entries j).Ordered := by
  by_cases hj : j = k
  · rw [hj, entries_set_self]
    exact hk
  · rw [entries_set_of_ne s hj]
    exact h j

theorem ordered_insert (h : ∀ k, (s.entries k).Ordered) (k : K) (c : C)
    (j : K) : ((s.insert k c).2.entries j).Ordered := by
  refine ordered_set (s := { s with nextSubscriberId := s.nextSubscriberId + 1 }) h ?_ j
  exact (h k).insert _ c

theorem ordered_unsubscribe (h : ∀ k, (s.entries k).Ordered) (k : K)
    (id : Nat) (j : K) : ((s.unsubscribe k id).entries j).Ordered := by
  unfold unsubscribe
  split
  · exact h j
  · rename_i subscribers hk
    have hsubs : s.entries k = subscribers := by
      rw [entries, hk]
      rfl
    apply ordered_set h
    rw [entryOf_entries, ← hsubs]
    exact (h k).filter _
  · exact h j

theorem ordered_putBack (h : ∀ k, (s.entries k).Ordered) (k : K)
    {m : OrdMap Nat C} (hm : m.Ordered) (j : K) : ((s.putBack k m).entries j).Ordered := by
  refine ordered_set h ?_ j
  rw [entryOf_entries]
  exact (hm.extend _).filter _

end SubscriberSetState

/-! ### What a step does to the passes -/

namespace SubscriberSet

/-- The innermost pass goes on. -/
def Advances (s s' : SubscriberSet K C) (a : Act K C) (called : List Nat) : Prop :=
  ∃ p p' rest calls, s.passes = p :: rest ∧ p.Next s.active a p' called ∧
    s' = { s with passes := p' :: rest, calls := s.calls ++ calls } ∧ calls.map Call.id = called

variable {s s' : SubscriberSet K C} {a : Act K C} {k : K} {p : Pass K C} {rest : List (Pass K C)} {i : Nat}

theorem step_visit (h : s.step .visit = some s') : ∃ called, s.Advances s' .visit called := by
  obtain ⟨p, p', rest, called, hp, hnext, rfl⟩ := step_visit_next h
  exact ⟨called, p, p', rest, _, hp, hnext, rfl, by rw [List.map_map]; exact List.map_id called⟩

theorem step_return {keep : Bool} {c : C}
    (h : s.step (.return keep c) = some s') : s.Advances s' (.return keep c) [] := by
  obtain ⟨p, p', rest, hp, hnext, rfl⟩ := step_return_next h
  exact ⟨p, p', rest, [], hp, hnext, by rw [List.append_nil], rfl⟩

/-- **What a step can do to the passes.** -/
theorem step_passes (h : s.step a = some s') :
    (s'.passes = s.passes ∧ s'.calls = s.calls) ∨
    (∃ k m, a = .beginRetain k ∧ s.state.subscribers k = some (some m) ∧
      s'.passes = ⟨k, [], none, m, s.dropped⟩ :: s.passes ∧ s'.calls = s.calls) ∨
    (∃ called, s.Advances s' a called) ∨
    (∃ p, a = .endRetain ∧ s.passes = p :: s'.passes ∧ p.pending = [] ∧ s'.calls = s.calls) := by
  cases a with
  | insert k c =>
    obtain rfl := Option.some.inj h
    exact Or.inl ⟨rfl, rfl⟩
  | activate id =>
    obtain rfl := step_activate h
    exact Or.inl ⟨rfl, rfl⟩
  | drop id =>
    obtain ⟨k, -, rfl⟩ := step_drop h
    exact Or.inl ⟨rfl, rfl⟩
  | detach id =>
    obtain rfl := step_detach h
    exact Or.inl ⟨rfl, rfl⟩
  | remove k =>
    obtain rfl := Option.some.inj h
    exact Or.inl ⟨rfl, rfl⟩
  | beginRetain k =>
    obtain ⟨m, hk, rfl⟩ | ⟨-, rfl⟩ := step_beginRetain h
    · exact Or.inr (Or.inl ⟨k, m, rfl, hk, rfl, rfl⟩)
    · exact Or.inl ⟨rfl, rfl⟩
  | visit => exact Or.inr (Or.inr (Or.inl (step_visit h)))
  | «return» keep c => exact Or.inr (Or.inr (Or.inl ⟨[], step_return h⟩))
  | endRetain =>
    obtain ⟨p, rest, hp, -, hpending, rfl⟩ := step_endRetain h
    exact Or.inr (Or.inr (Or.inr ⟨p, rfl, hp, hpending, rfl⟩))

/-! ### Every subscriber is in one place -/

/-- What holds in every run, whatever the clients do. -/
structure Placed (s : SubscriberSet K C) : Prop where
  custody : Custody (fun k => (s.state.entries k).keys) (s.passes.map Pass.held) s.state.nextSubscriberId
  subscribed_lt : ∀ i j, s.subscriptions i = some j → i < s.state.nextSubscriberId
  marked_lt : ∀ d ∈ s.state.droppedSubscribers, d.2 < s.state.nextSubscriberId

omit [DecidableEq K] in
theorem Placed.ordered (h : s.Placed) (k : K) : (s.state.entries k).Ordered :=
  h.custody.slots_sorted k

omit [DecidableEq K] in
theorem placed_new : (new : SubscriberSet K C).Placed where
  custody := Custody.empty 0
  subscribed_lt _ _ h := absurd h (by simp [new])
  marked_lt d hd := absurd hd (Finset.notMem_empty d)

theorem Placed.insert (h : s.Placed) (k : K) (c : C) :
    Placed { s with
      state := (s.state.insert k c).2
      active := Function.update s.active (s.state.insert k c).1 false
      subscriptions := Function.update s.subscriptions (s.state.insert k c).1 (some k) } where
  custody := h.custody.add (Nat.lt_succ_self _) (SubscriberSetState.ordered_insert h.ordered k c)
    fun j i => (SubscriberSetState.mem_entries_insert s.state k j c i).mp
  subscribed_lt i j hj := by
    by_cases hi : i = (s.state.insert k c).1
    · rw [hi]
      exact Nat.lt_succ_self _
    · have hj : s.subscriptions i = some j := (Function.update_of_ne hi _ s.subscriptions).symm.trans hj
      exact Nat.lt_succ_of_lt (h.subscribed_lt i j hj)
  marked_lt d hd := Nat.lt_succ_of_lt (h.marked_lt d hd)

theorem Placed.drop (h : s.Placed) {id : Nat} (hk : s.subscriptions id = some k) :
    Placed { s with
      state := s.state.unsubscribe k id
      subscriptions := Function.update s.subscriptions id none
      dropped := Insert.insert id s.dropped } := by
  have hnext := nextSubscriberId_unsubscribe s.state k id
  refine ⟨?_, fun i j hj => ?_, fun d hd => ?_⟩
  · show Custody _ _ (s.state.unsubscribe k id).nextSubscriberId
    rw [hnext]
    exact h.custody.shrink (SubscriberSetState.ordered_unsubscribe h.ordered k id)
      fun j i hi => ((SubscriberSetState.mem_entries_unsubscribe s.state k j id i).mp hi).1
  · show i < (s.state.unsubscribe k id).nextSubscriberId
    rw [hnext]
    exact h.subscribed_lt i j (subscribed_of_forget hj)
  · show d.2 < (s.state.unsubscribe k id).nextSubscriberId
    rw [hnext]
    have hd : d ∈ (s.state.unsubscribe k id).droppedSubscribers := hd
    unfold SubscriberSetState.unsubscribe at hd
    split at hd
    · exact h.marked_lt d hd
    · exact h.marked_lt d hd
    · rcases Finset.mem_insert.mp hd with rfl | hd
      · exact h.subscribed_lt id k hk
      · exact h.marked_lt d hd

theorem Placed.remove (h : s.Placed) (k : K) : Placed { s with state := (s.state.remove k).2 } := by
  refine ⟨h.custody.shrink (SubscriberSetState.ordered_set h.ordered List.Pairwise.nil) ?_,
    h.subscribed_lt, h.marked_lt⟩
  intro j i hi
  by_cases hj : j = k
  · subst hj
    rw [SubscriberSetState.remove, SubscriberSetState.entries_set_self] at hi
    exact absurd hi List.not_mem_nil
  · rwa [SubscriberSetState.remove, SubscriberSetState.entries_set_of_ne _ hj] at hi

theorem Placed.beginRetain (h : s.Placed)
    {subscribers : OrdMap Nat C} (hk : s.state.subscribers k = some (some subscribers)) :
    Placed { s with
      state := s.state.set k (some none)
      passes := ⟨k, [], none, subscribers, s.dropped⟩ :: s.passes } := by
  have hsubs : s.state.entries k = subscribers := by
    rw [SubscriberSetState.entries, hk]
    rfl
  refine ⟨?_, h.subscribed_lt, h.marked_lt⟩
  rw [← hsubs]
  refine h.custody.take ?_ fun j hj => ?_
  · show ((s.state.set k (some none)).entries k).keys = []
    rw [SubscriberSetState.entries_set_self]
    rfl
  · show ((s.state.set k (some none)).entries j).keys = _
    rw [SubscriberSetState.entries_set_of_ne _ hj]

theorem Placed.endRetain (h : s.Placed)
    (hp : s.passes = p :: rest) :
    Placed { s with state := s.state.putBack p.emitter p.kept, passes := rest } := by
  have hcustody := h.custody
  rw [hp] at hcustody
  have hkept : p.kept.keys.Sublist p.held :=
    (List.sublist_append_left _ _).trans (List.sublist_append_left _ _)
  have hordered : p.kept.Ordered := (hcustody.hands_sorted p.held List.mem_cons_self).sublist hkept
  refine ⟨hcustody.put (k := p.emitter)
    (SubscriberSetState.ordered_putBack h.ordered p.emitter hordered) ?_,
    h.subscribed_lt, fun d hd => absurd hd (Finset.notMem_empty d)⟩
  intro j i hi
  by_cases hj : j = p.emitter
  · subst hj
    obtain ⟨hi, -⟩ := (SubscriberSetState.mem_entries_putBack_self s.state _ p.kept i).mp hi
    rcases hi with hi | hi
    · exact Or.inr ⟨rfl, hkept.subset hi⟩
    · exact Or.inl hi
  · have hi : i ∈ ((s.state.putBack p.emitter p.kept).entries j).keys := hi
    rw [SubscriberSetState.entries_putBack_of_ne _ hj] at hi
    exact Or.inl hi

omit [DecidableEq K] in
/-- A pass that goes on holds no more than before. -/
theorem Placed.advances (h : s.Placed) {called : List Nat} (hs : s.Advances s' a called) : s'.Placed := by
  obtain ⟨p, p', rest, calls, hp, hnext, rfl, -⟩ := hs
  have hcustody := h.custody
  rw [hp] at hcustody
  exact ⟨hcustody.shrinkHand hnext.held, h.subscribed_lt, h.marked_lt⟩

theorem Placed.step (h : s.Placed) (hs : s.step a = some s') : s'.Placed := by
  cases a with
  | insert k c =>
    obtain rfl := Option.some.inj hs
    exact h.insert k c
  | activate id =>
    obtain rfl := step_activate hs
    exact ⟨h.custody, h.subscribed_lt, h.marked_lt⟩
  | drop id =>
    obtain ⟨k, hk, rfl⟩ := step_drop hs
    exact h.drop hk
  | detach id =>
    obtain rfl := step_detach hs
    exact ⟨h.custody, fun i j hj => h.subscribed_lt i j (subscribed_of_forget hj), h.marked_lt⟩
  | remove k =>
    obtain rfl := Option.some.inj hs
    exact h.remove k
  | beginRetain k =>
    obtain ⟨subscribers, hk, rfl⟩ | ⟨-, rfl⟩ := step_beginRetain hs
    · exact h.beginRetain hk
    · exact h
  | visit =>
    obtain ⟨called, hs⟩ := step_visit hs
    exact h.advances hs
  | «return» keep c => exact h.advances (step_return hs)
  | endRetain =>
    obtain ⟨p, rest, hp, -, -, rfl⟩ := step_endRetain hs
    exact h.endRetain hp

theorem active_step (hs : s.step a = some s')
    (hi : i < s.state.nextSubscriberId) (hactive : s.active i = true) : s'.active i = true := by
  cases a with
  | insert k c =>
    obtain rfl := Option.some.inj hs
    exact (Function.update_of_ne hi.ne _ s.active).trans hactive
  | activate id =>
    obtain rfl := step_activate hs
    show Function.update s.active id true i = true
    by_cases h : i = id
    · rw [h, Function.update_self]
    · rw [Function.update_of_ne h, hactive]
  | drop id =>
    obtain ⟨k, hk, rfl⟩ := step_drop hs
    exact hactive
  | detach id =>
    obtain rfl := step_detach hs
    exact hactive
  | remove k =>
    obtain rfl := Option.some.inj hs
    exact hactive
  | beginRetain k =>
    obtain ⟨subscribers, -, rfl⟩ | ⟨-, rfl⟩ := step_beginRetain hs
    · exact hactive
    · exact hactive
  | visit =>
    obtain ⟨p, p', rest, called, -, -, rfl⟩ := step_visit_next hs
    exact hactive
  | «return» keep c =>
    obtain ⟨p, p', rest, -, -, rfl⟩ := step_return_next hs
    exact hactive
  | endRetain =>
    obtain ⟨p, rest, -, -, -, rfl⟩ := step_endRetain hs
    exact hactive

theorem nextSubscriberId_step (hs : s.step a = some s') :
    s.state.nextSubscriberId ≤ s'.state.nextSubscriberId := by
  cases a with
  | insert k c =>
    obtain rfl := Option.some.inj hs
    exact Nat.le_succ _
  | activate id =>
    obtain rfl := step_activate hs
    exact Nat.le_refl _
  | drop id =>
    obtain ⟨k, hk, rfl⟩ := step_drop hs
    exact (nextSubscriberId_unsubscribe s.state k id).ge
  | detach id =>
    obtain rfl := step_detach hs
    exact Nat.le_refl _
  | remove k =>
    obtain rfl := Option.some.inj hs
    exact Nat.le_refl _
  | beginRetain k =>
    obtain ⟨subscribers, -, rfl⟩ | ⟨-, rfl⟩ := step_beginRetain hs
    · exact Nat.le_refl _
    · exact Nat.le_refl _
  | visit =>
    obtain ⟨p, p', rest, called, -, -, rfl⟩ := step_visit_next hs
    exact Nat.le_refl _
  | «return» keep c =>
    obtain ⟨p, p', rest, -, -, rfl⟩ := step_return_next hs
    exact Nat.le_refl _
  | endRetain =>
    obtain ⟨p, rest, -, -, -, rfl⟩ := step_endRetain hs
    exact Nat.le_refl _

/-! ### A subscriber that is spared stays -/

/-- The subscriber whose callback is running in the innermost pass. -/
def running (s : SubscriberSet K C) : Option Nat :=
  s.passes.head?.bind fun p => p.running.map Prod.fst

/-- The subscription is not dropped, its emitter is not removed, and the callback does not
answer that it is to be removed. -/
def Spared (k : K) (i : Nat) (s : SubscriberSet K C) : Act K C → Prop
  | .drop id => id ≠ i
  | .remove emitter => emitter ≠ k
  | .return keep _ => keep = false → s.running ≠ some i
  | _ => True

instance (k : K) (i : Nat) (s : SubscriberSet K C) : ∀ a, Decidable (s.Spared k i a)
  | .drop id => inferInstanceAs (Decidable (id ≠ i))
  | .remove emitter => inferInstanceAs (Decidable (emitter ≠ k))
  | .return keep _ => inferInstanceAs (Decidable (keep = false → s.running ≠ some i))
  | .insert _ _ | .activate _ | .detach _ | .beginRetain _ | .visit | .endRetain => isTrue trivial

/-- The subscriber is in the entry of its emitter or held by a pass over it, and it is not
marked. -/
structure Kept (k : K) (i : Nat) (s : SubscriberSet K C) : Prop where
  placed : i ∈ (s.state.entries k).keys ∨ ∃ p ∈ s.passes, p.emitter = k ∧ i ∈ p.held
  unmarked : ∀ d ∈ s.state.droppedSubscribers, d.2 ≠ i

omit [DecidableEq K] in
theorem held_next {p' : Pass K C}
    {called : List Nat} (hp : s.passes = p :: rest) (hnext : p.Next s.active a p' called)
    (hspared : s.Spared k i a) (hi : i ∈ p.held) : i ∈ p'.held := by
  cases hnext with
  | call h => simpa [Pass.held, OrdMap.keys] using hi
  | skip h => simpa [Pass.held, OrdMap.keys] using hi
  | keep => simpa [Pass.held, OrdMap.keys] using hi
  | @discard k kept pending e before c =>
    have hne : e.1 ≠ i := by
      intro he
      apply hspared rfl
      rw [running, hp]
      exact congrArg some he
    have hi : i ∈ kept.keys ∨ i = e.1 ∨ i ∈ pending.keys := by simpa [Pass.held] using hi
    rcases hi with hi | hi | hi
    · simp [Pass.held, hi]
    · exact absurd hi.symm hne
    · simp [Pass.held, hi]

omit [DecidableEq K] in
theorem Kept.advances (h : s.Kept k i)
    {called : List Nat} (hs : s.Advances s' a called) (hspared : s.Spared k i a) : s'.Kept k i := by
  obtain ⟨p, p', rest, calls, hp, hnext, rfl, -⟩ := hs
  refine ⟨?_, h.unmarked⟩
  rcases h.placed with hi | ⟨q, hq, hk, hi⟩
  · exact Or.inl hi
  · rw [hp] at hq
    rcases List.mem_cons.mp hq with rfl | hq
    · exact Or.inr ⟨p', List.mem_cons_self, hnext.emitter.trans hk, held_next hp hnext hspared hi⟩
    · exact Or.inr ⟨q, List.mem_cons_of_mem _ hq, hk, hi⟩

theorem Kept.drop (h : s.Kept k i) {id : Nat} {j : K} (hne : id ≠ i) : Kept k i { s with
      state := s.state.unsubscribe j id
      subscriptions := Function.update s.subscriptions id none
      dropped := Insert.insert id s.dropped } := by
  refine ⟨?_, fun d hd => ?_⟩
  · rcases h.placed with hi | hi
    · refine Or.inl ((SubscriberSetState.mem_entries_unsubscribe s.state j k id i).mpr ⟨hi, ?_⟩)
      exact fun heq => hne heq.2.symm
    · exact Or.inr hi
  · have hd : d ∈ (s.state.unsubscribe j id).droppedSubscribers := hd
    unfold SubscriberSetState.unsubscribe at hd
    split at hd
    · exact h.unmarked d hd
    · exact h.unmarked d hd
    · rcases Finset.mem_insert.mp hd with rfl | hd
      · exact hne
      · exact h.unmarked d hd

theorem Kept.beginRetain (h : s.Kept k i) {j : K}
    {subscribers : OrdMap Nat C} (hj : s.state.subscribers j = some (some subscribers)) :
    Kept k i { s with
      state := s.state.set j (some none)
      passes := ⟨j, [], none, subscribers, s.dropped⟩ :: s.passes } := by
  refine ⟨?_, h.unmarked⟩
  rcases h.placed with hi | ⟨p, hp, hk, hi⟩
  · by_cases hkj : k = j
    · subst hkj
      rw [SubscriberSetState.entries, hj] at hi
      exact Or.inr ⟨_, List.mem_cons_self, rfl, hi⟩
    · left
      show i ∈ ((s.state.set j (some none)).entries k).keys
      rw [SubscriberSetState.entries_set_of_ne _ hkj]
      exact hi
  · exact Or.inr ⟨p, List.mem_cons_of_mem _ hp, hk, hi⟩

theorem Kept.endRetain (h : s.Kept k i) (hp : s.passes = p :: rest) (hrunning : p.running = none)
    (hpending : p.pending = []) :
    Kept k i { s with state := s.state.putBack p.emitter p.kept, passes := rest } := by
  refine ⟨?_, fun d hd => absurd hd (Finset.notMem_empty d)⟩
  have hmark : i ∉ s.state.droppedSubscribers.image Prod.snd := by
    intro hi
    obtain ⟨d, hd, hdi⟩ := Finset.mem_image.mp hi
    exact h.unmarked d hd hdi
  have hmem := SubscriberSetState.mem_entries_putBack_self s.state p.emitter p.kept i
  rcases h.placed with hi | ⟨q, hq, hk, hi⟩
  · left
    by_cases hkp : k = p.emitter
    · subst hkp
      exact hmem.mpr ⟨Or.inr hi, hmark⟩
    · show i ∈ ((s.state.putBack p.emitter p.kept).entries k).keys
      rw [SubscriberSetState.entries_putBack_of_ne _ hkp]
      exact hi
  · rw [hp] at hq
    rcases List.mem_cons.mp hq with rfl | hq
    · left
      have hkept : i ∈ q.kept.keys := by simpa [Pass.held, hrunning, hpending, OrdMap.keys] using hi
      rw [← hk]
      exact hmem.mpr ⟨Or.inl hkept, hmark⟩
    · exact Or.inr ⟨q, hq, hk, hi⟩

theorem Kept.step (h : s.Kept k i) (hspared : s.Spared k i a) (hs : s.step a = some s') : s'.Kept k i := by
  cases a with
  | insert j c =>
    obtain rfl := Option.some.inj hs
    refine ⟨?_, h.unmarked⟩
    rcases h.placed with hi | hi
    · exact Or.inl ((SubscriberSetState.mem_entries_insert s.state j k c i).mpr (Or.inr hi))
    · exact Or.inr hi
  | activate id =>
    obtain rfl := step_activate hs
    exact ⟨h.placed, h.unmarked⟩
  | drop id =>
    obtain ⟨j, -, rfl⟩ := step_drop hs
    exact h.drop hspared
  | detach id =>
    obtain rfl := step_detach hs
    exact ⟨h.placed, h.unmarked⟩
  | remove j =>
    obtain rfl := Option.some.inj hs
    refine ⟨?_, h.unmarked⟩
    rw [SubscriberSetState.remove, SubscriberSetState.entries_set_of_ne _ (Ne.symm hspared)]
    exact h.placed
  | beginRetain j =>
    obtain ⟨subscribers, hj, rfl⟩ | ⟨-, rfl⟩ := step_beginRetain hs
    · exact h.beginRetain hj
    · exact h
  | visit =>
    obtain ⟨called, hs⟩ := step_visit hs
    exact h.advances hs hspared
  | «return» keep c => exact h.advances (step_return hs) hspared
  | endRetain =>
    obtain ⟨p, rest, hp, hrunning, hpending, rfl⟩ := step_endRetain hs
    exact h.endRetain hp hrunning hpending

/-! ### The calls of a pass -/

/-- More passes than a number are under way. -/
def DeeperThan (depth : Nat) (s : SubscriberSet K C) (_ : Act K C) : Prop := depth < s.passes.length

instance (depth : Nat) (s : SubscriberSet K C) (a : Act K C) : Decidable (s.DeeperThan depth a) :=
  inferInstanceAs (Decidable (depth < s.passes.length))

/-- The calls made in a run, each with the number of passes there are when it is made: the
calls of a pass are those made at its own depth. -/
def callLog : SubscriberSet K C → List (Act K C) → List (Nat × Nat)
  | _, [] => []
  | s, a :: acts =>
    match s.step a with
    | none => []
    | some s' => (s'.calls.drop s.calls.length).map (fun c => (s.passes.length, c.id)) ++ callLog s' acts

/-- The subscribers called at a depth. -/
def callsAt (depth : Nat) (s : SubscriberSet K C) (acts : List (Act K C)) : List Nat :=
  ((callLog s acts).filter fun c => c.1 = depth).map Prod.snd

/-- The subscribers called at another depth. -/
def callsOff (depth : Nat) (s : SubscriberSet K C) (acts : List (Act K C)) : List Nat :=
  ((callLog s acts).filter fun c => c.1 ≠ depth).map Prod.snd

theorem callLog_quiet (hs : s.step a = some s')
    (hcalls : s'.calls = s.calls) (acts : List (Act K C)) : callLog s (a :: acts) = callLog s' acts := by
  rw [callLog, hs]
  simp [hcalls]

theorem callLog_advances {called : List Nat}
    (hs : s.step a = some s') (h : s.Advances s' a called) (acts : List (Act K C)) :
    callLog s (a :: acts) = called.map (fun i => (s.passes.length, i)) ++ callLog s' acts := by
  obtain ⟨p, p', rest, calls, hp, hnext, rfl, rfl⟩ := h
  rw [callLog, hs]
  simp [Function.comp_def]

/-- A step made while a pass is under way, with the passes nested in it and those around it:
it is made by a pass nested in it or by no pass, or by the pass itself, or it ends the
pass. -/
theorem step_within {upper : List (Pass K C)} (hp : s.passes = upper ++ p :: rest) (hs : s.step a = some s') :
    (∃ (upper' : List (Pass K C)) (called : List Nat), s'.passes = upper' ++ p :: rest ∧
      (∀ i ∈ called, ∃ q ∈ upper, i ∈ q.held) ∧
      ∀ acts, callLog s (a :: acts) = called.map (fun i => (s.passes.length, i)) ++ callLog s' acts) ∨
    (∃ p' called, upper = [] ∧ s'.passes = p' :: rest ∧ p.Next s.active a p' called ∧
      ∀ acts, callLog s (a :: acts) = called.map (fun i => (s.passes.length, i)) ++ callLog s' acts) ∨
    (upper = [] ∧ s'.passes = rest ∧ p.pending = [] ∧
      ∀ acts, callLog s (a :: acts) = callLog s' acts) := by
  rcases step_passes hs with ⟨hpasses, hcalls⟩ | ⟨k, m, -, -, hpasses, hcalls⟩ | ⟨called, hadv⟩ |
    ⟨q, -, hq, hpending, hcalls⟩
  · exact Or.inl ⟨upper, [], hpasses.trans hp, by simp, callLog_quiet hs hcalls⟩
  · refine Or.inl ⟨⟨k, [], none, m, s.dropped⟩ :: upper, [], ?_, by simp, callLog_quiet hs hcalls⟩
    rw [hpasses, hp]
    rfl
  · have hlog := callLog_advances hs hadv
    obtain ⟨q, q', below, calls, hq, hnext, rfl, -⟩ := hadv
    rw [hp] at hq
    cases upper with
    | nil =>
      obtain ⟨rfl, rfl⟩ := List.cons.inj hq
      exact Or.inr (Or.inl ⟨q', called, rfl, rfl, hnext, hlog⟩)
    | cons top upper =>
      obtain ⟨rfl, rfl⟩ := List.cons.inj hq
      refine Or.inl ⟨q' :: upper, called, rfl, fun i hi => ?_, hlog⟩
      exact ⟨top, List.mem_cons_self, hnext.called_held i hi⟩
  · rw [hp] at hq
    cases upper with
    | nil =>
      obtain ⟨rfl, hrest⟩ := List.cons.inj hq
      exact Or.inr (Or.inr ⟨rfl, hrest.symm, hpending, callLog_quiet hs hcalls⟩)
    | cons top upper =>
      obtain ⟨-, hrest⟩ := List.cons.inj hq
      exact Or.inl ⟨upper, [], hrest.symm, by simp, callLog_quiet hs hcalls⟩

section Depth

variable {s s' : SubscriberSet K C} {a : Act K C} {acts : List (Act K C)} {called : List Nat}
  {depth : Nat}

theorem callsAt_cons (hlog : callLog s (a :: acts)
    = called.map (fun i => (s.passes.length, i)) ++ callLog s' acts) (hdepth : s.passes.length = depth) :
    callsAt depth s (a :: acts) = called ++ callsAt depth s' acts := by
  unfold callsAt
  rw [hlog, List.filter_append, List.map_append, List.filter_map]
  simp [Function.comp_def, hdepth]

theorem callsAt_cons_of_ne (hlog : callLog s (a :: acts)
    = called.map (fun i => (s.passes.length, i)) ++ callLog s' acts) (hdepth : s.passes.length ≠ depth) :
    callsAt depth s (a :: acts) = callsAt depth s' acts := by
  unfold callsAt
  rw [hlog, List.filter_append, List.map_append, List.filter_map]
  simp [Function.comp_def, hdepth]

theorem mem_callsOff_cons (hlog : callLog s (a :: acts)
    = called.map (fun i => (s.passes.length, i)) ++ callLog s' acts) {i : Nat} :
    i ∈ callsOff depth s (a :: acts) ↔
      (s.passes.length ≠ depth ∧ i ∈ called) ∨ i ∈ callsOff depth s' acts := by
  unfold callsOff
  rw [hlog, List.filter_append, List.map_append, List.mem_append, List.filter_map]
  refine or_congr_left ?_
  by_cases hdepth : s.passes.length = depth
  · simp [Function.comp_def, hdepth]
  · simp [Function.comp_def, hdepth]

end Depth

/-- **The calls of a pass**, from any moment of it to its end: it calls subscribers that it
has still to visit, in their order, and each that is active. -/
theorem pass_calls : ∀ (during : List (Act K C)) {s u : SubscriberSet K C}
    {upper rest : List (Pass K C)} {p : Pass K C}, s.Placed → s.passes = upper ++ p :: rest →
    RunMeets step (DeeperThan rest.length) s during →
    run step s during = some u → u.passes.length = rest.length →
    (callsAt (rest.length + 1) s during).Sublist p.pending.keys ∧
      ∀ i ∈ p.pending.keys, s.active i = true → i ∈ callsAt (rest.length + 1) s during := by
  intro during
  induction during with
  | nil =>
    intro s u upper rest p _ hp _ hrun hend
    obtain rfl := Option.some.inj hrun
    rw [hp, List.length_append, List.length_cons] at hend
    omega
  | cons a during ih =>
    intro s u upper rest p hplaced hp hinside hrun hend
    obtain ⟨s', hs, hrun⟩ := Option.bind_eq_some_iff.mp hrun
    obtain ⟨-, hinside⟩ := hinside
    rw [hs] at hinside
    have hactive : ∀ i ∈ p.pending.keys, s.active i = true → s'.active i = true := by
      intro i hi
      refine active_step hs (hplaced.custody.hands_lt p.held ?_ i ?_)
      · exact List.mem_map_of_mem (hp ▸ List.mem_append_right _ List.mem_cons_self)
      · exact List.mem_append_right _ hi
    rcases step_within hp hs with ⟨upper', called, hp', hupper, hlog⟩ |
      ⟨p', called, rfl, hp', hnext, hlog⟩ | ⟨rfl, hp', hpending, hlog⟩
    · obtain ⟨hsub, hall⟩ := ih (hplaced.step hs) hp' hinside hrun hend
      have hsame : callsAt (rest.length + 1) s (a :: during) = callsAt (rest.length + 1) s' during := by
        by_cases hdepth : s.passes.length = rest.length + 1
        · -- then no pass is nested in `p`, and none is called
          have hnil : upper = [] := by
            rw [hp, List.length_append, List.length_cons] at hdepth
            exact List.length_eq_zero_iff.mp (by omega)
          have hcalled : called = [] := by
            apply List.eq_nil_iff_forall_not_mem.mpr
            intro i hi
            obtain ⟨q, hq, -⟩ := hupper i hi
            rw [hnil] at hq
            exact List.not_mem_nil hq
          rw [callsAt_cons (hlog during) hdepth, hcalled, List.nil_append]
        · exact callsAt_cons_of_ne (hlog during) hdepth
      rw [hsame]
      exact ⟨hsub, fun i hi hi' => hall i hi (hactive i hi hi')⟩
    · obtain ⟨hsub, hall⟩ := ih (hplaced.step hs)
        (show s'.passes = [] ++ p' :: rest from hp') hinside hrun hend
      have hdepth : s.passes.length = rest.length + 1 := by
        rw [hp]
        rfl
      rw [callsAt_cons (hlog during) hdepth]
      refine ⟨(hsub.append_left called).trans hnext.pending, fun i hi hi' => ?_⟩
      rcases hnext.active_pending hi hi' with hcalled | hleft
      · exact List.mem_append_left _ hcalled
      · exact List.mem_append_right _ (hall i hleft (hactive i hi hi'))
    · rw [hpending]
      refine ⟨?_, fun i hi => absurd hi List.not_mem_nil⟩
      cases during with
      | nil =>
        rw [callsAt, hlog]
        exact List.Sublist.refl _
      | cons b during =>
        have hlt : rest.length < s'.passes.length := hinside.1
        rw [hp'] at hlt
        exact absurd hlt (lt_irrefl _)

theorem held_not_called_off : ∀ (during : List (Act K C)) {s u : SubscriberSet K C}
    {upper rest : List (Pass K C)} {p : Pass K C} {k : K} {i : Nat}, s.Placed →
    s.passes = upper ++ p :: rest → i ∈ p.held →
    RunMeets step (DeeperThan rest.length) s during →
    RunMeets step (Spared k i) s during → run step s during = some u →
    i ∉ callsOff (rest.length + 1) s during := by
  intro during
  induction during with
  | nil =>
    intro s u upper rest p k i _ _ _ _ _ _
    exact List.not_mem_nil
  | cons a during ih =>
    intro s u upper rest p k i hplaced hp hi hinside hspared hrun
    obtain ⟨s', hs, hrun⟩ := Option.bind_eq_some_iff.mp hrun
    obtain ⟨-, hinside⟩ := hinside
    obtain ⟨hspare, hspared⟩ := hspared
    rw [hs] at hinside hspared
    rcases step_within hp hs with ⟨upper', called, hp', hupper, hlog⟩ |
      ⟨p', called, rfl, hp', hnext, hlog⟩ | ⟨rfl, hp', hpending, hlog⟩
    · rw [mem_callsOff_cons (hlog during), not_or]
      refine ⟨fun hcalled => ?_, ih (hplaced.step hs) hp' hi hinside hspared hrun⟩
      obtain ⟨q, hq, hiq⟩ := hupper i hcalled.2
      have hapart := hplaced.custody.hands_apart
      rw [hp, List.map_append, List.pairwise_append] at hapart
      exact hapart.2.2 q.held (List.mem_map_of_mem hq) p.held List.mem_cons_self hiq hi
    · rw [mem_callsOff_cons (hlog during), not_or]
      refine ⟨fun hcalled => hcalled.1 (by rw [hp]; rfl), ?_⟩
      exact ih (hplaced.step hs) (show s'.passes = [] ++ p' :: rest from hp')
        (held_next hp hnext hspare hi) hinside hspared hrun
    · cases during with
      | nil =>
        rw [callsOff, hlog]
        exact List.not_mem_nil
      | cons b during =>
        have hlt : rest.length < s'.passes.length := hinside.1
        rw [hp'] at hlt
        exact absurd hlt (lt_irrefl _)

theorem count_callLog (depth : Nat) (s : SubscriberSet K C) (acts : List (Act K C)) (i : Nat) :
    ((callLog s acts).map Prod.snd).count i
      = (callsAt depth s acts).count i + (callsOff depth s acts).count i := by
  unfold callsAt callsOff
  induction callLog s acts with
  | nil => rfl
  | cons c log ih =>
    by_cases h : c.1 = depth
    · simp [h, List.count_cons, ih]
      omega
    · simp [h, List.count_cons, ih]
      omega

theorem beginRetain_of_mem {s s' : SubscriberSet K C} {k : K} {i : Nat}
    (hi : i ∈ (s.state.entries k).keys) (hs : s.step (.beginRetain k) = some s') :
    ∃ m, s.state.subscribers k = some (some m) ∧
      s'.passes = ⟨k, [], none, m, s.dropped⟩ :: s.passes := by
  obtain ⟨m, hm, rfl⟩ | ⟨hnone, -⟩ := step_beginRetain hs
  · exact ⟨m, hm, rfl⟩
  · rw [SubscriberSetState.entries] at hi
    cases hk : s.state.subscribers k with
    | none =>
      rw [hk] at hi
      exact absurd hi List.not_mem_nil
    | some entry =>
      cases entry with
      | none =>
        rw [hk] at hi
        exact absurd hi List.not_mem_nil
      | some m => exact absurd hk (hnone m)

/-! ### Live subscribers -/

theorem placed_run {s s' : SubscriberSet K C} (h : s.Placed) {acts : List (Act K C)}
    (hrun : run step s acts = some s') : s'.Placed := by
  have hall : RunMeets step (fun _ _ => True) s acts := RunMeets.of_forall (fun _ _ => trivial) acts s
  exact run_invariant (fun _ _ _ h _ hs => h.step hs) acts h hall hrun

theorem active_run : ∀ (acts : List (Act K C)) {s s' : SubscriberSet K C} {i : Nat},
    run step s acts = some s' → i < s.state.nextSubscriberId →
    s.active i = true ∨ .activate i ∈ acts → s'.active i = true := by
  intro acts
  induction acts with
  | nil =>
    intro s s' i hrun _ hactive
    obtain rfl := Option.some.inj hrun
    exact hactive.resolve_right List.not_mem_nil
  | cons a acts ih =>
    intro s s' i hrun hi hactive
    obtain ⟨mid, hmid, hrun⟩ := Option.bind_eq_some_iff.mp hrun
    refine ih hrun (hi.trans_le (nextSubscriberId_step hmid)) ?_
    rcases hactive with hactive | hmem
    · exact Or.inl (active_step hmid hi hactive)
    · rcases List.mem_cons.mp hmem with rfl | hmem
      · left
        rw [step, if_pos hi] at hmid
        obtain rfl := Option.some.inj hmid
        exact Function.update_self _ _ s.active
      · exact Or.inr hmem

/-- **A live subscriber is called once.**  It was inserted and activated, and it is
spared from then on.  Whatever is done before the pass over its emitter begins, and from
inside its callbacks, if no pass over the emitter is under way when it begins, it calls
the subscriber, no other call of the subscriber is made before it ends, and the pass makes
its calls in the order of the ids. -/
theorem live_called_once {before between during : List (Act K C)} {k : K} {c : C}
    {s₀ s₁ s₂ s₃ s₄ : SubscriberSet K C} (hbefore : run step new before = some s₀)
    (hinsert : s₀.step (.insert k c) = some s₁) (hbetween : run step s₁ between = some s₂)
    (hactivate : .activate s₀.state.nextSubscriberId ∈ between)
    (houtermost : ∀ p ∈ s₂.passes, p.emitter ≠ k) (hbegin : s₂.step (.beginRetain k) = some s₃)
    (hduring : run step s₃ during = some s₄)
    (hinside : RunMeets step (DeeperThan s₂.passes.length) s₃ during)
    (hend : s₄.passes.length = s₂.passes.length)
    (hspared : RunMeets step (Spared k s₀.state.nextSubscriberId) s₁
      (between ++ .beginRetain k :: during)) :
    s₀.state.nextSubscriberId ∈ callsAt (s₂.passes.length + 1) s₃ during ∧
    ((callLog s₃ during).map Prod.snd).count s₀.state.nextSubscriberId = 1 ∧
    (callsAt (s₂.passes.length + 1) s₃ during).Pairwise (· < ·) := by
  set i := s₀.state.nextSubscriberId with hi
  have hplaced₀ : s₀.Placed := placed_run placed_new hbefore
  have hplaced₂ : s₂.Placed := placed_run (hplaced₀.step hinsert) hbetween
  obtain ⟨hspared, -, hspared'⟩ := RunMeets.append between hspared hbetween
  have hkept₁ : s₁.Kept k i := by
    obtain rfl := Option.some.inj hinsert
    refine ⟨Or.inl ?_, fun d hd => (hplaced₀.marked_lt d hd).ne⟩
    exact (SubscriberSetState.mem_entries_insert s₀.state k k c i).mpr (Or.inl ⟨rfl, rfl⟩)
  have hlt : i < s₁.state.nextSubscriberId := by
    obtain rfl := Option.some.inj hinsert
    exact Nat.lt_succ_self _
  have hkept₂ : s₂.Kept k i :=
    run_invariant (fun _ _ _ h hr hs => h.step hr hs) between hkept₁ hspared hbetween
  have hactive : s₂.active i = true := active_run between hbetween hlt (Or.inr hactivate)
  -- the subscriber is in the map, so the pass begins and takes it
  have hentry : i ∈ (s₂.state.entries k).keys := by
    rcases hkept₂.placed with hentry | ⟨p, hp, hk, -⟩
    · exact hentry
    · exact absurd hk (houtermost p hp)
  obtain ⟨m, hm, hpasses⟩ := beginRetain_of_mem hentry hbegin
  rw [hbegin] at hspared'
  have hmi : i ∈ m.keys := by rwa [SubscriberSetState.entries, hm] at hentry
  have hsorted : m.Ordered := by
    have hordered := hplaced₂.ordered k
    rwa [SubscriberSetState.entries, hm] at hordered
  have hplaced₃ := hplaced₂.step hbegin
  have hpasses : s₃.passes = [] ++ ⟨k, [], none, m, s₂.dropped⟩ :: s₂.passes := hpasses
  have hnext : i < s₂.state.nextSubscriberId := hplaced₂.custody.slots_lt k i hentry
  obtain ⟨hsub, hall⟩ := pass_calls during hplaced₃ hpasses hinside hduring hend
  have hcalled := hall i hmi (active_step hbegin hnext hactive)
  have hoff := held_not_called_off during hplaced₃ hpasses hmi hinside hspared' hduring
  have hcalls : (callsAt (s₂.passes.length + 1) s₃ during).Pairwise (· < ·) := hsorted.sublist hsub
  refine ⟨hcalled, ?_, hcalls⟩
  rw [count_callLog (s₂.passes.length + 1), List.count_eq_zero_of_not_mem hoff]
  exact List.count_eq_one_of_mem (hcalls.imp fun h => h.ne) hcalled

/-- What the callbacks of a pass over emitter `7` do: the first inserts a subscriber for the
same emitter and runs a nested pass over it, the second drops a subscription of another
emitter in a pass over that. -/
def nestedPasses : List (Act Nat Unit) :=
  [.visit, .insert 7 (), .activate 3, .beginRetain 7, .visit, .return true (), .endRetain,
    .return true (), .visit, .beginRetain 8, .visit, .drop 2, .return true (), .endRetain,
    .return true (), .endRetain]

/-- The set after a run. -/
def afterActs (acts : List (Act Nat Unit)) : SubscriberSet Nat Unit := (run step new acts).getD new

theorem live_called_once_nested :
    callLog (afterActs [.insert 7 (), .insert 7 (), .activate 0, .insert 8 (), .activate 1, .activate 2,
      .beginRetain 7]) nestedPasses = [(1, 0), (2, 3), (1, 1), (2, 2)] ∧
    ((callLog (afterActs [.insert 7 (), .insert 7 (), .activate 0, .insert 8 (), .activate 1,
      .activate 2, .beginRetain 7]) nestedPasses).map Prod.snd).count 1 = 1 := by
  have hbefore : run step new [.insert 7 ()] = some (afterActs [.insert 7 ()]) := rfl
  have hinsert : (afterActs [.insert 7 ()]).step (.insert 7 ())
      = some (afterActs [.insert 7 (), .insert 7 ()]) := rfl
  have hbetween : run step (afterActs [.insert 7 (), .insert 7 ()])
      [.activate 0, .insert 8 (), .activate 1, .activate 2] = some (afterActs
        [.insert 7 (), .insert 7 (), .activate 0, .insert 8 (), .activate 1, .activate 2]) := rfl
  have hbegin : (afterActs [.insert 7 (), .insert 7 (), .activate 0, .insert 8 (), .activate 1,
      .activate 2]).step (.beginRetain 7) = some (afterActs [.insert 7 (), .insert 7 (), .activate 0,
        .insert 8 (), .activate 1, .activate 2, .beginRetain 7]) := rfl
  have hduring : run step (afterActs [.insert 7 (), .insert 7 (), .activate 0, .insert 8 (),
      .activate 1, .activate 2, .beginRetain 7]) nestedPasses = some (afterActs ([.insert 7 (),
        .insert 7 (), .activate 0, .insert 8 (), .activate 1, .activate 2, .beginRetain 7]
          ++ nestedPasses)) := rfl
  have hactivate : Act.activate (afterActs [.insert 7 ()]).state.nextSubscriberId ∈
      [Act.activate 0, .insert 8 (), .activate 1, .activate 2] := by
    show Act.activate 1 ∈ _
    simp
  refine ⟨by decide, ?_⟩
  exact (live_called_once hbefore hinsert hbetween hactivate (by decide) hbegin hduring (by decide)
    (by decide) (by decide)).2.1

end SubscriberSet

end FcGpui
