import FcGpui.Subscription.LiveCalls

/-!
# Cancelling during a pass

A pass goes through a copy of the subscribers.  What is dropped meanwhile is marked for the
end of the pass and is still called by it, if it is active when its turn comes.  So a pass
`Owes` a call to a subscriber that it has yet to visit, that is active and whose subscription
was dropped since it began.  No pass owes a call just if no step drops an active subscriber
that a pass has yet to visit, nor activates a dropped one (`settled_throughout_iff`).
-/

namespace FcGpui.SubscriberSet

variable {K C : Type} [DecidableEq K] {s s' : SubscriberSet K C} {a : Act K C} {p : Pass K C} {id i : Nat}

/-- The pass will call the subscriber although its subscription has been dropped since the pass began. -/
structure Owes (s : SubscriberSet K C) (p : Pass K C) (i : Nat) : Prop where
  pending : i ∈ p.pending.keys
  active : s.active i = true
  dropped : i ∈ s.dropped
  since : i ∉ p.droppedBefore

/-- No pass owes a call. -/
def Settled (s : SubscriberSet K C) : Prop := ∀ p ∈ s.passes, ∀ i, ¬ s.Owes p i

/-- No pass has yet to visit the subscriber, unless it began after the drop. -/
def Awaits (s : SubscriberSet K C) (id : Nat) : Prop :=
  ∀ p ∈ s.passes, id ∈ p.pending.keys → id ∈ p.droppedBefore

/-- A subscriber that a pass has yet to visit is not cancelled while it is active, nor made active
when it is cancelled. -/
def Undisturbed (s : SubscriberSet K C) : Act K C → Prop
  | .drop id => s.active id = true → s.Awaits id
  | .activate id => id ∈ s.dropped → s.Awaits id
  | _ => True

instance (s : SubscriberSet K C) (id : Nat) : Decidable (s.Awaits id) :=
  inferInstanceAs (Decidable (∀ p ∈ s.passes, id ∈ p.pending.keys → id ∈ p.droppedBefore))

instance (s : SubscriberSet K C) : ∀ a, Decidable (s.Undisturbed a)
  | .drop id => inferInstanceAs (Decidable (s.active id = true → s.Awaits id))
  | .activate id => inferInstanceAs (Decidable (id ∈ s.dropped → s.Awaits id))
  | .insert _ _ | .detach _ | .remove _ | .beginRetain _ | .visit | .return _ _ | .endRetain => isTrue trivial

/-- A visit invokes no callback that has been dropped since its pass began. -/
def CancelsInPass (s : SubscriberSet K C) : Prop :=
  ∀ s' id before, s.step .visit = some s' → s'.calls = s.calls ++ [⟨id, before⟩] → id ∈ s.dropped → id ∈ before

/-! ### What a pass owes after a step -/

omit [DecidableEq K] in
theorem Settled.congr (h : s.Settled) (hpasses : ∀ p' ∈ s'.passes, ∃ p ∈ s.passes,
      p'.droppedBefore = p.droppedBefore ∧ ∀ i ∈ p'.pending.keys, i ∈ p.pending.keys)
    (hactive : ∀ i, s'.active i = true → s.active i = true) (hdropped : s'.dropped = s.dropped) : s'.Settled := by
  intro p' hp' i howes
  obtain ⟨p, hp, hbefore, hpending⟩ := hpasses p' hp'
  refine h p hp i ⟨hpending i howes.pending, hactive i howes.active, hdropped ▸ howes.dropped, ?_⟩
  rw [← hbefore]
  exact howes.since

omit [DecidableEq K] in
theorem Settled.samePasses (h : s.Settled) (hpasses : s'.passes = s.passes)
    (hactive : ∀ i, s'.active i = true → s.active i = true) (hdropped : s'.dropped = s.dropped) : s'.Settled :=
  h.congr (fun p hp => ⟨p, hpasses ▸ hp, rfl, fun _ hi => hi⟩) hactive hdropped

omit [DecidableEq K] in
theorem Settled.advances (h : s.Settled) {called : List Nat} (hadvances : s.Advances s' a called) : s'.Settled := by
  obtain ⟨p, p', rest, calls, hpasses, hnext, rfl, -⟩ := hadvances
  refine h.congr (fun q hq => ?_) (fun _ hi => hi) rfl
  rcases List.mem_cons.mp hq with rfl | hq
  · refine ⟨p, by rw [hpasses]; exact List.mem_cons_self, hnext.droppedBefore, fun i hi => ?_⟩
    exact hnext.pending.subset (List.mem_append_right _ hi)
  · exact ⟨q, by rw [hpasses]; exact List.mem_cons_of_mem _ hq, rfl, fun _ hi => hi⟩

theorem Settled.drop_iff (h : s.Settled) (hs : s.step (.drop id) = some s') :
    s'.Settled ↔ s.Undisturbed (.drop id) := by
  obtain ⟨k, -, rfl⟩ := step_drop hs
  constructor
  · intro hsettled hactive p hp hpending
    by_contra hbefore
    exact hsettled p hp id ⟨hpending, hactive, Finset.mem_insert_self _ _, hbefore⟩
  · intro hcond p hp i howes
    rcases Finset.mem_insert.mp howes.dropped with rfl | hdropped
    · exact howes.since (hcond howes.active p hp howes.pending)
    · exact h p hp i ⟨howes.pending, howes.active, hdropped, howes.since⟩

theorem Settled.activate_iff (h : s.Settled) (hs : s.step (.activate id) = some s') :
    s'.Settled ↔ s.Undisturbed (.activate id) := by
  obtain rfl := step_activate hs
  constructor
  · intro hsettled hdropped p hp hpending
    by_contra hbefore
    exact hsettled p hp id ⟨hpending, Function.update_self .., hdropped, hbefore⟩
  · intro hcond p hp i howes
    by_cases hi : i = id
    · subst hi
      exact howes.since (hcond howes.dropped p hp howes.pending)
    · have hactive : Function.update s.active id true i = true := howes.active
      rw [Function.update_of_ne hi] at hactive
      exact h p hp i ⟨howes.pending, hactive, howes.dropped, howes.since⟩

/-- **What a step does to what is owed.** -/
theorem Settled.step_iff (h : s.Settled) (hs : s.step a = some s') : s'.Settled ↔ s.Undisturbed a := by
  cases a with
  | insert k c =>
    obtain rfl := Option.some.inj hs
    refine iff_of_true (h.samePasses rfl (fun i hi => ?_) rfl) trivial
    dsimp only at hi
    rw [Function.update_apply] at hi
    split at hi
    · cases hi
    · exact hi
  | activate id => exact h.activate_iff hs
  | drop id => exact h.drop_iff hs
  | detach id =>
    obtain rfl := step_detach hs
    exact iff_of_true (h.samePasses rfl (fun _ hi => hi) rfl) trivial
  | remove k =>
    obtain rfl := Option.some.inj hs
    exact iff_of_true (h.samePasses rfl (fun _ hi => hi) rfl) trivial
  | beginRetain k =>
    obtain ⟨subscribers, -, rfl⟩ | ⟨-, rfl⟩ := step_beginRetain hs
    · refine iff_of_true (fun p hp i howes => ?_) trivial
      rcases List.mem_cons.mp hp with rfl | hp
      · exact howes.since howes.dropped
      · exact h p hp i ⟨howes.pending, howes.active, howes.dropped, howes.since⟩
    · exact iff_of_true h trivial
  | visit =>
    obtain ⟨called, hadvances⟩ := step_visit hs
    exact iff_of_true (h.advances hadvances) trivial
  | «return» keep callback => exact iff_of_true (h.advances (step_return hs)) trivial
  | endRetain =>
    obtain ⟨p, rest, hp, -, -, rfl⟩ := step_endRetain hs
    refine iff_of_true (h.congr (fun q hq => ?_) (fun _ hi => hi) rfl) trivial
    exact ⟨q, by rw [hp]; exact List.mem_cons_of_mem _ hq, rfl, fun _ hi => hi⟩

omit [DecidableEq K] in
theorem settled_new : (new : SubscriberSet K C).Settled := fun _ hp => absurd hp List.not_mem_nil

theorem settled_throughout_iff (acts : List (Act K C)) (hs : run step new acts = some s) :
    Throughout step Settled new acts ↔ RunMeets step Undisturbed (new : SubscriberSet K C) acts :=
  throughout_iff (fun _ _ _ _ _ => True.intro) (fun _ _ _ _ h hs => h.step_iff hs) acts True.intro settled_new hs

theorem Owes.called (h : s.Owes p i) (hplaced : s.Placed) {upper rest : List (Pass K C)}
    (hp : s.passes = upper ++ p :: rest) {during : List (Act K C)}
    (hinside : RunMeets step (DeeperThan rest.length) s during) (hrun : run step s during = some s')
    (hend : s'.passes.length = rest.length) : i ∈ callsAt (rest.length + 1) s during :=
  (pass_calls during hplaced hp hinside hrun hend).2 i h.pending h.active

theorem Settled.cancelsInPass (h : s.Settled) : s.CancelsInPass := by
  intro s' id before hs hcalls hdropped
  by_contra hbefore
  obtain ⟨p, p', rest, called, hp, hnext, rfl⟩ := step_visit_next hs
  have hcalled := List.append_cancel_left hcalls
  have htop : p ∈ s.passes := by rw [hp]; exact List.mem_cons_self
  cases hnext with
  | call hactive =>
    obtain ⟨rfl, rfl⟩ := Call.mk.inj (List.singleton_inj.mp hcalled)
    exact h _ htop _ ⟨List.mem_cons_self, hactive, hdropped, hbefore⟩
  | skip => cases hcalled

/-- However the run goes on, a pass under way calls a subscriber that was dropped since the pass began before
it ends. -/
def CallsCancelled (s : SubscriberSet K C) : Prop :=
  ∃ (p : Pass K C) (i : Nat) (upper rest : List (Pass K C)), s.passes = upper ++ p :: rest ∧ i ∈ s.dropped ∧
    i ∉ p.droppedBefore ∧ ∀ during s', RunMeets step (DeeperThan rest.length) s during → run step s during = some s' →
      s'.passes.length = rest.length → i ∈ callsAt (rest.length + 1) s during

theorem callsCancelled_of_not_settled (hplaced : s.Placed) (h : ¬ s.Settled) : s.CallsCancelled := by
  obtain ⟨p, hp, i, howes⟩ : ∃ p ∈ s.passes, ∃ i, s.Owes p i := by
    by_contra hnone
    exact h fun p hp i howes => hnone ⟨p, hp, i, howes⟩
  obtain ⟨upper, rest, hpasses⟩ := List.append_of_mem hp
  exact ⟨p, i, upper, rest, hpasses, howes.dropped, howes.since,
    fun _ _ hinside hrun hend => howes.called hplaced hpasses hinside hrun hend⟩

/-- **Cancelling takes effect inside a running pass** throughout a run whose steps are all undisturbed; any
other run comes to a state in which a pass will call what is cancelled. -/
theorem cancelsInPass_throughout (acts : List (Act K C)) :
    (RunMeets step Undisturbed new acts → Throughout step CancelsInPass (new : SubscriberSet K C) acts) ∧
    ∀ s, run step new acts = some s → ¬ RunMeets step Undisturbed (new : SubscriberSet K C) acts →
      ∃ before after t, acts = before ++ after ∧ run step new before = some t ∧ t.CallsCancelled := by
  constructor
  · exact run_throughout (fun _ _ _ hsettled hcond hs => (hsettled.step_iff hs).mpr hcond)
      (fun _ hsettled => hsettled.cancelsInPass) acts settled_new
  · intro s hs hdisturbed
    obtain ⟨before, after, t, hacts, ht, hunsettled⟩ :=
      exists_of_not_throughout acts hs (mt (settled_throughout_iff acts hs).mp hdisturbed)
    have hany : RunMeets step (fun _ _ => True) (new : SubscriberSet K C) before :=
      RunMeets.of_forall (fun _ _ => trivial) before new
    have hplaced : t.Placed := run_invariant (fun _ _ _ h _ hstep => h.step hstep) before placed_new hany ht
    exact ⟨before, after, t, hacts, ht, callsCancelled_of_not_settled hplaced hunsettled⟩

/-- A callback drops the subscription of another subscriber that is not active. -/
def dropIdle : List (Act Nat Unit) :=
  [.insert 7 (), .insert 7 (), .activate 0, .beginRetain 7, .visit, .drop 1, .return true (), .visit, .endRetain]

theorem cancelsInPass_throughout_dropIdle : Throughout step CancelsInPass (new : SubscriberSet Nat Unit) dropIdle :=
  (cancelsInPass_throughout dropIdle).1 (by decide)

/-- A callback drops the subscription of the subscriber that is next. -/
def dropNext : List (Act Nat Unit) :=
  [.insert 7 (), .insert 7 (), .activate 0, .activate 1, .beginRetain 7, .visit, .drop 1, .return true ()]

theorem not_cancelsInPass : ¬ ∀ (acts : List (Act Nat Unit)) s, run step new acts = some s → s.CancelsInPass := by
  intro h
  have hcalls : (run step new dropNext).map (fun s => (s.dropped, s.calls, (s.step .visit).map SubscriberSet.calls))
      = some ({1}, [⟨0, ∅⟩], some [⟨0, ∅⟩, ⟨1, ∅⟩]) := by decide
  obtain ⟨s, hs, hc⟩ := Option.map_eq_some_iff.mp hcalls
  obtain ⟨hdropped, hc⟩ := Prod.mk.inj hc
  obtain ⟨hcalls, hvisit⟩ := Prod.mk.inj hc
  obtain ⟨s', hs', hcalls'⟩ := Option.map_eq_some_iff.mp hvisit
  have hbefore := h dropNext s hs s' 1 ∅ hs' (by rw [hcalls', hcalls]; rfl) (by rw [hdropped]; decide)
  exact absurd hbefore (by decide)

end FcGpui.SubscriberSet
