import FcGpui.App.Effects
import FcGpui.Subscription.LiveCalls

/-!
# Notifications are coalesced but never lost

Three functions queue notifications, each with its own test for one that is queued
already: `push_effect`, `notify`, and `invalidate_view` of a window.  `Queues` is
what all of them do: they append to the queue, and keep the sets of pending
notifications exact (`Exact`).

`Control` is what the updates and flushes keep: there is at most one flush, it
applies at most one effect, and the queue is empty when no update is under way.
Since flushes do not nest, the observers of an effect are visited in one pass that
nothing else interferes with (`Watching`), so every observer that was active when
the effect was taken is called.

**Main result.**  `notifications_coalesced`: in every state of every run the sets
are exact, the effects are processed in the order they were queued, a flush ends
with nothing queued, and a notification reaches every observer that is active when
it is processed.
-/

namespace FcGpui

theorem Effect.notifies_eq_entity {effect : Effect} {id : Nat} :
    effect.notifies = some (.entity, id) ↔ effect = .notify id := by
  cases effect <;> simp [Effect.notifies]

theorem Effect.notifies_eq_global {effect : Effect} {id : Nat} :
    effect.notifies = some (.global, id) ↔ effect = .notifyGlobalObservers id := by
  cases effect <;> simp [Effect.notifies]

/-- Every observer that was active when the effect was taken is called. -/
def Processed.Delivered (processed : Processed) : Prop :=
  ∀ i ∈ processed.active, i ∈ processed.called

namespace App

/-! ### The queue and the sets -/

/-- Whom the queue notifies of. -/
def queued (s : App) : List (NotifyKind × Nat) := s.pendingEffects.filterMap Effect.notifies

/-- A notification is queued once for each member of the sets, and for nobody
else. -/
def Exact (s : App) : Prop :=
  ∀ kind id, s.queued.count (kind, id) = if id ∈ s.pending kind then 1 else 0

/-- What queues effects, and changes nothing of what is under way. -/
structure Queues (s s' : App) : Prop where
  flushing : s'.flushingEffects = s.flushingEffects
  updates : s'.pendingUpdates = s.pendingUpdates
  observers : s'.observers = s.observers
  frames : s'.frames = s.frames
  processed : s'.processed = s.processed
  effects : ∃ added, s'.pendingEffects = s.pendingEffects ++ added ∧ s'.pushed = s.pushed ++ added
  pending : ∀ kind, s.pending kind ⊆ s'.pending kind
  exact : s.Exact → s'.Exact

theorem queues_windows (s : App) (tracking : EntityId → List WindowId)
    (invalidators : WindowId → WindowInvalidator) :
    s.Queues { s with windowInvalidatorsByEntity := tracking, invalidators := invalidators } where
  flushing := rfl
  updates := rfl
  observers := rfl
  frames := rfl
  processed := rfl
  effects := ⟨[], by simp, by simp⟩
  pending _ := Finset.Subset.refl _
  exact h := h

theorem Queues.refl (s : App) : s.Queues s := queues_windows s s.windowInvalidatorsByEntity s.invalidators

variable {s : App} {entity : EntityId}

theorem Queues.trans {t u : App} (h : s.Queues t) (g : t.Queues u) : s.Queues u where
  flushing := g.flushing.trans h.flushing
  updates := g.updates.trans h.updates
  observers := g.observers.trans h.observers
  frames := g.frames.trans h.frames
  processed := g.processed.trans h.processed
  effects := by
    obtain ⟨a, ha, ha'⟩ := h.effects
    obtain ⟨b, hb, hb'⟩ := g.effects
    exact ⟨a ++ b, by rw [hb, ha, List.append_assoc], by rw [hb', ha', List.append_assoc]⟩
  pending kind := (h.pending kind).trans (g.pending kind)
  exact e := g.exact (h.exact e)

theorem queues_insertPending {effect : Effect} {kind : NotifyKind} {id : Nat}
    (he : effect.notifies = some (kind, id)) (hid : id ∉ s.pending kind) :
    s.Queues ((s.insertPending kind id).queueEffect effect) where
  flushing := rfl
  updates := rfl
  observers := rfl
  frames := rfl
  processed := rfl
  effects := ⟨[effect], rfl, rfl⟩
  pending kind' := by
    show s.pending kind' ⊆ Function.update s.pending kind (insert id (s.pending kind)) kind'
    by_cases hk : kind' = kind
    · subst hk
      rw [Function.update_self]
      exact Finset.subset_insert _ _
    · rw [Function.update_of_ne hk]
  exact h kind' id' := by
    have hq : ((s.insertPending kind id).queueEffect effect).queued = s.queued ++ [(kind, id)] := by
      simp [queued, queueEffect, insertPending, he]
    have hp : ((s.insertPending kind id).queueEffect effect).pending
        = Function.update s.pending kind (insert id (s.pending kind)) := rfl
    rw [hq, hp, List.count_append, h kind' id']
    by_cases hk : kind' = kind
    · subst hk
      rw [Function.update_self]
      by_cases hi : id' = id
      · subst hi
        simp [hid]
      · have : (kind', id) ≠ (kind', id') := by simp [Ne.symm hi]
        simp [hi, this]
    · rw [Function.update_of_ne hk]
      have : (kind, id) ≠ (kind', id') := by simp [Ne.symm hk]
      simp [this]

theorem queues_queueEffect {effect : Effect} (he : effect.notifies = none) :
    s.Queues (s.queueEffect effect) where
  flushing := rfl
  updates := rfl
  observers := rfl
  frames := rfl
  processed := rfl
  effects := ⟨[effect], rfl, rfl⟩
  pending _ := Finset.Subset.refl _
  exact h kind id := by
    have hq : (s.queueEffect effect).queued = s.queued := by
      simp [queued, queueEffect, he]
    rw [hq]
    exact h kind id

theorem queues_pushEffect (s : App) (effect : Effect) : s.Queues (s.pushEffect effect) := by
  rw [pushEffect]
  split
  · rename_i kind id he
    split
    · exact Queues.refl s
    · rename_i hid
      exact queues_insertPending he hid
  · rename_i he
    exact queues_queueEffect he

theorem mem_pending_pushEffect (s : App) (entity : EntityId) :
    entity ∈ (s.pushEffect (.notify entity)).pending .entity := by
  show entity ∈ (if entity ∈ s.pending .entity then s
    else (s.insertPending .entity entity).queueEffect (.notify entity)).pending .entity
  split
  · assumption
  · show entity ∈ Function.update s.pending .entity (insert entity (s.pending .entity)) .entity
    rw [Function.update_self]
    exact Finset.mem_insert_self _ _

theorem queues_invalidateView (entity : EntityId) (s : App) (window : WindowId) :
    s.Queues (invalidateView entity s window) := by
  rw [invalidateView]
  split
  · exact (queues_windows s s.windowInvalidatorsByEntity _).trans (queues_pushEffect _ _)
  · exact queues_windows s s.windowInvalidatorsByEntity _

theorem queues_foldl_invalidateView (entity : EntityId) (windows : List WindowId) :
    ∀ s : App, s.Queues (windows.foldl (invalidateView entity) s) := by
  induction windows with
  | nil => exact Queues.refl
  | cons window windows ih =>
    exact fun s => (queues_invalidateView entity s window).trans (ih _)

theorem notify_eq_pushEffect
    (h : s.windowInvalidatorsByEntity entity = []) : s.notify entity = s.pushEffect (.notify entity) := by
  rw [notify, h]
  rfl

theorem queues_notify (s : App) (entity : EntityId) : s.Queues (s.notify entity) := by
  cases h : s.windowInvalidatorsByEntity entity with
  | nil =>
    rw [notify_eq_pushEffect h]
    exact queues_pushEffect s _
  | cons window windows =>
    rw [notify, h]
    exact queues_foldl_invalidateView entity (window :: windows) s

/-- **A notification is pending after it was made**, unless a window that tracks
the entity is drawing. -/
theorem mem_pending_notify (h : ∀ window ∈ s.windowInvalidatorsByEntity entity,
    (s.invalidators window).drawPhase = .none) : entity ∈ (s.notify entity).pending .entity := by
  cases hw : s.windowInvalidatorsByEntity entity with
  | nil =>
    rw [notify_eq_pushEffect hw]
    exact mem_pending_pushEffect s entity
  | cons window windows =>
    rw [hw] at h
    rw [notify, hw]
    show entity ∈ (windows.foldl (invalidateView entity) (invalidateView entity s window)).pending
      .entity
    apply (queues_foldl_invalidateView entity windows _).pending
    rw [invalidateView, if_pos (h window List.mem_cons_self)]
    exact mem_pending_pushEffect _ entity

theorem Exact.mem_pendingEffects (h : s.Exact)
    (hmem : entity ∈ s.pending .entity) : .notify entity ∈ s.pendingEffects := by
  have hcount := h .entity entity
  rw [if_pos hmem] at hcount
  have hin : (NotifyKind.entity, entity) ∈ s.queued := List.count_pos_iff.mp (by omega)
  obtain ⟨effect, he, hn⟩ := List.mem_filterMap.mp hin
  rw [← Effect.notifies_eq_entity.mp hn]
  exact he

/-! ### What is under way -/

/-- The frames other than updates. -/
def skeleton (s : App) : List AppFrame := s.frames.filter (· ≠ .update)

/-- The effects that are being applied, with what is known of them. -/
def current (s : App) : List Processed :=
  s.frames.filterMap fun
    | .apply processed => some processed
    | _ => none

theorem applying_eq (s : App) : s.applying = s.current.map Processed.effect := by
  rw [applying, current, List.map_filterMap]
  congr 1
  funext frame
  cases frame <;> rfl

/-- There is at most one flush, and it applies at most one effect. -/
structure Control (s : App) : Prop where
  shape : s.skeleton = [] ∨ s.skeleton = [.flush] ∨ ∃ p, s.skeleton = [.apply p, .flush]
  flushing : s.flushingEffects = true ↔ s.skeleton ≠ []
  updates : s.pendingUpdates = s.frames.count .update
  idle : s.frames = [] → s.pendingEffects = []

theorem control_new : new.Control :=
  ⟨Or.inl rfl, by decide, rfl, fun _ => rfl⟩

theorem current_eq_skeleton (s : App) : s.current = s.skeleton.filterMap fun
    | .apply processed => some processed
    | _ => none := by
  rw [current, skeleton, List.filterMap_filter]
  congr 1
  funext frame
  cases frame <;> rfl

theorem Control.of_flush (h : s.Control) {rest : List AppFrame}
    (hf : s.frames = .flush :: rest) : s.skeleton = [.flush] ∧ s.current = [] := by
  have hsk : s.skeleton = .flush :: rest.filter (· ≠ .update) := by
    rw [skeleton, hf, List.filter_cons_of_pos (by decide)]
  rcases h.shape with h0 | h1 | ⟨p, h2⟩
  · rw [h0] at hsk
    cases hsk
  · refine ⟨h1, ?_⟩
    rw [current_eq_skeleton, h1]
    rfl
  · rw [h2] at hsk
    cases hsk

theorem Control.of_apply (h : s.Control) {p : Processed} {rest : List AppFrame}
    (hf : s.frames = .apply p :: rest) :
    s.skeleton = [.apply p, .flush] ∧ rest.filter (· ≠ .update) = [.flush] ∧ s.current = [p] := by
  have hsk : s.skeleton = .apply p :: rest.filter (· ≠ .update) := by
    rw [skeleton, hf, List.filter_cons_of_pos (by simp)]
  rcases h.shape with h0 | h1 | ⟨q, h2⟩
  · rw [h0] at hsk
    cases hsk
  · rw [h1] at hsk
    cases hsk
  · rw [h2] at hsk
    obtain ⟨hq, hrest⟩ := List.cons.inj hsk
    cases hq
    refine ⟨h2, hrest.symm, ?_⟩
    rw [current_eq_skeleton, h2]
    rfl

/-! ### The observers of the effect -/

/-- The observers `o` of an effect while it is being applied: those that were
active when it was taken are called or still to be visited. -/
def Watching (o : SubscriberSet Nat Unit) (p : Processed) : Prop :=
  (o.passes = [] ∧ p.Delivered) ∨
  ∃ pass, o.passes = [pass] ∧ ∀ i ∈ p.active, i ∈ p.called ∨
    i ∈ pass.pending.keys ∧ o.active i = true ∧ i < o.state.nextSubscriberId

/-- Only the observers of the effect that is being applied are visited. -/
structure Watched (s : App) : Prop where
  visited : ∀ p ∈ s.current, ∀ kind id, p.effect.notifies = some (kind, id) →
    Watching (s.observers kind) p
  others : ∀ kind, (∀ p ∈ s.current, ∀ id, p.effect.notifies ≠ some (kind, id)) →
    (s.observers kind).passes = []

variable {o o' : SubscriberSet Nat Unit}

variable {act : Act Nat Unit} {p : Processed}

/-- Code of the application leaves the passes alone. -/
theorem client_step (hc : act.isClient = true) (h : o.step act = some o') : o'.passes = o.passes := by
  rcases SubscriberSet.step_passes h with ⟨hp, -⟩ | ⟨k, m, rfl, -⟩ | ⟨called, ha⟩ | ⟨p, rfl, -⟩
  · exact hp
  · cases hc
  · obtain ⟨p, p', rest, calls, -, hnext, -⟩ := ha
    cases hnext <;> cases hc
  · cases hc

theorem Watching.client (h : Watching o p)
    (hc : act.isClient = true) (hs : o.step act = some o') : Watching o' p := by
  have hpasses := client_step hc hs
  rcases h with ⟨hnil, hd⟩ | ⟨pass, hpass, hall⟩
  · exact Or.inl ⟨hpasses.trans hnil, hd⟩
  · refine Or.inr ⟨pass, hpasses.trans hpass, fun i hi => ?_⟩
    rcases hall i hi with hcalled | ⟨hpending, hactive, hlt⟩
    · exact Or.inl hcalled
    · exact Or.inr ⟨hpending, SubscriberSet.active_step hs hlt hactive,
        hlt.trans_le (SubscriberSet.nextSubscriberId_step hs)⟩

/-- **The pass begins** with all active observers still to be visited. -/
theorem watching_beginRetain (hplaced : o.Placed) (hnil : o.passes = []) {id : Nat}
    (hs : o.step (.beginRetain id) = some o') (effect : Effect) :
    Watching o' ⟨effect, (o.state.entries id).keys.filter o.active, []⟩ := by
  by_cases hentry : (o.state.entries id).keys = []
  · have hd : Processed.Delivered ⟨effect, (o.state.entries id).keys.filter o.active, []⟩ := by
      intro i hi
      rw [hentry] at hi
      exact absurd hi List.not_mem_nil
    rcases SubscriberSet.step_passes hs with ⟨hp, -⟩ | ⟨k, m, hk, hm, hp, -⟩ | ⟨called, ha⟩ | ⟨p, hk, -⟩
    · exact Or.inl ⟨hp.trans hnil, hd⟩
    · rw [hnil] at hp
      exact Or.inr ⟨_, hp, fun i hi => Or.inl (hd i hi)⟩
    · obtain ⟨p, p', rest, calls, -, hnext, -⟩ := ha
      cases hnext
    · cases hk
  · obtain ⟨i₀, hi₀⟩ := List.exists_mem_of_ne_nil _ hentry
    obtain ⟨m, hm, hp⟩ := SubscriberSet.beginRetain_of_mem hi₀ hs
    rw [hnil] at hp
    have hkeys : (o.state.entries id).keys = m.keys := by
      rw [SubscriberSetState.entries, hm]
      rfl
    refine Or.inr ⟨_, hp, fun i hi => Or.inr ?_⟩
    obtain ⟨hmem, hactive⟩ := List.mem_filter.mp hi
    have hlt : i < o.state.nextSubscriberId := hplaced.custody.slots_lt id i hmem
    refine ⟨hkeys ▸ hmem, SubscriberSet.active_step hs hlt hactive,
      hlt.trans_le (SubscriberSet.nextSubscriberId_step hs)⟩

/-- **The pass goes on**, and calls the active observers it visits. -/
theorem Watching.advances (h : Watching o p)
    {called : List Nat} (ha : o.Advances o' act called) :
    Watching o' { p with called := p.called ++ called } := by
  obtain ⟨pass, pass', rest, calls, hpasses, hnext, rfl, -⟩ := ha
  rcases h with ⟨hnil, -⟩ | ⟨pass₀, hpass, hall⟩
  · rw [hnil] at hpasses
    cases hpasses
  · rw [hpass] at hpasses
    obtain ⟨rfl, rfl⟩ := List.cons.inj hpasses
    refine Or.inr ⟨pass', rfl, fun i hi => ?_⟩
    rcases hall i hi with hcalled | ⟨hpending, hactive, hlt⟩
    · exact Or.inl (List.mem_append_left _ hcalled)
    · rcases hnext.active_pending hpending hactive with hnow | hlater
      · exact Or.inl (List.mem_append_right _ hnow)
      · exact Or.inr ⟨hlater, hactive, hlt⟩

/-- **The pass ends**, and all of them are called. -/
theorem Watching.ended (h : Watching o p) (hs : o.step .endRetain = some o') :
    o'.passes = [] ∧ p.Delivered := by
  obtain ⟨pass, rest, hp, -, hend, rfl⟩ := SubscriberSet.step_endRetain hs
  rcases h with ⟨hnil, -⟩ | ⟨pass₀, hpass, hall⟩
  · rw [hnil] at hp
    cases hp
  · rw [hpass] at hp
    obtain ⟨rfl, hnil⟩ := List.cons.inj hp
    refine ⟨hnil.symm, fun i hi => ?_⟩
    rcases hall i hi with hcalled | ⟨hpending, -, -⟩
    · exact hcalled
    · rw [hend] at hpending
      exact absurd hpending List.not_mem_nil

/-! ### What every step keeps -/

/-- What every action keeps. -/
structure Sound (s : App) : Prop where
  exact : s.Exact
  order : s.pushed = s.processed.map Processed.effect ++ s.applying ++ s.pendingEffects
  delivered : ∀ p ∈ s.processed, p.effect.notifies ≠ none → p.Delivered
  control : s.Control
  watched : s.Watched
  placed : ∀ kind, (s.observers kind).Placed

theorem sound_new : new.Sound where
  exact kind id := by simp [queued, new]
  order := rfl
  delivered p hp := absurd hp List.not_mem_nil
  control := control_new
  watched := ⟨fun p hp => absurd hp List.not_mem_nil, fun _ _ => rfl⟩
  placed _ := SubscriberSet.placed_new

variable {s s' : App}

theorem frames_ne_nil_of_runsCode (h : s.runsCode = true) : s.frames ≠ [] := by
  intro hf
  rw [runsCode, hf] at h
  cases h

/-- **Queueing effects.** -/
theorem Sound.queues (h : s.Sound) (hq : s.Queues s')
    (hf : s.frames ≠ [] ∨ s'.pendingEffects = s.pendingEffects) : s'.Sound := by
  obtain ⟨added, hpending, hpushed⟩ := hq.effects
  have hsk : s'.skeleton = s.skeleton := by rw [skeleton, skeleton, hq.frames]
  have hcur : s'.current = s.current := by rw [current, current, hq.frames]
  refine ⟨hq.exact h.exact, ?_, ?_, ⟨?_, ?_, ?_, ?_⟩, ⟨?_, ?_⟩, ?_⟩
  · rw [hpushed, hpending, hq.processed, applying_eq, hcur, ← applying_eq, h.order,
      List.append_assoc _ _ added]
  · rw [hq.processed]
    exact h.delivered
  · rw [hsk]
    exact h.control.shape
  · rw [hsk, hq.flushing]
    exact h.control.flushing
  · rw [hq.updates, hq.frames]
    exact h.control.updates
  · intro hnil
    rw [hq.frames] at hnil
    rcases hf with hf | hf
    · exact absurd hnil hf
    · rw [hf]
      exact h.control.idle hnil
  · rw [hcur, hq.observers]
    exact h.watched.visited
  · rw [hcur, hq.observers]
    exact h.watched.others
  · rw [hq.observers]
    exact h.placed

variable {act : Act Nat Unit} {rest : List AppFrame} {effect : Effect} {effects : List Effect}
  {observers : NotifyKind → SubscriberSet Nat Unit} {p : Processed}

/-- **Subscribing and unsubscribing.** -/
theorem Sound.subscribers (h : s.Sound) {kind : NotifyKind}
    (hc : act.isClient = true) (hs : (s.observers kind).step act = some o) : (s.setObservers kind o).Sound := by
  refine ⟨h.exact, h.order, h.delivered, ⟨h.control.shape, h.control.flushing, h.control.updates,
    h.control.idle⟩, ⟨fun p hp kind' id hn => ?_, fun kind' hn => ?_⟩, fun kind' => ?_⟩
  · have hw := h.watched.visited p hp kind' id hn
    show Watching (Function.update s.observers kind o kind') p
    by_cases hk : kind' = kind
    · subst hk
      rw [Function.update_self]
      exact hw.client hc hs
    · rw [Function.update_of_ne hk]
      exact hw
  · have hw := h.watched.others kind' hn
    show (Function.update s.observers kind o kind').passes = []
    by_cases hk : kind' = kind
    · subst hk
      rw [Function.update_self]
      exact (client_step hc hs).trans hw
    · rw [Function.update_of_ne hk]
      exact hw
  · show (Function.update s.observers kind o kind').Placed
    by_cases hk : kind' = kind
    · subst hk
      rw [Function.update_self]
      exact (h.placed kind').step hs
    · rw [Function.update_of_ne hk]
      exact h.placed kind'

/-- Updates and flushes begin and end around the effect that is being applied. -/
theorem Sound.reframe (h : s.Sound) {frames : List AppFrame} {flushing : Bool} {updates : Nat}
    (hcontrol : Control { s with
      flushingEffects := flushing, pendingUpdates := updates, frames := frames })
    (hcur : current { s with
      flushingEffects := flushing, pendingUpdates := updates, frames := frames } = s.current) :
    Sound { s with flushingEffects := flushing, pendingUpdates := updates, frames := frames } := by
  refine ⟨h.exact, ?_, h.delivered, hcontrol, ⟨?_, ?_⟩, h.placed⟩
  · rw [applying_eq, hcur, ← applying_eq]
    exact h.order
  · rw [hcur]
    exact h.watched.visited
  · rw [hcur]
    exact h.watched.others

theorem Sound.startUpdate (h : s.Sound) : s.startUpdate.Sound := by
  refine h.reframe ⟨h.control.shape, h.control.flushing, ?_, ?_⟩ rfl
  · show s.pendingUpdates + 1 = (AppFrame.update :: s.frames).count .update
    rw [List.count_cons_self, h.control.updates]
  · intro hnil
    cases hnil

/-- **An update ends**, or a flush begins. -/
theorem Sound.finishUpdate (h : s.Sound) (hf : s.frames = .update :: rest) : (s.finishUpdate rest).Sound := by
  have hcount := h.control.updates
  rw [hf, List.count_cons_self] at hcount
  have hsk : s.skeleton = rest.filter (· ≠ .update) := by
    rw [skeleton, hf, List.filter_cons_of_neg (by simp)]
  rw [App.finishUpdate]
  split
  · rename_i hflush
    obtain ⟨hnot, hone⟩ := hflush
    have hempty : s.skeleton = [] := by
      by_contra hne
      rw [h.control.flushing.mpr hne] at hnot
      cases hnot
    have hsk' : (AppFrame.flush :: .update :: rest).filter (· ≠ .update) = [.flush] := by
      rw [List.filter_cons_of_pos (by decide), ← hf]
      exact congrArg _ hempty
    refine h.reframe ⟨Or.inr (Or.inl hsk'), ?_, ?_, fun hnil => by cases hnil⟩ ?_
    · exact iff_of_true rfl (by rw [skeleton, hsk']; simp)
    · show s.pendingUpdates = (AppFrame.flush :: .update :: rest).count .update
      rw [List.count_cons_of_ne (by decide), List.count_cons_self, hcount]
    · rw [current, current, hf]
      rfl
  · rename_i hno
    refine h.reframe ⟨?_, ?_, ?_, ?_⟩ ?_
    · have := h.control.shape
      rw [hsk] at this
      exact this
    · have := h.control.flushing
      rw [hsk] at this
      exact this
    · show s.pendingUpdates - 1 = rest.count .update
      omega
    · -- the last update cannot end without a flush
      intro hnil
      have hnil : rest = [] := hnil
      subst hnil
      refine absurd ⟨?_, hcount⟩ hno
      rw [Bool.eq_false_iff]
      intro hfl
      exact h.control.flushing.mp hfl hsk
    · rw [current, current, hf]
      rfl

/-- **The flush ends** when nothing is queued. -/
theorem Sound.endFlush (h : s.Sound)
    (hf : s.frames = .flush :: .update :: rest) (hempty : s.pendingEffects = []) :
    Sound { s with
      flushingEffects := false, pendingUpdates := s.pendingUpdates - 1, frames := rest } := by
  obtain ⟨hsk, -⟩ := h.control.of_flush hf
  have hrest : rest.filter (· ≠ .update) = [] := by
    rw [skeleton, hf, List.filter_cons_of_pos (by decide), List.filter_cons_of_neg (by simp)] at hsk
    exact (List.cons.inj hsk).2
  have hcount := h.control.updates
  rw [hf, List.count_cons_of_ne (by decide), List.count_cons_self] at hcount
  refine h.reframe ⟨Or.inl hrest, ?_, ?_, fun _ => hempty⟩ ?_
  · refine iff_of_false Bool.false_ne_true fun hne => hne hrest
  · show s.pendingUpdates - 1 = rest.count .update
    omega
  · rw [current, current, hf]
    rfl

/-! ### Applying an effect -/

/-- The head of the queue is taken off, and its mark. -/
theorem Exact.pop (h : s.Exact) (hq : s.pendingEffects = effect :: effects) {pending : NotifyKind → Finset Nat}
    (hp : ∀ kind id, id ∈ pending kind ↔
    id ∈ s.pending kind ∧ effect.notifies ≠ some (kind, id)) :
    Exact { s with pendingEffects := effects, pending := pending } := by
  intro kind id
  have hcount := h kind id
  rw [queued, hq] at hcount
  show (effects.filterMap Effect.notifies).count (kind, id) = if id ∈ pending kind then 1 else 0
  cases he : effect.notifies with
  | none =>
    rw [List.filterMap_cons_none he] at hcount
    have hiff : id ∈ pending kind ↔ id ∈ s.pending kind := by
      rw [hp, he]
      simp
    simp only [hiff]
    exact hcount
  | some notified =>
    rw [List.filterMap_cons_some he, List.count_cons] at hcount
    by_cases hn : notified = (kind, id)
    · subst hn
      have hnot : id ∉ pending kind := fun hmem => ((hp kind id).mp hmem).2 he
      rw [if_neg hnot]
      simp only [beq_self_eq_true, if_true] at hcount
      split at hcount <;> omega
    · have hiff : id ∈ pending kind ↔ id ∈ s.pending kind := by
        rw [hp, he]
        simp [hn]
      simp only [hiff]
      simpa [hn] using hcount

theorem placed_update {kind : NotifyKind}
    (h : ∀ kind, (observers kind).Placed) (ho : o.Placed) (kind' : NotifyKind) :
    (Function.update observers kind o kind').Placed := by
  by_cases hk : kind' = kind
  · subst hk
    rw [Function.update_self]
    exact ho
  · rw [Function.update_of_ne hk]
    exact h kind'

/-- The effect `p` takes its place on the flush. -/
theorem Control.skeleton_pushApply (h : s.Control)
    (hf : s.frames = .flush :: rest) (hs : s'.frames = .apply p :: s.frames) :
    s'.skeleton = [.apply p, .flush] ∧ s'.current = [p] := by
  have hsk' : s'.skeleton = [.apply p, .flush] := by
    rw [skeleton, hs, List.filter_cons_of_pos (by simp)]
    exact congrArg _ (h.of_flush hf).1
  refine ⟨hsk', ?_⟩
  rw [current_eq_skeleton, hsk']
  rfl

theorem Control.pushApply (h : s.Control)
    (hf : s.frames = .flush :: rest) (hs : s'.frames = .apply p :: s.frames)
    (hflushing : s'.flushingEffects = s.flushingEffects)
    (hupdates : s'.pendingUpdates = s.pendingUpdates) : s'.Control := by
  obtain ⟨hsk', -⟩ := h.skeleton_pushApply hf hs
  refine ⟨Or.inr (Or.inr ⟨p, hsk'⟩), ?_, ?_, ?_⟩
  · rw [hflushing, hsk', h.flushing, (h.of_flush hf).1]
    simp
  · rw [hupdates, hs, List.count_cons_of_ne (by simp), h.updates]
  · intro hnil
    rw [hs] at hnil
    cases hnil

/-- **An effect is taken** from the queue.  `s'` is what its handler begins
with. -/
theorem Sound.beginApply (h : s.Sound) (hf : s.frames = .flush :: rest)
    (hq : s.pendingEffects = p.effect :: effects) {pending : NotifyKind → Finset Nat}
    (hp : ∀ kind id, id ∈ pending kind ↔ id ∈ s.pending kind ∧ p.effect.notifies ≠ some (kind, id))
    (hplaced : ∀ kind, (observers kind).Placed)
    (hvisited : ∀ kind id, p.effect.notifies = some (kind, id) → Watching (observers kind) p)
    (hothers : ∀ kind, (∀ id, p.effect.notifies ≠ some (kind, id)) → (observers kind).passes = [])
    (invalidators : WindowId → WindowInvalidator) :
    Sound { s with
      pendingEffects := effects
      pending := pending
      observers := observers
      invalidators := invalidators
      frames := .apply p :: s.frames } := by
  obtain ⟨-, hcur⟩ := h.control.of_flush hf
  have hnow : ∀ t : App, t.frames = .apply p :: s.frames → t.current = [p] :=
    fun t ht => (h.control.skeleton_pushApply hf ht).2
  refine ⟨h.exact.pop hq hp, ?_, h.delivered, h.control.pushApply hf rfl rfl rfl,
    ⟨fun q hmem => ?_, fun kind hn => ?_⟩, hplaced⟩
  · rw [applying_eq, hnow _ rfl]
    show s.pushed = s.processed.map Processed.effect ++ [p.effect] ++ effects
    rw [h.order, applying_eq, hcur, hq]
    simp
  · rw [hnow _ rfl, List.mem_singleton] at hmem
    subst hmem
    exact hvisited
  · refine hothers kind (hn p ?_)
    rw [hnow _ rfl]
    exact List.mem_singleton_self _

theorem Sound.popEffect (h : s.Sound) (hf : s.frames = .flush :: rest)
    (hq : s.pendingEffects = effect :: effects)
    (hs : applyEffect { s with pendingEffects := effects } effect = some s') : s'.Sound := by
  have hquiet : ∀ kind, (s.observers kind).passes = [] := by
    intro kind
    refine h.watched.others kind fun p hp => ?_
    rw [(h.control.of_flush hf).2] at hp
    exact absurd hp List.not_mem_nil
  rw [applyEffect] at hs
  split at hs
  · rename_i kind id he
    obtain ⟨begun, hbegun, rfl⟩ := Option.map_eq_some_iff.mp hs
    obtain ⟨o', ho', rfl⟩ := Option.map_eq_some_iff.mp hbegun
    refine h.beginApply hf hq (fun kind' id' => ?_)
      (placed_update h.placed ((h.placed kind).step ho')) (fun kind' id' hn => ?_)
      (fun kind' hn => ?_) s.invalidators
    · show id' ∈ Function.update s.pending kind ((s.pending kind).erase id) kind' ↔
        id' ∈ s.pending kind' ∧ effect.notifies ≠ some (kind', id')
      by_cases hk : kind' = kind
      · subst hk
        rw [Function.update_self, Finset.mem_erase, he]
        simp [eq_comm, and_comm]
      · rw [Function.update_of_ne hk, he]
        simp [Ne.symm hk]
    · obtain ⟨rfl, rfl⟩ : kind = kind' ∧ id = id' := by
        have hn : effect.notifies = some (kind', id') := hn
        rw [he] at hn
        simpa using hn
      show Watching (Function.update s.observers kind o' kind) _
      rw [Function.update_self]
      exact watching_beginRetain (h.placed kind) (hquiet kind) ho' effect
    · have hk : kind' ≠ kind := by
        rintro rfl
        exact hn id he
      show (Function.update s.observers kind o' kind').passes = []
      rw [Function.update_of_ne hk]
      exact hquiet kind'
  · rename_i he
    have hsame : ∀ invalidators : WindowId → WindowInvalidator, Sound { s with
        pendingEffects := effects
        invalidators := invalidators
        frames := .apply ⟨effect, [], []⟩ :: s.frames } := by
      intro invalidators
      refine h.beginApply hf hq (fun kind id => ?_) h.placed (fun kind id hn => ?_)
        (fun kind _ => hquiet kind) invalidators
      · simp [he]
      · rw [he] at hn
        cases hn
    cases hs
    split
    · exact hsame _
    · exact hsame s.invalidators

theorem Control.setApply (h : s.Control) {p' : Processed}
    (hf : s.frames = .apply p :: rest) (hs : s'.frames = .apply p' :: rest)
    (hflushing : s'.flushingEffects = s.flushingEffects)
    (hupdates : s'.pendingUpdates = s.pendingUpdates) : s'.Control ∧ s'.current = [p'] := by
  obtain ⟨hsk, hrest, -⟩ := h.of_apply hf
  have hsk' : s'.skeleton = [.apply p', .flush] := by
    rw [skeleton, hs, List.filter_cons_of_pos (by simp), hrest]
  refine ⟨⟨Or.inr (Or.inr ⟨p', hsk'⟩), ?_, ?_, ?_⟩, ?_⟩
  · rw [hflushing, hsk', h.flushing, hsk]
    simp
  · rw [hupdates, hs, List.count_cons_of_ne (by simp), h.updates, hf,
      List.count_cons_of_ne (by simp)]
  · intro hnil
    rw [hs] at hnil
    cases hnil
  · rw [current_eq_skeleton, hsk']
    rfl

/-- **Its observers are visited.** -/
theorem Sound.advance (h : s.Sound) (hadv : ∀ {o o' : SubscriberSet Nat Unit}, o.step act = some o' →
    ∃ called, o.Advances o' act called) (hs : s.advance act = some s') : s'.Sound := by
  rw [App.advance] at hs
  split at hs
  · rename_i p rest hf
    obtain ⟨⟨kind, id⟩, he, hs⟩ := Option.bind_eq_some_iff.mp hs
    obtain ⟨o', ho', rfl⟩ := Option.map_eq_some_iff.mp hs
    obtain ⟨-, -, hcur⟩ := h.control.of_apply hf
    obtain ⟨called, ha⟩ := hadv ho'
    have hcalls : (o'.calls.drop (s.observers kind).calls.length).map Call.id = called := by
      obtain ⟨_, _, _, calls, -, -, rfl, hc⟩ := ha
      rw [List.drop_left]
      exact hc
    have hcontrol : ∀ t : App, t.frames = .apply { p with called := p.called ++ called } :: rest →
        t.flushingEffects = s.flushingEffects → t.pendingUpdates = s.pendingUpdates →
        t.Control ∧ t.current = [{ p with called := p.called ++ called }] :=
      fun t ht => h.control.setApply hf ht
    simp only [hcalls]
    obtain ⟨hctl, hnow⟩ := hcontrol { s.setObservers kind o' with
      frames := .apply { p with called := p.called ++ called } :: rest } rfl rfl rfl
    refine ⟨h.exact, ?_, h.delivered, hctl, ⟨fun q hq kind' id' hn => ?_, fun kind' hn => ?_⟩,
      placed_update h.placed ((h.placed kind).step ho')⟩
    · rw [applying_eq, hnow]
      have := h.order
      rw [applying_eq, hcur] at this
      exact this
    · rw [hnow, List.mem_singleton] at hq
      subst hq
      obtain ⟨rfl, rfl⟩ : kind = kind' ∧ id = id' := by
        have hn : p.effect.notifies = some (kind', id') := hn
        rw [he] at hn
        simpa using hn
      show Watching (Function.update s.observers kind o' kind) _
      rw [Function.update_self]
      exact (h.watched.visited p (by rw [hcur]; exact List.mem_singleton_self _) kind id he).advances ha
    · have hk : kind' ≠ kind := by
        rintro rfl
        exact hn { p with called := p.called ++ called }
          (by rw [hnow]; exact List.mem_singleton_self _) id he
      show (Function.update s.observers kind o' kind').passes = []
      rw [Function.update_of_ne hk]
      refine h.watched.others kind' fun q hq id' => ?_
      rw [hcur, List.mem_singleton] at hq
      subst hq
      exact hn { q with called := q.called ++ called }
        (by rw [hnow]; exact List.mem_singleton_self _) id'
  · cases hs

theorem Sound.endNotify (h : s.Sound) (hp : p ∈ s.current) {kind : NotifyKind}
    {id : Nat} (he : p.effect.notifies = some (kind, id)) (hs : s.endNotify kind = some s') :
    p.Delivered ∧ ∃ o, s' = s.setObservers kind o ∧ o.passes = [] ∧ o.Placed := by
  have hw := h.watched.visited p hp kind id he
  rw [App.endNotify] at hs
  split at hs
  · rename_i hempty
    have hnil : (s.observers kind).passes = [] := List.isEmpty_iff.mp hempty
    cases hs
    refine ⟨?_, s.observers kind, ?_, hnil, h.placed kind⟩
    · rcases hw with ⟨-, hd⟩ | ⟨pass, hpass, -⟩
      · exact hd
      · rw [hnil] at hpass
        cases hpass
    · rw [setObservers, Function.update_eq_self]
  · obtain ⟨o', ho', rfl⟩ := Option.map_eq_some_iff.mp hs
    obtain ⟨hnil, hd⟩ := hw.ended ho'
    exact ⟨hd, o', rfl, hnil, (h.placed kind).step ho'⟩

/-- The effect `p` is over, and nothing is visited any more. -/
theorem Sound.finishApply (h : s.Sound)
    (hf : s.frames = .apply p :: rest) (hd : p.effect.notifies ≠ none → p.Delivered)
    (hquiet : ∀ kind, (observers kind).passes = []) (hplaced : ∀ kind, (observers kind).Placed) :
    Sound { s with
      observers := observers, frames := rest, processed := s.processed ++ [p] } := by
  obtain ⟨hsk, hrest, hcur⟩ := h.control.of_apply hf
  have hnow : ∀ t : App, t.frames = rest → t.current = [] := by
    intro t ht
    rw [current_eq_skeleton, skeleton, ht, hrest]
    rfl
  refine ⟨h.exact, ?_, ?_, ⟨Or.inr (Or.inl hrest), ?_, ?_, ?_⟩, ⟨?_, ?_⟩, hplaced⟩
  · rw [applying_eq, hnow _ rfl]
    show s.pushed = (s.processed ++ [p]).map Processed.effect ++ [] ++ s.pendingEffects
    rw [h.order, applying_eq, hcur]
    simp
  · intro q hq
    rcases List.mem_append.mp hq with hold | hnew
    · exact h.delivered q hold
    · rw [List.mem_singleton.mp hnew]
      exact hd
  · show s.flushingEffects = true ↔ rest.filter (· ≠ .update) ≠ []
    rw [h.control.flushing, hsk, hrest]
    simp
  · show s.pendingUpdates = rest.count .update
    rw [h.control.updates, hf, List.count_cons_of_ne (by simp)]
  · intro hnil
    have hnil : rest = [] := hnil
    rw [hnil] at hrest
    cases hrest
  · intro q hq
    rw [hnow _ rfl] at hq
    exact absurd hq List.not_mem_nil
  · exact fun kind _ => hquiet kind

/-- **The effect is processed.** -/
theorem Sound.endApply (h : s.Sound) (hs : s.endApply = some s') : s'.Sound := by
  rw [App.endApply] at hs
  split at hs
  · rename_i p rest hf
    obtain ⟨-, -, hcur⟩ := h.control.of_apply hf
    have hp : p ∈ s.current := by
      rw [hcur]
      exact List.mem_singleton_self p
    have hothers : ∀ kind, (∀ id, p.effect.notifies ≠ some (kind, id)) →
        (s.observers kind).passes = [] := by
      refine fun kind hn => h.watched.others kind fun q hq => ?_
      rw [hcur, List.mem_singleton] at hq
      rw [hq]
      exact hn
    obtain ⟨ended, hended, rfl⟩ := Option.map_eq_some_iff.mp hs
    cases he : p.effect.notifies with
    | none =>
      rw [he] at hended
      cases hended
      refine h.finishApply hf (absurd he) (fun kind => hothers kind fun id => ?_) h.placed
      rw [he]
      nofun
    | some notified =>
      obtain ⟨kind, id⟩ := notified
      rw [he] at hended
      obtain ⟨hd, o, rfl, hnil, ho⟩ := h.endNotify hp he hended
      refine h.finishApply hf (fun _ => hd) (fun kind' => ?_) (placed_update h.placed ho)
      show (Function.update s.observers kind o kind').passes = []
      by_cases hk : kind' = kind
      · subst hk
        rw [Function.update_self]
        exact hnil
      · rw [Function.update_of_ne hk]
        refine hothers kind' fun id' hn => ?_
        rw [he] at hn
        cases hn
        exact hk rfl
  · cases hs

/-- **Every action keeps it.** -/
theorem Sound.step (h : s.Sound) {act : AppAct} (hs : s.step act = some s') : s'.Sound := by
  cases act with
  | notify entity =>
    obtain ⟨hcode, hs⟩ := Option.ite_none_right_eq_some.mp hs
    cases hs
    exact h.queues (queues_notify s entity) (Or.inl (frames_ne_nil_of_runsCode hcode))
  | pushEffect effect =>
    obtain ⟨hcode, hs⟩ := Option.ite_none_right_eq_some.mp hs
    cases hs
    exact h.queues (queues_pushEffect s effect) (Or.inl (frames_ne_nil_of_runsCode hcode))
  | subscribers kind act =>
    obtain ⟨hcode, hs⟩ := Option.ite_none_right_eq_some.mp hs
    obtain ⟨o', ho', rfl⟩ := Option.map_eq_some_iff.mp hs
    exact h.subscribers (Bool.and_eq_true_iff.mp hcode).2 ho'
  | recordEntitiesAccessed entity windows =>
    cases hs
    exact h.queues (queues_windows s _ s.invalidators) (Or.inr rfl)
  | setPhase window phase =>
    cases hs
    exact h.queues (queues_windows s s.windowInvalidatorsByEntity _) (Or.inr rfl)
  | startUpdate =>
    obtain ⟨-, hs⟩ := Option.ite_none_right_eq_some.mp hs
    cases hs
    exact h.startUpdate
  | finishUpdate =>
    obtain ⟨rest, hf, rfl⟩ := step_finishUpdate hs
    exact h.finishUpdate hf
  | popEffect =>
    obtain ⟨rest, effect, effects, hf, hq, hs⟩ := step_popEffect hs
    exact h.popEffect hf hq hs
  | visit =>
    exact h.advance SubscriberSet.step_visit hs
  | «return» keep =>
    exact h.advance (fun ho => ⟨[], SubscriberSet.step_return ho⟩) hs
  | endApply => exact h.endApply hs
  | endFlush =>
    obtain ⟨rest, hf, hq, rfl⟩ := step_endFlush hs
    exact h.endFlush hf hq

theorem Sound.run (h : s.Sound) {acts : List AppAct} (hrun : run App.step s acts = some s') :
    s'.Sound :=
  run_invariant (fun _ _ _ hi (_ : True) hs => Sound.step hi hs) acts h
    (RunMeets.of_forall (fun _ _ => trivial) acts s) hrun

/-! ### What was queued stays in the log -/

theorem Queues.pushed (h : s.Queues s') : s.pushed <+: s'.pushed := by
  obtain ⟨added, -, hpushed⟩ := h.effects
  exact ⟨added, hpushed.symm⟩

theorem pushed_advance (hs : s.advance act = some s') : s'.pushed = s.pushed := by
  rw [App.advance] at hs
  split at hs
  · obtain ⟨notified, -, hs⟩ := Option.bind_eq_some_iff.mp hs
    obtain ⟨o', -, rfl⟩ := Option.map_eq_some_iff.mp hs
    rfl
  · cases hs

theorem pushed_applyEffect (hs : s.applyEffect effect = some s') : s'.pushed = s.pushed := by
  rw [applyEffect] at hs
  split at hs
  · obtain ⟨begun, hbegun, rfl⟩ := Option.map_eq_some_iff.mp hs
    obtain ⟨o', -, rfl⟩ := Option.map_eq_some_iff.mp hbegun
    rfl
  · cases hs
    show (if effect = .refreshWindows then s.applyRefreshEffect else s).pushed = s.pushed
    split <;> rfl

theorem pushed_endNotify {kind : NotifyKind} (hs : s.endNotify kind = some s') :
    s'.pushed = s.pushed := by
  rw [App.endNotify] at hs
  split at hs
  · cases hs
    rfl
  · obtain ⟨o', -, rfl⟩ := Option.map_eq_some_iff.mp hs
    rfl

theorem pushed_endApply (hs : s.endApply = some s') : s'.pushed = s.pushed := by
  rw [App.endApply] at hs
  split at hs
  · obtain ⟨ended, hended, rfl⟩ := Option.map_eq_some_iff.mp hs
    show ended.pushed = s.pushed
    split at hended
    · exact pushed_endNotify hended
    · cases hended
      rfl
  · cases hs

theorem pushed_step {act : AppAct} (hs : s.step act = some s') : s.pushed <+: s'.pushed := by
  cases act with
  | notify entity =>
    obtain ⟨-, hs⟩ := Option.ite_none_right_eq_some.mp hs
    cases hs
    exact (queues_notify s entity).pushed
  | pushEffect effect =>
    obtain ⟨-, hs⟩ := Option.ite_none_right_eq_some.mp hs
    cases hs
    exact (queues_pushEffect s effect).pushed
  | subscribers kind act =>
    obtain ⟨-, hs⟩ := Option.ite_none_right_eq_some.mp hs
    obtain ⟨o', -, rfl⟩ := Option.map_eq_some_iff.mp hs
    exact List.prefix_refl _
  | recordEntitiesAccessed entity windows =>
    cases hs
    exact List.prefix_refl _
  | setPhase window phase =>
    cases hs
    exact List.prefix_refl _
  | startUpdate =>
    obtain ⟨-, hs⟩ := Option.ite_none_right_eq_some.mp hs
    cases hs
    exact List.prefix_refl _
  | finishUpdate =>
    obtain ⟨rest, -, rfl⟩ := step_finishUpdate hs
    rw [App.finishUpdate]
    split <;> exact List.prefix_refl _
  | popEffect =>
    obtain ⟨rest, effect, effects, -, -, hs⟩ := step_popEffect hs
    rw [pushed_applyEffect hs]
  | visit => rw [pushed_advance hs]
  | «return» keep => rw [pushed_advance hs]
  | endApply => rw [pushed_endApply hs]
  | endFlush =>
    obtain ⟨rest, -, -, rfl⟩ := step_endFlush hs
    exact List.prefix_refl _

theorem pushed_run {acts : List AppAct} (hrun : run App.step s acts = some s') :
    s.pushed <+: s'.pushed := by
  induction acts generalizing s with
  | nil =>
    cases hrun
    exact List.prefix_refl _
  | cons act acts ih =>
    obtain ⟨t, ht, hrun⟩ := Option.bind_eq_some_iff.mp hrun
    exact (pushed_step ht).trans (ih hrun)

/-! ### Nothing is lost -/

theorem Exact.count (h : s.Exact) {kind : NotifyKind} {id : Nat}
    (he : ∀ e : Effect, e.notifies = some (kind, id) ↔ e = effect) :
    s.pendingEffects.count effect = if id ∈ s.pending kind then 1 else 0 := by
  rw [← h kind id, queued, List.count_filterMap, List.count]
  refine List.countP_congr fun e _ => ?_
  rw [beq_iff_eq, beq_iff_eq]
  exact (he e).symm

theorem Sound.pending_eq_empty (h : s.Sound) (hempty : s.pendingEffects = []) (kind : NotifyKind) :
    s.pending kind = ∅ := by
  rw [Finset.eq_empty_iff_forall_notMem]
  intro id hid
  have hcount := h.exact kind id
  rw [if_pos hid, queued, hempty] at hcount
  cases hcount

/-- Nothing is queued or being applied, and no notification is marked. -/
structure Settled (s : App) : Prop where
  effects : s.pendingEffects = []
  applying : s.applying = []
  notifications : s.pendingNotifications = ∅
  globals : s.pendingGlobalNotifications = ∅

theorem Sound.settled (h : s.Sound) (hempty : s.pendingEffects = []) (hcur : s.current = []) :
    s.Settled where
  effects := hempty
  applying := by rw [applying_eq, hcur, List.map_nil]
  notifications := h.pending_eq_empty hempty .entity
  globals := h.pending_eq_empty hempty .global

/-- **A completed flush leaves nothing.** -/
theorem Sound.settled_endFlush (h : s.Sound) (hs : s.step .endFlush = some s') : s'.Settled := by
  have h' := h.step hs
  obtain ⟨rest, hf, hempty, rfl⟩ := step_endFlush hs
  refine h'.settled hempty ?_
  obtain ⟨-, hcur⟩ := h.control.of_flush hf
  rw [current, hf] at hcur
  exact hcur

theorem Sound.settled_idle (h : s.Sound) (hidle : s.frames = []) : s.Settled := by
  refine h.settled (h.control.idle hidle) ?_
  rw [current, hidle]
  rfl

/-- **A notification has its place in the log**, after what was processed so
far. -/
theorem Sound.notify_place (h : s.Sound) {entity : EntityId}
    (hs : s.step (.notify entity) = some s')
    (htracking : ∀ window ∈ s.windowInvalidatorsByEntity entity,
      (s.invalidators window).drawPhase = .none) :
    ∃ j, s.processed.length + s.applying.length ≤ j ∧ s'.pushed[j]? = some (.notify entity) := by
  have h' := h.step hs
  obtain ⟨-, hs⟩ := Option.ite_none_right_eq_some.mp hs
  cases hs
  have hq := queues_notify s entity
  obtain ⟨k, hk⟩ := List.mem_iff_getElem?.mp
    (h'.exact.mem_pendingEffects (mem_pending_notify htracking))
  have happlying : (s.notify entity).applying = s.applying := by
    rw [applying, applying, hq.frames]
  have horder := h'.order
  rw [hq.processed, happlying] at horder
  refine ⟨s.processed.length + s.applying.length + k, Nat.le_add_right _ _, ?_⟩
  rw [horder, List.getElem?_append_right (by simp)]
  simpa using hk

/-- What is processed is what was queued at its place, and its observers were
called. -/
theorem Sound.processed_place (h : s.Sound) {j : Nat}
    (hj : s.pushed[j]? = some effect) (hsettled : s.Settled) :
    ∃ p, s.processed[j]? = some p ∧ p.effect = effect ∧ (effect.notifies ≠ none → p.Delivered) := by
  have horder := h.order
  rw [hsettled.applying, hsettled.effects, List.append_nil, List.append_nil] at horder
  rw [horder, List.getElem?_map] at hj
  obtain ⟨p, hp, rfl⟩ := Option.map_eq_some_iff.mp hj
  exact ⟨p, hp, rfl, h.delivered p (List.mem_of_getElem? hp)⟩

/-- **Notifications are coalesced but never lost**, in every state `s` of every
run.  The notification of `entity` keeps its place `j` in the order of the effects,
and once nothing is queued or applied, it is processed and every observer that was
active then is called. -/
theorem notifications_coalesced {acts : List AppAct} (hrun : run App.step new acts = some s) :
    (∀ entity, s.pendingEffects.count (.notify entity) =
      if entity ∈ s.pendingNotifications then 1 else 0) ∧
    (∀ globalType, s.pendingEffects.count (.notifyGlobalObservers globalType) =
      if globalType ∈ s.pendingGlobalNotifications then 1 else 0) ∧
    s.pushed = s.processed.map Processed.effect ++ s.applying ++ s.pendingEffects ∧
    (∀ s', s.step .endFlush = some s' → s'.Settled) ∧
    (s.frames = [] → s.Settled) ∧
    ∀ entity s₁, s.step (.notify entity) = some s₁ →
      (∀ window ∈ s.windowInvalidatorsByEntity entity,
        (s.invalidators window).drawPhase = .none) →
      ∃ j, s.processed.length + s.applying.length ≤ j ∧
        ∀ later s₂, run App.step s₁ later = some s₂ → s₂.Settled →
          ∃ p, s₂.processed[j]? = some p ∧ p.effect = .notify entity ∧
            ∀ i ∈ p.active, i ∈ p.called := by
  have h := sound_new.run hrun
  refine ⟨fun entity => h.exact.count fun _ => Effect.notifies_eq_entity,
    fun globalType => h.exact.count fun _ => Effect.notifies_eq_global, h.order,
    fun _ => h.settled_endFlush, h.settled_idle, fun entity s₁ hs htracking => ?_⟩
  obtain ⟨j, hle, hj⟩ := h.notify_place hs htracking
  refine ⟨j, hle, fun later s₂ hlater hsettled => ?_⟩
  obtain ⟨added, hadded⟩ := pushed_run hlater
  have hj₂ : s₂.pushed[j]? = some (.notify entity) := by
    rw [← hadded, List.getElem?_append_left (List.getElem?_eq_some_iff.mp hj).1]
    exact hj
  obtain ⟨p, hp, heffect, hd⟩ := ((h.step hs).run hlater).processed_place hj₂ hsettled
  exact ⟨p, hp, heffect, hd nofun⟩

/-- An update in which an observer of entity 7 is subscribed, and activated in a
nested one. -/
def observed : List AppAct :=
  [.startUpdate, .subscribers .entity (.insert 7 ()), .startUpdate,
    .subscribers .entity (.activate 0), .finishUpdate]

/-- The entity is notified a second time, and again by its observer. -/
def delivery : List AppAct :=
  [.notify 7, .finishUpdate, .popEffect, .visit, .notify 7, .return true, .endApply,
    .popEffect, .visit, .return true, .endApply, .endFlush]

def beforeNotify : App := (run App.step new observed).get (by decide +kernel)

def afterNotify : App := (beforeNotify.step (.notify 7)).get (by decide +kernel)

def afterDelivery : App :=
  (run App.step afterNotify delivery).get (by decide +kernel)

/-- In that run the first notification is processed, and the observer called. -/
theorem notifications_coalesced_delivery :
    run App.step new observed = some beforeNotify ∧
    beforeNotify.step (.notify 7) = some afterNotify ∧
    run App.step afterNotify delivery = some afterDelivery ∧
    afterDelivery.Settled ∧
    ∃ p ∈ afterDelivery.processed, p.effect = .notify 7 ∧ p.active = [0] ∧ 0 ∈ p.called := by
  have hrun : run App.step new observed = some beforeNotify := (Option.some_get _).symm
  have hstep : beforeNotify.step (.notify 7) = some afterNotify := (Option.some_get _).symm
  have hlater : run App.step afterNotify delivery = some afterDelivery := (Option.some_get _).symm
  have hsettled : afterDelivery.Settled :=
    ⟨by decide +kernel, by decide +kernel, by decide +kernel, by decide +kernel⟩
  have hactive : ∀ p ∈ afterDelivery.processed, p.active = [0] := by decide +kernel
  obtain ⟨-, -, -, -, -, hnotify⟩ := notifications_coalesced hrun
  obtain ⟨j, -, hj⟩ := hnotify 7 afterNotify hstep (by decide +kernel)
  obtain ⟨p, hp, heffect, hcalled⟩ := hj delivery afterDelivery hlater hsettled
  have hp := List.mem_of_getElem? hp
  refine ⟨hrun, hstep, hlater, hsettled, p, hp, heffect, hactive p hp, hcalled 0 ?_⟩
  rw [hactive p hp]
  exact List.mem_singleton_self 0

end App

end FcGpui
