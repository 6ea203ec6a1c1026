import FcGpui.App.MissingWindows

/-!
# The tables of invalidation

`App::record_entities_accessed` and `notify` in `crates/gpui/src/app.rs`, over the windows
of `FcGpui.App.Windows`.  `tracked_entities` has for each window the entities that its
last draw read, `window_invalidators_by_entity` has for each entity the windows to
invalidate when it changes.  A draw rewrites both for its window, and `notify` takes the
windows of the entity out while it invalidates them.

A window shares its invalidator with the tables; it is found by the id of the window.
Neither the release of an entity nor the closing of a window touches the tables.  The
first is code of the application like any other, so it needs no action of its own.  The
second is why they are right about open windows (`Accurate`) only as long as no window is
closed that has been drawn.

**Main result.**  `tables_accurate`: the tables are accurate in all states of a run exactly
if all its steps keep the windows that are tracked.
-/

namespace FcGpui

structure TrackingApp where
  app : WindowedApp
  trackedEntities : WindowId → Option (Finset EntityId)
  windowInvalidatorsByEntity : EntityId → Option (List WindowId)
  invalidators : WindowId → WindowInvalidator

inductive TrackingAct
  | app (act : WindowAct)
  | setPhase (id : WindowId) (phase : DrawPhase)
  | draw (id : WindowId) (accessed : Finset EntityId)
  | notify (entity : EntityId)

namespace TrackingApp

def new : TrackingApp where
  app := WindowedApp.new
  trackedEntities := fun _ => none
  windowInvalidatorsByEntity := fun _ => none
  invalidators := fun _ => ⟨true, .none, ∅, 0⟩

/-- The entities that `tracked_entities` has for a window. -/
def tracked (s : TrackingApp) (id : WindowId) : Finset EntityId := (s.trackedEntities id).getD ∅

/-- The windows that `window_invalidators_by_entity` has for an entity. -/
def windowsOf (s : TrackingApp) (entity : EntityId) : List WindowId :=
  (s.windowInvalidatorsByEntity entity).getD []

/-- The window is removed from the entities it tracked. -/
def untrack (s : TrackingApp) (id : WindowId) : TrackingApp :=
  { s with
    windowInvalidatorsByEntity := fun entity =>
      if entity ∈ s.tracked id then (s.windowInvalidatorsByEntity entity).map (·.erase id)
      else s.windowInvalidatorsByEntity entity }

/-- The window is inserted for the entities it has accessed. -/
def track (s : TrackingApp) (id : WindowId) (entities : Finset EntityId) : TrackingApp :=
  { s with
    trackedEntities := Function.update s.trackedEntities id (some entities)
    windowInvalidatorsByEntity := fun entity =>
      if entity ∈ entities then some ((s.windowsOf entity).insert id)
      else s.windowInvalidatorsByEntity entity }

def recordEntitiesAccessed (s : TrackingApp) (id : WindowId) (entities : Finset EntityId) :
    TrackingApp := (s.untrack id).track id entities

/-- `WindowInvalidator::invalidate_view`. -/
def invalidateView (entity : EntityId) (s : TrackingApp) (id : WindowId) : TrackingApp :=
  let inner := s.invalidators id
  let inner := { inner with
    updateCount := inner.updateCount + 1
    dirtyViews := insert entity inner.dirtyViews }
  if inner.drawPhase = .none then
    { s with
      invalidators := Function.update s.invalidators id { inner with dirty := true }
      app := s.app.pushEffect (.notify entity) }
  else { s with invalidators := Function.update s.invalidators id inner }

def setWindowsOf (s : TrackingApp) (entity : EntityId) (windows : List WindowId) : TrackingApp :=
  { s with
    windowInvalidatorsByEntity := Function.update s.windowInvalidatorsByEntity entity (some windows) }

/-- `App::notify`, between taking the windows of the entity and putting them back. -/
def invalidateWindows (s : TrackingApp) (entity : EntityId) (windows : List WindowId) : TrackingApp :=
  if windows.isEmpty then { s with app := s.app.pushEffect (.notify entity) }
  else windows.foldl (invalidateView entity) s

def notify (s : TrackingApp) (entity : EntityId) : TrackingApp :=
  ((s.setWindowsOf entity []).invalidateWindows entity (s.windowsOf entity)).setWindowsOf entity
    (s.windowsOf entity)

instance onStack.decidable (s : TrackingApp) (id : WindowId) :
    Decidable (some id ∈ s.app.frames.map WindowFrame.onStack) :=
  decidable_of_iff (s.app.frames.any fun frame => frame.onStack == some id) (by simp)

/-- A window is drawn, and its phase set, where it is being updated. -/
def step (s : TrackingApp) : TrackingAct → Option TrackingApp
  | .app act => (s.app.step act).map fun app => { s with app := app }
  | .setPhase id phase =>
    if s.app.runsCode = true ∧ some id ∈ s.app.frames.map WindowFrame.onStack then
      some { s with
        invalidators := Function.update s.invalidators id
          { s.invalidators id with drawPhase := phase } }
    else none
  | .draw id accessed =>
    if s.app.runsCode = true ∧ some id ∈ s.app.frames.map WindowFrame.onStack then
      some (s.recordEntitiesAccessed id accessed)
    else none
  | .notify entity => if s.app.runsCode then some (s.notify entity) else none

/-! ### The tables mirror each other -/

/-- A window is to be invalidated for an entity exactly if it tracks the entity. -/
structure Mirrored (s : TrackingApp) : Prop where
  nodup : ∀ entity, (s.windowsOf entity).Nodup
  inverse : ∀ id entity, id ∈ s.windowsOf entity ↔ entity ∈ s.tracked id

variable {s s' : TrackingApp}

theorem mirrored_new : new.Mirrored where
  nodup _ := List.nodup_nil
  inverse id entity := by simp [windowsOf, tracked, new]

theorem windowsOf_untrack (s : TrackingApp) (id : WindowId) (entity : EntityId) :
    (s.untrack id).windowsOf entity =
      if entity ∈ s.tracked id then (s.windowsOf entity).erase id else s.windowsOf entity := by
  unfold windowsOf untrack
  by_cases h : entity ∈ s.tracked id
  · rw [if_pos h]
    show Option.getD (if entity ∈ s.tracked id then _ else _) [] = _
    rw [if_pos h]
    cases s.windowInvalidatorsByEntity entity <;> rfl
  · rw [if_neg h]
    show Option.getD (if entity ∈ s.tracked id then _ else _) [] = _
    rw [if_neg h]

theorem windowsOf_track (s : TrackingApp) (id : WindowId) (entities : Finset EntityId)
    (entity : EntityId) : (s.track id entities).windowsOf entity =
      if entity ∈ entities then (s.windowsOf entity).insert id else s.windowsOf entity := by
  show Option.getD (if entity ∈ entities then _ else _) [] = _
  split
  · rfl
  · rfl

theorem tracked_track (s : TrackingApp) (id : WindowId) (entities : Finset EntityId)
    (other : WindowId) :
    (s.track id entities).tracked other = if other = id then entities else s.tracked other := by
  unfold tracked track
  by_cases heq : other = id
  · rw [if_pos heq, heq]
    simp only [Function.update_self, Option.getD_some]
  · rw [if_neg heq]
    simp only [Function.update_of_ne heq]

/-- **A draw** makes the tables right about its window, and leaves the others alone. -/
theorem Mirrored.recordEntitiesAccessed (h : s.Mirrored) (id : WindowId) (entities : Finset EntityId) :
    (s.recordEntitiesAccessed id entities).Mirrored := by
  have hnodup : ∀ entity, ((s.untrack id).windowsOf entity).Nodup := by
    intro entity
    rw [windowsOf_untrack]
    split
    · exact (h.nodup entity).erase id
    · exact h.nodup entity
  -- After the first loop the window is in no entry, and the others are as they were.
  have hmem : ∀ other entity, other ∈ (s.untrack id).windowsOf entity ↔
      other ≠ id ∧ entity ∈ s.tracked other := by
    intro other entity
    rw [windowsOf_untrack]
    split
    · rw [(h.nodup entity).mem_erase_iff, h.inverse]
    · rename_i hentity
      rw [h.inverse]
      refine ⟨fun hother => ⟨fun heq => hentity (heq ▸ hother), hother⟩, And.right⟩
  refine ⟨fun entity => ?_, fun other entity => ?_⟩
  · rw [TrackingApp.recordEntitiesAccessed, windowsOf_track]
    split
    · exact (hnodup entity).insert
    · exact hnodup entity
  · have htracked : (s.untrack id).tracked other = s.tracked other := rfl
    rw [TrackingApp.recordEntitiesAccessed, tracked_track, windowsOf_track, htracked]
    by_cases heq : other = id
    · rw [if_pos heq, heq]
      split
      · rename_i hentity
        exact iff_of_true (List.mem_insert_self) hentity
      · rename_i hentity
        rw [hmem]
        exact iff_of_false (fun hself => hself.1 rfl) hentity
    · rw [if_neg heq]
      split
      · rw [List.mem_insert_iff, hmem]
        simp [heq]
      · rw [hmem]
        simp [heq]

/-- What invalidating leaves as it was. -/
structure Invalidates (s s' : TrackingApp) : Prop where
  app : s.app.Quiet s'.app
  tracked : s'.trackedEntities = s.trackedEntities
  windows : s'.windowInvalidatorsByEntity = s.windowInvalidatorsByEntity

theorem invalidates_pushEffect (s : TrackingApp) (entity : EntityId)
    (invalidators : WindowId → WindowInvalidator) :
    s.Invalidates { s with invalidators := invalidators, app := s.app.pushEffect (.notify entity) } := by
  have hquiet : s.app.Quiet (s.app.pushEffect (.notify entity)) :=
    WindowedApp.quiet_pushEffect fun _ _ _ h => by cases h
  exact ⟨hquiet, rfl, rfl⟩

theorem invalidates_invalidateView (entity : EntityId) (s : TrackingApp) (id : WindowId) :
    s.Invalidates (invalidateView entity s id) := by
  rw [invalidateView]
  split
  · exact invalidates_pushEffect s entity _
  · exact ⟨WindowedApp.Quiet.refl s.app, rfl, rfl⟩

theorem invalidates_invalidateWindows (s : TrackingApp) (entity : EntityId) (windows : List WindowId) :
    s.Invalidates (s.invalidateWindows entity windows) := by
  have hfold : ∀ (windows : List WindowId) (s : TrackingApp),
      s.Invalidates (windows.foldl (invalidateView entity) s) := by
    intro windows
    induction windows with
    | nil => exact fun s => ⟨WindowedApp.Quiet.refl s.app, rfl, rfl⟩
    | cons id windows ih =>
      intro s
      have hfirst := invalidates_invalidateView entity s id
      have hrest := ih (invalidateView entity s id)
      exact ⟨hfirst.app.trans hrest.app, hrest.tracked.trans hfirst.tracked,
        hrest.windows.trans hfirst.windows⟩
  rw [invalidateWindows]
  split
  · exact invalidates_pushEffect s entity s.invalidators
  · exact hfold windows s

theorem windowsOf_setWindowsOf (s : TrackingApp) (entity : EntityId) (windows : List WindowId)
    (other : EntityId) : (s.setWindowsOf entity windows).windowsOf other =
      if other = entity then windows else s.windowsOf other := by
  unfold windowsOf setWindowsOf
  by_cases heq : other = entity
  · rw [if_pos heq, heq]
    simp only [Function.update_self, Option.getD_some]
  · rw [if_neg heq]
    simp only [Function.update_of_ne heq]

/-- **A notification** leaves the tables as they were, but for an empty entry. -/
theorem notify_tables (s : TrackingApp) (entity : EntityId) :
    s.app.Quiet (s.notify entity).app ∧ (s.notify entity).trackedEntities = s.trackedEntities ∧
      (s.notify entity).windowsOf = s.windowsOf := by
  obtain ⟨happ, htracked, hwindows⟩ :=
    (s.setWindowsOf entity []).invalidates_invalidateWindows entity (s.windowsOf entity)
  refine ⟨happ, htracked, ?_⟩
  funext other
  rw [notify, windowsOf_setWindowsOf]
  split
  · rename_i heq
    rw [heq]
  · rename_i hne
    rw [windowsOf, hwindows]
    exact (windowsOf_setWindowsOf s entity [] other).trans (if_neg hne)

theorem Mirrored.step {act : TrackingAct} (h : s.Mirrored) (hs : s.step act = some s') :
    s'.Mirrored := by
  cases act with
  | app act =>
    obtain ⟨app, -, rfl⟩ := Option.map_eq_some_iff.mp hs
    exact ⟨h.nodup, h.inverse⟩
  | setPhase id phase =>
    obtain ⟨-, hs⟩ := Option.ite_none_right_eq_some.mp hs
    cases hs
    exact ⟨h.nodup, h.inverse⟩
  | draw id accessed =>
    obtain ⟨-, hs⟩ := Option.ite_none_right_eq_some.mp hs
    cases hs
    exact h.recordEntitiesAccessed id accessed
  | notify entity =>
    obtain ⟨-, hs⟩ := Option.ite_none_right_eq_some.mp hs
    cases hs
    obtain ⟨-, htracked, hwindows⟩ := s.notify_tables entity
    refine ⟨fun other => ?_, fun id other => ?_⟩
    · rw [hwindows]
      exact h.nodup other
    · rw [hwindows, tracked, htracked]
      exact h.inverse id other

/-! ### Closed windows -/

/-- The tables mirror each other, and describe open windows only. -/
structure Accurate (s : TrackingApp) : Prop where
  inverse : ∀ id entity, id ∈ s.windowsOf entity ↔ entity ∈ s.tracked id
  trackedOpen : ∀ id, (s.trackedEntities id).isSome → (s.app.windows id).isSome
  invalidatedOpen : ∀ entity, ∀ id ∈ s.windowsOf entity, (s.app.windows id).isSome

end TrackingApp

namespace WindowedApp

variable {s s' : WindowedApp} {act : WindowAct} {id : WindowId}

/-- The window that an action is about to close. -/
def Closes (s : WindowedApp) (act : WindowAct) (id : WindowId) : Prop :=
  match act with
  | .endWindow | .windowFailed => s.closing = some id
  | .blurWindow other => other = id ∧ s.windows id = some .present ∧ (s.window id).removed = true
  | .clearWindows => True
  | _ => False

/-- A slot that is filled or emptied is still there, and so are the others. -/
theorem isSome_update {other : WindowId} {slot : WindowSlot} (hid : (s.windows id).isSome) :
    (Function.update s.windows other (some slot) id).isSome := by
  by_cases heq : id = other
  · rw [heq, Function.update_self]
    rfl
  · rwa [Function.update_of_ne heq]

theorem isSome_update_none {other : WindowId} (hid : (s.windows id).isSome) :
    (Function.update s.windows other none id).isSome ↔ ¬ other = id := by
  by_cases heq : id = other
  · rw [heq, Function.update_self]
    simp
  · rw [Function.update_of_ne heq]
    exact iff_of_true hid (Ne.symm heq)

theorem isSome_updateWindowId {other : WindowId} (hid : (s.windows id).isSome) :
    ((s.updateWindowId other).windows id).isSome := by
  unfold updateWindowId
  split
  · exact isSome_update hid
  · exact hid

theorem isSome_windows_enter (h : s.enter act = some s') (hid : (s.windows id).isSome) :
    (s'.windows id).isSome ↔ ¬ s.Closes act id := by
  unfold enter at h
  split at h
  · cases h
    exact iff_of_true hid fun hcloses => hcloses
  · cases h
    exact iff_of_true hid fun hcloses => hcloses
  · cases h
    exact iff_of_true (isSome_updateWindowId hid) fun hcloses => hcloses
  · cases h
    exact iff_of_true (isSome_update hid) fun hcloses => hcloses
  · cases h
    exact iff_of_true hid fun hcloses => hcloses
  · cases h

theorem isSome_windows_proceed {frame : WindowFrame} {rest : List WindowFrame}
    (hframes : s.frames = frame :: rest) (h : s.proceed rest frame act = some s')
    (hid : (s.windows id).isSome) : (s'.windows id).isSome ↔ ¬ s.Closes act id := by
  unfold proceed at h
  split at h
  iterate 3
    cases h
    refine iff_of_true ?_ fun hcloses => hcloses
    unfold finishUpdate
    split
    · exact hid
    · exact hid
  · cases h
    exact iff_of_true hid fun hcloses => hcloses
  · rename_i other
    cases h
    show _ ↔ ¬ s.closing = some id
    rw [closing_window hframes]
    unfold endWindow
    split
    · exact (isSome_update_none hid).trans (not_congr (Option.some.injEq other id).symm.to_iff)
    · refine iff_of_true ?_ (by simp)
      unfold putBack
      split
      · exact isSome_update hid
      · exact hid
  · rename_i other
    cases h
    show _ ↔ ¬ s.closing = some id
    rw [closing_creating hframes]
    exact (isSome_update_none hid).trans (not_congr (Option.some.injEq other id).symm.to_iff)
  · cases h
    exact iff_of_true hid fun hcloses => hcloses
  · cases h
    exact iff_of_true hid fun hcloses => hcloses
  · cases h
    refine iff_of_true ?_ fun hcloses => hcloses
    unfold windowOpened
    split
    · exact isSome_update hid
    · exact hid
  · cases h
    exact iff_of_false (by simp [clearWindows]) (not_not_intro trivial)
  · cases h

theorem isSome_windows_blurWindow (focus : FocusId) (remaining : Finset WindowId) (other : WindowId)
    (rest : List WindowFrame) (hid : (s.windows id).isSome) :
    ((s.blurWindow focus remaining other rest).windows id).isSome ↔ ¬ s.Closes (.blurWindow other) id := by
  have hblurred := (s.quiet_blurFocused focus other).windows
  unfold blurWindow
  show _ ↔ ¬ (other = id ∧ s.windows id = some .present ∧ (s.window id).removed = true)
  split
  · rename_i hpresent
    split
    · rename_i hremoved
      show (Function.update (s.blurFocused focus other).windows other none id).isSome ↔ _
      rw [hblurred, isSome_update_none hid]
      refine not_congr ⟨fun heq => ?_, And.left⟩
      subst heq
      exact ⟨rfl, hpresent, hremoved⟩
    · rename_i hremoved
      show ((s.blurFocused focus other).windows id).isSome ↔ _
      rw [hblurred]
      refine iff_of_true hid ?_
      rintro ⟨rfl, -, hr⟩
      exact hremoved hr
  · rename_i hpresent
    refine iff_of_true hid ?_
    rintro ⟨rfl, hp, -⟩
    exact hpresent hp

theorem isSome_windows_flush {frame : WindowFrame} {rest : List WindowFrame}
    (h : s.flush rest frame act = some s') (hid : (s.windows id).isSome) :
    (s'.windows id).isSome ↔ ¬ s.Closes act id := by
  unfold flush at h
  split at h
  · cases h
    exact iff_of_true hid fun hcloses => hcloses
  · obtain ⟨observers, -, rfl⟩ := Option.map_eq_some_iff.mp h
    refine iff_of_true ?_ fun hcloses => hcloses
    unfold callObserver
    split
    · exact isSome_updateWindowId hid
    · exact hid
  · obtain ⟨observers, -, rfl⟩ := Option.map_eq_some_iff.mp h
    exact iff_of_true hid fun hcloses => hcloses
  · unfold endCreated at h
    split at h
    · obtain ⟨observers, -, rfl⟩ := Option.map_eq_some_iff.mp h
      exact iff_of_true hid fun hcloses => hcloses
    · cases h
      exact iff_of_true hid fun hcloses => hcloses
  · cases h
    exact iff_of_true hid fun hcloses => hcloses
  · rename_i focus remaining other
    split at h
    · cases h
      exact isSome_windows_blurWindow focus remaining other rest hid
    · cases h
  · split at h
    · cases h
      exact iff_of_true hid fun hcloses => hcloses
    · cases h
  · cases h
    exact iff_of_true hid fun hcloses => hcloses
  · split at h
    · cases h
      exact iff_of_true hid fun hcloses => hcloses
    · cases h
  · split at h
    · cases h
      exact iff_of_true hid fun hcloses => hcloses
    · cases h
  · split at h
    · refine iff_of_true ?_ fun hcloses => hcloses
      unfold applyEffect at h
      split at h
      · obtain ⟨observers, -, rfl⟩ := Option.map_eq_some_iff.mp h
        exact hid
      · cases h
        unfold unpend
        split
        · exact hid
        · exact hid
    · cases h
  · split at h
    · cases h
      exact iff_of_true hid fun hcloses => hcloses
    · cases h
  · cases h

/-- **What becomes of a window.**  It stays open exactly if the action does not close it. -/
theorem isSome_windows_step (h : s.step act = some s') (hid : (s.windows id).isSome) :
    (s'.windows id).isSome ↔ ¬ s.Closes act id := by
  obtain ⟨-, ⟨-, hclient⟩ | ⟨-, henter⟩ | ⟨frame, rest, hframes, hproceed | hflush⟩⟩ := step_cases h
  · rw [(quiet_client hclient).windows]
    refine iff_of_true hid fun hcloses => ?_
    unfold client at hclient
    split at hclient <;> first | exact hcloses | cases hclient
  · exact isSome_windows_enter henter hid
  · exact isSome_windows_proceed hframes hproceed hid
  · exact isSome_windows_flush hflush hid

end WindowedApp

namespace TrackingApp

variable {s s' : TrackingApp}

/-- No window is closed that is tracked, and none is drawn that is closed. -/
def KeepsTracked (s : TrackingApp) : TrackingAct → Prop
  | .app act => ∀ id, (s.trackedEntities id).isSome → ¬ s.app.Closes act id
  | .draw id _ => (s.app.windows id).isSome
  | _ => True

theorem Mirrored.accurate_iff (h : s.Mirrored) :
    s.Accurate ↔ ∀ id, (s.trackedEntities id).isSome → (s.app.windows id).isSome := by
  refine ⟨fun ha => ha.trackedOpen, fun hopen => ⟨h.inverse, hopen, fun entity id hid => hopen id ?_⟩⟩
  cases htracked : s.trackedEntities id with
  | none =>
    rw [h.inverse, tracked, htracked] at hid
    exact absurd hid (Finset.notMem_empty entity)
  | some entities => rfl

theorem accurate_step {act : TrackingAct} (h : s.Mirrored) (ha : s.Accurate)
    (hs : s.step act = some s') : s'.Accurate ↔ s.KeepsTracked act := by
  rw [(h.step hs).accurate_iff]
  have hopen := ha.trackedOpen
  cases act with
  | app act =>
    obtain ⟨app, happ, rfl⟩ := Option.map_eq_some_iff.mp hs
    exact forall₂_congr fun id hid => WindowedApp.isSome_windows_step happ (hopen id hid)
  | setPhase id phase =>
    obtain ⟨-, hs⟩ := Option.ite_none_right_eq_some.mp hs
    cases hs
    exact iff_of_true hopen trivial
  | draw id accessed =>
    obtain ⟨-, hs⟩ := Option.ite_none_right_eq_some.mp hs
    cases hs
    show (∀ other, (Function.update s.trackedEntities id (some accessed) other).isSome →
      (s.app.windows other).isSome) ↔ (s.app.windows id).isSome
    constructor
    · intro hall
      exact hall id (by rw [Function.update_self]; rfl)
    · intro hid other hother
      by_cases heq : other = id
      · exact heq ▸ hid
      · rw [Function.update_of_ne heq] at hother
        exact hopen other hother
  | notify entity =>
    obtain ⟨-, hs⟩ := Option.ite_none_right_eq_some.mp hs
    cases hs
    obtain ⟨hquiet, htracked, -⟩ := s.notify_tables entity
    rw [htracked, hquiet.windows]
    exact iff_of_true hopen trivial

/-- **The tables of invalidation are accurate** in all states of a run exactly if no window
is closed in it that has been drawn, and none is drawn that a shutdown has dropped. -/
theorem tables_accurate (as : List TrackingAct) (h : (run step new as).isSome) :
    Throughout step Accurate new as ↔ RunMeets step KeepsTracked new as := by
  obtain ⟨s, hs⟩ := Option.isSome_iff_exists.mp h
  exact throughout_iff (fun _ _ _ => Mirrored.step) (fun _ _ _ => accurate_step) as mirrored_new
    (mirrored_new.accurate_iff.mpr fun _ hid => by cases hid) hs

/-- A window is opened and drawn, and an entity that it has read changes. -/
def drawWindow : List TrackingAct :=
  [.app .openWindow, .app .windowCreated, .app .rootBuilt, .draw 0 {5}, .app .windowOpened,
    .app .finishUpdate, .app .popEffect, .app .endHandler, .app .endFlush, .app (.updateWindow 0),
    .notify 5]

/-- It is drawn again, and reads another one. -/
theorem tables_accurate_drawWindow :
    Throughout step Accurate new (drawWindow ++ [.draw 0 {6}]) :=
  (tables_accurate _ (by decide)).mpr
    ⟨fun _ _ h => h, fun _ _ h => h, fun _ _ h => h, rfl, fun _ _ h => h, fun _ _ h => h,
      fun _ _ h => h, fun _ _ h => h, fun _ _ h => h, fun _ _ h => h, trivial, rfl, trivial⟩

/-- The window is closed. -/
theorem tables_keep_closed_window :
    ¬ ∀ as, (run step new as).isSome → Throughout step Accurate new as := by
  intro h
  have htables : (run step new (drawWindow ++ [.app (.removeWindow 0), .app .endWindow])).map
      (fun s => ((s.trackedEntities 0).isSome, (s.app.windows 0).isSome)) = some (true, false) := by
    decide
  obtain ⟨s, hs, hclosed⟩ := Option.map_eq_some_iff.mp htables
  obtain ⟨htracked, hwindow⟩ := Prod.mk.inj hclosed
  have hopen := ((h _ (Option.isSome_iff_exists.mpr ⟨s, hs⟩)).last _ hs).trackedOpen 0 htracked
  rw [hwindow] at hopen
  cases hopen

end TrackingApp

end FcGpui
