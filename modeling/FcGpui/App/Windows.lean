import FcGpui.App.Effects
import FcGpui.Window.PendingInput

/-!
# Updates of windows

`App::update_window_id`, `open_window`, `new`, `shutdown` and `flush_effects` in
`crates/gpui/src/app.rs`.  An update of a window takes the window out of its slot
in `windows` and puts it back at the end, or drops it where `remove_window` was
called.  An entity that is created remembers the window that is being updated, and
when the flush comes to the effect `EntityCreated` it updates that window for each
observer of new entities of the type.  A flush also releases the focus handles that
nobody holds any more, and updates every window for it.  Both expect to find the
window.

`App::shutdown` drops all windows and flushes the effects, without regard to updates
and flushes that are under way.

What is under way is the stack `frames`, innermost first.  In `FcGpui.App.Effects` it
follows one flush and its observers; here it tells the updates apart by what they
update, and the observers that matter are those of new entities.  The handlers of all
other effects, and the listeners and callbacks, are code of the application.

A window keeps its record in `window` whether it is in its slot or not; the slot is in
`windows`.  Slots get a new generation each time, so ids are not used again.  A panic
ends the run.
-/

namespace FcGpui

inductive WindowSlot
  | onStack
  | present
deriving DecidableEq, Repr

/-- Of a window, what closing it and releasing focus handles read. -/
structure AppWindow where
  removed : Bool
  focus : Option FocusId
  focusEnabled : Bool
  pendingInput : Bool
deriving DecidableEq, Repr

/-- How far `open_window` is: in `Window::new`, in `build_root_view`, or in the first
draw. -/
inductive OpenStage
  | creating
  | building
  | drawing
deriving DecidableEq, Repr

/-- `ended` is an update whose closure has returned, `flush` a flush with the update
that ends with it.  `created` visits the observers of a new entity, if a `retain`
of them has begun, and knows whether the last one met its window; `releaseFocus` has
the windows still to visit, and knows the same of the last one visited. -/
inductive WindowFrame
  | update
  | ended
  | newEntity (entity : EntityId) (tid : TypeId)
  | window (id : WindowId)
  | closed
  | opening (id : WindowId) (stage : OpenStage)
  | flush
  | handler
  | created (window : Option WindowId) (retaining : Bool) (found : Bool)
  | releaseFocus (focus : FocusId) (remaining : Finset WindowId) (found : Bool)
  | shutdown
  | shutdownFlush
deriving DecidableEq

inductive WindowPanic
  | windowsOnTheStack
  | focusWindowNotFound
  | openedWindowNotFound
deriving DecidableEq, Repr

structure WindowedApp where
  flushingEffects : Bool
  pendingUpdates : Nat
  nextWindowId : WindowId
  windows : WindowId → Option WindowSlot
  window : WindowId → AppWindow
  windowHandles : Finset WindowId
  windowUpdateStack : List WindowId
  pendingEffects : List Effect
  pending : NotifyKind → Finset Nat
  newEntityObservers : SubscriberSet TypeId Unit
  nextFocusId : FocusId
  focusHandles : FocusId → Option Nat
  frames : List WindowFrame
  panicked : Option WindowPanic

inductive WindowAct
  | pushEffect (effect : Effect)
  | newEntityObserver (act : Act TypeId Unit)
  | newFocusHandle
  | cloneFocusHandle (focus : FocusId)
  | dropFocusHandle (focus : FocusId)
  | removeWindow (id : WindowId)
  | setFocus (id : WindowId) (focus : Option FocusId) (focusEnabled pendingInput : Bool)
  | startUpdate
  | finishUpdate
  | newEntity (entity : EntityId) (tid : TypeId)
  | endNewEntity
  | updateWindow (id : WindowId)
  | endWindow
  | openWindow
  | windowFailed
  | windowCreated
  | rootBuilt
  | windowOpened
  | shutdown
  | clearWindows
  | popEffect
  | endHandler
  | visitObserver
  | returnObserver
  | endCreated
  | releaseFocus (focus : FocusId)
  | blurWindow (id : WindowId)
  | endReleaseFocus
  | unwrap
  | endFlush

namespace WindowFrame

/-- The frames of updates, the one that a flush ends included. -/
def isUpdate : WindowFrame → Bool
  | update | ended | newEntity _ _ | window _ | closed | opening _ _ | flush => true
  | _ => false

def isFlush : WindowFrame → Bool
  | flush | shutdownFlush => true
  | _ => false

/-- The window that the frame has taken out of its slot. -/
def onStack : WindowFrame → Option WindowId
  | window id | opening id _ => some id
  | _ => none

/-- The window that the frame has put on `window_update_stack`. -/
def updates : WindowFrame → Option WindowId
  | window id | opening id .building => some id
  | _ => none

end WindowFrame

namespace WindowedApp

def new : WindowedApp where
  flushingEffects := false
  pendingUpdates := 0
  nextWindowId := 0
  windows := fun _ => none
  window := fun _ => ⟨false, none, true, false⟩
  windowHandles := ∅
  windowUpdateStack := []
  pendingEffects := []
  pending := fun _ => ∅
  newEntityObservers := SubscriberSet.new
  nextFocusId := 0
  focusHandles := fun _ => none
  frames := []
  panicked := none

/-- `App::windows`. -/
def handles (s : WindowedApp) : Finset WindowId :=
  s.windowHandles.filter fun id => (s.windows id).isSome

/-- An observer of new entities is running. -/
def observerRuns (s : WindowedApp) : Bool :=
  s.newEntityObservers.passes.head?.any fun pass => pass.running.isSome

/-- Code of the application runs, or the application is called from outside. -/
def runsCode (s : WindowedApp) : Bool :=
  match s.frames with
  | [] => true
  | .created none retaining _ :: _ => retaining && s.observerRuns
  | .ended :: _ | .opening _ .creating :: _ | .created (some _) _ _ :: _
  | .releaseFocus _ _ _ :: _ => false
  | _ => true

def pushEffect (s : WindowedApp) (effect : Effect) : WindowedApp :=
  match effect.notifies with
  | some (kind, id) =>
    if id ∈ s.pending kind then s
    else { s with
      pending := Function.update s.pending kind (insert id (s.pending kind))
      pendingEffects := s.pendingEffects ++ [effect] }
  | none => { s with pendingEffects := s.pendingEffects ++ [effect] }

def setWindow (s : WindowedApp) (id : WindowId) (window : AppWindow) : WindowedApp :=
  { s with window := Function.update s.window id window }

/-! ### Updates -/

def startUpdate (s : WindowedApp) (frame : WindowFrame) : WindowedApp :=
  { s with pendingUpdates := s.pendingUpdates + 1, frames := frame :: s.frames }

/-- The closure of the innermost update, over `rest`, has returned. -/
def finishUpdate (s : WindowedApp) (rest : List WindowFrame) : WindowedApp :=
  if s.flushingEffects = false ∧ s.pendingUpdates = 1 then
    { s with flushingEffects := true, frames := .flush :: rest }
  else { s with pendingUpdates := s.pendingUpdates - 1, frames := rest }

/-- `App::new`, from where the entity is built. -/
def endNewEntity (s : WindowedApp) (entity : EntityId) (tid : TypeId) (rest : List WindowFrame) :
    WindowedApp :=
  { s.pushEffect (.entityCreated entity tid s.windowUpdateStack.head?) with frames := .ended :: rest }

/-- `update_window_id`, up to where the closure is called; without the window it
returns at once. -/
def updateWindowId (s : WindowedApp) (id : WindowId) : WindowedApp :=
  match s.windows id with
  | some .present =>
    { s.startUpdate (.window id) with
      windows := Function.update s.windows id (some .onStack)
      windowUpdateStack := id :: s.windowUpdateStack }
  | _ => s.startUpdate .ended

/-- The window is closed, and the observers of closed windows are called. -/
def closeWindow (s : WindowedApp) (id : WindowId) (rest : List WindowFrame) : WindowedApp :=
  { s with
    windows := Function.update s.windows id none
    windowHandles := s.windowHandles.erase id
    frames := .closed :: rest }

/-- The caller of the update is told that the window was not found. -/
def notFound : List WindowFrame → List WindowFrame
  | .created (some id) retaining _ :: rest => .created (some id) retaining false :: rest
  | frames => frames

/-- The window goes back to its slot, if that is still there. -/
def putBack (s : WindowedApp) (id : WindowId) (rest : List WindowFrame) : WindowedApp :=
  match s.windows id with
  | some _ =>
    { s with windows := Function.update s.windows id (some .present), frames := .ended :: rest }
  | none => { s with frames := .ended :: notFound rest }

/-- `update_window_id`, from where the closure has returned. -/
def endWindow (s : WindowedApp) (id : WindowId) (rest : List WindowFrame) : WindowedApp :=
  if (s.window id).removed then
    { s with windowUpdateStack := s.windowUpdateStack.tail }.closeWindow id rest
  else { s with windowUpdateStack := s.windowUpdateStack.tail }.putBack id rest

/-! ### Opening windows -/

def openWindow (s : WindowedApp) : WindowedApp :=
  { s.startUpdate (.opening s.nextWindowId .creating) with
    windows := Function.update s.windows s.nextWindowId (some .onStack)
    window := Function.update s.window s.nextWindowId ⟨false, none, true, false⟩
    nextWindowId := s.nextWindowId + 1 }

/-- The root view is built; the appearance callbacks are deferred. -/
def rootBuilt (s : WindowedApp) (id : WindowId) (rest : List WindowFrame) : WindowedApp :=
  { s.pushEffect .defer with
    windowUpdateStack := s.windowUpdateStack.tail
    frames := .opening id .drawing :: rest }

def windowOpened (s : WindowedApp) (id : WindowId) (rest : List WindowFrame) : WindowedApp :=
  match s.windows id with
  | some _ =>
    { s with
      windowHandles := insert id s.windowHandles
      windows := Function.update s.windows id (some .present)
      frames := .ended :: rest }
  | none =>
    { s with
      windowHandles := insert id s.windowHandles
      panicked := some .openedWindowNotFound }

/-! ### Flushes -/

/-- `App::shutdown`, from where the observers of quitting are called. -/
def clearWindows (s : WindowedApp) (rest : List WindowFrame) : WindowedApp :=
  { s with
    windows := fun _ => none
    windowHandles := ∅
    frames := .shutdownFlush :: rest }

/-- The effect is no longer pending. -/
def unpend (s : WindowedApp) (effect : Effect) : WindowedApp :=
  match effect.notifies with
  | some (kind, id) =>
    { s with pending := Function.update s.pending kind ((s.pending kind).erase id) }
  | none => s

/-- The effect is taken from the queue, and its handler begins. -/
def applyEffect (s : WindowedApp) (effect : Effect) : Option WindowedApp :=
  match effect with
  | .entityCreated _ tid window =>
    (s.newEntityObservers.step (.beginRetain tid)).map fun observers =>
      let retaining := s.newEntityObservers.passes.length < observers.passes.length
      { s with
        newEntityObservers := observers
        frames := .created window retaining true :: s.frames }
  | _ => some { s.unpend effect with frames := .handler :: s.frames }

/-- An observer that was visited is called, in an update of the window where there is
one. -/
def callObserver (s : WindowedApp) (window : Option WindowId) (rest : List WindowFrame) :
    WindowedApp :=
  match s.observerRuns, window with
  | true, some id =>
    { s with
      frames := .created window true (s.windows id == some WindowSlot.present) :: rest }.updateWindowId
      id
  | _, _ => s

def visitObserver (s : WindowedApp) (window : Option WindowId) (rest : List WindowFrame) :
    Option WindowedApp :=
  (s.newEntityObservers.step .visit).map fun observers =>
    { s with newEntityObservers := observers }.callObserver window rest

def returnObserver (s : WindowedApp) : Option WindowedApp :=
  (s.newEntityObservers.step (.return true ())).map fun observers =>
    { s with newEntityObservers := observers }

def endCreated (s : WindowedApp) (retaining : Bool) (rest : List WindowFrame) :
    Option WindowedApp :=
  if retaining then
    (s.newEntityObservers.step .endRetain).map fun observers =>
      { s with newEntityObservers := observers, frames := rest }
  else some { s with frames := rest }

/-- `Window::blur`. -/
def blur (s : WindowedApp) (id : WindowId) : WindowedApp :=
  (if (s.window id).pendingInput then s.pushEffect .defer else s).setWindow id
    { s.window id with
      pendingInput := false
      focus := if (s.window id).focusEnabled then none else (s.window id).focus }

/-- What `release_dropped_focus_handles` does in a window. -/
def blurFocused (s : WindowedApp) (focus : FocusId) (id : WindowId) : WindowedApp :=
  if (s.window id).focus = some focus then s.blur id else s

/-- The update of a window for a focus handle that is released. -/
def blurWindow (s : WindowedApp) (focus : FocusId) (remaining : Finset WindowId) (id : WindowId)
    (rest : List WindowFrame) : WindowedApp :=
  match s.windows id with
  | some .present =>
    if (s.window id).removed then
      ((s.blurFocused focus id).startUpdate .ended).closeWindow id
        (.releaseFocus focus (remaining.erase id) true :: rest)
    else
      { s.blurFocused focus id with
        frames := .releaseFocus focus (remaining.erase id) true :: rest }.startUpdate .ended
  | _ =>
    { s with frames := .releaseFocus focus (remaining.erase id) false :: rest }.startUpdate .ended

/-! ### One step -/

/-- The frame on top goes on as `next` says, and `none` where another one is on top. -/
def onTop (s : WindowedApp) (next : WindowFrame → List WindowFrame → Option WindowedApp) :
    Option WindowedApp :=
  match s.frames with
  | frame :: rest => next frame rest
  | [] => none

/-- What code of the application does without entering or leaving a frame. -/
def client (s : WindowedApp) : WindowAct → Option WindowedApp
  | .pushEffect effect =>
    match effect with
    | .entityCreated _ _ _ => none
    | _ => some (s.pushEffect effect)
  | .newEntityObserver act =>
    if act.isClient then
      (s.newEntityObservers.step act).map fun observers => { s with newEntityObservers := observers }
    else none
  | .newFocusHandle =>
    some { s with
      focusHandles := Function.update s.focusHandles s.nextFocusId (some 1)
      nextFocusId := s.nextFocusId + 1 }
  | .cloneFocusHandle focus =>
    match s.focusHandles focus with
    | some (count + 1) =>
      some { s with focusHandles := Function.update s.focusHandles focus (some (count + 2)) }
    | _ => none
  | .dropFocusHandle focus =>
    match s.focusHandles focus with
    | some (count + 1) =>
      some { s with focusHandles := Function.update s.focusHandles focus (some count) }
    | _ => none
  | .removeWindow id =>
    if some id ∈ s.frames.map WindowFrame.onStack then
      some (s.setWindow id { s.window id with removed := true })
    else none
  | .setFocus id focus focusEnabled pendingInput =>
    if some id ∈ s.frames.map WindowFrame.onStack then
      some (s.setWindow id ⟨(s.window id).removed, focus, focusEnabled, pendingInput⟩)
    else none
  | _ => none

/-- What code of the application enters. -/
def enter (s : WindowedApp) : WindowAct → Option WindowedApp
  | .startUpdate => some (s.startUpdate .update)
  | .newEntity entity tid => some (s.startUpdate (.newEntity entity tid))
  | .updateWindow id => some (s.updateWindowId id)
  | .openWindow => some s.openWindow
  | .shutdown => some { s with frames := .shutdown :: s.frames }
  | _ => none

/-- How an update goes on and ends. -/
def proceed (s : WindowedApp) (rest : List WindowFrame) : WindowFrame → WindowAct → Option WindowedApp
  | .update, .finishUpdate => some (s.finishUpdate rest)
  | .closed, .finishUpdate => some (s.finishUpdate rest)
  | .ended, .finishUpdate => some (s.finishUpdate rest)
  | .newEntity entity tid, .endNewEntity => some (s.endNewEntity entity tid rest)
  | .window id, .endWindow => some (s.endWindow id rest)
  | .opening id .creating, .windowFailed =>
    some { s with windows := Function.update s.windows id none, frames := .ended :: rest }
  | .opening id .creating, .windowCreated =>
    some { s with
      windowUpdateStack := id :: s.windowUpdateStack
      frames := .opening id .building :: rest }
  | .opening id .building, .rootBuilt => some (s.rootBuilt id rest)
  | .opening id .drawing, .windowOpened => some (s.windowOpened id rest)
  | .shutdown, .clearWindows => some (s.clearWindows rest)
  | _, _ => none

/-- How a flush goes on and ends. -/
def flush (s : WindowedApp) (rest : List WindowFrame) : WindowFrame → WindowAct → Option WindowedApp
  | .handler, .endHandler => some { s with frames := rest }
  | .created window true true, .visitObserver => s.visitObserver window rest
  | .created _ true true, .returnObserver => s.returnObserver
  | .created _ retaining true, .endCreated => s.endCreated retaining rest
  | .created _ _ false, .unwrap => some { s with panicked := some .windowsOnTheStack }
  | .releaseFocus focus remaining true, .blurWindow id =>
    if id ∈ remaining then some (s.blurWindow focus remaining id rest) else none
  | .releaseFocus focus remaining true, .endReleaseFocus =>
    if remaining = ∅ then
      some { s with focusHandles := Function.update s.focusHandles focus none, frames := rest }
    else none
  | .releaseFocus _ _ false, .unwrap => some { s with panicked := some .focusWindowNotFound }
  | .flush, .endFlush =>
    if s.pendingEffects = [] then
      some { s with
        flushingEffects := false
        pendingUpdates := s.pendingUpdates - 1
        frames := rest }
    else none
  | .shutdownFlush, .endFlush =>
    if s.pendingEffects = [] then some { s with frames := rest } else none
  | frame, .popEffect =>
    match frame.isFlush, s.pendingEffects with
    | true, effect :: effects => { s with pendingEffects := effects }.applyEffect effect
    | _, _ => none
  | frame, .releaseFocus focus =>
    if frame.isFlush ∧ s.focusHandles focus = some 0 then
      some { s with frames := .releaseFocus focus s.handles true :: frame :: rest }
    else none
  | _, _ => none

/-- `none` where the action cannot come next. -/
def step (s : WindowedApp) (act : WindowAct) : Option WindowedApp :=
  if s.panicked.isSome then none
  else
    match act with
    | .pushEffect _ | .newEntityObserver _ | .newFocusHandle | .cloneFocusHandle _
    | .dropFocusHandle _ | .removeWindow _ | .setFocus _ _ _ _ =>
      if s.runsCode then s.client act else none
    | .startUpdate | .newEntity _ _ | .updateWindow _ | .openWindow | .shutdown =>
      if s.runsCode then s.enter act else none
    | .finishUpdate | .endNewEntity | .endWindow | .windowFailed | .windowCreated | .rootBuilt
    | .windowOpened | .clearWindows =>
      s.onTop fun frame rest => s.proceed rest frame act
    | .popEffect | .endHandler | .visitObserver | .returnObserver | .endCreated | .releaseFocus _
    | .blurWindow _ | .endReleaseFocus | .unwrap | .endFlush =>
      s.onTop fun frame rest => s.flush rest frame act

end WindowedApp

/-!
### What the steps of the windowed application do

Most actions of the application change neither what is under way nor the windows
(`Quiet`).  The others enter a frame, or let the frame on top go on: `step_cases`.
-/

namespace WindowedApp

variable {s s' t : WindowedApp}

/-! ### What a step does -/

/-- What changes nothing of what is under way and of the windows, and remembers no
window. -/
structure Quiet (s s' : WindowedApp) : Prop where
  flushing : s'.flushingEffects = s.flushingEffects
  updates : s'.pendingUpdates = s.pendingUpdates
  next : s'.nextWindowId = s.nextWindowId
  windows : s'.windows = s.windows
  handles : s'.windowHandles = s.windowHandles
  stack : s'.windowUpdateStack = s.windowUpdateStack
  frames : s'.frames = s.frames
  panicked : s'.panicked = s.panicked
  created : ∀ entity tid window, .entityCreated entity tid window ∈ s'.pendingEffects →
    .entityCreated entity tid window ∈ s.pendingEffects

theorem Quiet.refl (s : WindowedApp) : s.Quiet s :=
  ⟨rfl, rfl, rfl, rfl, rfl, rfl, rfl, rfl, fun _ _ _ h => h⟩

theorem Quiet.trans (h : s.Quiet t) (g : t.Quiet s') : s.Quiet s' where
  flushing := g.flushing.trans h.flushing
  updates := g.updates.trans h.updates
  next := g.next.trans h.next
  windows := g.windows.trans h.windows
  handles := g.handles.trans h.handles
  stack := g.stack.trans h.stack
  frames := g.frames.trans h.frames
  panicked := g.panicked.trans h.panicked
  created entity tid window hmem := h.created entity tid window (g.created entity tid window hmem)

theorem quiet_pushEffect {effect : Effect}
    (h : ∀ entity tid window, effect ≠ .entityCreated entity tid window) :
    s.Quiet (s.pushEffect effect) := by
  have hcreated : ∀ entity tid window, .entityCreated entity tid window ∈ s.pendingEffects ++ [effect] →
      .entityCreated entity tid window ∈ s.pendingEffects := by
    intro entity tid window hmem
    rcases List.mem_append.mp hmem with hmem | hmem
    · exact hmem
    · exact absurd (List.mem_singleton.mp hmem).symm (h entity tid window)
  rw [pushEffect]
  split
  · split
    · exact Quiet.refl s
    · exact ⟨rfl, rfl, rfl, rfl, rfl, rfl, rfl, rfl, hcreated⟩
  · exact ⟨rfl, rfl, rfl, rfl, rfl, rfl, rfl, rfl, hcreated⟩

theorem quiet_rest (s : WindowedApp) (window : WindowId → AppWindow)
    (observers : SubscriberSet TypeId Unit) (nextFocusId : FocusId)
    (focusHandles : FocusId → Option Nat) :
    s.Quiet { s with
      window := window
      newEntityObservers := observers
      nextFocusId := nextFocusId
      focusHandles := focusHandles } :=
  ⟨rfl, rfl, rfl, rfl, rfl, rfl, rfl, rfl, fun _ _ _ h => h⟩

theorem quiet_client {act : WindowAct} (h : s.client act = some s') : s.Quiet s' := by
  unfold client at h
  split at h
  · split at h
    · cases h
    · rename_i hne
      cases h
      exact quiet_pushEffect hne
  · split at h
    · obtain ⟨observers, -, rfl⟩ := Option.map_eq_some_iff.mp h
      exact quiet_rest s _ _ _ _
    · cases h
  · cases h
    exact quiet_rest s _ _ _ _
  · split at h
    · cases h
      exact quiet_rest s _ _ _ _
    · cases h
  · split at h
    · cases h
      exact quiet_rest s _ _ _ _
    · cases h
  · split at h
    · cases h
      exact quiet_rest s _ _ _ _
    · cases h
  · split at h
    · cases h
      exact quiet_rest s _ _ _ _
    · cases h
  · cases h

theorem quiet_blurFocused (s : WindowedApp) (focus : FocusId) (id : WindowId) :
    s.Quiet (s.blurFocused focus id) := by
  have hdefer : s.Quiet (s.pushEffect .defer) := quiet_pushEffect fun _ _ _ h => by cases h
  rw [blurFocused]
  split
  · rw [blur]
    split
    · exact ⟨rfl, rfl, rfl, rfl, rfl, rfl, rfl, rfl, hdefer.created⟩
    · exact ⟨rfl, rfl, rfl, rfl, rfl, rfl, rfl, rfl, fun _ _ _ h => h⟩
  · exact Quiet.refl s

/-- Neither the end of an update nor the clearing of the windows goes on with a flush. -/
theorem flush_eq_none {act : WindowAct} (hact : act = .finishUpdate ∨ act = .clearWindows) (frame : WindowFrame)
    (rest : List WindowFrame) : s.flush rest frame act = none := by
  unfold flush
  split
  all_goals first
    | rfl
    | exact hact.elim WindowAct.noConfusion WindowAct.noConfusion

/-- **What a step can do.** -/
theorem step_cases {act : WindowAct} (h : s.step act = some s') :
    s.panicked = none ∧
      (s.runsCode = true ∧ s.client act = some s' ∨ s.runsCode = true ∧ s.enter act = some s' ∨
        ∃ frame rest, s.frames = frame :: rest ∧
          (s.proceed rest frame act = some s' ∨ s.flush rest frame act = some s')) := by
  have htop : ∀ {next : WindowFrame → List WindowFrame → Option WindowedApp},
      s.onTop next = some s' → ∃ frame rest, s.frames = frame :: rest ∧ next frame rest = some s' := by
    intro next hnext
    unfold onTop at hnext
    split at hnext
    · rename_i frame rest hframes
      exact ⟨frame, rest, hframes, hnext⟩
    · cases hnext
  unfold step at h
  split at h
  · cases h
  · rename_i hpanicked
    refine ⟨by simpa using hpanicked, ?_⟩
    split at h
    iterate 7
      split at h
      · rename_i hcode
        exact Or.inl ⟨hcode, h⟩
      · cases h
    iterate 5
      split at h
      · rename_i hcode
        exact Or.inr (Or.inl ⟨hcode, h⟩)
      · cases h
    iterate 8
      obtain ⟨frame, rest, hframes, hnext⟩ := htop h
      exact Or.inr (Or.inr ⟨frame, rest, hframes, Or.inl hnext⟩)
    all_goals
      obtain ⟨frame, rest, hframes, hnext⟩ := htop h
      exact Or.inr (Or.inr ⟨frame, rest, hframes, Or.inr hnext⟩)

end WindowedApp

end FcGpui
