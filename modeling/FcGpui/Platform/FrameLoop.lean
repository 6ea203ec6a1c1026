import FcGpui.Window.Frame
import FcGpui.Lib.Machine

/-!
# The frame loop of a Wayland window

`crates/gpui-linux/src/linux/wayland/window.rs`: a window asks for frames on demand.  `frame` makes
a tick, in which the callback of `on_request_frame` in `crates/gpui/src/window.rs` draws and presents
what has changed, and `complete_frame` ends it.  Between ticks a wake is armed: a ping of the event
loop, a retry timer, or a frame callback of the compositor.

`WaylandWindow` has what these read and write, of the state of the platform window and of the cells
that the callback shares with the `Window` (`isOpen` is false once the `Window` has been dropped).
A frame callback counts for the compositor when a commit of the surface has carried it.  Times and
durations are in microseconds.  `request_frame` is set in `Window::new`, before the window can get an
event, so `frame` always finds it.

There are records besides: `configureOwed`, whether the compositor still has to configure the
surface; `registered` and `ran`, the callbacks for the next frame and those of them that have run;
`drawn`, how many frames the window has drawn, and `shown`, which of them its surface shows;
`remapped`, whether a layer surface was mapped again and has not been presented since; and `forceOwed`,
whether a tick was asked to render without the caches and no draw has done so since.
-/

namespace FcGpui

/-! ### Presentation -/

inductive PresentationState
  | unpresented
  | presented
  | retryBeforeFirstPresent
  | retryAfterPresent
deriving DecidableEq, Repr

namespace PresentationState

def requiresPresentation : PresentationState → Bool
  | retryBeforeFirstPresent | retryAfterPresent => true
  | unpresented | presented => false

def failed : PresentationState → PresentationState
  | unpresented | retryBeforeFirstPresent => retryBeforeFirstPresent
  | presented | retryAfterPresent => retryAfterPresent

def compositorPacedRetry : PresentationState → Bool
  | retryAfterPresent => true
  | unpresented | presented | retryBeforeFirstPresent => false

@[simp] theorem requiresPresentation_failed (p : PresentationState) : p.failed.requiresPresentation = true := by
  cases p <;> rfl

end PresentationState

inductive FrameLoop
  | unconfigured
  | ticking
  | rescheduleRequested
  | presentationFailed
  | awaitingCallback
  | scheduled
  | retryScheduled
  | parked
deriving DecidableEq, Repr

/-! ### Throttling -/

inductive ThermalState
  | nominal
  | fair
  | serious
  | critical
deriving DecidableEq, Repr

def ThermalState.constrained : ThermalState → Bool
  | critical | serious => true
  | nominal | fair => false

/-- `frame_throttle_interval`. -/
def frameThrottleInterval (forceRender requirePresentation hasNextFrameCallbacks isActive
    hasHighRateInput isThermallyConstrained : Bool) (inactiveFrameInterval : Option Nat) : Option Nat :=
  if requirePresentation || (!forceRender && !hasNextFrameCallbacks) then
    none
  else if !isActive && !hasHighRateInput then
    inactiveFrameInterval
  else if isThermallyConstrained then
    some 16667
  else
    none

structure InputRateTracker where
  timestamps : List Nat := []
  window : Nat := 100000
  inputsPerSecond : Nat := 60
  sustainUntil : Nat := 0
  sustainDuration : Nat := 1000000
deriving DecidableEq, Repr

namespace InputRateTracker

def recordInput (t : InputRateTracker) (now : Nat) : InputRateTracker :=
  let timestamps := (t.timestamps ++ [now]).filter fun time => decide (now - time ≤ t.window)
  let minEvents := t.inputsPerSecond * (t.window / 1000) / 1000
  { t with
    timestamps
    sustainUntil := if minEvents ≤ timestamps.length then now + t.sustainDuration else t.sustainUntil }

def isHighRate (t : InputRateTracker) (now : Nat) : Bool := decide (now < t.sustainUntil)

end InputRateTracker

/-! ### The window -/

/-- A frame callback of the compositor, as the surface requests them one after another. -/
abbrev WlCallback := Nat

/-- A callback for the next frame. -/
abbrev FrameCallback := Nat

inductive WaylandWindowRole
  | xdgToplevel
  | layerShell (configured : Bool)
deriving DecidableEq, Repr

/-- `is_unconfigured_layer_shell`. -/
def WaylandWindowRole.isUnconfiguredLayerShell : WaylandWindowRole → Bool
  | xdgToplevel => false
  | layerShell configured => !configured

structure WaylandWindow where
  role : WaylandWindowRole
  visible : Bool := true
  frameLoop : FrameLoop := .unconfigured
  redrawRequested : Bool := false
  presentation : PresentationState := .unpresented
  resizeThrottle : Bool := false
  pendingFrameCallback : Option WlCallback := none
  requested : List WlCallback := []
  committed : List WlCallback := []
  configureOwed : Bool := true
  isOpen : Bool := true
  active : Bool
  dirty : Bool := false
  refreshing : Bool := false
  needsPresent : Bool := false
  nextFrameCallbacks : List FrameCallback
  deferredForceRender : Bool := false
  lastFrameTime : Option Nat := none
  inputRate : InputRateTracker
  inactiveFrameInterval : Option Nat
  registered : List FrameCallback
  ran : List FrameCallback := []
  drawn : Nat := 0
  shown : Option Nat := none
  remapped : Bool := false
  forceOwed : Bool := false
deriving DecidableEq, Repr

/-- How the renderer fares: whether it has lost its device, whether it gets the scene to the surface,
and whether it wants to draw it again. -/
structure DrawOutcome where
  deviceLost : Bool := false
  drawn : Bool := true
  needsRedraw : Bool := false
deriving DecidableEq, Repr

namespace WaylandWindow

/-- `surface.frame`, unless a callback is pending. -/
def requestCallback (w : WaylandWindow) (callback : WlCallback) : WaylandWindow :=
  if w.pendingFrameCallback.isNone then
    { w with pendingFrameCallback := some callback, requested := w.requested ++ [callback] }
  else
    w

/-- `surface.commit`. -/
def commit (w : WaylandWindow) : WaylandWindow :=
  { w with requested := [], committed := w.committed ++ w.requested }

def scheduleFrame (w : WaylandWindow) : WaylandWindow :=
  if !w.visible then
    w
  else match w.frameLoop with
    | .parked => { w with frameLoop := .scheduled }
    | .ticking => { w with frameLoop := .rescheduleRequested }
    | _ => w

/-- Whether `schedule_frame` pings the event loop. -/
def pings (w : WaylandWindow) : Bool := w.visible && w.frameLoop == .parked

/-- `request_redraw`, up to its `schedule_frame`. -/
def redraw (w : WaylandWindow) : WaylandWindow := { w with redrawRequested := true }

/-- `WaylandWindow::draw`. -/
def draw (w : WaylandWindow) (callback : WlCallback) (outcome : DrawOutcome) : WaylandWindow :=
  if !w.visible || w.role.isUnconfiguredLayerShell then
    { w with redrawRequested := true }
  else if outcome.deviceLost then
    { w with redrawRequested := true }
  else
    let w := { w with redrawRequested := false }.requestCallback callback
    let w :=
      if outcome.drawn then
        { w.commit with
          presentation := .presented, frameLoop := .awaitingCallback, shown := some w.drawn, remapped := false }
      else
        { w with presentation := w.presentation.failed, frameLoop := .presentationFailed }
    if outcome.needsRedraw then { w with redrawRequested := true } else w

/-- `complete_frame`, and whether it sets a retry timer. -/
def completeFrame (w : WaylandWindow) (callback : WlCallback) : WaylandWindow × Bool :=
  if !w.visible then
    ({ w with frameLoop := .parked }, false)
  else if w.role.isUnconfiguredLayerShell then
    ({ w with frameLoop := .unconfigured }, false)
  else if w.frameLoop = .awaitingCallback then
    (w, false)
  else if w.presentation.requiresPresentation then
    if w.presentation.compositorPacedRetry then
      ({ (w.requestCallback callback).commit with frameLoop := .awaitingCallback }, false)
    else
      ({ w with frameLoop := .retryScheduled }, true)
  else if w.frameLoop = .rescheduleRequested ∨ w.redrawRequested = true then
    ({ w with frameLoop := .retryScheduled }, true)
  else
    ({ w with frameLoop := .parked }, false)

/-- `show`, up to its `request_redraw`. -/
def mapped (w : WaylandWindow) : WaylandWindow :=
  match w.role with
  | .layerShell _ =>
    { w.commit with
      visible := true, role := .layerShell false, frameLoop := .unconfigured, configureOwed := true
      remapped := true }
  | .xdgToplevel => { w.commit with visible := true }

/-- `hide`. -/
def hide (w : WaylandWindow) : WaylandWindow :=
  let w := { w with visible := false, frameLoop := .parked }
  if w.role.isUnconfiguredLayerShell then w else { w.commit with shown := none }

/-- Dropping the `Window` and with it the `WaylandWindow`. -/
def close (w : WaylandWindow) : WaylandWindow := { w with isOpen := false, frameLoop := .parked }

/-- The flush of effects schedules a frame for the windows for which this holds. -/
def wantsFrame (w : WaylandWindow) : Bool :=
  w.isOpen && (w.dirty || w.needsPresent || !w.nextFrameCallbacks.isEmpty)

/-- How long the tick has to wait, if it is throttled. -/
def throttleInterval (w : WaylandWindow) (now : Nat) (force require : Bool)
    (thermalState : Option ThermalState) : Option Nat :=
  frameThrottleInterval force require (!w.nextFrameCallbacks.isEmpty) w.active (w.inputRate.isHighRate now)
    (thermalState.any ThermalState.constrained) w.inactiveFrameInterval

def throttled (w : WaylandWindow) (now : Nat) (force require : Bool) (thermalState : Option ThermalState) : Bool :=
  (w.throttleInterval now force require thermalState).any fun interval =>
    w.lastFrameTime.any fun last => decide (now - last < interval)

end WaylandWindow

/-!
### The windows of a Wayland client

The event loop of `crates/gpui-linux/src/linux/wayland/client.rs` with the windows, the ping they
share and the retry timers, and the callback of `on_request_frame` in `crates/gpui/src/window.rs`.

The event loop takes one event at a time, and `control` tells what it is at: nothing, an update of the
application, a configure event before its frame, or a tick with how far it is.  While an update is
under way code of the application runs, and may do to any window what `WindowOp` lists.
`flush` is the end of `flush_effects`.  An update of a window that is not open any more does
nothing but flush.  `visiting` are the windows that a ping has not come to yet.
-/

/-- Which update of `on_request_frame` is under way; at the end `update_ime_enabled`. -/
inductive TickStage
  | thermal (force require : Bool) (thermalState : Option ThermalState)
  | deferred
  | callbacks (force require highRate : Bool) (remaining : List FrameCallback)
  | presenting
  | presented
  | final
  | ime
deriving DecidableEq, Repr

inductive FrameControl
  | idle
  | app
  | configuring (id : WindowId)
  | tick (id : WindowId) (stage : TickStage)
  | completing (id : WindowId)
deriving DecidableEq, Repr

namespace FrameControl

/-- Whether code of the application runs. -/
def updating : FrameControl → Bool
  | app | configuring _ | tick _ _ => true
  | idle | completing _ => false

/-- The window whose tick is under way. -/
def ticking : FrameControl → Option WindowId
  | tick id _ | completing id => some id
  | idle | app | configuring _ => none

/-- The window that an update under way has on its stack. -/
def onStack : FrameControl → Option WindowId
  | tick id (.callbacks _ _ _ (_ :: _)) | tick id .presenting => some id
  | _ => none

/-- The callbacks that the tick of the window has taken and not run yet. -/
def taken (id : WindowId) : FrameControl → List FrameCallback
  | tick id' (.callbacks _ _ _ remaining) => if id' = id then remaining else []
  | _ => []

/-- Whether the tick of the window is going to render without the caches, unless it is throttled. -/
def forces (id : WindowId) : FrameControl → Bool
  | tick id' (.thermal force _ _) | tick id' (.callbacks force _ _ _) => decide (id' = id) && force
  | _ => false

end FrameControl

structure WaylandClient where
  now : Nat := 0
  thermalState : ThermalState := .nominal
  windows : WindowId → Option WaylandWindow := fun _ => none
  nextWindowId : WindowId := 0
  nextCallback : WlCallback := 0
  ping : Bool := false
  timers : List WindowId := []
  visiting : List WindowId := []
  drawing : List WindowId := []
  control : FrameControl := .idle

/-- What code of the application does to a window, by itself or for an event. -/
inductive WindowOp
  | refresh
  | invalidate
  | onNextFrame (callback : FrameCallback)
  | setActive (active : Bool)
  | recordInput
  | requestRedraw
  | show
  | hide
  | commit
  | close
deriving DecidableEq, Repr

inductive FrameAct
  | elapse (time : Nat)
  | setThermalState (state : ThermalState)
  | beginUpdate
  | fireCallback (id : WindowId) (callback : WlCallback)
  | firePing (order : List WindowId)
  | visit
  | fireTimer (id : WindowId)
  | xdgConfigure (id : WindowId) (resizing : Option Bool)
  | layerConfigure (id : WindowId)
  | dropWindow (id : WindowId)
  | op (id : WindowId) (op : WindowOp)
  | refreshWindows
  | openWindow (role : WaylandWindowRole) (active : Bool) (interval : Option Nat) (callbacks : List FrameCallback)
  | beginDraw (id : WindowId)
  | finishDraw (id : WindowId)
  | runCallback
  | present (outcome : DrawOutcome)
  | endUpdate
  | complete (timerInserted : Bool)
deriving DecidableEq, Repr

namespace WaylandWindow

/-- A draw up to the code of the application that it runs. -/
def beginDraw (w : WaylandWindow) : WaylandWindow :=
  { w with dirty := false, forceOwed := w.forceOwed && !w.refreshing }

def finishDraw (w : WaylandWindow) : WaylandWindow :=
  { w with refreshing := false, needsPresent := true, drawn := w.drawn + 1 }

/-- `Window::present`. -/
def present (w : WaylandWindow) (callback : WlCallback) (outcome : DrawOutcome) : WaylandWindow :=
  { w.draw callback outcome with needsPresent := false }

/-- What an operation does, and whether it schedules a frame at the end.  While the window is drawn,
`refresh` and `invalidate_view` do not make it dirty. -/
def apply (now : Nat) (drawing : Bool) (w : WaylandWindow) : WindowOp → WaylandWindow × Bool
  | .refresh => (if drawing then w else { w with refreshing := true, dirty := true }, false)
  | .invalidate => (if drawing then w else { w with dirty := true }, false)
  | .onNextFrame callback =>
    ({ w with
        nextFrameCallbacks := w.nextFrameCallbacks ++ [callback]
        registered := w.registered ++ [callback] }, true)
  | .setActive active => ({ w with active }, false)
  | .recordInput => ({ w with inputRate := w.inputRate.recordInput now }, false)
  | .requestRedraw => (w.redraw, true)
  | .show =>
    match w.role with
    | .layerShell _ => (w.mapped, false)
    | .xdgToplevel => (w.mapped.redraw, true)
  | .hide => (w.hide, false)
  | .commit => (w.commit, false)
  | .close => (w.close, false)

end WaylandWindow

namespace WaylandClient

def setWindow (c : WaylandClient) (id : WindowId) (w : WaylandWindow) : WaylandClient :=
  { c with windows := Function.update c.windows id (some w) }

def scheduleFrame (c : WaylandClient) (id : WindowId) (w : WaylandWindow) : WaylandClient :=
  { c.setWindow id w.scheduleFrame with ping := c.ping || w.pings }

/-- The end of `flush_effects`. -/
def flush (c : WaylandClient) : WaylandClient :=
  { c with
    windows := fun id => (c.windows id).map fun w => if w.wantsFrame then w.scheduleFrame else w
    ping := c.ping || (List.range c.nextWindowId).any fun id =>
      (c.windows id).any fun w => w.wantsFrame && w.pings }

/-- The callback of `on_request_frame`, up to the first update. -/
def requestFrame (c : WaylandClient) (id : WindowId) (w : WaylandWindow) (force require : Bool) : WaylandClient :=
  if c.drawing ≠ [] then
    { c.setWindow id { w with
        deferredForceRender := w.deferredForceRender || force, forceOwed := w.forceOwed || force } with
      control := .tick id .ime }
  else
    let force := w.deferredForceRender || force
    { c.setWindow id { w with deferredForceRender := false, forceOwed := w.forceOwed || force } with
      control := .tick id (.thermal force require (if w.isOpen then some c.thermalState else none)) }

/-- `frame`. -/
def frame (c : WaylandClient) (id : WindowId) (w : WaylandWindow) : WaylandClient :=
  if !w.visible then
    { c.setWindow id { w with redrawRequested := true, frameLoop := .parked } with control := .idle }
  else
    c.requestFrame id { w with frameLoop := .ticking, resizeThrottle := false } w.redrawRequested
      w.presentation.requiresPresentation

/-- The last update of `on_request_frame`. -/
def reschedule (c : WaylandClient) (id : WindowId) (w : WaylandWindow) : WaylandClient :=
  { (if w.isOpen && (w.dirty || !w.nextFrameCallbacks.isEmpty) then c.scheduleFrame id w
      else c.setWindow id w) with
    control := .tick id .final }

/-- `on_request_frame` after the callbacks for the next frame. -/
def render (c : WaylandClient) (id : WindowId) (w : WaylandWindow) (force require highRate : Bool) :
    WaylandClient :=
  if w.dirty || force then
    if w.isOpen then
      let w := if force then { w with refreshing := true, dirty := true } else w
      { c.setWindow id w.beginDraw with drawing := [id], control := .tick id .presenting }
    else
      { c.setWindow id w with control := .tick id .presented }
  else if require || w.needsPresent || highRate then
    { c.setWindow id w with control := .tick id (if w.isOpen then .presenting else .presented) }
  else
    c.reschedule id w

/-- `on_request_frame` once it knows the thermal state. -/
def throttle (c : WaylandClient) (id : WindowId) (w : WaylandWindow) (force require : Bool)
    (thermalState : Option ThermalState) : WaylandClient :=
  if w.throttled c.now force require thermalState then
    let w := { w with deferredForceRender := w.deferredForceRender || force }
    { (if w.isOpen then c.scheduleFrame id w else c.setWindow id w) with control := .tick id .deferred }
  else
    let highRate := w.inputRate.isHighRate c.now
    let callbacks := w.nextFrameCallbacks
    let w := { w with lastFrameTime := some c.now, nextFrameCallbacks := [] }
    if callbacks.isEmpty then
      c.render id w force require highRate
    else
      { c.setWindow id w with
        control := .tick id (.callbacks force require highRate (if w.isOpen then callbacks else [])) }

/-- What follows an update, once the effects are flushed. -/
def afterUpdate (c : WaylandClient) : Option WaylandClient :=
  match c.control with
  | .app => some { c with control := .idle }
  | .configuring id =>
    (c.windows id).map fun w =>
      if w.frameLoop = .unconfigured then c.frame id w
      else { c.scheduleFrame id w.redraw with control := .idle }
  | .tick id stage =>
    (c.windows id).bind fun w =>
      match stage with
      | .thermal force require thermalState => some (c.throttle id w force require thermalState)
      | .callbacks force require highRate [] => some (c.render id w force require highRate)
      | .callbacks _ _ _ (_ :: _) => none
      | .presenting => none
      | .presented => some (c.reschedule id w)
      | .deferred | .final => some { c with control := .tick id .ime }
      | .ime => some { c with control := .completing id }
  | .idle | .completing _ => none

/-- The event loop is between two events. -/
def Waiting (c : WaylandClient) : Prop := c.control = .idle ∧ c.visiting = []

instance (c : WaylandClient) : Decidable c.Waiting := inferInstanceAs (Decidable (_ ∧ _))

def step (c : WaylandClient) : FrameAct → Option WaylandClient
  | .elapse time => some { c with now := c.now + time }
  | .setThermalState thermalState => some { c with thermalState }
  | .beginUpdate => if c.Waiting then some { c with control := .app } else none
  | .fireCallback id callback =>
    if c.Waiting then
      (c.windows id).bind fun w =>
        if callback ∈ w.committed then
          let fired := { w with committed := w.committed.erase callback, pendingFrameCallback := none }
          some (if w.frameLoop = .awaitingCallback then c.frame id fired else c.setWindow id fired)
        else none
    else none
  | .firePing order =>
    if c.Waiting ∧ c.ping = true ∧
        order.Perm ((List.range c.nextWindowId).filter fun id => (c.windows id).isSome) then
      some { c with ping := false, visiting := order }
    else none
  | .visit =>
    match c.control, c.visiting with
    | .idle, id :: rest =>
      let c := { c with visiting := rest }
      match c.windows id with
      | some w => some (if w.frameLoop = .scheduled then c.frame id w else c)
      | none => some c
    | _, _ => none
  | .fireTimer id =>
    if c.Waiting ∧ id ∈ c.timers then
      let c := { c with timers := c.timers.erase id }
      match c.windows id with
      | some w => some (if w.frameLoop = .retryScheduled then c.frame id w else c)
      | none => some c
    else none
  | .xdgConfigure id resizing =>
    if c.Waiting then
      (c.windows id).bind fun w =>
        if w.role = .xdgToplevel then
          let configured := { w with configureOwed := false }
          if resizing = some true then
            if w.resizeThrottle then some { c.setWindow id configured with control := .app }
            else some { c.setWindow id { configured with resizeThrottle := true } with control := .configuring id }
          else some { c.setWindow id configured with control := .configuring id }
        else none
    else none
  | .layerConfigure id =>
    if c.Waiting then
      (c.windows id).bind fun w =>
        match w.role with
        | .layerShell _ =>
          some { c.setWindow id { w with role := .layerShell true, configureOwed := false } with
            control := .configuring id }
        | .xdgToplevel => none
    else none
  | .dropWindow id =>
    if c.Waiting then
      (c.windows id).bind fun w =>
        if w.isOpen then none else some { c with windows := Function.update c.windows id none }
    else none
  | .op id op =>
    if c.control.updating && !(op = .close && (decide (c.control.onStack = some id) || decide (id ∈ c.drawing))) then
      (c.windows id).bind fun w =>
        if w.isOpen then
          let (w, schedules) := w.apply c.now (decide (id ∈ c.drawing)) op
          some (if schedules then c.scheduleFrame id w else c.setWindow id w)
        else none
    else none
  | .refreshWindows =>
    if c.control.updating then
      some { c with
        windows := fun id => (c.windows id).map fun w =>
          if w.isOpen && decide (id ∉ c.drawing) then { w with refreshing := true, dirty := true } else w }
    else none
  | .openWindow role active interval callbacks =>
    if c.control.updating ∧ role ≠ .layerShell true then
      some { c.setWindow c.nextWindowId
          { role, active, nextFrameCallbacks := callbacks, inputRate := { sustainUntil := c.now },
            inactiveFrameInterval := interval, registered := callbacks } with
        nextWindowId := c.nextWindowId + 1, drawing := c.nextWindowId :: c.drawing }
    else none
  | .beginDraw id =>
    if c.control.updating && decide (id ∉ c.drawing) then
      (c.windows id).bind fun w =>
        if w.isOpen then some { c.setWindow id w.beginDraw with drawing := id :: c.drawing } else none
    else none
  | .finishDraw id =>
    if c.control.updating && decide (id ∈ c.drawing) then
      (c.windows id).map fun w => { c.setWindow id w.finishDraw with drawing := c.drawing.erase id }
    else none
  | .runCallback =>
    match c.control with
    | .tick id (.callbacks force require highRate (callback :: remaining)) =>
      (c.windows id).map fun w =>
        { c.setWindow id { w with ran := w.ran ++ [callback] } with
          control := .tick id (.callbacks force require highRate remaining) }
    | _ => none
  | .present outcome =>
    match c.control with
    | .tick id .presenting =>
      if id ∈ c.drawing then none
      else (c.windows id).map fun w =>
        { c.setWindow id (w.present c.nextCallback outcome) with
          nextCallback := c.nextCallback + 1, control := .tick id .presented }
    | _ => none
  | .endUpdate => if c.control.updating = true ∧ c.drawing = [] then c.flush.afterUpdate else none
  | .complete timerInserted =>
    match c.control with
    | .completing id =>
      (c.windows id).map fun w =>
        let (w, retry) := w.completeFrame c.nextCallback
        { c.setWindow id w with
          nextCallback := c.nextCallback + 1
          timers := if retry && timerInserted then id :: c.timers else c.timers
          control := .idle }
    | _ => none

end WaylandClient

end FcGpui
