import FcGpui.Lib.Machine
import FcGpui.Window.MouseDispatch

/-!
# Elements that are pressed

The click and drag listeners of `Interactivity::paint_mouse_listeners`.  A press is remembered in the
state of the element, which outlives the frame.  The release moves it in the capture phase into a
variable of the listener, which is made anew whenever the element is painted, and takes it from there
in the bubble phase.

Of the other listeners of a window, and of what the click listeners do, there is only whether they stop
the propagation.  The state of an element without listeners in a frame is kept, as for one that is
hidden; that of an element which is not in it is dropped.  Elements of a cached view are reused with
their listeners.

Acts are numbered, and a press has the number of its act: equal events are told apart by it, and
nothing reads it.  Nor are the clicks and the drags that have been made in the source.
-/

namespace FcGpui.Mouse

open Actions (DispatchPhase)

/-- `DRAG_THRESHOLD`, squared. -/
def dragThreshold2 : ℚ := 4

/-- The magnitude of the way from one point to the other is more than the threshold. -/
def draggedFrom (start stop : Point ℚ) : Bool :=
  decide (dragThreshold2 < (stop.x - start.x) ^ 2 + (stop.y - start.y) ^ 2)

inductive MouseEvent
  | down (event : MouseDownEvent)
  | up (event : MouseUpEvent)
  | move (event : MouseMoveEvent)

structure Press where
  time : Nat
  event : MouseDownEvent
deriving DecidableEq

/-- A call of the click listeners of an element. -/
structure Click (E : Type) where
  element : E
  down : Press
  up : MouseUpEvent
  time : Nat
deriving DecidableEq

structure DragStart (E : Type) where
  element : E
  down : Press
deriving DecidableEq

/-- What an element is painted with: whether it has click listeners, and a drag listener. -/
structure Interactivity (E : Type) where
  id : E
  clickListeners : Bool
  dragListener : Bool
deriving DecidableEq

inductive Listener (E : Type)
  | mouseDown (id : E)
  | mouseMove (id : E)
  | mouseUp (id : E)
  | other (key : Nat)
deriving DecidableEq

inductive Painted (E : Type)
  | element (element : Interactivity E)
  | other (key : Nat)
deriving DecidableEq

def Painted.mouseListeners {E : Type} : Painted E → List (Listener E)
  | .element part =>
    if part.clickListeners || part.dragListener then [.mouseDown part.id, .mouseMove part.id, .mouseUp part.id] else []
  | .other key => [.other key]

/-- The variables of the listeners of an element. -/
structure ListenerState where
  clickListeners : Bool
  dragListener : Bool
  capturedMouseDown : Option Press
deriving DecidableEq

structure PressWindow (E : Type) where
  frame : List (Painted E)
  pendingMouseDown : E → Option Press
  listeners : E → ListenerState
  activeDrag : Bool
  propagateEvent : Bool
  time : Nat
  clicks : List (Click E)
  drags : List (DragStart E)

/-- An event, with the elements that the hit test finds and the listeners that stop the propagation. -/
structure Dispatch (E : Type) where
  event : MouseEvent
  hovered : E → Bool
  stops : DispatchPhase → Nat → Bool
  clickStops : E → Bool

namespace PressWindow

variable {E : Type}

/-- A window that has not been drawn.  The drag is that of the application. -/
def new (activeDrag : Bool) : PressWindow E :=
  ⟨[], fun _ => none, fun _ => ⟨false, false, none⟩, activeDrag, true, 0, [], []⟩

def mouseListeners (w : PressWindow E) : List (Listener E) := w.frame.flatMap Painted.mouseListeners

section Listeners

variable [DecidableEq E]

def setPending (w : PressWindow E) (id : E) (press : Option Press) : PressWindow E :=
  { w with pendingMouseDown := Function.update w.pendingMouseDown id press }

def setListener (w : PressWindow E) (id : E) (state : ListenerState) : PressWindow E :=
  { w with listeners := Function.update w.listeners id state }

def onMouseDown (d : Dispatch E) (event : MouseDownEvent) (phase : DispatchPhase) (id : E) (w : PressWindow E) :
    PressWindow E :=
  if phase = .bubble ∧ event.button = .left ∧ d.hovered id = true then w.setPending id (some ⟨w.time, event⟩) else w

def onMouseMove (event : MouseMoveEvent) (phase : DispatchPhase) (id : E) (w : PressWindow E) : PressWindow E :=
  if phase = .capture then w
  else match w.pendingMouseDown id with
    | none => w
    | some press =>
      if w.activeDrag = false ∧ draggedFrom press.event.position event.position = true ∧
          (w.listeners id).dragListener = true then
        { (w.setListener id { w.listeners id with dragListener := false }).setPending id none with
          activeDrag := true
          propagateEvent := false
          drags := w.drags ++ [⟨id, press⟩] }
      else w

def onMouseUp (d : Dispatch E) (event : MouseUpEvent) (phase : DispatchPhase) (id : E) (w : PressWindow E) :
    PressWindow E :=
  match phase with
  | .capture =>
    match w.pendingMouseDown id with
    | none => w
    | some press =>
      if d.hovered id then (w.setListener id { w.listeners id with capturedMouseDown := some press }).setPending id none
      else w.setPending id none
  | .bubble =>
    match (w.listeners id).capturedMouseDown with
    | none => w
    | some press =>
      let taken := w.setListener id { w.listeners id with capturedMouseDown := none }
      if (w.listeners id).clickListeners then
        { taken with
          clicks := w.clicks ++ [⟨id, press, event, w.time⟩]
          propagateEvent := w.propagateEvent && !d.clickStops id }
      else taken

/-- A listener gets the events of its type. -/
def call (d : Dispatch E) (phase : DispatchPhase) (listener : Listener E) (w : PressWindow E) : PressWindow E :=
  match listener with
  | .mouseDown id =>
    match d.event with
    | .down event => w.onMouseDown d event phase id
    | _ => w
  | .mouseMove id =>
    match d.event with
    | .move event => w.onMouseMove event phase id
    | _ => w
  | .mouseUp id =>
    match d.event with
    | .up event => w.onMouseUp d event phase id
    | _ => w
  | .other key => if d.stops phase key then { w with propagateEvent := false } else w

/-- The end of a drag with the release of a button. -/
def endDrag (event : MouseEvent) (w : PressWindow E) : PressWindow E :=
  match event with
  | .up _ => { w with activeDrag := false }
  | _ => w

def dispatchMouseEvent (w : PressWindow E) (d : Dispatch E) : Option (PressWindow E) :=
  (dispatchPhases (fun phase listener w => some (call d phase listener w)) propagateEvent w.mouseListeners
    { w with propagateEvent := true }).map (endDrag d.event)

end Listeners

end PressWindow

/-! ### Drawing -/

/-- How a part of a frame comes about. -/
inductive Drawn (E : Type)
  | painted (element : Interactivity E)
  | reused (element : Interactivity E)
  | other (key : Nat)
deriving DecidableEq

namespace Drawn

variable {E : Type}

def paint : Drawn E → Painted E
  | .painted element => .element element
  | .reused element => .element element
  | .other key => .other key

def id? : Drawn E → Option E
  | .painted element => some element.id
  | .reused element => some element.id
  | .other _ => none

/-- The state of an element in the new frame: `request_layout` forgets the press while something is
dragged. -/
def pending? [DecidableEq E] (w : PressWindow E) (id : E) : Drawn E → Option (Option Press)
  | .painted element => if element.id = id then some (if w.activeDrag then none else w.pendingMouseDown id) else none
  | .reused element => if element.id = id then some (w.pendingMouseDown id) else none
  | .other _ => none

def listener? [DecidableEq E] (w : PressWindow E) (id : E) : Drawn E → Option ListenerState
  | .painted element => if element.id = id then some ⟨element.clickListeners, element.dragListener, none⟩ else none
  | .reused element => if element.id = id then some (w.listeners id) else none
  | .other _ => none

/-- A cached view has been in the frame before. -/
def Drawable (w : PressWindow E) : Drawn E → Prop
  | .reused element => .element element ∈ w.frame
  | _ => True

instance [DecidableEq E] (w : PressWindow E) : DecidablePred (Drawable w)
  | .painted _ => isTrue trivial
  | .reused element => inferInstanceAs (Decidable (.element element ∈ w.frame))
  | .other _ => isTrue trivial

end Drawn

namespace PressWindow

variable {E : Type} [DecidableEq E]

/-- A new frame.  No element is in it twice. -/
def draw (w : PressWindow E) (parts : List (Drawn E)) : Option (PressWindow E) :=
  if (parts.filterMap Drawn.id?).Nodup ∧ ∀ part ∈ parts, part.Drawable w then
    some { w with
      frame := parts.map Drawn.paint
      pendingMouseDown := fun id => (parts.findSome? (Drawn.pending? w id)).join
      listeners := fun id => (parts.findSome? (Drawn.listener? w id)).getD ⟨false, false, none⟩ }
  else none

end PressWindow

inductive MouseAct (E : Type)
  | mouse (d : Dispatch E)
  | draw (parts : List (Drawn E))
  /-- The drag of the application is set in another window. -/
  | setActiveDrag (active : Bool)

namespace PressWindow

variable {E : Type} [DecidableEq E]

def perform (w : PressWindow E) : MouseAct E → Option (PressWindow E)
  | .mouse d => w.dispatchMouseEvent d
  | .draw parts => w.draw parts
  | .setActiveDrag active => some { w with activeDrag := active }

def step (w : PressWindow E) (act : MouseAct E) : Option (PressWindow E) :=
  (w.perform act).map fun w => { w with time := w.time + 1 }

end PressWindow

end FcGpui.Mouse
