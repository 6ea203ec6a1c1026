import FcGpui.Lib.Slice

/-!
# Elements and frames

The data a window draws with, from `crates/gpui/src/window.rs`, `view.rs` and
`element.rs`.  A frame is a bundle of vectors that elements append to while they
are prepainted and painted.  `PrepaintStateIndex` and `PaintIndex` read off the
lengths of these vectors, and a pair of such indices is a range of the frame: what
was appended between two readings.  `reusePrepaint` and `reusePaint` copy a range
of the rendered frame to the end of the next one.

What elements register (hitboxes, tooltips, listeners, primitives and so on) is
only moved around, so it is an arbitrary type `E`; the cache key of a view, which
is only compared, is an arbitrary type `K`.  A slot of a vector whose content is
moved out is left empty (`none`).  The lines laid out through the text system are
a vector of the frame like the others.  A range that is out of bounds is a panic of
the source, and so are the other assertions: `Panic` lists them.
-/

namespace FcGpui

abbrev EntityId := Nat

abbrev WindowId := Nat

inductive ElementId
  | view (entity : EntityId)
  | name (name : Nat)
deriving DecidableEq

abbrev GlobalElementId := List ElementId

/-- The type of an element state: that of a cached view, or another one. -/
inductive StateType
  | anyViewState
  | other (typeId : Nat)
deriving DecidableEq

inductive Panic
  | outOfBounds
  | missingState
  | notPrepainted
  | deferredDepth
deriving DecidableEq

inductive TabStopOperation (E : Type)
  | insert (focusHandle : E)
  | group (tabIndex : Int)
  | groupEnd
deriving DecidableEq

/-- What an element does while it is prepainted. -/
inductive PrepaintOp (E : Type)
  | insertHitbox (hitbox : E)
  | setTooltip (tooltip : E)
  | withElementState (typeId : Nat)
  | layoutLine (line : E)

/-- What an element does while it is painted. -/
inductive PaintOp (E : Type)
  | insertPrimitive (primitive : E)
  | setCursorStyle (request : E)
  | handleInput (focused : Bool) (handler : E)
  | onMouseEvent (listener : E)
  | insertWindowControlHitbox (hitbox : E)
  | tabStop (operation : TabStopOperation E)
  | withElementState (typeId : Nat)
  | layoutLine (line : E)

/-- A tree of elements as it is laid out for one frame.  A view carries the
entities its render reads besides its own, and what it renders; the child of a
cached view is what it would render now. -/
inductive Element (E K : Type)
  | empty
  | append (first rest : Element E K)
  | leaf (prepaint : List (PrepaintOp E)) (paint : List (PaintOp E))
  | withId (id : ElementId) (child : Element E K)
  | hidden (child : Element E K)
  | view (entity : EntityId) (reads : List EntityId) (child : Element E K)
  | cached (entity : EntityId) (cacheKey : K) (reads : List EntityId) (child : Element E K)
  | deferred (priority : Nat) (child : Element E K)

/-- An element after its prepaint: a cached view was rendered or is reused. -/
inductive Prepainted (E : Type)
  | empty
  | append (first rest : Prepainted E)
  | leaf (paint : List (PaintOp E))
  | withId (id : ElementId) (child : Prepainted E)
  | hidden (child : Prepainted E)
  | view (entity : EntityId) (child : Prepainted E)
  | rendered (entity : EntityId) (child : Prepainted E)
  | reused (entity : EntityId)
  | deferred

structure PrepaintStateIndex where
  hitboxesIndex : Nat := 0
  tooltipsIndex : Nat := 0
  deferredDrawsIndex : Nat := 0
  dispatchTreeIndex : Nat := 0
  accessedElementStatesIndex : Nat := 0
  lineLayoutIndex : Nat := 0
deriving DecidableEq

structure PaintIndex where
  sceneIndex : Nat := 0
  mouseListenersIndex : Nat := 0
  inputHandlersIndex : Nat := 0
  cursorStylesIndex : Nat := 0
  accessedElementStatesIndex : Nat := 0
  tabHandleIndex : Nat := 0
  lineLayoutIndex : Nat := 0
deriving DecidableEq

/-- `start..stop`. -/
structure IndexRange (I : Type) where
  start : I
  stop : I
deriving DecidableEq

/-- What is stored for a cached view.  The last three are kept besides what the source
has: what its last render read, the same with the views rendered inside it, and
whether it deferred a draw with a cached view inside. -/
structure AnyViewState (K : Type) where
  prepaintRange : IndexRange PrepaintStateIndex
  paintRange : IndexRange PaintIndex
  cacheKey : K
  accessedEntities : Finset EntityId
  reads : Finset EntityId
  touched : Finset EntityId
  defersCached : Bool

/-- A node of the dispatch tree: the view it belongs to, and what the last render
of that view read. -/
structure DispatchNode where
  viewId : Option EntityId
  reads : Finset EntityId
deriving DecidableEq

/-- The element of a deferred draw: not there when the draw is replayed, and
before or after its prepaint otherwise. -/
inductive DeferredElement (E K : Type)
  | none
  | laidOut (element : Element E K)
  | prepainted (element : Prepainted E)

structure DeferredDraw (E K : Type) where
  priority : Nat
  elementIdStack : GlobalElementId
  element : DeferredElement E K
  prepaintRange : IndexRange PrepaintStateIndex
  paintRange : IndexRange PaintIndex

structure Frame (E K : Type) where
  elementStates : AList fun _ : GlobalElementId => AnyViewState K
  accessedElementStates : List (GlobalElementId × StateType)
  mouseListeners : List (Option E)
  dispatchTree : List DispatchNode
  scene : List E
  hitboxes : List E
  windowControlHitboxes : List E
  deferredDraws : List (DeferredDraw E K)
  inputHandlers : List (Option E)
  tooltipRequests : List (Option E)
  cursorStyles : List E
  tabStops : List (TabStopOperation E)
  lineLayouts : List E

section Frame

variable {E K : Type}

namespace Frame

def empty : Frame E K := ⟨∅, [], [], [], [], [], [], [], [], [], [], [], []⟩

def prepaintIndex (f : Frame E K) : PrepaintStateIndex where
  hitboxesIndex := f.hitboxes.length
  tooltipsIndex := f.tooltipRequests.length
  deferredDrawsIndex := f.deferredDraws.length
  dispatchTreeIndex := f.dispatchTree.length
  accessedElementStatesIndex := f.accessedElementStates.length
  lineLayoutIndex := f.lineLayouts.length

def paintIndex (f : Frame E K) : PaintIndex where
  sceneIndex := f.scene.length
  mouseListenersIndex := f.mouseListeners.length
  inputHandlersIndex := f.inputHandlers.length
  cursorStylesIndex := f.cursorStyles.length
  accessedElementStatesIndex := f.accessedElementStates.length
  tabHandleIndex := f.tabStops.length
  lineLayoutIndex := f.lineLayouts.length

/-- The first half of `with_element_state`: the key is noted. -/
def accessElementState (f : Frame E K) (id : GlobalElementId) (type : StateType) : Frame E K :=
  { f with accessedElementStates := f.accessedElementStates ++ [(id, type)] }

/-- One operation of an element whose global id is `id`. -/
def prepaintOp (id : GlobalElementId) (f : Frame E K) : PrepaintOp E → Frame E K
  | .insertHitbox hitbox => { f with hitboxes := f.hitboxes ++ [hitbox] }
  | .setTooltip tooltip => { f with tooltipRequests := f.tooltipRequests ++ [some tooltip] }
  | .withElementState typeId => f.accessElementState id (.other typeId)
  | .layoutLine line => { f with lineLayouts := f.lineLayouts ++ [line] }

def paintOp (id : GlobalElementId) (f : Frame E K) : PaintOp E → Frame E K
  | .insertPrimitive primitive => { f with scene := f.scene ++ [primitive] }
  | .setCursorStyle request => { f with cursorStyles := f.cursorStyles ++ [request] }
  | .handleInput focused handler =>
    if focused then { f with inputHandlers := f.inputHandlers ++ [some handler] } else f
  | .onMouseEvent listener => { f with mouseListeners := f.mouseListeners ++ [some listener] }
  | .insertWindowControlHitbox hitbox =>
    { f with windowControlHitboxes := f.windowControlHitboxes ++ [hitbox] }
  | .tabStop operation => { f with tabStops := f.tabStops ++ [operation] }
  | .withElementState typeId => f.accessElementState id (.other typeId)
  | .layoutLine line => { f with lineLayouts := f.lineLayouts ++ [line] }

/-- The handler that the platform window is given: the last one there. -/
def takeInputHandler (f : Frame E K) : Option E × Frame E K :=
  let (handler, slots) := takeLast f.inputHandlers.reverse
  (handler, { f with inputHandlers := slots.reverse })
where
  /-- Empties the first slot that is not empty. -/
  takeLast : List (Option E) → Option E × List (Option E)
    | [] => (none, [])
    | some handler :: slots => (some handler, none :: slots)
    | none :: slots =>
      let (handler, slots) := takeLast slots
      (handler, none :: slots)

/-- The handler comes back to the last empty slot, or to a new one. -/
def restoreInputHandler (f : Frame E K) : Option E → Frame E K
  | none => f
  | some handler =>
    match putLast handler f.inputHandlers.reverse with
    | some slots => { f with inputHandlers := slots.reverse }
    | none => { f with inputHandlers := f.inputHandlers ++ [some handler] }
where
  /-- Fills the first slot that is empty. -/
  putLast (handler : E) : List (Option E) → Option (List (Option E))
    | [] => none
    | none :: slots => some (some handler :: slots)
    | some other :: slots => (putLast handler slots).map (some other :: ·)

end Frame

/-- `l[a..b]`, which panics where it is out of bounds. -/
def sliceOrPanic {α : Type} (l : List α) (a b : Nat) : Except Panic (List α) :=
  match slice l a b with
  | some m => .ok m
  | none => .error .outOfBounds

/-- The slots of a range after their contents were taken. -/
def takeSlots {α : Type} (l : List (Option α)) (a b : Nat) : List (Option α) :=
  l.take a ++ List.replicate (b - a) none ++ l.drop b

/-- A deferred draw as it is copied to the next frame. -/
def DeferredDraw.replay (d : DeferredDraw E K) : DeferredDraw E K := { d with element := .none }

/-- Copies a range to the next frame; the result is the rendered frame and the
next one. -/
def reusePrepaint (range : IndexRange PrepaintStateIndex) (rendered next : Frame E K) :
    Except Panic (Frame E K × Frame E K) := do
  let { start, stop } := range
  let hitboxes ← sliceOrPanic rendered.hitboxes start.hitboxesIndex stop.hitboxesIndex
  let tooltips ← sliceOrPanic rendered.tooltipRequests start.tooltipsIndex stop.tooltipsIndex
  let accessed ← sliceOrPanic rendered.accessedElementStates start.accessedElementStatesIndex
    stop.accessedElementStatesIndex
  let lineLayouts ← sliceOrPanic rendered.lineLayouts start.lineLayoutIndex stop.lineLayoutIndex
  -- `reuse_subtree` skips and takes, which does not panic
  let nodes := (rendered.dispatchTree.drop start.dispatchTreeIndex).take
    (stop.dispatchTreeIndex - start.dispatchTreeIndex)
  let deferredDraws ← sliceOrPanic rendered.deferredDraws start.deferredDrawsIndex
    stop.deferredDrawsIndex
  return (
    { rendered with
      tooltipRequests := takeSlots rendered.tooltipRequests start.tooltipsIndex stop.tooltipsIndex },
    { next with
      hitboxes := next.hitboxes ++ hitboxes
      tooltipRequests := next.tooltipRequests ++ tooltips
      accessedElementStates := next.accessedElementStates ++ accessed
      lineLayouts := next.lineLayouts ++ lineLayouts
      dispatchTree := next.dispatchTree ++ nodes
      deferredDraws := next.deferredDraws ++ deferredDraws.map DeferredDraw.replay })

def reusePaint (range : IndexRange PaintIndex) (rendered next : Frame E K) :
    Except Panic (Frame E K × Frame E K) := do
  let { start, stop } := range
  let cursorStyles ← sliceOrPanic rendered.cursorStyles start.cursorStylesIndex stop.cursorStylesIndex
  let inputHandlers ← sliceOrPanic rendered.inputHandlers start.inputHandlersIndex
    stop.inputHandlersIndex
  let mouseListeners ← sliceOrPanic rendered.mouseListeners start.mouseListenersIndex
    stop.mouseListenersIndex
  let accessed ← sliceOrPanic rendered.accessedElementStates start.accessedElementStatesIndex
    stop.accessedElementStatesIndex
  let tabStops ← sliceOrPanic rendered.tabStops start.tabHandleIndex stop.tabHandleIndex
  let lineLayouts ← sliceOrPanic rendered.lineLayouts start.lineLayoutIndex stop.lineLayoutIndex
  let primitives ← sliceOrPanic rendered.scene start.sceneIndex stop.sceneIndex
  return (
    { rendered with
      inputHandlers :=
        takeSlots rendered.inputHandlers start.inputHandlersIndex stop.inputHandlersIndex
      mouseListeners :=
        takeSlots rendered.mouseListeners start.mouseListenersIndex stop.mouseListenersIndex },
    { next with
      cursorStyles := next.cursorStyles ++ cursorStyles
      inputHandlers := next.inputHandlers ++ inputHandlers
      mouseListeners := next.mouseListeners ++ mouseListeners
      accessedElementStates := next.accessedElementStates ++ accessed
      tabStops := next.tabStops ++ tabStops
      lineLayouts := next.lineLayouts ++ lineLayouts
      scene := next.scene ++ primitives })

end Frame

end FcGpui
