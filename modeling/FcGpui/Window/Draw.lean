import FcGpui.Lib.Machine
import FcGpui.Window.Frame

/-!
# Drawing a window

`Window::draw` in `crates/gpui/src/window.rs` with `AnyView` of `view.rs`.  A draw
prepaints the tree of elements, then the draws deferred by it in rounds, each
round by priority, and then paints both.  A cached view whose stored state has its
cache key, which is not dirty and not inside a view that is being rendered anew,
is not rendered: its ranges of the rendered frame are copied.  A deferred draw
that was copied has no element, and its ranges are copied too.

`DrawLog` is kept besides what the source has: which ranges a draw recorded, with
what was appended between their two ends, and which it copied.  So is what is said
about the last render of a view: what it read (`renderReads`), and whether it
deferred a draw with a cached view inside (`defersCached`).
-/

namespace FcGpui

/-- Who a range belongs to: a cached view, or a deferred draw with its priority and
the ids around it. -/
inductive Drawer
  | view (id : GlobalElementId)
  | deferred (ix priority : Nat) (elementIdStack : GlobalElementId)
deriving DecidableEq

/-- What a prepaint appends. -/
structure PrepaintSlice (E : Type) where
  hitboxes : List E
  tooltipRequests : List (Option E)
  deferredDraws : List (Nat × GlobalElementId)
  dispatchTree : List DispatchNode
  accessedElementStates : List (GlobalElementId × StateType)
  lineLayouts : List E
deriving DecidableEq

/-- What a paint appends.  Of the input handlers only the slots count, since the
platform window holds the last one between draws. -/
structure PaintSlice (E : Type) where
  scene : List E
  mouseListeners : List (Option E)
  inputHandlers : List Unit
  cursorStyles : List E
  accessedElementStates : List (GlobalElementId × StateType)
  tabStops : List (TabStopOperation E)
  lineLayouts : List E
deriving DecidableEq

structure Record (I S : Type) where
  drawer : Drawer
  range : IndexRange I
  contribution : S
deriving DecidableEq

structure Replay (I : Type) where
  drawer : Drawer
  range : IndexRange I
deriving DecidableEq

structure DrawLog (E : Type) where
  prepaintRecords : List (Record PrepaintStateIndex (PrepaintSlice E)) := []
  prepaintReplays : List (Replay PrepaintStateIndex) := []
  paintRecords : List (Record PaintIndex (PaintSlice E)) := []
  paintReplays : List (Replay PaintIndex) := []

structure Window (E K : Type) where
  rendered : Frame E K
  next : Frame E K
  dirtyViews : Finset EntityId
  refreshing : Bool
  accessedEntities : Finset EntityId
  trackedEntities : Finset EntityId
  inputHandler : Option E
  log : DrawLog E

section Draw

variable {E K : Type}

/-- What a deferred draw keeps while it is drawn. -/
def DeferredDraw.place (d : DeferredDraw E K) : Nat × GlobalElementId := (d.priority, d.elementIdStack)

namespace Frame

/-- What was appended since an index was read. -/
def prepaintSince (f : Frame E K) (start : PrepaintStateIndex) : PrepaintSlice E where
  hitboxes := f.hitboxes.drop start.hitboxesIndex
  tooltipRequests := f.tooltipRequests.drop start.tooltipsIndex
  deferredDraws := (f.deferredDraws.map DeferredDraw.place).drop start.deferredDrawsIndex
  dispatchTree := f.dispatchTree.drop start.dispatchTreeIndex
  accessedElementStates := f.accessedElementStates.drop start.accessedElementStatesIndex
  lineLayouts := f.lineLayouts.drop start.lineLayoutIndex

def paintSince (f : Frame E K) (start : PaintIndex) : PaintSlice E where
  scene := f.scene.drop start.sceneIndex
  mouseListeners := f.mouseListeners.drop start.mouseListenersIndex
  inputHandlers := (f.inputHandlers.map fun _ => ()).drop start.inputHandlersIndex
  cursorStyles := f.cursorStyles.drop start.cursorStylesIndex
  accessedElementStates := f.accessedElementStates.drop start.accessedElementStatesIndex
  tabStops := f.tabStops.drop start.tabHandleIndex
  lineLayouts := f.lineLayouts.drop start.lineLayoutIndex

end Frame

/-- The entities read by the views that are rendered while the element is laid
out. -/
def Element.layoutReads : Element E K → Finset EntityId
  | .empty => ∅
  | .append first rest => first.layoutReads ∪ rest.layoutReads
  | .leaf _ _ => ∅
  | .withId _ child => child.layoutReads
  | .hidden child => child.layoutReads
  | .view entity reads child => insert entity reads.toFinset ∪ child.layoutReads
  | .cached _ _ _ _ => ∅
  | .deferred _ child => child.layoutReads

/-- The entities read by the views that are rendered while a view is rendered that
shows the element: cached ones too, but not those in what is deferred. -/
def Element.renderReads : Element E K → Finset EntityId
  | .empty => ∅
  | .append first rest => first.renderReads ∪ rest.renderReads
  | .leaf _ _ => ∅
  | .withId _ child => child.renderReads
  | .hidden child => child.renderReads
  | .view entity reads child => insert entity reads.toFinset ∪ child.renderReads
  | .cached entity _ reads child => insert entity reads.toFinset ∪ child.renderReads
  | .deferred _ child => child.layoutReads

def Element.hasCached : Element E K → Bool
  | .empty => false
  | .append first rest => first.hasCached || rest.hasCached
  | .leaf _ _ => false
  | .withId _ child => child.hasCached
  | .hidden child => child.hasCached
  | .view _ _ child => child.hasCached
  | .cached _ _ _ _ => true
  | .deferred _ child => child.hasCached

/-- Whether the element defers a draw with a cached view inside. -/
def Element.defersCached : Element E K → Bool
  | .empty => false
  | .append first rest => first.defersCached || rest.defersCached
  | .leaf _ _ => false
  | .withId _ child => child.defersCached
  | .hidden child => child.defersCached
  | .view _ _ child => child.defersCached
  | .cached _ _ _ child => child.defersCached
  | .deferred _ child => child.hasCached

namespace Window

def new : Window E K := ⟨.empty, .empty, ∅, false, ∅, ∅, none, {}⟩

def pushNode (w : Window E K) (viewId : Option EntityId) (reads : Finset EntityId) : Window E K :=
  { w with next := { w.next with dispatchTree := w.next.dispatchTree ++ [⟨viewId, reads⟩] } }

/-- The first half of `with_element_state`: the key is noted and the state taken
out of both frames. -/
def accessState (w : Window E K) (id : GlobalElementId) : Window E K :=
  { w with
    next := { w.next.accessElementState id .anyViewState with
      elementStates := w.next.elementStates.erase id }
    rendered := { w.rendered with elementStates := w.rendered.elementStates.erase id } }

/-- The state that the view with global id `id` finds. -/
def stateOf (w : Window E K) (id : GlobalElementId) : Option (AnyViewState K) :=
  (w.next.elementStates.lookup id).or (w.rendered.elementStates.lookup id)

/-- The second half of `with_element_state`. -/
def insertState (w : Window E K) (id : GlobalElementId) (state : AnyViewState K) : Window E K :=
  { w with next := { w.next with elementStates := w.next.elementStates.insert id state } }

def recordPrepaint (w : Window E K) (drawer : Drawer) (start : PrepaintStateIndex) :
    IndexRange PrepaintStateIndex × Window E K :=
  let range := ⟨start, w.next.prepaintIndex⟩
  (range, { w with log := { w.log with
    prepaintRecords := w.log.prepaintRecords ++ [⟨drawer, range, w.next.prepaintSince start⟩] } })

def recordPaint (w : Window E K) (drawer : Drawer) (start : PaintIndex) :
    IndexRange PaintIndex × Window E K :=
  let range := ⟨start, w.next.paintIndex⟩
  (range, { w with log := { w.log with
    paintRecords := w.log.paintRecords ++ [⟨drawer, range, w.next.paintSince start⟩] } })

def reusePrepaint (w : Window E K) (drawer : Drawer) (range : IndexRange PrepaintStateIndex) :
    Except Panic (Window E K) := do
  let (rendered, next) ← FcGpui.reusePrepaint range w.rendered w.next
  return { w with
    rendered := rendered
    next := next
    log := { w.log with prepaintReplays := w.log.prepaintReplays ++ [⟨drawer, range⟩] } }

def reusePaint (w : Window E K) (drawer : Drawer) (range : IndexRange PaintIndex) :
    Except Panic (Window E K) := do
  let (rendered, next) ← FcGpui.reusePaint range w.rendered w.next
  return { w with
    rendered := rendered
    next := next
    log := { w.log with paintReplays := w.log.paintReplays ++ [⟨drawer, range⟩] } }

def deferDraw (w : Window E K) (elementIdStack : GlobalElementId) (priority : Nat)
    (element : Element E K) : Window E K :=
  { w with next := { w.next with
    deferredDraws := w.next.deferredDraws ++
      [⟨priority, elementIdStack, .laidOut element, ⟨{}, {}⟩, ⟨{}, {}⟩⟩] } }

/-- Whether a stored state may be used instead of rendering the view. -/
def reusable [DecidableEq K] (dirtyViews : Finset EntityId) (refreshing : Bool) (entity : EntityId) (cacheKey : K)
    (state : AnyViewState K) : Bool :=
  decide (state.cacheKey = cacheKey) && decide (entity ∉ dirtyViews) && !refreshing

/-- Prepaints an element below the ids `id`. -/
def prepaint [DecidableEq K] : Element E K → GlobalElementId → Window E K →
    Except Panic (Prepainted E × Window E K)
  | .empty, _, w => .ok (.empty, w)
  | .append first rest, id, w => do
    let (first, w) ← prepaint first id w
    let (rest, w) ← prepaint rest id w
    return (.append first rest, w)
  | .leaf prepaintOps paintOps, id, w =>
    let w := w.pushNode none ∅
    .ok (.leaf paintOps, { w with next := prepaintOps.foldl (Frame.prepaintOp id) w.next })
  | .withId name child, id, w => do
    let (child, w) ← prepaint child (id ++ [name]) (w.pushNode none ∅)
    return (.withId name child, w)
  | .hidden child, id, w => do
    let (child, w) ← prepaint child id (w.pushNode none ∅)
    return (.hidden child, w)
  | .view entity reads child, id, w => do
    let w := w.pushNode (some entity) (insert entity reads.toFinset)
    let (child, w) ← prepaint child (id ++ [.view entity]) w
    return (.view entity child, w)
  | .cached entity cacheKey reads child, id, w => do
    let id := id ++ [.view entity]
    match (w.stateOf id).filter (reusable w.dirtyViews w.refreshing entity cacheKey) with
    | some state =>
      let w := (w.pushNode (some entity) state.reads).accessState id
      let start := w.next.prepaintIndex
      let w ← w.reusePrepaint (.view id) state.prepaintRange
      let w := { w with accessedEntities := w.accessedEntities ∪ state.accessedEntities }
      let (range, w) := w.recordPrepaint (.view id) start
      return (.reused entity, w.insertState id { state with prepaintRange := range })
    | none =>
      let reads := insert entity reads.toFinset
      let w := (w.pushNode (some entity) reads).accessState id
      let refreshing := w.refreshing
      let start := w.next.prepaintIndex
      -- `detect_accessed_entities` around the render, the layout and the prepaint
      let accessedStart := w.accessedEntities
      let w := { w with
        refreshing := true
        accessedEntities := w.accessedEntities ∪ (reads ∪ child.layoutReads) }
      let (prepainted, w) ← prepaint child id w
      let w := { w with refreshing := refreshing }
      let (range, w) := w.recordPrepaint (.view id) start
      return (.rendered entity prepainted, w.insertState id
        ⟨range, ⟨{}, {}⟩, cacheKey, w.accessedEntities \ accessedStart, reads,
          reads ∪ child.renderReads, child.defersCached⟩)
  | .deferred priority child, id, w =>
    .ok (.deferred, (w.pushNode none ∅).deferDraw id priority child)

/-- Paints an element below the ids `id`. -/
def paint : Prepainted E → GlobalElementId → Window E K → Except Panic (Window E K)
  | .empty, _, w => .ok w
  | .append first rest, id, w => do
    let w ← paint first id w
    paint rest id w
  | .leaf paintOps, id, w => .ok { w with next := paintOps.foldl (Frame.paintOp id) w.next }
  | .withId name child, id, w => paint child (id ++ [name]) w
  | .hidden _, _, w => .ok w
  | .view entity child, id, w => paint child (id ++ [.view entity]) w
  | .rendered entity child, id, w =>
    let id := id ++ [.view entity]
    match w.stateOf id with
    | none => .error .missingState
    | some state => do
      let w := w.accessState id
      let start := w.next.paintIndex
      let w ← paint child id w
      let (range, w) := w.recordPaint (.view id) start
      return w.insertState id { state with paintRange := range }
  | .reused entity, id, w =>
    let id := id ++ [.view entity]
    match w.stateOf id with
    | none => .error .missingState
    | some state => do
      let w := w.accessState id
      let start := w.next.paintIndex
      let w ← w.reusePaint (.view id) state.paintRange
      let (range, w) := w.recordPaint (.view id) start
      return w.insertState id { state with paintRange := range }
  | .deferred, _, w => .ok w

/-- The positions `a..b` of the deferred draws, by priority. -/
def traversalOrder (w : Window E K) (a b : Nat) : List Nat :=
  (List.range' a (b - a)).insertionSort fun i j =>
    ((w.next.deferredDraws[i]?).map DeferredDraw.priority).getD 0
      ≤ ((w.next.deferredDraws[j]?).map DeferredDraw.priority).getD 0

def setDeferredDraw (w : Window E K) (ix : Nat) (d : DeferredDraw E K) : Window E K :=
  { w with next := { w.next with deferredDraws := w.next.deferredDraws.set ix d } }

/-- Prepaints the element of a deferred draw, or copies its range. -/
def prepaintDeferredElement [DecidableEq K] (w : Window E K) (ix : Nat) (d : DeferredDraw E K) :
    Except Panic (DeferredElement E K × Window E K) :=
  match d.element with
  | .laidOut element => do
    let (element, w) ← prepaint element d.elementIdStack w
    return (.prepainted element, w)
  | .prepainted _ => .error .notPrepainted
  | .none => do
    let w ← w.reusePrepaint (.deferred ix d.priority d.elementIdStack) d.prepaintRange
    return (.none, w)

/-- One draw of a round of `prepaint_deferred_draws`. -/
def prepaintDeferredDraw [DecidableEq K] (w : Window E K) (ix : Nat) : Except Panic (Window E K) :=
  match w.next.deferredDraws[ix]? with
  | none => .error .outOfBounds
  | some d => do
    let start := w.next.prepaintIndex
    let (element, w) ← w.prepaintDeferredElement ix d
    let (range, w) := w.recordPrepaint (.deferred ix d.priority d.elementIdStack) start
    return w.setDeferredDraw ix { d with element := element, prepaintRange := range }

/-- The rounds of `prepaint_deferred_draws`: each prepaints what the round before
deferred. -/
def prepaintDeferredDraws [DecidableEq K] : Nat → Nat → Window E K → Except Panic (Window E K)
  | rounds, roundStart, w =>
    let roundEnd := w.next.deferredDraws.length
    if roundStart = roundEnd then .ok w
    else match rounds with
      | 0 => .error .deferredDepth
      | rounds + 1 => do
        let w ← (w.traversalOrder roundStart roundEnd).foldlM prepaintDeferredDraw w
        prepaintDeferredDraws rounds roundEnd w

def paintDeferredElement (w : Window E K) (ix : Nat) (d : DeferredDraw E K) :
    Except Panic (Window E K) :=
  match d.element with
  | .laidOut _ => .error .notPrepainted
  | .prepainted element => paint element d.elementIdStack w
  | .none => w.reusePaint (.deferred ix d.priority d.elementIdStack) d.paintRange

def paintDeferredDraw (w : Window E K) (ix : Nat) : Except Panic (Window E K) :=
  match w.next.deferredDraws[ix]? with
  | none => .error .outOfBounds
  | some d => do
    let start := w.next.paintIndex
    let w ← w.paintDeferredElement ix d
    let (range, w) := w.recordPaint (.deferred ix d.priority d.elementIdStack) start
    return w.setDeferredDraw ix { d with paintRange := range }

def paintDeferredDraws (w : Window E K) : Except Panic (Window E K) :=
  (w.traversalOrder 0 w.next.deferredDraws.length).foldlM paintDeferredDraw w

end Window

/-- The element states of a finished frame: a state that was accessed without being
stored again is moved over from the previous frame. -/
def finishStates (accessed : List (GlobalElementId × StateType))
    (previous states : AList fun _ : GlobalElementId => AnyViewState K) :
    AList fun _ : GlobalElementId => AnyViewState K :=
  (accessed.foldl (fun (previous, states) key =>
    match key.2 with
    | .other _ => (previous, states)
    | .anyViewState =>
      match previous.lookup key.1 with
      | some state => (previous.erase key.1, states.insert key.1 state)
      | none => (previous, states)) (previous, states)).2

/-- What a draw is asked for: the tree that the root view renders, the dirty views,
and whether all is drawn anew. -/
structure DrawInput (E K : Type) where
  root : Element E K
  dirtyViews : Finset EntityId
  refresh : Bool

namespace Window

/-- The window when its root begins to be prepainted. -/
def beginDraw (w : Window E K) (input : DrawInput E K) : Window E K :=
  { w with
    rendered := w.rendered.restoreInputHandler w.inputHandler
    inputHandler := none
    dirtyViews := input.dirtyViews
    refreshing := input.refresh
    accessedEntities := input.root.layoutReads
    log := {} }

/-- The next frame is finished and becomes the rendered one. -/
def endDraw (w : Window E K) : Window E K :=
  { w with
    rendered := { w.next.takeInputHandler.2 with
      elementStates := finishStates w.next.accessedElementStates w.rendered.elementStates
        w.next.elementStates }
    next := .empty
    inputHandler := w.next.takeInputHandler.1
    dirtyViews := ∅
    refreshing := false
    trackedEntities := w.accessedEntities }

def draw [DecidableEq K] (w : Window E K) (input : DrawInput E K) : Except Panic (Window E K) := do
  let w := w.beginDraw input
  let (root, w) ← prepaint input.root [] w
  let w ← prepaintDeferredDraws 10 0 w
  let w ← paint root [] w
  let w ← w.paintDeferredDraws
  return w.endDraw

/-- A draw that does not panic. -/
def step [DecidableEq K] (w : Window E K) (input : DrawInput E K) : Option (Window E K) :=
  (w.draw input).toOption

end Window

end Draw

end FcGpui
