import FcGpui.DispatchTree.Tree
import FcGpui.Lib.Slice

/-!
# Prepaint transactions

`Window::transact` in `crates/gpui/src/window.rs`, with what elements do to the window while
they are prepainted inside of it.  When a transaction fails, the vectors of the next frame
and the dispatch tree are cut back to where they were, and the same is prepainted again.

The rest of the window stays as the failed attempt has left it.  Focus, maps and element
states are written again by the second attempt.  But a cached view whose state is reused takes
tooltips and listeners out of the rendered frame, and its range is then one of the next frame,
where the second attempt reads the rendered frame at it (`LeavesNoTrace`, `Renders`).

What elements register is of an arbitrary type `E`.  Lines that are laid out are left out, and so
are the entities that a view accesses.  A function gives `none` where the source panics.
-/

namespace FcGpui.Transact

structure Hitbox (E : Type) where
  id : Nat
  hitbox : E
deriving DecidableEq

structure TooltipRequest (E : Type) where
  id : Nat
  tooltip : E
deriving DecidableEq

structure PlacedDraw (E : Type) where
  currentView : EntityId
  parentNode : DispatchNodeId
  elementIdStack : GlobalElementId
  textStyleStack : List E
  priority : Nat
  element : Option E
  absoluteOffset : E
  prepaintRange : IndexRange PrepaintStateIndex
  paintRange : IndexRange PaintIndex
deriving DecidableEq

/-- The state of a cached view. -/
structure ViewState (K : Type) where
  prepaintRange : IndexRange PrepaintStateIndex
  cacheKey : K

/-- What a prepaint writes to a frame. -/
structure PrepaintFrame (E K S L : Type) where
  focus : Option FocusId
  viewStates : GlobalElementId → Option (ViewState K)
  elementStates : GlobalElementId × Nat → Option S
  accessedElementStates : List (GlobalElementId × StateType)
  dispatchTree : DispatchTree L
  hitboxes : List (Hitbox E)
  tooltipRequests : List (Option (TooltipRequest E))
  deferredDraws : List (PlacedDraw E)

structure PrepaintWindow (E K S L : Type) where
  rendered : PrepaintFrame E K S L
  next : PrepaintFrame E K S L
  focus : Option FocusId
  dirtyViews : Finset EntityId
  refreshing : Bool
  renderedEntityStack : List EntityId
  elementIdStack : GlobalElementId
  textStyleStack : List E
  nextHitboxId : Nat
  nextTooltipId : Nat

/-- A sequence of prepaint operations.  Elements push a node each; a cached view carries what
it would render now. -/
inductive Prepaints (E K S : Type)
  | done
  | insertHitbox (hitbox : E) (rest : Prepaints E K S)
  | setTooltip (tooltip : E) (rest : Prepaints E K S)
  | deferDraw (element absoluteOffset : E) (priority : Nat) (rest : Prepaints E K S)
  | node (viewId : Option EntityId) (focusId : Option FocusId) (body rest : Prepaints E K S)
  | withElementState (id : GlobalElementId) (typeId : Nat) (update : Option S → S)
      (body rest : Prepaints E K S)
  | cachedView (id : GlobalElementId) (entity : EntityId) (cacheKey : K) (render rest : Prepaints E K S)

variable {E K S L : Type}

def PrepaintFrame.prepaintIndex (f : PrepaintFrame E K S L) : PrepaintStateIndex where
  hitboxesIndex := f.hitboxes.length
  tooltipsIndex := f.tooltipRequests.length
  deferredDrawsIndex := f.deferredDraws.length
  dispatchTreeIndex := f.dispatchTree.nodes.length
  accessedElementStatesIndex := f.accessedElementStates.length

def PlacedDraw.replay (reused : DispatchTree.ReusedSubtree) (d : PlacedDraw E) : PlacedDraw E :=
  { d with parentNode := reused.refreshNodeId d.parentNode, element := none }

namespace PrepaintWindow

def insertHitbox (w : PrepaintWindow E K S L) (hitbox : E) : PrepaintWindow E K S L :=
  { w with
    nextHitboxId := w.nextHitboxId + 1
    next := { w.next with hitboxes := w.next.hitboxes ++ [⟨w.nextHitboxId, hitbox⟩] } }

def setTooltip (w : PrepaintWindow E K S L) (tooltip : E) : PrepaintWindow E K S L :=
  { w with
    nextTooltipId := w.nextTooltipId + 1
    next := { w.next with
      tooltipRequests := w.next.tooltipRequests ++ [some ⟨w.nextTooltipId, tooltip⟩] } }

def deferDraw (w : PrepaintWindow E K S L) (element absoluteOffset : E) (priority : Nat) :
    Option (PrepaintWindow E K S L) := do
  let parentNode ← w.next.dispatchTree.activeNodeId
  let currentView ← w.renderedEntityStack.getLast?
  some { w with next := { w.next with
    deferredDraws := w.next.deferredDraws ++ [⟨currentView, parentNode, w.elementIdStack,
      w.textStyleStack, priority, some element, absoluteOffset, ⟨{}, {}⟩, ⟨{}, {}⟩⟩] } }

def setTree (w : PrepaintWindow E K S L) (tree : DispatchTree L) : PrepaintWindow E K S L :=
  { w with next := { w.next with dispatchTree := tree } }

def setViewId (w : PrepaintWindow E K S L) (viewId : EntityId) : Option (PrepaintWindow E K S L) :=
  (w.next.dispatchTree.setViewId viewId).map w.setTree

def setFocusHandle (w : PrepaintWindow E K S L) (focusId : FocusId) : Option (PrepaintWindow E K S L) :=
  let w := if w.focus = some focusId then { w with next := { w.next with focus := some focusId } } else w
  (w.next.dispatchTree.setFocusId focusId).map w.setTree

/-- The node of an element, with its view and its focus handle. -/
def openNode (w : PrepaintWindow E K S L) (viewId : Option EntityId) (focusId : Option FocusId) :
    Option (PrepaintWindow E K S L) := do
  let w := w.setTree w.next.dispatchTree.pushNode.2
  let w ← viewId.elim (some w) w.setViewId
  focusId.elim (some w) w.setFocusHandle

def closeNode (w : PrepaintWindow E K S L) : Option (PrepaintWindow E K S L) :=
  w.next.dispatchTree.popNode.map w.setTree

/-- The first half of `with_element_state`: the key is noted and the state taken out of both
frames. -/
def takeElementState (w : PrepaintWindow E K S L) (key : GlobalElementId × Nat) :
    Option S × PrepaintWindow E K S L :=
  ((w.next.elementStates key).or (w.rendered.elementStates key),
    { w with
      next := { w.next with
        accessedElementStates := w.next.accessedElementStates ++ [(key.1, .other key.2)]
        elementStates := Function.update w.next.elementStates key none }
      rendered := { w.rendered with
        elementStates := if (w.next.elementStates key).isSome then w.rendered.elementStates
          else Function.update w.rendered.elementStates key none } })

def putElementState (w : PrepaintWindow E K S L) (key : GlobalElementId × Nat) (state : S) :
    PrepaintWindow E K S L :=
  { w with next := { w.next with
    elementStates := Function.update w.next.elementStates key (some state) } }

/-- The same for the state of a cached view. -/
def takeViewState (w : PrepaintWindow E K S L) (id : GlobalElementId) :
    Option (ViewState K) × PrepaintWindow E K S L :=
  ((w.next.viewStates id).or (w.rendered.viewStates id),
    { w with
      next := { w.next with
        accessedElementStates := w.next.accessedElementStates ++ [(id, .anyViewState)]
        viewStates := Function.update w.next.viewStates id none }
      rendered := { w.rendered with
        viewStates := if (w.next.viewStates id).isSome then w.rendered.viewStates
          else Function.update w.rendered.viewStates id none } })

def putViewState (w : PrepaintWindow E K S L) (id : GlobalElementId) (state : ViewState K) :
    PrepaintWindow E K S L :=
  { w with next := { w.next with viewStates := Function.update w.next.viewStates id (some state) } }

/-- Around the prepaint of a view. -/
def enterView (w : PrepaintWindow E K S L) (entity : EntityId) : PrepaintWindow E K S L :=
  { w with renderedEntityStack := w.renderedEntityStack ++ [entity] }

def leaveView (w : PrepaintWindow E K S L) : PrepaintWindow E K S L :=
  { w with renderedEntityStack := w.renderedEntityStack.dropLast }

def setRefreshing (w : PrepaintWindow E K S L) (refreshing : Bool) : PrepaintWindow E K S L :=
  { w with refreshing := refreshing }

/-- What a cached view added is noted in its state. -/
def storeRange (w : PrepaintWindow E K S L) (id : GlobalElementId) (start : PrepaintStateIndex)
    (cacheKey : K) : PrepaintWindow E K S L :=
  w.putViewState id ⟨⟨start, w.next.prepaintIndex⟩, cacheKey⟩

/-- Whether the state that was found may be used instead of rendering the view. -/
def reuses [DecidableEq K] (w : PrepaintWindow E K S L) (entity : EntityId) (cacheKey : K)
    (state : ViewState K) : Bool :=
  decide (state.cacheKey = cacheKey) && decide (entity ∉ w.dirtyViews) && !w.refreshing

def reusePrepaint (w : PrepaintWindow E K S L) (range : IndexRange PrepaintStateIndex) :
    Option (PrepaintWindow E K S L) := do
  let { start, stop } := range
  let hitboxes ← slice w.rendered.hitboxes start.hitboxesIndex stop.hitboxesIndex
  let tooltips ← slice w.rendered.tooltipRequests start.tooltipsIndex stop.tooltipsIndex
  let accessed ← slice w.rendered.accessedElementStates start.accessedElementStatesIndex
    stop.accessedElementStatesIndex
  let (tree, source, reused) ← w.next.dispatchTree.reuseSubtree
    ⟨start.dispatchTreeIndex, stop.dispatchTreeIndex⟩ w.rendered.dispatchTree w.focus
  let deferredDraws ← slice w.rendered.deferredDraws start.deferredDrawsIndex stop.deferredDrawsIndex
  some { w with
    rendered := { w.rendered with
      tooltipRequests := takeSlots w.rendered.tooltipRequests start.tooltipsIndex stop.tooltipsIndex
      dispatchTree := source }
    next := { w.next with
      hitboxes := w.next.hitboxes ++ hitboxes
      tooltipRequests := w.next.tooltipRequests ++ tooltips
      accessedElementStates := w.next.accessedElementStates ++ accessed
      dispatchTree := tree
      focus := if reused.containsFocus then w.focus else w.next.focus
      deferredDraws := w.next.deferredDraws ++ deferredDraws.map (PlacedDraw.replay reused) } }

/-- What a failed transaction cuts back. -/
def truncate (w : PrepaintWindow E K S L) (index : PrepaintStateIndex) :
    Option (PrepaintWindow E K S L) :=
  (w.next.dispatchTree.truncate index.dispatchTreeIndex).map fun tree =>
    { w with next := { w.next with
      hitboxes := w.next.hitboxes.take index.hitboxesIndex
      tooltipRequests := w.next.tooltipRequests.take index.tooltipsIndex
      deferredDraws := w.next.deferredDraws.take index.deferredDrawsIndex
      dispatchTree := tree
      accessedElementStates := w.next.accessedElementStates.take index.accessedElementStatesIndex } }

def transact {T U : Type} (f : PrepaintWindow E K S L → Option (Except U T × PrepaintWindow E K S L))
    (w : PrepaintWindow E K S L) : Option (Except U T × PrepaintWindow E K S L) := do
  let index := w.next.prepaintIndex
  let (result, w) ← f w
  match result with
  | .ok value => some (.ok value, w)
  | .error error => (w.truncate index).map fun w => (.error error, w)

end PrepaintWindow

section Prepaint

variable [DecidableEq K]

def prepaint : Prepaints E K S → PrepaintWindow E K S L → Option (PrepaintWindow E K S L)
  | .done, w => some w
  | .insertHitbox hitbox rest, w => prepaint rest (w.insertHitbox hitbox)
  | .setTooltip tooltip rest, w => prepaint rest (w.setTooltip tooltip)
  | .deferDraw element absoluteOffset priority rest, w => do
    let w ← w.deferDraw element absoluteOffset priority
    prepaint rest w
  | .node viewId focusId body rest, w => do
    let w ← w.openNode viewId focusId
    let w ← prepaint body w
    let w ← w.closeNode
    prepaint rest w
  | .withElementState id typeId update body rest, w => do
    let (state, w) := w.takeElementState (id, typeId)
    let w ← prepaint body w
    prepaint rest (w.putElementState (id, typeId) (update state))
  | .cachedView id entity cacheKey render rest, w => do
    let w ← w.openNode (some entity) none
    let (found, w) := (w.enterView entity).takeViewState id
    let start := w.next.prepaintIndex
    let w ← match found.filter (w.reuses entity cacheKey) with
      | some state => w.reusePrepaint state.prepaintRange
      | none => do
        let refreshing := w.refreshing
        let w ← prepaint render (w.setRefreshing true)
        some (w.setRefreshing refreshing)
    let w ← (w.storeRange id start cacheKey).leaveView.closeNode
    prepaint rest w

/-- A transaction over a sequence that ends in an error. -/
def attempt (ops : Prepaints E K S) (w : PrepaintWindow E K S L) : Option (PrepaintWindow E K S L) :=
  (w.transact fun w => (prepaint ops w).map fun w => ((.error () : Except Unit Unit), w)).map Prod.snd

end Prepaint

/-- Two frames that differ in the ids of their hitboxes and tooltips at most. -/
structure SameFrame (f g : PrepaintFrame E K S L) : Prop where
  hitboxes : f.hitboxes.map Hitbox.hitbox = g.hitboxes.map Hitbox.hitbox
  tooltipRequests : f.tooltipRequests.map (Option.map TooltipRequest.tooltip)
    = g.tooltipRequests.map (Option.map TooltipRequest.tooltip)
  deferredDraws : f.deferredDraws = g.deferredDraws
  nodes : f.dispatchTree.nodes = g.dispatchTree.nodes
  focusableNodeIds : ∀ focusId,
    f.dispatchTree.focusableNodeIds.lookup focusId = g.dispatchTree.focusableNodeIds.lookup focusId
  viewNodeIds : ∀ viewId,
    f.dispatchTree.viewNodeIds.lookup viewId = g.dispatchTree.viewNodeIds.lookup viewId
  focus : f.focus = g.focus
  accessedElementStates : f.accessedElementStates = g.accessedElementStates

section Traces

variable [DecidableEq K]

/-- The sequence prepaints the same after a failed attempt as without one. -/
def LeavesNoTrace (ops : Prepaints E K S) (w : PrepaintWindow E K S L) : Prop :=
  ∀ once failed, prepaint ops w = some once → attempt ops w = some failed →
    ∃ again, prepaint ops failed = some again ∧ SameFrame again.next once.next

/-- No cached view of the sequence is reused. -/
def Renders : Prepaints E K S → PrepaintWindow E K S L → Prop
  | .done, _ => True
  | .insertHitbox hitbox rest, w => Renders rest (w.insertHitbox hitbox)
  | .setTooltip tooltip rest, w => Renders rest (w.setTooltip tooltip)
  | .deferDraw element absoluteOffset priority rest, w =>
    ∀ w' ∈ w.deferDraw element absoluteOffset priority, Renders rest w'
  | .node viewId focusId body rest, w => ∀ w₀ ∈ w.openNode viewId focusId, Renders body w₀ ∧
      ∀ w₁ ∈ prepaint body w₀, ∀ w₂ ∈ w₁.closeNode, Renders rest w₂
  | .withElementState id typeId update body rest, w =>
    Renders body (w.takeElementState (id, typeId)).2 ∧
      ∀ w₁ ∈ prepaint body (w.takeElementState (id, typeId)).2,
        Renders rest (w₁.putElementState (id, typeId) (update (w.takeElementState (id, typeId)).1))
  | .cachedView id entity cacheKey render rest, w => ∀ w₀ ∈ w.openNode (some entity) none,
      let taken := (w₀.enterView entity).takeViewState id
      taken.1.filter (taken.2.reuses entity cacheKey) = none ∧
      Renders render (taken.2.setRefreshing true) ∧
      ∀ w₁ ∈ prepaint render (taken.2.setRefreshing true),
        ∀ w₂ ∈ ((w₁.setRefreshing taken.2.refreshing).storeRange id taken.2.next.prepaintIndex
            cacheKey).leaveView.closeNode, Renders rest w₂

end Traces

end FcGpui.Transact
