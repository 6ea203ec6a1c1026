import FcGpui.Window.Frame
import FcGpui.Window.PendingInput

/-!
# The dispatch tree

`DispatchTree` in `crates/gpui/src/key_dispatch.rs`.  The nodes are a vector in
which every node names its parent; a node is added below the active one, the last
of `node_stack`.  Next to that stack the tree keeps the key contexts and the views
of the nodes on it.  `set_active_node` moves to an existing node, `reuse_subtree`
moves a range of nodes over from another tree.

Stacks have their top at the end, as the vectors of the source; only the stack of
source nodes in `reuse_subtree`, which is local to it, has its top in front.  The
closures of listeners are of an arbitrary type `L`.  A function gives `none` where
the source panics.
-/

namespace FcGpui

abbrev DispatchNodeId := Nat

structure DispatchTree.DispatchActionListener (L : Type) where
  actionType : Nat
  listener : L
deriving DecidableEq

structure DispatchTree.DispatchNode (L : Type) where
  keyListeners : List L := []
  actionListeners : List (DispatchTree.DispatchActionListener L) := []
  modifiersChangedListeners : List L := []
  context : Option KeyContext := none
  focusId : Option FocusId := none
  viewId : Option EntityId := none
  parent : Option DispatchNodeId := none
deriving DecidableEq

structure DispatchTree (L : Type) where
  nodeStack : List DispatchNodeId
  contextStack : List KeyContext
  viewStack : List EntityId
  nodes : List (DispatchTree.DispatchNode L)
  focusableNodeIds : AList fun _ : FocusId => DispatchNodeId
  viewNodeIds : AList fun _ : EntityId => DispatchNodeId

namespace DispatchTree

structure ReusedSubtree where
  oldRange : IndexRange Nat
  newRange : IndexRange Nat
  containsFocus : Bool

def ReusedSubtree.refreshNodeId (reused : ReusedSubtree) (nodeId : DispatchNodeId) :
    DispatchNodeId :=
  nodeId - reused.oldRange.start + reused.newRange.start

variable {L : Type}

def new : DispatchTree L := ⟨[], [], [], [], ∅, ∅⟩

def activeNodeId (tree : DispatchTree L) : Option DispatchNodeId := tree.nodeStack.getLast?

/-- `active_node`, with what is done to it. -/
def updateActiveNode (tree : DispatchTree L) (f : DispatchNode L → DispatchNode L) :
    Option (DispatchTree L) := do
  let nodeId ← tree.activeNodeId
  let node ← tree.nodes[nodeId]?
  some { tree with nodes := tree.nodes.set nodeId (f node) }

def pushNode (tree : DispatchTree L) : DispatchNodeId × DispatchTree L :=
  (tree.nodes.length,
    { tree with
      nodes := tree.nodes ++ [{ parent := tree.activeNodeId }]
      nodeStack := tree.nodeStack ++ [tree.nodes.length] })

def popNode (tree : DispatchTree L) : Option (DispatchTree L) := do
  let nodeId ← tree.activeNodeId
  let node ← tree.nodes[nodeId]?
  some { tree with
    contextStack := if node.context.isSome then tree.contextStack.dropLast else tree.contextStack
    viewStack := if node.viewId.isSome then tree.viewStack.dropLast else tree.viewStack
    nodeStack := tree.nodeStack.dropLast }

def setKeyContext (tree : DispatchTree L) (context : KeyContext) : Option (DispatchTree L) := do
  let tree ← tree.updateActiveNode fun node => { node with context := some context }
  some { tree with contextStack := tree.contextStack ++ [context] }

def setFocusId (tree : DispatchTree L) (focusId : FocusId) : Option (DispatchTree L) := do
  let nodeId ← tree.activeNodeId
  let tree ← tree.updateActiveNode fun node => { node with focusId := some focusId }
  some { tree with focusableNodeIds := tree.focusableNodeIds.insert focusId nodeId }

/-- The view that is on top already is not set again. -/
def setViewId (tree : DispatchTree L) (viewId : EntityId) : Option (DispatchTree L) :=
  if tree.viewStack.getLast? = some viewId then some tree
  else do
    let nodeId ← tree.activeNodeId
    let tree ← tree.updateActiveNode fun node => { node with viewId := some viewId }
    some { tree with
      viewNodeIds := tree.viewNodeIds.insert viewId nodeId
      viewStack := tree.viewStack ++ [viewId] }

def onKeyEvent (tree : DispatchTree L) (listener : L) : Option (DispatchTree L) :=
  tree.updateActiveNode fun node => { node with keyListeners := node.keyListeners ++ [listener] }

def onModifiersChanged (tree : DispatchTree L) (listener : L) : Option (DispatchTree L) :=
  tree.updateActiveNode fun node =>
    { node with modifiersChangedListeners := node.modifiersChangedListeners ++ [listener] }

def onAction (tree : DispatchTree L) (actionType : Nat) (listener : L) :
    Option (DispatchTree L) :=
  tree.updateActiveNode fun node =>
    { node with actionListeners := node.actionListeners ++ [⟨actionType, listener⟩] }

/-- Drops the nodes from an index on, and what the maps have under their focus ids and views. -/
def truncate (tree : DispatchTree L) (index : Nat) : Option (DispatchTree L) :=
  if index ≤ tree.nodes.length then
    let dropped := tree.nodes.drop index
    some { tree with
      nodes := tree.nodes.take index
      focusableNodeIds := (dropped.filterMap DispatchNode.focusId).foldl (fun ids id => ids.erase id)
        tree.focusableNodeIds
      viewNodeIds := (dropped.filterMap DispatchNode.viewId).foldl (fun ids id => ids.erase id)
        tree.viewNodeIds }
  else none

/-! ### Moving to an existing node -/

/-- The first loop of `set_active_node`.  It pops at most what is on the stack. -/
def popTo (parent : Option DispatchNodeId) : Nat → DispatchTree L → Option (DispatchTree L)
  | 0, tree => some tree
  | fuel + 1, tree =>
    if tree.activeNodeId ≠ parent ∧ tree.nodeStack ≠ [] then
      tree.popNode.bind (popTo parent fuel)
    else some tree

/-- The second loop, from a node up to its root.  A parent comes before its
children, so it takes at most one step for each node. -/
def climb : Nat → Option DispatchNodeId → DispatchTree L → Option (DispatchTree L)
  | _, none, tree => some tree
  | 0, some _, _ => none
  | fuel + 1, some nodeId, tree => do
    let node ← tree.nodes[nodeId]?
    climb fuel node.parent { tree with
      contextStack := tree.contextStack ++ node.context.toList
      viewStack := tree.viewStack ++ node.viewId.toList
      nodeStack := tree.nodeStack ++ [nodeId] }

def setActiveNode (tree : DispatchTree L) (nodeId : DispatchNodeId) :
    Option (DispatchTree L) := do
  let node ← tree.nodes[nodeId]?
  let tree ← popTo node.parent tree.nodeStack.length tree
  if tree.activeNodeId = node.parent then
    some { tree with
      nodeStack := tree.nodeStack ++ [nodeId]
      viewStack := tree.viewStack ++ node.viewId.toList
      contextStack := tree.contextStack ++ node.context.toList }
  else
    let tree ← climb tree.nodes.length (some nodeId) tree
    some { tree with
      contextStack := tree.contextStack.reverse
      viewStack := tree.viewStack.reverse
      nodeStack := tree.nodeStack.reverse }

/-- The loop of `dispatch_path`, from a node up to its root. -/
def pathUp (nodes : List (DispatchNode L)) :
    Nat → Option DispatchNodeId → Option (List DispatchNodeId)
  | _, none => some []
  | 0, some _ => none
  | fuel + 1, some nodeId =>
    (pathUp nodes fuel ((nodes[nodeId]?).bind DispatchNode.parent)).map (nodeId :: ·)

def dispatchPath (tree : DispatchTree L) (target : DispatchNodeId) :
    Option (List DispatchNodeId) :=
  (pathUp tree.nodes (tree.nodes.length + 1) (some target)).map List.reverse

/-! ### Moving nodes over -/

/-- What is left of a node that was moved. -/
def DispatchNode.takeListeners (node : DispatchNode L) : DispatchNode L :=
  { node with keyListeners := [], actionListeners := [], modifiersChangedListeners := [] }

/-- The new node, and what is left of the source node. -/
def moveNode (tree : DispatchTree L) (source : DispatchNode L) :
    Option (DispatchTree L × DispatchNode L) := do
  let tree ← source.context.elim (some tree.pushNode.2) tree.pushNode.2.setKeyContext
  let tree ← source.focusId.elim (some tree) tree.setFocusId
  let tree ← source.viewId.elim (some tree) tree.setViewId
  let tree ← tree.updateActiveNode fun node =>
    { node with
      keyListeners := source.keyListeners
      actionListeners := source.actionListeners
      modifiersChangedListeners := source.modifiersChangedListeners }
  some (tree, source.takeListeners)

/-- Pops the source stack, and the tree with it, down to the parent. -/
def popAncestors (parent : Option DispatchNodeId) : List DispatchNodeId → DispatchTree L →
    Option (List DispatchNodeId × DispatchTree L)
  | [], tree => some ([], tree)
  | ancestor :: stack, tree =>
    if parent = some ancestor then some (ancestor :: stack, tree)
    else tree.popNode.bind (popAncestors parent stack)

/-- The loop over the source nodes, the first of which has the given id.  It gives
the source stack, the tree, whether the focus was met, and what is left of the
source nodes. -/
def moveNodes (focus : Option FocusId) : List (DispatchNode L) → DispatchNodeId →
    List DispatchNodeId → DispatchTree L →
    Option (List DispatchNodeId × DispatchTree L × Bool × List (DispatchNode L))
  | [], _, stack, tree => some (stack, tree, false, [])
  | sourceNode :: sourceNodes, sourceNodeId, stack, tree => do
    let (stack, tree) ← popAncestors sourceNode.parent stack tree
    let (tree, left) ← tree.moveNode sourceNode
    let (stack, tree, containsFocus, lefts) ←
      moveNodes focus sourceNodes (sourceNodeId + 1) (sourceNodeId :: stack) tree
    some (stack, tree, (sourceNode.focusId.isSome && sourceNode.focusId == focus) || containsFocus,
      left :: lefts)

/-- The last loop: the tree is popped once for each node on the source stack. -/
def popAll : List DispatchNodeId → DispatchTree L → Option (DispatchTree L)
  | [], tree => some tree
  | _ :: stack, tree => tree.popNode.bind (popAll stack)

/-- The tree, the source afterwards and the ranges. -/
def reuseSubtree (tree : DispatchTree L) (oldRange : IndexRange Nat)
    (source : DispatchTree L) (focus : Option FocusId) :
    Option (DispatchTree L × DispatchTree L × ReusedSubtree) := do
  let size := oldRange.stop - oldRange.start
  let newRange := ⟨tree.nodes.length, tree.nodes.length + size⟩
  let (stack, tree, containsFocus, lefts) ← moveNodes focus
    ((source.nodes.drop oldRange.start).take size) oldRange.start [] tree
  let tree ← popAll stack tree
  let nodes := source.nodes.take oldRange.start ++ lefts
    ++ source.nodes.drop (oldRange.start + size)
  some (tree, { source with nodes := nodes }, ⟨oldRange, newRange, containsFocus⟩)

end DispatchTree

end FcGpui
