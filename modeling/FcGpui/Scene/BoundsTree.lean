import FcGpui.Geometry

/-!
# The bounds tree

`crates/gpui/src/bounds_tree.rs`.  The tree hands out draw orders: `insert`
returns one more than the largest order among the rectangles inserted before
that overlap the new one.  Its nodes live in one vector and refer to each other
by index, so the model is that vector together with the two indices the source
keeps, the root and the leaf with the largest order.  The two scratch vectors
of the source (`insert_path`, `search_stack`) are emptied before every use and
are locals here.

* `findMaxOrdering` is the query: a test of the largest leaf, then a search
  with a stack that skips a node when its `maxOrder` cannot improve the result
  or its bounds miss the query.
* `insertLeaf` walks down by least half perimeter (`descend`), hangs the leaf
  below the last internal node (`attach`), and updates the nodes on the way
  back up (`propagate`).

Both loops run over indices, so both carry a bound; `BoundsTreeSearch` and
`BoundsTreeInsert` show that the number of nodes is bound enough.
-/

namespace FcGpui

/-- Maximum children per internal node. -/
def maxChildren : Nat := 12

inductive NodeKind
  | leaf (order : Nat)
  | internal (children : List Nat)
deriving DecidableEq, Repr

structure Node (U : Type) where
  bounds : Bounds U
  maxOrder : Nat
  kind : NodeKind
deriving DecidableEq, Repr

structure BoundsTree (U : Type) where
  nodes : List (Node U)
  root : Option Nat
  maxLeaf : Option Nat
deriving DecidableEq, Repr

namespace NodeKind

def isLeaf : NodeKind → Bool
  | leaf _ => true
  | internal _ => false

def children : NodeKind → List Nat
  | leaf _ => []
  | internal cs => cs

end NodeKind

/-- `slice::swap`. -/
def swapIndices (l : List Nat) (i j : Nat) : List Nat :=
  (l.toArray.swapIfInBounds i j).toList

section Operations

variable {U : Type} [AddCommGroup U] [LinearOrder U]

/-- What an index outside the vector reads as; the source panics there. -/
def Node.outOfRange : Node U := ⟨⟨⟨0, 0⟩, ⟨0, 0⟩⟩, 0, .leaf 0⟩

def nodeAt (nodes : List (Node U)) (i : Nat) : Node U := nodes[i]?.getD Node.outOfRange

namespace BoundsTree

def clear (_ : BoundsTree U) : BoundsTree U := ⟨[], none, none⟩

/-! ### The query -/

/-- The search of `find_max_ordering`.  The head of the list is the top of the
stack: children are pushed in order, so the last of them comes off first. -/
def searchLoop (nodes : List (Node U)) (query : Bounds U) : Nat → List Nat → Nat → Nat
  | 0, _, maxFound => maxFound
  | _ + 1, [], maxFound => maxFound
  | fuel + 1, i :: stack, maxFound =>
    let node := nodeAt nodes i
    if node.maxOrder ≤ maxFound then searchLoop nodes query fuel stack maxFound
    else if query.intersects node.bounds = false then searchLoop nodes query fuel stack maxFound
    else
      match node.kind with
      | .leaf order => searchLoop nodes query fuel stack (max maxFound order)
      | .internal children =>
        searchLoop nodes query fuel
          ((children.filter fun c => decide (maxFound < (nodeAt nodes c).maxOrder)).reverse ++ stack)
          maxFound

def slowPath (t : BoundsTree U) (query : Bounds U) (root : Nat) : Nat :=
  searchLoop t.nodes query (t.nodes.length + 1) [root] 0

def findMaxOrdering (t : BoundsTree U) (query : Bounds U) : Nat :=
  match t.root with
  | none => 0
  | some root =>
    match t.maxLeaf with
    | some maxIdx =>
      if query.intersects (nodeAt t.nodes maxIdx).bounds then (nodeAt t.nodes maxIdx).maxOrder
      else t.slowPath query root
    | none => t.slowPath query root

/-! ### The insertion -/

/-- The cost of a child is the half perimeter it would have with the new
rectangle added. -/
def childCost (nodes : List (Node U)) (bounds : Bounds U) (c : Nat) : U :=
  (bounds.union (nodeAt nodes c).bounds).halfPerimeter

/-- The rest of the scan for the cheapest child, from position `pos` on. -/
def bestChildFrom (nodes : List (Node U)) (bounds : Bounds U) :
    List Nat → Nat → (Nat × Nat) × U → Nat × Nat
  | [], _, best => best.1
  | c :: cs, pos, best =>
    if childCost nodes bounds c < best.2 then
      bestChildFrom nodes bounds cs (pos + 1) ((c, pos), childCost nodes bounds c)
    else bestChildFrom nodes bounds cs (pos + 1) best

/-- The cheapest child, the first of them on ties, with its position. -/
def bestChild (nodes : List (Node U)) (bounds : Bounds U) : List Nat → Nat × Nat
  | [] => (0, 0)
  | c :: cs => bestChildFrom nodes bounds cs 1 ((c, 0), childCost nodes bounds c)

/-- The walk down.  Returns `insert_path`, deepest node first, and the child
of the deepest node the walk stopped at. -/
def descend (nodes : List (Node U)) (bounds : Bounds U) :
    Nat → Nat → List Nat → List Nat × Nat × Nat
  | 0, current, path => (current :: path, 0, 0)
  | fuel + 1, current, path =>
    let best := bestChild nodes bounds (nodeAt nodes current).kind.children
    if (nodeAt nodes best.1).kind.isLeaf then (current :: path, best)
    else descend nodes bounds fuel best.1 (current :: path)

/-- The two children of a fresh internal node, the larger order last. -/
def pairChildren (old new oldOrder order : Nat) : List Nat :=
  if oldOrder < order then [old, new] else [new, old]

/-- Hangs the new leaf below `current`: directly while there is room, else
below a fresh internal node that takes the place of the cheapest child. -/
def attach (nodes : List (Node U)) (bounds : Bounds U) (order newLeaf current : Nat)
    (best : Nat × Nat) : List (Node U) :=
  let node := nodeAt nodes current
  let children := node.kind.children
  if children.length < maxChildren then
    let pushed := children ++ [newLeaf]
    let last := pushed.length - 1
    let placed := if order ≤ node.maxOrder then swapIndices pushed (last - 1) last else pushed
    nodes.set current ⟨node.bounds.union bounds, max node.maxOrder order, .internal placed⟩
  else
    let sibling := nodeAt nodes best.1
    let newMax := max sibling.maxOrder order
    let newInternal : Node U :=
      ⟨sibling.bounds.union bounds, newMax,
        .internal (pairChildren best.1 newLeaf sibling.maxOrder order)⟩
    let replaced := children.set best.2 nodes.length
    let placed :=
      if node.maxOrder < newMax then swapIndices replaced best.2 (children.length - 1)
      else replaced
    (nodes ++ [newInternal]).set current { node with kind := .internal placed }

/-- Moves a child to the end of the child list. -/
def moveToEnd (child : Option Nat) : NodeKind → NodeKind
  | .leaf order => .leaf order
  | .internal children =>
    match child with
    | none => .internal children
    | some c =>
      match children.findIdx? (· == c) with
      | none => .internal children
      | some pos =>
        if pos ≠ children.length - 1 then
          .internal (swapIndices children pos (children.length - 1))
        else .internal children

/-- What the walk back up makes of one node of the path. -/
def propagateNode (bounds : Bounds U) (order : Nat) (updated : Option Nat) (node : Node U) :
    Node U :=
  if node.maxOrder < order then
    ⟨node.bounds.union bounds, order, moveToEnd updated node.kind⟩
  else { node with bounds := node.bounds.union bounds }

/-- The walk back up, deepest node first. -/
def propagate (bounds : Bounds U) (order : Nat) :
    List Nat → Option Nat → List (Node U) → List (Node U)
  | [], _, nodes => nodes
  | i :: path, updated, nodes =>
    propagate bounds order path (some i)
      (nodes.set i (propagateNode bounds order updated (nodeAt nodes i)))

/-- The new vector and the new root. -/
def insertLeaf (t : BoundsTree U) (bounds : Bounds U) (order : Nat) : List (Node U) × Option Nat :=
  let newLeaf := t.nodes.length
  let nodes := t.nodes ++ [⟨bounds, order, .leaf order⟩]
  match t.root with
  | none => (nodes, some newLeaf)
  | some root =>
    if (nodeAt nodes root).kind.isLeaf then
      let rootNode := nodeAt nodes root
      let newRoot : Node U :=
        ⟨rootNode.bounds.union bounds, max rootNode.maxOrder order,
          .internal (pairChildren root newLeaf rootNode.maxOrder order)⟩
      (nodes ++ [newRoot], some nodes.length)
    else
      let (path, best) := descend nodes bounds nodes.length root []
      let attached := attach nodes bounds order newLeaf (path.headD root) best
      (propagate bounds order path none attached, some root)

/-- Draw orders are `u32`. -/
def u32Size : Nat := 2 ^ 32

/-- Inserts a rectangle; the first component is its draw order. -/
def insert (t : BoundsTree U) (newBounds : Bounds U) : Nat × BoundsTree U :=
  let ordering := (t.findMaxOrdering newBounds + 1) % u32Size
  let newLeaf := t.nodes.length
  let (nodes, root) := t.insertLeaf newBounds ordering
  let maxLeaf :=
    match t.maxLeaf with
    | none => some newLeaf
    | some old => if (nodeAt nodes old).maxOrder < ordering then some newLeaf else some old
  (ordering, ⟨nodes, root, maxLeaf⟩)

end BoundsTree

end Operations

end FcGpui
