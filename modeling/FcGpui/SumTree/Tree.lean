import FcGpui.Lib.Chunks
import FcGpui.SumTree.Summary

/-!
# Sum trees

`SumTree` of `crates/sum_tree/src/sum_tree.rs`: a B+ tree with the items in its leaves,
where a node keeps the summaries of its children, or items, and their sum.  Nodes are
shared there and copied when they are changed, so a tree is a value here.

The result is an `Option` where the source may panic: `none` for an `unwrap` of nothing,
for the children of a leaf, for the items of an internal node and for a height that is
subtracted from a smaller one.  The vectors of a node have room for `2 * treeBase`
elements; that no more are ever put into one is part of what is proved.
-/

namespace FcGpui

def treeBase : Nat := 6

inductive SumTree (T S : Type)
  | leaf (summary : S) (items : List T) (itemSummaries : List S)
  | internal (height : Nat) (summary : S) (childSummaries : List S) (childTrees : List (SumTree T S))

namespace SumTree

variable {T S : Type} [Summary S] [Item T S]

open Summary

/-! ### Nodes -/

def new : SumTree T S := leaf zero [] []

def height : SumTree T S → Nat
  | leaf .. => 0
  | internal height .. => height

def summary : SumTree T S → S
  | leaf summary .. => summary
  | internal _ summary .. => summary

def childSummaries : SumTree T S → List S
  | leaf _ _ itemSummaries => itemSummaries
  | internal _ _ childSummaries _ => childSummaries

def childTrees : SumTree T S → Option (List (SumTree T S))
  | leaf .. => none
  | internal _ _ _ childTrees => some childTrees

/-- `Node::items`. -/
def nodeItems : SumTree T S → Option (List T)
  | leaf _ items _ => some items
  | internal .. => none

def isUnderflowing : SumTree T S → Bool
  | leaf _ items _ => items.length < treeBase
  | internal _ _ _ childTrees => childTrees.length < treeBase

def isEmpty : SumTree T S → Bool
  | leaf _ items _ => items.isEmpty
  | internal .. => false

/-! ### Appending -/

/-- `*l.last_mut().unwrap() = a`. -/
def setLast {α : Type} (l : List α) (a : α) : Option (List α) :=
  if l = [] then none else some (l.dropLast ++ [a])

def midpoint (childCount : Nat) : Nat := (childCount + childCount % 2) / 2

/-- The end of `push_tree_recursive` at an internal node: the new children go in, or the
node is split. -/
def appendChildren (height : Nat) (summary : S) (childSummaries : List S)
    (childTrees : List (SumTree T S)) (summariesToAppend : List S)
    (treesToAppend : List (SumTree T S)) : SumTree T S × Option (SumTree T S) :=
  let childCount := childTrees.length + treesToAppend.length
  let allSummaries := childSummaries ++ summariesToAppend
  let allTrees := childTrees ++ treesToAppend
  if childCount > 2 * treeBase then
    let leftSummaries := allSummaries.take (midpoint childCount)
    let rightSummaries := allSummaries.drop (midpoint childCount)
    (internal height (sum leftSummaries) leftSummaries (allTrees.take (midpoint childCount)),
      some (internal height (sum rightSummaries) rightSummaries (allTrees.drop (midpoint childCount))))
  else (internal height summary allSummaries allTrees, none)

/-- `push_tree_recursive` at a leaf. -/
def appendItems (summary : S) (items : List T) (itemSummaries : List S) (other : SumTree T S) :
    Option (SumTree T S × Option (SumTree T S)) := do
  let otherItems ← other.nodeItems
  let childCount := items.length + otherItems.length
  let allItems := items ++ otherItems
  let allSummaries := itemSummaries ++ other.childSummaries
  if childCount > 2 * treeBase then
    let leftSummaries := allSummaries.take (midpoint childCount)
    let rightSummaries := allSummaries.drop (midpoint childCount)
    some (leaf (sum leftSummaries) (allItems.take (midpoint childCount)) leftSummaries,
      some (leaf (sum rightSummaries) (allItems.drop (midpoint childCount)) rightSummaries))
  else some (leaf (add summary other.summary) allItems allSummaries, none)

mutual

/-- The tree after the push, and the one that was split off. -/
def pushTreeRecursive (other : SumTree T S) : SumTree T S → Option (SumTree T S × Option (SumTree T S))
  | internal height summary childSummaries childTrees =>
    let summary := add summary other.summary
    if height < other.height then none
    else if height - other.height = 0 then
      other.childTrees.map fun treesToAppend =>
        appendChildren height summary childSummaries childTrees other.childSummaries treesToAppend
    else if height - other.height = 1 ∧ other.isUnderflowing = false then
      some (appendChildren height summary childSummaries childTrees [other.summary] [other])
    else do
      let (childTrees, treeToAppend) ← pushTreeLast other childTrees
      let last ← childTrees.getLast?
      let childSummaries ← setLast childSummaries last.summary
      some (appendChildren height summary childSummaries childTrees
        (treeToAppend.toList.map SumTree.summary) treeToAppend.toList)
  | leaf summary items itemSummaries => appendItems summary items itemSummaries other

/-- `child_trees.last_mut().unwrap().push_tree_recursive(other)`. -/
def pushTreeLast (other : SumTree T S) :
    List (SumTree T S) → Option (List (SumTree T S) × Option (SumTree T S))
  | [] => none
  | [tree] => (pushTreeRecursive other tree).map fun (tree, split) => ([tree], split)
  | tree :: trees => (pushTreeLast other trees).map fun (trees, split) => (tree :: trees, split)

end

def fromChildTrees (left right : SumTree T S) : SumTree T S :=
  internal (left.height + 1) (sum [left.summary, right.summary]) [left.summary, right.summary]
    [left, right]

/-- The branch of `append` where the other tree is not the taller one. -/
def pushTree (self other : SumTree T S) : Option (SumTree T S) :=
  (pushTreeRecursive other self).map fun (self, split) =>
    match split with
    | some splitTree => fromChildTrees self splitTree
    | none => self

mutual

def append (self : SumTree T S) : SumTree T S → Option (SumTree T S)
  | leaf summary items itemSummaries =>
    if self.isEmpty then some (leaf summary items itemSummaries)
    else if items.isEmpty then some self
    -- a leaf is not taller than any tree
    else pushTree self (leaf summary items itemSummaries)
  | internal height summary childSummaries childTrees =>
    if self.isEmpty then some (internal height summary childSummaries childTrees)
    else if self.height < height then appendAll self childTrees
    else pushTree self (internal height summary childSummaries childTrees)

/-- `for tree in other.0.child_trees() { self.append(tree.clone(), cx); }` -/
def appendAll (self : SumTree T S) : List (SumTree T S) → Option (SumTree T S)
  | [] => some self
  | tree :: trees => (append self tree).bind fun self => appendAll self trees

end

/-! ### Building -/

/-- The leaf of a piece of the items, which is not empty. -/
def leafOf (items : List T) : Option (SumTree T S) :=
  match items.map Item.summary with
  | [] => none
  | first :: rest => some (leaf (rest.foldl add first) items (first :: rest))

/-- One level of `from_iter`: the children join the current parent, which is done when it
is full. -/
def parentNodes (height : Nat) (current : Option (S × List S × List (SumTree T S))) :
    List (SumTree T S) → List (SumTree T S)
  | [] => current.toList.map fun (summary, childSummaries, childTrees) =>
    internal height summary childSummaries childTrees
  | child :: nodes =>
    let (summary, childSummaries, childTrees) := current.getD (zero, [], [])
    let summary := add summary child.summary
    let childSummaries := childSummaries ++ [child.summary]
    let childTrees := childTrees ++ [child]
    if childTrees.length = 2 * treeBase then
      internal height summary childSummaries childTrees :: parentNodes height none nodes
    else parentNodes height (some (summary, childSummaries, childTrees)) nodes

/-- One level of `from_par_iter`: the parent of a piece of the nodes, which is not
empty. -/
def parentOf (height : Nat) (childTrees : List (SumTree T S)) : Option (SumTree T S) :=
  match childTrees.map SumTree.summary with
  | [] => none
  | first :: rest => some (internal height (rest.foldl add first) (first :: rest) childTrees)

/-- The loop of both: levels are built until there is one node.  There are fewer nodes at
every level, so their number is enough `fuel`. -/
def buildLevels (level : Nat → List (SumTree T S) → Option (List (SumTree T S))) :
    Nat → Nat → List (SumTree T S) → Option (List (SumTree T S))
  | 0, _, _ => none
  | fuel + 1, height, nodes =>
    if nodes.length > 1 then
      (level (height + 1) nodes).bind fun nodes => buildLevels level fuel (height + 1) nodes
    else some nodes

/-- The tree of the topmost level. -/
def root (nodes : List (SumTree T S)) : SumTree T S := nodes.getLast?.getD new

def fromIter (iter : List T) : Option (SumTree T S) := do
  let nodes ← (chunks (2 * treeBase) iter).mapM leafOf
  let nodes ← buildLevels (fun height nodes => some (parentNodes height none nodes))
    (nodes.length + 1) 0 nodes
  some (root nodes)

def fromParIter (iter : List T) : Option (SumTree T S) := do
  let nodes ← (chunks (2 * treeBase) iter).mapM leafOf
  let nodes ← buildLevels (fun height nodes => (chunks (2 * treeBase) nodes).mapM (parentOf height))
    (nodes.length + 1) 0 nodes
  some (root nodes)

/-! ### The sequence -/

def push (self : SumTree T S) (item : T) : Option (SumTree T S) :=
  append self (leaf (Item.summary item) [item] [Item.summary item])

def fromItem (item : T) : Option (SumTree T S) := push new item

def extend (self : SumTree T S) (iter : List T) : Option (SumTree T S) :=
  (fromIter iter).bind (append self)

def parExtend (self : SumTree T S) (iter : List T) : Option (SumTree T S) :=
  (fromParIter iter).bind (append self)

mutual

/-- `update_last_recursive`: the tree and the summary it returns. -/
def updateLastRecursive (f : T → T) : SumTree T S → Option (SumTree T S × Option S)
  | internal height _ childSummaries childTrees => do
    let (childTrees, lastSummary) ← updateLastChild f childTrees
    let childSummaries ← setLast childSummaries lastSummary
    let summary := sum childSummaries
    some (internal height summary childSummaries childTrees, some summary)
  | leaf summary items itemSummaries =>
    match items.getLast?, itemSummaries.getLast? with
    | some item, some _ =>
      let itemSummaries := itemSummaries.dropLast ++ [Item.summary (f item)]
      let summary := sum itemSummaries
      some (leaf summary (items.dropLast ++ [f item]) itemSummaries, some summary)
    | _, _ => some (leaf summary items itemSummaries, none)

/-- `child_trees.last_mut().unwrap().update_last_recursive(f).unwrap()`. -/
def updateLastChild (f : T → T) : List (SumTree T S) → Option (List (SumTree T S) × S)
  | [] => none
  | [tree] => do
    let (tree, summary) ← updateLastRecursive f tree
    let summary ← summary
    some ([tree], summary)
  | tree :: trees => do
    let (trees, summary) ← updateLastChild f trees
    some (tree :: trees, summary)

end

def updateLast (f : T → T) (self : SumTree T S) : Option (SumTree T S) :=
  (updateLastRecursive f self).map Prod.fst

mutual

def leftmostLeaf : SumTree T S → Option (SumTree T S)
  | leaf summary items itemSummaries => some (leaf summary items itemSummaries)
  | internal _ _ _ childTrees => leftmostLeafOf childTrees

/-- `child_trees.first().unwrap().leftmost_leaf()`. -/
def leftmostLeafOf : List (SumTree T S) → Option (SumTree T S)
  | [] => none
  | tree :: _ => leftmostLeaf tree

end

mutual

def rightmostLeaf : SumTree T S → Option (SumTree T S)
  | leaf summary items itemSummaries => some (leaf summary items itemSummaries)
  | internal _ _ _ childTrees => rightmostLeafOf childTrees

/-- `child_trees.last().unwrap().rightmost_leaf()`. -/
def rightmostLeafOf : List (SumTree T S) → Option (SumTree T S)
  | [] => none
  | [tree] => rightmostLeaf tree
  | _ :: trees => rightmostLeafOf trees

end

def first (self : SumTree T S) : Option (Option T) :=
  (self.leftmostLeaf.bind nodeItems).map List.head?

def last (self : SumTree T S) : Option (Option T) :=
  (self.rightmostLeaf.bind nodeItems).map List.getLast?

end SumTree

end FcGpui
