import FcGpui.SumTree.Ordered
import FcGpui.Window.Frame
import FcGpui.Window.PendingInput

/-!
# Tab stops

`crates/gpui/src/tab_stop.rs`: the focus handles of a frame, in a tree that is ordered by
the path of groups they are in, their tab index and when they were inserted.  The summary
of a subtree is its last path and index.

As for the tree, `none` is a panic; `some none` is that no handle is found.  The loops that
skip what is no tab stop go on as long as there are items, which `rounds` of the tree bounds.
-/

namespace FcGpui

open SumTree

structure FocusHandle where
  id : FocusId
  tabIndex : Int
  tabStop : Bool
deriving DecidableEq, Repr

def TabStopOperation.focusHandle : TabStopOperation FocusHandle → Option FocusHandle
  | insert focusHandle => some focusHandle
  | _ => none

abbrev TabStopPath := List Int

/-- The first index that differs decides; a path comes before what it is the beginning of. -/
def TabStopPath.cmp (a b : TabStopPath) : Ordering := if a < b then .lt else if a = b then .eq else .gt

structure TabStopNode where
  path : TabStopPath
  nodeInsertionIndex : Nat
  tabStop : Bool
deriving DecidableEq, Repr

def TabStopNode.default : TabStopNode := ⟨[], 0, false⟩

/-- Whether a node is a tab stop is not compared. -/
instance : Ord TabStopNode :=
  ⟨fun a b => (a.path.cmp b.path).then (compare a.nodeInsertionIndex b.nodeInsertionIndex)⟩

structure TabStopOrderNodeSummary where
  maxIndex : Nat
  maxPath : TabStopPath
  tabStops : Nat

instance : Summary TabStopOrderNodeSummary where
  zero := ⟨0, [], 0⟩
  add self summary := ⟨summary.maxIndex, summary.maxPath, self.tabStops + summary.tabStops⟩

instance : LawfulSummary TabStopOrderNodeSummary where
  add_assoc a b c := congrArg (TabStopOrderNodeSummary.mk _ _) (Nat.add_assoc a.tabStops b.tabStops c.tabStops)
  zero_add a := congrArg (TabStopOrderNodeSummary.mk _ _) (Nat.zero_add a.tabStops)

instance : KeyedItem TabStopNode TabStopNode := ⟨id⟩

instance : Item TabStopNode TabStopOrderNodeSummary :=
  ⟨fun node => ⟨node.nodeInsertionIndex, node.path, if node.tabStop then 1 else 0⟩⟩

instance : Dimension TabStopNode TabStopOrderNodeSummary where
  zero := .default
  addSummary self summary := { self with nodeInsertionIndex := summary.maxIndex, path := summary.maxPath }

instance : LawfulDimension TabStopNode TabStopOrderNodeSummary := ⟨fun _ _ _ => rfl, rfl⟩

/-- `SeekTarget` of a reference to a node. -/
def TabStopNode.target (node : TabStopNode) : SeekTarget TabStopNode :=
  ⟨fun cursorLocation => (node.path.cmp cursorLocation.path).then
    (compare node.nodeInsertionIndex cursorLocation.nodeInsertionIndex)⟩

structure TabStopMap where
  currentPath : TabStopPath
  insertionHistory : List (TabStopOperation FocusHandle)
  byId : FocusId → Option TabStopNode
  order : SumTree TabStopNode TabStopOrderNodeSummary

namespace TabStopMap

def default : TabStopMap := ⟨[], [], fun _ => none, .new⟩

def insert (self : TabStopMap) (focusHandle : FocusHandle) : Option TabStopMap :=
  let insertionHistory := self.insertionHistory ++ [.insert focusHandle]
  let order : TabStopNode :=
    { nodeInsertionIndex := insertionHistory.length - 1, tabStop := focusHandle.tabStop
      path := self.currentPath ++ [focusHandle.tabIndex] }
  (self.order.insertOrReplace order).map fun r =>
    { self with
      insertionHistory := insertionHistory
      byId := Function.update self.byId focusHandle.id (some order)
      order := r.1 }

def beginGroup (self : TabStopMap) (tabIndex : Int) : TabStopMap :=
  { self with
    insertionHistory := self.insertionHistory ++ [.group tabIndex]
    currentPath := self.currentPath ++ [tabIndex] }

def endGroup (self : TabStopMap) : TabStopMap :=
  { self with
    insertionHistory := self.insertionHistory ++ [.groupEnd]
    currentPath := self.currentPath.dropLast }

def clear (_self : TabStopMap) : TabStopMap := default

def replayOne (self : TabStopMap) : TabStopOperation FocusHandle → Option TabStopMap
  | .insert focusHandle => self.insert focusHandle
  | .group tabIndex => some (self.beginGroup tabIndex)
  | .groupEnd => some self.endGroup

def replay (self : TabStopMap) (nodes : List (TabStopOperation FocusHandle)) : Option TabStopMap :=
  nodes.foldlM replayOne self

def paintIndex (self : TabStopMap) : Nat := self.insertionHistory.length

/-- That there is no handle is a debug assertion. -/
def focusHandleForOrder (self : TabStopMap) (order : TabStopNode) : Option (Option FocusHandle) := do
  let operation ← self.insertionHistory[order.nodeInsertionIndex]?
  let handle ← operation.focusHandle
  some (some handle)

/-- The loop of `next_inner` and `prev_inner`. -/
def skipLoop (move : SumTree.Cursor TabStopNode TabStopOrderNodeSummary TabStopNode →
    Option (SumTree.Cursor TabStopNode TabStopOrderNodeSummary TabStopNode)) :
    Nat → SumTree.Cursor TabStopNode TabStopOrderNodeSummary TabStopNode →
      Option (SumTree.Cursor TabStopNode TabStopOrderNodeSummary TabStopNode)
  | 0, _ => none
  | fuel + 1, cursor => do
    let item ← cursor.item
    match item with
    | some item => if item.tabStop then some cursor else (move cursor).bind (skipLoop move fuel)
    | none => some cursor

def nextInner (self : TabStopMap) (node : TabStopNode) : Option (Option TabStopNode) := do
  let (_, cursor) ← (Cursor.new self.order : SumTree.Cursor _ _ TabStopNode).seek node.target .left
  let cursor ← cursor.next
  let cursor ← skipLoop Cursor.next self.order.rounds cursor
  cursor.item

def prevInner (self : TabStopMap) (node : TabStopNode) : Option (Option TabStopNode) := do
  let (_, cursor) ← (Cursor.new self.order : SumTree.Cursor _ _ TabStopNode).seek node.target .left
  let cursor ← cursor.prev
  let cursor ← skipLoop Cursor.prev self.order.rounds cursor
  cursor.item

/-- `next(None)`. -/
def nextOfNone (self : TabStopMap) : Option (Option FocusHandle) := do
  let first ← self.order.first
  match first with
  | none => some none
  | some first =>
    if first.tabStop then self.focusHandleForOrder first
    else do
      let order ← self.nextInner first
      match order with
      | none => some none
      | some order => self.focusHandleForOrder order

def next (self : TabStopMap) : Option FocusId → Option (Option FocusHandle)
  | none => self.nextOfNone
  | some focusedId =>
    match self.byId focusedId with
    | none => self.nextOfNone
    | some node => do
      let item ← self.nextInner node
      match item with
      | some item => self.focusHandleForOrder item
      | none => self.nextOfNone

/-- `prev(None)`. -/
def prevOfNone (self : TabStopMap) : Option (Option FocusHandle) := do
  let last ← self.order.last
  match last with
  | none => some none
  | some last =>
    if last.tabStop then self.focusHandleForOrder last
    else do
      let order ← self.prevInner last
      match order with
      | none => some none
      | some order => self.focusHandleForOrder order

def prev (self : TabStopMap) : Option FocusId → Option (Option FocusHandle)
  | none => self.prevOfNone
  | some focusedId =>
    match self.byId focusedId with
    | none => self.prevOfNone
    | some node => do
      let item ← self.prevInner node
      match item with
      | some item => self.focusHandleForOrder item
      | none => self.prevOfNone

end TabStopMap

end FcGpui
