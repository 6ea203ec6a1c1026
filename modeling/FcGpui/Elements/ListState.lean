import FcGpui.Geometry
import FcGpui.SumTree.Iteration
import FcGpui.SumTree.FilterCursor
import FcGpui.Window.TabStop

/-!
# The state of a list

`ListState` of `crates/gpui/src/elements/list.rs`, without its layout.  The items are in a
tree that is sought by their number and by their height; `none` is a panic, as for the tree.
A range of indices is given by its two ends.

A list may have any kind of pixels.  The pixels of the source are an `f32`, and so sums of
heights are rounded; where nothing else is said a list has `Pixels`, which are exact.

The scroll handler is left out, and so are the queries that nothing else uses.
-/

namespace FcGpui.Elements

open SumTree

/-- Exact pixels: the rounding of `f32` is left out. -/
abbrev Pixels := ℚ

/-- What is done with a quotient of pixels, a plain `f32`. -/
class Fraction (P : Type) where
  /-- `clamp(0.0, 1.0)`. -/
  clampUnit : P → P

instance : Fraction Pixels := ⟨fun x => if x < 0 then 0 else if 1 < x then 1 else x⟩

structure Edges (P : Type := Pixels) where
  top : P
  right : P
  bottom : P
  left : P
deriving DecidableEq

structure ListOffset (P : Type := Pixels) where
  itemIx : Nat
  offsetInItem : P
deriving DecidableEq

structure PendingScrollFraction (P : Type := Pixels) where
  itemIx : Nat
  fraction : P
deriving DecidableEq

inductive PendingScroll (P : Type := Pixels)
  | absolute (itemIx : Nat) (offset : P)
  | proportional (pendingScroll : PendingScrollFraction P)
deriving DecidableEq

inductive ScrollAnchor
  | absolute
  | proportional

inductive FollowMode
  | normal
  | tail

inductive FollowState
  | normal
  | tail (isFollowing : Bool)
deriving DecidableEq

namespace FollowState

def isFollowing (state : FollowState) : Bool := state = tail true

def hasStoppedFollowing (state : FollowState) : Bool := state = tail false

def startFollowing (state : FollowState) : FollowState := if state = tail false then tail true else state

def stopFollowing (state : FollowState) : FollowState := if state = tail true then tail false else state

end FollowState

inductive ListAlignment
  | top
  | bottom
deriving DecidableEq

inductive ListMeasuringBehavior
  | measure (hasMeasured : Bool)
  | visible
deriving DecidableEq

def ListMeasuringBehavior.reset : ListMeasuringBehavior → ListMeasuringBehavior
  | measure _ => measure false
  | visible => visible

inductive ListItem (P : Type := Pixels)
  | unmeasured (sizeHint : Option (Size P)) (focusHandle : Option FocusHandle)
  | measured (size : Size P) (focusHandle : Option FocusHandle)
deriving DecidableEq

variable {P : Type}

namespace ListItem

def size : ListItem P → Option (Size P)
  | measured size _ => some size
  | unmeasured _ _ => none

def sizeHint : ListItem P → Option (Size P)
  | measured size _ => some size
  | unmeasured sizeHint _ => sizeHint

def focusHandle : ListItem P → Option FocusHandle
  | measured _ focusHandle => focusHandle
  | unmeasured _ focusHandle => focusHandle

/-- `focused` says of a handle whether it contains the focused element. -/
def containsFocused (item : ListItem P) (focused : FocusHandle → Bool) : Bool := item.focusHandle.any focused

/-- What is left of an item that has to be measured again. -/
def invalidated (item : ListItem P) : ListItem P := unmeasured item.sizeHint item.focusHandle

@[simp]
theorem focusHandle_invalidated (item : ListItem P) : item.invalidated.focusHandle = item.focusHandle := rfl

@[simp]
theorem size_invalidated (item : ListItem P) : item.invalidated.size = none := rfl

end ListItem

/-! ### Summaries -/

structure ListItemSummary (P : Type := Pixels) where
  count : Nat
  renderedCount : Nat
  unrenderedCount : Nat
  height : P
  hasFocusHandles : Bool
  hasUnknownHeight : Bool

instance [Zero P] [Add P] : Summary (ListItemSummary P) where
  zero := ⟨0, 0, 0, 0, false, false⟩
  add self summary := ⟨self.count + summary.count, self.renderedCount + summary.renderedCount,
    self.unrenderedCount + summary.unrenderedCount, self.height + summary.height,
    self.hasFocusHandles || summary.hasFocusHandles, self.hasUnknownHeight || summary.hasUnknownHeight⟩

/-- Adding is associative if nothing is rounded. -/
instance : LawfulSummary ListItemSummary where
  add_assoc a b c := by simp only [Summary.add, add_assoc, Bool.or_assoc]
  zero_add a := by simp only [Summary.add, Summary.zero, zero_add, Bool.false_or]

instance [Zero P] : Item (ListItem P) (ListItemSummary P) where
  summary
    | .unmeasured sizeHint focusHandle =>
      ⟨1, 0, 1, sizeHint.elim 0 Size.height, focusHandle.isSome, sizeHint.isNone⟩
    | .measured size focusHandle => ⟨1, 1, 0, size.height, focusHandle.isSome, false⟩

structure Count where
  count : Nat
deriving DecidableEq

instance : Dimension Count (ListItemSummary P) := ⟨⟨0⟩, fun d summary => ⟨d.count + summary.count⟩⟩

instance : LawfulDimension Count ListItemSummary where
  addSummary_add d a b := congrArg Count.mk (Nat.add_assoc d.count a.count b.count).symm
  addSummary_zero := rfl

instance : Ord Count := ⟨fun a b => compare a.count b.count⟩

/-- `Count` as a target in a cursor over counts. -/
def Count.target (n : Nat) : SeekTarget Count := SeekTarget.ofKey ⟨n⟩

/-- `Count` as a target in a cursor over summaries. -/
def Count.summaryTarget (n : Nat) : SeekTarget (ListItemSummary P) := ⟨fun other => compare n other.count⟩

/-- `Height` as a target in a cursor over summaries. -/
def Height.summaryTarget [LinearOrder P] (height : P) : SeekTarget (ListItemSummary P) :=
  ⟨fun other => compare height other.height⟩

/-! ### The state -/

structure StateInner (P : Type := Pixels) where
  lastLayoutBounds : Option (Bounds P)
  lastPadding : Option (Edges P)
  items : SumTree (ListItem P) (ListItemSummary P)
  logicalScrollTop : Option (ListOffset P)
  alignment : ListAlignment
  overdraw : P
  reset : Bool
  scrollbarDragStartHeight : Option P
  measuringBehavior : ListMeasuringBehavior
  pendingScroll : Option (PendingScroll P)
  followState : FollowState

variable [Zero P] [One P] [Add P] [Sub P] [Neg P] [Div P] [BEq P] [LinearOrder P] [Fraction P]

def Edges.default : Edges P := ⟨0, 0, 0, 0⟩

namespace StateInner

/-- A new cursor over the counts, sought to the item with the index. -/
def seekItem (items : SumTree (ListItem P) (ListItemSummary P)) (itemIx : Nat) :
    Option (SumTree.Cursor (ListItem P) (ListItemSummary P) Count) :=
  ((Cursor.new items).seek (Count.target itemIx) .right).map Prod.snd

/-- The method `logical_scroll_top`. -/
def getLogicalScrollTop (s : StateInner P) : ListOffset P :=
  s.logicalScrollTop.getD (match s.alignment with
    | .top => ⟨0, 0⟩
    | .bottom => ⟨s.items.summary.count, 0⟩)

/-- The distance of the scroll top from the first item. -/
def scrollTop (s : StateInner P) (logicalScrollTop : ListOffset P) : Option P := do
  let cursor : SumTree.Cursor (ListItem P) (ListItemSummary P) (ListItemSummary P) := Cursor.new s.items
  let (_, cursor) ← cursor.seek (Count.summaryTarget logicalScrollTop.itemIx) .right
  some (cursor.position.height + logicalScrollTop.offsetInItem)

def rebasePendingScroll (s : StateInner P) (scrollTop : ListOffset P) : Option (StateInner P) :=
  match s.pendingScroll with
  | none => some s
  | some pending =>
    if s.items.summary.count ≤ scrollTop.itemIx then some { s with pendingScroll := none }
    else match pending with
      | .absolute _ _ =>
        some { s with pendingScroll := some (.absolute scrollTop.itemIx scrollTop.offsetInItem) }
      | .proportional _ => do
        let cursor ← seekItem s.items scrollTop.itemIx
        let item ← cursor.item
        let size := (item.bind ListItem.sizeHint).filter fun size => decide (0 < size.height)
        some { s with pendingScroll := size.map fun size =>
          .proportional ⟨scrollTop.itemIx, Fraction.clampUnit (scrollTop.offsetInItem / size.height)⟩ }

/-- The pending scroll is rebased onto the new scroll top. -/
def moveTo (s : StateInner P) (scrollTop : ListOffset P) : Option (StateInner P) :=
  (s.rebasePendingScroll scrollTop).map fun s => { s with logicalScrollTop := some scrollTop }

def scrollToEnd (s : StateInner P) : StateInner P :=
  { s with pendingScroll := none, logicalScrollTop := some ⟨s.items.summary.count, 0⟩ }

/-- The offset at a height, with the height of the items before it. -/
def offsetAt (cursor : SumTree.Cursor (ListItem P) (ListItemSummary P) (ListItemSummary P)) (height : P) :
    ListOffset P :=
  ⟨cursor.position.count, height - cursor.position.height⟩

/-- The method `scroll` of the wheel, without the handler. -/
def scroll (s : StateInner P) (scrollTop : ListOffset P) (height : P) (delta : Point P) :
    Option (StateInner P) :=
  if s.reset then some s
  else do
    let padding := s.lastPadding.getD .default
    let scrollMax := max (s.items.summary.height + padding.top + padding.bottom - height) 0
    let top ← s.scrollTop scrollTop
    let newScrollTop := min (max (top - delta.y) 0) scrollMax
    let cursor : SumTree.Cursor (ListItem P) (ListItemSummary P) (ListItemSummary P) := Cursor.new s.items
    let (_, cursor) ← cursor.seek (Height.summaryTarget newScrollTop) .right
    let moved ←
      if s.alignment = .bottom ∧ newScrollTop == scrollMax then
        some { s with pendingScroll := none, logicalScrollTop := none }
      else s.moveTo (offsetAt cursor newScrollTop)
    some (if 0 < delta.y then { moved with followState := moved.followState.stopFollowing } else moved)

def setOffsetFromScrollbar (s : StateInner P) (point : Point P) : Option (StateInner P) :=
  match s.lastLayoutBounds with
  | none => some s
  | some bounds =>
    let padding := s.lastPadding.getD .default
    let contentHeight := s.scrollbarDragStartHeight.getD s.items.summary.height
    let scrollMax := max (contentHeight + padding.top + padding.bottom - bounds.size.height) 0
    let newScrollTop := min (max (-point.y) 0) scrollMax
    let draggedToEnd := 0 < scrollMax ∧ max (scrollMax - 1) 0 ≤ newScrollTop
    if draggedToEnd ∧ s.followState ≠ .normal then
      some { s.scrollToEnd with followState := .tail true }
    else do
      let stopped := { s with followState := s.followState.stopFollowing }
      if s.alignment = .bottom ∧ newScrollTop == scrollMax then
        some { stopped with pendingScroll := none, logicalScrollTop := none }
      else
        let cursor : SumTree.Cursor (ListItem P) (ListItemSummary P) (ListItemSummary P) := Cursor.new s.items
        let (_, cursor) ← cursor.seek (Height.summaryTarget newScrollTop) .right
        stopped.moveTo (offsetAt cursor newScrollTop)

end StateInner

/-! ### The methods of `ListState` -/

namespace ListState

open StateInner

/-- `remeasure_items_with_scroll_anchor`: what is pending, for a scroll top in the range. -/
def anchoredScroll (s : StateInner P) (scrollTop : ListOffset P) : ScrollAnchor → Option (Option (PendingScroll P))
  | .absolute => some (some (.absolute scrollTop.itemIx scrollTop.offsetInItem))
  | .proportional => do
    let cursor ← seekItem s.items scrollTop.itemIx
    let item ← cursor.item
    let fraction := (item.bind ListItem.size).map fun size =>
      if 0 < size.height then Fraction.clampUnit (scrollTop.offsetInItem / size.height) else 0
    some ((fraction.map fun fraction => .proportional ⟨scrollTop.itemIx, fraction⟩).or s.pendingScroll)

/-- The items with those of a range invalidated. -/
def invalidateRange (items : SumTree (ListItem P) (ListItemSummary P)) (start stop : Nat) :
    Option (SumTree (ListItem P) (ListItemSummary P)) := do
  let cursor : SumTree.Cursor (ListItem P) (ListItemSummary P) Count := Cursor.new items
  let (newItems, cursor) ← cursor.slice (Count.target start) .right
  let (invalidated, cursor) ← cursor.slice (Count.target stop) .right
  let invalidatedItems ← iterItems invalidated
  let newItems ← newItems.extend (invalidatedItems.map ListItem.invalidated)
  let (suffix, _) ← cursor.suffix
  newItems.append suffix

def remeasureItemsWithScrollAnchor (s : StateInner P) (start stop : Nat) (scrollAnchor : ScrollAnchor) :
    Option (StateInner P) := do
  let pendingScroll ← match s.logicalScrollTop with
    | some scrollTop =>
      if start ≤ scrollTop.itemIx ∧ scrollTop.itemIx < stop then anchoredScroll s scrollTop scrollAnchor
      else some s.pendingScroll
    | none => some s.pendingScroll
  let newItems ← invalidateRange s.items start stop
  some { s with
    pendingScroll := pendingScroll
    items := newItems
    measuringBehavior := s.measuringBehavior.reset }

def remeasure (s : StateInner P) : Option (StateInner P) :=
  remeasureItemsWithScrollAnchor s 0 s.items.summary.count .proportional

def remeasureItems (s : StateInner P) (start stop : Nat) : Option (StateInner P) :=
  remeasureItemsWithScrollAnchor s start stop .absolute

/-- The items with those of a range replaced by new ones. -/
def spliceItems (items : SumTree (ListItem P) (ListItemSummary P)) (start stop : Nat)
    (focusHandles : List (Option FocusHandle)) : Option (SumTree (ListItem P) (ListItemSummary P)) := do
  let oldItems : SumTree.Cursor (ListItem P) (ListItemSummary P) Count := Cursor.new items
  let (newItems, oldItems) ← oldItems.slice (Count.target start) .right
  let (_, oldItems) ← oldItems.seekForward (Count.target stop) .right
  let newItems ← newItems.extend (focusHandles.map (ListItem.unmeasured none))
  let (suffix, _) ← oldItems.suffix
  newItems.append suffix

/-- Where a splice moves the scroll top to. -/
def splicedScrollTop (start stop count : Nat) (scrollTop : ListOffset P) : Option (ListOffset P) :=
  if start ≤ scrollTop.itemIx ∧ scrollTop.itemIx < stop then some ⟨start, 0⟩
  else if stop ≤ scrollTop.itemIx then
    -- `old_range.end - old_range.start` overflows
    if stop < start then none else some { scrollTop with itemIx := scrollTop.itemIx - (stop - start) + count }
  else some scrollTop

def spliceFocusable (s : StateInner P) (start stop : Nat) (focusHandles : List (Option FocusHandle)) :
    Option (StateInner P) := do
  let newItems ← spliceItems s.items start stop focusHandles
  let logicalScrollTop ← match s.logicalScrollTop with
    | some scrollTop => (splicedScrollTop start stop focusHandles.length scrollTop).map some
    | none => some none
  some { s with items := newItems, logicalScrollTop := logicalScrollTop }

def splice (s : StateInner P) (start stop count : Nat) : Option (StateInner P) :=
  spliceFocusable s start stop (List.replicate count none)

def new (itemCount : Nat) (alignment : ListAlignment) (overdraw : P) : Option (StateInner P) :=
  splice ⟨none, none, .new, none, alignment, overdraw, false, none, .visible, none, .normal⟩ 0 0 itemCount

def measureAll (s : StateInner P) : StateInner P := { s with measuringBehavior := .measure false }

def applyUniformItemHeight (s : StateInner P) (height : P) : Option (StateInner P) := do
  let items ← iterItems s.items
  let newItems := items.map fun item =>
    ListItem.unmeasured (some (item.sizeHint.getD ⟨0, height⟩)) item.focusHandle
  let tree ← SumTree.new.extend newItems
  some { s with items := tree }

def reset (s : StateInner P) (elementCount : Nat) : Option (StateInner P) :=
  splice { s with
    reset := true
    measuringBehavior := s.measuringBehavior.reset
    logicalScrollTop := none
    pendingScroll := none
    scrollbarDragStartHeight := none } 0 s.items.summary.count elementCount

def resetWithUniformHeight (s : StateInner P) (elementCount : Nat) (height : P) : Option (StateInner P) :=
  (reset s elementCount).bind fun s => applyUniformItemHeight s height

def scrollBy (s : StateInner P) (distance : P) : Option (StateInner P) :=
  if distance == 0 then some s
  else do
    let currentOffset := s.getLogicalScrollTop
    let cursor : SumTree.Cursor (ListItem P) (ListItemSummary P) (ListItemSummary P) := Cursor.new s.items
    let (_, cursor) ← cursor.seek (Count.summaryTarget currentOffset.itemIx) .right
    let startPixelOffset := cursor.position.height + currentOffset.offsetInItem
    let newPixelOffset := max (startPixelOffset + distance) 0
    let (_, cursor) ←
      if startPixelOffset < newPixelOffset then cursor.seekForward (Height.summaryTarget newPixelOffset) .right
      else cursor.seek (Height.summaryTarget newPixelOffset) .right
    let followState := if distance < 0 then s.followState.stopFollowing else s.followState
    { s with followState := followState }.moveTo (offsetAt cursor newPixelOffset)

def setFollowMode (s : StateInner P) : FollowMode → StateInner P
  | .normal => { s with followState := .normal }
  | .tail => { s.scrollToEnd with followState := .tail true }

def scrollTo (s : StateInner P) (scrollTop : ListOffset P) : Option (StateInner P) :=
  let itemCount := s.items.summary.count
  if itemCount ≤ scrollTop.itemIx then s.moveTo ⟨itemCount, 0⟩
  else { s with followState := s.followState.stopFollowing }.moveTo scrollTop

/-- Where the scroll top has to be for an item to be visible. -/
def revealing (s : StateInner P) (ix : Nat) : Option (ListOffset P) :=
  let scrollTop := s.getLogicalScrollTop
  let height := s.lastLayoutBounds.elim 0 fun bounds => bounds.size.height
  let padding := s.lastPadding.getD .default
  if ix ≤ scrollTop.itemIx then some ⟨ix, 0⟩
  else do
    let cursor : SumTree.Cursor (ListItem P) (ListItemSummary P) (ListItemSummary P) := Cursor.new s.items
    let (_, cursor) ← cursor.seek (Count.summaryTarget (ix + 1)) .right
    let bottom := cursor.position.height + padding.top
    let goalTop := max 0 (bottom - height + padding.bottom)
    let (_, cursor) ← cursor.seek (Height.summaryTarget goalTop) .left
    some (if scrollTop.itemIx ≤ cursor.position.count then offsetAt cursor goalTop else scrollTop)

def scrollToRevealItem (s : StateInner P) (ix : Nat) : Option (StateInner P) :=
  (revealing s ix).bind s.moveTo

def scrollbarDragStarted (s : StateInner P) : StateInner P :=
  { s with scrollbarDragStartHeight := some s.items.summary.height }

def scrollbarDragEnded (s : StateInner P) : StateInner P := { s with scrollbarDragStartHeight := none }

end ListState

end FcGpui.Elements
