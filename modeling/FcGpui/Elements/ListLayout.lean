import FcGpui.Elements.ListState

/-!
# The layout of a list

`layout_items` of `crates/gpui/src/elements/list.rs`, and the phases of the element that
call it.  A first loop goes down from the scroll top, a second one up to fill the viewport
and a third one further up for the overdraw; what they have measured takes the place of as
many items of the tree.  A deque is a list.

Of the elements that are rendered there is the size they are laid out with, and the
bounds that one asks to be scrolled to when it is prepainted at a point.  The loops get
the `rounds` of the tree, which is more than the number of its items.
-/

namespace FcGpui.Elements

open SumTree

/-- What the callbacks and the window say of the items. -/
structure Surroundings where
  renderItem : Nat → Size Pixels
  containsFocused : FocusHandle → Bool
  autoscroll : Nat → Point Pixels → Option (Bounds Pixels)

structure ItemLayout where
  index : Nat
  size : Size Pixels
deriving DecidableEq

structure LayoutItemsResponse where
  maxItemWidth : Pixels
  scrollTop : ListOffset
  itemLayouts : List ItemLayout

/-- The offset that is restored, for an element of the height at the scroll top. -/
def PendingScroll.restored (scrollTop : ListOffset) (height : Pixels) : PendingScroll → Option Pixels
  | absolute itemIx offset => if itemIx = scrollTop.itemIx then some (min offset height) else none
  | proportional pendingScroll =>
    if pendingScroll.itemIx = scrollTop.itemIx then some (height * pendingScroll.fraction) else none

/-- The locals of `layout_items`; `state` is `self`. -/
structure Layout where
  state : StateInner
  measuredItems : List ListItem
  itemLayouts : List ItemLayout
  renderedHeight : Pixels
  maxItemWidth : Pixels
  scrollTop : ListOffset
  renderedFocusedItem : Bool

namespace Layout

/-- The locals before the first loop.  While the tail is followed, the scroll top is the end. -/
def start (s : StateInner) (padding : Edges) : Layout :=
  if s.followState.isFollowing then
    let scrollTop : ListOffset := ⟨s.items.summary.count, 0⟩
    ⟨{ s with logicalScrollTop := some scrollTop }, [], [], padding.top, 0, scrollTop, false⟩
  else ⟨s, [], [], padding.top, 0, s.getLogicalScrollTop, false⟩

def visibleHeight (l : Layout) : Pixels := l.renderedHeight - l.scrollTop.offsetInItem

/-- The pending scroll is taken, and applied if it is one for the scroll top. -/
def applyPendingScroll (l : Layout) (elementSize : Size Pixels) : Layout :=
  match l.state.pendingScroll.bind (PendingScroll.restored l.scrollTop elementSize.height) with
  | some offset => { l with
      scrollTop := ⟨l.scrollTop.itemIx, offset⟩
      state := { l.state with
        pendingScroll := none
        logicalScrollTop := some ⟨l.scrollTop.itemIx, offset⟩ } }
  | none => { l with state := { l.state with pendingScroll := none } }

/-- An item that is visible is laid out. -/
def layOut (l : Layout) (w : Surroundings) (itemIndex : Nat) (item : ListItem) : Layout :=
  { l with
    itemLayouts := l.itemLayouts ++ [⟨itemIndex, w.renderItem itemIndex⟩]
    renderedFocusedItem := l.renderedFocusedItem || item.containsFocused w.containsFocused }

/-- The item below those measured so far. -/
def measure (l : Layout) (size : Size Pixels) (item : ListItem) : Layout :=
  { l with
    renderedHeight := l.renderedHeight + size.height
    maxItemWidth := max l.maxItemWidth size.width
    measuredItems := l.measuredItems ++ [.measured size item.focusHandle] }

/-- The body of the first loop, for an item that it does not break at. -/
def below (w : Surroundings) (availableHeight : Pixels) (ix : Nat) (item : ListItem) (l : Layout) : Layout :=
  let itemIndex := l.scrollTop.itemIx + ix
  let elementSize := w.renderItem itemIndex
  let visible : Bool := l.visibleHeight < availableHeight
  -- an item that has been measured is rendered only if it is visible
  let rendered := visible || item.size.isNone
  let applied := if rendered ∧ ix = 0 then l.applyPendingScroll elementSize else l
  let shown := if visible then applied.layOut w itemIndex item else applied
  shown.measure (if visible then elementSize else item.size.getD elementSize) item

/-- The first loop, from the item with the number `ix` below the scroll top. -/
def measureBelow (w : Surroundings) (availableHeight : Pixels) :
    Nat → Nat → SumTree.Cursor ListItem ListItemSummary Count → Layout → Option Layout
  | 0, _, _, _ => none
  | rounds + 1, ix, cursor, l => do
    let (item, cursor) ← cursor.iterNext
    match item with
    | some item =>
      if availableHeight + l.state.overdraw ≤ l.visibleHeight then some l
      else measureBelow w availableHeight rounds (ix + 1) cursor (l.below w availableHeight ix item)
    | none => some l

/-- The body of the second loop. -/
def above (w : Surroundings) (itemIndex : Nat) (item : ListItem) (l : Layout) : Layout :=
  let elementSize := w.renderItem itemIndex
  { l with
    renderedHeight := l.renderedHeight + elementSize.height
    measuredItems := .measured elementSize item.focusHandle :: l.measuredItems
    itemLayouts := ⟨itemIndex, elementSize⟩ :: l.itemLayouts
    renderedFocusedItem := l.renderedFocusedItem || item.containsFocused w.containsFocused }

/-- The second loop. -/
def fillAbove (w : Surroundings) (availableHeight : Pixels) :
    Nat → SumTree.Cursor ListItem ListItemSummary Count → Layout →
    Option (SumTree.Cursor ListItem ListItemSummary Count × Layout)
  | 0, _, _ => none
  | rounds + 1, cursor, l =>
    if l.renderedHeight < availableHeight then do
      let cursor ← cursor.prev
      let item ← cursor.item
      match item with
      | some item => fillAbove w availableHeight rounds cursor (l.above w cursor.position.count item)
      | none => some (cursor, l)
    else some (cursor, l)

/-- The scroll top after the second loop, for the item that it has gone up to. -/
def adjustScrollTop (l : Layout) (availableHeight : Pixels) (itemIx : Nat) : Layout :=
  let offset := l.renderedHeight - availableHeight
  match l.state.alignment with
  | .top => { l with
      scrollTop := ⟨itemIx, max offset 0⟩
      state := { l.state with logicalScrollTop := some ⟨itemIx, max offset 0⟩ } }
  | .bottom => { l with
      scrollTop := ⟨itemIx, offset⟩
      state := { l.state with logicalScrollTop := none } }

/-- The second loop is entered if what has been rendered does not fill the viewport. -/
def fillViewport (w : Surroundings) (availableHeight : Pixels) (rounds : Nat)
    (cursor : SumTree.Cursor ListItem ListItemSummary Count) (l : Layout) :
    Option (SumTree.Cursor ListItem ListItemSummary Count × Layout) :=
  if l.visibleHeight < availableHeight then
    (l.fillAbove w availableHeight rounds cursor).map fun r =>
      (r.1, r.2.adjustScrollTop availableHeight r.1.position.count)
  else some (cursor, l)

/-- The third loop: what it measures is put before what has been measured. -/
def measureAbove (w : Surroundings) (overdraw : Pixels) :
    Nat → SumTree.Cursor ListItem ListItemSummary Count → Pixels → List ListItem →
    Option (SumTree.Cursor ListItem ListItemSummary Count × List ListItem)
  | 0, _, _, _ => none
  | rounds + 1, cursor, leadingOverdraw, measuredItems =>
    if leadingOverdraw < overdraw then do
      let cursor ← cursor.prev
      let item ← cursor.item
      match item with
      | some item =>
        let size := item.size.getD (w.renderItem cursor.position.count)
        measureAbove w overdraw rounds cursor (leadingOverdraw + size.height)
          (.measured size item.focusHandle :: measuredItems)
      | none => some (cursor, measuredItems)
    else some (cursor, measuredItems)

/-- The tree with the measured items from an index on. -/
def replaceItems (oldItems : SumTree ListItem ListItemSummary) (start : Nat) (measuredItems : List ListItem) :
    Option (SumTree ListItem ListItemSummary) := do
  let cursor : SumTree.Cursor ListItem ListItemSummary Count := Cursor.new oldItems
  let (newItems, cursor) ← cursor.slice (Count.target start) .right
  let newItems ← newItems.extend measuredItems
  let (_, cursor) ← cursor.seek (Count.target (start + measuredItems.length)) .right
  let (suffix, _) ← cursor.suffix
  newItems.append suffix

/-- The tail is followed again where the scroll top has come to the end. -/
def resumeFollowing (s : StateInner) (availableHeight : Pixels) (scrollTop : ListOffset) : Option StateInner :=
  if s.followState.hasStoppedFollowing then do
    let padding := s.lastPadding.getD .default
    let totalHeight := s.items.summary.height + padding.top + padding.bottom
    let scrollOffset ← s.scrollTop scrollTop
    some (if totalHeight - 1 ≤ scrollOffset + availableHeight then
      { s with followState := s.followState.startFollowing } else s)
  else some s

/-- The loop that looks for an item off the screen which is focused. -/
def findFocused (w : Surroundings) : Nat → FilterCursor ListItem ListItemSummary Count → Option (Option Nat)
  | 0, _ => none
  | rounds + 1, cursor => do
    let item ← cursor.item
    match item with
    | some item =>
      if item.containsFocused w.containsFocused then some (some cursor.start.count)
      else do
        let cursor ← cursor.next
        findFocused w rounds cursor
    | none => some none

/-- If no visible item is focused, one that is comes behind them. -/
def focusedLayout (w : Surroundings) (items : SumTree ListItem ListItemSummary) (renderedFocusedItem : Bool) :
    Option (List ItemLayout) :=
  if renderedFocusedItem then some []
  else do
    let cursor : FilterCursor ListItem ListItemSummary Count :=
      FilterCursor.new items ListItemSummary.hasFocusHandles
    let cursor ← cursor.next
    let itemIndex ← findFocused w items.rounds cursor
    some (itemIndex.toList.map fun itemIndex => ⟨itemIndex, w.renderItem itemIndex⟩)

end Layout

namespace StateInner

open Layout

def layoutItems (s : StateInner) (w : Surroundings) (availableHeight : Pixels) (padding : Edges) :
    Option (StateInner × LayoutItemsResponse) := do
  let rounds := s.items.rounds
  let start := Layout.start s padding
  let cursor ← seekItem s.items start.scrollTop.itemIx
  let walked ← start.measureBelow w availableHeight rounds 0 cursor
  let padded := { walked with renderedHeight := walked.renderedHeight + padding.bottom }
  let cursor ← seekItem s.items padded.scrollTop.itemIx
  let (cursor, filled) ← padded.fillViewport w availableHeight rounds cursor
  let (cursor, measuredItems) ←
    measureAbove w s.overdraw rounds cursor filled.scrollTop.offsetInItem filled.measuredItems
  let newItems ← replaceItems s.items cursor.position.count measuredItems
  let state ← resumeFollowing { filled.state with items := newItems } availableHeight filled.scrollTop
  let trailing ← focusedLayout w newItems filled.renderedFocusedItem
  some (state, ⟨filled.maxItemWidth, filled.scrollTop, filled.itemLayouts ++ trailing⟩)

/-- `layout_all_items`: every item is measured, unless they have been. -/
def layoutAllItems (s : StateInner) (w : Surroundings) : Option StateInner :=
  match s.measuringBehavior with
  | .visible => some s
  | .measure true => some s
  | .measure false => do
    let items ← iterItems s.items
    let measuredItems := items.mapIdx fun ix item =>
      ListItem.measured (item.size.getD (w.renderItem ix)) item.focusHandle
    let tree ← fromIter measuredItems
    some { s with items := tree, measuringBehavior := .measure true }

/-- The loop that goes up from an item until there is no height left. -/
def autoscrollAbove (w : Surroundings) :
    Nat → SumTree.Cursor ListItem ListItemSummary Count → Pixels → Option ListOffset
  | 0, _, _ => none
  | rounds + 1, cursor, height =>
    let offset : Pixels := if height < 0 then -height else 0
    if 0 < height then do
      let cursor ← cursor.prev
      let item ← cursor.item
      match item with
      | some item =>
        autoscrollAbove w rounds cursor (height - (item.size.getD (w.renderItem cursor.position.count)).height)
      | none => some ⟨cursor.position.count, offset⟩
    else some ⟨cursor.position.count, offset⟩

/-- The loop over the layouts, from the point where the first is prepainted: the first request
to scroll to something that is not in the bounds. -/
def autoscrollRequest (w : Surroundings) (items : SumTree ListItem ListItemSummary) (bounds : Bounds Pixels)
    (padding : Edges) : List ItemLayout → Point Pixels → Option (Option ListOffset)
  | [], _ => some none
  | layout :: layouts, itemOrigin =>
    let rest := autoscrollRequest w items bounds padding layouts ⟨itemOrigin.x, itemOrigin.y + layout.size.height⟩
    match w.autoscroll layout.index itemOrigin with
    | none => rest
    | some autoscrollBounds =>
      if autoscrollBounds.origin.y < bounds.origin.y then
        some (some ⟨layout.index, autoscrollBounds.origin.y - itemOrigin.y⟩)
      else if bounds.bottomRight.y < autoscrollBounds.bottomRight.y then do
        let cursor ← seekItem items layout.index
        let height := bounds.size.height - padding.top - padding.bottom
        let offset ← autoscrollAbove w items.rounds cursor
          (height - (autoscrollBounds.bottomRight.y - itemOrigin.y))
        some (some offset)
      else rest

def prepaintItems (s : StateInner) (w : Surroundings) (bounds : Bounds Pixels) (padding : Edges)
    (autoscroll : Bool) : Option (StateInner × Except ListOffset LayoutItemsResponse) := do
  let s ← if s.measuringBehavior = .measure false then s.layoutAllItems w else some s
  let (s, layoutResponse) ← s.layoutItems w bounds.size.height padding
  if padding.top + padding.bottom < bounds.size.height then
    let itemOrigin : Point Pixels :=
      ⟨bounds.origin.x, bounds.origin.y + padding.top - layoutResponse.scrollTop.offsetInItem⟩
    let request ← if autoscroll then
        autoscrollRequest w s.items bounds padding layoutResponse.itemLayouts itemOrigin
      else some none
    match request with
    | some offset => some (s, .error offset)
    | none => some (s, .ok layoutResponse)
  else some (s, .ok { layoutResponse with itemLayouts := [] })

/-- All measured heights are dropped if the width has changed. -/
def invalidateWidth (s : StateInner) (bounds : Bounds Pixels) : Option StateInner :=
  if s.lastLayoutBounds.all fun lastBounds => decide (lastBounds.size.width ≠ bounds.size.width) then do
    let items ← iterItems s.items
    let newItems ← fromIter (items.map ListItem.invalidated)
    some { s with items := newItems, measuringBehavior := s.measuringBehavior.reset }
  else some s

/-- The prepaint of the element.  The second `prepaint_items` is unwrapped. -/
def prepaint (s : StateInner) (w : Surroundings) (bounds : Bounds Pixels) (padding : Edges) :
    Option (StateInner × LayoutItemsResponse) := do
  let s ← { s with reset := false }.invalidateWidth bounds
  let (s, result) ← s.prepaintItems w bounds padding true
  let (s, layout) ← match result with
    | .ok layout => some (s, layout)
    | .error autoscrollRequest => do
      let (s, result) ←
        { s with logicalScrollTop := some autoscrollRequest }.prepaintItems w bounds padding false
      match result with
      | .ok layout => some (s, layout)
      | .error _ => none
  some ({ s with lastLayoutBounds := some bounds, lastPadding := some padding }, layout)

/-- The layout for a list that is as large as its items. -/
def requestLayout (s : StateInner) (w : Surroundings) (padding : Edges) :
    Option (StateInner × LayoutItemsResponse) :=
  s.layoutItems w (s.lastLayoutBounds.elim s.overdraw fun bounds => bounds.size.height) padding

end StateInner

end FcGpui.Elements
