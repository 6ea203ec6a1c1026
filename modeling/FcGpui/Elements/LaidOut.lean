import FcGpui.Elements.Descent
import FcGpui.Elements.HeightSeeks
import FcGpui.Elements.PendingScroll

/-!
# Layouts lose no items

`layout_items` puts measured items in place of as many others, and lays out items that
follow one another.  There is a gap between them only if the item at the scroll top is
skipped by the first loop and the second loop goes up from it: `Skips` says when.

**Main result.**  `layoutItems_laidOut_iff`.
-/

namespace FcGpui.Elements

open SumTree

variable {items : SumTree ListItem ListItemSummary} {c : SumTree.Cursor ListItem ListItemSummary Count}
  {w : Surroundings} {availableHeight : Pixels} {padding : Edges} {s : StateInner}

namespace Layout

variable {l l' : Layout} {before rest walked measured : List ListItem} {rounds : Nat}

/-! ### Filling the viewport -/

/-- What is done to fill the viewport: `measured` are the last items before the scroll top. -/
structure Fills (w : Surroundings) (availableHeight : Pixels) (before : List ListItem) (l l' : Layout)
    (rest walked measured : List ListItem) : Prop where
  parts : before.reverse = rest.reverse ++ walked
  measures : List.Forall₂ MeasuredAs walked measured
  measuredItems : l'.measuredItems = measured ++ l.measuredItems
  itemLayouts : l'.itemLayouts = layoutsFrom w rest.length walked.length ++ l.itemLayouts
  walks : walked ≠ [] ↔ l.visibleHeight < availableHeight ∧ l.renderedHeight < availableHeight ∧ before ≠ []
  keeps : l.renderedFocusedItem = true → l'.renderedFocusedItem = true
  focused : ∀ item ∈ walked, item.containsFocused w.containsFocused = true → l'.renderedFocusedItem = true
  covers : l.state.alignment = .top → l'.scrollTop = ⟨0, 0⟩ ∨
    availableHeight ≤ l.renderedHeight + heights measured - l'.scrollTop.offsetInItem ∧
      (l'.scrollTop.itemIx = rest.length ∨ walked = [] ∧ l'.scrollTop.itemIx = l.scrollTop.itemIx)

theorem WalksUp.walks_iff (h : WalksUp w availableHeight before l (walkUp w availableHeight before l).2
    (walkUp w availableHeight before l).1 walked measured) :
    walked ≠ [] ↔ l.renderedHeight < availableHeight ∧ before ≠ [] := by
  refine ⟨fun hne => ?_, fun hroom => h.walks hroom.1 hroom.2⟩
  have hparts := h.parts
  cases before with
  | nil =>
    have hnil := (List.append_eq_nil_iff.mp hparts.symm).2
    exact absurd hnil hne
  | cons item before =>
    refine ⟨?_, List.cons_ne_nil _ _⟩
    by_contra hfull
    rw [walkUp, if_neg hfull] at hparts
    exact hne (List.append_cancel_left ((List.append_nil _).trans hparts)).symm

theorem fillViewport_fills (w : Surroundings) (availableHeight : Pixels) (hitems : items.Valid True)
    (hbehind : Behind items c before.reverse) (hrounds : before.length < rounds) (l : Layout) : ∃ c' l' rest walked measured,
      l.fillViewport w availableHeight rounds c = some (c', l') ∧ Behind items c' rest.reverse ∧
      Fills w availableHeight before l l' rest walked measured := by
  rw [fillViewport]
  split
  · rename_i hvisible
    obtain ⟨c', hfill, hbehind'⟩ := fillAbove_eq w availableHeight hitems hbehind hrounds l
    obtain ⟨walked, measured, h⟩ := walkUp_walks w availableHeight before l
    have hwalks := h.walks_iff
    have hposition := hbehind'.position
    rw [List.length_reverse] at hposition
    generalize walkUp w availableHeight before l = r at *
    obtain ⟨rest, l'⟩ := r
    refine ⟨c', l'.adjustScrollTop availableHeight rest.length, rest, walked, measured, ?_, hbehind', ?_⟩
    · rw [hfill, Option.map_some, hposition]
    · have hadjusts : ∀ n, (l'.adjustScrollTop availableHeight n).measuredItems = l'.measuredItems ∧
          (l'.adjustScrollTop availableHeight n).itemLayouts = l'.itemLayouts ∧
          (l'.adjustScrollTop availableHeight n).renderedFocusedItem = l'.renderedFocusedItem := by
        intro n
        unfold adjustScrollTop
        cases l'.state.alignment <;> exact ⟨rfl, rfl, rfl⟩
      obtain ⟨hmeasuredItems, hitemLayouts, hfocused⟩ := hadjusts rest.length
      refine ⟨h.parts, h.measures, hmeasuredItems.trans h.measuredItems, hitemLayouts.trans h.itemLayouts, ?_, ?_, ?_, ?_⟩
      · rw [hwalks]
        exact ⟨fun hroom => ⟨hvisible, hroom⟩, fun hroom => hroom.2⟩
      · rw [hfocused]
        exact h.keeps
      · rw [hfocused]
        exact h.focused
      · intro htop
        have hscrollTop : (l'.adjustScrollTop availableHeight rest.length).scrollTop
            = ⟨rest.length, max (l'.renderedHeight - availableHeight) 0⟩ := by
          rw [adjustScrollTop, h.state, htop]
        rw [hscrollTop]
        rcases le_or_gt availableHeight l'.renderedHeight with hfilled | hroom
        · right
          rw [max_eq_left (sub_nonneg.mpr hfilled), ← h.renderedHeight]
          exact ⟨by linarith, Or.inl rfl⟩
        · left
          have hrest : rest = [] := h.fills.resolve_right (not_le.mpr hroom)
          rw [hrest, max_eq_right (by linarith)]
          rfl
  · rename_i hfilled
    refine ⟨c, l, before, [], [], rfl, hbehind, (List.append_nil _).symm, .nil, rfl, rfl, ?_, id, by simp, ?_⟩
    · exact ⟨fun hne => absurd rfl hne, fun hroom => absurd hroom.1 hfilled⟩
    · intro _
      right
      rw [heights_nil, add_zero]
      exact ⟨not_lt.mp hfilled, Or.inr ⟨rfl, rfl⟩⟩

end Layout

/-! ### Items that replace others -/

section

variable {before walked rest measured : List ListItem}

theorem focusHandles_measures (h : List.Forall₂ MeasuredAs walked measured) :
    measured.map ListItem.focusHandle = walked.map ListItem.focusHandle := by
  induction h with
  | nil => rfl
  | cons hitem _ ih =>
    obtain ⟨size, rfl⟩ := hitem
    rw [List.map_cons, List.map_cons, ih]
    rfl

theorem measured_of_mem (h : List.Forall₂ MeasuredAs walked measured) {item : ListItem} (hmem : item ∈ measured) :
    ∃ size focusHandle, item = .measured size focusHandle := by
  induction h with
  | nil => exact absurd hmem List.not_mem_nil
  | cons hitem _ ih =>
    rcases List.mem_cons.mp hmem with rfl | hmem
    · obtain ⟨size, rfl⟩ := hitem
      exact ⟨size, _, rfl⟩
    · exact ih hmem

theorem mem_of_getElem?_middle {ix : Nat} {item : ListItem} (h : (before ++ walked ++ rest)[ix]? = some item)
    (hlo : before.length ≤ ix) (hhi : ix < before.length + walked.length) : item ∈ walked := by
  rw [List.getElem?_append_left (by rw [List.length_append]; exact hhi), List.getElem?_append_right hlo] at h
  exact List.mem_of_getElem? h

/-- Outside the middle, lists with the same ends have the same items. -/
theorem getElem?_outside (hlength : measured.length = walked.length) {ix : Nat}
    (h : ix < before.length ∨ before.length + walked.length ≤ ix) :
    (before ++ measured ++ rest)[ix]? = (before ++ walked ++ rest)[ix]? := by
  rcases h with hlo | hhi
  · rw [List.append_assoc, List.append_assoc, List.getElem?_append_left hlo, List.getElem?_append_left hlo]
  · rw [List.getElem?_append_right (by rw [List.length_append, hlength]; exact hhi),
      List.getElem?_append_right (by rw [List.length_append]; exact hhi), List.length_append, List.length_append, hlength]

theorem focusedAt_congr {items items' : List ListItem}
    (h : items'.map ListItem.focusHandle = items.map ListItem.focusHandle) (ix : Nat) :
    Layout.FocusedAt w items' ix ↔ Layout.FocusedAt w items ix := by
  have hix : items'[ix]?.map ListItem.focusHandle = items[ix]?.map ListItem.focusHandle := by
    rw [← List.getElem?_map, ← List.getElem?_map, h]
  have hhandles : ∀ {items : List ListItem}, Layout.FocusedAt w items ix ↔
      ∃ focusHandle, items[ix]?.map ListItem.focusHandle = some focusHandle ∧
        focusHandle.any w.containsFocused = true := by
    intro items
    constructor
    · rintro ⟨item, hitem, hfocused⟩
      exact ⟨item.focusHandle, by rw [hitem]; rfl, hfocused⟩
    · rintro ⟨focusHandle, hhandle, hfocused⟩
      obtain ⟨item, hitem, rfl⟩ := Option.map_eq_some_iff.mp hhandle
      exact ⟨item, hitem, hfocused⟩
  rw [hhandles, hhandles, hix]

end

/-! ### What a layout has to do -/

/-- The items from `lo` on and below `hi` are measured, and the layouts are of `visible` items,
and perhaps of a trailing one. -/
structure LaidOutBetween (w : Surroundings) (availableHeight : Pixels) (padding : Edges) (s s' : StateInner)
    (r : LayoutItemsResponse) (lo hi : Nat) (visible trailing : List ItemLayout) : Prop where
  count : s'.items.summary.count = s.items.summary.count
  focusHandles : s'.items.toList.map ListItem.focusHandle = s.items.toList.map ListItem.focusHandle
  outside : ∀ ix, ix < lo ∨ hi ≤ ix → s'.items.toList[ix]? = s.items.toList[ix]?
  inside : ∀ ix, lo ≤ ix → ix < hi → ∃ size focusHandle, s'.items.toList[ix]? = some (.measured size focusHandle)
  itemLayouts : r.itemLayouts = visible ++ trailing
  consecutive : ∃ first, visible.map ItemLayout.index = List.range' first visible.length
  window : ∀ layout ∈ visible, lo ≤ layout.index ∧ layout.index < hi
  single : trailing.length ≤ 1
  focused : ∀ layout ∈ trailing, Layout.FocusedAt w s.items.toList layout.index ∧
    layout.index ∉ visible.map ItemLayout.index
  covers : s.alignment = .top → r.scrollTop = ⟨0, 0⟩ ∨
    availableHeight ≤ padding.top + heights ((s'.items.toList.take hi).drop r.scrollTop.itemIx) + padding.bottom
      - r.scrollTop.offsetInItem

/-- **No item is lost**, and the layouts are of items that follow one another. -/
def LaidOut (w : Surroundings) (availableHeight : Pixels) (padding : Edges) (s s' : StateInner)
    (r : LayoutItemsResponse) : Prop :=
  ∃ lo hi visible trailing, LaidOutBetween w availableHeight padding s s' r lo hi visible trailing

/-- The item at the scroll top is skipped, all items below it are laid out, and then those above it. -/
def Skips (w : Surroundings) (availableHeight : Pixels) (padding : Edges) (s : StateInner) : Prop :=
  let l := Layout.start s padding
  let itemIx := l.scrollTop.itemIx
  let items := s.items.toList
  let height := padding.top + renderedHeights w itemIx (items.length - itemIx) + padding.bottom
  ∃ item offset, items[itemIx]? = some item ∧ l.Hides w availableHeight item offset ∧
    0 < itemIx ∧ itemIx + 1 < items.length ∧ height < availableHeight ∧ height - offset < availableHeight ∧
    ¬ (itemIx + 2 = items.length ∧ Layout.FocusedAt w items (itemIx + 1))

/-! ### The three loops together -/

/-- What the loops have done: they have gone through `above`, `up` and `down`. -/
structure Passes (w : Surroundings) (availableHeight : Pixels) (padding : Edges) (s s' : StateInner)
    (r : LayoutItemsResponse) (walked filled : Layout) (lo above up down rest above' up' down' : List ListItem)
    (skipped shown : Nat) (trailing : List ItemLayout) : Prop where
  descends : Layout.Descends w (s.items.toList.drop (Layout.start s padding).scrollTop.itemIx) (Layout.start s padding)
    walked down rest down' skipped shown
  fills : Layout.Fills w availableHeight (s.items.toList.take (Layout.start s padding).scrollTop.itemIx).reverse
    { walked with renderedHeight := walked.renderedHeight + padding.bottom } filled (lo ++ above).reverse up up'
  measures : List.Forall₂ MeasuredAs above above'
  valid : s'.items.Valid True
  items : s'.items.toList = lo ++ (above' ++ (up' ++ down')) ++ rest
  scrollTop : r.scrollTop = filled.scrollTop
  itemLayouts : r.itemLayouts = filled.itemLayouts ++ trailing
  single : trailing.length ≤ 1
  none : filled.renderedFocusedItem = true → trailing = []
  focused : ∀ layout ∈ trailing, Layout.FocusedAt w s'.items.toList layout.index

/-- The second loop has started at the scroll top that the first one has left, and has gone up to the item with
the number `n`. -/
structure Loops (w : Surroundings) (availableHeight : Pixels) (padding : Edges) (s s' : StateInner)
    (walked filled : Layout) (n : Nat) : Prop where
  walks : walked = Layout.walkBelow w availableHeight 0 (s.items.toList.drop (Layout.start s padding).scrollTop.itemIx)
    (Layout.start s padding)
  fills : ∃ c c', Behind s.items c (s.items.toList.take (Layout.start s padding).scrollTop.itemIx) ∧
    { walked with renderedHeight := walked.renderedHeight + padding.bottom }.fillViewport w availableHeight
      s.items.rounds c = some (c', filled) ∧ c'.position.count = n
  logicalScrollTop : s'.logicalScrollTop = filled.state.logicalScrollTop
  alignment : s'.alignment = filled.state.alignment

theorem resumeFollowing_items (hitems : s.items.Valid True) (scrollTop : ListOffset) :
    ∃ s', Layout.resumeFollowing s availableHeight scrollTop = some s' ∧ s'.items = s.items ∧
      s'.logicalScrollTop = s.logicalScrollTop ∧ s'.alignment = s.alignment := by
  rw [Layout.resumeFollowing]
  split
  · rw [scrollTop_eq hitems scrollTop]
    refine ⟨_, rfl, ?_⟩
    split <;> exact ⟨rfl, rfl, rfl⟩
  · exact ⟨s, rfl, rfl, rfl, rfl⟩

/-- **The layout**, as the lists that its loops go through. -/
theorem layoutItems_passes (w : Surroundings) (availableHeight : Pixels) (padding : Edges)
    (hitems : s.items.Valid True) (hsizes : NonNegative w s.items.toList) :
    ∃ s' r walked filled lo above up down rest above' up' down' skipped shown trailing,
      s.layoutItems w availableHeight padding = some (s', r) ∧
      Passes w availableHeight padding s s' r walked filled lo above up down rest above' up' down' skipped shown
        trailing ∧
      Loops w availableHeight padding s s' walked filled (lo ++ above).length ∧
      (skipped = 0 ∧ (∀ item offset, s.items.toList[(Layout.start s padding).scrollTop.itemIx]? = some item →
          ¬ (Layout.start s padding).Hides w availableHeight item offset) ∨
        skipped = 1 ∧ Layout.Skipped w availableHeight
          (s.items.toList.drop (Layout.start s padding).scrollTop.itemIx) (Layout.start s padding) walked shown) := by
  have hrounds := hitems.length_lt_rounds
  generalize hstart : Layout.start s padding = start
  generalize hitemIx : start.scrollTop.itemIx = itemIx
  obtain ⟨c, hseek, hstands⟩ := seekItem_stands hitems itemIx
  -- the first loop
  have hbelow := Layout.measureBelow_eq w availableHeight hitems hstands
    (by rw [List.length_drop]; omega : _ < s.items.rounds) 0 start
  obtain ⟨down, rest, down', skipped, shown, hdescends, hskipped⟩ := Layout.walkBelow_descends availableHeight
    (hsizes.mono (List.drop_subset itemIx _)) start
  generalize hwalked : Layout.walkBelow w availableHeight 0 (s.items.toList.drop itemIx) start = walked at *
  -- the second loop
  have hbehind : Behind s.items c (s.items.toList.take itemIx).reverse.reverse := by
    rw [List.reverse_reverse]
    exact .stands hstands
  obtain ⟨c', filled, before, up, up', hfill, hbehind', hfills⟩ := Layout.fillViewport_fills w availableHeight
    hitems hbehind
    (by rw [List.length_reverse, List.length_take]; omega : _ < s.items.rounds)
    { walked with renderedHeight := walked.renderedHeight + padding.bottom }
  -- the third loop
  obtain ⟨c'', habove, hbehind''⟩ := Layout.measureAbove_eq w s.overdraw hitems hbehind'
    (by
      have hlength := congrArg List.length hfills.parts
      simp only [List.length_append, List.length_reverse, List.length_take] at hlength
      omega : before.length < s.items.rounds) filled.scrollTop.offsetInItem filled.measuredItems
  obtain ⟨above, above', hparts, hmeasures, hmeasured⟩ := Layout.walkAbove_measures w s.overdraw before
    filled.scrollTop.offsetInItem filled.measuredItems
  have hposition := hbehind''.position
  generalize Layout.walkAbove w s.overdraw before filled.scrollTop.offsetInItem filled.measuredItems = r at *
  obtain ⟨remaining, measured⟩ := r
  have hmeasured : measured = above' ++ filled.measuredItems := hmeasured
  -- the new tree
  obtain ⟨tree, hreplace, hvalid, hlist⟩ := replaceItems_spec hitems c''.position.count measured
  obtain ⟨s', hresume, hitems', hlogical, halignment⟩ : ∃ s', Layout.resumeFollowing { filled.state with items := tree }
      availableHeight filled.scrollTop = some s' ∧ s'.items = tree ∧
      s'.logicalScrollTop = filled.state.logicalScrollTop ∧ s'.alignment = filled.state.alignment :=
    resumeFollowing_items hvalid filled.scrollTop
  obtain ⟨trailing, htrailing, hsingle, hnone, hfocused⟩ :=
    Layout.focusedLayout_spec (w := w) hvalid filled.renderedFocusedItem
  have hsame : walked.scrollTop.itemIx = itemIx := hdescends.itemIx.trans hitemIx
  refine ⟨s', ⟨filled.maxItemWidth, filled.scrollTop, filled.itemLayouts ++ trailing⟩, walked, filled,
    remaining.reverse, above, up, down, rest, above', up', down', skipped, shown, trailing, ?_, ?_, ?_, ?_⟩
  · simp only [StateInner.layoutItems, hstart, hitemIx, hseek, hbelow, hsame, hfill, habove, hreplace, hresume,
      htrailing, Option.bind_eq_bind, Option.bind_some]
  · have hbefore : before = (remaining.reverse ++ above).reverse := by rw [← hparts, List.reverse_reverse]
    refine ⟨?_, ?_, hmeasures, ?_, ?_, rfl, rfl, hsingle, hnone, ?_⟩
    · rw [hstart, hitemIx]
      exact hdescends
    · rw [hstart, hitemIx, ← hbefore]
      exact hfills
    · rw [hitems']
      exact hvalid
    · have hnil : start.measuredItems = [] := by
        rw [← hstart, Layout.start]
        split <;> rfl
      have htake : s.items.toList.take itemIx = remaining.reverse ++ above ++ up := by
        rw [← List.reverse_reverse (s.items.toList.take itemIx), hfills.parts, hparts]
      have hmiddle : measured = above' ++ (up' ++ down') := by
        rw [hmeasured, hfills.measuredItems, hdescends.measuredItems, hnil, List.nil_append]
      have hlengths : measured.length = (above ++ up ++ down).length := by
        simp only [hmiddle, List.length_append, ← hmeasures.length_eq, ← hfills.measures.length_eq,
          ← hdescends.measures.length_eq, Nat.add_assoc]
      have hall : s.items.toList = remaining.reverse ++ (above ++ up ++ down) ++ rest := by
        rw [← List.take_append_drop itemIx s.items.toList, htake, hdescends.parts]
        simp only [List.append_assoc]
      have hstart' : (remaining.reverse ++ (above ++ up ++ down) ++ rest).take remaining.reverse.length
          = remaining.reverse := by rw [List.append_assoc, List.take_left]
      have hstop : (remaining.reverse ++ (above ++ up ++ down) ++ rest).drop
          (remaining.reverse.length + (above ++ up ++ down).length) = rest := by
        rw [← List.length_append, List.drop_left]
      rw [hitems', hlist, hposition, hlengths, hall, hstart', hstop, hmiddle]
    · rw [hitems']
      exact hfocused
  · refine ⟨by rw [hstart, hitemIx, hwalked], ⟨c, c', ?_, hfill, ?_⟩, hlogical, halignment⟩
    · rw [hstart, hitemIx, ← List.reverse_reverse (s.items.toList.take itemIx)]
      exact hbehind
    · rw [hbehind'.position, hparts]
  · rw [← List.head?_drop]
    exact hskipped

namespace Passes

variable {s' : StateInner} {r : LayoutItemsResponse} {walked filled : Layout}
  {lo above up down rest above' up' down' : List ListItem} {skipped shown : Nat} {trailing : List ItemLayout}

theorem start_renderedHeight (padding : Edges) : (Layout.start s padding).renderedHeight = padding.top := by
  rw [Layout.start]
  split <;> rfl

theorem start_itemLayouts (padding : Edges) : (Layout.start s padding).itemLayouts = [] := by
  rw [Layout.start]
  split <;> rfl

theorem start_alignment (padding : Edges) : (Layout.start s padding).state.alignment = s.alignment := by
  rw [Layout.start]
  split <;> rfl

section Passed

variable
  (h : Passes w availableHeight padding s s' r walked filled lo above up down rest above' up' down' skipped shown trailing)
include h

theorem take_eq : s.items.toList.take (Layout.start s padding).scrollTop.itemIx = lo ++ above ++ up := by
  have hparts := h.fills.parts
  rwa [List.reverse_reverse, List.reverse_reverse] at hparts

/-- The items are those that the loops go through, and those on the sides. -/
theorem items_eq : s.items.toList = lo ++ (above ++ (up ++ down)) ++ rest := by
  rw [← List.take_append_drop (Layout.start s padding).scrollTop.itemIx s.items.toList, h.take_eq, h.descends.parts]
  simp only [List.append_assoc]

theorem itemIx_eq (hdown : down ≠ []) :
    (Layout.start s padding).scrollTop.itemIx = (lo ++ above).length + up.length := by
  have hlength := congrArg List.length h.take_eq
  have hdrop := congrArg List.length h.descends.parts
  have hpos := List.length_pos_iff.mpr hdown
  simp only [List.length_take, List.length_drop, List.length_append] at hlength hdrop ⊢
  omega

theorem measures_all : List.Forall₂ MeasuredAs (above ++ (up ++ down)) (above' ++ (up' ++ down')) :=
  List.rel_append h.measures (List.rel_append h.fills.measures h.descends.measures)

theorem focusHandles : s'.items.toList.map ListItem.focusHandle = s.items.toList.map ListItem.focusHandle := by
  have hmap : ∀ middle : List ListItem, (lo ++ middle ++ rest).map ListItem.focusHandle
      = lo.map ListItem.focusHandle ++ middle.map ListItem.focusHandle ++ rest.map ListItem.focusHandle := fun middle => by
    rw [List.map_append, List.map_append]
  rw [h.items, h.items_eq, hmap, hmap, focusHandles_measures h.measures_all]

theorem covers (htop : s.alignment = .top) : r.scrollTop = ⟨0, 0⟩ ∨
      availableHeight ≤ padding.top + heights ((lo ++ (above' ++ (up' ++ down'))).drop r.scrollTop.itemIx)
        + padding.bottom - r.scrollTop.offsetInItem := by
  have halignment : walked.state.alignment = .top := by rw [h.descends.alignment, start_alignment, htop]
  rw [h.scrollTop]
  refine (h.fills.covers halignment).imp id fun ⟨hcovers, hitemIx⟩ => ?_
  have hheights : heights ((lo ++ (above' ++ (up' ++ down'))).drop filled.scrollTop.itemIx)
      = heights up' + heights down' := by
    have hdrop : (lo ++ (above' ++ (up' ++ down'))).drop (lo.length + above.length) = up' ++ down' := by
      rw [← List.append_assoc, h.measures.length_eq, ← List.length_append, List.drop_left]
    rcases hitemIx with hitemIx | ⟨hup, hitemIx⟩
    · rw [hitemIx, List.length_reverse, List.length_append, hdrop, heights_append]
    · have hitemIx : filled.scrollTop.itemIx = (Layout.start s padding).scrollTop.itemIx :=
        hitemIx.trans h.descends.itemIx
      by_cases hdown : down = []
      · have hup' : up' = [] := List.length_eq_zero_iff.mp (by rw [← h.fills.measures.length_eq, hup]; rfl)
        have hdown' : down' = [] := List.length_eq_zero_iff.mp (by rw [← h.descends.measures.length_eq, hdown]; rfl)
        have hlength := congrArg List.length h.take_eq
        rw [hup, List.append_nil, List.length_take, List.length_append] at hlength
        have hnil : (lo ++ (above' ++ (up' ++ down'))).drop filled.scrollTop.itemIx = [] := by
          rw [hup', hdown']
          refine List.drop_eq_nil_iff.mpr ?_
          simp only [List.append_nil, List.length_append, ← h.measures.length_eq]
          omega
        rw [hnil, hup', hdown']
        simp
      · have hlength := h.itemIx_eq hdown
        rw [hup, List.length_nil, Nat.add_zero, List.length_append] at hlength
        rw [hitemIx, hlength, hdrop, heights_append]
  have hheight := h.descends.renderedHeight
  rw [start_renderedHeight] at hheight
  rw [hheights]
  simp only [hheight] at hcovers
  linarith

theorem laidOut (hitems : s.items.Valid True) {visible others : List ItemLayout}
    (hlayouts : r.itemLayouts = visible ++ others)
    (hconsecutive : ∃ first, visible.map ItemLayout.index = List.range' first visible.length)
    (hwindow : ∀ layout ∈ visible, lo.length ≤ layout.index ∧
    layout.index < lo.length + (above ++ (up ++ down)).length) (hsingle : others.length ≤ 1)
    (hfocused : ∀ layout ∈ others, Layout.FocusedAt w s.items.toList layout.index ∧
    layout.index ∉ visible.map ItemLayout.index) : LaidOut w availableHeight padding s s' r := by
  have hmeasures := h.measures_all
  have hlength := hmeasures.length_eq
  refine ⟨lo.length, lo.length + (above ++ (up ++ down)).length, visible, others, ?_, ?_, ?_, ?_, hlayouts,
    hconsecutive, hwindow, hsingle, hfocused, ?_⟩
  · rw [summary_count h.valid, summary_count hitems, h.items, h.items_eq]
    simp only [List.length_append] at hlength ⊢
    omega
  · exact h.focusHandles
  · intro ix hix
    rw [h.items, h.items_eq]
    exact getElem?_outside hlength.symm hix
  · intro ix hlo hhi
    have hlt : ix < s'.items.toList.length := by
      rw [h.items]
      simp only [List.length_append] at hlength hhi ⊢
      omega
    obtain ⟨item, hitem⟩ : ∃ item, s'.items.toList[ix]? = some item := ⟨_, List.getElem?_eq_getElem hlt⟩
    have hmiddle := hitem
    rw [h.items] at hmiddle
    obtain ⟨size, focusHandle, rfl⟩ :=
      measured_of_mem hmeasures (mem_of_getElem?_middle hmiddle hlo (by rw [← hlength]; exact hhi))
    exact ⟨size, focusHandle, hitem⟩
  · intro htop
    have htake : s'.items.toList.take (lo.length + (above ++ (up ++ down)).length)
        = lo ++ (above' ++ (up' ++ down')) := by
      rw [h.items, hlength, ← List.length_append, List.take_left]
    rw [htake]
    exact h.covers htop

end Passed

/-! ### The layouts -/

section Passed

variable
  (h : Passes w availableHeight padding s s' r walked filled lo above up down rest above' up' down' skipped shown trailing)
include h

theorem filled_index : filled.itemLayouts.map ItemLayout.index
      = List.range' (lo ++ above).length up.length ++
        List.range' ((Layout.start s padding).scrollTop.itemIx + skipped) shown := by
  rw [h.fills.itemLayouts, List.map_append, layoutsFrom_index, List.length_reverse]
  simp only [h.descends.itemLayouts]
  rw [start_itemLayouts, List.nil_append, layoutsFrom_index]

/-- Visible items are in the window, and none of them is focused if a trailing one is laid out. -/
theorem of_mem_filled {ix : Nat} (hix : ix ∈ filled.itemLayouts.map ItemLayout.index) :
    lo.length ≤ ix ∧ ix < lo.length + (above ++ (up ++ down)).length ∧
      (Layout.FocusedAt w s.items.toList ix → filled.renderedFocusedItem = true) := by
  rw [h.filled_index] at hix
  have hle := h.descends.shown_le
  rcases List.mem_append.mp hix with hmem | hmem
  · rw [List.mem_range'_1, List.length_append] at hmem
    refine ⟨by omega, by simp only [List.length_append]; omega, ?_⟩
    rintro ⟨item, hitem, hfocused⟩
    refine h.fills.focused item ?_ hfocused
    have hall : s.items.toList = lo ++ above ++ up ++ (down ++ rest) := by
      rw [h.items_eq]
      simp only [List.append_assoc]
    rw [hall] at hitem
    exact mem_of_getElem?_middle hitem (by rw [List.length_append]; exact hmem.1)
      (by rw [List.length_append]; exact hmem.2)
  · rw [List.mem_range'_1] at hmem
    have hdown : down ≠ [] := by
      rintro rfl
      rw [List.length_nil] at hle
      omega
    have hitemIx := h.itemIx_eq hdown
    rw [List.length_append] at hitemIx
    refine ⟨by omega, by simp only [List.length_append]; omega, ?_⟩
    rintro ⟨item, hitem, hfocused⟩
    refine h.fills.keeps (h.descends.focused item ?_ hfocused)
    have hall : s.items.toList = (lo ++ above ++ up ++ down.take skipped) ++ (down.drop skipped).take shown ++
        ((down.drop skipped).drop shown ++ rest) := by
      rw [h.items_eq]
      simp only [List.append_assoc]
      rw [← List.append_assoc ((down.drop skipped).take shown), List.take_append_drop,
        ← List.append_assoc (down.take skipped), List.take_append_drop]
    rw [hall] at hitem
    refine mem_of_getElem?_middle hitem ?_ ?_
    · simp only [List.length_append, List.length_take]
      omega
    · simp only [List.length_append, List.length_take, List.length_drop]
      omega

theorem trailing_focused : ∀ layout ∈ trailing, Layout.FocusedAt w s.items.toList layout.index ∧
      layout.index ∉ filled.itemLayouts.map ItemLayout.index := by
  intro layout hlayout
  have hfocused := (focusedAt_congr h.focusHandles layout.index).mp (h.focused layout hlayout)
  refine ⟨hfocused, fun hmem => ?_⟩
  rw [h.none ((h.of_mem_filled hmem).2.2 hfocused)] at hlayout
  exact absurd hlayout List.not_mem_nil

/-- No item is left out between those that are visible. -/
theorem laidOut_of_no_gap (hitems : s.items.Valid True) (hgap : skipped = 0 ∨ up = [] ∨ shown = 0) :
    LaidOut w availableHeight padding s s' r := by
  have hlength : filled.itemLayouts.length = up.length + shown := by
    have hindex := congrArg List.length h.filled_index
    simpa using hindex
  refine h.laidOut hitems h.itemLayouts ?_ ?_ h.single h.trailing_focused
  · rw [hlength, h.filled_index]
    by_cases hshown : shown = 0
    · subst hshown
      exact ⟨_, List.append_nil _⟩
    · rcases hgap with rfl | rfl | hzero
      · have hdown : down ≠ [] := by
          rintro rfl
          have hle := h.descends.shown_le
          rw [List.length_nil] at hle
          omega
        refine ⟨(lo ++ above).length, ?_⟩
        rw [h.itemIx_eq hdown, Nat.add_zero, List.range'_append_1]
      · refine ⟨(Layout.start s padding).scrollTop.itemIx + skipped, ?_⟩
        rw [List.length_nil, List.range'_zero, List.nil_append, Nat.zero_add]
      · exact absurd hzero hshown
  · intro layout hlayout
    have hmem := h.of_mem_filled (List.mem_map_of_mem hlayout)
    exact ⟨hmem.1, hmem.2.1⟩

end Passed

/-- With an item left out, the one visible item behind it has to pass as the trailing one. -/
theorem laidOut_gap_iff (h : Passes w availableHeight padding s s' r walked filled lo above up down rest above' up' down'
    1 shown trailing) (hitems : s.items.Valid True) (hup : up ≠ []) (hshown : shown ≠ 0) :
    LaidOut w availableHeight padding s s' r ↔ shown = 1 ∧
      Layout.FocusedAt w s.items.toList ((Layout.start s padding).scrollTop.itemIx + 1) := by
  have hdown : down ≠ [] := by
    rintro rfl
    have hle := h.descends.shown_le
    rw [List.length_nil] at hle
    omega
  have hitemIx := h.itemIx_eq hdown
  have hfilled := h.filled_index
  generalize (Layout.start s padding).scrollTop.itemIx = itemIx at hitemIx hfilled
  generalize hfirst : (lo ++ above).length = first at hitemIx hfilled
  have hpos := List.length_pos_iff.mpr hup
  constructor
  · rintro ⟨lo', hi', visible, others, hlaid⟩
    obtain ⟨first', hconsecutive⟩ := hlaid.consecutive
    have hindex : List.range' first' visible.length ++ others.map ItemLayout.index
        = List.range' first up.length ++ List.range' (itemIx + 1) shown ++ trailing.map ItemLayout.index := by
      rw [← hconsecutive, ← List.map_append, ← hlaid.itemLayouts, h.itemLayouts, List.map_append, hfilled]
    have hlengths := congrArg List.length hindex
    simp only [List.length_append, List.length_range', List.length_map] at hlengths
    have hsingle := hlaid.single
    -- the item before the gap and the one behind it are not both visible
    have hvisible : visible.length ≤ up.length := by
      by_contra hlt
      have hbefore := congrArg (fun l => l[up.length - 1]?) hindex
      have hbehind := congrArg (fun l => l[up.length]?) hindex
      simp only [List.append_assoc] at hbefore hbehind
      rw [List.getElem?_append_left (by rw [List.length_range']; omega),
        List.getElem?_append_left (by rw [List.length_range']; omega), List.getElem?_range' (by omega),
        List.getElem?_range' (by omega)] at hbefore
      rw [List.getElem?_append_left (by rw [List.length_range']; omega),
        List.getElem?_append_right (by rw [List.length_range']), List.length_range', Nat.sub_self,
        List.getElem?_append_left (by rw [List.length_range']; omega), List.getElem?_range' (by omega),
        List.getElem?_range' (by omega)] at hbehind
      have hbefore := Option.some.inj hbefore
      have hbehind := Option.some.inj hbehind
      omega
    obtain ⟨layout, rfl⟩ := List.length_eq_one_iff.mp (by omega : others.length = 1)
    have hone : shown = 1 := by omega
    have hnil : trailing.map ItemLayout.index = [] := List.length_eq_zero_iff.mp (by rw [List.length_map]; omega)
    rw [hone, hnil, List.append_nil] at hindex
    have hlast := List.append_inj' hindex (by simp)
    have hlayout : layout.index = itemIx + 1 := by
      have hsame : [layout.index] = [itemIx + 1] := hlast.2
      exact List.singleton_injective hsame
    rw [← hlayout]
    exact ⟨hone, (hlaid.focused layout (List.mem_singleton_self _)).1⟩
  · rintro ⟨rfl, hfocused⟩
    have hmem : itemIx + 1 ∈ filled.itemLayouts.map ItemLayout.index := by
      rw [hfilled]
      exact List.mem_append_right _ (by simp)
    have hnone := h.none ((h.of_mem_filled hmem).2.2 hfocused)
    obtain ⟨visible, others, hparts, hvisible, hothers⟩ := List.map_eq_append_iff.mp hfilled
    have hlength : visible.length = up.length := by
      have hlength := congrArg List.length hvisible
      simpa using hlength
    have hlayouts : r.itemLayouts = visible ++ others := by rw [h.itemLayouts, hnone, List.append_nil, hparts]
    have hindex : ∀ layout ∈ others, layout.index = itemIx + 1 := by
      intro layout hlayout
      have hmem' : layout.index ∈ others.map ItemLayout.index := List.mem_map_of_mem hlayout
      rw [hothers] at hmem'
      simpa using hmem'
    refine h.laidOut hitems hlayouts ⟨first, by rw [hvisible, hlength]⟩ ?_ ?_ ?_
    · intro layout hlayout
      have hmem' : layout.index ∈ filled.itemLayouts.map ItemLayout.index := by
        rw [hparts, List.map_append]
        exact List.mem_append_left _ (List.mem_map_of_mem hlayout)
      have hbetween := h.of_mem_filled hmem'
      exact ⟨hbetween.1, hbetween.2.1⟩
    · have hone := congrArg List.length hothers
      simp only [List.length_map, List.length_range'] at hone
      exact hone.le
    · intro layout hlayout
      rw [hindex layout hlayout, hvisible, List.mem_range'_1]
      exact ⟨hfocused, by omega⟩

theorem skips_iff (h : Passes w availableHeight padding s s' r walked filled lo above up down rest above' up' down'
    1 shown trailing) (hbottom : 0 ≤ padding.bottom) (hskipped : Layout.Skipped w availableHeight
      (s.items.toList.drop (Layout.start s padding).scrollTop.itemIx) (Layout.start s padding) walked shown) :
    Skips w availableHeight padding s ↔ up ≠ [] ∧ shown ≠ 0 ∧ ¬ (shown = 1 ∧
      Layout.FocusedAt w s.items.toList ((Layout.start s padding).scrollTop.itemIx + 1)) := by
  obtain ⟨item, hitem, offset, hhides, hoffset⟩ := hskipped.hides
  have hall := hskipped.all
  have hfits := hskipped.fits
  have hwalks := h.fills.walks
  rw [List.head?_drop] at hitem
  rw [start_renderedHeight, List.length_drop] at hall hfits
  have hlt : (Layout.start s padding).scrollTop.itemIx < s.items.toList.length :=
    (List.getElem?_eq_some_iff.mp hitem).1
  have hvisible : ({ walked with renderedHeight := walked.renderedHeight + padding.bottom } : Layout).visibleHeight
      = walked.visibleHeight + padding.bottom := by
    simp only [Layout.visibleHeight]
    ring
  have hwalked : walked.visibleHeight = walked.renderedHeight - offset := by rw [Layout.visibleHeight, hoffset]
  rw [hvisible] at hwalks
  rw [hoffset] at hfits
  have hbefore : (s.items.toList.take (Layout.start s padding).scrollTop.itemIx).reverse ≠ [] ↔
      0 < (Layout.start s padding).scrollTop.itemIx := by
    rw [ne_eq, List.reverse_eq_nil_iff, List.take_eq_nil_iff, Nat.pos_iff_ne_zero]
    have hne : s.items.toList ≠ [] := List.ne_nil_of_length_pos (Nat.zero_lt_of_lt hlt)
    simp [hne]
  rw [hbefore] at hwalks
  unfold Skips
  dsimp only
  generalize (Layout.start s padding).scrollTop.itemIx = itemIx at *
  constructor
  · rintro ⟨item', offset', hitem', hhides', hpos, hbelow, hheight, hcovers, hexception⟩
    obtain rfl := Option.some.inj (hhides'.restored.symm.trans hhides.restored)
    have hvisible := hfits (by linarith)
    obtain ⟨hshown, hrendered⟩ := hall hvisible
    have hcovered : walked.visibleHeight + padding.bottom < availableHeight := by
      rw [hwalked, hrendered]
      linarith
    have hroom : walked.renderedHeight + padding.bottom < availableHeight := by
      rw [hrendered]
      exact hheight
    refine ⟨hwalks.mpr ⟨hcovered, hroom, hpos⟩, by omega, ?_⟩
    rintro ⟨hone, hfocused⟩
    exact hexception ⟨by omega, hfocused⟩
  · rintro ⟨hup, hshown, hexception⟩
    obtain ⟨hcovered, hroom, hpos⟩ := hwalks.mp hup
    have hroom : walked.renderedHeight + padding.bottom < availableHeight := hroom
    obtain ⟨hall, hrendered⟩ := hall (by linarith)
    rw [hrendered] at hroom
    rw [hwalked, hrendered] at hcovered
    refine ⟨item, offset, hitem, hhides, hpos, by omega, hroom, by linarith, ?_⟩
    rintro ⟨hcount, hfocused⟩
    exact hexception ⟨by omega, hfocused⟩

end Passes

/-- **Layout loses no list items**, and lays out items that follow one another, just if it does not skip
the item at the scroll top. -/
theorem layoutItems_laidOut_iff (hitems : s.items.Valid True) (hsizes : NonNegative w s.items.toList)
    (hbottom : 0 ≤ padding.bottom) : ∃ s' r, s.layoutItems w availableHeight padding = some (s', r) ∧
      (LaidOut w availableHeight padding s s' r ↔ ¬ Skips w availableHeight padding s) := by
  obtain ⟨s', r, walked, filled, lo, above, up, down, rest, above', up', down', skipped, shown, trailing, hlayout,
    hpasses, -, ⟨rfl, hhides⟩ | ⟨rfl, hskipped⟩⟩ := layoutItems_passes w availableHeight padding hitems hsizes
  · refine ⟨s', r, hlayout, ?_⟩
    have hlaid := hpasses.laidOut_of_no_gap hitems (Or.inl rfl)
    refine ⟨fun _ => ?_, fun _ => hlaid⟩
    rintro ⟨item, offset, hitem, hhidden, -⟩
    exact hhides item offset hitem hhidden
  · refine ⟨s', r, hlayout, ?_⟩
    rw [hpasses.skips_iff hbottom hskipped]
    by_cases hgap : up = [] ∨ shown = 0
    · have hlaid := hpasses.laidOut_of_no_gap hitems (Or.inr hgap)
      refine ⟨fun _ hskips => ?_, fun _ => hlaid⟩
      exact hgap.elim hskips.1 hskips.2.1
    · obtain ⟨hup, hshown⟩ := not_or.mp hgap
      rw [hpasses.laidOut_gap_iff hitems hup hshown]
      exact ⟨fun hexception hskips => hskips.2.2 hexception, fun hskips => by_contra fun hexception =>
        hskips ⟨hup, hshown, hexception⟩⟩

/-- All elements have one size. -/
def squares : Surroundings := ⟨fun _ => ⟨10, 10⟩, fun _ => false, fun _ _ => none⟩

theorem nonNegative_squares {items : List ListItem} (h : ∀ item ∈ items, item.size = none) :
    NonNegative squares items where
  rendered _ := (by decide : (0 : Pixels) ≤ 10)
  measured item hitem size hsize := by
    rw [h item hitem] at hsize
    cases hsize

theorem layoutItems_laidOut_iff_new : ∃ s, ListState.new 3 .top (200 : Pixels) = some s ∧
    ∃ s' r, s.layoutItems squares 100 .default = some (s', r) ∧
      (LaidOut squares 100 .default s s' r ↔ ¬ Skips squares 100 .default s) := by
  obtain ⟨s, hnew⟩ := Option.isSome_iff_exists.mp (by decide +kernel : (ListState.new 3 .top (200 : Pixels)).isSome)
  have hitems : ((ListState.new 3 .top (200 : Pixels)).map fun s => s.items.toList.all fun item => item.size = none)
      = some true := by decide +kernel
  rw [hnew] at hitems
  refine ⟨s, hnew, layoutItems_laidOut_iff ((tracks_new hnew).reachable.valid fun _ => inferInstance)
    (nonNegative_squares fun item hitem => ?_) (by decide)⟩
  exact of_decide_eq_true (List.all_eq_true.mp (Option.some.inj hitems) item hitem)

/-- The items are laid out, the second one is scrolled to and remeasured, and it is scrolled up from it
by a whole viewport. -/
def scrollAbove : List ListAct :=
  [.layoutItems squares 100 .default, .scrollTo ⟨1, 0⟩, .remeasure, .scrollTo ⟨1, -100⟩]

/-- Then the items before and behind the second one are laid out, and it is not. -/
theorem not_layoutItems_laidOut : ¬ ∀ itemCount overdraw acts s s' s'' r,
    ListState.new itemCount .top overdraw = some s → run ListState.step s acts = some s' →
    s'.layoutItems squares 100 .default = some (s'', r) → LaidOut squares 100 .default s' s'' r := by
  intro h
  have hlayout : (((ListState.new 3 .top (200 : Pixels)).bind fun s => run ListState.step s scrollAbove).bind fun s =>
      (s.layoutItems squares 100 .default)).map (fun r => r.2.itemLayouts.map ItemLayout.index) = some [0, 2] := by
    decide +kernel
  obtain ⟨⟨s'', r⟩, hlayout, hindices⟩ := Option.map_eq_some_iff.mp hlayout
  obtain ⟨s', hrun, hlayout⟩ := Option.bind_eq_some_iff.mp hlayout
  obtain ⟨s, hnew, hrun⟩ := Option.bind_eq_some_iff.mp hrun
  obtain ⟨lo, hi, visible, trailing, hbetween⟩ := h 3 200 scrollAbove s s' s'' r hnew hrun hlayout
  obtain ⟨first, hfirst⟩ := hbetween.consecutive
  -- nothing is focused
  have htrailing : trailing = [] := by
    refine List.eq_nil_iff_forall_not_mem.mpr fun layout hlayout => ?_
    obtain ⟨item, -, hfocused⟩ := (hbetween.focused layout hlayout).1
    rw [ListItem.containsFocused, Option.any_eq_true] at hfocused
    obtain ⟨focusHandle, -, hfocused⟩ := hfocused
    cases hfocused
  have hvisible : visible.map ItemLayout.index = [0, 2] := by
    rw [← hindices, hbetween.itemLayouts, htrailing, List.append_nil]
  have hlength : visible.length = 2 := by
    rw [← List.length_map ItemLayout.index, hvisible]
    rfl
  rw [hvisible, hlength] at hfirst
  obtain ⟨hzero, hone⟩ := List.cons.inj hfirst
  have htwo := (List.cons.inj hone).1
  omega

end FcGpui.Elements
