import FcGpui.Elements.HeightSeeks

/-!
# The scrollbar of a list

`max_offset_for_scrollbar`, `scroll_px_offset_for_scrollbar` and `set_offset_from_scrollbar` of
`crates/gpui/src/elements/list.rs`, for a list that is aligned to the top and does not follow
its tail.  What is read back is the offset that was set, clamped (`setOffset_reads`).  It is
clamped to the content with the padding, while the maximum is that of the content alone.

**Main result.**  `scrollbar_readsBack_iff`.
-/

namespace FcGpui.Elements

open SumTree

/-- The method `max_scroll_offset`. -/
def StateInner.maxScrollOffset (s : StateInner) : Pixels :=
  let height := s.scrollbarDragStartHeight.getD s.items.summary.height
  max (height - s.lastLayoutBounds.elim 0 fun bounds => bounds.size.height) 0

namespace ListState

def maxOffsetForScrollbar (s : StateInner) : Size Pixels := ⟨0, s.maxScrollOffset⟩

def scrollPxOffsetForScrollbar (s : StateInner) : Option (Point Pixels) :=
  if s.logicalScrollTop = none ∧ s.alignment = .bottom then some ⟨0, -s.maxScrollOffset⟩
  else do
    let logicalScrollTop := s.getLogicalScrollTop
    let cursor : SumTree.Cursor ListItem ListItemSummary ListItemSummary := Cursor.new s.items
    let ((summary : ListItemSummary), _) ← cursor.summary (Count.summaryTarget logicalScrollTop.itemIx) .right
    some ⟨0, -(summary.height + logicalScrollTop.offsetInItem)⟩

end ListState

open ListState

variable {s : StateInner} {bounds : Bounds Pixels}

theorem summaryCount_spec {items : SumTree ListItem ListItemSummary} (hitems : items.Valid True) (n : Nat) :
    ∃ c' summary, (Cursor.new items : SumTree.Cursor ListItem ListItemSummary ListItemSummary).summary
        (Count.summaryTarget n) .right = some ((summary : ListItemSummary), c') ∧
      summary.height = extent items.toList n := by
  obtain ⟨c', hsummary, -⟩ :=
    (indexes_summaryCount n).summary (E := ListItemSummary) hitems (.new (R := True)) (Nat.zero_le n)
  refine ⟨c', _, hsummary, ?_⟩
  rw [(positionAfter_summary _).2]
  rfl

theorem scrollPxOffset_eq {scrollTop : ListOffset} (hitems : s.items.Valid True)
    (htop : s.logicalScrollTop = some scrollTop) :
    scrollPxOffsetForScrollbar s = some ⟨0, -scrollPosition s.items.toList scrollTop⟩ := by
  obtain ⟨c', summary, hsummary, hheight⟩ := summaryCount_spec hitems scrollTop.itemIx
  have hlogical : s.getLogicalScrollTop = scrollTop := by rw [StateInner.getLogicalScrollTop, htop, Option.getD_some]
  rw [scrollPxOffsetForScrollbar, if_neg (fun h => by rw [htop] at h; exact absurd h.1 (Option.some_ne_none _)), hlogical]
  dsimp only
  rw [hsummary]
  simp only [Option.bind_eq_bind, Option.bind_some, hheight, scrollPosition]

/-- The content as the scrollbar scrolls it: with the padding. -/
def StateInner.paddedMaximum (s : StateInner) (bounds : Bounds Pixels) : Pixels :=
  let padding := s.lastPadding.getD .default
  max (s.items.summary.height + padding.top + padding.bottom - bounds.size.height) 0

theorem setOffset_eq (halignment : s.alignment = .top) (hfollow : s.followState = .normal)
    (hbounds : s.lastLayoutBounds = some bounds) (hdrag : s.scrollbarDragStartHeight = none) (p : Point Pixels) :
    s.setOffsetFromScrollbar p =
      ((Cursor.new s.items).seek (Height.summaryTarget (min (max (-p.y) 0) (s.paddedMaximum bounds))) .right).bind
        fun sought => s.moveTo (StateInner.offsetAt sought.2 (min (max (-p.y) 0) (s.paddedMaximum bounds))) := by
  cases s
  dsimp only at halignment hfollow hbounds hdrag
  subst halignment hfollow hbounds hdrag
  rw [StateInner.setOffsetFromScrollbar]
  dsimp only
  rw [if_neg (fun h => h.2 rfl), if_neg (fun h => absurd h.1 (by decide))]
  rfl

/-- **What is read back** is what was set, within the content and its padding. -/
theorem setOffset_reads (hitems : s.items.Valid True) (halignment : s.alignment = .top) (hfollow : s.followState = .normal)
    (hbounds : s.lastLayoutBounds = some bounds) (hdrag : s.scrollbarDragStartHeight = none) (p : Point Pixels) :
    ∃ s', s.setOffsetFromScrollbar p = some s' ∧ s'.maxScrollOffset = s.maxScrollOffset ∧
      scrollPxOffsetForScrollbar s' = some ⟨0, -min (max (-p.y) 0) (s.paddedMaximum bounds)⟩ := by
  have hnonneg : 0 ≤ min (max (-p.y) 0) (s.paddedMaximum bounds) := le_min (le_max_right _ _) (le_max_right _ _)
  obtain ⟨found, c', stop, hseek, hcount, hheight, -, -⟩ :=
    seekHeightRight_spec hitems (c := Cursor.new s.items) rfl hnonneg
  obtain ⟨pending, hmoved⟩ := moveTo_spec hitems
    (StateInner.offsetAt c' (min (max (-p.y) 0) (s.paddedMaximum bounds)))
  have hread := scrollPxOffset_eq (s := { s with
    pendingScroll := pending
    logicalScrollTop := some (StateInner.offsetAt c' (min (max (-p.y) 0) (s.paddedMaximum bounds))) }) hitems rfl
  refine ⟨_, ?_, ?_, hread.trans ?_⟩
  · rw [setOffset_eq halignment hfollow hbounds hdrag, hseek]
    exact hmoved
  · rfl
  · rw [scrollPosition]
    simp only [StateInner.offsetAt, hcount, hheight, add_sub_cancel]

/-- The padding does not matter: there is none, or all of the content has room in the list with it and without
it, or the offset is within the content with it and without it. -/
def StateInner.PaddingUnused (s : StateInner) (bounds : Bounds Pixels) (p : Point Pixels) : Prop :=
  let padding := s.lastPadding.getD .default
  let content := s.items.summary.height
  let padded := content + padding.top + padding.bottom
  padding.top + padding.bottom = 0 ∨ (content ≤ bounds.size.height ∧ padded ≤ bounds.size.height) ∨
    (-p.y ≤ max (content - bounds.size.height) 0 ∧ -p.y ≤ max (padded - bounds.size.height) 0)

theorem clamp_eq_clamp_iff {x top top' : ℚ} (htop : 0 ≤ top) (htop' : 0 ≤ top') :
    min (max x 0) top = min (max x 0) top' ↔ top = top' ∨ (x ≤ top ∧ x ≤ top') := by
  constructor
  · intro h
    by_cases hx : x ≤ top ∧ x ≤ top'
    · exact Or.inr hx
    · left
      rcases le_total (max x 0) top with hle | hle
      · rw [min_eq_left hle] at h
        have hle' : max x 0 ≤ top' := h ▸ min_le_right _ _
        exact absurd ⟨(le_max_left x 0).trans hle, (le_max_left x 0).trans hle'⟩ hx
      · rw [min_eq_right hle] at h
        rcases le_total (max x 0) top' with hle' | hle'
        · rw [min_eq_left hle'] at h
          exact absurd ⟨(le_max_left x 0).trans h.ge, (le_max_left x 0).trans hle'⟩ hx
        · rw [min_eq_right hle'] at h
          exact h
  · rintro (rfl | ⟨hx, hx'⟩)
    · rfl
    · rw [min_eq_left (max_le hx htop), min_eq_left (max_le hx' htop')]

theorem padded_eq_iff (content padding height : ℚ) :
    max (content + padding - height) 0 = max (content - height) 0 ↔
      padding = 0 ∨ (content ≤ height ∧ content + padding ≤ height) := by
  constructor
  · intro h
    rcases le_or_gt content height with hle | hgt
    · rw [max_eq_right (sub_nonpos.mpr hle)] at h
      have hpadded := h ▸ le_max_left (content + padding - height) 0
      exact Or.inr ⟨hle, sub_nonpos.mp hpadded⟩
    · left
      have hpos : 0 < content - height := sub_pos.mpr hgt
      rw [max_eq_left hpos.le] at h
      rcases max_choice (content + padding - height) 0 with hmax | hmax
      · rw [hmax] at h
        linarith
      · rw [hmax] at h
        exact absurd h hpos.ne
  · rintro (rfl | ⟨h, h'⟩)
    · rw [add_zero]
    · rw [max_eq_right (sub_nonpos.mpr h), max_eq_right (sub_nonpos.mpr h')]

theorem paddingUnused_iff (hbounds : s.lastLayoutBounds = some bounds) (hdrag : s.scrollbarDragStartHeight = none)
    (p : Point Pixels) : s.PaddingUnused bounds p ↔
      min (max (-p.y) 0) (s.paddedMaximum bounds) = min (max (-p.y) 0) s.maxScrollOffset := by
  have hpadded : 0 ≤ s.paddedMaximum bounds := le_max_right _ _
  have hmax : 0 ≤ s.maxScrollOffset := le_max_right _ _
  rw [clamp_eq_clamp_iff hpadded hmax, StateInner.PaddingUnused, StateInner.paddedMaximum,
    StateInner.maxScrollOffset, hbounds, hdrag, Option.elim_some, Option.getD_none,
    add_assoc, padded_eq_iff, or_assoc, and_comm (a := -p.y ≤ _)]

/-- **The scrollbar reads back what it set**, up to the maximum, if and only if the padding does not matter. -/
theorem scrollbar_readsBack_iff (hitems : s.items.Valid True) (halignment : s.alignment = .top)
    (hfollow : s.followState = .normal) (hbounds : s.lastLayoutBounds = some bounds)
    (hdrag : s.scrollbarDragStartHeight = none) (p : Point Pixels) :
    ∃ s' offset, s.setOffsetFromScrollbar p = some s' ∧ scrollPxOffsetForScrollbar s' = some offset ∧
      ((offset.y = -min (max (-p.y) 0) (maxOffsetForScrollbar s').height ∧
          -offset.y ≤ (maxOffsetForScrollbar s').height) ↔ s.PaddingUnused bounds p) := by
  obtain ⟨s', hset, hmax, hread⟩ := setOffset_reads hitems halignment hfollow hbounds hdrag p
  refine ⟨s', _, hset, hread, ?_⟩
  rw [paddingUnused_iff hbounds hdrag, maxOffsetForScrollbar, hmax, neg_inj, neg_neg]
  exact and_iff_left_of_imp fun h => h ▸ min_le_right _ _

/-- Three items of one height, in a viewport that is not high enough for two. -/
def threeRows (items : SumTree ListItem ListItemSummary) : StateInner :=
  ⟨some ⟨⟨0, 0⟩, ⟨100, 30⟩⟩, some ⟨2, 0, 2, 0⟩, items, none, .top, 0, false, none, .visible, none, .normal⟩

/-- Three rows, scrolled to the middle. -/
theorem scrollbar_readsBack_threeRows : ∃ items,
    SumTree.new.extend (List.replicate 3 (.measured ⟨100, 20⟩ none : ListItem)) = some items ∧
    ∃ s' offset, (threeRows items).setOffsetFromScrollbar ⟨0, -15⟩ = some s' ∧
      scrollPxOffsetForScrollbar s' = some offset ∧
      ((offset.y = -min (max (-(⟨0, -15⟩ : Point Pixels).y) 0) (maxOffsetForScrollbar s').height ∧
          -offset.y ≤ (maxOffsetForScrollbar s').height) ↔
        (threeRows items).PaddingUnused ⟨⟨0, 0⟩, ⟨100, 30⟩⟩ ⟨0, -15⟩) := by
  obtain ⟨items, hextend, hvalid, -⟩ := extend_spec (fun _ => inferInstance) (Or.inl rfl)
    (List.replicate 3 (.measured ⟨100, 20⟩ none : ListItem))
  exact ⟨items, hextend, scrollbar_readsBack_iff (s := threeRows items) hvalid rfl rfl rfl rfl ⟨0, -15⟩⟩

/-- Scrolled to the end, the offset has the padding that the maximum has not. -/
theorem not_scrollbar_readsBack : ¬ ∀ (s : StateInner) (bounds : Bounds Pixels), s.items.Valid True →
    s.alignment = .top → s.followState = .normal → s.lastLayoutBounds = some bounds →
    s.scrollbarDragStartHeight = none → ∀ p : Point Pixels, ∃ s' offset, s.setOffsetFromScrollbar p = some s' ∧
      scrollPxOffsetForScrollbar s' = some offset ∧
      offset.y = -min (max (-p.y) 0) (maxOffsetForScrollbar s').height ∧
      -offset.y ≤ (maxOffsetForScrollbar s').height := by
  intro h
  obtain ⟨items, hextend, hvalid, hlist⟩ := extend_spec (fun _ => inferInstance) (Or.inl rfl)
    (List.replicate 3 (.measured ⟨100, 20⟩ none : ListItem))
  have hheight : items.summary.height = 60 := by
    rw [summary_height hvalid, hlist]
    decide +kernel
  obtain ⟨s', offset, hset, hread, -, hle⟩ :=
    h (threeRows items) ⟨⟨0, 0⟩, ⟨100, 30⟩⟩ hvalid rfl rfl rfl rfl ⟨0, -100⟩
  obtain ⟨s'', hset', hmax, hread'⟩ :=
    setOffset_reads (s := threeRows items) hvalid rfl rfl rfl rfl ⟨0, -100⟩
  obtain rfl := Option.some.inj (hset.symm.trans hset')
  obtain rfl := Option.some.inj (hread.symm.trans hread')
  rw [maxOffsetForScrollbar, hmax] at hle
  change -(-min (max (- -100) 0) (max (items.summary.height + 2 + 2 - 30) 0)) ≤ max (items.summary.height - 30) 0 at hle
  rw [hheight] at hle
  exact absurd hle (by decide +kernel)

end FcGpui.Elements
