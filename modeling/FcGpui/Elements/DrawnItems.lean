import FcGpui.Elements.ItemBounds

/-!
# Where items are drawn

`prepaint_items` of `crates/gpui/src/elements/list.rs` places the layouts one below the other,
from the padding on, and `bounds_for_item` leaves the padding out.  The item at the scroll top
may have been skipped, and takes up no room then.

**Main result.**  `prepaintItems_tells_iff`.
-/

namespace FcGpui.Elements

open SumTree ListState

variable {s s₀ s₁ s' : StateInner} {w : Surroundings} {bounds : Bounds Pixels} {padding : Edges}
  {availableHeight : Pixels} {r : LayoutItemsResponse}

/-- The layouts with the coordinates at which they are placed. -/
def placements : Pixels → List ItemLayout → List (ItemLayout × Pixels)
  | _, [] => []
  | y, layout :: layouts => (layout, y) :: placements (y + layout.size.height) layouts

def layoutHeights (layouts : List ItemLayout) : Pixels := (layouts.map fun layout => layout.size.height).sum

/-- What a prepaint leaves behind. -/
def StateInner.prepainted (s : StateInner) (bounds : Bounds Pixels) (padding : Edges) : StateInner :=
  { s with lastLayoutBounds := some bounds, lastPadding := some padding }

/-- The bounds are those that a layout has been placed at. -/
def Tells (s : StateInner) (placed : ItemLayout × Pixels) : Prop :=
  ∃ b, boundsForItem s placed.1.index = some (some b) ∧ b.origin.y = placed.2 ∧
    b.size.height = placed.1.size.height

/-- The scroll top is known: a list that is aligned to the bottom has been scrolled. -/
def ScrollTopKnown (s : StateInner) : Prop := ¬(s.logicalScrollTop = none ∧ s.alignment = .bottom)

/-- The item at the scroll top is skipped. -/
def SkipsTop (w : Surroundings) (availableHeight : Pixels) (padding : Edges) (s : StateInner) : Prop :=
  ∃ item offset, s.items.toList[(Layout.start s padding).scrollTop.itemIx]? = some item ∧
    (Layout.start s padding).Hides w availableHeight item offset

/-- There is no padding, or just as much as the height of the item at the scroll top if that is skipped and comes
before an item. -/
def PaddingFits (w : Surroundings) (availableHeight : Pixels) (padding : Edges) (s : StateInner) (ix : Nat) : Prop :=
  let itemIx := (Layout.start s padding).scrollTop.itemIx
  (SkipsTop w availableHeight padding s ∧ itemIx < ix → padding.top = (w.renderItem itemIx).height) ∧
    (¬(SkipsTop w availableHeight padding s ∧ itemIx < ix) → padding.top = 0)

/-- The trailing item is below the scroll top, as far as the visible items and the padding are high. -/
structure InLine (s : StateInner) (padding : Edges) (visible : List ItemLayout) (layout : ItemLayout) : Prop where
  below : s.getLogicalScrollTop.itemIx ≤ layout.index
  height : (s.items.toList[layout.index]?.bind ListItem.size).map Size.height = some layout.size.height
  between : padding.top + layoutHeights visible =
    extent s.items.toList layout.index - extent s.items.toList s.getLogicalScrollTop.itemIx

/-! ### Placements -/

theorem placements_append (y : Pixels) (layouts layouts' : List ItemLayout) :
    placements y (layouts ++ layouts') = placements y layouts ++ placements (y + layoutHeights layouts) layouts' := by
  induction layouts generalizing y with
  | nil =>
    rw [layoutHeights, List.map_nil, List.sum_nil, add_zero]
    rfl
  | cons layout layouts ih =>
    rw [List.cons_append, placements, placements, ih, layoutHeights, layoutHeights, List.map_cons, List.sum_cons,
      add_assoc, List.cons_append]

theorem layoutHeights_layoutsFrom (first n : Nat) :
    layoutHeights (layoutsFrom w first n) = renderedHeights w first n := by
  rw [layoutHeights, layoutsFrom, renderedHeights, List.map_map]
  rfl

theorem forall_placements_layoutsFrom {p : ItemLayout × Pixels → Prop} {y : Pixels} {first n : Nat} :
    (∀ placed ∈ placements y (layoutsFrom w first n), p placed) ↔
      ∀ j < n, p (⟨first + j, w.renderItem (first + j)⟩, y + renderedHeights w first j) := by
  induction n generalizing y first with
  | zero => simp [placements]
  | succ n ih =>
    have hstep : ∀ j, ((⟨first + 1 + j, w.renderItem (first + 1 + j)⟩,
        y + (w.renderItem first).height + renderedHeights w (first + 1) j) : ItemLayout × Pixels)
          = (⟨first + (j + 1), w.renderItem (first + (j + 1))⟩, y + renderedHeights w first (j + 1)) := fun j => by
      have hindex : first + 1 + j = first + (j + 1) := by omega
      rw [hindex, renderedHeights_succ, add_assoc y]
    have hzero : y + renderedHeights w first 0 = y := add_zero y
    rw [layoutsFrom_succ, placements, List.forall_mem_cons, ih]
    constructor
    · rintro ⟨hfirst, hrest⟩ j hj
      cases j with
      | zero => rwa [hzero]
      | succ j => exact hstep j ▸ hrest j (Nat.lt_of_succ_lt_succ hj)
    · intro hall
      refine ⟨?_, fun j hj => hstep j ▸ hall (j + 1) (Nat.succ_lt_succ hj)⟩
      have hfirst := hall 0 (Nat.zero_lt_succ n)
      rwa [hzero] at hfirst

theorem forall_layoutsFrom {p : Nat → Prop} {first n : Nat} :
    (∀ layout ∈ layoutsFrom w first n, p layout.index) ↔ ∀ j < n, p (first + j) := by
  induction n generalizing first with
  | zero => simp
  | succ n ih =>
    rw [layoutsFrom_succ, List.forall_mem_cons, ih]
    constructor
    · rintro ⟨hfirst, hrest⟩ j hj
      cases j with
      | zero => exact hfirst
      | succ j =>
        rw [← Nat.add_assoc, Nat.add_right_comm]
        exact hrest j (Nat.lt_of_succ_lt_succ hj)
    · intro hall
      refine ⟨hall 0 (Nat.zero_lt_succ n), fun j hj => ?_⟩
      rw [Nat.add_right_comm, Nat.add_assoc]
      exact hall (j + 1) (Nat.succ_lt_succ hj)

/-! ### What a layout leaves in the tree -/

theorem renderedHeights_concat (first n : Nat) :
    renderedHeights w first (n + 1) = renderedHeights w first n + (w.renderItem (first + n)).height := by
  rw [renderedHeights, List.range'_concat, List.map_append, List.sum_append, List.map_singleton, List.sum_singleton,
    Nat.one_mul]
  rfl

theorem knownHeight_of_size {item : ListItem} {size : Size Pixels} (h : item.size = some size) :
    item.knownHeight = size.height := by
  cases item with
  | unmeasured sizeHint focusHandle => exact absurd h (Option.some_ne_none size).symm
  | measured size' focusHandle =>
    obtain rfl := Option.some.inj h
    rfl

theorem extent_rendered {items : List ListItem} {first n : Nat}
    (h : ∀ j < n, items[first + j]?.bind ListItem.size = some (w.renderItem (first + j))) :
    extent items (first + n) = extent items first + renderedHeights w first n := by
  induction n with
  | zero =>
    rw [renderedHeights, Nat.add_zero]
    simp
  | succ n ih =>
    obtain ⟨item, hitem, hsize⟩ := Option.bind_eq_some_iff.mp (h n (Nat.lt_succ_self n))
    rw [← Nat.add_assoc, extent_succ hitem, ih fun j hj => h j (hj.trans (Nat.lt_succ_self n)), renderedHeights_concat,
      knownHeight_of_size hsize, add_assoc]

/-- What a layout leaves: the visible items are those from `first` on, but for the item at the scroll top if that is
skipped, and they are measured as they are rendered. -/
structure Drawn (w : Surroundings) (availableHeight : Pixels) (padding : Edges) (s s' : StateInner)
    (r : LayoutItemsResponse) (first up skipped shown : Nat) (trailing : List ItemLayout) : Prop where
  valid : s'.items.Valid True
  itemLayouts : r.itemLayouts = layoutsFrom w first up ++ layoutsFrom w (first + up + skipped) shown ++ trailing
  single : trailing.length ≤ 1
  focused : ∀ layout ∈ trailing, Layout.FocusedAt w s'.items.toList layout.index
  measured : ∀ ix, first ≤ ix → ix < first + up ∨ 0 < shown ∧ ix < first + up + skipped + shown →
    s'.items.toList[ix]?.bind ListItem.size = some (w.renderItem ix)
  top : up ≠ 0 ∨ shown ≠ 0 → r.scrollTop.itemIx = first
  known : ScrollTopKnown s' → s'.getLogicalScrollTop = r.scrollTop
  before : first + up ≤ (Layout.start s padding).scrollTop.itemIx
  itemIx : shown ≠ 0 → (Layout.start s padding).scrollTop.itemIx = first + up
  skips : skipped = 0 ∧ ¬SkipsTop w availableHeight padding s ∨ skipped = 1 ∧ SkipsTop w availableHeight padding s

theorem start_synced (s : StateInner) (padding : Edges) : (Layout.start s padding).Synced := by
  rw [Layout.start]
  split <;> rfl

theorem start_measuredItems (s : StateInner) (padding : Edges) : (Layout.start s padding).measuredItems = [] := by
  rw [Layout.start]
  split <;> rfl

section

variable {walked filled : Layout} {lo above up down rest above' up' down' : List ListItem} {skipped shown : Nat}
  {trailing : List ItemLayout}

section Passed

variable
  (h : Passes w availableHeight padding s s' r walked filled lo above up down rest above' up' down' skipped shown trailing)
include h

theorem Passes.measured {ix : Nat} {size : Size Pixels}
    (hsize : filled.measuredItems[ix]?.bind ListItem.size = some size) :
    s'.items.toList[(lo ++ above).length + ix]?.bind ListItem.size = some size := by
  have hfilled : filled.measuredItems = up' ++ down' := by
    rw [h.fills.measuredItems]
    show up' ++ walked.measuredItems = _
    rw [h.descends.measuredItems, start_measuredItems, List.nil_append]
  have hlength : (lo ++ above).length = (lo ++ above').length := by
    rw [List.length_append, List.length_append, h.measures.length_eq]
  rw [hfilled] at hsize
  rw [h.items, ← List.append_assoc lo, List.append_assoc (lo ++ above'), hlength,
    List.getElem?_append_right (Nat.le_add_right _ _), Nat.add_sub_cancel_left]
  exact Layout.getElem?_append_of_bind hsize

theorem Passes.length_take :
    (s.items.toList.take (Layout.start s padding).scrollTop.itemIx).length = (lo ++ above).length + up.length := by
  rw [h.take_eq, List.length_append]

theorem Passes.itemIx_shown (hshown : shown ≠ 0) :
    (Layout.start s padding).scrollTop.itemIx = (lo ++ above).length + up.length := by
  refine h.itemIx_eq fun hdown => ?_
  have hle := h.descends.shown_le
  rw [hdown, List.length_nil] at hle
  omega

theorem Passes.walked_itemLayouts :
    walked.itemLayouts = layoutsFrom w ((lo ++ above).length + up.length + skipped) shown := by
  rw [h.descends.itemLayouts, Passes.start_itemLayouts, List.nil_append]
  by_cases hshown : shown = 0
  · rw [hshown, layoutsFrom_zero, layoutsFrom_zero]
  · rw [h.itemIx_shown hshown]

/-- Those of the second loop are in front of them. -/
theorem Passes.filled_itemLayouts :
    filled.itemLayouts = layoutsFrom w (lo ++ above).length up.length ++ walked.itemLayouts := by
  rw [h.fills.itemLayouts, List.length_reverse]

theorem Passes.filled_sized (hitems : s.items.Valid True)
    (hloops : Loops w availableHeight padding s s' walked filled (lo ++ above).length) :
    filled.Sized (lo ++ above).length ∧
      (filled = { walked with renderedHeight := walked.renderedHeight + padding.bottom } ∨
        filled.scrollTop.itemIx = (lo ++ above).length) ∧
      (ScrollTopKnown filled.state → filled.Synced) := by
  have hstart : (Layout.start s padding).Sized (Layout.start s padding).scrollTop.itemIx := fun layout hlayout => by
    rw [Passes.start_itemLayouts] at hlayout
    exact absurd hlayout List.not_mem_nil
  have hnil : (Layout.start s padding).measuredItems.length = 0 := by
    rw [start_measuredItems]
    rfl
  have hwalked := hstart.walkBelow w availableHeight
    (s.items.toList.drop (Layout.start s padding).scrollTop.itemIx) (start_synced s padding) hnil
  rw [← hloops.walks] at hwalked
  obtain ⟨c, c', hbehind, hfill, hposition⟩ := hloops.fills
  have hsized : ({ walked with renderedHeight := walked.renderedHeight + padding.bottom } : Layout).Sized
      (s.items.toList.take (Layout.start s padding).scrollTop.itemIx).reverse.length := by
    intro layout hlayout
    have hlayout : layout ∈ walked.itemLayouts := hlayout
    by_cases hshown : shown = 0
    · rw [h.walked_itemLayouts, hshown, layoutsFrom_zero] at hlayout
      exact absurd hlayout List.not_mem_nil
    · rw [List.length_reverse, h.length_take, ← h.itemIx_shown hshown]
      exact hwalked.1 layout hlayout
  have hrounds : (s.items.toList.take (Layout.start s padding).scrollTop.itemIx).reverse.length < s.items.rounds := by
    have hrounds := hitems.length_lt_rounds
    rw [List.length_reverse, List.length_take]
    omega
  rw [← hposition]
  exact Layout.fillViewport_sized hitems (by rwa [List.reverse_reverse]) hrounds hfill hsized hwalked.2

theorem Passes.rendered (hsized : filled.Sized (lo ++ above).length) {first n ix : Nat}
    (hsub : layoutsFrom w first n ⊆ filled.itemLayouts) (hle : first ≤ ix) (hlt : ix < first + n) :
    s'.items.toList[ix]?.bind ListItem.size = some (w.renderItem ix) := by
  have hlayout : (⟨ix, w.renderItem ix⟩ : ItemLayout) ∈ filled.itemLayouts :=
    hsub (List.mem_map.mpr ⟨ix, List.mem_range'_1.mpr ⟨hle, hlt⟩, rfl⟩)
  obtain ⟨hfirst, hsize⟩ := hsized _ hlayout
  have hitem := h.measured hsize
  rwa [Nat.add_sub_cancel' hfirst] at hitem

theorem Passes.rendered_skipped (hloops : Loops w availableHeight padding s s' walked filled (lo ++ above).length)
    (hskipped : Layout.Skipped w availableHeight (s.items.toList.drop (Layout.start s padding).scrollTop.itemIx)
    (Layout.start s padding) walked shown) (hshown : shown ≠ 0) :
    s'.items.toList[(lo ++ above).length + up.length]?.bind ListItem.size =
      some (w.renderItem ((lo ++ above).length + up.length)) := by
  obtain ⟨item, hitem, offset, hhides, -⟩ := hskipped.hides
  obtain ⟨items, hdrop⟩ := List.head?_eq_some_iff.mp hitem
  have hsize := hhides.measured_eq (start_measuredItems s padding) items
  rw [← hdrop, ← hloops.walks] at hsize
  have hfirst : filled.measuredItems[up.length]?.bind ListItem.size
      = some (w.renderItem (Layout.start s padding).scrollTop.itemIx) := by
    rw [h.fills.measuredItems, List.getElem?_append_right h.fills.measures.length_eq.ge,
      h.fills.measures.length_eq, Nat.sub_self]
    exact hsize
  have hitem := h.measured hfirst
  rwa [h.itemIx_shown hshown] at hitem

end Passed

theorem Loops.scrollTop_known {n : Nat} (h : Loops w availableHeight padding s s' walked filled n)
    (hsynced : ScrollTopKnown filled.state → filled.Synced) (hknown : ScrollTopKnown s') : s'.getLogicalScrollTop = filled.scrollTop := by
  rw [ScrollTopKnown, h.logicalScrollTop, h.alignment] at hknown
  have hfilled : filled.state.getLogicalScrollTop = filled.scrollTop := hsynced hknown
  rw [← hfilled, StateInner.getLogicalScrollTop, StateInner.getLogicalScrollTop, h.logicalScrollTop, h.alignment]
  cases hlogical : filled.state.logicalScrollTop with
  | some scrollTop => rfl
  | none =>
    cases halignment : filled.state.alignment with
    | top => rfl
    | bottom => exact absurd ⟨hlogical, halignment⟩ hknown

theorem Passes.scrollTop_first (h : Passes w availableHeight padding s s' r walked filled lo above up down rest above'
    up' down' skipped shown trailing)
    (htop : filled = { walked with renderedHeight := walked.renderedHeight + padding.bottom } ∨
      filled.scrollTop.itemIx = (lo ++ above).length) (hne : up.length ≠ 0 ∨ shown ≠ 0) :
    r.scrollTop.itemIx = (lo ++ above).length := by
  rw [h.scrollTop]
  rcases htop with hsame | htop
  · have hup : up.length = 0 := by
      have hlength := congrArg List.length h.filled_itemLayouts
      rw [hsame, List.length_append] at hlength
      have hlength : walked.itemLayouts.length = _ := hlength
      rw [layoutsFrom, List.length_map, List.length_range'] at hlength
      omega
    rw [hsame]
    show walked.scrollTop.itemIx = _
    rw [h.descends.itemIx, h.itemIx_shown (hne.resolve_left (not_not.mpr hup)), hup, Nat.add_zero]
  · exact htop

end

/-- **A layout**, as far as it places items. -/
theorem layoutItems_drawn (hitems : s.items.Valid True) (hsizes : NonNegative w s.items.toList)
    (h : s.layoutItems w availableHeight padding = some (s', r)) : ∃ first up skipped shown trailing,
      Drawn w availableHeight padding s s' r first up skipped shown trailing := by
  obtain ⟨s₂, r₂, walked, filled, lo, above, up, down, rest, above', up', down', skipped, shown, trailing, hlayout,
    hpasses, hloops, hskipped⟩ := layoutItems_passes w availableHeight padding hitems hsizes
  obtain ⟨rfl, rfl⟩ := Prod.mk.inj (Option.some.inj (h.symm.trans hlayout))
  obtain ⟨hsized, htop, hsynced⟩ := hpasses.filled_sized hitems hloops
  have hlayouts := hpasses.filled_itemLayouts
  rw [hpasses.walked_itemLayouts] at hlayouts
  refine ⟨(lo ++ above).length, up.length, skipped, shown, trailing, hpasses.valid, ?_, hpasses.single, hpasses.focused,
    ?_, hpasses.scrollTop_first htop, ?_, ?_, hpasses.itemIx_shown, ?_⟩
  · rw [hpasses.itemLayouts, hlayouts]
  · intro ix hle hcases
    by_cases hup : ix < (lo ++ above).length + up.length
    · exact hpasses.rendered hsized (hlayouts ▸ List.subset_append_left _ _) hle hup
    · obtain ⟨hshown, hlt⟩ := hcases.resolve_left hup
      by_cases hskip : (lo ++ above).length + up.length + skipped ≤ ix
      · exact hpasses.rendered hsized (hlayouts ▸ List.subset_append_right _ _) hskip hlt
      · -- the item at the scroll top, which is skipped
        rcases hskipped with ⟨rfl, -⟩ | ⟨rfl, hskipped⟩
        · omega
        · obtain rfl : ix = (lo ++ above).length + up.length := by omega
          exact hpasses.rendered_skipped hloops hskipped hshown.ne'
  · intro hknown
    rw [hpasses.scrollTop]
    exact hloops.scrollTop_known hsynced hknown
  · rw [← hpasses.length_take, List.length_take]
    exact Nat.min_le_left _ _
  · rcases hskipped with ⟨hskipped, hhides⟩ | ⟨hskipped, hhides⟩
    · left
      refine ⟨hskipped, ?_⟩
      rintro ⟨item, offset, hitem, hhidden⟩
      exact hhides item offset hitem hhidden
    · obtain ⟨item, hitem, offset, hhidden, -⟩ := hhides.hides
      rw [List.head?_drop] at hitem
      exact Or.inr ⟨hskipped, item, offset, hitem, hhidden⟩

/-! ### What is told of the layouts -/

theorem tells_iff (hitems : s'.items.Valid True) (layout : ItemLayout) (y : Pixels) :
    Tells (s'.prepainted bounds padding) (layout, y) ↔ s'.getLogicalScrollTop.itemIx ≤ layout.index ∧
      (s'.items.toList[layout.index]?.bind ListItem.size).map Size.height = some layout.size.height ∧
      bounds.origin.y + extent s'.items.toList layout.index - scrollPosition s'.items.toList s'.getLogicalScrollTop = y := by
  have hbounds : boundsForItem (s'.prepainted bounds padding) layout.index =
      some (if layout.index < s'.getLogicalScrollTop.itemIx then none
        else (s'.items.toList[layout.index]?.bind ListItem.size).map fun size =>
          let top := bounds.origin.y + extent s'.items.toList layout.index
            - scrollPosition s'.items.toList s'.getLogicalScrollTop
          .fromCorners ⟨bounds.origin.x, top⟩ ⟨bounds.bottomRight.x, top + size.height⟩) :=
    boundsForItem_eq (s := s'.prepainted bounds padding) hitems layout.index
  rw [Tells, hbounds]
  by_cases hbelow : layout.index < s'.getLogicalScrollTop.itemIx
  · rw [if_pos hbelow]
    exact iff_of_false (by simp) fun h => absurd h.1 (not_le.mpr hbelow)
  · rw [if_neg hbelow]
    cases s'.items.toList[layout.index]?.bind ListItem.size with
    | none => exact iff_of_false (by simp) fun h => absurd h.2.1 (by simp)
    | some size =>
      simp only [Option.map_some, Option.some.injEq, exists_eq_left']
      have hheight : (Bounds.fromCorners ⟨bounds.origin.x, bounds.origin.y + extent s'.items.toList layout.index -
          scrollPosition s'.items.toList s'.getLogicalScrollTop⟩ ⟨bounds.bottomRight.x, bounds.origin.y +
          extent s'.items.toList layout.index - scrollPosition s'.items.toList s'.getLogicalScrollTop + size.height⟩ :
          Bounds Pixels).size.height = size.height := add_sub_cancel_left _ _
      constructor
      · rintro ⟨hy, hsize⟩
        exact ⟨not_lt.mp hbelow, hheight ▸ hsize, hy⟩
      · rintro ⟨-, hsize, hy⟩
        exact ⟨hy, hheight.trans hsize⟩

theorem not_tells_of_unknown (hitems : s'.items.Valid True) (hunknown : ¬ScrollTopKnown s') (layout : ItemLayout)
    (y : Pixels) : ¬Tells (s'.prepainted bounds padding) (layout, y) := by
  rw [tells_iff hitems]
  rintro ⟨hle, hheight, -⟩
  obtain ⟨hlogical, halignment⟩ := not_not.mp hunknown
  have htop : s'.getLogicalScrollTop.itemIx = s'.items.toList.length := by
    rw [StateInner.getLogicalScrollTop, hlogical, halignment, Option.getD_none, ← summary_count hitems]
  rw [htop] at hle
  rw [List.getElem?_eq_none hle] at hheight
  exact absurd hheight (by simp)

theorem renderedHeights_add (first m n : Nat) :
    renderedHeights w first (m + n) = renderedHeights w first m + renderedHeights w (first + m) n := by
  induction n with
  | zero =>
    rw [Nat.add_zero, renderedHeights, renderedHeights]
    simp
  | succ n ih => rw [← Nat.add_assoc, renderedHeights_concat, renderedHeights_concat, ih, add_assoc, Nat.add_assoc first]

namespace Drawn

variable {first up skipped shown : Nat} {trailing : List ItemLayout}

section Told

variable (h : Drawn w availableHeight padding s s' r first up skipped shown trailing)
include h

theorem tells_rendered (hknown : ScrollTopKnown s') (hne : up ≠ 0 ∨ shown ≠ 0) {n : Nat} {y : Pixels}
    (hmeasured : ∀ j ≤ n, s'.items.toList[first + j]?.bind ListItem.size = some (w.renderItem (first + j))) :
    Tells (s'.prepainted bounds padding) (⟨first + n, w.renderItem (first + n)⟩,
        bounds.origin.y + padding.top - r.scrollTop.offsetInItem + y) ↔
      padding.top + y = renderedHeights w first n := by
  have htop := h.known hknown
  rw [tells_iff h.valid, htop, h.top hne, scrollPosition, h.top hne,
    extent_rendered fun j hj => hmeasured j hj.le, hmeasured n le_rfl, Option.map_some]
  constructor
  · rintro ⟨-, -, hy⟩
    linarith
  · intro hpadding
    refine ⟨Nat.le_add_right _ _, rfl, ?_⟩
    linarith

theorem tells_up
    (hknown : ScrollTopKnown s') :
    (∀ placed ∈ placements (bounds.origin.y + padding.top - r.scrollTop.offsetInItem)
        (layoutsFrom w first up), Tells (s'.prepainted bounds padding) placed) ↔
      ∀ layout ∈ layoutsFrom w first up, PaddingFits w availableHeight padding s layout.index := by
  have htells : ∀ n < up, Tells (s'.prepainted bounds padding) (⟨first + n, w.renderItem (first + n)⟩,
      bounds.origin.y + padding.top - r.scrollTop.offsetInItem + renderedHeights w first n) ↔
        PaddingFits w availableHeight padding s (first + n) := by
    intro n hn
    have hbefore := h.before
    have hnot : ¬(SkipsTop w availableHeight padding s ∧ (Layout.start s padding).scrollTop.itemIx < first + n) :=
      fun hskips => by omega
    rw [h.tells_rendered hknown (Or.inl (by omega)) fun j hj =>
      h.measured _ (Nat.le_add_right _ _) (Or.inl (by omega))]
    rw [add_eq_right, PaddingFits]
    exact ⟨fun hpadding => ⟨fun hskips => absurd hskips hnot, fun _ => hpadding⟩, fun hfits => hfits.2 hnot⟩
  rw [forall_placements_layoutsFrom, forall_layoutsFrom]
  exact forall₂_congr htells

theorem tells_down
    (hknown : ScrollTopKnown s') :
    (∀ placed ∈ placements (bounds.origin.y + padding.top - r.scrollTop.offsetInItem +
        layoutHeights (layoutsFrom w first up)) (layoutsFrom w (first + up + skipped) shown),
          Tells (s'.prepainted bounds padding) placed) ↔
      ∀ layout ∈ layoutsFrom w (first + up + skipped) shown, PaddingFits w availableHeight padding s layout.index := by
  have htells : ∀ n < shown, Tells (s'.prepainted bounds padding)
      (⟨first + up + skipped + n, w.renderItem (first + up + skipped + n)⟩,
        bounds.origin.y + padding.top - r.scrollTop.offsetInItem + layoutHeights (layoutsFrom w first up) +
          renderedHeights w (first + up + skipped) n) ↔
        PaddingFits w availableHeight padding s (first + up + skipped + n) := by
    intro n hn
    have hindex : first + up + skipped + n = first + (up + skipped + n) := by omega
    have hheights : renderedHeights w first (up + skipped + n) = renderedHeights w first up +
        renderedHeights w (first + up) skipped + renderedHeights w (first + up + skipped) n := by
      rw [renderedHeights_add, renderedHeights_add, Nat.add_assoc]
    rw [layoutHeights_layoutsFrom, hindex, add_assoc _ (renderedHeights w first up),
      h.tells_rendered hknown (Or.inr (by omega)) fun j hj =>
        h.measured _ (Nat.le_add_right _ _) (Or.inr ⟨by omega, by omega⟩), hheights, PaddingFits, h.itemIx (by omega)]
    rcases h.skips with ⟨rfl, hskips⟩ | ⟨rfl, hskips⟩
    · have hnone : renderedHeights w (first + up) 0 = 0 := rfl
      rw [hnone]
      constructor
      · intro hpadding
        exact ⟨fun hskipped => absurd hskipped.1 hskips, fun _ => by linarith⟩
      · intro hfits
        have hpadding := hfits.2 fun hskipped => hskips hskipped.1
        linarith
    · have hone : renderedHeights w (first + up) 1 = (w.renderItem (first + up)).height := by
        rw [renderedHeights_succ]
        exact add_zero _
      rw [hone]
      constructor
      · intro hpadding
        exact ⟨fun _ => by linarith, fun hnot => absurd ⟨hskips, by omega⟩ hnot⟩
      · intro hfits
        have hpadding := hfits.1 ⟨hskips, by omega⟩
        linarith
  rw [forall_placements_layoutsFrom, forall_layoutsFrom]
  exact forall₂_congr htells

theorem tells_trailing (hknown : ScrollTopKnown s') (visible : List ItemLayout) :
    (∀ placed ∈ placements (bounds.origin.y + padding.top - r.scrollTop.offsetInItem + layoutHeights visible) trailing,
        Tells (s'.prepainted bounds padding) placed) ↔
      ∀ layout ∈ trailing, InLine s' padding visible layout := by
  have hone : ∀ layout, Tells (s'.prepainted bounds padding)
      (layout, bounds.origin.y + padding.top - r.scrollTop.offsetInItem + layoutHeights visible) ↔
        InLine s' padding visible layout := by
    intro layout
    rw [tells_iff h.valid, scrollPosition, h.known hknown]
    constructor
    · rintro ⟨hle, hheight, hy⟩
      refine ⟨by rwa [h.known hknown], hheight, ?_⟩
      rw [h.known hknown]
      linarith
    · rintro ⟨hle, hheight, hbetween⟩
      rw [h.known hknown] at hle hbetween
      refine ⟨hle, hheight, ?_⟩
      linarith
  have hsingle := h.single
  cases trailing with
  | nil => simp [placements]
  | cons layout rest =>
    rw [List.length_cons] at hsingle
    obtain rfl := List.length_eq_zero_iff.mp (by omega : rest.length = 0)
    rw [placements, placements, List.forall_mem_singleton, List.forall_mem_singleton]
    exact hone layout

/-- **The bounds tell where a layout is placed**, for all layouts, if and only if nothing is placed, or the scroll top is
known, the padding is right for the visible items and the trailing one is in line with them. -/
theorem tells_all_iff :
    (∀ placed ∈ placements (bounds.origin.y + padding.top - r.scrollTop.offsetInItem) r.itemLayouts,
        Tells (s'.prepainted bounds padding) placed) ↔
      r.itemLayouts = [] ∨ ScrollTopKnown s' ∧
        (∀ layout ∈ layoutsFrom w first up ++ layoutsFrom w (first + up + skipped) shown,
          PaddingFits w availableHeight padding s layout.index) ∧
        ∀ layout ∈ trailing, InLine s' padding
          (layoutsFrom w first up ++ layoutsFrom w (first + up + skipped) shown) layout := by
  by_cases hknown : ScrollTopKnown s'
  · have hall : (∀ placed ∈ placements (bounds.origin.y + padding.top - r.scrollTop.offsetInItem) r.itemLayouts,
        Tells (s'.prepainted bounds padding) placed) ↔
          (∀ layout ∈ layoutsFrom w first up ++ layoutsFrom w (first + up + skipped) shown,
            PaddingFits w availableHeight padding s layout.index) ∧
          ∀ layout ∈ trailing, InLine s' padding
            (layoutsFrom w first up ++ layoutsFrom w (first + up + skipped) shown) layout := by
      rw [h.itemLayouts, placements_append, placements_append, List.forall_mem_append, List.forall_mem_append,
        List.forall_mem_append, h.tells_up hknown, h.tells_down hknown, h.tells_trailing hknown]
    constructor
    · intro htells
      exact Or.inr ⟨hknown, hall.mp htells⟩
    · rintro (hnil | ⟨-, hright⟩)
      · rw [hnil]
        intro placed hplaced
        exact absurd hplaced List.not_mem_nil
      · exact hall.mpr hright
  · constructor
    · intro htells
      left
      cases hlayouts : r.itemLayouts with
      | nil => rfl
      | cons layout rest =>
        rw [hlayouts] at htells
        exact absurd (htells _ List.mem_cons_self) (not_tells_of_unknown h.valid hknown layout _)
    · rintro (hnil | ⟨hright, -⟩)
      · rw [hnil]
        intro placed hplaced
        exact absurd hplaced List.not_mem_nil
      · exact absurd hright hknown

end Told

end Drawn

/-! ### The prepaint of the items -/

/-- Measuring all items gives a valid tree again. -/
theorem beforeLayout_spec (hitems : s.items.Valid True) (hsizes : NonNegative w s.items.toList)
    (h : s.beforeLayout w = some s₀) : s₀.items.Valid True ∧ NonNegative w s₀.items.toList := by
  rw [StateInner.beforeLayout] at h
  split at h
  · rename_i hmeasure
    have hmeasured : ∀ item ∈ s.items.toList.mapIdx fun ix item =>
        ListItem.measured (item.size.getD (w.renderItem ix)) item.focusHandle,
        ∀ size, item.size = some size → 0 ≤ size.height := by
      intro item hitem size hsize
      obtain ⟨ix, hix, rfl⟩ := List.mem_mapIdx.mp hitem
      obtain rfl := Option.some.inj hsize
      exact hsizes.getD (List.getElem_mem hix) ix
    obtain ⟨tree, hfrom, hvalid, hlist⟩ := fromIter_spec (P := True) (fun _ => inferInstance)
      (s.items.toList.mapIdx fun ix item => ListItem.measured (item.size.getD (w.renderItem ix)) item.focusHandle)
    rw [StateInner.layoutAllItems, hmeasure] at h
    simp only [iterItems_eq hitems, hfrom, Option.bind_eq_bind, Option.bind_some, Option.some.injEq] at h
    obtain rfl := h
    exact ⟨hvalid, hsizes.rendered, hlist ▸ hmeasured⟩
  · obtain rfl := Option.some.inj h
    exact ⟨hitems, hsizes⟩

/-- **The bounds of an item tell where it was drawn**, for all items that are placed, if and only if there are none, or
the scroll top is known, the padding fits the visible items and the trailing item is in line with them. -/
theorem prepaintItems_tells_iff {autoscroll : Bool} (hitems : s.items.Valid True) (hsizes : NonNegative w s.items.toList)
    (h : s.prepaintItems w bounds padding autoscroll = some (s', .ok r)) : ∃ s₀ visible trailing,
      s.beforeLayout w = some s₀ ∧ r.itemLayouts = visible ++ trailing ∧ trailing.length ≤ 1 ∧
      (∀ layout ∈ trailing, Layout.FocusedAt w s'.items.toList layout.index) ∧
      ((∀ placed ∈ placements (bounds.origin.y + padding.top - r.scrollTop.offsetInItem) r.itemLayouts,
          Tells (s'.prepainted bounds padding) placed) ↔
        r.itemLayouts = [] ∨ ScrollTopKnown s' ∧
          (∀ layout ∈ visible, PaddingFits w bounds.size.height padding s₀ layout.index) ∧
          ∀ layout ∈ trailing, InLine s' padding visible layout) := by
  obtain ⟨s₀, response, hbefore, hlayout, hresult⟩ := prepaintItems_cases h
  obtain ⟨hvalid, hnonnegative⟩ := beforeLayout_spec hitems hsizes hbefore
  obtain ⟨first, up, skipped, shown, trailing, hdrawn⟩ := layoutItems_drawn hvalid hnonnegative hlayout
  rcases hresult with hresult | hresult | ⟨offset, hresult⟩
  · obtain rfl := Except.ok.inj hresult
    exact ⟨s₀, _, trailing, hbefore, hdrawn.itemLayouts, hdrawn.single, hdrawn.focused, hdrawn.tells_all_iff⟩
  · -- there is no room for items
    obtain rfl := Except.ok.inj hresult
    refine ⟨s₀, [], [], hbefore, rfl, Nat.zero_le 1, fun layout hlayout => absurd hlayout List.not_mem_nil, ?_⟩
    exact iff_of_true (fun placed hplaced => absurd hplaced List.not_mem_nil) (Or.inl rfl)
  · exact absurd hresult (by simp)

theorem prepaintItems_tells_iff_new : ∃ s, ListState.new 3 .top (200 : Pixels) = some s ∧
    ∃ s' r, s.prepaintItems squares ⟨⟨0, 0⟩, ⟨100, 100⟩⟩ .default true = some (s', .ok r) ∧
      ∃ s₀ visible trailing, s.beforeLayout squares = some s₀ ∧ r.itemLayouts = visible ++ trailing ∧
        trailing.length ≤ 1 ∧
        (∀ layout ∈ trailing, Layout.FocusedAt squares s'.items.toList layout.index) ∧
        ((∀ placed ∈ placements (0 + 0 - r.scrollTop.offsetInItem) r.itemLayouts,
            Tells (s'.prepainted ⟨⟨0, 0⟩, ⟨100, 100⟩⟩ .default) placed) ↔
          r.itemLayouts = [] ∨ ScrollTopKnown s' ∧
            (∀ layout ∈ visible, PaddingFits squares 100 .default s₀ layout.index) ∧
            ∀ layout ∈ trailing, InLine s' .default visible layout) := by
  obtain ⟨s, hnew⟩ := Option.isSome_iff_exists.mp (by decide +kernel : (ListState.new 3 .top (200 : Pixels)).isSome)
  have hitems : ((ListState.new 3 .top (200 : Pixels)).map fun s => s.items.toList.all fun item => item.size = none)
      = some true := by decide +kernel
  have hprepaint : (((ListState.new 3 .top (200 : Pixels)).bind fun s =>
      s.prepaintItems squares ⟨⟨0, 0⟩, ⟨100, 100⟩⟩ .default true).map fun result => result.2.toOption.isSome)
      = some true := by decide +kernel
  rw [hnew] at hitems hprepaint
  obtain ⟨⟨s', result⟩, hprepaint, hok⟩ := Option.map_eq_some_iff.mp hprepaint
  cases result with
  | error offset => cases hok
  | ok r =>
    have hsizes : NonNegative squares s.items.toList := nonNegative_squares fun item hitem =>
      of_decide_eq_true (List.all_eq_true.mp (Option.some.inj hitems) item hitem)
    have htells := prepaintItems_tells_iff ((tracks_new hnew).reachable.valid fun _ => inferInstance) hsizes hprepaint
    exact ⟨s, hnew, s', r, hprepaint, htells⟩

/-- Below a padding the first item is drawn, and told to be where the padding begins. -/
theorem not_prepaintItems_tells : ¬ ∀ itemCount overdraw s padding s' r, ListState.new itemCount .top overdraw = some s →
    s.prepaintItems squares ⟨⟨0, 0⟩, ⟨100, 100⟩⟩ padding true = some (s', .ok r) →
    ∀ placed ∈ placements (0 + padding.top - r.scrollTop.offsetInItem) r.itemLayouts,
      Tells (s'.prepainted ⟨⟨0, 0⟩, ⟨100, 100⟩⟩ padding) placed := by
  intro h
  have hdrawn : (((ListState.new 1 .top (200 : Pixels)).bind fun s =>
      s.prepaintItems squares ⟨⟨0, 0⟩, ⟨100, 100⟩⟩ ⟨10, 0, 0, 0⟩ true).map fun result =>
        (result.2.toOption.map fun r => placements (0 + 10 - r.scrollTop.offsetInItem) r.itemLayouts,
          boundsForItem (result.1.prepainted ⟨⟨0, 0⟩, ⟨100, 100⟩⟩ ⟨10, 0, 0, 0⟩) 0))
      = some (some [(⟨0, 10, 10⟩, 10)], some (some ⟨⟨0, 0⟩, ⟨100, 10⟩⟩)) := by
    decide +kernel
  obtain ⟨⟨s', result⟩, hprepaint, heq⟩ := Option.map_eq_some_iff.mp hdrawn
  obtain ⟨s, hnew, hprepaint⟩ := Option.bind_eq_some_iff.mp hprepaint
  obtain ⟨hplaced, htold⟩ := Prod.mk.inj heq
  cases result with
  | error offset => cases hplaced
  | ok r =>
    have hfirst : (⟨0, 10, 10⟩, 10) ∈ placements (0 + 10 - r.scrollTop.offsetInItem) r.itemLayouts := by
      rw [show placements (0 + 10 - r.scrollTop.offsetInItem) r.itemLayouts = _ from Option.some.inj hplaced]
      exact List.mem_singleton_self _
    obtain ⟨b, hb, hy, -⟩ := h 1 200 s ⟨10, 0, 0, 0⟩ s' r hnew hprepaint (⟨0, 10, 10⟩, 10) hfirst
    rw [htold] at hb
    obtain rfl := Option.some.inj (Option.some.inj hb)
    exact absurd hy (by decide +kernel)

/-- A prepaint ends with a call of `prepaint_items` that lays the items out, and remembers its bounds and padding. -/
theorem prepaint_prepaintItems (h : s.prepaint w bounds padding = some (s', r)) :
    ∃ (s₁ s₂ : StateInner) (autoscroll : Bool), s₁.prepaintItems w bounds padding autoscroll = some (s₂, Except.ok r) ∧
      s' = s₂.prepainted bounds padding := by
  rw [StateInner.prepaint] at h
  obtain ⟨s₁, -, h⟩ := Option.bind_eq_some_iff.mp h
  obtain ⟨⟨s₂, result⟩, hitems, h⟩ := Option.bind_eq_some_iff.mp h
  cases result with
  | ok layout =>
    cases h
    exact ⟨s₁, s₂, true, hitems, rfl⟩
  | error offset =>
    obtain ⟨⟨s₃, result⟩, hsecond, h⟩ := Option.bind_eq_some_iff.mp h
    cases result with
    | ok layout =>
      cases h
      exact ⟨_, s₃, false, hsecond, rfl⟩
    | error offset => cases h

end FcGpui.Elements
