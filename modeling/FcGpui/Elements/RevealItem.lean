import FcGpui.Elements.UnroundedHeights

/-!
# Scrolling to reveal an item

`scroll_to_reveal_item` of `crates/gpui/src/elements/list.rs` goes to the top of the item, or
to the height at which the item ends above the bottom padding, or nowhere, as the indices
compare.  In each case the item is in the viewport if the viewport is high enough for it and
none of the sums and differences is rounded (`scrollToRevealItem_reveals`).  A sum that is
rounded may leave the item below the viewport (`not_scrollToRevealItem_reveals`).
-/

namespace FcGpui.Elements

open SumTree ExactFloats

namespace StateInner

variable {P : Type} [Zero P]

def viewportHeight (s : StateInner P) : P := s.lastLayoutBounds.elim 0 fun bounds => bounds.size.height

def padding (s : StateInner P) : Edges P := s.lastPadding.getD .default

end StateInner

variable {l : List ListItem} {ix : Nat} {item : ListItem} {scrollTop : ListOffset} {height : Pixels}

/-- The offset of a scroll top is one within its item. -/
structure WithinItem (items : List ListItem) (scrollTop : ListOffset) : Prop where
  nonneg : 0 ≤ scrollTop.offsetInItem
  le_height : ∀ item, items[scrollTop.itemIx]? = some item → scrollTop.offsetInItem ≤ item.knownHeight

/-- The item with the index lies in a viewport of the height, at the scroll position. -/
structure InViewport (items : List ListItem) (padding : Edges) (height position : Pixels) (ix : Nat) : Prop where
  top : 0 ≤ padding.top + extent items ix - position
  bottom : padding.top + extent items (ix + 1) - position ≤ height

/-- The viewport has room for the item between the paddings. -/
structure Fits (padding : Edges) (height itemHeight : Pixels) : Prop where
  top : 0 ≤ padding.top
  bottom : 0 ≤ padding.bottom
  room : padding.top + itemHeight + padding.bottom ≤ height

/-! ### The three cases -/

theorem inViewport_top {padding : Edges} (hitem : l[ix]? = some item) (hfits : Fits padding height item.knownHeight) :
    InViewport l padding height (scrollPosition l ⟨ix, 0⟩) ix := by
  have hroom := hfits.room
  have hbottom := hfits.bottom
  constructor
  · rw [scrollPosition, add_zero, add_sub_cancel_right]
    exact hfits.top
  · rw [scrollPosition, extent_succ hitem]
    linarith

/-- The scroll position at which an item ends above the bottom padding. -/
def goalTop (l : List ListItem) (padding : Edges) (height : Pixels) (ix : Nat) : Pixels :=
  max 0 (extent l (ix + 1) + padding.top - height + padding.bottom)

theorem inViewport_goalTop {padding : Edges} (hupright : Upright l) (hitem : l[ix]? = some item)
    (hfits : Fits padding height item.knownHeight) :
    InViewport l padding height (goalTop l padding height ix) ix := by
  have htop := hfits.top
  have hbottom := hfits.bottom
  have hroom := hfits.room
  have hextent := extent_nonneg hupright ix
  have hsucc := extent_succ hitem
  have hle := le_max_right 0 (extent l (ix + 1) + padding.top - height + padding.bottom)
  constructor
  · rw [sub_nonneg]
    refine max_le (add_nonneg htop hextent) ?_
    rw [hsucc]
    linarith
  · rw [goalTop]
    linarith

theorem inViewport_stays {padding : Edges} (hupright : Upright l) (hitem : l[ix]? = some item)
    (hfits : Fits padding height item.knownHeight) (hwithin : WithinItem l scrollTop) (hix : scrollTop.itemIx < ix)
    {stop : Nat} (hstops : StopsAtHeight l (goalTop l padding height ix) 0 stop) (hstop : stop < scrollTop.itemIx) :
    InViewport l padding height (scrollPosition l scrollTop) ix := by
  obtain ⟨hlt, -⟩ := List.getElem?_eq_some_iff.mp hitem
  obtain ⟨current, hcurrent⟩ : ∃ current, l[scrollTop.itemIx]? = some current :=
    ⟨l[scrollTop.itemIx], List.getElem?_eq_getElem (hix.trans hlt)⟩
  have htop := hfits.top
  have hbottom := hfits.bottom
  have hwithinItem := hwithin.le_height current hcurrent
  have hnonneg := hwithin.nonneg
  constructor
  · have hbelow : extent l (scrollTop.itemIx + 1) ≤ extent l ix := extent_mono hupright hix
    rw [extent_succ hcurrent] at hbelow
    rw [scrollPosition]
    linarith
  · have hgoal : goalTop l padding height ix ≤ extent l scrollTop.itemIx := by
      rcases hstops.below with hall | hbelow
      · omega
      · exact hbelow.trans (extent_mono hupright hstop)
    have hle := (le_max_right 0 (extent l (ix + 1) + padding.top - height + padding.bottom)).trans hgoal
    rw [scrollPosition]
    linarith

/-! ### The method -/

/-- Neither the heights of the list are rounded nor what the method makes of them. -/
structure UnroundedReveal (s : StateInner FloatPixels) (ix : Nat) : Prop where
  heights : Unrounded s.items.toList
  viewport : s.viewportHeight.IsNumber
  paddingTop : s.padding.top.IsNumber
  paddingBottom : s.padding.bottom.IsNumber
  offset : s.getLogicalScrollTop.offsetInItem.IsNumber
  position : Representable (scrollPosition (exactItems s.items.toList) s.getLogicalScrollTop.exact)
  bottom : Representable (extent (exactItems s.items.toList) (ix + 1) + s.padding.exact.top)
  above : Representable
    (extent (exactItems s.items.toList) (ix + 1) + s.padding.exact.top - s.viewportHeight.exact)
  goal : Representable (extent (exactItems s.items.toList) (ix + 1) + s.padding.exact.top - s.viewportHeight.exact
    + s.padding.exact.bottom)
  newOffset : ∀ stop,
    StopsAtHeight (exactItems s.items.toList)
      (goalTop (exactItems s.items.toList) s.padding.exact s.viewportHeight.exact ix) 0 stop →
    Representable (goalTop (exactItems s.items.toList) s.padding.exact s.viewportHeight.exact ix
      - extent (exactItems s.items.toList) stop)

variable {s : StateInner FloatPixels}

/-- The scroll position of a scroll top, if the method has it right. -/
structure Positions (items : List (ListItem FloatPixels)) (scrollTop : ListOffset FloatPixels) (position : ℚ) :
    Prop where
  offset : scrollTop.offsetInItem.IsNumber
  eq : scrollPosition (exactItems items) scrollTop.exact = position
  representable : Representable position

theorem revealing_spec (hitems : s.items.Valid True) (hunrounded : UnroundedReveal s ix)
    (hupright : Upright (exactItems s.items.toList))
    (hwithin : WithinItem (exactItems s.items.toList) s.getLogicalScrollTop.exact)
    (hitem : (exactItems s.items.toList)[ix]? = some item)
    (hfits : Fits s.padding.exact s.viewportHeight.exact item.knownHeight) :
    ∃ scrollTop position, ListState.revealing s ix = some scrollTop ∧ Positions s.items.toList scrollTop position ∧
      InViewport (exactItems s.items.toList) s.padding.exact s.viewportHeight.exact position ix := by
  have hzero := FloatPixels.isExactly_zero
  by_cases hle : ix ≤ s.getLogicalScrollTop.itemIx
  · refine ⟨⟨ix, 0⟩, scrollPosition (exactItems s.items.toList) ⟨ix, 0⟩, ?_, ⟨FloatPixels.isNumber_zero, ?_, ?_⟩,
      inViewport_top hitem hfits⟩
    · rw [ListState.revealing, if_pos hle]
    · rw [ListOffset.exact, FloatPixels.exact_zero]
    · rw [scrollPosition, add_zero]
      exact hunrounded.heights.extent ix
  · obtain ⟨found, c, hseek, hstands, hknows⟩ := seekCount_knows hitems (c := Cursor.new s.items) rfl (ix + 1)
    have hbottom := FloatPixels.isExactly_add (hknows.isExactly_extent hunrounded.heights) hunrounded.paddingTop
      hunrounded.bottom
    have habove := FloatPixels.isExactly_sub hbottom hunrounded.viewport hunrounded.above
    have hgoal := FloatPixels.isExactly_max hzero
      (FloatPixels.isExactly_add habove hunrounded.paddingBottom hunrounded.goal)
    obtain ⟨found', c', stop, hseek', hcount, hheight, hstops⟩ :=
      seekHeight_stops hitems hunrounded.heights hstands.tree hgoal (le_max_left _ _)
    set top := max 0 (c.position.height + s.padding.top - s.viewportHeight + s.padding.bottom) with htop
    have hoffset : IsExactly (top - c'.position.height).value _ :=
      hgoal.sub hheight.number (hunrounded.newOffset stop hstops)
    have hrevealing : ListState.revealing s ix = some (if s.getLogicalScrollTop.itemIx ≤ stop then
        ⟨stop, top - c'.position.height⟩ else s.getLogicalScrollTop) := by
      rw [htop, StateInner.padding, StateInner.viewportHeight] at hseek'
      rw [ListState.revealing, if_neg hle]
      simp only [Option.bind_eq_bind, Option.bind_some, hseek, hseek', StateInner.offsetAt, hcount]
      rfl
    by_cases hstop : s.getLogicalScrollTop.itemIx ≤ stop
    · rw [if_pos hstop] at hrevealing
      refine ⟨_, goalTop (exactItems s.items.toList) s.padding.exact s.viewportHeight.exact ix, hrevealing,
        ⟨FloatPixels.isNumber_of_isExactly hoffset, ?_, ?_⟩, inViewport_goalTop hupright hitem hfits⟩
      · show extent _ stop + (top - c'.position.height).exact = _
        rw [FloatPixels.exact_eq hoffset]
        exact add_sub_cancel _ _
      · rcases max_choice 0 (extent (exactItems s.items.toList) (ix + 1) + s.padding.exact.top - s.viewportHeight.exact
          + s.padding.exact.bottom) with hmax | hmax
        · rw [goalTop, hmax]
          exact_mod_cast representable_nat (n := 0) (by norm_num)
        · rw [goalTop, hmax]
          exact hunrounded.goal
    · rw [if_neg hstop] at hrevealing
      exact ⟨_, _, hrevealing, ⟨hunrounded.offset, rfl, hunrounded.position⟩,
        inViewport_stays hupright hitem hfits hwithin (not_le.mp hle) hstops (not_le.mp hstop)⟩

/-- **`scroll_to_reveal_item` reveals** every item that the viewport has room for, where nothing is rounded. -/
theorem scrollToRevealItem_reveals (hitems : s.items.Valid True) (hunrounded : UnroundedReveal s ix)
    (hupright : Upright (exactItems s.items.toList))
    (hwithin : WithinItem (exactItems s.items.toList) s.getLogicalScrollTop.exact)
    (hitem : (exactItems s.items.toList)[ix]? = some item)
    (hfits : Fits s.padding.exact s.viewportHeight.exact item.knownHeight) :
    ∃ s' position, ListState.scrollToRevealItem s ix = some s' ∧ s'.scrollTop s'.getLogicalScrollTop = some position ∧
      InViewport (exactItems s.items.toList) s.padding.exact s.viewportHeight.exact position.exact ix := by
  obtain ⟨scrollTop, _, hrevealing, ⟨hoffset, rfl, hrepresentable⟩, hview⟩ :=
    revealing_spec hitems hunrounded hupright hwithin hitem hfits
  obtain ⟨pending, hmoved⟩ := moveTo_spec hitems scrollTop
  obtain ⟨position, hposition, hexact⟩ :=
    scrollTop_isExactly (s := { s with pendingScroll := pending, logicalScrollTop := some scrollTop }) hitems
      hunrounded.heights hoffset hrepresentable
  refine ⟨{ s with pendingScroll := pending, logicalScrollTop := some scrollTop }, position, ?_, hposition, ?_⟩
  · rw [ListState.scrollToRevealItem, hrevealing, Option.bind_some, hmoved]
  · rw [FloatPixels.exact_eq hexact]
    exact hview

/-- Three items of one height, in a viewport that is not high enough for two. -/
def threeItems : StateInner FloatPixels :=
  ⟨some ⟨⟨0, 0⟩, ⟨⟨100⟩, ⟨30⟩⟩⟩, some ⟨⟨2⟩, 0, ⟨2⟩, 0⟩,
    (SumTree.new.extend (List.replicate 3 row)).get (by decide +kernel),
    none, .top, 0, false, none, .visible, none, .normal⟩

theorem valid_threeItems : threeItems.items.Valid True :=
  Or.inr (.leaf (by decide +kernel) (by decide +kernel) rfl fun _ => rfl)

theorem toList_threeItems : threeItems.items.toList = List.replicate 3 row := rfl

theorem exact_threeItems : threeItems.padding.exact = ⟨2, 0, 2, 0⟩ ∧ threeItems.viewportHeight.exact = 30 ∧
    threeItems.getLogicalScrollTop.exact = ⟨0, 0⟩ := by decide +kernel

theorem unrounded_threeItems : UnroundedReveal threeItems 1 := by
  obtain ⟨hpadding, hviewport, hscrollTop⟩ := exact_threeItems
  have hextent : ∀ n, extent (exactItems (List.replicate 3 row)) n = (min n 3 * 20 : ℕ) := extent_replicate exact_row 3
  have hgoal : goalTop (exactItems (List.replicate 3 row)) ⟨2, 0, 2, 0⟩ 30 1 = 14 := by
    rw [goalTop, hextent]
    norm_num
  constructor
  case heights =>
    rw [toList_threeItems]
    exact unrounded_replicate isNumber_row exact_row (by norm_num)
  case viewport => decide +kernel
  case paddingTop => decide +kernel
  case paddingBottom => decide +kernel
  case offset => decide +kernel
  case position =>
    rw [toList_threeItems, hscrollTop, scrollPosition, extent_zero, add_zero]
    exact_mod_cast representable_nat (n := 0) (by norm_num)
  case bottom =>
    rw [toList_threeItems, hpadding, hextent]
    convert representable_nat (n := 42) (by norm_num) using 1
    norm_num
  case above =>
    rw [toList_threeItems, hpadding, hviewport, hextent]
    convert representable_nat (n := 12) (by norm_num) using 1
    norm_num
  case goal =>
    rw [toList_threeItems, hpadding, hviewport, hextent]
    convert representable_nat (n := 14) (by norm_num) using 1
    norm_num
  case newOffset =>
    rw [toList_threeItems, hpadding, hviewport, hgoal]
    intro stop _
    rw [hextent]
    exact_mod_cast representable_int (n := 14 - (min stop 3 * 20 : ℕ)) (by rw [abs_lt]; omega)

theorem scrollToRevealItem_reveals_threeItems : ∃ s' position,
    ListState.scrollToRevealItem threeItems 1 = some s' ∧ s'.scrollTop s'.getLogicalScrollTop = some position ∧
      InViewport (exactItems threeItems.items.toList) threeItems.padding.exact threeItems.viewportHeight.exact
        position.exact 1 := by
  obtain ⟨hpadding, hviewport, hscrollTop⟩ := exact_threeItems
  have hheight : row.exact.knownHeight = 20 := by
    rw [ListItem.knownHeight_exact, exact_row]
    norm_num
  refine scrollToRevealItem_reveals valid_threeItems unrounded_threeItems ?_ ?_
    (rfl : (exactItems threeItems.items.toList)[1]? = some row.exact) ?_
  · rw [toList_threeItems]
    exact upright_replicate exact_row 3
  · rw [hscrollTop]
    refine ⟨le_rfl, fun item hitem => ?_⟩
    obtain rfl : row.exact = item := Option.some.inj hitem
    rw [hheight]
    norm_num
  · rw [hpadding, hviewport, hheight]
    exact ⟨by norm_num, by norm_num, by norm_num⟩

/-- An item that is too high to add another one to it. -/
def tallItem : StateInner FloatPixels :=
  ⟨some ⟨⟨0, 0⟩, ⟨⟨100⟩, ⟨1⟩⟩⟩, none,
    (SumTree.new.extend [.measured ⟨⟨100⟩, ⟨16777216⟩⟩ none, .measured ⟨⟨100⟩, ⟨1⟩⟩ none]).get (by decide +kernel),
    none, .top, 0, false, none, .visible, none, .normal⟩

theorem valid_tallItem : tallItem.items.Valid True :=
  Or.inr (.leaf (by decide +kernel) (by decide +kernel) rfl fun _ => rfl)

/-- The height of both items is that of the first as `f32` adds them up, and the second one is left below the
viewport. -/
theorem not_scrollToRevealItem_reveals : ¬ ∀ (s : StateInner FloatPixels) (ix : Nat) (item : ListItem),
    s.items.Valid True → Upright (exactItems s.items.toList) →
    WithinItem (exactItems s.items.toList) s.getLogicalScrollTop.exact →
    (exactItems s.items.toList)[ix]? = some item → Fits s.padding.exact s.viewportHeight.exact item.knownHeight →
    ∃ s' position, ListState.scrollToRevealItem s ix = some s' ∧ s'.scrollTop s'.getLogicalScrollTop = some position ∧
      InViewport (exactItems s.items.toList) s.padding.exact s.viewportHeight.exact position.exact ix := by
  intro h
  have htoList : exactItems tallItem.items.toList = [.measured ⟨100, 16777216⟩ none, .measured ⟨100, 1⟩ none] := by
    decide +kernel
  have hexact : tallItem.padding.exact = ⟨0, 0, 0, 0⟩ ∧ tallItem.viewportHeight.exact = 1 ∧
      tallItem.getLogicalScrollTop.exact = ⟨0, 0⟩ := by decide +kernel
  obtain ⟨hpadding, hviewport, hscrollTop⟩ := hexact
  have hposition : (ListState.scrollToRevealItem tallItem 1).bind (fun s' => s'.scrollTop s'.getLogicalScrollTop)
      = some ⟨16777215⟩ := by decide +kernel
  have hupright : Upright (exactItems tallItem.items.toList) := by
    rw [htoList]
    show ∀ item ∈ _, _
    decide +kernel
  have hwithin : WithinItem (exactItems tallItem.items.toList) tallItem.getLogicalScrollTop.exact := by
    rw [htoList, hscrollTop]
    exact ⟨le_rfl, by decide +kernel⟩
  have hfits : Fits tallItem.padding.exact tallItem.viewportHeight.exact 1 := by
    rw [hpadding, hviewport]
    exact ⟨le_rfl, le_rfl, by decide +kernel⟩
  obtain ⟨s', position, hreveal, htop, hview⟩ :=
    h tallItem 1 (.measured ⟨100, 1⟩ none) valid_tallItem hupright hwithin (by rw [htoList]; rfl) hfits
  rw [hreveal, Option.bind_some, htop] at hposition
  obtain rfl := Option.some.inj hposition
  have hbottom := hview.bottom
  rw [htoList, hpadding, hviewport] at hbottom
  exact absurd hbottom (by decide +kernel)

end FcGpui.Elements
