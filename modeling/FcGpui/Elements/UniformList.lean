import FcGpui.Elements.ListState

/-!
# Lists of items of one height

`crates/gpui/src/elements/uniform_list.rs`: how `prepaint` scrolls to an item that has been
asked for, and where it then puts the items.  Pixels are exact.  The offset is the one that
`Interactivity::prepaint` hands on, and `paddedBounds` are the bounds inside the border,
which are the viewport.

The first of two decisions scrolls without a clamp.
-/

namespace FcGpui.Elements

inductive ScrollStrategy
  | top
  | center
  | bottom
deriving DecidableEq

structure DeferredScrollToItem where
  itemIndex : Nat
  strategy : ScrollStrategy
  offset : Nat
  scrollStrict : Bool

/-- What the prepaint of a uniform list starts from. -/
structure UniformList where
  itemHeight : Pixels
  itemCount : Nat
  padding : Edges
  paddedBounds : Bounds Pixels
  contentWidth : Pixels
  canScrollHorizontally : Bool
  yFlipped : Bool

namespace UniformListScrollHandle

def scrollToItem (ix : Nat) (strategy : ScrollStrategy) : DeferredScrollToItem := ⟨ix, strategy, 0, false⟩

def scrollToItemStrict (ix : Nat) (strategy : ScrollStrategy) : DeferredScrollToItem := ⟨ix, strategy, 0, true⟩

def scrollToItemWithOffset (ix : Nat) (strategy : ScrollStrategy) (offset : Nat) : DeferredScrollToItem :=
  ⟨ix, strategy, offset, false⟩

def scrollToItemStrictWithOffset (ix : Nat) (strategy : ScrollStrategy) (offset : Nat) : DeferredScrollToItem :=
  ⟨ix, strategy, offset, true⟩

end UniformListScrollHandle

namespace UniformList

variable (l : UniformList)

def contentHeight : Pixels := l.itemHeight * l.itemCount + l.padding.top + l.padding.bottom

def listHeight : Pixels := l.paddedBounds.size.height

/-- The offset in a list that has become too short or too narrow for it. -/
def settle (scrollOffset : Point Pixels) : Point Pixels :=
  let minVerticalScrollOffset := l.listHeight - l.contentHeight
  let y := if scrollOffset.y ≠ 0 ∧ scrollOffset.y < minVerticalScrollOffset then minVerticalScrollOffset
    else scrollOffset.y
  let contentWidth := l.contentWidth + l.padding.left + l.padding.right
  let x := if (l.canScrollHorizontally ∧ scrollOffset.x ≠ 0) ∧ contentWidth ≤ l.paddedBounds.size.width then 0
    else scrollOffset.x
  ⟨x, y⟩

/-- The place of an item in the list, from the top. -/
def slot (ix : Nat) : Nat := if l.yFlipped then l.itemCount - (ix + 1) else ix

def itemTop (ix : Nat) : Pixels := l.itemHeight * ix + l.padding.top

def itemBottom (ix : Nat) : Pixels := l.itemTop ix + l.itemHeight

/-- `max(ZERO).min(content_height - list_height).max(ZERO)`. -/
def clampScrollTop (scrollTop : Pixels) : Pixels := max (min (max scrollTop 0) (l.contentHeight - l.listHeight)) 0

/-- Where a strategy puts the top of the viewport. -/
def strategyScrollTop (ix : Nat) (offsetPixels : Pixels) : ScrollStrategy → Pixels
  | .top => l.itemTop ix - offsetPixels
  | .center =>
    let itemCenter := l.itemTop ix + l.itemHeight / 2
    let viewportHeight := l.listHeight - offsetPixels
    let viewportCenter := offsetPixels + viewportHeight / 2
    itemCenter - viewportCenter
  | .bottom => l.itemBottom ix - l.listHeight + offsetPixels

/-- The first decision: whether an item is scrolled to, and the vertical offset then. -/
def scrollIntoView (ix : Nat) (offsetPixels y : Pixels) : Bool × Pixels :=
  let scrollTop := -y
  if l.itemTop ix < scrollTop + l.padding.top + offsetPixels then
    (true, -l.itemTop ix + l.padding.top + offsetPixels)
  else if scrollTop + l.listHeight - l.padding.bottom < l.itemBottom ix then
    (true, -(l.itemBottom ix - l.listHeight) - l.padding.bottom)
  else (false, y)

/-- The vertical offset after a scroll to an item. -/
def deferredScroll (deferred : DeferredScrollToItem) (y : Pixels) : Pixels :=
  let ix := l.slot deferred.itemIndex
  let scrollTop := -y
  let offsetPixels := l.itemHeight * deferred.offset
  let scrolled := l.scrollIntoView ix offsetPixels y
  if deferred.scrollStrict ∨ (scrolled.1 ∧
      (l.itemTop ix < scrollTop + offsetPixels ∨ scrollTop + l.listHeight < l.itemBottom ix)) then
    -l.clampScrollTop (l.strategyScrollTop ix offsetPixels deferred.strategy)
  else scrolled.2

/-- The offset with which the items are put in place. -/
def scrollOffset (deferred : Option DeferredScrollToItem) (offset : Point Pixels) : Point Pixels :=
  if 0 < l.itemCount then
    let offset := l.settle offset
    match deferred with
    | some deferred => ⟨offset.x, l.deferredScroll deferred offset.y⟩
    | none => offset
  else offset

/-- The slots from the first that is visible, up to the first that is not. -/
def visibleRange (offset : Point Pixels) : Nat × Nat :=
  (⌊-(offset.y + l.padding.top) / l.itemHeight⌋.toNat,
    min ⌈(-offset.y + l.listHeight) / l.itemHeight⌉.toNat l.itemCount)

/-- The items that are rendered for the slots of a range. -/
def renderedItems (range : Nat × Nat) : List Nat :=
  if l.yFlipped then
    (List.range' (l.itemCount - range.2) (l.itemCount - range.1 - (l.itemCount - range.2))).reverse
  else List.range' range.1 (range.2 - range.1)

def itemOrigin (offset : Point Pixels) (slot : Nat) : Point Pixels :=
  ⟨l.paddedBounds.origin.x + (if l.canScrollHorizontally then offset.x + l.padding.left else offset.x),
    l.paddedBounds.origin.y + (l.itemHeight * slot + offset.y + l.padding.top)⟩

/-- The offset, and the items with their places. -/
def prepaint (deferred : Option DeferredScrollToItem) (offset : Point Pixels) :
    Point Pixels × List (Nat × Point Pixels) :=
  let offset := l.scrollOffset deferred offset
  if 0 < l.itemCount then
    let range := l.visibleRange offset
    (offset, ((l.renderedItems range).zip (List.range' range.1 (range.2 - range.1))).map fun (item, slot) =>
      (item, l.itemOrigin offset slot))
  else (offset, [])

/-! ### What a deferred scroll guarantees -/

/-- The largest scroll top. -/
def maxScrollTop : Pixels := max (l.contentHeight - l.listHeight) 0

def InRange (y : Pixels) : Prop := -l.maxScrollTop ≤ y ∧ y ≤ 0

/-- The item in a slot is put inside the viewport. -/
def InViewport (offset : Point Pixels) (slot : Nat) : Prop :=
  l.paddedBounds.origin.y ≤ (l.itemOrigin offset slot).y ∧
    (l.itemOrigin offset slot).y + l.itemHeight ≤ l.paddedBounds.bottomRight.y

/-- The item in a slot is not in the viewport without its padding. -/
def BeyondPadding (slot : Nat) (y : Pixels) : Prop :=
  l.itemTop slot < -y + l.padding.top ∨ -y + l.listHeight - l.padding.bottom < l.itemBottom slot

/-- The item is visible below the items that the request leaves above it, but there are fewer. -/
def Overshoots (deferred : DeferredScrollToItem) (y : Pixels) : Prop :=
  deferred.scrollStrict = false ∧ l.slot deferred.itemIndex < deferred.offset ∧
    -y + l.itemHeight * deferred.offset ≤ l.itemTop (l.slot deferred.itemIndex) ∧
    l.itemBottom (l.slot deferred.itemIndex) ≤ -y + l.listHeight

/-- What a negative padding can break. -/
structure Reveals (deferred : DeferredScrollToItem) (offset : Point Pixels) (slot : Nat) : Prop where
  strategy : deferred.scrollStrict = true ∨ (¬ l.InViewport offset slot ∧ l.BeyondPadding slot offset.y) →
    0 ≤ l.itemTop slot ∧ l.itemBottom slot - l.listHeight ≤ l.maxScrollTop ∧ l.itemHeight ≤ l.listHeight
  still : deferred.scrollStrict = false → ¬ l.BeyondPadding slot offset.y → l.InViewport offset slot
  up : deferred.scrollStrict = false → l.InViewport offset slot → l.itemTop slot < -offset.y + l.padding.top →
    l.itemHeight + l.padding.top ≤ l.listHeight
  down : deferred.scrollStrict = false → l.InViewport offset slot → -offset.y + l.padding.top ≤ l.itemTop slot →
    -offset.y + l.listHeight - l.padding.bottom < l.itemBottom slot → l.itemHeight + l.padding.bottom ≤ l.listHeight

variable {l}

theorem inViewport_iff {offset : Point Pixels} {slot : Nat} :
    l.InViewport offset slot ↔ -offset.y ≤ l.itemTop slot ∧ l.itemBottom slot ≤ -offset.y + l.listHeight := by
  simp only [InViewport, itemOrigin, itemBottom, itemTop, listHeight, Bounds.bottomRight]
  constructor
  · rintro ⟨htop, hbottom⟩
    exact ⟨by linarith, by linarith⟩
  · rintro ⟨htop, hbottom⟩
    exact ⟨by linarith, by linarith⟩

theorem clampScrollTop_mem (scrollTop : Pixels) :
    0 ≤ l.clampScrollTop scrollTop ∧ l.clampScrollTop scrollTop ≤ l.maxScrollTop :=
  ⟨le_max_right _ _, max_le_max (min_le_right _ _) le_rfl⟩

theorem settle_y {offset : Point Pixels} (h : l.InRange offset.y) : (l.settle offset).y = offset.y := by
  rw [settle]
  refine if_neg ?_
  rintro ⟨hne, hlt⟩
  obtain ⟨hlow, hhigh⟩ := h
  rcases le_total (l.contentHeight - l.listHeight) 0 with hfits | hlonger
  · rw [maxScrollTop, max_eq_right hfits] at hlow
    exact hne (le_antisymm hhigh (by linarith))
  · rw [maxScrollTop, max_eq_left hlonger] at hlow
    linarith

theorem slot_lt {ix : Nat} (hix : ix < l.itemCount) : l.slot ix < l.itemCount := by
  rw [slot]
  split <;> omega

theorem itemBottom_le (hheight : 0 < l.itemHeight) {slot : Nat} (hslot : slot < l.itemCount) :
    l.itemBottom slot + l.padding.bottom ≤ l.contentHeight := by
  have hcount : (slot : Pixels) + 1 ≤ l.itemCount := by exact_mod_cast hslot
  have hmul := mul_le_mul_of_nonneg_left hcount hheight.le
  rw [itemBottom, itemTop, contentHeight]
  linarith

theorem contentHeight_sub_le : l.contentHeight - l.listHeight ≤ l.maxScrollTop := le_max_left _ _

/-! The two decisions.  The second one is made for a strict request, and for an item that is not
visible and to which the first one scrolls. -/

theorem scrollIntoView_cases (l : UniformList) (ix : Nat) (offsetPixels y : Pixels) :
    (l.itemTop ix < -y + l.padding.top + offsetPixels ∧
        l.scrollIntoView ix offsetPixels y = (true, -l.itemTop ix + l.padding.top + offsetPixels)) ∨
      (-y + l.padding.top + offsetPixels ≤ l.itemTop ix ∧ -y + l.listHeight - l.padding.bottom < l.itemBottom ix ∧
        l.scrollIntoView ix offsetPixels y = (true, -(l.itemBottom ix - l.listHeight) - l.padding.bottom)) ∨
      (-y + l.padding.top + offsetPixels ≤ l.itemTop ix ∧ l.itemBottom ix ≤ -y + l.listHeight - l.padding.bottom ∧
        l.scrollIntoView ix offsetPixels y = (false, y)) := by
  rw [scrollIntoView]
  by_cases habove : l.itemTop ix < -y + l.padding.top + offsetPixels
  · exact Or.inl ⟨habove, if_pos habove⟩
  · by_cases hbelow : -y + l.listHeight - l.padding.bottom < l.itemBottom ix
    · exact Or.inr (Or.inl ⟨not_lt.mp habove, hbelow, (if_neg habove).trans (if_pos hbelow)⟩)
    · exact Or.inr (Or.inr ⟨not_lt.mp habove, not_lt.mp hbelow, (if_neg habove).trans (if_neg hbelow)⟩)

section

variable {deferred : DeferredScrollToItem} {y : Pixels}

theorem deferredScroll_strategy (h : deferred.scrollStrict = true ∨
      ((l.scrollIntoView (l.slot deferred.itemIndex) (l.itemHeight * deferred.offset) y).1 = true ∧
        (l.itemTop (l.slot deferred.itemIndex) < -y + l.itemHeight * deferred.offset ∨
          -y + l.listHeight < l.itemBottom (l.slot deferred.itemIndex)))) :
    l.deferredScroll deferred y = -l.clampScrollTop (l.strategyScrollTop (l.slot deferred.itemIndex)
      (l.itemHeight * deferred.offset) deferred.strategy) :=
  if_pos h

theorem deferredScroll_visible (hstrict : deferred.scrollStrict = false)
    (htop : -y + l.itemHeight * deferred.offset ≤ l.itemTop (l.slot deferred.itemIndex))
    (hbottom : l.itemBottom (l.slot deferred.itemIndex) ≤ -y + l.listHeight) : l.deferredScroll deferred y =
      (l.scrollIntoView (l.slot deferred.itemIndex) (l.itemHeight * deferred.offset) y).2 := by
  refine if_neg ?_
  rintro (hs | ⟨-, hout | hout⟩)
  · exact Bool.false_ne_true (hstrict.symm.trans hs)
  · exact not_lt.mpr htop hout
  · exact not_lt.mpr hbottom hout

theorem deferredScroll_still (hstrict : deferred.scrollStrict = false)
    (hscrolled : l.scrollIntoView (l.slot deferred.itemIndex) (l.itemHeight * deferred.offset) y = (false, y)) :
    l.deferredScroll deferred y = y := by
  rw [deferredScroll, hscrolled, if_neg]
  rintro (hs | ⟨hs, -⟩)
  · exact Bool.false_ne_true (hstrict.symm.trans hs)
  · exact Bool.false_ne_true hs

end

/-- **A deferred scroll stays in the range** unless it asks for more items above than there are. -/
theorem deferredScroll_inRange_iff (hheight : 0 < l.itemHeight) {deferred : DeferredScrollToItem}
    (hix : deferred.itemIndex < l.itemCount) {y : Pixels} (hy : l.InRange y) :
    l.InRange (l.deferredScroll deferred y) ↔ ¬ l.Overshoots deferred y := by
  have hend := itemBottom_le hheight (slot_lt hix)
  have hmax := l.contentHeight_sub_le
  have hcases := l.scrollIntoView_cases (l.slot deferred.itemIndex) (l.itemHeight * deferred.offset) y
  by_cases hkept : deferred.scrollStrict = false ∧
      -y + l.itemHeight * deferred.offset ≤ l.itemTop (l.slot deferred.itemIndex) ∧
      l.itemBottom (l.slot deferred.itemIndex) ≤ -y + l.listHeight
  · obtain ⟨hstrict, htop, hbottom⟩ := hkept
    have hfewer : l.slot deferred.itemIndex < deferred.offset ↔
        l.itemTop (l.slot deferred.itemIndex) < l.padding.top + l.itemHeight * deferred.offset := by
      rw [itemTop, add_comm l.padding.top, add_lt_add_iff_right, mul_lt_mul_iff_right₀ hheight, Nat.cast_lt]
    have hovershoots : l.Overshoots deferred y ↔
        l.itemTop (l.slot deferred.itemIndex) < l.padding.top + l.itemHeight * deferred.offset := by
      rw [← hfewer]
      exact ⟨fun h => h.2.1, fun h => ⟨hstrict, h, htop, hbottom⟩⟩
    rw [deferredScroll_visible hstrict htop hbottom, hovershoots]
    obtain ⟨hlow, hhigh⟩ := hy
    rcases hcases with ⟨habove, heq⟩ | ⟨hbelow, hend', heq⟩ | ⟨hbelow, -, heq⟩
    · rw [heq]
      constructor
      · rintro ⟨-, hnonpos⟩
        linarith
      · intro henough
        exact ⟨by linarith, by linarith⟩
    · rw [heq]
      exact ⟨fun _ => by linarith, fun _ => ⟨by linarith, by linarith⟩⟩
    · rw [heq]
      exact ⟨fun _ => by linarith, fun _ => ⟨hlow, hhigh⟩⟩
  · have hovershoots : ¬ l.Overshoots deferred y := fun h => hkept ⟨h.1, h.2.2.1, h.2.2.2⟩
    refine iff_of_true ?_ hovershoots
    by_cases hstrategy : deferred.scrollStrict = true ∨
        ((l.scrollIntoView (l.slot deferred.itemIndex) (l.itemHeight * deferred.offset) y).1 = true ∧
          (l.itemTop (l.slot deferred.itemIndex) < -y + l.itemHeight * deferred.offset ∨
            -y + l.listHeight < l.itemBottom (l.slot deferred.itemIndex)))
    · obtain ⟨hnonneg, hle⟩ := l.clampScrollTop_mem (l.strategyScrollTop (l.slot deferred.itemIndex)
        (l.itemHeight * deferred.offset) deferred.strategy)
      rw [deferredScroll_strategy hstrategy]
      exact ⟨by linarith, by linarith⟩
    · have hstrict : deferred.scrollStrict = false := Bool.eq_false_of_not_eq_true fun h => hstrategy (Or.inl h)
      have hout : l.itemTop (l.slot deferred.itemIndex) < -y + l.itemHeight * deferred.offset ∨
          -y + l.listHeight < l.itemBottom (l.slot deferred.itemIndex) := by
        by_contra hvisible
        push Not at hvisible
        exact hkept ⟨hstrict, hvisible⟩
      rcases hcases with ⟨-, heq⟩ | ⟨-, -, heq⟩ | ⟨-, -, heq⟩
      · exact absurd (Or.inr ⟨congrArg Prod.fst heq, hout⟩) hstrategy
      · exact absurd (Or.inr ⟨congrArg Prod.fst heq, hout⟩) hstrategy
      · rw [deferredScroll_still hstrict heq]
        exact hy

theorem strategy_inViewport_iff {slot : Nat} (strategy : ScrollStrategy) (x : Pixels) :
    l.InViewport ⟨x, -l.clampScrollTop (l.strategyScrollTop slot 0 strategy)⟩ slot ↔
      0 ≤ l.itemTop slot ∧ l.itemBottom slot - l.listHeight ≤ l.maxScrollTop ∧ l.itemHeight ≤ l.listHeight := by
  obtain ⟨hnonneg, hle⟩ := l.clampScrollTop_mem (l.strategyScrollTop slot 0 strategy)
  rw [inViewport_iff, neg_neg]
  constructor
  · rintro ⟨htop, hbottom⟩
    rw [itemBottom] at hbottom ⊢
    exact ⟨by linarith, by linarith, by linarith⟩
  · rintro ⟨htop, hbottom, hfits⟩
    -- the strategies put the top of the viewport between the two ends that show the item
    have hbetween : l.itemBottom slot - l.listHeight ≤ l.strategyScrollTop slot 0 strategy ∧
        l.strategyScrollTop slot 0 strategy ≤ l.itemTop slot := by
      cases strategy with
      | top =>
        rw [strategyScrollTop, itemBottom]
        exact ⟨by linarith, by linarith⟩
      | center =>
        simp only [strategyScrollTop, itemBottom]
        exact ⟨by linarith, by linarith⟩
      | bottom =>
        rw [strategyScrollTop, itemBottom]
        exact ⟨by linarith, by linarith⟩
    obtain ⟨hlow, hhigh⟩ := hbetween
    have hclamp : l.clampScrollTop (l.strategyScrollTop slot 0 strategy)
        = min (max (l.strategyScrollTop slot 0 strategy) 0) l.maxScrollTop := by
      rw [clampScrollTop, maxScrollTop, max_min_distrib_right, max_eq_left (le_max_right _ _)]
    rw [hclamp]
    constructor
    · exact (min_le_left _ _).trans (max_le hhigh htop)
    · have hbound : l.itemBottom slot - l.listHeight
          ≤ min (max (l.strategyScrollTop slot 0 strategy) 0) l.maxScrollTop :=
        le_min (hlow.trans (le_max_left _ _)) hbottom
      linarith

theorem beyondPadding_iff {slot : Nat} {y : Pixels} :
    l.BeyondPadding slot y ↔ (l.scrollIntoView slot 0 y).1 = true := by
  rcases l.scrollIntoView_cases slot 0 y with ⟨habove, heq⟩ | ⟨-, hbelow, heq⟩ | ⟨habove, hbelow, heq⟩
  · exact iff_of_true (Or.inl (by linarith)) (congrArg Prod.fst heq)
  · exact iff_of_true (Or.inr hbelow) (congrArg Prod.fst heq)
  · refine iff_of_false ?_ (by rw [heq]; exact Bool.false_ne_true)
    rintro (h | h)
    · linarith
    · linarith

section

variable {deferred : DeferredScrollToItem} {offset : Point Pixels}

theorem shows_strategy_iff (hoffset : l.itemHeight * (deferred.offset : Pixels) = 0)
    (hstrategy : deferred.scrollStrict = true ∨
      (¬ l.InViewport offset (l.slot deferred.itemIndex) ∧ l.BeyondPadding (l.slot deferred.itemIndex) offset.y)) :
    l.InViewport ⟨offset.x, l.deferredScroll deferred offset.y⟩ (l.slot deferred.itemIndex) ↔
      l.Reveals deferred offset (l.slot deferred.itemIndex) := by
  rw [deferredScroll_strategy, hoffset, strategy_inViewport_iff]
  · refine ⟨fun h => ⟨fun _ => h, ?_, ?_, ?_⟩, fun h => h.strategy hstrategy⟩
    · intro hstrict hbeyond
      rcases hstrategy with hs | ⟨-, hb⟩
      · exact absurd (hstrict.symm.trans hs) Bool.false_ne_true
      · exact absurd hb hbeyond
    · intro hstrict hvisible
      rcases hstrategy with hs | ⟨hv, -⟩
      · exact absurd (hstrict.symm.trans hs) Bool.false_ne_true
      · exact absurd hvisible hv
    · intro hstrict hvisible
      rcases hstrategy with hs | ⟨hv, -⟩
      · exact absurd (hstrict.symm.trans hs) Bool.false_ne_true
      · exact absurd hvisible hv
  · refine hstrategy.imp_right ?_
    rintro ⟨hout, hbeyond⟩
    rw [hoffset, add_zero]
    refine ⟨beyondPadding_iff.mp hbeyond, ?_⟩
    by_contra hvisible
    push Not at hvisible
    exact hout (inViewport_iff.mpr hvisible)

theorem shows_visible_iff (hoffset : l.itemHeight * (deferred.offset : Pixels) = 0)
    (hstrict : deferred.scrollStrict = false) (hvisible : l.InViewport offset (l.slot deferred.itemIndex))
    (hbeyond : l.BeyondPadding (l.slot deferred.itemIndex) offset.y) :
    l.InViewport ⟨offset.x, l.deferredScroll deferred offset.y⟩ (l.slot deferred.itemIndex) ↔
      l.Reveals deferred offset (l.slot deferred.itemIndex) := by
  have hstrategy : ¬(deferred.scrollStrict = true ∨
      (¬ l.InViewport offset (l.slot deferred.itemIndex) ∧ l.BeyondPadding (l.slot deferred.itemIndex) offset.y)) := by
    rintro (hs | ⟨hout, -⟩)
    · exact Bool.false_ne_true (hstrict.symm.trans hs)
    · exact hout hvisible
  obtain ⟨htop, hbottom⟩ := inViewport_iff.mp hvisible
  rw [deferredScroll_visible hstrict (by rw [hoffset, add_zero]; exact htop) hbottom, hoffset, inViewport_iff]
  rcases l.scrollIntoView_cases (l.slot deferred.itemIndex) 0 offset.y with
    ⟨habove, heq⟩ | ⟨habove, hbelow, heq⟩ | ⟨-, -, heq⟩
  · rw [heq]
    constructor
    · rintro ⟨htop', hbottom'⟩
      refine ⟨fun h => absurd h hstrategy, fun _ h => absurd hbeyond h, fun _ _ _ => ?_, fun _ _ h => ?_⟩
      · rw [itemBottom] at hbottom'
        linarith
      · linarith
    · intro h
      have hfits := h.up hstrict hvisible (by linarith)
      rw [itemBottom]
      exact ⟨by linarith, by linarith⟩
  · rw [heq]
    constructor
    · rintro ⟨htop', hbottom'⟩
      refine ⟨fun h => absurd h hstrategy, fun _ h => absurd hbeyond h, fun _ _ h => ?_, fun _ _ _ _ => ?_⟩
      · linarith
      · rw [itemBottom] at htop'
        linarith
    · intro h
      have hfits := h.down hstrict hvisible (by linarith) hbelow
      rw [itemBottom] at hbelow hbottom ⊢
      exact ⟨by linarith, by linarith⟩
  · exact absurd (beyondPadding_iff.mp hbeyond) (by rw [heq]; exact Bool.false_ne_true)

theorem shows_still_iff (hoffset : l.itemHeight * (deferred.offset : Pixels) = 0)
    (hstrict : deferred.scrollStrict = false) (hbeyond : ¬ l.BeyondPadding (l.slot deferred.itemIndex) offset.y) :
    l.InViewport ⟨offset.x, l.deferredScroll deferred offset.y⟩ (l.slot deferred.itemIndex) ↔
      l.Reveals deferred offset (l.slot deferred.itemIndex) := by
  have hscrolled : l.scrollIntoView (l.slot deferred.itemIndex) 0 offset.y = (false, offset.y) := by
    rcases l.scrollIntoView_cases (l.slot deferred.itemIndex) 0 offset.y with ⟨-, heq⟩ | ⟨-, -, heq⟩ | ⟨-, -, heq⟩
    · exact absurd (beyondPadding_iff.mpr (congrArg Prod.fst heq)) hbeyond
    · exact absurd (beyondPadding_iff.mpr (congrArg Prod.fst heq)) hbeyond
    · exact heq
  rw [deferredScroll_still hstrict (by rw [hoffset]; exact hscrolled)]
  constructor
  · intro hvisible
    refine ⟨fun h => ?_, fun _ _ => hvisible, fun _ _ h => absurd (Or.inl h) hbeyond,
      fun _ _ _ h => absurd (Or.inr h) hbeyond⟩
    rcases h with hs | ⟨hout, -⟩
    · exact absurd (hstrict.symm.trans hs) Bool.false_ne_true
    · exact absurd hvisible hout
  · intro h
    exact h.still hstrict hbeyond

/-- **A deferred scroll shows its item**, up to negative paddings. -/
theorem deferredScroll_inViewport_iff {deferred : DeferredScrollToItem} (hoffset : deferred.offset = 0)
    (offset : Point Pixels) :
    l.InViewport ⟨offset.x, l.deferredScroll deferred offset.y⟩ (l.slot deferred.itemIndex) ↔
      l.Reveals deferred offset (l.slot deferred.itemIndex) := by
  have hzero : l.itemHeight * (deferred.offset : Pixels) = 0 := by
    rw [hoffset, Nat.cast_zero, mul_zero]
  by_cases hstrategy : deferred.scrollStrict = true ∨
      (¬ l.InViewport offset (l.slot deferred.itemIndex) ∧ l.BeyondPadding (l.slot deferred.itemIndex) offset.y)
  · exact shows_strategy_iff hzero hstrategy
  · have hstrict : deferred.scrollStrict = false := Bool.eq_false_of_not_eq_true fun h => hstrategy (Or.inl h)
    by_cases hbeyond : l.BeyondPadding (l.slot deferred.itemIndex) offset.y
    · have hvisible : l.InViewport offset (l.slot deferred.itemIndex) := by
        by_contra hout
        exact hstrategy (Or.inr ⟨hout, hbeyond⟩)
      exact shows_visible_iff hzero hstrict hvisible hbeyond
    · exact shows_still_iff hzero hstrict hbeyond

end

/-- A padding that is not negative breaks nothing. -/
theorem reveals_of_nonneg (hheight : 0 < l.itemHeight) (htop : 0 ≤ l.padding.top) (hbottom : 0 ≤ l.padding.bottom)
    (hfits : l.padding.top + l.itemHeight + l.padding.bottom ≤ l.listHeight) {slot : Nat} (hslot : slot < l.itemCount)
    (deferred : DeferredScrollToItem) (offset : Point Pixels) : l.Reveals deferred offset slot where
  strategy := by
    intro _
    have hend := itemBottom_le hheight hslot
    have hmax := l.contentHeight_sub_le
    have hitems : 0 ≤ l.itemHeight * (slot : Pixels) := mul_nonneg hheight.le (Nat.cast_nonneg slot)
    refine ⟨?_, by linarith, by linarith⟩
    rw [itemTop]
    linarith
  still := by
    intro _ hbeyond
    rw [inViewport_iff]
    rw [BeyondPadding] at hbeyond
    push Not at hbeyond
    exact ⟨by linarith [hbeyond.1], by linarith [hbeyond.2]⟩
  up := by
    intro _ _ _
    linarith
  down := by
    intro _ _ _ _
    linarith

/-- The item that is rendered for a slot is the one of the slot. -/
theorem slot_renderedItems {range : Nat × Nat} (hrange : range.2 ≤ l.itemCount) {k item slot : Nat}
    (hitem : (l.renderedItems range)[k]? = some item)
    (hslot : (List.range' range.1 (range.2 - range.1))[k]? = some slot) : l.slot item = slot := by
  obtain ⟨hk, hvalue⟩ := List.getElem?_eq_some_iff.mp hslot
  rw [List.length_range'] at hk
  rw [List.getElem_range', Nat.one_mul] at hvalue
  rw [renderedItems] at hitem
  rw [UniformList.slot]
  split at hitem
  · rename_i hflipped
    have hlength : k < (List.range' (l.itemCount - range.2)
        (l.itemCount - range.1 - (l.itemCount - range.2))).length := by
      rw [List.length_range']
      omega
    rw [List.getElem?_reverse hlength, List.length_range'] at hitem
    obtain ⟨hk', hvalue'⟩ := List.getElem?_eq_some_iff.mp hitem
    rw [List.getElem_range', Nat.one_mul] at hvalue'
    rw [if_pos hflipped]
    omega
  · rename_i hflipped
    rw [if_neg hflipped, ← hvalue]
    obtain ⟨_, hvalue'⟩ := List.getElem?_eq_some_iff.mp hitem
    rw [List.getElem_range', Nat.one_mul] at hvalue'
    exact hvalue'.symm

/-- Every item is put where its slot is. -/
theorem prepaint_placed (deferred : Option DeferredScrollToItem) (offset : Point Pixels) {item : Nat}
    {origin : Point Pixels} (h : (item, origin) ∈ (l.prepaint deferred offset).2) :
    origin = l.itemOrigin (l.prepaint deferred offset).1 (l.slot item) := by
  rw [prepaint] at h ⊢
  dsimp only at h ⊢
  split at h
  · rename_i hcount
    rw [if_pos hcount]
    obtain ⟨⟨item', slot⟩, hmem, heq⟩ := List.mem_map.mp h
    obtain ⟨k, hk⟩ := List.mem_iff_getElem?.mp hmem
    obtain ⟨hitem, hslot⟩ := List.getElem?_zip_eq_some.mp hk
    obtain ⟨rfl, rfl⟩ := Prod.mk.inj heq
    rw [slot_renderedItems (min_le_right _ _) hitem hslot]
  · exact absurd h List.not_mem_nil

theorem prepaint_deferred (hcount : 0 < l.itemCount) (deferred : DeferredScrollToItem) {offset : Point Pixels}
    (hoffset : l.InRange offset.y) : (l.prepaint (some deferred) offset).1 =
      ⟨(l.settle offset).x, l.deferredScroll deferred offset.y⟩ := by
  rw [prepaint, scrollOffset]
  dsimp only
  rw [if_pos hcount, if_pos hcount, settle_y hoffset]

/-- **What a deferred scroll does**: the offset is in the range again, and the item asked for is in the
viewport. -/
theorem prepaint_deferred_iff (l : UniformList) (deferred : DeferredScrollToItem) (offset : Point Pixels)
    (hheight : 0 < l.itemHeight) (hix : deferred.itemIndex < l.itemCount) (hoffset : l.InRange offset.y) :
    (l.InRange (l.prepaint (some deferred) offset).1.y ∧
        (deferred.offset = 0 →
          l.InViewport (l.prepaint (some deferred) offset).1 (l.slot deferred.itemIndex))) ↔
      ¬ l.Overshoots deferred offset.y ∧
        (deferred.offset = 0 → l.Reveals deferred offset (l.slot deferred.itemIndex)) := by
  rw [prepaint_deferred (Nat.zero_lt_of_lt hix) deferred hoffset, deferredScroll_inRange_iff hheight hix hoffset]
  refine and_congr_right fun _ => forall_congr' fun hzero => ?_
  rw [← deferredScroll_inViewport_iff hzero offset, inViewport_iff, inViewport_iff]

/-- The items above the target are fewer than the request leaves above it, and the padding hides this. -/
def fewItemsAbove : UniformList :=
  ⟨10, 100, ⟨10, 0, 0, 0⟩, ⟨⟨0, 0⟩, ⟨100, 100⟩⟩, 100, false, false⟩

theorem prepaint_deferred_iff_fewItemsAbove :
    (fewItemsAbove.InRange (fewItemsAbove.prepaint (some ⟨1, .top, 0, false⟩) ⟨0, -30⟩).1.y ∧
        ((⟨1, .top, 0, false⟩ : DeferredScrollToItem).offset = 0 → fewItemsAbove.InViewport
          (fewItemsAbove.prepaint (some ⟨1, .top, 0, false⟩) ⟨0, -30⟩).1 (fewItemsAbove.slot 1))) ↔
      ¬ fewItemsAbove.Overshoots ⟨1, .top, 0, false⟩ (-30) ∧
        ((⟨1, .top, 0, false⟩ : DeferredScrollToItem).offset = 0 →
          fewItemsAbove.Reveals ⟨1, .top, 0, false⟩ ⟨0, -30⟩ (fewItemsAbove.slot 1)) :=
  prepaint_deferred_iff fewItemsAbove ⟨1, .top, 0, false⟩ ⟨0, -30⟩ (by decide) (by decide)
    ⟨by decide +kernel, by decide +kernel⟩

/-- The second item is asked for with two items above it. -/
theorem not_prepaint_deferred : ¬ ∀ (l : UniformList) (deferred : DeferredScrollToItem) (offset : Point Pixels),
    0 < l.itemHeight → deferred.itemIndex < l.itemCount → 0 ≤ l.padding.top → 0 ≤ l.padding.bottom →
    l.padding.top + l.itemHeight + l.padding.bottom ≤ l.listHeight → l.InRange offset.y →
    l.InRange (l.prepaint (some deferred) offset).1.y ∧
      (deferred.offset = 0 →
        l.InViewport (l.prepaint (some deferred) offset).1 (l.slot deferred.itemIndex)) := by
  intro h
  have hrange := (h fewItemsAbove (UniformListScrollHandle.scrollToItemWithOffset 1 .top 2) ⟨0, 0⟩ (by decide)
    (by decide) (by decide) (by decide) (by decide +kernel) ⟨by decide +kernel, by decide⟩).1.2
  exact absurd hrange (by decide +kernel)

end UniformList

end FcGpui.Elements
