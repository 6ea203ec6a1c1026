import FcGpui.Elements.LaidOut

/-!
# The bounds of an item

`bounds_for_item` of `crates/gpui/src/elements/list.rs` tells where an item was drawn from the
heights in the tree (`boundsForItem_eq`).  The loops of a layout measure an item with the size
that it is laid out with (`Sized`), and leave the scroll top in the state (`Synced`), but for a
list that is aligned to the bottom and has been filled from above.
-/

namespace FcGpui.Elements

open SumTree

structure Height where
  height : Pixels
deriving DecidableEq

instance : Dimension Height ListItemSummary := ⟨⟨0⟩, fun d summary => ⟨d.height + summary.height⟩⟩

instance : LawfulDimension Height ListItemSummary where
  addSummary_add d a b := congrArg Height.mk (add_assoc d.height a.height b.height).symm
  addSummary_zero := congrArg Height.mk (zero_add 0)

/-- Two dimensions at once; targets are in the first one. -/
structure Dimensions (D E : Type) where
  first : D
  second : E

instance {D E S : Type} [Dimension D S] [Dimension E S] : Dimension (Dimensions D E) S :=
  ⟨⟨Dimension.zero S, Dimension.zero S⟩, fun d summary =>
    ⟨Dimension.addSummary d.first summary, Dimension.addSummary d.second summary⟩⟩

instance {D E S : Type} [Summary S] [Dimension D S] [Dimension E S] [LawfulDimension D S] [LawfulDimension E S] :
    LawfulDimension (Dimensions D E) S where
  addSummary_add d a b := congrArg₂ Dimensions.mk (LawfulDimension.addSummary_add d.first a b)
    (LawfulDimension.addSummary_add d.second a b)
  addSummary_zero := congrArg₂ Dimensions.mk LawfulDimension.addSummary_zero LawfulDimension.addSummary_zero

/-- `Count` as a target in a cursor over counts and heights. -/
def Count.dimensionsTarget (n : Nat) : SeekTarget (Dimensions Count Height) :=
  ⟨fun other => (Count.target n).cmp other.first⟩

namespace ListState

def boundsForItem (s : StateInner) (ix : Nat) : Option (Option (Bounds Pixels)) :=
  let bounds := s.lastLayoutBounds.getD ⟨⟨0, 0⟩, ⟨0, 0⟩⟩
  let scrollTop := s.getLogicalScrollTop
  if ix < scrollTop.itemIx then some none
  else do
    let cursor : SumTree.Cursor ListItem ListItemSummary (Dimensions Count Height) := Cursor.new s.items
    let (_, cursor) ← cursor.seek (Count.dimensionsTarget scrollTop.itemIx) .right
    let scrollTop := cursor.position.second.height + scrollTop.offsetInItem
    let (_, cursor) ← cursor.seekForward (Count.dimensionsTarget ix) .right
    let item ← cursor.item
    match item with
    | some (.measured size _) =>
      if cursor.position.first.count = ix then
        let top := bounds.origin.y + cursor.position.second.height - scrollTop
        some (some (.fromCorners ⟨bounds.origin.x, top⟩ ⟨bounds.bottomRight.x, top + size.height⟩))
      else some none
    | _ => some none

end ListState

open ListState

variable {s s₁ : StateInner} {w : Surroundings} {bounds : Bounds Pixels} {padding : Edges} {ix : Nat}

/-! ### What `bounds_for_item` tells -/

theorem positionAfter_dimensions (items : List ListItem) :
    (positionAfter items : Dimensions Count Height) = ⟨⟨items.length⟩, ⟨(items.map ListItem.knownHeight).sum⟩⟩ := by
  induction items using List.reverseRecOn with
  | nil => rfl
  | append_singleton items item ih =>
    rw [positionAfter_concat, ih, List.length_append, List.map_append, List.sum_append, List.map_singleton,
      List.sum_singleton]
    cases item <;> rfl

theorem indexes_dimensions (n : Nat) : Indexes ListItem (Count.dimensionsTarget n) .right n where
  ahead items hitems := by
    have hahead := (indexes_count n).ahead items hitems
    rw [positionAfter_count] at hahead
    rw [positionAfter_dimensions]
    exact hahead
  passes items := by
    have hpasses := (indexes_count n).passes items
    rw [positionAfter_count] at hpasses
    rw [positionAfter_dimensions]
    exact hpasses

theorem boundsForItem_eq (hitems : s.items.Valid True) (ix : Nat) : boundsForItem s ix = some
    (if ix < s.getLogicalScrollTop.itemIx then none
    else (s.items.toList[ix]?.bind ListItem.size).map fun size =>
      let bounds := s.lastLayoutBounds.getD ⟨⟨0, 0⟩, ⟨0, 0⟩⟩
      let top := bounds.origin.y + extent s.items.toList ix - scrollPosition s.items.toList s.getLogicalScrollTop
      .fromCorners ⟨bounds.origin.x, top⟩ ⟨bounds.bottomRight.x, top + size.height⟩) := by
  rw [boundsForItem]
  dsimp only
  split
  · rfl
  · rename_i hbelow
    have hle : s.getLogicalScrollTop.itemIx ≤ ix := not_lt.mp hbelow
    obtain ⟨found, c, hseek, hstands⟩ :=
      (indexes_dimensions s.getLogicalScrollTop.itemIx).seek hitems (c := Cursor.new s.items) rfl
    obtain ⟨found', slice, c', -, hforward, -, -, hstands'⟩ := (indexes_dimensions ix).slice hitems (.stands hstands)
      (by rw [List.length_take]; omega)
    have hposition : c.position.second.height = extent s.items.toList s.getLogicalScrollTop.itemIx := by
      rw [hstands.start trivial, positionAfter_dimensions]
      rfl
    have hposition' : c'.position = ⟨⟨(s.items.toList.take ix).length⟩, ⟨extent s.items.toList ix⟩⟩ := by
      rw [hstands'.start trivial, positionAfter_dimensions]
      rfl
    have hitem := hstands'.item
    rw [List.head?_drop] at hitem
    rw [hseek]
    simp only [Option.bind_eq_bind, Option.bind_some, hforward, hitem, hposition, hposition']
    cases h : s.items.toList[ix]? with
    | none => rfl
    | some item =>
      obtain ⟨hlt, -⟩ := List.getElem?_eq_some_iff.mp h
      cases item with
      | unmeasured sizeHint focusHandle => rfl
      | measured size focusHandle =>
        dsimp only
        rw [if_pos (by rw [List.length_take]; omega)]
        rfl

/-! ### What the loops measure -/

namespace Layout

variable {l l' applied : Layout} {item : ListItem} {items before : List ListItem} {availableHeight : Pixels} {first : Nat}

/-- Every layout has the size that its item is measured with, for items that are measured from an index on. -/
def Sized (first : Nat) (l : Layout) : Prop :=
  ∀ layout ∈ l.itemLayouts, first ≤ layout.index ∧
    l.measuredItems[layout.index - first]?.bind ListItem.size = some layout.size

/-- The scroll top is that of the state. -/
def Synced (l : Layout) : Prop := l.state.getLogicalScrollTop = l.scrollTop

theorem getElem?_append_of_bind {l m : List ListItem} {ix : Nat} {size : Size Pixels}
    (h : l[ix]?.bind ListItem.size = some size) : (l ++ m)[ix]?.bind ListItem.size = some size := by
  obtain ⟨item, hitem, -⟩ := Option.bind_eq_some_iff.mp h
  obtain ⟨hlt, -⟩ := List.getElem?_eq_some_iff.mp hitem
  rwa [List.getElem?_append_left hlt]

theorem Sized.measure (h : l.Sized first) (size : Size Pixels) (item : ListItem) : (l.measure size item).Sized first :=
  fun layout hlayout => ⟨(h layout hlayout).1, getElem?_append_of_bind (h layout hlayout).2⟩

theorem Sized.show (h : l.Sized first) {ix : Nat} (hlength : l.measuredItems.length = ix) (item : ListItem) :
    ((l.layOut w (first + ix) item).measure (w.renderItem (first + ix)) item).Sized first := by
  intro layout hlayout
  rcases List.mem_append.mp hlayout with hmem | hmem
  · exact ⟨(h layout hmem).1, getElem?_append_of_bind (h layout hmem).2⟩
  · obtain rfl := List.mem_singleton.mp hmem
    refine ⟨Nat.le_add_right _ _, ?_⟩
    rw [Nat.add_sub_cancel_left, ← hlength]
    show (l.measuredItems ++ [_])[l.measuredItems.length]?.bind ListItem.size = _
    rw [List.getElem?_concat_length, hlength]
    rfl

theorem Synced.applyPendingScroll (h : l.Synced) (elementSize : Size Pixels) :
    (l.applyPendingScroll elementSize).Synced := by
  rw [Layout.applyPendingScroll]
  split
  · rfl
  · exact h

/-- The body of the first loop: a pending scroll may be applied, and then the item is measured, and laid out if it
is visible. -/
theorem below_eq (w : Surroundings) (availableHeight : Pixels) (ix : Nat) (item : ListItem) (l : Layout) :
    ∃ applied, (applied = l ∨ applied = l.applyPendingScroll (w.renderItem (l.scrollTop.itemIx + ix))) ∧
      l.below w availableHeight ix item = if l.visibleHeight < availableHeight then
        (applied.layOut w (l.scrollTop.itemIx + ix) item).measure (w.renderItem (l.scrollTop.itemIx + ix)) item
      else applied.measure (item.size.getD (w.renderItem (l.scrollTop.itemIx + ix))) item := by
  refine ⟨if (decide (l.visibleHeight < availableHeight) || item.size.isNone) = true ∧ ix = 0 then
    l.applyPendingScroll (w.renderItem (l.scrollTop.itemIx + ix)) else l, ?_, ?_⟩
  · split
    · exact Or.inr rfl
    · exact Or.inl rfl
  · rw [Layout.below]
    by_cases hvisible : l.visibleHeight < availableHeight
    · simp only [hvisible, decide_true, Bool.true_or, if_true]
    · simp only [hvisible, decide_false, Bool.false_or, Bool.false_eq_true, if_false]

theorem Sized.below (w : Surroundings) (availableHeight : Pixels) (h : l.Sized l.scrollTop.itemIx)
    (hsynced : l.Synced) {ix : Nat} (hlength : l.measuredItems.length = ix) (item : ListItem) :
    (l.below w availableHeight ix item).scrollTop.itemIx = l.scrollTop.itemIx ∧
      (l.below w availableHeight ix item).measuredItems.length = ix + 1 ∧
      (l.below w availableHeight ix item).Sized l.scrollTop.itemIx ∧ (l.below w availableHeight ix item).Synced := by
  obtain ⟨applied, happlied, hbelow⟩ := below_eq w availableHeight ix item l
  have hkeeps : l.Keeps applied := by
    rcases happlied with rfl | rfl
    · exact ⟨rfl, rfl, rfl, rfl, rfl, rfl⟩
    · exact keeps_applyPendingScroll l _
  have happliedSynced : applied.Synced := by
    rcases happlied with rfl | rfl
    · exact hsynced
    · exact hsynced.applyPendingScroll _
  have hsized : applied.Sized l.scrollTop.itemIx := by
    intro layout hlayout
    rw [hkeeps.itemLayouts] at hlayout
    rw [hkeeps.measuredItems]
    exact h layout hlayout
  rw [← hkeeps.measuredItems] at hlength
  have hmeasured : ∀ measured : ListItem, (applied.measuredItems ++ [measured]).length = ix + 1 := fun measured => by
    rw [List.length_append, List.length_singleton, hlength]
  rw [hbelow]
  split
  · exact ⟨hkeeps.itemIx, hmeasured _, hsized.show hlength item, happliedSynced⟩
  · exact ⟨hkeeps.itemIx, hmeasured _, hsized.measure _ item, happliedSynced⟩

/-- **The first loop** keeps the locals together. -/
theorem Sized.walkBelow (w : Surroundings) (availableHeight : Pixels) (items : List ListItem) {ix : Nat} {l : Layout}
    (h : l.Sized l.scrollTop.itemIx) (hsynced : l.Synced) (hlength : l.measuredItems.length = ix) :
    (Layout.walkBelow w availableHeight ix items l).Sized l.scrollTop.itemIx ∧
      (Layout.walkBelow w availableHeight ix items l).Synced := by
  induction items generalizing ix l with
  | nil => exact ⟨h, hsynced⟩
  | cons item items ih =>
    rw [Layout.walkBelow]
    split
    · exact ⟨h, hsynced⟩
    · obtain ⟨hitemIx, hlength', hsized, hsynced'⟩ :=
        h.below w availableHeight hsynced hlength item
      rw [← hitemIx] at hsized ⊢
      exact ih hsized hsynced' hlength'

theorem walkBelow_measured (w : Surroundings) (availableHeight : Pixels) (items : List ListItem) (ix : Nat)
    (l : Layout) :
    ∃ more, (walkBelow w availableHeight ix items l).measuredItems = l.measuredItems ++ more := by
  induction items generalizing ix l with
  | nil => exact ⟨[], (List.append_nil _).symm⟩
  | cons item items ih =>
    rw [walkBelow]
    split
    · exact ⟨[], (List.append_nil _).symm⟩
    · obtain ⟨applied, happlied, hbelow⟩ := below_eq w availableHeight ix item l
      have hkeeps : applied.measuredItems = l.measuredItems := by
        rcases happlied with rfl | rfl
        · rfl
        · exact (keeps_applyPendingScroll l _).measuredItems
      obtain ⟨more, hmore⟩ := ih (ix + 1) (l.below w availableHeight ix item)
      obtain ⟨measured, hmeasured⟩ : ∃ measured,
          (l.below w availableHeight ix item).measuredItems = l.measuredItems ++ [measured] := by
        rw [hbelow]
        split
        · exact ⟨_, congrArg (· ++ [_]) hkeeps⟩
        · exact ⟨_, congrArg (· ++ [_]) hkeeps⟩
      exact ⟨measured :: more, by rw [hmore, hmeasured, List.append_assoc, List.singleton_append]⟩

theorem Hides.measured_eq {offset : Pixels} (h : l.Hides w availableHeight item offset) (hnil : l.measuredItems = [])
    (items : List ListItem) : (walkBelow w availableHeight 0 (item :: items) l).measuredItems[0]?.bind ListItem.size =
      some (w.renderItem l.scrollTop.itemIx) := by
  rw [walkBelow, if_neg (not_le.mpr h.measured), below_hidden h.hidden, h.unmeasured, Option.isNone_none, if_pos rfl,
    Option.getD_none]
  obtain ⟨more, hmore⟩ := walkBelow_measured w availableHeight items 1
    ((l.applyPendingScroll (w.renderItem l.scrollTop.itemIx)).measure (w.renderItem l.scrollTop.itemIx) item)
  have happlied : (l.applyPendingScroll (w.renderItem l.scrollTop.itemIx)).measuredItems = [] :=
    (keeps_applyPendingScroll l _).measuredItems.trans hnil
  rw [Nat.zero_add, hmore]
  show ((l.applyPendingScroll _).measuredItems ++ [_] ++ more)[0]?.bind ListItem.size = _
  rw [happlied]
  rfl

theorem Sized.walkUp (w : Surroundings) (availableHeight : Pixels) (before : List ListItem) {l : Layout}
    (h : l.Sized before.length) :
    (Layout.walkUp w availableHeight before l).2.Sized (Layout.walkUp w availableHeight before l).1.length := by
  induction before generalizing l with
  | nil => exact h
  | cons item before ih =>
    rw [Layout.walkUp]
    split
    · refine ih fun layout hlayout => ?_
      rcases List.mem_cons.mp hlayout with rfl | hmem
      · refine ⟨le_rfl, ?_⟩
        rw [Nat.sub_self]
        rfl
      · obtain ⟨hle, hsize⟩ := h layout hmem
        rw [List.length_cons] at hle hsize
        refine ⟨(Nat.le_succ _).trans hle, ?_⟩
        rw [show layout.index - before.length = layout.index - (before.length + 1) + 1 by omega]
        exact hsize
    · exact h

/-- **The viewport is filled**: it starts at the scroll top, and the locals stay together. -/
theorem fillViewport_sized {tree : SumTree ListItem ListItemSummary} {rounds : Nat}
    {c c' : SumTree.Cursor ListItem ListItemSummary Count} (hitems : tree.Valid True)
    (hbehind : Behind tree c before.reverse) (hrounds : before.length < rounds)
    (hfill : l.fillViewport w availableHeight rounds c = some (c', l')) (hsized : l.Sized before.length)
    (hsynced : l.Synced) : l'.Sized c'.position.count ∧
      (l' = l ∨ l'.scrollTop.itemIx = c'.position.count) ∧
      (¬(l'.state.logicalScrollTop = none ∧ l'.state.alignment = .bottom) → l'.Synced) := by
  rw [fillViewport] at hfill
  split at hfill
  · obtain ⟨c'', hwalk, hbehind'⟩ := fillAbove_eq w availableHeight hitems hbehind hrounds l
    rw [hwalk, Option.map_some] at hfill
    obtain ⟨rfl, rfl⟩ := Prod.mk.inj (Option.some.inj hfill)
    have hwalked := hsized.walkUp w availableHeight
    have hposition := hbehind'.position
    rw [List.length_reverse] at hposition
    rw [← hposition] at hwalked
    rw [adjustScrollTop]
    cases halignment : (Layout.walkUp w availableHeight before l).2.state.alignment with
    | top => exact ⟨hwalked, Or.inr rfl, fun _ => rfl⟩
    | bottom => exact ⟨hwalked, Or.inr rfl, fun hknown => absurd ⟨rfl, halignment⟩ hknown⟩
  · obtain ⟨rfl, rfl⟩ := Prod.mk.inj (Option.some.inj hfill)
    rw [hbehind.position, List.length_reverse]
    exact ⟨hsized, Or.inl rfl, fun _ => hsynced⟩

end Layout

end FcGpui.Elements
