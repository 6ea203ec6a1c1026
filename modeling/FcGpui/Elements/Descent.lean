import FcGpui.Elements.MeasuredWindow

/-!
# The item at the scroll top

The first loop of a layout restores a pending scroll when it comes to the item at the
scroll top.  That item has no layout if it is below the viewport, and this is decided by
the offset of before: `Layout.Hides`.  Those behind it have one if they are visible with the
offset that has been restored.

**Main result.**  `Layout.walkBelow_descends`.
-/

namespace FcGpui.Elements

variable {items : List ListItem} {w : Surroundings} {availableHeight : Pixels} {l : Layout}

namespace Layout

/-- The offset that the pending scroll restores. -/
def restored (l : Layout) (height : Pixels) : Option Pixels :=
  l.state.pendingScroll.bind (PendingScroll.restored l.scrollTop height)

theorem applyPendingScroll_none {elementSize : Size Pixels} (h : l.restored elementSize.height = none) :
    l.applyPendingScroll elementSize = { l with state := { l.state with pendingScroll := none } } := by
  rw [restored] at h
  rw [applyPendingScroll, h]

theorem applyPendingScroll_some {elementSize : Size Pixels} {offset : Pixels}
    (h : l.restored elementSize.height = some offset) : l.applyPendingScroll elementSize = { l with
      scrollTop := ⟨l.scrollTop.itemIx, offset⟩
      state := { l.state with
        pendingScroll := none
        logicalScrollTop := some ⟨l.scrollTop.itemIx, offset⟩ } } := by
  rw [restored] at h
  rw [applyPendingScroll, h]

/-- The item at the scroll top is measured below the viewport, and then an offset restored. -/
structure Hides (w : Surroundings) (availableHeight : Pixels) (l : Layout) (item : ListItem) (offset : Pixels) :
    Prop where
  unmeasured : item.size = none
  hidden : availableHeight ≤ l.visibleHeight
  measured : l.visibleHeight < availableHeight + l.state.overdraw
  restored : l.restored (w.renderItem l.scrollTop.itemIx).height = some offset

/-- What applying a pending scroll leaves as it is. -/
structure Keeps (l applied : Layout) : Prop where
  alignment : applied.state.alignment = l.state.alignment
  overdraw : applied.state.overdraw = l.state.overdraw
  itemIx : applied.scrollTop.itemIx = l.scrollTop.itemIx
  measuredItems : applied.measuredItems = l.measuredItems
  renderedHeight : applied.renderedHeight = l.renderedHeight
  itemLayouts : applied.itemLayouts = l.itemLayouts

theorem keeps_applyPendingScroll (l : Layout) (elementSize : Size Pixels) :
    l.Keeps (l.applyPendingScroll elementSize) := by
  unfold applyPendingScroll
  split <;> exact ⟨rfl, rfl, rfl, rfl, rfl, rfl⟩

/-- What the first loop does: of the items that it measures, `skipped` have no layout, and the
next `shown` have one. -/
structure Descends (w : Surroundings) (items : List ListItem) (l l' : Layout) (walked rest measured : List ListItem)
    (skipped shown : Nat) : Prop where
  alignment : l'.state.alignment = l.state.alignment
  itemIx : l'.scrollTop.itemIx = l.scrollTop.itemIx
  parts : items = walked ++ rest
  measures : List.Forall₂ MeasuredAs walked measured
  measuredItems : l'.measuredItems = l.measuredItems ++ measured
  renderedHeight : l'.renderedHeight = l.renderedHeight + heights measured
  shown_le : skipped + shown ≤ walked.length
  itemLayouts : l'.itemLayouts = l.itemLayouts ++ layoutsFrom w (l.scrollTop.itemIx + skipped) shown
  focused : ∀ item ∈ (walked.drop skipped).take shown, item.containsFocused w.containsFocused = true →
    l'.renderedFocusedItem = true

variable {l' applied : Layout} {item : ListItem} {walked rest measured : List ListItem} {shown : Nat}

theorem descends_stop : Descends w items l l [] items [] 0 0 where
  alignment := rfl
  itemIx := rfl
  parts := rfl
  measures := .nil
  measuredItems := (List.append_nil _).symm
  renderedHeight := (add_zero _).symm
  shown_le := le_rfl
  itemLayouts := (List.append_nil _).symm
  focused := by simp

theorem Descends.unskip (h : Descends w items l l' walked rest measured 1 0) :
    Descends w items l l' walked rest measured 0 0 :=
  ⟨h.alignment, h.itemIx, h.parts, h.measures, h.measuredItems, h.renderedHeight, Nat.zero_le _, h.itemLayouts,
    by simp⟩

theorem WalksBelow.visibleFirst (hkeeps : l.Keeps applied)
    (h : WalksBelow w availableHeight (l.scrollTop.itemIx + 1) items
      ((applied.layOut w l.scrollTop.itemIx item).measure (w.renderItem l.scrollTop.itemIx) item) l' walked rest
      measured shown) :
    Descends w (item :: items) l l' (item :: walked) rest
      (.measured (w.renderItem l.scrollTop.itemIx) item.focusHandle :: measured) 0 (shown + 1) where
  alignment := by
    rw [h.state]
    exact hkeeps.alignment
  itemIx := by
    rw [h.scrollTop]
    exact hkeeps.itemIx
  parts := congrArg (item :: ·) h.parts
  measures := .cons ⟨_, rfl⟩ h.measures
  measuredItems := by simp [h.measuredItems, measure, layOut, hkeeps.measuredItems]
  renderedHeight := by simp [h.renderedHeight, measure, layOut, hkeeps.renderedHeight, add_assoc]
  shown_le := by
    have hle := h.shown_le
    rw [List.length_cons]
    omega
  itemLayouts := by
    rw [h.itemLayouts, Nat.add_zero, layoutsFrom_succ]
    simp [measure, layOut, hkeeps.itemLayouts]
  focused := by
    intro item' hitem' hfocused
    rw [List.drop_zero, List.take_succ_cons] at hitem'
    rcases List.mem_cons.mp hitem' with rfl | hmem
    · exact h.keeps (by simp [measure, layOut, hfocused])
    · exact h.focused item' hmem hfocused

theorem WalksBelow.hiddenFirst (hkeeps : l.Keeps applied) {size : Size Pixels}
    (h : WalksBelow w availableHeight (l.scrollTop.itemIx + 1) items (applied.measure size item) l' walked rest
      measured shown) :
    Descends w (item :: items) l l' (item :: walked) rest (.measured size item.focusHandle :: measured) 1 shown where
  alignment := by
    rw [h.state]
    exact hkeeps.alignment
  itemIx := by
    rw [h.scrollTop]
    exact hkeeps.itemIx
  parts := congrArg (item :: ·) h.parts
  measures := .cons ⟨_, rfl⟩ h.measures
  measuredItems := by simp [h.measuredItems, measure, hkeeps.measuredItems]
  renderedHeight := by simp [h.renderedHeight, measure, hkeeps.renderedHeight, add_assoc]
  shown_le := by
    have hle := h.shown_le
    rw [List.length_cons]
    omega
  itemLayouts := by
    rw [h.itemLayouts]
    simp [measure, hkeeps.itemLayouts]
  focused := h.focused

/-- What comes of the first loop where the item at the scroll top has been skipped. -/
structure Skipped (w : Surroundings) (availableHeight : Pixels) (items : List ListItem) (l l' : Layout) (shown : Nat) :
    Prop where
  hides : ∃ item, items.head? = some item ∧ ∃ offset, l.Hides w availableHeight item offset ∧
    l'.scrollTop.offsetInItem = offset
  /-- A viewport that is not filled shows all the others. -/
  all : l'.visibleHeight < availableHeight → shown + 1 = items.length ∧
    l'.renderedHeight = l.renderedHeight + renderedHeights w l.scrollTop.itemIx items.length
  fits : l.renderedHeight + renderedHeights w l.scrollTop.itemIx items.length - l'.scrollTop.offsetInItem < availableHeight →
    l'.visibleHeight < availableHeight

theorem walkBelow_fits (hsizes : NonNegative w items) {ix : Nat} (hix : ix ≠ 0) (l : Layout)
    (hoverdraw : 0 ≤ l.state.overdraw)
    (h : l.visibleHeight + renderedHeights w (l.scrollTop.itemIx + ix) items.length < availableHeight) :
    (walkBelow w availableHeight ix items l).visibleHeight < availableHeight := by
  induction items generalizing ix l with
  | nil => simpa [renderedHeights, walkBelow] using h
  | cons item items ih =>
    rw [List.length_cons, renderedHeights_succ] at h
    have hsize := hsizes.rendered (l.scrollTop.itemIx + ix)
    have hrest := renderedHeights_nonneg hsizes (l.scrollTop.itemIx + ix + 1) items.length
    have hvisible : l.visibleHeight < availableHeight := by linarith
    have hbelow : l.below w availableHeight ix item
        = (l.layOut w (l.scrollTop.itemIx + ix) item).measure (w.renderItem (l.scrollTop.itemIx + ix)) item := by
      simp only [Layout.below, hvisible, hix, decide_true, Bool.true_or, and_false, if_false, if_true]
    rw [walkBelow, if_neg (by linarith), hbelow]
    refine ih (hsizes.mono (List.subset_cons_self _ _)) (Nat.succ_ne_zero ix) _ hoverdraw ?_
    rw [visibleHeight_measure, visibleHeight_layOut, add_assoc]
    exact h

/-- What applying a pending scroll does to the item at the scroll top that is below the viewport. -/
theorem below_hidden (hhidden : availableHeight ≤ l.visibleHeight) :
    l.below w availableHeight 0 item = (if item.size.isNone = true then
        l.applyPendingScroll (w.renderItem l.scrollTop.itemIx) else l).measure
      (item.size.getD (w.renderItem l.scrollTop.itemIx)) item := by
  simp only [Layout.below, not_lt.mpr hhidden, decide_false, Bool.false_or, and_true, if_false, Bool.false_eq_true,
    Nat.add_zero]

theorem walkBelow_behind (availableHeight : Pixels) (item : ListItem) (hsizes : NonNegative w items)
    (hkeeps : l.Keeps applied) (size : Size Pixels) : ∃ walked rest measured shown,
      WalksBelow w availableHeight (l.scrollTop.itemIx + 1) items (applied.measure size item)
        (walkBelow w availableHeight 1 items (applied.measure size item)) walked rest measured shown := by
  rw [← hkeeps.itemIx]
  exact walkBelow_walks availableHeight hsizes Nat.one_ne_zero (applied.measure size item)

theorem walkBelow_skips (hsizes : NonNegative w items) {offset : Pixels} (h : l.Hides w availableHeight item offset) :
    ∃ walked rest measured shown,
      Descends w (item :: items) l (walkBelow w availableHeight 1 items
        ((l.applyPendingScroll (w.renderItem l.scrollTop.itemIx)).measure (w.renderItem l.scrollTop.itemIx) item))
        walked rest measured 1 shown ∧
      Skipped w availableHeight (item :: items) l (walkBelow w availableHeight 1 items
        ((l.applyPendingScroll (w.renderItem l.scrollTop.itemIx)).measure (w.renderItem l.scrollTop.itemIx) item))
        shown := by
  have hkeeps := keeps_applyPendingScroll l (w.renderItem l.scrollTop.itemIx)
  have happlied := applyPendingScroll_some h.restored
  generalize l.applyPendingScroll (w.renderItem l.scrollTop.itemIx) = applied at hkeeps happlied
  have hoffset : applied.scrollTop.offsetInItem = offset := by rw [happlied]
  have hoverdraw : 0 ≤ (applied.measure (w.renderItem l.scrollTop.itemIx) item).state.overdraw := by
    show 0 ≤ applied.state.overdraw
    rw [hkeeps.overdraw]
    have hhidden := h.hidden
    have hmeasured := h.measured
    linarith
  obtain ⟨walked, rest, measured, shown, hwalks⟩ := walkBelow_behind availableHeight item hsizes hkeeps
    (w.renderItem l.scrollTop.itemIx)
  refine ⟨_, _, _, _, hwalks.hiddenFirst hkeeps, ⟨item, rfl, offset, h, ?_⟩, fun hvisible => ?_, fun hfits => ?_⟩
  · rw [hwalks.scrollTop]
    exact hoffset
  · obtain ⟨hshown, hheight⟩ := hwalks.all hoverdraw hvisible
    refine ⟨congrArg Nat.succ hshown, ?_⟩
    rw [hheight, List.length_cons, renderedHeights_succ, ← add_assoc, ← hkeeps.renderedHeight]
    rfl
  · refine walkBelow_fits hsizes Nat.one_ne_zero _ hoverdraw ?_
    rw [hwalks.scrollTop, List.length_cons, renderedHeights_succ, ← hkeeps.renderedHeight] at hfits
    have hsame : (applied.measure (w.renderItem l.scrollTop.itemIx) item).scrollTop = applied.scrollTop := rfl
    rw [hsame] at hfits
    rw [hsame, hkeeps.itemIx, visibleHeight_measure, visibleHeight]
    linarith

/-- **The first loop**, from the item at the scroll top. -/
theorem walkBelow_descends (availableHeight : Pixels) (hsizes : NonNegative w items) (l : Layout) :
    ∃ walked rest measured skipped shown,
    Descends w items l (walkBelow w availableHeight 0 items l) walked rest measured skipped shown ∧
      (skipped = 0 ∧ (∀ item offset, items.head? = some item → ¬ l.Hides w availableHeight item offset) ∨
        skipped = 1 ∧ Skipped w availableHeight items l (walkBelow w availableHeight 0 items l) shown) := by
  cases items with
  | nil => exact ⟨[], [], [], 0, 0, descends_stop, Or.inl ⟨rfl, by simp⟩⟩
  | cons item items =>
    have hrest : NonNegative w items := hsizes.mono (List.subset_cons_self _ _)
    rw [walkBelow]
    split
    · rename_i hbreak
      refine ⟨[], item :: items, [], 0, 0, descends_stop, Or.inl ⟨rfl, fun item' offset _ hhides => ?_⟩⟩
      exact absurd hhides.measured (not_lt.mpr hbreak)
    · by_cases hvisible : l.visibleHeight < availableHeight
      · have hbelow : l.below w availableHeight 0 item
            = ((l.applyPendingScroll (w.renderItem l.scrollTop.itemIx)).layOut w l.scrollTop.itemIx item).measure
                (w.renderItem l.scrollTop.itemIx) item := by
          simp only [Layout.below, hvisible, decide_true, Bool.true_or, and_self, if_true, Nat.add_zero]
        have hkeeps := keeps_applyPendingScroll l (w.renderItem l.scrollTop.itemIx)
        obtain ⟨walked, rest, measured, shown, hwalks⟩ := walkBelow_walks availableHeight hrest Nat.one_ne_zero
          (l.below w availableHeight 0 item)
        have hfirst : (l.below w availableHeight 0 item).scrollTop.itemIx = l.scrollTop.itemIx := by
          rw [hbelow]
          exact hkeeps.itemIx
        rw [hfirst, hbelow] at hwalks
        rw [hbelow]
        refine ⟨_, _, _, _, _, hwalks.visibleFirst hkeeps, Or.inl ⟨rfl, fun item' offset _ hhides => ?_⟩⟩
        exact absurd hvisible (not_lt.mpr hhides.hidden)
      · rename_i hgoes
        have hhidden := not_lt.mp hvisible
        have hmeasured := not_le.mp hgoes
        rw [below_hidden hhidden]
        by_cases hrestored : ∃ offset, l.Hides w availableHeight item offset
        · obtain ⟨offset, hhides⟩ := hrestored
          rw [hhides.unmeasured, Option.isNone_none, if_pos rfl, Option.getD_none]
          obtain ⟨walked, rest, measured, shown, hwalks, hskipped⟩ := walkBelow_skips hrest hhides
          exact ⟨_, _, _, _, _, hwalks, Or.inr ⟨rfl, hskipped⟩⟩
        · have hkeeps : l.Keeps (if item.size.isNone = true then
              l.applyPendingScroll (w.renderItem l.scrollTop.itemIx) else l) := by
            split
            · exact keeps_applyPendingScroll l _
            · exact ⟨rfl, rfl, rfl, rfl, rfl, rfl⟩
          have hoffset : (if item.size.isNone = true then
              l.applyPendingScroll (w.renderItem l.scrollTop.itemIx) else l).scrollTop = l.scrollTop := by
            split
            · rename_i hnone
              rw [applyPendingScroll_none]
              rw [Option.eq_none_iff_forall_ne_some]
              intro offset hsome
              exact hrestored ⟨offset, Option.isNone_iff_eq_none.mp hnone, hhidden, hmeasured, hsome⟩
            · rfl
          generalize (if item.size.isNone = true then
            l.applyPendingScroll (w.renderItem l.scrollTop.itemIx) else l) = applied at hkeeps hoffset
          obtain ⟨walked, rest, measured, shown, hwalks⟩ := walkBelow_behind availableHeight item hrest hkeeps
            (item.size.getD (w.renderItem l.scrollTop.itemIx))
          have hshown : shown = 0 := by
            refine hwalks.below ?_
            have hsame : applied.visibleHeight = l.visibleHeight := by
              rw [visibleHeight, hkeeps.renderedHeight, hoffset, visibleHeight]
            rw [visibleHeight_measure, hsame]
            exact hhidden.trans (le_add_of_nonneg_right (hsizes.getD List.mem_cons_self _))
          subst hshown
          refine ⟨_, _, _, _, _, (hwalks.hiddenFirst hkeeps).unskip, Or.inl ⟨rfl, fun item' offset hhead hhides => ?_⟩⟩
          obtain rfl := Option.some.inj hhead
          exact hrestored ⟨offset, hhides⟩

end Layout

end FcGpui.Elements
