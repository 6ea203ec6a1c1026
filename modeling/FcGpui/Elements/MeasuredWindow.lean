import FcGpui.Elements.LayoutLoops

/-!
# What a layout measures

The three loops of a layout measure items that follow one another: `WalksBelow`, `WalksUp`
and `walkAbove_measures` say what each of them does.
-/

namespace FcGpui.Elements

open SumTree

variable {items : List ListItem} {w : Surroundings} {availableHeight : Pixels} {l : Layout}

/-- An item after it has been measured. -/
def MeasuredAs (item item' : ListItem) : Prop := ∃ size, item' = .measured size item.focusHandle

def ListItem.height (item : ListItem) : Pixels := item.size.elim 0 Size.height

def heights (items : List ListItem) : Pixels := (items.map ListItem.height).sum

@[simp]
theorem heights_nil : heights [] = 0 := rfl

@[simp]
theorem heights_cons (item : ListItem) (items : List ListItem) :
    heights (item :: items) = item.height + heights items := List.sum_cons

@[simp]
theorem heights_append (items items' : List ListItem) : heights (items ++ items') = heights items + heights items' := by
  rw [heights, List.map_append, List.sum_append]
  rfl

@[simp]
theorem height_measured (size : Size Pixels) (focusHandle : Option FocusHandle) :
    (ListItem.measured size focusHandle).height = size.height := rfl

/-- The layouts of the items from an index on. -/
def layoutsFrom (w : Surroundings) (first n : Nat) : List ItemLayout :=
  (List.range' first n).map fun ix => ⟨ix, w.renderItem ix⟩

@[simp]
theorem layoutsFrom_zero (first : Nat) : layoutsFrom w first 0 = [] := rfl

theorem layoutsFrom_succ (first n : Nat) :
    layoutsFrom w first (n + 1) = ⟨first, w.renderItem first⟩ :: layoutsFrom w (first + 1) n := by
  rw [layoutsFrom, List.range'_succ, List.map_cons]
  rfl

@[simp]
theorem layoutsFrom_index (first n : Nat) : (layoutsFrom w first n).map ItemLayout.index = List.range' first n := by
  rw [layoutsFrom, List.map_map]
  exact List.map_id _

/-- The height of the elements from an index on. -/
def renderedHeights (w : Surroundings) (first n : Nat) : Pixels :=
  ((List.range' first n).map fun ix => (w.renderItem ix).height).sum

theorem renderedHeights_succ (first n : Nat) :
    renderedHeights w first (n + 1) = (w.renderItem first).height + renderedHeights w (first + 1) n := by
  rw [renderedHeights, List.range'_succ, List.map_cons, List.sum_cons]
  rfl

/-- No size is negative. -/
structure NonNegative (w : Surroundings) (items : List ListItem) : Prop where
  rendered : ∀ ix, 0 ≤ (w.renderItem ix).height
  measured : ∀ item ∈ items, ∀ size, item.size = some size → 0 ≤ size.height

theorem NonNegative.mono {items' : List ListItem} (h : NonNegative w items) (hsub : items' ⊆ items) :
    NonNegative w items' := ⟨h.rendered, fun item hitem => h.measured item (hsub hitem)⟩

theorem NonNegative.getD (h : NonNegative w items) {item : ListItem} (hitem : item ∈ items) (ix : Nat) :
    0 ≤ (item.size.getD (w.renderItem ix)).height := by
  cases hsize : item.size with
  | none => exact h.rendered ix
  | some size => exact h.measured item hitem size hsize

theorem renderedHeights_nonneg (h : NonNegative w items) (first n : Nat) : 0 ≤ renderedHeights w first n :=
  List.sum_nonneg fun x hx => by
    obtain ⟨ix, -, rfl⟩ := List.mem_map.mp hx
    exact h.rendered ix

namespace Layout

@[simp]
theorem visibleHeight_measure (size : Size Pixels) (item : ListItem) :
    (l.measure size item).visibleHeight = l.visibleHeight + size.height := by
  simp only [visibleHeight, measure]
  ring

@[simp]
theorem visibleHeight_layOut (ix : Nat) (item : ListItem) : (l.layOut w ix item).visibleHeight = l.visibleHeight := rfl

/-! ### Down from the scroll top -/

/-- What the first loop does from an item on that is not the one at the scroll top: of the items
that it measures, the first `shown` are visible. -/
structure WalksBelow (w : Surroundings) (availableHeight : Pixels) (first : Nat) (items : List ListItem)
    (l l' : Layout) (walked rest measured : List ListItem) (shown : Nat) : Prop where
  state : l'.state = l.state
  scrollTop : l'.scrollTop = l.scrollTop
  parts : items = walked ++ rest
  measures : List.Forall₂ MeasuredAs walked measured
  measuredItems : l'.measuredItems = l.measuredItems ++ measured
  renderedHeight : l'.renderedHeight = l.renderedHeight + heights measured
  mono : l.visibleHeight ≤ l'.visibleHeight
  shown_le : shown ≤ walked.length
  itemLayouts : l'.itemLayouts = l.itemLayouts ++ layoutsFrom w first shown
  below : availableHeight ≤ l.visibleHeight → shown = 0
  /-- A viewport that is not filled shows all items. -/
  all : 0 ≤ l.state.overdraw → l'.visibleHeight < availableHeight →
    shown = items.length ∧ l'.renderedHeight = l.renderedHeight + renderedHeights w first items.length
  keeps : l.renderedFocusedItem = true → l'.renderedFocusedItem = true
  focused : ∀ item ∈ walked.take shown, item.containsFocused w.containsFocused = true →
    l'.renderedFocusedItem = true

variable {l' : Layout} {item : ListItem} {first shown : Nat} {walked rest measured : List ListItem}

theorem walksBelow_stop (hall : 0 ≤ l.state.overdraw → l.visibleHeight < availableHeight → items = []) :
    WalksBelow w availableHeight first items l l [] items [] 0 where
  state := rfl
  scrollTop := rfl
  parts := rfl
  measures := .nil
  measuredItems := (List.append_nil _).symm
  renderedHeight := (add_zero _).symm
  mono := le_rfl
  shown_le := le_rfl
  itemLayouts := (List.append_nil _).symm
  below := fun _ => rfl
  all := fun hoverdraw hvisible => by
    rw [hall hoverdraw hvisible]
    exact ⟨rfl, (add_zero _).symm⟩
  keeps := id
  focused := nofun

theorem WalksBelow.visible (hvisible : l.visibleHeight < availableHeight) (hsize : 0 ≤ (w.renderItem first).height)
    (h : WalksBelow w availableHeight (first + 1) items ((l.layOut w first item).measure (w.renderItem first) item) l'
      walked rest measured shown) :
    WalksBelow w availableHeight first (item :: items) l l' (item :: walked) rest
      (.measured (w.renderItem first) item.focusHandle :: measured) (shown + 1) where
  state := h.state
  scrollTop := h.scrollTop
  parts := congrArg (item :: ·) h.parts
  measures := .cons ⟨_, rfl⟩ h.measures
  measuredItems := by simp [h.measuredItems, measure, layOut]
  renderedHeight := by simp [h.renderedHeight, measure, layOut, add_assoc]
  mono := by
    have hmono := h.mono
    rw [visibleHeight_measure, visibleHeight_layOut] at hmono
    exact (le_add_of_nonneg_right hsize).trans hmono
  shown_le := Nat.succ_le_succ h.shown_le
  itemLayouts := by
    rw [h.itemLayouts, layoutsFrom_succ]
    simp [measure, layOut]
  below := fun hfilled => absurd hvisible (not_lt.mpr hfilled)
  all := fun hoverdraw hall => by
    obtain ⟨hshown, hheight⟩ := h.all hoverdraw hall
    refine ⟨congrArg Nat.succ hshown, ?_⟩
    rw [hheight, List.length_cons, renderedHeights_succ]
    simp [measure, layOut, add_assoc]
  keeps := fun hfocused => h.keeps (by simp [measure, layOut, hfocused])
  focused := fun item' hitem' hfocused => by
    rw [List.take_succ_cons] at hitem'
    rcases List.mem_cons.mp hitem' with rfl | hmem
    · exact h.keeps (by simp [measure, layOut, hfocused])
    · exact h.focused item' hmem hfocused

theorem WalksBelow.hidden (hhidden : availableHeight ≤ l.visibleHeight) {size : Size Pixels} (hsize : 0 ≤ size.height)
    (h : WalksBelow w availableHeight (first + 1) items (l.measure size item) l' walked rest measured shown) :
    WalksBelow w availableHeight first (item :: items) l l' (item :: walked) rest
      (.measured size item.focusHandle :: measured) 0 := by
  have hnext : availableHeight ≤ (l.measure size item).visibleHeight := by
    rw [visibleHeight_measure]
    exact hhidden.trans (le_add_of_nonneg_right hsize)
  obtain rfl := h.below hnext
  refine ⟨h.state, h.scrollTop, congrArg (item :: ·) h.parts, .cons ⟨_, rfl⟩ h.measures, ?_, ?_, ?_,
    Nat.zero_le _, h.itemLayouts, fun _ => rfl, ?_, h.keeps, nofun⟩
  · simp [h.measuredItems, measure]
  · simp [h.renderedHeight, measure, add_assoc]
  · have hmono := h.mono
    rw [visibleHeight_measure] at hmono
    exact (le_add_of_nonneg_right hsize).trans hmono
  · exact fun _ hall => absurd hall (not_lt.mpr (hnext.trans h.mono))

theorem walkBelow_walks (availableHeight : Pixels) (hsizes : NonNegative w items) {ix : Nat} (hix : ix ≠ 0) (l : Layout) :
    ∃ walked rest measured shown, WalksBelow w availableHeight (l.scrollTop.itemIx + ix) items l
      (walkBelow w availableHeight ix items l) walked rest measured shown := by
  induction items generalizing ix l with
  | nil => exact ⟨[], [], [], 0, walksBelow_stop fun _ _ => rfl⟩
  | cons item items ih =>
    have hrest : NonNegative w items := hsizes.mono (List.subset_cons_self _ _)
    rw [walkBelow]
    split
    · rename_i hbreak
      refine ⟨[], item :: items, [], 0, walksBelow_stop fun hoverdraw hvisible => ?_⟩
      exact absurd hvisible (not_lt.mpr ((le_add_of_nonneg_right hoverdraw).trans hbreak))
    · by_cases hvisible : l.visibleHeight < availableHeight
      · have hbelow : l.below w availableHeight ix item
            = (l.layOut w (l.scrollTop.itemIx + ix) item).measure (w.renderItem (l.scrollTop.itemIx + ix)) item := by
          simp only [Layout.below, hvisible, hix, decide_true, Bool.true_or, and_false, if_false, if_true]
        rw [hbelow]
        obtain ⟨walked, rest, measured, shown, hwalks⟩ := ih hrest (Nat.succ_ne_zero ix)
          ((l.layOut w (l.scrollTop.itemIx + ix) item).measure (w.renderItem (l.scrollTop.itemIx + ix)) item)
        exact ⟨_, _, _, _, WalksBelow.visible hvisible (hsizes.rendered _) hwalks⟩
      · have hbelow : l.below w availableHeight ix item
            = l.measure (item.size.getD (w.renderItem (l.scrollTop.itemIx + ix))) item := by
          simp only [Layout.below, hvisible, hix, decide_false, and_false, if_false, Bool.false_eq_true]
        rw [hbelow]
        obtain ⟨walked, rest, measured, shown, hwalks⟩ := ih hrest (Nat.succ_ne_zero ix)
          (l.measure (item.size.getD (w.renderItem (l.scrollTop.itemIx + ix))) item)
        exact ⟨_, _, _, _, WalksBelow.hidden (not_lt.mp hvisible) (hsizes.getD List.mem_cons_self _) hwalks⟩

/-! ### Up from the scroll top -/

/-- What the second loop does: `measured` are the last of the items, `rest` those it does not come to. -/
structure WalksUp (w : Surroundings) (availableHeight : Pixels) (before : List ListItem) (l l' : Layout)
    (rest walked measured : List ListItem) : Prop where
  state : l'.state = l.state
  scrollTop : l'.scrollTop = l.scrollTop
  parts : before.reverse = rest.reverse ++ walked
  measures : List.Forall₂ MeasuredAs walked measured
  measuredItems : l'.measuredItems = measured ++ l.measuredItems
  renderedHeight : l'.renderedHeight = l.renderedHeight + heights measured
  itemLayouts : l'.itemLayouts = layoutsFrom w rest.length walked.length ++ l.itemLayouts
  fills : rest = [] ∨ availableHeight ≤ l'.renderedHeight
  walks : l.renderedHeight < availableHeight → before ≠ [] → walked ≠ []
  keeps : l.renderedFocusedItem = true → l'.renderedFocusedItem = true
  focused : ∀ item ∈ walked, item.containsFocused w.containsFocused = true → l'.renderedFocusedItem = true

theorem walkUp_walks (w : Surroundings) (availableHeight : Pixels) (before : List ListItem) (l : Layout) :
    ∃ walked measured,
    WalksUp w availableHeight before l (walkUp w availableHeight before l).2
      (walkUp w availableHeight before l).1 walked measured := by
  induction before generalizing l with
  | nil =>
    refine ⟨[], [], rfl, rfl, rfl, .nil, rfl, (add_zero _).symm, rfl, Or.inl rfl, ?_, id, nofun⟩
    exact fun _ hne => absurd rfl hne
  | cons item before ih =>
    rw [walkUp]
    split
    · obtain ⟨walked, measured, h⟩ := ih (l.above w before.length item)
      generalize hrest : (walkUp w availableHeight before (l.above w before.length item)).1 = rest at h
      have hlength : before.length = rest.length + walked.length := by
        have hparts := congrArg List.length h.parts
        rwa [List.length_append, List.length_reverse, List.length_reverse] at hparts
      refine ⟨walked ++ [item], measured ++ [.measured (w.renderItem before.length) item.focusHandle],
        h.state, h.scrollTop, ?_, List.rel_append h.measures (.cons ⟨_, rfl⟩ .nil), ?_, ?_, ?_, h.fills, ?_, ?_, ?_⟩
      · rw [List.reverse_cons, h.parts, List.append_assoc]
      · rw [h.measuredItems]
        simp [Layout.above]
      · rw [h.renderedHeight]
        simp [Layout.above]
        ring
      · rw [h.itemLayouts, List.length_append, List.length_singleton, layoutsFrom, layoutsFrom,
          List.range'_concat, List.map_append, List.append_assoc]
        simp [Layout.above, hlength]
      · exact fun _ _ => by simp
      · exact fun hfocused => h.keeps (by simp [Layout.above, hfocused])
      · intro item' hitem' hfocused
        rcases List.mem_append.mp hitem' with hmem | hmem
        · exact h.focused item' hmem hfocused
        · obtain rfl := List.mem_singleton.mp hmem
          exact h.keeps (by simp [Layout.above, hfocused])
    · rename_i hfilled
      refine ⟨[], [], rfl, rfl, ?_, .nil, rfl, (add_zero _).symm, rfl, Or.inr (not_lt.mp hfilled), ?_, id, nofun⟩
      · exact (List.append_nil _).symm
      · exact fun hroom => absurd hroom hfilled

theorem walkAbove_measures (w : Surroundings) (overdraw : Pixels) (before : List ListItem)
    (leadingOverdraw : Pixels) (measuredItems : List ListItem) : ∃ walked measured,
      before.reverse = (walkAbove w overdraw before leadingOverdraw measuredItems).1.reverse ++ walked ∧
      List.Forall₂ MeasuredAs walked measured ∧
      (walkAbove w overdraw before leadingOverdraw measuredItems).2 = measured ++ measuredItems := by
  induction before generalizing leadingOverdraw measuredItems with
  | nil => exact ⟨[], [], rfl, .nil, rfl⟩
  | cons item before ih =>
    rw [walkAbove]
    split
    · obtain ⟨walked, measured, hparts, hmeasures, hitems⟩ := ih
        (leadingOverdraw + (item.size.getD (w.renderItem before.length)).height)
        (.measured (item.size.getD (w.renderItem before.length)) item.focusHandle :: measuredItems)
      refine ⟨walked ++ [item], measured ++ [.measured (item.size.getD (w.renderItem before.length)) item.focusHandle],
        ?_, List.rel_append hmeasures (.cons ⟨_, rfl⟩ .nil), ?_⟩
      · rw [List.reverse_cons, hparts, List.append_assoc]
      · rw [hitems, List.append_assoc]
        rfl
    · exact ⟨[], [], (List.append_nil _).symm, .nil, rfl⟩

end Layout

end FcGpui.Elements
