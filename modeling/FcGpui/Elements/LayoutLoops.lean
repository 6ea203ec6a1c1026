import FcGpui.Elements.ListItems

/-!
# The loops of a layout

Each loop over a cursor is one over the list of the items on that side of it, the nearest
first: `walkBelow`, `walkUp` and `walkAbove`.  `measureBelow_eq`, `fillAbove_eq` and
`measureAbove_eq` say so for a cursor of a valid tree, so that no loop runs out of rounds or
panics; a cursor that has gone up past the first item is `Behind` nothing.

What they do to the items is `Measures`: an item after the other is measured, and keeps its
focus handle.
-/

namespace FcGpui.Elements

open SumTree

variable {items : SumTree ListItem ListItemSummary} {c : SumTree.Cursor ListItem ListItemSummary Count}
  {passed remaining before : List ListItem} {w : Surroundings} {availableHeight : Pixels} {rounds : Nat}

/-! ### Cursors that go up -/

/-- The cursor is behind the items, or before the start if there are none. -/
inductive Behind (items : SumTree ListItem ListItemSummary) :
    SumTree.Cursor ListItem ListItemSummary Count → List ListItem → Prop
  | stands {c : SumTree.Cursor ListItem ListItemSummary Count} {passed remaining : List ListItem}
      (h : Cursor.Stands True items c passed remaining) : Behind items c passed
  | beforeStart : Behind items (Cursor.beforeStart items true) []

theorem Behind.position (h : Behind items c passed) : c.position.count = passed.length := by
  cases h with
  | stands h => rw [h.start trivial, positionAfter_count]
  | beforeStart => rfl

theorem Behind.prev (hitems : items.Valid True) {item : ListItem} (h : Behind items c (passed ++ [item])) :
    ∃ c', c.prev = some c' ∧ c'.item = some (some item) ∧ Behind items c' passed := by
  generalize hall : passed ++ [item] = all at h
  cases h with
  | stands h =>
    subst hall
    obtain ⟨c', hprev, hstands⟩ := h.prev (fun _ => ⟨trivial, inferInstance, inferInstance⟩) hitems
    exact ⟨c', hprev, hstands.item, .stands hstands⟩
  | beforeStart => exact absurd hall (by simp)

theorem Behind.prev_nil (hitems : items.Valid True) (h : Behind items c []) :
    ∃ c', c.prev = some c' ∧ c'.item = some none ∧ Behind items c' [] := by
  generalize hall : ([] : List ListItem) = all at h
  cases h with
  | stands h =>
    subst hall
    exact ⟨_, h.prev_start (fun _ => ⟨trivial, inferInstance, inferInstance⟩) hitems, rfl, .beforeStart⟩
  | beforeStart => exact ⟨_, Cursor.searchBackward_start items _, rfl, .beforeStart⟩

/-! ### The loops over lists -/

namespace Layout

/-- The first loop. -/
def walkBelow (w : Surroundings) (availableHeight : Pixels) : Nat → List ListItem → Layout → Layout
  | _, [], l => l
  | ix, item :: items, l =>
    if availableHeight + l.state.overdraw ≤ l.visibleHeight then l
    else walkBelow w availableHeight (ix + 1) items (l.below w availableHeight ix item)

/-- The second loop, with the items that it does not come to. -/
def walkUp (w : Surroundings) (availableHeight : Pixels) : List ListItem → Layout → List ListItem × Layout
  | [], l => ([], l)
  | item :: before, l =>
    if l.renderedHeight < availableHeight then walkUp w availableHeight before (l.above w before.length item)
    else (item :: before, l)

/-- The third loop, with the items that it does not come to. -/
def walkAbove (w : Surroundings) (overdraw : Pixels) :
    List ListItem → Pixels → List ListItem → List ListItem × List ListItem
  | [], _, measuredItems => ([], measuredItems)
  | item :: before, leadingOverdraw, measuredItems =>
    if leadingOverdraw < overdraw then
      let size := item.size.getD (w.renderItem before.length)
      walkAbove w overdraw before (leadingOverdraw + size.height) (.measured size item.focusHandle :: measuredItems)
    else (item :: before, measuredItems)

theorem measureBelow_eq (w : Surroundings) (availableHeight : Pixels) (hitems : items.Valid True)
    (hstands : Cursor.Stands True items c passed remaining) (hrounds : remaining.length < rounds) (ix : Nat) (l : Layout) :
    measureBelow w availableHeight rounds ix c l = some (walkBelow w availableHeight ix remaining l) := by
  induction remaining generalizing rounds ix c l passed with
  | nil =>
    obtain ⟨rounds, rfl⟩ := Nat.exists_eq_succ_of_ne_zero (Nat.ne_of_gt hrounds)
    rw [measureBelow, hstands.iterNext_end]
    rfl
  | cons item remaining ih =>
    obtain ⟨rounds, rfl⟩ := Nat.exists_eq_succ_of_ne_zero (Nat.ne_of_gt (Nat.zero_lt_of_lt hrounds))
    obtain ⟨c', hnext, hstands'⟩ := hstands.iterNext (fun _ => ⟨trivial, inferInstance, inferInstance⟩) hitems
    simp only [measureBelow, hnext, Option.bind_eq_bind, Option.bind_some, walkBelow]
    split
    · rfl
    · exact ih hstands' (Nat.lt_of_succ_lt_succ hrounds) _ _

theorem fillAbove_eq (w : Surroundings) (availableHeight : Pixels) (hitems : items.Valid True)
    (hbehind : Behind items c before.reverse) (hrounds : before.length < rounds) (l : Layout) :
    ∃ c', l.fillAbove w availableHeight rounds c = some (c', (walkUp w availableHeight before l).2) ∧
      Behind items c' (walkUp w availableHeight before l).1.reverse := by
  induction before generalizing rounds c l with
  | nil =>
    obtain ⟨rounds, rfl⟩ := Nat.exists_eq_succ_of_ne_zero (Nat.ne_of_gt hrounds)
    obtain ⟨c', hprev, hitem, hbehind'⟩ := Behind.prev_nil hitems hbehind
    rw [fillAbove]
    split
    · refine ⟨c', ?_, hbehind'⟩
      simp only [hprev, hitem, Option.bind_eq_bind, Option.bind_some]
      rfl
    · exact ⟨c, rfl, hbehind⟩
  | cons item before ih =>
    obtain ⟨rounds, rfl⟩ := Nat.exists_eq_succ_of_ne_zero (Nat.ne_of_gt (Nat.zero_lt_of_lt hrounds))
    rw [List.reverse_cons] at hbehind
    obtain ⟨c', hprev, hitem, hbehind'⟩ := hbehind.prev hitems
    rw [fillAbove, walkUp]
    split
    · obtain ⟨c'', hfill, hbehind''⟩ := ih hbehind' (Nat.lt_of_succ_lt_succ hrounds) (l.above w before.length item)
      refine ⟨c'', ?_, hbehind''⟩
      simp only [hprev, hitem, Option.bind_eq_bind, Option.bind_some, hbehind'.position, List.length_reverse]
      exact hfill
    · refine ⟨c, rfl, ?_⟩
      rw [List.reverse_cons]
      exact hbehind

theorem measureAbove_eq (w : Surroundings) (overdraw : Pixels) (hitems : items.Valid True)
    (hbehind : Behind items c before.reverse) (hrounds : before.length < rounds) (leadingOverdraw : Pixels) (measuredItems : List ListItem) :
    ∃ c', measureAbove w overdraw rounds c leadingOverdraw measuredItems
        = some (c', (walkAbove w overdraw before leadingOverdraw measuredItems).2) ∧
      Behind items c' (walkAbove w overdraw before leadingOverdraw measuredItems).1.reverse := by
  induction before generalizing rounds c leadingOverdraw measuredItems with
  | nil =>
    obtain ⟨rounds, rfl⟩ := Nat.exists_eq_succ_of_ne_zero (Nat.ne_of_gt hrounds)
    obtain ⟨c', hprev, hitem, hbehind'⟩ := Behind.prev_nil hitems hbehind
    rw [measureAbove]
    split
    · refine ⟨c', ?_, hbehind'⟩
      simp only [hprev, hitem, Option.bind_eq_bind, Option.bind_some]
      rfl
    · exact ⟨c, rfl, hbehind⟩
  | cons item before ih =>
    obtain ⟨rounds, rfl⟩ := Nat.exists_eq_succ_of_ne_zero (Nat.ne_of_gt (Nat.zero_lt_of_lt hrounds))
    rw [List.reverse_cons] at hbehind
    obtain ⟨c', hprev, hitem, hbehind'⟩ := hbehind.prev hitems
    rw [measureAbove, walkAbove]
    split
    · obtain ⟨c'', hmeasure, hbehind''⟩ := ih hbehind' (Nat.lt_of_succ_lt_succ hrounds) _ _
      refine ⟨c'', ?_, hbehind''⟩
      simp only [hprev, hitem, Option.bind_eq_bind, Option.bind_some, hbehind'.position, List.length_reverse]
      exact hmeasure
    · refine ⟨c, rfl, ?_⟩
      rw [List.reverse_cons]
      exact hbehind

/-! ### The focused item -/

/-- The item at the index holds the focus. -/
def FocusedAt (w : Surroundings) (l : List ListItem) (ix : Nat) : Prop :=
  ∃ item, l[ix]? = some item ∧ item.containsFocused w.containsFocused = true

theorem findFocused_spec (hitems : items.Valid True) (rounds : Nat) :
    ∀ {c : FilterCursor ListItem ListItemSummary Count} {passed remaining : List ListItem},
      Cursor.Stands True items c.cursor passed remaining → remaining.length < rounds →
      ∃ found, findFocused w rounds c = some found ∧ ∀ ix ∈ found, FocusedAt w items.toList ix := by
  induction rounds with
  | zero => exact fun _ hrounds => absurd hrounds (Nat.not_lt_zero _)
  | succ rounds ih =>
    intro c passed remaining hstands hrounds
    have hitem : c.item = some remaining.head? := hstands.item
    rw [findFocused, hitem]
    cases remaining with
    | nil => exact ⟨none, rfl, nofun⟩
    | cons item remaining =>
      simp only [List.head?_cons, Option.bind_eq_bind, Option.bind_some]
      split
      · rename_i hfocused
        refine ⟨_, rfl, ?_⟩
        rintro _ ⟨⟩
        have hstart : c.start = positionAfter passed := hstands.start trivial
        refine ⟨item, ?_, hfocused⟩
        rw [hstart, positionAfter_count, hstands.toList, List.getElem?_append_right (Nat.le_refl _), Nat.sub_self]
        rfl
      · obtain ⟨c', skipped, remaining', hnext, hstands', -, -⟩ := Cursor.searchForward_item
          (fun _ => ⟨trivial, inferInstance, inferInstance⟩) hitems hstands c.filterNode
        have hle : remaining'.length ≤ remaining.length := by
          have hlength := congrArg List.length (hstands.toList.symm.trans hstands'.toList)
          simp only [List.length_append, List.length_cons] at hlength
          omega
        have hc' : c.next = some { c with cursor := c' } := by
          rw [FilterCursor.next, hnext]
          rfl
        obtain ⟨found, hfound, hix⟩ := ih (c := { c with cursor := c' }) hstands'
          (Nat.lt_of_le_of_lt hle (Nat.lt_of_succ_lt_succ hrounds))
        refine ⟨found, ?_, hix⟩
        simp only [hc', Option.bind_some]
        exact hfound

/-- **The layout behind the visible ones**, if there is one, is of a focused item. -/
theorem focusedLayout_spec (hitems : items.Valid True) (renderedFocusedItem : Bool) :
    ∃ trailing, focusedLayout w items renderedFocusedItem = some trailing ∧ trailing.length ≤ 1 ∧
      (renderedFocusedItem = true → trailing = []) ∧
      ∀ layout ∈ trailing, FocusedAt w items.toList layout.index := by
  cases renderedFocusedItem with
  | true => exact ⟨[], rfl, Nat.zero_le 1, fun _ => rfl, fun _ h => absurd h List.not_mem_nil⟩
  | false =>
    obtain ⟨c, skipped, remaining, hnext, hstands, -, -⟩ := Cursor.searchForward_start (D := Count) (R := True)
      (fun _ => ⟨trivial, inferInstance, inferInstance⟩) hitems false ListItemSummary.hasFocusHandles
    have hc : (FilterCursor.new items ListItemSummary.hasFocusHandles :
        FilterCursor ListItem ListItemSummary Count).next = some ⟨c, ListItemSummary.hasFocusHandles⟩ := by
      rw [FilterCursor.next]
      exact congrArg (Option.map _) hnext
    have hrounds : remaining.length < items.rounds := by
      have hlength := congrArg List.length hstands.toList
      rw [List.length_append] at hlength
      have hlt := hitems.length_lt_rounds
      omega
    obtain ⟨found, hfound, hix⟩ := findFocused_spec (w := w) hitems items.rounds
      (c := ⟨c, ListItemSummary.hasFocusHandles⟩) hstands hrounds
    refine ⟨found.toList.map fun itemIndex => ⟨itemIndex, w.renderItem itemIndex⟩, ?_, ?_, by simp, ?_⟩
    · simp only [focusedLayout, Bool.false_eq_true, if_false, hc, Option.bind_eq_bind, Option.bind_some, hfound]
    · cases found with
      | none => exact Nat.zero_le 1
      | some ix => exact Nat.le_refl 1
    · intro layout hlayout
      obtain ⟨ix, hmem, rfl⟩ := List.mem_map.mp hlayout
      exact hix ix (Option.mem_toList.mp hmem)

end Layout

end FcGpui.Elements
