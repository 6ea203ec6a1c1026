import FcGpui.Elements.ListItems

/-!
# Seeks by height

The items of a list, one below the other: `extent` is the height of what comes before an
index.  A cursor over summaries knows the number and the height of the items it has passed
(`position_eq`).  A seek to a height stops behind items that end at the height or above it
(`seekHeightRight_spec`); one to a number stops at the item with the number (`seekCount_stands`).
Hence the scroll position of a scroll top (`scrollTop_eq`).
-/

namespace FcGpui.Elements

open SumTree

variable {tree : SumTree ListItem ListItemSummary} {items passed remaining : List ListItem}
  {c : SumTree.Cursor ListItem ListItemSummary ListItemSummary}

/-- The height that counts in the tree. -/
def ListItem.knownHeight {P : Type} [Zero P] (item : ListItem P) : P := item.sizeHint.elim 0 Size.height

/-- The height of the items before an index. -/
def extent (items : List ListItem) (ix : Nat) : Pixels := ((items.take ix).map ListItem.knownHeight).sum

/-- The pixels from the first item to the scroll top. -/
def scrollPosition (items : List ListItem) (scrollTop : ListOffset) : Pixels :=
  extent items scrollTop.itemIx + scrollTop.offsetInItem

/-- No item has a negative height. -/
def Upright (items : List ListItem) : Prop := ∀ item ∈ items, 0 ≤ item.knownHeight

@[simp]
theorem extent_zero (items : List ListItem) : extent items 0 = 0 := rfl

theorem extent_succ {ix : Nat} {item : ListItem} (h : items[ix]? = some item) :
    extent items (ix + 1) = extent items ix + item.knownHeight := by
  obtain ⟨hlt, rfl⟩ := List.getElem?_eq_some_iff.mp h
  rw [extent, extent, List.take_succ_eq_append_getElem hlt, List.map_append, List.sum_append]
  simp

theorem extent_mono (h : Upright items) {m n : Nat} (hle : m ≤ n) : extent items m ≤ extent items n := by
  induction hle with
  | refl => exact le_rfl
  | @step n hle ih =>
    refine ih.trans ?_
    cases hitem : items[n]? with
    | none =>
      have hlength := List.getElem?_eq_none_iff.mp hitem
      rw [extent, extent, List.take_of_length_le hlength, List.take_of_length_le (hlength.trans (Nat.le_succ n))]
    | some item =>
      rw [extent_succ hitem]
      exact le_add_of_nonneg_right (h item (List.mem_of_getElem? hitem))

theorem extent_nonneg (h : Upright items) (ix : Nat) : 0 ≤ extent items ix := extent_mono h (Nat.zero_le ix)

theorem extent_take (items : List ListItem) (n : Nat) : extent items (items.take n).length = extent items n := by
  rw [extent, extent, List.length_take, ← List.take_take, List.take_length]

theorem extent_length (items rest : List ListItem) :
    extent (items ++ rest) items.length = (items.map ListItem.knownHeight).sum := by
  rw [extent, List.take_left' rfl]

theorem positionAfter_summary (items : List ListItem) :
    (positionAfter items : ListItemSummary).count = items.length ∧
      (positionAfter items : ListItemSummary).height = (items.map ListItem.knownHeight).sum := by
  induction items using List.reverseRecOn with
  | nil => exact ⟨rfl, rfl⟩
  | append_singleton items item ih =>
    rw [positionAfter_concat, List.length_append, List.map_append, List.sum_append, ← ih.1, ← ih.2]
    cases item with
    | unmeasured sizeHint focusHandle =>
      refine ⟨rfl, ?_⟩
      rw [List.map_singleton, List.sum_singleton]
      rfl
    | measured size focusHandle =>
      refine ⟨rfl, ?_⟩
      rw [List.map_singleton, List.sum_singleton]
      rfl

theorem summary_height (htree : tree.Valid True) :
    tree.summary.height = (tree.toList.map ListItem.knownHeight).sum := by
  have hsum : (Dimension.addSummary (Dimension.zero ListItemSummary : ListItemSummary) tree.summary) =
      positionAfter tree.toList := addSummary_zero_tree htree
  have hheight : 0 + tree.summary.height = (positionAfter tree.toList : ListItemSummary).height :=
    congrArg ListItemSummary.height hsum
  rw [← (positionAfter_summary tree.toList).2, ← hheight, zero_add]

theorem position_eq (h : Cursor.Stands True tree c passed remaining) :
    c.position.count = passed.length ∧ c.position.height = extent tree.toList passed.length := by
  rw [h.start trivial, h.toList, extent_length]
  exact positionAfter_summary passed

theorem indexes_summaryCount (n : Nat) :
    Indexes ListItem (Count.summaryTarget n : SeekTarget ListItemSummary) .right n where
  ahead items hitems := by
    intro hlt
    have hlt : compare n (positionAfter items : ListItemSummary).count = .lt := hlt
    rw [(positionAfter_summary items).1] at hlt
    exact absurd (compare_lt_iff_lt.mp hlt) (not_lt.mpr hitems)
  passes items := passes_summaryCount (positionAfter_summary items).1

theorem seekCount_stands (htree : tree.Valid True) (hc : c.tree = tree) (n : Nat) :
    ∃ found c', c.seek (Count.summaryTarget n) .right = some (found, c') ∧
      Cursor.Stands True tree c' (tree.toList.take n) (tree.toList.drop n) :=
  (indexes_summaryCount n).seek htree hc

/-- The method `scroll_top`. -/
theorem scrollTop_eq {s : StateInner} (hitems : s.items.Valid True) (scrollTop : ListOffset) :
    s.scrollTop scrollTop = some (scrollPosition s.items.toList scrollTop) := by
  obtain ⟨found, c, hseek, hstands⟩ := seekCount_stands hitems (c := Cursor.new s.items) rfl scrollTop.itemIx
  have hposition := (position_eq hstands).2
  rw [extent_take] at hposition
  rw [StateInner.scrollTop, hseek]
  simp only [Option.bind_eq_bind, Option.bind_some, hposition, scrollPosition]

theorem seekHeightRight_spec (htree : tree.Valid True) (hc : c.tree = tree) {height : Pixels} (hheight : 0 ≤ height) :
    ∃ found c' stop, c.seek (Height.summaryTarget height) .right = some (found, c') ∧
      c'.position.count = stop ∧ c'.position.height = extent tree.toList stop ∧
      stop ≤ tree.toList.length ∧ extent tree.toList stop ≤ height := by
  obtain ⟨found, c', crossed, remaining', hseek, hsought⟩ : ∃ found c' crossed remaining',
      c.seek (Height.summaryTarget height) .right = some (found, c') ∧
        Cursor.Sought True tree (Height.summaryTarget height) .right (Cursor.new tree) [] found c' crossed remaining' :=
    Cursor.seek_at (fun _ => ⟨trivial, inferInstance, inferInstance⟩) htree hc fun hlt =>
      absurd (compare_lt_iff_lt.mp hlt) (not_lt.mpr hheight)
  obtain ⟨hcount, hposition⟩ := position_eq hsought.stands
  refine ⟨found, c', _, hseek, hcount, hposition, hsought.stands.length_le, ?_⟩
  rcases hsought.moved with ⟨hnil, -⟩ | hpasses
  · rw [hnil, List.append_nil]
    exact hheight
  · rw [Cursor.passes, decide_eq_true_iff] at hpasses
    rw [← hposition]
    rcases hpasses with hgt | ⟨heq, -⟩
    · exact (compare_gt_iff_gt.mp hgt).le
    · exact (compare_eq_iff_eq.mp heq).ge

end FcGpui.Elements
