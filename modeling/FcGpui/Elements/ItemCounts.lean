import FcGpui.Elements.ListState
import FcGpui.SumTree.Boundary
import FcGpui.SumTree.Tracking

/-!
# The number of items of a list

What holds of a list with any kind of pixels, rounded ones too: the tree knows how many items
it has (`summary_count`), a seek to a number stops there (`seekCount_lands`), and what moves the
scroll top leaves the items as they are (`moveTo_spec`, `scroll_items`).
-/

namespace FcGpui.Elements

open SumTree StateInner

variable {P : Type}

/-! ### Counting -/

/-- A target that is compared by a count passes what does not exceed it. -/
theorem passes_of_cmp {D : Type} {target : SeekTarget D} {position : D} {n count : Nat}
    (h : target.cmp position = compare n count) : Cursor.passes target .right position = true ↔ count ≤ n := by
  rw [Cursor.passes, decide_eq_true_iff, h, compare_gt_iff_gt, compare_eq_iff_eq]
  simp only [and_true]
  omega

theorem passes_summaryCount {n count : Nat} {position : ListItemSummary P} (h : position.count = count) :
    Cursor.passes (Count.summaryTarget n) .right position = true ↔ count ≤ n :=
  passes_of_cmp (congrArg (compare n) h)

theorem passes_count {n count : Nat} {position : Count} (h : position.count = count) :
    Cursor.passes (Count.target n) .right position = true ↔ count ≤ n := passes_of_cmp (congrArg (compare n) h)

variable [Zero P]

theorem count_item (item : ListItem P) : (Item.summary item : ListItemSummary P).count = 1 := by
  cases item <;> rfl

variable [Add P] {tree : SumTree (ListItem P) (ListItemSummary P)}

theorem count_add (a b : ListItemSummary P) : (Summary.add a b).count = a.count + b.count := rfl

theorem count_itemSum (items : List (ListItem P)) : (itemSum items : ListItemSummary P).count = items.length := by
  induction items using List.reverseRecOn with
  | nil => rfl
  | append_singleton items item ih =>
    rw [itemSum, List.map_append, List.map_singleton, Summary.sum_concat, count_add, count_item, List.length_append]
    exact congrArg (· + 1) ih

theorem WellFormed.summary_count (h : tree.WellFormed True) : tree.summary.count = tree.toList.length := by
  rw [h.summary_eq trivial, count_itemSum]

theorem summary_count (h : tree.Valid True) : tree.summary.count = tree.toList.length := by
  rcases h with rfl | h
  · rfl
  · exact WellFormed.summary_count h

/-- A dimension that counts what it is given. -/
theorem tracks_of_count {D : Type} [Dimension D (ListItemSummary P)] {count : D → Nat}
    (hzero : count (Dimension.zero (ListItemSummary P)) = 0)
    (hadd : ∀ (position : D) (summary : ListItemSummary P),
      count (Dimension.addSummary position summary) = count position + summary.count) :
    Cursor.Tracks True fun (position : D) (items : List (ListItem P)) => count position = items.length where
  zero := hzero
  item {position items item} h := by rw [hadd, h, count_item, List.length_append, List.length_singleton]
  tree {position items t} h ht := by rw [hadd, h, WellFormed.summary_count ht, List.length_append]

theorem tracks_count : Cursor.Tracks True fun (position : Count) (items : List (ListItem P)) =>
    position.count = items.length := tracks_of_count rfl fun _ _ => rfl

theorem tracks_summaryCount : Cursor.Tracks True fun (position : ListItemSummary P) (items : List (ListItem P)) =>
    position.count = items.length := tracks_of_count rfl fun _ _ => rfl

/-! ### Seeks -/

theorem seekItem_lands (htree : tree.Valid True) (n : Nat) :
    ∃ c, seekItem tree n = some c ∧ Cursor.Stands False tree c (tree.toList.take n) (tree.toList.drop n) := by
  obtain ⟨found, c, hseek, hstands, -⟩ :=
    tracks_count.seekIndex (c := Cursor.new tree) htree rfl fun h => passes_count (n := n) h
  refine ⟨c, ?_, hstands⟩
  rw [seekItem, hseek]
  rfl

variable [LinearOrder P]

variable [Div P] [Fraction P] {s : StateInner P}

theorem moveTo_spec (hitems : s.items.Valid True) (scrollTop : ListOffset P) :
    ∃ pending, s.moveTo scrollTop = some { s with pendingScroll := pending, logicalScrollTop := some scrollTop } := by
  rw [StateInner.moveTo, StateInner.rebasePendingScroll]
  split
  · exact ⟨s.pendingScroll, rfl⟩
  · split
    · exact ⟨none, rfl⟩
    · split
      · exact ⟨_, rfl⟩
      · obtain ⟨c, hseek, hstands⟩ := seekItem_lands hitems scrollTop.itemIx
        simp only [hseek, Option.bind_eq_bind, Option.bind_some, hstands.item_eq]
        exact ⟨_, rfl⟩

variable [Sub P] [BEq P]

end FcGpui.Elements
