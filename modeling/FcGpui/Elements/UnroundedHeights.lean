import FcGpui.Elements.FloatPixels
import FcGpui.Elements.HeightSeeks

/-!
# Heights whose sums are not rounded

A list in the pixels of the source.  A list of items is `Unrounded` if the heights of any items
in a row have a sum that is an `f32`.  Then whatever the tree adds up, and in whatever order, is
the sum itself (`Knows`), and seeks stop as they do among the exact heights (`seekHeight_stops`).
-/

namespace FcGpui.Elements

open SumTree ExactFloats

/-! ### Exact items -/

namespace ListItem

/-- The item with the numbers that its size stands for. -/
def exact : ListItem FloatPixels → ListItem
  | unmeasured sizeHint focusHandle =>
    unmeasured (sizeHint.map fun size => ⟨size.width.exact, size.height.exact⟩) focusHandle
  | measured size focusHandle => measured ⟨size.width.exact, size.height.exact⟩ focusHandle

theorem knownHeight_exact (item : ListItem FloatPixels) : item.exact.knownHeight = item.knownHeight.exact := by
  cases item with
  | measured size focusHandle => rfl
  | unmeasured sizeHint focusHandle =>
    cases sizeHint with
    | none => exact FloatPixels.exact_zero.symm
    | some size => rfl

end ListItem

def ListOffset.exact (offset : ListOffset FloatPixels) : ListOffset := ⟨offset.itemIx, offset.offsetInItem.exact⟩

def Edges.exact (edges : Edges FloatPixels) : Edges :=
  ⟨edges.top.exact, edges.right.exact, edges.bottom.exact, edges.left.exact⟩

def exactItems (items : List (ListItem FloatPixels)) : List ListItem := items.map ListItem.exact

/-- The height of all items together. -/
def totalHeight (items : List (ListItem FloatPixels)) : ℚ := ((exactItems items).map ListItem.knownHeight).sum

/-- The heights of any items in a row add up to a number of the format. -/
structure Unrounded (items : List (ListItem FloatPixels)) : Prop where
  isNumber : ∀ item ∈ items, item.knownHeight.IsNumber
  representable : ∀ run, run <:+: items → Representable (totalHeight run)

variable {items items' passed remaining : List (ListItem FloatPixels)} {height : FloatPixels} {q : ℚ}
  {tree : SumTree (ListItem FloatPixels) (ListItemSummary FloatPixels)}
  {c : SumTree.Cursor (ListItem FloatPixels) (ListItemSummary FloatPixels) (ListItemSummary FloatPixels)}

theorem Unrounded.of_isInfix (h : Unrounded items) (hpart : items' <:+: items) : Unrounded items' where
  isNumber item hitem := h.isNumber item (hpart.subset hitem)
  representable run hrun := h.representable run (hrun.trans hpart)

theorem Unrounded.left (h : Unrounded (items ++ items')) : Unrounded items :=
  h.of_isInfix (List.prefix_append _ _).isInfix

theorem Unrounded.right (h : Unrounded (items ++ items')) : Unrounded items' :=
  h.of_isInfix (List.suffix_append _ _).isInfix

theorem Unrounded.take (h : Unrounded items) (n : Nat) : Unrounded (items.take n) := by
  rw [← List.take_append_drop n items] at h
  exact h.left

theorem totalHeight_append (items items' : List (ListItem FloatPixels)) :
    totalHeight (items ++ items') = totalHeight items + totalHeight items' := by
  rw [totalHeight, exactItems, List.map_append, List.map_append, List.sum_append]
  rfl

theorem extent_exactItems (items : List (ListItem FloatPixels)) (n : Nat) :
    extent (exactItems items) n = totalHeight (items.take n) := by
  simp only [extent, totalHeight, exactItems, List.map_take]

theorem Unrounded.extent (h : Unrounded items) (n : Nat) : Representable (extent (exactItems items) n) := by
  rw [extent_exactItems]
  exact (h.take n).representable _ (List.infix_refl _)

theorem length_exactItems (items : List (ListItem FloatPixels)) : (exactItems items).length = items.length :=
  List.length_map _

section Replicate

variable {item : ListItem FloatPixels} {k : ℕ}

theorem totalHeight_replicate (hitem : item.knownHeight.exact = k) (n : ℕ) :
    totalHeight (List.replicate n item) = (n * k : ℕ) := by
  rw [totalHeight, exactItems, List.map_replicate, List.map_replicate, List.sum_replicate, ListItem.knownHeight_exact,
    hitem, nsmul_eq_mul, Nat.cast_mul]

theorem extent_replicate (hitem : item.knownHeight.exact = k) (n ix : ℕ) :
    extent (exactItems (List.replicate n item)) ix = (min ix n * k : ℕ) := by
  rw [extent_exactItems, List.take_replicate, totalHeight_replicate hitem]

theorem unrounded_replicate (hnumber : item.knownHeight.IsNumber) (hitem : item.knownHeight.exact = k) {n : ℕ}
    (hlt : n * k < 2 ^ 24) : Unrounded (List.replicate n item) where
  isNumber item' hitem' := List.eq_of_mem_replicate hitem' ▸ hnumber
  representable run hrun := by
    obtain ⟨m, hm, rfl⟩ := List.sublist_replicate_iff.mp hrun.sublist
    have hle : m * k ≤ n * k := Nat.mul_le_mul_right k hm
    rw [totalHeight_replicate hitem]
    exact representable_nat (hle.trans_lt hlt)

theorem upright_replicate (hitem : item.knownHeight.exact = k) (n : ℕ) :
    Upright (exactItems (List.replicate n item)) := by
  rw [exactItems, List.map_replicate]
  intro item' hitem'
  rw [List.eq_of_mem_replicate hitem', ListItem.knownHeight_exact, hitem]
  exact Nat.cast_nonneg k

/-- A row of twenty pixels. -/
def row : ListItem FloatPixels := .measured ⟨⟨100⟩, ⟨20⟩⟩ none

theorem isNumber_row : row.knownHeight.IsNumber := by decide +kernel

theorem exact_row : row.knownHeight.exact = (20 : ℕ) := by decide +kernel

end Replicate

/-! ### What a summary knows -/

/-- The summary has the number of the items, and their height if it is not rounded. -/
structure Knows (summary : ListItemSummary FloatPixels) (items : List (ListItem FloatPixels)) : Prop where
  count : summary.count = items.length
  height : Unrounded items → IsExactly summary.height.value (totalHeight items)

theorem knows_zero : Knows Summary.zero [] := ⟨rfl, fun _ => FloatPixels.isExactly_zero⟩

theorem Knows.add {a b : ListItemSummary FloatPixels} (ha : Knows a items) (hb : Knows b items') :
    Knows (Summary.add a b) (items ++ items') where
  count := by rw [count_add, ha.count, hb.count, List.length_append]
  height h := by
    have hsum := h.representable _ (List.infix_refl _)
    rw [totalHeight_append] at hsum ⊢
    exact (ha.height h.left).add (hb.height h.right).number hsum

/-- The first height that is added to nothing is not the negative zero any more. -/
theorem Knows.add_item {a : ListItemSummary FloatPixels} {item : ListItem FloatPixels} (ha : Knows a items) :
    Knows (Summary.add a (Item.summary item)) (items ++ [item]) where
  count := by rw [count_add, ha.count, count_item, List.length_append, List.length_singleton]
  height h := by
    have hsum := h.representable _ (List.infix_refl _)
    have hitem : totalHeight [item] = item.knownHeight.exact := by
      rw [totalHeight, exactItems, List.map_singleton, List.map_singleton, List.sum_singleton,
        ListItem.knownHeight_exact]
    have hheight : (Item.summary item : ListItemSummary FloatPixels).height = item.knownHeight := by
      cases item <;> rfl
    rw [totalHeight_append, hitem] at hsum ⊢
    show IsExactly (a.height + (Item.summary item : ListItemSummary FloatPixels).height).value _
    rw [hheight]
    exact FloatPixels.isExactly_add (ha.height h.left) (h.isNumber item (by simp)) hsum

theorem knows_itemSum (items : List (ListItem FloatPixels)) : Knows (itemSum items) items := by
  induction items using List.reverseRecOn with
  | nil => exact knows_zero
  | append_singleton items item ih =>
    rw [itemSum, List.map_append, List.map_singleton, Summary.sum_concat]
    exact ih.add_item

theorem tracks_knows : Cursor.Tracks True Knows where
  zero := knows_zero
  item h := h.add_item
  tree {position items t} h ht := by
    have hsum := h.add (knows_itemSum t.toList)
    rwa [← ht.summary_eq trivial] at hsum

/-! ### Seeks -/

/-- What a seek to a height with a left bias has passed ends above it, and the next item does not. -/
structure StopsAtHeight (items : List ListItem) (height : Pixels) (start stop : Nat) : Prop where
  start_le : start ≤ stop
  stop_le : stop ≤ items.length
  above : stop = start ∨ extent items stop < height
  below : stop = items.length ∨ height ≤ extent items (stop + 1)

theorem seekCount_knows (htree : tree.Valid True) (hc : c.tree = tree) (n : Nat) :
    ∃ found c', c.seek (Count.summaryTarget n) .right = some (found, c') ∧
      Cursor.Stands False tree c' (tree.toList.take n) (tree.toList.drop n) ∧ Knows c'.position (tree.toList.take n) :=
  tracks_knows.seekIndex htree hc fun h => passes_summaryCount (n := n) h.count

theorem Knows.isExactly_extent {position : ListItemSummary FloatPixels} {n : Nat} (h : Knows position (items.take n))
    (hitems : Unrounded items) : IsExactly position.height.value (extent (exactItems items) n) := by
  rw [extent_exactItems]
  exact h.height (hitems.take n)

/-- The method `scroll_top`. -/
theorem scrollTop_isExactly {s : StateInner FloatPixels} (hitems : s.items.Valid True)
    (hunrounded : Unrounded s.items.toList) {scrollTop : ListOffset FloatPixels}
    (hoffset : scrollTop.offsetInItem.IsNumber)
    (hsum : Representable (scrollPosition (exactItems s.items.toList) scrollTop.exact)) :
    ∃ position, s.scrollTop scrollTop = some position ∧
      IsExactly position.value (scrollPosition (exactItems s.items.toList) scrollTop.exact) := by
  obtain ⟨found, c, hseek, hstands, hknows⟩ := seekCount_knows hitems (c := Cursor.new s.items) rfl scrollTop.itemIx
  refine ⟨c.position.height + scrollTop.offsetInItem, ?_, ?_⟩
  · rw [StateInner.scrollTop, hseek]
    rfl
  · exact FloatPixels.isExactly_add (hknows.isExactly_extent hunrounded) hoffset hsum

theorem Sought.stopsAtHeight_exact {found : Bool}
    {c' : SumTree.Cursor (ListItem FloatPixels) (ListItemSummary FloatPixels) (ListItemSummary FloatPixels)}
    {crossed remaining' : List (ListItem FloatPixels)} (hunrounded : Unrounded tree.toList)
    (hheight : IsExactly height.value q)
    (h : Cursor.Sought False tree (Height.summaryTarget height) .left c passed found c' crossed remaining')
    (hknows : Knows c'.position (passed ++ crossed)) :
    StopsAtHeight (exactItems tree.toList) q passed.length (passed ++ crossed).length where
  start_le := by
    rw [List.length_append]
    omega
  stop_le := by
    rw [length_exactItems]
    exact h.stands.length_le
  above := by
    rcases h.moved with ⟨hnil, -⟩ | hpasses
    · exact Or.inl (by rw [hnil, List.append_nil])
    · rw [Cursor.passes, decide_eq_true_iff] at hpasses
      have hgt : compare height c'.position.height = .gt := hpasses.resolve_right fun heq => absurd heq.2 (by decide)
      have hposition := hknows.height ((h.stands.toList ▸ hunrounded).left)
      rw [extent_exactItems, h.stands.toList, List.take_left' rfl]
      exact Or.inr ((FloatPixels.lt_iff hposition hheight).mp (compare_gt_iff_gt.mp hgt))
  below := by
    have hitems := h.stands.toList
    cases remaining' with
    | nil =>
      left
      rw [length_exactItems, hitems, List.append_nil]
    | cons item rest =>
      right
      have hstops := h.stops item rfl
      rw [Cursor.passes, decide_eq_false_iff_not] at hstops
      have hle : ¬ (Summary.add c'.position (Item.summary item)).height < height :=
        fun hlt => hstops (Or.inl (compare_gt_iff_gt.mpr hlt))
      have hitems' : tree.toList = passed ++ crossed ++ [item] ++ rest := by
        rw [hitems, List.append_assoc (passed ++ crossed), List.singleton_append]
      have hnext := hknows.add_item.height ((hitems' ▸ hunrounded).left)
      have hlength : (passed ++ crossed ++ [item]).length = (passed ++ crossed).length + 1 := List.length_append
      rw [extent_exactItems, hitems', List.take_left' hlength]
      exact not_lt.mp (mt (FloatPixels.lt_iff hnext hheight).mpr hle)

/-- **A seek to a height**, with a left bias. -/
theorem seekHeight_stops (htree : tree.Valid True) (hunrounded : Unrounded tree.toList) (hc : c.tree = tree)
    (hheight : IsExactly height.value q) (hq : 0 ≤ q) :
    ∃ found c' stop, c.seek (Height.summaryTarget height) .left = some (found, c') ∧ c'.position.count = stop ∧
      IsExactly c'.position.height.value (extent (exactItems tree.toList) stop) ∧
      StopsAtHeight (exactItems tree.toList) q 0 stop := by
  have hstart : (Height.summaryTarget height).cmp (Dimension.zero (ListItemSummary FloatPixels)) ≠ .lt := by
    intro hlt
    have hlt : compare height 0 = .lt := hlt
    exact absurd ((FloatPixels.lt_iff hheight FloatPixels.isExactly_zero).mp (compare_lt_iff_lt.mp hlt)) (not_lt.mpr hq)
  obtain ⟨found, c', crossed, remaining', hseek, hsought, hknows⟩ := tracks_knows.seek .left htree hc hstart
  refine ⟨found, c', crossed.length, hseek, hknows.count, ?_,
    Sought.stopsAtHeight_exact hunrounded hheight hsought hknows⟩
  have hitems : tree.toList = crossed ++ remaining' := hsought.stands.toList
  rw [extent_exactItems, hitems, List.take_left' rfl]
  exact hknows.height ((hitems ▸ hunrounded).left)

end FcGpui.Elements
