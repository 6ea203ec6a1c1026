import FcGpui.Elements.ListItems

/-!
# The scroll anchor after a splice

A splice cuts the tree at the two ends of its range, and renumbers the scroll top apart from that.
The two agree: the items that stay, and with them the one at the scroll top, are found again where
`splicedIndex` puts them (`spliceFocusable_keepsAnchor`).  A state without a scroll top stays without
one; its list is at the end that it is aligned to.  So the items that are put in front of a list at its
top push the first one down (`GrowsAtTop`), unless a scroll top was stored.
-/

namespace FcGpui.Elements

open SumTree

variable {s : StateInner} {items : SumTree ListItem ListItemSummary} {start stop : Nat}

/-- Where the item at an index outside the range is after a splice. -/
def splicedIndex (start stop count ix : Nat) : Nat := if ix < start then ix else ix - (stop - start) + count

/-! ### The items -/

/-- **The tree of a splice.** -/
theorem spliceItems_spec (hitems : items.Valid True) (hstart : start ≤ stop)
    (focusHandles : List (Option FocusHandle)) :
    ∃ tree, ListState.spliceItems items start stop focusHandles = some tree ∧ tree.Valid True ∧
      tree.toList = items.toList.take start ++ focusHandles.map (ListItem.unmeasured none) ++
        items.toList.drop stop := by
  obtain ⟨-, slice, c, hslice, -, hvalid, hlist, hstands⟩ :=
    (indexes_count start).slice hitems .new (Nat.zero_le start)
  have hpassed : (items.toList.take start).length ≤ stop := (List.length_take_le _ _).trans hstart
  obtain ⟨found, -, c', -, hseek, -, -, hstands'⟩ := (indexes_count stop).slice hitems (.stands hstands) hpassed
  obtain ⟨newItems, hextend, hvalid', hlist'⟩ :=
    extend_spec (fun _ => inferInstance) hvalid (focusHandles.map (ListItem.unmeasured none))
  obtain ⟨suffix, c'', tree, hsuffix, happend, htree, htoList⟩ := append_suffix hitems hvalid' hstands'
  refine ⟨tree, ?_, htree, ?_⟩
  · simp only [ListState.spliceItems, hslice, Option.bind_eq_bind, Option.bind_some, hseek, hextend, hsuffix, happend]
  · rw [htoList, hlist', hlist, List.length_nil, Nat.sub_zero]

section Spliced

variable {before inserted : List ListItem} (hstart : start ≤ stop) (hstop : stop ≤ before.length)

include hstart hstop

theorem length_spliced : (before.take start ++ inserted ++ before.drop stop).length =
    before.length - (stop - start) + inserted.length := by
  rw [List.length_append, List.length_append, List.length_take, List.length_drop]
  omega

theorem getElem?_spliced {ix : Nat} (houtside : ix < start ∨ stop ≤ ix) :
    (before.take start ++ inserted ++ before.drop stop)[splicedIndex start stop inserted.length ix]? =
      before[ix]? := by
  have htake : (before.take start).length = start := List.length_take_of_le (hstart.trans hstop)
  rw [List.append_assoc, splicedIndex]
  rcases houtside with hfront | hbehind
  · rw [if_pos hfront, List.getElem?_append_left (htake.symm ▸ hfront), List.getElem?_take_of_lt hfront]
  · rw [if_neg (by omega), List.getElem?_append_right (by omega), List.getElem?_append_right (by omega),
      List.getElem?_drop]
    congr 1
    omega

end Spliced

/-! ### The anchor -/

/-- What a splice leaves of the scroll top, among as many items as `count` says. -/
structure AnchorKept (start stop inserted count : Nat) (scrollTop scrollTop' : ListOffset) : Prop where
  itemIx_le : scrollTop'.itemIx ≤ count
  outside : ¬ (start ≤ scrollTop.itemIx ∧ scrollTop.itemIx < stop) →
    scrollTop' = ⟨splicedIndex start stop inserted scrollTop.itemIx, scrollTop.offsetInItem⟩
  inside : start ≤ scrollTop.itemIx → scrollTop.itemIx < stop → scrollTop' = ⟨start, 0⟩

theorem splicedScrollTop_spec {scrollTop : ListOffset} {count : Nat} (hstart : start ≤ stop) (hstop : stop ≤ count)
    (hix : scrollTop.itemIx ≤ count) (inserted : Nat) :
    ∃ scrollTop', ListState.splicedScrollTop start stop inserted scrollTop = some scrollTop' ∧
      AnchorKept start stop inserted (count - (stop - start) + inserted) scrollTop scrollTop' := by
  rw [ListState.splicedScrollTop]
  by_cases hinside : start ≤ scrollTop.itemIx ∧ scrollTop.itemIx < stop
  · rw [if_pos hinside]
    exact ⟨_, rfl, by dsimp only; omega, fun houtside => absurd hinside houtside, fun _ _ => rfl⟩
  · rw [if_neg hinside]
    have hinside' : start ≤ scrollTop.itemIx → scrollTop.itemIx < stop → False := fun h h' => hinside ⟨h, h'⟩
    by_cases hbehind : stop ≤ scrollTop.itemIx
    · rw [if_pos hbehind, if_neg (not_lt.mpr hstart)]
      refine ⟨_, rfl, by dsimp only; omega, fun _ => ?_, fun h h' => (hinside' h h').elim⟩
      rw [splicedIndex, if_neg (by omega)]
    · rw [if_neg hbehind]
      refine ⟨_, rfl, by omega, fun _ => ?_, fun h h' => (hinside' h h').elim⟩
      rw [splicedIndex, if_pos (by omega)]

theorem spliceFocusable_unscrolled {tree : SumTree ListItem ListItemSummary} {focusHandles : List (Option FocusHandle)}
    (htop : s.logicalScrollTop = none) (htree : ListState.spliceItems s.items start stop focusHandles = some tree) :
    ListState.spliceFocusable s start stop focusHandles = some { s with items := tree, logicalScrollTop := none } := by
  rw [ListState.spliceFocusable, htree, htop]
  rfl

/-- Items are put in front of a list that is at its top because it was never scrolled. -/
def GrowsAtTop (s : StateInner) (stop : Nat) (focusHandles : List (Option FocusHandle)) : Prop :=
  s.logicalScrollTop = none ∧ s.alignment = .top ∧ stop = 0 ∧ focusHandles ≠ []

/-- A list that was never scrolled stays at the end that it is aligned to. -/
theorem anchorKept_unscrolled {tree : SumTree ListItem ListItemSummary} {focusHandles : List (Option FocusHandle)}
    (htop : s.logicalScrollTop = none) (hstart : start ≤ stop) (hstop : stop ≤ s.items.summary.count)
    (hcount : tree.summary.count = s.items.summary.count - (stop - start) + focusHandles.length)
    (hgrows : ¬ GrowsAtTop s stop focusHandles) :
    AnchorKept start stop focusHandles.length tree.summary.count s.getLogicalScrollTop
      { s with items := tree, logicalScrollTop := none }.getLogicalScrollTop := by
  simp only [StateInner.getLogicalScrollTop, htop, Option.getD_none]
  cases halign : s.alignment with
  | top =>
    have hnone : stop = 0 → focusHandles.length = 0 := by
      intro hzero
      by_contra hne
      exact hgrows ⟨htop, halign, hzero, fun hnil => hne (congrArg List.length hnil)⟩
    refine ⟨Nat.zero_le _, fun houtside => ?_, fun hle _ => ?_⟩
    · have hindex : splicedIndex start stop focusHandles.length 0 = 0 := by
        rw [splicedIndex]
        split
        · rfl
        · have hzero : stop = 0 := by
            by_contra hne
            exact houtside ⟨by dsimp only; omega, Nat.pos_of_ne_zero hne⟩
          have := hnone hzero
          omega
      dsimp only
      rw [hindex]
    · have hzero : start = 0 := Nat.le_zero.mp hle
      rw [hzero]
  | bottom =>
    refine ⟨Nat.le_refl _, fun _ => ?_, fun _ hlt => absurd hstop (Nat.not_le.mpr hlt)⟩
    have hindex : splicedIndex start stop focusHandles.length s.items.summary.count = tree.summary.count := by
      rw [splicedIndex, if_neg (by omega), hcount]
    dsimp only
    rw [hindex]

/-- What is left of a list state, items and scroll top, after a splice. -/
structure SpliceKept (start stop : Nat) (focusHandles : List (Option FocusHandle)) (s s' : StateInner) : Prop where
  count : s'.items.summary.count = s.items.summary.count - (stop - start) + focusHandles.length
  outside : ∀ ix, ix < start ∨ stop ≤ ix →
    s'.items.toList[splicedIndex start stop focusHandles.length ix]? = s.items.toList[ix]?
  scrollTop : ¬ GrowsAtTop s stop focusHandles →
    AnchorKept start stop focusHandles.length s'.items.summary.count s.getLogicalScrollTop s'.getLogicalScrollTop
  unscrolled : s.logicalScrollTop = none → s'.logicalScrollTop = none

/-- **A splice keeps the scroll anchor.** -/
theorem spliceFocusable_keepsAnchor (hitems : s.items.Valid True)
    (hanchor : s.getLogicalScrollTop.itemIx ≤ s.items.summary.count) (hstart : start ≤ stop)
    (hstop : stop ≤ s.items.summary.count) (focusHandles : List (Option FocusHandle)) :
    ∃ s', ListState.spliceFocusable s start stop focusHandles = some s' ∧ SpliceKept start stop focusHandles s s' := by
  obtain ⟨tree, htree, hvalid, hlist⟩ := spliceItems_spec hitems hstart focusHandles
  have hlength : stop ≤ s.items.toList.length := summary_count hitems ▸ hstop
  have hinserted : (focusHandles.map fun focusHandle => (ListItem.unmeasured none focusHandle : ListItem)).length =
      focusHandles.length := List.length_map _
  have hcount : tree.summary.count = s.items.summary.count - (stop - start) + focusHandles.length := by
    rw [summary_count hvalid, summary_count hitems, hlist, length_spliced hstart hlength, hinserted]
  have houtside : ∀ ix, ix < start ∨ stop ≤ ix →
      tree.toList[splicedIndex start stop focusHandles.length ix]? = s.items.toList[ix]? := by
    intro ix hix
    rw [hlist, ← hinserted]
    exact getElem?_spliced hstart hlength hix
  cases htop : s.logicalScrollTop with
  | none =>
    exact ⟨_, spliceFocusable_unscrolled htop htree, hcount, houtside,
      anchorKept_unscrolled htop hstart hstop hcount, fun _ => rfl⟩
  | some scrollTop =>
    have hlogical : s.getLogicalScrollTop = scrollTop := by
      rw [StateInner.getLogicalScrollTop, htop, Option.getD_some]
    rw [hlogical] at hanchor
    obtain ⟨scrollTop', hspliced, hkept⟩ := splicedScrollTop_spec hstart hstop hanchor focusHandles.length
    refine ⟨{ s with items := tree, logicalScrollTop := some scrollTop' }, ?_, hcount, houtside, fun _ => ?_, ?_⟩
    · rw [ListState.spliceFocusable, htree, htop]
      simp only [Option.bind_eq_bind, Option.bind_some, hspliced, Option.map_some]
    · rw [hlogical]
      exact hcount ▸ hkept
    · intro hnone
      cases htop.symm.trans hnone

/-- Rows, scrolled to where `scrollTop` says. -/
def scrolledRows (items : SumTree ListItem ListItemSummary) (scrollTop : Option ListOffset) : StateInner :=
  ⟨none, none, items, scrollTop, .top, 0, false, none, .visible, none, .normal⟩

/-- Two rows are put in at the anchor. -/
theorem spliceFocusable_keepsAnchor_rows : ∃ items,
    SumTree.new.extend (List.replicate 3 (.measured ⟨100, 20⟩ none : ListItem)) = some items ∧
    ∃ s', ListState.spliceFocusable (scrolledRows items (some ⟨1, 5⟩)) 1 1 [none, none] = some s' ∧
      SpliceKept 1 1 [none, none] (scrolledRows items (some ⟨1, 5⟩)) s' := by
  obtain ⟨items, hextend, hvalid, hlist⟩ := extend_spec (fun _ => inferInstance) (Or.inl rfl)
    (List.replicate 3 (.measured ⟨100, 20⟩ none : ListItem))
  have hcount : items.summary.count = 3 := (summary_count hvalid).trans (congrArg List.length hlist)
  refine ⟨items, hextend, spliceFocusable_keepsAnchor hvalid ?_ le_rfl ?_ [none, none]⟩
  · exact hcount.symm ▸ (by decide : 1 ≤ 3)
  · exact hcount.symm ▸ (by decide : 1 ≤ 3)

/-- A row is put in front of one that was never scrolled: the scroll top is still the first row, the new one. -/
theorem not_spliceFocusable_keepsAnchor : ¬ ∀ (s : StateInner) (start stop : Nat)
    (focusHandles : List (Option FocusHandle)), s.items.Valid True →
    s.getLogicalScrollTop.itemIx ≤ s.items.summary.count → start ≤ stop → stop ≤ s.items.summary.count →
    ∃ s', ListState.spliceFocusable s start stop focusHandles = some s' ∧
      AnchorKept start stop focusHandles.length s'.items.summary.count s.getLogicalScrollTop
        s'.getLogicalScrollTop := by
  intro h
  obtain ⟨items, -, hvalid, -⟩ := extend_spec (S := ListItemSummary) (fun _ => inferInstance) (Or.inl rfl)
    [(.measured ⟨100, 20⟩ none : ListItem)]
  obtain ⟨tree, htree, -⟩ := spliceItems_spec hvalid (Nat.le_refl 0) [none]
  obtain ⟨s', hs', hkept⟩ := h (scrolledRows items none) 0 0 [none] hvalid (Nat.zero_le _) (Nat.le_refl 0) (Nat.zero_le _)
  have hunscrolled := spliceFocusable_unscrolled (s := scrolledRows items none) rfl htree
  obtain rfl := Option.some.inj (hunscrolled.symm.trans hs')
  have hmoved : (⟨0, 0⟩ : ListOffset) = ⟨1, 0⟩ := hkept.outside fun hinside => absurd hinside.2 (Nat.not_lt_zero _)
  exact absurd hmoved (by decide)

end FcGpui.Elements
