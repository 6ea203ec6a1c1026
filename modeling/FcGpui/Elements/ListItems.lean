import FcGpui.Elements.ItemCounts
import FcGpui.Elements.ListLayout

/-!
# The items of a list

The tree of a list as the sequence of its items: a seek to a count is `take` and `drop`
(`seekItem_stands`), and the tree that a layout puts together has the measured items in
place of as many others (`replaceItems_spec`).  Every tree that the methods build can be
built by the operations on trees (`Reachable`), so that it is valid.
-/

namespace FcGpui.Elements

open SumTree StateInner

variable {items tree : SumTree ListItem ListItemSummary}

theorem positionAfter_count (l : List ListItem) : (positionAfter l : Count) = ⟨l.length⟩ := by
  induction l using List.reverseRecOn with
  | nil => rfl
  | append_singleton l item ih =>
    rw [positionAfter_concat, ih, List.length_append, List.length_singleton]
    cases item <;> rfl

theorem indexes_count (n : Nat) : Indexes ListItem (Count.target n) .right n where
  ahead l hl := by
    rw [positionAfter_count]
    intro hlt
    have hlt : compare n l.length = .lt := hlt
    exact absurd (compare_lt_iff_lt.mp hlt) (not_lt.mpr hl)
  passes l := by
    rw [positionAfter_count]
    exact passes_count rfl

theorem seekItem_stands (hitems : items.Valid True) (n : Nat) :
    ∃ c, seekItem items n = some c ∧
      Cursor.Stands True items c (items.toList.take n) (items.toList.drop n) := by
  obtain ⟨found, c, hseek, hstands⟩ := (indexes_count n).seek hitems (c := Cursor.new items) rfl
  refine ⟨c, ?_, hstands⟩
  rw [seekItem, hseek]
  rfl

/-- **The tree of a layout.** -/
theorem replaceItems_spec (hitems : items.Valid True) (start : Nat) (measured : List ListItem) :
    ∃ tree, Layout.replaceItems items start measured = some tree ∧ tree.Valid True ∧
      tree.toList = items.toList.take start ++ measured ++ items.toList.drop (start + measured.length) := by
  obtain ⟨-, slice, c, hslice, -, hvalid, hlist, hstands⟩ :=
    (indexes_count start).slice hitems .new (Nat.zero_le start)
  obtain ⟨newItems, hextend, hvalid', hlist'⟩ := extend_spec (fun _ => inferInstance) hvalid measured
  obtain ⟨found, c', hseek, hstands'⟩ :=
    (indexes_count (start + measured.length)).seek hitems (c := c) hstands.tree
  obtain ⟨suffix, c'', tree, hsuffix, happend, htree, htoList⟩ := append_suffix hitems hvalid' hstands'
  refine ⟨tree, ?_, htree, ?_⟩
  · simp only [Layout.replaceItems, hslice, Option.bind_eq_bind, Option.bind_some, hextend, hseek, hsuffix, happend]
  · rw [htoList, hlist', hlist, List.length_nil, Nat.sub_zero]

/-! ### Reachable trees -/

theorem reachable_replaceItems (hitems : Reachable items) {start : Nat} {measured : List ListItem}
    (h : Layout.replaceItems items start measured = some tree) : Reachable tree := by
  simp only [Layout.replaceItems, Option.bind_eq_bind, Option.bind_eq_some_iff] at h
  obtain ⟨⟨slice, c⟩, hslice, newItems, hextend, ⟨found, c'⟩, hseek, ⟨suffix, c''⟩, hsuffix, happend⟩ := h
  have hc : Cursor.Reachable items c := .slice .new hslice
  exact .append (.extend (.slice hitems .new hslice) hextend) (.slice hitems (.seek hc hseek) hsuffix) happend

theorem reachable_spliceItems (hitems : Reachable items) {start stop : Nat}
    {focusHandles : List (Option FocusHandle)}
    (h : ListState.spliceItems items start stop focusHandles = some tree) : Reachable tree := by
  simp only [ListState.spliceItems, Option.bind_eq_bind, Option.bind_eq_some_iff] at h
  obtain ⟨⟨slice, c⟩, hslice, ⟨found, c'⟩, hseek, newItems, hextend, ⟨suffix, c''⟩, hsuffix, happend⟩ := h
  have hc : Cursor.Reachable items c := .slice .new hslice
  exact .append (.extend (.slice hitems .new hslice) hextend) (.slice hitems (.seekForward hc hseek) hsuffix) happend

theorem reachable_invalidateRange (hitems : Reachable items) {start stop : Nat}
    (h : ListState.invalidateRange items start stop = some tree) : Reachable tree := by
  simp only [ListState.invalidateRange, Option.bind_eq_bind, Option.bind_eq_some_iff] at h
  obtain ⟨⟨slice, c⟩, hslice, ⟨invalidated, c'⟩, hslice', l, -, newItems, hextend, ⟨suffix, c''⟩, hsuffix,
    happend⟩ := h
  have hc : Cursor.Reachable items c' := .slice (.slice .new hslice) hslice'
  exact .append (.extend (.slice hitems .new hslice) hextend) (.slice hitems hc hsuffix) happend

end FcGpui.Elements

/-!
# Runs of a list

The methods of a list in any order, with its layouts between them.  The prepaint of the
element goes in phases, which are actions of their own, so that a run may stop between two
of them: `prepaint_phases`.
-/

namespace FcGpui.Elements

open SumTree StateInner

inductive ListAct
  | measureAll
  | withUniformItemHeight (height : Pixels)
  | reset (elementCount : Nat)
  | resetWithUniformHeight (elementCount : Nat) (height : Pixels)
  | remeasure
  | remeasureItems (start stop : Nat)
  | splice (start stop count : Nat)
  | spliceFocusable (start stop : Nat) (focusHandles : List (Option FocusHandle))
  | scrollBy (distance : Pixels)
  | scrollToEnd
  | setFollowMode (mode : FollowMode)
  | scrollTo (scrollTop : ListOffset)
  | scrollToRevealItem (ix : Nat)
  | scrollbarDragStarted
  | scrollbarDragEnded
  | setOffsetFromScrollbar (point : Point Pixels)
  | scroll (scrollTop : ListOffset) (height : Pixels) (delta : Point Pixels)
  | layoutItems (w : Surroundings) (availableHeight : Pixels) (padding : Edges)
  | beginPrepaint (bounds : Bounds Pixels)
  | layoutAllItems (w : Surroundings)
  | autoscroll (offset : ListOffset)
  | endPrepaint (bounds : Bounds Pixels) (padding : Edges)

def ListState.step (s : StateInner) : ListAct → Option StateInner
  | .measureAll => some (measureAll s)
  | .withUniformItemHeight height => applyUniformItemHeight s height
  | .reset elementCount => reset s elementCount
  | .resetWithUniformHeight elementCount height => resetWithUniformHeight s elementCount height
  | .remeasure => remeasure s
  | .remeasureItems start stop => remeasureItems s start stop
  | .splice start stop count => splice s start stop count
  | .spliceFocusable start stop focusHandles => spliceFocusable s start stop focusHandles
  | .scrollBy distance => scrollBy s distance
  | .scrollToEnd => some s.scrollToEnd
  | .setFollowMode mode => some (setFollowMode s mode)
  | .scrollTo scrollTop => scrollTo s scrollTop
  | .scrollToRevealItem ix => scrollToRevealItem s ix
  | .scrollbarDragStarted => some (scrollbarDragStarted s)
  | .scrollbarDragEnded => some (scrollbarDragEnded s)
  | .setOffsetFromScrollbar point => s.setOffsetFromScrollbar point
  | .scroll scrollTop height delta => s.scroll scrollTop height delta
  | .layoutItems w availableHeight padding => (s.layoutItems w availableHeight padding).map Prod.fst
  | .beginPrepaint bounds => { s with reset := false }.invalidateWidth bounds
  | .layoutAllItems w => if s.measuringBehavior = .measure false then s.layoutAllItems w else some s
  | .autoscroll offset => some { s with logicalScrollTop := some offset }
  | .endPrepaint bounds padding => some { s with lastLayoutBounds := some bounds, lastPadding := some padding }

variable {s s' : StateInner} {w : Surroundings}

/-! ### The phases of a prepaint -/

/-- The state that `prepaint_items` lays out: all items may have been measured before. -/
def StateInner.beforeLayout (s : StateInner) (w : Surroundings) : Option StateInner :=
  if s.measuringBehavior = .measure false then s.layoutAllItems w else some s

/-- What `prepaint_items` answers to a request, once the items are laid out. -/
def StateInner.answer (s : StateInner) (response : LayoutItemsResponse) (request : Option ListOffset) :
    Option (StateInner × Except ListOffset LayoutItemsResponse) :=
  match request with
  | some offset => some (s, .error offset)
  | none => some (s, .ok response)

/-- What `prepaint_items` makes of a layout: it returns it, without the items if there is no room for them, or asks
to scroll. -/
theorem prepaintItems_cases {bounds : Bounds Pixels} {padding : Edges} {autoscroll : Bool}
    {result : Except ListOffset LayoutItemsResponse}
    (h : s.prepaintItems w bounds padding autoscroll = some (s', result)) :
    ∃ s₀ response, s.beforeLayout w = some s₀ ∧ s₀.layoutItems w bounds.size.height padding = some (s', response) ∧
      (result = .ok response ∨ result = .ok { response with itemLayouts := [] } ∨ ∃ offset, result = .error offset) := by
  have hlaid : ∃ s₀, s.beforeLayout w = some s₀ ∧ (s₀.layoutItems w bounds.size.height padding).bind (fun laidOut =>
      if padding.top + padding.bottom < bounds.size.height then
        if autoscroll = true then
          (autoscrollRequest w laidOut.1.items bounds padding laidOut.2.itemLayouts
            ⟨bounds.origin.x, bounds.origin.y + padding.top - laidOut.2.scrollTop.offsetInItem⟩).bind
              (laidOut.1.answer laidOut.2)
        else (some none).bind (laidOut.1.answer laidOut.2)
      else some (laidOut.1, .ok { laidOut.2 with itemLayouts := [] })) = some (s', result) := by
    rw [prepaintItems] at h
    rw [StateInner.beforeLayout]
    by_cases hmeasure : s.measuringBehavior = .measure false
    · rw [if_pos hmeasure] at h ⊢
      exact Option.bind_eq_some_iff.mp h
    · rw [if_neg hmeasure] at h ⊢
      exact ⟨s, rfl, h⟩
  obtain ⟨s₀, hbefore, h⟩ := hlaid
  obtain ⟨⟨s₁, response⟩, hlayout, h⟩ := Option.bind_eq_some_iff.mp h
  refine ⟨s₀, response, hbefore, ?_⟩
  have hanswer : ∀ request, s₁.answer response request = some (s', result) →
      s₁ = s' ∧ (result = .ok response ∨ ∃ offset, result = .error offset) := by
    intro request hrequest
    cases request with
    | some offset =>
      obtain ⟨rfl, rfl⟩ := Prod.mk.inj (Option.some.inj hrequest)
      exact ⟨rfl, Or.inr ⟨offset, rfl⟩⟩
    | none =>
      obtain ⟨rfl, rfl⟩ := Prod.mk.inj (Option.some.inj hrequest)
      exact ⟨rfl, Or.inl rfl⟩
  have hcases : s₁ = s' ∧
      (result = .ok response ∨ result = .ok { response with itemLayouts := [] } ∨ ∃ offset, result = .error offset) := by
    dsimp only at h
    split at h
    · split at h
      · obtain ⟨request, -, h⟩ := Option.bind_eq_some_iff.mp h
        exact (hanswer request h).imp id (Or.imp id Or.inr)
      · exact (hanswer none h).imp id (Or.imp id Or.inr)
    · obtain ⟨rfl, rfl⟩ := Prod.mk.inj (Option.some.inj h)
      exact ⟨rfl, Or.inr (Or.inl rfl)⟩
  obtain ⟨rfl, hcases⟩ := hcases
  exact ⟨hlayout, hcases⟩

theorem prepaintItems_phases {bounds : Bounds Pixels} {padding : Edges} {autoscroll : Bool}
    {result : Except ListOffset LayoutItemsResponse}
    (h : s.prepaintItems w bounds padding autoscroll = some (s', result)) :
    run ListState.step s [.layoutAllItems w, .layoutItems w bounds.size.height padding] = some s' := by
  obtain ⟨s₀, response, hbefore, hlayout, -⟩ := prepaintItems_cases h
  have hall : ListState.step s (.layoutAllItems w) = some s₀ := hbefore
  have hlayout' : ListState.step s₀ (.layoutItems w bounds.size.height padding) = some s' := by
    rw [ListState.step, hlayout]
    rfl
  simp only [run, hall, hlayout', Option.bind_some]

/-- **A prepaint is a run of its phases.** -/
theorem prepaint_phases {bounds : Bounds Pixels} {padding : Edges} {layout : LayoutItemsResponse}
    (h : s.prepaint w bounds padding = some (s', layout)) : ∃ phases, run ListState.step s phases = some s' := by
  rw [prepaint] at h
  obtain ⟨s₁, hbegin, h⟩ := Option.bind_eq_some_iff.mp h
  obtain ⟨⟨s₂, result⟩, hitems, h⟩ := Option.bind_eq_some_iff.mp h
  have hbegin : run ListState.step s [.beginPrepaint bounds] = some s₁ := by
    rw [run, ListState.step, hbegin]
    rfl
  have hfirst := run_append hbegin (prepaintItems_phases hitems)
  cases result with
  | ok layout =>
    cases h
    exact ⟨_, run_append hfirst (rfl : run ListState.step s₂ [.endPrepaint bounds padding] = some _)⟩
  | error offset =>
    obtain ⟨⟨s₃, result⟩, hsecond, h⟩ := Option.bind_eq_some_iff.mp h
    have hautoscroll : run ListState.step s₂ [.autoscroll offset] = some { s₂ with logicalScrollTop := some offset } := rfl
    have hagain := run_append (run_append hfirst hautoscroll) (prepaintItems_phases hsecond)
    cases result with
    | ok layout =>
      cases h
      exact ⟨_, run_append hagain (rfl : run ListState.step s₃ [.endPrepaint bounds padding] = some _)⟩
    | error offset => cases h

end FcGpui.Elements
