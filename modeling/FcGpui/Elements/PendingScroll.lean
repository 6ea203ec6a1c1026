import FcGpui.Elements.ListItems
import FcGpui.Elements.MeasuredWindow

/-!
# The pending scroll

A scroll adjustment that is pending is a second copy of the scroll top (`Belongs`).  Whatever
moves the scroll top by a method rebases it (`Moves`), but for a splice: it leaves the copy as it
is.  A layout takes it only if it renders the item at the scroll top, and may move the scroll
top without.  `Keeps` says when the two go together.

**Main result.**  `belongs_throughout`.
-/

namespace FcGpui.Elements

open SumTree StateInner

variable {s s' : StateInner} {scrollTop : ListOffset}

def PendingScroll.itemIx : PendingScroll → Nat
  | absolute itemIx _ => itemIx
  | proportional pendingScroll => pendingScroll.itemIx

/-- **A pending scroll adjustment belongs to the scroll top.** -/
def Belongs (s : StateInner) : Prop :=
  ∀ pending, s.pendingScroll = some pending → ∃ scrollTop, s.logicalScrollTop = some scrollTop ∧
    pending.itemIx = scrollTop.itemIx ∧
    ∀ itemIx offset, pending = .absolute itemIx offset → offset = scrollTop.offsetInItem

theorem belongs_of_none (h : s.pendingScroll = none) : Belongs s := by
  intro pending hpending
  rw [h] at hpending
  cases hpending

theorem Belongs.congr (h : Belongs s) (hpending : s'.pendingScroll = s.pendingScroll)
    (hlogical : s'.logicalScrollTop = s.logicalScrollTop) : Belongs s' := by
  rw [Belongs, hpending, hlogical]
  exact h

/-! ### The methods that move the scroll top -/

/-- The items stay, and the pending scroll goes with the scroll top. -/
structure Moves (s s' : StateInner) : Prop where
  items : s'.items = s.items
  belongs : Belongs s → Belongs s'

theorem Moves.trans {s'' : StateInner} (h : Moves s s') (h' : Moves s' s'') : Moves s s'' :=
  ⟨h'.items.trans h.items, fun hbelongs => h'.belongs (h.belongs hbelongs)⟩

theorem moves_of_eq (hitems : s'.items = s.items) (hpending : s'.pendingScroll = s.pendingScroll)
    (hlogical : s'.logicalScrollTop = s.logicalScrollTop) : Moves s s' :=
  ⟨hitems, fun h => h.congr hpending hlogical⟩

theorem moves_of_none (hitems : s'.items = s.items) (hpending : s'.pendingScroll = none) : Moves s s' :=
  ⟨hitems, fun _ => belongs_of_none hpending⟩

theorem moves_moveTo (h : s.moveTo scrollTop = some s') : Moves s s' := by
  obtain ⟨s₁, hrebase, rfl⟩ := Option.map_eq_some_iff.mp h
  rw [rebasePendingScroll] at hrebase
  split at hrebase
  · rename_i hnone
    cases hrebase
    exact moves_of_none rfl hnone
  · split at hrebase
    · cases hrebase
      exact moves_of_none rfl rfl
    · split at hrebase
      · cases hrebase
        refine ⟨rfl, fun _ pending hpending => ?_⟩
        obtain rfl := Option.some.inj hpending
        refine ⟨scrollTop, rfl, rfl, fun itemIx offset heq => ?_⟩
        cases heq
        rfl
      · simp only [Option.bind_eq_bind, Option.bind_eq_some_iff] at hrebase
        obtain ⟨c, -, item, -, hrebase⟩ := hrebase
        cases hrebase
        refine ⟨rfl, fun _ pending hpending => ?_⟩
        obtain ⟨size, -, rfl⟩ := Option.map_eq_some_iff.mp hpending
        exact ⟨scrollTop, rfl, rfl, fun itemIx offset heq => by cases heq⟩

theorem moves_scrollToEnd (s : StateInner) : Moves s s.scrollToEnd := moves_of_none rfl rfl

theorem moves_scroll {height : Pixels} {delta : Point Pixels} (h : s.scroll scrollTop height delta = some s') :
    Moves s s' := by
  rw [StateInner.scroll] at h
  split at h
  · cases h
    exact moves_of_eq rfl rfl rfl
  · simp only [Option.bind_eq_bind, Option.bind_eq_some_iff] at h
    obtain ⟨top, -, ⟨found, c⟩, -, h⟩ := h
    split at h
    · cases h
      split <;> exact moves_of_none rfl rfl
    · obtain ⟨moved, hmoved, h⟩ := Option.bind_eq_some_iff.mp h
      cases h
      refine (moves_moveTo hmoved).trans ?_
      split <;> exact moves_of_eq rfl rfl rfl

theorem moves_setOffsetFromScrollbar {point : Point Pixels} (h : s.setOffsetFromScrollbar point = some s') :
    Moves s s' := by
  rw [StateInner.setOffsetFromScrollbar] at h
  split at h
  · cases h
    exact moves_of_eq rfl rfl rfl
  · dsimp only at h
    split at h
    · cases h
      exact moves_of_none rfl rfl
    · split at h
      · cases h
        exact moves_of_none rfl rfl
      · obtain ⟨⟨found, c⟩, -, h⟩ := Option.bind_eq_some_iff.mp h
        have hstop : Moves s { s with followState := s.followState.stopFollowing } := moves_of_eq rfl rfl rfl
        exact hstop.trans (moves_moveTo h)

theorem moves_scrollBy {distance : Pixels} (h : ListState.scrollBy s distance = some s') : Moves s s' := by
  rw [ListState.scrollBy] at h
  split at h
  · cases h
    exact moves_of_eq rfl rfl rfl
  · obtain ⟨⟨found, c⟩, -, h⟩ := Option.bind_eq_some_iff.mp h
    have hmoved : ∃ followState scrollTop, { s with followState := followState }.moveTo scrollTop = some s' := by
      dsimp only at h
      split at h
      all_goals
        obtain ⟨⟨found', c'⟩, -, h⟩ := Option.bind_eq_some_iff.mp h
        exact ⟨_, _, h⟩
    obtain ⟨followState, scrollTop, hmoved⟩ := hmoved
    have hfollow : Moves s { s with followState := followState } := moves_of_eq rfl rfl rfl
    exact hfollow.trans (moves_moveTo hmoved)

theorem moves_scrollTo (h : ListState.scrollTo s scrollTop = some s') : Moves s s' := by
  rw [ListState.scrollTo] at h
  have hstop : Moves s { s with followState := s.followState.stopFollowing } := moves_of_eq rfl rfl rfl
  by_cases hend : s.items.summary.count ≤ scrollTop.itemIx
  · simp only [hend, if_true] at h
    exact moves_moveTo h
  · simp only [hend, if_false] at h
    exact hstop.trans (moves_moveTo h)

theorem moves_setFollowMode (mode : FollowMode) : Moves s (ListState.setFollowMode s mode) := by
  cases mode with
  | normal => exact moves_of_eq rfl rfl rfl
  | tail => exact moves_of_none rfl rfl

/-! ### Remeasuring -/

theorem remeasure_keeps {start stop : Nat} {scrollAnchor : ScrollAnchor} (hs : Reachable s.items) (hbelongs : Belongs s)
    (h : ListState.remeasureItemsWithScrollAnchor s start stop scrollAnchor = some s') :
    Reachable s'.items ∧ Belongs s' := by
  have hrange : ∀ pendingScroll, (∀ pending, pendingScroll = some pending → s.pendingScroll = some pending ∨
      ∃ scrollTop, s.logicalScrollTop = some scrollTop ∧ pending.itemIx = scrollTop.itemIx ∧
        ∀ itemIx offset, pending = .absolute itemIx offset → offset = scrollTop.offsetInItem) →
      (ListState.invalidateRange s.items start stop).bind (fun items => some { s with
        pendingScroll := pendingScroll
        items := items
        measuringBehavior := s.measuringBehavior.reset }) = some s' → Reachable s'.items ∧ Belongs s' := by
    intro pendingScroll hpendings h
    obtain ⟨items, hitems, h⟩ := Option.bind_eq_some_iff.mp h
    cases h
    refine ⟨reachable_invalidateRange hs hitems, fun pending hpending => ?_⟩
    exact (hpendings pending hpending).elim (hbelongs pending) id
  rw [ListState.remeasureItemsWithScrollAnchor] at h
  split at h
  · rename_i scrollTop hlogical
    split at h
    · obtain ⟨pendingScroll, hanchored, h⟩ := Option.bind_eq_some_iff.mp h
      refine hrange pendingScroll (fun pending hpending => ?_) h
      cases scrollAnchor with
      | absolute =>
        cases hanchored
        cases hpending
        refine Or.inr ⟨scrollTop, hlogical, rfl, fun itemIx offset heq => ?_⟩
        cases heq
        rfl
      | proportional =>
        simp only [ListState.anchoredScroll, Option.bind_eq_bind, Option.bind_eq_some_iff] at hanchored
        obtain ⟨c, -, item, -, hanchored⟩ := hanchored
        obtain rfl := Option.some.inj hanchored
        rcases Option.or_eq_some_iff.mp hpending with hfraction | ⟨-, hsame⟩
        · obtain ⟨fraction, -, rfl⟩ := Option.map_eq_some_iff.mp hfraction
          exact Or.inr ⟨scrollTop, hlogical, rfl, fun itemIx offset heq => by cases heq⟩
        · exact Or.inl hsame
    · exact hrange s.pendingScroll (fun pending => Or.inl) h
  · exact hrange s.pendingScroll (fun pending => Or.inl) h

/-! ### Splicing -/

/-- The scroll top stays where the items are replaced. -/
def SpliceKeeps (s : StateInner) (start stop count : Nat) : Prop :=
  s.pendingScroll = none ∨ ∀ scrollTop, s.logicalScrollTop = some scrollTop →
    scrollTop.itemIx < start ∨
    (start = scrollTop.itemIx ∧ scrollTop.itemIx < stop ∧
      (scrollTop.offsetInItem = 0 ∨ ∀ itemIx offset, s.pendingScroll ≠ some (.absolute itemIx offset))) ∨
    (stop ≤ scrollTop.itemIx ∧ count = stop - start)

theorem splice_spec {start stop : Nat} {focusHandles : List (Option FocusHandle)} (hs : Reachable s.items)
    (h : ListState.spliceFocusable s start stop focusHandles = some s') :
    Reachable s'.items ∧ s'.pendingScroll = s.pendingScroll ∧ ∀ scrollTop, s.logicalScrollTop = some scrollTop →
      ∃ scrollTop', ListState.splicedScrollTop start stop focusHandles.length scrollTop = some scrollTop' ∧
        s'.logicalScrollTop = some scrollTop' := by
  rw [ListState.spliceFocusable] at h
  obtain ⟨items, hitems, h⟩ := Option.bind_eq_some_iff.mp h
  have hreachable := reachable_spliceItems hs hitems
  cases hlogical : s.logicalScrollTop with
  | none =>
    rw [hlogical] at h
    cases h
    exact ⟨hreachable, rfl, by simp⟩
  | some scrollTop =>
    rw [hlogical] at h
    obtain ⟨logicalScrollTop, hspliced, h⟩ := Option.bind_eq_some_iff.mp h
    obtain ⟨scrollTop', hmoved, rfl⟩ := Option.map_eq_some_iff.mp hspliced
    cases h
    refine ⟨hreachable, rfl, fun other hother => ?_⟩
    obtain rfl := Option.some.inj hother
    exact ⟨scrollTop', hmoved, rfl⟩

theorem splice_belongs {start stop : Nat} {focusHandles : List (Option FocusHandle)} (hs : Reachable s.items)
    (hbelongs : Belongs s) (hkeeps : SpliceKeeps s start stop focusHandles.length)
    (h : ListState.spliceFocusable s start stop focusHandles = some s') : Belongs s' := by
  obtain ⟨-, hpending, hlogical⟩ := splice_spec hs h
  intro pending hsome
  rw [hpending] at hsome
  obtain ⟨scrollTop, htop, hix, habsolute⟩ := hbelongs pending hsome
  obtain ⟨scrollTop', hspliced, hlogical⟩ := hlogical scrollTop htop
  have hcases := (hkeeps.resolve_left (by rw [hsome]; simp)) scrollTop htop
  unfold ListState.splicedScrollTop at hspliced
  refine ⟨scrollTop', hlogical, ?_⟩
  split at hspliced
  · rename_i hinside
    obtain rfl := Option.some.inj hspliced
    rcases hcases with hbefore | ⟨hstart, -, hoffset⟩ | ⟨hbehind, -⟩
    · omega
    · refine ⟨hix.trans hstart.symm, fun itemIx offset heq => ?_⟩
      rcases hoffset with hzero | hproportional
      · rw [habsolute itemIx offset heq, hzero]
      · exact absurd (hsome.trans (congrArg some heq)) (hproportional itemIx offset)
    · omega
  · split at hspliced
    · split at hspliced
      · cases hspliced
      · rename_i hinside hbehind hordered
        obtain rfl := Option.some.inj hspliced
        have hcount : scrollTop.itemIx - (stop - start) + focusHandles.length = scrollTop.itemIx := by omega
        exact ⟨by rw [hix, hcount], habsolute⟩
    · obtain rfl := Option.some.inj hspliced
      exact ⟨hix, habsolute⟩

/-! ### Layouts -/

namespace Layout

variable {items : List ListItem} {w : Surroundings} {availableHeight : Pixels} {l l' : Layout} {rounds : Nat}
  {c c' : SumTree.Cursor ListItem ListItemSummary Count}

/-- Behind the item at the scroll top nothing is restored. -/
theorem walkBelow_state {ix : Nat} (hix : ix ≠ 0) (l : Layout) :
    (walkBelow w availableHeight ix items l).state = l.state := by
  induction items generalizing ix l with
  | nil => rfl
  | cons item items ih =>
    rw [walkBelow]
    split
    · rfl
    · rw [ih (Nat.succ_ne_zero ix)]
      simp only [Layout.below, hix, and_false, if_false]
      split <;> rfl

theorem applyPendingScroll_pending (elementSize : Size Pixels) :
    (l.applyPendingScroll elementSize).state.pendingScroll = none := by
  rw [applyPendingScroll]
  split <;> rfl

theorem walkBelow_takes {item : ListItem} (hmeasured : l.visibleHeight < availableHeight + l.state.overdraw)
    (hrendered : l.visibleHeight < availableHeight ∨ item.size = none) :
    (walkBelow w availableHeight 0 (item :: items) l).state.pendingScroll = none := by
  have hrendered : (decide (l.visibleHeight < availableHeight) || item.size.isNone) = true := by
    rcases hrendered with hvisible | hnone
    · rw [decide_eq_true hvisible, Bool.true_or]
    · rw [hnone, Option.isNone_none, Bool.or_true]
  rw [walkBelow, if_neg (not_le.mpr hmeasured), walkBelow_state (Nat.succ_ne_zero 0)]
  simp only [Layout.below, hrendered, and_self, if_true]
  split <;> exact applyPendingScroll_pending _

theorem walkBelow_stops {ix : Nat} (h : availableHeight + l.state.overdraw ≤ l.visibleHeight) :
    walkBelow w availableHeight ix items l = l := by
  cases items with
  | nil => rfl
  | cons item items => rw [walkBelow, if_pos h]

theorem walkBelow_pending (l : Layout) : (walkBelow w availableHeight 0 items l).state.pendingScroll = none ∨
    (walkBelow w availableHeight 0 items l).state = l.state ∧
      (NonNegative w items → l.visibleHeight ≤ (walkBelow w availableHeight 0 items l).visibleHeight) := by
  cases items with
  | nil => exact Or.inr ⟨rfl, fun _ => le_rfl⟩
  | cons item items =>
    by_cases hbreak : availableHeight + l.state.overdraw ≤ l.visibleHeight
    · rw [walkBelow_stops hbreak]
      exact Or.inr ⟨rfl, fun _ => le_rfl⟩
    · by_cases hrendered : l.visibleHeight < availableHeight ∨ item.size = none
      · exact Or.inl (walkBelow_takes (not_le.mp hbreak) hrendered)
      · obtain ⟨hhidden, hsize⟩ := not_or.mp hrendered
        have hisNone : item.size.isNone = false := by
          rw [← Bool.not_eq_true, Option.isNone_iff_eq_none]
          exact hsize
        have hbelow : l.below w availableHeight 0 item
            = l.measure (item.size.getD (w.renderItem l.scrollTop.itemIx)) item := by
          simp only [Layout.below, hhidden, hisNone, decide_false, Bool.or_self, Bool.false_eq_true, false_and, if_false,
            Nat.add_zero]
        rw [walkBelow, if_neg hbreak, hbelow]
        refine Or.inr ⟨walkBelow_state (Nat.succ_ne_zero 0) _, fun hsizes => ?_⟩
        obtain ⟨walked, rest, measured, shown, hwalks⟩ := walkBelow_walks availableHeight
          (hsizes.mono (List.subset_cons_self _ _)) (Nat.succ_ne_zero 0)
          (l.measure (item.size.getD (w.renderItem l.scrollTop.itemIx)) item)
        have hmono := hwalks.mono
        rw [visibleHeight_measure] at hmono
        exact (le_add_of_nonneg_right (hsizes.getD List.mem_cons_self _)).trans hmono

theorem fillAbove_state (h : l.fillAbove w availableHeight rounds c = some (c', l')) : l'.state = l.state := by
  induction rounds generalizing c l with
  | zero => cases h
  | succ rounds ih =>
    rw [fillAbove] at h
    split at h
    · simp only [Option.bind_eq_bind, Option.bind_eq_some_iff] at h
      obtain ⟨c₁, -, item, -, h⟩ := h
      cases item with
      | none =>
        cases h
        rfl
      | some item =>
        have h : fillAbove w availableHeight rounds c₁ (l.above w c₁.position.count item) = some (c', l') := h
        exact (ih h).trans rfl
    · cases h
      rfl

theorem fillViewport_state (h : l.fillViewport w availableHeight rounds c = some (c', l')) :
    l'.state.pendingScroll = l.state.pendingScroll ∧ (availableHeight ≤ l.visibleHeight → l'.state = l.state) := by
  rw [fillViewport] at h
  split at h
  · rename_i hroom
    obtain ⟨⟨c₁, l₁⟩, hfill, heq⟩ := Option.map_eq_some_iff.mp h
    cases heq
    have hstate := fillAbove_state hfill
    refine ⟨?_, fun hfilled => absurd hroom (not_lt.mpr hfilled)⟩
    rw [← hstate, adjustScrollTop]
    cases l₁.state.alignment <;> rfl
  · cases h
    exact ⟨rfl, fun _ => rfl⟩

theorem resumeFollowing_state (h : resumeFollowing s availableHeight scrollTop = some s') :
    s'.items = s.items ∧ s'.pendingScroll = s.pendingScroll ∧ s'.logicalScrollTop = s.logicalScrollTop := by
  rw [resumeFollowing] at h
  split at h
  · simp only [Option.bind_eq_bind, Option.bind_eq_some_iff] at h
    obtain ⟨scrollOffset, -, h⟩ := h
    cases h
    split <;> exact ⟨rfl, rfl, rfl⟩
  · cases h
    exact ⟨rfl, rfl, rfl⟩

end Layout

/-- The layout takes the pending scroll, or the scroll top stays where it is. -/
def LayoutKeeps (s : StateInner) (w : Surroundings) (availableHeight : Pixels) (padding : Edges) : Prop :=
  s.pendingScroll = none ∨ s.followState.isFollowing = false ∧ ∀ scrollTop, s.logicalScrollTop = some scrollTop →
    let visibleHeight := padding.top - scrollTop.offsetInItem
    (∃ item, s.items.toList[scrollTop.itemIx]? = some item ∧ visibleHeight < availableHeight + s.overdraw ∧
      (visibleHeight < availableHeight ∨ item.size = none)) ∨
    (availableHeight ≤ visibleHeight + padding.bottom ∧
      (s.items.toList[scrollTop.itemIx]? = none ∨ availableHeight + s.overdraw ≤ visibleHeight ∨
        NonNegative w s.items.toList))

variable {w : Surroundings} {availableHeight : Pixels} {padding : Edges} {r : LayoutItemsResponse}

/-- What a layout makes of the state, as the first loop leaves it. -/
theorem layoutItems_state (hitems : s.items.Valid True) (h : s.layoutItems w availableHeight padding = some (s', r)) :
    ∃ walked, walked = Layout.walkBelow w availableHeight 0
        (s.items.toList.drop (Layout.start s padding).scrollTop.itemIx) (Layout.start s padding) ∧
      s'.pendingScroll = walked.state.pendingScroll ∧
      (availableHeight ≤ walked.visibleHeight + padding.bottom →
        s'.logicalScrollTop = walked.state.logicalScrollTop) := by
  have hrounds := hitems.length_lt_rounds
  obtain ⟨c, hseek, hstands⟩ := seekItem_stands hitems (Layout.start s padding).scrollTop.itemIx
  have hbelow := Layout.measureBelow_eq w availableHeight hitems hstands
    (by rw [List.length_drop]; omega : _ < s.items.rounds) 0 (Layout.start s padding)
  simp only [StateInner.layoutItems, hseek, hbelow, Option.bind_eq_bind, Option.bind_some, Option.bind_eq_some_iff] at h
  obtain ⟨c₁, -, ⟨c₂, filled⟩, hfill, ⟨c₃, measured⟩, -, newItems, -, state, hresume, trailing, -, h⟩ := h
  cases h
  obtain ⟨hpending, hstays⟩ := Layout.fillViewport_state hfill
  obtain ⟨-, hpending', hlogical'⟩ := Layout.resumeFollowing_state hresume
  refine ⟨_, rfl, hpending'.trans hpending, fun hfilled => hlogical'.trans ?_⟩
  have hsame := hstays (by
    simp only [Layout.visibleHeight] at hfilled ⊢
    linarith)
  show filled.state.logicalScrollTop = _
  exact congrArg StateInner.logicalScrollTop hsame

theorem layoutItems_belongs (hs : Reachable s.items) (hbelongs : Belongs s)
    (hkeeps : LayoutKeeps s w availableHeight padding) (h : s.layoutItems w availableHeight padding = some (s', r)) :
    Belongs s' := by
  have hitems : s.items.Valid True := hs.valid fun _ => inferInstance
  obtain ⟨walked, hwalked, hpending', hlogical'⟩ := layoutItems_state hitems h
  obtain htaken | ⟨hsame, hmono⟩ : walked.state.pendingScroll = none ∨ walked.state = (Layout.start s padding).state ∧ _ :=
    hwalked ▸ Layout.walkBelow_pending _
  · exact belongs_of_none (hpending'.trans htaken)
  cases hpending : s.pendingScroll with
  | none =>
    have hstart : (Layout.start s padding).state.pendingScroll = s.pendingScroll := by
      rw [Layout.start]
      split <;> rfl
    rw [hsame, hstart, hpending] at hpending'
    exact belongs_of_none hpending'
  | some pending =>
    obtain ⟨hfollowing, hrests⟩ := hkeeps.resolve_left (by rw [hpending]; exact Option.some_ne_none pending)
    obtain ⟨scrollTop, hlogical, -⟩ := hbelongs pending hpending
    have hstart : Layout.start s padding = ⟨s, [], [], padding.top, 0, scrollTop, false⟩ := by
      simp only [Layout.start, hfollowing, Bool.false_eq_true, if_false, getLogicalScrollTop, hlogical, Option.getD_some]
    rw [hstart] at hwalked hsame hmono
    obtain ⟨item, hitem, hmeasured, hrendered⟩ | ⟨hfilled, hstays⟩ := hrests scrollTop hlogical
    · rw [hwalked, List.drop_eq_getElem_cons (List.getElem?_eq_some_iff.mp hitem).1] at hpending'
      rw [(List.getElem?_eq_some_iff.mp hitem).2, Layout.walkBelow_takes (l := ⟨s, [], [], padding.top, 0, scrollTop, false⟩) hmeasured hrendered] at hpending'
      exact belongs_of_none hpending'
    · have hvisible : padding.top - scrollTop.offsetInItem ≤ walked.visibleHeight := by
        obtain hend | hbreak | hsizes := hstays
        · rw [hwalked, List.drop_eq_nil_of_le (List.getElem?_eq_none_iff.mp hend)]
          exact le_rfl
        · rw [hwalked, Layout.walkBelow_stops (l := ⟨s, [], [], padding.top, 0, scrollTop, false⟩) hbreak]
          exact le_rfl
        · exact hmono (hsizes.mono (List.drop_subset _ _))
      refine hbelongs.congr ?_ ?_
      · rw [hpending', hsame]
      · rw [hlogical' (by linarith), hsame]

/-! ### Runs -/

/-- What the methods keep of a list. -/
structure Tracks (s : StateInner) : Prop where
  reachable : Reachable s.items
  belongs : Belongs s

theorem Moves.tracks (h : Moves s s') (hs : Tracks s) : Tracks s' :=
  ⟨h.items ▸ hs.reachable, h.belongs hs.belongs⟩

theorem tracks_of_none (hitems : Reachable s.items) (hpending : s.pendingScroll = none) : Tracks s :=
  ⟨hitems, belongs_of_none hpending⟩

theorem Tracks.congr (hs : Tracks s) (hitems : Reachable s'.items) (hpending : s'.pendingScroll = s.pendingScroll)
    (hlogical : s'.logicalScrollTop = s.logicalScrollTop) : Tracks s' :=
  ⟨hitems, hs.belongs.congr hpending hlogical⟩

theorem tracks_applyUniformItemHeight {height : Pixels} (hs : Tracks s)
    (h : ListState.applyUniformItemHeight s height = some s') : Tracks s' := by
  simp only [ListState.applyUniformItemHeight, Option.bind_eq_bind, Option.bind_eq_some_iff] at h
  obtain ⟨items, -, tree, hextend, h⟩ := h
  cases h
  exact hs.congr (.extend .new hextend) rfl rfl

theorem tracks_reset {elementCount : Nat} (hs : Tracks s) (h : ListState.reset s elementCount = some s') : Tracks s' := by
  rw [ListState.reset, ListState.splice] at h
  obtain ⟨hitems, hpending, -⟩ := splice_spec (by exact hs.reachable) h
  exact tracks_of_none hitems hpending

theorem tracks_new {itemCount : Nat} {alignment : ListAlignment} {overdraw : Pixels}
    (h : ListState.new itemCount alignment overdraw = some s) : Tracks s := by
  obtain ⟨hitems, hpending, -⟩ := splice_spec .new h
  exact tracks_of_none hitems hpending

theorem reachable_layoutItems (hs : Reachable s.items) (h : s.layoutItems w availableHeight padding = some (s', r)) :
    Reachable s'.items := by
  simp only [StateInner.layoutItems, Option.bind_eq_bind, Option.bind_eq_some_iff] at h
  obtain ⟨c, -, walked, -, c₁, -, ⟨c₂, filled⟩, -, ⟨c₃, measured⟩, -, newItems, hreplace, state, hresume, trailing, -,
    h⟩ := h
  cases h
  rw [(Layout.resumeFollowing_state hresume).1]
  exact reachable_replaceItems hs hreplace

theorem tracks_invalidateWidth {bounds : Bounds Pixels} (hs : Tracks s) (h : s.invalidateWidth bounds = some s') :
    Tracks s' := by
  rw [invalidateWidth] at h
  split at h
  · simp only [Option.bind_eq_bind, Option.bind_eq_some_iff] at h
    obtain ⟨items, -, newItems, htree, h⟩ := h
    cases h
    exact hs.congr (.fromIter htree) rfl rfl
  · cases h
    exact hs

theorem tracks_layoutAllItems (hs : Tracks s) (h : s.layoutAllItems w = some s') : Tracks s' := by
  rw [layoutAllItems] at h
  split at h
  · cases h
    exact hs
  · cases h
    exact hs
  · simp only [Option.bind_eq_bind, Option.bind_eq_some_iff] at h
    obtain ⟨items, -, tree, htree, h⟩ := h
    cases h
    exact hs.congr (.fromIter htree) rfl rfl

/-- The scroll top is not moved away from a scroll adjustment that is pending. -/
def KeepsPending (s : StateInner) : ListAct → Prop
  | .splice start stop count => SpliceKeeps s start stop count
  | .spliceFocusable start stop focusHandles => SpliceKeeps s start stop focusHandles.length
  | .layoutItems w availableHeight padding => LayoutKeeps s w availableHeight padding
  | .autoscroll _ => s.pendingScroll = none
  | _ => True

theorem Tracks.step {act : ListAct} (hs : Tracks s) (hkeeps : KeepsPending s act) (h : ListState.step s act = some s') :
    Tracks s' := by
  cases act with
  | measureAll =>
    cases h
    exact hs.congr hs.reachable rfl rfl
  | withUniformItemHeight height => exact tracks_applyUniformItemHeight hs h
  | reset elementCount => exact tracks_reset hs h
  | resetWithUniformHeight elementCount height =>
    obtain ⟨s₁, hreset, h⟩ := Option.bind_eq_some_iff.mp h
    exact tracks_applyUniformItemHeight (tracks_reset hs hreset) h
  | remeasure =>
    obtain ⟨hitems, hbelongs⟩ := remeasure_keeps hs.reachable hs.belongs h
    exact ⟨hitems, hbelongs⟩
  | remeasureItems start stop =>
    obtain ⟨hitems, hbelongs⟩ := remeasure_keeps hs.reachable hs.belongs h
    exact ⟨hitems, hbelongs⟩
  | splice start stop count =>
    have hcount : SpliceKeeps s start stop (List.replicate count (none : Option FocusHandle)).length := by
      rw [List.length_replicate]
      exact hkeeps
    exact ⟨(splice_spec hs.reachable h).1, splice_belongs hs.reachable hs.belongs hcount h⟩
  | spliceFocusable start stop focusHandles =>
    exact ⟨(splice_spec hs.reachable h).1, splice_belongs hs.reachable hs.belongs hkeeps h⟩
  | scrollBy distance => exact (moves_scrollBy h).tracks hs
  | scrollToEnd =>
    cases h
    exact (moves_scrollToEnd s).tracks hs
  | setFollowMode mode =>
    cases h
    exact (moves_setFollowMode mode).tracks hs
  | scrollTo scrollTop => exact (moves_scrollTo h).tracks hs
  | scrollToRevealItem ix =>
    obtain ⟨scrollTop, -, h⟩ := Option.bind_eq_some_iff.mp h
    exact (moves_moveTo h).tracks hs
  | scrollbarDragStarted =>
    cases h
    exact hs.congr hs.reachable rfl rfl
  | scrollbarDragEnded =>
    cases h
    exact hs.congr hs.reachable rfl rfl
  | setOffsetFromScrollbar point => exact (moves_setOffsetFromScrollbar h).tracks hs
  | scroll scrollTop height delta => exact (moves_scroll h).tracks hs
  | layoutItems w availableHeight padding =>
    obtain ⟨⟨laid, r⟩, hlayout, rfl⟩ := Option.map_eq_some_iff.mp h
    exact ⟨reachable_layoutItems hs.reachable hlayout, layoutItems_belongs hs.reachable hs.belongs hkeeps hlayout⟩
  | beginPrepaint bounds =>
    have hbegun : Tracks { s with reset := false } := hs.congr hs.reachable rfl rfl
    exact tracks_invalidateWidth hbegun h
  | layoutAllItems w =>
    rw [ListState.step] at h
    split at h
    · exact tracks_layoutAllItems hs h
    · cases h
      exact hs
  | autoscroll offset =>
    cases h
    exact tracks_of_none hs.reachable hkeeps
  | endPrepaint bounds padding =>
    cases h
    exact hs.congr hs.reachable rfl rfl

/-- **A pending scroll belongs to the scroll top** throughout the runs that do not move the scroll
top away from it. -/
theorem belongs_throughout {itemCount : Nat} {alignment : ListAlignment} {overdraw : Pixels} (acts : List ListAct)
    (hnew : ListState.new itemCount alignment overdraw = some s)
    (hkeeps : RunMeets ListState.step KeepsPending s acts) : Throughout ListState.step Belongs s acts :=
  run_throughout (fun _ _ _ hs hkeeps h => hs.step hkeeps h) (fun _ hs => hs.belongs) acts (tracks_new hnew) hkeeps

/-- The item at the scroll top is remeasured. -/
def remeasureTop : List ListAct := [.scrollTo ⟨5, 40⟩, .remeasureItems 5 6]

theorem remeasureTop_scrollTop : ((ListState.new 10 .top (0 : Pixels)).bind fun s => run ListState.step s remeasureTop).map
    StateInner.logicalScrollTop = some (some ⟨5, 40⟩) := by decide +kernel

/-- Items are spliced in behind it. -/
theorem belongs_throughout_splice : ∃ s, ListState.new 10 .top (0 : Pixels) = some s ∧
    Throughout ListState.step Belongs s (remeasureTop ++ [.splice 6 8 5]) := by
  obtain ⟨s, hnew⟩ := Option.isSome_iff_exists.mp (by decide +kernel : (ListState.new 10 .top (0 : Pixels)).isSome)
  refine ⟨s, hnew, belongs_throughout _ hnew (RunMeets.concat ⟨trivial, ?_⟩ fun s' hrun => ⟨Or.inr ?_, ?_⟩)⟩
  · cases ListState.step s (.scrollTo ⟨5, 40⟩) with
    | none => trivial
    | some s₁ =>
      refine ⟨trivial, ?_⟩
      cases ListState.step s₁ (.remeasureItems 5 6) <;> trivial
  · have htop := remeasureTop_scrollTop
    rw [hnew, Option.bind_some, hrun] at htop
    intro scrollTop hlogical
    obtain rfl := Option.some.inj (hlogical.symm.trans (Option.some.inj htop))
    exact Or.inl (by decide)
  · cases ListState.step s' (.splice 6 8 5) <;> trivial

/-- An item before it is removed. -/
theorem not_belongs_throughout : ¬ ∀ s acts, ListState.new 10 .top (0 : Pixels) = some s →
    Throughout ListState.step Belongs s acts := by
  intro h
  obtain ⟨s, hnew⟩ := Option.isSome_iff_exists.mp (by decide +kernel : (ListState.new 10 .top (0 : Pixels)).isSome)
  have hfar : ((ListState.new 10 .top (0 : Pixels)).bind fun s => run ListState.step s (remeasureTop ++ [.splice 0 1 0])).map
      (fun s => (s.pendingScroll, s.logicalScrollTop)) = some (some (.absolute 5 40), some ⟨4, 40⟩) := by decide +kernel
  rw [hnew, Option.bind_some] at hfar
  obtain ⟨s', hrun, hs'⟩ := Option.map_eq_some_iff.mp hfar
  obtain ⟨hpending, hlogical⟩ := Prod.mk.inj hs'
  obtain ⟨scrollTop, htop, hix, -⟩ := (h s _ hnew).last _ hrun _ hpending
  obtain rfl := Option.some.inj (htop.symm.trans hlogical)
  exact absurd hix (by decide)

end FcGpui.Elements
