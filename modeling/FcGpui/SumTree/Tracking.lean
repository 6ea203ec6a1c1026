import FcGpui.SumTree.ReachableCursors

/-!
# What a position says of the items before it

Where adding summaries is not associative, as of rounded numbers, the position of a cursor
depends on the nodes that it has passed, and is not the sum of the items before it.  A relation
between positions and lists of items still holds along a seek if it is kept by the summary of
every item and of every node: the cursor `Tracks` it.

**Main results.**  `Tracks.seek`, `Tracks.seekForward`: a seek does not panic, and where it ends
the position is related to the items before.
-/

namespace FcGpui

namespace SumTree

variable {T S D : Type} [Dimension D S] {target : SeekTarget D} {bias : Bias}

namespace Cursor

/-! ### The sum of the summaries is the position -/

theorem seekChildren_sum {children : List (SumTree T S × S)} {entry entry' : StackEntry T S D}
    {position position' sum : D} {child : Option (SumTree T S)}
    (h : seekChildren target bias (SeekAggregate.summary D T S) children entry position position
      = some (entry', position', sum, child)) : sum = position' := by
  induction children generalizing entry position with
  | nil =>
    cases h
    rfl
  | cons c children ih =>
    obtain ⟨childTree, childSummary⟩ := c
    unfold seekChildren at h
    by_cases hpass : passes target bias (Dimension.addSummary position childSummary) = true
    · simp only [if_pos hpass] at h
      exact ih h
    · simp only [if_neg hpass] at h
      cases h
      rfl

theorem seekItems_sum (items : List (T × S)) (entry : StackEntry T S D) (position : D) :
    (seekItems target bias (SeekAggregate.summary D T S) items entry position position).2.2.1
      = (seekItems target bias (SeekAggregate.summary D T S) items entry position position).2.1 := by
  induction items generalizing entry position with
  | nil => rfl
  | cons pair items ih =>
    obtain ⟨item, itemSummary⟩ := pair
    unfold seekItems
    by_cases hpass : passes target bias (Dimension.addSummary position itemSummary) = true
    · simp only [if_pos hpass]
      exact ih _ _
    · simp only [if_neg hpass]

theorem seekLoop_sum (fuel : Nat) : ∀ {ascending : Bool} {stack stack' : List (StackEntry T S D)}
    {position position' sum : D},
    seekLoop target bias (SeekAggregate.summary D T S) fuel ascending stack position position
      = some (stack', position', sum) → sum = position' := by
  induction fuel with
  | zero => exact fun h => absurd h (by simp [seekLoop])
  | succ fuel ih =>
    intro ascending stack stack' position position' sum h
    cases stack with
    | nil =>
      obtain ⟨-, rfl, rfl⟩ : [] = stack' ∧ position = position' ∧ position = sum := by simpa [seekLoop] using h
      rfl
    | cons entry stack =>
      unfold seekLoop at h
      split at h
      · simp only at h
        split at h
        · cases h
        · obtain ⟨⟨entry₁, position₁, sum₁, child⟩, hchildren, h⟩ := Option.bind_eq_some_iff.mp h
          obtain rfl := seekChildren_sum hchildren
          cases child with
          | none => exact ih h
          | some childTree => exact ih h
      · simp only at h
        split at h
        · cases h
        · obtain ⟨sum₁, hleaf, h⟩ := Option.bind_eq_some_iff.mp h
          cases hleaf
          split at h
          · cases h
            exact seekItems_sum _ _ _
          · exact ih ((congrArg (seekLoop target bias _ fuel true stack _) (seekItems_sum _ _ _)).symm.trans h)

theorem seekInternal_sum {c c' : Cursor T S D} {found : Bool} {sum : D}
    (h : seekInternal target bias (SeekAggregate.summary D T S) c c.position = some (found, c', sum)) :
    sum = c'.position := by
  unfold seekInternal at h
  split at h
  · cases h
  · obtain ⟨⟨stack, position, sum₁⟩, hloop, h⟩ := Option.bind_eq_some_iff.mp h
    obtain ⟨found₁, -, heq⟩ := Option.map_eq_some_iff.mp h
    have hposition : c.started.position = c.position := by
      unfold started
      split <;> rfl
    rw [hposition] at hloop
    obtain rfl := seekLoop_sum _ hloop
    cases heq
    rfl

/-! ### Relations -/

variable [Summary S] [Item T S] {P : Prop} {K : D → List T → Prop}

/-- The relation is kept by the summary of an item and by that of a node. -/
structure Tracks (P : Prop) (K : D → List T → Prop) : Prop where
  zero : K (Dimension.zero S) []
  item : ∀ {position : D} {items : List T} {item : T}, K position items →
    K (Dimension.addSummary position (Item.summary item)) (items ++ [item])
  tree : ∀ {position : D} {items : List T} {t : SumTree T S}, K position items → t.WellFormed P →
    K (Dimension.addSummary position t.summary) (items ++ t.toList)

theorem Tracks.pushItems (h : Tracks P K) {position : D} {items : List T} (hk : K position items) (leafItems : List T) :
    K ((SeekAggregate.summary D T S).pushItems position leafItems) (items ++ leafItems) := by
  induction leafItems generalizing position items with
  | nil => rwa [List.append_nil]
  | cons item leafItems ih =>
    rw [← List.singleton_append, ← List.append_assoc]
    exact ih (h.item hk)

theorem Tracks.collects (h : Tracks P K) (passed : List T) :
    (SeekAggregate.summary D T S).Collects P fun position items => K position (passed ++ items) where
  pushTree hk ht := ⟨_, rfl, by
    rw [← List.append_assoc]
    exact h.tree hk ht⟩
  leaf {position items leafItems} hk _ := ⟨_, rfl, by
    rw [← List.append_assoc]
    exact h.pushItems hk leafItems⟩

variable {root : SumTree T S} {c : Cursor T S D} {passed remaining : List T}

theorem Tracks.ready (h : Tracks P K) (bias : Bias) (hroot : root.Valid P)
    (hready : Ready False root c passed remaining) (hk : K c.position passed) (hcmp : target.cmp c.position ≠ .lt) :
    ∃ found c' crossed remaining', c.seekForward target bias = some (found, c') ∧
      Sought False root target bias c passed found c' crossed remaining' ∧ K c'.position (passed ++ crossed) := by
  obtain ⟨found, c', sum, crossed, remaining', hseek, hsought, hsum⟩ :=
    seekInternal_finds bias (fun hfalse => hfalse.elim) (h.collects passed) hroot hready hcmp
      (a := c.position) (by rwa [List.append_nil])
  refine ⟨found, c', crossed, remaining', ?_, hsought, seekInternal_sum hseek ▸ hsum⟩
  rw [seekForward, seekInternal_unit hseek]
  rfl

/-- **A seek forward.** -/
theorem Tracks.seekForward (h : Tracks P K) (bias : Bias) (hroot : root.Valid P)
    (hstands : Stands False root c passed remaining) (hk : K c.position passed) (hcmp : target.cmp c.position ≠ .lt) :
    ∃ found c' crossed remaining', c.seekForward target bias = some (found, c') ∧
      Sought False root target bias c passed found c' crossed remaining' ∧ K c'.position (passed ++ crossed) :=
  h.ready bias hroot (.stands hstands) hk hcmp

/-- **A seek.** -/
theorem Tracks.seek (h : Tracks P K) (bias : Bias) (hroot : root.Valid P) (htree : c.tree = root)
    (hcmp : target.cmp (Dimension.zero S) ≠ .lt) :
    ∃ found c' crossed remaining', c.seek target bias = some (found, c') ∧
      Sought False root target bias (Cursor.new root) [] found c' crossed remaining' ∧ K c'.position crossed := by
  have hreset : c.reset = Cursor.new root := by
    rw [← htree]
    rfl
  obtain ⟨found, c', crossed, remaining', hseek, hsought, hk⟩ := h.ready bias hroot .new h.zero hcmp
  refine ⟨found, c', crossed, remaining', ?_, hsought, hk⟩
  rw [Cursor.seek, hreset]
  exact hseek

/-- **A seek to an index**, if the target passes just the positions behind at most so many items. -/
theorem Tracks.seekIndex (h : Tracks P K) {n : Nat} (hroot : root.Valid P) (htree : c.tree = root)
    (hpasses : ∀ {position : D} {items : List T}, K position items →
      (passes target bias position = true ↔ items.length ≤ n)) :
    ∃ found c', c.seek target bias = some (found, c') ∧
      Stands False root c' (root.toList.take n) (root.toList.drop n) ∧ K c'.position (root.toList.take n) := by
  have hstart : target.cmp (Dimension.zero S) ≠ .lt := by
    have hzero := (hpasses h.zero).mpr (Nat.zero_le n)
    intro hlt
    rw [passes, hlt] at hzero
    simp at hzero
  obtain ⟨found, c', crossed, remaining, hseek, hsought, hk⟩ := h.seek bias hroot htree hstart
  have hstands : Stands False root c' crossed remaining := hsought.stands
  have hitems := hstands.toList
  have hle : crossed.length ≤ n := by
    rcases hsought.moved with ⟨rfl, -⟩ | hpassed
    · exact Nat.zero_le n
    · exact (hpasses hk).mp hpassed
  have htake : root.toList.take n = crossed := by
    cases remaining with
    | nil =>
      rw [hitems, List.append_nil]
      exact List.take_of_length_le hle
    | cons item rest =>
      have hstops := hsought.stops item rfl
      rw [← Bool.not_eq_true, hpasses (h.item hk), List.length_append, List.length_singleton] at hstops
      have hn : n = crossed.length := by omega
      rw [hitems, hn, List.take_left' rfl]
  have hdrop : root.toList.drop n = remaining := by
    have hboth := List.take_append_drop n root.toList
    rw [htake] at hboth
    exact List.append_cancel_left (hboth.trans hitems)
  rw [htake, hdrop]
  exact ⟨found, c', hseek, hstands, hk⟩

end Cursor

end SumTree

end FcGpui
