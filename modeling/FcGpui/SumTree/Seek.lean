import FcGpui.SumTree.Path

/-!
# Seeking

What a cursor does when it moves forward to a target.  The aggregate is told of just the
items that are walked over (`Collects`); the cursor goes on as long as the target `passes`
what ends next, so where it stops the target passes the items before it, if any were
walked over, and does not pass the next item (`Lands`).

**Main result.**  `seekInternal_finds`: the loop does not panic, it has enough fuel, and
it lands.  None of it depends on the aggregate (`seekInternal_unit`).
-/

namespace FcGpui

namespace SumTree

variable {T S D A : Type} [Summary S] [Item T S] [Dimension D S] {P R : Prop}

open Summary

namespace Cursor

variable {target : SeekTarget D} {bias : Bias} {aggregate : SeekAggregate A T S} {Q : A → List T → Prop}

/-- The position stays where it is if nothing is walked over, or the target passes the new one. -/
def Moved (target : SeekTarget D) (bias : Bias) (position position' : D) (crossed : List T) : Prop :=
  (crossed = [] ∧ position' = position) ∨ passes target bias position' = true

theorem Moved.trans {position₁ position₂ position₃ : D} {crossed₁ crossed₂ : List T}
    (h₁ : Moved target bias position₁ position₂ crossed₁)
    (h₂ : Moved target bias position₂ position₃ crossed₂) :
    Moved target bias position₁ position₃ (crossed₁ ++ crossed₂) := by
  rcases h₂ with ⟨rfl, rfl⟩ | h₂
  · rwa [List.append_nil]
  · exact Or.inr h₂

section Lawful

variable (hlaw : R → P ∧ LawfulSummary S ∧ LawfulDimension D S)

omit [Summary S] in
theorem seekItems_finds (target : SeekTarget D) (bias : Bias) (aggregate : SeekAggregate A T S)
    (items : List T) (entry : StackEntry T S D) {position : D} (a : A) {passed : List T}
    (hposition : R → position = positionAfter passed) :
    ∃ entry' position' n, seekItems target bias aggregate
        (items.map fun item => (item, Item.summary item)) entry position a
      = (entry', position', aggregate.pushItems a (items.take n), decide (n < items.length)) ∧
      n ≤ items.length ∧ entry'.tree = entry.tree ∧ entry'.index = entry.index + n ∧
      (R → position' = positionAfter (passed ++ items.take n)) ∧
      Moved target bias position position' (items.take n) ∧
      ∀ item ∈ items[n]?, passes target bias (Dimension.addSummary position' (Item.summary item)) = false := by
  induction items generalizing entry position a passed with
  | nil =>
    refine ⟨entry, position, 0, rfl, Nat.le_refl _, rfl, rfl, fun hR => ?_, Or.inl ⟨rfl, rfl⟩, ?_⟩
    · rw [List.take_zero, List.append_nil]
      exact hposition hR
    · exact fun item hitem => absurd hitem (by simp)
  | cons item items ih =>
    rw [List.map_cons, seekItems]
    by_cases hpass : passes target bias (Dimension.addSummary position (Item.summary item)) = true
    · have hnext : R → Dimension.addSummary position (Item.summary item) = positionAfter (passed ++ [item]) := by
        intro hR
        rw [positionAfter_concat, hposition hR]
      obtain ⟨entry', position', n, heq, hn, htree, hindex, hpos, hmoved, hstop⟩ :=
        ih { entry with index := entry.index + 1 } (aggregate.pushItem a item (Item.summary item)) hnext
      refine ⟨entry', position', n + 1, ?_, Nat.succ_le_succ hn, htree, ?_, fun hR => ?_, ?_, hstop⟩
      · simp only [if_pos hpass]
        rw [heq, List.take_succ_cons, List.length_cons]
        simp only [Nat.succ_lt_succ_iff]
        rfl
      · rw [hindex]
        show entry.index + 1 + n = entry.index + (n + 1)
        omega
      · rw [hpos hR, List.take_succ_cons, List.append_assoc, List.singleton_append]
      · rcases hmoved with ⟨-, rfl⟩ | hmoved
        · exact Or.inr hpass
        · exact Or.inr hmoved
    · refine ⟨entry, position, 0, ?_, Nat.zero_le _, rfl, rfl, fun hR => ?_, Or.inl ⟨rfl, rfl⟩, ?_⟩
      · simp only [if_neg hpass]
        rw [List.length_cons, decide_eq_true (Nat.succ_pos _)]
        rfl
      · rw [List.take_zero, List.append_nil]
        exact hposition hR
      · intro item' hitem'
        obtain rfl : item = item' := by simpa using hitem'
        exact Bool.eq_false_iff.mpr hpass

include hlaw

theorem seekChildren_finds (target : SeekTarget D) (bias : Bias) (hcollects : aggregate.Collects P Q) (trees : List (SumTree T S))
    (hwf : ∀ t ∈ trees, t.WellFormed P) {entry : StackEntry T S D} {position : D} {a : A}
    {passed crossed : List T} (hentry : R → entry.position = positionAfter passed)
    (hposition : R → position = positionAfter passed) (ha : Q a crossed) :
    ∃ entry' position' a' n, seekChildren target bias aggregate (trees.map fun t => (t, t.summary))
        entry position a = some (entry', position', a', trees[n]?) ∧
      n ≤ trees.length ∧ entry'.tree = entry.tree ∧ entry'.index = entry.index + n ∧
      (R → entry'.position = positionAfter (passed ++ toListAll (trees.take n))) ∧
      (R → position' = positionAfter (passed ++ toListAll (trees.take n))) ∧
      Q a' (crossed ++ toListAll (trees.take n)) ∧
      Moved target bias position position' (toListAll (trees.take n)) := by
  induction trees generalizing entry position a passed crossed with
  | nil =>
    refine ⟨entry, position, a, 0, rfl, Nat.le_refl _, rfl, rfl, fun hR => ?_, fun hR => ?_, ?_,
      Or.inl ⟨rfl, rfl⟩⟩
    · rw [List.take_zero, toListAll, List.append_nil]
      exact hentry hR
    · rw [List.take_zero, toListAll, List.append_nil]
      exact hposition hR
    · rwa [List.take_zero, toListAll, List.append_nil]
  | cons t trees ih =>
    have ht := hwf t List.mem_cons_self
    rw [List.map_cons, seekChildren]
    by_cases hpass : passes target bias (Dimension.addSummary position t.summary) = true
    · have hnext : R → Dimension.addSummary position t.summary = positionAfter (passed ++ t.toList) := by
        intro hR
        obtain ⟨hP, _, _⟩ := hlaw hR
        rw [hposition hR, addSummary_tree ht hP]
      obtain ⟨a₁, hpush, ha₁⟩ := hcollects.pushTree ha ht
      obtain ⟨entry', position', a', n, heq, hn, htree, hindex, hent, hpos, ha', hmoved⟩ :=
        @ih (fun t ht => hwf t (List.mem_cons_of_mem _ ht))
          { entry with index := entry.index + 1, position := Dimension.addSummary position t.summary }
          _ a₁ _ _ hnext hnext ha₁
      refine ⟨entry', position', a', n + 1, ?_, Nat.succ_le_succ hn, htree, ?_, fun hR => ?_, fun hR => ?_,
        ?_, ?_⟩
      · simp only [if_pos hpass]
        rw [hpush]
        exact heq
      · rw [hindex]
        show entry.index + 1 + n = entry.index + (n + 1)
        omega
      · rw [hent hR, List.take_succ_cons, toListAll, List.append_assoc]
      · rw [hpos hR, List.take_succ_cons, toListAll, List.append_assoc]
      · rwa [List.take_succ_cons, toListAll, ← List.append_assoc]
      · rcases hmoved with ⟨-, rfl⟩ | hmoved
        · exact Or.inr hpass
        · exact Or.inr hmoved
    · refine ⟨entry, position, a, 0, ?_, Nat.zero_le _, rfl, rfl, fun hR => ?_, fun hR => ?_, ?_,
        Or.inl ⟨rfl, rfl⟩⟩
      · simp only [if_neg hpass]
        rfl
      · rw [List.take_zero, toListAll, List.append_nil]
        exact hentry hR
      · rw [List.take_zero, toListAll, List.append_nil]
        exact hposition hR
      · rwa [List.take_zero, toListAll, List.append_nil]

omit hlaw

/-- Where the loop of a seek ends that began behind `passed`. -/
structure Lands (R : Prop) (root : SumTree T S) (target : SeekTarget D) (bias : Bias) (passed : List T)
    (position : D) (stack' : List (StackEntry T S D)) (position' : D) (crossed remaining : List T) : Prop where
  rests : Rests R root stack' (passed ++ crossed) remaining
  start : R → position' = positionAfter (passed ++ crossed)
  moved : Moved target bias position position' crossed
  stops : ∀ item ∈ remaining.head?,
    passes target bias (Dimension.addSummary position' (Item.summary item)) = false

variable {root : SumTree T S} {stack stack' : List (StackEntry T S D)} {position position₁ position' : D}
  {passed crossed crossed₁ remaining : List T} {work : Nat} {ascending : Bool} {a : A}

omit [Summary S] in
theorem Lands.after (hmoved : Moved target bias position position₁ crossed₁)
    (h : Lands R root target bias (passed ++ crossed₁) position₁ stack' position' crossed remaining) :
    Lands R root target bias passed position stack' position' (crossed₁ ++ crossed) remaining where
  rests := by
    rw [← List.append_assoc]
    exact h.rests
  start := by
    rw [← List.append_assoc]
    exact h.start
  moved := hmoved.trans h.moved
  stops := h.stops

omit [Summary S] [Item T S] [Dimension D S] in
theorem resumed_false (e : StackEntry T S D) (position : D) : resumed false e position = e := rfl

omit [Summary S] [Item T S] in
/-- Coming back to a node is coming to its next child. -/
theorem seekLoop_resumed (target : SeekTarget D) (bias : Bias) (aggregate : SeekAggregate A T S) (fuel : Nat)
    {e : StackEntry T S D} (h : e.tree.childTrees.isSome) (stack : List (StackEntry T S D)) (position : D) (a : A) :
    seekLoop target bias aggregate (fuel + 1) true (e :: stack) position a
      = seekLoop target bias aggregate (fuel + 1) false (resumed true e position :: stack) position a := by
  obtain ⟨tree, index, entryPosition⟩ := e
  cases tree with
  | leaf => exact absurd h (by simp [childTrees])
  | internal => rfl

/-- What the rounds that follow do, as the induction of `seekLoop_finds` has it. -/
def Finds (R : Prop) (root : SumTree T S) (target : SeekTarget D) (bias : Bias)
    (aggregate : SeekAggregate A T S) (Q : A → List T → Prop) (fuel : Nat) (ascending : Bool)
    (stack : List (StackEntry T S D)) (position : D) (a : A) (passed crossed : List T) : Prop :=
  ∃ stack' position' a' crossed' remaining,
    seekLoop target bias aggregate fuel ascending stack position a = some (stack', position', a') ∧
    Lands R root target bias passed position stack' position' crossed' remaining ∧ Q a' (crossed ++ crossed')

/-- The loop finds from every stage that it has the fuel for. -/
def FindsWithin (R : Prop) (root : SumTree T S) (target : SeekTarget D) (bias : Bias)
    (aggregate : SeekAggregate A T S) (Q : A → List T → Prop) (fuel : Nat) : Prop :=
  ∀ {ascending : Bool} {stack : List (StackEntry T S D)} {position : D} {a : A} {passed crossed : List T} {work : Nat},
    Stage R root ascending stack passed work → work < fuel → (R → position = positionAfter passed) → Q a crossed →
      Finds R root target bias aggregate Q fuel ascending stack position a passed crossed

omit [Summary S] in
theorem Finds.after {fuel : Nat} {stack₁ : List (StackEntry T S D)} {a₁ : A} {ascending₁ : Bool}
    (hmoved : Moved target bias position position₁ crossed₁)
    (hloop : seekLoop target bias aggregate (fuel + 1) ascending stack position a
      = seekLoop target bias aggregate fuel ascending₁ stack₁ position₁ a₁)
    (h : Finds R root target bias aggregate Q fuel ascending₁ stack₁ position₁ a₁ (passed ++ crossed₁)
      (crossed ++ crossed₁)) :
    Finds R root target bias aggregate Q (fuel + 1) ascending stack position a passed crossed := by
  obtain ⟨stack', position', a', crossed', remaining, heq, hlands, ha'⟩ := h
  refine ⟨stack', position', a', crossed₁ ++ crossed', remaining, hloop.trans heq, hlands.after hmoved, ?_⟩
  rwa [← List.append_assoc]

include hlaw

theorem finds_internal (hcollects : aggregate.Collects P Q) (hroot : root.Valid P) {fuel : Nat}
    (ih : FindsWithin R root target bias aggregate Q fuel)
    {e : StackEntry T S D} {before after : List T} {height : Nat} {summary : S} {childSummaries : List S}
    {childTrees : List (SumTree T S)} (path : Path R root stack e.tree before after)
    (htree : e.tree = internal height summary childSummaries childTrees) (hindex : e.index ≤ childTrees.length)
    (hentry : R → e.position = positionAfter (before ++ toListAll (childTrees.take e.index)))
    (hfuel : turns e.tree e.index + pending stack < fuel + 1)
    (hposition : R → position = positionAfter (before ++ toListAll (childTrees.take e.index))) (ha : Q a crossed) :
    Finds R root target bias aggregate Q (fuel + 1) false (e :: stack) position a
      (before ++ toListAll (childTrees.take e.index)) crossed := by
  have hvalid := path.valid hroot
  rw [htree] at hvalid
  obtain ⟨entry', position₁, a₁, n, heq, hn, htree₁, hindex₁, hent₁, hpos₁, ha₁, hmoved⟩ :=
    seekChildren_finds hlaw target bias hcollects (childTrees.drop e.index)
      (fun t ht => hvalid.children t (List.mem_of_mem_drop ht)) hentry hposition ha
  have hpassed : before ++ toListAll (childTrees.take e.index) ++ toListAll ((childTrees.drop e.index).take n)
      = before ++ toListAll (childTrees.take entry'.index) := by
    rw [hindex₁, List.take_add, toListAll_append, List.append_assoc]
  have hzip : (childTrees.drop e.index).zip (childSummaries.drop e.index)
      = (childTrees.drop e.index).map fun t => (t, t.summary) := by
    rw [hvalid.childSummaries_eq, ← List.map_drop, zip_map_self]
  have hlength : childSummaries.length = childTrees.length := by
    rw [hvalid.childSummaries_eq, List.length_map]
  have hbound : ¬(e.index > childTrees.length ∨ e.index > childSummaries.length) := by omega
  rw [List.getElem?_drop, ← hindex₁] at heq
  rw [hpassed] at hent₁ hpos₁
  cases hchild : childTrees[entry'.index]? with
  | some t =>
    have hloop : seekLoop target bias aggregate (fuel + 1) false (e :: stack) position a
        = seekLoop target bias aggregate fuel false (⟨t, 0, position₁⟩ :: entry' :: stack) position₁ a₁ := by
      rw [seekLoop]
      simp only [htree, resumed_false, if_neg hbound, hzip, heq, Option.bind_some, hchild]
    obtain ⟨work', hstage, hwork⟩ :=
      Stage.enter hroot path htree htree₁ (by omega) hchild hent₁ hpos₁
    refine Finds.after hmoved hloop ?_
    rw [hpassed]
    exact ih hstage (by omega) hpos₁ ha₁
  | none =>
    have hloop : seekLoop target bias aggregate (fuel + 1) false (e :: stack) position a
        = seekLoop target bias aggregate fuel true stack position₁ a₁ := by
      rw [seekLoop]
      simp only [htree, resumed_false, if_neg hbound, hzip, heq, Option.bind_some, hchild]
    have hall : childTrees.take entry'.index = childTrees :=
      List.take_of_length_le (List.getElem?_eq_none_iff.mp hchild)
    have hstage := Stage.leaving path
    have hturns := turns_pos e.tree e.index
    rw [htree, SumTree.toList] at hstage
    refine Finds.after hmoved hloop ?_
    rw [hall] at hpassed hpos₁
    rw [hpassed]
    exact ih hstage (by omega) hpos₁ ha₁

omit hlaw

theorem finds_leaf (hcollects : aggregate.Collects P Q) (hroot : root.Valid P) {fuel : Nat}
    (ih : FindsWithin R root target bias aggregate Q fuel)
    {e : StackEntry T S D} {before after : List T} {summary : S} {items : List T} {itemSummaries : List S}
    (path : Path R root stack e.tree before after) (htree : e.tree = leaf summary items itemSummaries)
    (hindex : e.index ≤ items.length) (hfuel : turns e.tree e.index + pending stack < fuel + 1)
    (hposition : R → position = positionAfter (before ++ items.take e.index)) (ha : Q a crossed) :
    Finds R root target bias aggregate Q (fuel + 1) false (e :: stack) position a
      (before ++ items.take e.index) crossed := by
  have hvalid := path.valid hroot
  rw [htree] at hvalid
  obtain ⟨hcapacity, hsummaries⟩ := hvalid.leaf
  obtain ⟨entry', position₁, n, heq, hn, htree₁, hindex₁, hpos₁, hmoved, hstop⟩ :=
    seekItems_finds target bias aggregate (items.drop e.index) e (aggregate.beginLeaf a) hposition
  have hleafItems : ((items.drop e.index).take n).length ≤ 2 * treeBase := by
    rw [List.length_take, List.length_drop]
    omega
  obtain ⟨a₁, hend, ha₁⟩ := hcollects.leaf ha hleafItems
  have hpassed : before ++ items.take e.index ++ (items.drop e.index).take n
      = before ++ items.take entry'.index := by
    rw [hindex₁, List.take_add, List.append_assoc]
  have hzip : (items.drop e.index).zip (itemSummaries.drop e.index)
      = (items.drop e.index).map fun item => (item, Item.summary item) := by
    rw [hsummaries, ← List.map_drop, zip_map_self]
  have hlength : itemSummaries.length = items.length := by
    rw [hsummaries, List.length_map]
  have hloop : seekLoop target bias aggregate (fuel + 1) false (e :: stack) position a
      = if n < (items.drop e.index).length then some (entry' :: stack, position₁, a₁)
        else seekLoop target bias aggregate fuel true stack position₁ a₁ := by
    have hbound : ¬(e.index > items.length ∨ e.index > itemSummaries.length) := by omega
    rw [seekLoop]
    simp only [htree, if_neg hbound, hzip, heq, hend, Option.bind_some, decide_eq_true_eq]
  rw [List.length_drop] at hn hloop
  rw [hpassed] at hpos₁
  by_cases hstopped : n < items.length - e.index
  · rw [if_pos hstopped] at hloop
    refine ⟨entry' :: stack, position₁, a₁, (items.drop e.index).take n, items.drop entry'.index ++ after,
      hloop, ⟨?_, ?_, hmoved, ?_⟩, ha₁⟩
    · rw [hpassed]
      rw [← htree₁] at path htree
      exact .item path htree (by omega)
    · rw [hpassed]
      exact hpos₁
    · intro item hitem
      refine hstop item ?_
      rw [List.getElem?_drop, ← hindex₁]
      rw [List.drop_eq_getElem_cons (by omega : entry'.index < items.length)] at hitem
      rw [List.getElem?_eq_getElem (by omega)]
      exact hitem
  · rw [if_neg hstopped] at hloop
    have hall : items.take entry'.index = items := List.take_of_length_le (by omega)
    have hstage := Stage.leaving path
    have hturns := turns_pos e.tree e.index
    rw [htree, SumTree.toList] at hstage
    refine Finds.after hmoved hloop ?_
    rw [hall] at hpassed hpos₁
    rw [hpassed]
    exact ih hstage (by omega) hpos₁ ha₁

include hlaw

/-- **The loop of a seek** lands, and the aggregate is told of what it walks over. -/
theorem seekLoop_finds (hcollects : aggregate.Collects P Q) (hroot : root.Valid P) (fuel : Nat) :
    FindsWithin R root target bias aggregate Q fuel := by
  induction fuel with
  | zero =>
    intro ascending stack position a passed crossed work _ hfuel
    exact absurd hfuel (Nat.not_lt_zero _)
  | succ fuel ih =>
    -- a node that is come to, at an index
    have henter : ∀ {e : StackEntry T S D} {stack : List (StackEntry T S D)} {position : D} {a : A}
        {passed crossed : List T} {work : Nat}, Stage R root false (e :: stack) passed work → work < fuel + 1 →
        (R → position = positionAfter passed) → Q a crossed →
        Finds R root target bias aggregate Q (fuel + 1) false (e :: stack) position a passed crossed := by
      intro e stack position a passed crossed work hstage hfuel hposition ha
      cases hstage with
      | @entering _ _ before after path hindex hentry =>
        have hvalid := path.valid hroot
        obtain ⟨tree, index, entryPosition⟩ := e
        cases tree with
        | leaf summary items itemSummaries =>
          have hsize : itemSummaries.length = items.length := by rw [hvalid.leaf.2, List.length_map]
          exact finds_leaf hcollects hroot ih path rfl (hindex.trans hsize.le) hfuel hposition ha
        | internal height summary childSummaries childTrees =>
          have hsize : childSummaries.length = childTrees.length := by rw [hvalid.childSummaries_eq, List.length_map]
          exact finds_internal hlaw hcollects hroot ih path rfl (hindex.trans hsize.le) (hentry rfl)
            hfuel hposition ha
    intro ascending stack position a passed crossed work hstage hfuel hposition ha
    cases ascending with
    | false =>
      cases stack with
      | nil => nomatch hstage
      | cons e stack => exact henter hstage hfuel hposition ha
    | true =>
      rcases hstage.resume hroot hposition with ⟨rfl, rfl⟩ | ⟨e, rest, rfl, hsome, hstage⟩
      · refine ⟨[], position, a, [], [], by rw [seekLoop], ⟨?_, ?_, Or.inl ⟨rfl, rfl⟩, ?_⟩, ?_⟩
        · rw [List.append_nil]
          exact .atEnd
        · rwa [List.append_nil]
        · exact fun item hitem => absurd hitem (by simp)
        · rwa [List.append_nil]
      · obtain ⟨stack', position', a', crossed', remaining, hloop, hrest⟩ := henter hstage hfuel hposition ha
        exact ⟨stack', position', a', crossed', remaining, (seekLoop_resumed _ _ _ _ hsome _ _ _).trans hloop, hrest⟩

end Lawful

/-! ### Cursors -/

/-- The cursor is between the items `passed` and the items `remaining` of the root. -/
structure Stands (R : Prop) (root : SumTree T S) (c : Cursor T S D) (passed remaining : List T) : Prop where
  tree : c.tree = root
  didSeek : c.didSeek = true
  rests : Rests R root c.stack passed remaining
  start : R → c.position = positionAfter passed
  atEnd : c.atEnd = c.stack.isEmpty

/-- The cursor has not been moved, or it stands somewhere. -/
inductive Ready (R : Prop) (root : SumTree T S) : Cursor T S D → List T → List T → Prop
  | new : Ready R root (new root) [] root.toList
  | stands {c : Cursor T S D} {passed remaining : List T} (h : Stands R root c passed remaining) :
      Ready R root c passed remaining

variable {root : SumTree T S} {c : Cursor T S D} {stack : List (StackEntry T S D)}
  {before after passed remaining : List T} {t : SumTree T S}

omit [Summary S] in
theorem Stands.toList (h : Stands R root c passed remaining) : root.toList = passed ++ remaining := h.rests.toList

omit [Summary S] in
theorem Ready.toList (h : Ready R root c passed remaining) : root.toList = passed ++ remaining := by
  cases h with
  | new => rfl
  | stands h => exact h.toList

omit [Summary S] in
theorem Stands.item (h : Stands R root c passed remaining) : c.item = some remaining.head? := by
  obtain ⟨tree, stack, position, didSeek, atEnd⟩ := c
  obtain ⟨-, hseek, hrests, -, -⟩ := h
  obtain rfl : didSeek = true := hseek
  cases hrests with
  | atEnd => rfl
  | @item e _ summary items itemSummaries before after path htree hindex =>
    unfold Cursor.item
    simp only [Bool.true_eq_false, if_false, htree, if_neg hindex.ne]
    rw [List.getElem?_eq_getElem hindex, List.drop_eq_getElem_cons hindex]
    rfl

theorem Stands.itemSummary (hroot : root.Valid P) (h : Stands R root c passed remaining) :
    c.itemSummary = some (remaining.head?.map Item.summary) := by
  obtain ⟨tree, stack, position, didSeek, atEnd⟩ := c
  obtain ⟨-, hseek, hrests, -, -⟩ := h
  obtain rfl : didSeek = true := hseek
  cases hrests with
  | atEnd => rfl
  | @item e _ summary items itemSummaries before after path htree hindex =>
    have hvalid := path.valid hroot
    rw [htree] at hvalid
    have hindex' : e.index < (items.map (Item.summary : T → S)).length := by rwa [List.length_map]
    unfold Cursor.itemSummary
    simp only [Bool.true_eq_false, if_false, htree, hvalid.leaf.2, if_neg hindex'.ne]
    rw [List.getElem?_map, List.getElem?_eq_getElem hindex, List.drop_eq_getElem_cons hindex]
    rfl

theorem Stands.endPosition (hroot : root.Valid P) (h : Stands R root c passed remaining) :
    c.endPosition = some (remaining.head?.elim c.position fun item =>
      Dimension.addSummary c.position (Item.summary item)) := by
  rw [Cursor.endPosition, h.itemSummary hroot, Option.map_some]
  cases remaining <;> rfl

/-- The position with which the target is compared in the end. -/
def reached (bias : Bias) (c : Cursor T S D) (remaining : List T) : D :=
  if bias = .left then remaining.head?.elim c.position fun item =>
    Dimension.addSummary c.position (Item.summary item)
  else c.position

theorem found_eq (target : SeekTarget D) (bias : Bias) (hroot : root.Valid P)
    (h : Stands R root c passed remaining) :
    found target bias c = some (decide (target.cmp (reached bias c remaining) = .eq)) := by
  unfold found reached
  split
  · rw [h.itemSummary hroot, Option.map_some]
    cases remaining <;> rfl
  · rfl

theorem Path.pending_le (hroot : root.Valid P) (h : Path R root stack t before after) :
    pending stack ≤ (stack.map fun e => e.tree.rounds).sum := by
  induction h with
  | root => exact Nat.le_refl _
  | @child e _ _ _ _ _ _ _ _ path _ _ _ ih =>
    show turns e.tree (e.index + 1) + pending _ ≤ e.tree.rounds + _
    exact Nat.add_le_add (turns_le_rounds (path.valid hroot) _) ih

theorem Ready.started (hroot : root.Valid P) (h : Ready R root c passed remaining) :
    c.started.tree = root ∧ c.started.didSeek = true ∧ c.started.position = c.position ∧
      ((c.started.stack = [] ∧ passed = root.toList) ∨
        ∃ work, Stage R root false c.started.stack passed work ∧ work < fuel c.started.stack) := by
  cases h with
  | new =>
    refine ⟨rfl, rfl, rfl, Or.inr ⟨_, Stage.start root, ?_⟩⟩
    have := turns_le_rounds hroot 0
    show turns root 0 < root.rounds + 0 + 1
    omega
  | stands h =>
    have hstarted : c.started = c := if_pos h.didSeek
    rw [hstarted]
    refine ⟨h.tree, h.didSeek, rfl, ?_⟩
    obtain ⟨-, -, hrests, -, -⟩ := h
    generalize c.stack = stack at hrests
    cases hrests with
    | atEnd => exact Or.inl ⟨rfl, rfl⟩
    | @item e rest summary items itemSummaries before after path htree hindex =>
      have hvalid := path.valid hroot
      have hturns := turns_le_rounds hvalid e.index
      have hpending := path.pending_le hroot
      have hstage : Stage R root false (e :: rest) (before ++ e.tree.itemsBefore e.index)
          (turns e.tree e.index + pending rest) := by
        refine .entering path ?_ fun hsome => ?_
        · rw [htree] at hvalid ⊢
          show e.index ≤ itemSummaries.length
          rw [hvalid.leaf.2, List.length_map]
          exact hindex.le
        · rw [htree] at hsome
          exact absurd hsome (by simp [childTrees])
      have hbefore : e.tree.itemsBefore e.index = items.take e.index := by rw [htree]; rfl
      rw [hbefore] at hstage
      refine Or.inr ⟨_, hstage, ?_⟩
      show _ < (e.tree.rounds + (rest.map fun e => e.tree.rounds).sum) + 1
      omega

omit [Summary S] in
theorem Ready.start (h : Ready R root c passed remaining) (hR : R) : c.position = positionAfter passed := by
  cases h with
  | new => rfl
  | stands h => exact h.start hR

/-- Where a seek leaves the cursor. -/
structure Sought (R : Prop) (root : SumTree T S) (target : SeekTarget D) (bias : Bias) (c : Cursor T S D)
    (passed : List T) (found : Bool) (c' : Cursor T S D) (crossed remaining : List T) : Prop where
  stands : Stands R root c' (passed ++ crossed) remaining
  moved : Moved target bias c.position c'.position crossed
  stops : ∀ item ∈ remaining.head?,
    passes target bias (Dimension.addSummary c'.position (Item.summary item)) = false
  found : found = decide (target.cmp (reached bias c' remaining) = .eq)

/-- **A seek lands**, if the target is not behind the cursor. -/
theorem seekInternal_finds (bias : Bias) (hlaw : R → P ∧ LawfulSummary S ∧ LawfulDimension D S)
    (hcollects : aggregate.Collects P Q) (hroot : root.Valid P) (hready : Ready R root c passed remaining)
    (hcmp : target.cmp c.position ≠ .lt) {a : A} (ha : Q a []) :
    ∃ found c' a' crossed remaining', seekInternal target bias aggregate c a = some (found, c', a') ∧
      Sought R root target bias c passed found c' crossed remaining' ∧ Q a' crossed := by
  obtain ⟨htree, hseek, hpos, hstart⟩ := hready.started hroot
  have hfinds : Finds R root target bias aggregate Q (fuel c.started.stack) false c.started.stack
      c.started.position a passed [] := by
    rcases hstart with ⟨hnil, rfl⟩ | ⟨work, hstage, hwork⟩
    · rw [hnil]
      refine ⟨[], _, a, [], [], by rw [fuel, seekLoop], ⟨?_, ?_, Or.inl ⟨rfl, rfl⟩, ?_⟩, ?_⟩
      · rw [List.append_nil]
        exact .atEnd
      · rw [List.append_nil, hpos]
        exact hready.start
      · exact fun item hitem => absurd hitem (by simp)
      · rwa [List.append_nil]
    · refine seekLoop_finds hlaw hcollects hroot _ hstage hwork ?_ ha
      rw [hpos]
      exact hready.start
  obtain ⟨stack', position', a', crossed, remaining', hloop, hlands, ha'⟩ := hfinds
  have hstands : Stands R root { c.started with stack := stack', position := position', atEnd := stack'.isEmpty }
      (passed ++ crossed) remaining' := ⟨htree, hseek, hlands.rests, hlands.start, rfl⟩
  refine ⟨_, _, a', crossed, remaining', ?_, ⟨hstands, ?_, hlands.stops, rfl⟩, ha'⟩
  · unfold seekInternal
    rw [if_neg hcmp]
    simp only [hloop, Option.bind_some]
    rw [found_eq target bias hroot hstands, Option.map_some]
  · rw [← hpos]
    exact hlands.moved

/-! ### The aggregate is not looked at -/

omit [Summary S] [Item T S] in
theorem seekChildren_unit {children : List (SumTree T S × S)} {entry entry' : StackEntry T S D}
    {position position' : D} {a a' : A} {child : Option (SumTree T S)}
    (h : seekChildren target bias aggregate children entry position a = some (entry', position', a', child)) :
    seekChildren target bias (SeekAggregate.unit T S) children entry position ()
      = some (entry', position', (), child) := by
  induction children generalizing entry position a with
  | nil =>
    obtain ⟨rfl, rfl, rfl, rfl⟩ : entry = entry' ∧ position = position' ∧ a = a' ∧ none = child := by
      simpa [seekChildren] using h
    rfl
  | cons c children ih =>
    obtain ⟨childTree, childSummary⟩ := c
    unfold seekChildren at h ⊢
    by_cases hpass : passes target bias (Dimension.addSummary position childSummary) = true
    · simp only [if_pos hpass] at h ⊢
      obtain ⟨a₁, -, h⟩ := Option.bind_eq_some_iff.mp h
      exact ih h
    · simp only [if_neg hpass] at h ⊢
      cases h
      rfl

omit [Summary S] [Item T S] in
theorem seekItems_unit (aggregate : SeekAggregate A T S) (items : List (T × S)) (entry : StackEntry T S D) (position : D) (a : A) :
    seekItems target bias (SeekAggregate.unit T S) items entry position ()
      = ((seekItems target bias aggregate items entry position a).1,
        (seekItems target bias aggregate items entry position a).2.1, (),
        (seekItems target bias aggregate items entry position a).2.2.2) := by
  induction items generalizing entry position a with
  | nil => rfl
  | cons pair items ih =>
    obtain ⟨item, itemSummary⟩ := pair
    unfold seekItems
    by_cases hpass : passes target bias (Dimension.addSummary position itemSummary) = true
    · simp only [if_pos hpass]
      exact ih _ _ _
    · simp only [if_neg hpass]

omit [Summary S] [Item T S] in
theorem seekLoop_unit (fuel : Nat) : ∀ {ascending : Bool} {stack stack' : List (StackEntry T S D)}
    {position position' : D} {a a' : A},
    seekLoop target bias aggregate fuel ascending stack position a = some (stack', position', a') →
    seekLoop target bias (SeekAggregate.unit T S) fuel ascending stack position ()
      = some (stack', position', ()) := by
  induction fuel with
  | zero => exact fun h => absurd h (by simp [seekLoop])
  | succ fuel ih =>
    intro ascending stack stack' position position' a a' h
    cases stack with
    | nil =>
      obtain ⟨rfl, rfl, -⟩ : [] = stack' ∧ position = position' ∧ a = a' := by simpa [seekLoop] using h
      rfl
    | cons entry stack =>
      unfold seekLoop at h ⊢
      split at h
      · rename_i height summary childSummaries childTrees htree
        simp only at h ⊢
        by_cases hbound : (resumed ascending entry position).index > childTrees.length ∨
            (resumed ascending entry position).index > childSummaries.length
        · rw [if_pos hbound] at h
          exact absurd h (by simp)
        · rw [if_neg hbound] at h ⊢
          obtain ⟨⟨entry₁, position₁, a₁, child⟩, hchildren, h⟩ := Option.bind_eq_some_iff.mp h
          rw [seekChildren_unit hchildren, Option.bind_some]
          cases child with
          | none => exact ih h
          | some childTree => exact ih h
      · rename_i summary items itemSummaries htree
        simp only at h ⊢
        by_cases hbound : entry.index > items.length ∨ entry.index > itemSummaries.length
        · rw [if_pos hbound] at h
          exact absurd h (by simp)
        · rw [if_neg hbound] at h ⊢
          rw [seekItems_unit aggregate _ _ _ (aggregate.beginLeaf a)]
          obtain ⟨a₁, -, h⟩ := Option.bind_eq_some_iff.mp h
          show (if (seekItems target bias aggregate _ _ _ _).2.2.2 = true then _ else _) = _
          by_cases hstopped : (seekItems target bias aggregate
              ((items.drop entry.index).zip (itemSummaries.drop entry.index)) entry position
              (aggregate.beginLeaf a)).2.2.2 = true
          · rw [if_pos hstopped] at h ⊢
            cases h
            rfl
          · rw [if_neg hstopped] at h ⊢
            exact ih h

omit [Summary S] [Item T S] in
/-- **Seeking goes the same way with any aggregate.** -/
theorem seekInternal_unit {c c' : Cursor T S D} {a a' : A} {found : Bool}
    (h : seekInternal target bias aggregate c a = some (found, c', a')) :
    seekInternal target bias (SeekAggregate.unit T S) c () = some (found, c', ()) := by
  unfold seekInternal at h ⊢
  split at h
  · exact absurd h (by simp)
  · rename_i hcmp
    rw [if_neg hcmp]
    obtain ⟨⟨stack, position, a₁⟩, hloop, h⟩ := Option.bind_eq_some_iff.mp h
    obtain ⟨found₁, hfound, heq⟩ := Option.map_eq_some_iff.mp h
    cases heq
    simp only [seekLoop_unit _ hloop, Option.bind_some, hfound, Option.map_some]

end Cursor

end SumTree

end FcGpui
