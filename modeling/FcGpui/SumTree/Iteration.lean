import FcGpui.SumTree.SliceContents

/-!
# Iterators

`Iter` walks over a tree as a search forward of a cursor without a dimension does, so it
gives the items that such a cursor comes to (`iterItems_eq`).  A cursor as an iterator
gives what remains (`collect_iterNext`).
-/

namespace FcGpui

namespace SumTree

variable {T S D : Type} [Summary S] [Item T S] [Dimension D S] {P R : Prop}

namespace Cursor

variable {root : SumTree T S} {passed remaining : List T} {c : Cursor T S D}

theorem Stands.iterNext (hlaw : R → P ∧ LawfulSummary S ∧ LawfulDimension D S) (hroot : root.Valid P) {item : T}
    (h : Stands R root c passed (item :: remaining)) :
    ∃ c', c.iterNext = some (some item, c') ∧ Stands R root c' (passed ++ [item]) remaining := by
  obtain ⟨c', hnext, hstands⟩ := h.next hlaw hroot
  refine ⟨c', ?_, hstands⟩
  simp only [Cursor.iterNext, h.didSeek, if_true, Option.bind_some, h.item, List.head?_cons, hnext, Option.map_some]

omit [Summary S] in
theorem Stands.iterNext_end (h : Stands R root c passed []) : c.iterNext = some (none, c) := by
  simp only [Cursor.iterNext, h.didSeek, if_true, Option.bind_some, h.item, List.head?_nil]

/-- **A cursor as an iterator** gives what remains. -/
theorem Stands.collect (hlaw : R → P ∧ LawfulSummary S ∧ LawfulDimension D S) (hroot : root.Valid P)
    {fuel : Nat} (hfuel : remaining.length < fuel) (h : Stands R root c passed remaining) :
    SumTree.collect Cursor.iterNext fuel c = some remaining := by
  induction remaining generalizing c passed fuel with
  | nil =>
    obtain ⟨fuel, rfl⟩ := Nat.exists_eq_succ_of_ne_zero (Nat.ne_of_gt hfuel)
    rw [SumTree.collect, h.iterNext_end]
    rfl
  | cons item remaining ih =>
    obtain ⟨fuel, rfl⟩ := Nat.exists_eq_succ_of_ne_zero (Nat.ne_of_gt (Nat.zero_lt_of_lt hfuel))
    obtain ⟨c', hnext, hstands⟩ := h.iterNext hlaw hroot
    have hrest := ih (Nat.lt_of_succ_lt_succ hfuel) hstands
    rw [SumTree.collect, hnext, Option.bind_some]
    simp only [hrest, Option.map_some]

theorem Path.stackValid {t : SumTree T S} {stack : List (StackEntry T S D)} {before after : List T}
    (hroot : root.Valid P) (h : Path R root stack t before after) : StackValid P stack := by
  induction h with
  | root => exact fun _ he => absurd he List.not_mem_nil
  | child path _ _ _ ih => exact StackValid.cons (path.valid hroot) ih

theorem Rests.stackValid {stack : List (StackEntry T S D)} (hroot : root.Valid P)
    (h : Rests R root stack passed remaining) : StackValid P stack := by
  cases h with
  | item path _ _ => exact StackValid.cons (path.valid hroot) (path.stackValid hroot)
  | atEnd => exact fun _ he => absurd he List.not_mem_nil

end Cursor

/-! ### `Iter` -/

/-- The item at the top of a stack. -/
def topItem : List (StackEntry T S Unit) → Option T
  | [] => none
  | entry :: _ => entry.tree.nodeItems.bind fun items => items[entry.index]?

omit [Summary S] [Item T S] in
theorem skip_true (l : List S) (entry : StackEntry T S D) (position : D) :
    Cursor.skip (fun _ => true) l entry position = (entry, position) := by
  cases l <;> rfl

omit [Summary S] [Item T S] in
/-- The entry that a round of either loop goes on with. -/
theorem resumed_unit (descend : Bool) (entry : StackEntry T S Unit) :
    Cursor.resumed (!descend) entry () = if descend then entry else { entry with index := entry.index + 1 } := by
  cases descend <;> rfl

omit [Summary S] [Item T S] in
theorem leaveItem_unit {descend : Bool} {itemSummaries : List S} {entry entry' : StackEntry T S Unit}
    (h : Cursor.leaveItem descend itemSummaries entry () = some (entry', ())) :
    entry' = if descend then entry else { entry with index := entry.index + 1 } := by
  cases descend with
  | true =>
    obtain ⟨rfl, -⟩ := Prod.mk.inj (Option.some.inj h)
    rfl
  | false =>
    obtain ⟨_, -, heq⟩ := Option.map_eq_some_iff.mp h
    obtain ⟨rfl, -⟩ := Prod.mk.inj heq
    rfl

/-- The loop of `next` is the one of a search forward that rejects nothing. -/
theorem nextLoop_eq (fuel : Nat) {descend found : Bool} {stack stack' : List (StackEntry T S Unit)}
    (hvalid : Cursor.StackValid P stack)
    (h : Cursor.searchForwardLoop (fun _ => true) fuel descend stack () = some (stack', (), found)) :
    Iter.nextLoop fuel descend stack = some (stack', topItem stack') := by
  induction fuel generalizing descend stack with
  | zero => cases h
  | succ fuel ih =>
    cases stack with
    | nil =>
      obtain ⟨rfl, -⟩ : [] = stack' ∧ false = found := by simpa [Cursor.searchForwardLoop] using h
      rfl
    | cons entry stack =>
      have hentry : entry.tree.Valid P := hvalid entry List.mem_cons_self
      have hrest : Cursor.StackValid P stack := fun e he => hvalid e (List.mem_cons_of_mem _ he)
      obtain ⟨tree, index, position⟩ := entry
      cases tree with
      | internal height summary childSummaries childTrees =>
        rw [Cursor.searchForwardLoop] at h
        simp only [skip_true, resumed_unit] at h
        rw [Iter.nextLoop]
        generalize hentry' : (if descend = true then _ else _ : StackEntry T S Unit) = entry' at h ⊢
        have htree : entry'.tree = internal height summary childSummaries childTrees := by
          rw [← hentry']
          cases descend <;> rfl
        simp only [htree]
        cases hchild : childTrees[entry'.index]? with
        | none =>
          simp only [hchild] at h ⊢
          exact ih hrest h
        | some subtree =>
          simp only [hchild] at h ⊢
          refine ih (Cursor.StackValid.cons ?_ (Cursor.StackValid.cons ?_ hrest)) h
          · exact Or.inr (hentry.children subtree (List.mem_of_getElem? hchild))
          · rwa [htree]
      | leaf summary items itemSummaries =>
        have hlength : itemSummaries.length = items.length := by rw [hentry.leaf.2, List.length_map]
        rw [Cursor.searchForwardLoop] at h
        obtain ⟨⟨entry', ⟨⟩⟩, hleave, h⟩ := Option.bind_eq_some_iff.mp h
        rw [Iter.nextLoop, ← leaveItem_unit hleave]
        have htree : entry'.tree = leaf summary items itemSummaries := by
          rw [leaveItem_unit hleave]
          cases descend <;> rfl
        simp only [htree, skip_true] at h ⊢
        by_cases hindex : entry'.index < itemSummaries.length
        · rw [if_pos hindex] at h
          obtain ⟨rfl, -⟩ := Prod.mk.inj (Option.some.inj h)
          have hitem : items[entry'.index]? = some items[entry'.index] :=
            List.getElem?_eq_getElem (hlength ▸ hindex)
          simp only [hitem, topItem, htree, nodeItems, Option.bind_some]
        · rw [if_neg hindex] at h
          rw [List.getElem?_eq_none (hlength ▸ not_lt.mp hindex)]
          exact ih hrest h

variable {root : SumTree T S} {c c' : Cursor T S Unit} {passed remaining : List T}

omit [Summary S] in
theorem topItem_rests (h : Cursor.Rests R root c.stack passed remaining) : topItem c.stack = remaining.head? := by
  generalize c.stack = stack at h
  cases h with
  | atEnd => rfl
  | @item e rest summary items itemSummaries before after path htree hindex =>
    simp only [topItem, htree, nodeItems, Option.bind_some, List.drop_eq_getElem_cons hindex,
      List.cons_append, List.head?_cons, List.getElem?_eq_getElem hindex]

/-- `next` goes where the cursor with the same stack goes. -/
theorem next_eq (htree : c.tree.Valid P) (hstack : Cursor.StackValid P c.stack)
    (hend : c.stack.isEmpty → c.atEnd = false) (h : c.next = some c') :
    Iter.next ⟨c.tree, c.stack⟩ = some (topItem c'.stack, ⟨c.tree, c'.stack⟩) := by
  have hdescend : (c.stack.isEmpty && !c.atEnd) = c.stack.isEmpty := by
    cases hempty : c.stack.isEmpty with
    | true => rw [hend hempty]; rfl
    | false => rfl
  obtain ⟨⟨stack', ⟨⟩, found⟩, hloop, rfl⟩ := Option.map_eq_some_iff.mp h
  rw [hdescend] at hloop
  have hvalid : Cursor.StackValid P
      (if c.stack.isEmpty then [(⟨c.tree, 0, ()⟩ : StackEntry T S Unit)] else c.stack) := by
    split
    · exact Cursor.StackValid.cons htree fun _ he => absurd he List.not_mem_nil
    · exact hstack
  have hnext := nextLoop_eq _ hvalid hloop
  simp only [Iter.next]
  rw [hnext]
  rfl

theorem next_item (hroot : root.Valid P) {item : T} (h : Cursor.Stands False root c passed (item :: remaining)) :
    ∃ c' : Cursor T S Unit, Iter.next ⟨root, c.stack⟩ = some (remaining.head?, ⟨root, c'.stack⟩) ∧
      Cursor.Stands False root c' (passed ++ [item]) remaining := by
  obtain ⟨c', hnext, hstands⟩ := h.next False.elim hroot
  have hempty : c.stack.isEmpty = false := h.rests.isEmpty (List.cons_ne_nil _ _)
  have heq := next_eq (h.tree ▸ hroot) (h.rests.stackValid hroot) (fun h => by rw [hempty] at h; cases h) hnext
  rw [h.tree, topItem_rests hstands.rests] at heq
  exact ⟨c', heq, hstands⟩

/-- An iterator that has given an item gives those behind it. -/
theorem collect_next (hroot : root.Valid P) {item : T} {fuel : Nat} (hfuel : remaining.length < fuel)
    (h : Cursor.Stands False root c passed (item :: remaining)) :
    collect Iter.next fuel ⟨root, c.stack⟩ = some remaining := by
  obtain ⟨fuel, rfl⟩ := Nat.exists_eq_succ_of_ne_zero (Nat.ne_of_gt (Nat.zero_lt_of_lt hfuel))
  induction remaining generalizing c passed item fuel with
  | nil =>
    obtain ⟨c', hnext, -⟩ := next_item hroot h
    rw [collect, hnext]
    rfl
  | cons item' remaining ih =>
    obtain ⟨c', hnext, hstands⟩ := next_item hroot h
    obtain ⟨fuel, rfl⟩ := Nat.exists_eq_succ_of_ne_zero (Nat.ne_of_gt (Nat.zero_lt_of_lt (Nat.lt_of_succ_lt_succ hfuel)))
    have hrest := ih hstands fuel (Nat.lt_of_succ_lt_succ hfuel)
    rw [collect, hnext, Option.bind_some]
    simp only [List.head?_cons, hrest, Option.map_some]

theorem WellFormed.length_lt_rounds {t : SumTree T S} (h : t.WellFormed P) : t.toList.length + 1 < t.rounds := by
  induction h with
  | leaf _ _ hsummaries _ =>
    rw [toList, rounds, hsummaries, List.length_map]
    omega
  | @internal height summary childSummaries childTrees _ _ _ hsummaries _ hchildren ih =>
    have hsum : (toListAll childTrees).length ≤ roundsAll childTrees := by
      rw [Cursor.roundsAll_eq, toListAll_eq, List.length_flatMap]
      exact List.sum_le_sum fun t ht => (Nat.le_succ _).trans (ih t ht).le
    rw [toList, rounds]
    have hlength : 0 < childSummaries.length := by
      rw [hsummaries, List.length_map]
      exact List.length_pos_iff.mpr ‹_›
    omega

theorem Valid.length_lt_rounds {t : SumTree T S} (h : t.Valid P) : t.toList.length < t.rounds := by
  rcases h with rfl | h
  · exact Nat.zero_lt_two
  · exact (Nat.lt_succ_self _).trans h.length_lt_rounds

theorem next_new (hroot : root.WellFormed P) :
    ∃ c : Cursor T S Unit, Iter.next (Iter.new root) = some (root.toList.head?, ⟨root, c.stack⟩) ∧
      Cursor.Stands False root c [] root.toList := by
  obtain ⟨c, hnext, hstands⟩ := Cursor.next_start (D := Unit) (R := False) False.elim (Or.inr hroot) false
  refine ⟨c, ?_, hstands⟩
  rw [← topItem_rests hstands.rests]
  exact next_eq (c := Cursor.new root) (Or.inr hroot) (fun _ he => absurd he List.not_mem_nil)
    (fun _ => hroot.isEmpty) hnext

/-- **Iterators.**  `iter` gives the items of the tree. -/
theorem iterItems_eq (hroot : root.Valid P) : iterItems root = some root.toList := by
  rcases hroot with rfl | hroot
  · rfl
  · obtain ⟨c, heq, hstands⟩ := next_new hroot
    have hfuel := hroot.length_lt_rounds
    obtain ⟨item, items, hitems⟩ := List.exists_cons_of_ne_nil hroot.toList_ne_nil
    obtain ⟨fuel, hrounds⟩ := Nat.exists_eq_succ_of_ne_zero (Nat.ne_of_gt (Nat.zero_lt_of_lt hfuel))
    rw [hitems] at hstands heq hfuel ⊢
    have hrest : collect Iter.next fuel ⟨root, c.stack⟩ = some items := by
      refine collect_next (Or.inr hroot) ?_ hstands
      rw [hrounds] at hfuel
      exact Nat.lt_of_succ_lt (Nat.lt_of_succ_lt_succ hfuel)
    rw [iterItems, hrounds, collect, heq, Option.bind_some]
    simp only [List.head?_cons, hrest, Option.map_some]

end SumTree

end FcGpui
