import FcGpui.SumTree.Seek

/-!
# Moving by one item

What a search forward or backward does to a cursor that `Stands` somewhere.  Whatever the
filter is, the cursor stands at a later, or earlier, item that the filter lets through, or
has run out of them.  It skips only items that the filter rejects (`SkippedBy`), if the
filter lets a node through whenever it does an item of it (`Admits`).

**Main results.**  `searchForward_start`, `searchForward_item`, `searchForward_end` for
the three places a search forward can begin at, `searchBackward_item` and
`searchBackward_end` for those of a search backward.
-/

namespace FcGpui

namespace SumTree

variable {T S D : Type} [Summary S] [Item T S] [Dimension D S] {P R : Prop}

open Summary

namespace Cursor

variable {root t : SumTree T S} {stack stack' : List (StackEntry T S D)} {position position' : D}
  {before after passed remaining skipped : List T} {work : Nat} {c : Cursor T S D} {filterNode : S → Bool}

/-! ### Forward -/

omit [Summary S] [Item T S] in
/-- The summaries that a filter lets pass over are the first ones: those before the first that it lets
through. -/
theorem skip_eq (filterNode : S → Bool) (summaries : List S) (entry : StackEntry T S D) (position : D) :
    ∃ n, skip filterNode summaries entry position
      = (⟨entry.tree, entry.index + n, (summaries.take n).foldl Dimension.addSummary entry.position⟩,
        (summaries.take n).foldl Dimension.addSummary position) ∧
      n ≤ summaries.length ∧ (∀ s ∈ summaries.take n, filterNode s = false) ∧
      ∀ s, summaries[n]? = some s → filterNode s = true := by
  induction summaries generalizing entry position with
  | nil => exact ⟨0, rfl, Nat.le_refl _, nofun, nofun⟩
  | cons summary summaries ih =>
    rw [skip]
    split
    · rename_i hpass
      exact ⟨0, rfl, Nat.zero_le _, nofun, fun s hs => Option.some.inj hs ▸ hpass⟩
    · rename_i hreject
      obtain ⟨n, heq, hn, hskipped, hstop⟩ := ih
        { entry with index := entry.index + 1, position := Dimension.addSummary entry.position summary }
        (Dimension.addSummary position summary)
      refine ⟨n + 1, ?_, Nat.succ_le_succ hn, fun s hs => ?_, hstop⟩
      · rw [heq, Nat.add_assoc, Nat.add_comm 1 n]
        rfl
      · rcases List.mem_cons.mp hs with rfl | hs
        · exact Bool.eq_false_iff.mpr hreject
        · exact hskipped s hs

/-- A tree or a node below it. -/
inductive Subtree (root : SumTree T S) : SumTree T S → Prop
  | root : Subtree root root
  | child {height : Nat} {summary : S} {childSummaries : List S} {childTrees : List (SumTree T S)} {t : SumTree T S}
      (h : Subtree root (internal height summary childSummaries childTrees)) (hchild : t ∈ childTrees) :
      Subtree root t

omit [Summary S] in
theorem Path.subtree (h : Path R root stack t before after) : Subtree root t := by
  induction h with
  | root => exact .root
  | child _ htree hchild _ ih =>
    rw [htree] at ih
    exact .child ih (List.mem_of_getElem? hchild)

/-- A filter lets a node through if it does an item of the node. -/
def Admits (root : SumTree T S) (filterNode : S → Bool) : Prop :=
  ∀ t, Subtree root t → ∀ item ∈ t.toList, filterNode (Item.summary item) = true → filterNode t.summary = true

/-- What a search passes over: no item that the filter lets through. -/
def SkippedBy (root : SumTree T S) (filterNode : S → Bool) (skipped : List T) : Prop :=
  Admits root filterNode → ∀ item ∈ skipped, filterNode (Item.summary item) = false

omit [Summary S] in
theorem skippedBy_nil : SkippedBy root filterNode [] := fun _ _ h => absurd h List.not_mem_nil

/-- What is between two indices of a node, if the filter rejects the summaries there. -/
theorem itemsBefore_add (hsub : Subtree root t) (ht : t.Valid P) {i n : Nat}
    (hreject : ∀ s ∈ (t.childSummaries.drop i).take n, filterNode s = false) :
    ∃ l, t.itemsBefore (i + n) = t.itemsBefore i ++ l ∧ SkippedBy root filterNode l := by
  cases t with
  | leaf summary items itemSummaries =>
    refine ⟨(items.drop i).take n, List.take_add, fun _ item hitem => hreject _ ?_⟩
    show Item.summary item ∈ (itemSummaries.drop i).take n
    rw [ht.leaf.2, ← List.map_drop, ← List.map_take]
    exact List.mem_map_of_mem hitem
  | internal height summary childSummaries childTrees =>
    refine ⟨toListAll ((childTrees.drop i).take n), ?_, fun hadmits item hitem => ?_⟩
    · rw [itemsBefore, itemsBefore, List.take_add, toListAll_append]
    · rw [toListAll_eq] at hitem
      obtain ⟨child, hchild, hitem⟩ := List.mem_flatMap.mp hitem
      have hmem : child ∈ childTrees := List.mem_of_mem_drop (List.mem_of_mem_take hchild)
      have hrejected : filterNode child.summary = false := by
        refine hreject _ ?_
        show child.summary ∈ (childSummaries.drop i).take n
        rw [ht.childSummaries_eq, ← List.map_drop, ← List.map_take]
        exact List.mem_map_of_mem hchild
      cases hpass : filterNode (Item.summary item) with
      | false => rfl
      | true =>
        rw [hadmits child (hsub.child hmem) item hitem hpass] at hrejected
        cases hrejected

section Lawful

variable (hlaw : R → P ∧ LawfulSummary S ∧ LawfulDimension D S)

include hlaw in
theorem skip_finds (filterNode : S → Bool) (hsub : Subtree root t) (ht : t.Valid P) {e : StackEntry T S D}
    (htree : e.tree = t) (hindex : e.index ≤ t.size) (before : List T)
    (hposition : R → position = positionAfter (before ++ t.itemsBefore e.index)) :
    ∃ e' position' l, skip filterNode (t.childSummaries.drop e.index) e position = (e', position') ∧
      e'.tree = t ∧ e.index ≤ e'.index ∧ e'.index ≤ t.size ∧
      t.itemsBefore e'.index = t.itemsBefore e.index ++ l ∧ SkippedBy root filterNode l ∧
      (∀ s, t.childSummaries[e'.index]? = some s → filterNode s = true) ∧
      (R → e.position = positionAfter (before ++ t.itemsBefore e.index) →
        e'.position = positionAfter (before ++ t.itemsBefore e'.index)) ∧
      (R → position' = positionAfter (before ++ t.itemsBefore e'.index)) := by
  obtain ⟨n, heq, hn, hreject, hstop⟩ := skip_eq filterNode (t.childSummaries.drop e.index) e position
  obtain ⟨l, hl, hskipped⟩ := itemsBefore_add hsub ht hreject
  have hfold : R → ((t.childSummaries.drop e.index).take n).foldl Dimension.addSummary
      (positionAfter (before ++ t.itemsBefore e.index) : D)
      = positionAfter (before ++ t.itemsBefore (e.index + n)) := by
    intro hR
    obtain ⟨hP, _, _⟩ := hlaw hR
    rw [← foldl_addSummary_take ht hP, ← foldl_addSummary_take ht hP, List.take_add,
      List.foldl_append]
  rw [List.length_drop] at hn
  refine ⟨_, _, l, heq, htree, Nat.le_add_right _ _, ?_, hl, hskipped, fun s hs => ?_, fun hR hentry => ?_,
    fun hR => ?_⟩
  · show e.index + n ≤ t.childSummaries.length
    have : e.index ≤ t.childSummaries.length := hindex
    omega
  · refine hstop s ?_
    rw [List.getElem?_drop]
    exact hs
  · show List.foldl _ e.position _ = _
    rw [hentry, hfold hR]
  · rw [hposition hR, hfold hR]

/-- The filter lets the first item through. -/
def StartsWith (filterNode : S → Bool) (remaining : List T) : Prop :=
  ∀ item ∈ remaining.head?, filterNode (Item.summary item) = true

/-- Where the loop of a search forward ends that began behind `passed`. -/
def Advances (R : Prop) (root : SumTree T S) (filterNode : S → Bool) (fuel : Nat) (descend : Bool)
    (stack : List (StackEntry T S D)) (position : D) (passed : List T) : Prop :=
  ∃ stack' position' skipped remaining,
    searchForwardLoop filterNode fuel descend stack position = some (stack', position', !stack'.isEmpty) ∧
    Rests R root stack' (passed ++ skipped) remaining ∧
    (R → position' = positionAfter (passed ++ skipped)) ∧ SkippedBy root filterNode skipped ∧
    StartsWith filterNode remaining

omit [Summary S] in
theorem SkippedBy.append {l l' : List T} (h : SkippedBy root filterNode l) (h' : SkippedBy root filterNode l') :
    SkippedBy root filterNode (l ++ l') := by
  intro hadmits item hitem
  rcases List.mem_append.mp hitem with hitem | hitem
  · exact h hadmits item hitem
  · exact h' hadmits item hitem

omit [Summary S] in
theorem Advances.skips {fuel : Nat} {descend descend₁ : Bool} {stack₁ : List (StackEntry T S D)}
    {position₁ : D} {l : List T} (hl : SkippedBy root filterNode l)
    (hloop : searchForwardLoop filterNode (fuel + 1) descend stack position
      = searchForwardLoop filterNode fuel descend₁ stack₁ position₁)
    (h : Advances R root filterNode fuel descend₁ stack₁ position₁ (passed ++ l)) :
    Advances R root filterNode (fuel + 1) descend stack position passed := by
  obtain ⟨stack', position', skipped, remaining, heq, hrests, hstart, hskipped, hfirst⟩ := h
  rw [List.append_assoc] at hrests hstart
  exact ⟨stack', position', l ++ skipped, remaining, hloop.trans heq, hrests, hstart, hl.append hskipped, hfirst⟩

omit [Summary S] [Item T S] in
theorem searchForwardLoop_resumed (filterNode : S → Bool) (fuel : Nat) {e : StackEntry T S D}
    (h : e.tree.childTrees.isSome) (stack : List (StackEntry T S D)) (position : D) :
    searchForwardLoop filterNode (fuel + 1) false (e :: stack) position
      = searchForwardLoop filterNode (fuel + 1) true (resumed true e position :: stack) position := by
  obtain ⟨tree, index, entryPosition⟩ := e
  cases tree with
  | leaf => exact absurd h (by simp [childTrees])
  | internal => rfl

include hlaw in
/-- A round at a node that the loop comes down to. -/
theorem advances_entering (hroot : root.Valid P) {fuel : Nat}
    (ih : ∀ {ascending : Bool} {stack : List (StackEntry T S D)} {position : D} {passed : List T} {work : Nat},
      Stage R root ascending stack passed work → work < fuel → (R → position = positionAfter passed) →
      Advances R root filterNode fuel (!ascending) stack position passed)
    {e : StackEntry T S D} (path : Path R root stack e.tree before after) (hindex : e.index ≤ e.tree.size)
    (hentry : e.tree.childTrees.isSome → R → e.position = positionAfter (before ++ e.tree.itemsBefore e.index))
    (hfuel : turns e.tree e.index + pending stack < fuel + 1)
    (hposition : R → position = positionAfter (before ++ e.tree.itemsBefore e.index)) :
    Advances R root filterNode (fuel + 1) true (e :: stack) position (before ++ e.tree.itemsBefore e.index) := by
  have hvalid := path.valid hroot
  obtain ⟨e', position₁, l, hskip, htree', hle, hle', hitems, hl, hfirst, hent₁, hpos₁⟩ :=
    skip_finds hlaw filterNode path.subtree hvalid rfl hindex before hposition
  have hpassed : before ++ e.tree.itemsBefore e.index ++ l = before ++ e.tree.itemsBefore e'.index := by
    rw [hitems, List.append_assoc]
  have hturns := turns_pos e.tree e.index
  -- the node is done
  have hdone : e'.index = e.tree.size →
      searchForwardLoop filterNode (fuel + 1) true (e :: stack) position
        = searchForwardLoop filterNode fuel false stack position₁ →
      Advances R root filterNode (fuel + 1) true (e :: stack) position (before ++ e.tree.itemsBefore e.index) := by
    intro hsize hloop
    rw [hsize, itemsBefore_size hvalid] at hpassed hpos₁
    refine Advances.skips hl hloop ?_
    rw [hpassed]
    exact ih (Stage.leaving path) (by omega) hpos₁
  cases htree : e.tree with
  | leaf summary items itemSummaries =>
    have hskip' : skip filterNode (itemSummaries.drop e.index) e position = (e', position₁) := by
      rw [htree] at hskip
      exact hskip
    have hloop : searchForwardLoop filterNode (fuel + 1) true (e :: stack) position
        = if e'.index < itemSummaries.length then some (e' :: stack, position₁, true)
          else searchForwardLoop filterNode fuel false stack position₁ := by
      rw [searchForwardLoop]
      simp only [htree, leaveItem, if_true, Option.bind_some, hskip']
    by_cases hfound : e'.index < itemSummaries.length
    · rw [if_pos hfound] at hloop
      have hrests : Rests R root (e' :: stack) (before ++ items.take e'.index)
          (items.drop e'.index ++ after) := by
        refine .item (htree'.symm ▸ path) (htree'.trans htree) ?_
        rw [htree] at hvalid
        rwa [hvalid.leaf.2, List.length_map] at hfound
      rw [htree] at hpassed hpos₁ hvalid hfirst
      refine ⟨e' :: stack, position₁, l, items.drop e'.index ++ after, hloop, ?_, ?_, hl, fun item hitem => ?_⟩
      · rw [hpassed]
        exact hrests
      · rw [hpassed]
        exact hpos₁
      · refine hfirst _ ?_
        have hlt : e'.index < items.length := by rwa [hvalid.leaf.2, List.length_map] at hfound
        rw [List.drop_eq_getElem_cons hlt] at hitem
        show itemSummaries[e'.index]? = _
        rw [hvalid.leaf.2, List.getElem?_map, List.getElem?_eq_getElem hlt, Option.some.inj hitem]
        rfl
    · rw [if_neg hfound] at hloop
      rw [← htree]
      refine hdone (le_antisymm hle' ?_) hloop
      rw [htree]
      exact not_lt.mp hfound
  | internal height summary childSummaries childTrees =>
    have hskip' : skip filterNode (childSummaries.drop e.index) e position = (e', position₁) := by
      rw [htree] at hskip
      exact hskip
    cases hchild : childTrees[e'.index]? with
    | some child =>
      have hloop : searchForwardLoop filterNode (fuel + 1) true (e :: stack) position
          = searchForwardLoop filterNode fuel true (⟨child, 0, position₁⟩ :: e' :: stack) position₁ := by
        rw [searchForwardLoop]
        simp only [htree, Bool.not_true, resumed_false, hskip', hchild]
      have hsome : e.tree.childTrees.isSome := by rw [htree]; rfl
      have hent : R → e'.position = positionAfter (before ++ e.tree.itemsBefore e'.index) :=
        fun hR => hent₁ hR (hentry hsome hR)
      rw [htree] at hpassed hent hpos₁
      obtain ⟨work', hstage, hwork⟩ := Stage.enter hroot path htree htree' hle hchild hent hpos₁
      refine Advances.skips hl hloop ?_
      rw [hpassed]
      exact ih hstage (by omega) hpos₁
    | none =>
      have hloop : searchForwardLoop filterNode (fuel + 1) true (e :: stack) position
          = searchForwardLoop filterNode fuel false stack position₁ := by
        rw [searchForwardLoop]
        simp only [htree, Bool.not_true, resumed_false, hskip', hchild]
      rw [← htree]
      refine hdone (le_antisymm hle' ?_) hloop
      rw [htree] at hvalid ⊢
      show childSummaries.length ≤ e'.index
      rw [hvalid.childSummaries_eq, List.length_map]
      exact List.getElem?_eq_none_iff.mp hchild

include hlaw in
/-- **The loop of a search forward.** -/
theorem searchForwardLoop_advances (hroot : root.Valid P) (fuel : Nat) :
    ∀ {ascending : Bool} {stack : List (StackEntry T S D)} {position : D} {passed : List T} {work : Nat},
      Stage R root ascending stack passed work → work < fuel → (R → position = positionAfter passed) →
      Advances R root filterNode fuel (!ascending) stack position passed := by
  induction fuel with
  | zero =>
    intro ascending stack position passed work _ hfuel
    exact absurd hfuel (Nat.not_lt_zero _)
  | succ fuel ih =>
    intro ascending stack position passed work hstage hfuel hposition
    cases ascending with
    | false =>
      cases hstage with
      | entering path hindex hentry => exact advances_entering hlaw hroot ih path hindex hentry hfuel hposition
    | true =>
      rcases hstage.resume hroot hposition with ⟨rfl, rfl⟩ | ⟨e, rest, rfl, hsome, hstage⟩
      · refine ⟨[], position, [], [], by rw [searchForwardLoop]; rfl, ?_, ?_, skippedBy_nil, nofun⟩
        · rw [List.append_nil]
          exact .atEnd
        · rwa [List.append_nil]
      · have hresumed := searchForwardLoop_resumed filterNode fuel hsome rest position
        cases hstage with
        | entering path hindex hentry =>
          obtain ⟨stack', position', skipped, remaining, hloop, hrest⟩ :=
            advances_entering hlaw hroot ih path hindex hentry hfuel hposition
          exact ⟨stack', position', skipped, remaining, hresumed.trans hloop, hrest⟩

end Lawful

/-- The cursor is before the first item, without a position in the tree: it has not been moved, or it
has been moved back there. -/
def beforeStart (root : SumTree T S) (didSeek : Bool) : Cursor T S D := { new root with didSeek := didSeek }

theorem searchForward_start (hlaw : R → P ∧ LawfulSummary S ∧ LawfulDimension D S)
    (hroot : root.Valid P) (didSeek : Bool) (filterNode : S → Bool) :
    ∃ (c' : Cursor T S D) (skipped remaining : List T),
      (beforeStart root didSeek).searchForward filterNode = some c' ∧
      Stands R root c' skipped remaining ∧ SkippedBy root filterNode skipped ∧ StartsWith filterNode remaining := by
  cases hempty : root.isEmpty with
  | true =>
    have hnil : root.toList = [] := hroot.isEmpty_iff.mp hempty
    have hrests : Rests R root ([] : List (StackEntry T S D)) root.toList [] := .atEnd
    rw [hnil] at hrests
    refine ⟨beforeStart root true, [], [], ?_, ⟨rfl, rfl, hrests, fun _ => rfl, hempty⟩, skippedBy_nil, nofun⟩
    simp [searchForward, beforeStart, new, hempty, fuel, searchForwardLoop]
  | false =>
    have hwork : turns root 0 < root.rounds + 0 + 1 := Nat.lt_succ_of_le (turns_le_rounds hroot 0)
    have hposition : R → (Dimension.zero S : D) = positionAfter ([] : List T) := fun _ => rfl
    obtain ⟨stack', position', skipped, remaining, hloop, hrests, hstart, hskipped, hfirst⟩ :=
      @searchForwardLoop_advances T S D _ _ _ P R root filterNode hlaw hroot _ _ _ _ _ _ (Stage.start root) hwork
        hposition
    refine ⟨⟨root, stack', position', true, stack'.isEmpty⟩, skipped, remaining, ?_,
      ⟨rfl, rfl, hrests, hstart, rfl⟩, hskipped, hfirst⟩
    have hloop : searchForwardLoop filterNode (fuel [(⟨root, 0, Dimension.zero S⟩ : StackEntry T S D)]) true
        [⟨root, 0, Dimension.zero S⟩] (Dimension.zero S) = some (stack', position', !stack'.isEmpty) := hloop
    simp only [searchForward, beforeStart, new, hempty, List.isEmpty_nil, Bool.not_false, Bool.and_true,
      Bool.or_true, if_true, hloop, Option.map_some]
    cases stack' <;> rfl

omit [Summary S] [Item T S] in
theorem searchForwardLoop_leave (filterNode : S → Bool) (fuel : Nat) {e : StackEntry T S D} {summary : S}
    {items : List T} {itemSummaries : List S} (htree : e.tree = leaf summary items itemSummaries) {s : S}
    (hs : itemSummaries[e.index]? = some s) (stack : List (StackEntry T S D)) (position : D) :
    searchForwardLoop filterNode (fuel + 1) false (e :: stack) position
      = searchForwardLoop filterNode (fuel + 1) true
          ({ e with index := e.index + 1, position := Dimension.addSummary e.position s } :: stack)
          (Dimension.addSummary position s) := by
  rw [searchForwardLoop, searchForwardLoop]
  simp only [htree, leaveItem, Bool.false_eq_true, if_false, if_true, hs, Option.map_some, Option.bind_some]

theorem searchForward_item (hlaw : R → P ∧ LawfulSummary S ∧ LawfulDimension D S)
    (hroot : root.Valid P) {item : T} (h : Stands R root c passed (item :: remaining)) (filterNode : S → Bool) :
    ∃ c' skipped remaining', c.searchForward filterNode = some c' ∧
      Stands R root c' (passed ++ item :: skipped) remaining' ∧ SkippedBy root filterNode skipped ∧
      StartsWith filterNode remaining' := by
  obtain ⟨tree, stack, position, didSeek, atEnd⟩ := c
  obtain ⟨htree, hseek, hrests, hstart, hend⟩ := h
  obtain rfl : tree = root := htree
  obtain rfl : didSeek = true := hseek
  obtain ⟨e, rest, summary, items, itemSummaries, before, after, rfl, path, hleaf, hitem, rfl⟩ := hrests.exists_item
  obtain rfl : atEnd = false := hend
  have hvalid := path.valid hroot
  have hpending := path.pending_le hroot
  have hturns := turns_le_rounds hvalid (e.index + 1)
  have hsummaries : itemSummaries = items.map Item.summary := by
    rw [hleaf] at hvalid
    exact hvalid.leaf.2
  obtain ⟨hindex, hget⟩ := List.getElem?_eq_some_iff.mp hitem
  have hs : itemSummaries[e.index]? = some (Item.summary item) := by
    rw [hsummaries, List.getElem?_map, hitem]
    rfl
  have hstart : R → position = positionAfter (before ++ items.take e.index) := hstart
  have hpassed : before ++ e.tree.itemsBefore (e.index + 1) = before ++ items.take e.index ++ [item] := by
    rw [hleaf, itemsBefore, List.append_assoc, ← hget, List.take_concat_get' _ _ hindex]
  have hstage : Stage R tree false
      ({ e with index := e.index + 1, position := Dimension.addSummary e.position (Item.summary item) } :: rest)
      (before ++ e.tree.itemsBefore (e.index + 1)) (turns e.tree (e.index + 1) + pending rest) := by
    refine .entering (e := { e with
      index := e.index + 1, position := Dimension.addSummary e.position (Item.summary item) }) path ?_ ?_
    · show e.index + 1 ≤ e.tree.size
      rw [hleaf, hsummaries]
      show e.index + 1 ≤ (items.map _).length
      rwa [List.length_map]
    · intro hsome
      rw [hleaf] at hsome
      exact absurd hsome (by simp [childTrees])
  rw [hpassed] at hstage
  have hfuel : turns e.tree (e.index + 1) + pending rest < fuel (e :: rest) := by
    show _ < e.tree.rounds + (rest.map fun e => e.tree.rounds).sum + 1
    omega
  have hposition : R → Dimension.addSummary position (Item.summary item)
      = positionAfter (before ++ items.take e.index ++ [item]) := by
    intro hR
    rw [positionAfter_concat, hstart hR]
  obtain ⟨stack', position', skipped, remaining', hloop, hrests', hstart', hskipped, hfirst⟩ :=
    searchForwardLoop_advances hlaw hroot _ hstage hfuel hposition
  rw [List.append_assoc, List.singleton_append] at hrests' hstart'
  refine ⟨⟨tree, stack', position', true, stack'.isEmpty⟩, skipped, remaining', ?_,
    ⟨rfl, rfl, hrests', hstart', rfl⟩, hskipped, hfirst⟩
  have hloop := (searchForwardLoop_leave filterNode _ hleaf hs rest position).trans hloop
  simp only [searchForward, List.isEmpty_cons, Bool.false_and, Bool.or_false, Bool.false_eq_true, if_false]
  rw [fuel]
  rw [hloop]
  cases stack' <;> rfl

omit [Summary S] [Item T S] in
theorem searchForward_end (hstack : c.stack = []) (hseek : c.didSeek = true) (hend : c.atEnd = true)
    (filterNode : S → Bool) : c.searchForward filterNode = some c := by
  obtain ⟨tree, stack, position, didSeek, atEnd⟩ := c
  obtain rfl : stack = [] := hstack
  obtain rfl : didSeek = true := hseek
  obtain rfl : atEnd = true := hend
  rfl

/-! ### Backward -/

/-- How often a loop backward still comes to a node or to what is below it, from an index on. -/
def turnsBefore : SumTree T S → Nat → Nat
  | leaf .., i => i + 1
  | internal _ _ _ childTrees, i => ((childTrees.take i).map fun t => t.rounds + 1).sum + 1

def pendingBefore (stack : List (StackEntry T S D)) : Nat := (stack.map fun e => turnsBefore e.tree e.index).sum

omit [Summary S] [Item T S] in
theorem turnsBefore_child {height : Nat} {summary : S} {childSummaries : List S} {childTrees : List (SumTree T S)}
    {i : Nat} (h : childTrees[i]? = some t) :
    turnsBefore (internal height summary childSummaries childTrees) (i + 1)
      = t.rounds + 1 + turnsBefore (internal height summary childSummaries childTrees) i := by
  obtain ⟨hi, rfl⟩ := List.getElem?_eq_some_iff.mp h
  show ((childTrees.take (i + 1)).map _).sum + 1 = _ + (((childTrees.take i).map _).sum + 1)
  rw [← List.take_concat_get' _ _ hi, List.map_append, List.sum_append, List.map_singleton, List.sum_singleton]
  omega

theorem turnsBefore_lt (ht : t.Valid P) {i : Nat} (hi : i < t.size) : turnsBefore t i < turnsBefore t (i + 1) := by
  cases t with
  | leaf => exact Nat.lt_succ_self _
  | internal height summary childSummaries childTrees =>
    have hlt : i < childTrees.length := by
      have hlt : i < childSummaries.length := hi
      rwa [ht.childSummaries_eq, List.length_map] at hlt
    rw [turnsBefore_child (List.getElem?_eq_getElem hlt)]
    omega

theorem turnsBefore_le_rounds (ht : t.Valid P) {i : Nat} (hi : i ≤ t.size) : turnsBefore t i ≤ t.rounds := by
  cases t with
  | leaf summary items itemSummaries =>
    have hi : i ≤ itemSummaries.length := hi
    show i + 1 ≤ 2 + itemSummaries.length
    omega
  | internal height summary childSummaries childTrees =>
    have hsub : ((childTrees.take i).map fun t => t.rounds + 1).sum ≤ (childTrees.map fun t => t.rounds + 1).sum :=
      ((List.take_sublist i childTrees).map _).sum_le_sum fun _ _ => Nat.zero_le _
    have hall := turns_le_rounds ht 0
    exact (Nat.succ_le_succ hsub).trans hall

theorem Path.pendingBefore_le (hroot : root.Valid P) (h : Path R root stack t before after) :
    pendingBefore stack ≤ (stack.map fun e => e.tree.rounds).sum := by
  induction h with
  | root => exact Nat.le_refl _
  | @child e _ height summary childSummaries childTrees _ _ _ path htree hchild _ ih =>
    have hvalid := path.valid hroot
    have hsize : e.index ≤ e.tree.size := by
      rw [htree] at hvalid ⊢
      show e.index ≤ childSummaries.length
      rw [hvalid.childSummaries_eq, List.length_map]
      exact (List.getElem?_eq_some_iff.mp hchild).1.le
    show turnsBefore e.tree e.index + pendingBefore _ ≤ e.tree.rounds + _
    exact Nat.add_le_add (turnsBefore_le_rounds hvalid hsize) ih

/-- The index behind the child that a round backward looks at. -/
def indexBehind (descending : Bool) (e : StackEntry T S D) : Nat := if descending then e.index + 1 else e.index

/-- Where the loop of a search backward ends that began behind `passed`. -/
def Retreats (R : Prop) (root : SumTree T S) (filterNode : S → Bool) (fuel : Nat) (descending : Bool)
    (stack : List (StackEntry T S D)) (position : D) (passed : List T) : Prop :=
  ∃ stack' position',
    searchBackwardLoop filterNode fuel descending stack position = some (stack', position') ∧
    ((stack' = [] ∧ position' = Dimension.zero S ∧ SkippedBy root filterNode passed) ∨
      ∃ passed' item skipped remaining, Rests R root stack' passed' (item :: remaining) ∧
        (R → position' = positionAfter passed') ∧ passed = passed' ++ item :: skipped ∧
        SkippedBy root filterNode skipped ∧ filterNode (Item.summary item) = true)

omit [Summary S] in
theorem Retreats.skips {fuel : Nat} {descending descending₁ : Bool} {stack₁ : List (StackEntry T S D)}
    {position₁ : D} {l : List T} (hl : SkippedBy root filterNode l)
    (hloop : searchBackwardLoop filterNode (fuel + 1) descending stack position
      = searchBackwardLoop filterNode fuel descending₁ stack₁ position₁)
    (h : Retreats R root filterNode fuel descending₁ stack₁ position₁ passed) :
    Retreats R root filterNode (fuel + 1) descending stack position (passed ++ l) := by
  obtain ⟨stack', position', heq, hend⟩ := h
  refine ⟨stack', position', hloop.trans heq, ?_⟩
  rcases hend with ⟨hnil, hzero, hskipped⟩ |
    ⟨passed', item, skipped, remaining, hrests, hstart, rfl, hskipped, hitem⟩
  · exact Or.inl ⟨hnil, hzero, hskipped.append hl⟩
  · refine Or.inr ⟨passed', item, skipped ++ l, remaining, hrests, hstart, ?_, hskipped.append hl, hitem⟩
    rw [List.append_assoc, List.cons_append]

theorem retreats_child (hlaw : R → P ∧ LawfulSummary S ∧ LawfulDimension D S) (hroot : root.Valid P)
    {fuel : Nat}
    (ih : ∀ {descending : Bool} {e : StackEntry T S D} {stack : List (StackEntry T S D)} (position : D)
      {before after : List T}, Path R root stack e.tree before after → indexBehind descending e ≤ e.tree.size →
      turnsBefore e.tree (indexBehind descending e) + pendingBefore stack < fuel →
      Retreats R root filterNode fuel descending (e :: stack) position
        (before ++ e.tree.itemsBefore (indexBehind descending e)))
    {descending : Bool} {e : StackEntry T S D} (position : D) {index : Nat}
    (path : Path R root stack e.tree before after) (hbehind : indexBehind descending e = index + 1)
    (hindex : index < e.tree.size) (hfuel : turnsBefore e.tree (index + 1) + pendingBefore stack < fuel + 1) :
    Retreats R root filterNode (fuel + 1) descending (e :: stack) position
      (before ++ e.tree.itemsBefore (index + 1)) := by
  have hvalid := path.valid hroot
  have hindexEq : (if descending = true then e.index else e.index - 1) = index := by
    cases descending with
    | false => exact congrArg (· - 1) hbehind
    | true => exact Nat.succ.inj hbehind
  have hnotFirst : ¬(descending = false ∧ e.index = 0) := by
    rintro ⟨rfl, hzero⟩
    exact absurd (hbehind.symm.trans hzero) (Nat.succ_ne_zero _)
  -- the position is told anew from the one of the parent
  obtain ⟨start, hstart⟩ : ∃ start, start = (e.tree.childSummaries.take index).foldl Dimension.addSummary
    ((stack.head?.map StackEntry.position).getD (Dimension.zero S)) := ⟨_, rfl⟩
  have hposition : R → start = positionAfter (before ++ e.tree.itemsBefore index) := by
    intro hR
    obtain ⟨hP, _, _⟩ := hlaw hR
    rw [hstart, path.position hR, foldl_addSummary_take hvalid hP]
  obtain ⟨s, hs⟩ : ∃ s, e.tree.childSummaries[index]? = some s := ⟨_, List.getElem?_eq_getElem hindex⟩
  by_cases hfilter : filterNode s = true
  · cases htree : e.tree with
    | leaf summary items itemSummaries =>
      rw [htree] at hvalid
      have hlt : index < items.length := by
        rw [htree] at hindex
        have hlt : index < itemSummaries.length := hindex
        rwa [hvalid.leaf.2, List.length_map] at hlt
      have hloop : searchBackwardLoop filterNode (fuel + 1) descending (e :: stack) position
          = some (⟨e.tree, index, start⟩ :: stack, start) := by
        rw [searchBackwardLoop]
        simp only [if_neg hnotFirst, hindexEq, hs, hfilter, if_true, ← hstart]
        rw [htree]
      have hrests : Rests R root ((⟨e.tree, index, start⟩ : StackEntry T S D) :: stack)
          (before ++ items.take index) (items.drop index ++ after) := .item path htree hlt
      rw [List.drop_eq_getElem_cons hlt, List.cons_append] at hrests
      rw [htree] at hposition
      refine ⟨_, _, hloop, Or.inr ⟨_, _, [], _, hrests, hposition, ?_, skippedBy_nil, ?_⟩⟩
      · rw [itemsBefore, List.append_assoc, List.take_concat_get' _ _ hlt]
      · rw [htree] at hs
        have hs : itemSummaries[index]? = some s := hs
        rw [hvalid.leaf.2, List.getElem?_map, List.getElem?_eq_getElem hlt] at hs
        rwa [← Option.some.inj hs] at hfilter
    | internal height summary childSummaries childTrees =>
      rw [htree] at hvalid
      have hlt : index < childTrees.length := by
        rw [htree] at hindex
        have hlt : index < childSummaries.length := hindex
        rwa [hvalid.childSummaries_eq, List.length_map] at hlt
      obtain ⟨child, hchild⟩ : ∃ child, childTrees[index]? = some child := ⟨_, List.getElem?_eq_getElem hlt⟩
      have hpath : Path R root ((⟨e.tree, index, start⟩ : StackEntry T S D) :: stack) child
          (before ++ toListAll (childTrees.take index)) (toListAll (childTrees.drop (index + 1)) ++ after) := by
        rw [htree] at hposition
        exact .child path htree hchild hposition
      have hchildValid := hpath.valid hroot
      have hne : child.childSummaries.length ≠ 0 := by
        have hwf := hvalid.children child (List.mem_of_getElem? hchild)
        intro hzero
        refine hwf.toList_ne_nil ?_
        rw [← itemsBefore_size hchildValid, size, hzero, itemsBefore_zero]
      have hloop : searchBackwardLoop filterNode (fuel + 1) descending (e :: stack) position
          = searchBackwardLoop filterNode fuel true
            (⟨child, child.childSummaries.length - 1, Dimension.zero S⟩ :: ⟨e.tree, index, start⟩ :: stack) start := by
        rw [searchBackwardLoop]
        simp only [if_neg hnotFirst, hindexEq, hs, hfilter, if_true, ← hstart]
        simp only [htree, hchild, if_neg hne]
      have hlast : indexBehind true (⟨child, child.childSummaries.length - 1, Dimension.zero S⟩ : StackEntry T S D)
          = child.size := Nat.succ_pred_eq_of_ne_zero hne
      have hpassed : before ++ toListAll (childTrees.take index) ++ child.itemsBefore child.size
          = before ++ (internal height summary childSummaries childTrees).itemsBefore (index + 1) := by
        rw [itemsBefore_size hchildValid, itemsBefore, toListAll_take_succ hchild, List.append_assoc]
      have hwork : turnsBefore child child.size
          + pendingBefore ((⟨e.tree, index, start⟩ : StackEntry T S D) :: stack) < fuel := by
        have hrounds := turnsBefore_le_rounds hchildValid (Nat.le_refl _)
        show _ + (turnsBefore e.tree index + pendingBefore stack) < fuel
        rw [htree] at hfuel ⊢
        rw [turnsBefore_child hchild] at hfuel
        omega
      have hnext := ih (e := ⟨child, child.childSummaries.length - 1, Dimension.zero S⟩) start hpath hlast.le
        (hlast ▸ hwork)
      rw [hlast, hpassed] at hnext
      rw [← List.append_nil (before ++ _)]
      exact Retreats.skips skippedBy_nil hloop hnext
  · have hreject : ∀ s' ∈ (e.tree.childSummaries.drop index).take 1, filterNode s' = false := by
      intro s' hs'
      rw [List.drop_eq_getElem_cons hindex, List.take_succ_cons, List.take_zero, List.mem_singleton] at hs'
      rw [List.getElem?_eq_getElem hindex] at hs
      rw [hs', Option.some.inj hs]
      exact Bool.eq_false_iff.mpr hfilter
    obtain ⟨l, hl, hskipped⟩ := itemsBefore_add path.subtree hvalid hreject
    have hloop : searchBackwardLoop filterNode (fuel + 1) descending (e :: stack) position
        = searchBackwardLoop filterNode fuel false (⟨e.tree, index, start⟩ :: stack) start := by
      rw [searchBackwardLoop]
      simp only [if_neg hnotFirst, hindexEq, hs, hfilter, if_false, ← hstart, Bool.false_eq_true]
    have hturns := turnsBefore_lt hvalid hindex
    rw [hl, ← List.append_assoc]
    refine Retreats.skips hskipped hloop ?_
    exact @ih false ⟨e.tree, index, start⟩ stack start before after path hindex.le (by
      show turnsBefore e.tree index + pendingBefore stack < fuel
      omega)

/-- **The loop of a search backward.** -/
theorem searchBackwardLoop_retreats (hlaw : R → P ∧ LawfulSummary S ∧ LawfulDimension D S)
    (hroot : root.Valid P) (fuel : Nat) :
    ∀ {descending : Bool} {e : StackEntry T S D} {stack : List (StackEntry T S D)} (position : D)
      {before after : List T}, Path R root stack e.tree before after → indexBehind descending e ≤ e.tree.size →
      turnsBefore e.tree (indexBehind descending e) + pendingBefore stack < fuel →
      Retreats R root filterNode fuel descending (e :: stack) position
        (before ++ e.tree.itemsBefore (indexBehind descending e)) := by
  induction fuel with
  | zero =>
    intro descending e stack position before after _ _ hfuel
    exact absurd hfuel (Nat.not_lt_zero _)
  | succ fuel ih =>
    intro descending e stack position before after path hindex hfuel
    have hvalid := path.valid hroot
    cases hbehind : indexBehind descending e with
    | zero =>
      obtain ⟨rfl, hzero⟩ : descending = false ∧ e.index = 0 := by
        cases descending with
        | false => exact ⟨rfl, hbehind⟩
        | true => exact absurd hbehind (Nat.succ_ne_zero _)
      have hloop : searchBackwardLoop filterNode (fuel + 1) false (e :: stack) position
          = searchBackwardLoop filterNode fuel false stack
            ((stack.head?.map StackEntry.position).getD (Dimension.zero S)) := by
        rw [searchBackwardLoop]
        simp only [hzero, and_self, if_true]
      rw [itemsBefore_zero]
      refine Retreats.skips skippedBy_nil hloop ?_
      have hpos : 0 < turnsBefore e.tree 0 := by
        cases e.tree <;> exact Nat.succ_pos _
      rw [hbehind] at hfuel
      cases path with
      | root =>
        obtain ⟨fuel, rfl⟩ : ∃ n, fuel = n + 1 := Nat.exists_eq_succ_of_ne_zero (by omega)
        exact ⟨[], Dimension.zero S, by rw [searchBackwardLoop]; rfl, Or.inl ⟨rfl, rfl, skippedBy_nil⟩⟩
      | @child e' rest height summary childSummaries childTrees _ before _ path htree hchild _ =>
        -- the parent goes on before the child
        have hitems : toListAll (childTrees.take e'.index) = e'.tree.itemsBefore (indexBehind false e') := by
          rw [htree]
          rfl
        have hsize : indexBehind false e' ≤ e'.tree.size := by
          have hvalid' := path.valid hroot
          rw [htree] at hvalid' ⊢
          show e'.index ≤ childSummaries.length
          rw [hvalid'.childSummaries_eq, List.length_map]
          exact (List.getElem?_eq_some_iff.mp hchild).1.le
        rw [hitems]
        refine ih _ path hsize ?_
        show pendingBefore (e' :: rest) < fuel
        omega
    | succ index =>
      rw [hbehind] at hindex hfuel
      exact retreats_child hlaw hroot ih position path hbehind hindex hfuel

/-- Where a search backward leaves a cursor that was behind `passed`: before the first item, or at one
of the items. -/
def Retreated (R : Prop) (root : SumTree T S) (filterNode : S → Bool) (c' : Cursor T S D) (passed : List T) : Prop :=
  (c' = beforeStart root true ∧ SkippedBy root filterNode passed) ∨
    ∃ passed' item skipped remaining, Stands R root c' passed' (item :: remaining) ∧
      passed = passed' ++ item :: skipped ∧ SkippedBy root filterNode skipped ∧
      filterNode (Item.summary item) = true

omit [Summary S] in
theorem Retreats.retreated {fuel : Nat} {descending : Bool} (hne : root.isEmpty = false)
    (h : Retreats R root filterNode fuel descending stack position passed) :
    ∃ stack' position', searchBackwardLoop filterNode fuel descending stack position = some (stack', position') ∧
      Retreated R root filterNode ⟨root, stack', position', true, false⟩ passed := by
  obtain ⟨stack', position', hloop, hend⟩ := h
  refine ⟨stack', position', hloop, ?_⟩
  rcases hend with ⟨rfl, rfl, hskipped⟩ |
    ⟨passed', item, skipped, remaining, hrests, hstart, hpassed, hskipped, hitem⟩
  · refine Or.inl ⟨?_, hskipped⟩
    rw [beforeStart, new, hne]
  · refine Or.inr ⟨passed', item, skipped, remaining, ⟨rfl, rfl, hrests, hstart, ?_⟩, hpassed, hskipped, hitem⟩
    exact (hrests.isEmpty (by simp)).symm

theorem searchBackward_item (hlaw : R → P ∧ LawfulSummary S ∧ LawfulDimension D S)
    (hroot : root.Valid P) {item : T} (h : Stands R root c passed (item :: remaining)) (filterNode : S → Bool) :
    ∃ c', c.searchBackward filterNode = some c' ∧ Retreated R root filterNode c' passed := by
  have hne : root.isEmpty = false := by
    rw [Bool.eq_false_iff]
    intro hempty
    have hnil := hroot.isEmpty_iff.mp hempty
    rw [h.toList] at hnil
    exact absurd (List.append_eq_nil_iff.mp hnil).2 (by simp)
  obtain ⟨tree, stack, position, didSeek, atEnd⟩ := c
  obtain ⟨htree, hseek, hrests, hstart, hend⟩ := h
  obtain rfl : tree = root := htree
  obtain rfl : didSeek = true := hseek
  obtain ⟨e, rest, summary, items, itemSummaries, before, after, rfl, path, hleaf, hitem, rfl⟩ := hrests.exists_item
  obtain rfl : atEnd = false := hend
  have hvalid := path.valid hroot
  have hsize : e.index ≤ e.tree.size := by
    rw [hleaf] at hvalid ⊢
    show e.index ≤ itemSummaries.length
    rw [hvalid.leaf.2, List.length_map]
    exact (List.getElem?_eq_some_iff.mp hitem).1.le
  have hfuel : turnsBefore e.tree e.index + pendingBefore rest < fuel (e :: rest) := by
    have hpending := path.pendingBefore_le hroot
    have hturns := turnsBefore_le_rounds hvalid hsize
    show _ < e.tree.rounds + (rest.map fun e => e.tree.rounds).sum + 1
    omega
  have hbefore : e.tree.itemsBefore e.index = items.take e.index := by rw [hleaf]; rfl
  have hloop := @searchBackwardLoop_retreats T S D _ _ _ P R tree filterNode hlaw hroot _ false e rest position
    before after path hsize hfuel
  obtain ⟨stack', position', hloop, hretreated⟩ := hloop.retreated hne
  refine ⟨⟨tree, stack', position', true, false⟩, ?_, ?_⟩
  · simp only [searchBackward, startedBackward, Bool.not_false, Bool.and_true, if_true, hloop, Option.map_some]
  · rw [← hbefore]
    exact hretreated

/-- From the end, or before the first move: from behind the last item. -/
theorem searchBackward_end (hlaw : R → P ∧ LawfulSummary S ∧ LawfulDimension D S) (hroot : root.Valid P)
    (htree : c.tree = root) (hstack : c.stack = []) (hstarted : (c.didSeek && !c.atEnd) = false)
    (filterNode : S → Bool) :
    ∃ c', c.searchBackward filterNode = some c' ∧ Retreated R root filterNode c' root.toList := by
  obtain ⟨tree, stack, position, didSeek, atEnd⟩ := c
  obtain rfl : tree = root := htree
  obtain rfl : stack = [] := hstack
  have hstarted : (didSeek && !atEnd) = false := hstarted
  cases hempty : tree.isEmpty with
  | true =>
    have hskipped : SkippedBy tree filterNode tree.toList := by
      rw [hroot.isEmpty_iff.mp hempty]
      exact skippedBy_nil
    refine ⟨beforeStart tree true, ?_, Or.inl ⟨rfl, hskipped⟩⟩
    simp [searchBackward, startedBackward, hstarted, hempty, fuel, searchBackwardLoop, beforeStart, new]
  | false =>
    let e : StackEntry T S D := ⟨tree, tree.childSummaries.length,
      Dimension.addSummary (Dimension.zero S) tree.summary⟩
    have hfuel : turnsBefore tree tree.size + pendingBefore ([] : List (StackEntry T S D)) < fuel [e] := by
      have hturns := turnsBefore_le_rounds hroot (Nat.le_refl _)
      show _ + 0 < tree.rounds + 0 + 1
      omega
    have hloop := @searchBackwardLoop_retreats T S D _ _ _ P R tree filterNode hlaw hroot _ false e []
      (Dimension.zero S) [] [] Path.root (Nat.le_refl _) hfuel
    obtain ⟨stack', position', hloop, hretreated⟩ := hloop.retreated hempty
    have hitems : [] ++ tree.itemsBefore tree.size = tree.toList := itemsBefore_size hroot
    refine ⟨⟨tree, stack', position', true, false⟩, ?_, ?_⟩
    · simp only [searchBackward, startedBackward, hstarted, hempty, Bool.false_eq_true, if_false]
      exact congrArg (Option.map _) hloop
    · rw [← hitems]
      exact hretreated

omit [Summary S] [Item T S] in
theorem searchBackward_start (root : SumTree T S) (filterNode : S → Bool) :
    (beforeStart root true : Cursor T S D).searchBackward filterNode = some (beforeStart root true) := by
  cases hempty : root.isEmpty <;>
    simp [searchBackward, startedBackward, hempty, fuel, searchBackwardLoop, beforeStart, new]

end Cursor

end SumTree

end FcGpui
