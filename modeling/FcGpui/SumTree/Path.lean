import FcGpui.SumTree.Slices

/-!
# Paths

The stack of a cursor is a path from the root down.  `Path` says so of the entries above
some node: each is a node with the index of the child that the next one is about, and its
position is what is before that child.  So the items of the root are those before the
node, those of the node and those after it (`Path.toList`).

`Rests` is what every move leaves: the stack leads to an item, or it is empty and all
items have been passed.  `Stage` is what a loop forward keeps on the way there, and
`turns` counts how often it still comes to an entry.

Positions are right only if the dimension is lawful, which is the condition `P` of
`WellFormed`.
-/

namespace FcGpui

namespace SumTree

variable {T S D : Type} [Summary S] [Item T S] [Dimension D S] {P R : Prop}

open Summary

/-! ### Positions -/

/-- The position behind a list of items. -/
def positionAfter (items : List T) : D := (items.map Item.summary).foldl Dimension.addSummary (Dimension.zero S)

omit [Summary S] in
theorem positionAfter_append (items items' : List T) : (positionAfter (items ++ items') : D)
    = (items'.map Item.summary).foldl Dimension.addSummary (positionAfter items) := by
  rw [positionAfter, List.map_append, List.foldl_append]
  rfl

omit [Summary S] in
theorem positionAfter_concat (items : List T) (item : T) : (positionAfter (items ++ [item]) : D)
    = Dimension.addSummary (positionAfter items) (Item.summary item) :=
  positionAfter_append items [item]

theorem addSummary_foldl [LawfulDimension D S] (d : D) (a : S) (l : List S) :
    Dimension.addSummary d (l.foldl add a) = l.foldl Dimension.addSummary (Dimension.addSummary d a) := by
  induction l generalizing a with
  | nil => rfl
  | cons b l ih => rw [List.foldl_cons, List.foldl_cons, ih, LawfulDimension.addSummary_add]

theorem addSummary_itemSum [LawfulSummary S] [LawfulDimension D S] (d : D) {items : List T}
    (h : items ≠ []) : Dimension.addSummary d (itemSum items : S)
      = (items.map Item.summary).foldl Dimension.addSummary d := by
  obtain ⟨item, items, rfl⟩ := List.exists_cons_of_ne_nil h
  rw [itemSum, List.map_cons, sum_cons, addSummary_foldl]
  rfl

/-! ### Nodes by index -/

/-- The items of a node before an index. -/
def itemsBefore (i : Nat) : SumTree T S → List T
  | leaf _ items _ => items.take i
  | internal _ _ _ childTrees => toListAll (childTrees.take i)

/-- The number of items or children of a node. -/
def size (t : SumTree T S) : Nat := t.childSummaries.length

omit [Summary S] [Item T S] in
@[simp]
theorem itemsBefore_zero (t : SumTree T S) : t.itemsBefore 0 = [] := by
  cases t <;> rfl

theorem Valid.childSummaries_eq {height : Nat} {summary : S} {childSummaries : List S}
    {childTrees : List (SumTree T S)} (h : (internal height summary childSummaries childTrees).Valid P) :
    childSummaries = childTrees.map SumTree.summary := by
  rcases h with h | h
  · exact absurd h (by simp [new])
  · cases h with
    | internal _ _ _ hsummaries _ _ => exact hsummaries

theorem itemsBefore_size {t : SumTree T S} (h : t.Valid P) : t.itemsBefore t.size = t.toList := by
  cases t with
  | leaf summary items itemSummaries =>
    show items.take itemSummaries.length = items
    rw [h.leaf.2, List.length_map, List.take_length]
  | internal height summary childSummaries childTrees =>
    show toListAll (childTrees.take childSummaries.length) = toListAll childTrees
    rw [h.childSummaries_eq, List.length_map, List.take_length]

section Lawful

variable [LawfulSummary S] [LawfulDimension D S]

theorem addSummary_tree {t : SumTree T S} (h : t.WellFormed P) (hP : P) (items : List T) :
    Dimension.addSummary (positionAfter items : D) t.summary = positionAfter (items ++ t.toList) := by
  rw [h.summary_eq hP, addSummary_itemSum _ h.toList_ne_nil, positionAfter_append]

theorem foldl_addSummary_trees {trees : List (SumTree T S)} (h : ∀ t ∈ trees, t.WellFormed P) (hP : P)
    (items : List T) : (trees.map SumTree.summary).foldl Dimension.addSummary (positionAfter items : D)
      = positionAfter (items ++ toListAll trees) := by
  induction trees generalizing items with
  | nil => rw [toListAll, List.append_nil]; rfl
  | cons t trees ih =>
    rw [List.map_cons, List.foldl_cons, addSummary_tree (h t List.mem_cons_self) hP,
      ih fun t ht => h t (List.mem_cons_of_mem _ ht), toListAll, List.append_assoc]

/-- The summaries of a node before an index lead from the position before the node to the one
before the index. -/
theorem foldl_addSummary_take {t : SumTree T S} (h : t.Valid P) (hP : P) (items : List T) (i : Nat) :
    (t.childSummaries.take i).foldl Dimension.addSummary (positionAfter items : D)
      = positionAfter (items ++ t.itemsBefore i) := by
  cases t with
  | leaf summary items' itemSummaries =>
    show (itemSummaries.take i).foldl _ _ = positionAfter (items ++ items'.take i)
    rw [h.leaf.2, ← List.map_take, positionAfter_append]
  | internal height summary childSummaries childTrees =>
    show (childSummaries.take i).foldl _ _ = positionAfter (items ++ toListAll (childTrees.take i))
    rw [h.childSummaries_eq, ← List.map_take]
    exact foldl_addSummary_trees
      (fun t ht => h.children t (List.mem_of_mem_take ht)) hP items

end Lawful

omit [Summary S] [Item T S] in
/-- The items of the children before a child, of the child and of those behind it. -/
theorem toListAll_split {trees : List (SumTree T S)} {i : Nat} {t : SumTree T S} (h : trees[i]? = some t) :
    toListAll trees = toListAll (trees.take i) ++ (t.toList ++ toListAll (trees.drop (i + 1))) := by
  obtain ⟨hi, rfl⟩ := List.getElem?_eq_some_iff.mp h
  conv_lhs => rw [← List.take_append_drop i trees, List.drop_eq_getElem_cons hi]
  rw [toListAll_append, toListAll]

omit [Summary S] [Item T S] in
theorem toListAll_take_succ {trees : List (SumTree T S)} {i : Nat} {t : SumTree T S}
    (h : trees[i]? = some t) : toListAll (trees.take (i + 1)) = toListAll (trees.take i) ++ t.toList := by
  obtain ⟨hi, rfl⟩ := List.getElem?_eq_some_iff.mp h
  rw [← List.take_concat_get' _ _ hi, toListAll_append, toListAll_singleton]

namespace Cursor

/-! ### Paths -/

/-- The entries above a node of a tree, with the items before the node and those after it. -/
inductive Path (R : Prop) (root : SumTree T S) :
    List (StackEntry T S D) → SumTree T S → List T → List T → Prop
  | root : Path R root [] root [] []
  | child {e : StackEntry T S D} {stack : List (StackEntry T S D)} {height : Nat} {summary : S}
      {childSummaries : List S} {childTrees : List (SumTree T S)} {t : SumTree T S} {before after : List T}
      (path : Path R root stack e.tree before after)
      (htree : e.tree = internal height summary childSummaries childTrees)
      (hchild : childTrees[e.index]? = some t)
      (hposition : R → e.position = positionAfter (before ++ toListAll (childTrees.take e.index))) :
      Path R root (e :: stack) t (before ++ toListAll (childTrees.take e.index))
        (toListAll (childTrees.drop (e.index + 1)) ++ after)

variable {root t : SumTree T S} {stack : List (StackEntry T S D)} {before after : List T}

omit [Summary S] in
theorem Path.toList (h : Path R root stack t before after) : root.toList = before ++ (t.toList ++ after) := by
  induction h with
  | root => rw [List.nil_append, List.append_nil]
  | child path htree hchild hposition ih =>
    rw [ih, htree, SumTree.toList, toListAll_split hchild]
    simp only [List.append_assoc]

theorem Path.valid (hroot : root.Valid P) (h : Path R root stack t before after) : t.Valid P := by
  induction h with
  | root => exact hroot
  | child path htree hchild hposition ih =>
    rw [htree] at ih
    exact Or.inr (ih.children _ (List.mem_of_getElem? hchild))

omit [Summary S] in
/-- The position of the parent is the one before the node. -/
theorem Path.position (hR : R) (h : Path R root stack t before after) :
    (stack.head?.map StackEntry.position).getD (Dimension.zero S) = positionAfter before := by
  cases h with
  | root => rfl
  | child path htree hchild hposition => exact hposition hR

/-- What a move leaves, with the items passed and those that remain: an item or the end. -/
inductive Rests (R : Prop) (root : SumTree T S) : List (StackEntry T S D) → List T → List T → Prop
  | item {e : StackEntry T S D} {stack : List (StackEntry T S D)} {summary : S} {items : List T}
      {itemSummaries : List S} {before after : List T}
      (path : Path R root stack e.tree before after) (htree : e.tree = leaf summary items itemSummaries)
      (hindex : e.index < items.length) :
      Rests R root (e :: stack) (before ++ items.take e.index) (items.drop e.index ++ after)
  | atEnd : Rests R root [] root.toList []

omit [Summary S] in
theorem Rests.toList {passed remaining : List T} (h : Rests R root stack passed remaining) :
    root.toList = passed ++ remaining := by
  cases h with
  | atEnd => rw [List.append_nil]
  | item path htree hindex =>
    rw [path.toList, htree, SumTree.toList, List.append_assoc, ← List.append_assoc (List.take _ _),
      List.take_append_drop]

omit [Summary S] in
theorem Rests.exists_item {item : T} {passed remaining : List T} (h : Rests R root stack passed (item :: remaining)) :
    ∃ (e : StackEntry T S D) (rest : List (StackEntry T S D)) (summary : S) (items : List T) (itemSummaries : List S)
      (before after : List T), stack = e :: rest ∧ Path R root rest e.tree before after ∧
        e.tree = leaf summary items itemSummaries ∧ items[e.index]? = some item ∧
        passed = before ++ items.take e.index := by
  generalize hremaining : item :: remaining = remaining₀ at h
  cases h with
  | atEnd => cases hremaining
  | item path htree hindex =>
    rw [List.drop_eq_getElem_cons hindex] at hremaining
    obtain ⟨rfl, -⟩ := List.cons.inj hremaining
    exact ⟨_, _, _, _, _, _, _, rfl, path, htree, List.getElem?_eq_getElem hindex, rfl⟩

omit [Summary S] in
theorem Path.before_unique {t' : SumTree T S} {before' after' : List T} (h : Path R root stack t before after)
    (h' : Path R root stack t' before' after') : before = before' := by
  induction h generalizing t' before' after' with
  | root =>
    cases h'
    rfl
  | child path htree _ _ ih =>
    cases h' with
    | child path' htree' _ _ =>
      obtain ⟨-, -, -, rfl⟩ := internal.inj (htree.symm.trans htree')
      rw [ih path']

omit [Summary S] in
theorem Rests.passed_unique {passed passed' remaining remaining' : List T}
    (h : Rests R root stack passed remaining) (h' : Rests R root stack passed' remaining') : passed = passed' := by
  cases h with
  | atEnd =>
    cases h'
    rfl
  | item path htree _ =>
    cases h' with
    | item path' htree' _ =>
      obtain ⟨-, rfl, -⟩ := leaf.inj (htree.symm.trans htree')
      rw [path.before_unique path']

omit [Summary S] in
theorem Rests.isEmpty {passed remaining : List T} (h : Rests R root stack passed remaining)
    (hne : remaining ≠ []) : stack.isEmpty = false := by
  cases h with
  | atEnd => exact absurd rfl hne
  | item => rfl

/-! ### How long a loop goes on -/

omit [Summary S] [Item T S] in
theorem roundsAll_eq (trees : List (SumTree T S)) : roundsAll trees = (trees.map rounds).sum := by
  induction trees with
  | nil => rfl
  | cons tree trees ih => rw [roundsAll, ih, List.map_cons, List.sum_cons]

/-- How often a loop still comes to a node or to what is below it, from an index on. -/
def turns (t : SumTree T S) (i : Nat) : Nat :=
  (((t.childTrees.getD []).drop i).map fun t => t.rounds + 1).sum + 1

/-- How often it does to the entries that it comes back to. -/
def pending (stack : List (StackEntry T S D)) : Nat := (stack.map fun e => turns e.tree (e.index + 1)).sum

omit [Summary S] [Item T S] in
theorem turns_child {height : Nat} {summary : S} {childSummaries : List S} {childTrees : List (SumTree T S)}
    {i : Nat} (h : childTrees[i]? = some t) :
    turns (internal height summary childSummaries childTrees) i
      = t.rounds + 1 + turns (internal height summary childSummaries childTrees) (i + 1) := by
  obtain ⟨hi, rfl⟩ := List.getElem?_eq_some_iff.mp h
  show ((childTrees.drop i).map _).sum + 1 = _ + (((childTrees.drop (i + 1)).map _).sum + 1)
  rw [List.drop_eq_getElem_cons hi, List.map_cons, List.sum_cons, Nat.add_assoc]

omit [Summary S] [Item T S] in
theorem turns_anti (t : SumTree T S) {i j : Nat} (h : i ≤ j) : turns t j ≤ turns t i := by
  obtain ⟨k, rfl⟩ := Nat.exists_eq_add_of_le h
  unfold turns
  rw [← List.drop_drop]
  exact Nat.succ_le_succ (((List.drop_sublist k _).map _).sum_le_sum fun _ _ => Nat.zero_le _)

theorem turns_le_rounds (h : t.Valid P) (i : Nat) : turns t i ≤ t.rounds := by
  refine (turns_anti t (Nat.zero_le i)).trans ?_
  cases t with
  | leaf summary items itemSummaries =>
    show 0 + 1 ≤ 2 + itemSummaries.length
    omega
  | internal height summary childSummaries childTrees =>
    have hsum : (childTrees.map fun t => t.rounds + 1).sum = (childTrees.map rounds).sum + childTrees.length := by
      rw [List.sum_map_add, List.map_const', List.sum_replicate, Nat.nsmul_eq_mul, Nat.mul_one]
    have hlength : childSummaries.length = childTrees.length := by
      rw [h.childSummaries_eq, List.length_map]
    show (childTrees.map fun t => t.rounds + 1).sum + 1 ≤ 2 + childSummaries.length + roundsAll childTrees
    rw [hsum, hlength, roundsAll_eq]
    omega

/-- What the loops forward keep, with the items passed and the turns that are left: they come
down to a node at an index, or back from a node that is done. -/
inductive Stage (R : Prop) (root : SumTree T S) : Bool → List (StackEntry T S D) → List T → Nat → Prop
  | entering {e : StackEntry T S D} {stack : List (StackEntry T S D)} {before after : List T}
      (path : Path R root stack e.tree before after) (hindex : e.index ≤ e.tree.size)
      (hposition : e.tree.childTrees.isSome → R →
        e.position = positionAfter (before ++ e.tree.itemsBefore e.index)) :
      Stage R root false (e :: stack) (before ++ e.tree.itemsBefore e.index)
        (turns e.tree e.index + pending stack)
  | leaving {stack : List (StackEntry T S D)} {t : SumTree T S} {before after : List T}
      (path : Path R root stack t before after) : Stage R root true stack (before ++ t.toList) (pending stack)

variable {position : D} {passed : List T} {work : Nat}

omit [Summary S] in
theorem Stage.start (root : SumTree T S) :
    Stage R root false [(⟨root, 0, Dimension.zero S⟩ : StackEntry T S D)] [] (turns root 0) := by
  have h : Stage R root false [(⟨root, 0, Dimension.zero S⟩ : StackEntry T S D)]
      ([] ++ root.itemsBefore 0) (turns root 0 + pending ([] : List (StackEntry T S D))) :=
    .entering .root (Nat.zero_le _) fun _ _ => by rw [itemsBefore_zero]; rfl
  rwa [itemsBefore_zero] at h

/-- A node that is done: its parent goes on with the next child, or the root is done. -/
theorem Stage.resume (hroot : root.Valid P) (h : Stage R root true stack passed work)
    (hposition : R → position = positionAfter passed) :
    (stack = [] ∧ passed = root.toList) ∨
    ∃ e rest, stack = e :: rest ∧ e.tree.childTrees.isSome ∧
      Stage R root false (resumed true e position :: rest) passed work := by
  cases h with
  | @leaving _ t _ _ path =>
    cases path with
    | root => exact Or.inl ⟨rfl, rfl⟩
    | @child e rest height summary childSummaries childTrees _ before after path htree hchild hpos =>
      refine Or.inr ⟨e, rest, rfl, by rw [htree]; rfl, ?_⟩
      have hpassed : before ++ toListAll (childTrees.take e.index) ++ t.toList
          = before ++ e.tree.itemsBefore (e.index + 1) := by
        rw [htree, itemsBefore, toListAll_take_succ hchild, List.append_assoc]
      have hsize : e.index + 1 ≤ e.tree.size := by
        have hvalid := path.valid hroot
        rw [htree] at hvalid ⊢
        show e.index + 1 ≤ childSummaries.length
        rw [hvalid.childSummaries_eq, List.length_map]
        exact (List.getElem?_eq_some_iff.mp hchild).1
      rw [hpassed] at hposition ⊢
      exact .entering (e := resumed true e position) path hsize fun _ => hposition

omit [Summary S] [Item T S] in
theorem turns_pos (t : SumTree T S) (i : Nat) : 0 < turns t i := Nat.succ_pos _

/-- A round at an internal node goes down to a child that it comes to. -/
theorem Stage.enter {e e' : StackEntry T S D} {height : Nat} {summary : S} {childSummaries : List S}
    {childTrees : List (SumTree T S)} (hroot : root.Valid P) (path : Path R root stack e.tree before after)
    (htree : e.tree = internal height summary childSummaries childTrees) (htree' : e'.tree = e.tree)
    (hindex : e.index ≤ e'.index) (hchild : childTrees[e'.index]? = some t)
    (hentry : R → e'.position = positionAfter (before ++ toListAll (childTrees.take e'.index)))
    (hposition : R → position = positionAfter (before ++ toListAll (childTrees.take e'.index))) :
    ∃ work', Stage R root false (⟨t, 0, position⟩ :: e' :: stack)
        (before ++ toListAll (childTrees.take e'.index)) work' ∧
      work' < turns e.tree e.index + pending stack := by
  rw [← htree'] at path
  have hpath := Path.child path (htree'.trans htree) hchild hentry
  have hstage : Stage R root false (⟨t, 0, position⟩ :: e' :: stack)
      (before ++ toListAll (childTrees.take e'.index) ++ t.itemsBefore 0) (turns t 0 + pending (e' :: stack)) := by
    refine .entering hpath (Nat.zero_le _) fun _ hR => ?_
    rw [itemsBefore_zero, List.append_nil]
    exact hposition hR
  rw [itemsBefore_zero, List.append_nil] at hstage
  refine ⟨_, hstage, ?_⟩
  have hpending : pending (e' :: stack) = turns e.tree (e'.index + 1) + pending stack := by
    rw [← htree']
    rfl
  have hturns := turns_anti e.tree hindex
  have hround := turns_le_rounds (hpath.valid hroot) 0
  rw [hpending, htree] at *
  rw [turns_child hchild] at hturns
  omega

end Cursor

end SumTree

end FcGpui
