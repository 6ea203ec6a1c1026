import FcGpui.SumTree.Tree

/-!
# Well-formed trees

`toList` is the sequence a tree stands for, `WellFormed` the invariant of a tree that is
not empty, node by node, and `Valid` that of any tree: it is `new` or well-formed.

* `appendChildren_spec`, `appendItems_spec`: the two places where a node is split.
* `pushTreeRecursive_spec`: a tree that is not taller is pushed into the right spine.
* `append_spec`: **appending keeps the invariant, and the sequence is the one of both trees.**

Summaries need not have a neutral element on the right, so a sum may be split only where
both parts are not empty.  That is what `WellFormed` says of a node's children.
-/

namespace FcGpui

theorem treeBase_pos : 0 < treeBase := by decide

namespace SumTree

variable {T S : Type} [Summary S] [Item T S]

open Summary

/-! ### The sequence of a tree -/

mutual

def toList : SumTree T S → List T
  | leaf _ items _ => items
  | internal _ _ _ childTrees => toListAll childTrees

def toListAll : List (SumTree T S) → List T
  | [] => []
  | tree :: trees => toList tree ++ toListAll trees

end

omit [Summary S] [Item T S] in
/-- Induction over a tree, with the hypothesis for all children. -/
theorem ind {P : SumTree T S → Prop} (leaf : ∀ s items ss, P (leaf s items ss))
    (internal : ∀ h s ss trees, (∀ t ∈ trees, P t) → P (internal h s ss trees)) :
    ∀ t, P t := by
  intro t
  refine @SumTree.rec T S P (fun trees => ∀ t ∈ trees, P t) leaf internal ?_ ?_ t
  · exact fun t ht => absurd ht List.not_mem_nil
  · intro tree trees htree htrees t ht
    rcases List.mem_cons.mp ht with rfl | ht
    · exact htree
    · exact htrees t ht

omit [Summary S] [Item T S] in
theorem toListAll_eq (trees : List (SumTree T S)) : toListAll trees = trees.flatMap toList := by
  induction trees with
  | nil => rfl
  | cons tree trees ih =>
    rw [toListAll, ih]
    rfl

omit [Summary S] [Item T S] in
theorem toListAll_append (trees trees' : List (SumTree T S)) :
    toListAll (trees ++ trees') = toListAll trees ++ toListAll trees' := by
  rw [toListAll_eq, toListAll_eq, toListAll_eq, List.flatMap_append]

omit [Summary S] [Item T S] in
theorem toListAll_singleton (tree : SumTree T S) : toListAll [tree] = tree.toList := by
  rw [toListAll, toListAll, List.append_nil]

/-! ### The invariant -/

/-- The sum of the summaries of a list of items. -/
def itemSum (items : List T) : S := sum (items.map Item.summary)

/-- A tree that is not empty.  If `P` holds its sums are right too; they are kept only if
adding summaries is lawful. -/
inductive WellFormed (P : Prop) : SumTree T S → Prop
  | leaf {summary : S} {items : List T} {itemSummaries : List S} (hne : items ≠ [])
      (hlength : items.length ≤ 2 * treeBase) (hsummaries : itemSummaries = items.map Item.summary)
      (hsummary : P → summary = itemSum items) : WellFormed P (leaf summary items itemSummaries)
  | internal {height : Nat} {summary : S} {childSummaries : List S} {childTrees : List (SumTree T S)}
      (hne : childTrees ≠ []) (hlength : childTrees.length ≤ 2 * treeBase)
      (hheight : ∀ t ∈ childTrees, t.height + 1 = height)
      (hsummaries : childSummaries = childTrees.map SumTree.summary)
      (hsummary : P → summary = itemSum (toListAll childTrees))
      (hchildren : ∀ t ∈ childTrees, WellFormed P t) :
      WellFormed P (internal height summary childSummaries childTrees)

/-- The tree is empty, and then it has nothing but its root, or it is well-formed. -/
def Valid (P : Prop) (t : SumTree T S) : Prop := t = new ∨ t.WellFormed P

variable {P : Prop}

theorem WellFormed.summary_eq {t : SumTree T S} (h : t.WellFormed P) (hP : P) :
    t.summary = itemSum t.toList := by
  cases h with
  | leaf _ _ _ hsummary => exact hsummary hP
  | internal _ _ _ _ hsummary _ => exact hsummary hP

theorem WellFormed.toList_ne_nil {t : SumTree T S} (h : t.WellFormed P) : t.toList ≠ [] := by
  induction h with
  | leaf hne => exact hne
  | @internal height summary childSummaries childTrees hne _ _ _ _ _ ih =>
    obtain ⟨tree, trees, rfl⟩ := List.exists_cons_of_ne_nil hne
    intro hnil
    rw [toList, toListAll] at hnil
    exact ih tree List.mem_cons_self (List.append_eq_nil_iff.mp hnil).1

theorem WellFormed.isEmpty {t : SumTree T S} (h : t.WellFormed P) : t.isEmpty = false := by
  cases h with
  | leaf hne => exact List.isEmpty_eq_false_iff.mpr hne
  | internal => rfl

section Lawful

theorem itemSum_append [LawfulSummary S] (items : List T) {items' : List T} (h : items' ≠ []) :
    (itemSum (items ++ items') : S) = add (itemSum items) (itemSum items') := by
  rw [itemSum, List.map_append, sum_append _ (by simpa using h)]
  rfl

theorem sum_summaries [LawfulSummary S] {trees : List (SumTree T S)} (h : ∀ t ∈ trees, t.WellFormed P)
    (hP : P) : sum (trees.map summary) = itemSum (toListAll trees) := by
  have hsums : trees.map summary = (trees.map fun t => t.toList.map Item.summary).map sum := by
    rw [List.map_map]
    exact List.map_congr_left fun t ht => (h t ht).summary_eq hP
  rw [hsums, sum_flatten, itemSum, toListAll_eq, List.map_flatMap]
  · rfl
  · intro l hl
    obtain ⟨t, ht, rfl⟩ := List.mem_map.mp hl
    simpa using (h t ht).toList_ne_nil

variable (hlawful : P → LawfulSummary S)

include hlawful

theorem WellFormed.of_children {height : Nat} {trees : List (SumTree T S)} (hne : trees ≠ [])
    (hlength : trees.length ≤ 2 * treeBase) (hheight : ∀ t ∈ trees, t.height + 1 = height)
    (hchildren : ∀ t ∈ trees, t.WellFormed P) :
    (SumTree.internal height (sum (trees.map SumTree.summary)) (trees.map SumTree.summary) trees).WellFormed P :=
  .internal hne hlength hheight rfl (fun hP => have := hlawful hP; sum_summaries hchildren hP) hchildren

/-! ### Splitting -/

omit hlawful in
theorem midpoint_bounds {count : Nat} (hmin : 2 * treeBase < count) (hmax : count ≤ 4 * treeBase) :
    0 < midpoint count ∧ midpoint count < count ∧ midpoint count ≤ 2 * treeBase ∧
      count - midpoint count ≤ 2 * treeBase := by
  have hpos := treeBase_pos
  unfold midpoint
  omega

omit hlawful in
/-- Both halves of what does not fit into one node are nodes of their own. -/
theorem halves_fit {α : Type} {l : List α} (hmin : 2 * treeBase < l.length) (hmax : l.length ≤ 4 * treeBase) :
    (l.take (midpoint l.length) ≠ [] ∧ (l.take (midpoint l.length)).length ≤ 2 * treeBase) ∧
      l.drop (midpoint l.length) ≠ [] ∧ (l.drop (midpoint l.length)).length ≤ 2 * treeBase := by
  obtain ⟨hpos, hlt, hleft, hright⟩ := midpoint_bounds hmin hmax
  have htake : (l.take (midpoint l.length)).length = midpoint l.length := List.length_take_of_le hlt.le
  have hdrop : (l.drop (midpoint l.length)).length = l.length - midpoint l.length := List.length_drop
  refine ⟨⟨List.ne_nil_of_length_pos ?_, htake.trans_le hleft⟩, List.ne_nil_of_length_pos ?_, hdrop.trans_le hright⟩
  · rw [htake]
    exact hpos
  · rw [hdrop]
    exact Nat.sub_pos_of_lt hlt

/-- What a push leaves: the tree and what was split off are well-formed and as tall as the
tree was, and hold the sequence. -/
structure Pushed (P : Prop) (height : Nat) (items : List T) (r : SumTree T S × Option (SumTree T S)) : Prop where
  tree : r.1.WellFormed P
  height_tree : r.1.height = height
  split : ∀ t ∈ r.2, t.WellFormed P
  height_split : ∀ t ∈ r.2, t.height = height
  items : r.1.toList ++ toListAll r.2.toList = items

theorem appendChildren_spec {height : Nat} {summary : S} {childSummaries summariesToAppend : List S}
    {childTrees treesToAppend : List (SumTree T S)} (hne : childTrees ++ treesToAppend ≠ [])
    (hlength : childTrees.length + treesToAppend.length ≤ 4 * treeBase)
    (hheight : ∀ t ∈ childTrees ++ treesToAppend, t.height + 1 = height)
    (hchildren : ∀ t ∈ childTrees ++ treesToAppend, t.WellFormed P)
    (hsummaries : childSummaries ++ summariesToAppend = (childTrees ++ treesToAppend).map SumTree.summary)
    (hsummary : P → summary = itemSum (toListAll (childTrees ++ treesToAppend))) :
    Pushed P height (toListAll (childTrees ++ treesToAppend))
      (appendChildren height summary childSummaries childTrees summariesToAppend treesToAppend) := by
  have hcount : (childTrees ++ treesToAppend).length = childTrees.length + treesToAppend.length :=
    List.length_append
  unfold appendChildren
  simp only [hsummaries]
  split
  · rename_i hfull
    obtain ⟨⟨hfront, hleft⟩, hback, hright⟩ := halves_fit (hcount ▸ hfull) (hcount ▸ hlength)
    rw [← hcount]
    set trees := childTrees ++ treesToAppend
    set mid := midpoint trees.length
    have htake : ∀ t ∈ trees.take mid, t ∈ trees := fun t => List.mem_of_mem_take
    have hdrop : ∀ t ∈ trees.drop mid, t ∈ trees := fun t => List.mem_of_mem_drop
    rw [← List.map_take, ← List.map_drop]
    refine ⟨?_, rfl, ?_, ?_, ?_⟩
    · exact .of_children hlawful hfront hleft (fun t ht => hheight t (htake t ht)) fun t ht => hchildren t (htake t ht)
    · intro t ht
      obtain rfl := Option.some.inj ht
      exact .of_children hlawful hback hright (fun t ht => hheight t (hdrop t ht)) fun t ht => hchildren t (hdrop t ht)
    · intro t ht
      obtain rfl := Option.some.inj ht
      rfl
    · show toListAll (trees.take mid) ++ toListAll [_] = toListAll trees
      rw [toListAll_singleton, toList, ← toListAll_append, List.take_append_drop]
  · rename_i hfits
    refine ⟨.internal hne (by omega) hheight rfl hsummary hchildren, rfl, fun t ht => ?_, fun t ht => ?_, ?_⟩
    · exact absurd ht (by simp)
    · exact absurd ht (by simp)
    · show toListAll _ ++ [] = _
      rw [List.append_nil]

variable {other t : SumTree T S}

theorem appendItems_spec {summary : S} {items : List T} {itemSummaries : List S}
    (h : (leaf summary items itemSummaries).WellFormed P) (hother : other.WellFormed P)
    (hheight : other.height = 0) :
    ∃ r, appendItems summary items itemSummaries other = some r ∧
      Pushed P 0 (items ++ other.toList) r := by
  cases other with
  | internal height summary' childSummaries childTrees =>
    -- an internal node has a child and is higher than that
    cases hother with
    | internal hne _ hheights =>
      obtain ⟨tree, trees, rfl⟩ := List.exists_cons_of_ne_nil hne
      have := hheights tree List.mem_cons_self
      have hzero : height = 0 := hheight
      omega
  | leaf summary' items' itemSummaries' =>
    cases h with
    | leaf hne hlength hsummaries hsummary =>
      cases hother with
      | leaf hne' hlength' hsummaries' hsummary' =>
        have hall : itemSummaries ++ itemSummaries' = (items ++ items').map Item.summary := by
          rw [List.map_append, hsummaries, hsummaries']
        have hcount : (items ++ items').length = items.length + items'.length := List.length_append
        simp only [appendItems, nodeItems, childSummaries, Option.bind_eq_bind, Option.bind_some, hall]
        split
        · rename_i hfull
          refine ⟨_, rfl, ?_⟩
          obtain ⟨⟨hfront, hleft⟩, hback, hright⟩ := halves_fit (hcount ▸ hfull) (by omega)
          rw [← hcount]
          set all := items ++ items'
          set mid := midpoint all.length
          rw [← List.map_take, ← List.map_drop]
          refine ⟨.leaf hfront hleft rfl fun _ => rfl, rfl, ?_, ?_, ?_⟩
          · intro t ht
            obtain rfl := Option.some.inj ht
            exact .leaf hback hright rfl fun _ => rfl
          · intro t ht
            obtain rfl := Option.some.inj ht
            rfl
          · show all.take mid ++ toListAll [_] = all
            rw [toListAll_singleton, toList, List.take_append_drop]
        · rename_i hfits
          refine ⟨_, rfl, .leaf ?_ (by omega) rfl ?_, rfl, fun t ht => ?_, fun t ht => ?_, ?_⟩
          · exact fun hnil => hne (List.append_eq_nil_iff.mp hnil).1
          · intro hP
            have := hlawful hP
            rw [itemSum_append _ hne', hsummary hP]
            exact congrArg _ (hsummary' hP)
          · exact absurd ht (by simp)
          · exact absurd ht (by simp)
          · show items ++ items' ++ [] = _
            rw [List.append_nil]
            rfl

/-! ### Pushing a tree -/

omit hlawful in
theorem setLast_concat {α : Type} (l : List α) (a b : α) : setLast (l ++ [a]) b = some (l ++ [b]) := by
  rw [setLast, if_neg (by simp), List.dropLast_concat]

omit hlawful [Item T S] in
theorem pushTreeLast_concat (other : SumTree T S) (trees : List (SumTree T S)) (tree : SumTree T S) :
    pushTreeLast other (trees ++ [tree])
      = (pushTreeRecursive other tree).map fun r => (trees ++ [r.1], r.2) := by
  induction trees with
  | nil => rw [List.nil_append, pushTreeLast]; rfl
  | cons t trees ih =>
    obtain ⟨t', trees', heq⟩ : ∃ t' trees', trees ++ [tree] = t' :: trees' :=
      List.exists_cons_of_ne_nil (by simp)
    rw [List.cons_append, heq, pushTreeLast, ← heq, ih, Option.map_map]
    · rfl
    · exact fun h => absurd h (by simp)

theorem appendSameHeight {height : Nat} {summary : S} {childSummaries : List S}
    {childTrees : List (SumTree T S)} (hne : childTrees ≠ [])
    (hlength : childTrees.length ≤ 2 * treeBase) (hheights : ∀ t ∈ childTrees, t.height + 1 = height)
    (hsummaries : childSummaries = childTrees.map SumTree.summary)
    (hchildren : ∀ t ∈ childTrees, t.WellFormed P)
    (hsum : P → add summary other.summary = itemSum (toListAll childTrees ++ other.toList))
    (hother : other.WellFormed P) (hheight : other.height = height) :
    ∃ r, (other.childTrees.map fun treesToAppend => appendChildren height (add summary other.summary)
        childSummaries childTrees other.childSummaries treesToAppend) = some r ∧
      Pushed P height (toListAll childTrees ++ other.toList) r := by
  cases hother with
  | leaf =>
    obtain ⟨tree, trees, rfl⟩ := List.exists_cons_of_ne_nil hne
    have := hheights tree List.mem_cons_self
    have hzero : 0 = height := hheight
    omega
  | @internal height' summary' childSummaries' childTrees' hne' hlength' hheights' hsummaries' hsummary'
      hchildren' =>
    obtain rfl : height' = height := hheight
    refine ⟨_, rfl, ?_⟩
    have hitems : toListAll childTrees ++ toListAll childTrees' = toListAll (childTrees ++ childTrees') :=
      (toListAll_append _ _).symm
    show Pushed P height' (toListAll childTrees ++ toListAll childTrees') _
    rw [toList, hitems] at hsum
    rw [hitems]
    refine appendChildren_spec hlawful (fun hnil => hne (List.append_eq_nil_iff.mp hnil).1) (by omega)
      (fun t ht => ?_) (fun t ht => ?_) ?_ hsum
    · exact (List.mem_append.mp ht).elim (hheights t) (hheights' t)
    · exact (List.mem_append.mp ht).elim (hchildren t) (hchildren' t)
    · rw [List.map_append, hsummaries, ← hsummaries']
      rfl

theorem appendIntoLast {height : Nat} {summary : S} {init : List (SumTree T S)} {last : SumTree T S}
    {r : SumTree T S × Option (SumTree T S)} (hlength : (init ++ [last]).length ≤ 2 * treeBase)
    (hheights : ∀ t ∈ init ++ [last], t.height + 1 = height) (hchildren : ∀ t ∈ init ++ [last], t.WellFormed P)
    (hsum : P → summary = itemSum (toListAll (init ++ [last]) ++ other.toList))
    (hpushed : Pushed P last.height (last.toList ++ other.toList) r) :
    Pushed P height (toListAll (init ++ [last]) ++ other.toList)
      (appendChildren height summary (init.map SumTree.summary ++ [r.1.summary]) (init ++ [r.1])
        (r.2.toList.map SumTree.summary) r.2.toList) := by
  have hlast := hheights last (by simp)
  have hitems : toListAll (init ++ [last]) ++ other.toList = toListAll (init ++ [r.1] ++ r.2.toList) := by
    rw [toListAll_append, toListAll_append, toListAll_append, toListAll_singleton, toListAll_singleton,
      List.append_assoc, List.append_assoc, hpushed.items]
  have hsplit : r.2.toList.length ≤ 1 := by
    cases r.2 with
    | none => exact Nat.zero_le _
    | some t => exact Nat.le_refl _
  rw [hitems] at hsum ⊢
  refine appendChildren_spec hlawful (by simp) ?_ (fun t ht => ?_) (fun t ht => ?_) ?_ hsum
  · rw [List.length_append, List.length_singleton] at hlength ⊢
    have := treeBase_pos
    omega
  · rcases List.mem_append.mp ht with ht | ht
    · rcases List.mem_append.mp ht with ht | ht
      · exact hheights t (List.mem_append_left _ ht)
      · rw [List.mem_singleton.mp ht, hpushed.height_tree, hlast]
    · rw [hpushed.height_split t (Option.mem_toList.mp ht), hlast]
  · rcases List.mem_append.mp ht with ht | ht
    · rcases List.mem_append.mp ht with ht | ht
      · exact hchildren t (List.mem_append_left _ ht)
      · rw [List.mem_singleton.mp ht]
        exact hpushed.tree
    · exact hpushed.split t (Option.mem_toList.mp ht)
  · rw [List.map_append, List.map_append, List.map_singleton]

/-- **A tree that is not taller goes into the right spine.** -/
theorem pushTreeRecursive_spec (hother : other.WellFormed P) (t : SumTree T S) :
    t.WellFormed P → other.height ≤ t.height →
    ∃ r, pushTreeRecursive other t = some r ∧ Pushed P t.height (t.toList ++ other.toList) r := by
  induction t using ind with
  | leaf summary items itemSummaries =>
    intro h hheight
    rw [pushTreeRecursive]
    exact appendItems_spec hlawful h hother (Nat.le_zero.mp hheight)
  | internal height summary childSummaries childTrees ih =>
    intro h hheight
    have hle : other.height ≤ height := hheight
    cases h with
    | internal hne hlength hheights hsummaries hsummary hchildren =>
      have hsum : P → add summary other.summary = itemSum (toListAll childTrees ++ other.toList) := by
        intro hP
        have := hlawful hP
        rw [itemSum_append _ hother.toList_ne_nil, hsummary hP, hother.summary_eq hP]
      rw [pushTreeRecursive, if_neg (by omega)]
      split
      · rename_i hdelta
        exact appendSameHeight hlawful hne hlength hheights hsummaries hchildren hsum hother (by omega)
      · split
        · rename_i hdelta
          refine ⟨_, rfl, ?_⟩
          have hitems : toListAll childTrees ++ other.toList = toListAll (childTrees ++ [other]) := by
            rw [toListAll_append, toListAll_singleton]
          show Pushed P height (toListAll childTrees ++ other.toList) _
          rw [hitems] at hsum ⊢
          refine appendChildren_spec hlawful (by simp) ?_ (fun t ht => ?_) (fun t ht => ?_) ?_ hsum
          · rw [List.length_singleton]
            have := treeBase_pos
            omega
          · rcases List.mem_append.mp ht with ht | ht
            · exact hheights t ht
            · rw [List.mem_singleton.mp ht]
              omega
          · rcases List.mem_append.mp ht with ht | ht
            · exact hchildren t ht
            · rw [List.mem_singleton.mp ht]
              exact hother
          · rw [List.map_append, hsummaries]
            rfl
        · rename_i hzero hone
          obtain ⟨init, last, rfl⟩ := (List.eq_nil_or_concat' _).resolve_left hne
          have hmem : last ∈ init ++ [last] := by simp
          have hlast := hheights last hmem
          obtain ⟨r, hr, hpushed⟩ := ih last hmem (hchildren last hmem) (by omega)
          rw [pushTreeLast_concat, hr]
          simp only [Option.map_some, Option.bind_eq_bind, Option.bind_some, List.getLast?_concat,
            hsummaries, List.map_append, List.map_singleton, setLast_concat]
          exact ⟨_, rfl, appendIntoLast hlawful hlength hheights hchildren hsum hpushed⟩

/-! ### Appending -/

theorem fromChildTrees_wellFormed {left right : SumTree T S} (hleft : left.WellFormed P)
    (hright : right.WellFormed P) (hheight : right.height = left.height) :
    (fromChildTrees left right).WellFormed P := by
  show (SumTree.internal (left.height + 1) (sum ([left, right].map SumTree.summary))
    ([left, right].map SumTree.summary) [left, right]).WellFormed P
  refine WellFormed.of_children hlawful (by simp) ?_ (fun t ht => ?_) fun t ht => ?_
  · show 2 ≤ 2 * treeBase
    have := treeBase_pos
    omega
  · rcases List.mem_pair.mp ht with rfl | rfl
    · rfl
    · rw [hheight]
  · rcases List.mem_pair.mp ht with rfl | rfl
    · exact hleft
    · exact hright

theorem pushTree_spec (h : t.WellFormed P) (hother : other.WellFormed P)
    (hheight : other.height ≤ t.height) :
    ∃ t', pushTree t other = some t' ∧ t'.WellFormed P ∧ t'.toList = t.toList ++ other.toList := by
  obtain ⟨⟨tree, split⟩, hr, hpushed⟩ := pushTreeRecursive_spec hlawful hother t h hheight
  rw [pushTree, hr]
  cases split with
  | none =>
    refine ⟨tree, rfl, hpushed.tree, ?_⟩
    have hitems : tree.toList ++ [] = t.toList ++ other.toList := hpushed.items
    rwa [List.append_nil] at hitems
  | some splitTree =>
    refine ⟨fromChildTrees tree splitTree, rfl, ?_, ?_⟩
    · exact fromChildTrees_wellFormed hlawful hpushed.tree (hpushed.split splitTree rfl)
        ((hpushed.height_split splitTree rfl).trans hpushed.height_tree.symm)
    · exact hpushed.items

omit hlawful in
theorem appendAll_spec {trees : List (SumTree T S)} (h : ∀ tree ∈ trees, ∀ {t : SumTree T S},
    t.WellFormed P → ∃ t', append t tree = some t' ∧ t'.WellFormed P ∧ t'.toList = t.toList ++ tree.toList) :
    ∀ {t : SumTree T S}, t.WellFormed P →
      ∃ t', appendAll t trees = some t' ∧ t'.WellFormed P ∧ t'.toList = t.toList ++ toListAll trees := by
  induction trees with
  | nil =>
    intro t ht
    refine ⟨t, by rw [appendAll], ht, ?_⟩
    rw [toListAll, List.append_nil]
  | cons tree trees ih =>
    intro t ht
    obtain ⟨t₁, happend, ht₁, hlist₁⟩ := h tree List.mem_cons_self ht
    obtain ⟨t₂, hrest, ht₂, hlist₂⟩ := ih (fun tree hmem => h tree (List.mem_cons_of_mem _ hmem)) ht₁
    refine ⟨t₂, ?_, ht₂, ?_⟩
    · rw [appendAll, happend]
      exact hrest
    · rw [hlist₂, hlist₁, toListAll, List.append_assoc]

theorem append_wellFormed (other : SumTree T S) : other.WellFormed P → ∀ {t : SumTree T S}, t.WellFormed P →
    ∃ t', append t other = some t' ∧ t'.WellFormed P ∧ t'.toList = t.toList ++ other.toList := by
  induction other using ind with
  | leaf summary items itemSummaries =>
    intro hother t h
    have hitems : items.isEmpty = false := hother.isEmpty
    rw [append, h.isEmpty, if_neg (by simp), hitems, if_neg (by simp)]
    exact pushTree_spec hlawful h hother (Nat.zero_le _)
  | internal height summary childSummaries childTrees ih =>
    intro hother t h
    rw [append, h.isEmpty, if_neg (by simp)]
    split
    · cases hother with
      | internal _ _ _ _ _ hchildren =>
        exact appendAll_spec (fun tree htree _ ht => ih tree htree (hchildren tree htree) ht) h
    · rename_i hheight
      exact pushTree_spec hlawful h hother (not_lt.mp hheight)

/-! ### Trees that may be empty -/

omit hlawful [Item T S] in
theorem toList_new : (new : SumTree T S).toList = [] := rfl

omit hlawful in
theorem Valid.isEmpty_iff (h : t.Valid P) : t.isEmpty = true ↔ t.toList = [] := by
  rcases h with rfl | h
  · exact ⟨fun _ => rfl, fun _ => rfl⟩
  · rw [h.isEmpty]
    exact ⟨fun hfalse => absurd hfalse (by simp), fun hnil => absurd hnil h.toList_ne_nil⟩

omit hlawful [Item T S] in
theorem append_new (other : SumTree T S) : append new other = some other := by
  cases other with
  | leaf summary items itemSummaries => rfl
  | internal height summary childSummaries childTrees => rfl

/-- **Appending keeps the invariant and joins the sequences.** -/
theorem append_spec (h : t.Valid P) (hother : other.Valid P) :
    ∃ t', append t other = some t' ∧ t'.Valid P ∧ t'.toList = t.toList ++ other.toList := by
  rcases h with rfl | h
  · exact ⟨other, append_new other, hother, rfl⟩
  · rcases hother with rfl | hother
    · refine ⟨t, ?_, Or.inr h, ?_⟩
      · rw [new, append, h.isEmpty, if_neg (by simp)]
        rfl
      · rw [toList_new, List.append_nil]
    · obtain ⟨t', happend, hvalid, hlist⟩ := append_wellFormed hlawful other hother h
      exact ⟨t', happend, Or.inr hvalid, hlist⟩

end Lawful

end SumTree

end FcGpui
