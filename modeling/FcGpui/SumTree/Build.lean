import FcGpui.SumTree.WellFormed

/-!
# Building a tree, and its ends

* `fromIter_spec`, `fromParIter_spec`: both ways to build a tree cut the items, and then the
  nodes of each level, into pieces of `2 * treeBase`.  The sequential one adds the children
  to a parent one by one (`parentNodes_eq`).
* `updateLast_spec`, `first_spec`, `last_spec`: the ends of the sequence.
-/

namespace FcGpui

/-- A list on which a function is defined throughout. -/
theorem mapM_some_of_forall {α β : Type} {f : α → Option β} {g : α → β} {l : List α}
    (h : ∀ a ∈ l, f a = some (g a)) : l.mapM f = some (l.map g) := by
  induction l with
  | nil => rfl
  | cons a l ih =>
    rw [List.mapM_cons, h a List.mem_cons_self, ih fun b hb => h b (List.mem_cons_of_mem _ hb)]
    rfl

namespace SumTree

variable {T S : Type} [Summary S] [Item T S] {P : Prop}

open Summary

/-! ### Levels -/

/-- The leaf of some items. -/
def leafNode (items : List T) : SumTree T S :=
  leaf (foldSum (items.map Item.summary)) items (items.map Item.summary)

/-- The parent of some nodes, as `from_iter` sums it up. -/
def parentNode (height : Nat) (nodes : List (SumTree T S)) : SumTree T S :=
  internal height (sum (nodes.map summary)) (nodes.map summary) nodes

/-- The parent of some nodes, as `from_par_iter` sums it up. -/
def parParentNode (height : Nat) (nodes : List (SumTree T S)) : SumTree T S :=
  internal height (foldSum (nodes.map summary)) (nodes.map summary) nodes

theorem leafOf_eq {items : List T} (h : items ≠ []) : leafOf items = some (leafNode items : SumTree T S) := by
  obtain ⟨item, items, rfl⟩ := List.exists_cons_of_ne_nil h
  rfl

omit [Item T S] in
theorem parentOf_eq {height : Nat} {nodes : List (SumTree T S)} (h : nodes ≠ []) :
    parentOf height nodes = some (parParentNode height nodes) := by
  obtain ⟨node, nodes, rfl⟩ := List.exists_cons_of_ne_nil h
  rfl

/-- The parent begun in `parent_nodes`. -/
def currentParent (nodes : List (SumTree T S)) : Option (S × List S × List (SumTree T S)) :=
  if nodes = [] then none else some (sum (nodes.map summary), nodes.map summary, nodes)

omit [Item T S] in
theorem currentParent_getD (nodes : List (SumTree T S)) :
    (currentParent nodes).getD (zero, [], []) = (sum (nodes.map summary), nodes.map summary, nodes) := by
  unfold currentParent
  split
  · rename_i h
    rw [h]
    rfl
  · rfl

omit [Item T S] in
theorem parentNodes_currentParent (height : Nat) (nodes current : List (SumTree T S)) :
    parentNodes height (currentParent current) nodes
      = (chunksFrom (2 * treeBase) current nodes).map (parentNode height) := by
  induction nodes generalizing current with
  | nil =>
    rw [parentNodes, chunksFrom, currentParent]
    split
    · rfl
    · rfl
  | cons child nodes ih =>
    have hsum : add (sum (current.map summary)) child.summary = sum ((current ++ [child]).map summary) := by
      rw [List.map_append, List.map_singleton, sum_concat]
    have hsummaries : current.map summary ++ [child.summary] = (current ++ [child]).map summary := by
      rw [List.map_append, List.map_singleton]
    rw [parentNodes, currentParent_getD, chunksFrom]
    simp only [hsum, hsummaries]
    split
    · rw [List.map_cons, ← ih []]
      rfl
    · rw [← ih (current ++ [child]), currentParent, if_neg (by simp)]

omit [Item T S] in
theorem parentNodes_eq (height : Nat) (nodes : List (SumTree T S)) :
    parentNodes height none nodes = (chunks (2 * treeBase) nodes).map (parentNode height) :=
  parentNodes_currentParent height nodes []

omit [Item T S] in
theorem mapM_parentOf (height : Nat) (nodes : List (SumTree T S)) :
    (chunks (2 * treeBase) nodes).mapM (parentOf height)
      = some ((chunks (2 * treeBase) nodes).map (parParentNode height)) :=
  mapM_some_of_forall fun _ hc => parentOf_eq (ne_nil_of_mem_chunks hc)

/-- A way to sum up a parent. -/
def Parent (P : Prop) (parent : Nat → List (SumTree T S) → SumTree T S) : Prop :=
  ∀ height nodes, ∃ s, parent height nodes = internal height s (nodes.map summary) nodes ∧
    (P → s = sum (nodes.map summary))

/-- Nodes of one height that hold a sequence. -/
structure Level (P : Prop) (height : Nat) (items : List T) (nodes : List (SumTree T S)) : Prop where
  wellFormed : ∀ t ∈ nodes, t.WellFormed P
  height_eq : ∀ t ∈ nodes, t.height = height
  items_eq : toListAll nodes = items

section Lawful

variable (hlawful : P → LawfulSummary S)

omit [Item T S] in
theorem parent_parentNode : Parent P (parentNode : Nat → List (SumTree T S) → SumTree T S) :=
  fun _ _ => ⟨_, rfl, fun _ => rfl⟩

include hlawful

omit [Item T S] in
theorem parent_parParentNode : Parent P (parParentNode : Nat → List (SumTree T S) → SumTree T S) := by
  intro height nodes
  refine ⟨_, rfl, fun hP => ?_⟩
  have := hlawful hP
  exact foldSum_eq _

theorem level_leaves (items : List T) :
    Level P 0 items ((chunks (2 * treeBase) items).map (leafNode : List T → SumTree T S)) := by
  refine ⟨fun t ht => ?_, fun t ht => ?_, ?_⟩
  · obtain ⟨c, hc, rfl⟩ := List.mem_map.mp ht
    have hpos : 0 < 2 * treeBase := by
      have := treeBase_pos
      omega
    refine .leaf (ne_nil_of_mem_chunks hc) (length_le_of_mem_chunks hpos hc) rfl fun hP => ?_
    have := hlawful hP
    exact foldSum_eq _
  · obtain ⟨c, hc, rfl⟩ := List.mem_map.mp ht
    rfl
  · rw [toListAll_eq, List.flatMap_map]
    exact List.flatMap_id'.trans (flatten_chunks _ items)

theorem Level.parents {parent : Nat → List (SumTree T S) → SumTree T S} (hparent : Parent P parent)
    {height : Nat} {items : List T} {nodes : List (SumTree T S)} (h : Level P height items nodes) :
    Level P (height + 1) items ((chunks (2 * treeBase) nodes).map (parent (height + 1))) := by
  have hmem : ∀ c ∈ chunks (2 * treeBase) nodes, ∀ t ∈ c, t ∈ nodes := by
    intro c hc t ht
    rw [← flatten_chunks (2 * treeBase) nodes]
    exact List.mem_flatten.mpr ⟨c, hc, ht⟩
  refine ⟨fun t ht => ?_, fun t ht => ?_, ?_⟩
  · obtain ⟨c, hc, rfl⟩ := List.mem_map.mp ht
    have hpos : 0 < 2 * treeBase := by
      have := treeBase_pos
      omega
    have hwf : ∀ t ∈ c, t.WellFormed P := fun t ht => h.wellFormed t (hmem c hc t ht)
    obtain ⟨s, heq, hs⟩ := hparent (height + 1) c
    rw [heq]
    refine .internal (ne_nil_of_mem_chunks hc) (length_le_of_mem_chunks hpos hc) (fun t ht => ?_) rfl
      (fun hP => ?_) hwf
    · rw [h.height_eq t (hmem c hc t ht)]
    · have := hlawful hP
      rw [hs hP, sum_summaries hwf hP]
  · obtain ⟨c, hc, rfl⟩ := List.mem_map.mp ht
    obtain ⟨s, heq, -⟩ := hparent (height + 1) c
    rw [heq]
    rfl
  · have hlist : ∀ c : List (SumTree T S), (parent (height + 1) c).toList = toListAll c := by
      intro c
      obtain ⟨s, heq, -⟩ := hparent (height + 1) c
      rw [heq, toList]
    have hall : nodes.flatMap toList
        = (chunks (2 * treeBase) nodes).flatMap fun c => c.flatMap toList := by
      conv_lhs => rw [← flatten_chunks (2 * treeBase) nodes, ← List.flatMap_id', List.flatMap_assoc]
    rw [toListAll_eq, List.flatMap_map, ← h.items_eq, toListAll_eq, hall]
    simp only [hlist, toListAll_eq]

/-- **Levels are built up to the root.** -/
theorem buildLevels_spec {level : Nat → List (SumTree T S) → Option (List (SumTree T S))}
    {parent : Nat → List (SumTree T S) → SumTree T S} (hparent : Parent P parent)
    (hlevel : ∀ height nodes, level height nodes
      = some ((chunks (2 * treeBase) nodes).map (parent height))) :
    ∀ (fuel height : Nat) {items : List T} {nodes : List (SumTree T S)}, Level P height items nodes →
      nodes.length < fuel → ∃ nodes', buildLevels level fuel height nodes = some nodes' ∧
        nodes'.length ≤ 1 ∧ (∀ t ∈ nodes', t.WellFormed P) ∧ toListAll nodes' = items := by
  intro fuel
  induction fuel with
  | zero =>
    intro height items nodes _ hfuel
    omega
  | succ fuel ih =>
    intro height items nodes h hfuel
    rw [buildLevels]
    split
    · rename_i hmore
      have hsmaller : (chunks (2 * treeBase) nodes).length < nodes.length := by
        apply length_chunks_lt ?_ hmore
        have := treeBase_pos
        omega
      rw [hlevel, Option.bind_some]
      apply ih (height + 1) (h.parents hlawful hparent)
      rw [List.length_map]
      omega
    · rename_i hone
      exact ⟨nodes, rfl, by omega, h.wellFormed, h.items_eq⟩

omit hlawful in
theorem root_spec {items : List T} {nodes : List (SumTree T S)} (hone : nodes.length ≤ 1)
    (hnodes : ∀ t ∈ nodes, t.WellFormed P) (hitems : toListAll nodes = items) :
    (root nodes).Valid P ∧ (root nodes).toList = items := by
  match nodes, hone with
  | [], _ => exact ⟨Or.inl rfl, hitems⟩
  | [t], _ =>
    refine ⟨Or.inr (hnodes t List.mem_cons_self), ?_⟩
    rw [← hitems, toListAll_singleton]
    rfl

/-! ### Both ways -/

omit hlawful in
theorem mapM_leafOf (items : List T) : (chunks (2 * treeBase) items).mapM leafOf
    = some ((chunks (2 * treeBase) items).map (leafNode : List T → SumTree T S)) :=
  mapM_some_of_forall fun _ hc => leafOf_eq (ne_nil_of_mem_chunks hc)

/-- **A tree that is built holds the items.** -/
theorem fromIter_spec (items : List T) :
    ∃ t : SumTree T S, fromIter items = some t ∧ t.Valid P ∧ t.toList = items := by
  obtain ⟨nodes, hbuild, hone, hnodes, hitems⟩ := buildLevels_spec hlawful parent_parentNode
    (fun height nodes => congrArg some (parentNodes_eq height nodes)) _ 0
    (level_leaves hlawful items) (Nat.lt_succ_self _)
  obtain ⟨hvalid, hlist⟩ := root_spec hone hnodes hitems
  refine ⟨root nodes, ?_, hvalid, hlist⟩
  rw [fromIter, mapM_leafOf]
  simp only [Option.bind_eq_bind, Option.bind_some, hbuild]

theorem fromParIter_spec (items : List T) :
    ∃ t : SumTree T S, fromParIter items = some t ∧ t.Valid P ∧ t.toList = items := by
  obtain ⟨nodes, hbuild, hone, hnodes, hitems⟩ := buildLevels_spec hlawful
    (parent_parParentNode hlawful) mapM_parentOf _ 0 (level_leaves hlawful items) (Nat.lt_succ_self _)
  obtain ⟨hvalid, hlist⟩ := root_spec hone hnodes hitems
  refine ⟨root nodes, ?_, hvalid, hlist⟩
  rw [fromParIter, mapM_leafOf]
  simp only [Option.bind_eq_bind, Option.bind_some, hbuild]

theorem push_spec {t : SumTree T S} (h : t.Valid P) (item : T) :
    ∃ t', push t item = some t' ∧ t'.Valid P ∧ t'.toList = t.toList ++ [item] := by
  refine append_spec hlawful h (Or.inr (.leaf (by simp) ?_ rfl fun hP => ?_))
  · have := treeBase_pos
    rw [List.length_singleton]
    omega
  · have := hlawful hP
    rw [itemSum, List.map_singleton, sum_singleton]

theorem extend_spec {t : SumTree T S} (h : t.Valid P) (items : List T) :
    ∃ t', extend t items = some t' ∧ t'.Valid P ∧ t'.toList = t.toList ++ items := by
  obtain ⟨other, hbuild, hother, rfl⟩ := fromIter_spec hlawful items
  rw [extend, hbuild, Option.bind_some]
  exact append_spec hlawful h hother

theorem parExtend_spec {t : SumTree T S} (h : t.Valid P) (items : List T) :
    ∃ t', parExtend t items = some t' ∧ t'.Valid P ∧ t'.toList = t.toList ++ items := by
  obtain ⟨other, hbuild, hother, rfl⟩ := fromParIter_spec hlawful items
  rw [parExtend, hbuild, Option.bind_some]
  exact append_spec hlawful h hother

end Lawful

/-! ### The ends of the sequence -/

omit [Summary S] [Item T S] in
theorem rightmostLeafOf_concat (trees : List (SumTree T S)) (tree : SumTree T S) :
    rightmostLeafOf (trees ++ [tree]) = rightmostLeaf tree := by
  induction trees with
  | nil => rw [List.nil_append, rightmostLeafOf]
  | cons t trees ih =>
    obtain ⟨t', trees', heq⟩ : ∃ t' trees', trees ++ [tree] = t' :: trees' :=
      List.exists_cons_of_ne_nil (by simp)
    rw [List.cons_append, heq, rightmostLeafOf, ← heq, ih]
    exact fun h => absurd h (by simp)

theorem updateLastChild_concat (f : T → T) (trees : List (SumTree T S)) (tree : SumTree T S) :
    updateLastChild f (trees ++ [tree])
      = (updateLastChild f [tree]).map fun r => (trees ++ r.1, r.2) := by
  induction trees with
  | nil => exact Option.map_id'.symm
  | cons t trees ih =>
    obtain ⟨t', trees', heq⟩ : ∃ t' trees', trees ++ [tree] = t' :: trees' :=
      List.exists_cons_of_ne_nil (by simp)
    rw [List.cons_append, heq, updateLastChild.eq_3 f t (t' :: trees') (by simp), ← heq, ih]
    cases updateLastChild f [tree] with
    | none => rfl
    | some r => rfl

variable {t : SumTree T S}

theorem WellFormed.first (h : t.WellFormed P) : t.first = some t.toList.head? := by
  unfold SumTree.first
  induction h with
  | leaf => rfl
  | @internal height summary childSummaries childTrees hne _ _ _ _ hchildren ih =>
    obtain ⟨tree, trees, rfl⟩ := List.exists_cons_of_ne_nil hne
    rw [leftmostLeaf, leftmostLeafOf, ih tree List.mem_cons_self, toList, toListAll]
    have htree := (hchildren tree List.mem_cons_self).toList_ne_nil
    obtain ⟨item, items, hitems⟩ := List.exists_cons_of_ne_nil htree
    rw [hitems]
    rfl

theorem WellFormed.last (h : t.WellFormed P) : t.last = some t.toList.getLast? := by
  unfold SumTree.last
  induction h with
  | leaf => rfl
  | @internal height summary childSummaries childTrees hne _ _ _ _ hchildren ih =>
    obtain ⟨init, last, rfl⟩ := (List.eq_nil_or_concat' _).resolve_left hne
    have hmem : last ∈ init ++ [last] := by simp
    rw [rightmostLeaf, rightmostLeafOf_concat, ih last hmem, toList, toListAll_append,
      toListAll_singleton, List.getLast?_append_of_ne_nil _ (hchildren last hmem).toList_ne_nil]

theorem first_spec (h : t.Valid P) : t.first = some t.toList.head? := by
  rcases h with rfl | h
  · rfl
  · exact h.first

theorem last_spec (h : t.Valid P) : t.last = some t.toList.getLast? := by
  rcases h with rfl | h
  · rfl
  · exact h.last

section Lawful

variable (hlawful : P → LawfulSummary S)

include hlawful

theorem updateLastRecursive_spec (f : T → T) {t : SumTree T S} (h : t.WellFormed P) :
    ∃ t', updateLastRecursive f t = some (t', some t'.summary) ∧ t'.WellFormed P ∧
      t'.height = t.height ∧ ∃ init item, t.toList = init ++ [item] ∧ t'.toList = init ++ [f item] := by
  induction h with
  | @leaf summary items itemSummaries hne hlength hsummaries hsummary =>
    obtain ⟨init, item, rfl⟩ := (List.eq_nil_or_concat' _).resolve_left hne
    subst hsummaries
    rw [updateLastRecursive]
    simp only [List.map_append, List.map_singleton, List.getLast?_concat, List.dropLast_concat]
    refine ⟨_, rfl, .leaf (by simp) ?_ ?_ ?_, rfl, init, item, rfl, rfl⟩
    · simpa using hlength
    · rw [List.map_append, List.map_singleton]
    · intro _
      rw [itemSum, List.map_append, List.map_singleton]
  | @internal height summary childSummaries childTrees hne hlength hheights hsummaries hsummary hchildren
      ih =>
    obtain ⟨init, last, rfl⟩ := (List.eq_nil_or_concat' _).resolve_left hne
    have hmem : last ∈ init ++ [last] := by simp
    obtain ⟨last', hupdate, hlast', hheight', items, item, hitems, hitems'⟩ := ih last hmem
    subst hsummaries
    rw [updateLastRecursive, updateLastChild_concat, updateLastChild, hupdate]
    simp only [Option.bind_eq_bind, Option.bind_some, Option.map_some, List.map_append,
      List.map_singleton, setLast_concat]
    refine ⟨_, rfl, ?_, rfl, toListAll init ++ items, item, ?_, ?_⟩
    · have hsums : init.map SumTree.summary ++ [last'.summary] = (init ++ [last']).map SumTree.summary := by
        rw [List.map_append, List.map_singleton]
      rw [hsums]
      refine .of_children hlawful (by simp) (by simpa using hlength) (fun t ht => ?_) fun t ht => ?_
      · rcases List.mem_append.mp ht with ht | ht
        · exact hheights t (List.mem_append_left _ ht)
        · rw [List.mem_singleton.mp ht, hheight', hheights last hmem]
      · rcases List.mem_append.mp ht with ht | ht
        · exact hchildren t (List.mem_append_left _ ht)
        · rw [List.mem_singleton.mp ht]
          exact hlast'
    · rw [toList, toListAll_append, toListAll_singleton, hitems, List.append_assoc]
    · rw [toList, toListAll_append, toListAll_singleton, hitems', List.append_assoc]

theorem updateLast_spec (f : T → T) {t : SumTree T S} (h : t.Valid P) :
    ∃ t', updateLast f t = some t' ∧ t'.Valid P ∧
      t'.toList = t.toList.dropLast ++ (t.toList.getLast?.map f).toList := by
  rcases h with rfl | h
  · exact ⟨new, rfl, Or.inl rfl, rfl⟩
  · obtain ⟨t', hupdate, ht', -, init, item, hlist, hlist'⟩ := updateLastRecursive_spec hlawful f h
    refine ⟨t', ?_, Or.inr ht', ?_⟩
    · rw [updateLast, hupdate]
      rfl
    · rw [hlist, hlist', List.dropLast_concat, List.getLast?_concat]
      rfl

end Lawful

end SumTree

end FcGpui
