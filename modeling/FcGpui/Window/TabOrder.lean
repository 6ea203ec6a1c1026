import FcGpui.Lib.Cycle
import FcGpui.Window.TabStop

/-!
# The order of tab stops

What a map of tab stops is for: the handles that are registered, in the order of their paths
and of their insertion, and of these the tab stops.

**Main result.**  `replay_holds`: after any operations that insert no focus id twice, the
tree of a map holds the registered handles in that order.
-/

namespace FcGpui

open SumTree

/-! ### What is registered -/

/-- A handle with its groups and its tab index, and the index of its insertion. -/
structure TabEntry where
  handle : FocusHandle
  path : TabStopPath
  index : Nat
deriving DecidableEq, Repr

namespace TabEntry

def node (e : TabEntry) : TabStopNode := ⟨e.path, e.index, e.handle.tabStop⟩

def rank (e : TabEntry) : TabStopPath ×ₗ Nat := toLex (e.path, e.index)

end TabEntry

/-- The groups that are open after an operation. -/
def groupsAfter (path : TabStopPath) : TabStopOperation FocusHandle → TabStopPath
  | .insert _ => path
  | .group tabIndex => path ++ [tabIndex]
  | .groupEnd => path.dropLast

/-- The handles that are inserted in groups, from an index on. -/
def entriesFrom (path : TabStopPath) (index : Nat) : List (TabStopOperation FocusHandle) → List TabEntry
  | [] => []
  | .insert handle :: ops => ⟨handle, path ++ [handle.tabIndex], index⟩ :: entriesFrom path (index + 1) ops
  | op :: ops => entriesFrom (groupsAfter path op) (index + 1) ops

def registered (ops : List (TabStopOperation FocusHandle)) : List TabEntry := entriesFrom [] 0 ops

/-- **The tab stops in order.** -/
def tabOrder (ops : List (TabStopOperation FocusHandle)) : List TabEntry :=
  ((registered ops).filter fun e => e.handle.tabStop).insertionSort fun a b => a.rank ≤ b.rank

variable {path : TabStopPath} {index : Nat} {ops : List (TabStopOperation FocusHandle)} {e : TabEntry}

theorem entriesFrom_append (ops ops' : List (TabStopOperation FocusHandle)) :
    ∀ (path : TabStopPath) (index : Nat), entriesFrom path index (ops ++ ops') = entriesFrom path index ops ++
      entriesFrom (ops.foldl groupsAfter path) (index + ops.length) ops' := by
  induction ops with
  | nil => exact fun _ _ => rfl
  | cons op ops ih =>
    intro path index
    have hindex : index + (op :: ops).length = index + 1 + ops.length := by
      rw [List.length_cons]
      omega
    rw [hindex, List.foldl_cons]
    cases op with
    | insert handle =>
      rw [List.cons_append, entriesFrom, entriesFrom, ih, List.cons_append]
      rfl
    | group tabIndex => exact ih _ _
    | groupEnd => exact ih _ _

theorem operation_of_mem : ∀ {path : TabStopPath} {index : Nat}, e ∈ entriesFrom path index ops →
    ∃ i, e.index = index + i ∧ ops[i]? = some (.insert e.handle) := by
  have hlater : ∀ {index : Nat} {op : TabStopOperation FocusHandle} {ops : List (TabStopOperation FocusHandle)},
      (∃ i, e.index = index + 1 + i ∧ ops[i]? = some (.insert e.handle)) →
        ∃ i, e.index = index + i ∧ (op :: ops)[i]? = some (.insert e.handle) := by
    rintro index op ops ⟨i, hi, hop⟩
    refine ⟨i + 1, by omega, ?_⟩
    rw [List.getElem?_cons_succ, hop]
  induction ops with
  | nil =>
    intro path index he
    cases he
  | cons op ops ih =>
    intro path index he
    cases op with
    | insert handle =>
      rcases List.mem_cons.mp he with rfl | he
      · exact ⟨0, rfl, rfl⟩
      · exact hlater (ih he)
    | group tabIndex => exact hlater (ih he)
    | groupEnd => exact hlater (ih he)

theorem index_lt_of_mem (he : e ∈ registered ops) : e.index < ops.length := by
  obtain ⟨i, hi, hop⟩ := operation_of_mem he
  have := (List.getElem?_eq_some_iff.mp hop).1
  omega

theorem operation_of_registered (he : e ∈ registered ops) : ops[e.index]? = some (.insert e.handle) := by
  obtain ⟨i, hi, hop⟩ := operation_of_mem he
  rw [hi, Nat.zero_add]
  exact hop

theorem entriesFrom_pairwise : ∀ (path : TabStopPath) (index : Nat),
    (entriesFrom path index ops).Pairwise fun a b => a.index < b.index := by
  induction ops with
  | nil => exact fun _ _ => List.Pairwise.nil
  | cons op ops ih =>
    intro path index
    cases op with
    | insert handle =>
      refine List.pairwise_cons.mpr ⟨fun e he => ?_, ih _ _⟩
      obtain ⟨i, hi, -⟩ := operation_of_mem he
      show index < e.index
      omega
    | group tabIndex => exact ih _ _
    | groupEnd => exact ih _ _

/-! ### The order of the tree -/

namespace TabStopNode

def rank (n : TabStopNode) : TabStopPath ×ₗ Nat := toLex (n.path, n.nodeInsertionIndex)

theorem path_cmp_eq_gt {a b : TabStopPath} : a.cmp b = .gt ↔ b < a := by
  rw [TabStopPath.cmp]
  split_ifs with hlt heq
  · exact iff_of_false nofun (not_lt.mpr hlt.le)
  · exact iff_of_false nofun (heq ▸ lt_irrefl b)
  · exact iff_of_true rfl (lt_of_le_of_ne (not_lt.mp hlt) (Ne.symm heq))

theorem path_cmp_eq_eq {a b : TabStopPath} : a.cmp b = .eq ↔ b = a := by
  rw [TabStopPath.cmp]
  split_ifs with hlt heq
  · exact iff_of_false nofun hlt.ne'
  · exact iff_of_true rfl heq.symm
  · exact iff_of_false nofun (Ne.symm heq)

theorem cmp_eq_gt {n : TabStopNode} {path : TabStopPath} {index : Nat} :
    (n.path.cmp path).then (compare n.nodeInsertionIndex index) = .gt ↔ toLex (path, index) < n.rank := by
  rw [Ordering.then_eq_gt, path_cmp_eq_gt, path_cmp_eq_eq, compare_gt_iff_gt, rank, Prod.Lex.toLex_lt_toLex]

variable {root : SumTree TabStopNode TabStopOrderNodeSummary} {n : TabStopNode}

/-- **A tree in order of rank** is parted where a node is sought. -/
theorem parted (hroot : root.toList.Pairwise fun a b => a.rank < b.rank) (hn : n.path ≠ []) :
    Parted root n.target .left fun other => other.rank < n.rank where
  start := by
    have hgt : (n.path.cmp []).then (compare n.nodeInsertionIndex 0) = .gt := by
      rw [cmp_eq_gt, rank, Prod.Lex.toLex_lt_toLex]
      left
      obtain ⟨i, path, hpath⟩ := List.exists_cons_of_ne_nil hn
      rw [hpath]
      exact List.nil_lt_cons i path
    show (n.path.cmp []).then (compare n.nodeInsertionIndex 0) ≠ .lt
    rw [hgt]
    nofun
  passes d other := by
    unfold Cursor.passes
    rw [decide_eq_true_iff]
    have hcmp : n.target.cmp (Dimension.addSummary d (Item.summary other)) = .gt ↔ other.rank < n.rank := cmp_eq_gt
    rw [hcmp]
    simp
  first := hroot.imp fun hlt hother => hlt.trans hother

theorem split_of_sorted {l lower upper : List TabStopNode} (hl : l.Pairwise fun a b => a.rank < b.rank)
    (hn : n ∈ l) (hparts : l = lower ++ upper) (hlower : ∀ a ∈ lower, a.rank < n.rank)
    (hupper : ∀ a ∈ upper, ¬ a.rank < n.rank) : ∃ rest, upper = n :: rest ∧ ∀ a ∈ rest, n.rank < a.rank := by
  subst hparts
  have hmem : n ∈ upper := by
    rcases List.mem_append.mp hn with h | h
    · exact absurd (hlower n h) (lt_irrefl _)
    · exact h
  obtain ⟨-, hpairs, -⟩ := List.pairwise_append.mp hl
  cases upper with
  | nil => exact absurd hmem List.not_mem_nil
  | cons first rest =>
    obtain ⟨hfirst, -⟩ := List.pairwise_cons.mp hpairs
    rcases List.mem_cons.mp hmem with rfl | hrest
    · exact ⟨rest, rfl, hfirst⟩
    · exact absurd (hfirst n hrest) (hupper first List.mem_cons_self)

end TabStopNode

/-! ### What the operations leave -/

namespace TabStopMap

/-- The map after the operations. -/
structure Holds (m : TabStopMap) (ops : List (TabStopOperation FocusHandle)) : Prop where
  history : m.insertionHistory = ops
  path : m.currentPath = ops.foldl groupsAfter []
  tree : m.order.Valid True
  sorted : m.order.toList.Pairwise fun a b => a.rank < b.rank
  nodes : m.order.toList.Perm ((registered ops).map TabEntry.node)
  byId : ∀ e ∈ registered ops, m.byId e.handle.id = some e.node
  paths : ∀ n ∈ m.order.toList, n.path ≠ []

variable {m : TabStopMap}

theorem holds_default : default.Holds [] :=
  ⟨rfl, rfl, .inl rfl, List.Pairwise.nil, List.Perm.nil, nofun, nofun⟩

theorem Holds.insert (h : m.Holds ops) {handle : FocusHandle}
    (hnew : ∀ e ∈ registered ops, e.handle.id ≠ handle.id) :
    ∃ m', m.insert handle = some m' ∧ m'.Holds (ops ++ [.insert handle]) := by
  obtain ⟨entry, hentry⟩ : ∃ entry : TabEntry, entry =
      ⟨handle, ops.foldl groupsAfter [] ++ [handle.tabIndex], ops.length⟩ := ⟨_, rfl⟩
  have hregistered : registered (ops ++ [.insert handle]) = registered ops ++ [entry] := by
    rw [registered, entriesFrom_append, hentry, Nat.zero_add]
    rfl
  obtain ⟨node, hnode⟩ : ∃ node, node = entry.node := ⟨_, rfl⟩
  have hbefore : ∀ other ∈ m.order.toList, other.nodeInsertionIndex < node.nodeInsertionIndex := by
    intro other hother
    obtain ⟨e, he, rfl⟩ := List.mem_map.mp (h.nodes.mem_iff.mp hother)
    rw [hnode, hentry]
    exact index_lt_of_mem he
  have hne : node.path ≠ [] := by
    rw [hnode, hentry]
    exact List.concat_ne_nil _ _
  have hparted : Parted m.order (SeekTarget.ofKey (KeyedItem.key node)) .left fun other => other.rank < node.rank :=
    TabStopNode.parted h.sorted hne
  obtain ⟨tree, lower, upper, hinsert, hvalid, hparts, hlist, hlower, hupper⟩ := insertOrReplace_new h.tree hparted
    fun other hother heq => (hbefore other hother).ne (congrArg TabStopNode.nodeInsertionIndex heq)
  have horder : (⟨m.currentPath ++ [handle.tabIndex],
      (m.insertionHistory ++ [TabStopOperation.insert handle]).length - 1, handle.tabStop⟩ : TabStopNode) = node := by
    rw [hnode, hentry, h.path, h.history, List.length_append, List.length_singleton, Nat.add_sub_cancel]
    rfl
  refine ⟨{ m with
    insertionHistory := m.insertionHistory ++ [.insert handle]
    byId := Function.update m.byId handle.id (some node)
    order := tree }, ?_, ?_, ?_, hvalid, ?_, ?_, fun e he => ?_, fun n hn => ?_⟩
  · simp only [TabStopMap.insert, horder, hinsert, Option.map_some]
  · rw [h.history]
  · rw [List.foldl_append]
    exact h.path
  · have hsorted := h.sorted
    rw [hparts, List.pairwise_append] at hsorted
    obtain ⟨hlowers, huppers, hacross⟩ := hsorted
    show tree.toList.Pairwise _
    rw [hlist, List.pairwise_append, List.pairwise_cons]
    refine ⟨hlowers, ⟨fun other hother => ?_, huppers⟩, fun other hother other' hother' => ?_⟩
    · refine lt_of_le_of_ne (not_lt.mp (hupper other hother)) fun heq => ?_
      have hindex : node.nodeInsertionIndex = other.nodeInsertionIndex :=
        congrArg (fun rank : TabStopPath ×ₗ Nat => (ofLex rank).2) heq
      have hother : other ∈ m.order.toList := by
        rw [hparts]
        exact List.mem_append_right _ hother
      exact (hbefore other hother).ne hindex.symm
    · rcases List.mem_cons.mp hother' with rfl | hother'
      · exact hlower other hother
      · exact hacross other hother other' hother'
  · show tree.toList.Perm _
    rw [hlist, hregistered, List.map_append, List.map_singleton, ← hnode]
    refine List.perm_middle.trans ((List.Perm.cons _ ?_).trans (List.perm_append_singleton _ _).symm)
    rw [← hparts]
    exact h.nodes
  · rw [hregistered] at he
    rcases List.mem_append.mp he with he | he
    · exact (Function.update_of_ne (hnew e he) _ _).trans (h.byId e he)
    · obtain rfl := List.mem_singleton.mp he
      have hid : e.handle.id = handle.id := by rw [hentry]
      rw [hid, ← hnode]
      exact Function.update_self _ _ _
  · have hn : n ∈ tree.toList := hn
    rw [hlist] at hn
    rcases List.mem_append.mp hn with hn | hn
    · exact h.paths n (hparts ▸ List.mem_append_left _ hn)
    · rcases List.mem_cons.mp hn with rfl | hn
      · exact hne
      · exact h.paths n (hparts ▸ List.mem_append_right _ hn)

theorem Holds.beginGroup (h : m.Holds ops) (tabIndex : Int) :
    (m.beginGroup tabIndex).Holds (ops ++ [.group tabIndex]) := by
  have hregistered : registered (ops ++ [.group tabIndex]) = registered ops := by
    rw [registered, entriesFrom_append]
    exact List.append_nil _
  refine ⟨?_, ?_, h.tree, h.sorted, ?_, ?_, h.paths⟩
  · rw [TabStopMap.beginGroup, h.history]
  · rw [TabStopMap.beginGroup, h.path, List.foldl_append]
    rfl
  · rw [hregistered]
    exact h.nodes
  · rw [hregistered]
    exact h.byId

theorem Holds.endGroup (h : m.Holds ops) : m.endGroup.Holds (ops ++ [.groupEnd]) := by
  have hregistered : registered (ops ++ [.groupEnd]) = registered ops := by
    rw [registered, entriesFrom_append]
    exact List.append_nil _
  refine ⟨?_, ?_, h.tree, h.sorted, ?_, ?_, h.paths⟩
  · rw [TabStopMap.endGroup, h.history]
  · rw [TabStopMap.endGroup, h.path, List.foldl_append]
    rfl
  · rw [hregistered]
    exact h.nodes
  · rw [hregistered]
    exact h.byId

/-- **Operations one after another**, that insert no focus id twice. -/
theorem Holds.replay (ops' : List (TabStopOperation FocusHandle)) : ∀ {m : TabStopMap}
    {ops : List (TabStopOperation FocusHandle)}, m.Holds ops →
      ((registered (ops ++ ops')).map fun e => e.handle.id).Nodup →
      ∃ m', m.replay ops' = some m' ∧ m'.Holds (ops ++ ops') := by
  induction ops' with
  | nil =>
    intro m ops h _
    rw [List.append_nil]
    exact ⟨m, rfl, h⟩
  | cons op ops' ih =>
    intro m ops h hids
    have hone : ∃ m', m.replayOne op = some m' ∧ m'.Holds (ops ++ [op]) := by
      cases op with
      | insert handle =>
        refine h.insert fun e he heq => ?_
        rw [registered, entriesFrom_append, List.map_append, List.nodup_append] at hids
        exact hids.2.2 _ (List.mem_map_of_mem he) _ (List.mem_map_of_mem List.mem_cons_self) heq
      | group tabIndex => exact ⟨_, rfl, h.beginGroup tabIndex⟩
      | groupEnd => exact ⟨_, rfl, h.endGroup⟩
    obtain ⟨m₁, hstep, h₁⟩ := hone
    have hlist : ops ++ op :: ops' = ops ++ [op] ++ ops' := List.append_cons ops op ops'
    rw [hlist] at hids ⊢
    obtain ⟨m', hreplay, h'⟩ := ih h₁ hids
    refine ⟨m', ?_, h'⟩
    rw [TabStopMap.replay, List.foldlM_cons, hstep]
    exact hreplay

end TabStopMap

/-- **The map after any operations.** -/
theorem replay_holds (hids : ((registered ops).map fun e => e.handle.id).Nodup) :
    ∃ m, TabStopMap.default.replay ops = some m ∧ m.Holds ops :=
  TabStopMap.holds_default.replay ops hids

/-! ### The tab stops in order -/

theorem mem_tabOrder : e ∈ tabOrder ops ↔ e ∈ registered ops ∧ e.handle.tabStop = true := by
  rw [tabOrder, List.mem_insertionSort, List.mem_filter]

/-- **No two tab stops have one rank.** -/
theorem tabOrder_pairwise : (tabOrder ops).Pairwise fun a b => a.rank < b.rank := by
  have hperm : (tabOrder ops).Perm ((registered ops).filter fun e => e.handle.tabStop) :=
    List.perm_insertionSort _ _
  have hindices : (tabOrder ops).Pairwise fun a b => a.index ≠ b.index := by
    have hregistered : (registered ops).Pairwise fun a b => a.index < b.index := entriesFrom_pairwise [] 0
    have hfiltered := hregistered.filter fun e => e.handle.tabStop
    exact (hperm.pairwise_iff fun {a b} hab => hab.symm).mpr (hfiltered.imp fun hlt => hlt.ne)
  have hsorted : (tabOrder ops).Pairwise fun a b => a.rank ≤ b.rank := List.pairwise_insertionSort _ _
  refine (hsorted.and hindices).imp fun {a b} hab => lt_of_le_of_ne hab.1 fun heq => hab.2 ?_
  exact congrArg (fun rank : TabStopPath ×ₗ Nat => (ofLex rank).2) heq

/-- **The tab stops of the tree.** -/
theorem TabStopMap.Holds.stops {m : TabStopMap} (h : m.Holds ops) :
    m.order.toList.filter TabStopNode.tabStop = (tabOrder ops).map TabEntry.node := by
  have hanti : ∀ a b : TabStopNode, a.rank < b.rank → b.rank < a.rank → a = b :=
    fun a b hab hba => absurd (hab.trans hba) (lt_irrefl _)
  refine List.Perm.eq_of_pairwise (fun a b _ _ => hanti a b) (h.sorted.filter _) ?_ ?_
  · exact List.pairwise_map.mpr tabOrder_pairwise
  · refine (h.nodes.filter _).trans ?_
    rw [List.filter_map]
    exact ((List.perm_insertionSort _ _).map _).symm

end FcGpui
