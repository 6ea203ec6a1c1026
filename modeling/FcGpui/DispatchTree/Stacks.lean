import FcGpui.DispatchTree.Tree

/-!
# The stacks of the dispatch tree

`node_stack` is the path from a root to the active node, and the other two stacks
are read off the nodes on it (`Mirrors`).  A parent comes before its children, so
every node has a path, and one path only.

A node is given a key context and a view once: setting one again would leave the
first on its stack (`SetsOnce`).  Under this condition every call keeps the stacks
in step, those of `reuse_subtree` included.

**Main result.**  `stacks_mirror_path`: after every run the stacks mirror the path
of the active node, and moving to any node puts its dispatch path on the stack.
-/

namespace FcGpui

namespace DispatchTree

variable {L : Type}

/-- The path from a root down to a node, or to no node. -/
inductive Path (nodes : List (DispatchNode L)) : Option DispatchNodeId → List DispatchNodeId → Prop
  | root : Path nodes none []
  | node {nodeId : DispatchNodeId} {node : DispatchNode L} {path : List DispatchNodeId} :
      nodes[nodeId]? = some node → Path nodes node.parent path →
      Path nodes (some nodeId) (path ++ [nodeId])

/-- What the nodes on a stack have, in order. -/
def collect {α : Type} (field : DispatchNode L → Option α) (nodes : List (DispatchNode L))
    (stack : List DispatchNodeId) : List α :=
  stack.filterMap fun nodeId => (nodes[nodeId]?).bind field

/-- Every parent comes before its children. -/
def ParentsFirst (nodes : List (DispatchNode L)) : Prop :=
  ∀ (nodeId : DispatchNodeId) (node : DispatchNode L) (parent : DispatchNodeId),
    nodes[nodeId]? = some node → node.parent = some parent → parent < nodeId

/-- The stacks mirror the path of the active node. -/
structure Mirrors (tree : DispatchTree L) : Prop where
  parentsFirst : ParentsFirst tree.nodes
  path : Path tree.nodes tree.activeNodeId tree.nodeStack
  contexts : tree.contextStack = collect DispatchNode.context tree.nodes tree.nodeStack
  views : tree.viewStack = collect DispatchNode.viewId tree.nodes tree.nodeStack

/-! ### Paths -/

variable {nodes : List (DispatchNode L)} {path : List DispatchNodeId}

variable {target : Option DispatchNodeId}

theorem Path.getLast? (h : Path nodes target path) : path.getLast? = target := by
  cases h with
  | root => rfl
  | node _ _ => exact List.getLast?_concat

theorem Path.lt (hf : ParentsFirst nodes)
    (h : Path nodes target path) : ∀ nodeId ∈ target, ∀ ancestor ∈ path, ancestor ≤ nodeId := by
  induction h with
  | root => intro nodeId h; cases h
  | @node nodeId node path hnode hpath ih =>
    intro _ h ancestor hmem
    cases h
    rcases List.mem_append.mp hmem with hmem | hmem
    · cases hp : node.parent with
      | none =>
        rw [hp] at hpath
        cases hpath
        cases hmem
      | some parent =>
        exact (ih parent hp ancestor hmem).trans (hf nodeId node parent hnode hp).le
    · exact (List.mem_singleton.mp hmem).le

theorem Path.lt_of_node (hf : ParentsFirst nodes) {nodeId : DispatchNodeId} {node : DispatchNode L}
    (hnode : nodes[nodeId]? = some node) (h : Path nodes node.parent path) :
    ∀ ancestor ∈ path, ancestor < nodeId := by
  intro ancestor hmem
  cases hp : node.parent with
  | none =>
    rw [hp] at h
    cases h
    cases hmem
  | some parent =>
    rw [hp] at h
    exact (h.lt hf parent rfl ancestor hmem).trans_lt (hf nodeId node parent hnode hp)

theorem Path.lt_length (h : Path nodes target path) : ∀ nodeId ∈ path, nodeId < nodes.length := by
  induction h with
  | root => intro nodeId h; cases h
  | node hnode _ ih =>
    intro nodeId hmem
    rcases List.mem_append.mp hmem with hmem | hmem
    · exact ih nodeId hmem
    · rw [List.mem_singleton.mp hmem]
      exact (List.getElem?_eq_some_iff.mp hnode).1

theorem Path.congr {nodes' : List (DispatchNode L)}
    (h : Path nodes target path) (hparents : ∀ nodeId ∈ path, (nodes'[nodeId]?).map DispatchNode.parent =
    (nodes[nodeId]?).map DispatchNode.parent) : Path nodes' target path := by
  induction h with
  | root => exact .root
  | @node nodeId node path hnode _ ih =>
    have hself := hparents nodeId (List.mem_append_right _ List.mem_cons_self)
    rw [hnode, Option.map_some] at hself
    obtain ⟨node', hnode', hparent⟩ := Option.map_eq_some_iff.mp hself
    refine .node hnode' ?_
    rw [hparent]
    exact ih fun ancestor hmem => hparents ancestor (List.mem_append_left _ hmem)

theorem exists_path (hf : ParentsFirst nodes) :
    ∀ nodeId < nodes.length, ∃ path, Path nodes (some nodeId) path := by
  intro nodeId
  induction nodeId using Nat.strongRecOn with
  | ind nodeId ih =>
    intro hlt
    have hnode := List.getElem?_eq_getElem hlt
    cases hp : nodes[nodeId].parent with
    | none =>
      refine ⟨[] ++ [nodeId], .node hnode ?_⟩
      rw [hp]
      exact .root
    | some parent =>
      have hparent := hf nodeId _ parent hnode hp
      obtain ⟨path, hpath⟩ := ih parent hparent (hparent.trans hlt)
      refine ⟨path ++ [nodeId], .node hnode ?_⟩
      rw [hp]
      exact hpath

theorem Path.length_le (hf : ParentsFirst nodes) (h : Path nodes target path) : path.length ≤ nodes.length := by
  have haux : ∀ nodeId ∈ target, path.length ≤ nodeId + 1 := by
    induction h with
    | root => intro nodeId h; cases h
    | @node nodeId node path hnode hpath ih =>
      intro _ h
      cases h
      rw [List.length_append, List.length_singleton]
      cases hp : node.parent with
      | none =>
        rw [hp] at hpath
        cases hpath
        exact Nat.succ_le_succ (Nat.zero_le _)
      | some parent =>
        have hlt := hf nodeId node parent hnode hp
        exact Nat.succ_le_succ ((ih parent hp).trans hlt)
  cases h with
  | root => exact Nat.zero_le _
  | node hnode _ => exact (haux _ rfl).trans (List.getElem?_eq_some_iff.mp hnode).1

/-- The loop of `dispatch_path` finds the path. -/
theorem pathUp_eq
    (h : Path nodes target path) :
    ∀ fuel, path.length ≤ fuel → pathUp nodes fuel target = some path.reverse := by
  induction h with
  | root => intro fuel _; cases fuel <;> rfl
  | @node nodeId node path hnode _ ih =>
    intro fuel hfuel
    rw [List.length_append, List.length_singleton] at hfuel
    cases fuel with
    | zero => exact absurd hfuel (Nat.not_succ_le_zero _)
    | succ fuel =>
      rw [pathUp, hnode, Option.bind_some, ih fuel (Nat.le_of_succ_le_succ hfuel),
        List.reverse_append]
      rfl

theorem dispatchPath_eq {tree : DispatchTree L} (hf : ParentsFirst tree.nodes) {target : DispatchNodeId}
    (h : Path tree.nodes (some target) path) : tree.dispatchPath target = some path := by
  rw [dispatchPath, pathUp_eq h _ ((h.length_le hf).trans (Nat.le_succ _)), Option.map_some,
    List.reverse_reverse]

/-! ### What is read off the stack -/

section Collect

variable {α : Type} (field : DispatchNode L → Option α)

theorem collect_append (nodes : List (DispatchNode L)) (stack stack' : List DispatchNodeId) :
    collect field nodes (stack ++ stack') =
      collect field nodes stack ++ collect field nodes stack' :=
  List.filterMap_append

theorem collect_singleton {nodes : List (DispatchNode L)} {nodeId : DispatchNodeId}
    {node : DispatchNode L} (h : nodes[nodeId]? = some node) :
    collect field nodes [nodeId] = (field node).toList := by
  rw [collect, List.filterMap_cons, h, Option.bind_some]
  cases field node with
  | none => rfl
  | some a => rfl

theorem collect_congr {nodes nodes' : List (DispatchNode L)} {stack : List DispatchNodeId}
    (h : ∀ nodeId ∈ stack, (nodes'[nodeId]?).bind field = (nodes[nodeId]?).bind field) :
    collect field nodes' stack = collect field nodes stack :=
  List.filterMap_congr h

end Collect

/-! ### Adding and popping a node -/

variable {tree' : DispatchTree L} {nodeId : DispatchNodeId} {focus : Option FocusId}

theorem Mirrors.add {tree : DispatchTree L} (h : Mirrors tree) (node : DispatchNode L)
    (hparent : node.parent = tree.activeNodeId) (hnodes : tree'.nodes = tree.nodes ++ [node])
    (hstack : tree'.nodeStack = tree.nodeStack ++ [tree.nodes.length])
    (hcontexts : tree'.contextStack = tree.contextStack ++ node.context.toList)
    (hviews : tree'.viewStack = tree.viewStack ++ node.viewId.toList) : Mirrors tree' := by
  have hself : tree'.nodes[tree.nodes.length]? = some node := by
    rw [hnodes, List.getElem?_concat_length]
  have hold : ∀ nodeId ∈ tree.nodeStack, tree'.nodes[nodeId]? = tree.nodes[nodeId]? := by
    intro nodeId hmem
    rw [hnodes, List.getElem?_append_left (h.path.lt_length nodeId hmem)]
  have hpath : Path tree'.nodes tree.activeNodeId tree.nodeStack :=
    h.path.congr fun nodeId hmem => by rw [hold nodeId hmem]
  refine ⟨fun nodeId found parent hfound hp => ?_, ?_, ?_, ?_⟩
  · rw [hnodes] at hfound
    by_cases hlt : nodeId < tree.nodes.length
    · rw [List.getElem?_append_left hlt] at hfound
      exact h.parentsFirst nodeId found parent hfound hp
    · have hlen := (List.getElem?_eq_some_iff.mp hfound).1
      rw [List.length_append, List.length_singleton] at hlen
      obtain rfl := Nat.le_antisymm (Nat.lt_succ_iff.mp hlen) (Nat.not_lt.mp hlt)
      rw [List.getElem?_concat_length] at hfound
      obtain rfl := Option.some.inj hfound
      rw [hparent] at hp
      exact h.path.lt_length parent (List.mem_of_getLast? (h.path.getLast?.trans hp))
  · rw [activeNodeId, hstack, List.getLast?_concat]
    exact .node hself (hparent ▸ hpath)
  · rw [hcontexts, hstack, collect_append, collect_singleton _ hself, h.contexts,
      collect_congr _ fun nodeId hmem => by rw [hold nodeId hmem]]
  · rw [hviews, hstack, collect_append, collect_singleton _ hself, h.views,
      collect_congr _ fun nodeId hmem => by rw [hold nodeId hmem]]

theorem Mirrors.pushNode {tree : DispatchTree L} (h : Mirrors tree) : Mirrors tree.pushNode.2 :=
  h.add { parent := tree.activeNodeId } rfl rfl rfl (List.append_nil _).symm
    (List.append_nil _).symm

theorem Mirrors.active {tree : DispatchTree L} (h : Mirrors tree) (hne : tree.nodeStack ≠ []) :
    ∃ path nodeId node, tree.nodeStack = path ++ [nodeId] ∧ tree.activeNodeId = some nodeId ∧
      tree.nodes[nodeId]? = some node ∧ Path tree.nodes node.parent path := by
  have hpath := h.path
  generalize htarget : tree.activeNodeId = target at hpath
  generalize hstack : tree.nodeStack = stack at hpath
  cases hpath with
  | root => exact absurd hstack hne
  | node hnode hpath => exact ⟨_, _, _, rfl, rfl, hnode, hpath⟩

theorem dropLast_append_toList {α : Type} (l : List α) (a : Option α) :
    (if a.isSome then (l ++ a.toList).dropLast else l ++ a.toList) = l := by
  cases a with
  | none => exact List.append_nil l
  | some a => exact List.dropLast_concat

/-- **The active node is popped with what it put on the stacks.** -/
theorem Mirrors.popNode {tree : DispatchTree L} (h : Mirrors tree) (hne : tree.nodeStack ≠ []) :
    ∃ tree', tree.popNode = some tree' ∧ Mirrors tree' ∧ tree'.nodes = tree.nodes ∧
      tree'.nodeStack = tree.nodeStack.dropLast := by
  obtain ⟨path, nodeId, node, hstack, hactive, hnode, hpath⟩ := h.active hne
  have hdrop : tree.nodeStack.dropLast = path := by rw [hstack, List.dropLast_concat]
  have hcontexts : tree.contextStack =
      collect DispatchNode.context tree.nodes path ++ node.context.toList := by
    rw [h.contexts, hstack, collect_append, collect_singleton _ hnode]
  have hviews : tree.viewStack =
      collect DispatchNode.viewId tree.nodes path ++ node.viewId.toList := by
    rw [h.views, hstack, collect_append, collect_singleton _ hnode]
  refine ⟨{ tree with
      contextStack := if node.context.isSome then tree.contextStack.dropLast else tree.contextStack
      viewStack := if node.viewId.isSome then tree.viewStack.dropLast else tree.viewStack
      nodeStack := tree.nodeStack.dropLast },
    ?_, ⟨h.parentsFirst, ?_, ?_, ?_⟩, rfl, rfl⟩
  · simp only [DispatchTree.popNode, hactive, Option.bind_eq_bind, Option.bind_some, hnode]
  · dsimp only [activeNodeId]
    rw [hdrop, hpath.getLast?]
    exact hpath
  · dsimp only
    rw [hdrop, hcontexts, dropLast_append_toList]
  · dsimp only
    rw [hdrop, hviews, dropLast_append_toList]

/-! ### Setting something on the active node -/

theorem updateActiveNode_eq_some {tree : DispatchTree L} {f : DispatchNode L → DispatchNode L} :
    tree.updateActiveNode f = some tree' ↔ ∃ nodeId node, tree.activeNodeId = some nodeId ∧
      tree.nodes[nodeId]? = some node ∧
      { tree with nodes := tree.nodes.set nodeId (f node) } = tree' := by
  simp [updateActiveNode, Option.bind_eq_some_iff]

theorem Mirrors.update {tree : DispatchTree L}
    {node : DispatchNode L} (h : Mirrors tree) (node' : DispatchNode L)
    (contexts : List KeyContext) (views : List EntityId) (hactive : tree.activeNodeId = some nodeId)
    (hnode : tree.nodes[nodeId]? = some node) (hparent : node'.parent = node.parent)
    (hcontext : node'.context.toList = node.context.toList ++ contexts)
    (hview : node'.viewId.toList = node.viewId.toList ++ views)
    (hnodes : tree'.nodes = tree.nodes.set nodeId node') (hstack : tree'.nodeStack = tree.nodeStack)
    (hcontexts : tree'.contextStack = tree.contextStack ++ contexts)
    (hviews : tree'.viewStack = tree.viewStack ++ views) : Mirrors tree' := by
  have hlt := (List.getElem?_eq_some_iff.mp hnode).1
  have hself : tree'.nodes[nodeId]? = some node' := by
    rw [hnodes, List.getElem?_set_self hlt]
  have hother : ∀ other : DispatchNodeId, other ≠ nodeId → tree'.nodes[other]? = tree.nodes[other]? := by
    intro other hne
    rw [hnodes, List.getElem?_set_ne hne.symm]
  have hparents : ∀ other : DispatchNodeId, (tree'.nodes[other]?).map DispatchNode.parent =
      (tree.nodes[other]?).map DispatchNode.parent := by
    intro other
    by_cases heq : other = nodeId
    · rw [heq, hself, hnode, Option.map_some, Option.map_some, hparent]
    · rw [hother other heq]
  obtain ⟨path, active, found, hsplit, hactive', hfound, hpath⟩ :=
    h.active fun hnil => by rw [activeNodeId, hnil] at hactive; cases hactive
  obtain rfl : active = nodeId := Option.some.inj (hactive'.symm.trans hactive)
  obtain rfl : found = node := Option.some.inj (hfound.symm.trans hnode)
  -- the rest of the stack is other nodes
  have hrest : ∀ ancestor ∈ path, tree'.nodes[ancestor]? = tree.nodes[ancestor]? :=
    fun ancestor hmem => hother ancestor (hpath.lt_of_node h.parentsFirst hfound ancestor hmem).ne
  refine ⟨fun other n parent hn hp => ?_, ?_, ?_, ?_⟩
  · have hold := hparents other
    rw [hn, Option.map_some, hp] at hold
    obtain ⟨n', hn', hp'⟩ := Option.map_eq_some_iff.mp hold.symm
    exact h.parentsFirst other n' parent hn' hp'
  · rw [activeNodeId, hstack]
    exact h.path.congr fun other _ => hparents other
  · rw [hcontexts, h.contexts, hstack, hsplit, collect_append, collect_append,
      collect_singleton _ hnode, collect_singleton _ hself, hcontext, List.append_assoc,
      collect_congr _ fun ancestor hmem => by rw [hrest ancestor hmem]]
  · rw [hviews, h.views, hstack, hsplit, collect_append, collect_append,
      collect_singleton _ hnode, collect_singleton _ hself, hview, List.append_assoc,
      collect_congr _ fun ancestor hmem => by rw [hrest ancestor hmem]]

theorem Mirrors.update_rest {tree : DispatchTree L}
    {node : DispatchNode L} (h : Mirrors tree) (node' : DispatchNode L)
    (hactive : tree.activeNodeId = some nodeId) (hnode : tree.nodes[nodeId]? = some node)
    (hnodes : tree'.nodes = tree.nodes.set nodeId node') (hparent : node'.parent = node.parent)
    (hcontext : node'.context = node.context) (hview : node'.viewId = node.viewId)
    (hstack : tree'.nodeStack = tree.nodeStack) (hcontexts : tree'.contextStack = tree.contextStack)
    (hviews : tree'.viewStack = tree.viewStack) : Mirrors tree' :=
  h.update node' [] [] hactive hnode hparent (by rw [hcontext, List.append_nil])
    (by rw [hview, List.append_nil]) hnodes hstack (by rw [hcontexts, List.append_nil])
    (by rw [hviews, List.append_nil])

/-! ### Moving to an existing node -/

theorem Mirrors.popTo (parent : Option DispatchNodeId) : ∀ (fuel : Nat) {tree : DispatchTree L},
    Mirrors tree → tree.nodeStack.length ≤ fuel →
    ∃ tree', DispatchTree.popTo parent fuel tree = some tree' ∧ Mirrors tree' ∧
      tree'.nodes = tree.nodes ∧ (tree'.activeNodeId = parent ∨ tree'.nodeStack = []) := by
  intro fuel
  induction fuel with
  | zero =>
    intro tree h hlen
    exact ⟨tree, rfl, h, rfl, Or.inr (List.length_eq_zero_iff.mp (Nat.le_zero.mp hlen))⟩
  | succ fuel ih =>
    intro tree h hlen
    rw [DispatchTree.popTo]
    split
    · rename_i hgo
      obtain ⟨tree₁, hpop, h₁, hnodes, hstack⟩ := h.popNode hgo.2
      have hlen₁ : tree₁.nodeStack.length ≤ fuel := by
        rw [hstack, List.length_dropLast]
        omega
      obtain ⟨tree', htree', h', hnodes', hstop⟩ := ih h₁ hlen₁
      exact ⟨tree', by rw [hpop, Option.bind_some, htree'], h', hnodes'.trans hnodes, hstop⟩
    · rename_i hstop
      refine ⟨tree, rfl, h, rfl, ?_⟩
      by_cases hactive : tree.activeNodeId = parent
      · exact Or.inl hactive
      · exact Or.inr (by_contra fun hne => hstop ⟨hactive, hne⟩)

/-- The second loop puts a path on the stacks, the root last. -/
theorem climb_eq {nodes : List (DispatchNode L)} {target : Option DispatchNodeId}
    {path : List DispatchNodeId} (h : Path nodes target path) :
    ∀ (fuel : Nat) (tree : DispatchTree L), path.length ≤ fuel → tree.nodes = nodes →
      climb fuel target tree = some { tree with
        contextStack := tree.contextStack ++ (collect DispatchNode.context nodes path).reverse
        viewStack := tree.viewStack ++ (collect DispatchNode.viewId nodes path).reverse
        nodeStack := tree.nodeStack ++ path.reverse } := by
  induction h with
  | root =>
    intro fuel tree _ _
    cases fuel <;> simp [climb, collect]
  | @node nodeId node path hnode _ ih =>
    intro fuel tree hfuel hnodes
    subst hnodes
    rw [List.length_append, List.length_singleton] at hfuel
    cases fuel with
    | zero => exact absurd hfuel (Nat.not_succ_le_zero _)
    | succ fuel =>
      have hrev : ∀ (α : Type) (a : Option α), a.toList.reverse = a.toList := by
        intro α a
        cases a <;> rfl
      rw [climb, hnode, Option.bind_eq_bind, Option.bind_some,
        ih fuel _ (Nat.le_of_succ_le_succ hfuel)]
      · simp only [collect_append, collect_singleton _ hnode, List.reverse_append, hrev,
          List.append_assoc, List.reverse_cons, List.reverse_nil, List.nil_append]
      · rfl

/-- **Moving to a node puts its path on the stack**, whether its parent is on the
stack before or not. -/
theorem Mirrors.setActiveNode {tree : DispatchTree L} (h : Mirrors tree) (hlt : nodeId < tree.nodes.length) :
    ∃ tree', tree.setActiveNode nodeId = some tree' ∧ Mirrors tree' ∧
      tree'.nodes = tree.nodes ∧ tree'.activeNodeId = some nodeId := by
  have hnode := List.getElem?_eq_getElem hlt
  set node := tree.nodes[nodeId] with hdef
  obtain ⟨tree₁, hpop, h₁, hnodes, hstop⟩ := Mirrors.popTo node.parent _ h le_rfl
  rw [DispatchTree.setActiveNode, hnode]
  simp only [Option.bind_eq_bind, Option.bind_some, hpop]
  have hnode₁ : tree₁.nodes[nodeId]? = some node := by rw [hnodes, hnode]
  by_cases hactive : tree₁.activeNodeId = node.parent
  · rw [if_pos hactive]
    refine ⟨_, rfl, ⟨h₁.parentsFirst, ?_, ?_, ?_⟩, hnodes, List.getLast?_concat⟩
    · dsimp only [activeNodeId]
      rw [List.getLast?_concat]
      exact .node hnode₁ (hactive ▸ h₁.path)
    · dsimp only
      rw [collect_append, collect_singleton _ hnode₁, h₁.contexts]
    · dsimp only
      rw [collect_append, collect_singleton _ hnode₁, h₁.views]
  · -- the parent is not on the stack, so the stacks are empty
    rw [if_neg hactive]
    have hempty : tree₁.nodeStack = [] := hstop.resolve_left hactive
    have hcontexts : tree₁.contextStack = [] := by rw [h₁.contexts, hempty]; rfl
    have hviews : tree₁.viewStack = [] := by rw [h₁.views, hempty]; rfl
    have hlt₁ : nodeId < tree₁.nodes.length := by rw [hnodes]; exact hlt
    obtain ⟨path, hpath⟩ := exists_path h₁.parentsFirst nodeId hlt₁
    rw [climb_eq hpath _ _ (hpath.length_le h₁.parentsFirst) rfl]
    simp only [Option.bind_some, hempty, hcontexts, hviews, List.nil_append, List.reverse_reverse]
    refine ⟨_, rfl, ⟨h₁.parentsFirst, ?_, rfl, rfl⟩, hnodes, hpath.getLast?⟩
    dsimp only [activeNodeId]
    rw [hpath.getLast?]
    exact hpath

/-! ### Moving nodes over -/

theorem updateActiveNode_added (stack : List DispatchNodeId) (contexts : List KeyContext)
    (views : List EntityId) (nodes : List (DispatchNode L)) (node : DispatchNode L)
    (focusableNodeIds : AList fun _ : FocusId => DispatchNodeId)
    (viewNodeIds : AList fun _ : EntityId => DispatchNodeId)
    (f : DispatchNode L → DispatchNode L) :
    updateActiveNode ⟨stack ++ [nodes.length], contexts, views, nodes ++ [node],
        focusableNodeIds, viewNodeIds⟩ f =
      some ⟨stack ++ [nodes.length], contexts, views, nodes ++ [f node],
        focusableNodeIds, viewNodeIds⟩ := by
  simp [updateActiveNode, activeNodeId]

/-- **A node that is moved over** is added below the active one.  Its view is left
out where it is that of the view around it. -/
theorem moveNode_eq (tree : DispatchTree L) (source : DispatchNode L) :
    ∃ viewId focusableNodeIds viewNodeIds, tree.moveNode source = some
      (⟨tree.nodeStack ++ [tree.nodes.length], tree.contextStack ++ source.context.toList,
        tree.viewStack ++ viewId.toList,
        tree.nodes ++ [{ source with viewId := viewId, parent := tree.activeNodeId }],
        focusableNodeIds, viewNodeIds⟩, source.takeListeners) := by
  obtain ⟨keyListeners, actionListeners, modifiersListeners, context, focusId, viewId, parent⟩ :=
    source
  have hcontext : context.elim (some tree.pushNode.2) tree.pushNode.2.setKeyContext =
      some ⟨tree.nodeStack ++ [tree.nodes.length], tree.contextStack ++ context.toList,
        tree.viewStack, tree.nodes ++ [⟨[], [], [], context, none, none, tree.activeNodeId⟩],
        tree.focusableNodeIds, tree.viewNodeIds⟩ := by
    cases context with
    | none => simp [pushNode]
    | some context => simp [pushNode, setKeyContext, updateActiveNode_added]
  generalize hadded : (⟨_, _, _, _, _, _⟩ : DispatchTree L) = added at hcontext
  obtain ⟨focusableNodeIds, hfocus⟩ : ∃ focusableNodeIds,
      focusId.elim (some added) added.setFocusId =
        some ⟨tree.nodeStack ++ [tree.nodes.length], tree.contextStack ++ context.toList,
          tree.viewStack,
          tree.nodes ++ [⟨[], [], [], context, focusId, none, tree.activeNodeId⟩],
          focusableNodeIds, tree.viewNodeIds⟩ := by
    subst hadded
    cases focusId with
    | none => exact ⟨_, rfl⟩
    | some focusId => exact ⟨_, by simp [setFocusId, activeNodeId, updateActiveNode_added]; rfl⟩
  generalize hfocused : (⟨_, _, _, _, _, _⟩ : DispatchTree L) = focused at hfocus
  obtain ⟨viewId', viewNodeIds, hview⟩ : ∃ (viewId' : Option EntityId) (viewNodeIds : AList fun _ : EntityId => DispatchNodeId),
      viewId.elim (some focused) focused.setViewId =
        some ⟨tree.nodeStack ++ [tree.nodes.length], tree.contextStack ++ context.toList,
          tree.viewStack ++ viewId'.toList,
          tree.nodes ++ [⟨[], [], [], context, focusId, viewId', tree.activeNodeId⟩],
          focusableNodeIds, viewNodeIds⟩ := by
    subst hfocused
    cases viewId with
    | none => exact ⟨none, _, by simp; rfl⟩
    | some viewId =>
      by_cases htop : tree.viewStack.getLast? = some viewId
      · exact ⟨none, _, by simp [setViewId, htop]; rfl⟩
      · exact ⟨some viewId, _, by simp [setViewId, htop, activeNodeId, updateActiveNode_added]; rfl⟩
  refine ⟨viewId', focusableNodeIds, viewNodeIds, ?_⟩
  simp [moveNode, hcontext, hfocus, hview, updateActiveNode_added]

theorem Mirrors.moveNode {tree : DispatchTree L} {source left : DispatchNode L}
    (h : Mirrors tree) (heq : tree.moveNode source = some (tree', left)) : Mirrors tree' := by
  obtain ⟨viewId, focusableNodeIds, viewNodeIds, hmove⟩ := moveNode_eq tree source
  obtain ⟨rfl, -⟩ := Prod.mk.inj (Option.some.inj (hmove.symm.trans heq))
  exact h.add _ rfl rfl rfl rfl rfl

theorem Mirrors.of_popNode {tree : DispatchTree L} (h : Mirrors tree)
    (heq : tree.popNode = some tree') : Mirrors tree' := by
  by_cases hne : tree.nodeStack = []
  · rw [DispatchTree.popNode, activeNodeId, hne] at heq
    cases heq
  · obtain ⟨tree₁, hpop, h₁, -⟩ := h.popNode hne
    obtain rfl := Option.some.inj (hpop.symm.trans heq)
    exact h₁

theorem Mirrors.popAncestors {parent : Option DispatchNodeId} :
    ∀ (stack : List DispatchNodeId) {tree tree' : DispatchTree L} {stack' : List DispatchNodeId},
    Mirrors tree → DispatchTree.popAncestors parent stack tree = some (stack', tree') →
    Mirrors tree' := by
  intro stack
  induction stack with
  | nil =>
    intro tree tree' stack' h heq
    cases heq
    exact h
  | cons ancestor stack ih =>
    intro tree tree' stack' h heq
    rw [DispatchTree.popAncestors] at heq
    split at heq
    · cases heq
      exact h
    · obtain ⟨tree₁, hpop, heq⟩ := Option.bind_eq_some_iff.mp heq
      exact ih (h.of_popNode hpop) heq

theorem Mirrors.popAll : ∀ (stack : List DispatchNodeId) {tree tree' : DispatchTree L},
    Mirrors tree → DispatchTree.popAll stack tree = some tree' → Mirrors tree' := by
  intro stack
  induction stack with
  | nil =>
    intro tree tree' h heq
    cases heq
    exact h
  | cons ancestor stack ih =>
    intro tree tree' h heq
    obtain ⟨tree₁, hpop, heq⟩ := Option.bind_eq_some_iff.mp heq
    exact ih (h.of_popNode hpop) heq

/-- One source node after another. -/
theorem moveNodes_cons_eq_some {sourceNode : DispatchNode L}
    {sourceNodes : List (DispatchNode L)} {sourceNodeId : DispatchNodeId}
    {stack stack' : List DispatchNodeId} {tree : DispatchTree L} {containsFocus : Bool}
    {lefts : List (DispatchNode L)} :
    moveNodes focus (sourceNode :: sourceNodes) sourceNodeId stack tree =
        some (stack', tree', containsFocus, lefts) ↔
      ∃ stack₁ tree₁ tree₂ left containsFocus₁ lefts₁,
        DispatchTree.popAncestors sourceNode.parent stack tree = some (stack₁, tree₁) ∧
        tree₁.moveNode sourceNode = some (tree₂, left) ∧
        moveNodes focus sourceNodes (sourceNodeId + 1) (sourceNodeId :: stack₁) tree₂ =
          some (stack', tree', containsFocus₁, lefts₁) ∧
        containsFocus = ((sourceNode.focusId.isSome && sourceNode.focusId == focus) ||
          containsFocus₁) ∧
        lefts = left :: lefts₁ := by
  rw [moveNodes]
  simp only [Option.bind_eq_bind, Option.bind_eq_some_iff, Prod.exists, Option.some.injEq,
    Prod.mk.injEq]
  constructor
  · rintro ⟨stack₁, tree₁, hpop, tree₂, left, hmove, _, _, found, lefts₁, hrest, rfl, rfl, rfl, rfl⟩
    exact ⟨stack₁, tree₁, tree₂, left, found, lefts₁, hpop, hmove, hrest, rfl, rfl⟩
  · rintro ⟨stack₁, tree₁, tree₂, left, found, lefts₁, hpop, hmove, hrest, rfl, rfl⟩
    exact ⟨stack₁, tree₁, hpop, tree₂, left, hmove, _, _, found, lefts₁, hrest, rfl, rfl, rfl, rfl⟩

theorem Mirrors.moveNodes : ∀ (sourceNodes : List (DispatchNode L))
    {sourceNodeId : DispatchNodeId} {stack stack' : List DispatchNodeId}
    {tree tree' : DispatchTree L} {containsFocus : Bool} {lefts : List (DispatchNode L)},
    Mirrors tree → DispatchTree.moveNodes focus sourceNodes sourceNodeId stack tree =
      some (stack', tree', containsFocus, lefts) → Mirrors tree' := by
  intro sourceNodes
  induction sourceNodes with
  | nil =>
    intro _ _ _ tree tree' _ _ h heq
    cases heq
    exact h
  | cons sourceNode sourceNodes ih =>
    intro _ _ _ tree tree' _ _ h heq
    obtain ⟨stack₁, tree₁, tree₂, left, _, _, hpop, hmove, hrest, -, -⟩ :=
      moveNodes_cons_eq_some.mp heq
    exact ih ((Mirrors.popAncestors _ h hpop).moveNode hmove) hrest

theorem reuseSubtree_eq_some {tree source source' : DispatchTree L}
    {oldRange : IndexRange Nat} {reused : ReusedSubtree} :
    tree.reuseSubtree oldRange source focus = some (tree', source', reused) ↔
      ∃ stack tree₁ containsFocus lefts,
        moveNodes focus ((source.nodes.drop oldRange.start).take (oldRange.stop - oldRange.start))
          oldRange.start [] tree = some (stack, tree₁, containsFocus, lefts) ∧
        popAll stack tree₁ = some tree' ∧
        source' = { source with
          nodes := source.nodes.take oldRange.start ++ lefts
            ++ source.nodes.drop (oldRange.start + (oldRange.stop - oldRange.start)) } ∧
        reused = ⟨oldRange, ⟨tree.nodes.length,
          tree.nodes.length + (oldRange.stop - oldRange.start)⟩, containsFocus⟩ := by
  rw [reuseSubtree]
  simp only [Option.bind_eq_bind, Option.bind_eq_some_iff, Prod.exists, Option.some.injEq,
    Prod.mk.injEq]
  constructor
  · rintro ⟨stack, tree₁, found, lefts, hmove, _, hpop, rfl, rfl, rfl⟩
    exact ⟨stack, tree₁, found, lefts, hmove, hpop, rfl, rfl⟩
  · rintro ⟨stack, tree₁, found, lefts, hmove, hpop, rfl, rfl⟩
    exact ⟨stack, tree₁, found, lefts, hmove, _, hpop, rfl, rfl, rfl⟩

/-! ### Runs -/

/-- A call. -/
inductive Op (L : Type)
  | pushNode
  | popNode
  | setActiveNode (nodeId : DispatchNodeId)
  | setKeyContext (context : KeyContext)
  | setFocusId (focusId : FocusId)
  | setViewId (viewId : EntityId)
  | onKeyEvent (listener : L)
  | onModifiersChanged (listener : L)
  | onAction (actionType : Nat) (listener : L)
  | reuseSubtree (oldRange : IndexRange Nat) (source : DispatchTree L)
      (focus : Option FocusId)

def step (tree : DispatchTree L) : Op L → Option (DispatchTree L)
  | .pushNode => some tree.pushNode.2
  | .popNode => tree.popNode
  | .setActiveNode nodeId => tree.setActiveNode nodeId
  | .setKeyContext context => tree.setKeyContext context
  | .setFocusId focusId => tree.setFocusId focusId
  | .setViewId viewId => tree.setViewId viewId
  | .onKeyEvent listener => tree.onKeyEvent listener
  | .onModifiersChanged listener => tree.onModifiersChanged listener
  | .onAction actionType listener => tree.onAction actionType listener
  | .reuseSubtree oldRange source focus => (tree.reuseSubtree oldRange source focus).map Prod.fst

def activeNode (tree : DispatchTree L) : Option (DispatchNode L) :=
  tree.activeNodeId.bind (tree.nodes[·]?)

/-- A key context and a view are set on a node that has none. -/
def SetsOnce (tree : DispatchTree L) : Op L → Prop
  | .setKeyContext _ => tree.activeNode.bind DispatchNode.context = none
  | .setViewId viewId => tree.viewStack.getLast? = some viewId ∨
      tree.activeNode.bind DispatchNode.viewId = none
  | _ => True

instance (tree : DispatchTree L) : ∀ op : Op L, Decidable (SetsOnce tree op)
  | .setKeyContext _ => inferInstanceAs (Decidable (tree.activeNode.bind DispatchNode.context = none))
  | .setViewId viewId => inferInstanceAs (Decidable (tree.viewStack.getLast? = some viewId ∨
      tree.activeNode.bind DispatchNode.viewId = none))
  | .pushNode | .popNode | .setActiveNode _ | .setFocusId _ | .onKeyEvent _ | .onModifiersChanged _
  | .onAction _ _ | .reuseSubtree _ _ _ => isTrue trivial

theorem Mirrors.step {tree : DispatchTree L} {op : Op L} (h : Mirrors tree)
    (hop : SetsOnce tree op) (heq : step tree op = some tree') : Mirrors tree' := by
  cases op with
  | pushNode =>
    cases heq
    exact h.pushNode
  | popNode => exact h.of_popNode heq
  | setActiveNode nodeId =>
    by_cases hlt : nodeId < tree.nodes.length
    · obtain ⟨tree₁, hset, h₁, -⟩ := h.setActiveNode hlt
      obtain rfl := Option.some.inj (hset.symm.trans heq)
      exact h₁
    · have hnone := List.getElem?_eq_none (Nat.not_lt.mp hlt)
      simp [DispatchTree.step, DispatchTree.setActiveNode, hnone] at heq
  | setKeyContext context =>
    obtain ⟨tree₁, hupdate, hsome⟩ := Option.bind_eq_some_iff.mp heq
    obtain ⟨nodeId, node, hactive, hnode, rfl⟩ := updateActiveNode_eq_some.mp hupdate
    cases hsome
    have hnone : node.context = none := by
      simpa [SetsOnce, activeNode, hactive, hnode] using hop
    exact h.update { node with context := some context } [context] [] hactive hnode rfl
      (by rw [hnone]; rfl) (List.append_nil _).symm rfl rfl rfl (List.append_nil _).symm
  | setFocusId focusId =>
    obtain ⟨_, -, heq⟩ := Option.bind_eq_some_iff.mp heq
    obtain ⟨tree₁, hupdate, hsome⟩ := Option.bind_eq_some_iff.mp heq
    obtain ⟨nodeId, node, hactive, hnode, rfl⟩ := updateActiveNode_eq_some.mp hupdate
    cases hsome
    exact h.update_rest { node with focusId := some focusId } hactive hnode rfl rfl rfl rfl rfl rfl
      rfl
  | setViewId viewId =>
    rw [DispatchTree.step, DispatchTree.setViewId] at heq
    split at heq
    · cases heq
      exact h
    · rename_i htop
      obtain ⟨_, -, heq⟩ := Option.bind_eq_some_iff.mp heq
      obtain ⟨tree₁, hupdate, hsome⟩ := Option.bind_eq_some_iff.mp heq
      obtain ⟨nodeId, node, hactive, hnode, rfl⟩ := updateActiveNode_eq_some.mp hupdate
      cases hsome
      have hnone : node.viewId = none := by
        simpa [SetsOnce, htop, activeNode, hactive, hnode] using hop
      exact h.update { node with viewId := some viewId } [] [viewId] hactive hnode rfl
        (List.append_nil _).symm (by rw [hnone]; rfl) rfl rfl (List.append_nil _).symm rfl
  | onKeyEvent listener =>
    obtain ⟨nodeId, node, hactive, hnode, rfl⟩ := updateActiveNode_eq_some.mp heq
    exact h.update_rest _ hactive hnode rfl rfl rfl rfl rfl rfl rfl
  | onModifiersChanged listener =>
    obtain ⟨nodeId, node, hactive, hnode, rfl⟩ := updateActiveNode_eq_some.mp heq
    exact h.update_rest _ hactive hnode rfl rfl rfl rfl rfl rfl rfl
  | onAction actionType listener =>
    obtain ⟨nodeId, node, hactive, hnode, rfl⟩ := updateActiveNode_eq_some.mp heq
    exact h.update_rest _ hactive hnode rfl rfl rfl rfl rfl rfl rfl
  | reuseSubtree oldRange source focus =>
    obtain ⟨⟨tree₁, source', reused⟩, hreuse, rfl⟩ := Option.map_eq_some_iff.mp heq
    obtain ⟨stack, tree₂, found, lefts, hmove, hpop, -, -⟩ := reuseSubtree_eq_some.mp hreuse
    exact Mirrors.popAll stack (Mirrors.moveNodes _ h hmove) hpop

theorem mirrors_new : Mirrors (new : DispatchTree L) where
  parentsFirst _ _ _ h := by cases h
  path := .root
  contexts := rfl
  views := rfl

/-- **The stacks mirror the active path** after every run that sets contexts and
views once, and **moving to a node puts its dispatch path on the stack**. -/
theorem stacks_mirror_path (ops : List (Op L)) {tree : DispatchTree L}
    (hmeets : RunMeets step SetsOnce new ops) (hrun : run step new ops = some tree) :
    Mirrors tree ∧ ∀ nodeId < tree.nodes.length, ∃ tree',
      tree.setActiveNode nodeId = some tree' ∧ Mirrors tree' ∧
        tree'.dispatchPath nodeId = some tree'.nodeStack := by
  have h : Mirrors tree :=
    run_invariant (fun _ _ _ h hop heq => h.step hop heq) ops mirrors_new hmeets hrun
  refine ⟨h, fun nodeId hlt => ?_⟩
  obtain ⟨tree', hset, h', -, hactive⟩ := h.setActiveNode hlt
  refine ⟨tree', hset, h', dispatchPath_eq h'.parentsFirst ?_⟩
  rw [← hactive]
  exact h'.path

/-- A view with a key context inside, of which a new tree reuses both nodes; then its
first node is made active again. -/
def reusedView : List (Op Unit) :=
  [.pushNode, .pushNode,
    .reuseSubtree ⟨0, 2⟩ ⟨[], [], [], [{ viewId := some 7 },
      { context := some (KeyContext.empty.add ['e']), parent := some 0 }], ∅, ∅⟩ none,
    .popNode, .popNode, .setActiveNode 3]

theorem reusedView_runs : (run step new reusedView).isSome = true := by decide +kernel

theorem stacks_mirror_path_reusedView :
    Mirrors ((run step new reusedView).get reusedView_runs) :=
  (stacks_mirror_path reusedView (by decide +kernel) (Option.some_get _).symm).1

example : ((run step new reusedView).get reusedView_runs).nodeStack = [0, 1, 2, 3] := by
  decide +kernel

end DispatchTree

end FcGpui
