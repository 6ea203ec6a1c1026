import FcGpui.DispatchTree.Stacks

/-!
# Reusing a subtree

What balanced calls of `push_node` and `pop_node` add to a tree is a range of nodes
in which the parent of every node lies outside, or is the node before or one of its
ancestors in the range (`Nested`).  `reuse_subtree` replays such a range: its source
stack is the chain of ancestors that `Nested` keeps, and the node stack of the tree
is that chain under the new ids (`Moving`).

**Main result.**  `reuseSubtree_isomorphic`: the tree gains one node for each node
of the range, with the same contents and the same parents under the new ids; its
stacks are as before.
-/

namespace FcGpui

namespace DispatchTree

variable {L : Type}

/-- The parents of nodes from `start` on, and the chain of ancestors among them of
the last of these, itself in front. -/
inductive Nested (start : DispatchNodeId) : List (Option DispatchNodeId) → List DispatchNodeId → Prop
  | nil : Nested start [] []
  | inner {parents : List (Option DispatchNodeId)} {closed chain : List DispatchNodeId}
      {parent : DispatchNodeId} : Nested start parents (closed ++ parent :: chain) →
      Nested start (parents ++ [some parent]) ((start + parents.length) :: parent :: chain)
  | outer {parents : List (Option DispatchNodeId)} {chain : List DispatchNodeId}
      {parent : Option DispatchNodeId} : Nested start parents chain →
      (∀ nodeId ∈ parent, nodeId < start) →
      Nested start (parents ++ [parent]) [start + parents.length]

theorem Nested.chain {start : DispatchNodeId} {parents : List (Option DispatchNodeId)}
    {chain : List DispatchNodeId} (h : Nested start parents chain) :
    chain.Pairwise (· > ·) ∧ ∀ nodeId ∈ chain, start ≤ nodeId ∧ nodeId < start + parents.length := by
  induction h with
  | nil => exact ⟨.nil, fun _ h => by cases h⟩
  | @inner parents closed chain parent _ ih =>
    obtain ⟨hpair, hrange⟩ := ih
    have hpair : (parent :: chain).Pairwise (· > ·) := (List.pairwise_append.mp hpair).2.1
    have hrange : ∀ nodeId ∈ parent :: chain, start ≤ nodeId ∧ nodeId < start + parents.length :=
      fun nodeId hmem => hrange nodeId (List.mem_append_right _ hmem)
    refine ⟨List.pairwise_cons.mpr ⟨fun nodeId hmem => (hrange nodeId hmem).2, hpair⟩, ?_⟩
    intro nodeId hmem
    rw [List.length_append, List.length_singleton]
    rcases List.mem_cons.mp hmem with rfl | hmem
    · exact ⟨Nat.le_add_right _ _, Nat.lt_succ_self _⟩
    · exact ⟨(hrange nodeId hmem).1, (hrange nodeId hmem).2.trans (Nat.lt_succ_self _)⟩
  | @outer parents chain parent _ _ _ =>
    refine ⟨List.pairwise_singleton _ _, fun nodeId hmem => ?_⟩
    rw [List.mem_singleton.mp hmem, List.length_append, List.length_singleton]
    exact ⟨Nat.le_add_right _ _, Nat.lt_succ_self _⟩

/-! ### Balanced calls -/

/-- A call that leaves what was on the node stack before alone. -/
def StaysInside (before : List DispatchNodeId) (tree : DispatchTree L) : Op L → Prop
  | .popNode => tree.nodeStack ≠ before
  | .setActiveNode _ => False
  | _ => True

instance (before : List DispatchNodeId) (tree : DispatchTree L) :
    ∀ op : Op L, Decidable (StaysInside before tree op)
  | .popNode => inferInstanceAs (Decidable (tree.nodeStack ≠ before))
  | .setActiveNode _ => isFalse id
  | .pushNode | .setKeyContext _ | .setFocusId _ | .setViewId _ | .onKeyEvent _
  | .onModifiersChanged _ | .onAction _ _ | .reuseSubtree _ _ _ => isTrue trivial

/-- A range of the source that balanced calls created: they end with the node stack
that they began with, and the nodes have the parents that these calls gave them. -/
def BalancedRange (source : DispatchTree L) (range : IndexRange Nat) : Prop :=
  ∃ (before after : DispatchTree L) (ops : List (Op L)),
    (∀ nodeId ∈ before.activeNodeId, nodeId < before.nodes.length) ∧
    RunMeets step (StaysInside before.nodeStack) before ops ∧ run step before ops = some after ∧
    after.nodeStack = before.nodeStack ∧
    range.start = before.nodes.length ∧ range.stop = after.nodes.length ∧
    ∀ nodeId, range.start ≤ nodeId → nodeId < range.stop →
      (source.nodes[nodeId]?).map DispatchNode.parent =
        (after.nodes[nodeId]?).map DispatchNode.parent

/-- The nodes added since a tree, and the open ones among them. -/
def Opened (before tree : DispatchTree L) : Prop :=
  ∃ added closed opened, tree.nodes.map DispatchNode.parent =
      before.nodes.map DispatchNode.parent ++ added ∧
    tree.nodeStack = before.nodeStack ++ opened.reverse ∧
    Nested before.nodes.length added (closed ++ opened)

variable {before tree' tree₀ : DispatchTree L} {focus : Option FocusId} {range : IndexRange Nat}
  {stack : List DispatchNodeId}

theorem Opened.push {tree : DispatchTree L} (h : Opened before tree)
    (hbefore : ∀ nodeId ∈ before.activeNodeId, nodeId < before.nodes.length)
    (node : DispatchNode L) (hparent : node.parent = tree.activeNodeId)
    (hnodes : tree'.nodes = tree.nodes ++ [node])
    (hstack : tree'.nodeStack = tree.nodeStack ++ [tree.nodes.length]) : Opened before tree' := by
  obtain ⟨added, closed, opened, hadded, hopened, hnested⟩ := h
  have hlen : tree.nodes.length = before.nodes.length + added.length := by
    have := congrArg List.length hadded
    simpa using this
  have hadded' : tree'.nodes.map DispatchNode.parent =
      before.nodes.map DispatchNode.parent ++ (added ++ [tree.activeNodeId]) := by
    rw [hnodes, List.map_append, hadded, List.append_assoc, List.map_singleton, hparent]
  cases opened with
  | nil =>
    rw [List.reverse_nil, List.append_nil] at hopened
    refine ⟨_, [], [tree.nodes.length], hadded', by rw [hstack, hopened]; rfl, ?_⟩
    rw [hlen]
    refine .outer hnested fun nodeId hmem => hbefore nodeId ?_
    rw [activeNodeId, ← hopened]
    exact hmem
  | cons parent opened =>
    have hactive : tree.activeNodeId = some parent := by
      rw [activeNodeId, hopened, List.reverse_cons, ← List.append_assoc, List.getLast?_concat]
    refine ⟨_, [], tree.nodes.length :: parent :: opened, hadded', ?_, ?_⟩
    · rw [hstack, hopened, List.append_assoc, List.reverse_cons (a := tree.nodes.length)]
    · rw [hlen, hactive]
      exact .inner hnested

theorem popNode_eq_some {tree : DispatchTree L} (h : tree.popNode = some tree') :
    tree'.nodes = tree.nodes ∧ tree'.nodeStack = tree.nodeStack.dropLast ∧ tree.nodeStack ≠ [] := by
  obtain ⟨nodeId, hactive, h⟩ := Option.bind_eq_some_iff.mp h
  obtain ⟨node, -, h⟩ := Option.bind_eq_some_iff.mp h
  cases h
  refine ⟨rfl, rfl, fun hnil => ?_⟩
  rw [activeNodeId, hnil] at hactive
  cases hactive

theorem Opened.pop {tree : DispatchTree L} (h : Opened before tree)
    (hne : tree.nodeStack ≠ before.nodeStack) (hpop : tree.popNode = some tree') : Opened before tree' := by
  obtain ⟨added, closed, opened, hadded, hopened, hnested⟩ := h
  obtain ⟨hnodes, hstack, -⟩ := popNode_eq_some hpop
  cases opened with
  | nil =>
    rw [List.reverse_nil, List.append_nil] at hopened
    exact absurd hopened hne
  | cons last opened =>
    refine ⟨added, closed ++ [last], opened, by rw [hnodes, hadded], ?_, ?_⟩
    · rw [hstack, hopened, List.reverse_cons, ← List.append_assoc, List.dropLast_concat]
    · rw [List.append_assoc]
      exact hnested

theorem Opened.update {tree : DispatchTree L} (h : Opened before tree)
    (hparents : tree'.nodes.map DispatchNode.parent = tree.nodes.map DispatchNode.parent)
    (hstack : tree'.nodeStack = tree.nodeStack) : Opened before tree' := by
  obtain ⟨added, closed, opened, hadded, hopened, hnested⟩ := h
  exact ⟨added, closed, opened, hparents.trans hadded, hstack.trans hopened, hnested⟩

theorem Opened.updateActiveNode {tree : DispatchTree L}
    {f : DispatchNode L → DispatchNode L} (h : Opened before tree) (heq : tree.updateActiveNode f = some tree')
    (hf : ∀ node, (f node).parent = node.parent) : Opened before tree' := by
  obtain ⟨nodeId, node, -, hnode, rfl⟩ := updateActiveNode_eq_some.mp heq
  refine h.update ?_ rfl
  obtain ⟨hlt, rfl⟩ := List.getElem?_eq_some_iff.mp hnode
  rw [List.map_set, hf, ← List.getElem_map (f := DispatchNode.parent), List.set_getElem_self]
  rw [List.length_map]
  exact hlt

theorem Opened.moveNode {tree : DispatchTree L} {source left : DispatchNode L} (h : Opened before tree)
    (hbefore : ∀ nodeId ∈ before.activeNodeId, nodeId < before.nodes.length)
    (heq : tree.moveNode source = some (tree', left)) : Opened before tree' ∧
      tree'.nodeStack.length = tree.nodeStack.length + 1 := by
  obtain ⟨viewId, focusableNodeIds, viewNodeIds, hmove⟩ := moveNode_eq tree source
  obtain ⟨rfl, -⟩ := Prod.mk.inj (Option.some.inj (hmove.symm.trans heq))
  exact ⟨h.push hbefore _ rfl rfl rfl, List.length_append⟩

variable {size : Nat} {moved : List (DispatchNode L)}

/-- A pop of a node that has been pushed since, where the node stack is longer than before by the source
stack at least. -/
theorem Opened.popAbove {tree : DispatchTree L} {count : Nat} (h : Opened before tree)
    (hsize : before.nodeStack.length ≤ size) (hlen : tree.nodeStack.length = size + (count + 1))
    (hpop : tree.popNode = some tree') : Opened before tree' ∧ tree'.nodeStack.length = size + count := by
  have hne : tree.nodeStack ≠ before.nodeStack := by
    intro hstack
    rw [hstack] at hlen
    omega
  refine ⟨h.pop hne hpop, ?_⟩
  rw [(popNode_eq_some hpop).2.1, List.length_dropLast]
  omega

theorem Opened.popAncestors (hsize : before.nodeStack.length ≤ size) {parent : Option DispatchNodeId} :
    ∀ (stack : List DispatchNodeId) {tree tree' : DispatchTree L} {stack' : List DispatchNodeId},
    Opened before tree → tree.nodeStack.length = size + stack.length →
    DispatchTree.popAncestors parent stack tree = some (stack', tree') →
    Opened before tree' ∧ tree'.nodeStack.length = size + stack'.length := by
  intro stack
  induction stack with
  | nil =>
    intro tree tree' stack' h hlen heq
    cases heq
    exact ⟨h, hlen⟩
  | cons ancestor stack ih =>
    intro tree tree' stack' h hlen heq
    rw [DispatchTree.popAncestors] at heq
    split at heq
    · cases heq
      exact ⟨h, hlen⟩
    · obtain ⟨tree₁, hpop, heq⟩ := Option.bind_eq_some_iff.mp heq
      obtain ⟨h₁, hlen₁⟩ := h.popAbove hsize hlen hpop
      exact ih h₁ hlen₁ heq

theorem Opened.popAll (hsize : before.nodeStack.length ≤ size) :
    ∀ (stack : List DispatchNodeId) {tree tree' : DispatchTree L},
    Opened before tree → tree.nodeStack.length = size + stack.length →
    DispatchTree.popAll stack tree = some tree' → Opened before tree' := by
  intro stack
  induction stack with
  | nil =>
    intro tree tree' h _ heq
    cases heq
    exact h
  | cons ancestor stack ih =>
    intro tree tree' h hlen heq
    obtain ⟨tree₁, hpop, heq⟩ := Option.bind_eq_some_iff.mp heq
    obtain ⟨h₁, hlen₁⟩ := h.popAbove hsize hlen hpop
    exact ih h₁ hlen₁ heq

theorem Opened.moveNodes (hbefore : ∀ nodeId ∈ before.activeNodeId, nodeId < before.nodes.length)
    (hsize : before.nodeStack.length ≤ size) :
    ∀ (sourceNodes : List (DispatchNode L)) {sourceNodeId : DispatchNodeId}
      {stack stack' : List DispatchNodeId} {tree tree' : DispatchTree L} {containsFocus : Bool}
      {lefts : List (DispatchNode L)},
    Opened before tree → tree.nodeStack.length = size + stack.length →
    DispatchTree.moveNodes focus sourceNodes sourceNodeId stack tree =
      some (stack', tree', containsFocus, lefts) →
    Opened before tree' ∧ tree'.nodeStack.length = size + stack'.length := by
  intro sourceNodes
  induction sourceNodes with
  | nil =>
    intro _ _ _ _ _ _ _ h hlen heq
    cases heq
    exact ⟨h, hlen⟩
  | cons sourceNode sourceNodes ih =>
    intro _ _ _ _ _ _ _ h hlen heq
    obtain ⟨stack₁, tree₁, tree₂, left, _, _, hpop, hmove, hrest, -, -⟩ :=
      moveNodes_cons_eq_some.mp heq
    obtain ⟨h₁, hlen₁⟩ := Opened.popAncestors hsize _ h hlen hpop
    obtain ⟨h₂, hlen₂⟩ := h₁.moveNode hbefore hmove
    refine ih h₂ ?_ hrest
    rw [hlen₂, hlen₁, List.length_cons]
    rfl

/-- **A call that stays inside** keeps the added nodes nested. -/
theorem Opened.step {tree : DispatchTree L} {op : Op L} (h : Opened before tree)
    (hbefore : ∀ nodeId ∈ before.activeNodeId, nodeId < before.nodes.length)
    (hop : StaysInside before.nodeStack tree op) (heq : step tree op = some tree') : Opened before tree' := by
  cases op with
  | pushNode =>
    cases heq
    exact h.push hbefore { parent := tree.activeNodeId } rfl rfl rfl
  | popNode => exact h.pop hop heq
  | setActiveNode nodeId => exact hop.elim
  | setKeyContext context =>
    obtain ⟨tree₁, hupdate, hsome⟩ := Option.bind_eq_some_iff.mp heq
    cases hsome
    exact (h.updateActiveNode hupdate fun _ => rfl).update rfl rfl
  | setFocusId focusId =>
    obtain ⟨_, -, heq⟩ := Option.bind_eq_some_iff.mp heq
    obtain ⟨tree₁, hupdate, hsome⟩ := Option.bind_eq_some_iff.mp heq
    cases hsome
    exact (h.updateActiveNode hupdate fun _ => rfl).update rfl rfl
  | setViewId viewId =>
    rw [DispatchTree.step, DispatchTree.setViewId] at heq
    split at heq
    · cases heq
      exact h
    · obtain ⟨_, -, heq⟩ := Option.bind_eq_some_iff.mp heq
      obtain ⟨tree₁, hupdate, hsome⟩ := Option.bind_eq_some_iff.mp heq
      cases hsome
      exact (h.updateActiveNode hupdate fun _ => rfl).update rfl rfl
  | onKeyEvent listener => exact h.updateActiveNode heq fun _ => rfl
  | onModifiersChanged listener => exact h.updateActiveNode heq fun _ => rfl
  | onAction actionType listener => exact h.updateActiveNode heq fun _ => rfl
  | reuseSubtree oldRange source focus =>
    obtain ⟨⟨tree₁, source', reused⟩, hreuse, rfl⟩ := Option.map_eq_some_iff.mp heq
    obtain ⟨stack, tree₂, found, lefts, hmove, hpop, -, -⟩ := reuseSubtree_eq_some.mp hreuse
    have hsize : before.nodeStack.length ≤ tree.nodeStack.length := by
      obtain ⟨_, _, opened, -, hopened, -⟩ := h
      rw [hopened, List.length_append]
      exact Nat.le_add_right _ _
    obtain ⟨h₂, hlen₂⟩ := Opened.moveNodes hbefore hsize _ h rfl hmove
    exact Opened.popAll hsize stack h₂ hlen₂ hpop

/-- **A balanced range is nested.** -/
theorem BalancedRange.nested {source : DispatchTree L}
    (h : BalancedRange source range) : ∃ parents chain, Nested range.start parents chain ∧
      ((source.nodes.drop range.start).take (range.stop - range.start)).map DispatchNode.parent =
        parents ∧
      range.stop = range.start + parents.length := by
  obtain ⟨before, after, ops, hbefore, hmeets, hrun, -, hstart, hstop, hparents⟩ := h
  have hopened : Opened before after :=
    run_invariant (fun _ _ _ h hop heq => h.step hbefore hop heq) ops
      ⟨[], [], [], (List.append_nil _).symm, (List.append_nil _).symm, .nil⟩ hmeets hrun
  obtain ⟨added, closed, opened, hadded, -, hnested⟩ := hopened
  have hlen : range.stop = range.start + added.length := by
    have hcount := congrArg List.length hadded
    rw [List.length_map, List.length_append, List.length_map] at hcount
    rw [hstop, hstart, hcount]
  refine ⟨added, closed ++ opened, hstart ▸ hnested, List.ext_getElem? fun i => ?_, hlen⟩
  have hafter : added[i]? = (after.nodes[range.start + i]?).map DispatchNode.parent := by
    rw [← List.getElem?_map, hadded, hstart,
      List.getElem?_append_right (by rw [List.length_map]; exact Nat.le_add_right _ _),
      List.length_map, Nat.add_sub_cancel_left]
  rw [List.getElem?_map]
  by_cases hi : i < added.length
  · have hin : i < range.stop - range.start := by omega
    rw [List.getElem?_take_of_lt hin, List.getElem?_drop, hafter]
    exact hparents _ (Nat.le_add_right _ _) (by omega)
  · have hout : range.stop - range.start ≤ i := by omega
    rw [List.getElem?_eq_none (Nat.not_lt.mp hi), List.getElem?_eq_none, Option.map_none]
    exact (List.length_take_le _ _).trans hout

/-! ### Replaying a nested range -/

/-- What a moved node has of the old one.  Its parent is the old parent under its new
id, or the node that was active before where the old parent lies outside. -/
structure Copies (range : IndexRange Nat) (refresh : DispatchNodeId → DispatchNodeId)
    (active : Option DispatchNodeId) (old new : DispatchNode L) : Prop where
  context : new.context = old.context
  focusId : new.focusId = old.focusId
  keyListeners : new.keyListeners = old.keyListeners
  actionListeners : new.actionListeners = old.actionListeners
  modifiersChangedListeners : new.modifiersChangedListeners = old.modifiersChangedListeners
  inside : ∀ parent, old.parent = some parent → range.start ≤ parent → parent < range.stop →
    new.parent = some (refresh parent)
  outside : (∀ parent, old.parent = some parent → ¬ (range.start ≤ parent ∧ parent < range.stop)) →
    new.parent = active

/-- The id under which a node of the range is found again. -/
def newId (tree₀ : DispatchTree L) (range : IndexRange Nat) (nodeId : Nat) : Nat :=
  nodeId - range.start + tree₀.nodes.length

/-- Where the loop over the source nodes is: what was moved, and the source stack. -/
structure Moving (tree₀ : DispatchTree L) (range : IndexRange Nat) (stack : List DispatchNodeId)
    (tree : DispatchTree L) (moved : List (DispatchNode L)) : Prop where
  nodes : ∃ added, tree.nodes = tree₀.nodes ++ added ∧ 
    List.Forall₂ (Copies range (newId tree₀ range) tree₀.activeNodeId) moved added
  inRange : ∀ nodeId : Nat, nodeId ∈ stack →
    range.start ≤ nodeId ∧ nodeId < range.start + moved.length
  nodeStack : tree.nodeStack = tree₀.nodeStack ++ (stack.map (newId tree₀ range)).reverse
  contexts : tree.contextStack = tree₀.contextStack ++ collect DispatchNode.context tree.nodes
    (stack.map (newId tree₀ range)).reverse
  views : tree.viewStack = tree₀.viewStack ++ collect DispatchNode.viewId tree.nodes
    (stack.map (newId tree₀ range)).reverse

theorem moving_start (tree₀ : DispatchTree L) (range : IndexRange Nat) :
    Moving tree₀ range [] tree₀ [] where
  nodes := ⟨[], (List.append_nil _).symm, .nil⟩
  inRange _ hmem := by cases hmem
  nodeStack := (List.append_nil _).symm
  contexts := (List.append_nil _).symm
  views := (List.append_nil _).symm

/-- The node on top of the source stack is popped. -/
theorem Moving.pop {tree : DispatchTree L} {nodeId : Nat}
    (h : Moving tree₀ range (nodeId :: stack) tree moved) :
    ∃ tree', tree.popNode = some tree' ∧ Moving tree₀ range stack tree' moved := by
  obtain ⟨added, hadded, hcopies⟩ := h.nodes
  obtain ⟨hle, hlt⟩ := h.inRange nodeId List.mem_cons_self
  have hstack := h.nodeStack
  have hcontexts := h.contexts
  have hviews := h.views
  rw [List.map_cons, List.reverse_cons, ← List.append_assoc] at hstack
  have hin : newId tree₀ range nodeId < tree.nodes.length := by
    rw [hadded, List.length_append, ← hcopies.length_eq, newId]
    omega
  have hnode := List.getElem?_eq_getElem hin
  have hactive : tree.activeNodeId = some (newId tree₀ range nodeId) := by
    rw [activeNodeId, hstack, List.getLast?_concat]
  rw [List.map_cons, List.reverse_cons, collect_append, collect_singleton _ hnode,
    ← List.append_assoc] at hcontexts hviews
  refine ⟨{ tree with
      contextStack := tree₀.contextStack ++ collect DispatchNode.context tree.nodes
        (stack.map (newId tree₀ range)).reverse
      viewStack := tree₀.viewStack ++ collect DispatchNode.viewId tree.nodes
        (stack.map (newId tree₀ range)).reverse
      nodeStack := tree₀.nodeStack ++
        (stack.map (newId tree₀ range)).reverse }, ?_,
    ⟨h.nodes, fun other hmem => h.inRange other (List.mem_cons_of_mem _ hmem), rfl, rfl, rfl⟩⟩
  simp only [popNode, hactive, Option.bind_eq_bind, Option.bind_some, hnode, hcontexts, hviews,
    hstack, dropLast_append_toList, List.dropLast_concat]

/-- The source stack is popped down to the parent. -/
theorem Moving.popAncestors {parent : Option DispatchNodeId}
    (hstop : ∀ nodeId ∈ stack.head?, parent = some nodeId) :
    ∀ (closed : List DispatchNodeId) {tree : DispatchTree L}, (∀ nodeId ∈ closed, parent ≠ some nodeId) →
    Moving tree₀ range (closed ++ stack) tree moved →
    ∃ tree', DispatchTree.popAncestors parent (closed ++ stack) tree = some (stack, tree') ∧
      Moving tree₀ range stack tree' moved := by
  intro closed
  induction closed with
  | nil =>
    intro tree _ h
    refine ⟨tree, ?_, h⟩
    cases stack with
    | nil => rfl
    | cons nodeId stack =>
      rw [List.nil_append, DispatchTree.popAncestors, if_pos (hstop nodeId rfl)]
  | cons nodeId closed ih =>
    intro tree hclosed h
    obtain ⟨tree₁, hpop, h₁⟩ := h.pop
    obtain ⟨tree', htree', h'⟩ := ih (fun other hmem => hclosed other (List.mem_cons_of_mem _ hmem)) h₁
    refine ⟨tree', ?_, h'⟩
    rw [List.cons_append, DispatchTree.popAncestors, if_neg (hclosed nodeId List.mem_cons_self), hpop,
      Option.bind_some, htree']

theorem Moving.popAll : ∀ (stack : List DispatchNodeId) {tree : DispatchTree L},
    Moving tree₀ range stack tree moved →
    ∃ tree', DispatchTree.popAll stack tree = some tree' ∧ Moving tree₀ range [] tree' moved := by
  intro stack
  induction stack with
  | nil => exact fun h => ⟨_, rfl, h⟩
  | cons nodeId stack ih =>
    intro tree h
    obtain ⟨tree₁, hpop, h₁⟩ := h.pop
    obtain ⟨tree', htree', h'⟩ := ih h₁
    exact ⟨tree', by rw [DispatchTree.popAll, hpop, Option.bind_some, htree'], h'⟩

/-- **A node is moved over** below the parent that is on top of the source stack. -/
theorem Moving.moveNode {tree : DispatchTree L}
    (h : Moving tree₀ range stack tree moved) {source : DispatchNode L}
    (hroom : range.start + moved.length < range.stop) (hparent : stack.head? = source.parent ∨
    (stack = [] ∧ ∀ parent ∈ source.parent, parent < range.start)) :
    ∃ tree', tree.moveNode source = some (tree', source.takeListeners) ∧
      Moving tree₀ range ((range.start + moved.length) :: stack) tree' (moved ++ [source]) := by
  obtain ⟨viewId, focusableNodeIds, viewNodeIds, hmove⟩ := moveNode_eq tree source
  obtain ⟨added, hadded, hcopies⟩ := h.nodes
  have hlen : tree.nodes.length = tree₀.nodes.length + moved.length := by
    rw [hadded, List.length_append, hcopies.length_eq]
  have hid : newId tree₀ range (range.start + moved.length) = tree.nodes.length := by
    rw [newId, hlen]
    omega
  -- the nodes on the stack are those moved before
  have hold : ∀ nodeId : Nat, nodeId ∈ (stack.map (newId tree₀ range)).reverse →
      nodeId < tree.nodes.length := by
    intro nodeId hmem
    obtain ⟨other, hother, rfl⟩ := List.mem_map.mp (List.mem_reverse.mp hmem)
    obtain ⟨hle, hlt⟩ := h.inRange other hother
    rw [newId, hlen]
    omega
  have hcollect : ∀ {α : Type} (field : DispatchNode L → Option α) (node : DispatchNode L),
      collect field (tree.nodes ++ [node])
        (((range.start + moved.length) :: stack).map (newId tree₀ range)).reverse =
      collect field tree.nodes (stack.map (newId tree₀ range)).reverse ++ (field node).toList := by
    intro α field node
    have hself : (tree.nodes ++ [node])[tree.nodes.length]? = some node :=
      List.getElem?_concat_length
    rw [List.map_cons, List.reverse_cons, collect_append, hid, collect_singleton _ hself]
    congr 1
    refine collect_congr _ fun nodeId hmem => ?_
    rw [List.getElem?_append_left (hold nodeId hmem)]
  have hcopy : Copies range (newId tree₀ range) tree₀.activeNodeId source
      { source with viewId := viewId, parent := tree.activeNodeId } := by
    refine ⟨rfl, rfl, rfl, rfl, rfl, fun parent hp hle hlt => ?_, fun hout => ?_⟩
    · rcases hparent with hhead | ⟨-, hbefore⟩
      · rw [hp] at hhead
        obtain ⟨rest, rfl⟩ := List.head?_eq_some_iff.mp hhead
        dsimp only
        rw [activeNodeId, h.nodeStack, List.map_cons, List.reverse_cons, ← List.append_assoc,
          List.getLast?_concat]
      · exact absurd hle (Nat.not_le.mpr (hbefore parent hp))
    · dsimp only
      cases stack with
      | nil => rw [activeNodeId, h.nodeStack, List.map_nil, List.reverse_nil, List.append_nil, activeNodeId]
      | cons parent stack =>
        rcases hparent with hhead | ⟨hnil, -⟩
        · have hin := h.inRange parent List.mem_cons_self
          exact absurd ⟨hin.1, hin.2.trans hroom⟩ (hout parent hhead.symm)
        · cases hnil
  refine ⟨_, hmove, ⟨added ++ [_], ?_, List.rel_append hcopies (.cons hcopy .nil)⟩, ?_, ?_, ?_, ?_⟩
  · rw [hadded, List.append_assoc]
  · intro nodeId hmem
    rw [List.length_append, List.length_singleton]
    rcases List.mem_cons.mp hmem with rfl | hmem
    · omega
    · have := h.inRange nodeId hmem
      omega
  · dsimp only
    rw [List.map_cons, List.reverse_cons, hid, ← List.append_assoc, h.nodeStack]
  · dsimp only
    rw [hcollect, h.contexts, List.append_assoc]
  · dsimp only
    rw [hcollect, h.views, List.append_assoc]

/-- One source node more at the end. -/
theorem moveNodes_concat {last : DispatchNode L} :
    ∀ (sourceNodes : List (DispatchNode L)) {sourceNodeId : DispatchNodeId}
      {stack stack₁ stack₂ : List DispatchNodeId} {tree tree₁ tree₂ tree₃ : DispatchTree L}
      {containsFocus : Bool} {lefts : List (DispatchNode L)} {left : DispatchNode L},
    moveNodes focus sourceNodes sourceNodeId stack tree =
      some (stack₁, tree₁, containsFocus, lefts) →
    popAncestors last.parent stack₁ tree₁ = some (stack₂, tree₂) →
    tree₂.moveNode last = some (tree₃, left) →
    moveNodes focus (sourceNodes ++ [last]) sourceNodeId stack tree =
      some ((sourceNodeId + sourceNodes.length) :: stack₂, tree₃,
        containsFocus || (last.focusId.isSome && last.focusId == focus), lefts ++ [left]) := by
  intro sourceNodes
  induction sourceNodes with
  | nil =>
    intro _ _ _ _ _ _ _ _ _ _ _ hmoves hpop hmove
    cases hmoves
    refine moveNodes_cons_eq_some.mpr ⟨_, _, _, _, false, [], hpop, hmove, rfl, ?_, rfl⟩
    rw [Bool.false_or, Bool.or_false]
  | cons sourceNode sourceNodes ih =>
    intro sourceNodeId _ _ _ _ _ _ _ _ _ _ hmoves hpop hmove
    obtain ⟨_, _, _, _, _, _, hpop₁, hmove₁, hrest, rfl, rfl⟩ := moveNodes_cons_eq_some.mp hmoves
    have hid : sourceNodeId + 1 + sourceNodes.length =
        sourceNodeId + (sourceNode :: sourceNodes).length := Nat.add_right_comm _ _ _
    have hih := ih hrest hpop hmove
    rw [hid] at hih
    exact moveNodes_cons_eq_some.mpr ⟨_, _, _, _, _, _, hpop₁, hmove₁, hih, Bool.or_assoc _ _ _, rfl⟩

/-- The nodes of a nested range that grows by one, with room for them. -/
theorem exists_concat_of_parents {nodes : List (DispatchNode L)} {parents : List (Option DispatchNodeId)}
    {parent : Option DispatchNodeId} {start stop : Nat} (hnodes : nodes.map DispatchNode.parent = parents ++ [parent])
    (hroom : start + (parents ++ [parent]).length ≤ stop) :
    ∃ init last, nodes = init ++ [last] ∧ init.map DispatchNode.parent = parents ∧ last.parent = parent ∧
      start + (init ++ [last]).length ≤ stop ∧ start + parents.length ≤ stop := by
  obtain ⟨init, tail, rfl, hinit, htail⟩ := List.map_eq_append_iff.mp hnodes
  obtain ⟨last, rfl, hlast⟩ := List.map_eq_singleton_iff.mp htail
  rw [← hnodes, List.length_map] at hroom
  refine ⟨init, last, rfl, hinit, hlast, hroom, ?_⟩
  rw [← hinit, List.length_map]
  rw [List.length_append] at hroom
  omega

/-- **A nested range is replayed**: the source stack is the chain of ancestors. -/
theorem Nested.moveNodes {parents : List (Option DispatchNodeId)} {chain : List DispatchNodeId}
    (h : Nested range.start parents chain) : ∀ (nodes : List (DispatchNode L)),
    nodes.map DispatchNode.parent = parents → range.start + parents.length ≤ range.stop →
    ∃ tree', DispatchTree.moveNodes focus nodes range.start [] tree₀ = some (chain, tree',
        nodes.any (fun node => node.focusId.isSome && node.focusId == focus),
        nodes.map DispatchNode.takeListeners) ∧
      Moving tree₀ range chain tree' nodes := by
  -- one node more, whose parent is on the chain or outside
  have hsnoc : ∀ (nodes : List (DispatchNode L)) (last : DispatchNode L)
      (closed chain : List DispatchNodeId) (tree₁ : DispatchTree L),
      DispatchTree.moveNodes focus nodes range.start [] tree₀ = some (closed ++ chain, tree₁,
        nodes.any (fun node => node.focusId.isSome && node.focusId == focus),
        nodes.map DispatchNode.takeListeners) →
      Moving tree₀ range (closed ++ chain) tree₁ nodes →
      range.start + (nodes ++ [last]).length ≤ range.stop →
      (∀ nodeId ∈ closed, last.parent ≠ some nodeId) →
      (chain.head? = last.parent ∨ (chain = [] ∧ ∀ parent ∈ last.parent, parent < range.start)) →
      ∃ tree', DispatchTree.moveNodes focus (nodes ++ [last]) range.start [] tree₀ =
        some ((range.start + nodes.length) :: chain, tree',
          (nodes ++ [last]).any (fun node => node.focusId.isSome && node.focusId == focus),
          (nodes ++ [last]).map DispatchNode.takeListeners) ∧
        Moving tree₀ range ((range.start + nodes.length) :: chain) tree' (nodes ++ [last]) := by
    intro nodes last closed chain tree₁ hmoves hmoving hroom hclosed hparent
    rw [List.length_append, List.length_singleton] at hroom
    have hstop : ∀ nodeId ∈ chain.head?, last.parent = some nodeId := by
      intro nodeId hmem
      rcases hparent with hhead | ⟨rfl, -⟩
      · exact hhead.symm.trans hmem
      · cases hmem
    obtain ⟨tree₂, hpop, hmoving₂⟩ := Moving.popAncestors hstop closed hclosed hmoving
    obtain ⟨tree₃, hmove, hmoving₃⟩ := hmoving₂.moveNode (by omega) hparent
    refine ⟨tree₃, ?_, hmoving₃⟩
    rw [moveNodes_concat nodes hmoves hpop hmove, List.any_append, List.map_append, List.any_cons,
      List.any_nil, Bool.or_false, List.map_singleton]
  induction h with
  | nil =>
    intro nodes hnodes _
    obtain rfl := List.map_eq_nil_iff.mp hnodes
    exact ⟨tree₀, rfl, moving_start tree₀ range⟩
  | @inner parents closed chain parent hnested ih =>
    intro nodes hnodes hroom
    obtain ⟨init, last, rfl, rfl, hlast, hroom, hinit⟩ := exists_concat_of_parents hnodes hroom
    obtain ⟨tree₁, hmoves, hmoving⟩ := ih init rfl hinit
    rw [List.length_map]
    refine hsnoc init last closed (parent :: chain) tree₁ hmoves hmoving hroom ?_ (.inl hlast.symm)
    intro nodeId hmem heq
    rw [hlast] at heq
    obtain rfl := Option.some.inj heq
    exact absurd ((List.pairwise_append.mp hnested.chain.1).2.2 _ hmem _ List.mem_cons_self)
      (lt_irrefl _)
  | @outer parents chain parent hnested hout ih =>
    intro nodes hnodes hroom
    obtain ⟨init, last, rfl, rfl, hlast, hroom, hinit⟩ := exists_concat_of_parents hnodes hroom
    obtain ⟨tree₁, hmoves, hmoving⟩ := ih init rfl hinit
    rw [List.length_map]
    rw [← hlast] at hout
    rw [← List.append_nil chain] at hmoves hmoving
    refine hsnoc init last chain [] tree₁ hmoves hmoving hroom ?_ (.inr ⟨rfl, hout⟩)
    intro nodeId hmem heq
    exact absurd (hnested.chain.2 nodeId hmem).1 (Nat.not_le.mpr (hout nodeId heq))

/-- **A reused subtree is a copy.**  For a range that balanced calls created, the
tree gains one node for each node of the range, under the id that `refresh_node_id`
gives, and its stacks are as before; the source loses the listeners of the range. -/
theorem reuseSubtree_isomorphic (tree source : DispatchTree L) (range : IndexRange Nat)
    (focus : Option FocusId) (h : BalancedRange source range) :
    ∃ tree' source' reused, tree.reuseSubtree range source focus = some (tree', source', reused) ∧
      tree'.nodes.length = tree.nodes.length + (range.stop - range.start) ∧
      tree'.nodes.take tree.nodes.length = tree.nodes ∧
      tree'.nodeStack = tree.nodeStack ∧ tree'.contextStack = tree.contextStack ∧
      tree'.viewStack = tree.viewStack ∧
      (∀ nodeId, range.start ≤ nodeId → nodeId < range.stop → ∃ old new,
        source.nodes[nodeId]? = some old ∧
        tree'.nodes[reused.refreshNodeId nodeId]? = some new ∧
        Copies range reused.refreshNodeId tree.activeNodeId old new ∧
        source'.nodes[nodeId]? = some old.takeListeners) ∧
      (∀ nodeId, (nodeId < range.start ∨ range.stop ≤ nodeId) →
        source'.nodes[nodeId]? = source.nodes[nodeId]?) ∧
      (reused.containsFocus = true ↔ ∃ focusId nodeId node, focus = some focusId ∧
        range.start ≤ nodeId ∧ nodeId < range.stop ∧ source.nodes[nodeId]? = some node ∧
        node.focusId = some focusId) := by
  obtain ⟨parents, chain, hnested, hparents, hstop⟩ := h.nested
  set nodes := (source.nodes.drop range.start).take (range.stop - range.start) with hnodes
  have hsize : nodes.length = range.stop - range.start := by
    rw [← List.length_map (f := DispatchNode.parent), hparents, hstop, Nat.add_sub_cancel_left]
  obtain ⟨tree₁, hmoves, hmoving⟩ : ∃ tree₁, DispatchTree.moveNodes focus nodes range.start [] tree = some (chain, tree₁,
      nodes.any (fun node => node.focusId.isSome && node.focusId == focus), nodes.map DispatchNode.takeListeners) ∧
      Moving tree range chain tree₁ nodes := hnested.moveNodes nodes hparents hstop.ge
  obtain ⟨tree', hpop, hdone⟩ := Moving.popAll chain hmoving
  obtain ⟨added, hadded, hcopies⟩ := hdone.nodes
  have hget : ∀ nodeId, range.start ≤ nodeId → nodeId < range.stop →
      source.nodes[nodeId]? = nodes[nodeId - range.start]? := by
    intro nodeId hle hlt
    rw [hnodes, List.getElem?_take_of_lt (by omega), List.getElem?_drop,
      Nat.add_sub_cancel' hle]
  have hleft : ∀ nodeId, range.start ≤ source.nodes.length →
      (source.nodes.take range.start ++ nodes.map DispatchNode.takeListeners ++
        source.nodes.drop (range.start + (range.stop - range.start)))[nodeId]? =
      if nodeId < range.start then source.nodes[nodeId]?
      else if nodeId < range.start + (range.stop - range.start) then
        (nodes[nodeId - range.start]?).map DispatchNode.takeListeners
      else source.nodes[nodeId]? := by
    intro nodeId hin
    have hmapped : (nodes.map DispatchNode.takeListeners).length = range.stop - range.start := by
      rw [List.length_map, hsize]
    rw [← hmapped, getElem?_replace hin, List.getElem?_map]
  refine ⟨tree', _, _, reuseSubtree_eq_some.mpr ⟨chain, tree₁, _, _, hmoves, hpop, rfl, rfl⟩,
    ?_, ?_, ?_, ?_, ?_, fun nodeId hle hlt => ?_, fun nodeId hout => ?_, ?_⟩
  · rw [hadded, List.length_append, ← hcopies.length_eq, hsize]
  · rw [hadded, List.take_left]
  · exact hdone.nodeStack.trans (List.append_nil _)
  · exact hdone.contexts.trans (List.append_nil _)
  · exact hdone.views.trans (List.append_nil _)
  · have hi : nodeId - range.start < nodes.length := by omega
    have hi' : nodeId - range.start < added.length := by rw [← hcopies.length_eq]; exact hi
    have hold : source.nodes[nodeId]? = some nodes[nodeId - range.start] := by
      rw [hget nodeId hle hlt, List.getElem?_eq_getElem hi]
    refine ⟨_, added[nodeId - range.start], hold, ?_, hcopies.get hi hi', ?_⟩
    · rw [hadded, ReusedSubtree.refreshNodeId, List.getElem?_append_right (Nat.le_add_left _ _),
        Nat.add_sub_cancel, List.getElem?_eq_getElem hi']
    · have hin := (List.getElem?_eq_some_iff.mp hold).1
      dsimp only
      rw [hleft nodeId (hle.trans hin.le), if_neg (by omega), if_pos (by omega),
        List.getElem?_eq_getElem hi, Option.map_some]
  · dsimp only
    by_cases hin : range.start ≤ source.nodes.length
    · rw [hleft nodeId hin]
      rcases hout with hlt | hge
      · rw [if_pos hlt]
      · rw [if_neg (by omega), if_neg (by omega)]
    · have hnil : nodes = [] := by
        rw [hnodes, List.drop_eq_nil_of_le (by omega), List.take_nil]
      rw [hnil, List.map_nil, List.append_nil, List.take_of_length_le (by omega),
        List.drop_eq_nil_of_le (by omega), List.append_nil]
  · rw [List.any_eq_true]
    constructor
    · rintro ⟨node, hmem, hfocus⟩
      obtain ⟨hsome, heq⟩ := Bool.and_eq_true_iff.mp hfocus
      obtain ⟨focusId, hfocusId⟩ := Option.isSome_iff_exists.mp hsome
      obtain ⟨i, hi, rfl⟩ := List.getElem_of_mem hmem
      refine ⟨focusId, range.start + i, nodes[i], ?_, Nat.le_add_right _ _, by omega, ?_, hfocusId⟩
      · rw [← beq_iff_eq.mp heq, hfocusId]
      · rw [hget _ (Nat.le_add_right _ _) (by omega), Nat.add_sub_cancel_left,
          List.getElem?_eq_getElem hi]
    · rintro ⟨focusId, nodeId, node, rfl, hle, hlt, hnode, hfocusId⟩
      rw [hget nodeId hle hlt] at hnode
      refine ⟨node, List.mem_of_getElem? hnode, ?_⟩
      rw [hfocusId, Option.isSome_some, Bool.true_and]
      exact beq_self_eq_true _

/-- A node with a listener between two others. -/
def listeningView : List (Op Nat) :=
  [.pushNode, .pushNode, .setKeyContext (KeyContext.empty.add ['e']), .onKeyEvent 5, .popNode,
    .pushNode, .popNode, .popNode]

theorem listeningView_runs : (run step new listeningView).isSome = true := by decide +kernel

theorem balancedRange_listeningView :
    BalancedRange ((run step new listeningView).get listeningView_runs) ⟨0, 3⟩ := by
  refine ⟨new, _, listeningView, fun nodeId hmem => ?_, by decide +kernel,
    (Option.some_get _).symm, by decide +kernel, rfl, by decide +kernel, fun _ _ _ => rfl⟩
  cases hmem

/-- The listener moves over to a tree with one node. -/
theorem reuseSubtree_isomorphic_listeningView : ∃ tree' source' reused,
    (new.pushNode.2).reuseSubtree ⟨0, 3⟩
        ((run step new listeningView).get listeningView_runs) none = some (tree', source', reused) ∧
      tree'.nodes.length = 4 ∧ tree'.nodeStack = [0] := by
  obtain ⟨tree', source', reused, hreuse, hlen, -, hstack, -⟩ :=
    reuseSubtree_isomorphic new.pushNode.2 ((run step new listeningView).get listeningView_runs)
      ⟨0, 3⟩ none balancedRange_listeningView
  exact ⟨tree', source', reused, hreuse, hlen, hstack⟩

end DispatchTree

end FcGpui
