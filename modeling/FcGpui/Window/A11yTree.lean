import FcGpui.Lib.Machine

/-!
# The accessibility tree

`A11yNodeBuilder` in `crates/gpui/src/window/a11y.rs`.  While a frame is prepainted, every element
with a role pushes a node and pops it when its children are done.  The ids and the nodes that are
not done yet are on two stacks; a node is listed as a child of the one on top when it is pushed,
and comes to `all_nodes` when it is popped.  `finalize` pops what is left, the root last, and
`repair_tree_update` drops what `AccessKit` would panic on.

A node is its children and its other data, which is a parameter.

`Shaped` is what the calls keep while no node that is pushed lists anything: the two stacks and
`all_nodes` hold every id once (`entries`), and every id but the root's is listed once, and reached
from the root.  A node may list ids that no node of the frame has, which are stripped in the end: to
strip them from the nodes that are pushed is the same (`run_restrict`, `finalize_restrict`).

**Main result.**  `finalize_isTree`.
-/

namespace FcGpui

abbrev A11yNodeId := Nat

/-- `ROOT_NODE_ID`. -/
def rootNodeId : A11yNodeId := 0

variable {δ : Type}

/-- An `accesskit::Node`. -/
structure A11yNode (δ : Type) where
  data : δ
  children : List A11yNodeId
deriving DecidableEq, Repr

namespace A11yNode

def new (data : δ) : A11yNode δ := ⟨data, []⟩

def pushChild (node : A11yNode δ) (id : A11yNodeId) : A11yNode δ :=
  { node with children := node.children ++ [id] }

def setChildren (node : A11yNode δ) (children : List A11yNodeId) : A11yNode δ :=
  { node with children := children }

/-- The node with those of its children that have one of the ids. -/
def restrict (ids : List A11yNodeId) (node : A11yNode δ) : A11yNode δ :=
  node.setChildren (node.children.filter fun childId => childId ∈ ids)

theorem restrict_eq_self {ids : List A11yNodeId} {node : A11yNode δ}
    (h : ∀ childId ∈ node.children, childId ∈ ids) : node.restrict ids = node := by
  rw [restrict, List.filter_eq_self.mpr fun childId hchild => decide_eq_true (h childId hchild)]
  rfl

theorem restrict_pushChild {ids : List A11yNodeId} {id : A11yNodeId} (node : A11yNode δ) (h : id ∈ ids) :
    (node.pushChild id).restrict ids = (node.restrict ids).pushChild id := by
  simp only [restrict, setChildren, pushChild, List.filter_append, List.filter_cons, List.filter_nil, decide_eq_true h,
    if_true]

theorem restrict_restrict {ids ids' : List A11yNodeId} (node : A11yNode δ) (h : ids' ⊆ ids) :
    (node.restrict ids).restrict ids' = node.restrict ids' := by
  simp only [restrict, setChildren, List.filter_filter]
  congr 1
  refine List.filter_congr fun childId _ => ?_
  rw [Bool.and_eq_left_iff_imp]
  exact fun hchild => decide_eq_true (h (of_decide_eq_true hchild))

end A11yNode

structure TreeUpdate (δ : Type) where
  nodes : List (A11yNodeId × A11yNode δ)
  tree : Option A11yNodeId
  focus : A11yNodeId
deriving DecidableEq, Repr

/-- The last of a stack is first here. -/
structure A11yNodeBuilder (δ : Type) where
  idsStack : List A11yNodeId
  nodesStack : List (A11yNode δ)
  allNodes : List (A11yNodeId × A11yNode δ)
  seenIds : List A11yNodeId
  focus : A11yNodeId

namespace TreeUpdate

def nodeIds (update : TreeUpdate δ) : List A11yNodeId := update.nodes.map Prod.fst

/-- `repair_tree_update`, of one node. -/
def repairNode (nodeIds : List A11yNodeId) (node : A11yNode δ) : A11yNode δ :=
  if ∃ childId ∈ node.children, childId ∉ nodeIds then
    node.setChildren (node.children.filter fun childId => childId ∈ nodeIds)
  else node

/-- What is left are the children that have one of the ids. -/
theorem repairNode_eq (nodeIds : List A11yNodeId) (node : A11yNode δ) :
    repairNode nodeIds node = node.restrict nodeIds := by
  rw [repairNode]
  split
  · rfl
  · rename_i hnone
    refine (A11yNode.restrict_eq_self fun childId hchild => ?_).symm
    by_contra hmissing
    exact hnone ⟨childId, hchild, hmissing⟩

def repair (update : TreeUpdate δ) : TreeUpdate δ :=
  { update with
    focus := if update.focus ∈ update.nodeIds then update.focus else rootNodeId
    nodes := update.nodes.map fun entry => (entry.1, repairNode update.nodeIds entry.2) }

/-- Every id that some node lists as a child, as often as it is listed. -/
def listed (update : TreeUpdate δ) : List A11yNodeId :=
  update.nodes.flatMap fun entry => entry.2.children

/-- `parent` lists `child`. -/
def Lists (update : TreeUpdate δ) (parent child : A11yNodeId) : Prop :=
  ∃ node, (parent, node) ∈ update.nodes ∧ child ∈ node.children

/-- The nodes are a tree below the root, and the focus is one of them. -/
structure IsTree (update : TreeUpdate δ) : Prop where
  tree : update.tree = some rootNodeId
  distinct : update.nodeIds.Nodup
  root : rootNodeId ∈ update.nodeIds ∧ rootNodeId ∉ update.listed
  once : ∀ id ∈ update.nodeIds, id ≠ rootNodeId → update.listed.count id = 1
  exists_of_listed : ∀ id ∈ update.listed, id ∈ update.nodeIds
  reachable : ∀ id ∈ update.nodeIds, Relation.ReflTransGen update.Lists rootNodeId id
  focus : update.focus ∈ update.nodeIds

end TreeUpdate

inductive A11yCall (δ : Type)
  | push (id : A11yNodeId) (node : A11yNode δ)
  | pop
  | setFocus (id : A11yNodeId)

namespace A11yNodeBuilder

def new : A11yNodeBuilder δ := ⟨[], [], [], [], rootNodeId⟩

/-- Whether the node is pushed. -/
def push (s : A11yNodeBuilder δ) (id : A11yNodeId) (node : A11yNode δ) : Bool × A11yNodeBuilder δ :=
  if id ∈ s.seenIds then (false, s)
  else
    let nodesStack :=
      match s.nodesStack with
      | parent :: rest => parent.pushChild id :: rest
      | [] => []
    (true, { s with
      seenIds := id :: s.seenIds
      idsStack := id :: s.idsStack
      nodesStack := node :: nodesStack })

def pop (s : A11yNodeBuilder δ) : A11yNodeBuilder δ :=
  let allNodes :=
    match s.idsStack, s.nodesStack with
    | id :: _, node :: _ => s.allNodes ++ [(id, node)]
    | _, _ => s.allNodes
  { s with idsStack := s.idsStack.tail, nodesStack := s.nodesStack.tail, allNodes := allNodes }

/-- `window` is what a new node of the role `Window` holds. -/
def beginFrame (window : δ) (_ : A11yNodeBuilder δ) : A11yNodeBuilder δ where
  idsStack := [rootNodeId]
  nodesStack := [.new window]
  allNodes := []
  seenIds := []
  focus := rootNodeId

def setFocus (s : A11yNodeBuilder δ) (id : A11yNodeId) : A11yNodeBuilder δ := { s with focus := id }

/-- Pops until the stack of ids is empty. -/
def drain (s : A11yNodeBuilder δ) : A11yNodeBuilder δ := pop^[s.idsStack.length] s

def finalize (s : A11yNodeBuilder δ) : TreeUpdate δ :=
  TreeUpdate.repair ⟨s.drain.allNodes, some rootNodeId, s.focus⟩

/-- `none` where `pop` would remove the root. -/
def step (s : A11yNodeBuilder δ) : A11yCall δ → Option (A11yNodeBuilder δ)
  | .push id node => some (s.push id node).2
  | .pop => if 1 < s.idsStack.length then some s.pop else none
  | .setFocus id => some (s.setFocus id)

/-! ### What the calls keep -/

/-- The nodes that are done and those that are not. -/
def entries (s : A11yNodeBuilder δ) : List (A11yNodeId × A11yNode δ) :=
  s.allNodes ++ s.idsStack.zip s.nodesStack

/-- What a frame would be if it ended now, without repairs. -/
def update (s : A11yNodeBuilder δ) : TreeUpdate δ := ⟨s.entries, some rootNodeId, s.focus⟩

/-- A call that pushes no id of the root, and no node that lists something. -/
def Fresh (s : A11yNodeBuilder δ) : A11yCall δ → Prop
  | .push id node => id ≠ rootNodeId ∧ (id ∉ s.seenIds → node.children = [])
  | _ => True

structure Shaped (s : A11yNodeBuilder δ) : Prop where
  level : s.idsStack.length = s.nodesStack.length
  bottom : s.idsStack ≠ []
  nodup : (rootNodeId :: s.seenIds).Nodup
  ids : s.update.nodeIds.Perm (rootNodeId :: s.seenIds)
  listed : s.update.listed.Perm s.seenIds
  reachable : ∀ id ∈ s.update.nodeIds, Relation.ReflTransGen s.update.Lists rootNodeId id

theorem shaped_beginFrame (window : δ) (s : A11yNodeBuilder δ) : (s.beginFrame window).Shaped where
  level := rfl
  bottom := List.cons_ne_nil _ _
  nodup := List.nodup_singleton _
  ids := List.Perm.refl _
  listed := List.Perm.refl _
  reachable id hid := by
    obtain rfl : id = rootNodeId := List.mem_singleton.mp hid
    exact .refl

variable {s s' : A11yNodeBuilder δ}

theorem Shaped.cases (h : s.Shaped) : ∃ top ids node nodes, s.idsStack = top :: ids ∧
    s.nodesStack = node :: nodes ∧ ids.length = nodes.length := by
  obtain ⟨top, ids, hids⟩ := List.exists_cons_of_ne_nil h.bottom
  have hlength := h.level
  rw [hids] at hlength
  obtain ⟨node, nodes, hnodes⟩ := List.exists_cons_of_length_eq_add_one hlength.symm
  rw [hnodes] at hlength
  exact ⟨top, ids, node, nodes, hids, hnodes, Nat.succ.inj hlength⟩

/-- **A pop** moves an entry. -/
theorem entries_pop (s : A11yNodeBuilder δ) : s.pop.entries = s.entries := by
  rw [entries, entries, pop]
  cases hids : s.idsStack with
  | nil => simp
  | cons id ids =>
    cases hnodes : s.nodesStack with
    | nil => simp
    | cons node nodes => simp

theorem update_pop (s : A11yNodeBuilder δ) : s.pop.update = s.update := by
  rw [update, update, entries_pop]
  rfl

theorem Shaped.pop (h : s.Shaped) (hlength : 1 < s.idsStack.length) : s.pop.Shaped where
  level := by
    show s.idsStack.tail.length = s.nodesStack.tail.length
    rw [List.length_tail, List.length_tail, h.level]
  bottom := by
    show s.idsStack.tail ≠ []
    rw [← List.length_pos_iff, List.length_tail]
    omega
  nodup := h.nodup
  ids := by
    rw [update_pop]
    exact h.ids
  listed := by
    rw [update_pop]
    exact h.listed
  reachable := by
    rw [update_pop]
    exact h.reachable

theorem Shaped.setFocus (h : s.Shaped) (id : A11yNodeId) : (s.setFocus id).Shaped :=
  ⟨h.level, h.bottom, h.nodup, h.ids, h.listed, h.reachable⟩

/-- The entries before and after a push that succeeds: one is new, and the one on top of the stack
lists it. -/
structure Pushes (s s' : A11yNodeBuilder δ) (top : A11yNodeId) (id : A11yNodeId)
    (node : A11yNode δ) : Prop where
  fresh : id ∉ s.seenIds
  top_eq : s.idsStack.head? = some top
  entries : ∃ before after parent, s.entries = before ++ (top, parent) :: after ∧
    s'.entries = before ++ (id, node) :: (top, parent.pushChild id) :: after

variable {id : A11yNodeId} {ids : List A11yNodeId}

theorem Shaped.pushes (h : s.Shaped) (hid : id ∉ s.seenIds) (node : A11yNode δ) :
    ∃ top, Pushes s (s.push id node).2 top id node := by
  obtain ⟨top, ids, parent, nodes, hids, hnodes, -⟩ := h.cases
  refine ⟨top, hid, by rw [hids]; rfl, s.allNodes, ids.zip nodes, parent, ?_, ?_⟩
  · rw [A11yNodeBuilder.entries, hids, hnodes]
    rfl
  · rw [push, if_neg hid, A11yNodeBuilder.entries]
    simp only [hids, hnodes]
    rfl

/-- What is listed before is listed after it, and besides the new node below the top. -/
theorem Pushes.lists {top : A11yNodeId} {node : A11yNode δ} (h : Pushes s s' top id node) :
    s'.update.Lists top id ∧ ∀ p c, s.update.Lists p c → s'.update.Lists p c := by
  obtain ⟨before, after, parent, hs, hs'⟩ := h.entries
  refine ⟨⟨parent.pushChild id, ?_, List.mem_append_right _ List.mem_cons_self⟩, ?_⟩
  · show _ ∈ s'.entries
    rw [hs']
    simp
  · rintro p c ⟨n, hn, hc⟩
    replace hn : (p, n) ∈ s.entries := hn
    rw [hs] at hn
    have hmem : ∀ entry, entry ∈ before ∨ entry ∈ after → entry ∈ s'.entries := by
      intro entry hentry
      rw [hs']
      rcases hentry with hentry | hentry <;> simp [hentry]
    rcases List.mem_append.mp hn with hn | hn
    · exact ⟨n, hmem _ (Or.inl hn), hc⟩
    · rcases List.mem_cons.mp hn with hn | hn
      · cases hn
        refine ⟨parent.pushChild id, ?_, List.mem_append_left _ hc⟩
        show _ ∈ s'.entries
        rw [hs']
        simp
      · exact ⟨n, hmem _ (Or.inr hn), hc⟩

/-- **A push that succeeds.** -/
theorem Shaped.push (h : s.Shaped) {node : A11yNode δ} (hid : id ∉ s.seenIds)
    (hroot : id ≠ rootNodeId) (hnode : node.children = []) : (s.push id node).2.Shaped := by
  obtain ⟨top, hpushes⟩ := h.pushes hid node
  obtain ⟨hlists, hmono⟩ := hpushes.lists
  obtain ⟨before, after, parent, hs, hs'⟩ := hpushes.entries
  have hseen : (s.push id node).2.seenIds = id :: s.seenIds := by rw [A11yNodeBuilder.push, if_neg hid]
  have hids : (s.push id node).2.update.nodeIds.Perm (id :: s.update.nodeIds) := by
    show ((s.push id node).2.entries.map Prod.fst).Perm (id :: s.entries.map Prod.fst)
    rw [hs, hs']
    simp only [List.map_append, List.map_cons]
    exact List.perm_middle
  have hlisted : (s.push id node).2.update.listed.Perm (id :: s.update.listed) := by
    show ((s.push id node).2.entries.flatMap _).Perm (id :: s.entries.flatMap _)
    rw [hs, hs']
    simp only [List.flatMap_append, List.flatMap_cons, hnode, List.nil_append, A11yNode.pushChild,
      List.append_assoc, List.singleton_append]
    rw [← List.append_assoc, ← List.append_assoc]
    exact List.perm_middle
  have hswap := List.Perm.swap id rootNodeId s.seenIds
  refine ⟨?_, ?_, ?_, ?_, ?_, ?_⟩
  · obtain ⟨top, ids, parent, nodes, hidsStack, hnodesStack, hlength⟩ := h.cases
    rw [A11yNodeBuilder.push, if_neg hid]
    simp only [hidsStack, hnodesStack, List.length_cons, hlength]
  · rw [A11yNodeBuilder.push, if_neg hid]
    exact List.cons_ne_nil _ _
  · rw [hseen, hswap.nodup_iff]
    refine List.nodup_cons.mpr ⟨fun hmem => ?_, h.nodup⟩
    exact (List.mem_cons.mp hmem).elim hroot hid
  · rw [hseen]
    exact hids.trans ((h.ids.cons id).trans hswap.symm)
  · rw [hseen]
    exact hlisted.trans (h.listed.cons id)
  · intro id' hid'
    have htop : top ∈ s.update.nodeIds := by
      show top ∈ s.entries.map Prod.fst
      rw [hs]
      simp
    rcases List.mem_cons.mp (hids.mem_iff.mp hid') with rfl | hid'
    · exact (Relation.ReflTransGen.mono hmono _ _ (h.reachable top htop)).tail hlists
    · exact Relation.ReflTransGen.mono hmono _ _ (h.reachable id' hid')

/-- **One call.** -/
theorem Shaped.step (s : A11yNodeBuilder δ) (call : A11yCall δ) (s' : A11yNodeBuilder δ)
    (h : s.Shaped) (hfresh : s.Fresh call) (hs : s.step call = some s') : s'.Shaped := by
  cases call with
  | push id node =>
    obtain rfl := Option.some.inj hs
    by_cases hid : id ∈ s.seenIds
    · rw [A11yNodeBuilder.push, if_pos hid]
      exact h
    · exact h.push hid hfresh.1 (hfresh.2 hid)
  | pop =>
    obtain ⟨hlength, hs⟩ := Option.ite_none_right_eq_some.mp hs
    obtain rfl := Option.some.inj hs
    exact h.pop hlength
  | setFocus id =>
    obtain rfl := Option.some.inj hs
    exact h.setFocus id

theorem Shaped.lists_step (h : s.Shaped) {call : A11yCall δ} (hs : s.step call = some s')
    {p c : A11yNodeId} (hlists : s.update.Lists p c) : s'.update.Lists p c := by
  cases call with
  | push id node =>
    obtain rfl := Option.some.inj hs
    by_cases hid : id ∈ s.seenIds
    · rw [A11yNodeBuilder.push, if_pos hid]
      exact hlists
    · obtain ⟨top, hpushes⟩ := h.pushes hid node
      exact hpushes.lists.2 p c hlists
  | pop =>
    obtain ⟨-, hs⟩ := Option.ite_none_right_eq_some.mp hs
    obtain rfl := Option.some.inj hs
    rw [update_pop]
    exact hlists
  | setFocus id =>
    obtain rfl := Option.some.inj hs
    exact hlists

theorem Shaped.lists_run (h : s.Shaped) {calls : List (A11yCall δ)}
    (hmeets : RunMeets A11yNodeBuilder.step Fresh s calls)
    (hrun : run A11yNodeBuilder.step s calls = some s') {p c : A11yNodeId}
    (hlists : s.update.Lists p c) : s'.update.Lists p c := by
  have hstep : ∀ (s : A11yNodeBuilder δ) (call : A11yCall δ) (s' : A11yNodeBuilder δ),
      s.Shaped ∧ s.update.Lists p c → s.Fresh call → s.step call = some s' →
        s'.Shaped ∧ s'.update.Lists p c :=
    fun s call s' hs hfresh hstep =>
      ⟨Shaped.step s call s' hs.1 hfresh hstep, hs.1.lists_step hstep hs.2⟩
  exact (run_invariant hstep calls ⟨h, hlists⟩ hmeets hrun).2

/-! ### The end of the frame -/

/-- `drain` leaves nothing on the stacks. -/
theorem allNodes_drain (h : s.idsStack.length = s.nodesStack.length) :
    s.drain.allNodes = s.entries := by
  have hpops : ∀ (n : Nat) (s : A11yNodeBuilder δ), s.idsStack.length = n →
      s.nodesStack.length = n → (A11yNodeBuilder.pop^[n] s).allNodes = s.entries := by
    intro n
    induction n with
    | zero =>
      intro s hids hnodes
      rw [Function.iterate_zero_apply, entries, List.length_eq_zero_iff.mp hids]
      simp
    | succ n ih =>
      intro s hids hnodes
      rw [Function.iterate_succ_apply, ih s.pop, entries_pop]
      · show s.idsStack.tail.length = n
        rw [List.length_tail, hids]
        rfl
      · show s.nodesStack.tail.length = n
        rw [List.length_tail, hnodes]
        rfl
  exact hpops _ s rfl h.symm

theorem repair_nodes {u : TreeUpdate δ} (h : ∀ id ∈ u.listed, id ∈ u.nodeIds) :
    u.repair.nodes = u.nodes := by
  have hnode : ∀ entry ∈ u.nodes,
      (entry.1, TreeUpdate.repairNode u.nodeIds entry.2) = id entry := by
    intro entry hentry
    have hall : ∀ childId ∈ entry.2.children, childId ∈ u.nodeIds :=
      fun childId hchild => h childId (List.mem_flatMap.mpr ⟨entry, hentry, hchild⟩)
    rw [TreeUpdate.repairNode_eq, A11yNode.restrict_eq_self hall]
    rfl
  show u.nodes.map _ = u.nodes
  rw [List.map_congr_left hnode, List.map_id]

theorem Shaped.exists_of_listed (h : s.Shaped) : ∀ id ∈ s.update.listed, id ∈ s.update.nodeIds :=
  fun _ hid => h.ids.mem_iff.mpr (List.mem_cons_of_mem _ (h.listed.mem_iff.mp hid))

/-- **The nodes of the update are the entries.** -/
theorem Shaped.nodes_finalize (h : s.Shaped) : s.finalize.nodes = s.entries := by
  rw [finalize, allNodes_drain h.level]
  exact repair_nodes (u := s.update) h.exists_of_listed

theorem Shaped.isTree (h : s.Shaped) : s.finalize.IsTree := by
  have hnodes := h.nodes_finalize
  have hids : s.finalize.nodeIds = s.update.nodeIds := by
    rw [TreeUpdate.nodeIds, hnodes]
    rfl
  have hlisted : s.finalize.listed = s.update.listed := by
    rw [TreeUpdate.listed, hnodes]
    rfl
  have hlists : s.finalize.Lists = s.update.Lists := by
    funext p c
    rw [TreeUpdate.Lists, hnodes]
    rfl
  have hroot : rootNodeId ∈ s.update.nodeIds := h.ids.mem_iff.mpr List.mem_cons_self
  obtain ⟨hrootNew, hseen⟩ := List.nodup_cons.mp h.nodup
  refine ⟨rfl, ?_, ⟨?_, ?_⟩, fun id hid hne => ?_, fun id hid => ?_, fun id hid => ?_, ?_⟩
  · rw [hids, h.ids.nodup_iff]
    exact h.nodup
  · rw [hids]
    exact hroot
  · rw [hlisted, h.listed.mem_iff]
    exact hrootNew
  · rw [hids, h.ids.mem_iff] at hid
    rw [hlisted, h.listed.count_eq]
    exact List.count_eq_one_of_mem hseen ((List.mem_cons.mp hid).resolve_left hne)
  · rw [hlisted] at hid
    rw [hids]
    exact h.exists_of_listed id hid
  · rw [hids] at hid
    rw [hlists]
    exact h.reachable id hid
  · rw [hids, finalize, allNodes_drain h.level]
    show (if s.focus ∈ s.update.nodeIds then s.focus else rootNodeId) ∈ s.update.nodeIds
    split
    · assumption
    · exact hroot

/-- A frame that pushes no node that lists something: the one on top of the stack lists what is pushed. -/
theorem shaped_frame (window : δ) (s₀ : A11yNodeBuilder δ) {calls : List (A11yCall δ)}
    (hmeets : RunMeets step Fresh (s₀.beginFrame window) calls)
    (hrun : run step (s₀.beginFrame window) calls = some s) :
    s.Shaped ∧ ∀ before id node after mid, calls = before ++ .push id node :: after →
      run step (s₀.beginFrame window) before = some mid → (mid.push id node).1 = true →
      ∃ top, mid.idsStack.head? = some top ∧ s.finalize.Lists top id := by
  have hstart := shaped_beginFrame window s₀
  have hshaped := run_invariant Shaped.step calls hstart hmeets hrun
  refine ⟨hshaped, ?_⟩
  rintro before id node after mid rfl hbefore hpushed
  obtain ⟨hmeets, hmeetsAfter⟩ := hmeets.append before hbefore
  have hmid := run_invariant Shaped.step before hstart hmeets hbefore
  have hid : id ∉ mid.seenIds := by
    intro hid
    rw [push, if_pos hid] at hpushed
    cases hpushed
  obtain ⟨top, hpushes⟩ := hmid.pushes hid node
  refine ⟨top, hpushes.top_eq, ?_⟩
  rw [run_rest hbefore] at hrun
  have hnext := Shaped.step mid (.push id node) _ hmid hmeetsAfter.1 rfl
  obtain ⟨entry, hentry, hchild⟩ := hnext.lists_run hmeetsAfter.2 hrun hpushes.lists.1
  refine ⟨entry, ?_, hchild⟩
  rw [hshaped.nodes_finalize]
  exact hentry

/-! ### Nodes that list something already -/

/-- The ids that the calls push. -/
def pushedIds (calls : List (A11yCall δ)) : List A11yNodeId :=
  calls.filterMap fun call => match call with
    | .push id _ => some id
    | _ => none

/-- A call in a frame of the ids: a node that is pushed has one of them, not that of the root, and
lists none of them. -/
def Apart (ids : List A11yNodeId) (s : A11yNodeBuilder δ) : A11yCall δ → Prop
  | .push id node => id ≠ rootNodeId ∧ (id ∉ s.seenIds → ∀ child ∈ node.children, child ∉ rootNodeId :: ids)
  | _ => True

/-- A call whose node lists what has one of the ids. -/
def restrictCall (ids : List A11yNodeId) : A11yCall δ → A11yCall δ
  | .push id node => .push id (node.restrict ids)
  | .pop => .pop
  | .setFocus id => .setFocus id

/-- All nodes list what has one of the ids. -/
def restrict (ids : List A11yNodeId) (s : A11yNodeBuilder δ) : A11yNodeBuilder δ :=
  { s with
    nodesStack := s.nodesStack.map (A11yNode.restrict ids)
    allNodes := s.allNodes.map fun entry => (entry.1, entry.2.restrict ids) }

theorem push_restrict (s : A11yNodeBuilder δ) (node : A11yNode δ)
    (h : id ∈ ids) : (s.restrict ids).push id (node.restrict ids)
      = ((s.push id node).1, (s.push id node).2.restrict ids) := by
  rw [push, push]
  show (if id ∈ s.seenIds then _ else _) = _
  by_cases hid : id ∈ s.seenIds
  · rw [if_pos hid, if_pos hid]
  · rw [if_neg hid, if_neg hid]
    cases hnodes : s.nodesStack with
    | nil => simp [restrict, hnodes]
    | cons parent rest => simp [restrict, hnodes, A11yNode.restrict_pushChild parent h]

theorem pop_restrict (ids : List A11yNodeId) (s : A11yNodeBuilder δ) :
    (s.restrict ids).pop = s.pop.restrict ids := by
  obtain ⟨idsStack, nodesStack, allNodes, seenIds, focus⟩ := s
  cases idsStack <;> cases nodesStack <;> simp [restrict, pop]

/-- **One call** and the restricted one. -/
theorem step_restrict {call : A11yCall δ} (hids : pushedIds [call] ⊆ ids)
    (hs : s.step call = some s') : (s.restrict ids).step (restrictCall ids call) = some (s'.restrict ids) := by
  cases call with
  | push id node =>
    obtain rfl := Option.some.inj hs
    exact congrArg (some ∘ Prod.snd) (push_restrict s node (hids List.mem_cons_self))
  | pop =>
    obtain ⟨hlength, hs⟩ := Option.ite_none_right_eq_some.mp hs
    obtain rfl := Option.some.inj hs
    rw [← pop_restrict]
    exact if_pos hlength
  | setFocus id =>
    obtain rfl := Option.some.inj hs
    rfl

theorem fresh_restrict {call : A11yCall δ} (h : s.Apart ids call) :
    (s.restrict (rootNodeId :: ids)).Fresh (restrictCall (rootNodeId :: ids) call) := by
  cases call with
  | push id node =>
    refine ⟨h.1, fun hid => ?_⟩
    exact List.filter_eq_nil_iff.mpr fun child hchild => by simpa using h.2 hid child hchild
  | pop => trivial
  | setFocus id => trivial

/-- **A run** and the one of the restricted calls. -/
theorem run_restrict {calls : List (A11yCall δ)} (hids : pushedIds calls ⊆ ids)
    (hmeets : RunMeets step (Apart ids) s calls) (hrun : run step s calls = some s') :
    RunMeets step Fresh (s.restrict (rootNodeId :: ids)) (calls.map (restrictCall (rootNodeId :: ids))) ∧
      run step (s.restrict (rootNodeId :: ids)) (calls.map (restrictCall (rootNodeId :: ids)))
        = some (s'.restrict (rootNodeId :: ids)) := by
  induction calls generalizing s with
  | nil =>
    obtain rfl := Option.some.inj hrun
    exact ⟨trivial, rfl⟩
  | cons call calls ih =>
    obtain ⟨mid, hmid, hrest⟩ := Option.bind_eq_some_iff.mp hrun
    have happend : pushedIds (call :: calls) = pushedIds [call] ++ pushedIds calls := List.filterMap_append (l := [call])
    rw [happend, List.append_subset] at hids
    have hstep := step_restrict (List.subset_cons_of_subset rootNodeId hids.1) hmid
    have hmeets' : RunMeets step (Apart ids) mid calls := by
      have h := hmeets.2
      rw [hmid] at h
      exact h
    obtain ⟨hfresh, hrun'⟩ := ih hids.2 hmeets' hrest
    refine ⟨⟨fresh_restrict hmeets.1, ?_⟩, ?_⟩
    · rw [hstep]
      exact hfresh
    · rw [List.map_cons, run, hstep]
      exact hrun'

theorem nodeIds_restrict (ids : List A11yNodeId) : (s.restrict ids).update.nodeIds = s.update.nodeIds := by
  show (List.map _ s.allNodes ++ s.idsStack.zip (s.nodesStack.map _)).map Prod.fst = (s.allNodes ++ _).map Prod.fst
  rw [List.map_append, List.map_append, List.map_map, List.zip_map_right, List.map_map]
  rfl

theorem seenIds_run {window : δ} {s₀ : A11yNodeBuilder δ} {calls : List (A11yCall δ)}
    (hrun : run step (s₀.beginFrame window) calls = some s) : s.seenIds ⊆ pushedIds calls := by
  have hstep : ∀ (s : A11yNodeBuilder δ) (call : A11yCall δ) (s' : A11yNodeBuilder δ),
      s.seenIds ⊆ pushedIds calls → call ∈ calls → s.step call = some s' → s'.seenIds ⊆ pushedIds calls := by
    intro s call s' hseen hcall hs
    cases call with
    | push id node =>
      obtain rfl := Option.some.inj hs
      by_cases hid : id ∈ s.seenIds
      · rw [push, if_pos hid]
        exact hseen
      · rw [push, if_neg hid]
        exact List.cons_subset.mpr ⟨List.mem_filterMap.mpr ⟨_, hcall, rfl⟩, hseen⟩
    | pop =>
      obtain ⟨-, hs⟩ := Option.ite_none_right_eq_some.mp hs
      obtain rfl := Option.some.inj hs
      exact hseen
    | setFocus id =>
      obtain rfl := Option.some.inj hs
      exact hseen
  exact run_invariant hstep calls (List.nil_subset _) (RunMeets.of_forall_mem (fun _ hcall => hcall) _) hrun

theorem finalize_restrict (hlevel : s.idsStack.length = s.nodesStack.length)
    (hids : s.update.nodeIds ⊆ ids) : (s.restrict ids).finalize = s.finalize := by
  have hentries : (s.restrict ids).entries = s.entries.map fun entry => (entry.1, entry.2.restrict ids) := by
    rw [entries, entries, List.map_append]
    show _ ++ s.idsStack.zip (s.nodesStack.map _) = _
    rw [List.zip_map_right]
    rfl
  have hnodeIds : (s.entries.map fun entry => (entry.1, entry.2.restrict ids)).map Prod.fst = s.entries.map Prod.fst := by
    rw [List.map_map]
    rfl
  have hlevel' : (s.restrict ids).idsStack.length = (s.restrict ids).nodesStack.length := by
    show _ = (s.nodesStack.map _).length
    rw [List.length_map]
    exact hlevel
  rw [finalize, finalize, allNodes_drain hlevel', allNodes_drain hlevel, hentries]
  simp only [TreeUpdate.repair, TreeUpdate.nodeIds, hnodeIds, List.map_map]
  congr 1
  refine List.map_congr_left fun entry _ => ?_
  simp only [Function.comp_apply, TreeUpdate.repairNode_eq]
  exact congrArg _ (A11yNode.restrict_restrict entry.2 hids)

/-- **The accessibility tree is a tree.**  A frame is calls that pop no more than they push, and push
no node that lists one of the frame; then the update is a tree, and every node that was pushed is
listed by the one that was on top of the stack. -/
theorem finalize_isTree (window : δ) (s₀ s : A11yNodeBuilder δ) (calls : List (A11yCall δ))
    (happart : RunMeets step (Apart (pushedIds calls)) (s₀.beginFrame window) calls)
    (hrun : run step (s₀.beginFrame window) calls = some s) :
    s.finalize.IsTree ∧
    ∀ before id node after mid, calls = before ++ .push id node :: after →
      run step (s₀.beginFrame window) before = some mid → (mid.push id node).1 = true →
      ∃ top, mid.idsStack.head? = some top ∧ s.finalize.Lists top id := by
  have hpushed : pushedIds calls ⊆ rootNodeId :: pushedIds calls := List.subset_cons_self _ _
  obtain ⟨hfresh, hrun'⟩ := run_restrict (List.Subset.refl _) happart hrun
  obtain ⟨hshaped, hlists⟩ := shaped_frame window s₀ hfresh hrun'
  have hlevel : s.idsStack.length = s.nodesStack.length := by
    have hlevel' : s.idsStack.length = (s.nodesStack.map _).length := hshaped.level
    rwa [List.length_map] at hlevel'
  have hids : s.update.nodeIds ⊆ rootNodeId :: pushedIds calls := by
    intro id hid
    rw [← nodeIds_restrict (rootNodeId :: pushedIds calls), hshaped.ids.mem_iff] at hid
    exact List.cons_subset_cons _ (seenIds_run hrun) hid
  have hfinalize := finalize_restrict hlevel hids
  rw [← hfinalize]
  refine ⟨hshaped.isTree, ?_⟩
  rintro before id node after mid hcalls hbefore hpush
  have happend : pushedIds calls = pushedIds before ++ id :: pushedIds after := by
    rw [hcalls, pushedIds, List.filterMap_append]
    rfl
  have hmem : id ∈ rootNodeId :: pushedIds calls :=
    hpushed (happend ▸ List.mem_append_right _ List.mem_cons_self)
  have hsub : pushedIds before ⊆ pushedIds calls := happend ▸ List.subset_append_left _ _
  have hmeets : ∀ cond, RunMeets step cond (s₀.beginFrame window) calls → RunMeets step cond (s₀.beginFrame window) before :=
    fun cond h => (RunMeets.append before (hcalls ▸ h) hbefore).1
  have hmid := run_restrict hsub (hmeets _ happart) hbefore
  have hpush' := push_restrict mid node hmem
  refine hlists (before.map (restrictCall (rootNodeId :: pushedIds calls))) id
    (node.restrict (rootNodeId :: pushedIds calls)) (after.map (restrictCall (rootNodeId :: pushedIds calls)))
    (mid.restrict (rootNodeId :: pushedIds calls)) ?_ hmid.2 ?_
  · rw [hcalls, List.map_append, List.map_cons]
    rfl
  · rw [hpush']
    exact hpush

/-- A button with a label in a window.  The button lists a node that is not there, the label is pushed
once more, which is refused, and the focus is on a node that is not there. -/
def labelledButton : List (A11yCall String) :=
  [.push 1 ⟨"button", [7]⟩, .push 2 (.new "label"), .pop, .push 2 (.new "label"), .pop, .setFocus 9]

theorem finalize_isTree_labelledButton :
    ∃ s, run step (new.beginFrame "window") labelledButton = some s ∧ s.finalize.IsTree ∧
      s.finalize = ⟨[(2, ⟨"label", []⟩), (1, ⟨"button", [2]⟩), (0, ⟨"window", [1]⟩)], some 0, 0⟩ := by
  have happart : RunMeets step (Apart (pushedIds labelledButton)) (new.beginFrame "window") labelledButton := by
    simp [labelledButton, RunMeets, Apart, pushedIds, step, push, pop, setFocus, beginFrame, A11yNode.new,
      rootNodeId]
  exact ⟨_, rfl, (finalize_isTree "window" new _ labelledButton happart rfl).1, rfl⟩

/-- A group that lists its label before the label is pushed: it is listed twice. -/
theorem not_finalize_isTree : ¬ ∀ (window : String) (s₀ s : A11yNodeBuilder String) (calls : List (A11yCall String)),
    rootNodeId ∉ pushedIds calls → run step (s₀.beginFrame window) calls = some s → s.finalize.IsTree := by
  intro h
  have htree := h "window" new _ [.push 1 ⟨"group", [2]⟩, .push 2 (.new "label"), .pop, .pop] (by decide) rfl
  exact absurd (htree.once 2 (by decide) (by decide)) (by decide)

end A11yNodeBuilder

end FcGpui
