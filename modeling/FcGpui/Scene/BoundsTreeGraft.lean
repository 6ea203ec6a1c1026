import FcGpui.Scene.BoundsTreeSearch

/-!
# Grafting a leaf into the bounds tree

The walk down follows the one chain of parents of the node it stops at
(`PathUp`), so the nodes it passes are exactly the ancestors of the new leaf,
and the walk back up grows exactly these (`Grown`): by the new rectangle in
bounds, by the new order in `maxOrder`.

`GraftRoom` and `GraftFull` list what the vector looks like afterwards in terms
of edges, for the two ways a leaf is hung, and `GraftRoom.arena` and
`GraftFull.arena` derive the invariant from these lists alone.  That the source
produces such vectors is the business of `BoundsTreeInsert`.
-/

namespace FcGpui

namespace BoundsTree

variable {U : Type} [AddCommGroup U] [LinearOrder U]

/-! ### Swapping and finding children -/

theorem swapIndices_perm (l : List Nat) (i j : Nat) : (swapIndices l i j).Perm l := by
  rw [swapIndices, Array.swapIfInBounds_def]
  split
  · split
    · exact Array.perm_iff_toList_perm.mp (Array.swap_perm _ _)
    · exact List.Perm.refl _
  · exact List.Perm.refl _

theorem bestChildFrom_mem (nodes : List (Node U)) (bounds : Bounds U) (all : List Nat) :
    ∀ (cs : List Nat) (pos : Nat) (best : (Nat × Nat) × U),
      (∀ k, cs[k]? = all[pos + k]?) → all[best.1.2]? = some best.1.1 →
      all[(bestChildFrom nodes bounds cs pos best).2]?
        = some (bestChildFrom nodes bounds cs pos best).1 := by
  intro cs
  induction cs with
  | nil => intro pos best _ hb; exact hb
  | cons c cs ih =>
    intro pos best hsuf hb
    have htail : ∀ k, cs[k]? = all[pos + 1 + k]? := by
      intro k
      have := hsuf (k + 1)
      rw [List.getElem?_cons_succ] at this
      rw [this]
      congr 1
      omega
    rw [bestChildFrom]
    split
    · refine ih (pos + 1) _ htail ?_
      have := hsuf 0
      simpa using this.symm
    · exact ih (pos + 1) best htail hb

/-- The child the scan settles on sits at the position it reports. -/
theorem bestChild_mem (nodes : List (Node U)) (bounds : Bounds U) {cs : List Nat} (h : cs ≠ []) :
    cs[(bestChild nodes bounds cs).2]? = some (bestChild nodes bounds cs).1 := by
  cases cs with
  | nil => exact absurd rfl h
  | cons c cs =>
    rw [bestChild]
    refine bestChildFrom_mem nodes bounds (c :: cs) cs 1 _ (fun k => ?_) rfl
    rw [Nat.add_comm, List.getElem?_cons_succ]

theorem pairChildren_perm (a b x y : Nat) : (pairChildren a b x y).Perm [a, b] := by
  rw [pairChildren]
  split
  · exact List.Perm.refl _
  · exact List.Perm.swap _ _ _

theorem moveToEnd_children_perm (child : Option Nat) (k : NodeKind) :
    (moveToEnd child k).children.Perm k.children := by
  cases k with
  | leaf o => exact List.Perm.refl _
  | internal cs =>
    cases child with
    | none => exact List.Perm.refl _
    | some c =>
      simp only [moveToEnd]
      split
      · exact List.Perm.refl _
      · split
        · exact swapIndices_perm _ _ _
        · exact List.Perm.refl _

theorem moveToEnd_isLeaf (child : Option Nat) (k : NodeKind) :
    (moveToEnd child k).isLeaf = k.isLeaf := by
  cases k with
  | leaf o => rfl
  | internal cs =>
    cases child with
    | none => rfl
    | some c =>
      simp only [moveToEnd]
      split
      · rfl
      · split <;> rfl

/-! ### Reading an updated vector -/

variable {i : Nat} {nodes : List (Node U)} {path : List Nat}

omit [LinearOrder U] in
theorem nodeAt_set {j : Nat} {n : Node U} (hi : i < nodes.length) :
    nodeAt (nodes.set i n) j = if j = i then n else nodeAt nodes j := by
  rw [nodeAt, List.getElem?_set]
  by_cases h : i = j
  · subst h; simp [hi]
  · rw [if_neg h, if_neg (fun he => h he.symm), nodeAt]

omit [LinearOrder U] in
theorem nodeAt_append_left {more : List (Node U)} (hi : i < nodes.length) :
    nodeAt (nodes ++ more) i = nodeAt nodes i := by
  rw [nodeAt, List.getElem?_append_left hi, nodeAt]

omit [LinearOrder U] in
theorem nodeAt_length (nodes : List (Node U)) (n : Node U) (more : List (Node U)) :
    nodeAt (nodes ++ n :: more) nodes.length = n := by
  rw [nodeAt, List.getElem?_append_right le_rfl, Nat.sub_self]
  rfl

/-! ### Nodes that grow -/

/-- `new` is `old` grown by a rectangle and its order, up to its kind. -/
structure Grown (b : Bounds U) (order : Nat) (old new : Node U) : Prop where
  covers_old : new.bounds.Covers old.bounds
  covers_new : new.bounds.Covers b
  least : ∀ x : Bounds U, x.Covers old.bounds → x.Covers b → x.Covers new.bounds
  maxOrder : new.maxOrder = max old.maxOrder order

theorem covers_union_of {x a b : Bounds U} (ha : x.Covers a) (hb : x.Covers b) :
    x.Covers (a.union b) := by
  constructor <;> simp only [Bounds.union, Bounds.origin_fromCorners,
    Bounds.bottomRight_fromCorners, Point.min, Point.max]
  · split
    · exact ha.left
    · exact hb.left
  · split
    · exact ha.top
    · exact hb.top
  · split
    · exact ha.right
    · exact hb.right
  · split
    · exact ha.bottom
    · exact hb.bottom

theorem grown_union (b : Bounds U) (order : Nat) (old : Node U) (k : NodeKind) :
    Grown b order old ⟨old.bounds.union b, max old.maxOrder order, k⟩ :=
  ⟨Bounds.covers_union_left _ _, Bounds.covers_union_right _ _,
    fun _ h1 h2 => covers_union_of h1 h2, rfl⟩

theorem Grown.trans {b : Bounds U} {order : Nat} {x y z : Node U} (h : Grown b order x y)
    (g : Grown b order y z) : Grown b order x z := by
  refine ⟨g.covers_old.trans h.covers_old, g.covers_new,
    fun w h1 h2 => g.least w (h.least w h1 h2) h2, ?_⟩
  rw [g.maxOrder, h.maxOrder]
  omega

theorem grown_propagateNode (b : Bounds U) (order : Nat) (updated : Option Nat) (old : Node U) :
    Grown b order old (propagateNode b order updated old) := by
  rw [propagateNode]
  split
  · rename_i hlt
    have hm : max old.maxOrder order = order := max_eq_right hlt.le
    rw [← hm]
    simpa [hm] using grown_union b order old (moveToEnd updated old.kind)
  · rename_i hge
    have hm : max old.maxOrder order = old.maxOrder := max_eq_left (by omega)
    have := grown_union b order old old.kind
    rwa [hm] at this

theorem propagateNode_children_perm (b : Bounds U) (order : Nat) (updated : Option Nat)
    (old : Node U) : (propagateNode b order updated old).kind.children.Perm old.kind.children := by
  rw [propagateNode]
  split
  · exact moveToEnd_children_perm updated old.kind
  · exact List.Perm.refl _

theorem propagateNode_isLeaf (b : Bounds U) (order : Nat) (updated : Option Nat) (old : Node U) :
    (propagateNode b order updated old).kind.isLeaf = old.kind.isLeaf := by
  rw [propagateNode]
  split
  · exact moveToEnd_isLeaf updated old.kind
  · rfl

@[simp] theorem length_propagate (b : Bounds U) (order : Nat) :
    ∀ (path : List Nat) (updated : Option Nat) (nodes : List (Node U)),
      (propagate b order path updated nodes).length = nodes.length := by
  intro path
  induction path with
  | nil => intro _ _; rfl
  | cons i path ih => intro updated nodes; rw [propagate, ih, List.length_set]

theorem nodeAt_propagate_of_notMem (b : Bounds U) (order : Nat) :
    ∀ (path : List Nat) (updated : Option Nat) (nodes : List (Node U)) (j : Nat),
      (∀ i ∈ path, i < nodes.length) → j ∉ path →
      nodeAt (propagate b order path updated nodes) j = nodeAt nodes j := by
  intro path
  induction path with
  | nil => intro _ _ _ _ _; rfl
  | cons i path ih =>
    intro updated nodes j hlt hj
    rw [List.mem_cons, not_or] at hj
    rw [propagate, ih _ _ _ (fun k hk => by
        rw [List.length_set]; exact hlt k (List.mem_cons_of_mem i hk)) hj.2,
      nodeAt_set (hlt i List.mem_cons_self), if_neg hj.1]

/-- Each node of the path is updated once, by `propagateNode`. -/
theorem nodeAt_propagate_of_mem (b : Bounds U) (order : Nat) :
    ∀ (path : List Nat) (updated : Option Nat) (nodes : List (Node U)) (j : Nat),
      (∀ i ∈ path, i < nodes.length) → path.Nodup → j ∈ path →
      ∃ u, nodeAt (propagate b order path updated nodes) j
        = propagateNode b order u (nodeAt nodes j) := by
  intro path
  induction path with
  | nil => intro _ _ j _ _ hj; exact absurd hj (by simp)
  | cons i path ih =>
    intro updated nodes j hlt hnd hj
    obtain ⟨hi, hnd'⟩ := List.nodup_cons.mp hnd
    have hlt' : ∀ k ∈ path,
        k < (nodes.set i (propagateNode b order updated (nodeAt nodes i))).length := fun k hk => by
      rw [List.length_set]; exact hlt k (List.mem_cons_of_mem i hk)
    rw [propagate]
    rcases List.mem_cons.mp hj with rfl | hmem
    · refine ⟨updated, ?_⟩
      rw [nodeAt_propagate_of_notMem b order path _ _ j hlt' hi,
        nodeAt_set (hlt j List.mem_cons_self), if_pos rfl]
    · obtain ⟨u, hu⟩ := ih (some i) _ j hlt' hnd' hmem
      have hne : j ≠ i := fun he => hi (he ▸ hmem)
      refine ⟨u, ?_⟩
      rw [hu, nodeAt_set (hlt i List.mem_cons_self), if_neg hne]

/-! ### The walk down -/

/-- A path deepest node first, each node a child of the next, up to `root`. -/
inductive PathUp (nodes : List (Node U)) (root : Nat) : List Nat → Prop
  | root : PathUp nodes root [root]
  | child {c p : Nat} {rest : List Nat} : PathUp nodes root (p :: rest) → Child nodes p c →
      PathUp nodes root (c :: p :: rest)

theorem PathUp.lt {root : Nat} (h : Arena nodes root)
    (hp : PathUp nodes root path) : ∀ i ∈ path, i < nodes.length := by
  induction hp with
  | root => intro i hi; rw [List.mem_singleton.mp hi]; exact h.root_lt
  | child _ hc ih =>
    intro i hi
    rcases List.mem_cons.mp hi with rfl | hi
    · exact h.child_lt hc
    · exact ih i hi

/-- **A path holds the parent of each of its nodes.** -/
theorem PathUp.parent_mem {root : Nat} (h : Arena nodes root)
    (hp : PathUp nodes root path) {c p : Nat} (hc : c ∈ path) (hpc : Child nodes p c) : p ∈ path := by
  induction hp with
  | root =>
    rw [List.mem_singleton.mp hc] at hpc
    exact absurd hpc (h.root_orphan p)
  | @child c' q rest _ hq ih =>
    rcases List.mem_cons.mp hc with rfl | hc
    · rw [h.parent_unique hpc hq]; simp
    · exact List.mem_cons_of_mem _ (ih hc)

omit [LinearOrder U] in
theorem PathUp.depth_le {root : Nat} {d : Nat → Nat} (hd : ∀ p c, Child nodes p c → d c = d p + 1) {c : Nat}
    (hp : PathUp nodes root (c :: path)) : ∀ i ∈ path, d i < d c := by
  induction path generalizing c with
  | nil => intro i hi; exact absurd hi (by simp)
  | cons p rest ih =>
    cases hp with
    | child hrest hc =>
      intro i hi
      have := hd p c hc
      rcases List.mem_cons.mp hi with rfl | hi
      · omega
      · have := ih hrest i hi
        omega

theorem PathUp.nodup {root : Nat} (h : Arena nodes root) (hp : PathUp nodes root path) : path.Nodup := by
  obtain ⟨d, -, hd⟩ := h.depth
  induction hp with
  | root => exact List.nodup_singleton _
  | @child c p rest hrest hc ih =>
    refine List.nodup_cons.mpr ⟨fun hm => ?_, ih⟩
    exact absurd ((PathUp.child hrest hc).depth_le hd c hm) (lt_irrefl _)

/-- What the walk down returns: a path of internal nodes and a leaf child of
its deepest node. -/
structure Descent (nodes : List (Node U)) (root : Nat) (path : List Nat) (best : Nat × Nat) :
    Prop where
  pathUp : PathUp nodes root path
  internal : ∀ i ∈ path, (nodeAt nodes i).kind.isLeaf = false
  best_at : ∀ {cur rest}, path = cur :: rest →
    (nodeAt nodes cur).kind.children[best.2]? = some best.1
  best_leaf : (nodeAt nodes best.1).kind.isLeaf = true

theorem children_ne_nil {root : Nat} (h : Arena nodes root)
    (hi : (nodeAt nodes i).kind.isLeaf = false) : (nodeAt nodes i).kind.children ≠ [] := by
  cases hk : (nodeAt nodes i).kind with
  | leaf o => rw [hk] at hi; exact absurd hi (by simp [NodeKind.isLeaf])
  | internal cs => exact h.inhabited hk

/-- **The walk down ends within its bound**, at a node with a leaf child. -/
theorem descend_spec {root n : Nat} {d : Nat → Nat}
    (hkids : ∀ i, (nodeAt nodes i).kind.isLeaf = false → (nodeAt nodes i).kind.children ≠ [])
    (hlt : ∀ i, (nodeAt nodes i).kind.isLeaf = false → d i < n)
    (hd : ∀ p c, Child nodes p c → d c = d p + 1) (bounds : Bounds U) :
    ∀ (fuel current : Nat) (path : List Nat), PathUp nodes root (current :: path) →
      (∀ i ∈ current :: path, (nodeAt nodes i).kind.isLeaf = false) → n ≤ fuel + d current →
      Descent nodes root (descend nodes bounds fuel current path).1
        (descend nodes bounds fuel current path).2 := by
  intro fuel
  induction fuel with
  | zero =>
    intro current path hp hin hf
    have := hlt current (hin current List.mem_cons_self)
    omega
  | succ fuel ih =>
    intro current path hp hin hf
    have hbest := bestChild_mem nodes bounds (hkids current (hin current List.mem_cons_self))
    have hchild : Child nodes current
        (bestChild nodes bounds (nodeAt nodes current).kind.children).1 :=
      List.mem_of_getElem? hbest
    simp only [descend]
    split
    · rename_i hleaf
      refine ⟨hp, hin, ?_, hleaf⟩
      intro cur rest he
      injection he with he _
      subst he
      exact hbest
    · rename_i hleaf
      refine ih _ _ (hp.child hchild) ?_ ?_
      · intro i hi
        rcases List.mem_cons.mp hi with rfl | hi
        · simpa using hleaf
        · exact hin i hi
      · have := hd _ _ hchild
        omega

/-! ### The grafted vector -/

/-- The old part of the vector after an insertion: the nodes of the path have
grown, the others are as they were. -/
structure Regrown (old new : List (Node U)) (b : Bounds U) (order : Nat) (path : List Nat) :
    Prop where
  off : ∀ i, i < old.length → i ∉ path → nodeAt new i = nodeAt old i
  on : ∀ i ∈ path, Grown b order (nodeAt old i) (nodeAt new i)
  internal : ∀ i ∈ path, (nodeAt new i).kind.isLeaf = false

section Regrown

variable {old new : List (Node U)} {root order : Nat} {b : Bounds U} {path : List Nat}

theorem Regrown.grows (h : Regrown old new b order path) {i : Nat} (hi : i < old.length) :
    (nodeAt new i).bounds.Covers (nodeAt old i).bounds ∧
      (nodeAt old i).maxOrder ≤ (nodeAt new i).maxOrder := by
  by_cases hm : i ∈ path
  · refine ⟨(h.on i hm).covers_old, ?_⟩
    rw [(h.on i hm).maxOrder]
    exact le_max_left _ _
  · rw [h.off i hi hm]
    exact ⟨Bounds.Covers.refl _, le_rfl⟩

/-- An old edge still leads to something contained and no larger: when the
child has grown so has its parent. -/
theorem Regrown.edge (h : Regrown old new b order path) (ha : Arena old root)
    (hp : PathUp old root path) {p c : Nat} (hc : Child old p c) :
    (nodeAt new p).bounds.Covers (nodeAt new c).bounds ∧
      (nodeAt new c).maxOrder ≤ (nodeAt new p).maxOrder := by
  have hgp := h.grows hc.parent_lt
  have hcov := hgp.1.trans (ha.covers hc)
  have hmax := (ha.max_le hc).trans hgp.2
  by_cases hm : c ∈ path
  · have hpm := hp.parent_mem ha hm hc
    refine ⟨(h.on c hm).least _ hcov (h.on p hpm).covers_new, ?_⟩
    rw [(h.on c hm).maxOrder, (h.on p hpm).maxOrder]
    have := ha.max_le hc
    omega
  · rw [h.off c (ha.child_lt hc) hm]
    exact ⟨hcov, hmax⟩

/-- The fields of the invariant that speak about one old node. -/
theorem Regrown.leaf_order (h : Regrown old new b order path) (ha : Arena old root) {i o : Nat}
    (hi : i < old.length) (hk : (nodeAt new i).kind = .leaf o) : (nodeAt new i).maxOrder = o := by
  by_cases hm : i ∈ path
  · have := h.internal i hm
    rw [hk] at this
    exact absurd this (by simp [NodeKind.isLeaf])
  · rw [h.off i hi hm] at hk ⊢
    exact ha.leaf_order (getElem?_nodeAt hi) hk

theorem Regrown.leafAt_iff (h : Regrown old new b order path)
    (hin : ∀ i ∈ path, (nodeAt old i).kind.isLeaf = false) (hlen : old.length ≤ new.length)
    {i o : Nat} {b' : Bounds U} (hi : i < old.length) : LeafAt new i b' o ↔ LeafAt old i b' o := by
  rw [LeafAt, LeafAt, getElem?_nodeAt hi, getElem?_nodeAt (hi.trans_le hlen)]
  by_cases hm : i ∈ path
  · constructor
    · intro he
      have := h.internal i hm
      rw [Option.some.inj he] at this
      exact absurd this (by simp [NodeKind.isLeaf])
    · intro he
      have := hin i hm
      rw [Option.some.inj he] at this
      exact absurd this (by simp [NodeKind.isLeaf])
  · rw [h.off i hi hm]

end Regrown

theorem Regrown.inhabited {old new : List (Node U)} {root order i : Nat} {b : Bounds U}
    {path kids cs : List Nat} (h : Regrown old new b order path) (ha : Arena old root)
    (hin : ∀ i ∈ path, (nodeAt old i).kind.isLeaf = false) (hi : i < old.length)
    (hk : (nodeAt new i).kind = .internal cs) (hperm : cs.Perm kids)
    (hkids : (nodeAt old i).kind.children ≠ [] → kids ≠ []) : cs ≠ [] := by
  rintro rfl
  by_cases hm : i ∈ path
  · exact hkids (children_ne_nil ha (hin i hm)) hperm.symm.eq_nil
  · rw [h.off i hi hm] at hk
    exact ha.inhabited hk rfl

/-- The leaf went directly below `cur`. -/
structure GraftRoom (old new : List (Node U)) (b : Bounds U) (order cur : Nat) : Prop where
  length : new.length = old.length + 1
  leaf : nodeAt new old.length = ⟨b, order, .leaf order⟩
  kids : ∀ p, (nodeAt new p).kind.children.Perm
    (if p = cur then (nodeAt old p).kind.children ++ [old.length] else (nodeAt old p).kind.children)

omit [LinearOrder U] in
theorem GraftRoom.child_iff {old new : List (Node U)} {b : Bounds U} {order cur : Nat}
    (h : GraftRoom old new b order cur) {p c : Nat} :
    Child new p c ↔ Child old p c ∨ (p = cur ∧ c = old.length) := by
  rw [Child, (h.kids p).mem_iff, Child]
  by_cases hp : p = cur
  · simp [hp]
  · simp [hp]

section GraftRoom

variable {old new : List (Node U)} {root order cur : Nat} {b : Bounds U} {path : List Nat}

omit [LinearOrder U] in
theorem GraftRoom.cases (h : GraftRoom old new b order cur) {i : Nat} (hi : i < new.length) :
    i < old.length ∨ i = old.length := by
  rw [h.length] at hi
  omega

section Room

variable (h : GraftRoom old new b order cur)
include h

theorem GraftRoom.parent_unique (ha : Arena old root) {p q c : Nat}
    (h1 : Child new p c) (h2 : Child new q c) : p = q := by
  rcases h.child_iff.mp h1 with h1 | ⟨h1, hc⟩ <;> rcases h.child_iff.mp h2 with h2 | ⟨h2, hc'⟩
  · exact ha.parent_unique h1 h2
  · have := ha.child_lt h1
    omega
  · have := ha.child_lt h2
    omega
  · rw [h1, h2]

theorem GraftRoom.children_nodup (ha : Arena old root) (p : Nat) : (nodeAt new p).kind.children.Nodup := by
  rw [(h.kids p).nodup_iff]
  split
  · rw [List.nodup_append]
    refine ⟨ha.children_nodup p, List.nodup_singleton _, fun c hc n hn he => ?_⟩
    have : c < old.length := ha.child_lt (p := p) hc
    rw [List.mem_singleton] at hn
    omega
  · exact ha.children_nodup p

theorem GraftRoom.inhabited (hr : Regrown old new b order path)
    (ha : Arena old root) (hin : ∀ i ∈ path, (nodeAt old i).kind.isLeaf = false) {i : Nat} {cs : List Nat}
    (hk : (nodeAt new i).kind = .internal cs) : cs ≠ [] := by
  by_cases hlo : i < old.length
  · have hperm := h.kids i
    rw [hk] at hperm
    refine hr.inhabited ha hin hlo hk hperm fun hne => ?_
    split
    · simp
    · exact hne
  · exfalso
    by_cases he : i = old.length
    · rw [he, h.leaf] at hk
      simp at hk
    · rw [nodeAt_of_length_le (by rw [h.length]; omega)] at hk
      simp [Node.outOfRange] at hk

theorem GraftRoom.depth (ha : Arena old root) (hlt : cur < old.length) :
    ∃ d : Nat → Nat, (∀ i, i < new.length → d i < new.length) ∧ ∀ p c, Child new p c → d c = d p + 1 := by
  obtain ⟨d, hdlt, hd⟩ := ha.depth
  refine ⟨fun i => if i = old.length then d cur + 1 else d i, fun i hi => ?_, fun p c hc => ?_⟩
  · have hdc := hdlt cur hlt
    rw [h.length]
    rcases h.cases hi with hlo | rfl
    · have := hdlt i hlo
      simp only [if_neg hlo.ne]
      omega
    · simp only [if_true]
      omega
  · rcases h.child_iff.mp hc with hc | ⟨rfl, rfl⟩
    · simp only [if_neg hc.parent_lt.ne, if_neg (ha.child_lt hc).ne]
      exact hd p c hc
    · simp only [if_true, if_neg hlt.ne]

theorem GraftRoom.arena (hr : Regrown old new b order path)
    (ha : Arena old root) (hp : PathUp old root path) (hcur : cur ∈ path)
    (hin : ∀ i ∈ path, (nodeAt old i).kind.isLeaf = false) : Arena new root where
  root_lt := by
    have hroot := ha.root_lt
    rw [h.length]
    omega
  child_lt hc := by
    rw [h.length]
    rcases h.child_iff.mp hc with hc | ⟨-, rfl⟩
    · have := ha.child_lt hc
      omega
    · omega
  parent_unique := h.parent_unique ha
  children_nodup := h.children_nodup ha
  root_orphan p hc := by
    have hroot := ha.root_lt
    rcases h.child_iff.mp hc with hc | ⟨-, hc⟩
    · exact ha.root_orphan p hc
    · omega
  has_parent hc hne := by
    rcases h.cases hc with hlo | rfl
    · obtain ⟨p, hpc⟩ := ha.has_parent hlo hne
      exact ⟨p, h.child_iff.mpr (Or.inl hpc)⟩
    · exact ⟨cur, h.child_iff.mpr (Or.inr ⟨rfl, rfl⟩)⟩
  leaf_order hi hk := by
    have hn := nodeAt_of_getElem? hi
    rcases h.cases (List.getElem?_eq_some_iff.mp hi).1 with hlo | rfl
    · rw [← hn] at hk ⊢
      exact hr.leaf_order ha hlo hk
    · rw [h.leaf] at hn
      subst hn
      simpa using hk
  inhabited := h.inhabited hr ha hin
  covers hc := by
    rcases h.child_iff.mp hc with hc | ⟨rfl, rfl⟩
    · exact (hr.edge ha hp hc).1
    · rw [h.leaf]
      exact (hr.on _ hcur).covers_new
  max_le hc := by
    rcases h.child_iff.mp hc with hc | ⟨rfl, rfl⟩
    · exact (hr.edge ha hp hc).2
    · rw [h.leaf, (hr.on _ hcur).maxOrder]
      exact le_max_right _ _
  depth := h.depth ha (hp.lt ha cur hcur)

end Room

end GraftRoom

/-- The leaf went below a fresh internal node, beside the leaf `best` whose
place below `cur` that node takes. -/
structure GraftFull (old new : List (Node U)) (b : Bounds U) (order cur best : Nat) : Prop where
  length : new.length = old.length + 2
  leaf : nodeAt new old.length = ⟨b, order, .leaf order⟩
  inner_bounds : (nodeAt new (old.length + 1)).bounds = (nodeAt old best).bounds.union b
  inner_max : (nodeAt new (old.length + 1)).maxOrder = max (nodeAt old best).maxOrder order
  inner_kids : (nodeAt new (old.length + 1)).kind.children.Perm [best, old.length]
  inner_internal : (nodeAt new (old.length + 1)).kind.isLeaf = false
  kids : ∀ p, p ≠ old.length + 1 → (nodeAt new p).kind.children.Perm
    (if p = cur then (old.length + 1) :: (nodeAt old p).kind.children.erase best
      else (nodeAt old p).kind.children)

theorem GraftFull.child_iff {old new : List (Node U)} {b : Bounds U} {root order cur best : Nat}
    (h : GraftFull old new b order cur best) (ha : Arena old root) (hbest : Child old cur best)
    {p c : Nat} :
    Child new p c ↔ (Child old p c ∧ c ≠ best) ∨ (p = cur ∧ c = old.length + 1) ∨
      (p = old.length + 1 ∧ (c = best ∨ c = old.length)) := by
  have hcur := hbest.parent_lt
  by_cases hp : p = old.length + 1
  · subst hp
    have hno : ¬ Child old (old.length + 1) c := fun hc => by
      have := hc.parent_lt
      omega
    rw [Child, h.inner_kids.mem_iff]
    simp only [List.mem_cons, List.not_mem_nil, or_false, hno, false_and, false_or, true_and]
    constructor
    · intro hc; exact Or.inr hc
    · rintro (⟨he, -⟩ | hc)
      · omega
      · exact hc
  · rw [Child, (h.kids p hp).mem_iff]
    by_cases hpc : p = cur
    · subst hpc
      rw [if_pos rfl, List.mem_cons, (ha.children_nodup p).mem_erase_iff, Child]
      constructor
      · rintro (hc | ⟨hne, hc⟩)
        · exact Or.inr (Or.inl ⟨rfl, hc⟩)
        · exact Or.inl ⟨hc, hne⟩
      · rintro (⟨hc, hne⟩ | ⟨-, hc⟩ | ⟨he, -⟩)
        · exact Or.inr ⟨hne, hc⟩
        · exact Or.inl hc
        · exact absurd he hp
    · rw [if_neg hpc]
      constructor
      · intro hc
        refine Or.inl ⟨hc, ?_⟩
        rintro rfl
        exact hpc (ha.parent_unique hc hbest)
      · rintro (⟨hc, -⟩ | ⟨he, -⟩ | ⟨he, -⟩)
        · exact hc
        · exact absurd he hpc
        · exact absurd he hp

section GraftFull

variable {old new : List (Node U)} {root order cur best : Nat} {b : Bounds U} {path : List Nat}

theorem GraftFull.cases (h : GraftFull old new b order cur best) {i : Nat} (hi : i < new.length) :
    i < old.length ∨ i = old.length ∨ i = old.length + 1 := by
  rw [h.length] at hi
  omega

omit [LinearOrder U] in
theorem not_child_of_isLeaf {nodes : List (Node U)} {i c : Nat} (hleaf : (nodeAt nodes i).kind.isLeaf = true) :
    ¬ Child nodes i c := by
  intro hc
  rw [Child] at hc
  cases hk : (nodeAt nodes i).kind with
  | leaf o => rw [hk] at hc; exact absurd hc (by simp [NodeKind.children])
  | internal cs => rw [hk] at hleaf; exact absurd hleaf (by simp [NodeKind.isLeaf])

theorem Regrown.nodeAt_leaf (hr : Regrown old new b order path)
    (hin : ∀ i ∈ path, (nodeAt old i).kind.isLeaf = false) (hlt : best < old.length)
    (hleaf : (nodeAt old best).kind.isLeaf = true) : nodeAt new best = nodeAt old best := by
  refine hr.off best hlt fun hm => ?_
  rw [hin best hm] at hleaf
  exact absurd hleaf (by simp)

section Full

variable (h : GraftFull old new b order cur best)
include h

theorem GraftFull.parent_unique (ha : Arena old root)
    (hbest : Child old cur best) {p q c : Nat} (h1 : Child new p c) (h2 : Child new q c) : p = q := by
  have hblt := ha.child_lt hbest
  have hold : ∀ {p' c'}, Child old p' c' → p' < old.length ∧ c' < old.length :=
    fun hc => ⟨hc.parent_lt, ha.child_lt hc⟩
  rcases (h.child_iff ha hbest).mp h1 with ⟨h1, hn1⟩ | ⟨h1, hc1⟩ | ⟨h1, hc1⟩ <;>
    rcases (h.child_iff ha hbest).mp h2 with ⟨h2, hn2⟩ | ⟨h2, hc2⟩ | ⟨h2, hc2⟩
  · exact ha.parent_unique h1 h2
  · have := hold h1; omega
  · have := hold h1; omega
  · have := hold h2; omega
  · omega
  · omega
  · have := hold h2; omega
  · omega
  · omega

theorem GraftFull.children_nodup (ha : Arena old root)
    (hbest : Child old cur best) (p : Nat) : (nodeAt new p).kind.children.Nodup := by
  have hblt := ha.child_lt hbest
  by_cases hpi : p = old.length + 1
  · rw [hpi, h.inner_kids.nodup_iff, List.nodup_cons]
    exact ⟨by rw [List.mem_singleton]; omega, List.nodup_singleton _⟩
  · rw [(h.kids p hpi).nodup_iff]
    split
    · refine List.nodup_cons.mpr ⟨fun hm => ?_, (ha.children_nodup p).erase best⟩
      have : old.length + 1 < old.length := ha.child_lt (p := p) (List.mem_of_mem_erase hm)
      omega
    · exact ha.children_nodup p

theorem GraftFull.has_parent (ha : Arena old root)
    (hbest : Child old cur best) {c : Nat} (hc : c < new.length) (hne : c ≠ root) : ∃ p, Child new p c := by
  rcases h.cases hc with hlo | rfl | rfl
  · by_cases hcb : c = best
    · exact ⟨old.length + 1, (h.child_iff ha hbest).mpr (Or.inr (Or.inr ⟨rfl, Or.inl hcb⟩))⟩
    · obtain ⟨p, hpc⟩ := ha.has_parent hlo hne
      exact ⟨p, (h.child_iff ha hbest).mpr (Or.inl ⟨hpc, hcb⟩)⟩
  · exact ⟨old.length + 1, (h.child_iff ha hbest).mpr (Or.inr (Or.inr ⟨rfl, Or.inr rfl⟩))⟩
  · exact ⟨cur, (h.child_iff ha hbest).mpr (Or.inr (Or.inl ⟨rfl, rfl⟩))⟩

theorem GraftFull.inhabited (hr : Regrown old new b order path)
    (ha : Arena old root) (hin : ∀ i ∈ path, (nodeAt old i).kind.isLeaf = false) {i : Nat} {cs : List Nat}
    (hk : (nodeAt new i).kind = .internal cs) : cs ≠ [] := by
  by_cases hlo : i < old.length
  · have hperm := h.kids i (by omega)
    rw [hk] at hperm
    refine hr.inhabited ha hin hlo hk hperm fun hne => ?_
    split
    · simp
    · exact hne
  · by_cases hn : i = old.length + 1
    · have hperm := h.inner_kids
      rw [← hn, hk] at hperm
      rintro rfl
      exact absurd hperm.symm.eq_nil (by simp)
    · exfalso
      by_cases he : i = old.length
      · rw [he, h.leaf] at hk
        simp at hk
      · rw [nodeAt_of_length_le (by rw [h.length]; omega)] at hk
        simp [Node.outOfRange] at hk

/-- The fresh node takes the depth of the leaf `best`, and that leaf and the new one are one below it. -/
theorem GraftFull.depth (ha : Arena old root) (hbest : Child old cur best)
    (hleaf : (nodeAt old best).kind.isLeaf = true) :
    ∃ d : Nat → Nat, (∀ i, i < new.length → d i < new.length) ∧ ∀ p c, Child new p c → d c = d p + 1 := by
  have hlt := hbest.parent_lt
  have hblt := ha.child_lt hbest
  obtain ⟨d, hdlt, hd⟩ := ha.depth
  have hne : best ≠ cur := by
    intro he
    rw [← he] at hbest
    exact not_child_of_isLeaf hleaf hbest
  refine ⟨fun i => if i = old.length + 1 then d cur + 1
    else if i = old.length ∨ i = best then d cur + 2 else d i, fun i hi => ?_, fun p c hc => ?_⟩
  · have hdc := hdlt cur hlt
    rw [h.length]
    dsimp only
    split
    · omega
    · split
      · omega
      · rename_i hi1 hi2
        have := hdlt i (by rw [h.length] at hi; omega)
        omega
  · dsimp only
    rcases (h.child_iff ha hbest).mp hc with ⟨hc, hcb⟩ | ⟨rfl, rfl⟩ | ⟨rfl, hcc⟩
    · have h1 := hc.parent_lt
      have h2 := ha.child_lt hc
      have h3 : p ≠ best := fun he => not_child_of_isLeaf hleaf (he ▸ hc)
      rw [if_neg (by omega), if_neg (by omega), if_neg (by omega), if_neg (by omega)]
      exact hd p c hc
    · rw [if_pos rfl, if_neg (by omega), if_neg (by omega)]
    · rw [if_pos rfl, if_neg (by omega), if_pos (by omega)]

theorem GraftFull.arena (hr : Regrown old new b order path)
    (ha : Arena old root) (hp : PathUp old root path) (hcur : cur ∈ path)
    (hin : ∀ i ∈ path, (nodeAt old i).kind.isLeaf = false) (hbest : Child old cur best)
    (hleaf : (nodeAt old best).kind.isLeaf = true) : Arena new root where
  root_lt := by
    have hroot := ha.root_lt
    rw [h.length]
    omega
  child_lt hc := by
    have hlt := hbest.parent_lt
    have hblt := ha.child_lt hbest
    rw [h.length]
    rcases (h.child_iff ha hbest).mp hc with ⟨hc, -⟩ | ⟨-, rfl⟩ | ⟨-, rfl | rfl⟩
    · have := ha.child_lt hc
      omega
    all_goals omega
  parent_unique := h.parent_unique ha hbest
  children_nodup := h.children_nodup ha hbest
  root_orphan p hc := by
    have hroot := ha.root_lt
    rcases (h.child_iff ha hbest).mp hc with ⟨hc, -⟩ | ⟨-, hc⟩ | ⟨-, hc | hc⟩
    · exact ha.root_orphan p hc
    · omega
    · subst hc
      exact ha.root_orphan cur hbest
    · omega
  has_parent := h.has_parent ha hbest
  leaf_order hi hk := by
    have hn := nodeAt_of_getElem? hi
    rcases h.cases (List.getElem?_eq_some_iff.mp hi).1 with hlo | rfl | rfl
    · rw [← hn] at hk ⊢
      exact hr.leaf_order ha hlo hk
    · rw [h.leaf] at hn
      subst hn
      simpa using hk
    · have := h.inner_internal
      rw [hn, hk] at this
      exact absurd this (by simp [NodeKind.isLeaf])
  inhabited := h.inhabited hr ha hin
  covers hc := by
    have hgrown := hr.on cur hcur
    rcases (h.child_iff ha hbest).mp hc with ⟨hc, -⟩ | ⟨rfl, rfl⟩ | ⟨rfl, rfl | rfl⟩
    · exact (hr.edge ha hp hc).1
    · rw [h.inner_bounds]
      exact covers_union_of (hgrown.covers_old.trans (ha.covers hbest)) hgrown.covers_new
    · rw [h.inner_bounds, hr.nodeAt_leaf hin (ha.child_lt hbest) hleaf]
      exact Bounds.covers_union_left _ _
    · rw [h.inner_bounds, h.leaf]
      exact Bounds.covers_union_right _ _
  max_le hc := by
    have hgrown := hr.on cur hcur
    rcases (h.child_iff ha hbest).mp hc with ⟨hc, -⟩ | ⟨rfl, rfl⟩ | ⟨rfl, rfl | rfl⟩
    · exact (hr.edge ha hp hc).2
    · rw [h.inner_max, hgrown.maxOrder]
      have := ha.max_le hbest
      omega
    · rw [h.inner_max, hr.nodeAt_leaf hin (ha.child_lt hbest) hleaf]
      exact le_max_left _ _
    · rw [h.inner_max, h.leaf]
      exact le_max_right _ _
  depth := h.depth ha hbest hleaf

end Full

end GraftFull

end BoundsTree

end FcGpui
