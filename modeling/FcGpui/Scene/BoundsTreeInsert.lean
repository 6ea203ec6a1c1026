import FcGpui.Scene.BoundsTreeGraft

/-!
# The insertion keeps the bounds tree well formed

`insertLeaf_spec` reads the vector `insertLeaf` builds as one of the two grafts
of `BoundsTreeGraft` (or as the first or the second leaf of all), so the
invariant holds again.  The results are about `insert`:

* `insert_wf`: the invariant is kept.
* `insert_leaves`: the tree then holds the old rectangles and the new one.
* `insert_order`: the order returned is one more than the largest order among
  the rectangles that overlap the new one.
-/

namespace FcGpui

namespace BoundsTree

variable {U : Type} [AddCommGroup U] [LinearOrder U]

/-! ### The insertion of a leaf -/

section InsertLeaf

variable {old : List (Node U)} {root order cur : Nat} {b : Bounds U}

omit [LinearOrder U] in
theorem kind_children_append_leaf (old : List (Node U)) (b : Bounds U) (order p : Nat) :
    (nodeAt (old ++ [⟨b, order, .leaf order⟩]) p).kind.children
      = (nodeAt old p).kind.children := by
  rcases lt_trichotomy p old.length with h | rfl | h
  · rw [nodeAt_append_left h]
  · rw [nodeAt_length, nodeAt_of_length_le le_rfl]
    rfl
  · rw [nodeAt_of_length_le (by simp; omega), nodeAt_of_length_le h.le]

omit [LinearOrder U] in
theorem PathUp.of_child_iff {nodes nodes' : List (Node U)} {path : List Nat}
    (h : ∀ p c, Child nodes p c ↔ Child nodes' p c) (hp : PathUp nodes root path) :
    PathUp nodes' root path := by
  induction hp with
  | root => exact .root
  | child _ hc ih => exact ih.child ((h _ _).mp hc)

/-- The walk down, run on the vector that already holds the new leaf, describes
the vector before. -/
theorem descent_append_leaf (ha : Arena old root)
    (hroot : (nodeAt old root).kind.isLeaf = false) (b : Bounds U) (order : Nat) :
    let nodes := old ++ [⟨b, order, .leaf order⟩]
    Descent old root (descend nodes b nodes.length root []).1
      (descend nodes b nodes.length root []).2 := by
  intro nodes
  obtain ⟨d, hdlt, hd⟩ := ha.depth
  have hchild : ∀ p c, Child nodes p c ↔ Child old p c := fun p c => by
    rw [Child, Child, kind_children_append_leaf]
  have hinner : ∀ i, (nodeAt nodes i).kind.isLeaf = false →
      i < old.length ∧ nodeAt nodes i = nodeAt old i := by
    intro i hi
    rcases lt_trichotomy i old.length with h | rfl | h
    · exact ⟨h, nodeAt_append_left h⟩
    · rw [nodeAt_length] at hi
      exact absurd hi (by simp [NodeKind.isLeaf])
    · rw [nodeAt_of_length_le (by simp [nodes]; omega)] at hi
      exact absurd hi (by simp [Node.outOfRange, NodeKind.isLeaf])
  have hsp : Descent nodes root _ _ := descend_spec (n := old.length) (d := d)
    (fun i hi => by
      have he := (hinner i hi).2
      rw [he] at hi ⊢
      exact children_ne_nil ha hi)
    (fun i hi => hdlt i (hinner i hi).1) (fun p c hc => hd p c ((hchild p c).mp hc)) b
    nodes.length root [] .root
    (fun i hi => by
      rw [List.mem_singleton.mp hi, nodeAt_append_left ha.root_lt]
      exact hroot)
    (by simp [nodes]; omega)
  refine ⟨hsp.pathUp.of_child_iff hchild, ?_, ?_, ?_⟩
  · intro i hi
    have := hsp.internal i hi
    rwa [(hinner i this).2] at this
  · intro c rest he
    have := hsp.best_at he
    rwa [kind_children_append_leaf] at this
  · have hbest := hsp.best_leaf
    cases hpath : (descend nodes b nodes.length root []).1 with
    | nil =>
      have := hsp.pathUp
      rw [hpath] at this
      cases this
    | cons c rest =>
      have hc := hsp.best_at hpath
      rw [kind_children_append_leaf] at hc
      have hb : Child old c (descend nodes b nodes.length root []).2.1 := List.mem_of_getElem? hc
      rwa [nodeAt_append_left (ha.child_lt hb)] at hbest

/-- The walk back up over a vector in which at most `cur` differs from the old
one, and that by growing. -/
theorem regrown_propagate (cur : Nat) {att : List (Node U)} {path : List Nat} (ha : Arena old root)
    (hp : PathUp old root path) (hin : ∀ i ∈ path, (nodeAt old i).kind.isLeaf = false)
    (hlen : old.length ≤ att.length)
    (hoff : ∀ i, i < old.length → i ≠ cur → nodeAt att i = nodeAt old i) (hcur : cur ∈ path)
    (hon : Grown b order (nodeAt old cur) (nodeAt att cur) ∨
      ((nodeAt att cur).bounds = (nodeAt old cur).bounds ∧
        (nodeAt att cur).maxOrder = (nodeAt old cur).maxOrder))
    (hleaf : (nodeAt att cur).kind.isLeaf = false) :
    Regrown old (propagate b order path none att) b order path := by
  have hlt : ∀ i ∈ path, i < att.length := fun i hi => (hp.lt ha i hi).trans_le hlen
  have hnd := hp.nodup ha
  refine ⟨fun i hi hm => ?_, fun i hm => ?_, fun i hm => ?_⟩
  · rw [nodeAt_propagate_of_notMem b order path none att i hlt hm]
    exact hoff i hi (fun he => hm (he ▸ hcur))
  · obtain ⟨u, hu⟩ := nodeAt_propagate_of_mem b order path none att i hlt hnd hm
    rw [hu]
    by_cases hic : i = cur
    · subst hic
      have hg := grown_propagateNode b order u (nodeAt att i)
      rcases hon with hon | ⟨h1, h2⟩
      · exact hon.trans hg
      · exact ⟨h1 ▸ hg.covers_old, hg.covers_new, h1 ▸ hg.least, h2 ▸ hg.maxOrder⟩
    · rw [hoff i (hp.lt ha i hm) hic]
      exact grown_propagateNode b order u _
  · obtain ⟨u, hu⟩ := nodeAt_propagate_of_mem b order path none att i hlt hnd hm
    rw [hu, propagateNode_isLeaf]
    by_cases hic : i = cur
    · subst hic; exact hleaf
    · rw [hoff i (hp.lt ha i hm) hic]; exact hin i hm

theorem children_propagate_perm {att : List (Node U)} {path : List Nat} (hnd : path.Nodup)
    (hlt : ∀ i ∈ path, i < att.length) (p : Nat) :
    (nodeAt (propagate b order path none att) p).kind.children.Perm
      (nodeAt att p).kind.children := by
  by_cases hm : p ∈ path
  · obtain ⟨u, hu⟩ := nodeAt_propagate_of_mem b order path none att p hlt hnd hm
    rw [hu]
    exact propagateNode_children_perm b order u _
  · rw [nodeAt_propagate_of_notMem b order path none att p hlt hm]

/-- What `insertLeaf` is to return: an arena below its root that holds the old
leaves and the new one. -/
structure LeafInserted (old new : List (Node U)) (root : Nat) (b : Bounds U) (order : Nat) :
    Prop where
  arena : Arena new root
  leafAt_iff : ∀ i b' o, LeafAt new i b' o ↔
    LeafAt old i b' o ∨ (i = old.length ∧ b' = b ∧ o = order)

omit [LinearOrder U] in
theorem leafAt_length_iff {new : List (Node U)} (hlen : old.length < new.length)
    (hleaf : nodeAt new old.length = ⟨b, order, .leaf order⟩) {b' : Bounds U} {o : Nat} :
    LeafAt new old.length b' o ↔ b' = b ∧ o = order := by
  rw [LeafAt, getElem?_nodeAt hlen, hleaf]
  constructor
  · intro h
    injection h with h
    injection h with h1 h2 _
    exact ⟨h1.symm, h2.symm⟩
  · rintro ⟨rfl, rfl⟩; rfl

theorem leafInserted_of {new : List (Node U)} {root' : Nat} (ha : Arena new root')
    (hlen : old.length < new.length) (hleaf : nodeAt new old.length = ⟨b, order, .leaf order⟩)
    (hold : ∀ i b' o, i < old.length → (LeafAt new i b' o ↔ LeafAt old i b' o))
    (hnew : ∀ i, old.length < i → (nodeAt new i).kind.isLeaf = false ∨ new.length ≤ i) :
    LeafInserted old new root' b order := by
  refine ⟨ha, fun i b' o => ?_⟩
  rcases lt_trichotomy i old.length with h | rfl | h
  · rw [hold i b' o h]
    constructor
    · intro hl; exact Or.inl hl
    · rintro (hl | ⟨he, -⟩)
      · exact hl
      · omega
  · rw [leafAt_length_iff hlen hleaf]
    constructor
    · intro hl; exact Or.inr ⟨rfl, hl⟩
    · rintro (hl | ⟨-, hl⟩)
      · have := hl.lt
        omega
      · exact hl
  · constructor
    · intro hl
      have hlt := hl.lt
      rcases hnew i h with hk | hk
      · rw [hl.nodeAt_eq] at hk
        exact absurd hk (by simp [NodeKind.isLeaf])
      · omega
    · rintro (hl | ⟨he, -⟩)
      · have := hl.lt
        omega
      · omega

section Attach

variable {path rest : List Nat} {cur : Nat} {best : Nat × Nat}

/-- The walk up from `cur`, which has become `node` in a vector with fresh nodes behind the old ones. -/
theorem propagate_set (ha : Arena old root) (hd : Descent old root (cur :: rest) best)
    {nodes new : List (Node U)} {node : Node U} (hnew : propagate b order (cur :: rest) none (nodes.set cur node) = new)
    (hlen : old.length ≤ nodes.length) (hold : ∀ i, i < old.length → nodeAt nodes i = nodeAt old i)
    (hon : Grown b order (nodeAt old cur) node ∨
      (node.bounds = (nodeAt old cur).bounds ∧ node.maxOrder = (nodeAt old cur).maxOrder))
    (hkind : node.kind.isLeaf = false) : Regrown old new b order (cur :: rest) ∧ new.length = nodes.length ∧
      (∀ i, old.length ≤ i → nodeAt new i = nodeAt nodes i) ∧ ∀ p, (nodeAt new p).kind.children.Perm
        (if p = cur then node.kind.children else (nodeAt nodes p).kind.children) := by
  subst hnew
  have hcur : cur < old.length := hd.pathUp.lt ha cur List.mem_cons_self
  have hset : ∀ i, nodeAt (nodes.set cur node) i = if i = cur then node else nodeAt nodes i :=
    fun i => nodeAt_set (hcur.trans_le hlen)
  have hlt : ∀ i ∈ cur :: rest, i < (nodes.set cur node).length := fun i hi => by
    rw [List.length_set]
    exact (hd.pathUp.lt ha i hi).trans_le hlen
  refine ⟨regrown_propagate cur ha hd.pathUp hd.internal (by rw [List.length_set]; exact hlen) (fun i hi hne => ?_)
    List.mem_cons_self ?_ ?_, by rw [length_propagate, List.length_set], fun i hi => ?_, fun p => ?_⟩
  · rw [hset, if_neg hne, hold i hi]
  · rw [hset, if_pos rfl]; exact hon
  · rw [hset, if_pos rfl]; exact hkind
  · rw [nodeAt_propagate_of_notMem b order _ none _ i hlt
      (fun hm => by have := hd.pathUp.lt ha _ hm; omega), hset, if_neg (by omega)]
  · rw [← apply_ite (fun n : Node U => n.kind.children), ← hset]
    exact children_propagate_perm (hd.pathUp.nodup ha) hlt p

/-- The leaf becomes a child of `cur`, which has room for it. -/
theorem attachBelow_spec (ha : Arena old root) (hd : Descent old root (cur :: rest) best)
    (b : Bounds U) (order : Nat) {placed : List Nat}
    (hperm : placed.Perm ((nodeAt old cur).kind.children ++ [old.length])) :
    LeafInserted old (propagate b order (cur :: rest) none
      (List.set (old ++ [⟨b, order, .leaf order⟩]) cur ⟨(nodeAt old cur).bounds.union b,
        max (nodeAt old cur).maxOrder order, .internal placed⟩)) root b order := by
  generalize hnew : propagate b order (cur :: rest) none _ = new
  obtain ⟨hr, hlen, hfresh, hkids⟩ := propagate_set ha hd hnew (by simp) (fun i hi => nodeAt_append_left hi)
    (Or.inl (grown_union _ _ _ _)) rfl
  have hleaf : nodeAt new old.length = ⟨b, order, .leaf order⟩ := by rw [hfresh _ le_rfl, nodeAt_length]
  have hgraft : GraftRoom old new b order cur := by
    refine ⟨by rw [hlen, List.length_append]; rfl, hleaf, fun p => (hkids p).trans ?_⟩
    split
    · rename_i he; subst he; exact hperm
    · rw [kind_children_append_leaf]
  exact leafInserted_of (hgraft.arena hr ha hd.pathUp List.mem_cons_self hd.internal)
    (by rw [hgraft.length]; omega) hleaf
    (fun i b' o hi => hr.leafAt_iff hd.internal (by rw [hgraft.length]; omega) hi)
    (fun i hi => Or.inr (by rw [hgraft.length]; omega))

/-- `cur` is full: the leaf and the best child of `cur` go below a new node in the place of
that child. -/
theorem attachPair_spec (ha : Arena old root) (hd : Descent old root (cur :: rest) best)
    (b : Bounds U) (order : Nat) {placed : List Nat}
    (hperm : placed.Perm ((old.length + 1) :: (nodeAt old cur).kind.children.erase best.1)) :
    LeafInserted old (propagate b order (cur :: rest) none
      (List.set (old ++ [⟨b, order, .leaf order⟩] ++ [⟨(nodeAt old best.1).bounds.union b,
          max (nodeAt old best.1).maxOrder order,
          .internal (pairChildren best.1 old.length (nodeAt old best.1).maxOrder order)⟩]) cur
        { nodeAt old cur with kind := .internal placed })) root b order := by
  generalize hnew : propagate b order (cur :: rest) none _ = new
  set nodes := old ++ [(⟨b, order, .leaf order⟩ : Node U)] with hnodes
  have hnlen : nodes.length = old.length + 1 := by simp [nodes]
  have hread : ∀ {i} (inner : Node U), i < old.length → nodeAt (nodes ++ [inner]) i = nodeAt old i := fun inner hi => by
    rw [nodeAt_append_left (by omega), hnodes, nodeAt_append_left hi]
  obtain ⟨hr, hlen, hfresh, hkids⟩ := propagate_set ha hd hnew (by simp [nodes]) (fun i hi => hread _ hi)
    (Or.inr ⟨rfl, rfl⟩) rfl
  have hbest : Child old cur best.1 := List.mem_of_getElem? (hd.best_at rfl)
  have hleaf : nodeAt new old.length = ⟨b, order, .leaf order⟩ := by
    rw [hfresh _ le_rfl, nodeAt_append_left (by omega), hnodes, nodeAt_length]
  have hin := hfresh (old.length + 1) (by omega)
  rw [← hnlen, nodeAt_length, hnlen] at hin
  have hgraft : GraftFull old new b order cur best.1 := by
    refine ⟨by rw [hlen, List.length_append, hnlen]; rfl, hleaf, by rw [hin], by rw [hin],
      by rw [hin]; exact pairChildren_perm _ _ _ _, by rw [hin]; rfl, fun p hp => (hkids p).trans ?_⟩
    split
    · rename_i he; subst he; exact hperm
    · rcases lt_or_ge p nodes.length with hpl | hpl
      · rw [nodeAt_append_left hpl, hnodes, kind_children_append_leaf]
      · rw [nodeAt_of_length_le (by rw [List.length_append, hnlen]; simp; omega),
          nodeAt_of_length_le (by omega)]
  refine leafInserted_of
    (hgraft.arena hr ha hd.pathUp List.mem_cons_self hd.internal hbest hd.best_leaf)
    (by rw [hgraft.length]; omega) hleaf
    (fun i b' o hi => hr.leafAt_iff hd.internal (by rw [hgraft.length]; omega) hi)
    (fun i hi => ?_)
  by_cases he : i = old.length + 1
  · exact Or.inl (he ▸ hgraft.inner_internal)
  · exact Or.inr (by rw [hgraft.length]; omega)

/-- **Hanging a leaf below an internal root.** -/
theorem attach_propagate_spec (ha : Arena old root) (hd : Descent old root path best)
    (b : Bounds U) (order : Nat) :
    LeafInserted old (propagate b order path none
      (attach (old ++ [⟨b, order, .leaf order⟩]) b order old.length (path.headD root) best))
      root b order := by
  obtain ⟨cur, rest, rfl⟩ : ∃ cur rest, path = cur :: rest := by
    cases path with
    | nil => cases hd.pathUp
    | cons c r => exact ⟨c, r, rfl⟩
  have hcur : cur < old.length := hd.pathUp.lt ha cur List.mem_cons_self
  have hbestAt := hd.best_at rfl
  have hbest : Child old cur best.1 := List.mem_of_getElem? hbestAt
  have hread : ∀ i, i < old.length →
      nodeAt (old ++ [(⟨b, order, .leaf order⟩ : Node U)]) i = nodeAt old i :=
    fun i hi => nodeAt_append_left hi
  rw [List.headD_cons]
  simp only [attach, hread cur hcur]
  split
  · refine attachBelow_spec ha hd b order ?_
    split
    · exact swapIndices_perm _ _ _
    · exact List.Perm.refl _
  · rw [hread best.1 (ha.child_lt hbest), List.length_append]
    refine attachPair_spec ha hd b order ?_
    have hreplaced : ((nodeAt old cur).kind.children.set best.2 (old.length + 1)).Perm
        ((old.length + 1) :: (nodeAt old cur).kind.children.erase best.1) := by
      obtain ⟨hpos, hget⟩ := List.getElem?_eq_some_iff.mp hbestAt
      rw [← hget, (ha.children_nodup cur).erase_getElem best.2 hpos]
      exact List.set_perm_cons_eraseIdx hpos _
    split
    · exact (swapIndices_perm _ _ _).trans hreplaced
    · exact hreplaced

end Attach

theorem leafInserted_first (b : Bounds U) (order : Nat) :
    LeafInserted [] [⟨b, order, .leaf order⟩] 0 b order := by
  have hno : ∀ {p c}, ¬ Child [(⟨b, order, .leaf order⟩ : Node U)] p c := by
    intro p c hc
    have hp := hc.parent_lt
    obtain rfl : p = 0 := by simpa using hp
    rw [Child, nodeAt] at hc
    exact absurd hc (by simp [NodeKind.children])
  refine leafInserted_of ⟨by simp, fun hc => absurd hc hno, fun hc => absurd hc hno, fun p => ?_,
    fun p => hno, fun hc hne => ?_, fun hi hk => ?_, fun hk => ?_, fun hc => absurd hc hno,
    fun hc => absurd hc hno, ⟨fun _ => 0, fun i hi => by simp, fun p c hc => absurd hc hno⟩⟩
    (by simp) rfl (fun i b' o hi => by simp at hi) (fun i hi => Or.inr (by simp at hi ⊢; omega))
  · have : (nodeAt [(⟨b, order, .leaf order⟩ : Node U)] p).kind.children = [] :=
      List.eq_nil_iff_forall_not_mem.mpr fun c => hno
    rw [this]
    exact List.nodup_nil
  · exact absurd (by simpa using hc) hne
  · rename_i i o n
    obtain rfl : i = 0 := by simpa using (List.getElem?_eq_some_iff.mp hi).1
    have hn : (⟨b, order, .leaf order⟩ : Node U) = n := by simpa using hi
    subst hn
    simpa using hk
  · rename_i i cs
    rintro rfl
    by_cases hi : i = 0
    · subst hi; simp [nodeAt] at hk
    · rw [nodeAt_of_length_le (by simp; omega)] at hk
      simp [Node.outOfRange] at hk

theorem Arena.eq_singleton (ha : Arena old root) (hk : (nodeAt old root).kind.isLeaf = true) :
    root = 0 ∧ ∃ x : Bounds U, ∃ o, old = [⟨x, o, .leaf o⟩] := by
  have hno : ∀ {c}, ¬ Child old root c := by
    intro c hc
    rw [Child] at hc
    cases hkk : (nodeAt old root).kind with
    | leaf o => rw [hkk] at hc; exact absurd hc (by simp [NodeKind.children])
    | internal cs => rw [hkk] at hk; exact absurd hk (by simp [NodeKind.isLeaf])
  have hall : ∀ i, i < old.length → i = root := by
    intro i hi
    rcases Relation.ReflTransGen.cases_head (ha.above_root hi) with he | ⟨c, hc, -⟩
    · exact he.symm
    · exact absurd hc hno
  have hroot := ha.root_lt
  have h0 : root = 0 := (hall 0 (by omega)).symm
  have hlen : old.length = 1 := by
    by_contra hne
    have := hall 1 (by omega)
    omega
  obtain ⟨n, hn⟩ := List.length_eq_one_iff.mp hlen
  subst hn h0
  refine ⟨rfl, n.bounds, n.maxOrder, ?_⟩
  cases hkk : n.kind with
  | leaf o =>
    have := ha.leaf_order (i := 0) (n := n) rfl hkk
    rw [← this] at hkk
    rw [← hkk]
  | internal cs =>
    rw [nodeAt] at hk
    simp [hkk, NodeKind.isLeaf] at hk

/-- The second leaf gets a fresh root above both. -/
theorem leafInserted_second (x b : Bounds U) (o order : Nat) :
    LeafInserted [⟨x, o, .leaf o⟩]
      [⟨x, o, .leaf o⟩, ⟨b, order, .leaf order⟩,
        ⟨x.union b, max o order, .internal (pairChildren 0 1 o order)⟩] 2 b order := by
  set new : List (Node U) := [⟨x, o, .leaf o⟩, ⟨b, order, .leaf order⟩,
    ⟨x.union b, max o order, .internal (pairChildren 0 1 o order)⟩] with hnew
  have hmem : ∀ c, c ∈ pairChildren 0 1 o order ↔ c = 0 ∨ c = 1 := by
    intro c
    rw [(pairChildren_perm 0 1 o order).mem_iff]
    simp
  have hchild : ∀ {p c}, Child new p c ↔ p = 2 ∧ (c = 0 ∨ c = 1) := by
    intro p c
    constructor
    · intro hc
      have hp : p < 3 := hc.parent_lt
      rw [Child] at hc
      obtain rfl | rfl | rfl : p = 0 ∨ p = 1 ∨ p = 2 := by omega
      · simp [hnew, nodeAt, NodeKind.children] at hc
      · simp [hnew, nodeAt, NodeKind.children] at hc
      · exact ⟨rfl, (hmem c).mp hc⟩
    · rintro ⟨rfl, hc⟩
      exact (hmem c).mpr hc
  have hkids : ∀ p, p ≠ 2 → (nodeAt new p).kind.children = [] := fun p hp =>
    List.eq_nil_iff_forall_not_mem.mpr fun c hc => hp (hchild.mp hc).1
  refine leafInserted_of ⟨by simp [hnew], ?_, ?_, ?_, ?_, ?_, ?_, ?_, ?_, ?_, ?_⟩
    (by simp [hnew]) rfl ?_ ?_
  · intro p c hc
    obtain ⟨-, rfl | rfl⟩ := hchild.mp hc <;> simp [hnew]
  · intro p q c h1 h2
    rw [(hchild.mp h1).1, (hchild.mp h2).1]
  · intro p
    by_cases hp : p = 2
    · subst hp
      exact (pairChildren_perm 0 1 o order).nodup_iff.mpr (by simp)
    · rw [hkids p hp]; exact List.nodup_nil
  · intro p hc
    obtain ⟨-, h | h⟩ := hchild.mp hc <;> omega
  · intro c hc hne
    have : c < 3 := hc
    exact ⟨2, hchild.mpr ⟨rfl, by omega⟩⟩
  · intro i k n hi hk
    have hlt : i < 3 := (List.getElem?_eq_some_iff.mp hi).1
    obtain rfl | rfl | rfl : i = 0 ∨ i = 1 ∨ i = 2 := by omega
    · obtain rfl : (⟨x, o, .leaf o⟩ : Node U) = n := by simpa [hnew] using hi
      simpa using hk
    · obtain rfl : (⟨b, order, .leaf order⟩ : Node U) = n := by simpa [hnew] using hi
      simpa using hk
    · obtain rfl : (⟨x.union b, max o order, .internal (pairChildren 0 1 o order)⟩ : Node U) = n := by
        simpa [hnew] using hi
      simp at hk
  · intro i cs hk he
    subst he
    by_cases hi : i = 2
    · subst hi
      have hperm := pairChildren_perm 0 1 o order
      rw [show pairChildren 0 1 o order = [] by simpa [hnew, nodeAt] using hk] at hperm
      exact absurd hperm.symm.eq_nil (by simp)
    · by_cases hlt : i < 3
      · obtain rfl | rfl : i = 0 ∨ i = 1 := by omega
        · simp [hnew, nodeAt] at hk
        · simp [hnew, nodeAt] at hk
      · rw [nodeAt_of_length_le (by simp [hnew]; omega)] at hk
        simp [Node.outOfRange] at hk
  · intro p c hc
    obtain ⟨rfl, rfl | rfl⟩ := hchild.mp hc
    · exact Bounds.covers_union_left x b
    · exact Bounds.covers_union_right x b
  · intro p c hc
    obtain ⟨rfl, rfl | rfl⟩ := hchild.mp hc
    · exact le_max_left o order
    · exact le_max_right o order
  · refine ⟨fun i => if i = 2 then 0 else 1, fun i hi => ?_, fun p c hc => ?_⟩
    · dsimp only
      split <;> simp [hnew]
    · obtain ⟨rfl, rfl | rfl⟩ := hchild.mp hc <;> rfl
  · intro i b' o' hi
    obtain rfl : i = 0 := by simpa using hi
    exact Iff.rfl
  · intro i hi
    by_cases he : i = 2
    · subst he; exact Or.inl rfl
    · refine Or.inr ?_
      simp only [List.length_singleton] at hi
      simp only [hnew, List.length_cons, List.length_nil]
      omega

/-- **Inserting a leaf** keeps the arena and adds exactly that leaf. -/
theorem insertLeaf_spec {t : BoundsTree U} (h : t.Wf) (b : Bounds U) (order : Nat) :
    ∃ root, (t.insertLeaf b order).2 = some root ∧
      LeafInserted t.nodes (t.insertLeaf b order).1 root b order := by
  cases hr : t.root with
  | none =>
    have hnil := (h.empty hr).1
    refine ⟨0, ?_, ?_⟩
    · simp [insertLeaf, hr, hnil]
    · simpa [insertLeaf, hr, hnil] using leafInserted_first b order
  | some root =>
    have ha := h.arena hr
    by_cases hk : (nodeAt t.nodes root).kind.isLeaf = true
    · obtain ⟨rfl, x, o, hold⟩ := ha.eq_singleton hk
      refine ⟨2, ?_, ?_⟩
      · simp [insertLeaf, hr, hold, nodeAt, NodeKind.isLeaf]
      · rw [hold]
        simpa [insertLeaf, hr, hold, nodeAt, NodeKind.isLeaf] using
          leafInserted_second x b o order
    · have hk' : (nodeAt t.nodes root).kind.isLeaf = false := by simpa using hk
      have hread : nodeAt (t.nodes ++ [⟨b, order, .leaf order⟩]) root = nodeAt t.nodes root :=
        nodeAt_append_left ha.root_lt
      refine ⟨root, ?_, ?_⟩
      · simp [insertLeaf, hr, hread, hk']
      · have hd := descent_append_leaf ha hk' b order
        have := attach_propagate_spec ha hd b order
        simpa [insertLeaf, hr, hread, hk'] using this

end InsertLeaf

/-! ### The insertion -/

theorem wf_clear (t : BoundsTree U) : t.clear.Wf :=
  ⟨fun _ => ⟨rfl, rfl⟩, fun h => by simp [clear] at h, fun h => by simp [clear] at h⟩

omit [AddCommGroup U] [LinearOrder U] in
theorem not_leaves_clear (t : BoundsTree U) (b : Bounds U) (o : Nat) : ¬ t.clear.Leaves b o := by
  rintro ⟨i, hi⟩
  exact absurd hi.lt (by simp [clear])

/-- **The tree after an insertion holds the old rectangles and the new one.** -/
theorem insert_leaves {t : BoundsTree U} (h : t.Wf) (b b' : Bounds U) (o : Nat) :
    (t.insert b).2.Leaves b' o ↔ t.Leaves b' o ∨ (b' = b ∧ o = (t.insert b).1) := by
  obtain ⟨root, -, hins⟩ := insertLeaf_spec h b ((t.findMaxOrdering b + 1) % u32Size)
  constructor
  · rintro ⟨i, hi⟩
    rcases (hins.leafAt_iff i b' o).mp hi with hl | ⟨-, hb, ho⟩
    · exact Or.inl ⟨i, hl⟩
    · exact Or.inr ⟨hb, ho⟩
  · rintro (⟨i, hi⟩ | ⟨hb, ho⟩)
    · exact ⟨i, (hins.leafAt_iff i b' o).mpr (Or.inl hi)⟩
    · exact ⟨t.nodes.length, (hins.leafAt_iff _ b' o).mpr (Or.inr ⟨rfl, hb, ho⟩)⟩

theorem insert_wf {t : BoundsTree U} (h : t.Wf) (b : Bounds U) : (t.insert b).2.Wf := by
  set ordering := (t.findMaxOrdering b + 1) % u32Size with hord
  obtain ⟨root, hroot, hins⟩ := insertLeaf_spec h b ordering
  have hnew : LeafAt (t.insertLeaf b ordering).1 t.nodes.length b ordering :=
    (hins.leafAt_iff _ _ _).mpr (Or.inr ⟨rfl, rfl, rfl⟩)
  refine ⟨fun hn => ?_, fun {r} hr => ?_, fun {r} _ => ?_⟩
  · simp [insert, ← hord, hroot] at hn
  · obtain rfl : root = r := by simpa [insert, ← hord, hroot] using hr
    simpa [insert, ← hord] using hins.arena
  · have hmaxNew : (∀ i b' o', LeafAt t.nodes i b' o' → o' ≤ ordering) →
        ∀ i b' o', LeafAt (t.insertLeaf b ordering).1 i b' o' → o' ≤ ordering := by
      intro hle i b' o' hl
      rcases (hins.leafAt_iff i b' o').mp hl with hl | ⟨-, -, ho⟩
      · exact hle i b' o' hl
      · exact ho.le
    cases hr : t.root with
    | none =>
      obtain ⟨hnil, hml⟩ := h.empty hr
      refine ⟨t.nodes.length, b, ordering, by simp [insert, hml], hnew, hmaxNew ?_⟩
      intro i b' o' hl
      have := hl.lt
      simp [hnil] at this
    | some r0 =>
      obtain ⟨m, bm, om, hm, hl, hmax⟩ := h.maxLeaf hr
      have hlm : LeafAt (t.insertLeaf b ordering).1 m bm om := (hins.leafAt_iff _ _ _).mpr (Or.inl hl)
      by_cases hlt : om < ordering
      · refine ⟨t.nodes.length, b, ordering, ?_, hnew, hmaxNew fun i b' o' hl' => ?_⟩
        · simp [insert, ← hord, hm, hlm.nodeAt_eq, hlt]
        · exact (hmax i b' o' hl').trans hlt.le
      · refine ⟨m, bm, om, ?_, hlm, fun i b' o' hl' => ?_⟩
        · simp [insert, ← hord, hm, hlm.nodeAt_eq, hlt]
        · rcases (hins.leafAt_iff i b' o').mp hl' with hl' | ⟨-, -, ho⟩
          · exact hmax i b' o' hl'
          · omega

/-- **A rectangle is put above everything it overlaps.**  As long as no order
has reached the largest `u32`, the order returned is one more than the largest
order among the rectangles that overlap the new one. -/
theorem insert_order {t : BoundsTree U} (h : t.Wf) (b : Bounds U)
    (hmax : ∀ b' o, t.Leaves b' o → o < u32Size - 1) :
    ∃ m, (t.insert b).1 = m + 1 ∧ IsMaxOrdering t.Leaves b m := by
  have hs := findMaxOrdering_spec h b
  refine ⟨t.findMaxOrdering b, Nat.mod_eq_of_lt ?_, hs⟩
  rcases hs.attained with h0 | ⟨b', hl, -⟩
  · rw [h0]; decide
  · have := hmax b' _ hl
    omega

end BoundsTree

end FcGpui
