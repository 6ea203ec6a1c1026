import FcGpui.Scene.BoundsTree

/-!
# The query of a well-formed bounds tree

`Arena` is what the node vector keeps: indices in range, one parent for every
node but the root, a depth, and between a node and its children containment of
bounds and a larger `maxOrder`.  Nothing about the order of children is needed
here; that invariant of the source only decides how early the search prunes.

* `searchLoop_complete`: the search ends within its bound and never misses a
  leaf that overlaps the query.  The ghost list is what has been popped; a node
  is popped once, because it is pushed only when its one parent is popped.
* `searchLoop_sound`: what it returns is `0` or the order of an overlapping
  leaf.
* `findMaxOrdering_spec` joins the two with the test of the largest leaf.
-/

namespace FcGpui

namespace BoundsTree

variable {U : Type} [AddCommGroup U] [LinearOrder U]

/-! ### The invariant -/

/-- `c` is listed as a child of `p`. -/
def Child (nodes : List (Node U)) (p c : Nat) : Prop := c ∈ (nodeAt nodes p).kind.children

/-- `i` holds a leaf for the rectangle `b` of order `o`. -/
def LeafAt (nodes : List (Node U)) (i : Nat) (b : Bounds U) (o : Nat) : Prop :=
  nodes[i]? = some ⟨b, o, .leaf o⟩

/-- What the node vector keeps, with `root` the index of its root. -/
structure Arena (nodes : List (Node U)) (root : Nat) : Prop where
  root_lt : root < nodes.length
  child_lt : ∀ {p c}, Child nodes p c → c < nodes.length
  parent_unique : ∀ {p q c}, Child nodes p c → Child nodes q c → p = q
  children_nodup : ∀ p, (nodeAt nodes p).kind.children.Nodup
  root_orphan : ∀ p, ¬ Child nodes p root
  has_parent : ∀ {c}, c < nodes.length → c ≠ root → ∃ p, Child nodes p c
  leaf_order : ∀ {i o : Nat} {n : Node U}, nodes[i]? = some n → n.kind = .leaf o → n.maxOrder = o
  inhabited : ∀ {i cs}, (nodeAt nodes i).kind = .internal cs → cs ≠ []
  covers : ∀ {p c}, Child nodes p c → (nodeAt nodes p).bounds.Covers (nodeAt nodes c).bounds
  max_le : ∀ {p c}, Child nodes p c → (nodeAt nodes c).maxOrder ≤ (nodeAt nodes p).maxOrder
  depth : ∃ d : Nat → Nat, (∀ i, i < nodes.length → d i < nodes.length) ∧
    ∀ p c, Child nodes p c → d c = d p + 1

/-- The whole tree: an arena below its root, and a largest leaf. -/
structure Wf (t : BoundsTree U) : Prop where
  empty : t.root = none → t.nodes = [] ∧ t.maxLeaf = none
  arena : ∀ {r}, t.root = some r → Arena t.nodes r
  maxLeaf : ∀ {r}, t.root = some r → ∃ m b o, t.maxLeaf = some m ∧ LeafAt t.nodes m b o ∧
    ∀ i b' o', LeafAt t.nodes i b' o' → o' ≤ o

variable {i : Nat} {nodes : List (Node U)} {popped stack : List Nat}

omit [LinearOrder U] in
theorem nodeAt_of_getElem? {n : Node U} (h : nodes[i]? = some n) : nodeAt nodes i = n := by
  rw [nodeAt, h, Option.getD_some]

omit [LinearOrder U] in
theorem getElem?_nodeAt (h : i < nodes.length) : nodes[i]? = some (nodeAt nodes i) := by
  rw [nodeAt, List.getElem?_eq_getElem h, Option.getD_some]

omit [LinearOrder U] in
theorem nodeAt_of_length_le (h : nodes.length ≤ i) : nodeAt nodes i = Node.outOfRange := by
  rw [nodeAt, List.getElem?_eq_none h, Option.getD_none]

omit [LinearOrder U] in
theorem Child.parent_lt {p c : Nat} (h : Child nodes p c) : p < nodes.length := by
  by_contra hp
  rw [Child, nodeAt_of_length_le (by omega)] at h
  exact absurd h (by simp [Node.outOfRange, NodeKind.children])

omit [AddCommGroup U] [LinearOrder U] in
theorem LeafAt.lt {o : Nat} {b : Bounds U} (h : LeafAt nodes i b o) :
    i < nodes.length := (List.getElem?_eq_some_iff.mp h).1

omit [LinearOrder U] in
theorem LeafAt.nodeAt_eq {o : Nat} {b : Bounds U}
    (h : LeafAt nodes i b o) : nodeAt nodes i = ⟨b, o, .leaf o⟩ := nodeAt_of_getElem? h

/-! ### Ancestors -/

/-- `a` is `i` or lies above it. -/
def Above (nodes : List (Node U)) : Nat → Nat → Prop := Relation.ReflTransGen (Child nodes)

theorem Arena.covers_of_above {root a : Nat} (h : Arena nodes root)
    (ha : Above nodes a i) : (nodeAt nodes a).bounds.Covers (nodeAt nodes i).bounds := by
  induction ha with
  | refl => exact Bounds.Covers.refl _
  | tail _ hc ih => exact ih.trans (h.covers hc)

theorem Arena.max_le_of_above {root a : Nat} (h : Arena nodes root)
    (ha : Above nodes a i) : (nodeAt nodes i).maxOrder ≤ (nodeAt nodes a).maxOrder := by
  induction ha with
  | refl => exact le_rfl
  | tail _ hc ih => exact (h.max_le hc).trans ih

theorem Arena.above_root {root : Nat} (h : Arena nodes root) :
    ∀ {i : Nat}, i < nodes.length → Above nodes root i := by
  obtain ⟨d, -, hd⟩ := h.depth
  intro i
  induction hn : d i using Nat.strong_induction_on generalizing i with
  | _ n ih =>
    intro hi
    by_cases he : i = root
    · subst he; exact .refl
    · obtain ⟨p, hp⟩ := h.has_parent hi he
      have hdp := hd p i hp
      exact (ih (d p) (by omega) rfl hp.parent_lt).tail hp

/-! ### The search -/

theorem le_searchLoop (nodes : List (Node U)) (query : Bounds U) :
    ∀ (fuel : Nat) (stack : List Nat) (m : Nat), m ≤ searchLoop nodes query fuel stack m := by
  intro fuel
  induction fuel with
  | zero => intro stack m; exact le_rfl
  | succ fuel ih =>
    intro stack m
    cases stack with
    | nil => exact le_rfl
    | cons i stack =>
      simp only [searchLoop]
      split
      · exact ih stack m
      · split
        · exact ih stack m
        · split
          · exact (le_max_left _ _).trans (ih stack _)
          · exact ih _ m

/-- **What the search returns is what it started from or the order of a leaf
that overlaps the query.** -/
theorem searchLoop_sound {root : Nat} (h : Arena nodes root)
    (query : Bounds U) : ∀ (fuel : Nat) (stack : List Nat) (m : Nat),
    (∀ i ∈ stack, i < nodes.length) →
      searchLoop nodes query fuel stack m = m ∨
      ∃ i b, LeafAt nodes i b (searchLoop nodes query fuel stack m) ∧ query.intersects b = true := by
  intro fuel
  induction fuel with
  | zero => intro stack m _; exact Or.inl rfl
  | succ fuel ih =>
    intro stack m hs
    cases stack with
    | nil => exact Or.inl rfl
    | cons i stack =>
      have hrest : ∀ j ∈ stack, j < nodes.length := fun j hj => hs j (List.mem_cons_of_mem i hj)
      have hi : nodes[i]? = some (nodeAt nodes i) := getElem?_nodeAt (hs i List.mem_cons_self)
      simp only [searchLoop]
      split
      · exact ih stack m hrest
      · split
        · exact ih stack m hrest
        · rename_i hmax hint
          split
          · rename_i order hk
            have horder : (nodeAt nodes i).maxOrder = order := h.leaf_order hi hk
            have hm : max m order = order := max_eq_right (by omega)
            rcases ih stack (max m order) hrest with he | hl
            · refine Or.inr ⟨i, (nodeAt nodes i).bounds, ?_, by simpa using hint⟩
              rw [he, hm, LeafAt, hi]
              rw [← horder] at hk ⊢
              rw [← hk]
            · exact Or.inr hl
          · rename_i children hk
            refine ih _ m ?_
            intro j hj
            rcases List.mem_append.mp hj with hj | hj
            · have hjc : j ∈ children := (List.mem_filter.mp (List.mem_reverse.mp hj)).1
              exact h.child_lt (p := i) (by rw [Child, hk]; exact hjc)
            · exact hrest j hj

/-- What the search has pushed so far, popped or not. -/
structure Pushed (nodes : List (Node U)) (popped stack : List Nat) : Prop where
  nodup : (popped ++ stack).Nodup
  lt : ∀ i ∈ popped ++ stack, i < nodes.length
  parent_popped : ∀ i ∈ popped ++ stack, ∀ p, Child nodes p i → p ∈ popped

omit [LinearOrder U] in
theorem Pushed.length_le (h : Pushed nodes popped stack) : popped.length + stack.length ≤ nodes.length := by
  have hsub : popped ++ stack ⊆ List.range nodes.length :=
    fun i hi => List.mem_range.mpr (h.lt i hi)
  have := (h.nodup.subperm hsub).length_le
  simpa using this

omit [LinearOrder U] in
theorem Pushed.pop (h : Pushed nodes popped (i :: stack)) : Pushed nodes (popped ++ [i]) stack := by
  refine ⟨by simpa using h.nodup, fun j hj => h.lt j (by simpa using hj), fun j hj p hp => ?_⟩
  exact List.mem_append_left _ (h.parent_popped j (by simpa using hj) p hp)

theorem Pushed.push {root : Nat} (ha : Arena nodes root) {cs : List Nat} (h : Pushed nodes popped (i :: stack))
    (hsub : ∀ c ∈ cs, Child nodes i c) (hnd : cs.Nodup) : Pushed nodes (popped ++ [i]) (cs ++ stack) := by
  have hpop := h.pop
  have hfresh : ∀ c ∈ cs, c ∉ popped ++ i :: stack := by
    intro c hc hmem
    have hip : i ∈ popped := h.parent_popped c hmem i (hsub c hc)
    exact (List.nodup_append.mp h.nodup).2.2 i hip i List.mem_cons_self rfl
  have hperm : (popped ++ [i] ++ (cs ++ stack)).Perm (cs ++ (popped ++ [i] ++ stack)) := by
    rw [← List.append_assoc, ← List.append_assoc]
    exact List.perm_append_comm.append_right stack
  refine ⟨?_, ?_, ?_⟩
  · rw [hperm.nodup_iff, List.nodup_append]
    refine ⟨hnd, hpop.nodup, ?_⟩
    intro c hc j hj he
    subst he
    exact hfresh c hc (by simpa using hj)
  · intro j hj
    rcases List.mem_append.mp (hperm.mem_iff.mp hj) with hj | hj
    · exact ha.child_lt (hsub j hj)
    · exact hpop.lt j hj
  · intro j hj p hp
    rcases List.mem_append.mp (hperm.mem_iff.mp hj) with hj | hj
    · rw [ha.parent_unique hp (hsub j hj)]; simp
    · exact hpop.parent_popped j hj p hp

/-- **The search misses no leaf.**  With a bound of at least the nodes not yet
popped, every leaf below the stack that overlaps the query has at most the
order returned. -/
theorem searchLoop_complete {root : Nat} (h : Arena nodes root)
    (query : Bounds U) : ∀ (fuel : Nat) (popped stack : List Nat) (m : Nat),
    Pushed nodes popped stack → nodes.length < popped.length + fuel →
    ∀ {l : Nat} {b : Bounds U} {o : Nat}, LeafAt nodes l b o → query.intersects b = true →
      (∃ s ∈ stack, Above nodes s l) → o ≤ searchLoop nodes query fuel stack m := by
  intro fuel
  induction fuel with
  | zero =>
    intro popped stack m hp hf
    have := hp.length_le
    omega
  | succ fuel ih =>
    intro popped stack m hp hf l b o hl hq hs
    cases stack with
    | nil => obtain ⟨s, hs, -⟩ := hs; exact absurd hs (by simp)
    | cons i stack =>
      have hrest : (∃ s ∈ stack, Above nodes s l) → ∀ m', o ≤ searchLoop nodes query fuel stack m' :=
        fun hst m' => ih (popped ++ [i]) stack m' hp.pop (by simp; omega) hl hq hst
      have hsplit : Above nodes i l ∨ ∃ s ∈ stack, Above nodes s l := by
        obtain ⟨s, hs, hsl⟩ := hs
        rcases List.mem_cons.mp hs with rfl | hs
        · exact Or.inl hsl
        · exact Or.inr ⟨s, hs, hsl⟩
      have hle : Above nodes i l → o ≤ (nodeAt nodes i).maxOrder := fun ha => by
        have := h.max_le_of_above ha
        rwa [hl.nodeAt_eq] at this
      simp only [searchLoop]
      split
      · rename_i hmax
        rcases hsplit with ha | hst
        · exact ((hle ha).trans hmax).trans (le_searchLoop nodes query fuel stack m)
        · exact hrest hst m
      · split
        · rename_i hmiss
          rcases hsplit with ha | hst
          · have hcov := h.covers_of_above ha
            rw [hl.nodeAt_eq] at hcov
            rw [Bounds.intersects_of_covers hcov hq] at hmiss
            exact absurd hmiss (by simp)
          · exact hrest hst m
        · split
          · rename_i order hk
            rcases hsplit with ha | hst
            · have hi : i = l := by
                rcases Relation.ReflTransGen.cases_head ha with he | ⟨c, hc, -⟩
                · exact he
                · rw [Child, hk] at hc; exact absurd hc (by simp [NodeKind.children])
              subst hi
              have hord : order = o := by rw [hl.nodeAt_eq] at hk; simpa using hk.symm
              subst hord
              exact (le_max_right m order).trans (le_searchLoop nodes query fuel stack _)
            · exact hrest hst _
          · rename_i children hk
            have hnd : children.Nodup := by
              have := h.children_nodup i
              rwa [hk] at this
            have hpush : Pushed nodes (popped ++ [i]) ((children.filter fun c =>
                decide (m < (nodeAt nodes c).maxOrder)).reverse ++ stack) := hp.push h
              (fun c hc => by
                rw [Child, hk]
                exact (List.mem_filter.mp (List.mem_reverse.mp hc)).1)
              (List.nodup_reverse.mpr (hnd.filter _))
            have hgo : (∃ s ∈ (children.filter fun c =>
                  decide (m < (nodeAt nodes c).maxOrder)).reverse ++ stack, Above nodes s l) →
                o ≤ searchLoop nodes query fuel _ m :=
              ih (popped ++ [i]) _ m hpush (by simp; omega) hl hq
            rcases hsplit with ha | ⟨s, hs, hsl⟩
            · rcases Relation.ReflTransGen.cases_head ha with he | ⟨c, hc, hcl⟩
              · subst he
                rw [hl.nodeAt_eq] at hk
                exact absurd hk (by simp)
              · by_cases hm : m < (nodeAt nodes c).maxOrder
                · refine hgo ⟨c, List.mem_append_left _ ?_, hcl⟩
                  rw [Child, hk] at hc
                  rw [List.mem_reverse, List.mem_filter]
                  exact ⟨hc, by simpa using hm⟩
                · have hco := h.max_le_of_above hcl
                  rw [hl.nodeAt_eq] at hco
                  exact (show o ≤ m by simp at hco; omega).trans (le_searchLoop nodes query fuel _ m)
            · exact hgo ⟨s, List.mem_append_right _ hs, hsl⟩

/-! ### The query -/

/-- The order `findMaxOrdering` should find for `query` among `leaves`. -/
structure IsMaxOrdering (leaves : Bounds U → Nat → Prop) (query : Bounds U) (m : Nat) : Prop where
  upper : ∀ b o, leaves b o → query.intersects b = true → o ≤ m
  attained : m = 0 ∨ ∃ b, leaves b m ∧ query.intersects b = true

/-- The rectangles a tree holds, with their orders. -/
def Leaves (t : BoundsTree U) (b : Bounds U) (o : Nat) : Prop := ∃ i, LeafAt t.nodes i b o

theorem slowPath_spec {t : BoundsTree U} {root : Nat} (h : Arena t.nodes root) (query : Bounds U) :
    IsMaxOrdering t.Leaves query (t.slowPath query root) := by
  have hp : Pushed t.nodes [] [root] := by
    refine ⟨by simp, fun i hi => ?_, fun i hi p hp => ?_⟩
    · obtain rfl : i = root := by simpa using hi
      exact h.root_lt
    · obtain rfl : i = root := by simpa using hi
      exact absurd hp (h.root_orphan p)
  constructor
  · rintro b o ⟨l, hl⟩ hq
    exact searchLoop_complete h query (t.nodes.length + 1) [] [root] 0 hp (by simp) hl hq
      ⟨root, by simp, h.above_root hl.lt⟩
  · rcases searchLoop_sound h query (t.nodes.length + 1) [root] 0
      (fun i hi => hp.lt i (by simpa using hi)) with he | ⟨i, b, hl, hq⟩
    · exact Or.inl he
    · exact Or.inr ⟨b, ⟨i, hl⟩, hq⟩

/-- **The query returns the largest order among the rectangles that overlap
it.** -/
theorem findMaxOrdering_spec {t : BoundsTree U} (h : t.Wf) (query : Bounds U) :
    IsMaxOrdering t.Leaves query (t.findMaxOrdering query) := by
  rw [findMaxOrdering]
  cases hr : t.root with
  | none =>
    refine ⟨?_, Or.inl rfl⟩
    rintro b o ⟨i, hi⟩
    have := hi.lt
    rw [(h.empty hr).1] at this
    exact absurd this (by simp)
  | some root =>
    obtain ⟨m, b, o, hm, hl, hmax⟩ := h.maxLeaf hr
    simp only [hm]
    split
    · rename_i hint
      rw [hl.nodeAt_eq] at hint ⊢
      exact ⟨fun b' o' ⟨i, hi⟩ _ => hmax i b' o' hi, Or.inr ⟨b, ⟨m, hl⟩, hint⟩⟩
    · exact slowPath_spec (h.arena hr) query

end BoundsTree

end FcGpui
