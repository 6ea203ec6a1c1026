import FcGpui.Renderer.PathSprites
import FcGpui.Scene.PaintersOrder

/-!
# When the sprites of a batch of paths are disjoint

A batch of paths is copied sprite by sprite from an intermediate texture, and a
pixel that is copied twice is blended twice.  The renderers take one sprite for
each path when the first and the last path of the batch have one draw order, on
the assumption that the bounds of paths of one order are disjoint.

The bounds tree gives different orders to rectangles that overlap, but not every
path goes to the tree: inside a layer a path takes the order of the layer.  So
the order of a path is that of its *order box*, a rectangle that went to the
tree: its own clipped bounds if no layer is open, else the bounds of the
innermost layer.  `Placing` computes the order boxes from the calls alone, and
`PathsApart` is the condition on the calls: paths that overlap have different
order boxes that overlap too.

`TreeLog` is what the tree keeps: the rectangles it was given, in order, where
of two that overlap the later has the larger order.  `Placed` connects a scene
with its placing; `Placed.step` keeps it.

**Main result.**  `pathsComposited`: when the calls keep the paths apart, the
sprites of every batch of paths are disjoint and cover the paths, and when they
are, the paths of a batch of one order do not overlap.  (The condition on the
calls is no more than enough: two paths of one layer that overlap do no harm
when a path of another order comes into their batch.)
`not_pathsComposited_in_layer` has two paths in one layer that overlap.
-/

namespace FcGpui

section Geometry

variable {U ρ : Type} [AddCommGroup U] [LinearOrder U]

/-- Each path of each batch is copied, and no pixel is copied twice. -/
def Scene.PathsComposited (s : Scene U ρ) : Prop :=
  ∃ batches, s.batches = some batches ∧ ∀ batch ∈ batches, batch.kind = .path →
    ∃ sprites, pathSprites batch.primitives = some sprites ∧
      sprites.Pairwise (fun a b => a.bounds.intersects b.bounds = false) ∧
      ∀ path ∈ batch.primitives, ∃ sprite ∈ sprites, sprite.bounds.Covers path.clippedBounds

/-- Paths that all have one order do not overlap. -/
def PathsOfOneOrderApart (paths : List (Primitive U ρ)) : Prop :=
  (∀ p ∈ paths, ∀ q ∈ paths, p.order = q.order) →
    paths.Pairwise fun p q => p.clippedBounds.intersects q.clippedBounds = false

/-! ### The order boxes -/

/-- A rectangle that goes to the bounds tree, and which one it is. -/
structure OrderBox (U : Type) where
  entry : Nat
  bounds : Bounds U
deriving DecidableEq, Repr

/-- A path by its order box and by what can be seen of it. -/
structure PlacedPath (U : Type) where
  box : OrderBox U
  clipped : Bounds U
deriving DecidableEq, Repr

/-- What some calls did: how many rectangles went to the tree, the boxes of the
open layers (innermost first), and the paths. -/
structure Placing (U : Type) where
  count : Nat
  layers : List (OrderBox U)
  paths : List (PlacedPath U)
deriving DecidableEq, Repr

namespace Placing

def placed (p : Primitive U ρ) (box : OrderBox U) : List (PlacedPath U) :=
  if p.kind = .path then [⟨box, p.clippedBounds⟩] else []

def perform (pl : Placing U) : SceneOp U ρ → Placing U
  | .pushLayer bounds => ⟨pl.count + 1, ⟨pl.count, bounds⟩ :: pl.layers, pl.paths⟩
  | .popLayer => ⟨pl.count, pl.layers.tail, pl.paths⟩
  | .insertPrimitive p =>
    if p.culled then pl
    else
      match pl.layers with
      | box :: _ => ⟨pl.count, pl.layers, pl.paths ++ placed p box⟩
      | [] => ⟨pl.count + 1, [], pl.paths ++ placed p ⟨pl.count, p.clippedBounds⟩⟩

def run (ops : List (SceneOp U ρ)) : Placing U := ops.foldl perform ⟨0, [], []⟩

end Placing

/-- Two paths that overlap are ordered by two rectangles that overlap. -/
def PathsApart (ops : List (SceneOp U ρ)) : Prop :=
  (Placing.run ops).paths.Pairwise fun a b => a.clipped.intersects b.clipped = true →
    a.box.entry ≠ b.box.entry ∧ a.box.bounds.intersects b.box.bounds = true

instance (ops : List (SceneOp U ρ)) : Decidable (PathsApart ops) :=
  inferInstanceAs (Decidable (List.Pairwise _ _))

/-! ### What the tree keeps -/

/-- The tree holds the rectangles of `log`, each with its order.  Of two that
overlap, the later one has the larger order. -/
structure TreeLog (t : BoundsTree U) (log : List (Bounds U × Nat)) : Prop where
  wf : t.Wf
  leaves : ∀ b o, t.Leaves b o ↔ (b, o) ∈ log
  ascending : log.Pairwise fun x y => x.1.intersects y.1 = true → x.2 < y.2
  low : ∀ x ∈ log, x.2 ≤ log.length

theorem treeLog_clear (t : BoundsTree U) : TreeLog t.clear [] := by
  refine ⟨BoundsTree.wf_clear t, fun b o => ?_, List.Pairwise.nil, by simp⟩
  have := BoundsTree.not_leaves_clear t b o
  simp [this]

variable {log : List (Bounds U × Nat)}

theorem TreeLog.insert {t : BoundsTree U} (h : TreeLog t log)
    (hlen : log.length < u32Max) (b : Bounds U) : TreeLog (t.insert b).2 (log ++ [(b, (t.insert b).1)]) := by
  have hbelow : ∀ b' o, t.Leaves b' o → o < BoundsTree.u32Size - 1 := by
    intro b' o hl
    exact (h.low _ ((h.leaves b' o).mp hl)).trans_lt hlen
  obtain ⟨m, hm, hmax⟩ := BoundsTree.insert_order h.wf b hbelow
  have hlow : m ≤ log.length := by
    rcases hmax.attained with h0 | ⟨b', hl, -⟩
    · omega
    · exact h.low _ ((h.leaves b' m).mp hl)
  refine ⟨BoundsTree.insert_wf h.wf b, fun b' o => ?_, ?_, fun x hx => ?_⟩
  · rw [BoundsTree.insert_leaves h.wf, h.leaves, List.mem_append, List.mem_singleton, Prod.mk.injEq]
  · refine List.pairwise_append.mpr ⟨h.ascending, List.pairwise_singleton _ _, ?_⟩
    intro x hx y hy hxy
    rw [List.mem_singleton.mp hy] at hxy ⊢
    rw [Bounds.intersects_comm] at hxy
    have := hmax.upper x.1 x.2 ((h.leaves _ _).mpr hx) hxy
    omega
  · rw [List.length_append, List.length_singleton]
    rcases List.mem_append.mp hx with hx | hx
    · exact (h.low x hx).trans (Nat.le_succ _)
    · rw [List.mem_singleton.mp hx]
      omega

/-- Two rectangles of the tree that overlap have different orders. -/
theorem TreeLog.order_ne {t : BoundsTree U} (h : TreeLog t log)
    {i j : Nat} {x y : Bounds U × Nat} (hi : log[i]? = some x) (hj : log[j]? = some y)
    (hne : i ≠ j) (hxy : x.1.intersects y.1 = true) : x.2 ≠ y.2 := by
  obtain ⟨hil, rfl⟩ := List.getElem?_eq_some_iff.mp hi
  obtain ⟨hjl, rfl⟩ := List.getElem?_eq_some_iff.mp hj
  have hlt := List.pairwise_iff_getElem.mp h.ascending
  rcases Nat.lt_or_gt_of_ne hne with hij | hji
  · exact (hlt i j hil hjl hij hxy).ne
  · rw [Bounds.intersects_comm] at hxy
    exact (hlt j i hjl hil hji hxy).ne'

/-! ### What the scene keeps -/

/-- The box is the rectangle of the tree that has this order. -/
def OrderBox.Has (log : List (Bounds U × Nat)) (box : OrderBox U) (order : Nat) : Prop :=
  log[box.entry]? = some (box.bounds, order)

omit [AddCommGroup U] [LinearOrder U] in
theorem OrderBox.Has.append {box : OrderBox U} {order : Nat}
    (h : box.Has log order) (x : Bounds U × Nat) : box.Has (log ++ [x]) order := by
  obtain ⟨hlt, -⟩ := List.getElem?_eq_some_iff.mp h
  rw [Has, List.getElem?_append_left hlt]
  exact h

/-- A stored path is where the calls placed it. -/
structure PlacedPath.Stored (log : List (Bounds U × Nat)) (path : PlacedPath U)
    (p : Primitive U ρ) : Prop where
  box : path.box.Has log p.order
  clipped : p.clippedBounds = path.clipped

/-- A scene and what the calls that built it placed. -/
structure Placed (log : List (Bounds U × Nat)) (pl : Placing U) (s : Scene U ρ) : Prop where
  tree : TreeLog s.primitiveBounds log
  count : log.length = pl.count
  layers : List.Forall₂ (OrderBox.Has log) pl.layers s.layerStack
  paths : List.Forall₂ (PlacedPath.Stored log) pl.paths (s.items .path)

theorem placed_clear (s : Scene U ρ) : Placed [] ⟨0, [], []⟩ s.clear :=
  ⟨treeLog_clear s.primitiveBounds, rfl, List.Forall₂.nil, List.Forall₂.nil⟩

theorem PlacedPath.Stored.append {path : PlacedPath U}
    {p : Primitive U ρ} (h : path.Stored log p) (x : Bounds U × Nat) : path.Stored (log ++ [x]) p :=
  ⟨h.box.append x, h.clipped⟩

variable {log : List (Bounds U × Nat)} {pl : Placing U} {s : Scene U ρ}

variable {p : Primitive U ρ}

/-- One more stored primitive, at the order of `box`. -/
theorem stored_insertPrimitive {paths : List (PlacedPath U)}
    (h : List.Forall₂ (PlacedPath.Stored log) paths (s.items .path)) (hc : p.culled = false) {box : OrderBox U}
    (hbox : box.Has log (s.nextOrder p.clippedBounds).1) :
    List.Forall₂ (PlacedPath.Stored log) (paths ++ Placing.placed p box)
      ((s.insertPrimitive p).items .path) := by
  rw [Scene.items_insertPrimitive hc, Placing.placed]
  by_cases hk : p.kind = .path
  · rw [if_pos hk, hk, Function.update_self]
    refine List.rel_append h (List.Forall₂.cons ⟨?_, ?_⟩ List.Forall₂.nil)
    · rw [Scene.nextStored, Primitive.order_stored]
      exact hbox
    · rw [Scene.nextStored, Primitive.clippedBounds_stored]
  · rw [if_neg hk, List.append_nil, Function.update_of_ne (Ne.symm hk)]
    exact h

theorem layerStack_insertPrimitive (hc : p.culled = false) :
    (s.insertPrimitive p).layerStack = s.layerStack := by
  rw [Scene.insertPrimitive_of_not_culled hc]

theorem primitiveBounds_insertPrimitive (hc : p.culled = false) :
    (s.insertPrimitive p).primitiveBounds = (s.nextOrder p.clippedBounds).2 := by
  rw [Scene.insertPrimitive_of_not_culled hc]

/-- With no layer open, a primitive is its own order box. -/
theorem Placed.insertFree (h : Placed log pl s) (hlen : log.length < u32Max)
    (hc : p.culled = false) (hs : s.layerStack = []) :
    Placed (log ++ [(p.clippedBounds, (s.primitiveBounds.insert p.clippedBounds).1)])
      ⟨pl.count + 1, [], pl.paths ++ Placing.placed p ⟨pl.count, p.clippedBounds⟩⟩
      (s.insertPrimitive p) := by
  have horder : s.nextOrder p.clippedBounds = s.primitiveBounds.insert p.clippedBounds := by
    rw [Scene.nextOrder, hs]
  refine ⟨?_, ?_, ?_, ?_⟩
  · rw [primitiveBounds_insertPrimitive hc, horder]
    exact h.tree.insert hlen _
  · rw [List.length_append, List.length_singleton, h.count]
  · rw [layerStack_insertPrimitive hc, hs]
    exact List.Forall₂.nil
  · apply stored_insertPrimitive (h.paths.imp fun _ _ hp => hp.append _) hc
    rw [horder, OrderBox.Has, ← h.count, List.getElem?_concat_length]

theorem Placed.insertLayered (h : Placed log pl s) (hc : p.culled = false)
    {box : OrderBox U} {boxes : List (OrderBox U)} {order : Nat} {orders : List Nat}
    (hpl : pl.layers = box :: boxes) (hs : s.layerStack = order :: orders) :
    Placed log ⟨pl.count, pl.layers, pl.paths ++ Placing.placed p box⟩ (s.insertPrimitive p) := by
  have hlayers := h.layers
  rw [hpl, hs] at hlayers
  obtain ⟨hbox, -⟩ := List.forall₂_cons.mp hlayers
  have horder : s.nextOrder p.clippedBounds = (order, s.primitiveBounds) := by
    rw [Scene.nextOrder, hs]
  refine ⟨?_, h.count, ?_, ?_⟩
  · rw [primitiveBounds_insertPrimitive hc, horder]
    exact h.tree
  · rw [layerStack_insertPrimitive hc]
    exact h.layers
  · apply stored_insertPrimitive h.paths hc
    rw [horder]
    exact hbox

theorem Placed.pushLayer (h : Placed log pl s) (hlen : log.length < u32Max) (bounds : Bounds U) :
    Placed (log ++ [(bounds, (s.primitiveBounds.insert bounds).1)])
      ⟨pl.count + 1, ⟨pl.count, bounds⟩ :: pl.layers, pl.paths⟩ (s.pushLayer bounds) := by
  refine ⟨h.tree.insert hlen bounds, ?_,
    List.Forall₂.cons ?_ (h.layers.imp fun _ _ hb => hb.append _),
    h.paths.imp fun _ _ hp => hp.append _⟩
  · rw [List.length_append, List.length_singleton, h.count]
  · rw [OrderBox.Has, ← h.count, List.getElem?_concat_length]
    rfl

/-- **One call.** -/
theorem Placed.step (h : Placed log pl s) (hlen : pl.count < u32Max) (op : SceneOp U ρ) :
    ∃ log', Placed log' (pl.perform op) (s.perform op) := by
  have hroom : log.length < u32Max := h.count ▸ hlen
  cases op with
  | pushLayer bounds => exact ⟨_, h.pushLayer hroom bounds⟩
  | popLayer =>
    refine ⟨log, h.tree, h.count, ?_, h.paths⟩
    show List.Forall₂ _ pl.layers.tail s.layerStack.tail
    have hlayers := h.layers
    generalize pl.layers = boxes at hlayers
    generalize s.layerStack = orders at hlayers
    cases hlayers with
    | nil => exact List.Forall₂.nil
    | cons _ hrest => exact hrest
  | insertPrimitive p =>
    show ∃ log', Placed log' (pl.perform (.insertPrimitive p)) (s.insertPrimitive p)
    rw [Placing.perform]
    cases hc : p.culled with
    | true =>
      rw [Scene.insertPrimitive_of_culled hc]
      exact ⟨log, h⟩
    | false =>
      rw [if_neg Bool.false_ne_true]
      have hlayers := h.layers.length_eq
      cases hpl : pl.layers with
      | nil =>
        rw [hpl] at hlayers
        have hs : s.layerStack = [] := List.eq_nil_of_length_eq_zero hlayers.symm
        exact ⟨_, h.insertFree hroom hc hs⟩
      | cons box boxes =>
        cases hs : s.layerStack with
        | nil => rw [hpl, hs] at hlayers; exact absurd hlayers (Nat.succ_ne_zero _)
        | cons order orders =>
          have := h.insertLayered hc hpl hs
          rw [hpl] at this
          exact ⟨log, this⟩

theorem count_perform_le (pl : Placing U) (op : SceneOp U ρ) :
    (pl.perform op).count ≤ pl.count + 1 := by
  cases op with
  | pushLayer bounds => exact le_rfl
  | popLayer => exact Nat.le_succ _
  | insertPrimitive p =>
    rw [Placing.perform]
    split
    · exact Nat.le_succ _
    · split
      · exact Nat.le_succ _
      · exact le_rfl

/-- **All calls.** -/
theorem Placed.run (ops : List (SceneOp U ρ)) :
    ∀ {log : List (Bounds U × Nat)} {pl : Placing U} {s : Scene U ρ}, Placed log pl s →
      pl.count + ops.length < u32Max →
      ∃ log', Placed log' (ops.foldl Placing.perform pl) (s.run ops) := by
  induction ops with
  | nil => exact fun h _ => ⟨_, h⟩
  | cons op ops ih =>
    intro log pl s h hlen
    rw [List.length_cons] at hlen
    obtain ⟨log', h'⟩ := h.step (by omega) op
    have hcount := count_perform_le pl op
    exact ih h' (by omega)

/-! ### The sprites -/

theorem Placed.paths_disjoint (h : Placed log pl s)
    (hapart : pl.paths.Pairwise fun a b => a.clipped.intersects b.clipped = true →
      a.box.entry ≠ b.box.entry ∧ a.box.bounds.intersects b.box.bounds = true) :
    (s.items .path).Pairwise fun p q =>
      p.order = q.order → p.clippedBounds.intersects q.clippedBounds = false := by
  rw [List.pairwise_iff_getElem] at hapart ⊢
  intro i j hi hj hij horder
  have hlen := h.paths.length_eq
  have hpi := h.paths.get (hlen ▸ hi) hi
  have hpj := h.paths.get (hlen ▸ hj) hj
  simp only [List.get_eq_getElem] at hpi hpj
  rw [hpi.clipped, hpj.clipped, Bool.eq_false_iff]
  intro hint
  obtain ⟨hne, hbox⟩ := hapart i j _ _ hij hint
  exact h.tree.order_ne hpi.box hpj.box hne hbox horder

omit [AddCommGroup U] [LinearOrder U] in
theorem order_eq_of_first_last {first : Primitive U ρ} {rest : List (Primitive U ρ)}
    (hs : SortedBy Primitive.order (first :: rest))
    (hlast : (first :: rest).getLast?.map Primitive.order = some first.order) :
    ∀ p ∈ first :: rest, p.order = first.order := by
  intro p hp
  obtain ⟨last, hl, ho⟩ := Option.map_eq_some_iff.mp hlast
  obtain ⟨init, hinit⟩ := List.getLast?_eq_some_iff.mp hl
  apply le_antisymm
  · rw [← ho]
    rw [hinit] at hs hp
    rcases List.mem_append.mp hp with hp | hp
    · exact (List.pairwise_append.mp hs).2.2 p hp last (List.mem_singleton_self _)
    · rw [List.mem_singleton.mp hp]
  · rcases List.mem_cons.mp hp with rfl | hp
    · exact le_rfl
    · exact (List.pairwise_cons.mp hs).1 p hp

/-- The sprites of sorted paths are disjoint just when the paths are, if these are of one order. -/
theorem pathSprites_disjoint_iff {paths : List (Primitive U ρ)} {sprites : List (PathSprite U)}
    (h : pathSprites paths = some sprites) (hs : SortedBy Primitive.order paths) :
    sprites.Pairwise (fun a b => a.bounds.intersects b.bounds = false) ↔ PathsOfOneOrderApart paths := by
  cases paths with
  | nil => cases h
  | cons first rest =>
    rw [pathSprites] at h
    split at h
    · rename_i hlast
      cases h
      have hfirst := order_eq_of_first_last hs hlast
      have hsame : ∀ p ∈ first :: rest, ∀ q ∈ first :: rest, p.order = q.order := by
        intro p hp q hq
        rw [hfirst p hp, hfirst q hq]
      rw [List.pairwise_map, PathsOfOneOrderApart]
      exact ⟨fun hd _ => hd, fun hd => hd hsame⟩
    · rename_i hlast
      cases h
      refine ⟨fun _ hsame => absurd ?_ hlast, fun _ => List.pairwise_singleton _ _⟩
      rw [List.getLast?_eq_some_getLast (List.cons_ne_nil first rest), Option.map_some]
      rw [hsame _ (List.getLast_mem _) first List.mem_cons_self]

/-- **What a finished scene needs**: the paths of a batch of one order do not overlap. -/
theorem pathsComposited_finish_iff (s : Scene U ρ) (sorts : Scene.Sorts U ρ) :
    (s.finish sorts).PathsComposited ↔ ∀ batches, (s.finish sorts).batches = some batches →
      ∀ batch ∈ batches, batch.kind = .path → PathsOfOneOrderApart batch.primitives := by
  obtain ⟨batches, hbatches, hruns⟩ := (s.finish sorts).batches_runs
  have hsorted : ∀ batch ∈ batches, batch.kind = .path → SortedBy Primitive.order batch.primitives := by
    intro batch hb hk
    obtain ⟨-, hsub, -⟩ := hruns batch hb
    rw [hk] at hsub
    exact (Scene.sorted_finish _ sorts .path).sublist hsub
  constructor
  · rintro ⟨batches', hbatches', hall⟩ batches'' hbatches'' batch hb hk
    cases hbatches.symm.trans hbatches'
    cases hbatches.symm.trans hbatches''
    obtain ⟨sprites, hsprites, hdisjoint, -⟩ := hall batch hb hk
    exact (pathSprites_disjoint_iff hsprites (hsorted batch hb hk)).mp hdisjoint
  · intro happart
    refine ⟨batches, hbatches, fun batch hb hk => ?_⟩
    obtain ⟨hne, -, -⟩ := hruns batch hb
    obtain ⟨sprites, hsprites, -⟩ := pathSprites_length hne
    refine ⟨sprites, hsprites, ?_, pathSprites_covers hsprites⟩
    exact (pathSprites_disjoint_iff hsprites (hsorted batch hb hk)).mpr (happart batches hbatches batch hb hk)

/-- **No pixel of a batch of paths is copied twice**, as long as paths that
overlap are ordered by different rectangles that overlap, and fewer than
`u32::MAX` calls are made; and a scene in which none is has no two paths that
overlap in a batch of one order. -/
theorem pathsComposited (s : Scene U ρ) (sorts : Scene.Sorts U ρ) (ops : List (SceneOp U ρ)) :
    (ops.length < u32Max → PathsApart ops → ((s.clear.run ops).finish sorts).PathsComposited) ∧
    (((s.clear.run ops).finish sorts).PathsComposited ↔
      ∀ batches, ((s.clear.run ops).finish sorts).batches = some batches →
        ∀ batch ∈ batches, batch.kind = .path → PathsOfOneOrderApart batch.primitives) := by
  refine ⟨fun hlen hapart => ?_, pathsComposited_finish_iff _ sorts⟩
  obtain ⟨log, hplaced⟩ := (placed_clear s).run ops (by simpa using hlen)
  have hdisj := hplaced.paths_disjoint hapart
  have hsym : Std.Symm fun p q : Primitive U ρ =>
      p.order = q.order → p.clippedBounds.intersects q.clippedBounds = false := by
    refine ⟨fun p q hpq horder => ?_⟩
    rw [Bounds.intersects_comm]
    exact hpq horder.symm
  have hfin : (((s.clear.run ops).finish sorts).items .path).Pairwise fun p q =>
      p.order = q.order → p.clippedBounds.intersects q.clippedBounds = false :=
    (((sorts .path).settle_perm _).pairwise_iff fun {p q} => hsym.symm p q).mpr hdisj
  refine (pathsComposited_finish_iff _ sorts).mpr fun batches hbatches batch hb hk hsame => ?_
  obtain ⟨batches', hbatches', hruns⟩ := ((s.clear.run ops).finish sorts).batches_runs
  cases hbatches.symm.trans hbatches'
  obtain ⟨-, hsub, -⟩ := hruns batch hb
  rw [hk] at hsub
  exact (hfin.sublist hsub).imp_of_mem fun hp hq hpq => hpq (hsame _ hp _ hq)

end Geometry

/-! ### Two paths in one layer -/

/-- A path that is its own content mask. -/
def pathAt (x y width height : Int) (tag : Nat) : Primitive Int Nat :=
  { Scene.quadAt x y width height tag with detail := .path 0 }

/-- Free paths that overlap, and a layer with two paths that do not. -/
def pathsInAndOut : List (SceneOp Int Nat) :=
  [.insertPrimitive (pathAt 0 0 10 10 1), .insertPrimitive (pathAt 5 5 10 10 2),
    .pushLayer ⟨⟨8, 0⟩, ⟨40, 40⟩⟩, .insertPrimitive (pathAt 8 0 10 10 3),
    .insertPrimitive (pathAt 30 0 10 10 4), .popLayer]

theorem pathsComposited_inAndOut :
    ((Scene.emptyScene.clear.run pathsInAndOut).finish
      fun _ => UnstableSort.byInsertion _).PathsComposited :=
  (pathsComposited Scene.emptyScene (fun _ => UnstableSort.byInsertion _) pathsInAndOut).1 (by decide)
    (by decide)

/-- Two paths of one layer that overlap. -/
def pathsInLayer : List (SceneOp Int Nat) :=
  [.pushLayer ⟨⟨0, 0⟩, ⟨20, 20⟩⟩, .insertPrimitive (pathAt 0 0 10 10 1),
    .insertPrimitive (pathAt 5 5 10 10 2), .popLayer]

/-- Both get the order of the layer, so each is copied on its own, and the
pixels they share are copied twice. -/
theorem not_pathsComposited_in_layer :
    ¬ ((Scene.emptyScene.clear.run pathsInLayer).finish
      fun _ => UnstableSort.byInsertion _).PathsComposited := by
  rintro ⟨batches, hbatches, hall⟩
  have hrun : ((Scene.emptyScene.clear.run pathsInLayer).finish
      fun _ => UnstableSort.byInsertion _).batches
      = some [⟨.path, none, [(pathAt 0 0 10 10 1).stored 1 0, (pathAt 5 5 10 10 2).stored 1 1]⟩] := by
    decide +kernel
  cases hrun.symm.trans hbatches
  obtain ⟨sprites, hsprites, hdisj, -⟩ := hall _ List.mem_cons_self rfl
  have htwo : pathSprites [(pathAt 0 0 10 10 1).stored 1 0, (pathAt 5 5 10 10 2).stored 1 1]
      = some [⟨⟨⟨0, 0⟩, ⟨10, 10⟩⟩⟩, ⟨⟨⟨5, 5⟩, ⟨10, 10⟩⟩⟩] := by
    decide
  cases htwo.symm.trans hsprites
  exact absurd ((List.pairwise_cons.mp hdisj).1 _ List.mem_cons_self) (by decide)

end FcGpui
