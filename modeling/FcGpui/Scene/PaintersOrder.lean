import FcGpui.Scene.BoundsTreeInsert
import FcGpui.Scene.Replay
import FcGpui.Scene.Batches

/-!
# Painter's order

With no layer open, every primitive that is not culled gets its order from the
bounds tree, so the tree and the seven vectors hold the same rectangles with the
same orders (`Flat`).  An insertion therefore gets an order above that of every
stored primitive it overlaps (`order_lt_insert`), the vectors come out of
`finish` in order, and the batches list them in order.  Put together
(`painters_order`): of two primitives that overlap, the one inserted first
comes first in the batches.
-/

namespace FcGpui.Scene

variable {U ρ : Type} [AddCommGroup U] [LinearOrder U]

/-- A painting without layers. -/
def insertAll (s : Scene U ρ) (ps : List (Primitive U ρ)) : Scene U ρ :=
  s.run (ps.map .insertPrimitive)

/-- What the next insertion stores. -/
def nextStored (s : Scene U ρ) (p : Primitive U ρ) : Primitive U ρ :=
  p.stored (s.nextOrder p.clippedBounds).1 (s.items p.kind).length

theorem insertAll_append (s : Scene U ρ) (ps qs : List (Primitive U ρ)) :
    s.insertAll (ps ++ qs) = (s.insertAll ps).insertAll qs := by
  rw [insertAll, insertAll, insertAll, List.map_append, run, run, run, List.foldl_append]

theorem insertAll_cons (s : Scene U ρ) (p : Primitive U ρ) (qs : List (Primitive U ρ)) :
    s.insertAll (p :: qs) = (s.insertPrimitive p).insertAll qs := rfl

/-- No layer is open, and the tree holds the rectangles of the stored
primitives with their orders. -/
structure Flat (s : Scene U ρ) : Prop where
  layers : s.layerStack = []
  wf : s.primitiveBounds.Wf
  leaves : ∀ b o, s.primitiveBounds.Leaves b o ↔
    ∃ p ∈ s.primitives, p.clippedBounds = b ∧ p.order = o

theorem flat_clear (s : Scene U ρ) : s.clear.Flat := by
  refine ⟨rfl, BoundsTree.wf_clear s.primitiveBounds, fun b o => ⟨fun h => ?_, fun h => ?_⟩⟩
  · exact absurd h (BoundsTree.not_leaves_clear s.primitiveBounds b o)
  · obtain ⟨p, hp, -⟩ := h
    obtain ⟨kind, hp⟩ := mem_primitives.mp hp
    exact absurd hp List.not_mem_nil

variable {p q : Primitive U ρ} {s : Scene U ρ}

theorem insertPrimitive_of_culled (h : p.culled = true) : s.insertPrimitive p = s := by
  rw [insertPrimitive, if_pos h]

theorem items_insertPrimitive (h : p.culled = false) :
    (s.insertPrimitive p).items
      = Function.update s.items p.kind (s.items p.kind ++ [s.nextStored p]) := by
  rw [insertPrimitive_of_not_culled h]
  rfl

theorem mem_primitives_insert (h : p.culled = false)
    (q : Primitive U ρ) : q ∈ (s.insertPrimitive p).primitives ↔ q ∈ s.primitives ∨ q = s.nextStored p := by
  rw [mem_primitives, mem_primitives, items_insertPrimitive h]
  constructor
  · intro hq
    obtain ⟨kind, hq⟩ := hq
    by_cases hk : kind = p.kind
    · subst hk
      rw [Function.update_self, List.mem_append, List.mem_singleton] at hq
      rcases hq with hq | hq
      · exact Or.inl ⟨_, hq⟩
      · exact Or.inr hq
    · rw [Function.update_of_ne hk] at hq
      exact Or.inl ⟨kind, hq⟩
  · intro hq
    rcases hq with ⟨kind, hq⟩ | rfl
    · refine ⟨kind, ?_⟩
      by_cases hk : kind = p.kind
      · subst hk
        rw [Function.update_self]
        exact List.mem_append_left _ hq
      · rw [Function.update_of_ne hk]
        exact hq
    · refine ⟨p.kind, ?_⟩
      rw [Function.update_self]
      exact List.mem_append_right _ (List.mem_singleton_self _)

theorem nextOrder_of_flat (h : s.Flat) (b : Bounds U) : s.nextOrder b = s.primitiveBounds.insert b := by
  rw [nextOrder, h.layers]

/-- One insertion keeps tree and vectors in step. -/
theorem Flat.insertPrimitive (h : s.Flat) (p : Primitive U ρ) : (s.insertPrimitive p).Flat := by
  cases hc : p.culled with
  | true => rw [insertPrimitive_of_culled hc]; exact h
  | false =>
    have htree : (s.insertPrimitive p).primitiveBounds
        = (s.primitiveBounds.insert p.clippedBounds).2 := by
      rw [insertPrimitive_of_not_culled hc, nextOrder_of_flat h]
    refine ⟨?_, ?_, fun b o => ?_⟩
    · rw [insertPrimitive_of_not_culled hc]; exact h.layers
    · rw [htree]; exact BoundsTree.insert_wf h.wf _
    · rw [htree, BoundsTree.insert_leaves h.wf, h.leaves]
      constructor
      · intro hl
        rcases hl with ⟨q, hq, hb, ho⟩ | ⟨hb, ho⟩
        · exact ⟨q, (mem_primitives_insert hc q).mpr (Or.inl hq), hb, ho⟩
        · refine ⟨s.nextStored p, (mem_primitives_insert hc _).mpr (Or.inr rfl), hb.symm, ?_⟩
          rw [nextStored, Primitive.order_stored, nextOrder_of_flat h, ho]
      · intro hq
        obtain ⟨q, hq, hb, ho⟩ := hq
        rcases (mem_primitives_insert hc q).mp hq with hq | rfl
        · exact Or.inl ⟨q, hq, hb, ho⟩
        · refine Or.inr ⟨hb.symm, ?_⟩
          rw [nextStored, Primitive.order_stored, nextOrder_of_flat h] at ho
          exact ho.symm

theorem Flat.insertAll {ps : List (Primitive U ρ)} :
    ∀ {s : Scene U ρ}, s.Flat → (s.insertAll ps).Flat := by
  induction ps with
  | nil => intro s h; exact h
  | cons p ps ih => intro s h; exact ih (h.insertPrimitive p)

theorem mem_primitives_insertAll {ps : List (Primitive U ρ)} :
    ∀ {s : Scene U ρ}, q ∈ s.primitives → q ∈ (s.insertAll ps).primitives := by
  induction ps with
  | nil => intro s h; exact h
  | cons p ps ih =>
    intro s h
    refine ih (show q ∈ (s.insertPrimitive p).primitives from ?_)
    cases hc : p.culled with
    | true => rw [insertPrimitive_of_culled hc]; exact h
    | false => exact (mem_primitives_insert hc q).mpr (Or.inl h)

/-- **An insertion is drawn above every stored primitive it overlaps.** -/
theorem order_lt_insert (h : s.Flat) (hmax : ∀ q ∈ s.primitives, q.order < u32Max) (hq : q ∈ s.primitives)
    (hi : p.clippedBounds.intersects q.clippedBounds = true) : q.order < (s.nextStored p).order := by
  have hleaf : s.primitiveBounds.Leaves q.clippedBounds q.order :=
    (h.leaves _ _).mpr ⟨q, hq, rfl, rfl⟩
  have hbelow : ∀ b o, s.primitiveBounds.Leaves b o → o < BoundsTree.u32Size - 1 := by
    intro b o hl
    obtain ⟨r, hr, -, rfl⟩ := (h.leaves b o).mp hl
    exact hmax r hr
  obtain ⟨m, hm, hmax'⟩ := BoundsTree.insert_order h.wf p.clippedBounds hbelow
  rw [nextStored, Primitive.order_stored, nextOrder_of_flat h, hm]
  exact Nat.lt_succ_of_le (hmax'.upper _ _ hleaf hi)

omit [AddCommGroup U] [LinearOrder U] in
theorem sorted_finish (s : Scene U ρ) (sorts : Sorts U ρ) (kind : PrimitiveKind) :
    SortedBy Primitive.order ((s.finish sorts).items kind) := by
  refine ((sorts kind).settle_sorted (s.items kind)).imp fun {p q} h => ?_
  exact BatchIterator.order_le_of_key_le h

omit [AddCommGroup U] [LinearOrder U] in
theorem mem_primitives_finish (s : Scene U ρ) (sorts : Sorts U ρ) (p : Primitive U ρ) :
    p ∈ (s.finish sorts).primitives ↔ p ∈ s.primitives := by
  rw [mem_primitives, mem_primitives]
  exact exists_congr fun kind => ((sorts kind).settle_perm (s.items kind)).mem_iff

omit [AddCommGroup U] [LinearOrder U] in
theorem lt_of_order_lt {out : List (Primitive U ρ)} (h : SortedBy Primitive.order out)
    (hlt : p.order < q.order) {m n : Nat} (hm : out[m]? = some p) (hn : out[n]? = some q) : m < n := by
  by_contra hle
  obtain ⟨hml, hmp⟩ := List.getElem?_eq_some_iff.mp hm
  obtain ⟨hnl, hnq⟩ := List.getElem?_eq_some_iff.mp hn
  rcases Nat.lt_or_eq_of_le (Nat.le_of_not_lt hle) with hlt' | heq
  · have := List.pairwise_iff_getElem.mp h n m hnl hml hlt'
    rw [hmp, hnq] at this
    omega
  · subst heq
    rw [hm] at hn
    have := congrArg Primitive.order (Option.some.inj hn)
    omega

/-- Both are listed, and every listing of `p` comes before every listing of
`q`. -/
def Precedes (out : List (Primitive U ρ)) (p q : Primitive U ρ) : Prop :=
  p ∈ out ∧ q ∈ out ∧ ∀ m n : Nat, out[m]? = some p → out[n]? = some q → m < n

/-- **Painter's order, end to end.**  The primitives `pre`, `a`, `mid`, `b`,
`post` are inserted in this order into a cleared scene with no layer open, the
scene is finished with whatever unstable sorts, and its batches are traversed.
When neither `a` nor `b` is culled and their clipped bounds overlap, the
traversal ends and lists `a` strictly before `b`. -/
theorem painters_order (s : Scene U ρ) (sorts : Sorts U ρ) (pre mid post : List (Primitive U ρ))
    (a b : Primitive U ρ)
    (hmax : ∀ p ∈ (s.clear.insertAll (pre ++ a :: mid ++ b :: post)).primitives, p.order < u32Max)
    (ha : a.culled = false) (hb : b.culled = false)
    (hab : a.clippedBounds.intersects b.clippedBounds = true) :
    ∃ batches,
      ((s.clear.insertAll (pre ++ a :: mid ++ b :: post)).finish sorts).batches = some batches ∧
      Precedes (batches.flatMap PrimitiveBatch.primitives)
        ((s.clear.insertAll pre).nextStored a)
        ((s.clear.insertAll (pre ++ a :: mid)).nextStored b) := by
  set final := s.clear.insertAll (pre ++ a :: mid ++ b :: post) with hfinal
  set before := s.clear.insertAll (pre ++ a :: mid) with hbefore
  have hlast : final = (before.insertPrimitive b).insertAll post := by
    rw [hfinal, insertAll_append, insertAll_cons]
  have hflat : before.Flat := (flat_clear s).insertAll
  have hamem : (s.clear.insertAll pre).nextStored a ∈ before.primitives := by
    rw [hbefore, insertAll_append, insertAll_cons]
    exact mem_primitives_insertAll ((mem_primitives_insert ha _).mpr (Or.inr rfl))
  have hsub : ∀ p ∈ before.primitives, p ∈ final.primitives := by
    intro p hp
    rw [hlast]
    exact mem_primitives_insertAll ((mem_primitives_insert hb p).mpr (Or.inl hp))
  have hbmem : before.nextStored b ∈ final.primitives := by
    rw [hlast]
    exact mem_primitives_insertAll ((mem_primitives_insert hb _).mpr (Or.inr rfl))
  have horder : ((s.clear.insertAll pre).nextStored a).order < (before.nextStored b).order := by
    refine order_lt_insert hflat (fun p hp => hmax p (hsub p hp)) hamem ?_
    rw [Bounds.intersects_comm]
    exact hab
  obtain ⟨batches, hbatches, hperm, hsorted⟩ := batches_spec (sorted_finish final sorts)
    fun p hp => hmax p ((mem_primitives_finish final sorts p).mp hp)
  have hin : ∀ p ∈ final.primitives, p ∈ batches.flatMap PrimitiveBatch.primitives := by
    intro p hp
    exact hperm.mem_iff.mpr ((mem_primitives_finish final sorts p).mpr hp)
  refine ⟨batches, hbatches, hin _ (hsub _ hamem), hin _ hbmem, fun m n hm hn => ?_⟩
  exact lt_of_order_lt hsorted horder hm hn

/-- A sprite that is its own content mask. -/
def spriteAt (x y width height : Int) (tag : Nat) : Primitive Int Nat :=
  { quadAt x y width height tag with detail := .monochromeSprite ⟨⟨0, .monochrome⟩, tag⟩ }

/-- A sprite stays under a quad that overlaps it, although the kind of the quad
comes first. -/
theorem painters_order_sprite_under_quad :
    ∃ batches, ((emptyScene.clear.insertAll ([] ++ spriteAt 0 0 10 10 1 :: [] ++
        quadAt 5 5 10 10 2 :: [quadAt 100 100 10 10 3])).finish
          fun _ => UnstableSort.byInsertion _).batches = some batches ∧
      Precedes (batches.flatMap PrimitiveBatch.primitives)
        ((emptyScene.clear.insertAll []).nextStored (spriteAt 0 0 10 10 1))
        ((emptyScene.clear.insertAll ([] ++ spriteAt 0 0 10 10 1 :: [])).nextStored
          (quadAt 5 5 10 10 2)) :=
  painters_order emptyScene (fun _ => UnstableSort.byInsertion _) [] []
    [quadAt 100 100 10 10 3] (spriteAt 0 0 10 10 1) (quadAt 5 5 10 10 2) (by decide)
    (by decide) (by decide) (by decide)

end FcGpui.Scene
