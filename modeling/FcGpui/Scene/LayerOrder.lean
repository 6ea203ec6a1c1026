import FcGpui.Lib.Reordering
import FcGpui.Scene.LosslessBatches

/-!
# The order within a layer

All primitives of a layer have the order of the layer, so `finish`, which sorts
by order and may place ties at will, is free to rearrange them.  `LayeredScene`
is a scene that remembers the layer of every primitive it holds.

The primitives of one kind in a layer keep the order they were inserted in just
if the vector of the kind needs no sorting, or they are all equal.

**Main result.**  `keepsLayerOrder_iff`.
-/

namespace FcGpui

/-- The kinds whose vectors are sorted by the draw order alone. -/
def PrimitiveKind.plain : List PrimitiveKind := [.shadow, .quad, .path, .underline]

variable {U ρ : Type} [AddCommGroup U] [LinearOrder U]

/-- A scene, the layers that are open, innermost first, and the layer of every primitive. -/
structure LayeredScene (U ρ : Type) where
  scene : Scene U ρ
  opened : List Nat
  nextLayer : Nat
  layers : PrimitiveKind → List (Option Nat)

namespace LayeredScene

def clear (s : Scene U ρ) : LayeredScene U ρ := ⟨s.clear, [], 0, fun _ => []⟩

def perform (t : LayeredScene U ρ) : SceneOp U ρ → LayeredScene U ρ
  | .pushLayer bounds =>
    { t with
      scene := t.scene.pushLayer bounds
      opened := t.nextLayer :: t.opened
      nextLayer := t.nextLayer + 1 }
  | .popLayer => { t with scene := t.scene.popLayer, opened := t.opened.tail }
  | .insertPrimitive p =>
    if p.culled then t
    else { t with
      scene := t.scene.insertPrimitive p
      layers := Function.update t.layers p.kind (t.layers p.kind ++ [t.opened.head?]) }

def run (t : LayeredScene U ρ) (ops : List (SceneOp U ρ)) : LayeredScene U ρ := ops.foldl perform t

/-- Two primitives of a kind were inserted inside the same layer. -/
def SameLayer (t : LayeredScene U ρ) (kind : PrimitiveKind) (i j : Nat) : Prop :=
  ∃ layer, (t.layers kind)[i]? = some (some layer) ∧ (t.layers kind)[j]? = some (some layer)

/-- **After `finish` and `batches`, of two primitives of a layer the one inserted first comes first.** -/
def KeepsLayerOrder (t : LayeredScene U ρ) (sorts : Scene.Sorts U ρ) : Prop :=
  ∃ batches, (t.scene.finish sorts).batches = some batches ∧
    ∀ kind ∈ PrimitiveKind.plain, listing batches kind <+: (t.scene.finish sorts).items kind ∧
      KeepsOrder (t.SameLayer kind) (t.scene.items kind) ((t.scene.finish sorts).items kind)

variable {t : LayeredScene U ρ}

theorem scene_perform (t : LayeredScene U ρ) (op : SceneOp U ρ) : (t.perform op).scene = t.scene.perform op := by
  cases op with
  | pushLayer bounds => rfl
  | popLayer => rfl
  | insertPrimitive p =>
    rw [perform]
    split
    · rename_i hculled
      exact (Scene.insertPrimitive_of_culled hculled).symm
    · rfl

theorem scene_run (t : LayeredScene U ρ) (ops : List (SceneOp U ρ)) : (t.run ops).scene = t.scene.run ops := by
  induction ops generalizing t with
  | nil => rfl
  | cons op ops ih =>
    rw [run, List.foldl_cons, ← run, ih, scene_perform]
    rfl

/-- What the calls keep: every layer has an order, and the primitives inside have it. -/
structure Ordered (t : LayeredScene U ρ) (order : Nat → Nat) : Prop where
  stack : t.scene.layerStack = t.opened.map order
  opened_lt : ∀ layer ∈ t.opened, layer < t.nextLayer
  layers_lt : ∀ kind layer, some layer ∈ t.layers kind → layer < t.nextLayer
  length_eq : ∀ kind, (t.layers kind).length = (t.scene.items kind).length
  order_eq : ∀ kind (i : Nat) p layer, (t.scene.items kind)[i]? = some p →
    (t.layers kind)[i]? = some (some layer) → p.order = order layer
  kind_eq : ∀ kind, ∀ p ∈ t.scene.items kind, p.kind = kind

variable {order : Nat → Nat}

omit [AddCommGroup U] [LinearOrder U] in
theorem ordered_clear (s : Scene U ρ) (order : Nat → Nat) : Ordered (clear s) order where
  stack := rfl
  opened_lt := by simp [clear]
  layers_lt := by simp [clear]
  length_eq _ := rfl
  order_eq := by simp [clear, Scene.clear]
  kind_eq := by simp [clear, Scene.clear]

theorem Ordered.pushLayer (h : t.Ordered order) (bounds : Bounds U) :
    (t.perform (.pushLayer bounds)).Ordered
      (Function.update order t.nextLayer (t.scene.primitiveBounds.insert bounds).1) where
  stack := by
    show (t.scene.primitiveBounds.insert bounds).1 :: t.scene.layerStack = List.map _ (t.nextLayer :: t.opened)
    rw [List.map_cons, Function.update_self, h.stack]
    refine congrArg _ (List.map_congr_left fun layer hlayer => ?_)
    rw [Function.update_of_ne (h.opened_lt layer hlayer).ne]
  opened_lt layer hlayer := by
    rcases List.mem_cons.mp hlayer with rfl | hlayer
    · exact Nat.lt_succ_self _
    · exact Nat.lt_succ_of_lt (h.opened_lt layer hlayer)
  layers_lt kind layer hlayer := Nat.lt_succ_of_lt (h.layers_lt kind layer hlayer)
  length_eq := h.length_eq
  order_eq kind i p layer hp hlayer := by
    have hlt := h.layers_lt kind layer (List.mem_of_getElem? hlayer)
    rw [Function.update_of_ne hlt.ne]
    exact h.order_eq kind i p layer hp hlayer
  kind_eq := h.kind_eq

theorem Ordered.popLayer (h : t.Ordered order) : (t.perform .popLayer).Ordered order where
  stack := by
    show t.scene.layerStack.tail = t.opened.tail.map order
    rw [h.stack, List.map_tail]
  opened_lt layer hlayer := h.opened_lt layer (List.mem_of_mem_tail hlayer)
  layers_lt := h.layers_lt
  length_eq := h.length_eq
  order_eq := h.order_eq
  kind_eq := h.kind_eq

theorem Ordered.nextOrder (h : t.Ordered order) {layer : Nat} (hlayer : t.opened.head? = some layer)
    (clipped : Bounds U) : (t.scene.nextOrder clipped).1 = order layer := by
  obtain ⟨opened, hopened⟩ := List.head?_eq_some_iff.mp hlayer
  rw [Scene.nextOrder, h.stack, hopened]
  rfl

theorem Ordered.insertPrimitive (h : t.Ordered order) (p : Primitive U ρ) :
    (t.perform (.insertPrimitive p)).Ordered order := by
  rw [perform]
  cases hculled : p.culled with
  | true => exact h
  | false =>
    have hitems := Scene.items_insertPrimitive (s := t.scene) hculled
    have hstack : (t.scene.insertPrimitive p).layerStack = t.scene.layerStack := by
      rw [Scene.insertPrimitive, hculled]
      rfl
    simp only [Bool.false_eq_true, if_false]
    constructor
    · exact hstack.trans h.stack
    · exact h.opened_lt
    · intro kind layer hlayer
      dsimp only at hlayer
      by_cases hkind : kind = p.kind
      · subst hkind
        rw [Function.update_self, List.mem_append, List.mem_singleton] at hlayer
        rcases hlayer with hlayer | hlayer
        · exact h.layers_lt _ layer hlayer
        · exact h.opened_lt layer (List.mem_of_mem_head? hlayer.symm)
      · rw [Function.update_of_ne hkind] at hlayer
        exact h.layers_lt kind layer hlayer
    · intro kind
      dsimp only
      rw [hitems]
      by_cases hkind : kind = p.kind
      · subst hkind
        rw [Function.update_self, Function.update_self, List.length_append, List.length_append, h.length_eq]
        rfl
      · rw [Function.update_of_ne hkind, Function.update_of_ne hkind]
        exact h.length_eq kind
    · intro kind i q layer hq hlayer
      dsimp only at hq hlayer
      rw [hitems] at hq
      by_cases hkind : kind = p.kind
      · subst hkind
        rw [Function.update_self] at hq hlayer
        by_cases hold : i < (t.scene.items p.kind).length
        · rw [List.getElem?_append_left hold] at hq
          rw [List.getElem?_append_left (by rw [h.length_eq]; exact hold)] at hlayer
          exact h.order_eq _ i q layer hq hlayer
        · rw [List.getElem?_append_right (Nat.le_of_not_lt hold), List.getElem?_singleton] at hq
          rw [List.getElem?_append_right (by rw [h.length_eq]; exact Nat.le_of_not_lt hold), h.length_eq,
            List.getElem?_singleton] at hlayer
          split at hq
          · rename_i hlast
            rw [if_pos hlast] at hlayer
            obtain rfl := Option.some.inj hq
            exact h.nextOrder (Option.some.inj hlayer) _
          · cases hq
      · rw [Function.update_of_ne hkind] at hq hlayer
        exact h.order_eq kind i q layer hq hlayer
    · intro kind q hq
      dsimp only at hq
      rw [hitems] at hq
      by_cases hkind : kind = p.kind
      · subst hkind
        rw [Function.update_self, List.mem_append, List.mem_singleton] at hq
        rcases hq with hq | rfl
        · exact h.kind_eq _ q hq
        · exact Primitive.kind_stored _ _ p
      · rw [Function.update_of_ne hkind] at hq
        exact h.kind_eq kind q hq

theorem Ordered.perform (h : t.Ordered order) (op : SceneOp U ρ) : ∃ order', (t.perform op).Ordered order' := by
  cases op with
  | pushLayer bounds => exact ⟨_, h.pushLayer bounds⟩
  | popLayer => exact ⟨order, h.popLayer⟩
  | insertPrimitive p => exact ⟨order, h.insertPrimitive p⟩

theorem Ordered.run (h : t.Ordered order) (ops : List (SceneOp U ρ)) : ∃ order', (t.run ops).Ordered order' := by
  induction ops generalizing t order with
  | nil => exact ⟨order, h⟩
  | cons op ops ih =>
    obtain ⟨order', hop⟩ := h.perform op
    exact ih hop

/-! ### Sorting -/

omit [AddCommGroup U] [LinearOrder U] in
theorem sortKey_of_plain {kind : PrimitiveKind} (hplain : kind ∈ PrimitiveKind.plain) {p : Primitive U ρ}
    (hp : p.kind = kind) : p.sortKey = toLex (p.order, 0) := by
  subst hp
  rw [Primitive.sortKey]
  congr 2
  rw [Primitive.kind] at hplain
  cases hdetail : p.detail with
  | shadow => rfl
  | quad blendMode => rfl
  | path id => rfl
  | underline => rfl
  | monochromeSprite tile =>
    rw [hdetail] at hplain
    exact absurd hplain (by simp [PrimitiveDetail.kind, PrimitiveKind.plain])
  | polychromeSprite tile =>
    rw [hdetail] at hplain
    exact absurd hplain (by simp [PrimitiveDetail.kind, PrimitiveKind.plain])
  | surface => rfl

omit [AddCommGroup U] [LinearOrder U] in
theorem sortedBy_sortKey_iff {kind : PrimitiveKind} (hplain : kind ∈ PrimitiveKind.plain) {l : List (Primitive U ρ)}
    (hl : ∀ p ∈ l, p.kind = kind) : SortedBy Primitive.sortKey l ↔ SortedBy Primitive.order l := by
  refine List.Pairwise.iff_of_mem fun {p q} hp hq => ?_
  rw [sortKey_of_plain hplain (hl p hp), sortKey_of_plain hplain (hl q hq), Prod.Lex.toLex_le_toLex]
  constructor
  · rintro (hlt | ⟨heq, -⟩)
    · exact hlt.le
    · exact heq.le
  · intro hle
    exact (Nat.lt_or_eq_of_le hle).imp_right fun heq => ⟨heq, le_rfl⟩

omit [AddCommGroup U] [LinearOrder U] in
theorem Ordered.settle_iff (h : t.Ordered order) {kind : PrimitiveKind} (hplain : kind ∈ PrimitiveKind.plain) :
    (∀ sort : UnstableSort (Primitive.sortKey (U := U) (ρ := ρ)),
        KeepsOrder (t.SameLayer kind) (t.scene.items kind) (sort.settle (t.scene.items kind))) ↔
      SortedBy Primitive.order (t.scene.items kind) ∨ ∀ i j p q, i < j → t.SameLayer kind i j →
        (t.scene.items kind)[i]? = some p → (t.scene.items kind)[j]? = some q → p = q := by
  rw [settle_keepsOrder_iff, sortedBy_sortKey_iff hplain (h.kind_eq kind)]
  rintro i j p q - ⟨layer, hi, hj⟩ hp hq
  rw [sortKey_of_plain hplain (h.kind_eq kind p (List.mem_of_getElem? hp)),
    sortKey_of_plain hplain (h.kind_eq kind q (List.mem_of_getElem? hq)), h.order_eq kind i p layer hp hi,
    h.order_eq kind j q layer hq hj]

/-- **Primitives of one layer keep their paint order**, whatever the sorts do with ties, just if the vector of
each kind ascends as it is, or holds no two different primitives of one layer. -/
theorem keepsLayerOrder_iff (s : Scene U ρ) (ops : List (SceneOp U ρ)) :
    (∀ sorts, ((clear s).run ops).KeepsLayerOrder sorts) ↔ ∀ kind ∈ PrimitiveKind.plain,
      SortedBy Primitive.order (((clear s).run ops).scene.items kind) ∨
        ∀ i j p q, i < j → ((clear s).run ops).SameLayer kind i j →
          (((clear s).run ops).scene.items kind)[i]? = some p →
          (((clear s).run ops).scene.items kind)[j]? = some q → p = q := by
  obtain ⟨order, h⟩ := (ordered_clear s fun _ => 0).run ops
  generalize (clear s).run ops = t at h
  constructor
  · intro hkeeps kind hplain
    rw [← h.settle_iff hplain]
    intro sort
    obtain ⟨batches, -, hkinds⟩ := hkeeps fun _ => sort
    exact (hkinds kind hplain).2
  · intro hkinds sorts
    obtain ⟨batches, hbatches, hlisting⟩ := Scene.batches_listing (t.scene.finish sorts)
    exact ⟨batches, hbatches, fun kind hplain =>
      ⟨hlisting kind, (h.settle_iff hplain).mpr (hkinds kind hplain) (sorts kind)⟩⟩

/-- Two quads in a layer over a shadow, and a quad apart from them. -/
def layerOverShadow : List (SceneOp Int Nat) :=
  [.insertPrimitive { Scene.quadAt 0 0 10 10 0 with detail := .shadow }, .pushLayer ⟨⟨0, 0⟩, ⟨10, 10⟩⟩,
    .insertPrimitive (Scene.quadAt 0 0 10 10 1), .insertPrimitive (Scene.quadAt 0 0 10 10 2), .popLayer,
    .insertPrimitive (Scene.quadAt 100 100 10 10 3)]

/-- The quad apart has the smaller order, so that the vector is sorted. -/
theorem not_keepsLayerOrder : ¬ ∀ (s : Scene Int Nat) ops sorts, ((clear s).run ops).KeepsLayerOrder sorts := by
  intro h
  obtain ⟨order, hordered⟩ := (ordered_clear Scene.emptyScene fun _ => 0).run layerOverShadow
  have hquads : ((clear Scene.emptyScene).run layerOverShadow).scene.items .quad =
      [(Scene.quadAt 0 0 10 10 1).stored 2 0, (Scene.quadAt 0 0 10 10 2).stored 2 1, (Scene.quadAt 100 100 10 10 3).stored 1 2] := by
    decide
  have hlayers : ((clear Scene.emptyScene).run layerOverShadow).layers .quad = [some 0, some 0, none] := by decide
  have hquad : PrimitiveKind.quad ∈ PrimitiveKind.plain := by decide
  rcases (hordered.settle_iff hquad).mp fun sort => by
      obtain ⟨batches, -, hkinds⟩ := h Scene.emptyScene layerOverShadow fun _ => sort
      exact (hkinds .quad hquad).2 with hsorted | hequal
  · rw [hquads] at hsorted
    exact absurd hsorted (by decide)
  · rw [hquads] at hequal
    have hsame : ((clear Scene.emptyScene).run layerOverShadow).SameLayer .quad 0 1 := by
      rw [SameLayer, hlayers]
      exact ⟨0, rfl, rfl⟩
    exact absurd (hequal 0 1 _ _ (by decide) hsame rfl rfl) (by decide)

end LayeredScene

end FcGpui
