import FcGpui.Lib.Sorting
import FcGpui.Lib.Slice
import FcGpui.Scene.BoundsTree

/-!
# The scene

`crates/gpui/src/scene.rs`.  A scene records what is painted in two ways at
once: seven vectors of primitives, one for each kind, and a list of paint
operations that names every primitive by its kind and its index in the vector
of that kind.  `finish` sorts the seven vectors for the renderer; `replay`
paints a range of the operations of one scene into another.

The seven structs of the source share `order`, `bounds` and `content_mask`.
What the scene reads beyond these is in `PrimitiveDetail` (the blend mode of a
quad, the id of a path, the atlas tile of a sprite), and the fields it only
copies are in `rest`, of any type.  The seven vectors are one family indexed by
kind, so each function that treats the seven alike is one definition here.

The sorts of `finish` are unstable: they come in as one `UnstableSort` for each
kind.
-/

namespace FcGpui

inductive AtlasTextureKind
  | monochrome
  | polychrome
deriving DecidableEq, Repr

structure AtlasTextureId where
  index : Nat
  kind : AtlasTextureKind
deriving DecidableEq, Repr

structure AtlasTile where
  textureId : AtlasTextureId
  tileId : Nat
deriving DecidableEq, Repr

inductive PrimitiveKind
  | shadow
  | quad
  | path
  | underline
  | monochromeSprite
  | polychromeSprite
  | surface
deriving DecidableEq, Repr

/-- The position of a kind in the derived order. -/
def PrimitiveKind.rank : PrimitiveKind → Nat
  | shadow => 0
  | quad => 1
  | path => 2
  | underline => 3
  | monochromeSprite => 4
  | polychromeSprite => 5
  | surface => 6

/-- What a kind adds that the scene reads. -/
inductive PrimitiveDetail
  | shadow
  | quad (blendMode : Nat)
  | path (id : Nat)
  | underline
  | monochromeSprite (tile : AtlasTile)
  | polychromeSprite (tile : AtlasTile)
  | surface
deriving DecidableEq, Repr

structure ContentMask (U : Type) where
  bounds : Bounds U
deriving DecidableEq, Repr

structure Primitive (U ρ : Type) where
  order : Nat
  bounds : Bounds U
  contentMask : ContentMask U
  detail : PrimitiveDetail
  rest : ρ
deriving DecidableEq, Repr

namespace PrimitiveDetail

def kind : PrimitiveDetail → PrimitiveKind
  | shadow => .shadow
  | quad _ => .quad
  | path _ => .path
  | underline => .underline
  | monochromeSprite _ => .monochromeSprite
  | polychromeSprite _ => .polychromeSprite
  | surface => .surface

/-- A path is numbered when it is inserted. -/
def withId (i : Nat) : PrimitiveDetail → PrimitiveDetail
  | path _ => path i
  | d => d

/-- The second component of the sort key: sprites of one order are grouped by
tile. -/
def tieKey : PrimitiveDetail → Nat
  | monochromeSprite tile => tile.tileId
  | polychromeSprite tile => tile.tileId
  | _ => 0

@[simp] theorem kind_withId (i : Nat) (d : PrimitiveDetail) : (d.withId i).kind = d.kind := by
  cases d <;> rfl

@[simp] theorem withId_withId (i j : Nat) (d : PrimitiveDetail) :
    (d.withId i).withId j = d.withId j := by
  cases d <;> rfl

end PrimitiveDetail

namespace Primitive

variable {U ρ : Type}

def kind (p : Primitive U ρ) : PrimitiveKind := p.detail.kind

/-- The key `finish` sorts the vector of a kind by. -/
def sortKey (p : Primitive U ρ) : Nat ×ₗ Nat := toLex (p.order, p.detail.tieKey)

/-- A primitive as it is stored: with its draw order and, for a path, its
number. -/
def stored (order index : Nat) (p : Primitive U ρ) : Primitive U ρ :=
  { p with order := order, detail := p.detail.withId index }

/-- Every field but the draw order and the number of a path. -/
def content (p : Primitive U ρ) : Primitive U ρ := p.stored 0 0

@[simp] theorem kind_stored (o i : Nat) (p : Primitive U ρ) : (p.stored o i).kind = p.kind :=
  PrimitiveDetail.kind_withId i p.detail

@[simp] theorem content_stored (o i : Nat) (p : Primitive U ρ) :
    (p.stored o i).content = p.content := by
  simp [content, stored]

@[simp] theorem order_stored (o i : Nat) (p : Primitive U ρ) : (p.stored o i).order = o := rfl

section Clipped

variable [AddCommGroup U] [LinearOrder U]

/-- What of a primitive can be seen. -/
def clippedBounds (p : Primitive U ρ) : Bounds U := p.bounds.intersect p.contentMask.bounds

/-- Nothing of it can be seen: it is not inserted at all. -/
def culled (p : Primitive U ρ) : Bool := p.clippedBounds.isEmpty

@[simp] theorem clippedBounds_stored (o i : Nat) (p : Primitive U ρ) :
    (p.stored o i).clippedBounds = p.clippedBounds := rfl

end Clipped

end Primitive

inductive PaintOperation (U : Type)
  | primitive (kind : PrimitiveKind) (index : Nat)
  | startLayer (bounds : Bounds U)
  | endLayer
deriving DecidableEq, Repr

/-- The layer stack has its top at the head. -/
structure Scene (U ρ : Type) where
  paintOperations : List (PaintOperation U)
  primitiveBounds : BoundsTree U
  layerStack : List Nat
  items : PrimitiveKind → List (Primitive U ρ)

/-- The calls that paint. -/
inductive SceneOp (U ρ : Type)
  | pushLayer (bounds : Bounds U)
  | popLayer
  | insertPrimitive (primitive : Primitive U ρ)
deriving DecidableEq, Repr

namespace Scene

variable {U ρ : Type} [AddCommGroup U] [LinearOrder U]

def clear (_ : Scene U ρ) : Scene U ρ := ⟨[], ⟨[], none, none⟩, [], fun _ => []⟩

def pushLayer (s : Scene U ρ) (bounds : Bounds U) : Scene U ρ :=
  let (order, primitiveBounds) := s.primitiveBounds.insert bounds
  { s with
    primitiveBounds := primitiveBounds
    layerStack := order :: s.layerStack
    paintOperations := s.paintOperations ++ [.startLayer bounds] }

def popLayer (s : Scene U ρ) : Scene U ρ :=
  { s with
    layerStack := s.layerStack.tail
    paintOperations := s.paintOperations ++ [.endLayer] }

/-- The draw order of the next primitive: that of the innermost layer, else a
fresh one from the bounds tree. -/
def nextOrder (s : Scene U ρ) (clipped : Bounds U) : Nat × BoundsTree U :=
  match s.layerStack with
  | order :: _ => (order, s.primitiveBounds)
  | [] => s.primitiveBounds.insert clipped

def insertPrimitive (s : Scene U ρ) (p : Primitive U ρ) : Scene U ρ :=
  if p.culled then s
  else
    let (order, primitiveBounds) := s.nextOrder p.clippedBounds
    let index := (s.items p.kind).length
    { s with
      primitiveBounds := primitiveBounds
      items := Function.update s.items p.kind (s.items p.kind ++ [p.stored order index])
      paintOperations := s.paintOperations ++ [.primitive p.kind index] }

def perform (s : Scene U ρ) : SceneOp U ρ → Scene U ρ
  | .pushLayer bounds => s.pushLayer bounds
  | .popLayer => s.popLayer
  | .insertPrimitive p => s.insertPrimitive p

def run (s : Scene U ρ) (ops : List (SceneOp U ρ)) : Scene U ρ := ops.foldl perform s

/-- The call an operation of `prev` stands for. -/
def fetch (prev : Scene U ρ) : PaintOperation U → Option (SceneOp U ρ)
  | .primitive kind index => ((prev.items kind)[index]?).map .insertPrimitive
  | .startLayer bounds => some (.pushLayer bounds)
  | .endLayer => some .popLayer

/-- Paints the operations `start..stop` of `prev` into `s`. -/
def replay (s : Scene U ρ) (start stop : Nat) (prev : Scene U ρ) : Option (Scene U ρ) := do
  let operations ← slice prev.paintOperations start stop
  operations.foldlM (fun s operation => (prev.fetch operation).map s.perform) s

/-- The sorts of `finish`, one for each vector. -/
abbrev Sorts (U ρ : Type) := PrimitiveKind → UnstableSort (Primitive.sortKey (U := U) (ρ := ρ))

def finish (sorts : Sorts U ρ) (s : Scene U ρ) : Scene U ρ :=
  { s with items := fun kind => (sorts kind).settle (s.items kind) }

end Scene

end FcGpui
