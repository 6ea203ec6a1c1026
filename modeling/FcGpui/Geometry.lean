import Mathlib

/-!
# Points, sizes and bounds

`crates/gpui/src/geometry.rs`, the part the scene and its bounds tree use.  A
rectangle is stored as its upper left corner and its size, so its lower right
corner is a sum, and `from_corners` gets the size back by a subtraction.  The
coordinates are exact: an ordered commutative group, where the source has
`f32`.

* `Bounds.intersects` is the strict overlap test the tree prunes with.
* `Bounds.Covers` is the containment the tree keeps between a node and what
  lies below it.  `covers_union_left` and `covers_union_right` say `union`
  provides it, and `intersects_of_covers` says the overlap test is monotone in
  it, which is what makes the spatial pruning sound.
-/

namespace FcGpui

/-- A location in two dimensions. -/
structure Point (U : Type) where
  x : U
  y : U
deriving DecidableEq, Repr

/-- A width and a height. -/
structure Size (U : Type) where
  width : U
  height : U
deriving DecidableEq, Repr

/-- A rectangle: its upper left corner and its extent. -/
structure Bounds (U : Type) where
  origin : Point U
  size : Size U
deriving DecidableEq, Repr

section Operations

variable {U : Type} [AddCommGroup U] [LinearOrder U]

/-- The larger coordinate in each dimension. -/
def Point.max (p q : Point U) : Point U where
  x := if q.x < p.x then p.x else q.x
  y := if q.y < p.y then p.y else q.y

/-- The smaller coordinate in each dimension. -/
def Point.min (p q : Point U) : Point U where
  x := if p.x ≤ q.x then p.x else q.x
  y := if p.y ≤ q.y then p.y else q.y

namespace Bounds

def bottomRight (b : Bounds U) : Point U where
  x := b.origin.x + b.size.width
  y := b.origin.y + b.size.height

def fromCorners (topLeft bottomRight : Point U) : Bounds U where
  origin := topLeft
  size := ⟨bottomRight.x - topLeft.x, bottomRight.y - topLeft.y⟩

/-- Whether two rectangles overlap in a region of positive area. -/
def intersects (a b : Bounds U) : Bool :=
  decide (a.origin.x < b.bottomRight.x) && decide (b.origin.x < a.bottomRight.x)
    && decide (a.origin.y < b.bottomRight.y) && decide (b.origin.y < a.bottomRight.y)

/-- The common part; its size is negative in a dimension where there is none. -/
def intersect (a b : Bounds U) : Bounds U :=
  fromCorners (a.origin.max b.origin) (a.bottomRight.min b.bottomRight)

def union (a b : Bounds U) : Bounds U :=
  fromCorners (a.origin.min b.origin) (a.bottomRight.max b.bottomRight)

def halfPerimeter (b : Bounds U) : U := b.size.width + b.size.height

def isEmpty (b : Bounds U) : Bool :=
  decide (b.size.width ≤ 0) || decide (b.size.height ≤ 0)

/-- `a` contains `b`, corner by corner. -/
structure Covers (a b : Bounds U) : Prop where
  left : a.origin.x ≤ b.origin.x
  top : a.origin.y ≤ b.origin.y
  right : b.bottomRight.x ≤ a.bottomRight.x
  bottom : b.bottomRight.y ≤ a.bottomRight.y

omit [LinearOrder U] in
@[simp] theorem bottomRight_fromCorners (p q : Point U) : (fromCorners p q).bottomRight = q := by
  cases p; cases q
  simp [fromCorners, bottomRight]

omit [LinearOrder U] in
@[simp] theorem origin_fromCorners (p q : Point U) : (fromCorners p q).origin = p := rfl

theorem intersects_iff {a b : Bounds U} :
    a.intersects b = true ↔ a.origin.x < b.bottomRight.x ∧ b.origin.x < a.bottomRight.x ∧
      a.origin.y < b.bottomRight.y ∧ b.origin.y < a.bottomRight.y := by
  simp [intersects, and_assoc]

theorem intersects_comm (a b : Bounds U) : a.intersects b = b.intersects a := by
  rw [Bool.eq_iff_iff, intersects_iff, intersects_iff]
  tauto

theorem Covers.refl (a : Bounds U) : a.Covers a := ⟨le_rfl, le_rfl, le_rfl, le_rfl⟩

theorem Covers.trans {a b c : Bounds U} (h : a.Covers b) (g : b.Covers c) : a.Covers c :=
  ⟨h.left.trans g.left, h.top.trans g.top, g.right.trans h.right, g.bottom.trans h.bottom⟩

theorem covers_union_left (a b : Bounds U) : (a.union b).Covers a := by
  constructor <;> simp only [union, origin_fromCorners, bottomRight_fromCorners, Point.min, Point.max]
  · split <;> order
  · split <;> order
  · split <;> order
  · split <;> order

theorem covers_union_right (a b : Bounds U) : (a.union b).Covers b := by
  constructor <;> simp only [union, origin_fromCorners, bottomRight_fromCorners, Point.min, Point.max]
  · split <;> order
  · split <;> order
  · split <;> order
  · split <;> order

/-- **Overlap is monotone in containment.**  A query that overlaps a rectangle
overlaps everything that contains it. -/
theorem intersects_of_covers {q a b : Bounds U} (h : a.Covers b) (hi : q.intersects b = true) :
    q.intersects a = true := by
  rw [intersects_iff] at hi ⊢
  obtain ⟨h1, h2, h3, h4⟩ := hi
  exact ⟨h1.trans_le h.right, h.left.trans_lt h2, h3.trans_le h.bottom, h.top.trans_lt h4⟩

end Bounds

end Operations

end FcGpui
