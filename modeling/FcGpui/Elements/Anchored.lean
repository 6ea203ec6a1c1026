import FcGpui.Elements.ListState

/-!
# Anchored elements

`crates/gpui/src/elements/anchored.rs`: an element that is attached to a point by one of
its corners, and moved where it does not fit into the window.  Pixels are exact.

In the mode `Local` the anchor is relative to the parent, but the point from which the
corners are switched is not: it is the anchor itself.  `desired_local_eq_window_iff` says
when this makes no difference.
-/

namespace FcGpui

inductive Axis
  | vertical
  | horizontal
deriving DecidableEq

inductive Corner
  | topLeft
  | topRight
  | bottomLeft
  | bottomRight
deriving DecidableEq

def Corner.otherSideCornerAlong : Corner → Axis → Corner
  | topLeft, .vertical => bottomLeft
  | topRight, .vertical => bottomRight
  | bottomLeft, .vertical => topLeft
  | bottomRight, .vertical => topRight
  | topLeft, .horizontal => topRight
  | topRight, .horizontal => topLeft
  | bottomLeft, .horizontal => bottomRight
  | bottomRight, .horizontal => bottomLeft

def Point.plus {U : Type} [Add U] (p q : Point U) : Point U := ⟨p.x + q.x, p.y + q.y⟩

def Bounds.fromCornerAndSize {U : Type} [Sub U] (corner : Corner) (origin : Point U) (size : Size U) : Bounds U :=
  match corner with
  | .topLeft => ⟨origin, size⟩
  | .topRight => ⟨⟨origin.x - size.width, origin.y⟩, size⟩
  | .bottomLeft => ⟨⟨origin.x, origin.y - size.height⟩, size⟩
  | .bottomRight => ⟨⟨origin.x - size.width, origin.y - size.height⟩, size⟩

namespace Elements

inductive AnchoredFitMode
  | snapToWindow
  | snapToWindowWithMargin (edges : Edges)
  | switchAnchor
deriving DecidableEq

inductive AnchoredPositionMode
  | window
  | «local»
deriving DecidableEq

def AnchoredPositionMode.getPositionAndBounds (mode : AnchoredPositionMode) (anchorPosition : Option (Point Pixels))
    (anchorCorner : Corner) (size : Size Pixels) (bounds : Bounds Pixels) (offset : Option (Point Pixels)) :
    Point Pixels × Bounds Pixels :=
  let offset := offset.getD ⟨0, 0⟩
  match mode with
  | window =>
    let anchorPosition := anchorPosition.getD bounds.origin
    (anchorPosition, Bounds.fromCornerAndSize anchorCorner (anchorPosition.plus offset) size)
  | «local» =>
    let anchorPosition := anchorPosition.getD ⟨0, 0⟩
    (anchorPosition,
      Bounds.fromCornerAndSize anchorCorner ((bounds.origin.plus anchorPosition).plus offset) size)

/-- `f32::round`. -/
def roundPixels (x : Pixels) : Pixels := if x < 0 then -⌊-x + 1 / 2⌋ else ⌊x + 1 / 2⌋

structure Anchored where
  anchorCorner : Corner
  fitMode : AnchoredFitMode
  anchorPosition : Option (Point Pixels)
  positionMode : AnchoredPositionMode
  offset : Option (Point Pixels)

namespace Anchored

def overflowsX (limits desired : Bounds Pixels) : Bool :=
  decide (desired.origin.x < limits.origin.x) || decide (limits.bottomRight.x < desired.bottomRight.x)

def overflowsY (limits desired : Bounds Pixels) : Bool :=
  decide (desired.origin.y < limits.origin.y) || decide (limits.bottomRight.y < desired.bottomRight.y)

/-- The corner is switched along an axis on which the bounds overflow, if they do not overflow then. -/
def switchAlong (axis : Axis) (overflows : Bounds Pixels → Bool) (origin : Point Pixels) (size : Size Pixels)
    (anchored : Corner × Bounds Pixels) : Corner × Bounds Pixels :=
  if overflows anchored.2 then
    let anchorCorner := anchored.1.otherSideCornerAlong axis
    let switched := Bounds.fromCornerAndSize anchorCorner origin size
    if !overflows switched then (anchorCorner, switched) else anchored
  else anchored

def switchAnchor (limits : Bounds Pixels) (anchorCorner : Corner) (origin : Point Pixels) (size : Size Pixels)
    (desired : Bounds Pixels) : Bounds Pixels :=
  (switchAlong .vertical (overflowsY limits) origin size
    (switchAlong .horizontal (overflowsX limits) origin size (anchorCorner, desired))).2

/-- A coordinate is moved back between two limits, for an extent from it. -/
def snap (low high lowEdge highEdge extent x : Pixels) : Pixels :=
  let x := if high < x + extent then x - (x + extent - high + highEdge) else x
  if x < low then low + lowEdge else x

def snapToEdges (limits : Bounds Pixels) (edges : Edges) (desired : Bounds Pixels) : Bounds Pixels :=
  ⟨⟨snap limits.origin.x limits.bottomRight.x edges.left edges.right desired.size.width desired.origin.x,
    snap limits.origin.y limits.bottomRight.y edges.top edges.bottom desired.size.height desired.origin.y⟩,
    desired.size⟩

def edges (a : Anchored) (clientInset : Option Pixels) : Edges :=
  let clientInset := clientInset.getD 0
  let edges := match a.fitMode with
    | .snapToWindowWithMargin edges => edges
    | _ => Edges.default
  ⟨edges.top + clientInset, edges.right + clientInset, edges.bottom + clientInset, edges.left + clientInset⟩

/-- The bounds at which the children end, of the size of what they take up. -/
def desired (a : Anchored) (size : Size Pixels) (bounds : Bounds Pixels) (viewportSize : Size Pixels)
    (clientInset : Option Pixels) : Bounds Pixels :=
  let (origin, desired) :=
    a.positionMode.getPositionAndBounds a.anchorPosition a.anchorCorner size bounds a.offset
  let limits : Bounds Pixels := ⟨⟨0, 0⟩, viewportSize⟩
  let desired :=
    if a.fitMode = .switchAnchor then switchAnchor limits a.anchorCorner origin size desired else desired
  snapToEdges limits (a.edges clientInset) desired

/-- The offset of the children; nothing is done without a child. -/
def prepaint (a : Anchored) (childBounds : List (Bounds Pixels)) (bounds : Bounds Pixels)
    (viewportSize : Size Pixels) (clientInset : Option Pixels) : Option (Point Pixels) :=
  match childBounds with
  | [] => none
  | first :: rest =>
    let childrenBounds := rest.foldl Bounds.union first
    let desired := a.desired childrenBounds.size bounds viewportSize clientInset
    some ⟨roundPixels (desired.origin.x - bounds.origin.x), roundPixels (desired.origin.y - bounds.origin.y)⟩

/-! ### Where the element is attached in the end -/

section

variable (limits : Bounds Pixels) (corner : Corner) (size : Size Pixels) (first : Bounds Pixels) (origin : Point Pixels)

/-- Where a corner at a point puts the element. -/
def attachX : Pixels := (Bounds.fromCornerAndSize corner origin size).origin.x

def attachY : Pixels := (Bounds.fromCornerAndSize corner origin size).origin.y

/-- The first bounds overflow sideways, and those on the other side of the point do not. -/
def Turns : Prop :=
  overflowsX limits first = true ∧
    overflowsX limits (Bounds.fromCornerAndSize (corner.otherSideCornerAlong .horizontal) origin size) = false

instance : Decidable (Turns limits corner size first origin) := inferInstanceAs (Decidable (_ ∧ _))

/-- The bounds then overflow above or below, and those on the other side of the point do not. -/
def Tips : Prop :=
  overflowsY limits (if Turns limits corner size first origin then
      Bounds.fromCornerAndSize (corner.otherSideCornerAlong .horizontal) origin size else first) = true ∧
    overflowsY limits (Bounds.fromCornerAndSize (corner.otherSideCornerAlong .vertical) origin size) = false

instance : Decidable (Tips limits corner size first origin) := inferInstanceAs (Decidable (_ ∧ _))

/-- The coordinate of an element that does not turn. -/
def unturnedX : Pixels :=
  if Tips limits corner size first origin then attachX corner size origin else first.origin.x

/-- The coordinate of an element that does not tip. -/
def untippedY : Pixels :=
  if Turns limits corner size first origin then attachY corner size origin else first.origin.y

theorem switchAlong_eq (axis : Axis) (overflows : Bounds Pixels → Bool) (anchored : Corner × Bounds Pixels) :
    switchAlong axis overflows origin size anchored =
      if overflows anchored.2 = true ∧
          overflows (Bounds.fromCornerAndSize (anchored.1.otherSideCornerAlong axis) origin size) = false then
        (anchored.1.otherSideCornerAlong axis,
          Bounds.fromCornerAndSize (anchored.1.otherSideCornerAlong axis) origin size)
      else anchored := by
  rw [switchAlong]
  by_cases hover : overflows anchored.2 = true
  · rw [if_pos hover]
    by_cases hfits : overflows (Bounds.fromCornerAndSize (anchored.1.otherSideCornerAlong axis) origin size) = false
    · simp [hover, hfits]
    · simp [hover, hfits]
  · simp [hover]

/-- A corner that is switched sideways stays above or below. -/
theorem fromCornerAndSize_horizontal :
    (Bounds.fromCornerAndSize (corner.otherSideCornerAlong .horizontal) origin size).origin.y
        = (Bounds.fromCornerAndSize corner origin size).origin.y ∧
      overflowsY limits (Bounds.fromCornerAndSize
          ((corner.otherSideCornerAlong .horizontal).otherSideCornerAlong .vertical) origin size)
        = overflowsY limits (Bounds.fromCornerAndSize (corner.otherSideCornerAlong .vertical) origin size) := by
  cases corner <;> exact ⟨rfl, rfl⟩

theorem switchAnchor_eq (hfirst : first.size = size) : switchAnchor limits corner origin size first =
    ⟨⟨if Turns limits corner size first origin then attachX (corner.otherSideCornerAlong .horizontal) size origin
        else unturnedX limits corner size first origin,
      if Tips limits corner size first origin then attachY (corner.otherSideCornerAlong .vertical) size origin
        else untippedY limits corner size first origin⟩, size⟩ := by
  obtain ⟨hside, htip⟩ := fromCornerAndSize_horizontal limits corner size origin
  have hturn : switchAlong .horizontal (overflowsX limits) origin size (corner, first) =
      if Turns limits corner size first origin then (corner.otherSideCornerAlong .horizontal,
        Bounds.fromCornerAndSize (corner.otherSideCornerAlong .horizontal) origin size)
      else (corner, first) := switchAlong_eq size origin .horizontal (overflowsX limits) (corner, first)
  rw [switchAnchor, hturn, switchAlong_eq, unturnedX, untippedY]
  by_cases hturns : Turns limits corner size first origin
  · have htips : Tips limits corner size first origin ↔
        overflowsY limits (Bounds.fromCornerAndSize (corner.otherSideCornerAlong .horizontal) origin size) = true ∧
          overflowsY limits (Bounds.fromCornerAndSize (corner.otherSideCornerAlong .vertical) origin size) = false := by
      rw [Tips, if_pos hturns]
    simp only [if_pos hturns, htip, ← htips]
    split
    · cases corner <;> rfl
    · cases corner <;> rfl
  · have htips : Tips limits corner size first origin ↔ overflowsY limits first = true ∧
        overflowsY limits (Bounds.fromCornerAndSize (corner.otherSideCornerAlong .vertical) origin size) = false := by
      rw [Tips, if_neg hturns]
    simp only [if_neg hturns, ← htips]
    split
    · cases corner <;> rfl
    · subst hfirst
      rfl

end

/-! ### The two position modes -/

/-- One coordinate of an element that is switched around either of two points which are `apart`.
Where it is switched it is at `at₁` or `at₂`, and this is inside; else it is at `rest₁` or `rest₂`
and has yet to be snapped. -/
structure SwitchesAlike (snapped : Pixels → Pixels) (apart : Pixels) (switch₁ switch₂ : Prop)
    (at₁ at₂ rest₁ rest₂ : Pixels) : Prop where
  both : switch₁ → switch₂ → apart = 0
  onlyFirst : switch₁ → ¬ switch₂ → at₁ = snapped rest₂
  onlySecond : ¬ switch₁ → switch₂ → snapped rest₁ = at₂
  neither : ¬ switch₁ → ¬ switch₂ → snapped rest₁ = snapped rest₂

theorem switchesAlike_iff {snapped : Pixels → Pixels} {apart : Pixels} {switch₁ switch₂ : Prop}
    [Decidable switch₁] [Decidable switch₂] {at₁ at₂ rest₁ rest₂ : Pixels}
    (h₁ : switch₁ → snapped at₁ = at₁) (h₂ : switch₂ → snapped at₂ = at₂) (hapart : at₂ = apart + at₁) :
    snapped (if switch₁ then at₁ else rest₁) = snapped (if switch₂ then at₂ else rest₂) ↔
      SwitchesAlike snapped apart switch₁ switch₂ at₁ at₂ rest₁ rest₂ := by
  by_cases hs₁ : switch₁
  · by_cases hs₂ : switch₂
    · rw [if_pos hs₁, if_pos hs₂, h₁ hs₁, h₂ hs₂, hapart]
      constructor
      · intro heq
        exact ⟨fun _ _ => by linarith, fun _ h => absurd hs₂ h, fun h => absurd hs₁ h, fun h => absurd hs₁ h⟩
      · intro h
        rw [h.both hs₁ hs₂, zero_add]
    · rw [if_pos hs₁, if_neg hs₂, h₁ hs₁]
      constructor
      · intro heq
        exact ⟨fun _ h => absurd h hs₂, fun _ _ => heq, fun h => absurd hs₁ h, fun h => absurd hs₁ h⟩
      · intro h
        exact h.onlyFirst hs₁ hs₂
  · by_cases hs₂ : switch₂
    · rw [if_neg hs₁, if_pos hs₂, h₂ hs₂]
      constructor
      · intro heq
        exact ⟨fun h => absurd h hs₁, fun h => absurd h hs₁, fun _ _ => heq, fun _ h => absurd hs₂ h⟩
      · intro h
        exact h.onlySecond hs₁ hs₂
    · rw [if_neg hs₁, if_neg hs₂]
      constructor
      · intro heq
        exact ⟨fun h => absurd h hs₁, fun h => absurd h hs₁, fun _ h => absurd h hs₂, fun _ _ => heq⟩
      · intro h
        exact h.neither hs₁ hs₂

theorem snap_inside {low high lowEdge highEdge extent x : Pixels} (hlow : low ≤ x) (hhigh : x + extent ≤ high) :
    snap low high lowEdge highEdge extent x = x := by
  rw [snap, if_neg (not_lt.mpr hhigh)]
  exact if_neg (not_lt.mpr hlow)

theorem overflowsX_eq_false {limits desired : Bounds Pixels} (h : overflowsX limits desired = false) :
    limits.origin.x ≤ desired.origin.x ∧ desired.bottomRight.x ≤ limits.bottomRight.x := by
  simpa [overflowsX] using h

theorem overflowsY_eq_false {limits desired : Bounds Pixels} (h : overflowsY limits desired = false) :
    limits.origin.y ≤ desired.origin.y ∧ desired.bottomRight.y ≤ limits.bottomRight.y := by
  simpa [overflowsY] using h

section

variable (a : Anchored) (p : Point Pixels) (size : Size Pixels) (bounds : Bounds Pixels) (viewportSize : Size Pixels)
  (clientInset : Option Pixels)

/-- The element with an anchor relative to its parent. -/
def inParent : Anchored := { a with positionMode := .local, anchorPosition := some p }

/-- The element with an anchor in the window. -/
def inWindow : Anchored := { a with positionMode := .window, anchorPosition := some p }

/-- Where the element is before it is moved. -/
def firstBounds : Bounds Pixels :=
  Bounds.fromCornerAndSize a.anchorCorner ((bounds.origin.plus p).plus (a.offset.getD ⟨0, 0⟩)) size

/-- The switches around the anchor itself do what those around the anchor in the window do. -/
def AlikeX : Prop :=
  let limits : Bounds Pixels := ⟨⟨0, 0⟩, viewportSize⟩
  let edges := a.edges clientInset
  let first := a.firstBounds p size bounds
  let q := bounds.origin.plus p
  let other := a.anchorCorner.otherSideCornerAlong .horizontal
  SwitchesAlike (snap limits.origin.x limits.bottomRight.x edges.left edges.right size.width) bounds.origin.x
    (Turns limits a.anchorCorner size first p) (Turns limits a.anchorCorner size first q)
    (attachX other size p) (attachX other size q)
    (unturnedX limits a.anchorCorner size first p) (unturnedX limits a.anchorCorner size first q)

def AlikeY : Prop :=
  let limits : Bounds Pixels := ⟨⟨0, 0⟩, viewportSize⟩
  let edges := a.edges clientInset
  let first := a.firstBounds p size bounds
  let q := bounds.origin.plus p
  let other := a.anchorCorner.otherSideCornerAlong .vertical
  SwitchesAlike (snap limits.origin.y limits.bottomRight.y edges.top edges.bottom size.height) bounds.origin.y
    (Tips limits a.anchorCorner size first p) (Tips limits a.anchorCorner size first q)
    (attachY other size p) (attachY other size q)
    (untippedY limits a.anchorCorner size first p) (untippedY limits a.anchorCorner size first q)

theorem firstBounds_size : (a.firstBounds p size bounds).size = size := by
  rw [firstBounds]
  cases a.anchorCorner <;> rfl

theorem Turns.snap_eq {limits first : Bounds Pixels} {corner : Corner} {size : Size Pixels} {p : Point Pixels}
    (h : Turns limits corner size first p) (lowEdge highEdge : Pixels) :
    snap limits.origin.x limits.bottomRight.x lowEdge highEdge size.width
      (attachX (corner.otherSideCornerAlong .horizontal) size p)
        = attachX (corner.otherSideCornerAlong .horizontal) size p := by
  obtain ⟨hlow, hhigh⟩ := overflowsX_eq_false h.2
  refine snap_inside hlow ?_
  cases corner <;> exact hhigh

theorem Tips.snap_eq {limits first : Bounds Pixels} {corner : Corner} {size : Size Pixels} {p : Point Pixels}
    (h : Tips limits corner size first p) (lowEdge highEdge : Pixels) :
    snap limits.origin.y limits.bottomRight.y lowEdge highEdge size.height
      (attachY (corner.otherSideCornerAlong .vertical) size p)
        = attachY (corner.otherSideCornerAlong .vertical) size p := by
  obtain ⟨hlow, hhigh⟩ := overflowsY_eq_false h.2
  refine snap_inside hlow ?_
  cases corner <;> exact hhigh

theorem attachX_plus (corner : Corner) (origin : Point Pixels) :
    attachX corner size (origin.plus p) = origin.x + attachX corner size p := by
  cases corner <;> simp only [attachX, Bounds.fromCornerAndSize, Point.plus] <;> ring

theorem attachY_plus (corner : Corner) (origin : Point Pixels) :
    attachY corner size (origin.plus p) = origin.y + attachY corner size p := by
  cases corner <;> simp only [attachY, Bounds.fromCornerAndSize, Point.plus] <;> ring

theorem snapToEdges_eq_iff (limits : Bounds Pixels) (edges : Edges) (x₁ y₁ x₂ y₂ : Pixels) :
    snapToEdges limits edges ⟨⟨x₁, y₁⟩, size⟩ = snapToEdges limits edges ⟨⟨x₂, y₂⟩, size⟩ ↔
      snap limits.origin.x limits.bottomRight.x edges.left edges.right size.width x₁
          = snap limits.origin.x limits.bottomRight.x edges.left edges.right size.width x₂ ∧
        snap limits.origin.y limits.bottomRight.y edges.top edges.bottom size.height y₁
          = snap limits.origin.y limits.bottomRight.y edges.top edges.bottom size.height y₂ := by
  simp only [snapToEdges, Bounds.mk.injEq, Point.mk.injEq, and_true]

/-- **An anchor relative to the parent**, and the same anchor in the window. -/
theorem desired_local_eq_window_iff :
    (a.inParent p).desired size bounds viewportSize clientInset
        = (a.inWindow (bounds.origin.plus p)).desired size bounds viewportSize clientInset ↔
      (a.fitMode = .switchAnchor →
        a.AlikeX p size bounds viewportSize clientInset ∧ a.AlikeY p size bounds viewportSize clientInset) := by
  have hlocal : (a.inParent p).desired size bounds viewportSize clientInset =
      snapToEdges ⟨⟨0, 0⟩, viewportSize⟩ (a.edges clientInset)
        (if a.fitMode = .switchAnchor then
          switchAnchor ⟨⟨0, 0⟩, viewportSize⟩ a.anchorCorner p size (a.firstBounds p size bounds)
        else a.firstBounds p size bounds) := rfl
  have hwindow : (a.inWindow (bounds.origin.plus p)).desired size bounds viewportSize clientInset =
      snapToEdges ⟨⟨0, 0⟩, viewportSize⟩ (a.edges clientInset)
        (if a.fitMode = .switchAnchor then
          switchAnchor ⟨⟨0, 0⟩, viewportSize⟩ a.anchorCorner (bounds.origin.plus p) size
            (a.firstBounds p size bounds)
        else a.firstBounds p size bounds) := rfl
  rw [hlocal, hwindow]
  by_cases hswitch : a.fitMode = .switchAnchor
  · have hsize := a.firstBounds_size p size bounds
    rw [if_pos hswitch, if_pos hswitch, switchAnchor_eq _ _ _ _ _ hsize, switchAnchor_eq _ _ _ _ _ hsize,
      snapToEdges_eq_iff,
      switchesAlike_iff (fun h => h.snap_eq _ _) (fun h => h.snap_eq _ _) (attachX_plus p size _ bounds.origin),
      switchesAlike_iff (fun h => h.snap_eq _ _) (fun h => h.snap_eq _ _) (attachY_plus p size _ bounds.origin)]
    exact ⟨fun h _ => h, fun h => h hswitch⟩
  · rw [if_neg hswitch, if_neg hswitch]
    exact ⟨fun _ h => absurd h hswitch, fun _ => rfl⟩

/-- A menu at the right edge of the window, whose parent is not at the left edge. -/
theorem not_desired_local_eq_window : ¬ ∀ (a : Anchored) (p : Point Pixels) (size : Size Pixels)
    (bounds : Bounds Pixels) (viewportSize : Size Pixels) (clientInset : Option Pixels),
    (a.inParent p).desired size bounds viewportSize clientInset
      = (a.inWindow (bounds.origin.plus p)).desired size bounds viewportSize clientInset := by
  intro h
  have heq := h ⟨.topLeft, .switchAnchor, none, .window, none⟩ ⟨45, 10⟩ ⟨20, 20⟩ ⟨⟨50, 0⟩, ⟨50, 50⟩⟩ ⟨100, 100⟩ none
  exact absurd heq (by decide +kernel)

end

end Anchored

end Elements

end FcGpui
