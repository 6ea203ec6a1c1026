import FcGpui.Elements.ListState
import FcGpui.Lib.ExactFloats

/-!
# The pixels of the source

`Pixels` of `crates/gpui/src/geometry.rs` is an `f32`: sums are rounded, `==` is that of IEEE and
the order is `f32::total_cmp`.
-/

namespace FcGpui.Elements

open ExactFloats

structure FloatPixels where
  value : Float32

namespace FloatPixels

instance : Zero FloatPixels := ⟨⟨.ofBits 0⟩⟩

instance : One FloatPixels := ⟨⟨.ofBits 0x3F800000⟩⟩

instance : Add FloatPixels := ⟨fun x y => ⟨x.value + y.value⟩⟩

instance : Sub FloatPixels := ⟨fun x y => ⟨x.value - y.value⟩⟩

instance : Neg FloatPixels := ⟨fun x => ⟨-x.value⟩⟩

instance : Div FloatPixels := ⟨fun x y => ⟨x.value / y.value⟩⟩

instance : BEq FloatPixels := ⟨fun x y => x.value == y.value⟩

/-- `Pixels::cmp`, and `max` and `min` by it. -/
instance : LinearOrder FloatPixels :=
  LinearOrder.lift' (fun x => totalKey x.value) fun x y h => by
    cases x
    cases y
    exact congrArg FloatPixels.mk (totalKey_injective h)

/-- The quotient is an `f32` of its own, in the order of IEEE. -/
instance : Fraction FloatPixels where
  clampUnit x := if x.value < 0 then 0 else if 1 < x.value then 1 else x

/-! ### Numbers -/

/-- The number that the pixels stand for. -/
def exact (x : FloatPixels) : Pixels := (number x.value).getD 0

/-- The pixels are finite. -/
def IsNumber (x : FloatPixels) : Prop := (number x.value).isSome

instance (x : FloatPixels) : Decidable x.IsNumber := inferInstanceAs (Decidable ((number x.value).isSome = true))

variable {x y : FloatPixels} {p q : ℚ}

theorem IsNumber.number_eq (h : x.IsNumber) : number x.value = some x.exact := by
  obtain ⟨q, hq⟩ := Option.isSome_iff_exists.mp h
  rw [exact, hq, Option.getD_some]

theorem exact_eq (h : IsExactly x.value q) : x.exact = q := by
  rw [exact, h.number, Option.getD_some]

theorem isNumber_of_isExactly (h : IsExactly x.value q) : x.IsNumber := Option.isSome_iff_exists.mpr ⟨q, h.number⟩

theorem isExactly_zero : IsExactly (0 : FloatPixels).value 0 := ⟨by decide +kernel, by decide +kernel⟩

theorem isNumber_zero : (0 : FloatPixels).IsNumber := isNumber_of_isExactly isExactly_zero

@[simp]
theorem exact_zero : (0 : FloatPixels).exact = 0 := exact_eq isExactly_zero

theorem isExactly_add (hx : IsExactly x.value p) (hy : y.IsNumber) (h : Representable (p + y.exact)) :
    IsExactly (x + y).value (p + y.exact) := hx.add hy.number_eq h

theorem isExactly_sub (hx : IsExactly x.value p) (hy : y.IsNumber) (h : Representable (p - y.exact)) :
    IsExactly (x - y).value (p - y.exact) := hx.sub hy.number_eq h

theorem lt_iff (hx : IsExactly x.value p) (hy : IsExactly y.value q) : x < y ↔ p < q := hx.totalKey_lt_iff hy

theorem isExactly_max (hx : IsExactly x.value p) (hy : IsExactly y.value q) : IsExactly (max x y).value (max p q) := by
  rcases le_or_gt q p with hle | hlt
  · rw [max_eq_left hle, max_eq_left (not_lt.mp (mt (lt_iff hx hy).mp (not_lt.mpr hle)))]
    exact hx
  · rw [max_eq_right hlt.le, max_eq_right ((lt_iff hx hy).mpr hlt).le]
    exact hy

end FloatPixels

end FcGpui.Elements
