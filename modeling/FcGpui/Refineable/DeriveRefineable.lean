import Mathlib

/-!
# `derive(Refineable)`

A `Shape` is what the macro sees of a struct: its fields one after another, each plain, an
`Option`, or marked `#[refineable]` and then a struct with the macro itself.  Over the shape
everything that the macro writes is a recursion with one case for each kind of field, and it is
written twice, for the struct and for its refinement.

A struct without fields is a shape here, although the macro's `is_empty` has no body for it.
-/

namespace FcGpui

/-- The fields of a struct; two values of a field can be told apart. -/
inductive Shape : Type 1
  | nil
  | plain (α : Type) (eq : DecidableEq α) (rest : Shape)
  | optional (α : Type) (eq : DecidableEq α) (rest : Shape)
  | refineable (field rest : Shape)

namespace Shape

/-- The struct. -/
@[reducible] def Value : Shape → Type
  | nil => Unit
  | plain α _ rest => α × rest.Value
  | optional α _ rest => Option α × rest.Value
  | refineable field rest => field.Value × rest.Value

/-- The struct that the macro adds, with the field types of `get_wrapper_type`. -/
@[reducible] def Refinement : Shape → Type
  | nil => Unit
  | plain α _ rest => Option α × rest.Refinement
  | optional α _ rest => Option α × rest.Refinement
  | refineable field rest => field.Refinement × rest.Refinement

/-! ### `impl Refineable` for the struct -/

def refine : (s : Shape) → s.Value → s.Refinement → s.Value
  | nil, _, _ => ()
  | plain _ _ rest, (field, self), (refinement, others) =>
    (match refinement with
      | some value => value
      | none => field, rest.refine self others)
  | optional _ _ rest, (field, self), (refinement, others) =>
    (match refinement with
      | some value => some value
      | none => field, rest.refine self others)
  | refineable nested rest, (field, self), (refinement, others) =>
    (nested.refine field refinement, rest.refine self others)

def refined : (s : Shape) → s.Value → s.Refinement → s.Value
  | nil, _, _ => ()
  | plain _ _ rest, (field, self), (refinement, others) =>
    (match refinement with
      | some value => value
      | none => field, rest.refined self others)
  | optional _ _ rest, (field, self), (refinement, others) =>
    (match refinement with
      | some value => some value
      | none => field, rest.refined self others)
  | refineable nested rest, (field, self), (refinement, others) =>
    (nested.refined field refinement, rest.refined self others)

def isSupersetOf : (s : Shape) → s.Value → s.Refinement → Bool
  | nil, _, _ => true
  | plain _ _ rest, (field, self), (refinement, others) =>
    match refinement with
    | some refinementValue => if field ≠ refinementValue then false else rest.isSupersetOf self others
    | none => rest.isSupersetOf self others
  | optional _ _ rest, (field, self), (refinement, others) =>
    if refinement.isSome ∧ field ≠ refinement then false else rest.isSupersetOf self others
  | refineable nested rest, (field, self), (refinement, others) =>
    if !nested.isSupersetOf field refinement then false else rest.isSupersetOf self others

def subtract : (s : Shape) → s.Value → s.Refinement → s.Refinement
  | nil, _, _ => ()
  | plain _ _ rest, (field, self), (refinement, others) =>
    (match refinement with
      | some refinementValue => if field = refinementValue then none else some field
      | none => some field, rest.subtract self others)
  | optional _ _ rest, (field, self), (refinement, others) =>
    (if field = refinement then none else field, rest.subtract self others)
  | refineable nested rest, (field, self), (refinement, others) =>
    (nested.subtract field refinement, rest.subtract self others)

/-! ### `impl Refineable` for the refinement -/

def refinementRefine : (s : Shape) → s.Refinement → s.Refinement → s.Refinement
  | nil, _, _ => ()
  | plain _ _ rest, (field, self), (refinement, others) =>
    (match refinement with
      | some value => some value
      | none => field, rest.refinementRefine self others)
  | optional _ _ rest, (field, self), (refinement, others) =>
    (match refinement with
      | some value => some value
      | none => field, rest.refinementRefine self others)
  | refineable nested rest, (field, self), (refinement, others) =>
    (nested.refinementRefine field refinement, rest.refinementRefine self others)

def refinementRefined : (s : Shape) → s.Refinement → s.Refinement → s.Refinement
  | nil, _, _ => ()
  | plain _ _ rest, (field, self), (refinement, others) =>
    (match refinement with
      | some value => some value
      | none => field, rest.refinementRefined self others)
  | optional _ _ rest, (field, self), (refinement, others) =>
    (match refinement with
      | some value => some value
      | none => field, rest.refinementRefined self others)
  | refineable nested rest, (field, self), (refinement, others) =>
    (nested.refinementRefined field refinement, rest.refinementRefined self others)

def refinementIsSupersetOf : (s : Shape) → s.Refinement → s.Refinement → Bool
  | nil, _, _ => true
  | plain _ _ rest, (field, self), (refinement, others) =>
    if refinement.isSome ∧ field ≠ refinement then false else rest.refinementIsSupersetOf self others
  | optional _ _ rest, (field, self), (refinement, others) =>
    if refinement.isSome ∧ field ≠ refinement then false else rest.refinementIsSupersetOf self others
  | refineable nested rest, (field, self), (refinement, others) =>
    if !nested.refinementIsSupersetOf field refinement then false
    else rest.refinementIsSupersetOf self others

def refinementSubtract : (s : Shape) → s.Refinement → s.Refinement → s.Refinement
  | nil, _, _ => ()
  | plain _ _ rest, (field, self), (refinement, others) =>
    (if field = refinement then none else field, rest.refinementSubtract self others)
  | optional _ _ rest, (field, self), (refinement, others) =>
    (if field = refinement then none else field, rest.refinementSubtract self others)
  | refineable nested rest, (field, self), (refinement, others) =>
    (nested.refinementSubtract field refinement, rest.refinementSubtract self others)

/-- `impl IsEmpty` for the refinement. -/
def isEmpty : (s : Shape) → s.Refinement → Bool
  | nil, _ => true
  | plain _ _ rest, (field, self) => field.isNone && rest.isEmpty self
  | optional _ _ rest, (field, self) => field.isNone && rest.isEmpty self
  | refineable nested rest, (field, self) => nested.isEmpty field && rest.isEmpty self

/-- `impl Default` for the refinement. -/
def refinementDefault : (s : Shape) → s.Refinement
  | nil => ()
  | plain _ _ rest => (none, rest.refinementDefault)
  | optional _ _ rest => (none, rest.refinementDefault)
  | refineable nested rest => (nested.refinementDefault, rest.refinementDefault)

end Shape

/-! ### Cascades -/

/-- Slots for refinements; slot 0 is the base, and is never empty. -/
structure Cascade (s : Shape) where
  slots : List (Option s.Refinement)
  hasBase : slots.head?.join.isSome

/-- A handle to a slot that was reserved, which is not the base. -/
structure CascadeSlot where
  ix : Nat
  pos : 0 < ix

namespace Cascade

variable {s : Shape}

theorem head?_set {slots : List (Option s.Refinement)} {ix : Nat} (h : 0 < ix)
    (refinement : Option s.Refinement) : (slots.set ix refinement).head? = slots.head? := by
  rw [List.head?_eq_getElem?, List.head?_eq_getElem?, List.getElem?_set_ne (Nat.ne_of_gt h)]

def default (s : Shape) : Cascade s := ⟨[some s.refinementDefault], rfl⟩

def reserve (self : Cascade s) : Cascade s × CascadeSlot :=
  have hne : self.slots ≠ [] := fun h => by simpa [h] using self.hasBase
  (⟨self.slots ++ [none], by rw [List.head?_append_of_ne_nil _ hne]; exact self.hasBase⟩,
    ⟨self.slots.length, List.length_pos_iff.mpr hne⟩)

def base (self : Cascade s) : s.Refinement := self.slots.head?.join.get self.hasBase

/-- What is written through the reference that `base` returns. -/
def setBase (self : Cascade s) (refinement : s.Refinement) : Cascade s :=
  ⟨some refinement :: self.slots.tail, rfl⟩

/-- A slot of another cascade may be out of bounds, which panics. -/
def set (self : Cascade s) (slot : CascadeSlot) (refinement : Option s.Refinement) : Option (Cascade s) :=
  if slot.ix < self.slots.length then
    some ⟨self.slots.set slot.ix refinement, by rw [head?_set slot.pos]; exact self.hasBase⟩
  else none

def merged (self : Cascade s) : s.Refinement :=
  ((self.slots.drop 1).filterMap id).foldl s.refinementRefine self.base

/-- `Refineable::from_cascade`, of a struct with the default value `default`. -/
def fromCascade (default : s.Value) (self : Cascade s) : s.Value := s.refined default self.merged

end Cascade

end FcGpui
