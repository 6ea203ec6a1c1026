import FcGpui.Refineable.DeriveRefineable

/-!
# Refinements compose

A refinement acts on the values of its struct, and on other refinements of it.  Both actions are
by `refined`, which is written apart for the two, and for each kind of field.

* `refined_refined`, `refinementRefined_refinementRefined`: one refinement after another is their
  composition.
* `isSupersetOf_iff`: what is there already is what changes nothing.
* `isSupersetOf_refined_subtract`: the difference brings the other back.
* `fromCascade_eq`: a cascade is its filled slots one after another.
-/

namespace FcGpui

namespace Shape

variable {s : Shape}

attribute [local simp] refine refined isSupersetOf subtract refinementRefine refinementRefined refinementIsSupersetOf
  refinementSubtract isEmpty refinementDefault

/-- What is promised of a type that can be refined: `merged a b` is `a` and then `b`. -/
structure LawfulRefineable {S R : Type} (refine refined : S → R → S) (isSupersetOf : S → R → Bool)
    (merged : R → R → R) (isEmpty : R → Bool) : Prop where
  refined_refined : ∀ v a b, refined (refined v a) b = refined v (merged a b)
  refine_eq : ∀ v r, refine v r = refined v r
  refined_of_isEmpty : ∀ v r, isEmpty r = true → refined v r = v
  isSupersetOf_iff : ∀ v r, isSupersetOf v r = true ↔ refined v r = v

/-! ### Values -/

theorem refine_eq (s : Shape) : ∀ (v : s.Value) (r : s.Refinement), s.refine v r = s.refined v r := by
  induction s with
  | nil => exact fun _ _ => rfl
  | plain α eq rest ih | optional α eq rest ih =>
    rintro ⟨field, v⟩ ⟨refinement, r⟩
    simp only [refine, refined, ih]
  | refineable nested rest ihNested ih =>
    rintro ⟨field, v⟩ ⟨refinement, r⟩
    simp only [refine, refined, ihNested, ih]

/-- **One refinement after another** is their composition. -/
theorem refined_refined (s : Shape) : ∀ (v : s.Value) (a b : s.Refinement),
    s.refined (s.refined v a) b = s.refined v (s.refinementRefined a b) := by
  induction s with
  | nil => exact fun _ _ _ => rfl
  | plain α eq rest ih | optional α eq rest ih =>
    rintro ⟨field, v⟩ ⟨refinementA, a⟩ ⟨refinementB, b⟩
    simp only [refined, refinementRefined, ih]
    cases refinementB <;> rfl
  | refineable nested rest ihNested ih =>
    rintro ⟨field, v⟩ ⟨refinementA, a⟩ ⟨refinementB, b⟩
    simp only [refined, refinementRefined, ihNested, ih]

theorem refined_of_isEmpty (s : Shape) : ∀ (v : s.Value) (r : s.Refinement), s.isEmpty r = true →
    s.refined v r = v := by
  induction s with
  | nil => exact fun _ _ _ => rfl
  | plain α eq rest ih | optional α eq rest ih =>
    rintro ⟨field, v⟩ ⟨refinement, r⟩ h
    simp only [isEmpty, Bool.and_eq_true, Option.isNone_iff_eq_none] at h
    obtain ⟨rfl, h⟩ := h
    simp only [refined, ih v r h]
  | refineable nested rest ihNested ih =>
    rintro ⟨field, v⟩ ⟨refinement, r⟩ h
    simp only [isEmpty, Bool.and_eq_true] at h
    simp only [refined, ihNested field refinement h.1, ih v r h.2]

/-- **What is there already** is what changes nothing. -/
theorem isSupersetOf_iff (s : Shape) : ∀ (v : s.Value) (r : s.Refinement),
    s.isSupersetOf v r = true ↔ s.refined v r = v := by
  induction s with
  | nil => exact fun _ _ => iff_of_true rfl rfl
  | plain α eq rest ih =>
    rintro ⟨field, v⟩ ⟨refinement, r⟩
    cases refinement with
    | none => simp [isSupersetOf, refined, ih]
    | some value =>
      simp only [isSupersetOf, refined, Prod.mk.injEq, ← ih]
      by_cases h : field = value
      · simp [h]
      · simp [h, Ne.symm h]
  | optional α eq rest ih =>
    rintro ⟨field, v⟩ ⟨refinement, r⟩
    cases refinement with
    | none => simp [isSupersetOf, refined, ih]
    | some value =>
      simp only [isSupersetOf, refined, Prod.mk.injEq, ← ih]
      by_cases h : field = some value
      · simp [h]
      · simp [h, Ne.symm h]
  | refineable nested rest ihNested ih =>
    rintro ⟨field, v⟩ ⟨refinement, r⟩
    simp only [isSupersetOf, refined, Prod.mk.injEq, ← ih, ← ihNested]
    cases nested.isSupersetOf field refinement <;> simp

theorem lawful (s : Shape) :
    LawfulRefineable s.refine s.refined s.isSupersetOf s.refinementRefined s.isEmpty :=
  ⟨s.refined_refined, s.refine_eq, s.refined_of_isEmpty, s.isSupersetOf_iff⟩

/-! ### Refinements -/

theorem refinementRefine_eq (s : Shape) : ∀ a b : s.Refinement,
    s.refinementRefine a b = s.refinementRefined a b := by
  induction s with
  | nil => exact fun _ _ => rfl
  | plain α eq rest ih | optional α eq rest ih =>
    rintro ⟨fieldA, a⟩ ⟨fieldB, b⟩
    simp only [refinementRefine, refinementRefined, ih]
  | refineable nested rest ihNested ih =>
    rintro ⟨fieldA, a⟩ ⟨fieldB, b⟩
    simp only [refinementRefine, refinementRefined, ihNested, ih]

theorem refinementRefined_refinementRefined (s : Shape) : ∀ r a b : s.Refinement,
    s.refinementRefined (s.refinementRefined r a) b =
      s.refinementRefined r (s.refinementRefined a b) := by
  induction s with
  | nil => exact fun _ _ _ => rfl
  | plain α eq rest ih | optional α eq rest ih =>
    rintro ⟨field, r⟩ ⟨fieldA, a⟩ ⟨fieldB, b⟩
    simp only [refinementRefined, ih]
    cases fieldB <;> rfl
  | refineable nested rest ihNested ih =>
    rintro ⟨field, r⟩ ⟨fieldA, a⟩ ⟨fieldB, b⟩
    simp only [refinementRefined, ihNested, ih]

theorem refinementRefined_of_isEmpty (s : Shape) : ∀ a b : s.Refinement, s.isEmpty b = true →
    s.refinementRefined a b = a := by
  induction s with
  | nil => exact fun _ _ _ => rfl
  | plain α eq rest ih | optional α eq rest ih =>
    rintro ⟨fieldA, a⟩ ⟨fieldB, b⟩ h
    simp only [isEmpty, Bool.and_eq_true, Option.isNone_iff_eq_none] at h
    obtain ⟨rfl, h⟩ := h
    simp only [refinementRefined, ih a b h]
  | refineable nested rest ihNested ih =>
    rintro ⟨fieldA, a⟩ ⟨fieldB, b⟩ h
    simp only [isEmpty, Bool.and_eq_true] at h
    simp only [refinementRefined, ihNested fieldA fieldB h.1, ih a b h.2]

theorem refinementIsSupersetOf_iff (s : Shape) : ∀ a b : s.Refinement,
    s.refinementIsSupersetOf a b = true ↔ s.refinementRefined a b = a := by
  induction s with
  | nil => exact fun _ _ => iff_of_true rfl rfl
  | plain α eq rest ih | optional α eq rest ih =>
    rintro ⟨fieldA, a⟩ ⟨fieldB, b⟩
    cases fieldB with
    | none => simp [refinementIsSupersetOf, refinementRefined, ih]
    | some value =>
      simp only [refinementIsSupersetOf, refinementRefined, Prod.mk.injEq, ← ih]
      by_cases h : fieldA = some value
      · simp [h]
      · simp [h, Ne.symm h]
  | refineable nested rest ihNested ih =>
    rintro ⟨fieldA, a⟩ ⟨fieldB, b⟩
    simp only [refinementIsSupersetOf, refinementRefined, Prod.mk.injEq, ← ih, ← ihNested]
    cases nested.refinementIsSupersetOf fieldA fieldB <;> simp

theorem refinement_lawful (s : Shape) : LawfulRefineable s.refinementRefine s.refinementRefined
    s.refinementIsSupersetOf s.refinementRefined s.isEmpty :=
  ⟨s.refinementRefined_refinementRefined, s.refinementRefine_eq, s.refinementRefined_of_isEmpty,
    s.refinementIsSupersetOf_iff⟩

/-- With the difference, what is in `a` is there. -/
theorem refinementRefined_subtract (s : Shape) : ∀ a r : s.Refinement,
    s.refinementRefined (s.refinementRefined r (s.refinementSubtract a r)) a =
      s.refinementRefined r (s.refinementSubtract a r) := by
  induction s with
  | nil => exact fun _ _ => rfl
  | plain α eq rest ih | optional α eq rest ih =>
    rintro ⟨fieldA, a⟩ ⟨field, r⟩
    simp only [refinementRefined, refinementSubtract, ih]
    by_cases h : fieldA = field
    · rw [if_pos h, h]
      cases field <;> rfl
    · rw [if_neg h]
      cases fieldA <;> rfl
  | refineable nested rest ihNested ih =>
    rintro ⟨fieldA, a⟩ ⟨field, r⟩
    simp only [refinementRefined, refinementSubtract, ihNested, ih]

/-- **The difference** of `a` and `r` makes of `r` a superset of `a`. -/
theorem isSupersetOf_refined_subtract (s : Shape) (a r : s.Refinement) :
    s.refinementIsSupersetOf (s.refinementRefined r (s.refinementSubtract a r)) a = true :=
  (s.refinementIsSupersetOf_iff _ _).mpr (s.refinementRefined_subtract a r)

end Shape

/-! ### Cascades -/

namespace Cascade

variable {s : Shape}

/-- Merged into one and then applied, or one after another. -/
theorem refined_foldl (rs : List s.Refinement) : ∀ (v : s.Value) (r : s.Refinement),
    s.refined v (rs.foldl s.refinementRefine r) = rs.foldl s.refined (s.refined v r) := by
  induction rs with
  | nil => exact fun _ _ => rfl
  | cons a rs ih =>
    intro v r
    rw [List.foldl_cons, List.foldl_cons, ih, s.refinementRefine_eq, s.refined_refined]

theorem filterMap_slots (cascade : Cascade s) :
    cascade.slots.filterMap id = cascade.base :: (cascade.slots.drop 1).filterMap id := by
  obtain ⟨slots, hasBase⟩ := cascade
  cases slots with
  | nil => cases hasBase
  | cons slot others =>
    cases slot with
    | none => cases hasBase
    | some r => rfl

/-- **A cascade** is its filled slots one after another. -/
theorem fromCascade_eq (default : s.Value) (cascade : Cascade s) :
    cascade.fromCascade default = (cascade.slots.filterMap id).foldl s.refined default := by
  rw [fromCascade, merged, refined_foldl, filterMap_slots, List.foldl_cons]

end Cascade

/-- **Refinements compose**, for every shape. -/
theorem refinements_compose (s : Shape) :
    Shape.LawfulRefineable s.refine s.refined s.isSupersetOf s.refinementRefined s.isEmpty ∧
      Shape.LawfulRefineable s.refinementRefine s.refinementRefined s.refinementIsSupersetOf
        s.refinementRefined s.isEmpty ∧
      (∀ a r : s.Refinement,
        s.refinementIsSupersetOf (s.refinementRefined r (s.refinementSubtract a r)) a = true) ∧
      ∀ (default : s.Value) (cascade : Cascade s),
        cascade.fromCascade default = (cascade.slots.filterMap id).foldl s.refined default :=
  ⟨s.lawful, s.refinement_lawful, s.isSupersetOf_refined_subtract, Cascade.fromCascade_eq⟩

end FcGpui
