import Mathlib

/-!
# Lists compared at the first difference

`List.compareLex` compares two lists element by element, and the first two elements that compare
as different decide.  The comparison of lists is symmetric, and it tells lists apart, if that of
the elements does; the library has that.  Here the elements are not assumed to be in an order: a
comparison which is not transitive may still be used.

* `compareLex_append_cons`: two elements behind a common beginning decide.
* `exists_cycle`: if the comparison of lists is not transitive, then three elements behind a
  common beginning show it.
-/

namespace FcGpui

section FirstDifference

variable {α : Type} {cmp : α → α → Ordering} [Std.OrientedCmp cmp]

/-- What is in front of both is skipped. -/
theorem compareLex_append (as bs front : List α) :
    (front ++ as).compareLex cmp (front ++ bs) = as.compareLex cmp bs := by
  induction front with
  | nil => rfl
  | cons a front ih =>
    have hself : cmp a a = .eq := Std.ReflCmp.compare_self
    rw [List.cons_append, List.cons_append, List.compareLex_cons_cons, hself, ih]
    rfl

/-- **The first difference decides.** -/
theorem compareLex_append_cons (as bs front : List α) {x y : α} (hne : cmp x y ≠ .eq) :
    (front ++ x :: as).compareLex cmp (front ++ y :: bs) = cmp x y := by
  rw [compareLex_append, List.compareLex_cons_cons]
  cases hxy : cmp x y with
  | lt => rfl
  | gt => rfl
  | eq => exact absurd hxy hne

variable [Std.LawfulEqCmp cmp]

/-- **Where transitivity fails for lists, it fails for elements** behind a common beginning. -/
theorem exists_cycle : ∀ {as bs cs : List α}, as.compareLex cmp bs ≠ .gt →
    bs.compareLex cmp cs ≠ .gt → as.compareLex cmp cs = .gt →
      ∃ front x y z as' bs' cs', as = front ++ x :: as' ∧ bs = front ++ y :: bs' ∧
        cs = front ++ z :: cs' ∧ cmp x y = .lt ∧ cmp y z = .lt ∧ cmp x z = .gt := by
  intro as
  induction as with
  | nil =>
    intro bs cs _ _ hac
    cases cs <;> cases hac
  | cons a as ih =>
    intro bs cs hab hbc hac
    cases bs with
    | nil => exact absurd rfl hab
    | cons b bs =>
      cases cs with
      | nil => exact absurd rfl hbc
      | cons c cs =>
        rw [List.compareLex_cons_cons] at hab hbc hac
        cases hxy : cmp a b with
        | gt =>
          rw [hxy] at hab
          exact absurd rfl hab
        | eq =>
          obtain rfl := Std.LawfulEqCmp.eq_of_compare hxy
          rw [hxy] at hab
          cases hyz : cmp a c with
          | gt =>
            rw [hyz] at hbc
            exact absurd rfl hbc
          | lt =>
            rw [hyz] at hac
            cases hac
          | eq =>
            obtain rfl := Std.LawfulEqCmp.eq_of_compare hyz
            rw [hyz] at hbc hac
            obtain ⟨front, x, y, z, as', bs', cs', rfl, rfl, rfl, hcycle⟩ := ih hab hbc hac
            exact ⟨a :: front, x, y, z, as', bs', cs', rfl, rfl, rfl, hcycle⟩
        | lt =>
          cases hyz : cmp b c with
          | gt =>
            rw [hyz] at hbc
            exact absurd rfl hbc
          | eq =>
            obtain rfl := Std.LawfulEqCmp.eq_of_compare hyz
            rw [hxy] at hac
            cases hac
          | lt =>
            cases hxz : cmp a c with
            | lt =>
              rw [hxz] at hac
              cases hac
            | eq =>
              obtain rfl := Std.LawfulEqCmp.eq_of_compare hxz
              have hyx : cmp b a = (cmp a b).swap := Std.OrientedCmp.eq_swap
              rw [hyx, hxy] at hyz
              cases hyz
            | gt => exact ⟨[], a, b, c, as, bs, cs, rfl, rfl, rfl, hxy, hyz, hxz⟩

end FirstDifference

end FcGpui
