import Mathlib

/-!
# Sorted unions

`SortedUnion cmp vec items union` says that `union` is in strict order, has all of `vec`, something equal
to every item, and nothing else.  As no two elements of `union` are equal, an element of `vec` comes
before any item that is equal to it.

`addSorted` adds one item where it belongs, unless there is an equal one; adding items one after the other
to what is in strict order makes the union (`sortedUnion_foldl`).
-/

namespace FcGpui

universe u

variable {α : Type u} {cmp : α → α → Ordering} {a x : α} {l m : List α}

/-- In order, and no two equal. -/
def StrictlySorted (cmp : α → α → Ordering) (l : List α) : Prop := l.Pairwise fun a b => cmp a b = .lt

/-- All of `vec`, and of the items those that are not equal to what is there. -/
structure SortedUnion (cmp : α → α → Ordering) (vec items union : List α) : Prop where
  sorted : StrictlySorted cmp union
  existing : ∀ a ∈ vec, a ∈ union
  covers : ∀ x ∈ items, ∃ a ∈ union, cmp a x = .eq
  only : ∀ a ∈ union, a ∈ vec ∨ a ∈ items

def addSorted (cmp : α → α → Ordering) (x : α) : List α → List α
  | [] => [x]
  | a :: l =>
    match cmp a x with
    | .lt => a :: addSorted cmp x l
    | .eq => a :: l
    | .gt => x :: a :: l

theorem addSorted_cons_lt (h : cmp a x = .lt) : addSorted cmp x (a :: l) = a :: addSorted cmp x l := by
  rw [addSorted, h]

theorem addSorted_cons_eq (h : cmp a x = .eq) : addSorted cmp x (a :: l) = a :: l := by
  rw [addSorted, h]

theorem addSorted_cons_gt (h : cmp a x = .gt) : addSorted cmp x (a :: l) = x :: a :: l := by
  rw [addSorted, h]

/-- What comes before is passed over. -/
theorem addSorted_append (h : ∀ a ∈ l, cmp a x = .lt) : addSorted cmp x (l ++ m) = l ++ addSorted cmp x m := by
  induction l with
  | nil => rfl
  | cons a l ih =>
    rw [List.cons_append, addSorted_cons_lt (h a List.mem_cons_self),
      ih fun b hb => h b (List.mem_cons_of_mem a hb), List.cons_append]

theorem mem_addSorted {b : α} (h : b ∈ addSorted cmp x l) : b = x ∨ b ∈ l := by
  induction l with
  | nil => exact Or.inl (List.mem_singleton.mp h)
  | cons a l ih =>
    cases hcmp : cmp a x with
    | lt =>
      rw [addSorted_cons_lt hcmp] at h
      rcases List.mem_cons.mp h with rfl | h
      · exact Or.inr List.mem_cons_self
      · exact (ih h).imp_right (List.mem_cons_of_mem a)
    | eq =>
      rw [addSorted_cons_eq hcmp] at h
      exact Or.inr h
    | gt =>
      rw [addSorted_cons_gt hcmp] at h
      exact List.mem_cons.mp h

theorem subset_addSorted (cmp : α → α → Ordering) (x : α) (l : List α) : l ⊆ addSorted cmp x l := by
  induction l with
  | nil => exact List.nil_subset _
  | cons a l ih =>
    cases hcmp : cmp a x with
    | lt =>
      rw [addSorted_cons_lt hcmp]
      exact List.cons_subset_cons a ih
    | eq =>
      rw [addSorted_cons_eq hcmp]
      exact List.Subset.refl _
    | gt =>
      rw [addSorted_cons_gt hcmp]
      exact List.subset_cons_self _ _

section Ordered

variable [Std.TransCmp cmp]

theorem addSorted_covers (x : α) (l : List α) : ∃ a ∈ addSorted cmp x l, cmp a x = .eq := by
  induction l with
  | nil => exact ⟨x, List.mem_singleton.mpr rfl, Std.ReflCmp.compare_self⟩
  | cons a l ih =>
    cases hcmp : cmp a x with
    | lt =>
      obtain ⟨b, hb, heq⟩ := ih
      rw [addSorted_cons_lt hcmp]
      exact ⟨b, List.mem_cons_of_mem a hb, heq⟩
    | eq =>
      rw [addSorted_cons_eq hcmp]
      exact ⟨a, List.mem_cons_self, hcmp⟩
    | gt =>
      rw [addSorted_cons_gt hcmp]
      exact ⟨x, List.mem_cons_self, Std.ReflCmp.compare_self⟩

/-- What is there in an equal is not added. -/
theorem addSorted_eq_self (h : StrictlySorted cmp l) (ha : a ∈ l) (heq : cmp a x = .eq) :
    addSorted cmp x l = l := by
  induction l with
  | nil => exact absurd ha List.not_mem_nil
  | cons b l ih =>
    obtain ⟨hfirst, hrest⟩ := List.pairwise_cons.mp h
    rcases List.mem_cons.mp ha with rfl | ha
    · exact addSorted_cons_eq heq
    · rw [addSorted_cons_lt (Std.TransCmp.lt_of_lt_of_eq (hfirst a ha) heq), ih hrest ha]

theorem strictlySorted_addSorted (h : StrictlySorted cmp l) : StrictlySorted cmp (addSorted cmp x l) := by
  induction l with
  | nil => exact List.pairwise_singleton _ x
  | cons a l ih =>
    obtain ⟨hfirst, hrest⟩ := List.pairwise_cons.mp h
    cases hcmp : cmp a x with
    | lt =>
      rw [addSorted_cons_lt hcmp]
      refine List.pairwise_cons.mpr ⟨fun b hb => ?_, ih hrest⟩
      rcases mem_addSorted hb with rfl | hb
      · exact hcmp
      · exact hfirst b hb
    | eq =>
      rw [addSorted_cons_eq hcmp]
      exact h
    | gt =>
      rw [addSorted_cons_gt hcmp]
      have hxa : cmp x a = .lt := Std.OrientedCmp.lt_of_gt hcmp
      refine List.pairwise_cons.mpr ⟨fun b hb => ?_, h⟩
      rcases List.mem_cons.mp hb with rfl | hb
      · exact hxa
      · exact Std.TransCmp.lt_trans hxa (hfirst b hb)

/-- **Adding one after the other** makes the union. -/
theorem sortedUnion_foldl (items : List α) : ∀ {vec : List α}, StrictlySorted cmp vec →
    SortedUnion cmp vec items (items.foldl (fun l x => addSorted cmp x l) vec) := by
  induction items with
  | nil =>
    intro vec h
    exact ⟨h, fun a ha => ha, fun x hx => absurd hx List.not_mem_nil, fun a ha => Or.inl ha⟩
  | cons x items ih =>
    intro vec h
    have hrest := ih (strictlySorted_addSorted (x := x) h)
    refine ⟨hrest.sorted, fun a ha => hrest.existing a (subset_addSorted cmp x vec ha), ?_, ?_⟩
    · intro y hy
      rcases List.mem_cons.mp hy with rfl | hy
      · obtain ⟨a, ha, heq⟩ : ∃ a ∈ addSorted cmp y vec, cmp a y = .eq := addSorted_covers y vec
        exact ⟨a, hrest.existing a ha, heq⟩
      · exact hrest.covers y hy
    · intro a ha
      rcases hrest.only a ha with ha | ha
      · rcases mem_addSorted ha with rfl | ha
        · exact Or.inr List.mem_cons_self
        · exact Or.inl ha
      · exact Or.inr (List.mem_cons_of_mem x ha)

end Ordered

end FcGpui
