import Mathlib

/-!
# Separated lists

A list of pieces with a separator between them, written as one list.  `Separated sep P`
says that the list is empty, or all pieces between the separators meet `P`; the pieces
are those of `List.splitOn`.

Where the empty piece does not meet `P`, cutting at a separator and gluing with one
keep the form (`separated_append_cons`).  `rfind` is the position of the last separator.
-/

namespace FcGpui

section Separated

variable {α : Type} [DecidableEq α] {sep : α} {P : List α → Prop} {s a b : List α}

/-- Empty, or pieces that meet `P`, with one `sep` between them. -/
def Separated (sep : α) (P : List α → Prop) (s : List α) : Prop :=
  s = [] ∨ ∀ c ∈ s.splitOn sep, P c

instance [DecidablePred P] : Decidable (Separated sep P s) :=
  inferInstanceAs (Decidable (s = [] ∨ ∀ c ∈ s.splitOn sep, P c))

theorem separated_nil : Separated sep P [] := .inl rfl

/-- One piece. -/
theorem separated_of_not_mem (hs : sep ∉ s) : Separated sep P s ↔ s = [] ∨ P s := by
  rw [Separated, List.splitOn_eq_singleton hs, List.forall_mem_singleton]

theorem forall_splitOn_iff (hP : ¬ P []) : (∀ c ∈ s.splitOn sep, P c) ↔ s ≠ [] ∧ Separated sep P s := by
  constructor
  · intro h
    refine ⟨?_, .inr h⟩
    rintro rfl
    exact hP (h [] (by simp))
  · rintro ⟨hne, h⟩
    exact h.resolve_left hne

/-- **Cutting at a separator**, and gluing with one. -/
theorem separated_append_cons (hP : ¬ P []) :
    Separated sep P (a ++ sep :: b) ↔
      (a ≠ [] ∧ Separated sep P a) ∧ (b ≠ [] ∧ Separated sep P b) := by
  rw [← forall_splitOn_iff hP, ← forall_splitOn_iff hP]
  have hne : a ++ sep :: b ≠ [] := List.append_ne_nil_of_right_ne_nil a (List.cons_ne_nil sep b)
  rw [Separated, or_iff_right hne, List.splitOn_append_cons_self, List.forall_mem_append]

/-- The position of the last `x`. -/
def rfind (x : α) (s : List α) : Option Nat := (s.reverse.idxOf? x).map fun ix => s.length - 1 - ix

theorem find_eq_none {x : α} : s.idxOf? x = none ↔ x ∉ s := List.idxOf?_eq_none_iff

theorem rfind_eq_none {x : α} : rfind x s = none ↔ x ∉ s := by
  rw [rfind, Option.map_eq_none_iff, List.idxOf?_eq_none_iff, List.mem_reverse]

/-- **The list, cut at the first `x`.** -/
theorem cut_of_find {x : α} {ix : Nat} (h : s.idxOf? x = some ix) :
    s = s.take ix ++ x :: (s.drop ix).drop 1 ∧ x ∉ s.take ix := by
  obtain ⟨hlt, hget, hbefore⟩ := List.idxOf?_eq_some_iff.mp h
  constructor
  · rw [List.drop_drop, ← hget, List.getElem_cons_drop, List.take_append_drop]
  · intro hmem
    obtain ⟨j, hj, heq⟩ := List.mem_take_iff_getElem.mp hmem
    exact hbefore j (by omega) heq

/-- **The list, cut at the last `x`.** -/
theorem cut_of_rfind {x : α} {ix : Nat} (h : rfind x s = some ix) :
    s = s.take ix ++ x :: (s.drop ix).drop 1 ∧ x ∉ (s.drop ix).drop 1 := by
  obtain ⟨jx, hjx, rfl⟩ := Option.map_eq_some_iff.mp h
  obtain ⟨hlt, hget, hbefore⟩ := List.idxOf?_eq_some_iff.mp hjx
  rw [List.length_reverse] at hlt
  rw [List.getElem_reverse] at hget
  constructor
  · rw [List.drop_drop, ← hget, List.getElem_cons_drop, List.take_append_drop]
  · intro hmem
    rw [List.drop_drop] at hmem
    obtain ⟨j, hj, heq⟩ := List.mem_drop_iff_getElem.mp hmem
    refine hbefore (s.length - 1 - (s.length - 1 - jx + 1 + j)) (by omega) ?_
    rw [List.getElem_reverse, ← heq]
    congr 1
    omega

end Separated

end FcGpui
