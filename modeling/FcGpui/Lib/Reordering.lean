import FcGpui.Lib.Sorting

/-!
# Orders that a sort keeps

A sort that is unspecified on ties may still keep the order of the elements in
which one is interested.  `KeepsOrder` says so of a list and a rearrangement of
it: the elements can be told to have gone to places that keep the order of those
that are related.  Equal elements cannot be told apart, so they keep their order
in every rearrangement.

`settle_keepsOrder_iff` says when a guarded sort keeps the order, whatever it does
with ties: the keys ascend already, or related elements are equal.
-/

namespace FcGpui

variable {α κ : Type} [LinearOrder κ] {related : Nat → Nat → Prop} {l out : List α}

/-- The elements go to places that keep the order of the related ones. -/
structure Places (related : Nat → Nat → Prop) (l out : List α) (place : Nat → Nat) : Prop where
  at_place : ∀ i x, l[i]? = some x → out[place i]? = some x
  apart : ∀ i j, i < j → j < l.length → place i ≠ place j
  ordered : ∀ i j, i < j → j < l.length → related i j → place i < place j

/-- **The order of related elements is kept.** -/
def KeepsOrder (related : Nat → Nat → Prop) (l out : List α) : Prop :=
  out.Perm l ∧ ∃ place, Places related l out place

theorem KeepsOrder.refl (related : Nat → Nat → Prop) (l : List α) : KeepsOrder related l l :=
  ⟨.refl l, id, fun _ _ h => h, fun _ _ h _ => h.ne, fun _ _ h _ _ => h⟩

/-- The place of an element, after another one has been put in at `k`. -/
def skip (k m : Nat) : Nat := if m < k then m else m + 1

theorem skip_lt {k m n : Nat} (h : m < n) : skip k m < skip k n := by
  unfold skip
  split <;> split <;> omega

theorem skip_ne (k m : Nat) : skip k m ≠ k := by
  unfold skip
  split <;> omega

theorem getElem?_skip (before after : List α) (x : α) (m : Nat) :
    (before ++ x :: after)[skip before.length m]? = (before ++ after)[m]? := by
  unfold skip
  split
  · rename_i hlt
    rw [List.getElem?_append_left hlt, List.getElem?_append_left hlt]
  · rename_i hle
    rw [List.getElem?_append_right (by omega), List.getElem?_append_right (by omega),
      show m + 1 - before.length = m - before.length + 1 by omega, List.getElem?_cons_succ]

/-- **Equal elements keep their order** in every rearrangement. -/
theorem exists_places_of_perm (hperm : out.Perm l) :
    ∃ place, Places (fun i j => l[i]? = l[j]?) l out place := by
  classical
  induction l generalizing out with
  | nil => exact ⟨id, by simp, by simp, by simp⟩
  | cons x l ih =>
    have hmem : x ∈ out := hperm.mem_iff.mpr List.mem_cons_self
    obtain ⟨before, after, rfl, hbefore⟩ := List.eq_append_cons_of_mem hmem
    have hrest : (before ++ after).Perm l := List.Perm.cons_inv (List.perm_middle.symm.trans hperm)
    obtain ⟨place, hplace⟩ := ih hrest
    refine ⟨fun i => if i = 0 then before.length else skip before.length (place (i - 1)), ?_, ?_, ?_⟩
    · intro i y hy
      cases i with
      | zero =>
        obtain rfl := Option.some.inj hy
        simp
      | succ i =>
        simp only [Nat.succ_ne_zero, if_false, Nat.add_sub_cancel, getElem?_skip]
        exact hplace.at_place i y hy
    · intro i j hij hj
      obtain ⟨j, rfl⟩ : ∃ k, j = k + 1 := ⟨j - 1, by omega⟩
      cases i with
      | zero => simpa using (skip_ne before.length (place j)).symm
      | succ i =>
        simp only [Nat.succ_ne_zero, if_false, Nat.add_sub_cancel]
        intro heq
        rcases Nat.lt_or_gt_of_ne (hplace.apart i j (by omega) (by simpa using hj)) with hlt | hgt
        · exact absurd heq (skip_lt hlt).ne
        · exact absurd heq (skip_lt hgt).ne'
    · intro i j hij hj hsame
      obtain ⟨j, rfl⟩ : ∃ k, j = k + 1 := ⟨j - 1, by omega⟩
      have hj : j < l.length := by simpa using hj
      cases i with
      | zero =>
        -- the first element is put in before all that are equal to it
        have hfound : (before ++ after)[place j]? = some x := hplace.at_place j x hsame.symm
        have hbehind : before.length ≤ place j := by
          by_contra hlt
          rw [List.getElem?_append_left (Nat.lt_of_not_le hlt)] at hfound
          exact hbefore (List.mem_of_getElem? hfound)
        simp only [if_true, Nat.succ_ne_zero, if_false, Nat.add_sub_cancel, skip]
        split <;> omega
      | succ i =>
        simp only [Nat.succ_ne_zero, if_false, Nat.add_sub_cancel]
        exact skip_lt (hplace.ordered i j (by omega) hj hsame)

/-- A sort that puts `y` before `x`. -/
theorem exists_sort_reorders {key : α → κ} (l : List α) {x y : α} (hne : x ≠ y) (hkey : key x = key y) :
    ∃ out : List α, out.Perm l ∧ SortedBy key out ∧
      ∀ m n : Nat, out[m]? = some x → out[n]? = some y → n < m := by
  classical
  let late : α → κ ×ₗ Nat := fun a => toLex (key a, if a = y then 0 else 1)
  have hsorted := (UnstableSort.byInsertion late).sorted l
  refine ⟨(UnstableSort.byInsertion late).run l, (UnstableSort.byInsertion late).perm l, ?_, ?_⟩
  · refine hsorted.imp fun {a b} hle => ?_
    rcases Prod.Lex.toLex_le_toLex.mp hle with hlt | ⟨heq, -⟩
    · exact le_of_lt hlt
    · exact le_of_eq heq
  · intro m n hm hn
    by_contra hle
    have hlt : late x ≤ late y := by
      obtain ⟨hml, hmx⟩ := List.getElem?_eq_some_iff.mp hm
      obtain ⟨hnl, hny⟩ := List.getElem?_eq_some_iff.mp hn
      rcases Nat.lt_or_eq_of_le (Nat.le_of_not_lt hle) with hlt | heq
      · have hpair := List.pairwise_iff_getElem.mp hsorted m n hml hnl hlt
        rwa [hmx, hny] at hpair
      · subst heq
        exact absurd (Option.some.inj (hm.symm.trans hn)) hne
    rcases Prod.Lex.toLex_le_toLex.mp hlt with hlt | ⟨-, hflag⟩
    · exact absurd hkey hlt.ne
    · rw [if_neg hne, if_pos rfl] at hflag
      omega

/-- **A guarded sort keeps an order, whatever it does with ties**, just if the keys ascend already or
related elements are equal. -/
theorem settle_keepsOrder_iff {key : α → κ}
    (hrelated : ∀ i j x y, i < j → related i j → l[i]? = some x → l[j]? = some y → key x = key y) :
    (∀ s : UnstableSort key, KeepsOrder related l (s.settle l)) ↔
      SortedBy key l ∨ ∀ i j x y, i < j → related i j → l[i]? = some x → l[j]? = some y → x = y := by
  constructor
  · intro h
    by_cases hs : SortedBy key l
    · exact Or.inl hs
    · refine Or.inr fun i j x y hij hrel hx hy => ?_
      by_contra hne
      obtain ⟨out, hperm, hsorted, hreorders⟩ := exists_sort_reorders l hne (hrelated i j x y hij hrel hx hy)
      obtain ⟨s, hrun⟩ := UnstableSort.exists_run_eq hperm hsorted
      obtain ⟨-, place, hplace⟩ := h s
      rw [UnstableSort.settle, if_neg hs, hrun] at hplace
      have hj : j < l.length := (List.getElem?_eq_some_iff.mp hy).1
      have hbefore := hplace.ordered i j hij hj hrel
      have hbehind := hreorders _ _ (hplace.at_place i x hx) (hplace.at_place j y hy)
      omega
  · rintro (hs | hequal) s
    · rw [UnstableSort.settle, if_pos hs]
      exact .refl related l
    · obtain ⟨place, hplace⟩ := exists_places_of_perm (s.settle_perm l)
      refine ⟨s.settle_perm l, place, hplace.at_place, hplace.apart, fun i j hij hj hrel => ?_⟩
      refine hplace.ordered i j hij hj ?_
      have hi : i < l.length := hij.trans hj
      rw [List.getElem?_eq_getElem hi, List.getElem?_eq_getElem hj,
        hequal i j _ _ hij hrel (List.getElem?_eq_getElem hi) (List.getElem?_eq_getElem hj)]

end FcGpui
