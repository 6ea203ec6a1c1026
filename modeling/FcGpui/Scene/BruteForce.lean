import FcGpui.Scene.BoundsTreeInsert

/-!
# The bounds tree against brute force

The orders that a bounds tree hands out are those of the brute-force
specification, which looks at all rectangles inserted before (`bruteForce`).
Draw orders are `u32`, so this is so just as long as the specification stays
below `2 ^ 32`.

**Main result.**  `insertAll_eq_bruteForce_iff`.
-/

namespace FcGpui.BoundsTree

variable {U : Type} [AddCommGroup U] [LinearOrder U]

/-- The orders of rectangles that are inserted one after another. -/
def insertAll (t : BoundsTree U) : List (Bounds U) → List Nat
  | [] => []
  | b :: bs => (t.insert b).1 :: insertAll (t.insert b).2 bs

/-- The largest order of a rectangle that overlaps the new one. -/
def maxIntersecting (quads : List (Bounds U × Nat)) (b : Bounds U) : Nat :=
  ((quads.filter fun quad => quad.1.intersects b).map Prod.snd).foldr max 0

/-- The specification: what `test_random_iterations` expects. -/
def bruteForce (quads : List (Bounds U × Nat)) : List (Bounds U) → List Nat
  | [] => []
  | b :: bs =>
    let ordering := maxIntersecting quads b + 1
    ordering :: bruteForce (quads ++ [(b, ordering)]) bs

variable {t : BoundsTree U} {quads : List (Bounds U × Nat)}

/-- The tree holds the rectangles of the list with their orders. -/
def Holds (t : BoundsTree U) (quads : List (Bounds U × Nat)) : Prop :=
  ∀ b o, t.Leaves b o ↔ (b, o) ∈ quads

theorem le_maxIntersecting {b b' : Bounds U} {o : Nat} (hmem : (b', o) ∈ quads) (h : b.intersects b' = true) :
    o ≤ maxIntersecting quads b := by
  have hall : ∀ l : List Nat, ∀ n ∈ l, n ≤ l.foldr max 0 := by
    intro l
    induction l with
    | nil => simp
    | cons m l ih =>
      intro n hn
      rcases List.mem_cons.mp hn with rfl | hn
      · exact le_max_left _ _
      · exact (ih n hn).trans (le_max_right _ _)
  refine hall _ o (List.mem_map.mpr ⟨(b', o), List.mem_filter.mpr ⟨hmem, ?_⟩, rfl⟩)
  rw [Bounds.intersects_comm]
  exact h

theorem maxIntersecting_attained (quads : List (Bounds U × Nat)) (b : Bounds U) : maxIntersecting quads b = 0 ∨
    ∃ b', (b', maxIntersecting quads b) ∈ quads ∧ b.intersects b' = true := by
  have hattained : ∀ l : List Nat, l.foldr max 0 = 0 ∨ l.foldr max 0 ∈ l := by
    intro l
    induction l with
    | nil => exact Or.inl rfl
    | cons m l ih =>
      rw [List.foldr_cons]
      rcases max_choice m (l.foldr max 0) with hm | hl
      · rw [hm]
        exact Or.inr List.mem_cons_self
      · rw [hl]
        exact ih.imp_right fun hmem => List.mem_cons_of_mem m hmem
  refine (hattained _).imp_right fun hmem => ?_
  obtain ⟨⟨b', o⟩, hquad, ho⟩ := List.mem_map.mp hmem
  obtain ⟨hquad, hintersects⟩ := List.mem_filter.mp hquad
  refine ⟨b', ?_, ?_⟩
  · rw [maxIntersecting, ← ho]
    exact hquad
  · rw [Bounds.intersects_comm]
    exact hintersects

theorem findMaxOrdering_eq (ht : t.Wf) (hquads : t.Holds quads) (b : Bounds U) :
    t.findMaxOrdering b = maxIntersecting quads b := by
  obtain ⟨hupper, hattained⟩ := findMaxOrdering_spec ht b
  apply le_antisymm
  · rcases hattained with hzero | ⟨b', hleaf, hintersects⟩
    · rw [hzero]
      exact Nat.zero_le _
    · exact le_maxIntersecting ((hquads _ _).mp hleaf) hintersects
  · rcases maxIntersecting_attained quads b with hzero | ⟨b', hmem, hintersects⟩
    · rw [hzero]
      exact Nat.zero_le _
    · exact hupper b' _ ((hquads _ _).mpr hmem) hintersects

theorem holds_insert (ht : t.Wf) (hquads : t.Holds quads) (b : Bounds U) :
    (t.insert b).2.Holds (quads ++ [(b, (t.insert b).1)]) := by
  intro b' o
  rw [insert_leaves ht, hquads, List.mem_append, List.mem_singleton, Prod.mk.injEq]

/-- An insertion returns what brute force does, as a `u32`. -/
theorem insert_eq (ht : t.Wf) (hquads : t.Holds quads) (b : Bounds U) :
    (t.insert b).1 = (maxIntersecting quads b + 1) % u32Size := by
  rw [← findMaxOrdering_eq ht hquads b]
  rfl

theorem insertAll_eq_bruteForce (ht : t.Wf) (hquads : t.Holds quads) (bs : List (Bounds U)) :
    t.insertAll bs = bruteForce quads bs ↔ ∀ o ∈ bruteForce quads bs, o < u32Size := by
  induction bs generalizing t quads with
  | nil => simp [insertAll, bruteForce]
  | cons b bs ih =>
    have hinsert := insert_eq ht hquads b
    have hholds := holds_insert ht hquads b
    rw [insertAll, bruteForce, List.cons.injEq, List.forall_mem_cons]
    by_cases hlt : maxIntersecting quads b + 1 < u32Size
    · rw [Nat.mod_eq_of_lt hlt] at hinsert
      rw [hinsert] at hholds ⊢
      rw [ih (insert_wf ht b) hholds]
      exact and_congr_left fun _ => iff_of_true rfl hlt
    · have hne : (t.insert b).1 ≠ maxIntersecting quads b + 1 := by
        rw [hinsert]
        exact fun heq => hlt (heq ▸ Nat.mod_lt _ (by decide))
      exact iff_of_false (fun h => hne h.1) fun h => hlt h.1

/-- **Insertion equals the brute-force specification** as long as its orders are `u32`. -/
theorem insertAll_eq_bruteForce_iff (t : BoundsTree U) (bs : List (Bounds U)) :
    t.clear.insertAll bs = bruteForce [] bs ↔ ∀ o ∈ bruteForce [] bs, o < u32Size := by
  refine insertAll_eq_bruteForce (wf_clear t) (fun b o => ?_) bs
  exact iff_of_false (not_leaves_clear t b o) List.not_mem_nil

/-! ### Too many rectangles over each other -/

/-- Rectangles that all overlap get the orders one after another. -/
theorem bruteForce_replicate {b : Bounds U} (hb : b.intersects b = true) (n : Nat) :
    ∀ quads : List (Bounds U × Nat), (∀ quad ∈ quads, quad.1 = b) →
      bruteForce quads (List.replicate n b) = List.range' (maxIntersecting quads b + 1) n := by
  induction n with
  | zero => exact fun _ _ => rfl
  | succ n ih =>
    intro quads hquads
    have hmax : maxIntersecting (quads ++ [(b, maxIntersecting quads b + 1)]) b = maxIntersecting quads b + 1 := by
      apply le_antisymm
      · rcases maxIntersecting_attained (quads ++ [(b, maxIntersecting quads b + 1)]) b with hzero | ⟨b', hmem, -⟩
        · omega
        · rcases List.mem_append.mp hmem with hmem | hmem
          · have hb' : b' = b := hquads _ hmem
            exact (le_maxIntersecting hmem (hb' ▸ hb)).trans (Nat.le_succ _)
          · exact (Prod.mk.inj (List.mem_singleton.mp hmem)).2.le
      · exact le_maxIntersecting (List.mem_append_right _ (List.mem_singleton_self _)) hb
    rw [List.replicate_succ, bruteForce, List.range'_succ, ih, hmax]
    intro quad hmem
    rcases List.mem_append.mp hmem with hmem | hmem
    · exact hquads quad hmem
    · rw [List.mem_singleton.mp hmem]

theorem not_insertAll_eq_bruteForce :
    ¬ ∀ bs : List (Bounds Int), (⟨[], none, none⟩ : BoundsTree Int).clear.insertAll bs = bruteForce [] bs := by
  intro h
  have hb : (⟨⟨0, 0⟩, ⟨1, 1⟩⟩ : Bounds Int).intersects ⟨⟨0, 0⟩, ⟨1, 1⟩⟩ = true := by decide
  have hall := h (List.replicate u32Size ⟨⟨0, 0⟩, ⟨1, 1⟩⟩)
  have hlast := (insertAll_eq_bruteForce (wf_clear _) (fun b o => iff_of_false (not_leaves_clear _ b o)
    List.not_mem_nil) _).mp hall u32Size
  rw [bruteForce_replicate hb u32Size [] (by simp), List.mem_range'_1] at hlast
  exact lt_irrefl _ (hlast ⟨by decide, by decide⟩)

end FcGpui.BoundsTree
