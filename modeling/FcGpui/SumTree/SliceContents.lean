import FcGpui.SumTree.Boundary

/-!
# What a slice holds

A slice collects the items that the cursor walks over, from parts of leaves and whole
subtrees.  What `SliceSeekAggregate` has collected at any time is just that
(`slice_collects`), so a slice holds the items between the place where the cursor was and
the one where a seek forward would have left it; the summary of these items is collected
by `SummarySeekAggregate` in the same way.

**Main result.**  `slice_contents`: that is so for every reachable cursor that has an item
or has not been moved, and slices taken one after another, with the suffix behind them,
hold all items.
-/

namespace FcGpui

namespace SumTree

variable {T S D E : Type} [Summary S] [Item T S] [Dimension D S] [Dimension E S] {P R : Prop}

open Summary

theorem summary_collects [LawfulSummary S] [LawfulDimension E S] (hP : P) :
    (SeekAggregate.summary E T S).Collects P fun a items => a = positionAfter items where
  pushTree := by
    rintro a items t rfl ht
    exact ⟨_, rfl, addSummary_tree ht hP items⟩
  leaf := by
    rintro a items leafItems rfl -
    refine ⟨_, rfl, ?_⟩
    rw [positionAfter_append]
    show List.foldl _ (positionAfter items) leafItems = _
    rw [List.foldl_map]
    rfl

theorem addSummary_zero_tree [LawfulSummary S] [LawfulDimension E S] {t : SumTree T S} (h : t.Valid True) :
    Dimension.addSummary (Dimension.zero S : E) t.summary = positionAfter t.toList := by
  rcases h with rfl | h
  · exact LawfulDimension.addSummary_zero
  · exact addSummary_tree h trivial []

namespace Cursor

variable {root t : SumTree T S} {passed remaining : List T} {c c' : Cursor T S D} {target : SeekTarget D}
  {bias : Bias}

/-- Slices up to the targets in turn, and what is left at the end. -/
def slices (c : Cursor T S D) : List (SeekTarget D × Bias) → Option (List (SumTree T S))
  | [] => c.suffix.map fun r => [r.1]
  | (target, bias) :: targets =>
    (c.slice target bias).bind fun r => (slices r.2 targets).map fun trees => r.1 :: trees

section Lawful

variable (hlaw : R → P ∧ LawfulSummary S ∧ LawfulDimension D S) (hlawful : P → LawfulSummary S)

include hlaw hlawful

theorem slice_ready (hroot : root.Valid P) (hready : Ready R root c passed remaining)
    {target : SeekTarget D} (hcmp : target.cmp c.position ≠ .lt) (bias : Bias) :
    ∃ found slice c' crossed remaining', c.slice target bias = some (slice, c') ∧
      c.seekForward target bias = some (found, c') ∧
      Sought R root target bias c passed found c' crossed remaining' ∧
      slice.Valid P ∧ slice.toList = crossed := by
  obtain ⟨found, c', a', crossed, remaining', hseek, hsought, hsound, hlist⟩ :=
    seekInternal_finds bias hlaw (slice_collects hlawful) hroot hready hcmp
      (a := ⟨.new, [], [], zero⟩) ⟨⟨Or.inl rfl, rfl, rfl, rfl⟩, rfl⟩
  refine ⟨found, a'.tree, c', crossed, remaining', ?_, ?_, hsought, hsound.tree, hlist⟩
  · rw [slice, hseek]
    rfl
  · rw [seekForward, seekInternal_unit hseek]
    rfl

theorem suffix_ready (hroot : root.Valid P) (hready : Ready R root c passed remaining) :
    ∃ suffix c', c.suffix = some (suffix, c') ∧ suffix.Valid P ∧ suffix.toList = remaining := by
  obtain ⟨found, slice, c', crossed, remaining', hslice, -, hsought, hvalid, hlist⟩ :=
    slice_ready hlaw hlawful hroot hready (by simp [SeekTarget.end] : SeekTarget.end.cmp c.position ≠ .lt) .right
  refine ⟨slice, c', hslice, hvalid, ?_⟩
  have hnil : remaining' = [] := by
    cases remaining' with
    | nil => rfl
    | cons item remaining' =>
      have hstops := hsought.stops item rfl
      simp [passes, SeekTarget.end] at hstops
  have hitems := hready.toList.symm.trans hsought.stands.toList
  rw [hnil, List.append_nil] at hitems
  rw [hlist]
  exact (List.append_cancel_left hitems).symm

/-- **Slices one after another** hold what remains. -/
theorem slices_ready (hroot : root.Valid P) (targets : List (SeekTarget D × Bias)) :
    ∀ {c : Cursor T S D} {passed remaining : List T} {trees : List (SumTree T S)},
      Ready R root c passed remaining → c.slices targets = some trees → toListAll trees = remaining := by
  induction targets with
  | nil =>
    intro c passed remaining trees hready h
    obtain ⟨suffix, c', hsuffix, -, hlist⟩ := suffix_ready hlaw hlawful hroot hready
    rw [slices, hsuffix] at h
    cases h
    rw [toListAll_singleton, hlist]
  | cons pair targets ih =>
    intro c passed remaining trees hready h
    obtain ⟨target, bias⟩ := pair
    obtain ⟨⟨slice, c'⟩, hslice, h⟩ := Option.bind_eq_some_iff.mp h
    obtain ⟨rest, hrest, rfl⟩ := Option.map_eq_some_iff.mp h
    have hcmp : target.cmp c.position ≠ .lt := by
      intro hlt
      rw [Cursor.slice, seekInternal, if_pos hlt] at hslice
      cases hslice
    obtain ⟨found, slice₁, c₁, crossed, remaining', hslice₁, -, hsought, -, hlist⟩ :=
      slice_ready hlaw hlawful hroot hready hcmp bias
    cases hslice₁.symm.trans hslice
    have hitems := hready.toList.symm.trans hsought.stands.toList
    rw [List.append_assoc] at hitems
    rw [toListAll, hlist, ih (.stands hsought.stands) hrest]
    exact (List.append_cancel_left hitems).symm

end Lawful

theorem index_ofIndex {items : List T} {i : Nat} (h : i ≤ items.length) :
    (Place.ofIndex items.length i).index items = i := by
  unfold Place.ofIndex
  split
  · rfl
  · rename_i hend
    exact le_antisymm (not_lt.mp hend) h

omit [Summary S] in
theorem Stands.at_index (h : Stands R root c passed remaining) :
    ∃ p, At R root c p ∧ p.index root.toList = passed.length :=
  ⟨_, .stands h, index_ofIndex h.length_le⟩

omit [Summary S] in
theorem Ready.at_index (h : Ready R root c passed remaining) :
    ∃ p, At R root c p ∧ p.index root.toList = passed.length := by
  cases h with
  | new => exact ⟨_, .unmoved, rfl⟩
  | stands h => exact h.at_index

/-- **What a slice holds.**  It holds the items from the place of the cursor to the one where a seek
forward leaves it, and so does `summary` measure them; the suffix is all that remains, and so are any
slices taken one after another with the suffix behind them. -/
theorem slice_contents [LawfulSummary S] {t : SumTree T S} (ht : t.Valid True) {c : Cursor T S D}
    (hc : Reachable t c) (hitem : c.didSeek = false ∨ ∃ item, c.item = some (some item))
    {target : SeekTarget D} (hcmp : target.cmp c.position ≠ .lt) (bias : Bias) :
    ∃ p q found c', At False t c p ∧ c.seekForward target bias = some (found, c') ∧ At False t c' q ∧
      p.index t.toList ≤ q.index t.toList ∧
      (∃ slice, c.slice target bias = some (slice, c') ∧ slice.Valid True ∧
        slice.toList = (t.toList.take (q.index t.toList)).drop (p.index t.toList) ∧
        ∀ (E : Type) [Dimension E S] [LawfulDimension E S], c.summary target bias
          = some ((Dimension.addSummary (Dimension.zero S) slice.summary : E), c')) ∧
      (∃ suffix c'', c.suffix = some (suffix, c'') ∧ suffix.Valid True ∧
        suffix.toList = t.toList.drop (p.index t.toList)) ∧
      ∀ targets trees, c.slices targets = some trees → toListAll trees = t.toList.drop (p.index t.toList) := by
  have hlaw : False → True ∧ LawfulSummary S ∧ LawfulDimension D S := False.elim
  have hlawful : True → LawfulSummary S := fun _ => inferInstance
  obtain ⟨passed, remaining, hready⟩ : ∃ passed remaining, Ready False t c passed remaining := by
    rcases hitem with hseek | ⟨item, hitem⟩
    · rw [hc.eq_new hlaw ht hseek]
      exact ⟨_, _, .new⟩
    · obtain ⟨passed, remaining, hstands⟩ := hc.stands hlaw ht hitem
      exact ⟨_, _, .stands hstands⟩
  obtain ⟨found, slice, c', crossed, remaining', hslice, hforward, hsought, hvalid, hlist⟩ :=
    slice_ready hlaw hlawful ht hready hcmp bias
  obtain ⟨p, hp, hpindex⟩ := hready.at_index
  obtain ⟨q, hq, hqindex⟩ := hsought.stands.at_index
  have hdrop : t.toList.drop passed.length = remaining := by
    rw [hready.toList, List.drop_left' rfl]
  refine ⟨p, q, found, c', hp, hforward, hq, ?_, ⟨slice, hslice, hvalid, ?_, ?_⟩, ?_, ?_⟩
  · rw [hpindex, hqindex, List.length_append]
    exact Nat.le_add_right _ _
  · rw [hpindex, hqindex, hsought.stands.toList, List.take_left' rfl, List.drop_left' rfl, hlist]
  · intro E _ _
    obtain ⟨found₁, c₁, a₁, crossed₁, remaining₁, hsummary, hsought₁, rfl⟩ :=
      seekInternal_finds bias hlaw (summary_collects (E := E) trivial) ht hready hcmp rfl
    have hunit : c.seekForward target bias = some (found₁, c₁) := by
      rw [seekForward, seekInternal_unit hsummary]
      rfl
    cases hforward.symm.trans hunit
    have hcrossed := List.append_cancel_left (hsought.stands.rests.passed_unique hsought₁.stands.rests)
    have hsummary : seekInternal target bias (SeekAggregate.summary E T S) c (Dimension.zero S)
        = some (found, c', positionAfter crossed₁) := hsummary
    rw [addSummary_zero_tree hvalid, hlist, summary, hsummary, hcrossed]
    rfl
  · obtain ⟨suffix, c'', hsuffix, hvalid', hlist'⟩ := suffix_ready hlaw hlawful ht hready
    exact ⟨suffix, c'', hsuffix, hvalid', by rw [hlist', hpindex, hdrop]⟩
  · intro targets trees h
    rw [slices_ready hlaw hlawful ht targets hready h, hpindex, hdrop]

/-- From the first key up to the one of the ninth entry. -/
theorem slice_contents_fifteen :
    ∃ (c c' : Cursor (MapEntry Nat Nat) (MapKey Nat) (MapKeyRef Nat)) (p q : Place)
      (slice : SumTree (MapEntry Nat Nat) (MapKey Nat)), (Cursor.new fifteen).next = some c ∧
      c.slice (MapKeyRef.target ⟨some 8⟩) .left = some (slice, c') ∧ At False fifteen c p ∧ At False fifteen c' q ∧
      slice.toList = (fifteen.toList.take (q.index fifteen.toList)).drop (p.index fifteen.toList) := by
  have ht : fifteen.Valid True := reachable_valid (reachable_fifteenEntries (Option.some_get _).symm)
  have hfirst : ((Cursor.new fifteen).next.map fun (c : Cursor _ _ (MapKeyRef Nat)) =>
      (c.item, (MapKeyRef.target ⟨some 8⟩).cmp c.position)) = some (some (some ⟨0, 0⟩), .gt) := by decide +kernel
  obtain ⟨c, hnext, hc⟩ := Option.map_eq_some_iff.mp hfirst
  obtain ⟨hitem, hcmp⟩ := Prod.mk.inj hc
  have hahead : (MapKeyRef.target ⟨some 8⟩).cmp c.position ≠ .lt := by
    rw [hcmp]
    nofun
  obtain ⟨p, q, found, c', hp, -, hq, -, ⟨slice, hslice, -, hlist, -⟩, -⟩ :=
    slice_contents ht (Reachable.searchForward .new hnext) (Or.inr ⟨_, hitem⟩) hahead .left
  exact ⟨c, c', p, q, slice, hnext, hslice, hp, hq, hlist⟩

end Cursor

end SumTree

end FcGpui
