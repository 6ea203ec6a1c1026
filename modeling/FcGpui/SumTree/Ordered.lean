import FcGpui.SumTree.SliceContents

/-!
# Seeks in ordered trees

A tree is ordered for a target if the items that the target passes come first, whatever a
position behind one of them is made of (`Parted`).  Then a seek from the start parts the
items into those the target passes and the others, a slice holds the former, and
`insert_or_replace` of a new key puts its item between them (`insertOrReplace_new`).

A target can also be an index (`Indexes`): it passes a position if at most that many items
are before it.  Then a seek and a slice are `take` and `drop`.
-/

namespace FcGpui

namespace SumTree

variable {T S D : Type} [Summary S] [Item T S] [Dimension D S] {C : T → Prop} {root : SumTree T S}
  {target : SeekTarget D} {bias : Bias}

/-- The target passes just the items of `C`, and these come first. -/
structure Parted (root : SumTree T S) (target : SeekTarget D) (bias : Bias) (C : T → Prop) : Prop where
  start : target.cmp (Dimension.zero S) ≠ .lt
  passes : ∀ (d : D) (item : T),
    Cursor.passes target bias (Dimension.addSummary d (Item.summary item)) = true ↔ C item
  first : root.toList.Pairwise fun item item' => C item' → C item

omit [Summary S] in
/-- **What is crossed, the target passes**, and nothing else. -/
theorem Parted.sought (h : Parted root target bias C) {c c' : Cursor T S D} {found : Bool}
    {passed crossed remaining : List T}
    (hsought : Cursor.Sought True root target bias c passed found c' crossed remaining) :
    (∀ item ∈ crossed, C item) ∧ ∀ item ∈ remaining, ¬ C item := by
  have hstart : c'.position = positionAfter (passed ++ crossed) := hsought.stands.start trivial
  have hitems : root.toList = passed ++ crossed ++ remaining := hsought.stands.toList
  have hfirst := h.first
  rw [hitems] at hfirst
  obtain ⟨hbefore, hremaining, -⟩ := List.pairwise_append.mp hfirst
  obtain ⟨-, hcrossed, -⟩ := List.pairwise_append.mp hbefore
  constructor
  · -- the target passes the last of them
    intro item hitem
    rcases hsought.moved with ⟨rfl, -⟩ | hpasses
    · exact absurd hitem List.not_mem_nil
    · cases crossed using List.reverseRecOn with
      | nil => exact absurd hitem List.not_mem_nil
      | append_singleton init last _ =>
        rw [hstart, ← List.append_assoc, positionAfter_concat, h.passes] at hpasses
        rcases List.mem_append.mp hitem with hmem | hmem
        · exact (List.pairwise_append.mp hcrossed).2.2 _ hmem _ (List.mem_singleton_self _) hpasses
        · rwa [List.mem_singleton.mp hmem]
  · -- it stops at the first of them
    intro item hitem
    cases remaining with
    | nil => exact absurd hitem List.not_mem_nil
    | cons head rest =>
      have hstops := hsought.stops head rfl
      rw [← Bool.not_eq_true, h.passes] at hstops
      rcases List.mem_cons.mp hitem with rfl | hmem
      · exact hstops
      · exact fun hC => hstops ((List.pairwise_cons.mp hremaining).1 _ hmem hC)

theorem Parted.seek [LawfulSummary S] [LawfulDimension D S] (h : Parted root target bias C)
    (hroot : root.Valid True) {c : Cursor T S D} (htree : c.tree = root) :
    ∃ found c' crossed remaining, c.seek target bias = some (found, c') ∧
      Cursor.Stands True root c' crossed remaining ∧
      (∀ item ∈ crossed, C item) ∧ ∀ item ∈ remaining, ¬ C item := by
  obtain ⟨found, c', crossed, remaining, hseek, hsought⟩ : ∃ found c' crossed remaining,
      c.seek target bias = some (found, c') ∧
        Cursor.Sought True root target bias (Cursor.new root) [] found c' crossed remaining :=
    Cursor.seek_at (fun _ => ⟨trivial, inferInstance, inferInstance⟩) hroot htree h.start
  exact ⟨found, c', crossed, remaining, hseek, hsought.stands, h.sought hsought⟩

theorem Parted.slice [LawfulSummary S] [LawfulDimension D S] (h : Parted root target bias C)
    (hroot : root.Valid True) {c : Cursor T S D} {passed remaining : List T}
    (hready : Cursor.Ready True root c passed remaining) (hcmp : target.cmp c.position ≠ .lt) :
    ∃ slice c' crossed remaining', c.slice target bias = some (slice, c') ∧ slice.Valid True ∧
      slice.toList = crossed ∧ remaining = crossed ++ remaining' ∧
      Cursor.Stands True root c' (passed ++ crossed) remaining' ∧
      (∀ item ∈ crossed, C item) ∧ ∀ item ∈ remaining', ¬ C item := by
  obtain ⟨found, slice, c', crossed, remaining', hslice, -, hsought, hvalid, hlist⟩ :=
    Cursor.slice_ready (R := True) (fun _ => ⟨trivial, inferInstance, inferInstance⟩)
      (fun _ => inferInstance) hroot hready hcmp bias
  have hboth : passed ++ remaining = passed ++ (crossed ++ remaining') := by
    rw [← hready.toList, hsought.stands.toList, List.append_assoc]
  exact ⟨slice, c', crossed, remaining', hslice, hvalid, hlist, List.append_cancel_left hboth, hsought.stands,
    h.sought hsought⟩

theorem append_suffix [LawfulSummary S] [LawfulDimension D S] {newTree : SumTree T S}
    (hroot : root.Valid True) (hvalid : newTree.Valid True) {c : Cursor T S D} {passed remaining : List T}
    (hstands : Cursor.Stands True root c passed remaining) :
    ∃ suffix c' tree, c.suffix = some (suffix, c') ∧ newTree.append suffix = some tree ∧ tree.Valid True ∧
      tree.toList = newTree.toList ++ remaining := by
  obtain ⟨suffix, c', hsuffix, hvalid', hlist⟩ := Cursor.suffix_ready (R := True)
    (fun _ => ⟨trivial, inferInstance, inferInstance⟩) (fun _ => inferInstance) hroot (.stands hstands)
  obtain ⟨tree, happend, htree, htoList⟩ := append_spec (fun _ => inferInstance) hvalid hvalid'
  rw [hlist] at htoList
  exact ⟨suffix, c', tree, hsuffix, happend, htree, htoList⟩

/-- **A new key** is inserted behind the items that its seek passes. -/
theorem insertOrReplace_new {K : Type} [Ord K] [DecidableEq K] [KeyedItem T K] [Dimension K S]
    [LawfulSummary S] [LawfulDimension K S] (hroot : root.Valid True) {item : T}
    (hparted : Parted root (SeekTarget.ofKey (KeyedItem.key item)) .left C)
    (hnew : ∀ other ∈ root.toList, KeyedItem.key other ≠ KeyedItem.key item) :
    ∃ tree lower upper, root.insertOrReplace item = some (tree, none) ∧ tree.Valid True ∧
      root.toList = lower ++ upper ∧ tree.toList = lower ++ item :: upper ∧
      (∀ other ∈ lower, C other) ∧ ∀ other ∈ upper, ¬ C other := by
  obtain ⟨newTree, c', crossed, remaining, hslice, hvalid, hlist, hitems, hstands, hcrossed⟩ :=
    hparted.slice hroot .new hparted.start
  have hreplaced : remaining.head?.filter (fun other => decide (KeyedItem.key other = KeyedItem.key item)) = none := by
    refine Option.filter_eq_none_iff.mpr fun other hother heq => ?_
    refine hnew other ?_ (of_decide_eq_true heq)
    rw [hitems]
    exact List.mem_append_right _ (List.mem_of_mem_head? hother)
  obtain ⟨newTree', hpush, hvalid', hlist'⟩ := push_spec (fun _ => inferInstance) hvalid item
  obtain ⟨suffix, c'', tree, hsuffix, happend, htree, htoList⟩ :=
    append_suffix hroot hvalid' hstands
  refine ⟨tree, crossed, remaining, ?_, htree, hitems, ?_, hcrossed⟩
  · simp only [insertOrReplace, hslice, Option.bind_eq_bind, Option.bind_some, hstands.item, hreplaced,
      Option.isSome_none, Cursor.nextIf, Bool.false_eq_true, if_false, hpush, hsuffix, happend]
  · rw [htoList, hlist', hlist, List.append_assoc]
    rfl

namespace Cursor

variable {c : Cursor T S D} {passed remaining : List T} {P R : Prop}

theorem Stands.prev (hlaw : R → P ∧ LawfulSummary S ∧ LawfulDimension D S) (hroot : root.Valid P) {item : T}
    (h : Stands R root c (passed ++ [item]) remaining) :
    ∃ c', c.prev = some c' ∧ Stands R root c' passed (item :: remaining) := by
  obtain ⟨c', hprev, hretreated⟩ := h.searchBackward hlaw hroot fun _ => true
  refine ⟨c', hprev, ?_⟩
  rcases hretreated with ⟨rfl, hskipped⟩ | ⟨passed', item', skipped, remaining', hstands, hitems, hskipped, -⟩
  · exact absurd (skippedBy_true hskipped) (by simp)
  · obtain rfl := skippedBy_true hskipped
    obtain ⟨rfl, hlast⟩ := List.append_inj' hitems rfl
    obtain rfl : item = item' := List.singleton_inj.mp hlast
    have hboth := h.toList.symm.trans hstands.toList
    rw [List.append_assoc] at hboth
    obtain rfl : remaining = remaining' := (List.cons.inj (List.append_cancel_left hboth)).2
    exact hstands

theorem Stands.prev_start (hlaw : R → P ∧ LawfulSummary S ∧ LawfulDimension D S) (hroot : root.Valid P)
    (h : Stands R root c [] remaining) : c.prev = some (beforeStart root true) := by
  obtain ⟨c', hprev, hretreated⟩ := h.searchBackward hlaw hroot fun _ => true
  rcases hretreated with ⟨rfl, -⟩ | ⟨passed', item', skipped, remaining', -, hitems, -, -⟩
  · exact hprev
  · exact absurd hitems.symm (by simp)

end Cursor

/-! ### Targets that are indices -/

/-- The target is an index: it passes the positions behind at most `n` items. -/
structure Indexes (T : Type) {S D : Type} [Summary S] [Item T S] [Dimension D S] (target : SeekTarget D)
    (bias : Bias) (n : Nat) : Prop where
  ahead : ∀ items : List T, items.length ≤ n → target.cmp (positionAfter items : D) ≠ .lt
  passes : ∀ items : List T, Cursor.passes target bias (positionAfter items : D) = true ↔ items.length ≤ n

namespace Indexes

variable {c : Cursor T S D} {passed remaining : List T} {n : Nat}

theorem sought (h : Indexes T target bias n) {found : Bool} {c' : Cursor T S D} {crossed remaining' : List T}
    (hpassed : passed.length ≤ n) (hlist : root.toList = passed ++ remaining)
    (hsought : Cursor.Sought True root target bias c passed found c' crossed remaining') :
    Cursor.Stands True root c' (root.toList.take n) (root.toList.drop n) ∧
      crossed = remaining.take (n - passed.length) := by
  have hstart : c'.position = positionAfter (passed ++ crossed) := hsought.stands.start trivial
  have hitems : root.toList = passed ++ crossed ++ remaining' := hsought.stands.toList
  have hle : (passed ++ crossed).length ≤ n := by
    rcases hsought.moved with ⟨rfl, -⟩ | hpasses
    · rwa [List.append_nil]
    · rwa [hstart, h.passes] at hpasses
  have hstops : remaining' = [] ∨ n = (passed ++ crossed).length := by
    cases remaining' with
    | nil => exact Or.inl rfl
    | cons item rest =>
      have hitem := hsought.stops item rfl
      rw [hstart, ← positionAfter_concat, ← Bool.not_eq_true, h.passes, List.length_append,
        List.length_singleton] at hitem
      exact Or.inr (by omega)
  have htake : root.toList.take n = passed ++ crossed := by
    rcases hstops with rfl | hn
    · rw [hitems, List.append_nil]
      exact List.take_of_length_le hle
    · rw [hitems, hn, List.take_left' rfl]
  have hdrop : root.toList.drop n = remaining' := by
    have hboth := List.take_append_drop n root.toList
    rw [htake] at hboth
    exact List.append_cancel_left (hboth.trans hitems)
  refine ⟨?_, ?_⟩
  · rw [htake, hdrop]
    exact hsought.stands
  · have hcrossed := htake
    rw [hlist, List.take_append, List.take_of_length_le hpassed] at hcrossed
    exact (List.append_cancel_left hcrossed).symm

variable [LawfulSummary S] [LawfulDimension D S]

/-- **A seek to an index.** -/
theorem seek (h : Indexes T target bias n) (hroot : root.Valid True) (htree : c.tree = root) :
    ∃ found c', c.seek target bias = some (found, c') ∧
      Cursor.Stands True root c' (root.toList.take n) (root.toList.drop n) := by
  obtain ⟨found, c', crossed, remaining, hseek, hsought⟩ : ∃ found c' crossed remaining,
      c.seek target bias = some (found, c') ∧
        Cursor.Sought True root target bias (Cursor.new root) [] found c' crossed remaining :=
    Cursor.seek_at (fun _ => ⟨trivial, inferInstance, inferInstance⟩) hroot htree (h.ahead [] (Nat.zero_le n))
  have hpassed : ([] : List T).length ≤ n := Nat.zero_le n
  exact ⟨found, c', hseek, (h.sought hpassed rfl hsought).1⟩

/-- **A slice up to an index**, and a seek forward to it. -/
theorem slice (h : Indexes T target bias n) (hroot : root.Valid True)
    (hready : Cursor.Ready True root c passed remaining) (hpassed : passed.length ≤ n) :
    ∃ found slice c', c.slice target bias = some (slice, c') ∧ c.seekForward target bias = some (found, c') ∧
      slice.Valid True ∧ slice.toList = remaining.take (n - passed.length) ∧
      Cursor.Stands True root c' (root.toList.take n) (root.toList.drop n) := by
  have hcmp : target.cmp c.position ≠ .lt := hready.start trivial ▸ h.ahead passed hpassed
  obtain ⟨found, slice, c', crossed, remaining', hslice, hforward, hsought, hvalid, hlist⟩ :=
    Cursor.slice_ready (R := True) (fun _ => ⟨trivial, inferInstance, inferInstance⟩)
      (fun _ => inferInstance) hroot hready hcmp bias
  obtain ⟨hstands, hcrossed⟩ := h.sought hpassed hready.toList hsought
  exact ⟨found, slice, c', hslice, hforward, hvalid, hlist.trans hcrossed, hstands⟩

theorem summary {E : Type} [Dimension E S] [LawfulDimension E S] (h : Indexes T target bias n) (hroot : root.Valid True)
    (hready : Cursor.Ready True root c passed remaining) (hpassed : passed.length ≤ n) :
    ∃ c', c.summary target bias = some ((positionAfter (remaining.take (n - passed.length)) : E), c') ∧
      Cursor.Stands True root c' (root.toList.take n) (root.toList.drop n) := by
  have hcmp : target.cmp c.position ≠ .lt := hready.start trivial ▸ h.ahead passed hpassed
  obtain ⟨found, c', a, crossed, remaining', hseek, hsought, rfl⟩ :=
    Cursor.seekInternal_finds (R := True) bias (fun _ => ⟨trivial, inferInstance, inferInstance⟩)
      (summary_collects (E := E) trivial) hroot hready hcmp rfl
  obtain ⟨hstands, hcrossed⟩ := h.sought hpassed hready.toList hsought
  have hsummary : Cursor.seekInternal target bias (SeekAggregate.summary E T S) c (Dimension.zero S)
      = some (found, c', positionAfter crossed) := hseek
  refine ⟨c', ?_, hstands⟩
  rw [Cursor.summary, hsummary, hcrossed]
  rfl

end Indexes

end SumTree

end FcGpui
