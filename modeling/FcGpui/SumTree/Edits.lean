import FcGpui.Lib.Sorting
import FcGpui.SumTree.MapContents

/-!
# Batches of edits

`edit` walks over the old items once and merges the sorted edits into them: `edited` is the
list that it leaves (`editSorted_edited`).  The edits with one key are not merged with one
another, so a key that is inserted twice is there twice.

**Main results.**  `editSorted_edited`, `edited_ordered_iff`.
-/

namespace FcGpui

open KeyedItem

namespace SumTree

/-- The key of an item is the position behind it, and none is below the position of the start. -/
class LawfulKeys (T S K : Type) [Summary S] [Item T S] [LinearOrder K] [KeyedItem T K] [Dimension K S] : Prop where
  zero_le : ∀ item : T, (Dimension.zero S : K) ≤ key item
  behind : ∀ (d : K) (item : T), Dimension.addSummary d (Item.summary item) = key item

instance (K V : Type) [LinearOrder K] : LawfulKeys (MapEntry K V) (MapKey K) (MapKey K) where
  zero_le _ := bot_le (α := WithBot K)
  behind _ _ := rfl

variable {T S K : Type} [LinearOrder K] [KeyedItem T K]

/-! ### Edits of a list -/

/-- The item that an edit inserts. -/
def Edit.inserted : Edit T K → List T
  | insert item => [item]
  | remove _ => []

/-- What sorted edits make of a list of items. -/
def edited : List T → List (Edit T K) → List T
  | items, [] => items
  | items, edit :: edits =>
    items.filter (fun item => key item < edit.key) ++ edit.inserted
      ++ edited (items.filter fun item => edit.key < key item) edits

/-- The keys that are inserted. -/
def insertedKeys (edits : List (Edit T K)) : List K := edits.flatMap fun edit => edit.inserted.map key

variable {items : List T} {edits : List (Edit T K)}

omit [LinearOrder K] in
theorem mem_insertedKeys {k : K} : k ∈ insertedKeys edits ↔ ∃ item, Edit.insert item ∈ edits ∧ key item = k := by
  rw [insertedKeys, List.mem_flatMap]
  constructor
  · rintro ⟨edit, hedit, hk⟩
    cases edit with
    | insert item => exact ⟨item, hedit, (List.mem_singleton.mp hk).symm⟩
    | remove _ => exact absurd hk List.not_mem_nil
  · rintro ⟨item, hedit, rfl⟩
    exact ⟨_, hedit, List.mem_singleton_self _⟩

theorem mem_edited (hsorted : SortedBy Edit.key edits) {x : T} :
    x ∈ edited items edits ↔ Edit.insert x ∈ edits ∨ (x ∈ items ∧ ∀ edit ∈ edits, edit.key ≠ key x) := by
  induction edits generalizing items with
  | nil => simp [edited]
  | cons edit edits ih =>
    obtain ⟨hfirst, hrest⟩ := List.pairwise_cons.mp hsorted
    have hinserted : x ∈ edit.inserted ↔ Edit.insert x = edit := by
      cases edit <;> simp [Edit.inserted]
    rw [edited, List.mem_append, List.mem_append, ih hrest, hinserted, List.mem_filter, List.mem_filter,
      List.mem_cons, List.forall_mem_cons, decide_eq_true_iff, decide_eq_true_iff]
    constructor
    · rintro ((⟨hx, hlt⟩ | heq) | hmem | ⟨⟨hx, hlt⟩, hne⟩)
      · exact Or.inr ⟨hx, hlt.ne', fun other hother => (hlt.trans_le (hfirst other hother)).ne'⟩
      · exact Or.inl (Or.inl heq)
      · exact Or.inl (Or.inr hmem)
      · exact Or.inr ⟨hx, hlt.ne, hne⟩
    · rintro ((heq | hmem) | ⟨hx, hne, hothers⟩)
      · exact Or.inl (Or.inr heq)
      · exact Or.inr (Or.inl hmem)
      · rcases lt_or_gt_of_ne hne with hlt | hlt
        · exact Or.inr (Or.inr ⟨⟨hx, hlt⟩, hothers⟩)
        · exact Or.inl (Or.inl ⟨hx, hlt⟩)

/-- **The keys stay in order** just if no key is inserted twice. -/
theorem edited_ordered_iff (hitems : items.Pairwise fun a b => key a < key b) (hsorted : SortedBy Edit.key edits) :
    (edited items edits).Pairwise (fun a b => key a < key b) ↔ (insertedKeys edits).Nodup := by
  induction edits generalizing items with
  | nil => exact iff_of_true hitems List.nodup_nil
  | cons edit edits ih =>
    obtain ⟨hfirst, hrest⟩ := List.pairwise_cons.mp hsorted
    have hbehind : ∀ x ∈ edited (items.filter fun item => edit.key < key item) edits, edit.key ≤ key x ∧
        (edit.key < key x ∨ key x ∈ insertedKeys edits) := by
      intro x hx
      rcases (mem_edited hrest).mp hx with hinsert | ⟨hmem, -⟩
      · exact ⟨hfirst _ hinsert, Or.inr (mem_insertedKeys.mpr ⟨x, hinsert, rfl⟩)⟩
      · have hlt : edit.key < key x := by simpa using (List.mem_filter.mp hmem).2
        exact ⟨hlt.le, Or.inl hlt⟩
    have hbefore : ∀ x ∈ items.filter (fun item => key item < edit.key), key x < edit.key := by
      intro x hx
      simpa using (List.mem_filter.mp hx).2
    have hrests := ih (hitems.filter fun item => edit.key < key item) hrest
    rw [edited, List.append_assoc, List.pairwise_append]
    cases edit with
    | remove k =>
      rw [Edit.inserted, List.nil_append, hrests]
      refine ⟨fun h => h.2.1, fun h => ⟨hitems.filter _, h, fun a ha b hb => ?_⟩⟩
      exact (hbefore a ha).trans_le (hbehind b hb).1
    | insert item =>
      have hkeys : insertedKeys (Edit.insert item :: edits) = key item :: insertedKeys edits := rfl
      rw [Edit.inserted, List.singleton_append, List.pairwise_cons, hrests, hkeys, List.nodup_cons]
      constructor
      · rintro ⟨-, ⟨hitem, hnodup⟩, -⟩
        refine ⟨fun hmem => ?_, hnodup⟩
        obtain ⟨other, hother, heq⟩ := mem_insertedKeys.mp hmem
        exact (hitem other ((mem_edited hrest).mpr (Or.inl hother))).ne' heq
      · rintro ⟨hnot, hnodup⟩
        have hitem : ∀ x ∈ edited (items.filter fun other => key item < key other) edits, key item < key x := by
          intro x hx
          obtain ⟨hle, hlt | hmem⟩ := hbehind x hx
          · exact hlt
          · exact lt_of_le_of_ne hle fun heq => hnot (heq ▸ hmem)
        refine ⟨hitems.filter _, ⟨hitem, hnodup⟩, fun a ha b hb => ?_⟩
        rcases List.mem_cons.mp hb with rfl | hb
        · exact hbefore a ha
        · exact (hbefore a ha).trans (hitem b hb)

/-! ### The loop -/

variable [Summary S] [Item T S] [Dimension K S] [LawfulSummary S] [LawfulDimension K S] [LawfulKeys T S K]
  {root : SumTree T S} {s : EditState T S K} {out remaining : List T}

/-- What the loop has: the items in the new tree and those buffered, and the old ones that remain. -/
structure EditState.Holds (root : SumTree T S) (s : EditState T S K) (out remaining : List T) : Prop where
  cursor : ∃ passed, Cursor.Stands True root s.cursor passed remaining
  newTree : s.newTree.Valid True
  out : s.newTree.toList ++ s.bufferedItems = out

omit [LawfulSummary S] [LawfulDimension K S] in
/-- A tree in order is parted by a key that is not below the position of the start. -/
theorem parted_ofKey (hordered : root.toList.Pairwise fun a b => key a < key b) {k : K}
    (hk : (Dimension.zero S : K) ≤ k) :
    Parted root (SeekTarget.ofKey k) .left fun item => key item < k where
  start := by
    show compare k (Dimension.zero S : K) ≠ .lt
    rw [Ne, compare_lt_iff_lt, not_lt]
    exact hk
  passes d item := by
    have hcmp : (SeekTarget.ofKey k).cmp (Dimension.addSummary d (Item.summary item)) = compare k (key item) :=
      congrArg (compare k) (LawfulKeys.behind d item)
    unfold Cursor.passes
    rw [hcmp, decide_eq_true_iff, compare_gt_iff_gt]
    simp
  first := hordered.imp fun hlt hk => hlt.trans hk

omit [LawfulSummary S] [LawfulDimension K S] [LawfulKeys T S K] in
theorem EditState.Holds.ordered (hordered : root.toList.Pairwise fun a b => key a < key b)
    (h : s.Holds root out remaining) : remaining.Pairwise fun a b => key a < key b := by
  obtain ⟨passed, hstands⟩ := h.cursor
  rw [hstands.toList] at hordered
  exact (List.pairwise_append.mp hordered).2.1

theorem editAdvance_holds (hroot : root.Valid True) (hordered : root.toList.Pairwise fun a b => key a < key b)
    (h : s.Holds root out remaining) (newKey : K) :
    ∃ s' lower upper, editAdvance s newKey = some (s', upper.head?) ∧ remaining = lower ++ upper ∧
      s'.Holds root (out ++ lower) upper ∧ (∀ item ∈ lower, key item < newKey) ∧
      ∀ item ∈ upper, ¬ key item < newKey := by
  have hremaining := h.ordered hordered
  obtain ⟨passed, hstands⟩ := h.cursor
  simp only [editAdvance, hstands.item, Option.bind_eq_bind, Option.bind_some]
  by_cases hbelow : (remaining.head?.any fun oldItem => decide (key oldItem < newKey)) = true
  · rw [if_pos hbelow]
    obtain ⟨oldItem, hhead, hlt⟩ := (Option.any_eq_true _ _).mp hbelow
    rw [decide_eq_true_iff] at hlt
    have hcmp : (SeekTarget.ofKey newKey).cmp s.cursor.position ≠ .lt := by
      show compare newKey s.cursor.position ≠ .lt
      rw [Ne, compare_lt_iff_lt, not_lt, hstands.start trivial]
      cases passed using List.reverseRecOn with
      | nil => exact (LawfulKeys.zero_le (S := S) oldItem).trans hlt.le
      | append_singleton init last _ =>
        have hroots := hordered
        rw [hstands.toList] at hroots
        have hlast := (List.pairwise_append.mp hroots).2.2 last (List.mem_append_right _ (List.mem_singleton_self _))
          oldItem (List.mem_of_mem_head? hhead)
        rw [positionAfter_concat, LawfulKeys.behind]
        exact (hlast.trans hlt).le
    have hparted := parted_ofKey (S := S) hordered ((LawfulKeys.zero_le (S := S) oldItem).trans hlt.le)
    obtain ⟨newTree, hextend, hvalid, hlist⟩ := extend_spec (fun _ => inferInstance) h.newTree s.bufferedItems
    obtain ⟨slice, c', lower, upper, hslice, hslicevalid, hslicelist, hparts, hstands', hlower, hupper⟩ :=
      hparted.slice hroot (.stands hstands) hcmp
    obtain ⟨newTree', happend, hvalid', hlist'⟩ := append_spec (fun _ => inferInstance) hvalid hslicevalid
    refine ⟨{ s with cursor := c', newTree := newTree', bufferedItems := [] }, lower, upper, ?_, hparts,
      ⟨⟨_, hstands'⟩, hvalid', ?_⟩, hlower, hupper⟩
    · simp only [hextend, hslice, happend, hstands'.item, Option.bind_some]
    · rw [List.append_nil, hlist', hlist, h.out, hslicelist]
  · rw [if_neg hbelow]
    refine ⟨s, [], remaining, rfl, rfl, ⟨h.cursor, h.newTree, h.out.trans (List.append_nil _).symm⟩, nofun, ?_⟩
    intro item hitem hlt
    cases remaining with
    | nil => exact List.not_mem_nil hitem
    | cons head rest =>
      refine hbelow (decide_eq_true ?_)
      rcases List.mem_cons.mp hitem with rfl | hmem
      · exact hlt
      · exact ((List.pairwise_cons.mp hremaining).1 item hmem).trans hlt

theorem editStep_holds (hroot : root.Valid True) (hordered : root.toList.Pairwise fun a b => key a < key b)
    (h : s.Holds root out remaining) (edit : Edit T K) :
    ∃ s', editStep s edit = some s' ∧
      s'.Holds root (out ++ remaining.filter (fun item => key item < edit.key) ++ edit.inserted)
        (remaining.filter fun item => edit.key < key item) := by
  obtain ⟨s₁, lower, upper, hadvance, hparts, h₁, hlower, hupper⟩ := editAdvance_holds hroot hordered h edit.key
  have hupperordered := h₁.ordered hordered
  obtain ⟨passed, hstands⟩ := h₁.cursor
  have hbelow : remaining.filter (fun item => key item < edit.key) = lower := by
    rw [hparts, List.filter_append, List.filter_eq_self.mpr fun item hitem => decide_eq_true (hlower item hitem),
      List.filter_eq_nil_iff.mpr fun item hitem => by simpa using hupper item hitem, List.append_nil]
  have habove : remaining.filter (fun item => edit.key < key item) = upper.filter fun item => edit.key < key item := by
    rw [hparts, List.filter_append, List.filter_eq_nil_iff.mpr fun item hitem => by simpa using (hlower item hitem).le,
      List.nil_append]
  have hbuffer : ∀ {items : List T}, s₁.newTree.toList ++ s₁.bufferedItems = items →
      s₁.newTree.toList ++ (match edit with
        | .insert item => s₁.bufferedItems ++ [item]
        | .remove _ => s₁.bufferedItems) = items ++ edit.inserted := by
    intro items hitems
    cases edit with
    | insert item => rw [← List.append_assoc, hitems]; rfl
    | remove _ => exact hitems.trans (List.append_nil _).symm
  rw [hbelow, habove]
  -- the item with the key, if there is one, is the next
  cases hold : (upper.head?.filter fun oldItem => decide (key oldItem = edit.key)) with
  | none =>
    refine ⟨{ s₁ with bufferedItems := _, removed := s₁.removed ++ [] }, ?_,
      ⟨⟨passed, ?_⟩, h₁.newTree, hbuffer h₁.out⟩⟩
    · simp only [editStep, hadvance, Option.bind_eq_bind, Option.bind_some, hold, Option.isSome_none, Cursor.nextIf,
        Bool.false_eq_true, if_false]
      rfl
    · have hall : upper.filter (fun item => edit.key < key item) = upper := by
        refine List.filter_eq_self.mpr fun item hitem => decide_eq_true ?_
        refine lt_of_le_of_ne (not_lt.mp (hupper item hitem)) fun heq => ?_
        cases upper with
        | nil => exact List.not_mem_nil hitem
        | cons head rest =>
          rcases List.mem_cons.mp hitem with rfl | hmem
          · exact Option.filter_eq_none_iff.mp hold item rfl (decide_eq_true heq.symm)
          · have hlt := (List.pairwise_cons.mp hupperordered).1 item hmem
            exact hupper head List.mem_cons_self (heq ▸ hlt)
      rw [hall]
      exact hstands
  | some oldItem =>
    obtain ⟨hhead, heq⟩ := Option.filter_eq_some_iff.mp hold
    rw [decide_eq_true_iff] at heq
    obtain ⟨rest, rfl⟩ : ∃ rest, upper = oldItem :: rest := by
      cases upper with
      | nil => cases hhead
      | cons head rest => exact ⟨rest, by rw [Option.some.inj hhead]⟩
    obtain ⟨c', hnext, hstands'⟩ := hstands.next (fun _ => ⟨trivial, inferInstance, inferInstance⟩) hroot
    refine ⟨{ s₁ with cursor := c', bufferedItems := _, removed := s₁.removed ++ [oldItem] }, ?_,
      ⟨⟨passed ++ [oldItem], ?_⟩, h₁.newTree, hbuffer h₁.out⟩⟩
    · simp only [editStep, hadvance, Option.bind_eq_bind, Option.bind_some, hold, Option.isSome_some, Cursor.nextIf,
        if_true, hnext]
      rfl
    · have hrest : (oldItem :: rest).filter (fun item => edit.key < key item) = rest := by
        rw [List.filter_cons_of_neg (by simp [heq])]
        refine List.filter_eq_self.mpr fun item hitem => decide_eq_true ?_
        rw [← heq]
        exact (List.pairwise_cons.mp hupperordered).1 item hitem
      rw [hrest]
      exact hstands'

theorem foldlM_editStep_holds (hroot : root.Valid True) (hordered : root.toList.Pairwise fun a b => key a < key b)
    (h : s.Holds root out remaining) (edits : List (Edit T K)) :
    ∃ s' out' remaining', edits.foldlM editStep s = some s' ∧ s'.Holds root out' remaining' ∧
      out' ++ remaining' = out ++ edited remaining edits := by
  induction edits generalizing s out remaining with
  | nil => exact ⟨s, out, remaining, rfl, h, rfl⟩
  | cons edit edits ih =>
    obtain ⟨s₁, hstep, h₁⟩ := editStep_holds hroot hordered h edit
    obtain ⟨s', out', remaining', hfold, h', hlist⟩ := ih h₁
    refine ⟨s', out', remaining', ?_, h', ?_⟩
    · rw [List.foldlM_cons, hstep]
      exact hfold
    · rw [hlist, edited]
      simp only [List.append_assoc]

/-- **What `edit` leaves.** -/
theorem editSorted_edited (hroot : root.Valid True) (hordered : root.toList.Pairwise fun a b => key a < key b)
    (edits : List (Edit T K)) :
    ∃ tree removed, root.editSorted edits = some (tree, removed) ∧ tree.Valid True ∧
      tree.toList = edited root.toList edits := by
  cases edits with
  | nil => exact ⟨root, [], rfl, hroot, rfl⟩
  | cons edit edits =>
    obtain ⟨found, c, crossed, remaining, hseek, hstands, hcrossed, -⟩ :=
      (parted_ofKey (S := S) hordered le_rfl).seek hroot (c := Cursor.new root) rfl
    obtain rfl : crossed = [] := List.eq_nil_iff_forall_not_mem.mpr fun item hitem =>
      absurd (hcrossed item hitem) (not_lt.mpr (LawfulKeys.zero_le (S := S) item))
    obtain rfl : root.toList = remaining := hstands.toList
    obtain ⟨s, out, remaining, hfold, h, hlist⟩ := foldlM_editStep_holds hroot hordered
      (s := ⟨c, new, [], []⟩) ⟨⟨[], hstands⟩, Or.inl rfl, rfl⟩ (edit :: edits)
    obtain ⟨passed, hstands'⟩ := h.cursor
    obtain ⟨newTree, hextend, hvalid, hnew⟩ := extend_spec (fun _ => inferInstance) h.newTree s.bufferedItems
    obtain ⟨suffix, c', tree, hsuffix, happend, htree, htoList⟩ := append_suffix hroot hvalid hstands'
    refine ⟨tree, s.removed, ?_, htree, ?_⟩
    · simp only [editSorted, List.isEmpty_cons, Bool.false_eq_true, if_false, hseek, hfold, hextend, hsuffix, happend,
        Option.bind_eq_bind, Option.bind_some]
    · rw [htoList, hnew, h.out, hlist]
      rfl

/-- `edit`, with the sort that it uses. -/
def edit {T S K : Type} [Summary S] [Item T S] [LinearOrder K] [KeyedItem T K] [Dimension K S]
    (sort : UnstableSort (Edit.key (T := T) (K := K))) (self : SumTree T S) (edits : List (Edit T K)) :
    Option (SumTree T S × List T) := self.editSorted (sort.run edits)

theorem insertedKeys_nodup (sort : UnstableSort (Edit.key (T := T) (K := K))) (edits : List (Edit T K)) :
    (insertedKeys (sort.run edits)).Nodup ↔ (insertedKeys edits).Nodup :=
  ((sort.perm edits).flatMap_right _).nodup_iff

end SumTree

end FcGpui
