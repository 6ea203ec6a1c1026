import FcGpui.SumTree.Iteration

/-!
# Past the end

An iterator that has given the last item gives nothing once, and then its stack is empty as
it was in the beginning: it starts again.  So its calls repeat with a period of the number of
items and one (`Iter.nthCall_eq`).  A cursor as an iterator stays at the end
(`Cursor.nthCall_eq`).

**Main result.**  `nthCall_agree_iff`.
-/

namespace FcGpui

namespace SumTree

variable {T S : Type} [Summary S] [Item T S] {P : Prop} {root : SumTree T S}

/-- What the call with a number gives, counted from 0. -/
def nthCall {σ α : Type} (next : σ → Option (Option α × σ)) : Nat → σ → Option (Option α)
  | 0, state => (next state).map Prod.fst
  | n + 1, state => (next state).bind fun r => nthCall next n r.2

attribute [local simp] nthCall

namespace Cursor

variable {D : Type} [Dimension D S] {R : Prop} {c : Cursor T S D} {passed remaining : List T}

theorem Stands.nthCall (hlaw : R → P ∧ LawfulSummary S ∧ LawfulDimension D S) (hroot : root.Valid P)
    (h : Stands R root c passed remaining) (n : Nat) :
    SumTree.nthCall Cursor.iterNext n c = some remaining[n]? := by
  induction n generalizing c passed remaining with
  | zero =>
    cases remaining with
    | nil => simp [h.iterNext_end]
    | cons item remaining =>
      obtain ⟨c', hnext, -⟩ := h.iterNext hlaw hroot
      simp [hnext]
  | succ n ih =>
    cases remaining with
    | nil =>
      have hrest := ih h
      rw [SumTree.nthCall, h.iterNext_end, Option.bind_some, hrest, List.getElem?_nil, List.getElem?_nil]
    | cons item remaining =>
      obtain ⟨c', hnext, hstands⟩ := h.iterNext hlaw hroot
      have hrest := ih hstands
      rw [SumTree.nthCall, hnext, Option.bind_some, hrest, List.getElem?_cons_succ]

/-- The calls of a fresh cursor give the items, and nothing from then on. -/
theorem nthCall_eq (hlaw : R → P ∧ LawfulSummary S ∧ LawfulDimension D S) (hroot : root.Valid P) (n : Nat) :
    SumTree.nthCall Cursor.iterNext n (Cursor.new root : Cursor T S D) = some root.toList[n]? := by
  obtain ⟨c, hnext, hstands⟩ := next_start (D := D) hlaw hroot false
  have hfirst : (Cursor.new root : Cursor T S D).iterNext = c.iterNext := by
    have hstart : (Cursor.new root : Cursor T S D).next = some c := hnext
    rw [Cursor.iterNext, Cursor.iterNext, if_neg (by simp [Cursor.new]), if_pos hstands.didSeek, hstart]
  rw [← hstands.nthCall hlaw hroot n]
  cases n <;> rw [SumTree.nthCall, SumTree.nthCall, hfirst]

end Cursor

namespace Iter

variable {c : Cursor T S Unit} {passed remaining : List T} {item : T}

/-- An iterator that has given an item gives those behind it. -/
theorem nthCall_of_stands (hroot : root.Valid P) (h : Cursor.Stands False root c passed (item :: remaining))
    {n : Nat} (hn : n ≤ remaining.length) :
    nthCall Iter.next n ⟨root, c.stack⟩ = some remaining[n]? := by
  induction n generalizing c passed item remaining with
  | zero =>
    obtain ⟨c', hnext, -⟩ := next_item hroot h
    rw [nthCall, hnext, Option.map_some, List.head?_eq_getElem?]
  | succ n ih =>
    obtain ⟨c', hnext, hstands⟩ := next_item hroot h
    cases remaining with
    | nil => exact absurd hn (Nat.not_succ_le_zero n)
    | cons item' remaining =>
      have hrest := ih hstands (Nat.le_of_succ_le_succ hn)
      rw [nthCall, hnext, Option.bind_some, hrest, List.getElem?_cons_succ]

theorem nthCall_again (hroot : root.Valid P) (h : Cursor.Stands False root c passed (item :: remaining)) (n : Nat) :
    nthCall Iter.next (remaining.length + 1 + n) ⟨root, c.stack⟩ = nthCall Iter.next n (Iter.new root) := by
  induction remaining generalizing c passed item with
  | nil =>
    obtain ⟨c', hnext, hstands⟩ := next_item hroot h
    rw [List.length_nil, Nat.zero_add, Nat.add_comm, nthCall, hnext, Option.bind_some, hstands.stack_nil]
    rfl
  | cons item' remaining ih =>
    obtain ⟨c', hnext, hstands⟩ := next_item hroot h
    have hrest := ih hstands
    rw [List.length_cons, Nat.add_right_comm, nthCall, hnext, Option.bind_some, hrest]

theorem nthCall_eq (hroot : root.Valid P) (n : Nat) :
    nthCall Iter.next n (Iter.new root) = some root.toList[n % (root.toList.length + 1)]? := by
  rcases hroot with rfl | hroot
  · induction n with
    | zero => rfl
    | succ n ih =>
      have hnext : Iter.next (Iter.new (SumTree.new : SumTree T S)) = some (none, Iter.new SumTree.new) := rfl
      rw [nthCall, hnext, Option.bind_some, ih]
      rfl
  obtain ⟨c, hnext, hstands⟩ := next_new hroot
  obtain ⟨item, items, hitems⟩ := List.exists_cons_of_ne_nil hroot.toList_ne_nil
  rw [hitems] at hnext hstands
  induction n using Nat.strong_induction_on with
  | _ n ih =>
    rw [hitems]
    rcases Nat.lt_or_ge n (items.length + 1 + 1) with hlt | hge
    · rw [List.length_cons, Nat.mod_eq_of_lt hlt]
      cases n with
      | zero => rw [nthCall, hnext]; rfl
      | succ n =>
        have hrest := nthCall_of_stands (Or.inr hroot) hstands (Nat.le_of_lt_succ (Nat.lt_of_succ_lt_succ hlt))
        rw [nthCall, hnext, Option.bind_some, hrest, List.getElem?_cons_succ]
    · obtain ⟨n, rfl⟩ := Nat.exists_eq_add_of_le hge
      have hagain := nthCall_again (Or.inr hroot) hstands n
      have hbefore := ih n (by omega)
      rw [List.length_cons, Nat.add_mod_left, Nat.add_right_comm, nthCall, hnext, Option.bind_some, hagain,
        hbefore, hitems, List.length_cons]

end Iter

/-- **Past the end.**  A call of `iter` and the same call of a fresh cursor give the same, the item at its
number or nothing, if it is not past the end or it is the last before `iter` starts again. -/
theorem nthCall_agree_iff (hroot : root.Valid P) (n : Nat) :
    ∃ ofIter ofCursor, nthCall Iter.next n (Iter.new root) = some ofIter ∧
      nthCall Cursor.iterNext n (Cursor.new root : Cursor T S Unit) = some ofCursor ∧
      ((ofIter = ofCursor ∧ ofCursor = root.toList[n]?) ↔
        n < root.toList.length ∨ (root.toList.length + 1) ∣ (n + 1)) := by
  refine ⟨_, _, Iter.nthCall_eq hroot n, Cursor.nthCall_eq (R := False) False.elim hroot n, ?_⟩
  rw [and_iff_left rfl]
  rcases Nat.lt_or_ge n root.toList.length with hlt | hge
  · rw [Nat.mod_eq_of_lt (Nat.lt_succ_of_lt hlt)]
    exact iff_of_true rfl (Or.inl hlt)
  · have hmod : n % (root.toList.length + 1) < root.toList.length + 1 := Nat.mod_lt n (Nat.succ_pos _)
    rw [List.getElem?_eq_none hge, List.getElem?_eq_none_iff, or_iff_right (not_lt.mpr hge),
      Nat.dvd_iff_mod_eq_zero, Nat.succ_mod_succ_eq_zero_iff]
    omega

/-- One entry of a map. -/
def oneEntry : SumTree (MapEntry Nat Nat) (MapKey Nat) := leaf ⟨some 7⟩ [⟨7, 0⟩] [⟨some 7⟩]

theorem oneEntry_valid : oneEntry.Valid True :=
  Or.inr (.leaf (List.cons_ne_nil _ _) (by decide) rfl fun _ => rfl)

/-- Of one item, the third call of `iter` gives the item again. -/
theorem not_nthCall_agree : ¬ ∀ t : SumTree (MapEntry Nat Nat) (MapKey Nat), t.Valid True → ∀ n,
    nthCall Iter.next n (Iter.new t) = some t.toList[n]? ∧
      nthCall Cursor.iterNext n (Cursor.new t : Cursor _ _ Unit) = some t.toList[n]? := by
  intro h
  have hiter : nthCall Iter.next 2 (Iter.new oneEntry) = some (some ⟨7, 0⟩) := by decide
  rw [(h oneEntry oneEntry_valid 2).1] at hiter
  exact absurd hiter (by decide)

theorem nthCall_agree_iff_oneEntry : oneEntry.Valid True ∧
    ∃ ofIter ofCursor, nthCall Iter.next 3 (Iter.new oneEntry) = some ofIter ∧
      nthCall Cursor.iterNext 3 (Cursor.new oneEntry : Cursor _ _ Unit) = some ofCursor ∧
      ((ofIter = ofCursor ∧ ofCursor = oneEntry.toList[3]?) ↔
        3 < oneEntry.toList.length ∨ (oneEntry.toList.length + 1) ∣ (3 + 1)) :=
  ⟨oneEntry_valid, nthCall_agree_iff oneEntry_valid 3⟩

end SumTree

end FcGpui

/-!
# Before the first item

An empty stack stands for three places of a cursor: it is new, it has been moved back to
before the first item, or it is at the end.  A search forward tells them apart by `at_end`,
but `seek_internal` pushes the root only if `did_seek` is not set, so from before the
first item it finds nothing on the stack: it passes no item and leaves the cursor at the
end (`seekInternal_beforeStart`).

**Main result.**  `offTheFront_not_asNew`: there a cursor never does what a new one does.
-/

namespace FcGpui

namespace SumTree

variable {T S D A : Type} [Summary S] [Item T S] [Dimension D S] {P : Prop}

open Summary

namespace Cursor

variable {root t : SumTree T S} {c c' : Cursor T S D} {target : SeekTarget D} {bias : Bias}

/-- Both panic, or the results are the same and the cursors are in the same place. -/
def Agree (r r' : Option (A × Cursor T S D)) : Prop :=
  match r, r' with
  | none, none => True
  | some (a, c), some (a', c') => a = a' ∧ c.item = c'.item ∧ c.position = c'.position
  | _, _ => False

/-- What is sliced off, as its items. -/
def sliced (r : Option (SumTree T S × Cursor T S D)) : Option (List T × Cursor T S D) :=
  r.map fun r => (r.1.toList, r.2)

/-- Seeking forward, slicing and summing up go as they do with a new cursor. -/
structure AsNew (c : Cursor T S D) (target : SeekTarget D) (bias : Bias) : Prop where
  seekForward : Agree (c.seekForward target bias) ((new c.tree : Cursor T S D).seekForward target bias)
  slice : Agree (sliced (c.slice target bias)) (sliced ((new c.tree : Cursor T S D).slice target bias))
  summary : ∀ (E : Type) [Dimension E S],
    Agree (c.summary target bias : Option (E × Cursor T S D)) ((new c.tree : Cursor T S D).summary target bias)
  suffix : Agree (sliced c.suffix) (sliced (new c.tree : Cursor T S D).suffix)

omit [Summary S] [Item T S] in
/-- From before the first item nothing is passed, and the cursor is at the end. -/
theorem seekInternal_beforeStart (root : SumTree T S) (target : SeekTarget D) (bias : Bias)
    (aggregate : SeekAggregate A T S) (a : A) :
    seekInternal target bias aggregate (beforeStart root true) a
      = if target.cmp (Dimension.zero S) = .lt then none
        else some (decide (target.cmp (Dimension.zero S) = .eq),
          { (beforeStart root true : Cursor T S D) with atEnd := true }, a) := by
  unfold seekInternal
  refine if_congr Iff.rfl rfl ?_
  cases bias <;> rfl

/-- A cursor that `prev` has left without an item is before the first. -/
theorem prev_item_none (hroot : root.Valid P) (hc : Reachable root c) (hprev : c.prev = some c')
    (hitem : c'.item = some none) : c' = beforeStart root true := by
  have hretreated : ∀ {c₁ : Cursor T S D} {passed : List T}, c.prev = some c₁ →
      Retreated False root (fun _ => true) c₁ passed → c' = beforeStart root true := by
    intro c₁ passed hprev₁ hretreated
    obtain rfl := Option.some.inj (hprev₁.symm.trans hprev)
    rcases hretreated with ⟨hstart, -⟩ | ⟨passed', item, skipped, remaining, hstands, -⟩
    · exact hstart
    · exact absurd (hstands.item.symm.trans hitem) nofun
  rcases hc.kept (R := False) False.elim hroot with ⟨p, hat⟩ | hlost
  · cases hat with
    | unmoved =>
      obtain ⟨c₁, hprev₁, h⟩ := searchBackward_end (R := False) (D := D) False.elim hroot (c := new root) rfl rfl rfl
        fun _ => true
      exact hretreated hprev₁ h
    | beforeStart => exact (Option.some.inj ((searchBackward_start root _).symm.trans hprev)).symm
    | stands hstands =>
      obtain ⟨c₁, hprev₁, h⟩ := hstands.searchBackward False.elim hroot fun _ => true
      exact hretreated hprev₁ h
  · obtain ⟨c₁, hprev₁, h⟩ := searchBackward_end (R := False) False.elim hroot hlost.tree hlost.stack
      (by rw [hlost.atEnd, Bool.not_true, Bool.and_false]) fun _ => true
    exact hretreated hprev₁ h

omit [Item T S] in
/-- The suffix from before the first item is empty. -/
theorem suffix_beforeStart (root : SumTree T S) : sliced (beforeStart root true : Cursor T S D).suffix
    = some ([], { (beforeStart root true : Cursor T S D) with atEnd := true }) := by
  rw [suffix, slice, seekInternal_beforeStart]
  rfl

/-- **Before the first item a cursor is lost.**  Where `prev` has moved a cursor to before the first item of
a tree that is not empty, it does not go on as a new cursor does, whatever the target is. -/
theorem offTheFront_not_asNew [LawfulSummary S] (hroot : root.Valid True) (hne : root.toList ≠ [])
    (hc : Reachable root c) (hprev : c.prev = some c') (hitem : c'.item = some none) (target : SeekTarget D)
    (bias : Bias) : ¬AsNew c' target bias := by
  intro h
  obtain rfl := prev_item_none hroot hc hprev hitem
  have hsuffix := h.suffix
  obtain ⟨suffix, c₁, hnew, -, hlist⟩ :=
    suffix_ready (R := False) (D := D) False.elim (fun _ => inferInstance) hroot .new
  have hnew : (new (beforeStart root true : Cursor T S D).tree : Cursor T S D).suffix = some (suffix, c₁) := hnew
  rw [suffix_beforeStart, hnew] at hsuffix
  exact hne (hlist.symm.trans hsuffix.1.symm)

theorem offTheFront_not_asNew_fifteen :
    ∃ c c' : Cursor (MapEntry Nat Nat) (MapKey Nat) (MapKeyRef Nat), (new fifteen).next = some c ∧ c.prev = some c' ∧
      ¬AsNew c' (MapKeyRef.target ⟨some 8⟩) .left := by
  have ht : fifteen.Valid True := reachable_valid (reachable_fifteenEntries (Option.some_get _).symm)
  have hmoves : ((new fifteen).next.bind fun (c : Cursor _ _ (MapKeyRef Nat)) => c.prev.map Cursor.item)
      = some (some none) := by decide +kernel
  obtain ⟨c, hnext, hmoves⟩ := Option.bind_eq_some_iff.mp hmoves
  obtain ⟨c', hprev, hitem⟩ := Option.map_eq_some_iff.mp hmoves
  exact ⟨c, c', hnext, hprev, offTheFront_not_asNew ht (by decide +kernel) (.searchForward .new hnext) hprev hitem _ _⟩

/-- A tree of one entry, the cursor back before it: the slice up to the end is empty. -/
theorem slice_offTheFront_one :
    let one : SumTree (MapEntry Nat Nat) (MapKey Nat) := .leaf ⟨some 1⟩ [⟨1, 10⟩] [⟨some 1⟩]
    ∃ c : Cursor (MapEntry Nat Nat) (MapKey Nat) (MapKeyRef Nat),
      run Call.apply (new one) [.prev, .prev] = some c ∧ c.item = some none ∧ c.position = Dimension.zero (MapKey Nat) ∧
      c.tree = one ∧ ¬AsNew c (MapKeyRef.target ⟨some 1⟩) .right := by
  refine ⟨_, rfl, rfl, rfl, rfl, fun h => ?_⟩
  exact absurd h.slice.1 (by decide)

end Cursor

end SumTree

end FcGpui
