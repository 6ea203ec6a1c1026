import FcGpui.SumTree.ReachableCursors

/-!
# What a seek finds

Where comparing the target with the sums of ever more items is monotone, the item that a
seek finds is the first at which the target `StopsAt`: it is less than what ends there, or
equal with a left bias.

**Main result.**  `seek_finds_first`: a seek finds the first such item, and a seek forward
from an item finds it too, unless the target is just where the cursor is and the bias is
left: then the cursor stays, where a seek would go back.

Monotone here means that the target stops at every item after one at which it stops.  Of
a target that is only never greater again this need not hold with a right bias: it is
passed over with a subtree at whose end it is equal (`seek_not_first`).
-/

namespace FcGpui

namespace SumTree

variable {T S D A : Type} [Summary S] [Item T S] [Dimension D S] {P R : Prop}

open Summary

namespace Cursor

variable {root t : SumTree T S} {passed remaining : List T} {c c' : Cursor T S D} {target : SeekTarget D}
  {bias : Bias} {p : Place}

/-- The target is less than what ends with an item, or with a left bias it is just there. -/
def StopsAt (target : SeekTarget D) (bias : Bias) (items : List T) (i : Nat) : Prop :=
  target.cmp (positionAfter (items.take (i + 1))) = .lt ∨
    (target.cmp (positionAfter (items.take (i + 1))) = .eq ∧ bias = .left)

/-- Once the target stops at an item it stops at every later one. -/
def Monotone (target : SeekTarget D) (bias : Bias) (items : List T) : Prop :=
  ∀ i j, i ≤ j → j < items.length → StopsAt target bias items i → StopsAt target bias items j

/-- The first item from an index on at which the target stops, or the end. -/
structure IsFirst (target : SeekTarget D) (bias : Bias) (items : List T) (k i : Nat) : Prop where
  ge : k ≤ i
  le : i ≤ items.length
  before : ∀ j, k ≤ j → j < i → ¬StopsAt target bias items j
  stops : i < items.length → StopsAt target bias items i

theorem passes_eq_false_iff (target : SeekTarget D) (bias : Bias) (position : D) :
    passes target bias position = false ↔
      target.cmp position = .lt ∨ (target.cmp position = .eq ∧ bias = .left) := by
  unfold passes
  cases target.cmp position <;> cases bias <;> simp

variable {i k : Nat} {items : List T}

omit [Summary S] in
theorem Found.isFirst (hmono : Monotone target bias items)
    (h : Found target bias items k i) : IsFirst target bias items k i := by
  refine ⟨h.ge, h.le, fun j hkj hji hstops => ?_, fun hlt => (passes_eq_false_iff _ _ _).mp (h.stops hlt)⟩
  -- otherwise it would stop at the item before
  obtain ⟨n, rfl⟩ : ∃ n, i = n + 1 := Nat.exists_eq_succ_of_ne_zero (by omega)
  have hle := h.le
  have hlast := hmono j n (by omega) (by omega) hstops
  have hpasses := h.passes (by omega)
  rw [(passes_eq_false_iff _ _ _).mpr hlast] at hpasses
  exact absurd hpasses (by simp)

omit [Summary S] in
theorem IsFirst.unique {j : Nat} (hi : IsFirst target bias items k i)
    (hj : IsFirst target bias items k j) : i = j := by
  have hle := hi.le
  have hle' := hj.le
  rcases Nat.lt_trichotomy i j with hlt | heq | hlt
  · exact absurd (hi.stops (by omega)) (hj.before i hi.ge hlt)
  · exact heq
  · exact absurd (hj.stops (by omega)) (hi.before j hj.ge hlt)

omit [Summary S] in
/-- If the target passes what is before the index, the first item from there on is the first of all. -/
theorem IsFirst.from_start (hmono : Monotone target bias items)
    (hk : k = 0 ∨ passes target bias (positionAfter (items.take k)) = true)
    (h : IsFirst target bias items k i) : IsFirst target bias items 0 i := by
  refine ⟨Nat.zero_le _, h.le, fun j _ hji hstops => ?_, h.stops⟩
  by_cases hkj : k ≤ j
  · exact h.before j hkj hji hstops
  · obtain ⟨n, rfl⟩ : ∃ n, k = n + 1 := Nat.exists_eq_succ_of_ne_zero (by omega)
    have hle := h.le
    have hge := h.ge
    have hlast := hmono j n (by omega) (by omega) hstops
    rcases hk with hk | hk
    · exact absurd hk (Nat.succ_ne_zero _)
    · rw [(passes_eq_false_iff _ _ _).mpr hlast] at hk
      exact absurd hk (by simp)

omit [Summary S] in
/-- If the target stops before the index, the first item from there on is the one of the index. -/
theorem IsFirst.eq_start (hmono : Monotone target bias items) (hlt : k < items.length)
    (hk : k ≠ 0) (hstops : passes target bias (positionAfter (items.take k)) = false)
    (h : IsFirst target bias items k i) : i = k := by
  obtain ⟨n, rfl⟩ := Nat.exists_eq_succ_of_ne_zero hk
  have hge := h.ge
  by_contra hne
  exact h.before (n + 1) (Nat.le_refl _) (by omega)
    (hmono n (n + 1) (Nat.le_succ n) hlt ((passes_eq_false_iff _ _ _).mp hstops))

omit [Summary S] in
/-- What a seek returns: whether the target is where the item it finds begins, or with a left bias where it
ends. -/
theorem Sought.found_iff (hR : R) {found : Bool} {crossed : List T}
    (h : Sought R root target bias c passed found c' crossed remaining) : found = true ↔
      target.cmp (positionAfter (root.toList.take
        (if bias = .left then (passed ++ crossed).length + 1 else (passed ++ crossed).length))) = .eq := by
  have hitems := h.stands.toList
  have hpos := h.stands.start hR
  have hreached : reached bias c' remaining = positionAfter (root.toList.take
      (if bias = .left then (passed ++ crossed).length + 1 else (passed ++ crossed).length)) := by
    unfold reached
    split
    · cases remaining with
      | nil =>
        rw [hitems, List.append_nil, List.take_of_length_le (Nat.le_succ _)]
        exact hpos
      | cons item remaining =>
        rw [hitems, List.take_length_add_append, List.take_succ_cons, List.take_zero, positionAfter_concat, ← hpos]
        rfl
    · rw [hitems, List.take_left' rfl]
      exact hpos
  rw [h.found, decide_eq_true_iff, hreached]

omit [Summary S] in
theorem Stands.item_eq (h : Stands R root c passed remaining) : c.item = some root.toList[passed.length]? := by
  rw [h.item, h.toList, List.getElem?_append_right (Nat.le_refl _), Nat.sub_self, List.head?_eq_getElem?]

/-- **What a seek finds.**  A seek finds the first item at which the target stops, and tells whether the
target is there; a seek forward finds the same item, unless the cursor is just where the target is
and the bias is left: then it stays. -/
theorem seek_finds_first [LawfulSummary S] [LawfulDimension D S] {t : SumTree T S} (ht : t.Valid True)
    {target : SeekTarget D} {bias : Bias} (hmono : Monotone target bias t.toList)
    (hstart : target.cmp (Dimension.zero S) ≠ .lt) {c : Cursor T S D} (hc : Reachable t c) :
    ∃ i, IsFirst target bias t.toList 0 i ∧
      (∃ found c', c.seek target bias = some (found, c') ∧ At True t c' (.ofIndex t.toList.length i) ∧
        c'.item = some t.toList[i]? ∧
        (found = true ↔
          target.cmp (positionAfter (t.toList.take (if bias = .left then i + 1 else i))) = .eq)) ∧
      ∀ item, c.item = some (some item) → target.cmp c.position ≠ .lt →
        ∃ k, At True t c (.item k) ∧ ∃ found c', c.seekForward target bias = some (found, c') ∧
          if target.cmp c.position = .eq ∧ bias = .left ∧ k ≠ 0 then At True t c' (.item k)
          else At True t c' (.ofIndex t.toList.length i) ∧ c'.item = some t.toList[i]? := by
  have hlaw : True → True ∧ LawfulSummary S ∧ LawfulDimension D S :=
    fun _ => ⟨trivial, inferInstance, inferInstance⟩
  have htree : c.tree = t := by
    rcases hc.kept hlaw ht with ⟨p, hat⟩ | hlost
    · exact hat.tree
    · exact hlost.tree
  obtain ⟨found, c', crossed, remaining, hseek, hsought⟩ :
      ∃ found c' crossed remaining, c.seek target bias = some (found, c') ∧
        Sought True t target bias (new t) [] found c' crossed remaining := seek_at hlaw ht htree hstart
  have hfirst := (hsought.found_place trivial).isFirst hmono
  refine ⟨_, hfirst, ⟨found, c', hseek, .stands hsought.stands, hsought.stands.item_eq, hsought.found_iff trivial⟩,
    fun item hitem hcmp => ?_⟩
  obtain ⟨passed, rest, hstands⟩ := hc.stands hlaw ht hitem
  have hat : At True t c _ := .stands hstands
  rw [hstands.toList, ofIndex_append, if_neg (List.cons_ne_nil _ _)] at hat
  obtain ⟨found₁, c₁, a₁, crossed₁, remaining₁, hforward, hsought₁, -⟩ :=
    seekInternal_finds bias hlaw unit_collects ht (.stands hstands) hcmp (a := ()) trivial
  have hfirst₁ := (hsought₁.found_place trivial).isFirst hmono
  have hpos : c.position = positionAfter (t.toList.take passed.length) := by
    rw [hstands.start trivial, hstands.toList, List.take_left' rfl]
  have hlt : passed.length < t.toList.length := by
    rw [hstands.toList, List.length_append]
    simp
  refine ⟨passed.length, hat, found₁, c₁, ?_, ?_⟩
  · rw [seekForward, hforward]
    rfl
  · have hat₁ : At True t c₁ _ := .stands hsought₁.stands
    split
    · rename_i htie
      have hstops : passes target bias (positionAfter (t.toList.take passed.length)) = false :=
        (passes_eq_false_iff _ _ _).mpr (Or.inr ⟨hpos ▸ htie.1, htie.2.1⟩)
      rw [hfirst₁.eq_start hmono hlt htie.2.2 hstops, Place.ofIndex, if_pos hlt] at hat₁
      exact hat₁
    · rename_i hpasses
      have hk : passed.length = 0 ∨ passes target bias (positionAfter (t.toList.take passed.length)) = true := by
        rw [← hpos]
        unfold passes
        cases hcase : target.cmp c.position <;> cases bias <;> simp_all
      have heq := (hfirst₁.from_start hmono hk).unique hfirst
      have hitem₁ := hsought₁.stands.item_eq
      rw [heq] at hat₁ hitem₁
      exact ⟨hat₁, hitem₁⟩

/-- The entries with the keys 0 to 14. -/
def fifteen : SumTree (MapEntry Nat Nat) (MapKey Nat) := fifteenEntries.get (by decide)

/-- In order of keys, with the one of an item to be found. -/
theorem monotone_keys : ∀ j < fifteen.toList.length, ∀ i < j + 1,
    StopsAt (MapKeyRef.target ⟨some 3⟩) .left fifteen.toList i →
      StopsAt (MapKeyRef.target ⟨some 3⟩) .left fifteen.toList j := by
  unfold StopsAt
  decide +kernel

theorem seek_finds_first_fifteen :
    ∃ i, IsFirst (MapKeyRef.target ⟨some 3⟩) .left fifteen.toList 0 i ∧
      ∃ found c', (Cursor.new fifteen).seek (MapKeyRef.target ⟨some 3⟩) .left = some (found, c') ∧
        c'.item = some fifteen.toList[i]? := by
  have ht : fifteen.Valid True := reachable_valid (reachable_fifteenEntries (Option.some_get _).symm)
  obtain ⟨i, hfirst, ⟨found, c', hseek, -, hitem, -⟩, -⟩ := seek_finds_first ht
    (fun i j hij hj => monotone_keys j hj i (Nat.lt_succ_of_le hij)) (by decide) (Reachable.new)
  exact ⟨i, hfirst, found, c', hseek, hitem⟩

/-- A target that is less than the first key and equal to every other. -/
def lessThenEqual : SeekTarget (MapKeyRef Nat) :=
  ⟨fun position => if position.key = none then .gt else if position.key = some 0 then .lt else .eq⟩

/-- A seek forward does not go back to an item that ends where the cursor is.  And where a target that is
less than what ends at an item is equal to what ends later, a seek with a right bias passes the item. -/
theorem seek_not_first :
    ((run Call.apply (Cursor.new fifteen) [.next, .next]).map fun c =>
        (MapKeyRef.target ⟨some 0⟩).cmp c.position) = some .eq ∧
    ((run Call.apply (Cursor.new fifteen) [.next, .next]).bind fun c =>
        (c.seekForward (MapKeyRef.target ⟨some 0⟩) .left).map fun r => r.2.item) = some (some (some ⟨1, 0⟩)) ∧
    ((Cursor.new fifteen).seek (MapKeyRef.target ⟨some 0⟩) .left).map (fun r => r.2.item)
      = some (some (some ⟨0, 0⟩)) ∧
    (∀ j < fifteen.toList.length, ∀ i < j + 1,
      lessThenEqual.cmp (positionAfter (fifteen.toList.take (i + 1))) ≠ .gt →
        lessThenEqual.cmp (positionAfter (fifteen.toList.take (j + 1))) ≠ .gt) ∧
    lessThenEqual.cmp (positionAfter (fifteen.toList.take 1)) = .lt ∧
    ((Cursor.new fifteen).seek lessThenEqual .right).map (fun r => r.2.item) = some (some none) := by
  decide +kernel

end Cursor

end SumTree

end FcGpui
