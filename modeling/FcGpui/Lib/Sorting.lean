import Mathlib

/-!
# Sorting by a key with an unspecified order of ties

A sort that is free to place elements of equal key as it likes is known only by
its contract: the result is a rearrangement and its keys ascend.
`UnstableSort` carries that contract, so a statement for every `UnstableSort`
is a statement about what the contract promises.

`settle` is the guarded form, which leaves a list alone when its keys ascend
already.  `settle_map_eq_iff` says when the guarded form keeps what a function
`c` sees at every position, whatever the sort does with ties: the keys ascend
already, or every element agrees under `c` with each element whose rank in the
key order covers its position (`Settled`).  `rankLt` and `rankLe` count the
elements with a smaller key and with a key not larger, so the elements with the
key of `e` occupy the positions from `rankLt e` up to `rankLe e` in every
sorted rearrangement.
-/

namespace FcGpui

section Sorting

variable {α β κ : Type} [LinearOrder κ]

/-- The keys of a list ascend. -/
def SortedBy (key : α → κ) (l : List α) : Prop := l.Pairwise fun a b => key a ≤ key b

instance (key : α → κ) (l : List α) : Decidable (SortedBy key l) :=
  inferInstanceAs (Decidable (l.Pairwise fun a b => key a ≤ key b))

/-- A sort by `key` that may place ties in any order. -/
structure UnstableSort (key : α → κ) where
  run : List α → List α
  perm : ∀ l, (run l).Perm l
  sorted : ∀ l, SortedBy key (run l)

namespace UnstableSort

/-- Insertion sort keeps the contract. -/
def byInsertion (key : α → κ) : UnstableSort key where
  run l := l.insertionSort fun a b => key a ≤ key b
  perm l := List.perm_insertionSort _ l
  sorted l := by
    have : IsTrans α fun a b => key a ≤ key b := ⟨fun _ _ _ h g => le_trans h g⟩
    have : Std.Total fun a b : α => key a ≤ key b := ⟨fun a b => le_total (key a) (key b)⟩
    exact List.pairwise_insertionSort _ l

/-- Sorts only what is not sorted. -/
def settle {key : α → κ} (s : UnstableSort key) (l : List α) : List α :=
  if SortedBy key l then l else s.run l

theorem settle_perm {key : α → κ} (s : UnstableSort key) (l : List α) : (s.settle l).Perm l := by
  rw [settle]
  split
  · exact List.Perm.refl l
  · exact s.perm l

theorem settle_sorted {key : α → κ} (s : UnstableSort key) (l : List α) :
    SortedBy key (s.settle l) := by
  rw [settle]
  split
  · assumption
  · exact s.sorted l

/-- Any sorted rearrangement of one list is what some sort makes of it. -/
theorem exists_run_eq {key : α → κ} {l m : List α} (hp : m.Perm l) (hs : SortedBy key m) :
    ∃ s : UnstableSort key, s.run l = m := by
  classical
  refine ⟨⟨fun x => if x = l then m else (byInsertion key).run x, fun x => ?_, fun x => ?_⟩, ?_⟩
  · split
    · rename_i h; subst h; exact hp
    · exact (byInsertion key).perm x
  · split
    · exact hs
    · exact (byInsertion key).sorted x
  · exact if_pos rfl

end UnstableSort

/-! ### Ranks -/

/-- How many elements have a smaller key. -/
def rankLt (key : α → κ) (l : List α) (e : α) : Nat := l.countP fun a => decide (key a < key e)

/-- How many elements have a key not larger. -/
def rankLe (key : α → κ) (l : List α) (e : α) : Nat := l.countP fun a => decide (key a ≤ key e)

variable {key : α → κ} {l : List α}

/-- In a sorted list an element sits between its two ranks. -/
theorem rank_of_sorted {i : Nat} {e : α} (hs : SortedBy key l)
    (hi : l[i]? = some e) : rankLt key l e ≤ i ∧ i < rankLe key l e := by
  obtain ⟨hlt, he⟩ := List.getElem?_eq_some_iff.mp hi
  have hsplit : l = l.take i ++ e :: l.drop (i + 1) := by
    rw [← he, List.getElem_cons_drop, List.take_append_drop]
  have hpre : ∀ a ∈ l.take i, key a ≤ key e := by
    intro a ha
    rw [SortedBy, hsplit, List.pairwise_append] at hs
    exact hs.2.2 a ha e List.mem_cons_self
  have hpost : ∀ a ∈ l.drop (i + 1), key e ≤ key a := by
    intro a ha
    rw [SortedBy, hsplit, List.pairwise_append, List.pairwise_cons] at hs
    exact hs.2.1.1 a ha
  have hlen : (l.take i).length = i := by rw [List.length_take]; omega
  have hzero : (l.drop (i + 1)).countP (fun a => decide (key a < key e)) = 0 :=
    List.countP_eq_zero.mpr fun a ha => by simpa using hpost a ha
  constructor
  · rw [rankLt, hsplit, List.countP_append, List.countP_cons_of_neg (by simp), hzero]
    have := List.countP_le_length (p := fun a => decide (key a < key e)) (l := l.take i)
    omega
  · rw [rankLe, hsplit, List.countP_append, List.countP_cons_of_pos (by simp),
      List.countP_eq_length.mpr (fun a ha => by simpa using hpre a ha), hlen]
    omega

theorem rankLt_perm {m : List α} (h : l.Perm m) (e : α) :
    rankLt key l e = rankLt key m e := h.countP_eq _

theorem rankLe_perm {m : List α} (h : l.Perm m) (e : α) :
    rankLe key l e = rankLe key m e := h.countP_eq _

/-- Elements of one key, between those below it and those past it. -/
theorem sortedBy_around {lo mid hi : List α} {k : κ} (hlo : SortedBy key lo) (hhi : SortedBy key hi)
    (hmid : ∀ a ∈ mid, key a = k) (hbelow : ∀ a ∈ lo, key a < k) (hpast : ∀ a ∈ hi, k < key a) :
    SortedBy key (lo ++ (mid ++ hi)) := by
  have hties : SortedBy key mid :=
    List.pairwise_of_forall_mem_list fun a ha b hb => by rw [hmid a ha, hmid b hb]
  rw [SortedBy, List.pairwise_append, List.pairwise_append]
  refine ⟨hlo, ⟨hties, hhi, fun a ha b hb => ?_⟩, fun a ha b hb => ?_⟩
  · rw [hmid a ha]
    exact (hpast b hb).le
  · rcases List.mem_append.mp hb with hb | hb
    · rw [hmid b hb]
      exact (hbelow a ha).le
    · exact (hbelow a ha).le.trans (hpast b hb).le

/-- **Every position between the two ranks of an element is where some sort
puts it.** -/
theorem exists_sorted_perm_at {e : α} (he : e ∈ l) {i : Nat}
    (h1 : rankLt key l e ≤ i) (h2 : i < rankLe key l e) :
    ∃ m : List α, m.Perm l ∧ SortedBy key m ∧ m[i]? = some e := by
  set lo := l.filter fun a => decide (key a < key e) with hlo
  set rest := l.filter fun a => !decide (key a < key e) with hrest
  set eqs := rest.filter fun a => decide (key a ≤ key e) with heqs
  set hi := rest.filter fun a => !decide (key a ≤ key e) with hhi
  have hmemEqs : ∀ a, a ∈ eqs ↔ a ∈ l ∧ key a = key e := by
    intro a
    simp only [heqs, hrest, List.mem_filter, Bool.not_eq_true', decide_eq_false_iff_not, not_lt,
      decide_eq_true_eq, and_assoc]
    exact and_congr_right fun _ => ⟨fun h => le_antisymm h.2 h.1, fun h => ⟨h.ge, h.le⟩⟩
  obtain ⟨u, v, huv⟩ := List.append_of_mem ((hmemEqs e).mpr ⟨he, rfl⟩)
  set ties := u ++ v with hties
  set lo' := (UnstableSort.byInsertion key).run lo with hlo'
  set hi' := (UnstableSort.byInsertion key).run hi with hhi'
  have hlop : lo'.Perm lo := (UnstableSort.byInsertion key).perm lo
  have hhip : hi'.Perm hi := (UnstableSort.byInsertion key).perm hi
  have hmemTies : ∀ a ∈ ties, key a = key e := by
    intro a ha
    refine ((hmemEqs a).mp ?_).2
    rw [huv]
    rcases List.mem_append.mp ha with h | h
    · exact List.mem_append_left _ h
    · exact List.mem_append_right _ (List.mem_cons_of_mem _ h)
  have hkeyLo : ∀ a ∈ lo', key a < key e := fun a ha => by
    have := hlop.mem_iff.mp ha
    simpa using (List.mem_filter.mp this).2
  have hkeyHi : ∀ a ∈ hi', key e < key a := fun a ha => by
    have := hhip.mem_iff.mp ha
    simpa using (List.mem_filter.mp this).2
  have hloLen : lo'.length = rankLt key l e := by
    rw [hlop.length_eq, rankLt, List.countP_eq_length_filter]
  have htiesLen : lo'.length + ties.length + 1 = rankLe key l e := by
    have hlePart : rankLe key l e = rankLe key lo e + rankLe key rest e := by
      rw [rankLe_perm (List.filter_append_perm (fun a => decide (key a < key e)) l).symm e,
        rankLe, rankLe, rankLe, List.countP_append]
    have hloAll : rankLe key lo e = lo.length :=
      List.countP_eq_length.mpr fun a ha => by
        simpa using (show key a < key e by simpa using (List.mem_filter.mp ha).2).le
    have heqsLen : rankLe key rest e = eqs.length := by
      rw [rankLe, List.countP_eq_length_filter]
    rw [hlePart, hloAll, heqsLen, huv, hlop.length_eq]
    simp only [hties, List.length_append, List.length_cons]
    omega
  set j := i - lo'.length with hj
  have hjle : j ≤ ties.length := by omega
  refine ⟨lo' ++ (ties.take j ++ e :: ties.drop j) ++ hi', ?_, ?_, ?_⟩
  · have hmid : (ties.take j ++ e :: ties.drop j).Perm eqs := by
      rw [huv]
      refine List.perm_middle.trans ?_
      rw [List.take_append_drop]
      exact List.perm_middle.symm
    have hrestP : (eqs ++ hi).Perm rest := List.filter_append_perm _ _
    have hall : (lo ++ rest).Perm l := List.filter_append_perm _ _
    rw [List.append_assoc]
    exact (hlop.append ((hmid.append hhip).trans hrestP)).trans hall
  · have hmidKey : ∀ a ∈ ties.take j ++ e :: ties.drop j, key a = key e := by
      intro a ha
      rcases List.mem_append.mp ha with h | h
      · exact hmemTies a (List.mem_of_mem_take h)
      · rcases List.mem_cons.mp h with rfl | h
        · rfl
        · exact hmemTies a (List.mem_of_mem_drop h)
    rw [List.append_assoc]
    exact sortedBy_around ((UnstableSort.byInsertion key).sorted lo) ((UnstableSort.byInsertion key).sorted hi)
      hmidKey hkeyLo hkeyHi
  · have htake : (ties.take j).length = j := by rw [List.length_take]; omega
    rw [List.append_assoc, List.getElem?_append_right (by omega), ← hj, List.append_assoc,
      List.getElem?_append_right (by omega), htake, Nat.sub_self]
    rfl

/-! ### When sorting moves nothing `c` can see -/

/-- The keys ascend, or every element agrees under `c` with each element whose
ranks cover its position. -/
def Settled (key : α → κ) (c : α → β) (l : List α) : Prop :=
  SortedBy key l ∨
    ∀ i x, l[i]? = some x → ∀ e ∈ l, rankLt key l e ≤ i → i < rankLe key l e → c x = c e

/-- **A guarded sort keeps what `c` sees at every position, however it places
ties, exactly when the list is settled.** -/
theorem settle_map_eq_iff {c : α → β} :
    (∀ s : UnstableSort key, (s.settle l).map c = l.map c) ↔ Settled key c l := by
  constructor
  · intro h
    by_cases hs : SortedBy key l
    · exact Or.inl hs
    · refine Or.inr fun i x hx e he h1 h2 => ?_
      obtain ⟨m, hp, hm, hmi⟩ := exists_sorted_perm_at he h1 h2
      obtain ⟨s, hrun⟩ := UnstableSort.exists_run_eq hp hm
      have hmap := h s
      rw [UnstableSort.settle, if_neg hs, hrun] at hmap
      have hi := congrArg (·[i]?) hmap
      simp only [List.getElem?_map, hx, hmi, Option.map_some] at hi
      exact (Option.some.inj hi).symm
  · rintro (hs | h) s
    · rw [UnstableSort.settle, if_pos hs]
    · have hp := s.settle_perm l
      refine List.ext_getElem? fun i => ?_
      rw [List.getElem?_map, List.getElem?_map]
      by_cases hi : i < l.length
      · have hi' : i < (s.settle l).length := by rw [hp.length_eq]; exact hi
        have hget := List.getElem?_eq_getElem hi'
        obtain ⟨h1, h2⟩ := rank_of_sorted (s.settle_sorted l) hget
        rw [rankLt_perm hp] at h1
        rw [rankLe_perm hp] at h2
        rw [hget, List.getElem?_eq_getElem hi, Option.map_some, Option.map_some,
          h i _ (List.getElem?_eq_getElem hi) _ (hp.mem_iff.mp (List.getElem_mem hi')) h1 h2]
      · rw [List.getElem?_eq_none (by rw [hp.length_eq]; omega),
          List.getElem?_eq_none (by omega)]

end Sorting

end FcGpui
