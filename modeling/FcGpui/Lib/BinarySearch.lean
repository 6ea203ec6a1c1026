import Mathlib

/-!
# Binary search

`BinarySearch` is the contract of a search in a list that a function cuts into what comes before, what is
searched for, and what comes after: what is found is searched for, and an index that is given instead is
the place for it.  `BinarySearch.halving` goes to the middle of what is left.
-/

namespace FcGpui

universe u

variable {α : Type u} {f : α → Ordering} {l : List α}

/-- Before, then equal, then after. -/
def Cuts (f : α → Ordering) (l : List α) : Prop :=
  l.Pairwise fun a b => (f b = .lt → f a = .lt) ∧ (f a = .gt → f b = .gt)

/-- What is found in a list that is not cut is not specified, nor which of several. -/
structure BinarySearch (α : Type u) where
  search : (α → Ordering) → List α → Except Nat Nat
  found : ∀ {f l i}, Cuts f l → search f l = .ok i → ∃ a, l[i]? = some a ∧ f a = .eq
  missing : ∀ {f l i}, Cuts f l → search f l = .error i →
    i ≤ l.length ∧ (∀ a ∈ l.take i, f a = .lt) ∧ ∀ a ∈ l.drop i, f a = .gt

/-- From `base`, with `size` elements left; `fuel` is as large. -/
def halve (f : α → Ordering) (l : List α) : Nat → Nat → Nat → Nat
  | 0, base, _ => base
  | fuel + 1, base, size =>
    if 1 < size then
      let mid := base + size / 2
      halve f l fuel (if (l[mid]?).map f = some .gt then base else mid) (size - size / 2)
    else base

def halvingSearch (f : α → Ordering) (l : List α) : Except Nat Nat :=
  let base := halve f l l.length 0 l.length
  match (l[base]?).map f with
  | none => .error 0
  | some .eq => .ok base
  | some .lt => .error (base + 1)
  | some .gt => .error base

theorem Cuts.get (h : Cuts f l) {i j : Nat} (hij : i < j) {a b : α} (ha : l[i]? = some a)
    (hb : l[j]? = some b) : (f b = .lt → f a = .lt) ∧ (f a = .gt → f b = .gt) := by
  obtain ⟨hi, rfl⟩ := List.getElem?_eq_some_iff.mp ha
  obtain ⟨hj, rfl⟩ := List.getElem?_eq_some_iff.mp hb
  exact List.pairwise_iff_getElem.mp h i j hi hj hij

/-- **Where the halving ends**, all further on comes after, and so does what is there at the front only. -/
theorem halve_spec (h : Cuts f l) (fuel : Nat) : ∀ {base size : Nat}, 0 < size → size ≤ fuel + 1 →
    base + size ≤ l.length → (base = 0 ∨ (l[base]?).map f ≠ some .gt) →
    (∀ i a, base + size ≤ i → l[i]? = some a → f a = .gt) →
      halve f l fuel base size < l.length ∧
        (halve f l fuel base size = 0 ∨ (l[halve f l fuel base size]?).map f ≠ some .gt) ∧
        ∀ i a, halve f l fuel base size < i → l[i]? = some a → f a = .gt := by
  induction fuel with
  | zero =>
    intro base size hsize hfuel hlength hbase hafter
    rw [halve]
    exact ⟨by omega, hbase, fun i a hi ha => hafter i a (by omega) ha⟩
  | succ fuel ih =>
    intro base size hsize hfuel hlength hbase hafter
    simp only [halve]
    by_cases hmore : 1 < size
    · rw [if_pos hmore]
      by_cases hgt : (l[base + size / 2]?).map f = some .gt
      · rw [if_pos hgt]
        obtain ⟨m, hm, hgt⟩ := Option.map_eq_some_iff.mp hgt
        refine ih (by omega) (by omega) (by omega) hbase fun i a hi ha => ?_
        rcases Nat.eq_or_lt_of_le (show base + size / 2 ≤ i by omega) with rfl | hlt
        · rw [hm] at ha
          rwa [← Option.some.inj ha]
        · exact (h.get hlt hm ha).2 hgt
      · rw [if_neg hgt]
        exact ih (by omega) (by omega) (by omega) (Or.inr hgt) fun i a hi ha => hafter i a (by omega) ha
    · rw [if_neg hmore]
      exact ⟨by omega, hbase, fun i a hi ha => hafter i a (by omega) ha⟩

theorem halve_all (h : Cuts f l) (hpos : 0 < l.length) : ∃ a, l[halve f l l.length 0 l.length]? = some a ∧
    (f a = .gt → halve f l l.length 0 l.length = 0) ∧
      ∀ i b, halve f l l.length 0 l.length < i → l[i]? = some b → f b = .gt := by
  obtain ⟨hlt, hgt, hafter⟩ := halve_spec h l.length hpos (by omega) (by omega) (Or.inl rfl) fun i b hi hb => by
    obtain ⟨hlt, -⟩ := List.getElem?_eq_some_iff.mp hb
    omega
  refine ⟨_, List.getElem?_eq_getElem hlt, fun hfa => hgt.resolve_right fun hne => hne ?_, hafter⟩
  rw [List.getElem?_eq_getElem hlt, Option.map_some, hfa]

theorem halvingSearch_found {i : Nat} (hi : halvingSearch f l = .ok i) : ∃ a, l[i]? = some a ∧ f a = .eq := by
  rw [halvingSearch] at hi
  cases ha : l[halve f l l.length 0 l.length]? with
  | none =>
    rw [ha] at hi
    cases hi
  | some a =>
    rw [ha, Option.map_some] at hi
    cases hfa : f a with
    | eq =>
      rw [hfa] at hi
      cases hi
      exact ⟨a, ha, hfa⟩
    | lt | gt =>
      rw [hfa] at hi
      cases hi

theorem halvingSearch_missing (h : Cuts f l) {i : Nat} (hi : halvingSearch f l = .error i) :
    i ≤ l.length ∧ (∀ a ∈ l.take i, f a = .lt) ∧ ∀ a ∈ l.drop i, f a = .gt := by
  rcases Nat.eq_zero_or_pos l.length with hzero | hpos
  · rw [List.length_eq_zero_iff.mp hzero] at hi ⊢
    cases hi
    simp
  obtain ⟨a, ha, hfront, hafter⟩ := halve_all h hpos
  obtain ⟨hlt, -⟩ := List.getElem?_eq_some_iff.mp ha
  rw [halvingSearch, ha, Option.map_some] at hi
  generalize halve f l l.length 0 l.length = base at *
  cases hfa : f a with
  | eq =>
    rw [hfa] at hi
    cases hi
  | lt =>
    rw [hfa] at hi
    cases hi
    refine ⟨hlt, fun b hb => ?_, fun b hb => ?_⟩
    · obtain ⟨j, hj⟩ := List.mem_iff_getElem?.mp hb
      rw [List.getElem?_take] at hj
      split_ifs at hj with hle
      rcases Nat.eq_or_lt_of_le (Nat.le_of_lt_succ hle) with rfl | hlt
      · rw [ha] at hj
        rwa [← Option.some.inj hj]
      · exact (h.get hlt hj ha).1 hfa
    · obtain ⟨j, hj⟩ := List.mem_iff_getElem?.mp hb
      rw [List.getElem?_drop] at hj
      exact hafter _ b (by omega) hj
  | gt =>
    rw [hfa] at hi
    cases hi
    obtain rfl := hfront hfa
    refine ⟨hlt.le, by simp, fun b hb => ?_⟩
    obtain ⟨j, hj⟩ := List.mem_iff_getElem?.mp hb
    rw [List.drop_zero] at hj
    rcases Nat.eq_zero_or_pos j with rfl | hpos
    · rw [ha] at hj
      rwa [← Option.some.inj hj]
    · exact hafter j b hpos hj

/-- The search that halves what is left. -/
def BinarySearch.halving (α : Type u) : BinarySearch α where
  search := halvingSearch
  found _ := halvingSearch_found
  missing h := halvingSearch_missing h

end FcGpui
