import Mathlib
import FcGpui.Lib.Sorting

/-!
# Ranges of a vector

`slice l a b` is the range `l[a..b]` of a vector, with `none` where the indexing
panics.  A vector that only grows at its end keeps its ranges
(`slice_append_left`), and what is appended between two readings of its length
is the range between them (`slice_append_middle`).
-/

namespace FcGpui

section Slice

variable {α β : Type}

/-- `l[a..b]`. -/
def slice (l : List α) (a b : Nat) : Option (List α) :=
  if a ≤ b ∧ b ≤ l.length then some ((l.drop a).take (b - a)) else none

variable {a b : Nat} {l m : List α}

theorem slice_eq_some (h : a ≤ b) (hb : b ≤ l.length) :
    slice l a b = some ((l.drop a).take (b - a)) := if_pos ⟨h, hb⟩

theorem bounds_of_slice (h : slice l a b = some m) : a ≤ b ∧ b ≤ l.length ∧ m = (l.drop a).take (b - a) := by
  rw [slice] at h
  split at h
  · rename_i hab
    exact ⟨hab.1, hab.2, (Option.some.inj h).symm⟩
  · exact absurd h (by simp)

/-- What was appended between two readings of the length is the range between
them. -/
theorem slice_append_middle (pre mid post : List α) :
    slice (pre ++ mid ++ post) pre.length (pre ++ mid).length = some mid := by
  rw [slice_eq_some (by simp) (by simp)]
  rw [List.append_assoc, List.drop_left, List.length_append, Nat.add_sub_cancel_left,
    List.take_left]

theorem slice_append_left (h : slice l a b = some m) (more : List α) : slice (l ++ more) a b = some m := by
  obtain ⟨hab, hb, rfl⟩ := bounds_of_slice h
  rw [slice_eq_some hab (by rw [List.length_append]; omega)]
  rw [List.drop_append_of_le_length (by omega),
    List.take_append_of_le_length (by rw [List.length_drop]; omega)]

/-- What comes after a beginning is the range from its end. -/
theorem slice_to_end (h : l <+: m) : slice m l.length m.length = some (m.drop l.length) := by
  obtain ⟨more, rfl⟩ := h
  have hmiddle := slice_append_middle l more []
  rw [List.append_nil] at hmiddle
  rw [hmiddle, List.drop_left]

theorem slice_of_extends {n : List α} (h : l <+: m) (hs : slice l a b = some n) : slice m a b = some n := by
  obtain ⟨more, rfl⟩ := h
  exact slice_append_left hs more

theorem slice_of_length {n : List α} (h : l.length = m.length)
    (hs : slice l a b = some n) : ∃ n', slice m a b = some n' := by
  obtain ⟨hab, hb, -⟩ := bounds_of_slice hs
  exact ⟨_, slice_eq_some hab (h ▸ hb)⟩

theorem slice_map (f : α → β) (l : List α) (a b : Nat) :
    slice (l.map f) a b = (slice l a b).map (List.map f) := by
  rw [slice, slice, List.length_map]
  split
  · rw [Option.map_some, List.map_take, List.map_drop]
  · rfl

theorem getElem?_of_slice {i : Nat} (h : slice l a b = some m) (hi : i < m.length) : l[a + i]? = m[i]? := by
  obtain ⟨hab, hb, rfl⟩ := bounds_of_slice h
  have hlt : i < b - a := by
    rw [List.length_take] at hi
    omega
  rw [List.getElem?_take_of_lt hlt, List.getElem?_drop]

/-- The same range of two vectors that are related position by position. -/
theorem forall₂_of_slice {R : α → β → Prop} {l' m' : List β}
    (h : slice l a b = some m) (h' : slice l' a b = some m')
    (hR : ∀ (i : Nat) (x : α), ∀ y ∈ m', l[i]? = some x → l'[i]? = some y → R x y) : List.Forall₂ R m m' := by
  obtain ⟨hab, hb, hm⟩ := bounds_of_slice h
  obtain ⟨-, hb', hm'⟩ := bounds_of_slice h'
  rw [List.forall₂_iff_get]
  refine ⟨?_, fun i hi hi' => hR (a + i) _ _ (List.get_mem _ _) ?_ ?_⟩
  · rw [hm, hm', List.length_take, List.length_take, List.length_drop, List.length_drop]
    omega
  · rw [getElem?_of_slice h hi, List.getElem?_eq_getElem hi]
    rfl
  · rw [getElem?_of_slice h' hi', List.getElem?_eq_getElem hi']
    rfl

/-- A stretch is replaced by one of the same length. -/
theorem getElem?_replace {mid : List α} {start i : Nat} (h : start ≤ l.length) :
    (l.take start ++ mid ++ l.drop (start + mid.length))[i]? =
      if i < start then l[i]? else if i < start + mid.length then mid[i - start]? else l[i]? := by
  have hlen : (l.take start).length = start := by rw [List.length_take, Nat.min_eq_left h]
  rw [List.append_assoc]
  split
  · rename_i hi
    rw [List.getElem?_append_left (by omega), List.getElem?_take_of_lt hi]
  · rw [List.getElem?_append_right (by omega), hlen]
    split
    · rw [List.getElem?_append_left (by omega)]
    · rw [List.getElem?_append_right (by omega), List.getElem?_drop]
      congr 1
      omega

end Slice

end FcGpui

/-!
# Lists cut at a key

`PartitionPoint` is the contract of a search for the point at which a list is cut by a
predicate: where the predicate holds of a first part and of nothing behind it, the point is
the length of that part.  In a list sorted by a key, the elements below a key are a first
part (`filter_lt_append_filter_ge`), and the first element at or past another key is found in
one of the two parts (`find?_below`, `find?_past`).  If no two elements have one key, an element
is found by its own, from either end (`find?_key_le`, `find?_reverse_le_key`).
-/

namespace FcGpui

section Partition

variable {α κ : Type} [LinearOrder κ] {key : α → κ} {l : List α}

/-- A search for the point at which a predicate ceases to hold.  What it finds in a list that is not
partitioned is not specified. -/
structure PartitionPoint (α : Type) where
  point : (α → Bool) → List α → Nat
  point_eq : ∀ p l, (∀ a ∈ l.dropWhile p, p a = false) → point p l = (l.takeWhile p).length

/-- The search from the front. -/
def PartitionPoint.linear (α : Type) : PartitionPoint α := ⟨fun p l => (l.takeWhile p).length, fun _ _ _ => rfl⟩

theorem take_takeWhile_length (p : α → Bool) (l : List α) : l.take (l.takeWhile p).length = l.takeWhile p :=
  (List.prefix_iff_eq_take.mp (List.takeWhile_prefix p)).symm

theorem drop_takeWhile_length (p : α → Bool) (l : List α) : l.drop (l.takeWhile p).length = l.dropWhile p := by
  have hsplit : (l.takeWhile p ++ l.dropWhile p).drop (l.takeWhile p).length = l.dropWhile p := List.drop_left
  rwa [List.takeWhile_append_dropWhile] at hsplit

theorem SortedBy.tail {a : α} (h : SortedBy key (a :: l)) : SortedBy key l := (List.pairwise_cons.mp h).2

theorem SortedBy.le_of_mem {a b : α} (h : SortedBy key (a :: l)) (hb : b ∈ l) : key a ≤ key b :=
  (List.pairwise_cons.mp h).1 b hb

/-- **A sorted list is cut by a key** into the elements below it and those at or past it. -/
theorem takeWhile_lt (h : SortedBy key l) (k : κ) :
    (l.takeWhile fun a => key a < k) = l.filter fun a => key a < k := by
  induction l with
  | nil => rfl
  | cons a l ih =>
    by_cases ha : key a < k
    · rw [List.takeWhile_cons_of_pos (by simpa using ha), List.filter_cons_of_pos (by simpa using ha), ih h.tail]
    · have hnone : (l.filter fun b => key b < k) = [] := by
        refine List.filter_eq_nil_iff.mpr fun b hb => ?_
        simpa using (not_lt.mp ha).trans (h.le_of_mem hb)
      rw [List.takeWhile_cons_of_neg (by simpa using ha), List.filter_cons_of_neg (by simpa using ha), hnone]

theorem dropWhile_lt (h : SortedBy key l) (k : κ) :
    (l.dropWhile fun a => key a < k) = l.filter fun a => k ≤ key a := by
  induction l with
  | nil => rfl
  | cons a l ih =>
    by_cases ha : key a < k
    · rw [List.dropWhile_cons_of_pos (by simpa using ha), List.filter_cons_of_neg (by simpa using ha), ih h.tail]
    · have hall : ((a :: l).filter fun b => k ≤ key b) = a :: l := by
        refine List.filter_eq_self.mpr fun b hb => ?_
        rcases List.mem_cons.mp hb with rfl | hb
        · simpa using ha
        · simpa using (not_lt.mp ha).trans (h.le_of_mem hb)
      rw [List.dropWhile_cons_of_neg (by simpa using ha), hall]

theorem filter_lt_append_filter_ge (h : SortedBy key l) (k : κ) :
    (l.filter fun a => key a < k) ++ (l.filter fun a => k ≤ key a) = l := by
  rw [← takeWhile_lt h, ← dropWhile_lt h, List.takeWhile_append_dropWhile]

theorem point_lt (P : PartitionPoint α) (h : SortedBy key l) (k : κ) :
    P.point (fun a => decide (key a < k)) l = (l.filter fun a => key a < k).length := by
  rw [P.point_eq, takeWhile_lt h]
  rw [dropWhile_lt h]
  intro a ha
  have hle := (List.mem_filter.mp ha).2
  simpa using hle

/-- The first element past a key is behind the elements below another one that is not greater. -/
theorem find?_past {k i : κ} (h : SortedBy key l) (hle : k ≤ i) :
    (l.filter fun a => k ≤ key a).find? (fun a => i ≤ key a) = l.find? fun a => i ≤ key a := by
  have hnone : (l.filter fun a => key a < k).find? (fun a => i ≤ key a) = none := by
    refine List.find?_eq_none.mpr fun a ha => ?_
    have hlt := (List.mem_filter.mp ha).2
    simpa using (of_decide_eq_true hlt).trans_le hle
  conv_rhs => rw [← filter_lt_append_filter_ge h k, List.find?_append, hnone, Option.none_or]

/-- The first element past a key is below another one that is not smaller, or it is the first one past that. -/
theorem find?_below {k i : κ} (h : SortedBy key l) (hle : i ≤ k) :
    l.find? (fun a => i ≤ key a) =
      ((l.filter fun a => key a < k).find? fun a => i ≤ key a).or (l.find? fun a => k ≤ key a) := by
  have hpast : (l.filter fun a => k ≤ key a).find? (fun a => i ≤ key a)
      = (l.filter fun a => k ≤ key a).find? fun a => k ≤ key a := by
    refine List.find?_congr fun a ha => ?_
    have hk := of_decide_eq_true (List.mem_filter.mp ha).2
    rw [decide_eq_true hk, decide_eq_true (hle.trans hk)]
  rw [← find?_past (k := k) (i := k) h le_rfl, ← hpast, ← List.find?_append, filter_lt_append_filter_ge h]

/-- In a strictly sorted list, an element is the first that is not below its key. -/
theorem find?_key_le {a : α} (h : l.Pairwise fun b c => key b < key c) (ha : a ∈ l) :
    l.find? (fun b => decide (key a ≤ key b)) = some a := by
  obtain ⟨front, rest, rfl⟩ := List.append_of_mem ha
  refine List.find?_eq_some_iff_append.mpr ⟨by simp, front, rest, rfl, fun b hb => ?_⟩
  have hlt := (List.pairwise_append.mp h).2.2 b hb a List.mem_cons_self
  simpa using hlt

/-- From the back, it is the first that is not above its key. -/
theorem find?_reverse_le_key {a : α} (h : l.Pairwise fun b c => key b < key c) (ha : a ∈ l) :
    l.reverse.find? (fun b => decide (key b ≤ key a)) = some a := by
  obtain ⟨front, rest, rfl⟩ := List.append_of_mem ha
  refine List.find?_eq_some_iff_append.mpr ⟨by simp, rest.reverse, front.reverse, by simp, fun b hb => ?_⟩
  have hcons := (List.pairwise_append.mp h).2.1
  have hlt := (List.pairwise_cons.mp hcons).1 b (List.mem_reverse.mp hb)
  simpa using hlt

end Partition

end FcGpui
