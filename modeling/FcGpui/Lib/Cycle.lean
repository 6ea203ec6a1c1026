import Mathlib

/-!
# Going around a sorted list

The items of `l` are in ascending order of `rank`.  `cyclicNext rank l k` is the first item
above `k`, or the first of all where there is none, and `cyclicPrev` the same the other way.

From the item of an index they go to the next index and the one before, modulo the length
(`cyclicNext_getElem`, `cyclicPrev_getElem`), so each undoes the other, and as many steps as
there are items visit a rotation of the list (`range_map_rotate`).
-/

namespace FcGpui

section Cycle

variable {α κ : Type} [LinearOrder κ] (rank : α → κ)

def cyclicNext (l : List α) (k : κ) : Option α := (l.find? fun a => k < rank a).or l.head?

def cyclicPrev (l : List α) (k : κ) : Option α := (l.reverse.find? fun a => rank a < k).or l.getLast?

variable {rank} {l lo hi : List α} {k : κ}

/-- **The list parted at a rank**: the next item is behind it. -/
theorem cyclicNext_append (hlo : ∀ a ∈ lo, rank a ≤ k) (hhi : ∀ a ∈ hi, k < rank a) :
    cyclicNext rank (lo ++ hi) k = hi.head?.or (lo ++ hi).head? := by
  have hnone : lo.find? (fun a => k < rank a) = none := by
    rw [List.find?_eq_none]
    intro a ha
    simpa using hlo a ha
  have hfirst : hi.find? (fun a => k < rank a) = hi.head? := by
    cases hi with
    | nil => rfl
    | cons a hi =>
      rw [List.find?_cons_of_pos, List.head?_cons]
      exact decide_eq_true (hhi a List.mem_cons_self)
  rw [cyclicNext, List.find?_append, hnone, Option.none_or, hfirst]

theorem cyclicPrev_append (hlo : ∀ a ∈ lo, rank a < k) (hhi : ∀ a ∈ hi, k ≤ rank a) :
    cyclicPrev rank (lo ++ hi) k = lo.getLast?.or (lo ++ hi).getLast? := by
  have hnone : hi.reverse.find? (fun a => rank a < k) = none := by
    rw [List.find?_eq_none]
    intro a ha
    simpa using hhi a (List.mem_reverse.mp ha)
  have hlast : lo.reverse.find? (fun a => rank a < k) = lo.getLast? := by
    cases lo using List.reverseRecOn with
    | nil => rfl
    | append_singleton lo a _ =>
      rw [List.reverse_append, List.reverse_singleton, List.singleton_append, List.find?_cons_of_pos,
        List.getLast?_concat]
      exact decide_eq_true (hlo a (List.mem_append_right _ (List.mem_singleton_self a)))
  rw [cyclicPrev, List.reverse_append, List.find?_append, hnone, Option.none_or, hlast]

theorem cyclicNext_eq_none : cyclicNext rank l k = none ↔ l = [] := by
  rw [cyclicNext, Option.or_eq_none_iff, List.head?_eq_none_iff]
  constructor
  · exact fun h => h.2
  · rintro rfl
    exact ⟨rfl, rfl⟩

theorem cyclicPrev_eq_none : cyclicPrev rank l k = none ↔ l = [] := by
  rw [cyclicPrev, Option.or_eq_none_iff, List.getLast?_eq_none_iff]
  constructor
  · exact fun h => h.2
  · rintro rfl
    exact ⟨rfl, rfl⟩

theorem mem_of_cyclicNext {a : α} (h : cyclicNext rank l k = some a) : a ∈ l := by
  rw [cyclicNext, Option.or_eq_some_iff] at h
  rcases h with h | ⟨-, h⟩
  · exact List.mem_of_find?_eq_some h
  · exact List.mem_of_mem_head? h

theorem mem_of_cyclicPrev {a : α} (h : cyclicPrev rank l k = some a) : a ∈ l := by
  rw [cyclicPrev, Option.or_eq_some_iff] at h
  rcases h with h | ⟨-, h⟩
  · exact List.mem_reverse.mp (List.mem_of_find?_eq_some h)
  · exact List.mem_of_getLast? h

theorem cyclicNext_map {β : Type} (f : β → α) (l : List β) (k : κ) :
    cyclicNext rank (l.map f) k = (cyclicNext (fun b => rank (f b)) l k).map f := by
  rw [cyclicNext, cyclicNext, List.find?_map, List.head?_map, Option.map_or]
  rfl

theorem cyclicPrev_map {β : Type} (f : β → α) (l : List β) (k : κ) :
    cyclicPrev rank (l.map f) k = (cyclicPrev (fun b => rank (f b)) l k).map f := by
  rw [cyclicPrev, cyclicPrev, ← List.map_reverse, List.find?_map, List.getLast?_map, Option.map_or]
  rfl

variable (hl : l.Pairwise fun a b => rank a < rank b) {i : Nat}

include hl

/-- What is before the item of an index is below it, what is behind it above. -/
theorem rank_lt_of_lt {j : Nat} (hij : i < j) (hj : j < l.length) : rank l[i] < rank l[j] :=
  List.pairwise_iff_getElem.mp hl i j (by omega) hj hij

/-- **One further**, and from the last to the first. -/
theorem cyclicNext_getElem (hi : i < l.length) :
    cyclicNext rank l (rank l[i]) = l[(i + 1) % l.length]? := by
  have hparts : cyclicNext rank (l.take (i + 1) ++ l.drop (i + 1)) (rank l[i]) =
      (l.drop (i + 1)).head?.or (l.take (i + 1) ++ l.drop (i + 1)).head? := by
    refine cyclicNext_append (fun a ha => ?_) (fun a ha => ?_)
    · obtain ⟨j, hj, rfl⟩ := List.mem_take_iff_getElem.mp ha
      rcases Nat.lt_or_ge j i with hlt | hge
      · exact (rank_lt_of_lt hl hlt hi).le
      · obtain rfl : j = i := by omega
        exact le_rfl
    · obtain ⟨j, hj, rfl⟩ := List.mem_drop_iff_getElem.mp ha
      have hj : i + 1 + j < l.length := by omega
      exact rank_lt_of_lt hl (by omega) hj
  rw [List.take_append_drop, List.head?_drop] at hparts
  rw [hparts]
  rcases Nat.lt_or_ge (i + 1) l.length with hlt | hge
  · rw [Nat.mod_eq_of_lt hlt, List.getElem?_eq_getElem hlt, Option.some_or]
  · obtain hlast : i + 1 = l.length := by omega
    rw [List.getElem?_eq_none hge, Option.none_or, hlast, Nat.mod_self, List.head?_eq_getElem?]

/-- **One back**, and from the first to the last. -/
theorem cyclicPrev_getElem (hi : i < l.length) :
    cyclicPrev rank l (rank l[i]) = l[(i + (l.length - 1)) % l.length]? := by
  have hparts : cyclicPrev rank (l.take i ++ l.drop i) (rank l[i]) =
      (l.take i).getLast?.or (l.take i ++ l.drop i).getLast? := by
    refine cyclicPrev_append (fun a ha => ?_) (fun a ha => ?_)
    · obtain ⟨j, hj, rfl⟩ := List.mem_take_iff_getElem.mp ha
      exact rank_lt_of_lt hl (by omega) hi
    · obtain ⟨j, hj, rfl⟩ := List.mem_drop_iff_getElem.mp ha
      rcases Nat.eq_zero_or_pos j with rfl | hpos
      · exact le_rfl
      · have hj : i + j < l.length := by omega
        exact (rank_lt_of_lt hl (by omega) hj).le
  rw [List.take_append_drop, List.getLast?_eq_getElem?, List.getLast?_eq_getElem?, List.length_take,
    Nat.min_eq_left hi.le] at hparts
  rw [hparts]
  rcases Nat.eq_zero_or_pos i with rfl | hpos
  · rw [List.take_zero, List.getElem?_nil, Option.none_or, Nat.zero_add, Nat.mod_eq_of_lt (by omega)]
  · have hindex : (i + (l.length - 1)) % l.length = i - 1 := by
      rw [show i + (l.length - 1) = i - 1 + l.length by omega, Nat.add_mod_right, Nat.mod_eq_of_lt (by omega)]
    rw [hindex, List.getElem?_take_of_lt (by omega), List.getElem?_eq_getElem (by omega), Option.some_or]

/-- Back in the list is further in the reversed list. -/
theorem cyclicPrev_reverse_getElem (hi : i < l.reverse.length) :
    cyclicPrev rank l (rank l.reverse[i]) = l.reverse[(i + 1) % l.reverse.length]? := by
  have hlen : l.reverse.length = l.length := List.length_reverse
  rw [hlen] at hi ⊢
  rw [List.getElem_reverse, cyclicPrev_getElem hl]
  rcases Nat.lt_or_ge (i + 1) l.length with hlt | hge
  · have hindex : (l.length - 1 - i + (l.length - 1)) % l.length = l.length - 1 - (i + 1) := by
      rw [show l.length - 1 - i + (l.length - 1) = l.length - 1 - (i + 1) + l.length by omega,
        Nat.add_mod_right, Nat.mod_eq_of_lt (by omega)]
    rw [hindex, Nat.mod_eq_of_lt hlt, List.getElem?_reverse hlt]
  · have hlast : i + 1 = l.length := by omega
    have hindex : (l.length - 1 - i + (l.length - 1)) % l.length = l.length - 1 - 0 := by
      rw [show l.length - 1 - i + (l.length - 1) = l.length - 1 by omega, Nat.mod_eq_of_lt (by omega), Nat.sub_zero]
    rw [hindex, hlast, Nat.mod_self, List.getElem?_reverse (by omega)]

/-- **Back from the next one.** -/
theorem cyclicPrev_next {a : α} (ha : a ∈ l) :
    ∃ b ∈ l, cyclicNext rank l (rank a) = some b ∧ cyclicPrev rank l (rank b) = some a := by
  obtain ⟨i, hi, rfl⟩ := List.getElem_of_mem ha
  have hnext : (i + 1) % l.length < l.length := Nat.mod_lt _ (by omega)
  refine ⟨l[(i + 1) % l.length], List.getElem_mem hnext, ?_, ?_⟩
  · rw [cyclicNext_getElem hl hi, List.getElem?_eq_getElem hnext]
  · have hback : ((i + 1) % l.length + (l.length - 1)) % l.length = i := by
      rw [Nat.mod_add_mod, show i + 1 + (l.length - 1) = i + l.length by omega, Nat.add_mod_right,
        Nat.mod_eq_of_lt hi]
    rw [cyclicPrev_getElem hl hnext, hback, List.getElem?_eq_getElem hi]

/-- **Forth from the one before.** -/
theorem cyclicNext_prev {a : α} (ha : a ∈ l) :
    ∃ b ∈ l, cyclicPrev rank l (rank a) = some b ∧ cyclicNext rank l (rank b) = some a := by
  obtain ⟨i, hi, rfl⟩ := List.getElem_of_mem ha
  have hprev : (i + (l.length - 1)) % l.length < l.length := Nat.mod_lt _ (by omega)
  refine ⟨l[(i + (l.length - 1)) % l.length], List.getElem_mem hprev, ?_, ?_⟩
  · rw [cyclicPrev_getElem hl hi, List.getElem?_eq_getElem hprev]
  · have hforth : ((i + (l.length - 1)) % l.length + 1) % l.length = i := by
      rw [Nat.mod_add_mod, show i + (l.length - 1) + 1 = i + l.length by omega, Nat.add_mod_right,
        Nat.mod_eq_of_lt hi]
    rw [cyclicNext_getElem hl hprev, hforth, List.getElem?_eq_getElem hi]

omit hl in
/-- As many steps as there are items. -/
theorem range_map_rotate (l : List α) (i : Nat) :
    (List.range l.length).filterMap (fun j => l[(i + j) % l.length]?) = l.rotate i := by
  have hmap : ∀ n ≤ l.length,
      (List.range n).filterMap (fun j => l[(i + j) % l.length]?) = (l.rotate i).take n := by
    intro n
    induction n with
    | zero => exact fun _ => rfl
    | succ n ih =>
      intro hn
      have hlt : (i + n) % l.length < l.length := Nat.mod_lt _ (by omega)
      rw [List.range_succ, List.filterMap_append, ih (by omega), List.take_add_one,
        List.getElem?_rotate (by omega), Nat.add_comm n i]
      rw [List.filterMap_cons, List.getElem?_eq_getElem hlt]
      rfl
  rw [hmap _ le_rfl, ← List.length_rotate l i, List.take_length]

end Cycle

end FcGpui
