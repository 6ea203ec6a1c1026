import FcGpui.Lib.BinarySearch
import FcGpui.Lib.SortedUnion

/-!
# Extending a sorted vector

`extend_sorted` goes over the new items, in order, and looks for each from where the last was put.  An
item that is found is left out; else it is put in its place, and in a full vector the last element makes
room for it, unless it would come last itself.

The vector is all the time the first `limit` elements of the union with what has been gone over, and what
is before `start_index` comes before all the rest of the items.

* `extendItem_spec`: one item.
* `extendItems_spec`: all of them.

**Main result.**  `extendSorted_spec`.
-/

namespace FcGpui

universe u

section ExtendSorted

variable {α : Type u}

/-- `Vec::insert`, `none` where it panics. -/
def insertAt (vec : List α) (index : Nat) (element : α) : Option (List α) :=
  if index ≤ vec.length then some (vec.insertIdx index element) else none

/-- The body of the loop, for the vector and `start_index`; `none` where it panics. -/
def extendItem (B : BinarySearch α) (limit : Nat) (cmp : α → α → Ordering) :
    List α × Nat → α → Option (List α × Nat)
  | (vec, startIndex), newItem =>
    if startIndex ≤ vec.length then
      match B.search (fun m => cmp m newItem) (vec.drop startIndex) with
      | .ok _ => some (vec, startIndex)
      | .error i =>
        let index := startIndex + i
        (if vec.length < limit then insertAt vec index newItem
          else if index < vec.length then insertAt vec.dropLast index newItem
          else some vec).map fun vec => (vec, index)
    else none

def extendSorted (B : BinarySearch α) (vec newItems : List α) (limit : Nat) (cmp : α → α → Ordering) :
    Option (List α) :=
  (newItems.foldlM (extendItem B limit cmp) (vec, 0)).map Prod.fst

example : extendSorted (.halving Nat) [21, 17, 13, 8, 1] [101, 19, 17, 8, 2] 8 (fun a b => compare b a) =
    some [101, 21, 19, 17, 13, 8, 2, 1] := by decide

variable {cmp : α → α → Ordering} {union before after rest : List α} {limit start : Nat} {x : α}

theorem insertAt_append (before after : List α) (x : α) :
    insertAt (before ++ after) before.length x = some (before ++ x :: after) := by
  rw [insertAt, if_pos (by rw [List.length_append]; omega)]
  congr 1
  induction before with
  | nil => rfl
  | cons a before ih => rw [List.cons_append, List.length_cons, List.insertIdx_succ_cons, ih, List.cons_append]

/-- **Putting an item in**, where it belongs between `before` and `after` and `rest` has been left out. -/
theorem insert_spec (hbefore : ∀ a ∈ before, cmp a x = .lt) (hafter : ∀ a ∈ after, cmp a x = .gt)
    (hle : (before ++ after).length ≤ limit) (hrest : (before ++ after).length < limit → rest = []) :
    (if (before ++ after).length < limit then insertAt (before ++ after) before.length x
      else if before.length < (before ++ after).length then
        insertAt (before ++ after).dropLast before.length x
      else some (before ++ after)) =
      some ((addSorted cmp x (before ++ (after ++ rest))).take limit) := by
  rw [List.length_append] at hle hrest
  simp only [List.length_append]
  rw [addSorted_append hbefore]
  cases after with
  | nil =>
    rw [List.length_nil, Nat.add_zero] at hle hrest ⊢
    split_ifs with hmore hfront
    · rw [hrest hmore, insertAt_append, List.append_nil, addSorted, List.take_of_length_le]
      rw [List.length_append, List.length_singleton]
      exact hmore
    · exact absurd hfront (lt_irrefl _)
    · rw [List.append_nil, List.take_left' (by omega)]
  | cons b after =>
    rw [List.length_cons] at hle hrest ⊢
    have hadd : addSorted cmp x (b :: after ++ rest) = x :: (b :: after ++ rest) :=
      addSorted_cons_gt (hafter b List.mem_cons_self)
    rw [hadd]
    split_ifs with hmore hfront
    · rw [hrest hmore, insertAt_append, List.append_nil, List.take_of_length_le]
      rw [List.length_append, List.length_cons, List.length_cons]
      omega
    · have hlast : (before ++ b :: after).dropLast = before ++ (b :: after).dropLast :=
        List.dropLast_append_of_ne_nil (List.cons_ne_nil b after)
      have htake : (x :: (b :: after ++ rest)).take (limit - before.length) = x :: (b :: after).dropLast := by
        rw [show limit - before.length = after.length + 1 by omega, List.take_succ_cons,
          List.take_append_of_le_length (by rw [List.length_cons]; omega), List.dropLast_eq_take,
          List.length_cons, Nat.add_sub_cancel]
      rw [hlast, insertAt_append, List.take_append, List.take_of_length_le (by omega), htake]
    · omega

section Ordered

variable [Std.TransCmp cmp]

theorem cuts_of_strictlySorted {l : List α} (h : StrictlySorted cmp l) (x : α) : Cuts (fun m => cmp m x) l := by
  refine h.imp fun {a b} hab => ⟨fun hb => Std.TransCmp.lt_trans hab hb, fun ha => ?_⟩
  exact Std.OrientedCmp.gt_of_lt (Std.TransCmp.lt_trans (Std.OrientedCmp.lt_of_gt ha) hab)

/-- **One item.** -/
theorem extendItem_spec (B : BinarySearch α) (hsorted : StrictlySorted cmp union)
    (hstart : start ≤ (union.take limit).length)
    (hbefore : ∀ a ∈ (union.take limit).take start, cmp a x = .lt) :
    ∃ next, extendItem B limit cmp (union.take limit, start) x =
        some ((addSorted cmp x union).take limit, next) ∧
      next ≤ ((addSorted cmp x union).take limit).length ∧
      ∀ a ∈ ((addSorted cmp x union).take limit).take next, cmp a x = .lt := by
  have hvec : StrictlySorted cmp (union.take limit) := hsorted.sublist (List.take_sublist limit union)
  have hcuts : Cuts (fun m => cmp m x) ((union.take limit).drop start) :=
    cuts_of_strictlySorted (hvec.sublist (List.drop_sublist start _)) x
  simp only [extendItem, if_pos hstart]
  cases hsearch : B.search (fun m => cmp m x) ((union.take limit).drop start) with
  | ok i =>
    obtain ⟨a, ha, heq⟩ := B.found hcuts hsearch
    have ha : a ∈ union :=
      List.mem_of_mem_take (List.mem_of_mem_drop (List.mem_of_getElem? ha))
    rw [addSorted_eq_self hsorted ha heq]
    exact ⟨start, rfl, hstart, hbefore⟩
  | error i =>
    obtain ⟨hi, hlt, hgt⟩ := B.missing hcuts hsearch
    rw [List.length_drop] at hi
    rw [List.drop_drop] at hgt
    have hfront : ∀ a ∈ (union.take limit).take (start + i), cmp a x = .lt := by
      intro a ha
      rw [List.take_add] at ha
      exact (List.mem_append.mp ha).elim (hbefore a) (hlt a)
    have hindex : ((union.take limit).take (start + i)).length = start + i :=
      List.length_take_of_le (by omega)
    have hunion : (union.take limit).take (start + i) ++ ((union.take limit).drop (start + i) ++
        union.drop limit) = union := by
      rw [← List.append_assoc, List.take_append_drop, List.take_append_drop]
    have hrest : (union.take limit).length < limit → union.drop limit = [] := by
      intro hmore
      rw [List.length_take] at hmore
      exact List.drop_eq_nil_of_le (by omega)
    rw [← List.take_append_drop (start + i) (union.take limit)] at hrest
    have hle : ((union.take limit).take (start + i) ++ (union.take limit).drop (start + i)).length ≤ limit := by
      rw [List.take_append_drop]
      exact List.length_take_le limit union
    have hinsert := insert_spec hfront hgt hle hrest
    rw [List.take_append_drop, hindex, hunion] at hinsert
    simp only [hinsert, Option.map_some]
    have hadd : addSorted cmp x union = (union.take limit).take (start + i) ++
        addSorted cmp x ((union.take limit).drop (start + i) ++ union.drop limit) := by
      rw [← addSorted_append hfront, hunion]
    have htake : ((addSorted cmp x union).take limit).take (start + i) =
        (union.take limit).take (start + i) := by
      have hlimit := List.length_take_le limit union
      rw [List.take_take, min_eq_left (by omega), hadd, List.take_left' hindex]
    refine ⟨start + i, rfl, ?_, ?_⟩
    · have hlength := List.length_take_le' (start + i) ((addSorted cmp x union).take limit)
      rwa [htake, hindex] at hlength
    · rwa [htake]

/-- **All of the items**: those that are left come after what is before `start_index`. -/
theorem extendItems_spec (B : BinarySearch α) (newItems : List α) :
    ∀ {union : List α} {start : Nat}, StrictlySorted cmp union →
      newItems.Pairwise (fun a b => (cmp a b).isLE) → start ≤ (union.take limit).length →
      (∀ a ∈ (union.take limit).take start, ∀ x ∈ newItems, cmp a x = .lt) →
        ∃ next, newItems.foldlM (extendItem B limit cmp) (union.take limit, start) =
          some ((newItems.foldl (fun l x => addSorted cmp x l) union).take limit, next) := by
  induction newItems with
  | nil => exact fun {_ start} _ _ _ _ => ⟨start, rfl⟩
  | cons x newItems ih =>
    intro union start hsorted hitems hstart hbefore
    obtain ⟨hfirst, hitems⟩ := List.pairwise_cons.mp hitems
    obtain ⟨next, hitem, hnext, hbefore⟩ := extendItem_spec B hsorted hstart
      fun a ha => hbefore a ha x List.mem_cons_self
    rw [List.foldlM_cons, hitem, Option.bind_eq_bind, Option.bind_some, List.foldl_cons]
    exact ih (strictlySorted_addSorted hsorted) hitems hnext fun a ha y hy =>
      Std.TransCmp.lt_of_lt_of_isLE (hbefore a ha) (hfirst y hy)

/-- What is left in the vector: the first `limit` elements of the union. -/
structure Extends (cmp : α → α → Ordering) (vec newItems : List α) (limit : Nat) (extended : List α) :
    Prop where
  sorted : StrictlySorted cmp extended
  union : ∃ union, SortedUnion cmp vec newItems union ∧ extended = union.take limit

/-- **`extend_sorted`** ends, with the first elements of the union. -/
theorem extendSorted_spec (B : BinarySearch α) (vec newItems : List α) (limit : Nat)
    (hvec : StrictlySorted cmp vec) (hlimit : vec.length ≤ limit)
    (hitems : newItems.Pairwise fun a b => (cmp a b).isLE) :
    ∃ extended, extendSorted B vec newItems limit cmp = some extended ∧
      Extends cmp vec newItems limit extended := by
  have hunion : SortedUnion cmp vec newItems (newItems.foldl (fun l x => addSorted cmp x l) vec) :=
    sortedUnion_foldl newItems hvec
  have hstart : (vec.take limit, 0) = (vec, 0) := by rw [List.take_of_length_le hlimit]
  obtain ⟨next, hall⟩ := extendItems_spec B newItems hvec hitems
    (show 0 ≤ (vec.take limit).length from Nat.zero_le _) fun a ha => absurd ha (by simp)
  rw [hstart] at hall
  refine ⟨(newItems.foldl (fun l x => addSorted cmp x l) vec).take limit, ?_, ?_, ?_⟩
  · rw [extendSorted, hall, Option.map_some]
  · exact hunion.sorted.sublist (List.take_sublist limit _)
  · exact ⟨_, hunion, rfl⟩

end Ordered

theorem extendSorted_spec_descending :
    ∃ extended, extendSorted (.halving Nat) [21, 17, 13, 8, 1] [101, 19, 17, 8, 2] 8
        (fun a b => compare b a) = some extended ∧
      Extends (fun a b => compare b a) [21, 17, 13, 8, 1] [101, 19, 17, 8, 2] 8 extended :=
  extendSorted_spec (.halving Nat) _ _ 8 (by simp [StrictlySorted]; decide) (by decide) (by decide)

end ExtendSorted

end FcGpui
