import Mathlib

/-!
# Items and summaries

The traits of `crates/sum_tree/src/sum_tree.rs`, at one context.  `add` is `add_summary`,
`zero` the summary of nothing.  Of the two only `LawfulSummary` is assumed: adding is
associative and `zero` is neutral on the left.  On the right it need not be: `MapKey`
forgets what it had when anything is added to it.

A dimension is `LawfulDimension` if adding a sum to it is adding the parts in turn.

So the sum of two lists is the sum of their sums only if the second list is not empty
(`sum_append`), and the sum of lists that are not empty is the sum of their sums
(`sum_flatten`).
-/

namespace FcGpui

class Summary (S : Type) where
  zero : S
  add : S → S → S

class LawfulSummary (S : Type) [Summary S] : Prop where
  add_assoc : ∀ a b c : S, Summary.add (Summary.add a b) c = Summary.add a (Summary.add b c)
  zero_add : ∀ a : S, Summary.add Summary.zero a = a

class Item (T : Type) (S : outParam Type) where
  summary : T → S

class Dimension (D S : Type) where
  zero : D
  addSummary : D → S → D

/-- A summary is a dimension of itself. -/
instance (S : Type) [Summary S] : Dimension S S := ⟨Summary.zero, Summary.add⟩

/-- A dimension measures a sum by its parts: it is a homomorphism of the summary. -/
class LawfulDimension (D S : Type) [Summary S] [Dimension D S] : Prop where
  addSummary_add : ∀ (d : D) (a b : S), Dimension.addSummary d (Summary.add a b)
    = Dimension.addSummary (Dimension.addSummary d a) b
  addSummary_zero : Dimension.addSummary (Dimension.zero S : D) (Summary.zero : S) = Dimension.zero S

instance (S : Type) [Summary S] [LawfulSummary S] : LawfulDimension S S where
  addSummary_add d a b := (LawfulSummary.add_assoc d a b).symm
  addSummary_zero := LawfulSummary.zero_add Summary.zero

/-- The dimension that measures nothing. -/
instance (S : Type) : Dimension Unit S := ⟨(), fun _ _ => ()⟩

/-- What a cursor may seek: it is compared with a position. -/
structure SeekTarget (D : Type) where
  cmp : D → Ordering

class KeyedItem (T : Type) (K : outParam Type) where
  key : T → K

inductive Bias
  | left
  | right
deriving DecidableEq

namespace Summary

variable {S : Type} [Summary S]

def sum (l : List S) : S := l.foldl add zero

@[simp]
theorem sum_nil : sum ([] : List S) = zero := rfl

theorem sum_concat (l : List S) (a : S) : sum (l ++ [a]) = add (sum l) a := by
  rw [sum, List.foldl_append]
  rfl

/-- The sum that starts with the first element. -/
def foldSum : List S → S
  | [] => zero
  | a :: l => l.foldl add a

variable [LawfulSummary S]

theorem foldl_add (a b : S) (l : List S) : l.foldl add (add a b) = add a (l.foldl add b) := by
  induction l generalizing b with
  | nil => rfl
  | cons c l ih => rw [List.foldl_cons, List.foldl_cons, LawfulSummary.add_assoc, ih]

/-- The sum of a list that is not empty starts with its first element. -/
theorem sum_cons (a : S) (l : List S) : sum (a :: l) = l.foldl add a := by
  rw [sum, List.foldl_cons, LawfulSummary.zero_add]

theorem foldSum_eq (l : List S) : foldSum l = sum l := by
  cases l with
  | nil => rfl
  | cons a l => exact (sum_cons a l).symm

@[simp]
theorem sum_singleton (a : S) : sum [a] = a := sum_cons a []

theorem sum_append (l : List S) {m : List S} (h : m ≠ []) : sum (l ++ m) = add (sum l) (sum m) := by
  cases m with
  | nil => exact absurd rfl h
  | cons a m =>
    show List.foldl add zero (l ++ a :: m) = _
    rw [List.foldl_append, List.foldl_cons, sum_cons, foldl_add]
    rfl

theorem sum_flatten {l : List (List S)} (h : ∀ m ∈ l, m ≠ []) : sum (l.map sum) = sum l.flatten := by
  induction l using List.reverseRecOn with
  | nil => rfl
  | append_singleton l m ih =>
    have hm : m ≠ [] := h m (List.mem_append_right _ (List.mem_singleton_self m))
    rw [List.map_append, List.map_singleton, sum_concat, ih fun m hm => h m (List.mem_append_left _ hm),
      List.flatten_append, List.flatten_singleton, sum_append _ hm]

end Summary

/-! ### Map keys -/

structure MapEntry (K V : Type) where
  key : K
  value : V
deriving DecidableEq

/-- The key of the last of the items. -/
structure MapKey (K : Type) where
  key : Option K
deriving DecidableEq

instance (K : Type) : Summary (MapKey K) := ⟨⟨none⟩, fun _ summary => summary⟩

instance (K : Type) : LawfulSummary (MapKey K) := ⟨fun _ _ _ => rfl, fun _ => rfl⟩

instance (K V : Type) : Item (MapEntry K V) (MapKey K) := ⟨fun entry => ⟨some entry.key⟩⟩

instance (K V : Type) : KeyedItem (MapEntry K V) (MapKey K) := ⟨fun entry => ⟨some entry.key⟩⟩

/-- Keys are compared as options: having no key comes first. -/
instance (K : Type) [LinearOrder K] : LinearOrder (MapKey K) :=
  LinearOrder.lift' (fun key => show WithBot K from key.key) fun a b h => by
    cases a
    cases b
    exact congrArg MapKey.mk h

/-- The key of a position in a map. -/
structure MapKeyRef (K : Type) where
  key : Option K
deriving DecidableEq

instance (K : Type) : Dimension (MapKeyRef K) (MapKey K) := ⟨⟨none⟩, fun _ summary => ⟨summary.key⟩⟩

instance (K : Type) : LawfulDimension (MapKeyRef K) (MapKey K) := ⟨fun _ _ _ => rfl, rfl⟩

/-- A key is compared with the key of a position. -/
def MapKeyRef.target {K : Type} [Ord K] (key : MapKeyRef K) : SeekTarget (MapKeyRef K) :=
  ⟨fun cursorLocation => compare key.key cursorLocation.key⟩

end FcGpui
