import FcGpui.SumTree.Places

/-!
# Filter cursors

`FilterCursor` of `crates/sum_tree/src/cursor.rs` moves a cursor by searches with a filter
on summaries.  If the filter lets a node through whenever it does an item of it, it is an
index of the items that the filter lets through, though its position counts all items.
The filter may let a node through that has no such item.

**Main result.**  `filterCursor_refines`.
-/

namespace FcGpui

namespace SumTree

variable {T S D : Type} [Summary S] [Item T S] [Dimension D S] {P R : Prop}

structure FilterCursor (T S D : Type) where
  cursor : Cursor T S D
  filterNode : S → Bool

namespace FilterCursor

def new (tree : SumTree T S) (filterNode : S → Bool) : FilterCursor T S D := ⟨Cursor.new tree, filterNode⟩

def start (c : FilterCursor T S D) : D := c.cursor.position

def item (c : FilterCursor T S D) : Option (Option T) := c.cursor.item

def next (c : FilterCursor T S D) : Option (FilterCursor T S D) :=
  (c.cursor.searchForward c.filterNode).map fun cursor => { c with cursor := cursor }

def prev (c : FilterCursor T S D) : Option (FilterCursor T S D) :=
  (c.cursor.searchBackward c.filterNode).map fun cursor => { c with cursor := cursor }

inductive Move
  | next
  | prev

def Move.apply (c : FilterCursor T S D) : Move → Option (FilterCursor T S D)
  | next => c.next
  | prev => c.prev

end FilterCursor

open FcGpui.SumTree.Cursor

/-! ### The items that a filter lets through -/

/-- What a move does to a place among `n` items. -/
def Cursor.Place.move (n : Nat) (p : Place) : FilterCursor.Move → Place
  | .next => p.next n
  | .prev => p.prev n

/-- The items that the filter lets through. -/
def matching (filterNode : S → Bool) (items : List T) : List T := items.filter fun item => filterNode (Item.summary item)

/-- All items before the match of an index. -/
def beforeMatch (filterNode : S → Bool) : Nat → List T → List T
  | _, [] => []
  | 0, item :: items => if filterNode (Item.summary item) then [] else item :: beforeMatch filterNode 0 items
  | i + 1, item :: items =>
    item :: beforeMatch filterNode (if filterNode (Item.summary item) then i else i + 1) items

/-- All items before a place among the matches. -/
def Cursor.Place.allBefore (filterNode : S → Bool) (items : List T) : Place → List T
  | .item i => beforeMatch filterNode i items
  | .atEnd => items
  | _ => []

/-- What is seen of a filter cursor at a place among the matches. -/
structure FilterCursor.Shows (R : Prop) (items : List T) (c : FilterCursor T S D) (p : Place) : Prop where
  item : c.item = some (p.current (matching c.filterNode items))
  start : R → c.start = positionAfter (p.allBefore c.filterNode items)

variable {root : SumTree T S} {c : Cursor T S D} {filterNode : S → Bool} {passed remaining skipped : List T}

omit [Summary S] in
theorem matching_append (items items' : List T) :
    matching filterNode (items ++ items') = matching filterNode items ++ matching filterNode items' :=
  List.filter_append _ _

omit [Summary S] in
theorem matching_cons_of_pos {item : T} (h : filterNode (Item.summary item) = true) (items : List T) :
    matching filterNode (item :: items) = item :: matching filterNode items := List.filter_cons_of_pos h

omit [Summary S] in
theorem matching_skipped (hadmits : Admits root filterNode) (h : SkippedBy root filterNode skipped) :
    matching filterNode skipped = [] :=
  List.filter_eq_nil_iff.mpr fun item hitem hpass => by
    rw [h hadmits item hitem] at hpass
    cases hpass

omit [Summary S] in
theorem beforeMatch_append {item : T} (h : filterNode (Item.summary item) = true) (passed remaining : List T) :
    beforeMatch filterNode (matching filterNode passed).length (passed ++ item :: remaining) = passed := by
  induction passed with
  | nil =>
    show beforeMatch filterNode 0 (item :: remaining) = []
    rw [beforeMatch, if_pos h]
  | cons head passed ih =>
    rw [List.cons_append]
    by_cases hhead : filterNode (Item.summary head) = true
    · rw [matching_cons_of_pos hhead, List.length_cons, beforeMatch, if_pos hhead, ih]
    · have hmatching : matching filterNode (head :: passed) = matching filterNode passed :=
        List.filter_cons_of_neg hhead
      rw [hmatching]
      cases hlength : (matching filterNode passed).length with
      | zero =>
        rw [hlength] at ih
        rw [beforeMatch, if_neg hhead, ih]
      | succ n =>
        rw [hlength] at ih
        rw [beforeMatch, if_neg hhead, ih]

/-! ### Places among the matches -/

/-- The cursor is at a place among the matches. -/
inductive AtMatch (R : Prop) (root : SumTree T S) (filterNode : S → Bool) : Cursor T S D → Place → Prop
  | unmoved : AtMatch R root filterNode (Cursor.new root) .unmoved
  | beforeStart : AtMatch R root filterNode (beforeStart root true) .beforeStart
  | stands {c : Cursor T S D} {passed remaining : List T} (h : Stands R root c passed remaining)
      (hfirst : StartsWith filterNode remaining) : AtMatch R root filterNode c
        (.ofIndex (matching filterNode root.toList).length (matching filterNode passed).length)

omit [Summary S] in
/-- The place between two lists, as what follows the first says. -/
theorem ofIndex_matching (hfirst : StartsWith filterNode remaining) :
    Place.ofIndex (matching filterNode (passed ++ remaining)).length (matching filterNode passed).length
      = if remaining = [] then .atEnd else .item (matching filterNode passed).length := by
  rw [matching_append, ofIndex_append]
  cases remaining with
  | nil => rfl
  | cons item remaining => rw [matching_cons_of_pos (hfirst item rfl), if_neg (by simp), if_neg (by simp)]

omit [Summary S] in
theorem AtMatch.shows {p : Place} (h : AtMatch R root filterNode c p) (hmoved : p ≠ .unmoved) :
    FilterCursor.Shows R root.toList ⟨c, filterNode⟩ p := by
  cases h with
  | unmoved => exact absurd rfl hmoved
  | beforeStart => exact ⟨rfl, fun _ => rfl⟩
  | @stands _ passed remaining h hfirst =>
    rw [h.toList, ofIndex_matching hfirst]
    cases remaining with
    | nil =>
      rw [if_pos rfl, List.append_nil]
      exact ⟨h.item, h.start⟩
    | cons item remaining =>
      have hitem := hfirst item rfl
      rw [if_neg (List.cons_ne_nil _ _)]
      refine ⟨h.item.trans ?_, fun hR => (h.start hR).trans ?_⟩
      · rw [matching_append, matching_cons_of_pos hitem, Place.current,
          List.getElem?_append_right (Nat.le_refl _), Nat.sub_self]
        rfl
      · rw [Place.allBefore, beforeMatch_append hitem]

theorem next_atMatch (hlaw : R → P ∧ LawfulSummary S ∧ LawfulDimension D S) (hroot : root.Valid P)
    (hadmits : Admits root filterNode) {p : Place} (h : AtMatch R root filterNode c p) :
    ∃ c', c.searchForward filterNode = some c' ∧
      AtMatch R root filterNode c' (p.next (matching filterNode root.toList).length) := by
  have hstart : ∀ didSeek, ∃ c' : Cursor T S D, (beforeStart root didSeek).searchForward filterNode = some c' ∧
      AtMatch R root filterNode c' (.ofIndex (matching filterNode root.toList).length 0) := by
    intro didSeek
    obtain ⟨c', skipped, remaining, hnext, hstands, hskipped, hfirst⟩ :=
      searchForward_start (D := D) hlaw hroot didSeek filterNode
    have hat := AtMatch.stands hstands hfirst
    rw [matching_skipped hadmits hskipped] at hat
    exact ⟨c', hnext, hat⟩
  cases h with
  | unmoved => exact hstart false
  | beforeStart => exact hstart true
  | @stands _ passed remaining h hfirst =>
    rw [h.toList, ofIndex_matching hfirst, ← h.toList]
    cases remaining with
    | nil =>
      refine ⟨c, h.searchForward_end _, ?_⟩
      have hat := AtMatch.stands h hfirst
      rw [h.toList, ofIndex_matching hfirst] at hat
      exact hat
    | cons item remaining =>
      obtain ⟨c', skipped, remaining', hnext, hstands, hskipped, hfirst'⟩ := searchForward_item hlaw hroot h filterNode
      refine ⟨c', hnext, ?_⟩
      have hat := AtMatch.stands hstands hfirst'
      rwa [matching_append, matching_cons_of_pos (hfirst item rfl), matching_skipped hadmits hskipped,
        List.length_append] at hat

theorem prev_atMatch (hlaw : R → P ∧ LawfulSummary S ∧ LawfulDimension D S) (hroot : root.Valid P)
    (hadmits : Admits root filterNode) {p : Place} (h : AtMatch R root filterNode c p) :
    ∃ c', c.searchBackward filterNode = some c' ∧
      AtMatch R root filterNode c' (p.prev (matching filterNode root.toList).length) := by
  -- from behind some items the cursor goes to the last match among them
  have hback : ∀ {c' : Cursor T S D} {items : List T}, Retreated R root filterNode c' items →
      AtMatch R root filterNode c' (if (matching filterNode items).length = 0 then .beforeStart
        else .item ((matching filterNode items).length - 1)) := by
    rintro c' items (⟨rfl, hskipped⟩ | ⟨passed', item, skipped, remaining', hstands, rfl, hskipped, hitem⟩)
    · rw [matching_skipped hadmits hskipped]
      exact .beforeStart
    · have hfirst : StartsWith filterNode (item :: remaining') := fun i hi => Option.some.inj hi ▸ hitem
      have hat := AtMatch.stands hstands hfirst
      rw [hstands.toList, ofIndex_matching hfirst, if_neg (List.cons_ne_nil _ _)] at hat
      rw [matching_append, matching_cons_of_pos hitem, matching_skipped hadmits hskipped, List.length_append,
        List.length_singleton, if_neg (Nat.succ_ne_zero _)]
      exact hat
  cases h with
  | unmoved =>
    obtain ⟨c', hprev, hretreated⟩ := searchBackward_end hlaw hroot (c := Cursor.new root) rfl rfl rfl filterNode
    exact ⟨c', hprev, hback hretreated⟩
  | beforeStart => exact ⟨_, searchBackward_start root _, .beforeStart⟩
  | @stands _ passed remaining h hfirst =>
    obtain ⟨c', hprev, hretreated⟩ := h.searchBackward hlaw hroot filterNode
    refine ⟨c', hprev, ?_⟩
    have hat := hback hretreated
    rw [h.toList, ofIndex_matching hfirst, ← h.toList]
    cases remaining with
    | nil =>
      rw [if_pos rfl]
      have hpassed : passed = root.toList := (h.toList.trans (List.append_nil _)).symm
      rwa [hpassed] at hat
    | cons item remaining =>
      rw [if_neg (List.cons_ne_nil _ _)]
      cases hlength : (matching filterNode passed).length with
      | zero =>
        rw [if_pos hlength] at hat
        exact hat
      | succ n =>
        rw [if_neg (by omega), hlength] at hat
        exact hat

theorem Cursor.Place.move_ne_unmoved (n : Nat) (p : Place) (move : FilterCursor.Move) : p.move n move ≠ .unmoved := by
  have hindex : ∀ i, Place.ofIndex n i ≠ .unmoved := by
    intro i
    unfold Place.ofIndex
    split <;> simp
  cases move with
  | next =>
    cases p with
    | atEnd => simp [Place.move, Place.next]
    | _ => exact hindex _
  | prev =>
    cases p with
    | beforeStart => simp [Place.move, Place.prev]
    | item i => cases i <;> simp [Place.move, Place.prev]
    | _ =>
      simp only [Place.move, Place.prev]
      split <;> simp

theorem run_atMatch (hlaw : R → P ∧ LawfulSummary S ∧ LawfulDimension D S) (hroot : root.Valid P)
    (hadmits : Admits root filterNode) (moves : List FilterCursor.Move) {p : Place}
    (h : AtMatch R root filterNode c p) :
    ∃ c', run FilterCursor.Move.apply ⟨c, filterNode⟩ moves = some ⟨c', filterNode⟩ ∧
      AtMatch R root filterNode c' (moves.foldl (Place.move (matching filterNode root.toList).length) p) := by
  induction moves generalizing c p with
  | nil => exact ⟨c, rfl, h⟩
  | cons move moves ih =>
    obtain ⟨c₁, happly, h₁⟩ : ∃ c₁ : Cursor T S D, move.apply ⟨c, filterNode⟩ = some ⟨c₁, filterNode⟩ ∧
        AtMatch R root filterNode c₁ (p.move (matching filterNode root.toList).length move) := by
      cases move with
      | next =>
        obtain ⟨c₁, hnext, h₁⟩ := next_atMatch hlaw hroot hadmits h
        refine ⟨c₁, ?_, h₁⟩
        simp only [FilterCursor.Move.apply, FilterCursor.next, hnext, Option.map_some]
      | prev =>
        obtain ⟨c₁, hprev, h₁⟩ := prev_atMatch hlaw hroot hadmits h
        refine ⟨c₁, ?_, h₁⟩
        simp only [FilterCursor.Move.apply, FilterCursor.prev, hprev, Option.map_some]
    obtain ⟨c', hrest, h'⟩ := ih h₁
    refine ⟨c', ?_, h'⟩
    rw [run, happly]
    exact hrest

theorem foldl_move_ne_unmoved {n : Nat} {moves : List FilterCursor.Move} (hne : moves ≠ []) (p : Place) :
    moves.foldl (Place.move n) p ≠ .unmoved := by
  obtain ⟨init, move, rfl⟩ := (List.eq_nil_or_concat' moves).resolve_left hne
  rw [List.foldl_append]
  exact Place.move_ne_unmoved n _ move

/-- **A filter cursor visits the matches.**  If the filter lets a node through whenever it does an item of
it, no moves of a filter cursor panic, and after them it shows the place that they lead to among the items
which the filter lets through; its position counts all the items before. -/
theorem filterCursor_refines {t : SumTree T S} (hlaw : P → LawfulSummary S ∧ LawfulDimension D S) (ht : t.Valid P)
    {filterNode : S → Bool} (hadmits : Admits t filterNode) (moves : List FilterCursor.Move) :
    ∃ c : FilterCursor T S D, run FilterCursor.Move.apply (FilterCursor.new t filterNode) moves = some c ∧
      c.filterNode = filterNode ∧
      (moves ≠ [] → FilterCursor.Shows P t.toList c
        (moves.foldl (Place.move (matching filterNode t.toList).length) .unmoved)) := by
  obtain ⟨c, hrun, hat⟩ := run_atMatch (D := D) (fun hP => ⟨hP, hlaw hP⟩) ht hadmits moves .unmoved
  exact ⟨⟨c, filterNode⟩, hrun, rfl, fun hne => hat.shows (foldl_move_ne_unmoved hne _)⟩

/-! ### The filter of the tests -/

/-- The summary of the tests, whose items are `u8`. -/
structure IntegersSummary where
  count : Nat
  sum : Nat
  containsEven : Bool
  max : Nat

instance : Summary IntegersSummary where
  zero := ⟨0, 0, false, 0⟩
  add a b := ⟨a.count + b.count, a.sum + b.sum, a.containsEven || b.containsEven, max a.max b.max⟩

instance : LawfulSummary IntegersSummary where
  add_assoc a b c := by simp only [Summary.add, Nat.add_assoc, Bool.or_assoc, Nat.max_assoc]
  zero_add a := by
    simp only [Summary.add, Summary.zero, Nat.zero_add, Bool.false_or, Nat.zero_max]

instance : Item Nat IntegersSummary := ⟨fun n => ⟨1, n, n &&& 1 == 0, n⟩⟩

/-- The number of items. -/
structure Count where
  count : Nat
deriving DecidableEq

instance : Dimension Count IntegersSummary := ⟨⟨0⟩, fun d summary => ⟨d.count + summary.count⟩⟩

instance : LawfulDimension Count IntegersSummary where
  addSummary_add d a b := congrArg Count.mk (Nat.add_assoc d.count a.count b.count).symm
  addSummary_zero := rfl

theorem containsEven_itemSum (items : List Nat) : (Summary.sum (items.map Item.summary) : IntegersSummary).containsEven
    = items.any fun n => (Item.summary n : IntegersSummary).containsEven := by
  induction items using List.reverseRecOn with
  | nil => rfl
  | append_singleton items n ih =>
    rw [List.map_append, List.map_singleton, Summary.sum_concat, List.any_append, ← ih]
    simp [Summary.add]

theorem Cursor.Subtree.valid {root t : SumTree T S} (hroot : root.Valid P) (h : Subtree root t) : t.Valid P := by
  induction h with
  | root => exact hroot
  | child _ hchild ih => exact Or.inr (ih.children _ hchild)

theorem admits_containsEven {t : SumTree Nat IntegersSummary} (ht : t.Valid True) :
    Admits t IntegersSummary.containsEven := by
  intro node hnode item hitem heven
  rcases hnode.valid ht with rfl | hwf
  · cases hitem
  · rw [hwf.summary_eq trivial, itemSum, containsEven_itemSum]
    exact List.any_eq_true.mpr ⟨item, hitem, heven⟩

/-- Forward over even numbers and back before the first. -/
def evenMoves : List FilterCursor.Move := [.next, .next, .next, .prev, .prev, .prev, .next]

theorem filterCursor_refines_evenMoves :
    ∃ t : SumTree Nat IntegersSummary,
      fromIter [1, 2, 3, 4, 5, 6, 7, 8, 9, 11, 13, 15, 17, 19, 21, 23, 25, 27, 29, 31, 33, 35, 37, 39, 40] = some t ∧
      ∃ c : FilterCursor Nat IntegersSummary Count,
        run FilterCursor.Move.apply (FilterCursor.new t IntegersSummary.containsEven) evenMoves = some c ∧
        c.filterNode = IntegersSummary.containsEven ∧
        (evenMoves ≠ [] → FilterCursor.Shows True t.toList c
          (evenMoves.foldl (Place.move (matching IntegersSummary.containsEven t.toList).length) .unmoved)) := by
  obtain ⟨t, hfrom, ht, -⟩ := fromIter_spec (P := True) (fun _ => inferInstance)
    ([1, 2, 3, 4, 5, 6, 7, 8, 9, 11, 13, 15, 17, 19, 21, 23, 25, 27, 29, 31, 33, 35, 37, 39, 40] : List Nat)
  exact ⟨t, hfrom, filterCursor_refines (fun _ => ⟨inferInstance, inferInstance⟩) ht (admits_containsEven ht) evenMoves⟩

end SumTree

end FcGpui
