import FcGpui.Lib.Machine
import FcGpui.SumTree.Reachable
import FcGpui.SumTree.Search

/-!
# Cursors refine indices

A cursor over `n` items is at a `Place`: before the first item, at the item of an index or
at the end.  `Place` is the abstract machine, `Place.Moves` what a call does to a place,
and `Shows` what can be seen of a cursor at a place: the item, its neighbours and the
position.

**Main result.**  `cursor_refines`: after any calls of `next`, `prev` and `seek` on a new
cursor none has panicked, and the cursor shows the place that the calls lead to.

Nothing is assumed of the dimension for this but for the positions: they are sums where
`P` holds, which implies that summaries and dimension are lawful.
-/

namespace FcGpui

namespace SumTree

variable {T S D : Type} [Summary S] [Item T S] [Dimension D S] {P R : Prop}

open Summary

namespace Cursor

variable {root t : SumTree T S} {stack : List (StackEntry T S D)} {before after passed remaining : List T}
  {c : Cursor T S D}

/-! ### Neighbours -/

theorem Path.nextLeaf (hroot : root.Valid P) (h : Path R root stack t before after) :
    ((nextLeaf stack).bind fun leaf =>
      match leaf with
      | some leaf => (leaf.nodeItems.bind List.head?).map some
      | none => some none) = some after.head? := by
  induction h with
  | root => rfl
  | @child e stack height summary childSummaries childTrees t before after path htree hchild _ ih =>
    have hvalid := path.valid hroot
    rw [htree] at hvalid
    have hlt := (List.getElem?_eq_some_iff.mp hchild).1
    rw [Cursor.nextLeaf, htree]
    simp only [SumTree.childTrees, Option.bind_some, if_neg (by omega : ¬childTrees.length = 0)]
    split
    · rename_i hnext
      have hlt' : e.index + 1 < childTrees.length := by omega
      obtain ⟨next, hnext⟩ : ∃ next, childTrees[e.index + 1]? = some next := ⟨_, List.getElem?_eq_getElem hlt'⟩
      have hwf := hvalid.children next (List.mem_of_getElem? hnext)
      have hdrop : toListAll (childTrees.drop (e.index + 1))
          = next.toList ++ toListAll (childTrees.drop (e.index + 1 + 1)) := by
        rw [List.drop_eq_getElem_cons hlt', toListAll, ← (List.getElem?_eq_some_iff.mp hnext).2]
      obtain ⟨item, items, hitems⟩ := List.exists_cons_of_ne_nil hwf.toList_ne_nil
      have hfirst := first_spec (Or.inr hwf)
      rw [hitems, first] at hfirst
      obtain ⟨leafItems, hleaf, hhead⟩ := Option.map_eq_some_iff.mp hfirst
      obtain ⟨leaf, hleftmost, hleaf⟩ := Option.bind_eq_some_iff.mp hleaf
      simp only [hnext, Option.bind_some, hleftmost, Option.map_some, hleaf, hhead, hdrop, hitems,
        List.cons_append, List.head?_cons]
    · rename_i hlast
      have hdrop : childTrees.drop (e.index + 1) = [] := List.drop_eq_nil_iff.mpr (by omega)
      rw [hdrop, toListAll, List.nil_append]
      exact ih

theorem Path.prevLeaf (hroot : root.Valid P) (h : Path R root stack t before after) :
    ((prevLeaf stack).bind fun leaf =>
      match leaf with
      | some leaf => (leaf.nodeItems.bind List.getLast?).map some
      | none => some none) = some before.getLast? := by
  induction h with
  | root => rfl
  | @child e stack height summary childSummaries childTrees t before after path htree hchild _ ih =>
    have hvalid := path.valid hroot
    rw [htree] at hvalid
    have hlt := (List.getElem?_eq_some_iff.mp hchild).1
    rw [Cursor.prevLeaf, htree]
    by_cases hfirst : e.index = 0
    · rw [if_neg (not_not.mpr hfirst), hfirst, List.take_zero, toListAll, List.append_nil]
      exact ih
    · obtain ⟨index, hindex⟩ := Nat.exists_eq_succ_of_ne_zero hfirst
      obtain ⟨prev, hprev⟩ : ∃ prev, childTrees[index]? = some prev :=
        ⟨_, List.getElem?_eq_getElem (by omega)⟩
      have hwf := hvalid.children prev (List.mem_of_getElem? hprev)
      have htake : toListAll (childTrees.take (index + 1)) = toListAll (childTrees.take index) ++ prev.toList :=
        toListAll_take_succ hprev
      have hlast := last_spec (Or.inr hwf)
      rw [last] at hlast
      obtain ⟨leafItems, hleaf, hget⟩ := Option.map_eq_some_iff.mp hlast
      obtain ⟨leaf, hrightmost, hleaf⟩ := Option.bind_eq_some_iff.mp hleaf
      have hne := hwf.toList_ne_nil
      rw [if_pos hfirst]
      simp only [SumTree.childTrees, Option.bind_some, hindex, Nat.succ_eq_add_one, Nat.add_sub_cancel, hprev,
        hrightmost, Option.map_some, hleaf, hget, htake]
      rw [← List.append_assoc, List.getLast?_append_of_ne_nil _ hne]
      rw [List.getLast?_eq_some_getLast hne]
      rfl

theorem Stands.nextItem (hroot : root.Valid P) (h : Stands R root c passed remaining) :
    c.nextItem = some remaining.tail.head? := by
  obtain ⟨tree, stack, position, didSeek, atEnd⟩ := c
  obtain ⟨-, hseek, hrests, -, hend⟩ := h
  obtain rfl : didSeek = true := hseek
  have hend : atEnd = stack.isEmpty := hend
  have hrests : Rests R root stack passed remaining := hrests
  subst hend
  cases hrests with
  | atEnd => rfl
  | @item e rest summary items itemSummaries before after path htree hindex =>
    have hpos : ¬items.length = 0 := by omega
    unfold Cursor.nextItem
    simp only [Bool.true_eq_false, if_false, htree, nodeItems, Option.bind_some, if_neg hpos]
    rw [List.drop_eq_getElem_cons hindex, List.cons_append, List.tail_cons]
    split
    · rename_i hlast
      have hdrop : items.drop (e.index + 1) = [] := List.drop_eq_nil_iff.mpr (by omega)
      rw [hdrop, List.nil_append]
      exact path.nextLeaf hroot
    · rename_i hnext
      have hlt : e.index + 1 < items.length := by omega
      rw [List.getElem?_eq_getElem hlt, List.drop_eq_getElem_cons hlt]
      rfl

theorem Stands.prevItem (hroot : root.Valid P) (h : Stands R root c passed remaining) :
    c.prevItem = some passed.getLast? := by
  obtain ⟨tree, stack, position, didSeek, atEnd⟩ := c
  obtain ⟨htree, hseek, hrests, -, hend⟩ := h
  obtain rfl : tree = root := htree
  obtain rfl : didSeek = true := hseek
  have hend : atEnd = stack.isEmpty := hend
  have hrests : Rests R tree stack passed remaining := hrests
  subst hend
  cases hrests with
  | atEnd => exact last_spec hroot
  | @item e rest summary items itemSummaries before after path htree hindex =>
    unfold Cursor.prevItem
    simp only [Bool.true_eq_false, if_false, htree, nodeItems, Option.bind_some]
    by_cases hfirst : e.index = 0
    · rw [if_pos hfirst, hfirst, List.take_zero, List.append_nil]
      exact path.prevLeaf hroot
    · obtain ⟨index, hprev⟩ := Nat.exists_eq_succ_of_ne_zero hfirst
      have hlt : index < items.length := by omega
      rw [if_neg hfirst, hprev, Nat.succ_eq_add_one, Nat.add_sub_cancel, ← List.take_concat_get' _ _ hlt,
        ← List.append_assoc, List.getLast?_concat, List.getElem?_eq_getElem hlt]
      rfl

/-! ### Places -/

/-- Where a cursor is in a sequence: `unmoved` before any call is made. -/
inductive Place
  | unmoved
  | beforeStart
  | item (i : Nat)
  | atEnd
deriving DecidableEq

namespace Place

/-- The place at an index of `n` items. -/
def ofIndex (n i : Nat) : Place := if i < n then item i else atEnd

/-- One place forward. -/
def next (n : Nat) : Place → Place
  | unmoved => ofIndex n 0
  | beforeStart => ofIndex n 0
  | item i => ofIndex n (i + 1)
  | atEnd => atEnd

/-- One place back. -/
def prev (n : Nat) : Place → Place
  | unmoved => if n = 0 then beforeStart else item (n - 1)
  | beforeStart => beforeStart
  | item 0 => beforeStart
  | item (i + 1) => item i
  | atEnd => if n = 0 then beforeStart else item (n - 1)

variable (items : List T)

/-- The number of items before the place. -/
def index : Place → Nat
  | unmoved => 0
  | beforeStart => 0
  | item i => i
  | atEnd => items.length

def current : Place → Option T
  | item i => items[i]?
  | _ => none

def prevItem : Place → Option T
  | item (i + 1) => items[i]?
  | atEnd => items.getLast?
  | _ => none

def nextItem : Place → Option T
  | beforeStart => items.head?
  | item i => items[i + 1]?
  | _ => none

end Place

/-- What is seen of a cursor at a place. -/
structure Shows (R : Prop) (items : List T) (c : Cursor T S D) (p : Place) : Prop where
  item : c.item = some (p.current items)
  prevItem : c.prevItem = some (p.prevItem items)
  nextItem : c.nextItem = some (p.nextItem items)
  start : R → c.position = positionAfter (items.take (p.index items))

/-- The cursor is at a place. -/
inductive At (R : Prop) (root : SumTree T S) : Cursor T S D → Place → Prop
  | unmoved : At R root (new root) .unmoved
  | beforeStart : At R root (beforeStart root true) .beforeStart
  | stands {c : Cursor T S D} {passed remaining : List T} (h : Stands R root c passed remaining) :
      At R root c (.ofIndex root.toList.length passed.length)

/-- The place between two lists, as what follows the first says. -/
theorem ofIndex_append (passed remaining : List T) : Place.ofIndex (passed ++ remaining).length passed.length
    = if remaining = [] then .atEnd else .item passed.length := by
  unfold Place.ofIndex
  rw [List.length_append]
  cases remaining with
  | nil => rw [if_neg (by simp), if_pos rfl]
  | cons item remaining => rw [if_pos (by simp), if_neg (by simp)]

theorem Stands.shows (hroot : root.Valid P) (h : Stands R root c passed remaining) :
    Shows R root.toList c (.ofIndex root.toList.length passed.length) := by
  rw [h.toList, ofIndex_append]
  cases remaining with
  | nil =>
    rw [if_pos rfl, List.append_nil]
    refine ⟨h.item, h.prevItem hroot, h.nextItem hroot, fun hR => ?_⟩
    rw [Place.index, List.take_length, h.start hR]
  | cons item remaining =>
    rw [if_neg (by simp)]
    refine ⟨h.item.trans ?_, (h.prevItem hroot).trans ?_, (h.nextItem hroot).trans ?_, fun hR => ?_⟩
    · rw [Place.current, List.getElem?_append_right (Nat.le_refl _), Nat.sub_self]
      rfl
    · rcases List.eq_nil_or_concat' passed with rfl | ⟨init, last, rfl⟩
      · rfl
      · rw [List.length_append, List.length_singleton, Place.prevItem, List.getLast?_concat, List.append_assoc,
          List.getElem?_append_right (Nat.le_refl _), Nat.sub_self]
        rfl
    · rw [Place.nextItem, List.getElem?_append_right (Nat.le_succ _), Nat.succ_sub (Nat.le_refl _), Nat.sub_self,
        List.getElem?_cons_succ, List.tail_cons, List.head?_eq_getElem?]
    · rw [Place.index, List.take_left', h.start hR]
      rfl

theorem At.shows (hroot : root.Valid P) {p : Place} (h : At R root c p) (hmoved : p ≠ .unmoved) :
    Shows R root.toList c p := by
  cases h with
  | unmoved => exact absurd rfl hmoved
  | beforeStart =>
    have hfirst := first_spec hroot
    refine ⟨rfl, ?_, ?_, fun _ => rfl⟩
    · cases hempty : root.isEmpty with
      | false => simp [Cursor.prevItem, Cursor.beforeStart, Cursor.new, hempty, Place.prevItem]
      | true =>
        have hlast := last_spec hroot
        rw [hroot.isEmpty_iff.mp hempty] at hlast
        simp [Cursor.prevItem, Cursor.beforeStart, Cursor.new, hempty, hlast, Place.prevItem]
    · cases hempty : root.isEmpty with
      | false => simp [Cursor.nextItem, Cursor.beforeStart, Cursor.new, hempty, hfirst, Place.nextItem]
      | true =>
        have hnil := hroot.isEmpty_iff.mp hempty
        simp [Cursor.nextItem, Cursor.beforeStart, Cursor.new, hempty, hnil, Place.nextItem]
  | stands h => exact h.shows hroot

/-! ### Calls -/

inductive Call (D : Type)
  | next
  | prev
  | seek (target : SeekTarget D) (bias : Bias)

/-- A call, `none` if it panics. -/
def Call.apply (c : Cursor T S D) : Call D → Option (Cursor T S D)
  | next => c.next
  | prev => c.prev
  | seek target bias => (c.seek target bias).map Prod.snd

/-- Where a target is found from an index on: it passes the items before, if there are any, and not the
next one. -/
structure Found (target : SeekTarget D) (bias : Bias) (items : List T) (k i : Nat) : Prop where
  ge : k ≤ i
  le : i ≤ items.length
  passes : k < i → passes target bias (positionAfter (items.take i)) = true
  stops : i < items.length → Cursor.passes target bias (positionAfter (items.take (i + 1))) = false

/-- What a call does to a place.  A seek goes to where the target is found. -/
inductive Place.Moves (R : Prop) (items : List T) : Place → Call D → Place → Prop
  | next {p : Place} : Moves R items p .next (p.next items.length)
  | prev {p : Place} : Moves R items p .prev (p.prev items.length)
  | seek {p : Place} {target : SeekTarget D} {bias : Bias} {i : Nat} (hle : i ≤ items.length)
      (hfound : R → Found target bias items 0 i) : Moves R items p (.seek target bias) (.ofIndex items.length i)

/-- The assertion of a seek: the target is not behind the start. -/
def Call.Admitted : Call D → Prop
  | seek target _ => target.cmp (Dimension.zero S) ≠ .lt
  | _ => True

omit [Summary S] in
theorem Stands.length_le (h : Stands R root c passed remaining) : passed.length ≤ root.toList.length := by
  rw [h.toList, List.length_append]
  exact Nat.le_add_right _ _

omit [Summary S] in
theorem skippedBy_true {l : List T} (h : SkippedBy root (fun _ : S => true) l) : l = [] :=
  List.eq_nil_iff_forall_not_mem.mpr fun item hitem => nomatch h (fun _ _ _ _ _ => rfl) item hitem

omit [Summary S] in
theorem Stands.stack_nil (h : Stands R root c passed []) : c.stack = [] := by
  obtain ⟨tree, stack, position, didSeek, atEnd⟩ := c
  obtain ⟨-, -, hrests, -, -⟩ := h
  have hrests : Rests R root stack passed [] := hrests
  generalize hnil : ([] : List T) = remaining at hrests
  cases hrests with
  | atEnd => rfl
  | item path htree hindex =>
    rw [List.drop_eq_getElem_cons hindex] at hnil
    exact absurd hnil.symm (List.cons_ne_nil _ _)

theorem Stands.next (hlaw : R → P ∧ LawfulSummary S ∧ LawfulDimension D S) (hroot : root.Valid P) {item : T}
    (h : Stands R root c passed (item :: remaining)) :
    ∃ c', c.next = some c' ∧ Stands R root c' (passed ++ [item]) remaining := by
  obtain ⟨c', skipped, remaining', hnext, hstands, hskipped, -⟩ := searchForward_item hlaw hroot h fun _ => true
  obtain rfl := skippedBy_true hskipped
  have hitems := h.toList.symm.trans hstands.toList
  rw [← List.singleton_append, ← List.append_assoc] at hitems
  obtain rfl := List.append_cancel_left hitems
  exact ⟨c', hnext, hstands⟩

theorem next_start (hlaw : R → P ∧ LawfulSummary S ∧ LawfulDimension D S) (hroot : root.Valid P) (didSeek : Bool) :
    ∃ c', (beforeStart root didSeek : Cursor T S D).next = some c' ∧ Stands R root c' [] root.toList := by
  obtain ⟨c', skipped, remaining, hnext, hstands, hskipped, -⟩ :=
    searchForward_start (D := D) hlaw hroot didSeek fun _ => true
  obtain rfl := skippedBy_true hskipped
  have hitems : root.toList = remaining := hstands.toList
  exact ⟨c', hnext, hitems ▸ hstands⟩

omit [Summary S] in
theorem Stands.searchForward_end (h : Stands R root c passed []) (filterNode : S → Bool) :
    c.searchForward filterNode = some c := by
  refine Cursor.searchForward_end h.stack_nil h.didSeek (h.atEnd.trans ?_) _
  rw [h.stack_nil]
  rfl

/-- Back to one of the items that have been passed. -/
theorem Stands.searchBackward (hlaw : R → P ∧ LawfulSummary S ∧ LawfulDimension D S) (hroot : root.Valid P)
    (h : Stands R root c passed remaining) (filterNode : S → Bool) :
    ∃ c', c.searchBackward filterNode = some c' ∧ Retreated R root filterNode c' passed := by
  cases remaining with
  | nil =>
    have hpassed : root.toList = passed := h.toList.trans (List.append_nil _)
    rw [← hpassed]
    refine searchBackward_end hlaw hroot h.tree h.stack_nil ?_ _
    rw [h.atEnd, h.stack_nil, List.isEmpty_nil, Bool.not_true, Bool.and_false]
  | cons item remaining => exact searchBackward_item hlaw hroot h _

section Calls

variable {hlaw : R → P ∧ LawfulSummary S ∧ LawfulDimension D S} {p : Place}

theorem next_at (hlaw : R → P ∧ LawfulSummary S ∧ LawfulDimension D S) (hroot : root.Valid P)
    (h : At R root c p) : ∃ c', c.next = some c' ∧ At R root c' (p.next root.toList.length) := by
  have hstart : ∀ didSeek, ∃ c' : Cursor T S D, (beforeStart root didSeek).next = some c' ∧
      At R root c' (.ofIndex root.toList.length 0) := by
    intro didSeek
    obtain ⟨c', hnext, hstands⟩ := next_start (D := D) hlaw hroot didSeek
    exact ⟨c', hnext, .stands hstands⟩
  cases h with
  | unmoved => exact hstart false
  | beforeStart => exact hstart true
  | @stands _ passed remaining h =>
    rw [h.toList, ofIndex_append, ← h.toList]
    cases remaining with
    | nil =>
      refine ⟨c, h.searchForward_end _, ?_⟩
      have hat : At R root c _ := .stands h
      rw [h.toList, ofIndex_append] at hat
      exact hat
    | cons item remaining =>
      obtain ⟨c', hnext, hstands⟩ := h.next hlaw hroot
      refine ⟨c', hnext, ?_⟩
      have hat : At R root c' _ := .stands hstands
      rwa [List.length_append] at hat

theorem prev_at (hlaw : R → P ∧ LawfulSummary S ∧ LawfulDimension D S) (hroot : root.Valid P)
    (h : At R root c p) : ∃ c', c.prev = some c' ∧ At R root c' (p.prev root.toList.length) := by
  -- from behind some items the cursor goes to the last of them
  have hback : ∀ {c' : Cursor T S D} {items : List T}, Retreated R root (fun _ => true) c' items →
      At R root c' (if items.length = 0 then .beforeStart else .item (items.length - 1)) := by
    rintro c' items (⟨rfl, hskipped⟩ | ⟨passed', item, skipped, remaining', hstands, rfl, hskipped, -⟩)
    · obtain rfl := skippedBy_true hskipped
      exact .beforeStart
    · obtain rfl := skippedBy_true hskipped
      have hat : At R root c' _ := .stands hstands
      rw [hstands.toList, ofIndex_append, if_neg (List.cons_ne_nil _ _)] at hat
      rw [List.length_append, List.length_singleton, if_neg (Nat.succ_ne_zero _)]
      exact hat
  cases h with
  | unmoved =>
    obtain ⟨c', hprev, hretreated⟩ := searchBackward_end hlaw hroot (c := new root) rfl rfl rfl fun _ => true
    exact ⟨c', hprev, hback hretreated⟩
  | beforeStart => exact ⟨_, searchBackward_start root _, .beforeStart⟩
  | @stands _ passed remaining h =>
    obtain ⟨c', hprev, hretreated⟩ := h.searchBackward hlaw hroot fun _ => true
    refine ⟨c', hprev, ?_⟩
    have hat := hback hretreated
    rw [h.toList, ofIndex_append, ← h.toList]
    cases remaining with
    | nil =>
      rw [if_pos rfl]
      have hlength : passed.length = root.toList.length := by rw [h.toList, List.append_nil]
      rwa [hlength] at hat
    | cons item remaining =>
      rw [if_neg (List.cons_ne_nil _ _)]
      cases hlength : passed.length with
      | zero =>
        rw [if_pos hlength] at hat
        exact hat
      | succ n =>
        rw [if_neg (by omega), hlength] at hat
        exact hat

omit [Summary S] in
theorem Sought.found_place (hR : R) {target : SeekTarget D} {bias : Bias} {found : Bool} {c' : Cursor T S D}
    {crossed : List T} (h : Sought R root target bias c passed found c' crossed remaining) :
    Found target bias root.toList passed.length (passed ++ crossed).length := by
  have hitems := h.stands.toList
  have hpos := h.stands.start hR
  refine ⟨?_, h.stands.length_le, fun hlt => ?_, fun hlt => ?_⟩
  · rw [List.length_append]
    exact Nat.le_add_right _ _
  · rw [hitems, List.take_left' rfl, ← hpos]
    rcases h.moved with ⟨rfl, -⟩ | hpasses
    · rw [List.append_nil] at hlt
      exact absurd hlt (Nat.lt_irrefl _)
    · exact hpasses
  · cases remaining with
    | nil =>
      rw [hitems, List.append_nil] at hlt
      exact absurd hlt (Nat.lt_irrefl _)
    | cons item remaining =>
      have hstops := h.stops item rfl
      rw [hpos, ← positionAfter_concat] at hstops
      rw [hitems, List.take_length_add_append, List.take_succ_cons, List.take_zero]
      exact hstops

theorem seek_at (hlaw : R → P ∧ LawfulSummary S ∧ LawfulDimension D S) (hroot : root.Valid P)
    (htree : c.tree = root) {target : SeekTarget D} {bias : Bias} (hcmp : target.cmp (Dimension.zero S) ≠ .lt) :
    ∃ found c' crossed remaining, c.seek target bias = some (found, c') ∧
      Sought R root target bias (new root) [] found c' crossed remaining := by
  have hreset : c.reset = new root := by
    rw [← htree]
    rfl
  have hready : Ready R root (new root : Cursor T S D) [] root.toList := .new
  obtain ⟨found, c', a', crossed, remaining, hseek, hsought, -⟩ :=
    seekInternal_finds bias hlaw unit_collects hroot hready hcmp (a := ()) trivial
  refine ⟨found, c', crossed, remaining, ?_, hsought⟩
  rw [seek, hreset, hseek]
  rfl

omit [Summary S] in
theorem At.tree (h : At R root c p) : c.tree = root := by
  cases h with
  | unmoved => rfl
  | beforeStart => rfl
  | stands h => exact h.tree

/-- **A call moves the cursor as it moves the place.** -/
theorem apply_at (hlaw : R → P ∧ LawfulSummary S ∧ LawfulDimension D S) (hroot : root.Valid P)
    (h : At R root c p) {call : Call D} (hcall : call.Admitted (S := S)) :
    ∃ c' p', call.apply c = some c' ∧ Place.Moves R root.toList p call p' ∧ At R root c' p' := by
  cases call with
  | next =>
    obtain ⟨c', hnext, hat⟩ := next_at hlaw hroot h
    exact ⟨c', _, hnext, .next, hat⟩
  | prev =>
    obtain ⟨c', hprev, hat⟩ := prev_at hlaw hroot h
    exact ⟨c', _, hprev, .prev, hat⟩
  | seek target bias =>
    obtain ⟨found, c', crossed, remaining, hseek, hsought⟩ := seek_at hlaw hroot h.tree hcall
    refine ⟨c', _, ?_, .seek hsought.stands.length_le fun hR => hsought.found_place hR, .stands hsought.stands⟩
    rw [Call.apply, hseek]
    rfl

end Calls

omit [Summary S] in
theorem Place.Moves.ne_unmoved {items : List T} {p q : Place} {call : Call D}
    (h : Place.Moves R items p call q) : q ≠ .unmoved := by
  have hindex : ∀ n i, Place.ofIndex n i ≠ .unmoved := by
    intro n i
    unfold Place.ofIndex
    split <;> nofun
  cases h with
  | seek => exact hindex _ _
  | next =>
    cases p with
    | atEnd => nofun
    | _ => exact hindex _ _
  | prev =>
    cases p with
    | beforeStart => nofun
    | item i => cases i <;> nofun
    | _ =>
      simp only [Place.prev]
      split <;> nofun

omit [Summary S] in
theorem ne_unmoved_of_runsTo {items : List T} {p q : Place} {calls : List (Call D)} (hne : calls ≠ [])
    (h : RunsTo (Place.Moves R items) p calls q) : q ≠ .unmoved := by
  induction h with
  | nil => exact absurd rfl hne
  | cons h hs ih =>
    cases hs with
    | nil => exact h.ne_unmoved
    | cons => exact ih (List.cons_ne_nil _ _)

/-- **A cursor refines an index.**  No calls of `next`, `prev` and `seek` on a new cursor panic, unless
a target is behind the start, and after them the cursor shows the place they lead to. -/
theorem cursor_refines {t : SumTree T S} (hlaw : P → LawfulSummary S ∧ LawfulDimension D S) (ht : t.Valid P)
    (calls : List (Call D)) (hcalls : ∀ call ∈ calls, call.Admitted (S := S)) :
    ∃ (c : Cursor T S D) (p : Place), run Call.apply (new t) calls = some c ∧
      RunsTo (Place.Moves P t.toList) .unmoved calls p ∧
      (calls ≠ [] → p ≠ .unmoved ∧ Shows P t.toList c p) := by
  have hlaw' : P → P ∧ LawfulSummary S ∧ LawfulDimension D S := fun hP => ⟨hP, hlaw hP⟩
  have hstep : ∀ (c : Cursor T S D) (p : Place) (call : Call D), At P t c p → call.Admitted (S := S) →
      ∃ c' q, call.apply c = some c' ∧ Place.Moves P t.toList p call q ∧ At P t c' q :=
    fun c p call hat hcall => apply_at hlaw' ht hat hcall
  obtain ⟨c, p, hrun, hruns, hat⟩ := run_refines hstep calls .unmoved hcalls
  refine ⟨c, p, hrun, hruns, fun hne => ?_⟩
  have hmoved := ne_unmoved_of_runsTo hne hruns
  exact ⟨hmoved, hat.shows ht hmoved⟩

/-- To the sixth of fifteen entries, back and forward again twice. -/
def callsAroundFive : List (Call (MapKeyRef Nat)) :=
  [.seek (MapKeyRef.target ⟨some 5⟩) .left, .prev, .next, .next]

theorem cursor_refines_fifteenEntries :
    ∃ t, fifteenEntries = some t ∧
      ∃ (c : Cursor (MapEntry Nat Nat) (MapKey Nat) (MapKeyRef Nat)) (p : Place),
        run Call.apply (new t) callsAroundFive = some c ∧
        RunsTo (Place.Moves True t.toList) .unmoved callsAroundFive p ∧
        (callsAroundFive ≠ [] → p ≠ .unmoved ∧ Shows True t.toList c p) := by
  obtain ⟨t, h⟩ := Option.isSome_iff_exists.mp (by decide : fifteenEntries.isSome = true)
  refine ⟨t, h, cursor_refines (fun _ => ⟨inferInstance, inferInstance⟩)
    (reachable_valid (reachable_fifteenEntries h)) callsAroundFive ?_⟩
  intro call hcall
  simp only [callsAroundFive, List.mem_cons, List.not_mem_nil, or_false] at hcall
  rcases hcall with rfl | rfl | rfl | rfl
  · exact (by decide : compare (some 5) (none : Option Nat) ≠ .lt)
  · trivial
  · trivial
  · trivial

end Cursor

end SumTree

end FcGpui
