import FcGpui.SumTree.Tree

/-!
# Cursors

`Cursor` of `crates/sum_tree/src/cursor.rs`, and the operations on keyed items that use
it.  A cursor is at a position of the sequence of a tree; its stack is the path down to it,
innermost node first.  `position` is the dimension of what is before the cursor.

The loops of the source go on while there is a node on the stack.  Here they get `fuel`;
`Cursor.fuel` bounds the number of rounds, since a round takes a node from the stack,
goes down into a child that has not been visited, or passes over it.  As in `Tree`, `none` is a panic.
-/

namespace FcGpui

namespace SumTree

variable {T S : Type}

mutual

/-- Two rounds for every node and one for every summary in it. -/
def rounds : SumTree T S → Nat
  | leaf _ _ itemSummaries => 2 + itemSummaries.length
  | internal _ _ childSummaries childTrees => 2 + childSummaries.length + roundsAll childTrees

def roundsAll : List (SumTree T S) → Nat
  | [] => 0
  | tree :: trees => rounds tree + roundsAll trees

end

structure StackEntry (T S D : Type) where
  tree : SumTree T S
  index : Nat
  position : D

structure Cursor (T S D : Type) where
  tree : SumTree T S
  stack : List (StackEntry T S D)
  position : D
  didSeek : Bool
  atEnd : Bool

/-- What is told of the items and trees that are walked over. -/
structure SeekAggregate (A T S : Type) where
  beginLeaf : A → A
  endLeaf : A → Option A
  pushItem : A → T → S → A
  pushTree : A → SumTree T S → S → Option A

/-- `impl SeekAggregate for ()`. -/
def SeekAggregate.unit (T S : Type) : SeekAggregate Unit T S where
  beginLeaf a := a
  endLeaf a := some a
  pushItem a _ _ := a
  pushTree a _ _ := some a

structure SliceSeekAggregate (T S : Type) where
  tree : SumTree T S
  leafItems : List T
  leafItemSummaries : List S
  leafSummary : S

def SeekAggregate.slice (T S : Type) [Summary S] : SeekAggregate (SliceSeekAggregate T S) T S where
  beginLeaf a := a
  endLeaf a := (a.tree.append (.leaf a.leafSummary a.leafItems a.leafItemSummaries)).map fun tree =>
    ⟨tree, [], [], Summary.zero⟩
  pushItem a item summary := { a with
    leafItems := a.leafItems ++ [item]
    leafItemSummaries := a.leafItemSummaries ++ [summary]
    leafSummary := Summary.add a.leafSummary summary }
  pushTree a tree _ := (a.tree.append tree).map fun tree => { a with tree := tree }

/-- `SummarySeekAggregate`. -/
def SeekAggregate.summary (D T S : Type) [Dimension D S] : SeekAggregate D T S where
  beginLeaf a := a
  endLeaf a := some a
  pushItem a _ summary := Dimension.addSummary a summary
  pushTree a _ summary := some (Dimension.addSummary a summary)

/-- `End`: it is beyond every position. -/
def SeekTarget.end {D : Type} : SeekTarget D := ⟨fun _ => .gt⟩

/-- A key is compared with the key at a position. -/
def SeekTarget.ofKey {K : Type} [Ord K] (key : K) : SeekTarget K := ⟨fun position => compare key position⟩

namespace Cursor

variable {T S D A : Type} [Dimension D S]

def new (tree : SumTree T S) : Cursor T S D :=
  ⟨tree, [], Dimension.zero S, false, tree.isEmpty⟩

def reset (c : Cursor T S D) : Cursor T S D :=
  { c with didSeek := false, atEnd := c.tree.isEmpty, stack := [], position := Dimension.zero S }

/-- The item at the cursor, `some none` if it is at neither. -/
def item (c : Cursor T S D) : Option (Option T) :=
  if c.didSeek = false then none
  else match c.stack with
    | [] => some none
    | entry :: _ =>
      match entry.tree with
      | .leaf _ items _ => if entry.index = items.length then some none else items[entry.index]?.map some
      | .internal .. => none

def itemSummary (c : Cursor T S D) : Option (Option S) :=
  if c.didSeek = false then none
  else match c.stack with
    | [] => some none
    | entry :: _ =>
      match entry.tree with
      | .leaf _ _ itemSummaries =>
        if entry.index = itemSummaries.length then some none else itemSummaries[entry.index]?.map some
      | .internal .. => none

/-- `end`: the position behind the item. -/
def endPosition (c : Cursor T S D) : Option D :=
  c.itemSummary.map fun itemSummary => itemSummary.elim c.position (Dimension.addSummary c.position)

/-- The leaf that follows, looked for upwards from the parent of the one at the top; `some none`
if there is none. -/
def nextLeaf : List (StackEntry T S D) → Option (Option (SumTree T S))
  | [] => some none
  | entry :: stack =>
    entry.tree.childTrees.bind fun childTrees =>
      if childTrees.length = 0 then none
      else if entry.index < childTrees.length - 1 then
        (childTrees[entry.index + 1]?.bind SumTree.leftmostLeaf).map some
      else nextLeaf stack

def nextItem (c : Cursor T S D) : Option (Option T) :=
  if c.didSeek = false then none
  else match c.stack with
    | [] => if c.atEnd then some none else c.tree.first
    | entry :: stack =>
      entry.tree.nodeItems.bind fun items =>
        if items.length = 0 then none
        else if entry.index = items.length - 1 then
          (nextLeaf stack).bind fun leaf =>
            match leaf with
            | some leaf => (leaf.nodeItems.bind List.head?).map some
            | none => some none
        else items[entry.index + 1]?.map some

def prevLeaf : List (StackEntry T S D) → Option (Option (SumTree T S))
  | [] => some none
  | entry :: stack =>
    if entry.index ≠ 0 then
      entry.tree.childTrees.bind fun childTrees =>
        (childTrees[entry.index - 1]?.bind SumTree.rightmostLeaf).map some
    else prevLeaf stack

def prevItem (c : Cursor T S D) : Option (Option T) :=
  if c.didSeek = false then none
  else match c.stack with
    | [] => if c.atEnd then c.tree.last else some none
    | entry :: stack =>
      if entry.index = 0 then
        (prevLeaf stack).bind fun leaf =>
          match leaf with
          | some leaf => (leaf.nodeItems.bind List.getLast?).map some
          | none => some none
      else entry.tree.nodeItems.bind fun items => items[entry.index - 1]?.map some

/-- A bound for the rounds of a loop over the stack. -/
def fuel (stack : List (StackEntry T S D)) : Nat := (stack.map fun e => e.tree.rounds).sum + 1

/-! ### Seeking -/

/-- A node that the loop comes back to: the child it comes from is done. -/
def resumed (ascending : Bool) (entry : StackEntry T S D) (position : D) : StackEntry T S D :=
  if ascending then { entry with index := entry.index + 1, position := position } else entry

/-- The target is behind what ends here. -/
def passes (target : SeekTarget D) (bias : Bias) (childEnd : D) : Bool :=
  target.cmp childEnd = .gt ∨ (target.cmp childEnd = .eq ∧ bias = .right)

/-- The `for` loop over the children of a node: those passed are pushed, the first other one
is returned. -/
def seekChildren (target : SeekTarget D) (bias : Bias) (aggregate : SeekAggregate A T S) :
    List (SumTree T S × S) → StackEntry T S D → D → A →
    Option (StackEntry T S D × D × A × Option (SumTree T S))
  | [], entry, position, a => some (entry, position, a, none)
  | (childTree, childSummary) :: children, entry, position, a =>
    let childEnd := Dimension.addSummary position childSummary
    if passes target bias childEnd then
      (aggregate.pushTree a childTree childSummary).bind fun a =>
        seekChildren target bias aggregate children
          { entry with index := entry.index + 1, position := childEnd } childEnd a
    else some (entry, position, a, some childTree)

/-- The `for` loop over the items of a leaf, and whether it stopped at one. -/
def seekItems (target : SeekTarget D) (bias : Bias) (aggregate : SeekAggregate A T S) :
    List (T × S) → StackEntry T S D → D → A → StackEntry T S D × D × A × Bool
  | [], entry, position, a => (entry, position, a, false)
  | (item, itemSummary) :: items, entry, position, a =>
    let childEnd := Dimension.addSummary position itemSummary
    if passes target bias childEnd then
      seekItems target bias aggregate items { entry with index := entry.index + 1 } childEnd
        (aggregate.pushItem a item itemSummary)
    else (entry, position, a, true)

/-- The loop of `seek_internal`. -/
def seekLoop (target : SeekTarget D) (bias : Bias) (aggregate : SeekAggregate A T S) :
    Nat → Bool → List (StackEntry T S D) → D → A → Option (List (StackEntry T S D) × D × A)
  | 0, _, _, _, _ => none
  | _ + 1, _, [], position, a => some ([], position, a)
  | fuel + 1, ascending, entry :: stack, position, a =>
    match entry.tree with
    | .internal _ _ childSummaries childTrees =>
      let entry := resumed ascending entry position
      if entry.index > childTrees.length ∨ entry.index > childSummaries.length then none
      else (seekChildren target bias aggregate
          ((childTrees.drop entry.index).zip (childSummaries.drop entry.index)) entry position a).bind
        fun (entry, position, a, child) =>
          match child with
          | some childTree => seekLoop target bias aggregate fuel false
              (⟨childTree, 0, position⟩ :: entry :: stack) position a
          | none => seekLoop target bias aggregate fuel true stack position a
    | .leaf _ items itemSummaries =>
      if entry.index > items.length ∨ entry.index > itemSummaries.length then none
      else
        let (entry, position, a, stopped) := seekItems target bias aggregate
          ((items.drop entry.index).zip (itemSummaries.drop entry.index)) entry position
          (aggregate.beginLeaf a)
        (aggregate.endLeaf a).bind fun a =>
          if stopped then some (entry :: stack, position, a)
          else seekLoop target bias aggregate fuel true stack position a

/-- Before the first move the root is on the stack. -/
def started (c : Cursor T S D) : Cursor T S D :=
  if c.didSeek then c
  else { c with didSeek := true, stack := ⟨c.tree, 0, Dimension.zero S⟩ :: c.stack }

/-- Whether the target is where the cursor is, or with a left bias where its item ends. -/
def found (target : SeekTarget D) (bias : Bias) (c : Cursor T S D) : Option Bool :=
  if bias = .left then
    c.itemSummary.map fun summary =>
      decide (target.cmp (summary.elim c.position (Dimension.addSummary c.position)) = .eq)
  else some (decide (target.cmp c.position = .eq))

/-- The cursor moves forward to the target; the result tells whether it was found. -/
def seekInternal (target : SeekTarget D) (bias : Bias) (aggregate : SeekAggregate A T S)
    (c : Cursor T S D) (a : A) : Option (Bool × Cursor T S D × A) :=
  -- `assert!(.., "cannot seek backward")`
  if target.cmp c.position = .lt then none
  else
    let c := c.started
    (seekLoop target bias aggregate (fuel c.stack) false c.stack c.position a).bind
      fun (stack, position, a) =>
        let c := { c with stack := stack, position := position, atEnd := stack.isEmpty }
        (found target bias c).map fun found => (found, c, a)

def seek (c : Cursor T S D) (target : SeekTarget D) (bias : Bias) : Option (Bool × Cursor T S D) :=
  (seekInternal target bias (SeekAggregate.unit T S) c.reset ()).map fun r => (r.1, r.2.1)

def seekForward (c : Cursor T S D) (target : SeekTarget D) (bias : Bias) :
    Option (Bool × Cursor T S D) :=
  (seekInternal target bias (SeekAggregate.unit T S) c ()).map fun r => (r.1, r.2.1)

/-- The items that are walked over, as a tree. -/
def slice [Summary S] (c : Cursor T S D) (target : SeekTarget D) (bias : Bias) :
    Option (SumTree T S × Cursor T S D) :=
  (seekInternal target bias (SeekAggregate.slice T S) c ⟨.new, [], [], Summary.zero⟩).map fun r =>
    (r.2.2.tree, r.2.1)

def suffix [Summary S] (c : Cursor T S D) : Option (SumTree T S × Cursor T S D) :=
  c.slice SeekTarget.end .right

def summary {E : Type} [Dimension E S] (c : Cursor T S D) (target : SeekTarget D) (bias : Bias) :
    Option (E × Cursor T S D) :=
  (seekInternal target bias (SeekAggregate.summary E T S) c (Dimension.zero S)).map fun r =>
    (r.2.2, r.2.1)

/-! ### Moving by one item -/

/-- The summaries that the filter lets pass over; the entry and the position go on with
them. -/
def skip (filterNode : S → Bool) : List S → StackEntry T S D → D → StackEntry T S D × D
  | [], entry, position => (entry, position)
  | summary :: summaries, entry, position =>
    if filterNode summary then (entry, position)
    else skip filterNode summaries
      { entry with index := entry.index + 1, position := Dimension.addSummary entry.position summary }
      (Dimension.addSummary position summary)

/-- The item at which the cursor was in a leaf is left behind. -/
def leaveItem (descend : Bool) (itemSummaries : List S) (entry : StackEntry T S D) (position : D) :
    Option (StackEntry T S D × D) :=
  if descend then some (entry, position)
  else itemSummaries[entry.index]?.map fun itemSummary =>
    ({ entry with index := entry.index + 1, position := Dimension.addSummary entry.position itemSummary },
      Dimension.addSummary position itemSummary)

/-- The loop of `search_forward`: the stack and the position, and whether it returned at an
item. -/
def searchForwardLoop (filterNode : S → Bool) :
    Nat → Bool → List (StackEntry T S D) → D → Option (List (StackEntry T S D) × D × Bool)
  | 0, _, _, _ => none
  | _ + 1, _, [], position => some ([], position, false)
  | fuel + 1, descend, entry :: stack, position =>
    match entry.tree with
    | .internal _ _ childSummaries childTrees =>
      let entry := resumed (!descend) entry position
      let (entry, position) := skip filterNode (childSummaries.drop entry.index) entry position
      match childTrees[entry.index]? with
      | some subtree =>
        searchForwardLoop filterNode fuel true (⟨subtree, 0, position⟩ :: entry :: stack) position
      | none => searchForwardLoop filterNode fuel false stack position
    | .leaf _ _ itemSummaries =>
      (leaveItem descend itemSummaries entry position).bind fun (entry, position) =>
        let (entry, position) := skip filterNode (itemSummaries.drop entry.index) entry position
        if entry.index < itemSummaries.length then some (entry :: stack, position, true)
        else searchForwardLoop filterNode fuel false stack position

def searchForward (filterNode : S → Bool) (c : Cursor T S D) : Option (Cursor T S D) :=
  let descend := c.stack.isEmpty && !c.atEnd
  let didSeek := c.didSeek || c.stack.isEmpty
  let stack := if descend then [⟨c.tree, 0, Dimension.zero S⟩] else c.stack
  (searchForwardLoop filterNode (fuel stack) descend stack c.position).map
    fun (stack, position, found) =>
      { c with
        stack := stack
        position := position
        didSeek := didSeek
        atEnd := if found then c.atEnd else stack.isEmpty }

def next (c : Cursor T S D) : Option (Cursor T S D) := c.searchForward fun _ => true

def nextIf (cond : Bool) (c : Cursor T S D) : Option (Cursor T S D) := if cond then c.next else some c

/-- The loop of `search_backward`. -/
def searchBackwardLoop (filterNode : S → Bool) :
    Nat → Bool → List (StackEntry T S D) → D → Option (List (StackEntry T S D) × D)
  | 0, _, _, _ => none
  | _ + 1, _, [], position => some ([], position)
  | fuel + 1, descending, entry :: stack, _ =>
    let position := (stack.head?.map StackEntry.position).getD (Dimension.zero S)
    if descending = false ∧ entry.index = 0 then searchBackwardLoop filterNode fuel descending stack position
    else
      let index := if descending then entry.index else entry.index - 1
      match entry.tree.childSummaries[index]? with
      | none => none
      | some childSummary =>
        let position := (entry.tree.childSummaries.take index).foldl Dimension.addSummary position
        let entry := { entry with index := index, position := position }
        if filterNode childSummary then
          match entry.tree with
          | .internal _ _ _ childTrees =>
            match childTrees[index]? with
            | none => none
            | some tree =>
              if tree.childSummaries.length = 0 then none
              else searchBackwardLoop filterNode fuel true
                (⟨tree, tree.childSummaries.length - 1, Dimension.zero S⟩ :: entry :: stack) position
          | .leaf .. => some (entry :: stack, position)
        else searchBackwardLoop filterNode fuel false (entry :: stack) position

/-- From the end, and before the first move, a search backward starts behind the last
child of the root. -/
def startedBackward (c : Cursor T S D) : Cursor T S D :=
  if c.didSeek && !c.atEnd then c
  else { c with
    didSeek := true
    position := Dimension.zero S
    atEnd := c.tree.isEmpty
    stack := if c.tree.isEmpty then c.stack
      else ⟨c.tree, c.tree.childSummaries.length,
        Dimension.addSummary (Dimension.zero S) c.tree.summary⟩ :: c.stack }

def searchBackward (filterNode : S → Bool) (c : Cursor T S D) : Option (Cursor T S D) :=
  let c := c.startedBackward
  (searchBackwardLoop filterNode (fuel c.stack) false c.stack c.position).map
    fun (stack, position) => { c with stack := stack, position := position }

def prev (c : Cursor T S D) : Option (Cursor T S D) := c.searchBackward fun _ => true

end Cursor

/-! ### Iterators -/

/-- What an iterator gives until it gives nothing. -/
def collect {σ α : Type} (next : σ → Option (Option α × σ)) : Nat → σ → Option (List α)
  | 0, _ => none
  | fuel + 1, state =>
    (next state).bind fun r =>
      match r.1 with
      | some item => (collect next fuel r.2).map (item :: ·)
      | none => some []

/-- `Iterator::next` of a cursor. -/
def Cursor.iterNext {T S D : Type} [Dimension D S] (c : Cursor T S D) : Option (Option T × Cursor T S D) :=
  (if c.didSeek then some c else c.next).bind fun c =>
    c.item.bind fun item =>
      match item with
      | some item => c.next.map fun c => (some item, c)
      | none => some (none, c)

structure Iter (T S : Type) where
  tree : SumTree T S
  stack : List (StackEntry T S Unit)

namespace Iter

variable {T S : Type}

def new (tree : SumTree T S) : Iter T S := ⟨tree, []⟩

/-- The loop of `next`: the stack and the item it returns. -/
def nextLoop : Nat → Bool → List (StackEntry T S Unit) → Option (List (StackEntry T S Unit) × Option T)
  | 0, _, _ => none
  | _ + 1, _, [] => some ([], none)
  | fuel + 1, descend, entry :: stack =>
    let entry := if descend then entry else { entry with index := entry.index + 1 }
    match entry.tree with
    | .internal _ _ _ childTrees =>
      match childTrees[entry.index]? with
      | some subtree => nextLoop fuel true (⟨subtree, 0, ()⟩ :: entry :: stack)
      | none => nextLoop fuel false stack
    | .leaf _ items _ =>
      match items[entry.index]? with
      | some nextItem => some (entry :: stack, some nextItem)
      | none => nextLoop fuel false stack

def next (it : Iter T S) : Option (Option T × Iter T S) :=
  let descend := it.stack.isEmpty
  let stack := if descend then [⟨it.tree, 0, ()⟩] else it.stack
  (nextLoop (Cursor.fuel stack) descend stack).map fun (stack, item) => (item, { it with stack := stack })

end Iter

/-- The items that `iter` gives. -/
def iterItems {T S : Type} (tree : SumTree T S) : Option (List T) :=
  collect Iter.next tree.rounds (Iter.new tree)

/-! ### Keyed items -/

section Keyed

variable {T S K : Type} [Summary S] [Item T S] [Ord K] [DecidableEq K] [KeyedItem T K] [Dimension K S]

open KeyedItem

/-- The tree and the item that was replaced. -/
def insertOrReplace (self : SumTree T S) (item : T) : Option (SumTree T S × Option T) := do
  let cursor : Cursor T S K := Cursor.new self
  let (newTree, cursor) ← cursor.slice (SeekTarget.ofKey (key item)) .left
  let cursorItem ← cursor.item
  let replaced := cursorItem.filter fun cursorItem => decide (key cursorItem = key item)
  let cursor ← cursor.nextIf replaced.isSome
  let newTree ← newTree.push item
  let (suffix, _) ← cursor.suffix
  let newTree ← newTree.append suffix
  some (newTree, replaced)

/-- The tree and the item that was removed. -/
def remove (self : SumTree T S) (key : K) : Option (SumTree T S × Option T) := do
  let cursor : Cursor T S K := Cursor.new self
  let (newTree, cursor) ← cursor.slice (SeekTarget.ofKey key) .left
  let cursorItem ← cursor.item
  let removed := cursorItem.filter fun cursorItem => decide (KeyedItem.key cursorItem = key)
  let cursor ← cursor.nextIf removed.isSome
  let (suffix, _) ← cursor.suffix
  let newTree ← newTree.append suffix
  some (newTree, removed)

end Keyed

inductive Edit (T K : Type)
  | insert (item : T)
  | remove (key : K)

def Edit.key {T K : Type} [KeyedItem T K] : Edit T K → K
  | insert item => KeyedItem.key item
  | remove key => key

/-- The state of the loop of `edit`. -/
structure EditState (T S K : Type) where
  cursor : Cursor T S K
  newTree : SumTree T S
  bufferedItems : List T
  removed : List T

section Edits

variable {T S K : Type} [Summary S] [Item T S] [LinearOrder K] [KeyedItem T K] [Dimension K S]

open KeyedItem

/-- What is before the key is copied, with the items buffered so far; the old item is the
one that the cursor is at then. -/
def editAdvance (s : EditState T S K) (newKey : K) : Option (EditState T S K × Option T) := do
  let oldItem ← s.cursor.item
  if oldItem.any fun oldItem => decide (key oldItem < newKey) then
    let newTree ← s.newTree.extend s.bufferedItems
    let (slice, cursor) ← s.cursor.slice (SeekTarget.ofKey newKey) .left
    let newTree ← newTree.append slice
    let oldItem ← cursor.item
    some ({ s with cursor := cursor, newTree := newTree, bufferedItems := [] }, oldItem)
  else some (s, oldItem)

/-- One round of `edit`: the item with the key is left out, and an item to insert is
buffered. -/
def editStep (s : EditState T S K) (edit : Edit T K) : Option (EditState T S K) := do
  let (s, oldItem) ← editAdvance s edit.key
  let old := oldItem.filter fun oldItem => decide (key oldItem = edit.key)
  let cursor ← s.cursor.nextIf old.isSome
  let bufferedItems := match edit with
    | .insert item => s.bufferedItems ++ [item]
    | .remove _ => s.bufferedItems
  some { s with cursor := cursor, bufferedItems := bufferedItems, removed := s.removed ++ old.toList }

/-- `edit` with the edits sorted by key: the order of those with one key is left open by
`sort_unstable_by_key`. -/
def editSorted (self : SumTree T S) (edits : List (Edit T K)) : Option (SumTree T S × List T) := do
  if edits.isEmpty then some (self, [])
  else
    let cursor : Cursor T S K := Cursor.new self
    let (_, cursor) ← cursor.seek (SeekTarget.ofKey (Dimension.zero S)) .left
    let s ← edits.foldlM editStep ⟨cursor, new, [], []⟩
    let newTree ← s.newTree.extend s.bufferedItems
    let (suffix, _) ← s.cursor.suffix
    let newTree ← newTree.append suffix
    some (newTree, s.removed)

end Edits

end SumTree

end FcGpui
