import FcGpui.SumTree.Cursor

/-!
# Tree maps

`TreeMap` of `crates/sum_tree/src/tree_map.rs`: a map is the tree of its entries, in the
order of their keys, and the summary of a subtree is its last key.  As in `Tree`, `none`
is a panic; what a method returns and the map it leaves come together.

The predicate of `retain` may have a state, which it is given and leaves.  `retain` and
the iterators go on as long as there are items, which `rounds` of the tree bounds.
-/

namespace FcGpui

open SumTree

structure TreeMap (K V : Type) where
  tree : SumTree (MapEntry K V) (MapKey K)

/-- A target is compared with a key; the keys before the target come first. -/
structure MapSeekTarget (K : Type) [LinearOrder K] where
  cmpCursor : K → Ordering
  before : ∀ {i j : K}, i ≤ j → cmpCursor j = .gt → cmpCursor i = .gt

namespace MapSeekTarget

variable {K : Type} [LinearOrder K]

/-- `impl MapSeekTarget<K> for K`. -/
def ofKey (key : K) : MapSeekTarget K where
  cmpCursor cursorLocation := compare key cursorLocation
  before hle hgt := by
    rw [compare_gt_iff_gt] at hgt ⊢
    exact hle.trans_lt hgt

/-- `MapSeekTargetAdaptor`. -/
def adaptor (target : MapSeekTarget K) : SeekTarget (MapKeyRef K) where
  cmp cursorLocation :=
    match cursorLocation.key with
    | some key => target.cmpCursor key
    | none => .gt

end MapSeekTarget

namespace TreeMap

variable {K V W σ : Type} [LinearOrder K]

/-- `Default::default()`. -/
def empty : TreeMap K V := ⟨.new⟩

def fromOrderedEntries (entries : List (K × V)) : Option (TreeMap K V) :=
  (fromIter (entries.map fun (key, value) => ⟨key, value⟩)).map TreeMap.mk

/-- `self.0.cursor::<MapKeyRef<'_, K>>(())` -/
def cursor (self : TreeMap K V) : SumTree.Cursor (MapEntry K V) (MapKey K) (MapKeyRef K) := Cursor.new self.tree

def get (self : TreeMap K V) (key : K) : Option (Option V) := do
  let (_, cursor) ← self.cursor.seek (MapKeyRef.target ⟨some key⟩) .left
  let item ← cursor.item
  some (item.bind fun item =>
    if some key = (KeyedItem.key item).key then some item.value else none)

def insert (self : TreeMap K V) (key : K) (value : V) : Option (TreeMap K V) :=
  (self.tree.insertOrReplace ⟨key, value⟩).map fun r => ⟨r.1⟩

def clear (_self : TreeMap K V) : TreeMap K V := ⟨.new⟩

/-- The map and the value that was removed. -/
def remove (self : TreeMap K V) (key : K) : Option (TreeMap K V × Option V) := do
  let key : MapKeyRef K := ⟨some key⟩
  let (newTree, cursor) ← self.cursor.slice key.target .left
  let end' ← cursor.endPosition
  let (removed, cursor) ←
    if key.target.cmp end' = .eq then do
      let item ← cursor.item
      -- `cursor.item().unwrap()`
      let item ← item
      let cursor ← cursor.next
      some (some item.value, cursor)
    else some (none, cursor)
  let (suffix, _) ← cursor.suffix
  let newTree ← newTree.append suffix
  some (⟨newTree⟩, removed)

def removeRange (self : TreeMap K V) (start end' : MapSeekTarget K) : Option (TreeMap K V) := do
  let (newTree, cursor) ← self.cursor.slice start.adaptor .left
  let (_, cursor) ← cursor.seek end'.adaptor .left
  let (suffix, _) ← cursor.suffix
  let newTree ← newTree.append suffix
  some ⟨newTree⟩

/-- The greatest key less than or equal to the given key, and its value. -/
def closest (self : TreeMap K V) (key : K) : Option (Option (K × V)) := do
  let (_, cursor) ← self.cursor.seek (MapKeyRef.target ⟨some key⟩) .right
  let cursor ← cursor.prev
  let item ← cursor.item
  some (item.map fun item => (item.key, item.value))

/-- What the iterator gives. -/
def iterFrom (self : TreeMap K V) (start : K) : Option (List (K × V)) := do
  let (_, cursor) ← self.cursor.seek (MapKeyRef.target ⟨some start⟩) .left
  let items ← collect Cursor.iterNext self.tree.rounds cursor
  some (items.map fun mapEntry => (mapEntry.key, mapEntry.value))

/-- The map and what `f` returned; `f` leaves the value it is given a reference to. -/
def update (self : TreeMap K V) (key : K) (f : V → V × W) : Option (TreeMap K V × Option W) := do
  let key : MapKeyRef K := ⟨some key⟩
  let (newTree, cursor) ← self.cursor.slice key.target .left
  let end' ← cursor.endPosition
  let (newTree, result, cursor) ←
    if key.target.cmp end' = .eq then do
      let item ← cursor.item
      -- `cursor.item().unwrap()`
      let updated ← item
      let (value, result) := f updated.value
      let newTree ← newTree.push { updated with value := value }
      let cursor ← cursor.next
      some (newTree, some result, cursor)
    else some (newTree, none, cursor)
  let (suffix, _) ← cursor.suffix
  let newTree ← newTree.append suffix
  some (⟨newTree⟩, result)

/-- The loop of `retain`. -/
def retainLoop (predicate : σ → K → V → Bool × σ) : Nat → SumTree.Cursor (MapEntry K V) (MapKey K) (MapKeyRef K) →
    SumTree (MapEntry K V) (MapKey K) → σ → Option (SumTree (MapEntry K V) (MapKey K) × σ)
  | 0, _, _, _ => none
  | fuel + 1, cursor, newMap, state => do
    let item ← cursor.item
    match item with
    | some item =>
      let (keep, state) := predicate state item.key item.value
      let newMap ← if keep then newMap.push item else some newMap
      let cursor ← cursor.next
      retainLoop predicate fuel cursor newMap state
    | none => some (newMap, state)

/-- The map and the state in which the predicate is left. -/
def retain (self : TreeMap K V) (predicate : σ → K → V → Bool × σ) (state : σ) : Option (TreeMap K V × σ) := do
  let cursor ← self.cursor.next
  let (newMap, state) ← retainLoop predicate self.tree.rounds cursor .new state
  some (⟨newMap⟩, state)

/-- What the iterator gives. -/
def iter (self : TreeMap K V) : Option (List (K × V)) :=
  (iterItems self.tree).map fun entries => entries.map fun entry => (entry.key, entry.value)

def first (self : TreeMap K V) : Option (Option (K × V)) :=
  self.tree.first.map fun entry => entry.map fun entry => (entry.key, entry.value)

def last (self : TreeMap K V) : Option (Option (K × V)) :=
  self.tree.last.map fun entry => entry.map fun entry => (entry.key, entry.value)

end TreeMap

end FcGpui
