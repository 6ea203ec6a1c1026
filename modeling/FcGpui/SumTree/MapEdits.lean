import FcGpui.SumTree.Edits

/-!
# Extending a map

`extend` edits the tree of a map with one insertion for each pair.  As `edit` does not merge
the insertions of one key, it is the same as inserting one pair after another only if no key
is repeated.

**Main result.**  `extend_edit_iff`.
-/

namespace FcGpui

open SumTree KeyedItem

namespace TreeMap

variable {K V : Type} [LinearOrder K] {m : TreeMap K V} {f : K → Option V} {pairs : List (K × V)}

/-- The edits of `extend`. -/
def insertions (iter : List (K × V)) : List (Edit (MapEntry K V) (MapKey K)) :=
  iter.map fun (key, value) => .insert ⟨key, value⟩

def extend (sort : UnstableSort (Edit.key (T := MapEntry K V) (K := MapKey K))) (self : TreeMap K V)
    (iter : List (K × V)) : Option (TreeMap K V) :=
  (self.tree.edit sort (insertions iter)).map fun r => ⟨r.1⟩

/-- One pair after another is inserted. -/
def insertAll (self : TreeMap K V) (pairs : List (K × V)) : Option (TreeMap K V) :=
  pairs.foldlM (fun m pair => m.insert pair.1 pair.2) self

omit [LinearOrder K] in
theorem nodup_insertions : (insertedKeys (insertions pairs)).Nodup ↔ (pairs.map Prod.fst).Nodup := by
  have hkeys : insertedKeys (insertions pairs) = (pairs.map Prod.fst).map fun key => (⟨some key⟩ : MapKey K) := by
    induction pairs with
    | nil => rfl
    | cons pair pairs ih =>
      have hcons : insertedKeys (insertions (pair :: pairs)) = ⟨some pair.1⟩ :: insertedKeys (insertions pairs) := rfl
      rw [hcons, ih]
      rfl
  rw [hkeys]
  refine List.nodup_map_iff fun a b h => ?_
  exact Option.some.inj (congrArg MapKey.key h)

/-- The pairs are set in turn. -/
def setAll (f : K → Option V) (pairs : List (K × V)) : K → Option V :=
  pairs.foldl (fun f pair => Function.update f pair.1 (some pair.2)) f

theorem Represents.insertAll (h : m.Represents f) (pairs : List (K × V)) :
    ∃ m', m.insertAll pairs = some m' ∧ m'.Represents (setAll f pairs) := by
  induction pairs generalizing m f with
  | nil => exact ⟨m, rfl, h⟩
  | cons pair pairs ih =>
    obtain ⟨m₁, hinsert, h₁⟩ := h.insert pair.1 pair.2
    obtain ⟨m', hrest, h'⟩ := ih h₁
    refine ⟨m', ?_, h'⟩
    rw [TreeMap.insertAll, List.foldlM_cons, hinsert]
    exact hrest

/-- If no key is repeated, a pair is the value of its key. -/
theorem setAll_eq_some_iff (hnodup : (pairs.map Prod.fst).Nodup) (j : K) (v : V) :
    setAll f pairs j = some v ↔ (j, v) ∈ pairs ∨ (f j = some v ∧ ∀ pair ∈ pairs, pair.1 ≠ j) := by
  induction pairs generalizing f with
  | nil => simp [setAll]
  | cons pair pairs ih =>
    obtain ⟨hnot, hrest⟩ := List.nodup_cons.mp hnodup
    have hcons : setAll f (pair :: pairs) = setAll (Function.update f pair.1 (some pair.2)) pairs := rfl
    rw [hcons, ih hrest, List.mem_cons, List.forall_mem_cons]
    by_cases heq : j = pair.1
    · subst heq
      have hnone : ∀ other ∈ pairs, other.1 ≠ pair.1 := fun other hother heq => hnot (heq ▸ List.mem_map_of_mem hother)
      have hmem : (pair.1, v) ∉ pairs := fun hmem => hnone _ hmem rfl
      rw [Function.update_self, Option.some_inj, or_iff_right hmem, and_iff_left hnone, or_iff_left hmem,
        or_iff_left fun h => h.2.1 rfl]
      exact ⟨fun h => by rw [← h], fun h => (congrArg Prod.snd h).symm⟩
    · have hpair : (j, v) ≠ pair := fun h => heq (congrArg Prod.fst h)
      rw [Function.update_of_ne heq]
      simp [hpair, Ne.symm heq]

theorem ordered_entriesOf {items : List (MapEntry K V)} :
    (entriesOf items).Ordered ↔ items.Pairwise fun a b => key a < key b := by
  rw [OrdMap.Ordered, OrdMap.keys, entriesOf, List.map_map, List.pairwise_map]
  exact ⟨fun h => h.imp WithBot.coe_lt_coe.mpr, fun h => h.imp WithBot.coe_lt_coe.mp⟩

omit [LinearOrder K] in
theorem mem_entriesOf {items : List (MapEntry K V)} {j : K} {v : V} :
    (j, v) ∈ entriesOf items ↔ (⟨j, v⟩ : MapEntry K V) ∈ items := by
  rw [entriesOf, List.mem_map]
  constructor
  · rintro ⟨entry, hentry, heq⟩
    obtain ⟨rfl, rfl⟩ := Prod.mk.inj heq
    exact hentry
  · exact fun h => ⟨_, h, rfl⟩

/-- The entries that insertions without a repeated key leave, in whatever order they were sorted. -/
theorem Represents.edited (h : m.Represents f) (hnodup : (pairs.map Prod.fst).Nodup)
    {sorted : List (Edit (MapEntry K V) (MapKey K))} (hperm : sorted.Perm (insertions pairs))
    (hsorted : SortedBy Edit.key sorted) :
    (entriesOf (SumTree.edited m.tree.toList sorted)).Represents (setAll f pairs) := by
  refine ⟨?_, fun j v => ?_⟩
  · rw [ordered_entriesOf, edited_ordered_iff (ordered_entriesOf.mp h.entries.ordered) hsorted,
      insertedKeys, (hperm.flatMap_right _).nodup_iff]
    exact nodup_insertions.mpr hnodup
  · have hinsert : Edit.insert (⟨j, v⟩ : MapEntry K V) ∈ sorted ↔ (j, v) ∈ pairs := by
      rw [hperm.mem_iff, insertions, List.mem_map]
      constructor
      · rintro ⟨pair, hpair, heq⟩
        obtain ⟨rfl, rfl⟩ := MapEntry.mk.inj (Edit.insert.inj heq)
        exact hpair
      · exact fun hpair => ⟨_, hpair, rfl⟩
    have hkeys : (∀ edit ∈ sorted, edit.key ≠ key (⟨j, v⟩ : MapEntry K V)) ↔ ∀ pair ∈ pairs, pair.1 ≠ j := by
      refine (forall_congr' fun _ => imp_congr_left hperm.mem_iff).trans ?_
      rw [insertions, List.forall_mem_map]
      refine forall₂_congr fun pair _ => not_congr ⟨fun heq => ?_, fun heq => ?_⟩
      · exact Option.some.inj (congrArg MapKey.key heq)
      · exact congrArg (fun k => (⟨some k⟩ : MapKey K)) heq
    rw [setAll_eq_some_iff hnodup, ← h.entries.mem, mem_entriesOf, mem_edited hsorted, hinsert, hkeys, mem_entriesOf]

theorem represents_of_ordered (hvalid : m.tree.Valid True) (hordered : (entriesOf m.tree.toList).Ordered) :
    m.Represents (OrdMap.valueOf (entriesOf m.tree.toList)) := ⟨hvalid, hordered.represents⟩

/-- **`extend` inserts** one pair after another just if no key is repeated, and edits leave the keys in order
just if no key is inserted twice. -/
theorem extend_edit_iff (sort : UnstableSort (Edit.key (T := MapEntry K V) (K := MapKey K)))
    (hvalid : m.tree.Valid True) (hordered : (entriesOf m.tree.toList).Ordered) (pairs : List (K × V)) :
    (∃ extended inserted, m.extend sort pairs = some extended ∧ m.insertAll pairs = some inserted ∧
      ((entriesOf extended.tree.toList = entriesOf inserted.tree.toList ∧
        (entriesOf extended.tree.toList).Ordered) ↔ (pairs.map Prod.fst).Nodup)) ∧
    ∀ {T S L : Type} [Summary S] [Item T S] [LinearOrder L] [KeyedItem T L] [Dimension L S] [LawfulSummary S]
      [LawfulDimension L S] [LawfulKeys T S L] (sort : UnstableSort (Edit.key (T := T) (K := L)))
      (root : SumTree T S), root.Valid True → (root.toList.Pairwise fun a b => key a < key b) →
      ∀ edits : List (Edit T L), ∃ tree removed, root.edit sort edits = some (tree, removed) ∧
        (tree.toList.Pairwise (fun a b => key a < key b) ↔ (insertedKeys edits).Nodup) := by
  constructor
  · have h := represents_of_ordered hvalid hordered
    obtain ⟨inserted, hinsert, hinserted⟩ := h.insertAll pairs
    obtain ⟨tree, removed, hedit, htree, hlist⟩ := editSorted_edited (S := MapKey K) hvalid
      (ordered_entriesOf.mp hordered) (sort.run (insertions pairs))
    have hiff := edited_ordered_iff (ordered_entriesOf.mp hordered) (sort.sorted (insertions pairs))
    rw [insertedKeys_nodup, nodup_insertions, ← ordered_entriesOf, ← hlist] at hiff
    refine ⟨⟨tree⟩, inserted, ?_, hinsert, fun h => hiff.mp h.2, fun hnodup => ⟨?_, hiff.mpr hnodup⟩⟩
    · rw [extend, SumTree.edit, hedit]
      rfl
    · have hedited := h.edited hnodup (sort.perm _) (sort.sorted _)
      rw [← hlist] at hedited
      exact hedited.unique hinserted.entries
  · intro T S L _ _ _ _ _ _ _ _ sort root hvalid hordered edits
    obtain ⟨tree, removed, hedit, htree, hlist⟩ := editSorted_edited hvalid hordered (sort.run edits)
    refine ⟨tree, removed, hedit, ?_⟩
    rw [hlist, edited_ordered_iff hordered (sort.sorted edits), insertedKeys_nodup]

/-- A key that is repeated is there twice. -/
theorem not_extend : ¬ ∀ (sort : UnstableSort (Edit.key (T := MapEntry Nat Nat) (K := MapKey Nat)))
    (m : TreeMap Nat Nat), m.tree.Valid True → (entriesOf m.tree.toList).Ordered → ∀ pairs : List (Nat × Nat),
    ∃ extended inserted, m.extend sort pairs = some extended ∧ m.insertAll pairs = some inserted ∧
      entriesOf extended.tree.toList = entriesOf inserted.tree.toList := by
  intro h
  obtain ⟨extended, inserted, hextend, hinsert, heq⟩ := h (.byInsertion _) empty (Or.inl rfl) List.Pairwise.nil
    [(1, 10), (1, 20)]
  have htwice : (empty.extend (.byInsertion _) [(1, 10), (1, 20)]).map (fun m => entriesOf m.tree.toList)
      = some [(1, 10), (1, 20)] := by decide
  have honce : (empty.insertAll [(1, 10), (1, 20)]).map (fun m => entriesOf m.tree.toList) = some [(1, 20)] := by decide
  rw [hextend] at htwice
  rw [hinsert] at honce
  have hboth : [(1, 10), (1, 20)] = [(1, 20)] :=
    (Option.some.inj htwice).symm.trans (heq.trans (Option.some.inj honce))
  exact absurd hboth (by decide)

theorem extend_edit_iff_two :
    (∃ extended inserted, (empty : TreeMap Nat Nat).extend (.byInsertion _) [(2, 20), (1, 10)] = some extended ∧
      (empty : TreeMap Nat Nat).insertAll [(2, 20), (1, 10)] = some inserted ∧
      ((entriesOf extended.tree.toList = entriesOf inserted.tree.toList ∧
        (entriesOf extended.tree.toList).Ordered) ↔ ([(2, 20), (1, 10)].map Prod.fst).Nodup)) ∧
    ∃ tree removed, (SumTree.new : SumTree (MapEntry Nat Nat) (MapKey Nat)).edit (.byInsertion _)
        [.insert ⟨1, 10⟩, .remove ⟨some 1⟩] = some (tree, removed) ∧
      (tree.toList.Pairwise (fun a b => key a < key b) ↔
        (insertedKeys [Edit.insert (⟨1, 10⟩ : MapEntry Nat Nat), .remove ⟨some 1⟩]).Nodup) := by
  have h := extend_edit_iff (.byInsertion _) (Or.inl rfl : (empty : TreeMap Nat Nat).tree.Valid True)
    List.Pairwise.nil [(2, 20), (1, 10)]
  exact ⟨h.1, h.2 (S := MapKey Nat) (.byInsertion _) new (Or.inl rfl) List.Pairwise.nil
    [.insert (⟨1, 10⟩ : MapEntry Nat Nat), .remove ⟨some 1⟩]⟩

end TreeMap

end FcGpui

/-!
# Removing a range of a map

`remove_range` keeps the entries before the start and those not before the end, each found
by a seek of its own (`removeRange_entries`).  An entry that is both is kept twice.

**Main result.**  `removeRange_iff`.
-/

namespace FcGpui

open SumTree

namespace TreeMap

variable {K V : Type} [LinearOrder K] {m m' : TreeMap K V}

theorem MapSeekTarget.parted (hordered : (entriesOf m.tree.toList).Ordered) (target : MapSeekTarget K) :
    Parted m.tree target.adaptor .left fun entry => target.cmpCursor entry.key = .gt where
  start := by
    show Ordering.gt ≠ .lt
    nofun
  passes d entry := by
    show decide (target.cmpCursor entry.key = .gt ∨ _ ∧ Bias.left = .right) = true ↔ _
    simp
  first := by
    have hpairwise := hordered.pairwise
    rw [entriesOf, List.pairwise_map] at hpairwise
    exact hpairwise.imp fun hlt hgt => target.before hlt.le hgt

omit [LinearOrder K] in
theorem forall_entriesOf {items : List (MapEntry K V)} (Q : K → Prop) (h : ∀ item ∈ items, Q item.key) :
    ∀ e ∈ entriesOf items, Q e.1 := by
  intro e he
  obtain ⟨item, hitem, rfl⟩ := List.mem_map.mp he
  exact h item hitem

theorem removeRange_entries (hvalid : m.tree.Valid True) (hordered : (entriesOf m.tree.toList).Ordered)
    (start end' : MapSeekTarget K) :
    ∃ m', m.removeRange start end' = some m' ∧ m'.tree.Valid True ∧
      ∃ lower lower' upper upper', entriesOf m'.tree.toList = lower ++ upper' ∧
        entriesOf m.tree.toList = lower ++ lower' ∧ entriesOf m.tree.toList = upper ++ upper' ∧
        (∀ e ∈ lower, start.cmpCursor e.1 = .gt) ∧ (∀ e ∈ lower', start.cmpCursor e.1 ≠ .gt) ∧
        (∀ e ∈ upper, end'.cmpCursor e.1 = .gt) ∧ ∀ e ∈ upper', end'.cmpCursor e.1 ≠ .gt := by
  obtain ⟨slice, c, lower, lower', hslice, hslicevalid, hlist, hlower, hstands, hbefore, hbehind⟩ :=
    (MapSeekTarget.parted hordered start).slice hvalid .new nofun
  obtain ⟨found, c', upper, upper', hseek, hstands', hbefore', hbehind'⟩ :=
    (MapSeekTarget.parted hordered end').seek hvalid hstands.tree
  obtain ⟨suffix, c'', tree, hsuffix, happend, htree, htoList⟩ := append_suffix hvalid hslicevalid hstands'
  have hslice : m.cursor.slice start.adaptor .left = some (slice, c) := hslice
  refine ⟨⟨tree⟩, ?_, htree, entriesOf lower, entriesOf lower', entriesOf upper, entriesOf upper', ?_, ?_, ?_,
    forall_entriesOf (start.cmpCursor · = .gt) hbefore, forall_entriesOf (start.cmpCursor · ≠ .gt) hbehind,
    forall_entriesOf (end'.cmpCursor · = .gt) hbefore', forall_entriesOf (end'.cmpCursor · ≠ .gt) hbehind'⟩
  · simp only [removeRange, hslice, Option.bind_eq_bind, Option.bind_some, hseek, hsuffix, happend]
  · rw [htoList, hlist, entriesOf_append]
  · rw [hlower, entriesOf_append]
  · rw [hstands'.toList, entriesOf_append]

/-- The map has the entries with a key before the start or not before the end, in order. -/
structure RemovedRange (m m' : TreeMap K V) (start end' : MapSeekTarget K) : Prop where
  ordered : (entriesOf m'.tree.toList).Ordered
  mem_iff : ∀ e, e ∈ entriesOf m'.tree.toList ↔
    e ∈ entriesOf m.tree.toList ∧ (start.cmpCursor e.1 = .gt ∨ end'.cmpCursor e.1 ≠ .gt)

/-- **Ranges.**  A range is removed just if no entry is before the start and not before the end. -/
theorem removeRange_iff (hvalid : m.tree.Valid True) (hordered : (entriesOf m.tree.toList).Ordered)
    (start end' : MapSeekTarget K) :
    ∃ m', m.removeRange start end' = some m' ∧ m'.tree.Valid True ∧
      (RemovedRange m m' start end' ↔ ∀ e ∈ entriesOf m.tree.toList,
        ¬ (start.cmpCursor e.1 = .gt ∧ end'.cmpCursor e.1 ≠ .gt)) := by
  obtain ⟨m', hremove, hvalid', lower, lower', upper, upper', hnew, hlower, hupper, hbefore, hbehind, hbefore', hbehind'⟩ :=
    removeRange_entries hvalid hordered start end'
  refine ⟨m', hremove, hvalid', ?_⟩
  have hmemlower : ∀ e, e ∈ lower ↔ e ∈ entriesOf m.tree.toList ∧ start.cmpCursor e.1 = .gt := by
    intro e
    rw [hlower, List.mem_append]
    constructor
    · exact fun he => ⟨Or.inl he, hbefore e he⟩
    · exact fun ⟨he, hgt⟩ => he.resolve_right fun hmem => hbehind e hmem hgt
  have hmemupper : ∀ e, e ∈ upper' ↔ e ∈ entriesOf m.tree.toList ∧ end'.cmpCursor e.1 ≠ .gt := by
    intro e
    rw [hupper, List.mem_append]
    constructor
    · exact fun he => ⟨Or.inr he, hbehind' e he⟩
    · exact fun ⟨he, hgt⟩ => he.resolve_left fun hmem => hgt (hbefore' e hmem)
  constructor
  · -- an entry that is both is there twice
    rintro ⟨hordered', -⟩ e he ⟨hgt, hnot⟩
    have hpairwise := hordered'.pairwise
    rw [hnew, List.pairwise_append] at hpairwise
    exact lt_irrefl _ (hpairwise.2.2 e ((hmemlower e).mpr ⟨he, hgt⟩) e ((hmemupper e).mpr ⟨he, hnot⟩))
  · intro hnone
    refine ⟨?_, fun e => ?_⟩
    · have hpairwise := hordered.pairwise
      have hlowers : lower.Pairwise fun a b => a.1 < b.1 := by
        rw [hlower] at hpairwise
        exact (List.pairwise_append.mp hpairwise).1
      have huppers : upper'.Pairwise fun a b => a.1 < b.1 := by
        rw [hupper] at hpairwise
        exact (List.pairwise_append.mp hpairwise).2.1
      rw [OrdMap.Ordered, OrdMap.keys, List.pairwise_map, hnew, List.pairwise_append]
      refine ⟨hlowers, huppers, fun a ha b hb => ?_⟩
      obtain ⟨hmem, hnot⟩ := (hmemupper b).mp hb
      -- what is not before the end is not before the start either
      exact lt_of_not_ge fun hle => hnone b hmem ⟨start.before hle (hbefore a ha), hnot⟩
    · rw [hnew, List.mem_append, hmemlower, hmemupper, and_or_left]

/-- A map of one entry. -/
def keyFive : TreeMap Nat Nat := ⟨leaf ⟨some 5⟩ [⟨5, 0⟩] [⟨some 5⟩]⟩

theorem keyFive_valid : keyFive.tree.Valid True :=
  Or.inr (.leaf (List.cons_ne_nil _ _) (by decide) rfl fun _ => rfl)

theorem keyFive_ordered : (entriesOf keyFive.tree.toList).Ordered := List.pairwise_singleton _ _

/-- From 9 to 3, the key 5 is before the start and not before the end, and is there twice. -/
theorem not_removedRange : ¬ ∀ m : TreeMap Nat Nat, m.tree.Valid True → (entriesOf m.tree.toList).Ordered →
    ∀ start end', ∃ m', m.removeRange start end' = some m' ∧ RemovedRange m m' start end' := by
  intro h
  obtain ⟨m', hremove, hremoved⟩ := h keyFive keyFive_valid keyFive_ordered (.ofKey 9) (.ofKey 3)
  have htwice : (keyFive.removeRange (.ofKey 9) (.ofKey 3)).map (fun m => entriesOf m.tree.toList)
      = some [(5, 0), (5, 0)] := by decide
  rw [hremove] at htwice
  have hentries : entriesOf m'.tree.toList = [(5, 0), (5, 0)] := Option.some.inj htwice
  have hordered := hremoved.ordered
  rw [hentries] at hordered
  exact lt_irrefl 5 ((List.pairwise_cons.mp hordered).1 5 (List.mem_singleton_self 5))

theorem removeRange_iff_keyFive : keyFive.tree.Valid True ∧ (entriesOf keyFive.tree.toList).Ordered ∧
    ∃ m', keyFive.removeRange (.ofKey 3) (.ofKey 9) = some m' ∧ m'.tree.Valid True ∧
      (RemovedRange keyFive m' (.ofKey 3) (.ofKey 9) ↔ ∀ e ∈ entriesOf keyFive.tree.toList,
        ¬ ((MapSeekTarget.ofKey 3).cmpCursor e.1 = .gt ∧ (MapSeekTarget.ofKey 9).cmpCursor e.1 ≠ .gt)) :=
  ⟨keyFive_valid, keyFive_ordered, removeRange_iff keyFive_valid keyFive_ordered (.ofKey 3) (.ofKey 9)⟩

end TreeMap

end FcGpui
