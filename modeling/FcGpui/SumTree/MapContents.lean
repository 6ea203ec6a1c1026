import FcGpui.Lib.OrdMap
import FcGpui.SumTree.Iteration
import FcGpui.SumTree.Ordered
import FcGpui.SumTree.TreeMap

/-!
# What a tree map holds

A seek for a key parts the entries of a map at the key (`Sought.parts`), so every
operation takes the list of entries apart around the key and puts it together again.  No
sum of keys is needed for that: `MapKey` is a lawful summary, of which the last key is
left.

**Main result.**  `treeMap_refines`: after any operations a tree map is the finite map
that the same operations lead to.
-/

namespace FcGpui

open SumTree

variable {K V W σ : Type} [LinearOrder K]

/-! ### Seeking a key -/

/-- A target that is compared by the key of what is before a position. -/
structure SeeksKey {D : Type} [Dimension D (MapKey K)] (target : SeekTarget D) (key : K) : Prop where
  start : target.cmp (Dimension.zero (MapKey K)) ≠ .lt
  cmp : ∀ (d : D) (j : K), target.cmp (Dimension.addSummary d (⟨some j⟩ : MapKey K)) = compare key j

theorem seeksKey_ref (key : K) : SeeksKey (MapKeyRef.target ⟨some key⟩) key where
  start := by
    show compare (some key) none ≠ .lt
    nofun
  cmp _ _ := rfl

theorem seeksKey_ofKey (key : K) : SeeksKey (SeekTarget.ofKey (⟨some key⟩ : MapKey K)) key where
  start := by
    show compare (⟨some key⟩ : MapKey K) ⟨none⟩ ≠ .lt
    rw [Ne, compare_lt_iff_lt]
    exact not_lt_bot (α := WithBot K)
  cmp d j := by
    show compare (⟨some key⟩ : MapKey K) ⟨some j⟩ = compare key j
    have hlt : ∀ {i j : K}, (⟨some i⟩ : MapKey K) < ⟨some j⟩ ↔ i < j := WithBot.coe_lt_coe
    rcases lt_trichotomy key j with h | rfl | h
    · rw [compare_lt_iff_lt.mpr h, compare_lt_iff_lt.mpr (hlt.mpr h)]
    · rw [compare_eq_iff_eq.mpr rfl, compare_eq_iff_eq.mpr rfl]
    · rw [compare_gt_iff_gt.mpr h, compare_gt_iff_gt.mpr (hlt.mpr h)]

/-! ### The entries of a map -/

namespace TreeMap

def entriesOf (items : List (MapEntry K V)) : OrdMap K V := items.map fun entry => (entry.key, entry.value)

omit [LinearOrder K] in
theorem entriesOf_append (items items' : List (MapEntry K V)) :
    entriesOf (items ++ items') = entriesOf items ++ entriesOf items' := List.map_append

/-- The tree is valid and its items are the entries of a finite map. -/
structure Represents (m : TreeMap K V) (f : K → Option V) : Prop where
  tree : m.tree.Valid True
  entries : (entriesOf m.tree.toList).Represents f

/-- The keys that a seek passes. -/
def Covered (bias : Bias) (key j : K) : Prop :=
  match bias with
  | .left => j < key
  | .right => j ≤ key

theorem Covered.of_le {bias : Bias} {key i j : K} (h : Covered bias key j) (hij : i ≤ j) : Covered bias key i := by
  cases bias with
  | left => exact hij.trans_lt h
  | right => exact hij.trans h

variable {D : Type} [Dimension D (MapKey K)] {target : SeekTarget D} {key : K} {bias : Bias}

theorem passes_iff (h : SeeksKey target key) (d : D) (entry : MapEntry K V) :
    Cursor.passes target bias (Dimension.addSummary d (Item.summary entry)) = true ↔ Covered bias key entry.key := by
  have hcmp : target.cmp (Dimension.addSummary d (Item.summary entry)) = compare key entry.key := h.cmp d entry.key
  unfold Cursor.passes
  rw [hcmp, decide_eq_true_iff, compare_gt_iff_gt, compare_eq_iff_eq]
  cases bias with
  | left => simp [Covered]
  | right =>
    show entry.key < key ∨ key = entry.key ∧ _ ↔ entry.key ≤ key
    rw [le_iff_lt_or_eq, eq_comm (a := key)]
    simp

/-- What a seek for a key finds: the entries it passes and those that remain. -/
structure Parts (bias : Bias) (key : K) (items crossed remaining : List (MapEntry K V)) : Prop where
  eq : items = crossed ++ remaining
  crossed : ∀ entry ∈ crossed, Covered bias key entry.key
  remaining : ∀ entry ∈ remaining, ¬Covered bias key entry.key

theorem Sought.parts {root : SumTree (MapEntry K V) (MapKey K)} {found : Bool}
    {c' : SumTree.Cursor (MapEntry K V) (MapKey K) D} {crossed remaining : List (MapEntry K V)} 
    (hordered : (entriesOf root.toList).Ordered) (htarget : SeeksKey target key)
    (h : Cursor.Sought True root target bias (Cursor.new root) [] found c' crossed remaining) :
    Parts bias key root.toList crossed remaining := by
  have hpairwise := hordered.pairwise
  rw [entriesOf, List.pairwise_map] at hpairwise
  have hparted : Parted root target bias fun entry => Covered bias key entry.key :=
    ⟨htarget.start, passes_iff htarget, hpairwise.imp fun hlt hcovered => hcovered.of_le hlt.le⟩
  obtain ⟨hcrossed, hremaining⟩ := hparted.sought h
  exact ⟨h.stands.toList, hcrossed, hremaining⟩

/-- A seek passes the entries below its key, so its key is the one of the next entry or of none. -/
theorem Parts.around {items crossed remaining : List (MapEntry K V)} (hordered : (entriesOf items).Ordered)
    (h : Parts .left key items crossed remaining) :
    (∃ item rest, remaining = item :: rest ∧ item.key = key ∧
      OrdMap.Around key (entriesOf items) (entriesOf crossed) (some item.value) (entriesOf rest)) ∨
    ((∀ item ∈ remaining.head?, item.key ≠ key) ∧
      OrdMap.Around key (entriesOf items) (entriesOf crossed) none (entriesOf remaining)) := by
  have hbelow : ∀ e ∈ entriesOf crossed, e.1 < key := by
    intro e he
    obtain ⟨entry, hentry, rfl⟩ := List.mem_map.mp he
    exact h.crossed entry hentry
  have hpairwise := hordered.pairwise
  rw [h.eq, entriesOf_append, List.pairwise_append] at hpairwise
  have hsplit : entriesOf items = entriesOf crossed ++ entriesOf remaining := by rw [h.eq, entriesOf_append]
  cases remaining with
  | nil => exact Or.inr ⟨nofun, hsplit, hbelow, nofun⟩
  | cons item rest =>
    obtain ⟨hhead, -⟩ := List.pairwise_cons.mp hpairwise.2.1
    have hge : key ≤ item.key := not_lt.mp (h.remaining item List.mem_cons_self)
    by_cases heq : item.key = key
    · refine Or.inl ⟨item, rest, rfl, heq, ?_, hbelow, fun e he => heq ▸ hhead e he⟩
      rw [hsplit, ← heq]
      rfl
    · refine Or.inr ⟨fun i hi => Option.some.inj hi ▸ heq, hsplit, hbelow, fun e he => ?_⟩
      have hlt : key < item.key := lt_of_le_of_ne hge (Ne.symm heq)
      rcases List.mem_cons.mp he with rfl | he
      · exact hlt
      · exact hlt.trans (hhead e he)

/-! ### The operations -/

variable {m : TreeMap K V} {f : K → Option V} [LawfulDimension D (MapKey K)]

omit [LinearOrder K] in
theorem lawful : True → True ∧ LawfulSummary (MapKey K) ∧ LawfulDimension D (MapKey K) :=
  fun _ => ⟨trivial, inferInstance, inferInstance⟩

theorem Represents.seek (h : m.Represents f) (htarget : SeeksKey target key) (bias : Bias) :
    ∃ found c' crossed remaining, (Cursor.new m.tree : SumTree.Cursor _ _ D).seek target bias = some (found, c') ∧
      Cursor.Stands True m.tree c' crossed remaining ∧ Parts bias key m.tree.toList crossed remaining := by
  obtain ⟨found, c', crossed, remaining, hseek, hsought⟩ : ∃ found c' crossed remaining,
      (Cursor.new m.tree : SumTree.Cursor _ _ D).seek target bias = some (found, c') ∧
        Cursor.Sought True m.tree target bias (Cursor.new m.tree) [] found c' crossed remaining :=
    Cursor.seek_at lawful h.tree rfl htarget.start
  exact ⟨found, c', crossed, remaining, hseek, hsought.stands, Sought.parts h.entries.ordered htarget hsought⟩

theorem Represents.slice (h : m.Represents f) (htarget : SeeksKey target key) :
    ∃ slice c' crossed remaining, (Cursor.new m.tree : SumTree.Cursor _ _ D).slice target .left = some (slice, c') ∧
      slice.Valid True ∧ slice.toList = crossed ∧
      Cursor.Stands True m.tree c' crossed remaining ∧ Parts .left key m.tree.toList crossed remaining := by
  obtain ⟨found, slice, c', crossed, remaining, hslice, -, hsought, hvalid, hlist⟩ :=
    Cursor.slice_ready lawful (fun _ => inferInstance) h.tree .new htarget.start .left
  exact ⟨slice, c', crossed, remaining, hslice, hvalid, hlist, hsought.stands,
    Sought.parts h.entries.ordered htarget hsought⟩

theorem Represents.get (h : m.Represents f) (key : K) : m.get key = some (f key) := by
  obtain ⟨found, c, crossed, remaining, hseek, hstands, hparts⟩ := h.seek (seeksKey_ref key) .left
  have hseek : m.cursor.seek (MapKeyRef.target ⟨some key⟩) .left = some (found, c) := hseek
  simp only [TreeMap.get, hseek, Option.bind_eq_bind, Option.bind_some, hstands.item]
  rcases hparts.around h.entries.ordered with ⟨item, rest, rfl, heq, haround⟩ | ⟨hne, haround⟩
  · rw [haround.valueOf h.entries, List.head?_cons, Option.bind_some]
    exact congrArg some (if_pos (congrArg some heq.symm))
  · rw [haround.valueOf h.entries]
    cases hhead : remaining.head? with
    | none => rfl
    | some item => exact congrArg some (if_neg fun h => hne item hhead (Option.some.inj h).symm)

/-- What is put together again around a key is the map with the value of the key set. -/
theorem Represents.set {m' : TreeMap K V} {lo hi : OrdMap K V} {value value' : Option V}
    (h : m.Represents f) (haround : OrdMap.Around key (entriesOf m.tree.toList) lo value hi)
    (htree : m'.tree.Valid True) (hentries : entriesOf m'.tree.toList = lo ++ (OrdMap.entry key value' ++ hi)) :
    m'.Represents (Function.update f key value') := by
  refine ⟨htree, ?_⟩
  rw [hentries]
  exact haround.set h.entries value'

/-- The end of the cursor is at the key just if the cursor has an item with the key: behind the last entry the
keys are below. -/
theorem Parts.cmp_end {items crossed remaining : List (MapEntry K V)}
    (h : Parts .left key items crossed remaining) {position : MapKeyRef K}
    (hposition : position = positionAfter crossed) :
    (MapKeyRef.target ⟨some key⟩).cmp (remaining.head?.elim position fun item =>
      Dimension.addSummary position (Item.summary item)) = .eq ↔ ∃ item ∈ remaining.head?, item.key = key := by
  cases remaining with
  | nil =>
    refine iff_of_false (fun heq => ?_) nofun
    cases crossed using List.reverseRecOn with
    | nil =>
      rw [hposition] at heq
      cases heq
    | append_singleton init last _ =>
      have hlast : compare key last.key = .eq := by
        rw [hposition] at heq
        rwa [List.head?_nil, Option.elim_none, positionAfter_concat] at heq
      have hlt : last.key < key := h.crossed last (List.mem_append_right _ (List.mem_singleton_self _))
      exact hlt.ne (compare_eq_iff_eq.mp hlast).symm
  | cons item rest =>
    have hcmp : compare key item.key = .eq ↔ key = item.key := compare_eq_iff_eq
    refine hcmp.trans ⟨fun heq => ⟨item, rfl, heq.symm⟩, ?_⟩
    rintro ⟨i, hi, heq⟩
    rw [← heq, Option.some.inj hi]

theorem Represents.remove (h : m.Represents f) (key : K) :
    ∃ m', m.remove key = some (m', f key) ∧ m'.Represents (Function.update f key none) := by
  obtain ⟨newTree, c, crossed, remaining, hslice, hvalid, hlist, hstands, hparts⟩ := h.slice (seeksKey_ref key)
  have hslice : m.cursor.slice (MapKeyRef.target ⟨some key⟩) .left = some (newTree, c) := hslice
  have hend := hparts.cmp_end (hstands.start trivial)
  simp only [TreeMap.remove, hslice, Option.bind_eq_bind, Option.bind_some, hstands.endPosition h.tree]
  rcases hparts.around h.entries.ordered with ⟨item, rest, rfl, heq, haround⟩ | ⟨hne, haround⟩
  · rw [if_pos (hend.mpr ⟨item, rfl, heq⟩), hstands.item]
    obtain ⟨c', hnext, hstands'⟩ := hstands.next lawful h.tree
    obtain ⟨suffix, c'', tree, hsuffix, happend, htree, htoList⟩ := append_suffix h.tree hvalid hstands'
    refine ⟨⟨tree⟩, ?_, h.set haround htree ?_⟩
    · rw [haround.valueOf h.entries]
      simp only [List.head?_cons, Option.bind_some, hnext, hsuffix, happend]
    · rw [htoList, hlist, entriesOf_append]
      rfl
  · rw [if_neg fun h => let ⟨item, hitem, heq⟩ := hend.mp h; hne item hitem heq]
    obtain ⟨suffix, c', tree, hsuffix, happend, htree, htoList⟩ := append_suffix h.tree hvalid hstands
    refine ⟨⟨tree⟩, ?_, h.set haround htree ?_⟩
    · rw [haround.valueOf h.entries]
      simp only [Option.bind_some, hsuffix, happend]
    · rw [htoList, hlist, entriesOf_append]
      rfl

theorem Represents.update (h : m.Represents f) (key : K) (g : V → V × W) :
    ∃ m', m.update key g = some (m', (f key).map fun value => (g value).2) ∧
      m'.Represents (Function.update f key ((f key).map fun value => (g value).1)) := by
  obtain ⟨newTree, c, crossed, remaining, hslice, hvalid, hlist, hstands, hparts⟩ := h.slice (seeksKey_ref key)
  have hslice : m.cursor.slice (MapKeyRef.target ⟨some key⟩) .left = some (newTree, c) := hslice
  have hend := hparts.cmp_end (hstands.start trivial)
  simp only [TreeMap.update, hslice, Option.bind_eq_bind, Option.bind_some, hstands.endPosition h.tree]
  rcases hparts.around h.entries.ordered with ⟨item, rest, rfl, heq, haround⟩ | ⟨hne, haround⟩
  · rw [if_pos (hend.mpr ⟨item, rfl, heq⟩), hstands.item, haround.valueOf h.entries]
    obtain ⟨newTree', hpush, hvalid', hlist'⟩ :=
      push_spec (fun _ => inferInstance) hvalid { item with value := (g item.value).1 }
    obtain ⟨c', hnext, hstands'⟩ := hstands.next lawful h.tree
    obtain ⟨suffix, c'', tree, hsuffix, happend, htree, htoList⟩ := append_suffix h.tree hvalid' hstands'
    refine ⟨⟨tree⟩, ?_, h.set haround htree ?_⟩
    · simp only [List.head?_cons, Option.bind_some, hpush, hnext, hsuffix, happend, Option.map_some]
    · rw [htoList, hlist', hlist, List.append_assoc, entriesOf_append, ← heq]
      rfl
  · rw [if_neg fun h => let ⟨item, hitem, heq⟩ := hend.mp h; hne item hitem heq, haround.valueOf h.entries]
    obtain ⟨suffix, c', tree, hsuffix, happend, htree, htoList⟩ := append_suffix h.tree hvalid hstands
    refine ⟨⟨tree⟩, ?_, h.set haround htree ?_⟩
    · simp only [Option.bind_some, hsuffix, happend, Option.map_none]
    · rw [htoList, hlist, entriesOf_append]
      rfl

theorem Represents.insert (h : m.Represents f) (key : K) (value : V) :
    ∃ m', m.insert key value = some m' ∧ m'.Represents (Function.update f key (some value)) := by
  obtain ⟨newTree, c, crossed, remaining, hslice, hvalid, hlist, hstands, hparts⟩ := h.slice (seeksKey_ofKey key)
  have hslice : (Cursor.new m.tree : SumTree.Cursor _ _ (MapKey K)).slice
      (SeekTarget.ofKey (KeyedItem.key (⟨key, value⟩ : MapEntry K V))) .left = some (newTree, c) := hslice
  obtain ⟨newTree', hpush, hvalid', hlist'⟩ := push_spec (fun _ => inferInstance) hvalid (⟨key, value⟩ : MapEntry K V)
  simp only [TreeMap.insert, insertOrReplace, hslice, Option.bind_eq_bind, Option.bind_some, hstands.item, hpush]
  rcases hparts.around h.entries.ordered with ⟨item, rest, rfl, heq, haround⟩ | ⟨hne, haround⟩
  · have hkey : KeyedItem.key item = KeyedItem.key (⟨key, value⟩ : MapEntry K V) :=
      congrArg (fun k => (⟨some k⟩ : MapKey K)) heq
    obtain ⟨c', hnext, hstands'⟩ := hstands.next lawful h.tree
    obtain ⟨suffix, c'', tree, hsuffix, happend, htree, htoList⟩ := append_suffix h.tree hvalid' hstands'
    refine ⟨⟨tree⟩, ?_, h.set haround htree ?_⟩
    · simp only [List.head?_cons, Option.filter_some, hkey, decide_true, Option.isSome_some, Cursor.nextIf, if_true,
        hnext, Option.bind_some, hsuffix, happend, Option.map_some]
    · rw [htoList, hlist', hlist, List.append_assoc, entriesOf_append]
      rfl
  · have hreplaced : ∀ p : MapEntry K V → Bool, (∀ item, p item = true → item.key = key) →
        remaining.head?.filter p = none := by
      intro p hp
      exact Option.filter_eq_none_iff.mpr fun item hitem heq => hne item hitem (hp item heq)
    obtain ⟨suffix, c', tree, hsuffix, happend, htree, htoList⟩ := append_suffix h.tree hvalid' hstands
    refine ⟨⟨tree⟩, ?_, h.set haround htree ?_⟩
    · rw [hreplaced]
      · simp only [Option.isSome_none, Cursor.nextIf, Bool.false_eq_true, if_false, Option.bind_some, hsuffix,
          happend, Option.map_some]
      · intro item heq
        have hkey : KeyedItem.key item = KeyedItem.key (⟨key, value⟩ : MapEntry K V) := by simpa using heq
        exact Option.some.inj (congrArg MapKey.key hkey)
    · rw [htoList, hlist', hlist, List.append_assoc, entriesOf_append]
      rfl

theorem represents_empty : (empty : TreeMap K V).Represents fun _ => none :=
  ⟨Or.inl rfl, List.Pairwise.nil, fun _ _ => ⟨nofun, nofun⟩⟩

omit [LinearOrder K] in
theorem retainLoop_eq {root : SumTree (MapEntry K V) (MapKey K)} (hroot : root.Valid True)
    (predicate : σ → K → V → Bool × σ) {fuel : Nat} {c : SumTree.Cursor (MapEntry K V) (MapKey K) (MapKeyRef K)}
    {passed remaining : List (MapEntry K V)} (hfuel : remaining.length < fuel)
    (hstands : Cursor.Stands True root c passed remaining) {newMap : SumTree (MapEntry K V) (MapKey K)}
    (hvalid : newMap.Valid True) (state : σ) :
    ∃ tree, retainLoop predicate fuel c newMap state
        = some (tree, (OrdMap.retained predicate state (entriesOf remaining)).2) ∧ tree.Valid True ∧
      entriesOf tree.toList
        = entriesOf newMap.toList ++ (OrdMap.retained predicate state (entriesOf remaining)).1 := by
  induction remaining generalizing fuel c passed newMap state with
  | nil =>
    obtain ⟨fuel, rfl⟩ := Nat.exists_eq_succ_of_ne_zero (Nat.ne_of_gt hfuel)
    refine ⟨newMap, ?_, hvalid, (List.append_nil _).symm⟩
    simp only [retainLoop, hstands.item, Option.bind_eq_bind, Option.bind_some, List.head?_nil]
    rfl
  | cons item remaining ih =>
    obtain ⟨fuel, rfl⟩ := Nat.exists_eq_succ_of_ne_zero (Nat.ne_of_gt (Nat.zero_lt_of_lt hfuel))
    obtain ⟨c', hnext, hstands'⟩ := hstands.next lawful hroot
    obtain ⟨newMap', hpush, hvalid', hlist'⟩ := push_spec (fun _ => inferInstance) hvalid item
    have hretained : OrdMap.retained predicate state (entriesOf (item :: remaining))
        = (if (predicate state item.key item.value).1 then (item.key, item.value)
            :: (OrdMap.retained predicate (predicate state item.key item.value).2 (entriesOf remaining)).1
          else (OrdMap.retained predicate (predicate state item.key item.value).2 (entriesOf remaining)).1,
          (OrdMap.retained predicate (predicate state item.key item.value).2 (entriesOf remaining)).2) := rfl
    rw [hretained]
    simp only [retainLoop, hstands.item, Option.bind_eq_bind, Option.bind_some, List.head?_cons]
    cases hkeep : (predicate state item.key item.value).1 with
    | true =>
      obtain ⟨tree, hloop, htree, hentries⟩ :=
        ih (Nat.lt_of_succ_lt_succ hfuel) hstands' hvalid' (predicate state item.key item.value).2
      refine ⟨tree, ?_, htree, ?_⟩
      · simp only [if_true, hpush, hnext, Option.bind_some, hloop]
      · rw [hentries, hlist', entriesOf_append, List.append_assoc]
        rfl
    | false =>
      obtain ⟨tree, hloop, htree, hentries⟩ :=
        ih (Nat.lt_of_succ_lt_succ hfuel) hstands' hvalid (predicate state item.key item.value).2
      refine ⟨tree, ?_, htree, ?_⟩
      · simp only [Bool.false_eq_true, if_false, hnext, Option.bind_some, hloop]
      · rw [hentries]
        rfl

theorem Represents.retain (h : m.Represents f) (predicate : σ → K → V → Bool × σ) (state : σ) :
    ∃ m', m.retain predicate state
        = some (m', (OrdMap.retained predicate state (entriesOf m.tree.toList)).2) ∧
      m'.Represents (OrdMap.retain predicate state f) := by
  obtain ⟨c, hnext, hstands⟩ := Cursor.next_start (D := MapKeyRef K) lawful h.tree false
  have hnext : m.cursor.next = some c := hnext
  obtain ⟨tree, hloop, htree, hentries⟩ :=
    retainLoop_eq h.tree predicate h.tree.length_lt_rounds hstands (Or.inl rfl) state
  refine ⟨⟨tree⟩, ?_, htree, ?_⟩
  · simp only [TreeMap.retain, hnext, hloop, Option.bind_eq_bind, Option.bind_some]
  · rw [hentries]
    exact h.entries.retain predicate state

/-! ### Reading -/

theorem Represents.iter (h : m.Represents f) :
    ∃ l : OrdMap K V, m.iter = some l ∧ l.Represents f := by
  refine ⟨entriesOf m.tree.toList, ?_, h.entries⟩
  rw [TreeMap.iter, iterItems_eq h.tree]
  rfl

theorem Represents.first (h : m.Represents f) : ∃ o, m.first = some o ∧ OrdMap.Least f o := by
  refine ⟨(entriesOf m.tree.toList).head?, ?_, h.entries.least⟩
  rw [TreeMap.first, first_spec h.tree, Option.map_some, entriesOf, List.head?_map]

theorem Represents.last (h : m.Represents f) : ∃ o, m.last = some o ∧ OrdMap.Greatest f o := by
  refine ⟨(entriesOf m.tree.toList).getLast?, ?_, h.entries.greatest⟩
  rw [TreeMap.last, last_spec h.tree, Option.map_some, entriesOf, List.getLast?_map]

/-- The entries that a seek for a key passes, and those that remain, are those on either side of the key. -/
theorem Parts.mem_iff {items crossed remaining : List (MapEntry K V)} (h : Parts bias key items crossed remaining)
    {e : K × V} (he : e ∈ entriesOf items) :
    (e ∈ entriesOf crossed ↔ Covered bias key e.1) ∧ (e ∈ entriesOf remaining ↔ ¬Covered bias key e.1) := by
  have hcrossed : e ∈ entriesOf crossed → Covered bias key e.1 := by
    intro hmem
    obtain ⟨entry, hentry, rfl⟩ := List.mem_map.mp hmem
    exact h.crossed entry hentry
  have hremaining : e ∈ entriesOf remaining → ¬Covered bias key e.1 := by
    intro hmem
    obtain ⟨entry, hentry, rfl⟩ := List.mem_map.mp hmem
    exact h.remaining entry hentry
  rw [h.eq, entriesOf_append, List.mem_append] at he
  refine ⟨⟨hcrossed, fun hcovered => ?_⟩, ⟨hremaining, fun hnot => ?_⟩⟩
  · exact he.resolve_right fun hmem => hremaining hmem hcovered
  · exact he.resolve_left fun hmem => hnot (hcrossed hmem)

theorem Represents.iterFrom (h : m.Represents f) (key : K) :
    ∃ l : OrdMap K V, m.iterFrom key = some l ∧ l.Represents (OrdMap.restrict (key ≤ ·) f) := by
  obtain ⟨found, c, crossed, remaining, hseek, hstands, hparts⟩ := h.seek (seeksKey_ref key) .left
  have hseek : m.cursor.seek (MapKeyRef.target ⟨some key⟩) .left = some (found, c) := hseek
  have hlength : remaining.length < m.tree.rounds := by
    have := h.tree.length_lt_rounds
    rw [hparts.eq, List.length_append] at this
    omega
  refine ⟨entriesOf remaining, ?_, h.entries.restrict _ ?_ fun e he => (hparts.mem_iff he).2.trans not_lt⟩
  · simp only [TreeMap.iterFrom, hseek, Option.bind_eq_bind, Option.bind_some,
      hstands.collect lawful h.tree hlength]
    rfl
  · rw [hparts.eq, entriesOf_append]
    exact List.sublist_append_right _ _

theorem Represents.closest (h : m.Represents f) (key : K) :
    ∃ o, m.closest key = some o ∧ OrdMap.Greatest (OrdMap.restrict (· ≤ key) f) o := by
  obtain ⟨found, c, crossed, remaining, hseek, hstands, hparts⟩ := h.seek (seeksKey_ref key) .right
  have hseek : m.cursor.seek (MapKeyRef.target ⟨some key⟩) .right = some (found, c) := hseek
  have hcrossed : (entriesOf crossed).Represents (OrdMap.restrict (· ≤ key) f) := by
    refine h.entries.restrict _ ?_ fun e he => (hparts.mem_iff he).1
    rw [hparts.eq, entriesOf_append]
    exact List.sublist_append_left _ _
  obtain ⟨c', hprev, hretreated⟩ := hstands.searchBackward lawful h.tree fun _ => true
  have hprev : c.prev = some c' := hprev
  refine ⟨(entriesOf crossed).getLast?, ?_, hcrossed.greatest⟩
  have hitem : c'.item = some crossed.getLast? := by
    rcases hretreated with ⟨rfl, hskipped⟩ | ⟨passed', item, skipped, remaining', hstands', rfl, hskipped, -⟩
    · rw [Cursor.skippedBy_true hskipped]
      rfl
    · rw [hstands'.item, Cursor.skippedBy_true hskipped, List.getLast?_append, List.getLast?_singleton]
      rfl
  simp only [TreeMap.closest, hseek, Option.bind_eq_bind, Option.bind_some, hprev, hitem, entriesOf, List.getLast?_map]

/-! ### Runs -/

/-- An operation that changes the map. -/
inductive MapOp (K V : Type) : Type 1
  | insert (key : K) (value : V)
  | remove (key : K)
  | update {W : Type} (key : K) (f : V → V × W)
  | retain {σ : Type} (predicate : σ → K → V → Bool × σ) (state : σ)
  | clear

/-- What it does to a tree map. -/
def MapOp.apply : MapOp K V → TreeMap K V → Option (TreeMap K V)
  | insert key value, m => m.insert key value
  | remove key, m => (m.remove key).map Prod.fst
  | update key f, m => (m.update key f).map Prod.fst
  | retain predicate state, m => (m.retain predicate state).map Prod.fst
  | clear, m => some m.clear

/-- What it does to a finite map. -/
noncomputable def MapOp.spec : MapOp K V → (K → Option V) → K → Option V
  | insert key value, f => Function.update f key (some value)
  | remove key, f => Function.update f key none
  | update key g, f => Function.update f key ((f key).map fun value => (g value).1)
  | retain predicate state, f => OrdMap.retain predicate state f
  | clear, _ => fun _ => none

theorem Represents.apply (h : m.Represents f) (op : MapOp K V) :
    ∃ m', op.apply m = some m' ∧ m'.Represents (op.spec f) := by
  cases op with
  | insert key value => exact h.insert key value
  | remove key =>
    obtain ⟨m', hremove, h'⟩ := h.remove key
    exact ⟨m', congrArg (Option.map Prod.fst) hremove, h'⟩
  | update key g =>
    obtain ⟨m', hupdate, h'⟩ := h.update key g
    exact ⟨m', congrArg (Option.map Prod.fst) hupdate, h'⟩
  | retain predicate state =>
    obtain ⟨m', hretain, h'⟩ := h.retain predicate state
    exact ⟨m', congrArg (Option.map Prod.fst) hretain, h'⟩
  | clear => exact ⟨empty, rfl, represents_empty⟩

theorem Represents.foldlM (h : m.Represents f) (ops : List (MapOp K V)) :
    ∃ m', ops.foldlM (fun m op => op.apply m) m = some m' ∧
      m'.Represents (ops.foldl (fun f op => op.spec f) f) := by
  induction ops generalizing m f with
  | nil => exact ⟨m, rfl, h⟩
  | cons op ops ih =>
    obtain ⟨m₁, happly, h₁⟩ := h.apply op
    obtain ⟨m', hrest, h'⟩ := ih h₁
    refine ⟨m', ?_, h'⟩
    rw [List.foldlM_cons, happly]
    exact hrest

theorem fromOrderedEntries_represents {entries : List (K × V)} (h : OrdMap.Ordered entries) :
    ∃ m : TreeMap K V, fromOrderedEntries entries = some m ∧ m.Represents (OrdMap.valueOf entries) := by
  obtain ⟨tree, hfrom, htree, hlist⟩ := fromIter_spec (P := True) (fun _ => inferInstance)
    (entries.map fun pair => (⟨pair.1, pair.2⟩ : MapEntry K V))
  refine ⟨⟨tree⟩, congrArg (Option.map TreeMap.mk) hfrom, htree, ?_⟩
  have hentries : entriesOf tree.toList = entries := by
    rw [hlist, entriesOf, List.map_map]
    exact List.map_id _
  rw [hentries]
  exact h.represents

/-- What a tree map returns is what a finite map does. -/
structure Agrees (m : TreeMap K V) (f : K → Option V) : Prop where
  get : ∀ key, m.get key = some (f key)
  remove : ∀ key, ∃ m', m.remove key = some (m', f key)
  update : ∀ {W : Type} (key : K) (g : V → V × W),
    ∃ m', m.update key g = some (m', (f key).map fun value => (g value).2)
  iter : ∃ l : OrdMap K V, m.iter = some l ∧ l.Represents f
  iterFrom : ∀ key, ∃ l : OrdMap K V, m.iterFrom key = some l ∧ l.Represents (OrdMap.restrict (key ≤ ·) f)
  first : ∃ o, m.first = some o ∧ OrdMap.Least f o
  last : ∃ o, m.last = some o ∧ OrdMap.Greatest f o
  closest : ∀ key, ∃ o, m.closest key = some o ∧ OrdMap.Greatest (OrdMap.restrict (· ≤ key) f) o

theorem Represents.agrees (h : m.Represents f) : m.Agrees f where
  get := h.get
  remove key := let ⟨m', hremove, _⟩ := h.remove key; ⟨m', hremove⟩
  update key g := let ⟨m', hupdate, _⟩ := h.update key g; ⟨m', hupdate⟩
  iter := h.iter
  iterFrom := h.iterFrom
  first := h.first
  last := h.last
  closest := h.closest

/-- **A tree map is a finite map.**  From entries in the order of their keys, or from none, any operations
succeed; they leave the keys in order, and whatever the map returns is what the finite map returns that
the same operations lead to. -/
theorem treeMap_refines (entries : List (K × V)) (hentries : entries.Pairwise fun e e' => e.1 < e'.1)
    (ops : List (MapOp K V)) :
    ∃ m₀ m, fromOrderedEntries entries = some m₀ ∧ (entries = [] → m₀ = empty) ∧
      ops.foldlM (fun m op => op.apply m) m₀ = some m ∧
      (m.tree.toList.map MapEntry.key).Pairwise (· < ·) ∧
      m.Agrees (ops.foldl (fun f op => op.spec f) (OrdMap.valueOf entries)) := by
  obtain ⟨m₀, hfrom, h₀⟩ := fromOrderedEntries_represents (List.pairwise_map.mpr hentries)
  obtain ⟨m, hrun, h⟩ := h₀.foldlM ops
  refine ⟨m₀, m, hfrom, ?_, hrun, ?_, h.agrees⟩
  · rintro rfl
    exact Option.some.inj (hfrom.symm.trans rfl)
  · have hordered := h.entries.ordered.pairwise
    rwa [entriesOf, List.pairwise_map, ← List.pairwise_map (f := MapEntry.key) (R := (· < ·))] at hordered

theorem treeMap_refines_threeKeys :
    ∃ m₀ m : TreeMap Nat Nat, fromOrderedEntries [(1, 10), (3, 30)] = some m₀ ∧
      [MapOp.insert 2 20, .remove 1, .update 3 fun value => (value + 1, value)].foldlM
        (fun m op => op.apply m) m₀ = some m ∧
      m.get 2 = some (some 20) ∧ (∃ m', m.remove 1 = some (m', none)) ∧
      ∃ m', m.update 3 (fun value => (0, value)) = some (m', some 31) := by
  obtain ⟨m₀, m, hfrom, -, hrun, -, hagrees⟩ := treeMap_refines (K := Nat) (V := Nat) [(1, 10), (3, 30)] (by decide)
    [.insert 2 20, .remove 1, .update 3 fun value => (value + 1, value)]
  exact ⟨m₀, m, hfrom, hrun, hagrees.get 2, hagrees.remove 1, hagrees.update 3 _⟩

end TreeMap

end FcGpui
