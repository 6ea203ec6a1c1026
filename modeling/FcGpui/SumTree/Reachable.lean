import FcGpui.SumTree.Slices

/-!
# Every tree that can be built

`Reachable` lists all ways to get a tree: the constructors, the operations, and slices of
cursors that have been moved in any way.  `reachable_valid`: every such tree satisfies the
representation invariant, if adding summaries is associative and `zero` neutral on the
left.  `reachable_sequence`: whatever the summaries are, the operations on such trees are
those of sequences.
-/

namespace FcGpui

namespace SumTree

variable {T S : Type} [Summary S] [Item T S]

/-- The states of a cursor over a tree. -/
inductive Cursor.Reachable {D : Type} [Dimension D S] (t : SumTree T S) : Cursor T S D → Prop
  | new : Reachable t (Cursor.new t)
  | searchForward {c c' : Cursor T S D} {filterNode : S → Bool} (hc : Reachable t c)
      (h : c.searchForward filterNode = some c') : Reachable t c'
  | searchBackward {c c' : Cursor T S D} {filterNode : S → Bool} (hc : Reachable t c)
      (h : c.searchBackward filterNode = some c') : Reachable t c'
  | seek {c c' : Cursor T S D} {target : SeekTarget D} {bias : Bias} {found : Bool} (hc : Reachable t c)
      (h : c.seek target bias = some (found, c')) : Reachable t c'
  | seekForward {c c' : Cursor T S D} {target : SeekTarget D} {bias : Bias} {found : Bool}
      (hc : Reachable t c) (h : c.seekForward target bias = some (found, c')) : Reachable t c'
  | slice {c c' : Cursor T S D} {target : SeekTarget D} {bias : Bias} {tree : SumTree T S}
      (hc : Reachable t c) (h : c.slice target bias = some (tree, c')) : Reachable t c'
  | summary {c c' : Cursor T S D} {target : SeekTarget D} {bias : Bias} {E : Type} [Dimension E S]
      {output : E} (hc : Reachable t c) (h : c.summary target bias = some (output, c')) : Reachable t c'

inductive Reachable : SumTree T S → Prop
  | new : Reachable new
  | fromItem {item : T} {t : SumTree T S} (h : fromItem item = some t) : Reachable t
  | fromIter {items : List T} {t : SumTree T S} (h : fromIter items = some t) : Reachable t
  | fromParIter {items : List T} {t : SumTree T S} (h : fromParIter items = some t) : Reachable t
  | push {t t' : SumTree T S} {item : T} (ht : Reachable t) (h : t.push item = some t') : Reachable t'
  | append {t other t' : SumTree T S} (ht : Reachable t) (hother : Reachable other)
      (h : t.append other = some t') : Reachable t'
  | extend {t t' : SumTree T S} {items : List T} (ht : Reachable t) (h : t.extend items = some t') :
      Reachable t'
  | parExtend {t t' : SumTree T S} {items : List T} (ht : Reachable t)
      (h : t.parExtend items = some t') : Reachable t'
  | updateLast {t t' : SumTree T S} {f : T → T} (ht : Reachable t) (h : t.updateLast f = some t') :
      Reachable t'
  | insertOrReplace {K : Type} [Ord K] [DecidableEq K] [KeyedItem T K] [Dimension K S] {t t' : SumTree T S}
      {item : T} {replaced : Option T} (ht : Reachable t)
      (h : t.insertOrReplace item = some (t', replaced)) : Reachable t'
  | remove {K : Type} [Ord K] [DecidableEq K] [KeyedItem T K] [Dimension K S] {t t' : SumTree T S} {key : K}
      {removed : Option T} (ht : Reachable t) (h : t.remove key = some (t', removed)) : Reachable t'
  | edit {K : Type} [LinearOrder K] [KeyedItem T K] [Dimension K S] {t t' : SumTree T S}
      {edits sorted : List (Edit T K)} {removed : List T} (ht : Reachable t) (hperm : sorted.Perm edits)
      (hsorted : sorted.Pairwise fun a b => a.key ≤ b.key)
      (h : t.editSorted sorted = some (t', removed)) : Reachable t'
  | slice {D : Type} [Dimension D S] {t t' : SumTree T S} {c c' : Cursor T S D}
      {target : SeekTarget D} {bias : Bias} (ht : Reachable t) (hc : Cursor.Reachable t c)
      (h : c.slice target bias = some (t', c')) : Reachable t'

section Lawful

variable {P : Prop} (hlawful : P → LawfulSummary S)

include hlawful

theorem Cursor.Reachable.sound {D : Type} [Dimension D S] {t : SumTree T S} {c : Cursor T S D}
    (ht : t.Valid P) (hc : Cursor.Reachable t c) : c.Sound P := by
  induction hc with
  | new => exact Cursor.sound_new ht
  | searchForward _ h ih => exact Cursor.searchForward_sound ih h
  | searchBackward _ h ih => exact Cursor.searchBackward_sound ih h
  | seek _ h ih => exact Cursor.seek_sound ih h
  | seekForward _ h ih => exact Cursor.seekForward_sound ih h
  | slice _ h ih => exact (Cursor.slice_spec hlawful ih h).2
  | summary _ h ih => exact Cursor.summary_sound ih h

theorem Reachable.valid {t : SumTree T S} (h : Reachable t) : t.Valid P := by
  induction h with
  | new => exact Or.inl rfl
  | fromItem h => exact push_valid hlawful (Or.inl rfl) h
  | @fromIter items t h =>
    obtain ⟨t', hbuild, hvalid, -⟩ := fromIter_spec hlawful items
    exact Option.some.inj (hbuild.symm.trans h) ▸ hvalid
  | @fromParIter items t h =>
    obtain ⟨t', hbuild, hvalid, -⟩ := fromParIter_spec hlawful items
    exact Option.some.inj (hbuild.symm.trans h) ▸ hvalid
  | push _ h ih => exact push_valid hlawful ih h
  | append _ _ h ih ihother => exact append_valid hlawful ih ihother h
  | extend _ h ih => exact extend_valid hlawful ih h
  | @parExtend t t' items _ h ih =>
    obtain ⟨t₂, hextend, hvalid, -⟩ := parExtend_spec hlawful ih items
    exact Option.some.inj (hextend.symm.trans h) ▸ hvalid
  | @updateLast t t' f _ h ih =>
    obtain ⟨t₂, hupdate, hvalid, -⟩ := updateLast_spec hlawful f ih
    exact Option.some.inj (hupdate.symm.trans h) ▸ hvalid
  | insertOrReplace _ h ih => exact insertOrReplace_valid hlawful ih h
  | remove _ h ih => exact remove_valid hlawful ih h
  | edit _ _ _ h ih => exact editSorted_valid hlawful ih h
  | slice _ hc h ih => exact (Cursor.slice_spec hlawful (hc.sound hlawful ih) h).1

end Lawful

/-- **Every tree satisfies the representation invariant.** -/
theorem reachable_valid [LawfulSummary S] {t : SumTree T S} (h : Reachable t) : t.Valid True :=
  h.valid fun _ => inferInstance

/-- Fourteen entries of a map, and one more. -/
def fifteenEntries : Option (SumTree (MapEntry Nat Nat) (MapKey Nat)) :=
  (fromIter ((List.range 14).map fun key => ⟨key, 0⟩)).bind fun t => t.push ⟨14, 0⟩

theorem reachable_fifteenEntries {t : SumTree (MapEntry Nat Nat) (MapKey Nat)}
    (h : fifteenEntries = some t) : Reachable t := by
  obtain ⟨t₀, hbuild, hpush⟩ := Option.bind_eq_some_iff.mp h
  exact .push (.fromIter hbuild) hpush

theorem reachable_valid_fifteenEntries :
    ∃ t, fifteenEntries = some t ∧ t.height = 1 ∧ t.Valid True := by
  obtain ⟨t, h⟩ := Option.isSome_iff_exists.mp (by decide : fifteenEntries.isSome = true)
  have hheight : fifteenEntries.map SumTree.height = some 1 := by decide
  rw [h] at hheight
  exact ⟨t, h, Option.some.inj hheight, reachable_valid (reachable_fifteenEntries h)⟩

/-- **Trees are sequences**, whatever the summaries are. -/
theorem reachable_sequence {t other : SumTree T S} (ht : Reachable t) (hother : Reachable other)
    (items : List T) (item : T) (f : T → T) :
    (∃ t' : SumTree T S, fromIter items = some t' ∧ t'.toList = items) ∧
    (∃ t' : SumTree T S, fromParIter items = some t' ∧ t'.toList = items) ∧
    (∃ t', t.append other = some t' ∧ t'.toList = t.toList ++ other.toList) ∧
    (∃ t', t.push item = some t' ∧ t'.toList = t.toList ++ [item]) ∧
    (∃ t', t.extend items = some t' ∧ t'.toList = t.toList ++ items) ∧
    (∃ t', t.parExtend items = some t' ∧ t'.toList = t.toList ++ items) ∧
    (∃ t', t.updateLast f = some t' ∧
      t'.toList = t.toList.dropLast ++ (t.toList.getLast?.map f).toList) ∧
    t.first = some t.toList.head? ∧ t.last = some t.toList.getLast? ∧
    (t.isEmpty = true ↔ t.toList = []) := by
  have hlawful : False → LawfulSummary S := False.elim
  have hvalid := ht.valid hlawful
  have hvalid' := hother.valid hlawful
  refine ⟨?_, ?_, ?_, ?_, ?_, ?_, ?_, first_spec hvalid, last_spec hvalid, hvalid.isEmpty_iff⟩
  · obtain ⟨t', h, -, hlist⟩ := fromIter_spec hlawful items
    exact ⟨t', h, hlist⟩
  · obtain ⟨t', h, -, hlist⟩ := fromParIter_spec hlawful items
    exact ⟨t', h, hlist⟩
  · obtain ⟨t', h, -, hlist⟩ := append_spec hlawful hvalid hvalid'
    exact ⟨t', h, hlist⟩
  · obtain ⟨t', h, -, hlist⟩ := push_spec hlawful hvalid item
    exact ⟨t', h, hlist⟩
  · obtain ⟨t', h, -, hlist⟩ := extend_spec hlawful hvalid items
    exact ⟨t', h, hlist⟩
  · obtain ⟨t', h, -, hlist⟩ := parExtend_spec hlawful hvalid items
    exact ⟨t', h, hlist⟩
  · obtain ⟨t', h, -, hlist⟩ := updateLast_spec hlawful f hvalid
    exact ⟨t', h, hlist⟩

theorem reachable_sequence_fifteenEntries :
    ∃ t, fifteenEntries = some t ∧ t.first = some (some ⟨0, 0⟩) ∧
      ∃ t', t.append t = some t' ∧ t'.toList = t.toList ++ t.toList := by
  obtain ⟨t, h⟩ := Option.isSome_iff_exists.mp (by decide : fifteenEntries.isSome = true)
  have hfirst : fifteenEntries.bind SumTree.first = some (some ⟨0, 0⟩) := by decide
  have ht := reachable_fifteenEntries h
  rw [h] at hfirst
  exact ⟨t, h, hfirst, (reachable_sequence ht ht [] ⟨0, 0⟩ fun e => e).2.2.1⟩

end SumTree

end FcGpui
