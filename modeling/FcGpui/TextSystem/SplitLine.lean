import FcGpui.TextSystem.LineLayout
import FcGpui.Lib.Slice

/-!
# Splitting a line

`x_for_index`, `font_id_for_index` and `split_at` of `crates/gpui/src/text_system/line_layout.rs`.
Positions are exact.  A run is cut by `partition_point`, whose result is specified for glyphs in
byte order only (`PartitionPoint`); an index below the one that is subtracted from it is a panic,
`none` here.

The runs of the two halves are those of the line without the glyphs of the other half
(`splitAt_spec`), and what is asked of a half is what is asked of the line
(`splitAt_preserves`).
-/

namespace FcGpui

variable {U I : Type}

namespace LineLayout

/-- The x position of the character at the given index. -/
def xForIndex (line : LineLayout U I) (index : Nat) : U :=
  (line.runs.findSome? fun run =>
    (run.glyphs.find? fun glyph => decide (index ≤ glyph.index)).map fun glyph => glyph.position.x).getD line.width

/-- The font at the given index. -/
def fontIdForIndex (line : LineLayout U I) (index : Nat) : Option I :=
  line.runs.findSome? fun run =>
    (run.glyphs.find? fun glyph => decide (index ≤ glyph.index)).map fun _ => run.fontId

end LineLayout

section Split

variable [AddCommGroup U]

/-- A glyph of the half that begins at the index. -/
def ShapedGlyph.rebase (xOffset : U) (byteIndex : Nat) (glyph : ShapedGlyph U) : ShapedGlyph U :=
  { glyph with
    position := ⟨glyph.position.x - xOffset, glyph.position.y⟩
    index := glyph.index - byteIndex }

/-- A glyph of the right half, as one of the line. -/
def ShapedGlyph.restore (xOffset : U) (byteIndex : Nat) (glyph : ShapedGlyph U) : ShapedGlyph U :=
  { glyph with
    position := ⟨glyph.position.x + xOffset, glyph.position.y⟩
    index := glyph.index + byteIndex }

theorem ShapedGlyph.restore_rebase (xOffset : U) {byteIndex : Nat} {glyph : ShapedGlyph U}
    (h : byteIndex ≤ glyph.index) : (glyph.rebase xOffset byteIndex).restore xOffset byteIndex = glyph := by
  rw [restore, rebase]
  simp only [sub_add_cancel, Nat.sub_add_cancel h]

def ShapedRun.rebase (xOffset : U) (byteIndex : Nat) (run : ShapedRun U I) : ShapedRun U I :=
  { run with glyphs := run.glyphs.map (ShapedGlyph.rebase xOffset byteIndex) }

namespace LineLayout

/-- What a run contributes to each half. -/
def splitRun (P : PartitionPoint (ShapedGlyph U)) (xOffset : U) (byteIndex : Nat) (run : ShapedRun U I) :
    List (ShapedRun U I) × List (ShapedRun U I) :=
  let splitPos := P.point (fun glyph => decide (glyph.index < byteIndex)) run.glyphs
  (if 0 < splitPos then [{ run with glyphs := run.glyphs.take splitPos }] else [],
    if splitPos < run.glyphs.length then
      [ShapedRun.rebase xOffset byteIndex { run with glyphs := run.glyphs.drop splitPos }]
    else [])

/-- No index of a right half lies in front of it. -/
def rebases (P : PartitionPoint (ShapedGlyph U)) (byteIndex : Nat) (run : ShapedRun U I) : Bool :=
  (run.glyphs.drop (P.point (fun glyph => decide (glyph.index < byteIndex)) run.glyphs)).all fun glyph =>
    decide (byteIndex ≤ glyph.index)

def splitAt (P : PartitionPoint (ShapedGlyph U)) (line : LineLayout U I) (byteIndex : Nat) :
    Option (LineLayout U I × LineLayout U I) :=
  let xOffset := line.xForIndex byteIndex
  let halves := line.runs.map (splitRun P xOffset byteIndex)
  if line.runs.all (rebases P byteIndex) ∧ byteIndex ≤ line.len then
    some ({ line with
        width := xOffset
        runs := halves.flatMap Prod.fst
        len := byteIndex },
      { line with
        width := line.width - xOffset
        runs := halves.flatMap Prod.snd
        len := line.len - byteIndex })
  else none

end LineLayout

end Split

/-! ### Glyphs in byte order -/

/-- The glyphs of the runs, each with its font. -/
def fontGlyphs (runs : List (ShapedRun U I)) : List (I × ShapedGlyph U) :=
  runs.flatMap fun run => run.glyphs.map fun glyph => (run.fontId, glyph)

/-- The glyphs are in byte order. -/
def ByteOrdered (runs : List (ShapedRun U I)) : Prop := SortedBy (fun g => g.2.index) (fontGlyphs runs)

instance (runs : List (ShapedRun U I)) : Decidable (ByteOrdered runs) :=
  inferInstanceAs (Decidable (SortedBy _ _))

/-- The runs with the glyphs that meet a condition, without those that have none. -/
def keepGlyphs (p : Nat → Bool) (runs : List (ShapedRun U I)) : List (ShapedRun U I) :=
  (runs.map fun run => { run with glyphs := run.glyphs.filter fun glyph => p glyph.index }).filter fun run =>
    !run.glyphs.isEmpty

@[simp]
theorem fontGlyphs_nil : fontGlyphs ([] : List (ShapedRun U I)) = [] := rfl

theorem fontGlyphs_cons (run : ShapedRun U I) (runs : List (ShapedRun U I)) :
    fontGlyphs (run :: runs) = (run.glyphs.map fun glyph => (run.fontId, glyph)) ++ fontGlyphs runs := rfl

theorem fontGlyphs_keepGlyphs (p : Nat → Bool) (runs : List (ShapedRun U I)) :
    fontGlyphs (keepGlyphs p runs) = (fontGlyphs runs).filter fun g => p g.2.index := by
  induction runs with
  | nil => rfl
  | cons run runs ih =>
    have hmap : ((run.glyphs.map fun glyph => (run.fontId, glyph)).filter fun g => p g.2.index)
        = (run.glyphs.filter fun glyph => p glyph.index).map fun glyph => (run.fontId, glyph) := List.filter_map
    rw [fontGlyphs_cons, List.filter_append, hmap, ← ih, keepGlyphs, List.map_cons]
    by_cases hnil : (run.glyphs.filter fun glyph => p glyph.index) = []
    · rw [List.filter_cons_of_neg (by simp [hnil]), hnil]
      rfl
    · rw [List.filter_cons_of_pos (by simpa using hnil), fontGlyphs_cons]
      rfl

theorem ByteOrdered.run {runs : List (ShapedRun U I)} (h : ByteOrdered runs) {run : ShapedRun U I}
    (hrun : run ∈ runs) : SortedBy ShapedGlyph.index run.glyphs := by
  have hsub : (run.glyphs.map fun glyph => (run.fontId, glyph)).Sublist (fontGlyphs runs) :=
    List.sublist_flatten_of_mem (List.mem_map_of_mem hrun)
  have hsorted : (run.glyphs.map fun glyph => (run.fontId, glyph)).Pairwise fun a b => a.2.index ≤ b.2.index :=
    List.Pairwise.sublist hsub h
  rwa [List.pairwise_map] at hsorted

theorem ByteOrdered.of_cons {run : ShapedRun U I} {runs : List (ShapedRun U I)} (h : ByteOrdered (run :: runs)) :
    ByteOrdered runs := List.Pairwise.sublist (List.sublist_append_right _ _) h

theorem keepGlyphs_cons (p : Nat → Bool) (run : ShapedRun U I) (runs : List (ShapedRun U I)) :
    keepGlyphs p (run :: runs) =
      (if (run.glyphs.filter fun glyph => p glyph.index) = [] then []
        else [{ run with glyphs := run.glyphs.filter fun glyph => p glyph.index }]) ++ keepGlyphs p runs := by
  rw [keepGlyphs, List.map_cons]
  split
  · rename_i hnil
    rw [List.filter_cons_of_neg (by simp [hnil])]
    rfl
  · rename_i hnil
    rw [List.filter_cons_of_pos (by simpa using hnil)]
    rfl

theorem keepGlyphs_eq_flatMap (p : Nat → Bool) (runs : List (ShapedRun U I)) :
    keepGlyphs p runs = runs.flatMap fun run => keepGlyphs p [run] := by
  induction runs with
  | nil => rfl
  | cons run runs ih =>
    rw [List.flatMap_cons, ← ih, keepGlyphs_cons, keepGlyphs_cons p run []]
    exact congrArg (· ++ keepGlyphs p runs) (List.append_nil _).symm

theorem findSome?_glyph {β : Type} (f : I → ShapedGlyph U → β) (index : Nat) (runs : List (ShapedRun U I)) :
    (runs.findSome? fun run =>
        (run.glyphs.find? fun glyph => decide (index ≤ glyph.index)).map fun glyph => f run.fontId glyph)
      = ((fontGlyphs runs).find? fun g => decide (index ≤ g.2.index)).map fun g => f g.1 g.2 := by
  induction runs with
  | nil => rfl
  | cons run runs ih =>
    rw [fontGlyphs_cons, List.find?_append, List.find?_map, List.findSome?_cons, ih]
    have hcomp : ((fun g : I × ShapedGlyph U => decide (index ≤ g.2.index)) ∘ fun glyph => (run.fontId, glyph))
        = fun glyph => decide (index ≤ glyph.index) := rfl
    rw [hcomp]
    cases run.glyphs.find? fun glyph => decide (index ≤ glyph.index) with
    | none => rfl
    | some glyph => rfl

namespace LineLayout

theorem xForIndex_eq (line : LineLayout U I) (index : Nat) :
    line.xForIndex index = (((fontGlyphs line.runs).find? fun g => decide (index ≤ g.2.index)).map
      fun g => g.2.position.x).getD line.width := by
  rw [xForIndex, findSome?_glyph fun _ glyph => glyph.position.x]

theorem fontIdForIndex_eq (line : LineLayout U I) (index : Nat) :
    line.fontIdForIndex index = ((fontGlyphs line.runs).find? fun g => decide (index ≤ g.2.index)).map Prod.fst := by
  rw [fontIdForIndex, findSome?_glyph fun fontId _ => fontId]

end LineLayout

/-! ### The halves -/

section Halves

variable [AddCommGroup U]

theorem fontGlyphs_rebase (xOffset : U) (byteIndex : Nat) (runs : List (ShapedRun U I)) :
    fontGlyphs (runs.map (ShapedRun.rebase xOffset byteIndex))
      = (fontGlyphs runs).map fun g => (g.1, g.2.rebase xOffset byteIndex) := by
  induction runs with
  | nil => rfl
  | cons run runs ih =>
    rw [List.map_cons, fontGlyphs_cons, fontGlyphs_cons, List.map_append, ih, ShapedRun.rebase, List.map_map,
      List.map_map]
    rfl

namespace LineLayout

/-- The half in front of the index. -/
def leftHalf (line : LineLayout U I) (byteIndex : Nat) : LineLayout U I :=
  { line with
    width := line.xForIndex byteIndex
    runs := keepGlyphs (fun index => decide (index < byteIndex)) line.runs
    len := byteIndex }

/-- The half from the index on. -/
def rightHalf (line : LineLayout U I) (byteIndex : Nat) : LineLayout U I :=
  { line with
    width := line.width - line.xForIndex byteIndex
    runs := (keepGlyphs (fun index => decide (byteIndex ≤ index)) line.runs).map
      (ShapedRun.rebase (line.xForIndex byteIndex) byteIndex)
    len := line.len - byteIndex }

variable (P : PartitionPoint (ShapedGlyph U))

theorem splitRun_eq {run : ShapedRun U I} (h : SortedBy ShapedGlyph.index run.glyphs) (xOffset : U) (byteIndex : Nat) :
    splitRun P xOffset byteIndex run =
      (keepGlyphs (fun index => decide (index < byteIndex)) [run],
        (keepGlyphs (fun index => decide (byteIndex ≤ index)) [run]).map (ShapedRun.rebase xOffset byteIndex)) := by
  have hpoint := point_lt P h byteIndex
  have htake := take_takeWhile_length (fun glyph => decide (glyph.index < byteIndex)) run.glyphs
  have hdrop := drop_takeWhile_length (fun glyph => decide (glyph.index < byteIndex)) run.glyphs
  rw [takeWhile_lt h] at htake hdrop
  rw [dropWhile_lt h] at hdrop
  have hlength := congrArg List.length (filter_lt_append_filter_ge h byteIndex)
  rw [List.length_append] at hlength
  rw [splitRun, hpoint, htake, hdrop, keepGlyphs_cons, keepGlyphs_cons]
  refine Prod.ext ?_ ?_
  · show (if _ then _ else _) = _
    by_cases hnil : (run.glyphs.filter fun glyph => decide (glyph.index < byteIndex)) = []
    · rw [if_neg (by rw [hnil]; exact lt_irrefl 0), if_pos hnil]
      rfl
    · rw [if_pos (List.length_pos_iff.mpr hnil), if_neg hnil]
      rfl
  · show (if _ then _ else _) = _
    by_cases hnil : (run.glyphs.filter fun glyph => decide (byteIndex ≤ glyph.index)) = []
    · rw [hnil, List.length_nil] at hlength
      rw [if_neg (by omega), if_pos hnil]
      rfl
    · have hpos := List.length_pos_iff.mpr hnil
      rw [if_pos (by omega), if_neg hnil]
      rfl

theorem halves_eq {runs : List (ShapedRun U I)} (h : ByteOrdered runs) (xOffset : U) (byteIndex : Nat) :
    (runs.map (splitRun P xOffset byteIndex)).flatMap Prod.fst
        = keepGlyphs (fun index => decide (index < byteIndex)) runs ∧
      (runs.map (splitRun P xOffset byteIndex)).flatMap Prod.snd
        = (keepGlyphs (fun index => decide (byteIndex ≤ index)) runs).map (ShapedRun.rebase xOffset byteIndex) := by
  have hmap : runs.map (splitRun P xOffset byteIndex) = runs.map fun run =>
      (keepGlyphs (fun index => decide (index < byteIndex)) [run],
        (keepGlyphs (fun index => decide (byteIndex ≤ index)) [run]).map (ShapedRun.rebase xOffset byteIndex)) :=
    List.map_congr_left fun run hrun => splitRun_eq P (h.run hrun) xOffset byteIndex
  rw [hmap, List.flatMap_map, List.flatMap_map, keepGlyphs_eq_flatMap _ runs,
    keepGlyphs_eq_flatMap (fun index => decide (byteIndex ≤ index)) runs, List.map_flatMap]
  exact ⟨rfl, rfl⟩

variable {byteIndex : Nat} {line : LineLayout U I}

/-- **A split** of a line whose glyphs are in byte order. -/
theorem splitAt_spec (h : ByteOrdered line.runs)
    (hle : byteIndex ≤ line.len) :
    line.splitAt P byteIndex = some (line.leftHalf byteIndex, line.rightHalf byteIndex) := by
  have hrebases : line.runs.all (rebases P byteIndex) = true := by
    refine List.all_eq_true.mpr fun run hrun => ?_
    have hdrop := drop_takeWhile_length (fun glyph => decide (glyph.index < byteIndex)) run.glyphs
    rw [takeWhile_lt (h.run hrun), dropWhile_lt (h.run hrun)] at hdrop
    rw [rebases, point_lt P (h.run hrun), hdrop]
    exact List.all_eq_true.mpr fun glyph hglyph => (List.mem_filter.mp hglyph).2
  obtain ⟨hleft, hright⟩ := halves_eq P h (line.xForIndex byteIndex) byteIndex
  rw [splitAt, if_pos ⟨hrebases, hle⟩, hleft, hright]
  rfl

/-- What a split promises of the two halves. -/
structure PreservesGeometry (line left right : LineLayout U I) (byteIndex : Nat) : Prop where
  xLeft : ∀ i ≤ byteIndex, left.xForIndex i = line.xForIndex i
  xRight : ∀ j ≤ line.len - byteIndex,
    right.xForIndex j = line.xForIndex (byteIndex + j) - line.xForIndex byteIndex
  fontLeft : ∀ i, (∃ g ∈ fontGlyphs left.runs, i ≤ g.2.index) → left.fontIdForIndex i = line.fontIdForIndex i
  fontRight : ∀ j, (∃ g ∈ fontGlyphs right.runs, j ≤ g.2.index) →
    right.fontIdForIndex j = line.fontIdForIndex (byteIndex + j)
  width : left.width + right.width = line.width
  len : left.len + right.len = line.len
  glyphs : fontGlyphs left.runs ++ (fontGlyphs right.runs).map (fun g =>
    (g.1, g.2.restore (line.xForIndex byteIndex) byteIndex)) = fontGlyphs line.runs

omit [AddCommGroup U] in
theorem leftHalf_find? (h : ByteOrdered line.runs) {i : Nat} (hle : i ≤ byteIndex) :
    (fontGlyphs line.runs).find? (fun g => decide (i ≤ g.2.index))
      = ((fontGlyphs (line.leftHalf byteIndex).runs).find? fun g => decide (i ≤ g.2.index)).or
        ((fontGlyphs line.runs).find? fun g => decide (byteIndex ≤ g.2.index)) := by
  rw [leftHalf, fontGlyphs_keepGlyphs]
  exact find?_below h hle

theorem rightHalf_find? (h : ByteOrdered line.runs) (byteIndex j : Nat) :
    (fontGlyphs (line.rightHalf byteIndex).runs).find? (fun g => decide (j ≤ g.2.index))
      = ((fontGlyphs line.runs).find? fun g => decide (byteIndex + j ≤ g.2.index)).map fun g =>
        (g.1, g.2.rebase (line.xForIndex byteIndex) byteIndex) := by
  rw [rightHalf, fontGlyphs_rebase, fontGlyphs_keepGlyphs, List.find?_map]
  rw [← find?_past h (Nat.le_add_right byteIndex j)]
  refine congrArg (Option.map _) (List.find?_congr fun g hg => ?_)
  have hpast : byteIndex ≤ g.2.index := of_decide_eq_true (List.mem_filter.mp hg).2
  show decide (j ≤ g.2.index - byteIndex) = decide (byteIndex + j ≤ g.2.index)
  exact decide_eq_decide.mpr (by omega)

omit [AddCommGroup U] in
theorem xForIndex_leftHalf (h : ByteOrdered line.runs) {i : Nat}
    (hle : i ≤ byteIndex) : (line.leftHalf byteIndex).xForIndex i = line.xForIndex i := by
  rw [xForIndex_eq, xForIndex_eq line, leftHalf_find? h hle]
  cases (fontGlyphs (line.leftHalf byteIndex).runs).find? fun g => decide (i ≤ g.2.index) with
  | none => exact xForIndex_eq line byteIndex
  | some g => rfl

theorem xForIndex_rightHalf (h : ByteOrdered line.runs) (byteIndex j : Nat) :
    (line.rightHalf byteIndex).xForIndex j = line.xForIndex (byteIndex + j) - line.xForIndex byteIndex := by
  rw [xForIndex_eq, xForIndex_eq line (byteIndex + j), rightHalf_find? h]
  cases (fontGlyphs line.runs).find? fun g => decide (byteIndex + j ≤ g.2.index) with
  | none => rfl
  | some g => rfl

/-- **Splitting a line preserves its geometry.** -/
theorem splitAt_preserves {line : LineLayout U I} (h : ByteOrdered line.runs) {byteIndex : Nat}
    (hle : byteIndex ≤ line.len) : ∃ left right, line.splitAt P byteIndex = some (left, right) ∧
      PreservesGeometry line left right byteIndex := by
  refine ⟨_, _, splitAt_spec P h hle, ?_⟩
  constructor
  · exact fun i hi => xForIndex_leftHalf h hi
  · exact fun j _ => xForIndex_rightHalf h byteIndex j
  · rintro i ⟨g, hg, hi⟩
    have hlt : g.2.index < byteIndex := by
      rw [leftHalf, fontGlyphs_keepGlyphs] at hg
      exact of_decide_eq_true (List.mem_filter.mp hg).2
    rw [fontIdForIndex_eq, fontIdForIndex_eq, leftHalf_find? h (hi.trans hlt.le)]
    cases hfind : (fontGlyphs (line.leftHalf byteIndex).runs).find? fun g => decide (i ≤ g.2.index) with
    | none => exact absurd (decide_eq_true hi) (List.find?_eq_none.mp hfind g hg)
    | some g => rfl
  · intro j _
    rw [fontIdForIndex_eq, fontIdForIndex_eq, rightHalf_find? h, Option.map_map]
    rfl
  · exact add_sub_cancel _ _
  · exact Nat.add_sub_cancel' hle
  · have hrestore : ((fontGlyphs (line.rightHalf byteIndex).runs).map fun g =>
        (g.1, g.2.restore (line.xForIndex byteIndex) byteIndex))
          = (fontGlyphs line.runs).filter fun g => decide (byteIndex ≤ g.2.index) := by
      rw [rightHalf, fontGlyphs_rebase, fontGlyphs_keepGlyphs, List.map_map]
      refine (List.map_congr_left fun g hg => ?_).trans (List.map_id _)
      have hpast : byteIndex ≤ g.2.index := of_decide_eq_true (List.mem_filter.mp hg).2
      exact Prod.ext rfl (ShapedGlyph.restore_rebase (line.xForIndex byteIndex) hpast)
    rw [hrestore, leftHalf, fontGlyphs_keepGlyphs]
    exact filter_lt_append_filter_ge h byteIndex

/-- Two runs, with a cluster of two glyphs at the end of the first one. -/
def twoRuns : LineLayout ℤ Nat :=
  ⟨16, 30, 12, 4, [⟨0, [⟨1, ⟨0, 0⟩, 0, false⟩, ⟨2, ⟨10, 0⟩, 1, false⟩, ⟨3, ⟨15, 0⟩, 1, false⟩]⟩,
    ⟨1, [⟨4, ⟨20, 0⟩, 3, false⟩]⟩], 4⟩

theorem splitAt_preserves_twoRuns : ∃ left right,
    twoRuns.splitAt (PartitionPoint.linear (ShapedGlyph ℤ)) 2 = some (left, right) ∧
      PreservesGeometry twoRuns left right 2 :=
  splitAt_preserves (PartitionPoint.linear (ShapedGlyph ℤ)) (by decide) (by decide)

end LineLayout

end Halves

end FcGpui
