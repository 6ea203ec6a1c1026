import FcGpui.TextSystem.ClosestIndex
import FcGpui.TextSystem.LayoutCache
import FcGpui.TextSystem.SplitLine

/-!
# Positions in a wrapped line

`WrappedLineLayout` in `crates/gpui/src/text_system/line_layout.rs`: the index at a position,
and the position of an index.  Coordinates are exact.  A wrap boundary that is not the place
of a glyph is a panic, `none` here.

An index at which the line is wrapped ends a row and starts the next one.  Its position is
the end of the row that it ends, and there the index is an error with the same index.

**Main result.**  `indexForPosition_positionForIndex`.
-/

namespace FcGpui

variable {U I : Type}

namespace LineLayout

/-- `runs[run_ix].glyphs[glyph_ix]`. -/
def glyphAt (line : LineLayout U I) (place : WrapBoundary) : Option (ShapedGlyph U) :=
  line.runs[place.runIx]?.bind fun run => run.glyphs[place.glyphIx]?

/-- The index for the character at the given x coordinate. -/
def indexForX [LE U] [DecidableLE U] (line : LineLayout U I) (x : U) : Option Nat :=
  if line.width ≤ x then none
  else some ((line.runs.reverse.findSome? fun run =>
    (run.glyphs.reverse.find? fun glyph => decide (glyph.position.x ≤ x)).map ShapedGlyph.index).getD 0)

end LineLayout

namespace WrappedLineLayout

open LineLayout

def len (w : WrappedLineLayout U I) : Nat := w.unwrappedLayout.len

/-- Where a row starts, if there is one. -/
def rowStart [Zero U] (w : WrappedLineLayout U I) : Nat → Option (Option (Nat × U))
  | 0 => some (some (0, 0))
  | ix + 1 => match w.wrapBoundaries[ix]? with
    | none => some none
    | some place => (w.unwrappedLayout.glyphAt place).map fun glyph => some (boundary glyph)

/-- Where a row ends. -/
def rowEnd (w : WrappedLineLayout U I) (ix : Nat) : Option (Nat × U) :=
  match w.wrapBoundaries[ix]? with
  | some place => (w.unwrappedLayout.glyphAt place).map boundary
  | none => some (w.len, w.unwrappedLayout.width)

section

variable [Field U] [LinearOrder U] [FloorSemiring U]

/-- `_index_for_position`. -/
def indexForPositionWith (w : WrappedLineLayout U I) (position : Point U) (lineHeight : U) (closest : Bool) :
    Option (Except Nat Nat) := do
  let wrappedLineIx := ⌊position.y / lineHeight⌋₊
  match ← w.rowStart wrappedLineIx with
  | none => some (.error 0)
  | some (wrappedLineStartIndex, wrappedLineStartX) =>
    let (wrappedLineEndIndex, wrappedLineEndX) ← w.rowEnd wrappedLineIx
    let x := position.x + wrappedLineStartX
    if x < wrappedLineStartX then some (.error wrappedLineStartIndex)
    else if wrappedLineEndX ≤ x then some (.error wrappedLineEndIndex)
    else if closest then some (.ok (w.unwrappedLayout.closestIndexForX x))
    else some (match w.unwrappedLayout.indexForX x with
      | some index => .ok index
      | none => .error wrappedLineEndIndex)

def indexForPosition (w : WrappedLineLayout U I) (position : Point U) (lineHeight : U) : Option (Except Nat Nat) :=
  w.indexForPositionWith position lineHeight false

def closestIndexForPosition (w : WrappedLineLayout U I) (position : Point U) (lineHeight : U) :
    Option (Except Nat Nat) :=
  w.indexForPositionWith position lineHeight true

/-- The loop of `position_for_index` over the indices at which the rows end. -/
def positionLoop (line : LineLayout U I) (index : Nat) (lineHeight : U) :
    List (Option Nat) → Nat → Nat → Option (Option (Point U))
  | [], _, _ => some none
  | lineEnd :: rest, ix, lineStartIx => do
    let lineEndIx ← lineEnd
    let lineY := (ix : U) * lineHeight
    if index < lineStartIx then some none
    else if lineEndIx < index then positionLoop line index lineHeight rest (ix + 1) lineEndIx
    else some (some ⟨line.xForIndex index - line.xForIndex lineStartIx, lineY⟩)

/-- The indices at which the rows end. -/
def lineEndIndices (w : WrappedLineLayout U I) : List (Option Nat) :=
  (w.wrapBoundaries.map fun place => (w.unwrappedLayout.glyphAt place).map ShapedGlyph.index) ++ [some w.len]

def positionForIndex (w : WrappedLineLayout U I) (index : Nat) (lineHeight : U) : Option (Option (Point U)) :=
  positionLoop w.unwrappedLayout index lineHeight w.lineEndIndices 0 0

end

end WrappedLineLayout

/-! ### The glyphs of a line in order -/

namespace LineLayout

variable {line : LineLayout U I}

theorem xForIndex_eq_glyphs (line : LineLayout U I) (index : Nat) : line.xForIndex index =
    ((line.glyphs.find? fun glyph => decide (index ≤ glyph.index)).map fun glyph => glyph.position.x).getD
      line.width := by
  have hglyphs : line.glyphs = (fontGlyphs line.runs).map Prod.snd := by
    rw [glyphs, fontGlyphs, List.map_flatMap]
    refine congrArg (List.flatMap · line.runs) (funext fun run => ?_)
    rw [List.map_map]
    exact (List.map_id _).symm
  rw [xForIndex_eq, hglyphs, List.find?_map, Option.map_map]
  rfl

theorem indexForX_eq_glyphs [LE U] [DecidableLE U] (line : LineLayout U I) (x : U) : line.indexForX x =
    if line.width ≤ x then none
    else some (((line.glyphs.reverse.find? fun glyph => decide (glyph.position.x ≤ x)).map
      ShapedGlyph.index).getD 0) := by
  rw [indexForX, glyphs, List.reverse_flatMap, List.find?_flatMap, List.map_findSome?]
  rfl

theorem mem_glyphs_of_glyphAt {place : WrapBoundary} {glyph : ShapedGlyph U} (h : line.glyphAt place = some glyph) :
    glyph ∈ line.glyphs := by
  obtain ⟨run, hrun, hglyph⟩ := Option.bind_eq_some_iff.mp h
  exact List.mem_flatMap.mpr ⟨run, List.mem_of_getElem? hrun, List.mem_of_getElem? hglyph⟩

/-! The position of a glyph's index is that of the glyph, and the index at it is that of the glyph. -/

section

variable [Zero U] [LinearOrder U]

/-- The positions are in the order of the indices. -/
theorem Ascending.position_lt_iff (h : line.Ascending) {a b : ShapedGlyph U} (ha : a ∈ line.glyphs)
    (hb : b ∈ line.glyphs) : a.position.x < b.position.x ↔ a.index < b.index := by
  obtain ⟨i, hi, rfl⟩ := List.mem_iff_getElem.mp ha
  obtain ⟨j, hj, rfl⟩ := List.mem_iff_getElem.mp hb
  rcases lt_trichotomy i j with hlt | heq | hgt
  · exact iff_of_true (List.pairwise_iff_getElem.mp h.positions i j hi hj hlt)
      (List.pairwise_iff_getElem.mp h.indices i j hi hj hlt)
  · subst heq
    exact iff_of_false (lt_irrefl _) (lt_irrefl _)
  · exact iff_of_false (List.pairwise_iff_getElem.mp h.positions j i hj hi hgt).not_gt
      (List.pairwise_iff_getElem.mp h.indices j i hj hi hgt).not_gt

theorem Ascending.xForIndex_glyph (h : line.Ascending) {glyph : ShapedGlyph U} (hglyph : glyph ∈ line.glyphs) :
    line.xForIndex glyph.index = glyph.position.x := by
  rw [xForIndex_eq_glyphs, find?_key_le h.indices hglyph]
  rfl

theorem Ascending.xForIndex_zero (h : line.Ascending) : line.xForIndex 0 = 0 := by
  obtain ⟨first, rest, hglyphs, hfirst⟩ := h.first
  have hmem : first ∈ line.glyphs := by
    rw [hglyphs]
    exact List.mem_cons_self
  have hx := h.xForIndex_glyph hmem
  rwa [show first.index = 0 from congrArg Prod.fst hfirst, show first.position.x = 0 from congrArg Prod.snd hfirst] at hx

omit [Zero U] [LinearOrder U] in
theorem xForIndex_past {index : Nat} (h : ∀ glyph ∈ line.glyphs, glyph.index < index) :
    line.xForIndex index = line.width := by
  rw [xForIndex_eq_glyphs, List.find?_eq_none.mpr]
  · rfl
  · intro glyph hglyph
    simpa using h glyph hglyph

theorem Ascending.le_xForIndex (h : line.Ascending) {glyph : ShapedGlyph U} (hglyph : glyph ∈ line.glyphs) {index : Nat}
    (hle : glyph.index ≤ index) : glyph.position.x ≤ line.xForIndex index := by
  rw [xForIndex_eq_glyphs]
  cases hfind : line.glyphs.find? fun glyph => decide (index ≤ glyph.index) with
  | none => exact (h.width glyph hglyph).le
  | some found =>
    have hfound : index ≤ found.index := by simpa using List.find?_some hfind
    by_contra hfront
    have hlt := (h.position_lt_iff (List.mem_of_find?_eq_some hfind) hglyph).mp (not_le.mp hfront)
    omega

theorem Ascending.indexForX_glyph (h : line.Ascending) {glyph : ShapedGlyph U} (hglyph : glyph ∈ line.glyphs) :
    line.indexForX glyph.position.x = some glyph.index := by
  rw [indexForX_eq_glyphs, if_neg (not_le.mpr (h.width glyph hglyph)), find?_reverse_le_key h.positions hglyph]
  rfl

end

end LineLayout

/-! ### The rows of a wrapped line -/

namespace WrappedLineLayout

open LineLayout

variable {w : WrappedLineLayout U I}

/-- The line is wrapped at glyphs behind the first one, in their order. -/
structure Ascending [Zero U] [LT U] (w : WrappedLineLayout U I) : Prop where
  line : w.unwrappedLayout.Ascending
  sorted : w.wrapBoundaries.Pairwise fun a b => a.lt b = true
  places : ∀ place ∈ w.wrapBoundaries, ∃ glyph, w.unwrappedLayout.glyphAt place = some glyph ∧ 0 < glyph.index

/-- The glyphs at which the line is wrapped. -/
def WrapGlyphs (w : WrappedLineLayout U I) (glyphs : List (ShapedGlyph U)) : Prop :=
  List.Forall₂ (fun place glyph => w.unwrappedLayout.glyphAt place = some glyph) w.wrapBoundaries glyphs

theorem Ascending.wrapGlyphs [Zero U] [LT U] (h : w.Ascending) : ∃ glyphs, w.WrapGlyphs glyphs := by
  have hplaces : ∀ places : List WrapBoundary, (∀ place ∈ places, place ∈ w.wrapBoundaries) →
      ∃ glyphs, List.Forall₂ (fun place glyph => w.unwrappedLayout.glyphAt place = some glyph) places glyphs := by
    intro places
    induction places with
    | nil => exact fun _ => ⟨[], .nil⟩
    | cons place places ih =>
      intro hmem
      obtain ⟨glyph, hglyph, -⟩ := h.places place (hmem place List.mem_cons_self)
      obtain ⟨glyphs, hglyphs⟩ := ih fun other hother => hmem other (List.mem_cons_of_mem _ hother)
      exact ⟨glyph :: glyphs, .cons hglyph hglyphs⟩
  exact hplaces w.wrapBoundaries fun _ h => h

theorem WrapGlyphs.lineEndIndices_eq {glyphs : List (ShapedGlyph U)} (h : w.WrapGlyphs glyphs) :
    w.lineEndIndices = (glyphs.map ShapedGlyph.index ++ [w.len]).map some := by
  have hmap : ∀ {places : List WrapBoundary} {glyphs : List (ShapedGlyph U)},
      List.Forall₂ (fun place glyph => w.unwrappedLayout.glyphAt place = some glyph) places glyphs →
      (places.map fun place => (w.unwrappedLayout.glyphAt place).map ShapedGlyph.index)
        = (glyphs.map ShapedGlyph.index).map some := by
    intro places glyphs h
    induction h with
    | nil => rfl
    | cons hglyph _ ih => rw [List.map_cons, List.map_cons, List.map_cons, hglyph, ih, Option.map_some]
  rw [lineEndIndices, hmap h, List.map_append, List.map_singleton]

theorem WrapGlyphs.getElem?_some {glyphs : List (ShapedGlyph U)} (h : w.WrapGlyphs glyphs) {ix : Nat}
    {glyph : ShapedGlyph U} (hglyph : glyphs[ix]? = some glyph) :
    ∃ place, w.wrapBoundaries[ix]? = some place ∧ w.unwrappedLayout.glyphAt place = some glyph := by
  obtain ⟨hix, rfl⟩ := List.getElem?_eq_some_iff.mp hglyph
  have hlength := List.Forall₂.length_eq h
  refine ⟨w.wrapBoundaries.get ⟨ix, hlength ▸ hix⟩, List.getElem?_eq_getElem _, ?_⟩
  exact List.Forall₂.get h (hlength ▸ hix) hix

section

variable [Field U]

theorem positionLoop_finds (line : LineLayout U I) {index : Nat} (lineHeight : U) : ∀ (ends : List Nat) (ix start : Nat),
    start ≤ index → (∃ stop ∈ ends, index ≤ stop) → ∃ r start' stop',
      positionLoop line index lineHeight (ends.map some) ix start =
          some (some ⟨line.xForIndex index - line.xForIndex start', ((ix + r : Nat) : U) * lineHeight⟩) ∧
        (start :: ends)[r]? = some start' ∧ ends[r]? = some stop' ∧ start' ≤ index ∧ index ≤ stop' := by
  intro ends
  induction ends with
  | nil =>
    rintro ix start - ⟨stop, hstop, -⟩
    exact absurd hstop List.not_mem_nil
  | cons stop ends ih =>
    intro ix start hstart hreached
    rw [List.map_cons, positionLoop]
    simp only [Option.bind_eq_bind, Option.bind_some]
    rw [if_neg (not_lt.mpr hstart)]
    by_cases hbehind : stop < index
    · have hrest : ∃ stop ∈ ends, index ≤ stop := by
        obtain ⟨stop', hmem, hle⟩ := hreached
        rcases List.mem_cons.mp hmem with rfl | hmem
        · exact absurd hle (not_le.mpr hbehind)
        · exact ⟨stop', hmem, hle⟩
      obtain ⟨r, start', stop', hloop, hrow, hend, hbounds⟩ := ih (ix + 1) stop hbehind.le hrest
      refine ⟨r + 1, start', stop', ?_, hrow, hend, hbounds⟩
      rw [if_pos hbehind, hloop, Nat.add_assoc, Nat.add_comm 1 r]
    · exact ⟨0, start, stop, by rw [if_neg hbehind, Nat.add_zero], rfl, rfl, hstart, not_lt.mp hbehind⟩

variable [LinearOrder U] {glyphs : List (ShapedGlyph U)}

theorem WrapGlyphs.rowStart_eq (h : w.WrapGlyphs glyphs) (hline : w.unwrappedLayout.Ascending) {r start : Nat}
    (hstart : (0 :: glyphs.map ShapedGlyph.index)[r]? = some start) :
    w.rowStart r = some (some (start, w.unwrappedLayout.xForIndex start)) ∧
      ∃ glyph ∈ w.unwrappedLayout.glyphs, glyph.index = start := by
  cases r with
  | zero =>
    obtain rfl := Option.some.inj hstart
    obtain ⟨first, rest, hfirst, hzero⟩ := hline.first
    refine ⟨by rw [rowStart, hline.xForIndex_zero], first, ?_, congrArg Prod.fst hzero⟩
    rw [hfirst]
    exact List.mem_cons_self
  | succ r =>
    rw [List.getElem?_cons_succ, List.getElem?_map] at hstart
    obtain ⟨glyph, hglyph, rfl⟩ := Option.map_eq_some_iff.mp hstart
    obtain ⟨place, hplace, hat⟩ := h.getElem?_some hglyph
    refine ⟨?_, glyph, mem_glyphs_of_glyphAt hat, rfl⟩
    rw [rowStart, hplace]
    dsimp only
    rw [hat, Option.map_some, hline.xForIndex_glyph (mem_glyphs_of_glyphAt hat), boundary]

omit [Field U] [LinearOrder U] in
theorem WrapGlyphs.rowEnd_cases (h : w.WrapGlyphs glyphs) {r stop : Nat}
    (hstop : (glyphs.map ShapedGlyph.index ++ [w.len])[r]? = some stop) :
    (∃ glyph ∈ w.unwrappedLayout.glyphs, glyph.index = stop ∧ w.rowEnd r = some (boundary glyph)) ∨
      (stop = w.len ∧ w.rowEnd r = some (w.len, w.unwrappedLayout.width)) := by
  rw [rowEnd]
  rcases lt_or_ge r glyphs.length with hlt | hge
  · left
    rw [List.getElem?_append_left (by rwa [List.length_map]), List.getElem?_map] at hstop
    obtain ⟨glyph, hglyph, rfl⟩ := Option.map_eq_some_iff.mp hstop
    obtain ⟨place, hplace, hat⟩ := h.getElem?_some hglyph
    refine ⟨glyph, mem_glyphs_of_glyphAt hat, rfl, ?_⟩
    rw [hplace]
    dsimp only
    rw [hat, Option.map_some]
  · right
    rw [List.getElem?_append_right (by rwa [List.length_map])] at hstop
    have hnone : w.wrapBoundaries[r]? = none := by
      rw [List.getElem?_eq_none_iff, List.Forall₂.length_eq h]
      exact hge
    refine ⟨(List.mem_singleton.mp (List.mem_of_getElem? hstop)), ?_⟩
    rw [hnone]

variable [IsStrictOrderedRing U] [FloorSemiring U]

theorem indexForPosition_inRow {r start stop : Nat} {x stopX lineHeight : U} (hheight : 0 < lineHeight)
    (hstart : w.rowStart r = some (some (start, w.unwrappedLayout.xForIndex start)))
    (hstop : w.rowEnd r = some (stop, stopX)) (hx : w.unwrappedLayout.xForIndex start ≤ x) :
    w.indexForPosition ⟨x - w.unwrappedLayout.xForIndex start, (r : U) * lineHeight⟩ lineHeight =
      if stopX ≤ x then some (.error stop)
      else some (match w.unwrappedLayout.indexForX x with
        | some index => .ok index
        | none => .error stop) := by
  have hrow : ⌊(r : U) * lineHeight / lineHeight⌋₊ = r := by
    rw [mul_div_cancel_right₀ _ hheight.ne', Nat.floor_natCast]
  rw [indexForPosition, indexForPositionWith]
  dsimp only
  rw [hrow, hstart]
  simp only [Option.bind_eq_bind, Option.bind_some, hstop, sub_add_cancel]
  rw [if_neg (not_lt.mpr hx), if_neg Bool.false_ne_true]

/-- **The index at the position of an index** is that index, in a row or as the end of a row. -/
theorem indexForPosition_positionForIndex (w : WrappedLineLayout U I) (h : w.Ascending)
    (hlen : ∀ glyph ∈ w.unwrappedLayout.glyphs, glyph.index ≤ w.len) (index : Nat)
    (hindex : index = w.len ∨ ∃ glyph ∈ w.unwrappedLayout.glyphs, glyph.index = index) (lineHeight : U)
    (hheight : 0 < lineHeight) : ∃ position, w.positionForIndex index lineHeight = some (some position) ∧
      (w.indexForPosition position lineHeight = some (.ok index) ∨
        w.indexForPosition position lineHeight = some (.error index)) := by
  obtain ⟨glyphs, hglyphs⟩ := h.wrapGlyphs
  have hle : index ≤ w.len := by
    rcases hindex with rfl | ⟨glyph, hglyph, rfl⟩
    · exact le_rfl
    · exact hlen glyph hglyph
  obtain ⟨r, start, stop, hloop, hstart, hstop, hstartle, hstople⟩ :=
    positionLoop_finds w.unwrappedLayout lineHeight (glyphs.map ShapedGlyph.index ++ [w.len]) 0 0 (Nat.zero_le index)
      ⟨w.len, by simp, hle⟩
  rw [← hglyphs.lineEndIndices_eq, Nat.zero_add] at hloop
  refine ⟨_, hloop, ?_⟩
  have hr : r < (0 :: glyphs.map ShapedGlyph.index).length := by
    have hlt := (List.getElem?_eq_some_iff.mp hstop).1
    rwa [List.length_append, List.length_singleton] at hlt
  rw [← List.cons_append, List.getElem?_append_left hr] at hstart
  obtain ⟨hrowStart, first, hfirst, rfl⟩ := hglyphs.rowStart_eq h.line hstart
  have hx : w.unwrappedLayout.xForIndex first.index ≤ w.unwrappedLayout.xForIndex index := by
    rw [h.line.xForIndex_glyph hfirst]
    exact h.line.le_xForIndex hfirst hstartle
  -- an index of a glyph in front of the end of the row is found again
  have hfound : ∀ glyph ∈ w.unwrappedLayout.glyphs, glyph.index = index → ∀ stopX : U, ¬ stopX ≤ glyph.position.x →
      (if stopX ≤ w.unwrappedLayout.xForIndex index then some (.error stop)
        else some (match w.unwrappedLayout.indexForX (w.unwrappedLayout.xForIndex index) with
          | some index => .ok index
          | none => .error stop)) = some (Except.ok index : Except Nat Nat) := by
    rintro glyph hglyph rfl stopX hfront
    rw [h.line.xForIndex_glyph hglyph, if_neg hfront, h.line.indexForX_glyph hglyph]
  rcases hglyphs.rowEnd_cases hstop with ⟨last, hlast, rfl, hrowEnd⟩ | ⟨rfl, hrowEnd⟩
  · rw [indexForPosition_inRow hheight hrowStart hrowEnd hx]
    rcases hstople.eq_or_lt with rfl | hlt
    · right
      rw [h.line.xForIndex_glyph hlast, if_pos le_rfl]
    · left
      obtain ⟨glyph, hglyph, hglyphIndex⟩ : ∃ glyph ∈ w.unwrappedLayout.glyphs, glyph.index = index :=
        hindex.resolve_left fun heq => absurd (heq ▸ hlt) (not_lt.mpr (hlen last hlast))
      exact hfound glyph hglyph hglyphIndex _
        (not_le.mpr ((h.line.position_lt_iff hglyph hlast).mpr (hglyphIndex ▸ hlt)))
  · rw [indexForPosition_inRow hheight hrowStart hrowEnd hx]
    by_cases hglyph : ∃ glyph ∈ w.unwrappedLayout.glyphs, glyph.index = index
    · left
      obtain ⟨glyph, hglyph, hglyphIndex⟩ := hglyph
      exact hfound glyph hglyph hglyphIndex _ (not_le.mpr (h.line.width glyph hglyph))
    · right
      obtain rfl := hindex.resolve_right hglyph
      have hpast : ∀ glyph ∈ w.unwrappedLayout.glyphs, glyph.index < w.len := fun glyph hmem =>
        (hlen glyph hmem).lt_of_ne fun heq => hglyph ⟨glyph, hmem, heq⟩
      rw [xForIndex_past hpast, if_pos le_rfl]

end

/-- Three glyphs, wrapped at the second one. -/
def wrappedLetters (len : Nat) : WrappedLineLayout ℚ Nat :=
  ⟨⟨16, 30, 12, 4, [⟨0, [⟨0, ⟨0, 0⟩, 0, false⟩, ⟨0, ⟨10, 0⟩, 1, false⟩, ⟨0, ⟨20, 0⟩, 5, false⟩]⟩], len⟩,
    [⟨0, 1⟩], some 10⟩

theorem wrappedLetters_ascending (len : Nat) : (wrappedLetters len).Ascending where
  line := ⟨⟨_, _, rfl, rfl⟩, by simp [wrappedLetters, glyphs], by simp [wrappedLetters, glyphs]; norm_num,
    by simp [wrappedLetters, glyphs]; norm_num⟩
  sorted := by simp [wrappedLetters]
  places := by simp [wrappedLetters, glyphAt]

theorem indexForPosition_positionForIndex_wrappedLetters :
    ∃ position, (wrappedLetters 6).positionForIndex 1 20 = some (some position) ∧
      ((wrappedLetters 6).indexForPosition position 20 = some (.ok 1) ∨
        (wrappedLetters 6).indexForPosition position 20 = some (.error 1)) :=
  indexForPosition_positionForIndex (wrappedLetters 6) (wrappedLetters_ascending 6) (by decide) 1
    (Or.inr ⟨_, List.mem_of_getElem? (i := 1) rfl, rfl⟩) 20 (by decide)

/-- A glyph behind the end of the text has no position. -/
theorem not_indexForPosition_positionForIndex : ¬ ∀ (w : WrappedLineLayout ℚ Nat), w.Ascending → ∀ index : Nat,
    (index = w.len ∨ ∃ glyph ∈ w.unwrappedLayout.glyphs, glyph.index = index) → ∀ lineHeight : ℚ, 0 < lineHeight →
    ∃ position, w.positionForIndex index lineHeight = some (some position) ∧
      (w.indexForPosition position lineHeight = some (.ok index) ∨
        w.indexForPosition position lineHeight = some (.error index)) := by
  intro h
  obtain ⟨position, hposition, -⟩ := h (wrappedLetters 3) (wrappedLetters_ascending 3) 5
    (Or.inr ⟨_, List.mem_of_getElem? (i := 2) rfl, rfl⟩) 20 (by decide)
  have hnone : (wrappedLetters 3).positionForIndex 5 20 = some none := by decide +kernel
  rw [hnone] at hposition
  exact absurd hposition (by simp)

end WrappedLineLayout

end FcGpui
