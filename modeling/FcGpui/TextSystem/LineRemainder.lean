import FcGpui.TextSystem.CursorGlyphs

/-!
# What is left of a line

After splits at one boundary after another there is left of a line what it has from the last
boundary on, with positions and indices rebased once (`Remainder`).  A split of it takes the
piece up to the next boundary and leaves a remainder again (`Remainder.splitAt`).
-/

namespace FcGpui

variable {U I H N S : Type} [AddCommGroup U]

/-- What is left of a line from a byte index on, up to runs without glyphs. -/
structure Remainder (line : ShapedLine U I H N S) (byteIndex : Nat) (xOffset : U) (rest : ShapedLine U I H N S) :
    Prop where
  layout : rest.layout = { line.layout with
    width := line.layout.width - xOffset
    runs := rest.layout.runs
    len := line.layout.len - byteIndex }
  runs : keepGlyphs (fun _ => true) rest.layout.runs =
    (keepGlyphs (fun index => decide (byteIndex ≤ index)) line.layout.runs).map (ShapedRun.rebase xOffset byteIndex)
  text : rest.text = line.text.drop byteIndex

variable {line rest : ShapedLine U I H N S} {byteIndex stop : Nat} {xOffset : U}

omit [AddCommGroup U] in
theorem fontGlyphs_trim (runs : List (ShapedRun U I)) :
    fontGlyphs (keepGlyphs (fun _ => true) runs) = fontGlyphs runs := by
  rw [fontGlyphs_keepGlyphs, List.filter_true]

theorem Remainder.fontGlyphs_eq (h : Remainder line byteIndex xOffset rest) :
    fontGlyphs rest.layout.runs = ((fontGlyphs line.layout.runs).filter fun g => decide (byteIndex ≤ g.2.index)).map
      fun g => (g.1, g.2.rebase xOffset byteIndex) := by
  rw [← fontGlyphs_trim, h.runs, fontGlyphs_rebase, fontGlyphs_keepGlyphs]

theorem Remainder.byteOrdered (h : Remainder line byteIndex xOffset rest) (hordered : ByteOrdered line.layout.runs) :
    ByteOrdered rest.layout.runs := by
  rw [ByteOrdered, SortedBy, h.fontGlyphs_eq, List.pairwise_map]
  exact (List.Pairwise.sublist List.filter_sublist hordered).imp fun hle => Nat.sub_le_sub_right hle byteIndex

/-- Where what is left begins at the next boundary. -/
theorem Remainder.xForIndex (h : Remainder line byteIndex xOffset rest) (hordered : ByteOrdered line.layout.runs)
    (hle : byteIndex ≤ stop) :
    rest.layout.xForIndex (stop - byteIndex) = line.layout.xForIndex stop - xOffset := by
  have hfind : (fontGlyphs rest.layout.runs).find? (fun g => decide (stop - byteIndex ≤ g.2.index))
      = ((fontGlyphs line.layout.runs).find? fun g => decide (stop ≤ g.2.index)).map
        fun g => (g.1, g.2.rebase xOffset byteIndex) := by
    rw [h.fontGlyphs_eq, List.find?_map, ← find?_past hordered hle]
    refine congrArg (Option.map _) (List.find?_congr fun g hg => ?_)
    have hpast : byteIndex ≤ g.2.index := of_decide_eq_true (List.mem_filter.mp hg).2
    show decide (stop - byteIndex ≤ g.2.index - byteIndex) = decide (stop ≤ g.2.index)
    exact decide_eq_decide.mpr (by omega)
  rw [LineLayout.xForIndex_eq, LineLayout.xForIndex_eq line.layout, hfind, h.layout]
  cases (fontGlyphs line.layout.runs).find? fun g => decide (stop ≤ g.2.index) with
  | none => rfl
  | some g => rfl

/-- The layout of the piece between two boundaries. -/
def pieceLayout (layout : LineLayout U I) (byteIndex stop : Nat) (xOffset : U) : LineLayout U I :=
  { layout with
    width := layout.xForIndex stop - xOffset
    runs := (keepGlyphs (fun index => decide (byteIndex ≤ index) && decide (index < stop)) layout.runs).map
      (ShapedRun.rebase xOffset byteIndex)
    len := stop - byteIndex }

/-- The glyphs of what is left that meet a condition. -/
theorem Remainder.keepGlyphs_eq (h : Remainder line byteIndex xOffset rest) (q : Nat → Bool) :
    keepGlyphs q rest.layout.runs =
      (keepGlyphs (fun index => decide (byteIndex ≤ index) && q (index - byteIndex)) line.layout.runs).map
        (ShapedRun.rebase xOffset byteIndex) := by
  have htrim := keepGlyphs_keepGlyphs (fun _ => true) q rest.layout.runs
  simp only [Bool.true_and] at htrim
  rw [← htrim, h.runs, keepGlyphs_rebase, keepGlyphs_keepGlyphs]

theorem Remainder.leftHalf (h : Remainder line byteIndex xOffset rest) (hordered : ByteOrdered line.layout.runs)
    (hle : byteIndex ≤ stop) :
    rest.layout.leftHalf (stop - byteIndex) = pieceLayout line.layout byteIndex stop xOffset := by
  have hruns : keepGlyphs (fun index => decide (index < stop - byteIndex)) rest.layout.runs
      = (keepGlyphs (fun index => decide (byteIndex ≤ index) && decide (index < stop)) line.layout.runs).map
        (ShapedRun.rebase xOffset byteIndex) := by
    rw [h.keepGlyphs_eq]
    refine congrArg (List.map _) (keepGlyphs_congr fun g _ => ?_)
    rw [Bool.eq_iff_iff, Bool.and_eq_true, Bool.and_eq_true, decide_eq_true_iff, decide_eq_true_iff,
      decide_eq_true_iff]
    omega
  rw [LineLayout.leftHalf, h.xForIndex hordered hle, hruns, h.layout]
  rfl

theorem Remainder.rightHalf_runs (h : Remainder line byteIndex xOffset rest) (hordered : ByteOrdered line.layout.runs)
    (hle : byteIndex ≤ stop) :
    keepGlyphs (fun _ => true) (rest.layout.rightHalf (stop - byteIndex)).runs
      = (keepGlyphs (fun index => decide (stop ≤ index)) line.layout.runs).map
        (ShapedRun.rebase (line.layout.xForIndex stop) stop) := by
  have hkept : keepGlyphs (fun index => decide (stop - byteIndex ≤ index)) rest.layout.runs
      = (keepGlyphs (fun index => decide (stop ≤ index)) line.layout.runs).map
        (ShapedRun.rebase xOffset byteIndex) := by
    rw [h.keepGlyphs_eq]
    refine congrArg (List.map _) (keepGlyphs_congr fun g _ => ?_)
    rw [Bool.eq_iff_iff, Bool.and_eq_true, decide_eq_true_iff, decide_eq_true_iff, decide_eq_true_iff]
    omega
  rw [LineLayout.rightHalf, keepGlyphs_rebase, keepGlyphs_keepGlyphs, h.xForIndex hordered hle]
  simp only [Bool.and_true]
  rw [hkept, List.map_map]
  exact List.map_congr_left fun run _ => rebase_rebase xOffset (line.layout.xForIndex stop) hle run

/-! ### Texts -/

theorem isCharBoundary_drop {text : List UInt8} (hle : byteIndex ≤ stop) (h : isCharBoundary text stop = true) :
    isCharBoundary (text.drop byteIndex) (stop - byteIndex) = true := by
  rw [isCharBoundary]
  by_cases hsame : stop - byteIndex = 0
  · rw [if_pos hsame]
  · have hpos : ¬ stop = 0 := by omega
    rw [isCharBoundary, if_neg hpos] at h
    rw [if_neg hsame, List.getElem?_drop, Nat.add_sub_cancel' hle, List.length_drop]
    cases hbyte : text[stop]? with
    | none =>
      rw [hbyte] at h
      have hstop : stop = text.length := of_decide_eq_true h
      exact decide_eq_true (by omega)
    | some byte =>
      rw [hbyte] at h
      exact h

theorem isCharBoundary_length (text : List UInt8) : isCharBoundary text text.length = true := by
  rw [isCharBoundary]
  split
  · rfl
  · rw [List.getElem?_eq_none le_rfl]
    exact decide_eq_true rfl

theorem textSlice_eq {text : List UInt8} (hle : byteIndex ≤ stop) (hbyteIndex : isCharBoundary text byteIndex = true)
    (hstop : isCharBoundary text stop = true) :
    textSlice text byteIndex stop = some ((text.take stop).drop byteIndex) := if_pos ⟨hle, hbyteIndex, hstop⟩

theorem split_text {text : List UInt8} (hle : byteIndex ≤ stop) (hlength : stop ≤ text.length)
    (hstop : isCharBoundary text stop = true) :
    ShapedLine.leftText (text.drop byteIndex) (stop - byteIndex) = some ((text.take stop).drop byteIndex) ∧
      ShapedLine.rightText (text.drop byteIndex) (stop - byteIndex) = some (text.drop stop) := by
  have hboundary := isCharBoundary_drop hle hstop
  rw [ShapedLine.leftText, ShapedLine.rightText]
  constructor
  · split
    · rename_i hall
      rw [List.length_drop] at hall
      rw [List.take_of_length_le (by omega : text.length ≤ stop)]
    · rw [textSlice_eq (Nat.zero_le _) rfl hboundary, List.drop_zero, List.drop_take]
  · split
    · rename_i hnone
      rw [(by omega : byteIndex = stop)]
    · rw [textSlice_eq (by rw [List.length_drop]; omega) hboundary (isCharBoundary_length _), List.take_length,
        List.drop_drop, Nat.add_sub_cancel' hle]

/-- **A split of what is left.** -/
theorem Remainder.splitAt (h : Remainder line byteIndex xOffset rest) (P : PartitionPoint (ShapedGlyph U))
    (hordered : ByteOrdered line.layout.runs) (hlen : line.layout.len = line.text.length) (hle : byteIndex ≤ stop)
    (hlength : stop ≤ line.text.length) (hstop : isCharBoundary line.text stop = true)
    {left right : List (DecorationRun H N S)}
    (hsplit : splitDecorations (asU32 (stop - byteIndex)) 0 rest.decorationRuns = some (left, right)) :
    ∃ rest', rest.splitAt P (stop - byteIndex)
        = some (⟨pieceLayout line.layout byteIndex stop xOffset, (line.text.take stop).drop byteIndex, left⟩, rest') ∧
      Remainder line stop (line.layout.xForIndex stop) rest' ∧ rest'.decorationRuns = right := by
  have hrestlen : rest.layout.len = line.layout.len - byteIndex := by rw [h.layout]
  obtain ⟨htext, htext'⟩ := split_text hle hlength hstop
  refine ⟨⟨rest.layout.rightHalf (stop - byteIndex), line.text.drop stop, right⟩, ?_, ?_, rfl⟩
  · rw [ShapedLine.splitAt, LineLayout.splitAt_spec P (h.byteOrdered hordered) (by omega), hsplit, h.text]
    simp only [Option.bind_eq_bind, Option.bind_some, htext, htext', h.leftHalf hordered hle]
  · refine ⟨?_, h.rightHalf_runs hordered hle, rfl⟩
    have hwidth : line.layout.width - xOffset - (line.layout.xForIndex stop - xOffset)
        = line.layout.width - line.layout.xForIndex stop := sub_sub_sub_cancel_right _ _ _
    have hrest : line.layout.len - byteIndex - (stop - byteIndex) = line.layout.len - stop := by omega
    show rest.layout.rightHalf (stop - byteIndex) = { line.layout with
      width := line.layout.width - line.layout.xForIndex stop
      runs := (rest.layout.rightHalf (stop - byteIndex)).runs
      len := line.layout.len - stop }
    rw [← hwidth, ← hrest, LineLayout.rightHalf, h.xForIndex hordered hle, h.layout]

end FcGpui
