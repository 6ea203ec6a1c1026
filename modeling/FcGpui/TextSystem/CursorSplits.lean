import FcGpui.TextSystem.CursorDecorations
import FcGpui.TextSystem.LineRemainder

/-!
# The line cursor and repeated splitting

A cursor over a line with its glyphs in byte order, and what is left of the line after as many
splits, stand at one boundary of the text (`Follows`).  A boundary that is not behind the cursor
as a `u32` gives the same piece on both sides (`Follows.step`); one that is behind it gives
different decorations, if there are any left (`Follows.step_back`).  So the cursor gives the left
halves of repeated splits just if the glyphs are not in byte order, in which case it splits
itself, or the split overflows, or the boundaries rise as `u32` up to the last decoration
(`cursorFollows_iff`).
-/

namespace FcGpui

variable {U I H N S : Type} [AddCommGroup U] {line rest : ShapedLine U I H N S} {byteIndex stop : Nat}
  {c c' : ShapedLineCursor U I H N S} {P : PartitionPoint (ShapedGlyph U)}

/-! ### Boundaries -/

/-- From one boundary on, boundaries of a text in their order. -/
def Boundaries (text : List UInt8) : Nat → List Nat → Prop
  | _, [] => True
  | byteIndex, stop :: boundaries => byteIndex ≤ stop ∧ stop ≤ text.length ∧ isCharBoundary text stop = true ∧
    Boundaries text stop boundaries

/-- Boundaries do not fall as `u32`, up to one that is behind the length. -/
def Rises (length : Nat) : Nat → List Nat → Prop
  | _, [] => True
  | position, stop :: boundaries =>
    length ≤ position ∨ (position ≤ asU32 stop ∧ Rises length (asU32 stop) boundaries)

theorem rises_of_le {length position : Nat} (h : length ≤ position) (boundaries : List Nat) :
    Rises length position boundaries := by
  cases boundaries with
  | nil => trivial
  | cons stop boundaries => exact Or.inl h

theorem asU32_sub (hle : byteIndex ≤ stop) :
    asU32 (stop - byteIndex) = if asU32 byteIndex ≤ asU32 stop then asU32 stop - asU32 byteIndex
      else asU32 stop + 2 ^ 32 - asU32 byteIndex := by
  unfold asU32
  split <;> omega

/-! ### The cursor and what is left -/

/-- Where the cursor stands in a line whose glyphs are in byte order. -/
structure Follows (line : ShapedLine U I H N S) (byteIndex : Nat) (c : ShapedLineCursor U I H N S)
    (rest : ShapedLine U I H N S) : Prop where
  line_eq : c.line = line
  ordered : c.unorderedRemainder = none
  byteIndex_eq : c.byteIndex = byteIndex
  remainder : Remainder line byteIndex c.xOffset rest
  boundary : isCharBoundary line.text byteIndex = true
  runs : keepGlyphs (fun _ => true) (restFrom c.glyphIndex (line.layout.runs.drop c.runIndex)) =
    keepGlyphs (fun index => decide (byteIndex ≤ index)) line.layout.runs
  decorations : rest.decorationRuns =
    resumed (asU32 byteIndex) c.decorationOffset (line.decorationRuns.drop c.decorationIndex)
  total : c.decorationOffset + decorationLength (line.decorationRuns.drop c.decorationIndex) =
    decorationLength line.decorationRuns
  here : ∀ decoration more, line.decorationRuns.drop c.decorationIndex = decoration :: more →
    c.decorationOffset ≤ asU32 byteIndex ∧ (asU32 byteIndex < c.decorationOffset + decoration.len ∨
      (asU32 byteIndex = 0 ∧ c.decorationOffset = 0 ∧ decoration.len = 0))

theorem Follows.takeRuns (h : Follows line byteIndex c rest) (hordered : ByteOrdered line.layout.runs)
    (hle : byteIndex ≤ stop) : ∃ runIndex glyphIndex,
      ShapedLineCursor.takeRuns stop byteIndex c.xOffset line.layout.width (line.layout.runs.drop c.runIndex)
          c.runIndex c.glyphIndex
        = some ((pieceLayout line.layout byteIndex stop c.xOffset).runs, runIndex, glyphIndex,
          line.layout.xForIndex stop) ∧
      keepGlyphs (fun _ => true) (restFrom glyphIndex (line.layout.runs.drop runIndex))
        = keepGlyphs (fun index => decide (stop ≤ index)) line.layout.runs := by
  generalize hfrom : restFrom c.glyphIndex (line.layout.runs.drop c.runIndex) = left at *
  have hruns := h.runs
  rw [hfrom] at hruns
  have hglyphs : fontGlyphs left = (fontGlyphs line.layout.runs).filter fun g => decide (byteIndex ≤ g.2.index) := by
    rw [← fontGlyphs_trim, hruns, fontGlyphs_keepGlyphs]
  have hkeep : ∀ q, keepGlyphs q left
      = keepGlyphs (fun index => decide (byteIndex ≤ index) && q index) line.layout.runs := by
    intro q
    have htrim := keepGlyphs_keepGlyphs (fun _ => true) q left
    simp only [Bool.true_and] at htrim
    rw [← htrim, hruns, keepGlyphs_keepGlyphs]
  obtain ⟨moved, glyphIndex, htake, hrest⟩ := ShapedLineCursor.takeRuns_spec stop byteIndex c.xOffset
    line.layout.width (line.layout.runs.drop c.runIndex) c.runIndex c.glyphIndex
    (by rw [hfrom, ByteOrdered, hglyphs]; exact List.Pairwise.sublist List.filter_sublist hordered)
    (by rw [hfrom, hglyphs]; exact fun g hg => of_decide_eq_true (List.mem_filter.mp hg).2)
  rw [hfrom, hkeep, hglyphs, find?_past hordered hle, ← LineLayout.xForIndex_eq] at htake
  refine ⟨c.runIndex + moved, glyphIndex, htake, ?_⟩
  rw [← List.drop_drop, hrest, hfrom, hkeep]
  refine keepGlyphs_congr fun g _ => ?_
  rw [Bool.eq_iff_iff, Bool.and_eq_true, decide_eq_true_iff, decide_eq_true_iff]
  omega

theorem Follows.takeUntil (h : Follows line byteIndex c rest) (P : PartitionPoint (ShapedGlyph U))
    (hordered : ByteOrdered line.layout.runs) (hlen : line.layout.len = line.text.length) (hle : byteIndex ≤ stop)
    (hlength : stop ≤ line.text.length) (hstop : isCharBoundary line.text stop = true)
    {taken : List (DecorationRun H N S)} {decorationIndex decorationOffset : Nat}
    (htake : ShapedLineCursor.takeDecorations (asU32 stop) (asU32 byteIndex)
        (line.decorationRuns.drop c.decorationIndex) c.decorationIndex c.decorationOffset
      = some (taken, decorationIndex, decorationOffset)) :
    ∃ runIndex glyphIndex, c.takeUntil P stop
        = some (⟨pieceLayout line.layout byteIndex stop c.xOffset, (line.text.take stop).drop byteIndex, taken⟩,
          ⟨line, none, stop, runIndex, glyphIndex, decorationIndex, decorationOffset, line.layout.xForIndex stop⟩) ∧
      keepGlyphs (fun _ => true) (restFrom glyphIndex (line.layout.runs.drop runIndex))
        = keepGlyphs (fun index => decide (stop ≤ index)) line.layout.runs := by
  obtain ⟨runIndex, glyphIndex, hruns, hrest⟩ := h.takeRuns hordered hle
  have hnone := h.ordered
  obtain rfl := h.line_eq
  obtain rfl := h.byteIndex_eq
  refine ⟨runIndex, glyphIndex, ?_, hrest⟩
  rw [ShapedLineCursor.takeUntil, if_pos ⟨hle, hlength.trans_eq hlen.symm, hstop⟩, hnone]
  simp only [Option.bind_eq_bind, hruns, Option.bind_some, htake, textSlice_eq hle h.boundary hstop]
  rfl

/-- **A boundary that is not behind the cursor** gives one piece on both sides. -/
theorem Follows.step (h : Follows line byteIndex c rest) (P : PartitionPoint (ShapedGlyph U))
    (hordered : ByteOrdered line.layout.runs) (hlen : line.layout.len = line.text.length)
    (hdecorations : decorationLength line.decorationRuns < 2 ^ 32) (hle : byteIndex ≤ stop)
    (hlength : stop ≤ line.text.length) (hstop : isCharBoundary line.text stop = true)
    (hrises : line.decorationRuns.drop c.decorationIndex = [] ∨ asU32 byteIndex ≤ asU32 stop) :
    ∃ piece c' rest', c.takeUntil P stop = some (piece, c') ∧
      rest.splitAt P (stop - byteIndex) = some (piece, rest') ∧ Follows line stop c' rest' ∧
      c'.xOffset = line.layout.xForIndex stop ∧
      (line.decorationRuns.drop c.decorationIndex = [] → line.decorationRuns.drop c'.decorationIndex = []) ∧
      (line.decorationRuns.drop c'.decorationIndex = [] → line.decorationRuns.drop c.decorationIndex = [] ∨
        decorationLength line.decorationRuns ≤ asU32 stop) := by
  by_cases hnone : line.decorationRuns.drop c.decorationIndex = []
  · -- there are no decorations left
    have hsplit : splitDecorations (asU32 (stop - byteIndex)) 0 rest.decorationRuns = some ([], []) := by
      rw [h.decorations, hnone]
      rfl
    have htaken : ShapedLineCursor.takeDecorations (asU32 stop) (asU32 byteIndex)
        (line.decorationRuns.drop c.decorationIndex) c.decorationIndex c.decorationOffset
        = some ([], c.decorationIndex, c.decorationOffset) := by
      rw [hnone]
      rfl
    obtain ⟨runIndex, glyphIndex, htake, hrest⟩ := h.takeUntil P hordered hlen hle hlength hstop htaken
    obtain ⟨rest', hsplitAt, hremainder, hright⟩ := h.remainder.splitAt P hordered hlen hle hlength hstop hsplit
    refine ⟨_, _, rest', htake, hsplitAt, ?_, rfl, id, fun _ => Or.inl hnone⟩
    refine ⟨rfl, rfl, rfl, hremainder, hstop, hrest, ?_, h.total, ?_⟩
    · rw [hright, hnone]
      rfl
    · intro decoration more hdrop
      rw [hnone] at hdrop
      cases hdrop
  · have hrises := hrises.resolve_left hnone
    obtain ⟨decoration, more, hdrop⟩ := List.exists_cons_of_ne_nil hnone
    obtain ⟨hoffset, hhere⟩ := h.here decoration more hdrop
    obtain ⟨left, taken, offset', hsplit, htake, htotal, hoffset', hnext⟩ := takeDecorations_split hrises
      (line.decorationRuns.drop c.decorationIndex) c.decorationIndex c.decorationOffset
      (by rw [h.total]; exact hdecorations) (hoffset.trans hrises) (by
        intro decoration' more' hdrop'
        rw [hdrop] at hdrop'
        obtain ⟨rfl, -⟩ := List.cons.inj hdrop'
        omega)
    rw [← h.decorations, Nat.sub_eq_zero_of_le hoffset] at hsplit
    have hpoint : asU32 (stop - byteIndex) = asU32 stop - asU32 byteIndex := by rw [asU32_sub hle, if_pos hrises]
    rw [← hpoint] at hsplit
    rw [List.drop_drop] at hsplit htotal hnext
    obtain ⟨runIndex, glyphIndex, htake, hrest⟩ := h.takeUntil P hordered hlen hle hlength hstop htake
    obtain ⟨rest', hsplitAt, hremainder, hright⟩ := h.remainder.splitAt P hordered hlen hle hlength hstop hsplit
    refine ⟨_, _, rest', htake, hsplitAt, ?_, rfl, fun hnil => absurd hnil hnone, fun hnil => Or.inr ?_⟩
    · refine ⟨rfl, rfl, rfl, hremainder, hstop, hrest, hright, htotal.trans h.total, ?_⟩
      exact fun decoration more hdrop => ⟨hoffset', Or.inl (hnext decoration more hdrop)⟩
    · rw [hnil, h.total] at htotal
      exact htotal.symm.trans_le hoffset'

/-- **A boundary that is behind the cursor** gives different pieces, if there are decorations left. -/
theorem Follows.step_back (h : Follows line byteIndex c rest) (P : PartitionPoint (ShapedGlyph U))
    (hordered : ByteOrdered line.layout.runs) (hlen : line.layout.len = line.text.length)
    (hdecorations : decorationLength line.decorationRuns < 2 ^ 32) (hle : byteIndex ≤ stop)
    (hlength : stop ≤ line.text.length) (hstop : isCharBoundary line.text stop = true)
    (hleft : line.decorationRuns.drop c.decorationIndex ≠ []) (hback : asU32 stop < asU32 byteIndex) :
    ∃ piece rest' xOffset, rest.splitAt P (stop - byteIndex) = some (piece, rest') ∧
      Remainder line stop xOffset rest' ∧ rest'.decorationRuns = [] ∧
      asU32 byteIndex < decorationLength line.decorationRuns ∧
      ∀ piece' c', c.takeUntil P stop = some (piece', c') → piece' ≠ piece := by
  obtain ⟨decoration, more, hdrop⟩ := List.exists_cons_of_ne_nil hleft
  obtain ⟨hoffset, hhere⟩ := h.here decoration more hdrop
  have htotal := h.total
  rw [hdrop, decorationLength_cons] at htotal
  have hhere : asU32 byteIndex < c.decorationOffset + decoration.len := by omega
  -- the split takes everything
  have hrest := h.decorations
  rw [hdrop, resumed, max_eq_right hoffset] at hrest
  have hsplit : splitDecorations (asU32 (stop - byteIndex)) 0 rest.decorationRuns
      = some (rest.decorationRuns, []) := by
    have hrestLength : decorationLength rest.decorationRuns
        = decorationLength line.decorationRuns - asU32 byteIndex := by
      rw [hrest, decorationLength_cons]
      dsimp only
      omega
    refine splitDecorations_before ?_ (by omega)
    rw [asU32_sub hle, if_neg (not_le.mpr hback)]
    omega
  obtain ⟨rest', hsplitAt, hremainder, hright⟩ := h.remainder.splitAt P hordered hlen hle hlength hstop hsplit
  refine ⟨_, rest', _, hsplitAt, hremainder, hright, by omega, ?_⟩
  intro piece' c' htake hpiece
  rw [ShapedLineCursor.takeUntil] at htake
  split at htake
  · rw [h.ordered] at htake
    simp only [Option.bind_eq_bind, Option.bind_eq_some_iff] at htake
    obtain ⟨r, -, d, hd, text, -, htake⟩ := htake
    rw [h.line_eq, h.byteIndex_eq, hdrop] at hd
    have hnone := takeDecorations_back hback hoffset hhere (by omega) c.decorationIndex hd
    obtain ⟨rfl, -⟩ := Prod.mk.inj (Option.some.inj htake)
    have hsame : d.1 = rest.decorationRuns := congrArg ShapedLine.decorationRuns hpiece
    rw [hnone, hrest] at hsame
    cases hsame
  · cases htake

/-! ### Whole sequences of boundaries -/

/-- Where repeated splits of what is left return, the cursor gives their left halves, and stands at the
position of the last boundary in the line. -/
def Agrees (P : PartitionPoint (ShapedGlyph U)) (line : ShapedLine U I H N S) (c : ShapedLineCursor U I H N S)
    (byteIndex : Nat) (rest : ShapedLine U I H N S) (boundaries : List Nat) : Prop :=
  ∀ pieces rest', rest.splitAll P byteIndex boundaries = some (pieces, rest') →
    ∃ c', c.takeAll P boundaries = some (pieces, c') ∧
      ∀ stop, boundaries.getLast? = some stop → c'.xOffset = line.layout.xForIndex stop

/-- **The cursor of a line gives the left halves of repeated splits.** -/
def CursorFollows (P : PartitionPoint (ShapedGlyph U)) (line : ShapedLine U I H N S) (boundaries : List Nat) : Prop :=
  ∃ c, line.cursor = some c ∧ Agrees P line c 0 line boundaries

theorem agrees_nil (P : PartitionPoint (ShapedGlyph U)) (line : ShapedLine U I H N S)
    (c : ShapedLineCursor U I H N S) (byteIndex : Nat) (rest : ShapedLine U I H N S) :
    Agrees P line c byteIndex rest [] := by
  intro pieces rest' hsplit
  obtain ⟨rfl, -⟩ := Prod.mk.inj (Option.some.inj hsplit)
  exact ⟨c, rfl, fun stop hstop => by cases hstop⟩

theorem splitAll_cons {piece rest' : ShapedLine U I H N S} (h : rest.splitAt P (stop - byteIndex) = some (piece, rest'))
    (boundaries : List Nat) : rest.splitAll P byteIndex (stop :: boundaries) =
      (rest'.splitAll P stop boundaries).map fun r => (piece :: r.1, r.2) := by
  rw [ShapedLine.splitAll, h]
  simp only [Option.bind_eq_bind, Option.bind_some]
  cases rest'.splitAll P stop boundaries with
  | none => rfl
  | some r => rfl

theorem takeAll_cons {piece : ShapedLine U I H N S} (h : c.takeUntil P stop = some (piece, c')) (boundaries : List Nat) :
    c.takeAll P (stop :: boundaries) = (c'.takeAll P boundaries).map fun r => (piece :: r.1, r.2) := by
  rw [ShapedLineCursor.takeAll, h]
  simp only [Option.bind_eq_bind, Option.bind_some]
  cases c'.takeAll P boundaries with
  | none => rfl
  | some r => rfl

theorem agrees_cons {piece rest' : ShapedLine U I H N S} (htake : c.takeUntil P stop = some (piece, c'))
    (hsplit : rest.splitAt P (stop - byteIndex) = some (piece, rest'))
    (hx : c'.xOffset = line.layout.xForIndex stop) (boundaries : List Nat) :
    Agrees P line c byteIndex rest (stop :: boundaries) ↔ Agrees P line c' stop rest' boundaries := by
  unfold Agrees
  rw [splitAll_cons hsplit, takeAll_cons htake, List.getLast?_cons]
  constructor
  · intro h pieces rest'' hall
    obtain ⟨c'', htakeAll, hlast⟩ := h (piece :: pieces) rest'' (by rw [hall]; rfl)
    obtain ⟨⟨pieces', c₁⟩, hmore, heq⟩ := Option.map_eq_some_iff.mp htakeAll
    obtain ⟨hpieces, rfl⟩ := Prod.mk.inj heq
    obtain rfl : pieces' = pieces := (List.cons.inj hpieces).2
    exact ⟨_, hmore, fun last hlast' => hlast last (by rw [hlast']; rfl)⟩
  · intro h pieces rest'' hall
    obtain ⟨⟨pieces', rest₁⟩, hmore, heq⟩ := Option.map_eq_some_iff.mp hall
    obtain ⟨rfl, rfl⟩ := Prod.mk.inj heq
    obtain ⟨c'', htakeAll, hlast⟩ := h pieces' rest₁ hmore
    refine ⟨c'', by rw [htakeAll]; rfl, fun last hlast' => ?_⟩
    obtain rfl := Option.some.inj hlast'
    cases hboundaries : boundaries.getLast? with
    | none =>
      rw [List.getLast?_eq_none_iff] at hboundaries
      subst hboundaries
      obtain ⟨-, rfl⟩ := Prod.mk.inj (Option.some.inj htakeAll)
      exact hx
    | some last => exact hlast last hboundaries

/-- A cursor over a line with glyphs out of byte order splits what is left of it. -/
theorem agrees_unordered (P : PartitionPoint (ShapedGlyph U)) (hlen : line.layout.len = line.text.length) :
    ∀ (boundaries : List Nat) (c : ShapedLineCursor U I H N S) (byteIndex : Nat) (rest : ShapedLine U I H N S),
      c.line = line → c.unorderedRemainder = some rest → c.byteIndex = byteIndex →
      Boundaries line.text byteIndex boundaries → Agrees P line c byteIndex rest boundaries := by
  intro boundaries
  induction boundaries with
  | nil => exact fun c byteIndex rest _ _ _ _ => agrees_nil P line c byteIndex rest
  | cons stop boundaries ih =>
    intro c byteIndex rest hline hrest hbyteIndex hboundaries
    obtain ⟨hle, hlength, hstop, hboundaries⟩ := hboundaries
    cases hsplit : rest.splitAt P (stop - byteIndex) with
    | none =>
      intro pieces rest' hall
      rw [ShapedLine.splitAll, hsplit] at hall
      cases hall
    | some r =>
      obtain ⟨piece, rest'⟩ := r
      subst hline hbyteIndex
      have htake : c.takeUntil P stop = some (piece, { c with
          unorderedRemainder := some rest'
          byteIndex := stop
          xOffset := c.line.layout.xForIndex stop }) := by
        rw [ShapedLineCursor.takeUntil, if_pos ⟨hle, hlength.trans_eq hlen.symm, hstop⟩, hrest]
        simp only [Option.bind_eq_bind, hsplit, Option.bind_some]
      refine (agrees_cons htake hsplit rfl boundaries).mpr ?_
      exact ih _ stop rest' rfl rfl rfl hboundaries

section Ordered

variable (P) (hordered : ByteOrdered line.layout.runs) (hlen : line.layout.len = line.text.length)
include hordered hlen

theorem splitAll_isSome : ∀ (boundaries : List Nat) {byteIndex : Nat} {xOffset : U} {rest : ShapedLine U I H N S},
    Remainder line byteIndex xOffset rest → rest.decorationRuns = [] → Boundaries line.text byteIndex boundaries →
    (rest.splitAll P byteIndex boundaries).isSome := by
  intro boundaries
  induction boundaries with
  | nil => exact fun _ _ _ => rfl
  | cons stop boundaries ih =>
    intro byteIndex xOffset rest hremainder hnone hboundaries
    obtain ⟨hle, hlength, hstop, hboundaries⟩ := hboundaries
    have hsplit : splitDecorations (asU32 (stop - byteIndex)) 0 rest.decorationRuns = some ([], []) := by
      rw [hnone]
      rfl
    obtain ⟨rest', hsplitAt, hremainder', hnone'⟩ := hremainder.splitAt P hordered hlen hle hlength hstop hsplit
    rw [splitAll_cons hsplitAt, Option.isSome_map]
    exact ih hremainder' hnone' hboundaries

variable (hdecorations : decorationLength line.decorationRuns < 2 ^ 32)
include hdecorations

theorem Follows.agrees : ∀ (boundaries : List Nat) {byteIndex : Nat} {c : ShapedLineCursor U I H N S}
    {rest : ShapedLine U I H N S}, Follows line byteIndex c rest →
    line.decorationRuns.drop c.decorationIndex = [] → Boundaries line.text byteIndex boundaries →
    Agrees P line c byteIndex rest boundaries := by
  intro boundaries
  induction boundaries with
  | nil => exact fun _ _ _ => agrees_nil P line _ _ _
  | cons stop boundaries ih =>
    intro byteIndex c rest hfollows hnone hboundaries
    obtain ⟨hle, hlength, hstop, hboundaries⟩ := hboundaries
    obtain ⟨piece, c', rest', htake, hsplit, hfollows', hx, hnone', -⟩ :=
      hfollows.step P hordered hlen hdecorations hle hlength hstop (Or.inl hnone)
    exact (agrees_cons htake hsplit hx boundaries).mpr (ih hfollows' (hnone' hnone) hboundaries)

theorem Follows.agrees_iff : ∀ (boundaries : List Nat) {byteIndex : Nat} {c : ShapedLineCursor U I H N S}
    {rest : ShapedLine U I H N S}, Follows line byteIndex c rest →
    (line.decorationRuns.drop c.decorationIndex = [] →
      decorationLength line.decorationRuns ≤ asU32 byteIndex) → Boundaries line.text byteIndex boundaries →
    (Agrees P line c byteIndex rest boundaries ↔
      Rises (decorationLength line.decorationRuns) (asU32 byteIndex) boundaries) := by
  intro boundaries
  induction boundaries with
  | nil => exact fun _ _ _ => iff_of_true (agrees_nil P line _ _ _) trivial
  | cons stop boundaries ih =>
    intro byteIndex c rest hfollows hpast hboundaries
    by_cases hnone : line.decorationRuns.drop c.decorationIndex = []
    · exact iff_of_true (hfollows.agrees P hordered hlen hdecorations _ hnone hboundaries) (Or.inl (hpast hnone))
    · obtain ⟨hle, hlength, hstop, hboundaries⟩ := hboundaries
      by_cases hrises : asU32 byteIndex ≤ asU32 stop
      · obtain ⟨piece, c', rest', htake, hsplit, hfollows', hx, -, hpast'⟩ :=
          hfollows.step P hordered hlen hdecorations hle hlength hstop (Or.inr hrises)
        rw [agrees_cons htake hsplit hx, ih hfollows' (fun h => (hpast' h).resolve_left hnone) hboundaries, Rises]
        refine ⟨fun h => Or.inr ⟨hrises, h⟩, fun h => ?_⟩
        rcases h with hle | ⟨-, h⟩
        · exact rises_of_le (hle.trans hrises) boundaries
        · exact h
      · obtain ⟨piece, rest', xOffset, hsplit, hremainder, hnone', hlt, hne⟩ :=
          hfollows.step_back P hordered hlen hdecorations hle hlength hstop hnone (not_le.mp hrises)
        refine iff_of_false (fun hagrees => ?_) ?_
        · obtain ⟨⟨pieces, rest''⟩, hall⟩ :=
            Option.isSome_iff_exists.mp (splitAll_isSome P hordered hlen boundaries hremainder hnone' hboundaries)
          obtain ⟨c'', htakeAll, -⟩ := hagrees (piece :: pieces) rest'' (by rw [splitAll_cons hsplit, hall]; rfl)
          rw [ShapedLineCursor.takeAll] at htakeAll
          obtain ⟨⟨piece', c'⟩, htake, htakeAll⟩ := Option.bind_eq_some_iff.mp htakeAll
          obtain ⟨⟨pieces', c₁⟩, -, heq⟩ := Option.bind_eq_some_iff.mp htakeAll
          exact hne piece' c' htake (List.cons.inj (Prod.mk.inj (Option.some.inj heq)).1).1
        · rintro (hle | ⟨hle, -⟩)
          · exact absurd hlt (not_lt.mpr hle)
          · exact hrises hle

end Ordered

theorem follows_start (line : ShapedLine U I H N S) : Follows line 0 ⟨line, none, 0, 0, 0, 0, 0, 0⟩ line where
  line_eq := rfl
  ordered := rfl
  byteIndex_eq := rfl
  remainder := by
    have hrebase : ∀ run : ShapedRun U I, run.rebase 0 0 = run := by
      intro run
      have hglyph : ∀ glyph : ShapedGlyph U, glyph.rebase 0 0 = glyph := by
        intro glyph
        simp only [ShapedGlyph.rebase, sub_zero, Nat.sub_zero]
      rw [ShapedRun.rebase, List.map_congr_left fun glyph _ => hglyph glyph, List.map_id']
    refine ⟨?_, ?_, rfl⟩
    · simp only [sub_zero, Nat.sub_zero]
    · rw [List.map_congr_left fun run _ => hrebase run, List.map_id']
      exact keepGlyphs_congr fun g _ => (decide_eq_true (Nat.zero_le _)).symm
  boundary := rfl
  runs := by
    show keepGlyphs (fun _ => true) (restFrom 0 line.layout.runs) = _
    rw [restFrom_zero]
    exact keepGlyphs_congr fun g _ => (decide_eq_true (Nat.zero_le _)).symm
  decorations := (resumed_of_le le_rfl line.decorationRuns).symm
  total := Nat.zero_add _
  here decoration more _ := ⟨le_rfl, by
    show 0 < 0 + decoration.len ∨ (0 = 0 ∧ 0 = 0 ∧ decoration.len = 0)
    omega⟩

/-- A line whose decorations are too long is not split at all. -/
theorem agrees_overflow (P : PartitionPoint (ShapedGlyph U)) (hdecorations : 2 ^ 32 ≤ decorationLength line.decorationRuns)
    (c : ShapedLineCursor U I H N S) (boundaries : List Nat) : Agrees P line c 0 line boundaries := by
  cases boundaries with
  | nil => exact agrees_nil P line c 0 line
  | cons stop boundaries =>
    intro pieces rest hall
    rw [ShapedLine.splitAll] at hall
    obtain ⟨r, hsplit, -⟩ := Option.bind_eq_some_iff.mp hall
    rw [ShapedLine.splitAt] at hsplit
    obtain ⟨layouts, -, hsplit⟩ := Option.bind_eq_some_iff.mp hsplit
    obtain ⟨decorations, hsplit, -⟩ := Option.bind_eq_some_iff.mp hsplit
    rw [splitDecorations_overflow (by omega) (by decide)] at hsplit
    cases hsplit

/-- **The incremental line cursor equals repeated splitting** just if the glyphs are not in byte order, or
the split overflows, or no boundary falls as `u32` in front of the end of the decorations. -/
theorem cursorFollows_iff (P : PartitionPoint (ShapedGlyph U)) {line : ShapedLine U I H N S}
    (hlen : line.layout.len = line.text.length) {boundaries : List Nat}
    (hboundaries : Boundaries line.text 0 boundaries) :
    CursorFollows P line boundaries ↔ ¬ ByteOrdered line.layout.runs ∨
      2 ^ 32 ≤ decorationLength line.decorationRuns ∨
      Rises (decorationLength line.decorationRuns) 0 boundaries := by
  have hcursor : line.cursor = some ⟨line, if ByteOrdered line.layout.runs then none else some line,
      0, 0, 0, 0, 0, 0⟩ := if_neg fun hne => hne hlen
  have hagrees : CursorFollows P line boundaries ↔ Agrees P line
      ⟨line, if ByteOrdered line.layout.runs then none else some line, 0, 0, 0, 0, 0, 0⟩ 0 line boundaries := by
    rw [CursorFollows, hcursor]
    exact ⟨fun ⟨c, hc, h⟩ => Option.some.inj hc ▸ h, fun h => ⟨_, rfl, h⟩⟩
  rw [hagrees]
  by_cases hordered : ByteOrdered line.layout.runs
  · rw [if_pos hordered]
    by_cases hdecorations : decorationLength line.decorationRuns < 2 ^ 32
    · rw [(follows_start line).agrees_iff P hordered hlen hdecorations boundaries ?_ hboundaries]
      · exact ⟨fun h => Or.inr (Or.inr h), fun h =>
          (h.resolve_left (not_not.mpr hordered)).resolve_left (not_le.mpr hdecorations)⟩
      · intro hnone
        have hnone : line.decorationRuns = [] := hnone
        rw [hnone]
        exact Nat.zero_le _
    · exact iff_of_true (agrees_overflow P (not_lt.mp hdecorations) _ boundaries) (Or.inr (Or.inl (not_lt.mp hdecorations)))
  · rw [if_neg hordered]
    exact iff_of_true (agrees_unordered P hlen boundaries _ 0 line rfl rfl rfl hboundaries) (Or.inl hordered)

/-- A text of `n` letters that is decorated at its beginning. -/
def letters (n : Nat) : ShapedLine ℤ Nat Unit Unit Unit :=
  ⟨⟨0, 0, 0, 0, [], n⟩, List.replicate n 97, [⟨⟨(), none, none, none⟩, 10⟩]⟩

theorem isCharBoundary_letters {n index : Nat} (h : index ≤ n) : isCharBoundary (List.replicate n 97) index = true := by
  rw [isCharBoundary]
  split
  · rfl
  · rcases h.lt_or_eq with hlt | rfl
    · rw [List.getElem?_replicate, if_pos hlt]
      rfl
    · rw [List.getElem?_eq_none (List.length_replicate.le)]
      exact decide_eq_true List.length_replicate.symm

theorem boundaries_letters {n index : Nat} (h : index ≤ n) : Boundaries (letters n).text 0 [index, n] := by
  have hlength : (letters n).text.length = n := List.length_replicate
  exact ⟨Nat.zero_le _, h.trans_eq hlength.symm, isCharBoundary_letters h, h, hlength.ge,
    isCharBoundary_letters le_rfl, trivial⟩

theorem cursorFollows_iff_letters : CursorFollows (PartitionPoint.linear (ShapedGlyph ℤ)) (letters 12) [5, 12] ↔
    ¬ ByteOrdered (letters 12).layout.runs ∨ 2 ^ 32 ≤ decorationLength (letters 12).decorationRuns ∨
      Rises (decorationLength (letters 12).decorationRuns) 0 [5, 12] :=
  cursorFollows_iff (PartitionPoint.linear (ShapedGlyph ℤ)) List.length_replicate.symm (boundaries_letters (by decide))

theorem length_letters (n : Nat) : (letters n).layout.len = (letters n).text.length := List.length_replicate.symm

/-- A second boundary that is in front of the first one as a `u32`, below the end of the decoration. -/
theorem letters_not_follows (P : PartitionPoint (ShapedGlyph ℤ)) {n : Nat} (hle : 5 ≤ n) (hback : asU32 n < 5) :
    ¬ CursorFollows P (letters n) [5, n] := by
  rintro ⟨c, hc, hagrees⟩
  have hordered : ByteOrdered (letters n).layout.runs := List.Pairwise.nil
  rw [ShapedLine.cursor, if_neg fun hne => hne (length_letters n), if_pos hordered] at hc
  obtain rfl := Option.some.inj hc
  have hlength : decorationLength (letters n).decorationRuns = 10 := rfl
  have hrises := ((follows_start (letters n)).agrees_iff P hordered (length_letters n) (by omega) [5, n]
    (fun hnil => by cases hnil) (boundaries_letters hle)).mp hagrees
  rw [hlength, Rises, Rises] at hrises
  have hfive : asU32 5 = 5 := rfl
  have hzero : asU32 0 = 0 := rfl
  omega

/-- The second boundary is `3` as a `u32`. -/
theorem not_cursorFollows : ¬ ∀ (P : PartitionPoint (ShapedGlyph ℤ)) (line : ShapedLine ℤ Nat Unit Unit Unit) boundaries,
    line.layout.len = line.text.length → Boundaries line.text 0 boundaries → CursorFollows P line boundaries := by
  intro h
  have hle : 5 ≤ 2 ^ 32 + 3 := by norm_num
  have hback : asU32 (2 ^ 32 + 3) < 5 := by norm_num [asU32]
  generalize 2 ^ 32 + 3 = n at hle hback
  exact letters_not_follows (PartitionPoint.linear (ShapedGlyph ℤ)) hle hback
    (h (PartitionPoint.linear (ShapedGlyph ℤ)) (letters n) [5, n] (length_letters n) (boundaries_letters hle))

end FcGpui
