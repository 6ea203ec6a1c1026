import FcGpui.TextSystem.CacheRuns
import FcGpui.TextSystem.RunCover

/-!
# The clamp of a shaped text

`WindowTextSystem::shape_text` clamps a text, not its lines: each line may have
as many rows as the lines before it left over, and the number left is passed to
`layout_wrapped_line`.  The key of a wrapped line leaves that number out, so a
layout found in a cache is as long as the call that made it allowed.

`clampHolds_iff` says what decides: the clamp holds for exactly the texts in
which every layout found has fewer boundaries than rows are left when its line
comes up.  It does not matter for a line that is laid out anew.
`not_clampHolds` is a text that repeats a line.

`bounded_iff` is the part that holds for layouts from anywhere.
-/

namespace FcGpui

section ClampedLines

variable {F H N S I L σ : Type} [DecidableEq H] [DecidableEq N] [DecidableEq S] [DecidableEq I]

/-! ### Lines and the rows left for them -/

/-- The font runs a line is laid out with. -/
def lineFontRuns (resolveFont : F → I) (s : ShapeState F H N S I L σ) (lineText : List UInt8) :
    List (FontRun I) :=
  (lineLoop resolveFont (s.lineStart + lineText.length) s.runs s.lineStart
    ⟨[], none, []⟩).1.fontRuns.reverse

/-- `max_wrap_lines - wrapped_lines`. -/
def linesLeft (maxWrapLines : Nat) (s : ShapeState F H N S I L σ) : Nat :=
  (maxWrapLines + usizeSize - s.wrappedLines) % usizeSize

/-- The boundaries of the layout a line is given. -/
def lineBoundaries (resolveFont : F → I) (layouter : Layouter I L σ) (maxWrapLines : Nat)
    (s : ShapeState F H N S I L σ) (lineText : List UInt8) : Nat :=
  layouter.wrapBoundaries (layouter.layoutWrappedLine s.cache lineText
    (lineFontRuns resolveFont s lineText) (linesLeft maxWrapLines s)).1

/-- Where `shape_text` starts. -/
def shapeStart (cache : σ) (runs : List (TextRun F H N S)) : ShapeState F H N S I L σ :=
  ⟨cache, runs.filter fun run => decide (0 < run.len), 0, 0, []⟩

/-- One line, as a step of a machine. -/
def shapeStep (resolveFont : F → I) (layouter : Layouter I L σ) (maxWrapLines : Nat)
    (s : ShapeState F H N S I L σ) (lineText : List UInt8) : Option (ShapeState F H N S I L σ) :=
  some (processLine resolveFont layouter maxWrapLines s lineText)

/-- The clamp `n` holds: the lines have at most `n - 1` boundaries between them,
and no more are counted than `n` where the rows left are computed. -/
structure ClampHolds (resolveFont : F → I) (layouter : Layouter I L σ) (n : Nat) (cache : σ)
    (text : List UInt8) (runs : List (TextRun F H N S)) : Prop where
  total : ((shapeText resolveFont layouter cache text runs (some n)).1.map
    fun line => layouter.wrapBoundaries line.layout).sum ≤ n - 1
  noUnderflow : RunMeets (shapeStep resolveFont layouter n) (fun s _ => s.wrappedLines ≤ n)
    (shapeStart cache runs) (text.splitOn newline)

/-! ### Layouts from anywhere -/

variable {resolveFont : F → I} {layouter : Layouter I L σ} {n : Nat}

theorem processLine_wrappedLines (s : ShapeState F H N S I L σ) (lineText : List UInt8) :
    (processLine resolveFont layouter n s lineText).wrappedLines
      = s.wrappedLines + lineBoundaries resolveFont layouter n s lineText := rfl

variable {s : ShapeState F H N S I L σ}

theorem processLine_counts
    (h : (s.lines.map fun line => layouter.wrapBoundaries line.layout).sum = s.wrappedLines)
    (lineText : List UInt8) :
    ((processLine resolveFont layouter n s lineText).lines.map
        fun line => layouter.wrapBoundaries line.layout).sum
      = (processLine resolveFont layouter n s lineText).wrappedLines := by
  rw [processLine_wrappedLines, ← h, processLine, List.map_append, List.sum_append]
  rfl

theorem processLines_count (lines : List (List UInt8))
    (h : (s.lines.map fun line => layouter.wrapBoundaries line.layout).sum = s.wrappedLines) :
    ((lines.foldl (processLine resolveFont layouter n) s).lines.map
        fun line => layouter.wrapBoundaries line.layout).sum
      = (lines.foldl (processLine resolveFont layouter n) s).wrappedLines := by
  induction lines generalizing s with
  | nil => exact h
  | cons lineText lines ih => exact ih (processLine_counts h lineText)

theorem run_shapeStep (lines : List (List UInt8)) (s : ShapeState F H N S I L σ) :
    run (shapeStep resolveFont layouter n) s lines
      = some (lines.foldl (processLine resolveFont layouter n) s) := run_total _ lines s

/-- The count never falls, so what is bounded in the end was bounded throughout. -/
theorem throughout_bounded (lines : List (List UInt8)) :
    Throughout (shapeStep resolveFont layouter n) (fun s => s.wrappedLines < n) s lines ↔
      (lines.foldl (processLine resolveFont layouter n) s).wrappedLines < n := by
  constructor
  · exact fun hall => hall.last lines (run_shapeStep lines s)
  · intro hlast
    refine throughout_of_last (fun s lineText s' hstep hgood => ?_) lines (run_shapeStep lines s) hlast
    obtain rfl := Option.some.inj hstep
    rw [processLine_wrappedLines] at hgood
    omega

/-- **Fewer boundaries than the clamp** are counted in the end exactly if at every line those of
its layout leave a row over, which a layout has to do while fewer are counted. -/
theorem bounded_iff {cond : ShapeState F H N S I L σ → List UInt8 → Prop}
    (hcond : ∀ s lineText, s.wrappedLines < n →
    (s.wrappedLines + lineBoundaries resolveFont layouter n s lineText < n ↔ cond s lineText))
    (lines : List (List UInt8)) (hs : s.wrappedLines < n) :
    (lines.foldl (processLine resolveFont layouter n) s).wrappedLines < n ↔
      RunMeets (shapeStep resolveFont layouter n) cond s lines := by
  rw [← throughout_bounded]
  refine throughout_iff (fun _ _ _ _ _ => True.intro) (fun s lineText s' _ hgood hstep => ?_) lines
    True.intro hs (run_shapeStep lines s)
  obtain rfl := Option.some.inj hstep
  rw [processLine_wrappedLines]
  exact hcond s lineText hgood

theorem clampHolds_iff_leavesRow {cond : ShapeState F H N S I L σ → List UInt8 → Prop} (hn : 1 ≤ n)
    (hcond : ∀ s lineText, s.wrappedLines < n →
      (s.wrappedLines + lineBoundaries resolveFont layouter n s lineText < n ↔ cond s lineText))
    (cache : σ) (text : List UInt8) (runs : List (TextRun F H N S)) :
    ClampHolds resolveFont layouter n cache text runs ↔
      RunMeets (shapeStep resolveFont layouter n) cond (shapeStart cache runs)
        (text.splitOn newline) := by
  have hstart : (shapeStart cache runs : ShapeState F H N S I L σ).wrappedLines < n := hn
  have htotal : ((shapeText resolveFont layouter cache text runs (some n)).1.map
      fun line => layouter.wrapBoundaries line.layout).sum
        = ((text.splitOn newline).foldl (processLine resolveFont layouter n)
            (shapeStart cache runs)).wrappedLines := by
    rw [shapeText_eq]
    exact processLines_count _ rfl
  rw [← bounded_iff hcond _ hstart]
  constructor
  · intro h
    have := h.total
    omega
  · intro h
    refine ⟨by omega, ?_⟩
    refine Throughout.meets ?_ _ ((throughout_bounded _).mpr h)
    exact fun s _ hs => Nat.le_of_lt hs

/-! ### Layouts from the caches -/

/-- The characters of a line. -/
def lineChars (text : List UInt8) : List Char :=
  (ByteArray.utf8Decode? ⟨text.toArray⟩).elim [] Array.toList

variable {U : Type} [Field U] [LinearOrder U] (platform : Platform U I) (fontGeneration : Nat)
  (fontSize : U) (wrapWidth : Option U)

/-- The layouts of one window.  After a panic there are no caches left to ask. -/
def cachedLayouter : Layouter I (Option (ShapedWrapped U I)) (Option (Caches U I)) where
  layoutWrappedLine caches text fontRuns maxLines :=
    match caches.bind (layoutWrappedLine platform fontGeneration
        (wrappedKey (lineChars text) fontSize fontRuns wrapWidth) (some maxLines)) with
    | some (line, caches) => (some line, some caches)
    | none => (none, none)
  wrapBoundaries line := line.elim 0 fun line => line.layout.wrapBoundaries.length

/-- What the caches hold for a line when it comes up. -/
def foundLayout (resolveFont : F → I)
    (s : ShapeState F H N S I (Option (ShapedWrapped U I)) (Option (Caches U I)))
    (lineText : List UInt8) : Option (ShapedWrapped U I) :=
  s.cache.bind fun c => lookupWrapped (clearIfFontGenerationChanged fontGeneration c)
    (wrappedKey (lineChars lineText) fontSize (lineFontRuns resolveFont s lineText) wrapWidth)

/-- A layout that is found has fewer boundaries than rows are left. -/
def FoundFits (resolveFont : F → I) (n : Nat)
    (s : ShapeState F H N S I (Option (ShapedWrapped U I)) (Option (Caches U I)))
    (lineText : List UInt8) : Prop :=
  ∀ line ∈ foundLayout fontGeneration fontSize wrapWidth resolveFont s lineText,
    line.layout.wrapBoundaries.length < n - s.wrappedLines

instance (s : ShapeState F H N S I (Option (ShapedWrapped U I)) (Option (Caches U I)))
    (lineText : List UInt8) :
    Decidable (FoundFits fontGeneration fontSize wrapWidth resolveFont n s lineText) :=
  inferInstanceAs (Decidable (∀ line ∈ foundLayout fontGeneration fontSize wrapWidth resolveFont s
    lineText, line.layout.wrapBoundaries.length < n - s.wrappedLines))

variable {platform fontGeneration fontSize wrapWidth}

omit [DecidableEq I] in
/-- A line made with a clamp has fewer boundaries than the clamp has rows. -/
theorem wrapBoundariesFor_length_le {layout : LineLayout U I} {key : CacheKey U I} {maxLines : Nat}
    {bs : List WrapBoundary} (h : wrapBoundariesFor layout key (some maxLines) = some bs) :
    bs.length ≤ maxLines - 1 := by
  rw [wrapBoundariesFor] at h
  split at h
  · exact LineLayout.computeWrapBoundaries_length_le h
  · obtain rfl := Option.some.inj h
    exact Nat.zero_le _

theorem lineBoundaries_found
    {s : ShapeState F H N S I (Option (ShapedWrapped U I)) (Option (Caches U I))}
    {lineText : List UInt8} {line : ShapedWrapped U I}
    (h : foundLayout fontGeneration fontSize wrapWidth resolveFont s lineText = some line) :
    lineBoundaries resolveFont (cachedLayouter platform fontGeneration fontSize wrapWidth) n s lineText
      = line.layout.wrapBoundaries.length := by
  obtain ⟨c, hc, hfound⟩ := Option.bind_eq_some_iff.mp h
  obtain ⟨c', hline⟩ := layoutWrappedLine_found platform (some (linesLeft n s)) hfound
  rw [lineBoundaries, cachedLayouter, hc]
  simp only [Option.bind_some, hline]
  rfl

theorem lineBoundaries_made
    {s : ShapeState F H N S I (Option (ShapedWrapped U I)) (Option (Caches U I))}
    {lineText : List UInt8}
    (h : foundLayout fontGeneration fontSize wrapWidth resolveFont s lineText = none) :
    lineBoundaries resolveFont (cachedLayouter platform fontGeneration fontSize wrapWidth) n s lineText
      ≤ linesLeft n s - 1 := by
  rw [lineBoundaries, cachedLayouter]
  cases hc : s.cache with
  | none => exact Nat.zero_le _
  | some c =>
    rw [foundLayout, hc, Option.bind_some] at h
    simp only [Option.bind_some]
    cases hline : layoutWrappedLine platform fontGeneration (wrappedKey (lineChars lineText) fontSize
        (lineFontRuns resolveFont s lineText) wrapWidth) (some (linesLeft n s)) c with
    | none => exact Nat.zero_le _
    | some made => exact wrapBoundariesFor_length_le (layoutWrappedLine_made platform h hline)

omit [DecidableEq H] [DecidableEq N] [DecidableEq S] [DecidableEq I] in
/-- While fewer boundaries are counted than the clamp, that many rows are left. -/
theorem linesLeft_le {s : ShapeState F H N S I L σ} (hs : s.wrappedLines < n) :
    linesLeft n s ≤ n - s.wrappedLines := by
  have hle : n + usizeSize - s.wrappedLines = n - s.wrappedLines + usizeSize := by omega
  rw [linesLeft, hle, Nat.add_mod_right]
  exact Nat.mod_le _ _

/-- **A line leaves a row over** exactly if the layout found for it does. -/
theorem leavesRow_iff_foundFits
    (s : ShapeState F H N S I (Option (ShapedWrapped U I)) (Option (Caches U I)))
    (lineText : List UInt8) (hs : s.wrappedLines < n) :
    s.wrappedLines + lineBoundaries resolveFont
        (cachedLayouter platform fontGeneration fontSize wrapWidth) n s lineText < n ↔
      FoundFits fontGeneration fontSize wrapWidth resolveFont n s lineText := by
  rw [FoundFits]
  cases hfound : foundLayout fontGeneration fontSize wrapWidth resolveFont s lineText with
  | none =>
    have hmade : lineBoundaries resolveFont (cachedLayouter platform fontGeneration fontSize wrapWidth)
        n s lineText ≤ linesLeft n s - 1 := lineBoundaries_made hfound
    have hleft := linesLeft_le hs
    refine ⟨fun _ line hline => by simp at hline, fun _ => by omega⟩
  | some line =>
    rw [lineBoundaries_found hfound]
    constructor
    · intro h line' hline
      obtain rfl := Option.some.inj hline
      omega
    · intro h
      have := h line rfl
      omega

/-- **The clamp of a text.**  Whatever the caches hold, a text with a clamp has fewer boundaries
than the clamp in total, and the rows left never underflow, exactly if every layout found for one
of its lines has fewer boundaries than rows are left when the line comes up. -/
theorem clampHolds_iff (platform : Platform U I) (fontGeneration : Nat) (fontSize : U)
    (wrapWidth : Option U) (resolveFont : F → I) (n : Nat) (hn : 1 ≤ n) (c : Caches U I)
    (text : List UInt8) (runs : List (TextRun F H N S)) :
    ClampHolds resolveFont (cachedLayouter platform fontGeneration fontSize wrapWidth) n (some c) text
        runs ↔
      RunMeets (shapeStep resolveFont (cachedLayouter platform fontGeneration fontSize wrapWidth) n)
        (FoundFits fontGeneration fontSize wrapWidth resolveFont n) (shapeStart (some c) runs)
        (text.splitOn newline) :=
  clampHolds_iff_leavesRow hn leavesRow_iff_foundFits (some c) text runs

end ClampedLines

/-- The caches of the first window. -/
def newCaches : Caches ℚ Nat := (⟨.empty, .empty, 0⟩, .new 4 2)

/-- A line of two rows comes twice, and the clamp has room for it. -/
theorem clampHolds_repeated : ClampHolds id (cachedLayouter TextSystem.tenWide 0 16 (some 10)) 4
    (some newCaches) [97, 98, 10, 97, 10, 97, 98] [plainRun 7 0] :=
  (clampHolds_iff TextSystem.tenWide 0 16 (some 10) id 4 (by decide) newCaches
    [97, 98, 10, 97, 10, 97, 98] [plainRun 7 0]).mpr (by decide +kernel)

/-- The same line four times, clamped to two rows: each has the boundary of the first. -/
theorem not_clampHolds : ¬ ∀ (n : Nat) (text : List UInt8) (runs : List (TextRun Nat Unit Unit Unit)),
    1 ≤ n → ClampHolds id (cachedLayouter TextSystem.tenWide 0 16 (some 10)) n (some newCaches) text
      runs := by
  intro h
  have htotal := (h 2 [97, 98, 10, 97, 98, 10, 97, 98, 10, 97, 98] [plainRun 11 0] (by decide)).total
  exact absurd htotal (by decide +kernel)

end FcGpui
