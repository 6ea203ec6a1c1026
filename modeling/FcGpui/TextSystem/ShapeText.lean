import FcGpui.Lib.Stretches

/-!
# Runs of a shaped text

`WindowTextSystem::shape_text`, `layout_line_with_spacing` and
`shape_line_with_spacing` in `crates/gpui/src/text_system.rs`.  Each turns a list
of styled runs into font runs, which the platform shapes, and decoration runs,
which are painted.  A text is its UTF-8 bytes; a newline is one byte and no part
of another character, so splitting at the byte is splitting at the character.

* `pushDecoration` and `pushFont` are the two merges with the run before; the
  last run is at the head of its list while a line is built.
* `lineLoop` is the `while` loop over one line: it takes runs off the front and
  leaves the rest of a run that goes on behind the line.
* `processLine` is the closure of `shape_text`, with the newline taken off the
  run that holds it, and `shapeText` applies it to every line.

Font resolution and the wrapped layout of a line come in as functions; the
layout goes through a cache of any type.  The lengths of decoration runs are
`u32`, the number of wrapped lines left is a `usize`.
-/

namespace FcGpui

structure Decoration (H N S : Type) where
  color : H
  backgroundColor : Option H
  underline : Option N
  strikethrough : Option S
deriving DecidableEq

structure TextStyle (F H N S : Type) extends Decoration H N S where
  font : F
deriving DecidableEq

structure TextRun (F H N S : Type) extends TextStyle F H N S where
  len : Nat
deriving DecidableEq

structure DecorationRun (H N S : Type) extends Decoration H N S where
  len : Nat
deriving DecidableEq

structure FontRun (I : Type) where
  len : Nat
  fontId : I
deriving DecidableEq

/-- `n as u32`. -/
def asU32 (n : Nat) : Nat := n % 2 ^ 32

def usizeSize : Nat := 2 ^ 64

def newline : UInt8 := 10

section Definitions

variable {F H N S I L σ : Type} [DecidableEq H] [DecidableEq N] [DecidableEq S] [DecidableEq I]

def Decoration.same (a b : Decoration H N S) : Bool :=
  a.color == b.color && a.underline == b.underline && a.strikethrough == b.strikethrough
    && a.backgroundColor == b.backgroundColor

/-- The comparison of `layout_line_with_spacing` leaves the background out. -/
def Decoration.sameInk (a b : Decoration H N S) : Bool :=
  a.color == b.color && a.underline == b.underline && a.strikethrough == b.strikethrough

/-- Extends the last decoration run, or opens a new one; also tells whether the
decoration changed. -/
def pushDecoration (runs : List (DecorationRun H N S)) (run : TextRun F H N S) (len : Nat) :
    List (DecorationRun H N S) × Bool :=
  match runs with
  | last :: done =>
    if last.toDecoration.same run.toDecoration then
      ({ last with len := asU32 (last.len + asU32 len) } :: done, false)
    else ({ run.toDecoration with len := asU32 len } :: last :: done, true)
  | [] => ([{ run.toDecoration with len := asU32 len }], true)

/-- Extends the last font run, or resolves the font and opens a new one. -/
def pushFont (resolveFont : F → I) (decorationChanged : Bool) (run : TextRun F H N S) (len : Nat)
    (runs : List (FontRun I)) (lastFont : Option I) : List (FontRun I) × Option I :=
  match runs with
  | last :: done =>
    if some last.fontId = lastFont ∧ decorationChanged = false then
      ({ last with len := last.len + len } :: done, lastFont)
    else (⟨len, resolveFont run.font⟩ :: last :: done, some (resolveFont run.font))
  | [] => ([⟨len, resolveFont run.font⟩], some (resolveFont run.font))

/-- The runs of a line under construction. -/
structure LineAcc (H N S I : Type) where
  fontRuns : List (FontRun I)
  lastFont : Option I
  decorationRuns : List (DecorationRun H N S)

def LineAcc.push (resolveFont : F → I) (acc : LineAcc H N S I) (run : TextRun F H N S) (len : Nat) :
    LineAcc H N S I :=
  let (decorationRuns, decorationChanged) := pushDecoration acc.decorationRuns run len
  let (fontRuns, lastFont) := pushFont resolveFont decorationChanged run len acc.fontRuns acc.lastFont
  ⟨fontRuns, lastFont, decorationRuns⟩

/-- The loop over one line, up to `lineEnd`.  A run that is not used up reaches
behind the line, and the loop is over. -/
def lineLoop (resolveFont : F → I) (lineEnd : Nat) :
    List (TextRun F H N S) → Nat → LineAcc H N S I → LineAcc H N S I × List (TextRun F H N S)
  | [], _, acc => (acc, [])
  | run :: runs, runStart, acc =>
    if runStart < lineEnd then
      let runLenWithinLine := min lineEnd (runStart + run.len) - runStart
      let acc := acc.push resolveFont run runLenWithinLine
      if runLenWithinLine = run.len then
        lineLoop resolveFont lineEnd runs (runStart + runLenWithinLine) acc
      else (acc, { run with len := run.len - runLenWithinLine } :: runs)
    else (acc, run :: runs)

/-- Skips the newline. -/
def skipNewline : List (TextRun F H N S) → List (TextRun F H N S)
  | [] => []
  | run :: runs => if run.len - 1 = 0 then runs else { run with len := run.len - 1 } :: runs

/-- A line of the result, with the font runs its layout was asked for. -/
structure WrappedLine (H N S I L : Type) where
  layout : L
  decorationRuns : List (DecorationRun H N S)
  text : List UInt8
  fontRuns : List (FontRun I)

/-- The wrapped layout of one line: the text, its font runs, and how many lines
it may have. -/
structure Layouter (I L σ : Type) where
  layoutWrappedLine : σ → List UInt8 → List (FontRun I) → Nat → L × σ
  wrapBoundaries : L → Nat

structure ShapeState (F H N S I L σ : Type) where
  cache : σ
  runs : List (TextRun F H N S)
  lineStart : Nat
  wrappedLines : Nat
  lines : List (WrappedLine H N S I L)

def processLine (resolveFont : F → I) (layouter : Layouter I L σ) (maxWrapLines : Nat)
    (s : ShapeState F H N S I L σ) (lineText : List UInt8) : ShapeState F H N S I L σ :=
  let lineEnd := s.lineStart + lineText.length
  let (acc, runs) := lineLoop resolveFont lineEnd s.runs s.lineStart ⟨[], none, []⟩
  let fontRuns := acc.fontRuns.reverse
  let (layout, cache) := layouter.layoutWrappedLine s.cache lineText fontRuns
    ((maxWrapLines + usizeSize - s.wrappedLines) % usizeSize)
  { cache := cache
    runs := skipNewline runs
    lineStart := lineEnd + 1
    wrappedLines := s.wrappedLines + layouter.wrapBoundaries layout
    lines := s.lines ++ [⟨layout, acc.decorationRuns.reverse, lineText, fontRuns⟩] }

def shapeText (resolveFont : F → I) (layouter : Layouter I L σ) (cache : σ) (text : List UInt8)
    (runs : List (TextRun F H N S)) (lineClamp : Option Nat) :
    List (WrappedLine H N S I L) × σ :=
  let maxWrapLines := lineClamp.getD (usizeSize - 1)
  let start := ⟨cache, runs.filter fun run => decide (0 < run.len), 0, 0, []⟩
  let final := match text.splitOn newline with
    | first :: second :: rest =>
      rest.foldl (processLine resolveFont layouter maxWrapLines)
        (processLine resolveFont layouter maxWrapLines
          (processLine resolveFont layouter maxWrapLines start first) second)
    | _ => processLine resolveFont layouter maxWrapLines start text
  (final.lines, final.cache)

/-- The loop body of `layout_line_with_spacing`: the run that opened the current
decoration, the font runs and the last font. -/
def layoutLineStep (resolveFont : F → I)
    (acc : Option (TextRun F H N S) × List (FontRun I) × Option I) (run : TextRun F H N S) :
    Option (TextRun F H N S) × List (FontRun I) × Option I :=
  let decorationChanged := match acc.1 with
    | some last => !last.toDecoration.sameInk run.toDecoration
    | none => true
  let lastRun := if decorationChanged then some run else acc.1
  (lastRun, pushFont resolveFont decorationChanged run run.len acc.2.1 acc.2.2)

/-- The font runs `layout_line_with_spacing` hands to the layout. -/
def layoutLineFontRuns (resolveFont : F → I) (runs : List (TextRun F H N S)) : List (FontRun I) :=
  (runs.foldl (layoutLineStep resolveFont) (none, [], none)).2.1.reverse

/-- The decoration runs of `shape_line_with_spacing`. -/
def shapeLineDecorationRuns (runs : List (TextRun F H N S)) : List (DecorationRun H N S) :=
  (runs.foldl (fun acc run => (pushDecoration acc run run.len).1) []).reverse

end Definitions

end FcGpui
