import FcGpui.TextSystem.SplitLine

/-!
# Shaped lines and their cursors

`ShapedLine::split_at` and `ShapedLineCursor` of `crates/gpui/src/text_system/line.rs`.  A text is
its UTF-8 bytes, and a slice that does not begin or end at a character is a panic, `none` here, as
is an overflow of the lengths and offsets of decorations, which are `u32`; `byte_index as u32`
does not panic (`asU32`).

The loops of the cursor run over what is left of its line, from its run and its decoration on.
-/

namespace FcGpui

/-- `is_char_boundary`. -/
def isCharBoundary (text : List UInt8) (index : Nat) : Bool :=
  if index = 0 then true
  else match text[index]? with
    | none => decide (index = text.length)
    | some byte => decide (byte < 128) || decide (192 ≤ byte)

/-- `text[start..]` and `text[..stop]` begin and end at a character. -/
def textSlice (text : List UInt8) (start stop : Nat) : Option (List UInt8) :=
  if start ≤ stop ∧ isCharBoundary text start ∧ isCharBoundary text stop then
    some ((text.take stop).drop start)
  else none

/-- `a + b` of `u32`. -/
def addU32 (a b : Nat) : Option Nat := if a + b < 2 ^ 32 then some (a + b) else none

/-- `a - b` of unsigned numbers. -/
def subUnsigned (a b : Nat) : Option Nat := if b ≤ a then some (a - b) else none

structure ShapedLine (U I H N S : Type) where
  layout : LineLayout U I
  text : List UInt8
  decorationRuns : List (DecorationRun H N S)
deriving DecidableEq

structure ShapedLineCursor (U I H N S : Type) where
  line : ShapedLine U I H N S
  unorderedRemainder : Option (ShapedLine U I H N S)
  byteIndex : Nat
  runIndex : Nat
  glyphIndex : Nat
  decorationIndex : Nat
  decorationOffset : Nat
  xOffset : U

variable {U I H N S : Type} [AddCommGroup U]

/-- Partitions the decorations that begin at an offset. -/
def splitDecorations (splitPoint : Nat) : Nat → List (DecorationRun H N S) →
    Option (List (DecorationRun H N S) × List (DecorationRun H N S))
  | _, [] => some ([], [])
  | decorationOffset, decoration :: decorations => do
    let runEnd ← addU32 decorationOffset decoration.len
    let (left, right) ← splitDecorations splitPoint runEnd decorations
    if runEnd ≤ splitPoint then some (decoration :: left, right)
    else if splitPoint ≤ decorationOffset then some (left, decoration :: right)
    else some ({ decoration with len := splitPoint - decorationOffset } :: left,
      { decoration with len := runEnd - splitPoint } :: right)

namespace ShapedLine

def leftText (text : List UInt8) (byteIndex : Nat) : Option (List UInt8) :=
  if byteIndex = text.length then some text else textSlice text 0 byteIndex

def rightText (text : List UInt8) (byteIndex : Nat) : Option (List UInt8) :=
  if byteIndex = 0 then some text else textSlice text byteIndex text.length

def splitAt (P : PartitionPoint (ShapedGlyph U)) (line : ShapedLine U I H N S) (byteIndex : Nat) :
    Option (ShapedLine U I H N S × ShapedLine U I H N S) := do
  let (leftLayout, rightLayout) ← line.layout.splitAt P byteIndex
  let (leftDecorations, rightDecorations) ← splitDecorations (asU32 byteIndex) 0 line.decorationRuns
  let leftText ← leftText line.text byteIndex
  let rightText ← rightText line.text byteIndex
  some (⟨leftLayout, leftText, leftDecorations⟩, ⟨rightLayout, rightText, rightDecorations⟩)

def cursor (line : ShapedLine U I H N S) : Option (ShapedLineCursor U I H N S) :=
  if line.layout.len ≠ line.text.length then none
  else some ⟨line, if ByteOrdered line.layout.runs then none else some line, 0, 0, 0, 0, 0, 0⟩

end ShapedLine

namespace ShapedLineCursor

/-- The glyphs that a run contributes, from the glyph at the cursor up to another one. -/
def takeGlyphs (previousX : U) (previousIndex start stop : Nat) (run : ShapedRun U I) :
    Option (List (ShapedRun U I)) :=
  if start < stop then
    let glyphs := (run.glyphs.drop start).take (stop - start)
    if ∀ glyph ∈ glyphs, previousIndex ≤ glyph.index then
      some [ShapedRun.rebase previousX previousIndex { run with glyphs := glyphs }]
    else none
  else some []

/-- The loop over the runs: what they contribute, the place of the next glyph, and its position or the
width of the line. -/
def takeRuns (byteIndex previousIndex : Nat) (previousX width : U) :
    List (ShapedRun U I) → Nat → Nat → Option (List (ShapedRun U I) × Nat × Nat × U)
  | [], runIndex, glyphIndex => some ([], runIndex, glyphIndex, width)
  | run :: runs, runIndex, glyphIndex => do
    let stop := glyphIndex +
      ((run.glyphs.drop glyphIndex).takeWhile fun glyph => decide (glyph.index < byteIndex)).length
    let taken ← takeGlyphs previousX previousIndex glyphIndex stop run
    match run.glyphs[stop]? with
    | some glyph => some (taken, runIndex, stop, glyph.position.x)
    | none => do
      let (more, runIndex, glyphIndex, nextX) ← takeRuns byteIndex previousIndex previousX width runs (runIndex + 1) 0
      some (taken ++ more, runIndex, glyphIndex, nextX)

/-- The loop over the decorations; the two indices are `u32`. -/
def takeDecorations (byteIndex previousIndex : Nat) : List (DecorationRun H N S) → Nat → Nat →
    Option (List (DecorationRun H N S) × Nat × Nat)
  | [], decorationIndex, decorationOffset => some ([], decorationIndex, decorationOffset)
  | decoration :: decorations, decorationIndex, decorationOffset =>
    if decorationOffset < byteIndex ∨ (decoration.len = 0 ∧ decorationOffset = byteIndex) then do
      let stop ← addU32 decorationOffset decoration.len
      let start := max decorationOffset previousIndex
      let len ← subUnsigned (min stop byteIndex) start
      let taken := if 0 < len ∨ decoration.len = 0 then [{ decoration with len := len }] else []
      if stop ≤ byteIndex then do
        let (more, decorationIndex, decorationOffset) ←
          takeDecorations byteIndex previousIndex decorations (decorationIndex + 1) stop
        some (taken ++ more, decorationIndex, decorationOffset)
      else some (taken, decorationIndex, decorationOffset)
    else some ([], decorationIndex, decorationOffset)

/-- Takes the bytes since the previous boundary. -/
def takeUntil (P : PartitionPoint (ShapedGlyph U)) (c : ShapedLineCursor U I H N S) (byteIndex : Nat) :
    Option (ShapedLine U I H N S × ShapedLineCursor U I H N S) :=
  if c.byteIndex ≤ byteIndex ∧ byteIndex ≤ c.line.layout.len ∧ isCharBoundary c.line.text byteIndex then
    match c.unorderedRemainder with
    | some remainder => do
      let (piece, rest) ← remainder.splitAt P (byteIndex - c.byteIndex)
      some (piece, { c with
        unorderedRemainder := some rest
        byteIndex := byteIndex
        xOffset := c.line.layout.xForIndex byteIndex })
    | none => do
      let layout := c.line.layout
      let (runs, runIndex, glyphIndex, nextX) ← takeRuns byteIndex c.byteIndex c.xOffset layout.width
        (layout.runs.drop c.runIndex) c.runIndex c.glyphIndex
      let (decorations, decorationIndex, decorationOffset) ← takeDecorations (asU32 byteIndex) (asU32 c.byteIndex)
        (c.line.decorationRuns.drop c.decorationIndex) c.decorationIndex c.decorationOffset
      let text ← textSlice c.line.text c.byteIndex byteIndex
      some (⟨{ layout with
          width := nextX - c.xOffset
          runs := runs
          len := byteIndex - c.byteIndex }, text, decorations⟩,
        { c with
          byteIndex := byteIndex
          runIndex := runIndex
          glyphIndex := glyphIndex
          decorationIndex := decorationIndex
          decorationOffset := decorationOffset
          xOffset := nextX })
  else none

/-- The pieces up to one boundary after another. -/
def takeAll (P : PartitionPoint (ShapedGlyph U)) :
    ShapedLineCursor U I H N S → List Nat → Option (List (ShapedLine U I H N S) × ShapedLineCursor U I H N S)
  | c, [] => some ([], c)
  | c, byteIndex :: boundaries => do
    let (piece, c) ← c.takeUntil P byteIndex
    let (pieces, c) ← takeAll P c boundaries
    some (piece :: pieces, c)

end ShapedLineCursor

/-- Splits what is left of a line at one boundary after another. -/
def ShapedLine.splitAll (P : PartitionPoint (ShapedGlyph U)) :
    Nat → ShapedLine U I H N S → List Nat → Option (List (ShapedLine U I H N S) × ShapedLine U I H N S)
  | _, line, [] => some ([], line)
  | previousIndex, line, byteIndex :: boundaries => do
    let (piece, rest) ← line.splitAt P (byteIndex - previousIndex)
    let (pieces, rest) ← splitAll P byteIndex rest boundaries
    some (piece :: pieces, rest)

end FcGpui
