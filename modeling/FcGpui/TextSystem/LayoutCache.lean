import FcGpui.Lib.Machine
import FcGpui.Lib.Slice
import FcGpui.TextSystem.LineLayout

/-!
# The line layout caches

`LineLayoutCache` and `GlobalLineLayoutCache` in
`crates/gpui/src/text_system/line_layout.rs`.  A layout is looked up in three
places: what the window laid out in this frame, what it laid out in the frame
before, and a cache all windows share, which drops the entries used longest ago
when it is full.  All are addressed by one key.  Installing fonts advances the
font generation; each window notices at its next call and clears its two frames
and the shared cache.

The platform text system is a function of the font generation and the arguments
of `layout_line`.  A cached layout carries, besides what the source stores, what
it was made from: the generation, and for a wrapped line the `max_lines` it was
clamped to.  `TextSystem` is the state of one text system and its windows;
`step` is one call on it, and `lineCalls` and `wrappedCalls` record what the
calls of `layout_line` and `layout_wrapped_line` were asked and returned.

A hash map is an association list; a range that is out of bounds, and an index
inside a character, is a panic of the source and `none` here.
-/

namespace FcGpui

structure CacheKey (U I : Type) where
  text : List Char
  fontSize : U
  runs : List (FontRun I)
  wrapWidth : Option U
  forceWidth : Option U
  letterSpacing : Option U
deriving DecidableEq

structure WrappedLineLayout (U I : Type) where
  unwrappedLayout : LineLayout U I
  wrapBoundaries : List WrapBoundary
  wrapWidth : Option U
deriving DecidableEq

/-- A layout and the font generation it was shaped under. -/
structure ShapedLayout (U I : Type) where
  layout : LineLayout U I
  generation : Nat
deriving DecidableEq

/-- A wrapped layout, the font generation it was shaped under and the clamp it
was asked for. -/
structure ShapedWrapped (U I : Type) where
  layout : WrappedLineLayout U I
  generation : Nat
  maxLines : Option Nat
deriving DecidableEq

/-- A map of the shared cache: the value and when it was last used. -/
abbrev GlobalMap (U I ν : Type) := AList fun _ : CacheKey U I => ν × Nat

/-- The shared cache. -/
structure GlobalLineLayoutCache (U I : Type) where
  maxEntries : Nat
  lowWatermark : Nat
  lines : GlobalMap U I (ShapedLayout U I)
  wrappedLines : GlobalMap U I (ShapedWrapped U I)
  accessCounter : Nat

structure FrameCache (U I : Type) where
  lines : AList fun _ : CacheKey U I => ShapedLayout U I
  wrappedLines : AList fun _ : CacheKey U I => ShapedWrapped U I
  usedLines : List (CacheKey U I)
  usedWrappedLines : List (CacheKey U I)

/-- What a window keeps. -/
structure LineLayoutCache (U I : Type) where
  previousFrame : FrameCache U I
  currentFrame : FrameCache U I
  cachedFontGeneration : Nat

structure LineLayoutIndex where
  fontGeneration : Nat
  linesIndex : Nat
  wrappedLinesIndex : Nat

section Caches

variable {U I ν : Type} [DecidableEq U] [DecidableEq I]

def FrameCache.empty : FrameCache U I := ⟨∅, ∅, [], []⟩

namespace GlobalMap

/-- Removes the entries used longest ago until `targetSize` are left. -/
def evictToWatermark (map : GlobalMap U I ν) (targetSize : Nat) : GlobalMap U I ν :=
  let doomed := ((map.entries.map fun e => (e.1, e.2.2)).insertionSort fun a b => a.2 ≤ b.2).take
    (map.entries.length - targetSize)
  doomed.foldl (fun map e => map.erase e.1) map

def put (map : GlobalMap U I ν) (maxEntries lowWatermark : Nat) (key : CacheKey U I) (value : ν)
    (access : Nat) : GlobalMap U I ν :=
  let map := if maxEntries ≤ map.entries.length then map.evictToWatermark lowWatermark else map
  map.insert key (value, access)

/-- Looks a key up and notes the access. -/
def touch (map : GlobalMap U I ν) (key : CacheKey U I) (access : Nat) :
    Option (ν × GlobalMap U I ν) :=
  (map.lookup key).map fun e => (e.1, map.insert key (e.1, access))

end GlobalMap

namespace GlobalLineLayoutCache

def new (maxEntries lowWatermark : Nat) : GlobalLineLayoutCache U I :=
  let maxEntries := max maxEntries 1
  ⟨maxEntries, min lowWatermark (maxEntries - 1), ∅, ∅, 0⟩

def clear (g : GlobalLineLayoutCache U I) : GlobalLineLayoutCache U I :=
  { g with lines := ∅, wrappedLines := ∅ }

def getLine (g : GlobalLineLayoutCache U I) (key : CacheKey U I) :
    Option (ShapedLayout U I × GlobalLineLayoutCache U I) :=
  (g.lines.touch key g.accessCounter).map fun (line, lines) =>
    (line, { g with lines := lines, accessCounter := g.accessCounter + 1 })

def insertLine (g : GlobalLineLayoutCache U I) (key : CacheKey U I) (line : ShapedLayout U I) :
    GlobalLineLayoutCache U I :=
  { g with
    lines := g.lines.put g.maxEntries g.lowWatermark key line g.accessCounter
    accessCounter := g.accessCounter + 1 }

def getWrappedLine (g : GlobalLineLayoutCache U I) (key : CacheKey U I) :
    Option (ShapedWrapped U I × GlobalLineLayoutCache U I) :=
  (g.wrappedLines.touch key g.accessCounter).map fun (line, lines) =>
    (line, { g with wrappedLines := lines, accessCounter := g.accessCounter + 1 })

def insertWrappedLine (g : GlobalLineLayoutCache U I) (key : CacheKey U I)
    (line : ShapedWrapped U I) : GlobalLineLayoutCache U I :=
  { g with
    wrappedLines := g.wrappedLines.put g.maxEntries g.lowWatermark key line g.accessCounter
    accessCounter := g.accessCounter + 1 }

end GlobalLineLayoutCache

namespace FrameCache

def useLine (f : FrameCache U I) (key : CacheKey U I) (line : ShapedLayout U I) : FrameCache U I :=
  { f with lines := f.lines.insert key line, usedLines := f.usedLines ++ [key] }

def useWrapped (f : FrameCache U I) (key : CacheKey U I) (line : ShapedWrapped U I) :
    FrameCache U I :=
  { f with
    wrappedLines := f.wrappedLines.insert key line
    usedWrappedLines := f.usedWrappedLines ++ [key] }

end FrameCache

/-- The window that makes a call, and the shared cache. -/
abbrev Caches (U I : Type) := LineLayoutCache U I × GlobalLineLayoutCache U I

/-- `clear_if_font_generation_changed`. -/
def clearIfFontGenerationChanged (fontGeneration : Nat) (c : Caches U I) : Caches U I :=
  if c.1.cachedFontGeneration = fontGeneration then c
  else (⟨.empty, .empty, fontGeneration⟩, c.2.clear)

/-- The key of an unwrapped line. -/
def lineKey (text : List Char) (fontSize : U) (runs : List (FontRun I)) (forceWidth letterSpacing : Option U) :
    CacheKey U I :=
  ⟨text, fontSize, runs, none, forceWidth, letterSpacing⟩

def wrappedKey (text : List Char) (fontSize : U) (runs : List (FontRun I)) (wrapWidth : Option U) :
    CacheKey U I :=
  ⟨text, fontSize, runs, wrapWidth, none, none⟩

/-- The platform text system: the font generation, the text, the font size and
the font runs. -/
abbrev Platform (U I : Type) := Nat → List Char → U → List (FontRun I) → LineLayout U I

section Calls

variable [Field U] [LinearOrder U]

/-- The layout of a line without any cache. -/
def shapeLine (platform : Platform U I) (generation : Nat) (key : CacheKey U I) : LineLayout U I :=
  let layout := platform generation key.text key.fontSize key.runs
  let layout := match key.forceWidth with
    | some forceWidth => layout.applyForceWidthToLayout forceWidth
    | none => layout
  match key.letterSpacing with
  | some spacing => layout.applyLetterSpacingToLayout spacing key.forceWidth
  | none => layout

/-- Where a layout is wrapped. -/
def wrapBoundariesFor (layout : LineLayout U I) (key : CacheKey U I) (maxLines : Option Nat) :
    Option (List WrapBoundary) :=
  match key.wrapWidth with
  | some wrapWidth => layout.computeWrapBoundaries key.text wrapWidth maxLines
  | none => some []

/-- The wrapped layout of a line without any cache. -/
def shapeWrapped (platform : Platform U I) (generation : Nat) (key : CacheKey U I)
    (maxLines : Option Nat) : Option (WrappedLineLayout U I) :=
  let layout := shapeLine platform generation (lineKey key.text key.fontSize key.runs none none)
  (wrapBoundariesFor layout key maxLines).map fun boundaries => ⟨layout, boundaries, key.wrapWidth⟩

def layoutLineWithSpacing (platform : Platform U I) (fontGeneration : Nat) (key : CacheKey U I)
    (c : Caches U I) : ShapedLayout U I × Caches U I :=
  let (w, g) := clearIfFontGenerationChanged fontGeneration c
  match w.currentFrame.lines.lookup key with
  | some line => (line, w, g)
  | none =>
    match w.previousFrame.lines.lookup key with
    | some line =>
      (line, { w with
        previousFrame := { w.previousFrame with lines := w.previousFrame.lines.erase key }
        currentFrame := w.currentFrame.useLine key line }, g)
    | none =>
      match g.getLine key with
      | some (line, g) => (line, { w with currentFrame := w.currentFrame.useLine key line }, g)
      | none =>
        let line := ⟨shapeLine platform fontGeneration key, fontGeneration⟩
        (line, { w with currentFrame := w.currentFrame.useLine key line }, g.insertLine key line)

def layoutWrappedLine (platform : Platform U I) (fontGeneration : Nat) (key : CacheKey U I)
    (maxLines : Option Nat) (c : Caches U I) : Option (ShapedWrapped U I × Caches U I) :=
  let (w, g) := clearIfFontGenerationChanged fontGeneration c
  match w.currentFrame.wrappedLines.lookup key with
  | some line => some (line, w, g)
  | none =>
    match w.previousFrame.wrappedLines.lookup key with
    | some line =>
      some (line, { w with
        previousFrame :=
          { w.previousFrame with wrappedLines := w.previousFrame.wrappedLines.erase key }
        currentFrame := w.currentFrame.useWrapped key line }, g)
    | none =>
      match g.getWrappedLine key with
      | some (line, g) =>
        some (line, { w with currentFrame := w.currentFrame.useWrapped key line }, g)
      | none => do
        let (unwrapped, w, g) := layoutLineWithSpacing platform fontGeneration
          (lineKey key.text key.fontSize key.runs none none) (w, g)
        let wrapBoundaries ← wrapBoundariesFor unwrapped.layout key maxLines
        let line := ⟨⟨unwrapped.layout, wrapBoundaries, key.wrapWidth⟩, unwrapped.generation, maxLines⟩
        some (line, { w with currentFrame := w.currentFrame.useWrapped key line },
          g.insertWrappedLine key line)

end Calls

/-- The loop over the used lines of the previous frame. -/
def reuseLines (keys : List (CacheKey U I)) (previous current : FrameCache U I) :
    FrameCache U I × FrameCache U I :=
  keys.foldl (fun (previous, current) key =>
    match previous.lines.lookup key with
    | some line => ({ previous with lines := previous.lines.erase key }, current.useLine key line)
    | none => (previous, { current with usedLines := current.usedLines ++ [key] }))
    (previous, current)

def reuseWrappedLines (keys : List (CacheKey U I)) (previous current : FrameCache U I) :
    FrameCache U I × FrameCache U I :=
  keys.foldl (fun (previous, current) key =>
    match previous.wrappedLines.lookup key with
    | some line =>
      ({ previous with wrappedLines := previous.wrappedLines.erase key }, current.useWrapped key line)
    | none => (previous, { current with usedWrappedLines := current.usedWrappedLines ++ [key] }))
    (previous, current)

def reuseLayouts (fontGeneration : Nat) (start stop : LineLayoutIndex) (c : Caches U I) :
    Option (Caches U I) :=
  let (w, g) := clearIfFontGenerationChanged fontGeneration c
  if start.fontGeneration ≠ fontGeneration ∨ stop.fontGeneration ≠ fontGeneration then some (w, g)
  else do
    let lines ← slice w.previousFrame.usedLines start.linesIndex stop.linesIndex
    let (previous, current) := reuseLines lines w.previousFrame w.currentFrame
    let wrapped ← slice previous.usedWrappedLines start.wrappedLinesIndex stop.wrappedLinesIndex
    let (previous, current) := reuseWrappedLines wrapped previous current
    some ({ w with previousFrame := previous, currentFrame := current }, g)

def truncateLayouts (fontGeneration : Nat) (index : LineLayoutIndex) (c : Caches U I) :
    Caches U I :=
  let (w, g) := clearIfFontGenerationChanged fontGeneration c
  if index.fontGeneration ≠ fontGeneration then (w, g)
  else
    ({ w with currentFrame :=
        { w.currentFrame with
          usedLines := w.currentFrame.usedLines.take index.linesIndex
          usedWrappedLines := w.currentFrame.usedWrappedLines.take index.wrappedLinesIndex } }, g)

def finishFrame (fontGeneration : Nat) (c : Caches U I) : Caches U I :=
  let (w, g) := clearIfFontGenerationChanged fontGeneration c
  ({ w with previousFrame := w.currentFrame, currentFrame := .empty }, g)

def layoutIndex (fontGeneration : Nat) (c : Caches U I) : LineLayoutIndex × Caches U I :=
  let (w, g) := clearIfFontGenerationChanged fontGeneration c
  (⟨fontGeneration, w.currentFrame.usedLines.length, w.currentFrame.usedWrappedLines.length⟩, w, g)

end Caches

/-! ### One text system and its windows -/

/-- A call of `layout_line`: the font generation it was made under, what it was
asked and what it returned. -/
structure LineCall (U I : Type) where
  generation : Nat
  key : CacheKey U I
  result : ShapedLayout U I

structure WrappedCall (U I : Type) where
  generation : Nat
  key : CacheKey U I
  maxLines : Option Nat
  result : ShapedWrapped U I

structure TextSystem (U I : Type) where
  fontGeneration : Nat
  globalCache : GlobalLineLayoutCache U I
  windows : List (LineLayoutCache U I)
  lineCalls : List (LineCall U I)
  wrappedCalls : List (WrappedCall U I)

inductive TextAct (U I : Type)
  | addFonts (succeeds : Bool)
  | clearLayoutCache
  | newWindow
  | layoutIndex (window : Nat)
  | layoutLine (window : Nat) (text : List Char) (fontSize : U) (runs : List (FontRun I))
      (forceWidth letterSpacing : Option U)
  | layoutWrappedLine (window : Nat) (text : List Char) (fontSize : U) (runs : List (FontRun I))
      (wrapWidth : Option U) (maxLines : Option Nat)
  | reuseLayouts (window : Nat) (start stop : LineLayoutIndex)
  | truncateLayouts (window : Nat) (index : LineLayoutIndex)
  | finishFrame (window : Nat)

namespace TextSystem

variable {U I : Type} [DecidableEq I] [Field U] [LinearOrder U]

def new (maxEntries lowWatermark : Nat) : TextSystem U I := ⟨0, .new maxEntries lowWatermark, [], [], []⟩

/-- A window and the shared cache; `none` for a window that is not there. -/
def cachesOf (s : TextSystem U I) (window : Nat) : Option (Caches U I) :=
  (s.windows[window]?).map fun w => (w, s.globalCache)

def setCaches (s : TextSystem U I) (window : Nat) (c : Caches U I) : TextSystem U I :=
  { s with windows := s.windows.set window c.1, globalCache := c.2 }

def step (platform : Platform U I) (s : TextSystem U I) : TextAct U I → Option (TextSystem U I)
  | .addFonts succeeds =>
    some (if succeeds then { s with fontGeneration := s.fontGeneration + 1 } else s)
  | .clearLayoutCache => some { s with globalCache := s.globalCache.clear }
  | .newWindow => some { s with windows := s.windows ++ [⟨.empty, .empty, s.fontGeneration⟩] }
  | .layoutIndex window => do
    let c ← s.cachesOf window
    some (s.setCaches window (layoutIndex s.fontGeneration c).2)
  | .layoutLine window text fontSize runs forceWidth letterSpacing => do
    let c ← s.cachesOf window
    let key := lineKey text fontSize runs forceWidth letterSpacing
    let (line, c) := layoutLineWithSpacing platform s.fontGeneration key c
    some { s.setCaches window c with lineCalls := s.lineCalls ++ [⟨s.fontGeneration, key, line⟩] }
  | .layoutWrappedLine window text fontSize runs wrapWidth maxLines => do
    let c ← s.cachesOf window
    let key := wrappedKey text fontSize runs wrapWidth
    let (line, c) ← layoutWrappedLine platform s.fontGeneration key maxLines c
    some { s.setCaches window c with
      wrappedCalls := s.wrappedCalls ++ [⟨s.fontGeneration, key, maxLines, line⟩] }
  | .reuseLayouts window start stop => do
    let c ← s.cachesOf window
    let c ← reuseLayouts s.fontGeneration start stop c
    some (s.setCaches window c)
  | .truncateLayouts window index => do
    let c ← s.cachesOf window
    some (s.setCaches window (truncateLayouts s.fontGeneration index c))
  | .finishFrame window => do
    let c ← s.cachesOf window
    some (s.setCaches window (finishFrame s.fontGeneration c))

end TextSystem

end FcGpui
