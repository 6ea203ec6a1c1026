import FcGpui.Geometry
import FcGpui.TextSystem.ShapeText

/-!
# The layout of a line

`crates/gpui/src/text_system/line_layout.rs`: a shaped line, where it wraps, and
the two passes that move its glyphs for a forced width and for letter spacing.
A text is the list of its characters, and a glyph names its character by byte
index; an index that is not the start of a character is a panic of the source,
`none` here.

`computeWrapBoundaries` walks the glyphs and breaks off when the clamp is
reached.  `computeWrapBoundaries_clamp` says what a clamp does: it keeps the
first boundaries of the unclamped line.
-/

namespace FcGpui

structure ShapedGlyph (U : Type) where
  id : Nat
  position : Point U
  index : Nat
  isEmoji : Bool
deriving DecidableEq

structure ShapedRun (U I : Type) where
  fontId : I
  glyphs : List (ShapedGlyph U)
deriving DecidableEq

structure LineLayout (U I : Type) where
  fontSize : U
  width : U
  ascent : U
  descent : U
  runs : List (ShapedRun U I)
  len : Nat
deriving DecidableEq

structure WrapBoundary where
  runIx : Nat
  glyphIx : Nat
deriving DecidableEq

/-- The derived order: run first, then glyph. -/
def WrapBoundary.lt (a b : WrapBoundary) : Bool :=
  decide (a.runIx < b.runIx ∨ (a.runIx = b.runIx ∧ a.glyphIx < b.glyphIx))

/-- `text[index..].chars().next().unwrap()`. -/
def charAt : List Char → Nat → Option Char
  | [], _ => none
  | c :: _, 0 => some c
  | c :: text, index => if index < c.utf8Size then none else charAt text (index - c.utf8Size)

def charIn (lo hi : Nat) (c : Char) : Bool := decide (lo ≤ c.toNat) && decide (c.toNat ≤ hi)

/-- `LineWrapper::is_word_char`. -/
def isWordChar (c : Char) : Bool :=
  c.isAlphanum || charIn 0x00C0 0x00FF c || charIn 0x0100 0x017F c || charIn 0x0180 0x024F c
    || charIn 0x0400 0x04FF c
    || ['-', '_', '.', Char.ofNat 0x27, '’', '‘', '$', '%', '@', '#', '^', '~', ',', '!', ';',
      '*'].contains c
    || ['/', ':', '?', '&', '='].contains c
    || [')', ']', '}', Char.ofNat 0x22, '”', '»', '…'].contains c
    || c == '⋯'
    || [0x202F, 0x00A0, 0x2011].contains c.toNat

namespace LineLayout

variable {U I : Type}

/-- The glyphs of all runs, with their places. -/
def placedGlyphs (line : LineLayout U I) : List (WrapBoundary × ShapedGlyph U) :=
  (line.runs.zipIdx).flatMap fun (run, runIx) =>
    (run.glyphs.zipIdx).map fun (glyph, glyphIx) => (⟨runIx, glyphIx⟩, glyph)

/-- The variables of the loop of `compute_wrap_boundaries`. -/
structure WrapState (U : Type) where
  boundaries : List WrapBoundary
  sawNonWhitespace : Bool
  lastCandidate : Option (WrapBoundary × U)
  lastBoundary : WrapBoundary
  lastBoundaryX : U
  prevCh : Char

/-- A place where the line may be broken in front of `ch`. -/
def candidate (st : WrapState U) (ch : Char) : Bool :=
  st.sawNonWhitespace &&
    (if isWordChar ch then st.prevCh == ' ' && ch != ' ' else ch != ' ')

/-- Whether another boundary would be one too many. -/
def clamped (maxLines : Option Nat) (n : Nat) : Bool :=
  match maxLines with
  | some maxLines => decide (maxLines - 1 ≤ n)
  | none => false

/-- Breaks the line at a place. -/
def WrapState.cut (st : WrapState U) (place : WrapBoundary × U) : WrapState U :=
  { st with
    boundaries := st.boundaries ++ [place.1]
    lastBoundary := place.1
    lastBoundaryX := place.2 }

section Wrap

variable [Sub U] [LT U] [DecidableLT U]

/-- Where the current glyph ends: the next one, whose character is read on the
way, or the end of the line. -/
def peekX (text : List Char) (width : U) : List (WrapBoundary × ShapedGlyph U) → Option U
  | [] => some width
  | (_, next) :: _ => (charAt text next.index).map fun _ => next.position.x

/-- One glyph of the loop: the state after it, and where to break if the row is
too wide with it. -/
def wrapStep (text : List Char) (width wrapWidth : U) (boundary : WrapBoundary)
    (glyph : ShapedGlyph U) (rest : List (WrapBoundary × ShapedGlyph U)) (st : WrapState U) :
    Option (Option (WrapBoundary × U) × WrapState U) := do
  let ch ← charAt text glyph.index
  if ch = '\n' then some (none, st)
  else
    let x := glyph.position.x
    let lastCandidate := if candidate st ch then some (boundary, x) else st.lastCandidate
    let nextX ← peekX text width rest
    let st := { st with
      lastCandidate := lastCandidate
      sawNonWhitespace := st.sawNonWhitespace || ch != ' '
      prevCh := ch }
    if wrapWidth < nextX - st.lastBoundaryX ∧ st.lastBoundary.lt boundary = true then
      some (some (lastCandidate.getD (boundary, x)), { st with lastCandidate := none })
    else some (none, st)

def wrapLoop (text : List Char) (width wrapWidth : U) (maxLines : Option Nat) :
    List (WrapBoundary × ShapedGlyph U) → WrapState U → Option (List WrapBoundary)
  | [], st => some st.boundaries
  | (boundary, glyph) :: rest, st => do
    let (place, st) ← wrapStep text width wrapWidth boundary glyph rest st
    match place with
    | none => wrapLoop text width wrapWidth maxLines rest st
    | some place =>
      if clamped maxLines st.boundaries.length then some st.boundaries
      else wrapLoop text width wrapWidth maxLines rest (st.cut place)

def computeWrapBoundaries [Zero U] (line : LineLayout U I) (text : List Char) (wrapWidth : U)
    (maxLines : Option Nat) : Option (List WrapBoundary) :=
  wrapLoop text line.width wrapWidth maxLines line.placedGlyphs
    ⟨[], false, none, ⟨0, 0⟩, 0, Char.ofNat 0⟩

/-! ### What a clamp does -/

/-- The boundaries a clamp allows. -/
def clamp (maxLines : Option Nat) (l : List WrapBoundary) : List WrapBoundary :=
  match maxLines with
  | some maxLines => l.take (maxLines - 1)
  | none => l

variable {width wrapWidth : U}

variable {text : List Char}

theorem wrapStep_boundaries {boundary : WrapBoundary}
    {glyph : ShapedGlyph U} {rest : List (WrapBoundary × ShapedGlyph U)} {st st' : WrapState U}
    {place : Option (WrapBoundary × U)}
    (h : wrapStep text width wrapWidth boundary glyph rest st = some (place, st')) :
    st'.boundaries = st.boundaries := by
  rw [wrapStep] at h
  obtain ⟨ch, -, h⟩ := Option.bind_eq_some_iff.mp h
  split at h
  · obtain ⟨-, rfl⟩ := Prod.mk.inj (Option.some.inj h)
    rfl
  · obtain ⟨nextX, -, h⟩ := Option.bind_eq_some_iff.mp h
    dsimp only at h
    split at h
    · obtain ⟨-, rfl⟩ := Prod.mk.inj (Option.some.inj h)
      rfl
    · obtain ⟨-, rfl⟩ := Prod.mk.inj (Option.some.inj h)
      rfl

theorem wrapLoop_extends {maxLines : Option Nat} :
    ∀ (l : List (WrapBoundary × ShapedGlyph U)) (st : WrapState U) (bs : List WrapBoundary),
      wrapLoop text width wrapWidth maxLines l st = some bs → st.boundaries <+: bs := by
  intro l
  induction l with
  | nil =>
    intro st bs h
    rw [← Option.some.inj h]
  | cons g rest ih =>
    intro st bs h
    obtain ⟨boundary, glyph⟩ := g
    rw [wrapLoop] at h
    obtain ⟨⟨place, st'⟩, hstep, h⟩ := Option.bind_eq_some_iff.mp h
    rw [← wrapStep_boundaries hstep]
    cases place with
    | none => exact ih st' bs h
    | some place =>
      simp only at h
      split at h
      · rw [← Option.some.inj h]
      · exact (List.prefix_append _ _).trans (ih _ bs h)

theorem wrapLoop_clamp (maxLines : Option Nat) :
    ∀ (l : List (WrapBoundary × ShapedGlyph U)) (st : WrapState U) (bs : List WrapBoundary),
      wrapLoop text width wrapWidth none l st = some bs →
      clamp maxLines st.boundaries = st.boundaries →
      wrapLoop text width wrapWidth maxLines l st = some (clamp maxLines bs) := by
  intro l
  induction l with
  | nil =>
    intro st bs h hst
    obtain rfl := Option.some.inj h
    rw [hst]
    rfl
  | cons g rest ih =>
    intro st bs h hst
    obtain ⟨boundary, glyph⟩ := g
    rw [wrapLoop] at h ⊢
    obtain ⟨⟨place, st'⟩, hstep, h⟩ := Option.bind_eq_some_iff.mp h
    have hb := wrapStep_boundaries hstep
    simp only [hstep, Option.bind_eq_bind, Option.bind_some] at h ⊢
    cases place with
    | none => exact ih st' bs h (by rw [hb, hst])
    | some place =>
      have hunclamped : clamped none st'.boundaries.length = false := rfl
      simp only [hunclamped, Bool.false_eq_true, if_false] at h
      cases maxLines with
      | none => exact ih _ bs h rfl
      | some m =>
        by_cases hfull : m - 1 ≤ st'.boundaries.length
        · have hpre := (List.prefix_append st'.boundaries [place.1]).trans (wrapLoop_extends _ _ _ h)
          have hlen : st'.boundaries.length = m - 1 := by
            have := congrArg List.length hst
            rw [clamp, List.length_take, ← hb] at this
            omega
          have hc : clamped (some m) st'.boundaries.length = true := by simpa [clamped] using hfull
          simp only [hc, if_true]
          rw [clamp, ← hlen, ← List.prefix_iff_eq_take.mp hpre]
        · have hc : clamped (some m) st'.boundaries.length = false := by
            simpa [clamped] using hfull
          simp only [hc, Bool.false_eq_true, if_false]
          refine ih _ bs h (List.take_of_length_le ?_)
          rw [WrapState.cut, List.length_append, List.length_singleton]
          omega

/-- A clamped line has fewer boundaries than it may have rows. -/
theorem wrapLoop_length_le {maxLines : Nat} :
    ∀ (l : List (WrapBoundary × ShapedGlyph U)) (st : WrapState U) (bs : List WrapBoundary),
      wrapLoop text width wrapWidth (some maxLines) l st = some bs →
      st.boundaries.length ≤ maxLines - 1 → bs.length ≤ maxLines - 1 := by
  intro l
  induction l with
  | nil =>
    intro st bs h hst
    rw [← Option.some.inj h]
    exact hst
  | cons g rest ih =>
    intro st bs h hst
    obtain ⟨boundary, glyph⟩ := g
    rw [wrapLoop] at h
    obtain ⟨⟨place, st'⟩, hstep, h⟩ := Option.bind_eq_some_iff.mp h
    rw [← wrapStep_boundaries hstep] at hst
    cases place with
    | none => exact ih st' bs h hst
    | some place =>
      simp only at h
      split at h
      · rw [← Option.some.inj h]
        exact hst
      · rename_i hroom
        have hroom : ¬ maxLines - 1 ≤ st'.boundaries.length := by simpa [clamped] using hroom
        refine ih _ bs h ?_
        rw [WrapState.cut, List.length_append, List.length_singleton]
        omega

/-- The clamp counts through the number of boundaries it allows. -/
theorem wrapLoop_congr {a b : Option Nat} (h : a.map (· - 1) = b.map (· - 1)) :
    ∀ (l : List (WrapBoundary × ShapedGlyph U)) (st : WrapState U),
      wrapLoop text width wrapWidth a l st = wrapLoop text width wrapWidth b l st := by
  have hclamped : ∀ n, clamped a n = clamped b n := by
    intro n
    cases a with
    | none => cases b with
      | none => rfl
      | some _ => exact absurd h (by simp)
    | some a => cases b with
      | none => exact absurd h (by simp)
      | some b =>
        have hab : a - 1 = b - 1 := Option.some.inj h
        rw [clamped, clamped, hab]
  intro l
  induction l with
  | nil => intro st; rfl
  | cons g rest ih =>
    intro st
    obtain ⟨boundary, glyph⟩ := g
    simp only [wrapLoop, ih, hclamped]

/-- **A clamp keeps the first boundaries of the unclamped line.** -/
theorem computeWrapBoundaries_clamp [Zero U] {line : LineLayout U I} {bs : List WrapBoundary}
    (h : line.computeWrapBoundaries text wrapWidth none = some bs) (maxLines : Option Nat) :
    line.computeWrapBoundaries text wrapWidth maxLines = some (clamp maxLines bs) := by
  refine wrapLoop_clamp maxLines _ _ bs h ?_
  cases maxLines with
  | none => rfl
  | some m => exact List.take_nil

theorem computeWrapBoundaries_length_le [Zero U] {line : LineLayout U I}
    {maxLines : Nat} {bs : List WrapBoundary}
    (h : line.computeWrapBoundaries text wrapWidth (some maxLines) = some bs) : bs.length ≤ maxLines - 1 :=
  wrapLoop_length_le _ _ bs h (Nat.zero_le _)

end Wrap

/-! ### Moving the glyphs -/

/-- Moves every glyph in turn, over all runs. -/
def moveGlyphs {σ : Type} (move : σ → U → σ × U) : σ → List (ShapedRun U I) → σ × List (ShapedRun U I)
  | s, [] => (s, [])
  | s, run :: runs =>
    let (s, glyphs) := run.glyphs.foldl (fun (s, glyphs) glyph =>
      let (s, x) := move s glyph.position.x
      (s, glyphs ++ [{ glyph with position := ⟨x, glyph.position.y⟩ }])) (s, [])
    let (s, runs) := moveGlyphs move s runs
    (s, { run with glyphs := glyphs } :: runs)

section Passes

variable [Field U] [LinearOrder U]

/-- Whether a glyph at `x` starts a new cell; `none` stands for `NEG_INFINITY`. -/
def startsCell (forceWidth : U) (lastBaseX : Option U) (x : U) : Bool :=
  match lastBaseX with
  | none => true
  | some last => decide (last + forceWidth / 2 < x)

/-- One glyph of `apply_force_width_to_layout`.  The state is the number of cells
and where the last one was shaped and put. -/
def forceWidthMove (forceWidth : U) (s : Nat × Option U × U) (shapedX : U) :
    (Nat × Option U × U) × U :=
  let (glyphPos, lastBaseShapedX, lastBaseActualX) := s
  if startsCell forceWidth lastBaseShapedX shapedX then
    let forcedX := (glyphPos : U) * forceWidth
    let x := if 1 < |shapedX - forcedX| then forcedX else shapedX
    ((glyphPos + 1, some shapedX, x), x)
  else (s, lastBaseActualX + (shapedX - lastBaseShapedX.getD 0))

def applyForceWidthToLayout (forceWidth : U) (layout : LineLayout U I) : LineLayout U I :=
  { layout with runs := (moveGlyphs (forceWidthMove forceWidth) (0, none, 0) layout.runs).2 }

/-- One glyph of `apply_letter_spacing_to_layout` under a forced width.  The
state is the number of cells, where the last one was, and its spacing. -/
def spacingMove (spacing forceWidth : U) (s : Nat × Option U × U) (x : U) :
    (Nat × Option U × U) × U :=
  let (count, lastBaseX, lastBaseSpacing) := s
  if startsCell forceWidth lastBaseX x then
    ((count + 1, some x, spacing * (count : U)), x + spacing * (count : U))
  else (s, x + lastBaseSpacing)

def applyLetterSpacingToLayout (spacing : U) (forceWidth : Option U) (layout : LineLayout U I) :
    LineLayout U I :=
  let (glyphCount, runs) : Nat × List (ShapedRun U I) := match forceWidth with
    | some forceWidth =>
      let moved := moveGlyphs (spacingMove spacing forceWidth) (0, none, 0) layout.runs
      (moved.1.1, moved.2)
    | none =>
      moveGlyphs (fun (count : Nat) (x : U) => (count + 1, x + spacing * (count : U))) 0 layout.runs
  { layout with
    runs := runs
    width := if 1 < glyphCount then layout.width + spacing * ((glyphCount - 1 : Nat) : U)
      else layout.width }

end Passes

end LineLayout

end FcGpui
