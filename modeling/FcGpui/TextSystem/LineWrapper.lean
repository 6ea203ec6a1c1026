import FcGpui.Lib.Chunks
import FcGpui.TextSystem.LineLayout

/-!
# The line wrapper

`crates/gpui/src/text_system/line_wrapper.rs`: where a line of text and inline elements is
wrapped.  A text is the list of its characters, and widths are exact.  The width of a
character, which the source asks the platform for and remembers, is a
function of the character.

`wrapLine` is an iterator: a call of `next` walks over the items up to a boundary.
`wrapLine_ends` says that it comes to an end.
-/

namespace FcGpui.LineWrapper

/-- The bytes of a text. -/
abbrev textLen (chars : List Char) : Nat := span Char.utf8Size chars

theorem textLen_append (front rest : List Char) : textLen (front ++ rest) = textLen front + textLen rest :=
  span_append _ front rest

inductive IndentAdjustment
  | noIndent
  | sameIndent
  | extraColumns (extra : Nat)
deriving DecidableEq

inductive LineFragment (U : Type)
  | text (chars : List Char)
  | element (width : U) (lenUtf8 : Nat)

inductive WrapBoundaryCandidate (U : Type)
  | char (character : Char)
  | element (width : U) (lenUtf8 : Nat)

/-- Where a row ends, and the indent of the next one. -/
structure Boundary where
  ix : Nat
  nextIndent : Nat
deriving DecidableEq

def maxIndent : Nat := 256

/-- `u32::saturating_add`. -/
def saturatingAdd (a b : Nat) : Nat := min (a + b) (2 ^ 32 - 1)

variable {U : Type}

def LineFragment.wrapBoundaryCandidates : LineFragment U → List (WrapBoundaryCandidate U)
  | text chars => chars.map .char
  | element width lenUtf8 => [.element width lenUtf8]

def WrapBoundaryCandidate.lenUtf8 : WrapBoundaryCandidate U → Nat
  | char character => character.utf8Size
  | element _ len => len

/-- The variables of `wrap_line`. -/
structure WrapLine (U : Type) where
  width : U
  firstNonWhitespaceIx : Option Nat
  baseIndent : Option Nat
  lastCandidateIx : Nat
  lastCandidateWidth : U
  lastWrapIx : Nat
  prevC : Char
  index : Nat

namespace WrapLine

/-- The row can be wrapped in front of the item at an index. -/
def mark (s : WrapLine U) (ix : Nat) (opportunity : Bool) : WrapLine U :=
  if opportunity then { s with lastCandidateIx := ix, lastCandidateWidth := s.width } else s

/-- The first item that is not a space, counted from the first row. -/
def seeNonWhitespace (s : WrapLine U) (ix : Nat) (nonWhitespace : Bool) : WrapLine U :=
  if nonWhitespace ∧ s.firstNonWhitespaceIx.isNone then { s with firstNonWhitespaceIx := some ix } else s

/-- Whether there is an opportunity in front of an item. -/
def opportunity (s : WrapLine U) : WrapBoundaryCandidate U → Bool
  | .char c => s.firstNonWhitespaceIx.isSome && (if isWordChar c then s.prevC == ' ' && c != ' ' else c != ' ')
  | .element _ _ => s.firstNonWhitespaceIx.isSome && s.prevC == ' '

/-- What is done with an item before it is added to the row: the variables, what the previous character
will be and the width of the item.  A newline is skipped. -/
def visit (widthForChar : Char → U) (s : WrapLine U) (ix : Nat) (candidate : WrapBoundaryCandidate U) :
    Option (WrapLine U × Char × U) :=
  match candidate with
  | .char c =>
    if c = '\n' then none
    else some ((s.mark ix (s.opportunity candidate)).seeNonWhitespace ix (c != ' '), c, widthForChar c)
  | .element width _ =>
    some ((s.mark ix (s.opportunity candidate)).seeNonWhitespace ix true, s.prevC, width)

section

variable [Field U] [LinearOrder U]

/-- The indent of the next row. -/
def nextIndent (widthForChar : Char → U) (wrapWidth carriedWidth : U) (baseIndent : Option Nat) :
    IndentAdjustment → Nat
  | .noIndent => 0
  | .sameIndent => baseIndent.getD 0
  | .extraColumns extra =>
    match baseIndent with
    | none => 0
    | some baseIndent =>
      let candidate := saturatingAdd baseIndent extra
      let candidateIndentWidth := widthForChar ' ' * (candidate : U)
      let minHeadroom := max carriedWidth (widthForChar ' ' * ((2 : Nat) : U))
      if wrapWidth < candidateIndentWidth + minHeadroom then 0 else min maxIndent candidate

/-- The row is closed, at the item at `ix` or at the last opportunity. -/
def wrap (widthForChar : Char → U) (wrapWidth : U) (indentAdjustment : IndentAdjustment) (s : WrapLine U)
    (ix : Nat) (itemWidth : U) : Boundary × WrapLine U :=
  let wrapAtCandidate : Bool := 0 < s.lastCandidateIx ∧ s.width - s.lastCandidateWidth ≤ wrapWidth
  let carriedWidth := if wrapAtCandidate then s.width - s.lastCandidateWidth else itemWidth
  let baseIndent := s.baseIndent.or
    (s.firstNonWhitespaceIx.map fun first => min maxIndent (asU32 (first - s.lastWrapIx)))
  let nextIndent := nextIndent widthForChar wrapWidth carriedWidth baseIndent indentAdjustment
  let lastWrapIx := if wrapAtCandidate then s.lastCandidateIx else ix
  (⟨lastWrapIx, nextIndent⟩,
    { s with
      baseIndent := baseIndent
      lastWrapIx := lastWrapIx
      lastCandidateIx := 0
      width := carriedWidth + widthForChar ' ' * (nextIndent : U) })

/-- One item of the loop.  The previous character is not updated when the row is closed. -/
def step (widthForChar : Char → U) (wrapWidth : U) (indentAdjustment : IndentAdjustment)
    (candidate : WrapBoundaryCandidate U) (s : WrapLine U) : Option Boundary × WrapLine U :=
  let ix := s.index
  let s := { s with index := s.index + candidate.lenUtf8 }
  match s.visit widthForChar ix candidate with
  | none => (none, s)
  | some (s, newPrevC, itemWidth) =>
    let s := { s with width := s.width + itemWidth }
    if wrapWidth < s.width ∧ s.lastWrapIx < ix then
      let (boundary, s) := s.wrap widthForChar wrapWidth indentAdjustment ix itemWidth
      (some boundary, s)
    else (none, { s with prevC := newPrevC })

/-- A call of the closure: the boundary, the items that are left and the variables. -/
def next (widthForChar : Char → U) (wrapWidth : U) (indentAdjustment : IndentAdjustment) :
    List (WrapBoundaryCandidate U) → WrapLine U →
    Option (Boundary × List (WrapBoundaryCandidate U) × WrapLine U)
  | [], _ => none
  | candidate :: rest, s =>
    match s.step widthForChar wrapWidth indentAdjustment candidate with
    | (some boundary, s) => some (boundary, rest, s)
    | (none, s) => next widthForChar wrapWidth indentAdjustment rest s

/-- The boundaries of a number of calls, if the last one of them has returned `None`. -/
def collect (widthForChar : Char → U) (wrapWidth : U) (indentAdjustment : IndentAdjustment) :
    Nat → List (WrapBoundaryCandidate U) → WrapLine U → Option (List Boundary)
  | 0, _, _ => none
  | calls + 1, candidates, s =>
    match next widthForChar wrapWidth indentAdjustment candidates s with
    | none => some []
    | some (boundary, candidates, s) =>
      (collect widthForChar wrapWidth indentAdjustment calls candidates s).map (boundary :: ·)

def start : WrapLine U := ⟨0, none, none, 0, 0, 0, Char.ofNat 0, 0⟩

end

end WrapLine

def candidates (fragments : List (LineFragment U)) : List (WrapBoundaryCandidate U) :=
  fragments.flatMap LineFragment.wrapBoundaryCandidates

variable [Field U] [LinearOrder U]

/-- The boundaries of a line, for a number of calls of the iterator. -/
def wrapLine (widthForChar : Char → U) (fragments : List (LineFragment U)) (wrapWidth : U)
    (indentAdjustment : IndentAdjustment) (calls : Nat) : Option (List Boundary) :=
  WrapLine.collect widthForChar wrapWidth indentAdjustment calls (candidates fragments) WrapLine.start

/-! ### The iterator ends -/

namespace WrapLine

/-- The boundaries that all calls together return. -/
def boundaries (widthForChar : Char → U) (wrapWidth : U) (indentAdjustment : IndentAdjustment) :
    List (WrapBoundaryCandidate U) → WrapLine U → List Boundary
  | [], _ => []
  | candidate :: rest, s =>
    let stepped := s.step widthForChar wrapWidth indentAdjustment candidate
    stepped.1.toList ++ boundaries widthForChar wrapWidth indentAdjustment rest stepped.2

theorem next_eq_none {widthForChar : Char → U} {wrapWidth : U} {indentAdjustment : IndentAdjustment} :
    ∀ {l : List (WrapBoundaryCandidate U)} {s : WrapLine U},
      next widthForChar wrapWidth indentAdjustment l s = none →
      boundaries widthForChar wrapWidth indentAdjustment l s = [] := by
  intro l
  induction l with
  | nil => intro s _; rfl
  | cons candidate rest ih =>
    intro s h
    rw [next] at h
    rw [boundaries]
    rcases hstep : s.step widthForChar wrapWidth indentAdjustment candidate with ⟨boundary, s'⟩
    rw [hstep] at h
    cases boundary with
    | some boundary => exact absurd h (Option.some_ne_none _)
    | none => exact ih h

theorem next_eq_some {widthForChar : Char → U} {wrapWidth : U} {indentAdjustment : IndentAdjustment}
    {boundary : Boundary} {rest' : List (WrapBoundaryCandidate U)} {s'' : WrapLine U} :
    ∀ {l : List (WrapBoundaryCandidate U)} {s : WrapLine U},
      next widthForChar wrapWidth indentAdjustment l s = some (boundary, rest', s'') →
      rest'.length < l.length ∧ boundaries widthForChar wrapWidth indentAdjustment l s =
        boundary :: boundaries widthForChar wrapWidth indentAdjustment rest' s'' := by
  intro l
  induction l with
  | nil => intro s h; exact absurd h.symm (Option.some_ne_none _)
  | cons candidate rest ih =>
    intro s h
    rw [next] at h
    rw [boundaries]
    rcases hstep : s.step widthForChar wrapWidth indentAdjustment candidate with ⟨first, s'⟩
    rw [hstep] at h
    cases first with
    | some first =>
      obtain ⟨rfl, heq⟩ := Prod.mk.inj (Option.some.inj h)
      obtain ⟨rfl, rfl⟩ := Prod.mk.inj heq
      exact ⟨Nat.lt_succ_self _, rfl⟩
    | none =>
      obtain ⟨hshorter, hboundaries⟩ := ih h
      exact ⟨hshorter.trans (Nat.lt_succ_self _), hboundaries⟩

theorem collect_eq (widthForChar : Char → U) (wrapWidth : U) (indentAdjustment : IndentAdjustment) :
    ∀ (calls : Nat) (l : List (WrapBoundaryCandidate U)) (s : WrapLine U), l.length < calls →
      collect widthForChar wrapWidth indentAdjustment calls l s =
        some (boundaries widthForChar wrapWidth indentAdjustment l s) := by
  intro calls
  induction calls with
  | zero => intro l s h; exact absurd h (Nat.not_lt_zero _)
  | succ calls ih =>
    intro l s h
    rw [collect]
    rcases hnext : next widthForChar wrapWidth indentAdjustment l s with _ | ⟨boundary, rest, s'⟩
    · rw [next_eq_none hnext]
    · obtain ⟨hshorter, hboundaries⟩ := next_eq_some hnext
      dsimp only
      rw [ih rest s' (by omega), hboundaries, Option.map_some]

end WrapLine

/-- **The iterator ends** after no more calls than there are items, and one. -/
theorem wrapLine_ends (widthForChar : Char → U) (fragments : List (LineFragment U)) (wrapWidth : U)
    (indentAdjustment : IndentAdjustment) {calls : Nat} (h : (candidates fragments).length < calls) :
    wrapLine widthForChar fragments wrapWidth indentAdjustment calls =
      some (WrapLine.boundaries widthForChar wrapWidth indentAdjustment (candidates fragments) WrapLine.start) :=
  WrapLine.collect_eq widthForChar wrapWidth indentAdjustment calls _ _ h

/-- Every character has the width one. -/
def unitWidth (_ : Char) : ℚ := 1

end FcGpui.LineWrapper
