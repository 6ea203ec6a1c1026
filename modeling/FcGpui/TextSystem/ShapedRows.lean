import FcGpui.TextSystem.ClosestIndex

/-!
# The rows of a shaped line

`LineLayout::compute_wrap_boundaries` in `crates/gpui/src/text_system/line_layout.rs` closes a
row at a candidate that it has passed.  The glyphs that are carried over to the next row are not
compared with the width again, as `LineWrapper::wrap_line` does, and neither are newlines.

`InRow` says what the variables of the loop are in the middle of a row, and `InRow.step` what one
glyph does.  A row that is too wide, with no way out, stays too wide: `InRow.not_fits`.

**Main result.**  `computeWrapBoundaries_fits_iff`.
-/

namespace FcGpui

theorem WrapBoundary.lt_irrefl (a : WrapBoundary) : ¬a.lt a = true := by
  simp [WrapBoundary.lt]

namespace LineLayout

variable {U I : Type}

/-- A glyph and its place. -/
abbrev Placed (U : Type) := WrapBoundary × ShapedGlyph U

/-- Where a row starts, its glyphs, and where it ends. -/
structure Row (U : Type) where
  start : U
  glyphs : List (Placed U)
  stop : U

/-- The rows from one on, in a line of a width. -/
def rowsFrom (width start : U) : List WrapBoundary → List (Placed U) → List (Row U)
  | [], glyphs => [⟨start, glyphs, width⟩]
  | b :: bs, glyphs =>
    match glyphs.dropWhile fun g => g.1 ≠ b with
    | [] => [⟨start, glyphs, width⟩]
    | first :: rest => ⟨start, glyphs.takeWhile fun g => g.1 ≠ b, first.2.position.x⟩ ::
        rowsFrom width first.2.position.x bs (first :: rest)

def rows [Zero U] (line : LineLayout U I) (bs : List WrapBoundary) : List (Row U) :=
  rowsFrom line.width 0 bs line.placedGlyphs

/-- Where the glyph in front ends. -/
def nextX (width : U) : List (Placed U) → U
  | [] => width
  | (_, next) :: _ => next.position.x

/-- The next character that is not a newline. -/
def nextChar (text : List Char) : List (Placed U) → Option Char
  | [] => none
  | (_, glyph) :: rest =>
    if charAt text glyph.index = some '\n' then nextChar text rest else charAt text glyph.index

/-- The variables once a glyph that is not a newline has been looked at. -/
def WrapState.visit (st : WrapState U) (ch : Char) (place : WrapBoundary × U) : WrapState U :=
  { st with
    lastCandidate := if candidate st ch then some place else st.lastCandidate
    sawNonWhitespace := st.sawNonWhitespace || ch != ' '
    prevCh := ch }

def WrapState.start [Zero U] : WrapState U := ⟨[], false, none, ⟨0, 0⟩, 0, Char.ofNat 0⟩

section

variable [Field U] [LinearOrder U]

/-- A row is not too wide, or it is a single glyph. -/
def Row.Fits (wrapWidth : U) (row : Row U) : Prop := row.stop - row.start ≤ wrapWidth ∨ row.glyphs.length = 1

/-- The line ends in the row: all glyphs but the last one are newlines. -/
def EndsWithin (text : List Char) (width wrapWidth start : U) (rest : List (Placed U)) : Prop :=
  (∀ g ∈ rest.dropLast, charAt text g.2.index = some '\n') ∧ width - start ≤ wrapWidth

/-- The row has room for its glyphs, or will be closed at a candidate that it has passed. -/
def HasRoom (text : List Char) (width wrapWidth : U) (st : WrapState U) (rest : List (Placed U)) : Prop :=
  nextX width rest - st.lastBoundaryX ≤ wrapWidth ∨ EndsWithin text width wrapWidth st.lastBoundaryX rest ∨
    st.lastCandidate ≠ none ∧ ∃ ch ∈ nextChar text rest, candidate st ch = false

/-- A character closes the row at a place that has been passed. -/
def ClosesBehind (wrapWidth nextX : U) (st : WrapState U) (ch : Char) (place : WrapBoundary × U) : Prop :=
  ch ≠ '\n' ∧ candidate st ch = false ∧ st.lastCandidate = some place ∧ wrapWidth < nextX - st.lastBoundaryX

/-- There is room behind every newline, and for what is carried over to the next row. -/
def Rechecked (text : List Char) (width wrapWidth : U) : List (Placed U) → WrapState U → Prop
  | [], _ => True
  | (boundary, glyph) :: rest, st =>
    (∀ ch ∈ charAt text glyph.index, (ch = '\n' → HasRoom text width wrapWidth st rest) ∧
      ∀ place, ClosesBehind wrapWidth (nextX width rest) st ch place →
        nextX width rest - place.2 ≤ wrapWidth ∨ EndsWithin text width wrapWidth place.2 rest) ∧
    ∀ place st', wrapStep text width wrapWidth boundary glyph rest st = some (place, st') →
      Rechecked text width wrapWidth rest (place.elim st' st'.cut)

/-- The first glyph of a line closes a row without glyphs: it is not in the first run, and has no room. -/
def ClosesEmpty (text : List Char) (width wrapWidth : U) (g : Placed U) (rest : List (Placed U)) : Prop :=
  charAt text g.2.index ≠ some '\n' ∧ WrapBoundary.lt ⟨0, 0⟩ g.1 = true ∧ wrapWidth < nextX width rest

/-- No row without glyphs is too wide, and the others are checked behind their first glyph. -/
def Checked (text : List Char) (width wrapWidth : U) : List (Placed U) → Prop
  | [] => width ≤ wrapWidth
  | g :: rest => (ClosesEmpty text width wrapWidth g rest → g.2.position.x ≤ wrapWidth) ∧
      ∀ place st', wrapStep text width wrapWidth g.1 g.2 rest .start = some (place, st') →
        Rechecked text width wrapWidth rest (place.elim st' st'.cut)

variable {text : List Char} {width wrapWidth : U} {st st' : WrapState U} {row rest : List (Placed U)} {g : Placed U}
  {ch : Char}

/-! ### One glyph -/

omit [Field U] [LinearOrder U] in
/-- Every glyph has a character. -/
def Readable (text : List Char) (glyphs : List (Placed U)) : Prop :=
  ∀ g ∈ glyphs, ∃ ch, charAt text g.2.index = some ch

omit [Field U] [LinearOrder U] in
theorem Readable.peekX (h : Readable text rest) : peekX text width rest = some (nextX width rest) := by
  cases rest with
  | nil => rfl
  | cons next rest =>
    obtain ⟨ch, hch⟩ := h next List.mem_cons_self
    rw [LineLayout.peekX, hch]
    rfl

theorem wrapStep_newline (h : charAt text g.2.index = some '\n') :
    wrapStep text width wrapWidth g.1 g.2 rest st = some (none, st) := by
  rw [wrapStep, h, Option.bind_eq_bind, Option.bind_some, if_pos rfl]

theorem wrapStep_glyph (width wrapWidth : U) (st : WrapState U) (h : Readable text rest)
    (hch : charAt text g.2.index = some ch) (hnewline : ch ≠ '\n') :
    wrapStep text width wrapWidth g.1 g.2 rest st =
      some (if wrapWidth < nextX width rest - st.lastBoundaryX ∧ st.lastBoundary.lt g.1 = true then
          (some ((st.visit ch (g.1, g.2.position.x)).lastCandidate.getD (g.1, g.2.position.x)),
            { st.visit ch (g.1, g.2.position.x) with lastCandidate := none })
        else (none, st.visit ch (g.1, g.2.position.x))) := by
  rw [wrapStep, hch]
  simp only [Option.bind_eq_bind, Option.bind_some, h.peekX, if_neg hnewline]
  exact (apply_ite some _ _ _).symm

theorem wrapLoop_step {place : Option (WrapBoundary × U)}
    (h : wrapStep text width wrapWidth g.1 g.2 rest st = some (place, st')) :
    wrapLoop text width wrapWidth none (g :: rest) st =
      wrapLoop text width wrapWidth none rest (place.elim st' st'.cut) := by
  obtain ⟨boundary, glyph⟩ := g
  rw [wrapLoop, h]
  cases place <;> rfl

/-! ### In the middle of a row -/

omit [Field U] in
/-- Places and positions increase. -/
def Increases (glyphs : List (Placed U)) : Prop :=
  glyphs.Pairwise fun a b => a.1.lt b.1 = true ∧ a.2.position.x < b.2.position.x

omit [Field U] in
/-- The variables of the loop, for the glyphs of the current row and those to come. -/
structure InRow (text : List Char) (st : WrapState U) (row rest : List (Placed U)) : Prop where
  readable : Readable text rest
  increases : Increases (row ++ rest)
  started : row ≠ []
  behind : ∀ g ∈ rest, st.lastBoundary.lt g.1 = true
  marked : ∀ place ∈ st.lastCandidate, ∃ front c back, row = front ++ c :: back ∧ front ≠ [] ∧
    place = (c.1, c.2.position.x)

/-- The variables once a row has been closed at a place. -/
def WrapState.close (st : WrapState U) (ch : Char) (g : Placed U) (place : WrapBoundary × U) : WrapState U :=
  { st.visit ch (g.1, g.2.position.x) with lastCandidate := none }.cut place

/-- A glyph closes the row at a place. -/
def Closes (text : List Char) (width wrapWidth : U) (st : WrapState U) (ch : Char) (g : Placed U)
    (rest : List (Placed U)) (place : WrapBoundary × U) : Prop :=
  ∃ st', wrapStep text width wrapWidth g.1 g.2 rest st = some (some place, st') ∧ st'.cut place = st.close ch g place

/-- What a glyph does in the middle of a row. -/
inductive Moves (text : List Char) (width wrapWidth : U) (st : WrapState U) (row : List (Placed U)) (g : Placed U)
    (rest : List (Placed U)) : Prop
  | newline (hch : charAt text g.2.index = some '\n')
    (hstep : wrapStep text width wrapWidth g.1 g.2 rest st = some (none, st)) (hrow : InRow text st (row ++ [g]) rest)
  | stays (ch : Char) (hch : charAt text g.2.index = some ch) (hnewline : ch ≠ '\n')
    (hroom : nextX width rest - st.lastBoundaryX ≤ wrapWidth)
    (hstep : wrapStep text width wrapWidth g.1 g.2 rest st = some (none, st.visit ch (g.1, g.2.position.x)))
    (hrow : InRow text (st.visit ch (g.1, g.2.position.x)) (row ++ [g]) rest)
  | here (ch : Char) (hch : charAt text g.2.index = some ch) (hnewline : ch ≠ '\n')
    (hwide : wrapWidth < nextX width rest - st.lastBoundaryX) (hlast : candidate st ch = true ∨ st.lastCandidate = none)
    (hstep : Closes text width wrapWidth st ch g rest (g.1, g.2.position.x))
    (hrow : InRow text (st.close ch g (g.1, g.2.position.x)) [g] rest)
  | behind (ch : Char) (hch : charAt text g.2.index = some ch) (front : List (Placed U)) (c : Placed U)
    (back : List (Placed U)) (hsplit : row = front ++ c :: back) (hfront : front ≠ [])
    (hcloses : ClosesBehind wrapWidth (nextX width rest) st ch (c.1, c.2.position.x))
    (hstep : Closes text width wrapWidth st ch g rest (c.1, c.2.position.x))
    (hrow : InRow text (st.close ch g (c.1, c.2.position.x)) (c :: (back ++ [g])) rest)

omit [Field U] in
theorem InRow.add (h : InRow text st row (g :: rest)) (hboundary : st'.lastBoundary = st.lastBoundary)
    (hcandidate : ∀ place ∈ st'.lastCandidate, place ∈ st.lastCandidate ∨ place = (g.1, g.2.position.x)) :
    InRow text st' (row ++ [g]) rest where
  readable other hother := h.readable other (List.mem_cons_of_mem g hother)
  increases := by
    rw [List.append_assoc]
    exact h.increases
  started hnil := h.started (List.append_eq_nil_iff.mp hnil).1
  behind other hother := hboundary ▸ h.behind other (List.mem_cons_of_mem g hother)
  marked place hplace := by
    rcases hcandidate place hplace with hsame | hnew
    · obtain ⟨front, c, back, rfl, hfront⟩ := h.marked place hsame
      exact ⟨front, c, back ++ [g], by rw [List.append_assoc, List.cons_append], hfront⟩
    · exact ⟨row, g, [], rfl, h.started, hnew⟩

variable {c : Placed U} {front : List (Placed U)} {bs : List WrapBoundary}

omit [Field U] in
/-- The row is closed at one of its glyphs, and the ones behind that are carried over. -/
theorem InRow.close (h : InRow text st row (g :: rest)) {back : List (Placed U)}
    (hsplit : row ++ [g] = front ++ c :: back) (ch : Char) :
    InRow text (st.close ch g (c.1, c.2.position.x)) (c :: back) rest := by
  have hincreases : Increases (front ++ (c :: back ++ rest)) := by
    have hincreases := h.increases
    rwa [List.append_cons, hsplit, List.append_assoc] at hincreases
  have hcarried := (List.pairwise_append.mp hincreases).2.1
  refine ⟨fun other hother => h.readable other (List.mem_cons_of_mem g hother), hcarried, List.cons_ne_nil c back,
    ?_, ?_⟩
  · intro other hother
    exact ((List.pairwise_cons.mp hcarried).1 other (List.mem_append_right back hother)).1
  · intro place hplace
    exact absurd hplace (Option.not_mem_none place)

/-- **One glyph of the loop.** -/
theorem InRow.step (h : InRow text st row (g :: rest)) (width wrapWidth : U) :
    Moves text width wrapWidth st row g rest := by
  obtain ⟨ch, hch⟩ := h.readable g List.mem_cons_self
  have hreadable : Readable text rest := fun other hother => h.readable other (List.mem_cons_of_mem g hother)
  by_cases hnewline : ch = '\n'
  · subst hnewline
    exact .newline hch (wrapStep_newline hch) (h.add rfl fun place hplace => Or.inl hplace)
  · have hstep := wrapStep_glyph width wrapWidth st hreadable hch hnewline
    by_cases hwide : wrapWidth < nextX width rest - st.lastBoundaryX
    · rw [if_pos ⟨hwide, h.behind g List.mem_cons_self⟩] at hstep
      by_cases hmarks : candidate st ch = true
      · have hlast : (st.visit ch (g.1, g.2.position.x)).lastCandidate = some (g.1, g.2.position.x) := if_pos hmarks
        rw [hlast] at hstep
        exact .here ch hch hnewline hwide (Or.inl hmarks) ⟨_, hstep, rfl⟩ (h.close rfl ch)
      · have hlast : (st.visit ch (g.1, g.2.position.x)).lastCandidate = st.lastCandidate := if_neg hmarks
        rw [hlast] at hstep
        cases hcandidate : st.lastCandidate with
        | none =>
          rw [hcandidate] at hstep
          exact .here ch hch hnewline hwide (Or.inr hcandidate) ⟨_, hstep, rfl⟩ (h.close rfl ch)
        | some place =>
          obtain ⟨front, c, back, hsplit, hfront, rfl⟩ := h.marked place hcandidate
          have hcarried : row ++ [g] = front ++ c :: (back ++ [g]) := by
            rw [hsplit, List.append_assoc, List.cons_append]
          rw [hcandidate] at hstep
          exact .behind ch hch front c back hsplit hfront ⟨hnewline, Bool.eq_false_iff.mpr hmarks, hcandidate, hwide⟩
            ⟨_, hstep, rfl⟩ (h.close hcarried ch)
    · rw [if_neg fun hcut => hwide hcut.1] at hstep
      refine .stays ch hch hnewline (not_lt.mp hwide) hstep (h.add rfl fun place hplace => ?_)
      have hplace : place ∈ if candidate st ch then some (g.1, g.2.position.x) else st.lastCandidate := hplace
      split at hplace
      · exact Or.inr (Option.some.inj hplace).symm
      · exact Or.inl hplace

theorem Closes.loop {place : WrapBoundary × U} (h : Closes text width wrapWidth st ch g rest place) :
    wrapLoop text width wrapWidth none (g :: rest) st =
      wrapLoop text width wrapWidth none rest (st.close ch g place) := by
  obtain ⟨st', hstep, hclose⟩ := h
  rw [wrapLoop_step hstep, Option.elim_some, hclose]

/-! ### The boundaries -/

/-- The loop goes on from the middle of a row, and its boundaries are the places of glyphs, one behind the other. -/
theorem InRow.loop (h : InRow text st row rest) (width wrapWidth : U) :
    ∃ bs, wrapLoop text width wrapWidth none rest st = some (st.boundaries ++ bs) ∧
      bs.Sublist ((row ++ rest).tail.map Prod.fst) := by
  induction rest generalizing st row with
  | nil => exact ⟨[], by rw [List.append_nil]; rfl, List.nil_sublist _⟩
  | cons g rest ih =>
    -- the glyphs of a row that is closed are in front of the boundary
    have hcloses : ∀ front (c : Placed U) back ch, row ++ [g] = front ++ c :: back → front ≠ [] →
        Closes text width wrapWidth st ch g rest (c.1, c.2.position.x) →
        ∃ bs, wrapLoop text width wrapWidth none (g :: rest) st = some (st.boundaries ++ bs) ∧
          bs.Sublist ((row ++ g :: rest).tail.map Prod.fst) := by
      intro front c back ch hsplit hfront hstep
      obtain ⟨bs, hbs, hsub⟩ := ih (h.close hsplit ch)
      refine ⟨c.1 :: bs, hstep.loop.trans (hbs.trans (congrArg some (List.append_assoc _ [c.1] bs))), ?_⟩
      obtain ⟨first, others, rfl⟩ := List.exists_cons_of_ne_nil hfront
      rw [List.append_cons, hsplit]
      have hmap : ((first :: others ++ c :: back) ++ rest).tail.map Prod.fst
          = others.map Prod.fst ++ c.1 :: (back ++ rest).map Prod.fst := by simp
      rw [hmap]
      exact (hsub.cons_cons c.1).trans (List.sublist_append_right _ _)
    have hstays : ∀ st', InRow text st' (row ++ [g]) rest → st'.boundaries = st.boundaries →
        wrapLoop text width wrapWidth none (g :: rest) st = wrapLoop text width wrapWidth none rest st' →
        ∃ bs, wrapLoop text width wrapWidth none (g :: rest) st = some (st.boundaries ++ bs) ∧
          bs.Sublist ((row ++ g :: rest).tail.map Prod.fst) := by
      intro st' hrow hboundaries hloop
      obtain ⟨bs, hbs, hsub⟩ := ih hrow
      rw [List.append_assoc] at hsub
      exact ⟨bs, hboundaries ▸ hloop.trans hbs, hsub⟩
    cases h.step width wrapWidth with
    | newline hch hstep hrow => exact hstays st hrow rfl (wrapLoop_step hstep)
    | stays ch hch hnewline hroom hstep hrow => exact hstays _ hrow rfl (wrapLoop_step hstep)
    | here ch hch hnewline hwide hlast hstep hrow => exact hcloses row g [] ch rfl h.started hstep
    | behind ch hch front c back hsplit hfront hwide hstep hrow =>
      refine hcloses front c (back ++ [g]) ch ?_ hfront hstep
      rw [hsplit, List.append_assoc, List.cons_append]

/-! ### A row that is too wide -/

omit [Field U] in
theorem Increases.ne_of_front {back : List (Placed U)}
    (h : Increases (front ++ c :: back)) : ∀ g ∈ front, decide (g.1 ≠ c.1) = true := by
  intro g hg
  refine decide_eq_true fun heq => ?_
  have hlt := ((List.pairwise_append.mp h).2.2 g hg c List.mem_cons_self).1
  exact g.1.lt_irrefl (heq ▸ hlt)

omit [Field U] in
theorem Increases.takeWhile {back : List (Placed U)}
    (h : Increases (front ++ c :: back)) : ((front ++ c :: back).takeWhile fun g => g.1 ≠ c.1) = front := by
  rw [List.takeWhile_append_of_pos h.ne_of_front, List.takeWhile_cons_of_neg (by simp), List.append_nil]

omit [Field U] in
theorem rowsFrom_split {start : U} {back : List (Placed U)} (h : Increases (front ++ c :: back)) :
    rowsFrom width start (c.1 :: bs) (front ++ c :: back) =
      ⟨start, front, c.2.position.x⟩ :: rowsFrom width c.2.position.x bs (c :: back) := by
  rw [rowsFrom, List.dropWhile_append_of_pos h.ne_of_front, List.dropWhile_cons_of_neg (by simp)]
  exact congrArg (fun glyphs => (⟨start, glyphs, c.2.position.x⟩ : Row U) :: _) h.takeWhile

theorem InRow.rows_close (h : InRow text st row (g :: rest)) {back : List (Placed U)}
    (hsplit : row ++ [g] = front ++ c :: back)
    (hstep : Closes text width wrapWidth st ch g rest (c.1, c.2.position.x))
    (hloop : wrapLoop text width wrapWidth none (g :: rest) st = some (st.boundaries ++ bs)) :
    ∃ bs', wrapLoop text width wrapWidth none rest (st.close ch g (c.1, c.2.position.x)) =
        some ((st.close ch g (c.1, c.2.position.x)).boundaries ++ bs') ∧
      rowsFrom width st.lastBoundaryX bs (row ++ g :: rest) = ⟨st.lastBoundaryX, front, c.2.position.x⟩ ::
        rowsFrom width c.2.position.x bs' ((c :: back) ++ rest) := by
  obtain ⟨bs', hbs', -⟩ := (h.close hsplit ch).loop width wrapWidth
  refine ⟨bs', hbs', ?_⟩
  have hbs : bs = c.1 :: bs' := by
    have hboundaries := Option.some.inj (hloop.symm.trans (hstep.loop.trans hbs'))
    exact List.append_cancel_left (hboundaries.trans (List.append_assoc _ [c.1] bs'))
  have hincreases := h.increases
  rw [List.append_cons, hsplit, List.append_assoc, List.cons_append] at hincreases ⊢
  rw [hbs, rowsFrom_split hincreases]

omit [Field U] in
theorem InRow.lt_nextX (h : InRow text st row (g :: rest)) (hrest : rest ≠ []) :
    g.2.position.x < nextX width rest := by
  cases rest with
  | nil => exact absurd rfl hrest
  | cons next rest =>
    have hincreases := (List.pairwise_append.mp h.increases).2.1
    exact ((List.pairwise_cons.mp hincreases).1 next List.mem_cons_self).2

/-- There is still no room once another glyph has been looked at. -/
theorem InRow.wide_next (h : InRow text st row (g :: rest)) [IsStrictOrderedRing U]
    (hnone : ¬HasRoom text width wrapWidth st (g :: rest)) : wrapWidth < nextX width rest - st.lastBoundaryX := by
  obtain ⟨hwide, hnone⟩ := not_or.mp hnone
  by_cases hrest : rest = []
  · subst hrest
    by_contra hfits
    exact hnone (Or.inl ⟨fun other hother => absurd hother List.not_mem_nil, not_lt.mp hfits⟩)
  · have hwide : wrapWidth < g.2.position.x - st.lastBoundaryX := not_le.mp hwide
    exact hwide.trans (sub_lt_sub_right (h.lt_nextX hrest) _)

omit [Field U] [LinearOrder U] in
theorem nextChar_newline (hch : charAt text g.2.index = some '\n') : nextChar text (g :: rest) = nextChar text rest :=
  if_pos hch

omit [Field U] [LinearOrder U] in
theorem nextChar_glyph (hch : charAt text g.2.index = some ch) (hnewline : ch ≠ '\n') :
    nextChar text (g :: rest) = some ch := by
  rw [← hch]
  exact if_neg fun h => hnewline (Option.some.inj (hch.symm.trans h))

theorem InRow.noRoom_newline (h : InRow text st row (g :: rest)) [IsStrictOrderedRing U]
    (hch : charAt text g.2.index = some '\n') (hnone : ¬HasRoom text width wrapWidth st (g :: rest)) :
    ¬HasRoom text width wrapWidth st rest := by
  rintro (hroom | hends | hcloses)
  · exact (h.wide_next hnone).not_ge hroom
  · refine hnone (Or.inr (Or.inl ⟨fun other hother => ?_, hends.2⟩))
    by_cases hrest : rest = []
    · subst hrest
      exact absurd hother List.not_mem_nil
    · rw [List.dropLast_cons_of_ne_nil hrest] at hother
      rcases List.mem_cons.mp hother with rfl | hother
      · exact hch
      · exact hends.1 other hother
  · rw [← nextChar_newline hch] at hcloses
    exact hnone (Or.inr (Or.inr hcloses))

/-- **A row that has no room stays too wide.** -/
theorem InRow.not_fits [IsStrictOrderedRing U] (h : InRow text st row rest)
    (hnone : ¬HasRoom text width wrapWidth st rest) (hlength : row.length ≠ 1)
    (hloop : wrapLoop text width wrapWidth none rest st = some (st.boundaries ++ bs)) :
    ∃ r ∈ rowsFrom width st.lastBoundaryX bs (row ++ rest), ¬r.Fits wrapWidth := by
  induction rest generalizing row with
  | nil =>
    have hbs : bs = [] := List.append_right_eq_self.mp (Option.some.inj hloop).symm
    subst hbs
    refine ⟨_, List.mem_singleton_self _, ?_⟩
    rintro (hfits | hsingle)
    · exact hnone (Or.inl hfits)
    · rw [List.append_nil] at hsingle
      exact hlength hsingle
  | cons g rest ih =>
    have hwide := h.wide_next hnone
    cases h.step width wrapWidth with
    | newline hch hstep hrow =>
      rw [wrapLoop_step hstep] at hloop
      have hmore : (row ++ [g]).length ≠ 1 := by
        have hpos := List.length_pos_iff.mpr h.started
        rw [List.length_append, List.length_singleton]
        omega
      rw [List.append_cons]
      exact ih hrow (h.noRoom_newline hch hnone) hmore hloop
    | stays ch hch hnewline hroom hstep hrow => exact absurd hroom hwide.not_ge
    | here ch hch hnewline hwide hlast hstep hrow =>
      obtain ⟨bs', -, hrows⟩ := h.rows_close rfl hstep hloop
      rw [hrows]
      refine ⟨_, List.mem_cons_self, ?_⟩
      rintro (hfits | hsingle)
      · exact hnone (Or.inl hfits)
      · exact hlength hsingle
    | behind ch hch front c back hsplit hfront hcloses hstep hrow =>
      obtain ⟨hnewline, hcandidate, hlast, -⟩ := hcloses
      refine absurd (Or.inr (Or.inr ⟨?_, ch, nextChar_glyph hch hnewline, hcandidate⟩)) hnone
      rw [hlast]
      exact Option.some_ne_none _

/-! ### The rows fit -/

/-- The row has room if it is more than one glyph, and fits if it is closed at the candidate. -/
structure Fitting (text : List Char) (width wrapWidth : U) (st : WrapState U) (row rest : List (Placed U)) :
    Prop where
  room : row.length = 1 ∨ HasRoom text width wrapWidth st rest
  marked : rest ≠ [] → ∀ place ∈ st.lastCandidate,
    Row.Fits wrapWidth ⟨st.lastBoundaryX, row.takeWhile fun g => g.1 ≠ place.1, place.2⟩

theorem rechecked_cons {place : Option (WrapBoundary × U)} (hch : charAt text g.2.index = some ch)
    (hstep : wrapStep text width wrapWidth g.1 g.2 rest st = some (place, st')) :
    Rechecked text width wrapWidth (g :: rest) st ↔ ((ch = '\n' → HasRoom text width wrapWidth st rest) ∧
      ∀ c, ClosesBehind wrapWidth (nextX width rest) st ch c →
        nextX width rest - c.2 ≤ wrapWidth ∨ EndsWithin text width wrapWidth c.2 rest) ∧
      Rechecked text width wrapWidth rest (place.elim st' st'.cut) := by
  obtain ⟨boundary, glyph⟩ := g
  rw [Rechecked, hch]
  constructor
  · rintro ⟨hchecks, hrest⟩
    exact ⟨hchecks ch rfl, hrest place st' hstep⟩
  · rintro ⟨hchecks, hrest⟩
    refine ⟨fun other hother => ?_, fun place' st'' hstep' => ?_⟩
    · obtain rfl := Option.some.inj hother
      exact hchecks
    · obtain ⟨rfl, rfl⟩ := Prod.mk.inj (Option.some.inj (hstep.symm.trans hstep'))
      exact hrest

theorem HasRoom.glyph (h : HasRoom text width wrapWidth st (g :: rest)) (hch : charAt text g.2.index = some ch)
    (hnewline : ch ≠ '\n') : g.2.position.x - st.lastBoundaryX ≤ wrapWidth ∨
      rest = [] ∧ width - st.lastBoundaryX ≤ wrapWidth ∨ st.lastCandidate ≠ none ∧ candidate st ch = false := by
  rcases h with hroom | hends | ⟨hcandidate, next, hnext, hcloses⟩
  · exact Or.inl hroom
  · refine Or.inr (Or.inl ⟨?_, hends.2⟩)
    by_contra hrest
    have hfirst := hends.1 g (by rw [List.dropLast_cons_of_ne_nil hrest]; exact List.mem_cons_self)
    exact hnewline (Option.some.inj (hch.symm.trans hfirst))
  · rw [nextChar_glyph hch hnewline] at hnext
    obtain rfl := Option.some.inj hnext
    exact Or.inr (Or.inr ⟨hcandidate, hcloses⟩)

theorem Fitting.add (hfits : Fitting text width wrapWidth st row (g :: rest)) (h : InRow text st row (g :: rest))
    (hroom : HasRoom text width wrapWidth st' rest) (hboundary : st'.lastBoundaryX = st.lastBoundaryX)
    (hcandidate : ∀ place ∈ st'.lastCandidate, place ∈ st.lastCandidate ∨ place = (g.1, g.2.position.x) ∧
      (rest ≠ [] → g.2.position.x - st.lastBoundaryX ≤ wrapWidth ∨ row.length = 1)) :
    Fitting text width wrapWidth st' (row ++ [g]) rest where
  room := Or.inr hroom
  marked hrest place hplace := by
    have hincreases : Increases (row ++ [g]) := by
      have hincreases := h.increases
      rw [List.append_cons] at hincreases
      exact (List.pairwise_append.mp hincreases).1
    rw [hboundary]
    rcases hcandidate place hplace with hsame | ⟨rfl, hnew⟩
    · obtain ⟨front, c, back, rfl, -, rfl⟩ := h.marked place hsame
      have hfront := hfits.marked (List.cons_ne_nil g rest) _ hsame
      rw [Increases.takeWhile (List.pairwise_append.mp h.increases).1] at hfront
      rw [List.append_assoc, List.cons_append] at hincreases ⊢
      rw [hincreases.takeWhile]
      exact hfront
    · rw [hincreases.takeWhile]
      exact hnew hrest

theorem Fitting.here (hfits : Fitting text width wrapWidth st row (g :: rest)) (hch : charAt text g.2.index = some ch)
    (hnewline : ch ≠ '\n') (hwide : wrapWidth < nextX width rest - st.lastBoundaryX)
    (hlast : candidate st ch = true ∨ st.lastCandidate = none) :
    Row.Fits wrapWidth ⟨st.lastBoundaryX, row, g.2.position.x⟩ := by
  rcases hfits.room with hsingle | hroom
  · exact Or.inr hsingle
  · rcases hroom.glyph hch hnewline with hroom | ⟨rfl, hends⟩ | ⟨hsome, hmarked⟩
    · exact Or.inl hroom
    · exact absurd hends hwide.not_ge
    · rcases hlast with hmarks | hnone
      · exact absurd hmarked (by rw [hmarks]; decide)
      · exact absurd hnone hsome

theorem Fitting.behind (hfits : Fitting text width wrapWidth st row (g :: rest)) (h : InRow text st row (g :: rest))
    {back : List (Placed U)} (hsplit : row = front ++ c :: back)
    (hcandidate : st.lastCandidate = some (c.1, c.2.position.x)) :
    Row.Fits wrapWidth ⟨st.lastBoundaryX, front, c.2.position.x⟩ := by
  have hmarked := hfits.marked (List.cons_ne_nil g rest) _ hcandidate
  have hincreases := (List.pairwise_append.mp h.increases).1
  rw [hsplit] at hmarked hincreases
  rwa [Increases.takeWhile hincreases] at hmarked

/-- No candidate is left once a row has been closed. -/
theorem hasRoom_close (st : WrapState U) (ch : Char) (g : Placed U) (place : WrapBoundary × U) :
    HasRoom text width wrapWidth (st.close ch g place) rest ↔
      nextX width rest - place.2 ≤ wrapWidth ∨ EndsWithin text width wrapWidth place.2 rest := by
  constructor
  · rintro (hroom | hends | ⟨hsome, -⟩)
    · exact Or.inl hroom
    · exact Or.inr hends
    · exact absurd rfl hsome
  · exact fun hroom => hroom.imp id Or.inl

variable [IsStrictOrderedRing U]

/-- **From the middle of a row on**, the rows fit if and only if there is room wherever the width is not compared. -/
theorem InRow.fits_iff (h : InRow text st row rest) (hfits : Fitting text width wrapWidth st row rest)
    {bs : List WrapBoundary} (hloop : wrapLoop text width wrapWidth none rest st = some (st.boundaries ++ bs)) :
    (∀ r ∈ rowsFrom width st.lastBoundaryX bs (row ++ rest), r.Fits wrapWidth) ↔
      Rechecked text width wrapWidth rest st := by
  induction rest generalizing st row bs with
  | nil =>
    have hbs : bs = [] := List.append_right_eq_self.mp (Option.some.inj hloop).symm
    subst hbs
    refine iff_of_true (fun r hr => ?_) trivial
    obtain rfl := List.mem_singleton.mp hr
    rcases hfits.room with hsingle | hroom | hends | ⟨-, ch, hch, -⟩
    · exact Or.inr (by rwa [List.append_nil])
    · exact Or.inl hroom
    · exact Or.inl hends.2
    · cases hch
  | cons g rest ih =>
    -- a row that is closed at one of its glyphs
    have hcloses : ∀ front (c : Placed U) back ch, row ++ [g] = front ++ c :: back →
        Closes text width wrapWidth st ch g rest (c.1, c.2.position.x) →
        Row.Fits wrapWidth ⟨st.lastBoundaryX, front, c.2.position.x⟩ →
        ((∀ r ∈ rowsFrom width st.lastBoundaryX bs (row ++ g :: rest), r.Fits wrapWidth) ↔
          ((c :: back).length = 1 ∨ HasRoom text width wrapWidth (st.close ch g (c.1, c.2.position.x)) rest) ∧
            Rechecked text width wrapWidth rest (st.close ch g (c.1, c.2.position.x))) := by
      intro front c back ch hsplit hstep hfront
      have hrow := h.close hsplit ch
      obtain ⟨bs', hbs', hrows⟩ := h.rows_close hsplit hstep hloop
      rw [hrows, List.forall_mem_cons, and_iff_right hfront]
      by_cases hroom : (c :: back).length = 1 ∨ HasRoom text width wrapWidth (st.close ch g (c.1, c.2.position.x)) rest
      · rw [and_iff_right hroom]
        exact ih hrow ⟨hroom, fun _ place hplace => absurd hplace (Option.not_mem_none place)⟩ hbs'
      · obtain ⟨hlength, hnone⟩ := not_or.mp hroom
        obtain ⟨r, hr, hwide⟩ := hrow.not_fits hnone hlength hbs'
        exact iff_of_false (fun hall => hwide (hall r hr)) fun hchecks => hroom hchecks.1
    cases h.step width wrapWidth with
    | newline hch hstep hrow =>
      rw [wrapLoop_step hstep] at hloop
      rw [rechecked_cons hch hstep, List.append_cons]
      by_cases hroom : HasRoom text width wrapWidth st rest
      · rw [and_iff_right ⟨fun _ => hroom, fun c hc => absurd rfl hc.1⟩]
        exact ih hrow (hfits.add h hroom rfl fun place hplace => Or.inl hplace) hloop
      · have hmore : (row ++ [g]).length ≠ 1 := by
          have hpos := List.length_pos_iff.mpr h.started
          rw [List.length_append, List.length_singleton]
          omega
        obtain ⟨r, hr, hwide⟩ := hrow.not_fits hroom hmore hloop
        exact iff_of_false (fun hall => hwide (hall r hr)) fun hchecks => hroom (hchecks.1.1 rfl)
    | stays ch hch hnewline hroom hstep hrow =>
      rw [wrapLoop_step hstep] at hloop
      rw [rechecked_cons hch hstep, List.append_cons,
        and_iff_right ⟨fun h => absurd h hnewline, fun c hc => absurd hroom hc.2.2.2.not_ge⟩]
      refine ih hrow (hfits.add h (Or.inl hroom) rfl fun place hplace => ?_) hloop
      have hplace : place ∈ if candidate st ch then some (g.1, g.2.position.x) else st.lastCandidate := hplace
      split at hplace
      · rename_i hmarks
        refine Or.inr ⟨(Option.some.inj hplace).symm, fun hrest => ?_⟩
        rcases hfits.room with hsingle | hroom
        · exact Or.inr hsingle
        · rcases hroom.glyph hch hnewline with hroom | ⟨hnil, -⟩ | ⟨-, hmarked⟩
          · exact Or.inl hroom
          · exact absurd hnil hrest
          · exact absurd hmarked (by rw [hmarks]; decide)
      · exact Or.inl hplace
    | here ch hch hnewline hwide hlast hstep hrow =>
      have hbehind : ∀ c, ¬ClosesBehind wrapWidth (nextX width rest) st ch c := by
        rintro c ⟨-, hmarked, hcandidate, -⟩
        rcases hlast with hmarks | hnone
        · exact absurd hmarked (by rw [hmarks]; decide)
        · exact absurd (hnone.symm.trans hcandidate) (Option.some_ne_none c).symm
      rw [hcloses row g [] ch rfl hstep (hfits.here hch hnewline hwide hlast),
        and_iff_right (Or.inl List.length_singleton)]
      obtain ⟨st', hstep, hclose⟩ := hstep
      rw [rechecked_cons hch hstep, Option.elim_some, hclose,
        and_iff_right ⟨fun h => absurd h hnewline, fun c hc => absurd hc (hbehind c)⟩]
    | behind ch hch front c back hsplit hfront hcarries hstep hrow =>
      have hcarried : row ++ [g] = front ++ c :: (back ++ [g]) := by
        rw [hsplit, List.append_assoc, List.cons_append]
      rw [hcloses front c (back ++ [g]) ch hcarried hstep (hfits.behind h hsplit hcarries.2.2.1)]
      obtain ⟨st', hstep, hclose⟩ := hstep
      rw [rechecked_cons hch hstep, Option.elim_some, hclose, hasRoom_close]
      refine and_congr_left fun _ => ?_
      constructor
      · intro hroom
        refine ⟨fun h => absurd h hcarries.1, fun place hplace => ?_⟩
        obtain rfl := Option.some.inj (hcarries.2.2.1.symm.trans hplace.2.2.1)
        refine hroom.resolve_left fun hsingle => ?_
        rw [List.length_cons, List.length_append, List.length_singleton] at hsingle
        omega
      · exact fun hchecks => Or.inr (hchecks.2 _ hcarries)

/-! ### The first glyph -/

omit [Field U] [IsStrictOrderedRing U] in
theorem inRow_first (hreadable : Readable text (g :: rest)) (hincreases : Increases (g :: rest))
    (hboundary : st.lastBoundary = ⟨0, 0⟩ ∨ st.lastBoundary = g.1) (hnone : st.lastCandidate = none) :
    InRow text st [g] rest where
  readable other hother := hreadable other (List.mem_cons_of_mem g hother)
  increases := hincreases
  started := List.cons_ne_nil g []
  behind other hother := by
    have hlt := ((List.pairwise_cons.mp hincreases).1 other hother).1
    rcases hboundary with hzero | hfirst
    · rw [hzero]
      simp only [WrapBoundary.lt, decide_eq_true_eq] at hlt ⊢
      omega
    · rwa [hfirst]
  marked place hplace := by
    rw [hnone] at hplace
    exact absurd hplace (Option.not_mem_none place)

omit [IsStrictOrderedRing U] in
theorem start_step (hreadable : Readable text (g :: rest)) (hincreases : Increases (g :: rest)) (width wrapWidth : U) :
    ∃ place st', wrapStep text width wrapWidth g.1 g.2 rest .start = some (place, st') ∧
      InRow text (place.elim st' st'.cut) [g] rest ∧ (place.elim st' st'.cut).lastCandidate = none ∧
      (¬ClosesEmpty text width wrapWidth g rest ∧ (place.elim st' st'.cut).boundaries = [] ∧
          (place.elim st' st'.cut).lastBoundaryX = 0 ∨
        ClosesEmpty text width wrapWidth g rest ∧ (place.elim st' st'.cut).boundaries = [g.1] ∧
          (place.elim st' st'.cut).lastBoundaryX = g.2.position.x) := by
  obtain ⟨ch, hch⟩ := hreadable g List.mem_cons_self
  have hrest : Readable text rest := fun other hother => hreadable other (List.mem_cons_of_mem g hother)
  by_cases hnewline : ch = '\n'
  · subst hnewline
    exact ⟨none, _, wrapStep_newline hch, inRow_first hreadable hincreases (Or.inl rfl) rfl, rfl,
      Or.inl ⟨fun hcloses => hcloses.1 hch, rfl, rfl⟩⟩
  · have hstep := wrapStep_glyph width wrapWidth .start hrest hch hnewline
    have hnextX : nextX width rest - (WrapState.start : WrapState U).lastBoundaryX = nextX width rest := sub_zero _
    have hcharacter : charAt text g.2.index ≠ some '\n' := fun h => hnewline (Option.some.inj (hch.symm.trans h))
    rw [hnextX] at hstep
    by_cases hcut : wrapWidth < nextX width rest ∧ (WrapState.start : WrapState U).lastBoundary.lt g.1 = true
    · rw [if_pos hcut] at hstep
      exact ⟨_, _, hstep, inRow_first hreadable hincreases (Or.inr rfl) rfl, rfl,
        Or.inr ⟨⟨hcharacter, hcut.2, hcut.1⟩, rfl, rfl⟩⟩
    · rw [if_neg hcut] at hstep
      exact ⟨_, _, hstep, inRow_first hreadable hincreases (Or.inl rfl) rfl, rfl,
        Or.inl ⟨fun hcloses => hcut ⟨hcloses.2.2, hcloses.2.1⟩, rfl, rfl⟩⟩

/-- The boundaries of a line, from its first glyph on. -/
theorem wrapLoop_rows {glyphs : List (Placed U)} (hreadable : Readable text glyphs)
    (hincreases : Increases glyphs) (width wrapWidth : U) :
    ∃ bs, wrapLoop text width wrapWidth none glyphs .start = some bs ∧ bs.Sublist (glyphs.map Prod.fst) ∧
      ((∀ r ∈ rowsFrom width 0 bs glyphs, r.Fits wrapWidth) ↔ Checked text width wrapWidth glyphs) := by
  cases glyphs with
  | nil =>
    refine ⟨[], rfl, List.nil_sublist _, ?_⟩
    rw [rowsFrom, List.forall_mem_singleton, Row.Fits, sub_zero, Checked]
    exact or_iff_left (by simp)
  | cons g rest =>
    obtain ⟨place, st', hstep, hrow, hnone, hcases⟩ := start_step hreadable hincreases width wrapWidth
    obtain ⟨bs, hbs, hsub⟩ := hrow.loop width wrapWidth
    have hfits : Fitting text width wrapWidth (place.elim st' st'.cut) [g] rest := by
      refine ⟨Or.inl rfl, fun _ other hother => ?_⟩
      rw [hnone] at hother
      exact absurd hother (Option.not_mem_none other)
    have hiff := hrow.fits_iff hfits hbs
    have hchecked : Checked text width wrapWidth (g :: rest) ↔
        (ClosesEmpty text width wrapWidth g rest → g.2.position.x ≤ wrapWidth) ∧
          Rechecked text width wrapWidth rest (place.elim st' st'.cut) := by
      refine and_congr_right fun _ => ⟨fun hall => hall place st' hstep, fun hrest other st'' hstep' => ?_⟩
      obtain ⟨rfl, rfl⟩ := Prod.mk.inj (Option.some.inj (hstep.symm.trans hstep'))
      exact hrest
    refine ⟨(place.elim st' st'.cut).boundaries ++ bs, (wrapLoop_step hstep).trans hbs, ?_, ?_⟩
    · rcases hcases with ⟨-, hboundaries, -⟩ | ⟨-, hboundaries, -⟩
      · rw [hboundaries]
        exact hsub.cons g.1
      · rw [hboundaries]
        exact hsub.cons_cons g.1
    · rw [hchecked]
      rcases hcases with ⟨hopen, hboundaries, hx⟩ | ⟨hempty, hboundaries, hx⟩
      · rw [hboundaries, and_iff_right fun hcloses => absurd hcloses hopen, ← hiff, hx]
        rfl
      · have hsplit : rowsFrom width 0 ([g.1] ++ bs) (g :: rest) = ⟨0, [], g.2.position.x⟩ ::
            rowsFrom width g.2.position.x bs (g :: rest) := by
          have hincreases : Increases ([] ++ g :: rest) := hincreases
          exact rowsFrom_split hincreases
        rw [hboundaries, hsplit, List.forall_mem_cons, ← hiff, hx]
        refine and_congr ?_ Iff.rfl
        rw [Row.Fits, sub_zero]
        exact ⟨fun hfits _ => hfits.resolve_right (by simp), fun hfits => Or.inl (hfits hempty)⟩

/-! ### The glyphs of a line -/

omit [Field U] [LinearOrder U] [IsStrictOrderedRing U] in
theorem placedGlyphs_snd (line : LineLayout U I) : line.placedGlyphs.map Prod.snd = line.glyphs := by
  have hrun : ∀ run : ShapedRun U I × Nat, ((run.1.glyphs.zipIdx).map fun glyph : ShapedGlyph U × Nat =>
      ((⟨run.2, glyph.2⟩, glyph.1) : Placed U)).map Prod.snd = run.1.glyphs := by
    intro run
    rw [List.map_map]
    exact List.zipIdx_map_fst 0 run.1.glyphs
  rw [placedGlyphs, List.map_flatMap, glyphs]
  calc (line.runs.zipIdx.flatMap fun run => ((run.1.glyphs.zipIdx).map fun glyph : ShapedGlyph U × Nat =>
        ((⟨run.2, glyph.2⟩, glyph.1) : Placed U)).map Prod.snd)
      = line.runs.zipIdx.flatMap fun run => run.1.glyphs := by simp only [hrun]
    _ = (line.runs.zipIdx.map Prod.fst).flatMap ShapedRun.glyphs := (List.flatMap_map _ _ _).symm
    _ = line.runs.flatMap ShapedRun.glyphs := by rw [List.zipIdx_map_fst]

omit [Field U] [LinearOrder U] [IsStrictOrderedRing U] in
theorem placedGlyphs_places (line : LineLayout U I) :
    line.placedGlyphs.Pairwise fun a b => a.1.lt b.1 = true := by
  have hindices : ∀ {α : Type} (l : List α), l.zipIdx.Pairwise fun a b => a.2 < b.2 := by
    intro α l
    have hrange : ((l.zipIdx).map Prod.snd).Pairwise (· < ·) := by
      rw [List.zipIdx_map_snd]
      exact List.pairwise_lt_range'
    exact List.pairwise_map.mp hrange
  rw [placedGlyphs, List.pairwise_flatMap]
  refine ⟨fun run _ => ?_, (hindices line.runs).imp fun hlt a ha b hb => ?_⟩
  · refine List.pairwise_map.mpr ((hindices run.1.glyphs).imp fun hlt => ?_)
    exact decide_eq_true (Or.inr ⟨rfl, hlt⟩)
  · obtain ⟨glyph, -, rfl⟩ := List.mem_map.mp ha
    obtain ⟨glyph', -, rfl⟩ := List.mem_map.mp hb
    exact decide_eq_true (Or.inl hlt)

/-- **The rows of a shaped line.**  They fit, if no clamp cuts them short, if and only if there is room wherever the
width is not compared. -/
theorem computeWrapBoundaries_fits_iff (line : LineLayout U I) (text : List Char) (wrapWidth : U)
    (maxLines : Option Nat) (hpositions : line.glyphs.Pairwise fun a b => a.position.x < b.position.x)
    (htext : ∀ glyph ∈ line.glyphs, ∃ ch, charAt text glyph.index = some ch) :
    ∃ bs, line.computeWrapBoundaries text wrapWidth maxLines = some bs ∧
      (bs.Pairwise fun a b => a.lt b = true) ∧ (∀ b ∈ bs, ∃ glyph, (b, glyph) ∈ line.placedGlyphs) ∧
      (∀ m ∈ maxLines, bs.length ≤ m - 1) ∧
      (line.computeWrapBoundaries text wrapWidth none = some bs →
        ((∀ row ∈ line.rows bs, row.Fits wrapWidth) ↔ Checked text line.width wrapWidth line.placedGlyphs)) := by
  have hreadable : Readable text line.placedGlyphs := by
    intro g hg
    refine htext g.2 ?_
    rw [← placedGlyphs_snd]
    exact List.mem_map_of_mem hg
  have hincreases : Increases line.placedGlyphs := by
    rw [← placedGlyphs_snd, List.pairwise_map] at hpositions
    exact (placedGlyphs_places line).and hpositions
  obtain ⟨all, hall, hsub, hrows⟩ := wrapLoop_rows hreadable hincreases line.width wrapWidth
  have hunclamped : line.computeWrapBoundaries text wrapWidth none = some all := hall
  have hclamped := computeWrapBoundaries_clamp hunclamped maxLines
  have hsublist : (clamp maxLines all).Sublist (line.placedGlyphs.map Prod.fst) := by
    cases maxLines with
    | none => exact hsub
    | some m => exact (List.take_sublist (m - 1) all).trans hsub
  refine ⟨clamp maxLines all, hclamped, ?_, ?_, ?_, ?_⟩
  · exact (List.pairwise_map.mpr (placedGlyphs_places line)).sublist hsublist
  · intro b hb
    obtain ⟨g, hg, rfl⟩ := List.mem_map.mp (hsublist.subset hb)
    exact ⟨g.2, hg⟩
  · rintro m rfl
    exact computeWrapBoundaries_length_le hclamped
  · intro hsame
    rw [← Option.some.inj (hunclamped.symm.trans hsame)]
    exact hrows

end

/-- Two words, the second of which is longer than the first one. -/
def carriedWord : LineLayout ℚ Nat :=
  ⟨16, 16, 12, 4, [⟨0, [⟨0, ⟨0, 0⟩, 0, false⟩, ⟨0, ⟨1, 0⟩, 1, false⟩, ⟨0, ⟨2, 0⟩, 2, false⟩,
    ⟨0, ⟨11, 0⟩, 3, false⟩]⟩], 4⟩

theorem carriedWord_positions : carriedWord.glyphs.Pairwise fun a b => a.position.x < b.position.x := by
  simp [carriedWord, glyphs]
  norm_num

theorem carriedWord_text :
    ∀ glyph ∈ carriedWord.glyphs, ∃ ch, charAt ['a', ' ', 'b', 'W'] glyph.index = some ch := by
  have hall : (carriedWord.glyphs.all fun glyph => (charAt ['a', ' ', 'b', 'W'] glyph.index).isSome) = true := by
    decide
  exact fun glyph hglyph => Option.isSome_iff_exists.mp (List.all_eq_true.mp hall glyph hglyph)

theorem computeWrapBoundaries_fits_iff_carriedWord :
    ∃ bs, carriedWord.computeWrapBoundaries ['a', ' ', 'b', 'W'] 12 (some 3) = some bs ∧
      (bs.Pairwise fun a b => a.lt b = true) ∧ (∀ b ∈ bs, ∃ glyph, (b, glyph) ∈ carriedWord.placedGlyphs) ∧
      (∀ m ∈ some 3, bs.length ≤ m - 1) ∧
      (carriedWord.computeWrapBoundaries ['a', ' ', 'b', 'W'] 12 none = some bs →
        ((∀ row ∈ carriedWord.rows bs, row.Fits 12) ↔
          Checked ['a', ' ', 'b', 'W'] carriedWord.width 12 carriedWord.placedGlyphs)) :=
  computeWrapBoundaries_fits_iff carriedWord ['a', ' ', 'b', 'W'] 12 (some 3) carriedWord_positions carriedWord_text

/-- The second word is carried over, and is too wide for a row by then. -/
theorem not_computeWrapBoundaries_fits : ¬ ∀ (line : LineLayout ℚ Nat) (text : List Char) (wrapWidth : ℚ)
    (maxLines : Option Nat), (line.glyphs.Pairwise fun a b => a.position.x < b.position.x) →
    (∀ glyph ∈ line.glyphs, ∃ ch, charAt text glyph.index = some ch) →
    ∀ bs, line.computeWrapBoundaries text wrapWidth maxLines = some bs →
      line.computeWrapBoundaries text wrapWidth none = some bs → ∀ row ∈ line.rows bs, row.Fits wrapWidth := by
  intro h
  have hbs : carriedWord.computeWrapBoundaries ['a', ' ', 'b', 'W'] 12 none = some [⟨0, 2⟩] := by decide +kernel
  have hrows : carriedWord.rows [⟨0, 2⟩] =
      [⟨0, carriedWord.placedGlyphs.take 2, 2⟩, ⟨2, carriedWord.placedGlyphs.drop 2, 16⟩] := rfl
  have hlast := h carriedWord ['a', ' ', 'b', 'W'] 12 none carriedWord_positions carriedWord_text _ hbs hbs
    ⟨2, carriedWord.placedGlyphs.drop 2, 16⟩ (by rw [hrows]; exact List.mem_cons_of_mem _ (List.mem_singleton_self _))
  rcases hlast with hfits | hsingle
  · exact absurd hfits (by norm_num)
  · exact absurd hsingle (by decide)

end LineLayout

end FcGpui
