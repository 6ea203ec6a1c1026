import FcGpui.TextSystem.ShapeText

/-!
# The runs of a line against the runs of the text

Every byte of a text lies in one of its runs (`cover`).  The font runs and
decoration runs of a line cover it when they spell out, byte by byte, the font
and the decoration of the run each byte lies in.

A merge keeps the font run open while the decoration stays the same, whatever
font comes next, so what decides is the groups of neighbours of equal
decoration.  The font runs cover a line exactly when each group resolves to one
font, and the decoration runs exactly when no group reaches the `2 ^ 32` bytes a
`u32` cannot count.  `shapeText_covers_iff` says this of the lines of a text,
`layoutLineFontRuns_covers_iff` and `shapeLineDecorationRuns_covers_iff` of the
two functions for a single line; `runs_cover_iff` puts them together.
`not_runs_cover` is a text in two fonts and one colour.

The way there: a line under construction is the list of its stretches
(`LineAcc.of`), a push is `pushPiece`, and the loop merges the bytes of its line
one by one (`lineLoop_spec`).
-/

namespace FcGpui

section RunCover

variable {F H N S I L σ : Type} [DecidableEq H] [DecidableEq N] [DecidableEq S] [DecidableEq I]

/-! ### The property -/

/-- The style of the run each byte lies in. -/
def cover (runs : List (TextRun F H N S)) : List (TextStyle F H N S) :=
  expand (runs.map fun run => (run.len, run.toTextStyle))

/-- The bytes of each line with the styles of their runs; newlines belong to no
line. -/
def styledLines (text : List UInt8) (runs : List (TextRun F H N S)) :
    List (List (UInt8 × TextStyle F H N S)) :=
  (text.zip (cover runs)).splitOnP fun b => b.1 == newline

/-- The font runs have the length of the line and give each byte its font. -/
def FontRunsCover (resolveFont : F → I) (fontRuns : List (FontRun I))
    (line : List (TextStyle F H N S)) : Prop :=
  (fontRuns.map FontRun.len).sum = line.length ∧
    expand (fontRuns.map fun r => (r.len, r.fontId)) = line.map fun b => resolveFont b.font

/-- The decoration runs have the length of the line and give each byte its
colour, background, underline and strikethrough. -/
def DecorationRunsCover (decorationRuns : List (DecorationRun H N S))
    (line : List (TextStyle F H N S)) : Prop :=
  (decorationRuns.map DecorationRun.len).sum = line.length ∧
    expand (decorationRuns.map fun r => (r.len, r.toDecoration)) = line.map TextStyle.toDecoration

/-- The lines of a shaped text are covered, each by its own runs. -/
def LinesCover (resolveFont : F → I) (lines : List (WrappedLine H N S I L))
    (styled : List (List (UInt8 × TextStyle F H N S))) : Prop :=
  List.Forall₂ (fun line bytes => line.text = bytes.map Prod.fst ∧
    FontRunsCover resolveFont line.fontRuns (bytes.map Prod.snd) ∧
    DecorationRunsCover line.decorationRuns (bytes.map Prod.snd)) lines styled

/-! ### The condition -/

/-- Neighbours of equal decoration resolve to the font of the first of them. -/
def OneFont (resolveFont : F → I) (line : List (TextStyle F H N S)) : Prop :=
  ∀ g ∈ groups TextStyle.toDecoration line, ∀ lead ∈ g.head?, ∀ b ∈ g,
    resolveFont b.font = resolveFont lead.font

/-- No `2 ^ 32` neighbours have one decoration. -/
def ShortStretches (line : List (TextStyle F H N S)) : Prop :=
  ∀ g ∈ groups TextStyle.toDecoration line, g.length < 2 ^ 32

/-- What `layout_line_with_spacing` compares. -/
def Decoration.ink (d : Decoration H N S) : H × Option N × Option S :=
  (d.color, d.underline, d.strikethrough)

def TextStyle.ink (b : TextStyle F H N S) : H × Option N × Option S := b.toDecoration.ink

/-- The same for a list of runs, of which an empty one has no byte to shape but
may be the first of its group. -/
def OneFontRuns (resolveFont : F → I) (runs : List (TextRun F H N S)) : Prop :=
  ∀ g ∈ groups (fun run => run.toTextStyle.ink) runs, ∀ lead ∈ g.head?, ∀ run ∈ g, 0 < run.len →
    resolveFont run.font = resolveFont lead.font

def ShortRuns (runs : List (TextRun F H N S)) : Prop :=
  ∀ g ∈ groups (fun run => run.toDecoration) runs, (g.map TextRun.len).sum < 2 ^ 32

/-! ### A line under construction -/

theorem same_iff (a b : Decoration H N S) : a.same b = true ↔ a = b := by
  cases a
  cases b
  simp only [Decoration.same, Bool.and_eq_true, beq_iff_eq, Decoration.mk.injEq]
  tauto

theorem sameInk_iff (a b : Decoration H N S) : a.sameInk b = true ↔ a.ink = b.ink := by
  simp only [Decoration.sameInk, Decoration.ink, Bool.and_eq_true, beq_iff_eq, Prod.mk.injEq]
  tauto

/-- The decoration run of a stretch. -/
def decorationRunOf (r : Nat × TextStyle F H N S) : DecorationRun H N S :=
  { r.2.toDecoration with len := asU32 r.1 }

/-- The font run of a stretch. -/
def fontRunOf (resolveFont : F → I) (r : Nat × TextStyle F H N S) : FontRun I :=
  ⟨r.1, resolveFont r.2.font⟩

/-- The line with the given stretches, the last at the head. -/
def LineAcc.of (resolveFont : F → I) (done : List (Nat × TextStyle F H N S)) : LineAcc H N S I :=
  ⟨done.map (fontRunOf resolveFont), (done.head?.map fun r => resolveFont r.2.font),
    done.map decorationRunOf⟩

theorem asU32_add (m n : Nat) : asU32 (asU32 m + asU32 n) = asU32 (m + n) :=
  (Nat.add_mod m n (2 ^ 32)).symm

theorem pushDecoration_of (done : List (Nat × TextStyle F H N S)) (run : TextRun F H N S)
    (len : Nat) :
    (pushDecoration (done.map decorationRunOf) run len).1
      = (pushPiece TextStyle.toDecoration done (len, run.toTextStyle)).map decorationRunOf := by
  cases done with
  | nil => rfl
  | cons last done =>
    obtain ⟨m, lead⟩ := last
    by_cases h : lead.toDecoration = run.toDecoration
    · have hs : (decorationRunOf (m, lead)).toDecoration.same run.toDecoration = true :=
        (same_iff _ _).mpr h
      rw [pushPiece_of_eq h, List.map_cons, List.map_cons, pushDecoration, if_pos hs]
      show ({ lead.toDecoration with len := _ } : DecorationRun H N S) :: _ = _
      rw [show (decorationRunOf (m, lead)).len = asU32 m from rfl, asU32_add]
      rfl
    · have hs : ¬ (decorationRunOf (m, lead)).toDecoration.same run.toDecoration = true :=
        fun hs => h ((same_iff _ _).mp hs)
      rw [pushPiece_of_ne h, List.map_cons, pushDecoration, if_neg hs]
      rfl

theorem pushDecoration_changed (done : List (Nat × TextStyle F H N S)) (last : Nat × TextStyle F H N S)
    (run : TextRun F H N S) (len : Nat) :
    (pushDecoration ((last :: done).map decorationRunOf) run len).2 = false ↔
      last.2.toDecoration = run.toDecoration := by
  rw [List.map_cons, pushDecoration]
  have hs : (decorationRunOf last).toDecoration.same run.toDecoration = true ↔ _ := same_iff _ _
  split
  · rename_i h
    exact iff_of_true rfl (hs.mp h)
  · rename_i h
    exact iff_of_false (by simp) fun he => h (hs.mpr he)

omit [DecidableEq H] [DecidableEq N] [DecidableEq S] in
theorem pushFont_of {κ : Type} [DecidableEq κ] (key : TextStyle F H N S → κ) (resolveFont : F → I)
    (done : List (Nat × TextStyle F H N S)) (changed : Bool) (run : TextRun F H N S) (len : Nat)
    (hc : ∀ last ∈ done.head?, (changed = false ↔ key last.2 = key run.toTextStyle)) :
    pushFont resolveFont changed run len (done.map (fontRunOf resolveFont))
        (done.head?.map fun r => resolveFont r.2.font)
      = ((pushPiece key done (len, run.toTextStyle)).map (fontRunOf resolveFont),
        (pushPiece key done (len, run.toTextStyle)).head?.map fun r => resolveFont r.2.font) := by
  cases done with
  | nil => rfl
  | cons last done =>
    obtain ⟨m, lead⟩ := last
    have hcl := hc (m, lead) rfl
    by_cases h : key lead = key run.toTextStyle
    · rw [pushPiece_of_eq h, List.map_cons, pushFont, if_pos ⟨rfl, hcl.mpr h⟩]
      rfl
    · rw [pushPiece_of_ne h, List.map_cons, pushFont, if_neg fun hand => h (hcl.mp hand.2)]
      rfl

theorem push_of (resolveFont : F → I) (done : List (Nat × TextStyle F H N S))
    (run : TextRun F H N S) (len : Nat) :
    (LineAcc.of resolveFont done).push resolveFont run len
      = LineAcc.of resolveFont
          (pushPiece TextStyle.toDecoration done (len, run.toTextStyle)) := by
  have hd := pushDecoration_of done run len
  have hf := pushFont_of TextStyle.toDecoration resolveFont done
    (pushDecoration (done.map decorationRunOf) run len).2 run len (by
      intro last hl
      cases done with
      | nil => simp at hl
      | cons p done =>
        obtain rfl : p = last := by simpa using hl
        exact pushDecoration_changed done p run len)
  simp only [LineAcc.push, LineAcc.of, hd, hf]

/-! ### One line -/

omit [DecidableEq H] [DecidableEq N] [DecidableEq S] in
theorem cover_cons (run : TextRun F H N S) (runs : List (TextRun F H N S)) :
    cover (run :: runs) = List.replicate run.len run.toTextStyle ++ cover runs := rfl

/-- No run is empty. -/
def Positive (runs : List (TextRun F H N S)) : Prop := ∀ run ∈ runs, 0 < run.len

omit [DecidableEq H] [DecidableEq N] [DecidableEq S] in
theorem Positive.tail {run : TextRun F H N S} {runs : List (TextRun F H N S)}
    (h : Positive (run :: runs)) : Positive runs := fun r hr => h r (List.mem_cons_of_mem _ hr)

/-- **The loop over a line merges its bytes one by one** and leaves the runs
that cover the rest of the text. -/
theorem lineLoop_spec (resolveFont : F → I) (lineEnd : Nat) :
    ∀ (runs : List (TextRun F H N S)) (runStart : Nat) (done : List (Nat × TextStyle F H N S)),
      Positive runs → runStart ≤ lineEnd → lineEnd - runStart ≤ (cover runs).length →
      ∃ rest, lineLoop resolveFont lineEnd runs runStart (LineAcc.of resolveFont done)
          = (LineAcc.of resolveFont ((ones ((cover runs).take (lineEnd - runStart))).foldl
            (pushPiece TextStyle.toDecoration) done), rest) ∧
        Positive rest ∧ cover rest = (cover runs).drop (lineEnd - runStart) := by
  intro runs
  induction runs with
  | nil =>
    intro runStart done hpos hle hlen
    have hzero : lineEnd - runStart = 0 := Nat.le_zero.mp hlen
    refine ⟨[], ?_, hpos, ?_⟩
    · rw [hzero]; rfl
    · rw [hzero]; rfl
  | cons run runs ih =>
    intro runStart done hpos hle hlen
    have hrun : 0 < run.len := hpos run List.mem_cons_self
    rw [cover_cons] at hlen ⊢
    rw [List.length_append, List.length_replicate] at hlen
    rw [lineLoop]
    by_cases hlt : runStart < lineEnd
    · rw [if_pos hlt]
      by_cases hfit : run.len ≤ lineEnd - runStart
      · have hn : min lineEnd (runStart + run.len) - runStart = run.len := by omega
        obtain ⟨rest, hloop, hrest, hcover⟩ := ih (runStart + run.len)
          (pushPiece TextStyle.toDecoration done (run.len, run.toTextStyle)) hpos.tail (by omega)
          (by omega)
        have hk : lineEnd - runStart = run.len + (lineEnd - (runStart + run.len)) := by omega
        refine ⟨rest, ?_, hrest, ?_⟩
        · simp only [hn, if_true, push_of, hloop]
          have htake : (List.replicate run.len run.toTextStyle ++ cover runs).take
              (lineEnd - runStart) = List.replicate run.len run.toTextStyle
                ++ (cover runs).take (lineEnd - (runStart + run.len)) := by
            rw [hk, List.take_append, List.take_of_length_le (by rw [List.length_replicate]; omega),
              List.length_replicate, Nat.add_sub_cancel_left]
          rw [htake, ones_append, List.foldl_append, foldl_pushPiece_replicate _ _ hrun]
        · have hdrop : (List.replicate run.len run.toTextStyle).drop (lineEnd - runStart) = [] :=
            List.drop_of_length_le (by rw [List.length_replicate]; omega)
          rw [hcover, List.drop_append, hdrop, List.nil_append, List.length_replicate, hk,
            Nat.add_sub_cancel_left]
      · have hn : min lineEnd (runStart + run.len) - runStart = lineEnd - runStart := by omega
        refine ⟨{ run with len := run.len - (lineEnd - runStart) } :: runs, ?_, ?_, ?_⟩
        · simp only [hn, if_neg (show ¬ lineEnd - runStart = run.len by omega), push_of]
          have htake : (List.replicate run.len run.toTextStyle ++ cover runs).take
              (lineEnd - runStart) = List.replicate (lineEnd - runStart) run.toTextStyle := by
            rw [List.take_append_of_le_length (by rw [List.length_replicate]; omega),
              List.take_replicate, Nat.min_eq_left (by omega)]
          rw [htake, foldl_pushPiece_replicate _ _ (by omega)]
        · intro r hr
          rcases List.mem_cons.mp hr with rfl | hr
          · show 0 < run.len - (lineEnd - runStart)
            omega
          · exact hpos.tail r hr
        · rw [cover_cons, List.drop_append_of_le_length (by rw [List.length_replicate]; omega),
            List.drop_replicate]
    · have hzero : lineEnd - runStart = 0 := by omega
      refine ⟨run :: runs, ?_, hpos, ?_⟩
      · rw [if_neg hlt, hzero]
        rfl
      · rw [hzero]
        rfl

omit [DecidableEq H] [DecidableEq N] [DecidableEq S] in
theorem skipNewline_spec {runs : List (TextRun F H N S)} (h : Positive runs) :
    Positive (skipNewline runs) ∧ cover (skipNewline runs) = (cover runs).drop 1 := by
  cases runs with
  | nil => exact ⟨h, rfl⟩
  | cons run runs =>
    have hrun : 0 < run.len := h run List.mem_cons_self
    rw [skipNewline, cover_cons, List.drop_append_of_le_length (by rw [List.length_replicate]; omega),
      List.drop_replicate]
    by_cases hone : run.len - 1 = 0
    · rw [if_pos hone, hone]
      exact ⟨h.tail, rfl⟩
    · rw [if_neg hone]
      refine ⟨fun r hr => ?_, rfl⟩
      rcases List.mem_cons.mp hr with rfl | hr
      · show 0 < run.len - 1
        omega
      · exact h.tail r hr

/-- The runs of a line with the given bytes. -/
def LineRunsOf (resolveFont : F → I) (line : WrappedLine H N S I L)
    (bytes : List (TextStyle F H N S)) : Prop :=
  line.fontRuns
      = (stretches TextStyle.toDecoration (ones bytes)).map (fontRunOf resolveFont) ∧
    line.decorationRuns = (stretches TextStyle.toDecoration (ones bytes)).map decorationRunOf

theorem processLine_spec (resolveFont : F → I) (layouter : Layouter I L σ) (maxWrapLines : Nat)
    (s : ShapeState F H N S I L σ) (lineText : List UInt8) (hpos : Positive s.runs)
    (hlen : lineText.length ≤ (cover s.runs).length) :
    ∃ line, (processLine resolveFont layouter maxWrapLines s lineText).lines = s.lines ++ [line] ∧
      line.text = lineText ∧ LineRunsOf resolveFont line ((cover s.runs).take lineText.length) ∧
      Positive (processLine resolveFont layouter maxWrapLines s lineText).runs ∧
      cover (processLine resolveFont layouter maxWrapLines s lineText).runs
        = (cover s.runs).drop (lineText.length + 1) := by
  have hsub : s.lineStart + lineText.length - s.lineStart = lineText.length := by omega
  obtain ⟨rest, hloop, hrest, hcover⟩ := lineLoop_spec resolveFont
    (s.lineStart + lineText.length) s.runs s.lineStart [] hpos (by omega) (by omega)
  rw [hsub] at hloop hcover
  have hstart : (LineAcc.of resolveFont [] : LineAcc H N S I) = ⟨[], none, []⟩ := rfl
  rw [hstart] at hloop
  obtain ⟨hskip, hskipCover⟩ := skipNewline_spec hrest
  simp only [processLine, hloop]
  refine ⟨_, rfl, rfl, ⟨?_, ?_⟩, hskip, ?_⟩
  · show (List.map _ _).reverse = _
    rw [← List.map_reverse]
    rfl
  · show (List.map _ _).reverse = _
    rw [← List.map_reverse]
    rfl
  · rw [hskipCover, hcover, List.drop_drop]

/-! ### All lines -/

/-- The parts of a list that lie beside the lines of a text, one element left
out between two lines. -/
def beside {α : Type} : List (List UInt8) → List α → List (List α)
  | [], _ => []
  | line :: lines, l => l.take line.length :: beside lines (l.drop (line.length + 1))

/-- How many bytes the lines and the newlines between them have. -/
def textLength : List (List UInt8) → Nat
  | [] => 0
  | [line] => line.length
  | line :: lines => line.length + 1 + textLength lines

theorem processLines_spec (resolveFont : F → I) (layouter : Layouter I L σ) (maxWrapLines : Nat) :
    ∀ (texts : List (List UInt8)) (s : ShapeState F H N S I L σ), Positive s.runs →
      textLength texts ≤ (cover s.runs).length →
      ∃ lines, (texts.foldl (processLine resolveFont layouter maxWrapLines) s).lines
          = s.lines ++ lines ∧
        lines.map WrappedLine.text = texts ∧
        List.Forall₂ (LineRunsOf resolveFont) lines (beside texts (cover s.runs)) := by
  intro texts
  induction texts with
  | nil => intro s _ _; exact ⟨[], by rw [List.append_nil]; rfl, rfl, .nil⟩
  | cons text texts ih =>
    intro s hpos hlen
    have hfirst : text.length ≤ textLength (text :: texts) ∧
        (texts ≠ [] → textLength (text :: texts) = text.length + 1 + textLength texts) := by
      cases texts with
      | nil => exact ⟨le_rfl, fun h => absurd rfl h⟩
      | cons t ts => exact ⟨by rw [textLength] <;> first | omega | simp, fun _ => rfl⟩
    obtain ⟨line, hline, htext, hruns, hpos', hcover⟩ :=
      processLine_spec resolveFont layouter maxWrapLines s text hpos (hfirst.1.trans hlen)
    obtain ⟨lines, hlines, htexts, hall⟩ := ih _ hpos' (by
      cases texts with
      | nil => exact Nat.zero_le _
      | cons t ts =>
        have := hfirst.2 (List.cons_ne_nil _ _)
        rw [hcover, List.length_drop]
        omega)
    refine ⟨line :: lines, ?_, ?_, ?_⟩
    · rw [List.foldl_cons, hlines, hline, List.append_assoc]
      rfl
    · rw [List.map_cons, htext, htexts]
    · rw [hcover] at hall
      exact .cons hruns hall

theorem shapeText_eq (resolveFont : F → I) (layouter : Layouter I L σ) (cache : σ)
    (text : List UInt8) (runs : List (TextRun F H N S)) (lineClamp : Option Nat) :
    (shapeText resolveFont layouter cache text runs lineClamp).1
      = ((text.splitOn newline).foldl
          (processLine resolveFont layouter (lineClamp.getD (usizeSize - 1)))
          ⟨cache, runs.filter fun run => decide (0 < run.len), 0, 0, []⟩).lines := by
  have hjoin : [newline].intercalate (text.splitOn newline) = text := List.intercalate_splitOn _
  rw [shapeText]
  match hl : text.splitOn newline with
  | [] => exact absurd hl (List.splitOnP_ne_nil _ _)
  | [line] =>
    rw [hl] at hjoin
    have hone : line = text := by simpa [List.intercalate] using hjoin
    rw [hone]
    rfl
  | first :: second :: rest => rfl

theorem textLength_splitOn (text : List UInt8) :
    textLength (text.splitOn newline) = text.length := by
  rw [List.splitOn_eq_splitOnP]
  induction text with
  | nil => rfl
  | cons b text ih =>
    rw [List.splitOnP_cons_eq_if_modifyHead]
    match hl : text.splitOnP (· == newline) with
    | [] => exact absurd hl (List.splitOnP_ne_nil _ _)
    | [line] =>
      rw [hl] at ih
      split
      · rw [List.length_cons, ← ih]
        simp [textLength]
        omega
      · rw [List.length_cons, ← ih]
        rfl
    | first :: second :: rest =>
      rw [hl] at ih
      split
      · rw [List.length_cons, ← ih]
        simp [textLength]
        omega
      · rw [List.length_cons, ← ih]
        simp [textLength]
        omega

theorem styled_split {α : Type} (text : List UInt8) :
    ∀ l : List α, l.length = text.length →
      ((text.zip l).splitOnP fun b => b.1 == newline).map (List.map Prod.fst)
          = text.splitOn newline ∧
        ((text.zip l).splitOnP fun b => b.1 == newline).map (List.map Prod.snd)
          = beside (text.splitOn newline) l := by
  induction text with
  | nil => intro l _; exact ⟨rfl, by cases l <;> rfl⟩
  | cons b text ih =>
    intro l hlen
    cases l with
    | nil => exact absurd hlen (by simp)
    | cons a l =>
      obtain ⟨hfst, hsnd⟩ := ih l (Nat.succ.inj hlen)
      rw [List.splitOn_eq_splitOnP] at hfst hsnd ⊢
      rw [List.zip_cons_cons, List.splitOnP_cons_eq_if_modifyHead,
        List.splitOnP_cons_eq_if_modifyHead]
      obtain ⟨line, lines, hl⟩ := List.exists_cons_of_ne_nil (List.splitOnP_ne_nil (· == newline) text)
      obtain ⟨styled, more, hz⟩ := List.exists_cons_of_ne_nil
        (List.splitOnP_ne_nil (fun b : UInt8 × α => b.1 == newline) (text.zip l))
      rw [hl, hz, List.map_cons] at hfst hsnd
      rw [List.cons.injEq] at hfst
      rw [beside, List.cons.injEq] at hsnd
      rw [hl, hz]
      by_cases hb : (b == newline) = true
      · rw [if_pos hb, if_pos hb]
        refine ⟨?_, ?_⟩
        · rw [List.map_cons, List.map_cons, hfst.1, hfst.2]
          rfl
        · rw [List.map_cons, List.map_cons, hsnd.1, hsnd.2]
          rfl
      · rw [if_neg hb, if_neg hb, List.modifyHead_cons, List.modifyHead_cons]
        refine ⟨?_, ?_⟩
        · rw [List.map_cons, List.map_cons, hfst.1, hfst.2]
        · rw [List.map_cons, List.map_cons, hsnd.1, hsnd.2]
          rfl

/-! ### When the runs cover -/

omit [DecidableEq H] [DecidableEq N] [DecidableEq S] [DecidableEq I] in
theorem fontRunsCover_iff {κ : Type} [DecidableEq κ] (key : TextStyle F H N S → κ)
    (resolveFont : F → I) (pieces : List (Nat × TextStyle F H N S)) :
    FontRunsCover resolveFont ((stretches key pieces).map (fontRunOf resolveFont)) (expand pieces) ↔
      ∀ g ∈ groups (fun p => key p.2) pieces, ∀ lead ∈ g.head?, ∀ p ∈ g, 0 < p.1 →
        resolveFont p.2.font = resolveFont lead.2.font := by
  have hiff := expand_stretches_iff key (fun b => resolveFont b.font) pieces
  rw [expand_map (fun b => resolveFont b.font) pieces] at hiff
  rw [← hiff, FontRunsCover, List.map_map, List.map_map]
  refine ⟨fun h => h.2, fun h => ⟨?_, h⟩⟩
  have hlen := congrArg List.length h
  rw [length_expand, List.length_map, List.map_map] at hlen
  exact hlen

theorem decorationRunsCover_iff (pieces : List (Nat × TextStyle F H N S)) :
    DecorationRunsCover ((stretches TextStyle.toDecoration pieces).map decorationRunOf)
        (expand pieces) ↔
      ∀ g ∈ groups (fun p => p.2.toDecoration) pieces, (g.map Prod.fst).sum < 2 ^ 32 := by
  have hiff := expand_stretches_mod_iff TextStyle.toDecoration (f := TextStyle.toDecoration)
    (fun _ _ h => h) (show 0 < 2 ^ 32 by decide) pieces
  rw [expand_map TextStyle.toDecoration pieces] at hiff
  rw [← hiff, DecorationRunsCover, List.map_map, List.map_map]
  refine ⟨fun h => h.2, fun h => ⟨?_, h⟩⟩
  have hlen := congrArg List.length h
  rw [length_expand, List.length_map, List.map_map] at hlen
  exact hlen

omit [DecidableEq I] in
/-- The runs the loop builds cover their line exactly under the two conditions
on the groups of its bytes. -/
theorem lineRunsOf_cover_iff {resolveFont : F → I} {line : WrappedLine H N S I L}
    {bytes : List (TextStyle F H N S)} (h : LineRunsOf resolveFont line bytes) :
    (FontRunsCover resolveFont line.fontRuns bytes ∧ DecorationRunsCover line.decorationRuns bytes) ↔
      OneFont resolveFont bytes ∧ ShortStretches bytes := by
  have hones : groups (fun p => p.2.toDecoration) (ones bytes)
      = (groups TextStyle.toDecoration bytes).map ones := groups_map (fun _ => rfl) bytes
  have hf := fontRunsCover_iff TextStyle.toDecoration resolveFont (ones bytes)
  have hd := decorationRunsCover_iff (ones bytes)
  rw [expand_ones, hones, List.forall_mem_map] at hf hd
  rw [h.1, h.2, hf, hd]
  refine and_congr ?_ ?_
  · refine forall₂_congr fun g _ => ?_
    cases g with
    | nil => exact ⟨fun _ lead hl => absurd hl (by simp), fun _ lead hl => absurd hl (by simp [ones])⟩
    | cons b g =>
      constructor
      · intro hall lead hl c hc
        obtain rfl : b = lead := by simpa using hl
        exact hall (1, b) rfl (1, c) (List.mem_map_of_mem hc) Nat.one_pos
      · intro hall lead hl p hp _
        obtain rfl : (1, b) = lead := by simpa [ones] using hl
        obtain ⟨c, hc, rfl⟩ := List.mem_map.mp hp
        exact hall b rfl c hc
  · refine forall₂_congr fun g _ => ?_
    have hsum : ((ones g).map Prod.fst).sum = g.length := by
      rw [← length_expand, expand_ones]
    rw [hsum]

omit [DecidableEq I] in
/-- Line by line, where the runs are those of the loop and the texts those of
the lines. -/
theorem linesCover_iff {resolveFont : F → I} {styled : List (List (UInt8 × TextStyle F H N S))} :
    ∀ {lines : List (WrappedLine H N S I L)},
      lines.map WrappedLine.text = styled.map (List.map Prod.fst) →
      List.Forall₂ (LineRunsOf resolveFont) lines (styled.map (List.map Prod.snd)) →
      (LinesCover resolveFont lines styled ↔ ∀ line ∈ styled,
        OneFont resolveFont (line.map Prod.snd) ∧ ShortStretches (line.map Prod.snd)) := by
  induction styled with
  | nil =>
    intro lines htexts _
    obtain rfl : lines = [] := List.map_eq_nil_iff.mp htexts
    exact iff_of_true .nil fun _ h => absurd h List.not_mem_nil
  | cons bytes styled ih =>
    intro lines htexts hall
    cases lines with
    | nil => exact absurd htexts (by simp)
    | cons line lines =>
      rw [List.map_cons, List.map_cons, List.cons.injEq] at htexts
      rw [List.map_cons, List.forall₂_cons] at hall
      have hrest := ih htexts.2 hall.2
      rw [LinesCover] at hrest ⊢
      rw [List.forall₂_cons, hrest, List.forall_mem_cons, ← lineRunsOf_cover_iff hall.1]
      exact and_congr_left fun _ => ⟨fun h => h.2, fun h => ⟨htexts.1, h⟩⟩

omit [DecidableEq H] [DecidableEq N] [DecidableEq S] in
theorem cover_filter (runs : List (TextRun F H N S)) :
    cover (runs.filter fun run => decide (0 < run.len)) = cover runs := by
  induction runs with
  | nil => rfl
  | cons run runs ih =>
    by_cases h : 0 < run.len
    · rw [List.filter_cons_of_pos (by simpa using h), cover_cons, cover_cons, ih]
    · rw [List.filter_cons_of_neg (by simpa using h), cover_cons, ih,
        Nat.eq_zero_of_not_pos h]
      rfl

/-- The lines of a shaped text are covered exactly under the two conditions on
each line. -/
theorem shapeText_covers_iff (resolveFont : F → I) (layouter : Layouter I L σ) (cache : σ)
    (text : List UInt8) (runs : List (TextRun F H N S)) (lineClamp : Option Nat)
    (hlen : (runs.map TextRun.len).sum = text.length) :
    LinesCover resolveFont (shapeText resolveFont layouter cache text runs lineClamp).1
        (styledLines text runs) ↔
      ∀ line ∈ styledLines text runs,
        OneFont resolveFont (line.map Prod.snd) ∧ ShortStretches (line.map Prod.snd) := by
  have hcover : (cover runs).length = text.length := by
    rw [cover, length_expand, List.map_map]
    exact hlen
  have hpos : Positive (runs.filter fun run => decide (0 < run.len)) := by
    intro run hrun
    simpa using (List.mem_filter.mp hrun).2
  obtain ⟨lines, hlines, htexts, hall⟩ := processLines_spec resolveFont layouter
    (lineClamp.getD (usizeSize - 1)) (text.splitOn newline)
    ⟨cache, runs.filter fun run => decide (0 < run.len), 0, 0, []⟩ hpos (by
      rw [textLength_splitOn, cover_filter, hcover])
  obtain ⟨hfst, hsnd⟩ := styled_split text (cover runs) hcover
  rw [List.nil_append] at hlines
  rw [cover_filter, ← hsnd] at hall
  rw [← hfst] at htexts
  rw [shapeText_eq, hlines]
  exact linesCover_iff htexts hall

/-! ### A single line -/

/-- The state of the loop over a single line, for the given stretches. -/
def LayoutLineOf (resolveFont : F → I) (done : List (Nat × TextStyle F H N S))
    (acc : Option (TextRun F H N S) × List (FontRun I) × Option I) : Prop :=
  acc.1.map TextRun.toTextStyle = done.head?.map Prod.snd ∧
    acc.2 = (done.map (fontRunOf resolveFont), done.head?.map fun r => resolveFont r.2.font)

theorem layoutLineStep_of {resolveFont : F → I} {done : List (Nat × TextStyle F H N S)}
    {acc : Option (TextRun F H N S) × List (FontRun I) × Option I}
    (h : LayoutLineOf resolveFont done acc) (run : TextRun F H N S) :
    LayoutLineOf resolveFont
      (pushPiece TextStyle.ink done (run.len, run.toTextStyle))
      (layoutLineStep resolveFont acc run) := by
  obtain ⟨lastRun, fontRuns, lastFont⟩ := acc
  obtain ⟨hlast, hfonts⟩ := h
  obtain ⟨rfl, rfl⟩ := Prod.mk.inj hfonts
  cases done with
  | nil =>
    obtain rfl : lastRun = none := by simpa using hlast
    exact ⟨rfl, rfl⟩
  | cons p done =>
    obtain ⟨m, lead⟩ := p
    obtain ⟨last, rfl, rfl⟩ := Option.map_eq_some_iff.mp hlast
    have hink := sameInk_iff last.toDecoration run.toDecoration
    have hpush := pushFont_of TextStyle.ink resolveFont
      ((m, last.toTextStyle) :: done) (!last.toDecoration.sameInk run.toDecoration) run run.len (by
        intro q hq
        obtain rfl : (m, last.toTextStyle) = q := by simpa using hq
        rw [Bool.not_eq_false', hink]
        rfl)
    refine ⟨?_, hpush⟩
    by_cases hi : last.toTextStyle.ink = run.toTextStyle.ink
    · rw [pushPiece_of_eq hi]
      simp [layoutLineStep, hink.mpr hi]
    · have hn : last.toDecoration.sameInk run.toDecoration = false := by
        simpa using fun he => hi (hink.mp he)
      rw [pushPiece_of_ne hi]
      simp [layoutLineStep, hn]

theorem layoutLineFontRuns_eq (resolveFont : F → I) (runs : List (TextRun F H N S)) :
    layoutLineFontRuns resolveFont runs
      = (stretches TextStyle.ink
          (runs.map fun run => (run.len, run.toTextStyle))).map (fontRunOf resolveFont) := by
  have hloop : ∀ (runs : List (TextRun F H N S)) (done : List (Nat × TextStyle F H N S))
      (acc : Option (TextRun F H N S) × List (FontRun I) × Option I),
      LayoutLineOf resolveFont done acc →
      LayoutLineOf resolveFont ((runs.map fun run => (run.len, run.toTextStyle)).foldl
        (pushPiece TextStyle.ink) done)
        (runs.foldl (layoutLineStep resolveFont) acc) := by
    intro runs
    induction runs with
    | nil => intro done acc h; exact h
    | cons run runs ih => intro done acc h; exact ih _ _ (layoutLineStep_of h run)
  have hof := (hloop runs [] (none, [], none) ⟨rfl, rfl⟩).2
  rw [layoutLineFontRuns, hof, stretches, List.map_reverse]

theorem shapeLineDecorationRuns_eq (runs : List (TextRun F H N S)) :
    shapeLineDecorationRuns runs
      = (stretches TextStyle.toDecoration
          (runs.map fun run => (run.len, run.toTextStyle))).map decorationRunOf := by
  have hloop : ∀ (runs : List (TextRun F H N S)) (done : List (Nat × TextStyle F H N S)),
      runs.foldl (fun acc run => (pushDecoration acc run run.len).1) (done.map decorationRunOf)
        = ((runs.map fun run => (run.len, run.toTextStyle)).foldl
          (pushPiece TextStyle.toDecoration) done).map decorationRunOf := by
    intro runs
    induction runs with
    | nil => intro done; rfl
    | cons run runs ih =>
      intro done
      rw [List.foldl_cons, pushDecoration_of, ih]
      rfl
  have hof := hloop runs []
  rw [List.map_nil] at hof
  rw [shapeLineDecorationRuns, hof, stretches, List.map_reverse]

/-- The font runs of a single line cover it exactly when neighbouring runs of
equal ink resolve to one font. -/
theorem layoutLineFontRuns_covers_iff (resolveFont : F → I) (runs : List (TextRun F H N S)) :
    FontRunsCover resolveFont (layoutLineFontRuns resolveFont runs) (cover runs) ↔
      OneFontRuns resolveFont runs := by
  have hgroups : groups (fun p : Nat × TextStyle F H N S => p.2.ink)
      (runs.map fun run => (run.len, run.toTextStyle))
      = (groups (fun run => run.toTextStyle.ink) runs).map
        (List.map fun run => (run.len, run.toTextStyle)) := groups_map (fun _ => rfl) runs
  rw [layoutLineFontRuns_eq, cover, fontRunsCover_iff TextStyle.ink, hgroups,
    List.forall_mem_map]
  refine forall₂_congr fun g _ => ?_
  rw [List.head?_map]
  constructor
  · intro h lead hl run hrun hpos
    exact h _ (Option.mem_map_of_mem _ hl) _ (List.mem_map_of_mem hrun) hpos
  · intro h lead hl p hp hpos
    obtain ⟨run, hrun, rfl⟩ := List.mem_map.mp hp
    obtain ⟨leadRun, hlead, rfl⟩ := Option.map_eq_some_iff.mp hl
    exact h leadRun hlead run hrun hpos

/-- The decoration runs of a single line cover it exactly when no group of
neighbouring runs of equal decoration reaches `2 ^ 32` bytes. -/
theorem shapeLineDecorationRuns_covers_iff (runs : List (TextRun F H N S)) :
    DecorationRunsCover (shapeLineDecorationRuns runs) (cover runs) ↔ ShortRuns runs := by
  have hgroups : groups (fun p : Nat × TextStyle F H N S => p.2.toDecoration)
      (runs.map fun run => (run.len, run.toTextStyle))
      = (groups (fun run => run.toDecoration) runs).map
        (List.map fun run => (run.len, run.toTextStyle)) := groups_map (fun _ => rfl) runs
  rw [shapeLineDecorationRuns_eq, cover, decorationRunsCover_iff, hgroups, List.forall_mem_map]
  refine forall₂_congr fun g _ => ?_
  rw [List.map_map]
  rfl

/-- **When the runs cover the text.**  For a text and runs of its length:
`shape_text` covers every line exactly when, in each line, neighbouring bytes of
equal decoration resolve to one font and fewer than `2 ^ 32` of them follow each
other; `layout_line_with_spacing` and `shape_line_with_spacing` cover a single
line exactly under the corresponding conditions on the runs. -/
theorem runs_cover_iff (resolveFont : F → I) (layouter : Layouter I L σ) (cache : σ)
    (text : List UInt8) (runs : List (TextRun F H N S)) (lineClamp : Option Nat)
    (hlen : (runs.map TextRun.len).sum = text.length) :
    (LinesCover resolveFont (shapeText resolveFont layouter cache text runs lineClamp).1
        (styledLines text runs) ↔
      ∀ line ∈ styledLines text runs,
        OneFont resolveFont (line.map Prod.snd) ∧ ShortStretches (line.map Prod.snd)) ∧
    (FontRunsCover resolveFont (layoutLineFontRuns resolveFont runs) (cover runs) ↔
      OneFontRuns resolveFont runs) ∧
    (DecorationRunsCover (shapeLineDecorationRuns runs) (cover runs) ↔ ShortRuns runs) :=
  ⟨shapeText_covers_iff resolveFont layouter cache text runs lineClamp hlen,
    layoutLineFontRuns_covers_iff resolveFont runs, shapeLineDecorationRuns_covers_iff runs⟩

/-- A run in the given font, in one decoration. -/
def plainRun (len font : Nat) : TextRun Nat Unit Unit Unit :=
  { len := len, font := font, color := (), backgroundColor := none, underline := none,
    strikethrough := none }

/-- A layout that is its font runs and never wraps. -/
def unwrapped : Layouter Nat (List (FontRun Nat)) Unit :=
  ⟨fun _ _ fontRuns _ => (fontRuns, ()), fun _ => 0⟩

theorem runs_cover_two_lines :
    LinesCover id (shapeText id unwrapped () [104, 105, 10, 33] [plainRun 3 1, plainRun 1 2] none).1
      (styledLines [104, 105, 10, 33] [plainRun 3 1, plainRun 1 2]) := by
  refine (runs_cover_iff id unwrapped () [104, 105, 10, 33] [plainRun 3 1, plainRun 1 2] none
    (by decide)).1.mpr ?_
  show ∀ line ∈ styledLines _ _, (∀ g ∈ groups _ _, ∀ lead ∈ g.head?, ∀ b ∈ g, _ = _) ∧
    ∀ g ∈ groups _ _, g.length < 2 ^ 32
  decide

/-- Two letters in two fonts are shaped in the font of the first. -/
theorem not_runs_cover : ¬ ∀ (text : List UInt8) (runs : List (TextRun Nat Unit Unit Unit)),
    (runs.map TextRun.len).sum = text.length →
      LinesCover id (shapeText id unwrapped () text runs none).1 (styledLines text runs) ∧
      FontRunsCover id (layoutLineFontRuns id runs) (cover runs) ∧
      DecorationRunsCover (shapeLineDecorationRuns runs) (cover runs) := by
  intro h
  have hfont := (h [104, 105] [plainRun 1 1, plainRun 1 2] (by decide)).1
  cases hfont with
  | cons hline _ => exact absurd hline.2.1.2 (by decide)

end RunCover

end FcGpui
