import FcGpui.Lib.Chunks
import FcGpui.TextSystem.LineWrapper

/-!
# Rows of a wrapped line

What `wrap_line` in `crates/gpui/src/text_system/line_wrapper.rs` makes of a line: a row starts
at each boundary, with its indent.  `InRow` says what the variables of the loop are in the
middle of a row, and `InRow.step` what one item does.

A newline has no width.  A row that is too wide is a single item, and newlines behind it.

**Main result.**  `wrapLine_rowsFit`.
-/

namespace FcGpui.LineWrapper

open WrapLine

variable {U : Type}

def WrapBoundaryCandidate.isNewline : WrapBoundaryCandidate U → Bool
  | char c => c == '\n'
  | element _ _ => false

/-- The indices of items are bytes. -/
abbrev byteLen (l : List (WrapBoundaryCandidate U)) : Nat := span WrapBoundaryCandidate.lenUtf8 l

theorem byteLen_append (l m : List (WrapBoundaryCandidate U)) : byteLen (l ++ m) = byteLen l + byteLen m :=
  span_append _ l m

theorem byteLen_concat (l : List (WrapBoundaryCandidate U)) (item : WrapBoundaryCandidate U) :
    byteLen (l ++ [item]) = byteLen l + item.lenUtf8 :=
  span_append _ l [item]

/-- The items that start between two bytes of a line. -/
abbrev itemsBetween (items : List (WrapBoundaryCandidate U)) (start stop : Nat) : List (WrapBoundaryCandidate U) :=
  between WrapBoundaryCandidate.lenUtf8 start stop 0 items

/-- The rows from one on, with their indents. -/
def wrappedRows (items : List (WrapBoundaryCandidate U)) (start indent : Nat) :
    List Boundary → List (Nat × List (WrapBoundaryCandidate U))
  | [] => [(indent, itemsBetween items start (byteLen items))]
  | b :: bs => (indent, itemsBetween items start b.ix) :: wrappedRows items b.ix b.nextIndent bs

section

variable [Field U]

def WrapBoundaryCandidate.itemWidth (widthForChar : Char → U) : WrapBoundaryCandidate U → U
  | char c => if c = '\n' then 0 else widthForChar c
  | element width _ => width

def rowWidth (widthForChar : Char → U) (indent : Nat) (row : List (WrapBoundaryCandidate U)) : U :=
  widthForChar ' ' * (indent : U) + (row.map (WrapBoundaryCandidate.itemWidth widthForChar)).sum

theorem rowWidth_append (widthForChar : Char → U) (indent : Nat) (front back : List (WrapBoundaryCandidate U)) :
    rowWidth widthForChar indent (front ++ back) =
      rowWidth widthForChar indent front + (back.map (WrapBoundaryCandidate.itemWidth widthForChar)).sum := by
  rw [rowWidth, rowWidth, List.map_append, List.sum_append, add_assoc]

variable [LinearOrder U]

/-- A row is not too wide, or it has no more than one item. -/
def RowFits (widthForChar : Char → U) (wrapWidth : U) (row : Nat × List (WrapBoundaryCandidate U)) : Prop :=
  rowWidth widthForChar row.1 row.2 ≤ wrapWidth ∨ (row.2.filter fun item => !item.isNewline).length = 1

/-- From the start of a row on, the boundaries are where items start, and the rows fit. -/
structure RowsFit (widthForChar : Char → U) (wrapWidth : U) (items : List (WrapBoundaryCandidate U))
    (start indent : Nat) (bs : List Boundary) : Prop where
  increasing : bs.Pairwise fun a b => a.ix < b.ix
  starts : ∀ b ∈ bs, ∃ front rest, items = front ++ rest ∧ b.ix = byteLen front
  inside : ∀ b ∈ bs, start < b.ix ∧ b.ix < byteLen items
  fit : ∀ row ∈ wrappedRows items start indent bs, RowFits widthForChar wrapWidth row

/-! ### In the middle of a row -/

/-- The variables of the loop, for the items of the rows that are done and those of the current row. -/
structure InRow (widthForChar : Char → U) (wrapWidth : U) (s : WrapLine U) (indent : Nat)
    (done row : List (WrapBoundaryCandidate U)) : Prop where
  index : s.index = byteLen (done ++ row)
  lastWrapIx : s.lastWrapIx = byteLen done
  width : s.width = rowWidth widthForChar indent row
  fits : RowFits widthForChar wrapWidth (indent, row)
  started : row = [] → s.firstNonWhitespaceIx = none
  candidate : 0 < s.lastCandidateIx → ∃ front back, row = front ++ back ∧ front ≠ [] ∧
    s.lastCandidateIx = byteLen (done ++ front) ∧ s.lastCandidateWidth = rowWidth widthForChar indent front ∧
    RowFits widthForChar wrapWidth (indent, front)

/-- What visiting an item changes. -/
structure Visited (widthForChar : Char → U) (s s' : WrapLine U) (item : WrapBoundaryCandidate U) (newPrevC : Char)
    (itemWidth : U) : Prop where
  previous : ∀ c, item = .char c → newPrevC = c
  notNewline : item.isNewline = false
  itemWidth_eq : itemWidth = item.itemWidth widthForChar
  index : s'.index = s.index + item.lenUtf8
  lastWrapIx : s'.lastWrapIx = s.lastWrapIx
  width : s'.width = s.width
  marked : if s.opportunity item then s'.lastCandidateIx = s.index ∧ s'.lastCandidateWidth = s.width
    else s'.lastCandidateIx = s.lastCandidateIx ∧ s'.lastCandidateWidth = s.lastCandidateWidth

omit [Field U] [LinearOrder U] in
theorem opportunity_seen {s : WrapLine U} {item : WrapBoundaryCandidate U} (h : s.opportunity item = true) :
    s.firstNonWhitespaceIx ≠ none := by
  intro hnone
  cases item <;> simp [opportunity, hnone] at h

omit [LinearOrder U] in
theorem visit_cases (widthForChar : Char → U) (s : WrapLine U) (item : WrapBoundaryCandidate U) :
    (item.isNewline = true ∧ { s with index := s.index + item.lenUtf8 }.visit widthForChar s.index item = none) ∨
      ∃ s' newPrevC itemWidth, { s with index := s.index + item.lenUtf8 }.visit widthForChar s.index item =
          some (s', newPrevC, itemWidth) ∧ Visited widthForChar s s' item newPrevC itemWidth := by
  have hmark : ∀ nonWhitespace,
      let s' := ({ s with index := s.index + item.lenUtf8 }.mark s.index (s.opportunity item)).seeNonWhitespace
        s.index nonWhitespace
      s'.index = s.index + item.lenUtf8 ∧ s'.lastWrapIx = s.lastWrapIx ∧ s'.width = s.width ∧
        if s.opportunity item then s'.lastCandidateIx = s.index ∧ s'.lastCandidateWidth = s.width
        else s'.lastCandidateIx = s.lastCandidateIx ∧ s'.lastCandidateWidth = s.lastCandidateWidth := by
    intro nonWhitespace
    rw [mark, seeNonWhitespace]
    split
    · split
      · exact ⟨rfl, rfl, rfl, rfl, rfl⟩
      · exact ⟨rfl, rfl, rfl, rfl, rfl⟩
    · split
      · exact ⟨rfl, rfl, rfl, rfl, rfl⟩
      · exact ⟨rfl, rfl, rfl, rfl, rfl⟩
  cases item with
  | char c =>
    by_cases hnewline : c = '\n'
    · left
      exact ⟨by rw [WrapBoundaryCandidate.isNewline, hnewline]; rfl, by rw [visit]; exact if_pos hnewline⟩
    · right
      obtain ⟨hindex, hwrap, hwidth, hmarked⟩ := hmark (c != ' ')
      refine ⟨_, _, _, by rw [visit]; exact if_neg hnewline, ?_, ?_, ?_, hindex, hwrap, hwidth, hmarked⟩
      · intro other hother
        exact WrapBoundaryCandidate.char.inj hother
      · simpa [WrapBoundaryCandidate.isNewline] using hnewline
      · rw [WrapBoundaryCandidate.itemWidth, if_neg hnewline]
  | element width lenUtf8 =>
    right
    obtain ⟨hindex, hwrap, hwidth, hmarked⟩ := hmark true
    exact ⟨_, _, _, rfl, fun c hc => absurd hc (by simp), rfl, rfl, hindex, hwrap, hwidth, hmarked⟩

variable [IsStrictOrderedRing U] {widthForChar : Char → U} {wrapWidth : U} {s : WrapLine U} {indent : Nat}
  {done row : List (WrapBoundaryCandidate U)} {item : WrapBoundaryCandidate U}

variable {indentAdjustment : IndentAdjustment}

/-- An indent of a fixed number of columns is given only where there is room for it. -/
theorem nextIndent_fits (hindent : indentAdjustment ≠ .sameIndent)
    (hspace : 0 ≤ widthForChar ' ') {carriedWidth : U} (hcarried : carriedWidth ≤ wrapWidth) (baseIndent : Option Nat) :
    carriedWidth + widthForChar ' ' *
      (nextIndent widthForChar wrapWidth carriedWidth baseIndent indentAdjustment : U) ≤ wrapWidth := by
  have hzero : carriedWidth + widthForChar ' ' * ((0 : Nat) : U) ≤ wrapWidth := by
    rwa [Nat.cast_zero, mul_zero, add_zero]
  cases indentAdjustment with
  | noIndent => exact hzero
  | sameIndent => exact absurd rfl hindent
  | extraColumns extra =>
    cases baseIndent with
    | none => exact hzero
    | some baseIndent =>
      rw [nextIndent]
      split
      · exact hzero
      · rename_i hroom
        have hmin : ((min maxIndent (saturatingAdd baseIndent extra) : Nat) : U) ≤ (saturatingAdd baseIndent extra : U) := by
          exact_mod_cast min_le_right _ _
        have hmul := mul_le_mul_of_nonneg_left hmin hspace
        have hmax := le_max_left carriedWidth (widthForChar ' ' * ((2 : Nat) : U))
        linarith [not_lt.mp hroom]

omit [IsStrictOrderedRing U] in
/-- A newline is added to the row and changes nothing else. -/
theorem InRow.newline (h : InRow widthForChar wrapWidth s indent done row) (hitem : item.isNewline = true) :
    InRow widthForChar wrapWidth { s with index := s.index + item.lenUtf8 } indent done (row ++ [item]) := by
  have hzero : item.itemWidth widthForChar = 0 := by
    cases item with
    | char c =>
      rw [WrapBoundaryCandidate.itemWidth, if_pos (by simpa [WrapBoundaryCandidate.isNewline] using hitem)]
    | element width lenUtf8 => exact absurd hitem Bool.false_ne_true
  have hwidth : rowWidth widthForChar indent (row ++ [item]) = rowWidth widthForChar indent row := by
    rw [rowWidth_append, List.map_singleton, List.sum_singleton, hzero, add_zero]
  refine ⟨?_, h.lastWrapIx, h.width.trans hwidth.symm, ?_, ?_, ?_⟩
  · show s.index + item.lenUtf8 = _
    rw [h.index, ← List.append_assoc, byteLen_concat]
  · have hfits := h.fits
    rw [RowFits] at hfits ⊢
    rwa [hwidth, List.filter_append, List.filter_cons_of_neg (by rw [hitem]; exact Bool.false_ne_true), List.filter_nil,
      List.append_nil]
  · intro hnil
    exact absurd hnil (by simp)
  · intro hcandidate
    obtain ⟨front, back, rfl, hfront⟩ := h.candidate hcandidate
    exact ⟨front, back ++ [item], List.append_assoc _ _ _, hfront⟩

omit [IsStrictOrderedRing U] in
theorem InRow.visited_candidate (h : InRow widthForChar wrapWidth s indent done row) {s' : WrapLine U}
    {newPrevC : Char} {itemWidth : U}
    (hvisit : Visited widthForChar s s' item newPrevC itemWidth) (hpos : 0 < s'.lastCandidateIx) :
    ∃ front back, row = front ++ back ∧ front ≠ [] ∧ s'.lastCandidateIx = byteLen (done ++ front) ∧
      s'.lastCandidateWidth = rowWidth widthForChar indent front ∧ RowFits widthForChar wrapWidth (indent, front) := by
  have hmarked := hvisit.marked
  split at hmarked
  · rename_i hopportunity
    obtain ⟨hix, hwidth⟩ := hmarked
    refine ⟨row, [], (List.append_nil row).symm, fun hnil => ?_, hix.trans h.index, hwidth.trans h.width, h.fits⟩
    exact opportunity_seen hopportunity (h.started hnil)
  · obtain ⟨hix, hwidth⟩ := hmarked
    rw [hix] at hpos
    rw [hix, hwidth]
    exact h.candidate hpos

/-- A row is wrapped behind the items in front of an opportunity, or behind all items that it has. -/
theorem InRow.wrap (h : InRow widthForChar wrapWidth s indent done row) {s' : WrapLine U} {newPrevC : Char}
    {itemWidth : U} (hvisit : Visited widthForChar s s' item newPrevC itemWidth) (hne : row ≠ [])
    (hindent : indentAdjustment ≠ .sameIndent) (hspace : 0 ≤ widthForChar ' ') :
    ∃ front back, row = front ++ back ∧ front ≠ [] ∧ RowFits widthForChar wrapWidth (indent, front) ∧
      ({ s' with width := s'.width + itemWidth }.wrap widthForChar wrapWidth indentAdjustment s.index itemWidth).1.ix =
        byteLen (done ++ front) ∧
      InRow widthForChar wrapWidth
        ({ s' with width := s'.width + itemWidth }.wrap widthForChar wrapWidth indentAdjustment s.index itemWidth).2
        ({ s' with width := s'.width + itemWidth }.wrap widthForChar wrapWidth indentAdjustment s.index
          itemWidth).1.nextIndent (done ++ front) (back ++ [item]) := by
  have hindex : s'.index = byteLen (done ++ (row ++ [item])) := by
    rw [hvisit.index, h.index, ← List.append_assoc, byteLen_concat]
  have hwidth : s'.width + itemWidth = rowWidth widthForChar indent (row ++ [item]) := by
    rw [hvisit.width, h.width, hvisit.itemWidth_eq, rowWidth_append, List.map_singleton, List.sum_singleton]
  rw [WrapLine.wrap]
  dsimp only
  by_cases hcandidate : 0 < s'.lastCandidateIx ∧ s'.width + itemWidth - s'.lastCandidateWidth ≤ wrapWidth
  · obtain ⟨front, back, rfl, hfront, hix, hcandidateWidth, hfits⟩ := h.visited_candidate hvisit hcandidate.1
    have hcarried : s'.width + itemWidth - s'.lastCandidateWidth =
        ((back ++ [item]).map (WrapBoundaryCandidate.itemWidth widthForChar)).sum := by
      rw [hwidth, hcandidateWidth, List.append_assoc, rowWidth_append, add_sub_cancel_left]
    simp only [decide_eq_true hcandidate, if_true]
    refine ⟨front, back, rfl, hfront, hfits, hix, ?_, hix, ?_, ?_, ?_, ?_⟩
    · rw [← List.append_assoc] at hindex
      rw [hindex]
      simp only [List.append_assoc]
    · rw [rowWidth, ← hcarried, add_comm]
    · left
      rw [rowWidth, ← hcarried, add_comm]
      exact nextIndent_fits hindent hspace hcandidate.2 _
    · intro hnil
      exact absurd hnil (by simp)
    · intro hpos
      exact absurd hpos (lt_irrefl 0)
  · simp only [decide_eq_false hcandidate, Bool.false_eq_true, if_false]
    have hitemWidth : itemWidth = (([item] : List (WrapBoundaryCandidate U)).map
        (WrapBoundaryCandidate.itemWidth widthForChar)).sum := by
      rw [hvisit.itemWidth_eq, List.map_singleton, List.sum_singleton]
    refine ⟨row, [], (List.append_nil row).symm, hne, h.fits, h.index, ?_, h.index, ?_, ?_, ?_, ?_⟩
    · rw [hindex, List.nil_append, List.append_assoc]
    · rw [rowWidth, List.nil_append, ← hitemWidth, add_comm]
    · right
      rw [List.nil_append, List.filter_cons_of_pos (by rw [hvisit.notNewline]; rfl)]
      rfl
    · intro hnil
      exact absurd hnil (by simp)
    · intro hpos
      exact absurd hpos (lt_irrefl 0)

/-- **One item of the loop**, in a row: it is added to the row, or the row is closed in front of it. -/
theorem InRow.step (h : InRow widthForChar wrapWidth s indent done row)
    (hpos : ∀ a ∈ done ++ row ++ [item], 0 < a.lenUtf8)
    (hindent : indentAdjustment ≠ .sameIndent) (hspace : 0 ≤ widthForChar ' ') :
    (∃ s', s.step widthForChar wrapWidth indentAdjustment item = (none, s') ∧
        InRow widthForChar wrapWidth s' indent done (row ++ [item])) ∨
      ∃ b s' front back, s.step widthForChar wrapWidth indentAdjustment item = (some b, s') ∧ row = front ++ back ∧
        front ≠ [] ∧ RowFits widthForChar wrapWidth (indent, front) ∧ b.ix = byteLen (done ++ front) ∧
        InRow widthForChar wrapWidth s' b.nextIndent (done ++ front) (back ++ [item]) := by
  rw [WrapLine.step]
  rcases visit_cases widthForChar s item with ⟨hnewline, hvisit⟩ | ⟨s', newPrevC, itemWidth, hvisit, hvisited⟩
  · left
    rw [hvisit]
    exact ⟨_, rfl, h.newline hnewline⟩
  · rw [hvisit]
    dsimp only
    have hwidth : s'.width + itemWidth = rowWidth widthForChar indent (row ++ [item]) := by
      rw [hvisited.width, h.width, hvisited.itemWidth_eq, rowWidth_append, List.map_singleton, List.sum_singleton]
    split
    · rename_i hover
      right
      have hne : row ≠ [] := by
        rintro rfl
        have hlt := hover.2
        rw [hvisited.lastWrapIx, h.lastWrapIx, h.index, List.append_nil] at hlt
        exact lt_irrefl _ hlt
      obtain ⟨front, back, hrow, hfront, hfits, hix, hin⟩ := h.wrap hvisited hne hindent hspace
      exact ⟨_, _, front, back, rfl, hrow, hfront, hfits, hix, hin⟩
    · rename_i hroom
      left
      refine ⟨_, rfl, ?_, hvisited.lastWrapIx.trans h.lastWrapIx, hwidth, ?_, ?_, ?_⟩
      · show s'.index = _
        rw [hvisited.index, h.index, ← List.append_assoc, byteLen_concat]
      · -- an item alone in its row may be too wide
        by_cases hnil : row = []
        · subst hnil
          right
          rw [List.nil_append, List.filter_cons_of_pos (by rw [hvisited.notNewline]; rfl)]
          rfl
        · left
          by_contra hwide
          refine hroom ⟨hwidth ▸ not_le.mp hwide, ?_⟩
          rw [hvisited.lastWrapIx, h.lastWrapIx, h.index, byteLen_append]
          have hrow : 0 < byteLen row := span_pos (fun a ha => hpos a (by simp [ha])) hnil
          omega
      · intro hnil
        exact absurd hnil (by simp)
      · intro hcandidate
        obtain ⟨front, back, rfl, hfront⟩ := h.visited_candidate hvisited hcandidate
        exact ⟨front, back ++ [item], List.append_assoc _ _ _, hfront⟩

/-! ### A whole line -/

/-- **The rest of the loop**, in a row. -/
theorem InRow.rowsFit (hindent : indentAdjustment ≠ .sameIndent)
    (hspace : 0 ≤ widthForChar ' ') {items : List (WrapBoundaryCandidate U)} (hpos : ∀ a ∈ items, 0 < a.lenUtf8) :
    ∀ (rest : List (WrapBoundaryCandidate U)) (s : WrapLine U) (indent : Nat)
      (done row : List (WrapBoundaryCandidate U)), items = done ++ row ++ rest →
      InRow widthForChar wrapWidth s indent done row →
      RowsFit widthForChar wrapWidth items (byteLen done) indent
        (boundaries widthForChar wrapWidth indentAdjustment rest s) := by
  intro rest
  induction rest with
  | nil =>
    intro s indent done row hitems h
    refine ⟨.nil, fun b hb => absurd hb List.not_mem_nil, fun b hb => absurd hb List.not_mem_nil, fun last hlast => ?_⟩
    rw [List.mem_singleton.mp hlast]
    have hrow : itemsBetween items (byteLen done) (byteLen items) = row := by
      have hmiddle := between_middle WrapBoundaryCandidate.lenUtf8 done row [] (by rw [← hitems]; exact hpos)
      rw [← hitems] at hmiddle
      rw [List.append_nil] at hitems
      rwa [← hitems] at hmiddle
    rw [hrow]
    exact h.fits
  | cons item rest ih =>
    intro s indent done row hitems h
    have hsplit : items = done ++ row ++ [item] ++ rest := by
      rw [hitems]
      simp only [List.append_assoc, List.cons_append, List.nil_append]
    have hitem : ∀ a ∈ done ++ row ++ [item], 0 < a.lenUtf8 := fun a ha =>
      hpos a (by rw [hsplit]; exact List.mem_append_left _ ha)
    rw [boundaries]
    rcases h.step hitem hindent hspace with ⟨s', hstep, hin⟩ | ⟨b, s', front, back, hstep, rfl, hfront, hfits, hix, hin⟩
    · rw [hstep]
      exact ih s' indent done (row ++ [item]) (by rw [hsplit]; simp only [List.append_assoc]) hin
    · rw [hstep]
      have hsplit' : items = (done ++ front) ++ (back ++ [item]) ++ rest := by
        rw [hsplit]
        simp only [List.append_assoc]
      have hih := ih s' b.nextIndent (done ++ front) (back ++ [item]) hsplit' hin
      rw [← hix] at hih
      have hstart : byteLen done < b.ix := by
        have hlen : 0 < byteLen front := span_pos (fun a ha => hpos a (by rw [hsplit']; simp [ha])) hfront
        rw [hix, byteLen_append]
        omega
      have hstop : b.ix < byteLen items := by
        have hlen : 0 < byteLen (back ++ [item]) :=
          span_pos (fun a ha => hpos a (by rw [hsplit']; simp only [List.mem_append] at ha ⊢; tauto)) (by simp)
        have htotal : byteLen items = byteLen (done ++ front) + byteLen (back ++ [item]) + byteLen rest := by
          rw [hsplit', byteLen_append (done ++ front ++ (back ++ [item])), byteLen_append (done ++ front)]
        omega
      rw [Option.toList_some, List.singleton_append]
      refine ⟨List.pairwise_cons.mpr ⟨fun other hother => (hih.inside other hother).1, hih.increasing⟩, ?_, ?_, ?_⟩
      · intro other hother
        rcases List.mem_cons.mp hother with rfl | hother
        · exact ⟨done ++ front, back ++ [item] ++ rest, by rw [hsplit', List.append_assoc (done ++ front)], hix⟩
        · exact hih.starts other hother
      · intro other hother
        rcases List.mem_cons.mp hother with rfl | hother
        · exact ⟨hstart, hstop⟩
        · exact ⟨hstart.trans (hih.inside other hother).1, (hih.inside other hother).2⟩
      · intro first hfirst
        rcases List.mem_cons.mp hfirst with rfl | hlater
        · have hrow : itemsBetween items (byteLen done) b.ix = front := by
            have hmiddle := between_middle WrapBoundaryCandidate.lenUtf8 done front (back ++ [item] ++ rest)
              (by rw [← List.append_assoc, ← hsplit']; exact hpos)
            rw [← List.append_assoc, ← hsplit'] at hmiddle
            rw [hix]
            exact hmiddle
          rw [hrow]
          exact hfits
        · exact hih.fit first hlater

omit [IsStrictOrderedRing U] in
theorem start_inRow (widthForChar : Char → U) (hwrap : 0 ≤ wrapWidth) :
    InRow widthForChar wrapWidth WrapLine.start 0 [] [] where
  index := rfl
  lastWrapIx := rfl
  width := by
    rw [rowWidth, Nat.cast_zero, mul_zero, zero_add]
    rfl
  fits := by
    left
    rw [rowWidth, Nat.cast_zero, mul_zero, zero_add]
    exact hwrap
  started := fun _ => rfl
  candidate := fun h => absurd h (lt_irrefl 0)

/-- **The rows of a wrapped line fit**, and all calls of the iterator but the last return a boundary. -/
theorem wrapLine_rowsFit (widthForChar : Char → U) (fragments : List (LineFragment U)) (wrapWidth : U)
    (indentAdjustment : IndentAdjustment) (hindent : indentAdjustment ≠ .sameIndent) (hwrap : 0 ≤ wrapWidth)
    (hspace : 0 ≤ widthForChar ' ') (hpos : ∀ item ∈ candidates fragments, 0 < item.lenUtf8) (calls : Nat)
    (hcalls : (candidates fragments).length < calls) :
    ∃ bs, wrapLine widthForChar fragments wrapWidth indentAdjustment calls = some bs ∧
      RowsFit widthForChar wrapWidth (candidates fragments) 0 0 bs :=
  ⟨_, wrapLine_ends widthForChar fragments wrapWidth indentAdjustment hcalls,
    InRow.rowsFit hindent hspace hpos (candidates fragments) WrapLine.start 0 [] [] rfl
      (start_inRow widthForChar hwrap)⟩

end

/-- A word, a space and a word, then an element. -/
def mixedLine : List (LineFragment ℚ) := [.text ['a', 'b', ' ', 'c', 'd'], .element 3 1]

theorem wrapLine_rowsFit_mixedLine : ∃ bs, wrapLine (fun _ => 1) mixedLine 4 (.extraColumns 1) 8 = some bs ∧
    RowsFit (fun _ => 1) 4 (candidates mixedLine) 0 0 bs :=
  wrapLine_rowsFit (fun _ => 1) mixedLine 4 (.extraColumns 1) (by decide) (by decide) (by decide) (by decide) 8 (by decide)

/-- A character that is too wide, and a newline in its row. -/
theorem not_wrapLine_rowsFit : ¬ ∀ (widthForChar : Char → ℚ) (fragments : List (LineFragment ℚ)) (wrapWidth : ℚ)
    (indentAdjustment : IndentAdjustment), indentAdjustment ≠ .sameIndent → 0 ≤ wrapWidth →
    (∀ c, 0 ≤ widthForChar c) → (∀ item ∈ candidates fragments, 0 < item.lenUtf8) → ∃ bs,
      wrapLine widthForChar fragments wrapWidth indentAdjustment ((candidates fragments).length + 1) = some bs ∧
      ∀ row ∈ wrappedRows (candidates fragments) 0 0 bs,
        rowWidth widthForChar row.1 row.2 ≤ wrapWidth ∨ row.2.length = 1 := by
  intro h
  obtain ⟨bs, hbs, hfit⟩ := h (fun _ => 2) [.text ['W', '\n', 'a']] 1 .noIndent (by decide) (by decide)
    (fun _ => by decide) (by decide)
  have hboundaries : wrapLine (fun _ => 2) [.text ['W', '\n', 'a']] (1 : ℚ) .noIndent 4 = some [⟨2, 0⟩] := by
    decide +kernel
  obtain rfl := Option.some.inj (hbs.symm.trans hboundaries)
  have hfirst := hfit (0, [.char 'W', .char '\n']) (by
    left)
  rcases hfirst with hwidth | hlength
  · exact absurd hwidth (by decide +kernel)
  · exact absurd hlength (by decide)

end FcGpui.LineWrapper
