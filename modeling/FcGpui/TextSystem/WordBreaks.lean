import FcGpui.TextSystem.WrappedRows

/-!
# Where words are broken

`wrap_line` in `crates/gpui/src/text_system/line_wrapper.rs` for a text without elements and
without an indent.  A row should be closed at an opportunity, or where no other character has
room in it.

The loop does not update the previous character at the item at which it closes a row.  At the
character behind that item, it may still be the space in front of it, and a candidate is then
marked within a word.  `Skipped` tells of this, and `InText.step` says what one character does.

**Main result.**  `wrapLine_breaks_iff`.
-/

namespace FcGpui.LineWrapper

open WrapLine

/-- The last character that is not a newline. -/
def lastChar (chars : List Char) : Option Char := (chars.filter (· != '\n')).getLast?

theorem lastChar_newline (chars : List Char) : lastChar (chars ++ ['\n']) = lastChar chars := by
  rw [lastChar, List.filter_append, List.filter_cons_of_neg (by decide), List.filter_nil, List.append_nil]
  rfl

theorem lastChar_concat (chars : List Char) {c : Char} (hc : c ≠ '\n') : lastChar (chars ++ [c]) = some c := by
  rw [lastChar, List.filter_append, List.filter_cons_of_pos (by simpa using hc), List.filter_nil, List.getLast?_concat]

/-- There is an opportunity between what is in front and a character. -/
def Breaks (front : List Char) (c : Char) : Prop :=
  if isWordChar c then lastChar front = some ' ' else c ≠ ' '

instance (front : List Char) (c : Char) : Decidable (Breaks front c) := inferInstanceAs (Decidable (ite _ _ _))

def Opportunity (chars : List Char) (ix : Nat) : Prop :=
  ∃ c ∈ charAt chars ix, Breaks (between Char.utf8Size 0 ix 0 chars) c

/-- The rows that are closed: where they start and where they end. -/
def closings (start : Nat) : List Boundary → List (Nat × Nat)
  | [] => []
  | b :: bs => (start, b.ix) :: closings b.ix bs

/-- What the variables leave out: the character at which the last row was closed, up to the next one, and
whether the candidate was marked within a word then. -/
structure Skipped where
  char : Option Char
  stale : Bool

def Skipped.start : Skipped := ⟨none, false⟩

section

variable {U : Type} [Field U]

def textWidth (widthForChar : Char → U) (chars : List Char) : U :=
  (chars.map fun c => if c = '\n' then 0 else widthForChar c).sum

theorem textWidth_append (widthForChar : Char → U) (front rest : List Char) :
    textWidth widthForChar (front ++ rest) = textWidth widthForChar front + textWidth widthForChar rest := by
  rw [textWidth, List.map_append, List.sum_append]
  rfl

theorem textWidth_newline (widthForChar : Char → U) (chars : List Char) :
    textWidth widthForChar (chars ++ ['\n']) = textWidth widthForChar chars := by
  rw [textWidth_append, textWidth, textWidth, List.map_singleton, List.sum_singleton, if_pos rfl, add_zero]

theorem textWidth_concat (widthForChar : Char → U) (chars : List Char) {c : Char} (hc : c ≠ '\n') :
    textWidth widthForChar (chars ++ [c]) = textWidth widthForChar chars + widthForChar c := by
  rw [textWidth_append, textWidth, textWidth, List.map_singleton, List.sum_singleton, if_neg hc]

variable [LinearOrder U]

/-- The character at which a row ends has no room in it. -/
def Full (widthForChar : Char → U) (wrapWidth : U) (chars : List Char) (start ix : Nat) : Prop :=
  ∃ c ∈ charAt chars ix, wrapWidth < textWidth widthForChar (between Char.utf8Size start ix 0 chars) + widthForChar c

/-- A character closes a row at a candidate in front of it. -/
def ClosesBehind (widthForChar : Char → U) (wrapWidth : U) (s : WrapLine U) (c : Char) : Prop :=
  c ≠ '\n' ∧ s.opportunity (.char c) = false ∧ wrapWidth < s.width + widthForChar c ∧ s.lastWrapIx < s.index ∧
    0 < s.lastCandidateIx ∧ s.width + widthForChar c - s.lastCandidateWidth ≤ wrapWidth

omit [Field U] [LinearOrder U] in
/-- A candidate is stale if it is in front of a word character and the previous character was skipped, and is
not a space. -/
def Skipped.next (k : Skipped) (s : WrapLine U) (c : Char) (closed : Bool) : Skipped :=
  if c = '\n' then k
  else if closed then ⟨some c, false⟩
  else ⟨none, if s.opportunity (.char c) then isWordChar c && k.char.any (· != ' ') else k.stale⟩

/-- No character closes a row at a stale candidate. -/
def NoStaleBreak (widthForChar : Char → U) (wrapWidth : U) : List Char → WrapLine U → Skipped → Prop
  | [], _, _ => True
  | c :: rest, s, k =>
    let stepped := s.step widthForChar wrapWidth .noIndent (.char c)
    (ClosesBehind widthForChar wrapWidth s c → k.stale = false) ∧
      NoStaleBreak widthForChar wrapWidth rest stepped.2 (k.next s c stepped.1.isSome)

/-! ### Places of a text -/

theorem charAt_cons {d : Char} {text : List Char} {index : Nat} (h : 0 < index) :
    charAt (d :: text) index = if index < d.utf8Size then none else charAt text (index - d.utf8Size) := by
  cases index with
  | zero => exact absurd h (lt_irrefl 0)
  | succ index => rfl

theorem charAt_append (front : List Char) (c : Char) (rest : List Char) :
    charAt (front ++ c :: rest) (textLen front) = some c := by
  induction front with
  | nil => rfl
  | cons d front ih =>
    have hpos := Char.utf8Size_pos d
    have hlen : textLen (d :: front) = d.utf8Size + textLen front := span_cons _ d front
    rw [List.cons_append, charAt_cons (by omega), hlen, if_neg (by omega), Nat.add_sub_cancel_left]
    exact ih

theorem between_front (front rest : List Char) :
    between Char.utf8Size 0 (textLen front) 0 (front ++ rest) = front := by
  have h := between_middle Char.utf8Size [] front rest fun c _ => Char.utf8Size_pos c
  rwa [List.nil_append, span_nil] at h

theorem opportunity_iff (front : List Char) (c : Char) (rest : List Char) :
    Opportunity (front ++ c :: rest) (textLen front) ↔ Breaks front c := by
  rw [Opportunity, charAt_append, between_front]
  simp

theorem full_iff (widthForChar : Char → U) (wrapWidth : U) (front row : List Char) (c : Char)
    (rest : List Char) :
    Full widthForChar wrapWidth (front ++ row ++ c :: rest) (textLen front) (textLen (front ++ row)) ↔
      wrapWidth < textWidth widthForChar row + widthForChar c := by
  rw [Full, charAt_append, between_middle _ _ _ _ fun c _ => Char.utf8Size_pos c]
  simp

/-! ### One character of the loop -/

/-- The variables of the loop, for the characters of the rows that are done and those of the current row. -/
structure InText (widthForChar : Char → U) (wrapWidth : U) (s : WrapLine U) (k : Skipped) (done row : List Char) :
    Prop where
  index : s.index = textLen (done ++ row)
  lastWrapIx : s.lastWrapIx = textLen done
  width : s.width = textWidth widthForChar row
  room : textWidth widthForChar row ≤ wrapWidth
  previous : k.char = none → s.prevC = (lastChar (done ++ row)).getD (Char.ofNat 0)
  skipped : ∀ c, k.char = some c → lastChar (done ++ row) = some c
  candidate : 0 < s.lastCandidateIx → ∃ front c back, row = front ++ c :: back ∧ c ≠ '\n' ∧
    s.lastCandidateIx = textLen (done ++ front) ∧ s.lastCandidateWidth = textWidth widthForChar front ∧
    (Breaks (done ++ front) c ↔ k.stale = false)

variable {widthForChar : Char → U} {wrapWidth : U} {s : WrapLine U} {k : Skipped} {done row : List Char} {c : Char}

/-- A candidate that is marked is an opportunity, unless it is stale. -/
theorem InText.marked (h : InText widthForChar wrapWidth s k done row) (hc : c ≠ '\n')
    (hopportunity : s.opportunity (.char c) = true) :
    Breaks (done ++ row) c ↔ (k.next s c false).stale = false := by
  rw [Skipped.next, if_neg hc, if_neg Bool.false_ne_true, if_pos hopportunity]
  rw [opportunity, Bool.and_eq_true] at hopportunity
  by_cases hword : isWordChar c = true
  · rw [if_pos hword, Bool.and_eq_true, beq_iff_eq] at hopportunity
    rw [Breaks, if_pos hword, hword, Bool.true_and]
    cases hskipped : k.char with
    | none =>
      -- the previous character is the one in front
      have hprevious := h.previous hskipped
      rw [hopportunity.2.1] at hprevious
      cases hlast : lastChar (done ++ row) with
      | none =>
        rw [hlast] at hprevious
        exact absurd hprevious (by decide)
      | some d =>
        rw [hlast] at hprevious
        simpa using hprevious.symm
    | some d =>
      rw [h.skipped d hskipped]
      simp
  · rw [if_neg hword] at hopportunity
    have hbreaks : Breaks (done ++ row) c := by
      rw [Breaks, if_neg hword]
      simpa using hopportunity.2
    rw [Bool.eq_false_iff.mpr hword, Bool.false_and]
    exact iff_of_true hbreaks rfl

/-- A newline is added to the row and changes nothing else. -/
theorem InText.newline (h : InText widthForChar wrapWidth s k done row) :
    InText widthForChar wrapWidth { s with index := s.index + '\n'.utf8Size } k done (row ++ ['\n']) := by
  refine ⟨?_, h.lastWrapIx, ?_, ?_, ?_, ?_, ?_⟩
  · rw [← List.append_assoc, textLen_append, ← h.index]
    rfl
  · rw [textWidth_newline]
    exact h.width
  · rw [textWidth_newline]
    exact h.room
  · rw [← List.append_assoc, lastChar_newline]
    exact h.previous
  · rw [← List.append_assoc, lastChar_newline]
    exact h.skipped
  · intro hcandidate
    obtain ⟨front, d, back, rfl, hfront⟩ := h.candidate hcandidate
    exact ⟨front, d, back ++ ['\n'], by rw [List.append_assoc, List.cons_append], hfront⟩

variable {newPrevC : Char} {s' : WrapLine U}

theorem InText.visited_candidate (h : InText widthForChar wrapWidth s k done row)
    {itemWidth : U} (hc : c ≠ '\n') (hvisit : Visited widthForChar s s' (.char c) newPrevC itemWidth)
    (hpos : 0 < s'.lastCandidateIx) : ∃ front d back, row ++ [c] = front ++ d :: back ∧ d ≠ '\n' ∧
      s'.lastCandidateIx = textLen (done ++ front) ∧ s'.lastCandidateWidth = textWidth widthForChar front ∧
      (Breaks (done ++ front) d ↔ (k.next s c false).stale = false) := by
  have hmarked := hvisit.marked
  split at hmarked
  · rename_i hopportunity
    obtain ⟨hix, hwidth⟩ := hmarked
    exact ⟨row, c, [], rfl, hc, hix.trans h.index, hwidth.trans h.width, h.marked hc hopportunity⟩
  · rename_i hopportunity
    obtain ⟨hix, hwidth⟩ := hmarked
    rw [hix] at hpos
    obtain ⟨front, d, back, rfl, hd, hfront, hfrontWidth, hbreaks⟩ := h.candidate hpos
    refine ⟨front, d, back ++ [c], by rw [List.append_assoc, List.cons_append], hd, hix.trans hfront,
      hwidth.trans hfrontWidth, hbreaks.trans ?_⟩
    rw [Skipped.next, if_neg hc, if_neg Bool.false_ne_true, if_neg hopportunity]

theorem InText.add (h : InText widthForChar wrapWidth s k done row)
    {itemWidth : U} (hc : c ≠ '\n') (hvisit : Visited widthForChar s s' (.char c) newPrevC itemWidth)
    (hroom : textWidth widthForChar (row ++ [c]) ≤ wrapWidth)
    (hwidth : s'.width + itemWidth = textWidth widthForChar (row ++ [c])) :
    InText widthForChar wrapWidth { s' with width := s'.width + itemWidth, prevC := newPrevC } (k.next s c false) done
      (row ++ [c]) := by
  have hchar : (k.next s c false).char = none := by
    rw [Skipped.next, if_neg hc, if_neg Bool.false_ne_true]
  refine ⟨?_, hvisit.lastWrapIx.trans h.lastWrapIx, hwidth, hroom, ?_, ?_, ?_⟩
  · show s'.index = _
    rw [hvisit.index, h.index, ← List.append_assoc, textLen_append (done ++ row)]
    rfl
  · intro _
    rw [← List.append_assoc, lastChar_concat _ hc, hvisit.previous c rfl, Option.getD_some]
  · intro d hd
    rw [hchar] at hd
    exact absurd hd (Option.some_ne_none d).symm
  · have hcandidate := h.visited_candidate hc hvisit
    exact hcandidate

/-- The variables behind the end of a row, for where it is and the width that is carried. -/
structure Closed (s : WrapLine U) (closed : Boundary × WrapLine U) (place : Nat) (carried : U) : Prop where
  ix : closed.1.ix = place
  index : closed.2.index = s.index
  lastWrapIx : closed.2.lastWrapIx = place
  width : closed.2.width = carried
  candidate : closed.2.lastCandidateIx = 0

theorem wrap_behind (widthForChar : Char → U) (ix : Nat) (itemWidth : U)
    (h : 0 < s.lastCandidateIx ∧ s.width - s.lastCandidateWidth ≤ wrapWidth) :
    Closed s (s.wrap widthForChar wrapWidth .noIndent ix itemWidth) s.lastCandidateIx
      (s.width - s.lastCandidateWidth) := by
  rw [WrapLine.wrap]
  simp only [decide_eq_true h, if_true, nextIndent, Nat.cast_zero, mul_zero, add_zero]
  exact ⟨rfl, rfl, rfl, rfl, rfl⟩

theorem wrap_here (widthForChar : Char → U) (ix : Nat) (itemWidth : U)
    (h : ¬(0 < s.lastCandidateIx ∧ s.width - s.lastCandidateWidth ≤ wrapWidth)) :
    Closed s (s.wrap widthForChar wrapWidth .noIndent ix itemWidth) ix itemWidth := by
  rw [WrapLine.wrap]
  simp only [decide_eq_false h, Bool.false_eq_true, if_false, nextIndent, Nat.cast_zero, mul_zero, add_zero]
  exact ⟨rfl, rfl, rfl, rfl, rfl⟩

theorem Closed.inText {closed : Boundary × WrapLine U} {visited : WrapLine U} {place : Nat} {carried : U}
    {d : Char} {back : List Char} (h : Closed visited closed place carried) (hplace : place = textLen done) (hc : c ≠ '\n')
    (hindex : visited.index = textLen (done ++ d :: back))
    (hlast : lastChar (done ++ d :: back) = some c) (hcarried : carried = textWidth widthForChar (d :: back))
    (hroom : carried ≤ wrapWidth) :
    InText widthForChar wrapWidth closed.2 (k.next s c true) done (d :: back) := by
  have hnext : k.next s c true = ⟨some c, false⟩ := by
    rw [Skipped.next, if_neg hc, if_pos rfl]
  refine ⟨h.index.trans hindex, h.lastWrapIx.trans hplace, h.width.trans hcarried, hcarried ▸ hroom, ?_, ?_, ?_⟩
  · intro hnone
    rw [hnext] at hnone
    exact absurd hnone (Option.some_ne_none c)
  · intro e he
    rw [hnext] at he
    rw [hlast]
    exact he
  · intro hpos
    rw [h.candidate] at hpos
    exact absurd hpos (lt_irrefl 0)

omit [LinearOrder U] in
theorem textWidth_nonneg [LinearOrder U] [IsStrictOrderedRing U] (hwidth : ∀ c, 0 ≤ widthForChar c)
    (chars : List Char) : 0 ≤ textWidth widthForChar chars := by
  refine List.sum_nonneg fun x hx => ?_
  obtain ⟨c, -, rfl⟩ := List.mem_map.mp hx
  split
  · exact le_rfl
  · exact hwidth c

/-- The row is closed in front of the character, or at a candidate in front of it. -/
theorem closed_cases {itemWidth : U} (hc : c ≠ '\n')
    (hvisit : Visited widthForChar s s' (.char c) newPrevC itemWidth) (hitem : itemWidth ≤ wrapWidth)
    (hover : wrapWidth < s.width + widthForChar c) (hlater : s.lastWrapIx < s.index) :
    let visited := { s' with width := s'.width + itemWidth }
    let closed := visited.wrap widthForChar wrapWidth .noIndent s.index itemWidth
    (¬ClosesBehind widthForChar wrapWidth s c ∧ Closed visited closed s.index itemWidth) ∨
      (ClosesBehind widthForChar wrapWidth s c ∧
        Closed visited closed s.lastCandidateIx (s'.width + itemWidth - s.lastCandidateWidth)) := by
  intro visited closed
  have hitemWidth : itemWidth = widthForChar c := by
    rw [hvisit.itemWidth_eq, WrapBoundaryCandidate.itemWidth, if_neg hc]
  have hmarked := hvisit.marked
  split at hmarked
  · -- the candidate is the character itself
    rename_i hopportunity
    obtain ⟨hix, hwidth⟩ := hmarked
    have hcarried : visited.width - visited.lastCandidateWidth = itemWidth := by
      show s'.width + itemWidth - s'.lastCandidateWidth = itemWidth
      rw [hwidth, hvisit.width, add_sub_cancel_left]
    have hcandidate : 0 < visited.lastCandidateIx ∧ visited.width - visited.lastCandidateWidth ≤ wrapWidth := by
      refine ⟨?_, hcarried.symm ▸ hitem⟩
      show 0 < s'.lastCandidateIx
      omega
    have hbehind := wrap_behind widthForChar s.index itemWidth hcandidate
    rw [hcarried] at hbehind
    refine Or.inl ⟨fun h => ?_, hix ▸ hbehind⟩
    rw [h.2.1] at hopportunity
    exact Bool.false_ne_true hopportunity
  · rename_i hopportunity
    obtain ⟨hix, hwidth⟩ := hmarked
    by_cases hcandidate : 0 < visited.lastCandidateIx ∧ visited.width - visited.lastCandidateWidth ≤ wrapWidth
    · have hbehind := wrap_behind widthForChar s.index itemWidth hcandidate
      have hcloses : ClosesBehind widthForChar wrapWidth s c := by
        refine ⟨hc, Bool.eq_false_iff.mpr hopportunity, hover, hlater, hix ▸ hcandidate.1, ?_⟩
        rw [← hitemWidth, ← hvisit.width, ← hwidth]
        exact hcandidate.2
      exact Or.inr ⟨hcloses, hix ▸ hwidth ▸ hbehind⟩
    · refine Or.inl ⟨fun h => hcandidate ⟨?_, ?_⟩, wrap_here widthForChar s.index itemWidth hcandidate⟩
      · show 0 < s'.lastCandidateIx
        rw [hix]
        exact h.2.2.2.2.1
      · show s'.width + itemWidth - s'.lastCandidateWidth ≤ wrapWidth
        rw [hwidth, hvisit.width, hitemWidth]
        exact h.2.2.2.2.2

variable [IsStrictOrderedRing U]

/-- **One character of the loop**: it is added to the row, or the row is closed.  A row that is closed is full,
or it is closed at a candidate. -/
theorem InText.step (h : InText widthForChar wrapWidth s k done row)
    (hwidth : ∀ c, 0 < widthForChar c ∧ widthForChar c ≤ wrapWidth) (c : Char) :
    let stepped := s.step widthForChar wrapWidth .noIndent (.char c)
    (stepped.1 = none ∧ ¬ClosesBehind widthForChar wrapWidth s c ∧
        InText widthForChar wrapWidth stepped.2 (k.next s c false) done (row ++ [c])) ∨
      ∃ b front d back, stepped.1 = some b ∧ row ++ [c] = front ++ d :: back ∧ b.ix = textLen (done ++ front) ∧
        InText widthForChar wrapWidth stepped.2 (k.next s c true) (done ++ front) (d :: back) ∧
        (Breaks (done ++ front) d ∨ wrapWidth < textWidth widthForChar front + widthForChar d ↔
          (ClosesBehind widthForChar wrapWidth s c → k.stale = false)) := by
  intro stepped
  have hstepped : stepped = s.step widthForChar wrapWidth .noIndent (.char c) := rfl
  rw [WrapLine.step] at hstepped
  rcases visit_cases widthForChar s (.char c) with ⟨hnewline, hvisit⟩ | ⟨s', newPrevC, itemWidth, hvisit, hvisited⟩
  · left
    have hc : c = '\n' := by simpa [WrapBoundaryCandidate.isNewline] using hnewline
    subst hc
    rw [hvisit] at hstepped
    rw [hstepped, Skipped.next, if_pos rfl]
    exact ⟨rfl, fun hcloses => hcloses.1 rfl, h.newline⟩
  · have hc : c ≠ '\n' := by simpa [WrapBoundaryCandidate.isNewline] using hvisited.notNewline
    have hitemWidth : itemWidth = widthForChar c := by
      rw [hvisited.itemWidth_eq, WrapBoundaryCandidate.itemWidth, if_neg hc]
    have hwhole : s'.width + itemWidth = textWidth widthForChar (row ++ [c]) := by
      rw [textWidth_concat _ _ hc, hvisited.width, h.width, hitemWidth]
    rw [hvisit] at hstepped
    dsimp only at hstepped
    split at hstepped
    · rename_i hover
      right
      rw [hstepped]
      obtain ⟨hover, hlater⟩ := hover
      have hfull : wrapWidth < textWidth widthForChar row + widthForChar c := by
        rwa [hwhole, textWidth_concat _ _ hc] at hover
      have hindex : s'.index = textLen (done ++ (row ++ [c])) := by
        rw [hvisited.index, h.index, ← List.append_assoc, textLen_append (done ++ row)]
        rfl
      have hitem : itemWidth ≤ wrapWidth := hitemWidth ▸ (hwidth c).2
      rcases closed_cases hc hvisited hitem (by rwa [h.width]) (by rwa [hvisited.lastWrapIx] at hlater) with
        ⟨hbehind, hclosed⟩ | ⟨hbehind, hclosed⟩
      · refine ⟨_, row, c, [], rfl, rfl, hclosed.ix.trans h.index, ?_, iff_of_true (Or.inr hfull) fun hcloses =>
          absurd hcloses hbehind⟩
        exact hclosed.inText h.index hc (by rw [List.append_assoc]; exact hindex)
          (lastChar_concat _ hc) (by rw [hitemWidth, textWidth, List.map_singleton, List.sum_singleton, if_neg hc])
          (hitemWidth ▸ (hwidth c).2)
      · obtain ⟨front, d, back, rfl, hd, hix, hfront, hbreaks⟩ := h.candidate hbehind.2.2.2.2.1
        have hrow : done ++ (front ++ d :: back ++ [c]) = done ++ front ++ d :: (back ++ [c]) := by
          simp only [List.append_assoc, List.cons_append]
        have hcarried : s'.width + itemWidth - s.lastCandidateWidth = textWidth widthForChar (d :: (back ++ [c])) := by
          rw [hwhole, hfront, List.append_assoc, textWidth_append, add_sub_cancel_left, List.cons_append]
        have hroom : textWidth widthForChar front + widthForChar d ≤ wrapWidth := by
          have hnonneg := textWidth_nonneg (fun c => (hwidth c).1.le) back
          have hall := h.room
          rw [List.append_cons, textWidth_append, textWidth_concat _ _ hd] at hall
          linarith
        refine ⟨_, front, d, back ++ [c], rfl, by rw [List.append_assoc, List.cons_append], hclosed.ix.trans hix, ?_, ?_⟩
        · refine hclosed.inText hix hc (hindex.trans (by rw [hrow])) ?_ hcarried ?_
          · rw [← List.cons_append, ← List.append_assoc]
            exact lastChar_concat _ hc
          · rw [hvisited.width, hitemWidth]
            exact hbehind.2.2.2.2.2
        · rw [or_iff_left (not_lt.mpr hroom), hbreaks]
          exact ⟨fun hfresh _ => hfresh, fun hfresh => hfresh hbehind⟩
    · rename_i hroom
      left
      have hadd : textWidth widthForChar (row ++ [c]) ≤ wrapWidth := by
        by_cases hnil : row = []
        · rw [hnil, List.nil_append, textWidth, List.map_singleton, List.sum_singleton, if_neg hc]
          exact (hwidth c).2
        · by_contra hwide
          refine hroom ⟨hwhole ▸ not_le.mp hwide, ?_⟩
          rw [hvisited.lastWrapIx, h.lastWrapIx, h.index, textLen_append]
          have hpos : 0 < textLen row := span_pos (fun c _ => Char.utf8Size_pos c) hnil
          omega
      rw [hstepped]
      refine ⟨rfl, fun hcloses => hroom ⟨?_, ?_⟩, h.add hc hvisited hadd hwhole⟩
      · rw [hvisited.width, hitemWidth]
        exact hcloses.2.2.1
      · rw [hvisited.lastWrapIx]
        exact hcloses.2.2.2.1

/-! ### A whole text -/

/-- **The rest of the loop**, in a row. -/
theorem InText.breaks_iff (hwidth : ∀ c, 0 < widthForChar c ∧ widthForChar c ≤ wrapWidth) {chars : List Char} :
    ∀ (rest : List Char) (s : WrapLine U) (k : Skipped) (done row : List Char), chars = done ++ row ++ rest →
      InText widthForChar wrapWidth s k done row →
      ((∀ closed ∈ closings (textLen done) (boundaries widthForChar wrapWidth .noIndent (rest.map .char) s),
          Opportunity chars closed.2 ∨ Full widthForChar wrapWidth chars closed.1 closed.2) ↔
        NoStaleBreak widthForChar wrapWidth rest s k) := by
  intro rest
  induction rest with
  | nil =>
    intro s k done row _ _
    exact iff_of_true (fun closed hclosed => absurd hclosed List.not_mem_nil) trivial
  | cons c rest ih =>
    intro s k done row hchars h
    rw [List.map_cons, boundaries, NoStaleBreak]
    rcases h.step hwidth c with ⟨hstep, hcloses, hin⟩ | ⟨b, front, d, back, hstep, hrow, hix, hin, hbreaks⟩
    · rw [hstep, Option.toList_none, List.nil_append, Option.isSome_none,
        ih _ _ done (row ++ [c]) (by rw [hchars]; simp only [List.append_assoc, List.cons_append, List.nil_append]) hin]
      exact ⟨fun hrest => ⟨fun hbehind => absurd hbehind hcloses, hrest⟩, fun hrest => hrest.2⟩
    · have hsplit : chars = done ++ front ++ d :: (back ++ rest) := by
        rw [hchars, List.append_cons, List.append_assoc done, hrow]
        simp only [List.append_assoc, List.cons_append]
      have hclosed : Opportunity chars b.ix ∨ Full widthForChar wrapWidth chars (textLen done) b.ix ↔
          (ClosesBehind widthForChar wrapWidth s c → k.stale = false) := by
        rw [hix, hsplit, opportunity_iff, full_iff]
        exact hbreaks
      have hrest := ih _ _ (done ++ front) (d :: back) (by rw [hsplit]; simp only [List.append_assoc, List.cons_append]) hin
      rw [hstep, Option.toList_some, List.singleton_append, closings, List.forall_mem_cons, Option.isSome_some, hix]
      rw [hix] at hclosed
      exact and_congr hclosed hrest

omit [LinearOrder U] [IsStrictOrderedRing U] in
theorem start_inText [LinearOrder U] (widthForChar : Char → U) (hwrap : 0 ≤ wrapWidth) :
    InText widthForChar wrapWidth WrapLine.start Skipped.start [] [] where
  index := rfl
  lastWrapIx := rfl
  width := rfl
  room := hwrap
  previous := fun _ => rfl
  skipped := fun c h => absurd h (Option.some_ne_none c).symm
  candidate := fun h => absurd h (lt_irrefl 0)

omit [Field U] [LinearOrder U] [IsStrictOrderedRing U] in
theorem candidates_text (texts : List (List Char)) :
    candidates (texts.map (LineFragment.text (U := U))) = texts.flatten.map .char := by
  induction texts with
  | nil => rfl
  | cons text texts ih =>
    rw [List.map_cons, candidates, List.flatMap_cons, List.flatten_cons, List.map_append, ← ih]
    rfl

/-- **Rows end at opportunities, or they are full**, if and only if none is closed at a stale candidate. -/
theorem wrapLine_breaks_iff (widthForChar : Char → U) (wrapWidth : U)
    (hwidth : ∀ c, 0 < widthForChar c ∧ widthForChar c ≤ wrapWidth) (texts : List (List Char)) (calls : Nat)
    (hcalls : texts.flatten.length < calls) :
    ∃ bs, wrapLine widthForChar (texts.map .text) wrapWidth .noIndent calls = some bs ∧
      ((∀ closed ∈ closings 0 bs,
          Opportunity texts.flatten closed.2 ∨ Full widthForChar wrapWidth texts.flatten closed.1 closed.2) ↔
        NoStaleBreak widthForChar wrapWidth texts.flatten WrapLine.start Skipped.start) := by
  refine ⟨_, wrapLine_ends widthForChar (texts.map .text) wrapWidth .noIndent ?_, ?_⟩
  · rw [candidates_text, List.length_map]
    exact hcalls
  · rw [candidates_text]
    exact InText.breaks_iff hwidth texts.flatten WrapLine.start Skipped.start [] [] rfl
      (start_inText widthForChar ((hwidth ' ').1.le.trans (hwidth ' ').2))

end

/-- A row that ends with a space, and a word that is as long as a row and one character. -/
def longWord : List (List Char) := [['a', 'a', 'a', ' ', 'c', 'd', 'e', 'f', 'g']]

theorem wrapLine_breaks_longWord : ∃ bs, wrapLine unitWidth (longWord.map .text) 4 .noIndent 10 = some bs ∧
    ((∀ closed ∈ closings 0 bs,
        Opportunity longWord.flatten closed.2 ∨ Full unitWidth 4 longWord.flatten closed.1 closed.2) ↔
      NoStaleBreak unitWidth 4 longWord.flatten WrapLine.start Skipped.start) :=
  wrapLine_breaks_iff unitWidth 4 (fun _ => by rw [unitWidth]; decide) longWord 10 (by decide)

/-- The first character of the word has no room in the row.  It is made a row of its own. -/
theorem not_wrapLine_breaks : ¬ ∀ (widthForChar : Char → ℚ) (wrapWidth : ℚ),
    (∀ c, 0 < widthForChar c ∧ widthForChar c ≤ wrapWidth) → ∀ texts : List (List Char), ∃ bs,
      wrapLine widthForChar (texts.map .text) wrapWidth .noIndent (texts.flatten.length + 1) = some bs ∧
      ∀ closed ∈ closings 0 bs,
        Opportunity texts.flatten closed.2 ∨ Full widthForChar wrapWidth texts.flatten closed.1 closed.2 := by
  intro h
  obtain ⟨bs, hbs, hbreaks⟩ := h unitWidth 4 (fun _ => by rw [unitWidth]; decide) longWord
  have hboundaries : wrapLine unitWidth (longWord.map .text) 4 .noIndent 10 = some [⟨4, 0⟩, ⟨5, 0⟩] := by
    decide +kernel
  obtain rfl := Option.some.inj (hbs.symm.trans hboundaries)
  have hd : charAt longWord.flatten 5 = some 'd' := by decide
  rcases hbreaks (4, 5) (by decide) with ⟨c, hc, hopportunity⟩ | ⟨c, hc, hfull⟩
  · obtain rfl := Option.some.inj (hd.symm.trans hc)
    exact absurd hopportunity (by decide)
  · obtain rfl := Option.some.inj (hd.symm.trans hc)
    exact absurd hfull (by decide +kernel)

end FcGpui.LineWrapper
