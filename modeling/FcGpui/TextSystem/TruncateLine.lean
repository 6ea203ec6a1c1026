import FcGpui.Lib.Stretches
import FcGpui.TextSystem.LineWrapper

/-!
# Truncation of a line

`LineWrapper::truncate_line` and `update_runs_after_truncation` in
`crates/gpui/src/text_system/line_wrapper.rs`.  The cut is the last place that leaves room for
the suffix; it is found on the way to the first character that goes too far, and what is in
front of it is trimmed.  The runs are cut by the length of the result.

A line is cut at a place between characters; `truncateLine` is `none` where the source panics.

**Main result.**  `truncateLine_spec`.
-/

namespace FcGpui.LineWrapper

/-- `char::is_whitespace`. -/
def isWhitespace (c : Char) : Bool :=
  charIn 0x09 0x0D c || charIn 0x2000 0x200A c
    || [0x20, 0x85, 0xA0, 0x1680, 0x2028, 0x2029, 0x202F, 0x205F, 0x3000].contains c.toNat

/-- `char::is_ascii_punctuation`. -/
def isAsciiPunctuation (c : Char) : Bool :=
  charIn 0x21 0x2F c || charIn 0x3A 0x40 c || charIn 0x5B 0x60 c || charIn 0x7B 0x7E c

/-- `str::char_indices`, from a byte on. -/
def charIndices : Nat → List Char → List (Nat × Char)
  | _, [] => []
  | ix, c :: line => (ix, c) :: charIndices (ix + c.utf8Size) line

/-- `line[..ix]`. -/
def sliceTo : List Char → Nat → Option (List Char)
  | _, 0 => some []
  | [], _ + 1 => none
  | c :: line, ix + 1 => if ix + 1 < c.utf8Size then none else (sliceTo line (ix + 1 - c.utf8Size)).map (c :: ·)

/-- `trim_end_matches`. -/
def trimEnd (line : List Char) : List Char := line.rdropWhile fun c => isWhitespace c || isAsciiPunctuation c

section Runs

variable {F H N S : Type}

/-- The loop of `update_runs_after_truncation`. -/
def updateRuns (ellipsisLen : Nat) : Nat → List (TextRun F H N S) → List (TextRun F H N S)
  | _, [] => []
  | truncateAt, run :: runs =>
    if run.len ≤ truncateAt then run :: updateRuns ellipsisLen (truncateAt - run.len) runs
    else [{ run with len := truncateAt + ellipsisLen }]

def updateRunsAfterTruncation (result ellipsis : List Char) (runs : List (TextRun F H N S)) :
    List (TextRun F H N S) :=
  updateRuns (textLen ellipsis) (textLen result - textLen ellipsis) runs

/-- The run of each byte, with its number. -/
def byteRuns (first : Nat) (runs : List (TextRun F H N S)) : List (Nat × TextStyle F H N S) :=
  expand ((runs.zipIdx first).map fun (run, number) => (run.len, number, run.toTextStyle))

end Runs

section

variable {U : Type} [Field U] [LinearOrder U]

def charsWidth (widthForChar : Char → U) (chars : List Char) : U := (chars.map widthForChar).sum

variable [FloorRing U]

/-- The loop of `truncate_line`: the place of the cut, if a character goes too far. -/
def truncateIx (widthForChar : Char → U) (truncateWidth suffixWidth : U) :
    List (Nat × Char) → U → Nat → Option Nat
  | [], _, _ => none
  | (ix, c) :: rest, width, place =>
    let place := if width + suffixWidth < truncateWidth then ix else place
    let width := width + widthForChar c
    if truncateWidth < (⌊width⌋ : U) then some place
    else truncateIx widthForChar truncateWidth suffixWidth rest width place

variable {F H N S : Type}

def truncateLine (widthForChar : Char → U) (line : List Char) (truncateWidth : U) (truncationSuffix : List Char)
    (runs : List (TextRun F H N S)) : Option (List Char × List (TextRun F H N S)) :=
  match truncateIx widthForChar truncateWidth (charsWidth widthForChar truncationSuffix) (charIndices 0 line) 0 0 with
  | none => some (line, runs)
  | some place =>
    (sliceTo line place).map fun front =>
      let result := trimEnd front ++ truncationSuffix
      (result, updateRunsAfterTruncation result truncationSuffix runs)

/-- A line that has been shortened: what is kept of it, the suffix, and the runs of both. -/
structure Shortened (widthForChar : Char → U) (line : List Char) (truncateWidth : U) (truncationSuffix : List Char)
    (runs : List (TextRun F H N S)) (result : List Char × List (TextRun F H N S)) (kept : List Char) : Prop where
  kept_prefix : kept <+: line
  result_eq : result.1 = kept ++ truncationSuffix
  fits : charsWidth widthForChar result.1 < truncateWidth
  length : (result.2.map TextRun.len).sum = textLen result.1
  covered : ∃ cut, (byteRuns 0 runs)[textLen kept]? = some cut ∧
    byteRuns 0 result.2 = (byteRuns 0 runs).take (textLen kept) ++ List.replicate (textLen truncationSuffix) cut

end

/-! ### The runs -/

section Runs

variable {F H N S : Type}

theorem byteRuns_cons (first : Nat) (run : TextRun F H N S) (runs : List (TextRun F H N S)) :
    byteRuns first (run :: runs) =
      List.replicate run.len (first, run.toTextStyle) ++ byteRuns (first + 1) runs := rfl

theorem length_byteRuns (first : Nat) (runs : List (TextRun F H N S)) :
    (byteRuns first runs).length = (runs.map TextRun.len).sum := by
  induction runs generalizing first with
  | nil => rfl
  | cons run runs ih =>
    rw [byteRuns_cons, List.length_append, List.length_replicate, ih, List.map_cons, List.sum_cons]

/-- The bytes in front of the cut stay in their runs, and those of the suffix are in the run at the cut. -/
theorem byteRuns_updateRuns (ellipsisLen : Nat) {runs : List (TextRun F H N S)} :
    ∀ (truncateAt first : Nat), truncateAt < (runs.map TextRun.len).sum →
      ∃ cut, (byteRuns first runs)[truncateAt]? = some cut ∧
        byteRuns first (updateRuns ellipsisLen truncateAt runs) =
          (byteRuns first runs).take truncateAt ++ List.replicate ellipsisLen cut := by
  induction runs with
  | nil =>
    intro truncateAt first h
    exact absurd h (Nat.not_lt_zero _)
  | cons run runs ih =>
    intro truncateAt first h
    rw [List.map_cons, List.sum_cons] at h
    rw [updateRuns]
    split
    · rename_i hwhole
      obtain ⟨cut, hcut, hcover⟩ := ih (truncateAt - run.len) (first + 1) (by omega)
      refine ⟨cut, ?_, ?_⟩
      · rw [byteRuns_cons, List.getElem?_append_right (by rwa [List.length_replicate]), List.length_replicate]
        exact hcut
      · have hfull : (List.replicate run.len (first, run.toTextStyle)).take truncateAt =
            List.replicate run.len (first, run.toTextStyle) :=
          List.take_of_length_le (by rwa [List.length_replicate])
        rw [byteRuns_cons, byteRuns_cons, hcover, List.take_append, List.length_replicate, hfull, List.append_assoc]
    · rename_i hcut
      have hlt : truncateAt < run.len := by omega
      refine ⟨(first, run.toTextStyle), ?_, ?_⟩
      · rw [byteRuns_cons, List.getElem?_append_left (by rwa [List.length_replicate]),
          List.getElem?_replicate_of_lt hlt]
      · rw [byteRuns_cons, byteRuns_cons, List.take_append_of_le_length (by rw [List.length_replicate]; omega),
          List.take_replicate, Nat.min_eq_left hlt.le, List.replicate_add, List.append_assoc]
        exact congrArg _ (List.append_nil _)

end Runs

/-! ### The cut -/

theorem sliceTo_append (front rest : List Char) : sliceTo (front ++ rest) (textLen front) = some front := by
  induction front with
  | nil => cases rest <;> rfl
  | cons c front ih =>
    have hpos := Char.utf8Size_pos c
    have hcons : textLen (c :: front) = c.utf8Size + textLen front := span_cons _ c front
    have hlen : textLen (c :: front) = (c.utf8Size + textLen front - 1) + 1 := by omega
    rw [List.cons_append, hlen, sliceTo, if_neg (by omega),
      show c.utf8Size + textLen front - 1 + 1 - c.utf8Size = textLen front by omega, ih]
    rfl

section

variable {U : Type} [Field U] [LinearOrder U] [IsStrictOrderedRing U] {widthForChar : Char → U} {line : List Char}
  {truncateWidth : U} {truncationSuffix : List Char}

omit [LinearOrder U] [IsStrictOrderedRing U] in
theorem charsWidth_append (widthForChar : Char → U) (front rest : List Char) :
    charsWidth widthForChar (front ++ rest) = charsWidth widthForChar front + charsWidth widthForChar rest := by
  rw [charsWidth, List.map_append, List.sum_append]
  rfl

theorem charsWidth_le_of_prefix (hwidth : ∀ c, 0 ≤ widthForChar c) {front line : List Char} (h : front <+: line) :
    charsWidth widthForChar front ≤ charsWidth widthForChar line := by
  obtain ⟨rest, rfl⟩ := h
  rw [charsWidth_append]
  refine le_add_of_nonneg_right (List.sum_nonneg fun x hx => ?_)
  obtain ⟨c, -, rfl⟩ := List.mem_map.mp hx
  exact hwidth c

variable [FloorRing U]

/-- A prefix of the line, as long as it is, goes too far. -/
def TooWide (widthForChar : Char → U) (truncateWidth : U) (front : List Char) : Prop :=
  truncateWidth < (⌊charsWidth widthForChar front⌋ : U)

omit [IsStrictOrderedRing U] in
/-- What the loop finds, behind the characters that it has seen. -/
theorem truncateIx_cases (line : List Char) {suffixWidth : U} : ∀ (rest front last : List Char), line = front ++ rest →
    last <+: front →
    charsWidth widthForChar last + suffixWidth < truncateWidth →
    (truncateIx widthForChar truncateWidth suffixWidth (charIndices (textLen front) rest) (charsWidth widthForChar front)
          (textLen last) = none ∧
        ∀ more, more ≠ [] → more <+: rest → ¬TooWide widthForChar truncateWidth (front ++ more)) ∨
      ∃ kept after, truncateIx widthForChar truncateWidth suffixWidth (charIndices (textLen front) rest)
          (charsWidth widthForChar front) (textLen last) = some (textLen kept) ∧ line = kept ++ after ∧ after ≠ [] ∧
        charsWidth widthForChar kept + suffixWidth < truncateWidth ∧
        ∃ wide, wide <+: line ∧ TooWide widthForChar truncateWidth wide := by
  intro rest
  induction rest with
  | nil =>
    intro front last _ _ _
    exact Or.inl ⟨rfl, fun more hne hmore => absurd (List.prefix_nil.mp hmore) hne⟩
  | cons c rest ih =>
    intro front last hline hlast hroom
    have hsplit : line = front ++ [c] ++ rest := by rw [hline, List.append_cons]
    -- the cut moves to the character, if there is room for the suffix
    obtain ⟨last', hlast', hroom', hplace⟩ : ∃ last', last' <+: front ∧
        charsWidth widthForChar last' + suffixWidth < truncateWidth ∧
        (if charsWidth widthForChar front + suffixWidth < truncateWidth then textLen front else textLen last) =
          textLen last' := by
      split
      · rename_i hfront
        exact ⟨front, List.prefix_rfl, hfront, rfl⟩
      · exact ⟨last, hlast, hroom, rfl⟩
    have hwidth : charsWidth widthForChar front + widthForChar c = charsWidth widthForChar (front ++ [c]) := by
      rw [charsWidth_append, charsWidth, charsWidth, List.map_singleton, List.sum_singleton]
    have hix : textLen front + c.utf8Size = textLen (front ++ [c]) := by
      rw [textLen_append]
      rfl
    rw [charIndices, truncateIx, hplace, hwidth, hix]
    by_cases hwide : truncateWidth < (⌊charsWidth widthForChar (front ++ [c])⌋ : U)
    · right
      rw [if_pos hwide]
      obtain ⟨between, rfl⟩ := hlast'
      exact ⟨last', between ++ c :: rest, rfl, by rw [hline, List.append_assoc], by simp, hroom', _,
        ⟨rest, hsplit.symm⟩, hwide⟩
    · rw [if_neg hwide]
      rcases ih (front ++ [c]) last' hsplit (hlast'.trans (List.prefix_append front [c])) hroom' with
        ⟨hnone, hfit⟩ | hsome
      · left
        refine ⟨hnone, fun more hne hmore => ?_⟩
        cases more with
        | nil => exact absurd rfl hne
        | cons d more =>
          obtain ⟨rfl, htail⟩ := List.cons_prefix_cons.mp hmore
          rw [List.append_cons]
          by_cases hend : more = []
          · rw [hend, List.append_nil]
            exact hwide
          · exact hfit more hend htail
      · right
        exact hsome

variable {F H N S : Type} {runs : List (TextRun F H N S)}

/-- **Truncation of a line**: the line is shortened if one of its prefixes goes too far, and stays as it is if
none does. -/
theorem truncateLine_spec (hwidth : ∀ c, 0 ≤ widthForChar c)
    (hsuffix : charsWidth widthForChar truncationSuffix < truncateWidth)
    (hruns : (runs.map TextRun.len).sum = textLen line) :
    ∃ result, truncateLine widthForChar line truncateWidth truncationSuffix runs = some result ∧
      ((∀ front, front <+: line → ¬TooWide widthForChar truncateWidth front) → result = (line, runs)) ∧
      ((∃ front, front <+: line ∧ TooWide widthForChar truncateWidth front) →
        ∃ kept, Shortened widthForChar line truncateWidth truncationSuffix runs result kept) := by
  have hnil : ¬TooWide widthForChar truncateWidth [] := by
    have hpos : 0 ≤ charsWidth widthForChar truncationSuffix :=
      charsWidth_le_of_prefix hwidth (List.nil_prefix : [] <+: truncationSuffix)
    rw [TooWide, charsWidth, List.map_nil, List.sum_nil, Int.floor_zero, Int.cast_zero]
    exact not_lt.mpr (hpos.trans hsuffix.le)
  have hstart : charsWidth widthForChar [] + charsWidth widthForChar truncationSuffix < truncateWidth := by
    rwa [charsWidth, List.map_nil, List.sum_nil, zero_add]
  have hcases := truncateIx_cases line line [] [] rfl List.prefix_rfl hstart
  change (truncateIx widthForChar truncateWidth _ (charIndices 0 line) 0 0 = none ∧ _) ∨
    ∃ kept after, truncateIx widthForChar truncateWidth _ (charIndices 0 line) 0 0 = some (textLen kept) ∧ _ at hcases
  rcases hcases with ⟨hnone, hfit⟩ | ⟨front, after, hsome, hline, hafter, hroom, hwide⟩
  · refine ⟨(line, runs), by rw [truncateLine, hnone], fun _ => rfl, fun ⟨front, hfront, hwide⟩ => ?_⟩
    by_cases hne : front = []
    · exact absurd (hne ▸ hwide) hnil
    · exact absurd hwide (hfit front hne hfront)
  · have htrim : trimEnd front <+: front := List.rdropWhile_prefix _ _
    have hkept : textLen (trimEnd front) < (runs.map TextRun.len).sum := by
      obtain ⟨trimmed, htrimmed⟩ := htrim
      have hpos : 0 < textLen after := span_pos (fun c _ => Char.utf8Size_pos c) hafter
      rw [hruns, hline, textLen_append, ← congrArg textLen htrimmed, textLen_append]
      omega
    have hupdated : updateRunsAfterTruncation (trimEnd front ++ truncationSuffix) truncationSuffix runs =
        updateRuns (textLen truncationSuffix) (textLen (trimEnd front)) runs := by
      rw [updateRunsAfterTruncation, textLen_append, Nat.add_sub_cancel_right]
    obtain ⟨cut, hcut, hcovered⟩ := byteRuns_updateRuns (textLen truncationSuffix) _ 0 hkept
    rw [← hupdated] at hcovered
    have hresult : truncateLine widthForChar line truncateWidth truncationSuffix runs =
        some (trimEnd front ++ truncationSuffix,
          updateRunsAfterTruncation (trimEnd front ++ truncationSuffix) truncationSuffix runs) := by
      have hslice : sliceTo line (textLen front) = some front := by rw [hline, sliceTo_append]
      rw [truncateLine, hsome]
      dsimp only
      rw [hslice, Option.map_some]
    refine ⟨_, hresult, fun hall => ?_, fun _ => ⟨trimEnd front, htrim.trans ⟨after, hline.symm⟩, rfl, ?_, ?_, ?_⟩⟩
    · obtain ⟨wide, hprefix, hwide⟩ := hwide
      exact absurd hwide (hall wide hprefix)
    · have htrimmed := charsWidth_le_of_prefix hwidth htrim
      rw [charsWidth_append]
      linarith
    · have hlength := congrArg List.length hcovered
      rw [length_byteRuns, List.length_append, List.length_take, length_byteRuns, List.length_replicate,
        Nat.min_eq_left hkept.le, ← textLen_append] at hlength
      exact hlength
    · exact ⟨cut, hcut, hcovered⟩

end

/-- Runs that are told apart by their fonts. -/
def fontRuns (lens : List Nat) : List (TextRun Nat Unit Unit Unit) :=
  lens.zipIdx.map fun (len, font) =>
    { color := (), backgroundColor := none, underline := none, strikethrough := none, font, len }

/-- A line that is cut at the end of a run, with an empty run behind it. -/
theorem truncateLine_fontRuns : ∃ result,
    truncateLine unitWidth ['a', 'b', 'c', '.', 'd', 'e', 'f'] 5 ['…'] (fontRuns [3, 0, 4]) = some result ∧
    ((∀ front, front <+: ['a', 'b', 'c', '.', 'd', 'e', 'f'] → ¬TooWide unitWidth 5 front) →
      result = (['a', 'b', 'c', '.', 'd', 'e', 'f'], fontRuns [3, 0, 4])) ∧
    ((∃ front, front <+: ['a', 'b', 'c', '.', 'd', 'e', 'f'] ∧ TooWide unitWidth 5 front) →
      ∃ kept, Shortened unitWidth ['a', 'b', 'c', '.', 'd', 'e', 'f'] 5 ['…'] (fontRuns [3, 0, 4]) result kept) :=
  truncateLine_spec (fun _ => by rw [unitWidth]; decide) (by decide +kernel) (by decide)

example : truncateLine unitWidth ['a', 'b', 'c', '.', 'd', 'e', 'f'] 5 ['…'] (fontRuns [3, 0, 4]) =
    some (['a', 'b', 'c', '…'], (fontRuns [3, 0, 3])) := by decide +kernel

end FcGpui.LineWrapper
