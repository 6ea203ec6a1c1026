import FcGpui.TextSystem.TruncateLine

/-!
# Inline code in Markdown

`MarkdownInlineCode` puts a text between two runs of backticks that are longer than any in the text,
with a space on both sides where the text would else run into them or lose spaces of its own.

A code span is read by the rule of CommonMark: an opening run is closed by the next run of the same
length, and one space is taken off both ends of what is between, if there is one on both and not all
is spaces.

* `closeSpan_of_runsBelow`: shorter runs do not close.
* `decode_inlineCode`: the text is read back, with a space for whatever white space was in it.
-/

namespace FcGpui

/-- U+0060. -/
def backtick : Char := Char.ofNat 0x60

/-! ### Writing -/

/-- The body of the loop of `count_max_consecutive_chars`: whether the last character was the one that is
searched for, the greatest count so far, and the count of the run. -/
def countConsecutive (search : Char) (state : Bool × Nat × Nat) (ch : Char) : Bool × Nat × Nat :=
  let (inSearchChars, maxCount, curCount) := state
  if ch = search then (true, maxCount, curCount + 1)
  else if inSearchChars then (false, max maxCount curCount, 0)
  else (inSearchChars, maxCount, curCount)

def countMaxConsecutiveChars (text : List Char) (search : Char) : Nat :=
  let (_, maxCount, curCount) := text.foldl (countConsecutive search) (false, 0, 0)
  max maxCount curCount

/-- All white space is a space. -/
def spaced (text : List Char) : List Char :=
  text.map fun c => if LineWrapper.isWhitespace c then ' ' else c

/-- `Display` for `MarkdownInlineCode`. -/
def inlineCode (text : List Char) : List Char :=
  let allWhitespace := text.all LineWrapper.isWhitespace
  let text := spaced text
  if allWhitespace then [backtick] ++ text ++ [backtick]
  else
    let backticks := List.replicate (countMaxConsecutiveChars text backtick + 1) backtick
    let space :=
      if text.head? = some backtick ∨ text.getLast? = some backtick then [' ']
      else if 2 ≤ text.length ∧ text.head? = some ' ' ∧ text.getLast? = some ' ' then [' ']
      else []
    backticks ++ space ++ text ++ space ++ backticks

/-! ### Reading -/

/-- What is before the next run of just `n` backticks, and what is behind it; `curCount` backticks have
been read of a run. -/
def closeSpan (n : Nat) : Nat → List Char → Option (List Char × List Char)
  | curCount, [] => if curCount = n then some ([], []) else none
  | curCount, c :: s =>
    if c = backtick then closeSpan n (curCount + 1) s
    else if curCount = n then some ([], c :: s)
    else (closeSpan n 0 s).map fun span => (List.replicate curCount backtick ++ c :: span.1, span.2)

/-- One space from both ends. -/
def stripSpaces (content : List Char) : List Char :=
  if content.head? = some ' ' ∧ content.getLast? = some ' ' ∧ ∃ c ∈ content, c ≠ ' ' then
    (content.drop 1).dropLast
  else content

/-- The content of the code span that the text begins with, and what is behind it. -/
def decodeCodeSpan (s : List Char) : Option (List Char × List Char) :=
  let n := (s.takeWhile fun c => c = backtick).length
  if n = 0 then none
  else (closeSpan n 0 (s.drop n)).map fun span => (stripSpaces span.1, span.2)

/-! ### Runs of backticks -/

/-- Behind `curCount` backticks, no run is as long as `n`. -/
def RunsBelow (n : Nat) : Nat → List Char → Prop
  | curCount, [] => curCount < n
  | curCount, c :: s =>
    if c = backtick then RunsBelow n (curCount + 1) s else curCount < n ∧ RunsBelow n 0 s

theorem RunsBelow.lt {n : Nat} : ∀ {text : List Char} {curCount : Nat}, RunsBelow n curCount text →
    curCount < n := by
  intro text
  induction text with
  | nil => exact fun h => h
  | cons c text ih =>
    intro curCount h
    rw [RunsBelow] at h
    split_ifs at h with hc
    · exact Nat.lt_of_succ_lt (ih h)
    · exact h.1

/-- **The loop** counts the longest run. -/
theorem runsBelow_of_count {n : Nat} (text : List Char) : ∀ (inSearchChars : Bool) (maxCount curCount : Nat),
    (inSearchChars = false → curCount = 0) →
    max (text.foldl (countConsecutive backtick) (inSearchChars, maxCount, curCount)).2.1
      (text.foldl (countConsecutive backtick) (inSearchChars, maxCount, curCount)).2.2 < n →
    maxCount < n ∧ RunsBelow n curCount text := by
  induction text with
  | nil =>
    intro inSearchChars maxCount curCount _ h
    exact max_lt_iff.mp h
  | cons c text ih =>
    intro inSearchChars maxCount curCount hcount h
    rw [List.foldl_cons] at h
    by_cases hc : c = backtick
    · rw [countConsecutive, if_pos hc] at h
      rw [RunsBelow, if_pos hc]
      exact ih true maxCount (curCount + 1) (fun h => by cases h) h
    · rw [countConsecutive, if_neg hc] at h
      rw [RunsBelow, if_neg hc]
      cases inSearchChars with
      | true =>
        rw [if_pos rfl] at h
        obtain ⟨hmax, hrest⟩ := ih false _ 0 (fun _ => rfl) h
        exact ⟨(max_lt_iff.mp hmax).1, (max_lt_iff.mp hmax).2, hrest⟩
      | false =>
        rw [if_neg Bool.false_ne_true, hcount rfl] at h
        obtain ⟨hmax, hrest⟩ := ih false maxCount 0 (fun _ => rfl) h
        rw [hcount rfl]
        exact ⟨hmax, hrest.lt, hrest⟩

theorem runsBelow_countMax (text : List Char) :
    RunsBelow (countMaxConsecutiveChars text backtick + 1) 0 text :=
  (runsBelow_of_count text false 0 0 (fun _ => rfl) (Nat.lt_succ_self _)).2

theorem runsBelow_of_not_mem {n : Nat} (hn : 0 < n) {text : List Char} (h : backtick ∉ text) :
    RunsBelow n 0 text := by
  induction text with
  | nil => exact hn
  | cons c text ih =>
    rw [List.mem_cons, not_or] at h
    obtain ⟨hc, htext⟩ := h
    rw [RunsBelow, if_neg (Ne.symm hc)]
    exact ⟨hn, ih htext⟩

theorem closeSpan_replicate {n : Nat} (k : Nat) : ∀ curCount : Nat, curCount + k = n →
    closeSpan n curCount (List.replicate k backtick) = some ([], []) := by
  induction k with
  | zero =>
    intro curCount h
    rw [List.replicate_zero, closeSpan]
    exact if_pos h
  | succ k ih =>
    intro curCount h
    rw [List.replicate_succ, closeSpan, if_pos rfl]
    exact ih (curCount + 1) (by omega)

/-- **Shorter runs do not close**, and the run behind does, unless a run of the text joins it. -/
theorem closeSpan_of_runsBelow {n : Nat} (text : List Char) : ∀ curCount : Nat,
    RunsBelow n curCount text →
    (List.replicate curCount backtick ++ text).getLast? ≠ some backtick →
    closeSpan n curCount (text ++ List.replicate n backtick) =
      some (List.replicate curCount backtick ++ text, []) := by
  induction text with
  | nil =>
    intro curCount h hlast
    cases curCount with
    | zero => exact closeSpan_replicate n 0 (Nat.zero_add n)
    | succ curCount => simp [List.replicate_succ'] at hlast
  | cons c text ih =>
    intro curCount h hlast
    rw [List.cons_append, closeSpan]
    rw [RunsBelow] at h
    by_cases hc : c = backtick
    · have hrun : List.replicate curCount backtick ++ c :: text =
          List.replicate (curCount + 1) backtick ++ text := by
        rw [hc, List.replicate_succ', List.append_assoc, List.singleton_append]
      rw [if_pos hc] at h
      rw [hrun] at hlast
      rw [if_pos hc, ih _ h hlast, hrun]
    · rw [if_neg hc] at h
      have hrest : (List.replicate 0 backtick ++ text).getLast? ≠ some backtick := by
        intro heq
        refine hlast ?_
        obtain ⟨front, htext⟩ := List.getLast?_eq_some_iff.mp heq
        rw [List.replicate_zero, List.nil_append] at htext
        rw [htext, ← List.cons_append, ← List.append_assoc, List.getLast?_concat]
      rw [if_neg hc, if_neg (Nat.ne_of_lt h.1), ih 0 h.2 hrest]
      rfl

theorem decode_of_runsBelow {n : Nat} {content : List Char} (hruns : RunsBelow n 0 content)
    (hne : content ≠ []) (hhead : content.head? ≠ some backtick)
    (hlast : content.getLast? ≠ some backtick) :
    decodeCodeSpan (List.replicate n backtick ++ content ++ List.replicate n backtick) =
      some (stripSpaces content, []) := by
  obtain ⟨c, rest, rfl⟩ := List.exists_cons_of_ne_nil hne
  have hc : c ≠ backtick := fun h => hhead (congrArg some h)
  have htake : (List.replicate n backtick ++ (c :: rest) ++ List.replicate n backtick).takeWhile
      (fun c => c = backtick) = List.replicate n backtick := by
    rw [List.append_assoc, List.takeWhile_append_of_pos (by simp), List.cons_append,
      List.takeWhile_cons_of_neg (by simpa using hc), List.append_nil]
  have hn : n ≠ 0 := Nat.ne_of_gt hruns.lt
  rw [decodeCodeSpan]
  simp only [htake, List.length_replicate]
  rw [if_neg hn, List.append_assoc, List.drop_left' (List.length_replicate ..),
    closeSpan_of_runsBelow _ 0 hruns hlast]
  rfl

/-! ### The text is read back -/

section Spaced

variable {text : List Char}

theorem isWhitespace_space : LineWrapper.isWhitespace ' ' = true := by decide

theorem forall_spaced_eq (h : text.all LineWrapper.isWhitespace = true) : ∀ c ∈ spaced text, c = ' ' := by
  intro c hc
  obtain ⟨d, hd, rfl⟩ := List.mem_map.mp hc
  rw [if_pos (List.all_eq_true.mp h d hd)]

theorem exists_spaced_ne (h : text.all LineWrapper.isWhitespace ≠ true) : ∃ c ∈ spaced text, c ≠ ' ' := by
  obtain ⟨c, hc, hwhite⟩ : ∃ c ∈ text, LineWrapper.isWhitespace c ≠ true := by
    simpa [List.all_eq_true] using h
  refine ⟨c, List.mem_map.mpr ⟨c, hc, if_neg hwhite⟩, ?_⟩
  rintro rfl
  exact hwhite isWhitespace_space

theorem spaced_ne_nil (h : text ≠ []) : spaced text ≠ [] := fun hnil => h (List.map_eq_nil_iff.mp hnil)

theorem spaced_eq_self (h : ∀ c ∈ text, LineWrapper.isWhitespace c = true → c = ' ') :
    spaced text = text := by
  refine (List.map_congr_left fun c hc => ?_).trans (List.map_id text)
  split_ifs with hwhite
  · exact (h c hc hwhite).symm
  · rfl

theorem RunsBelow.concat_space {n : Nat} : ∀ {text : List Char} {curCount : Nat},
    RunsBelow n curCount text → RunsBelow n curCount (text ++ [' ']) := by
  intro text
  induction text with
  | nil =>
    intro curCount h
    have hlt : curCount < n := h
    rw [List.nil_append, RunsBelow, if_neg (by decide)]
    exact ⟨hlt, Nat.zero_lt_of_lt hlt⟩
  | cons c text ih =>
    intro curCount h
    rw [RunsBelow] at h
    rw [List.cons_append, RunsBelow]
    split_ifs at h ⊢ with hc
    · exact ih h
    · exact ⟨h.1, ih h.2⟩

theorem decode_padded {n : Nat} (hruns : RunsBelow n 0 text) (hother : ∃ c ∈ text, c ≠ ' ') :
    decodeCodeSpan (List.replicate n backtick ++ (' ' :: (text ++ [' '])) ++ List.replicate n backtick) =
      some (text, []) := by
  have hpadded : RunsBelow n 0 (' ' :: (text ++ [' '])) := by
    rw [RunsBelow, if_neg (by decide)]
    exact ⟨hruns.lt, hruns.concat_space⟩
  have hlast : (' ' :: (text ++ [' '])).getLast? = some ' ' := by
    rw [← List.cons_append, List.getLast?_concat]
  have hstrip : stripSpaces (' ' :: (text ++ [' '])) = text := by
    obtain ⟨c, hc, hne⟩ := hother
    rw [stripSpaces, if_pos ⟨rfl, hlast, c, by simp [hc], hne⟩]
    simp
  have hspace : some ' ' ≠ some backtick := by decide
  rw [decode_of_runsBelow hpadded (List.cons_ne_nil _ _) hspace (hlast.symm ▸ hspace), hstrip]

theorem decode_bare {n : Nat} (hruns : RunsBelow n 0 text) (hne : text ≠ [])
    (hhead : text.head? ≠ some backtick) (hlast : text.getLast? ≠ some backtick)
    (hspaces : ¬ (text.head? = some ' ' ∧ text.getLast? = some ' ' ∧ ∃ c ∈ text, c ≠ ' ')) :
    decodeCodeSpan (List.replicate n backtick ++ text ++ List.replicate n backtick) =
      some (text, []) := by
  rw [decode_of_runsBelow hruns hne hhead hlast, stripSpaces, if_neg hspaces]

/-- **What is written is read**, with a space for all white space. -/
theorem decode_inlineCode (hne : text ≠ []) :
    decodeCodeSpan (inlineCode text) = some (spaced text, []) := by
  have hspaced := spaced_ne_nil hne
  rw [inlineCode]
  split_ifs with hwhite hticks hspaces
  · have hall := forall_spaced_eq hwhite
    have hno : backtick ∉ spaced text := fun hmem => absurd (hall _ hmem) (by decide)
    refine decode_bare (n := 1) (runsBelow_of_not_mem Nat.one_pos hno) hspaced
      (fun h => hno (List.mem_of_head? h)) (fun h => hno (List.mem_of_getLast? h)) ?_
    rintro ⟨-, -, c, hc, hother⟩
    exact hother (hall c hc)
  · have hpadded := decode_padded (runsBelow_countMax (spaced text)) (exists_spaced_ne hwhite)
    simpa using hpadded
  · have hpadded := decode_padded (runsBelow_countMax (spaced text)) (exists_spaced_ne hwhite)
    simpa using hpadded
  · rw [not_or] at hticks
    simp only [List.append_nil]
    refine decode_bare (runsBelow_countMax (spaced text)) hspaced hticks.1 hticks.2 ?_
    rintro ⟨hhead, hlast, c, hc, hother⟩
    refine hspaces ⟨?_, hhead, hlast⟩
    by_contra hshort
    obtain ⟨d, hd⟩ : ∃ d, spaced text = [d] :=
      List.length_eq_one_iff.mp (by have := List.length_pos_iff.mpr hspaced; omega)
    rw [hd] at hhead hc
    exact hother ((List.mem_singleton.mp hc).trans (Option.some.inj hhead))

/-- **Inline code survives**: a text whose only white space is the space is read back. -/
theorem inlineCode_survives (hne : text ≠ [])
    (hspace : ∀ c ∈ text, LineWrapper.isWhitespace c = true → c = ' ') :
    decodeCodeSpan (inlineCode text) = some (text, []) := by
  rw [decode_inlineCode hne, spaced_eq_self hspace]

theorem inlineCode_survives_ticks :
    decodeCodeSpan (inlineCode [backtick, 'a', ' ', 'b']) = some ([backtick, 'a', ' ', 'b'], []) :=
  inlineCode_survives (List.cons_ne_nil _ _) (by
    simp only [List.forall_mem_cons]
    exact ⟨by decide, by decide, by decide, by decide, List.forall_mem_nil _⟩)

example : inlineCode [backtick, 'a', ' '] =
    [backtick, backtick, ' ', backtick, 'a', ' ', ' ', backtick, backtick] := by decide

end Spaced

end FcGpui
