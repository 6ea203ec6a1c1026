import FcGpui.TextSystem.LineCursor

/-!
# The decorations of a line cursor

A cursor stands at a position, at the decoration of its line that begins at an offset at the
position or in front of it; `resumed` is what is left of the decorations there.  Up to a
position that is not in front of the cursor it takes what a split of these makes of them
(`takeDecorations_split`).  To a position in front of it, which is what `byte_index as u32` may
be, it takes nothing, while the split takes everything (`takeDecorations_back`,
`splitDecorations_before`).
-/

namespace FcGpui

variable {H N S : Type} {decorations : List (DecorationRun H N S)} {decoration : DecorationRun H N S}

/-- The length of the text that is decorated. -/
def decorationLength (decorations : List (DecorationRun H N S)) : Nat := (decorations.map DecorationRun.len).sum

@[simp]
theorem decorationLength_nil : decorationLength ([] : List (DecorationRun H N S)) = 0 := rfl

@[simp]
theorem decorationLength_cons (decoration : DecorationRun H N S) (decorations : List (DecorationRun H N S)) :
    decorationLength (decoration :: decorations) = decoration.len + decorationLength decorations := List.sum_cons

/-- What is left at a position of decorations that begin at an offset. -/
def resumed (position offset : Nat) : List (DecorationRun H N S) → List (DecorationRun H N S)
  | [] => []
  | decoration :: decorations =>
    { decoration with len := offset + decoration.len - max offset position } :: decorations

variable {offset splitPoint : Nat}

theorem resumed_of_le {position : Nat} (h : position ≤ offset) (decorations : List (DecorationRun H N S)) :
    resumed position offset decorations = decorations := by
  cases decorations with
  | nil => rfl
  | cons decoration decorations =>
    rw [resumed, max_eq_left h, Nat.add_sub_cancel_left]

theorem addU32_eq {a b : Nat} (h : a + b < 2 ^ 32) : addU32 a b = some (a + b) := if_pos h

theorem subUnsigned_eq {a b : Nat} (h : b ≤ a) : subUnsigned a b = some (a - b) := if_pos h

/-! ### Splits at an end -/

theorem splitDecorations_past (h : splitPoint < offset)
    (hlength : offset + decorationLength decorations < 2 ^ 32) :
    splitDecorations splitPoint offset decorations = some ([], decorations) := by
  induction decorations generalizing offset with
  | nil => rfl
  | cons decoration decorations ih =>
    rw [decorationLength_cons] at hlength
    rw [splitDecorations, addU32_eq (by omega)]
    simp only [Option.bind_eq_bind, Option.bind_some]
    rw [ih (by omega) (by omega)]
    simp only [Option.bind_some]
    rw [if_neg (by omega), if_pos h.le]

theorem splitDecorations_before (h : offset + decorationLength decorations ≤ splitPoint)
    (hlength : offset + decorationLength decorations < 2 ^ 32) :
    splitDecorations splitPoint offset decorations = some (decorations, []) := by
  induction decorations generalizing offset with
  | nil => rfl
  | cons decoration decorations ih =>
    rw [decorationLength_cons] at h hlength
    rw [splitDecorations, addU32_eq (by omega)]
    simp only [Option.bind_eq_bind, Option.bind_some]
    rw [ih (by omega) (by omega)]
    simp only [Option.bind_some]
    rw [if_pos (by omega)]

theorem splitDecorations_overflow (hlength : 2 ^ 32 ≤ offset + decorationLength decorations)
    (hoffset : offset < 2 ^ 32) : splitDecorations splitPoint offset decorations = none := by
  induction decorations generalizing offset with
  | nil =>
    rw [decorationLength_nil] at hlength
    omega
  | cons decoration decorations ih =>
    rw [decorationLength_cons] at hlength
    rw [splitDecorations]
    by_cases hend : offset + decoration.len < 2 ^ 32
    · rw [addU32_eq hend]
      simp only [Option.bind_eq_bind, Option.bind_some]
      rw [ih (by omega) hend]
      rfl
    · rw [addU32, if_neg hend]
      rfl

/-! ### Taking up to a position -/

/-- A decoration that ends at the position or above it is taken, from where the cursor stands. -/
theorem takeDecorations_whole {start stop : Nat} (hhead : start < offset + decoration.len ∨
    (decoration.len = 0 ∧ start ≤ offset)) (hlength : offset + decoration.len < 2 ^ 32)
    (hend : offset + decoration.len ≤ stop) (decorationIndex : Nat) :
    ShapedLineCursor.takeDecorations stop start (decoration :: decorations) decorationIndex offset =
      (ShapedLineCursor.takeDecorations stop start decorations (decorationIndex + 1) (offset + decoration.len)).map
        fun (more, decorationIndex, decorationOffset) =>
          ({ decoration with len := offset + decoration.len - max offset start } :: more, decorationIndex,
            decorationOffset) := by
  have hreached : offset < stop ∨ (decoration.len = 0 ∧ offset = stop) := by omega
  have hstart : max offset start ≤ offset + decoration.len := max_le (Nat.le_add_right _ _) (by omega)
  have htaken : 0 < offset + decoration.len - max offset start ∨ decoration.len = 0 := by
    rcases Nat.eq_zero_or_pos decoration.len with hzero | hpos
    · exact Or.inr hzero
    · have hlt : max offset start < offset + decoration.len := max_lt (by omega) (by omega)
      exact Or.inl (by omega)
  rw [ShapedLineCursor.takeDecorations, if_pos hreached, addU32_eq hlength]
  simp only [Option.bind_eq_bind, Option.bind_some]
  rw [min_eq_left hend, subUnsigned_eq hstart]
  simp only [Option.bind_some]
  rw [if_pos hend, if_pos htaken]
  cases ShapedLineCursor.takeDecorations stop start decorations (decorationIndex + 1) (offset + decoration.len) with
  | none => rfl
  | some r => rfl

/-- A decoration that ends below the position is taken up to it. -/
theorem takeDecorations_part {start stop : Nat} (hstart : start ≤ stop) (hoffset : offset ≤ stop)
    (hlength : offset + decoration.len < 2 ^ 32) (hend : stop < offset + decoration.len) (decorationIndex : Nat) :
    ShapedLineCursor.takeDecorations stop start (decoration :: decorations) decorationIndex offset =
      some (if max offset start < stop then [{ decoration with len := stop - max offset start }] else [],
        decorationIndex, offset) := by
  have hpos : ¬ decoration.len = 0 := by omega
  rw [ShapedLineCursor.takeDecorations]
  by_cases hreached : offset < stop
  · rw [if_pos (Or.inl hreached), addU32_eq hlength]
    simp only [Option.bind_eq_bind, Option.bind_some]
    rw [min_eq_right hend.le, subUnsigned_eq (max_le hoffset hstart)]
    simp only [Option.bind_some]
    rw [if_neg (by omega)]
    by_cases hlt : max offset start < stop
    · rw [if_pos (Or.inl (by omega)), if_pos hlt]
    · rw [if_neg (by omega), if_neg hlt]
  · have hnot : ¬ max offset start < stop := by omega
    rw [if_neg (by omega), if_neg hnot]

theorem resumed_end {start : Nat} (h : start ≤ offset + decoration.len) :
    offset - start + (offset + decoration.len - max offset start) = offset + decoration.len - start := by
  rcases le_total offset start with hle | hle
  · rw [max_eq_right hle]
    omega
  · rw [max_eq_left hle]
    omega

theorem splitDecorations_whole {start stop : Nat} (hstart : start ≤ offset + decoration.len)
    (hlength : offset + decoration.len < 2 ^ 32) (hend : offset + decoration.len ≤ stop) :
    splitDecorations (stop - start) (offset - start) (resumed start offset (decoration :: decorations)) =
      (splitDecorations (stop - start) (offset + decoration.len - start)
          (resumed start (offset + decoration.len) decorations)).map fun (left, right) =>
        ({ decoration with len := offset + decoration.len - max offset start } :: left, right) := by
  rw [resumed, splitDecorations, resumed_of_le hstart]
  dsimp only
  rw [addU32_eq (by rw [resumed_end hstart]; omega), resumed_end hstart]
  simp only [Option.bind_eq_bind, Option.bind_some]
  cases splitDecorations (stop - start) (offset + decoration.len - start) decorations with
  | none => rfl
  | some r => exact if_pos (Nat.sub_le_sub_right hend start)

theorem splitDecorations_part {start stop : Nat} (hle : start ≤ stop) (hoffset : offset ≤ stop)
    (hlength : offset + decorationLength (decoration :: decorations) < 2 ^ 32)
    (hend : stop < offset + decoration.len) :
    splitDecorations (stop - start) (offset - start) (resumed start offset (decoration :: decorations)) =
      some (if max offset start < stop then [{ decoration with len := stop - max offset start }] else [],
        resumed stop offset (decoration :: decorations)) := by
  have hstart : start ≤ offset + decoration.len := by omega
  rw [decorationLength_cons] at hlength
  rw [resumed, splitDecorations]
  dsimp only
  rw [addU32_eq (by rw [resumed_end hstart]; omega), resumed_end hstart]
  simp only [Option.bind_eq_bind, Option.bind_some]
  rw [splitDecorations_past (by omega) (by omega)]
  simp only [Option.bind_some]
  rw [if_neg (by omega), resumed, max_eq_right hoffset]
  have hmax : stop - start - (offset - start) = stop - max offset start := by omega
  have hrest : offset + decoration.len - start - (stop - start) = offset + decoration.len - stop := by omega
  by_cases hlt : max offset start < stop
  · rw [if_neg (by omega), if_pos hlt, hmax, hrest]
  · have hsame : max offset start = stop := le_antisymm (max_le hoffset hle) (not_lt.mp hlt)
    rw [if_pos (by omega), if_neg hlt, hsame]

/-- **The decorations up to a position** that is not in front of the cursor. -/
theorem takeDecorations_split {start stop : Nat} (hle : start ≤ stop) :
    ∀ (decorations : List (DecorationRun H N S)) (decorationIndex offset : Nat),
      offset + decorationLength decorations < 2 ^ 32 → offset ≤ stop →
      (∀ decoration rest, decorations = decoration :: rest → start < offset + decoration.len ∨
        (decoration.len = 0 ∧ start ≤ offset)) →
      ∃ left taken offset',
        splitDecorations (stop - start) (offset - start) (resumed start offset decorations)
          = some (left, resumed stop offset' (decorations.drop taken)) ∧
        ShapedLineCursor.takeDecorations stop start decorations decorationIndex offset
          = some (left, decorationIndex + taken, offset') ∧
        offset' + decorationLength (decorations.drop taken) = offset + decorationLength decorations ∧
        offset' ≤ stop ∧
        ∀ decoration rest, decorations.drop taken = decoration :: rest → stop < offset' + decoration.len := by
  intro decorations
  induction decorations with
  | nil =>
    intro decorationIndex offset _ hoffset _
    exact ⟨[], 0, offset, rfl, rfl, rfl, hoffset, fun _ _ h => by cases h⟩
  | cons decoration decorations ih =>
    intro decorationIndex offset hlength hoffset hhead
    have hhead := hhead decoration decorations rfl
    have htotal := decorationLength_cons decoration decorations
    by_cases hend : offset + decoration.len ≤ stop
    · obtain ⟨left, taken, offset', hsplit, htake, htotal', hoffset', hnext⟩ :=
        ih (decorationIndex + 1) (offset + decoration.len) (by omega) hend fun next rest _ => by omega
      refine ⟨{ decoration with len := offset + decoration.len - max offset start } :: left, taken + 1, offset', ?_,
        ?_, ?_, hoffset', hnext⟩
      · rw [splitDecorations_whole (by omega) (by omega) hend, hsplit]
        rfl
      · rw [takeDecorations_whole hhead (by omega) hend, htake, Nat.add_right_comm]
        rfl
      · rw [List.drop_succ_cons]
        omega
    · refine ⟨_, 0, offset, splitDecorations_part hle hoffset hlength (not_le.mp hend),
        takeDecorations_part hle hoffset (by omega) (not_le.mp hend) decorationIndex, rfl, hoffset, ?_⟩
      intro next rest hnext
      obtain ⟨rfl, -⟩ := List.cons.inj hnext
      exact not_le.mp hend

/-- To a position in front of the cursor nothing is taken, or the length underflows. -/
theorem takeDecorations_back {start stop : Nat} (hback : stop < start) (hoffset : offset ≤ start)
    (hhead : start < offset + decoration.len) (hlength : offset + decoration.len < 2 ^ 32) (decorationIndex : Nat)
    {r : List (DecorationRun H N S) × Nat × Nat}
    (h : ShapedLineCursor.takeDecorations stop start (decoration :: decorations) decorationIndex offset = some r) :
    r.1 = [] := by
  rw [ShapedLineCursor.takeDecorations] at h
  split at h
  · have hunder : subUnsigned (min (offset + decoration.len) stop) (max offset start) = none :=
      if_neg (by omega)
    rw [addU32_eq hlength] at h
    simp only [Option.bind_eq_bind, Option.bind_some, hunder, Option.bind_none] at h
    cases h
  · obtain rfl := Option.some.inj h
    rfl

end FcGpui
