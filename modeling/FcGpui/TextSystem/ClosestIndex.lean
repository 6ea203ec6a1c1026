import FcGpui.TextSystem.LineLayout

/-!
# The boundary closest to a position

`LineLayout::closest_index_for_x` in `crates/gpui/src/text_system/line_layout.rs`.  A boundary
is a glyph, or the end of the line.  Coordinates are exact.

The loop compares a position with the two glyphs around it.  Behind the last glyph nothing is
compared, but in a line of one byte: `closestIndexForX_isClosest_iff`.
-/

namespace FcGpui

namespace LineLayout

variable {U I : Type}

/-- The glyphs of all runs. -/
def glyphs (line : LineLayout U I) : List (ShapedGlyph U) := line.runs.flatMap ShapedRun.glyphs

/-- The index at a glyph and where it is. -/
def boundary (glyph : ShapedGlyph U) : Nat × U := (glyph.index, glyph.position.x)

/-- The indices between which a caret can be, with their positions. -/
def boundaries (line : LineLayout U I) : List (Nat × U) := line.glyphs.map boundary ++ [(line.len, line.width)]

/-- The glyphs go from the start of the line to its end. -/
structure Ascending [Zero U] [LT U] (line : LineLayout U I) : Prop where
  first : ∃ glyph rest, line.glyphs = glyph :: rest ∧ boundary glyph = (0, 0)
  indices : line.glyphs.Pairwise fun a b => a.index < b.index
  positions : line.glyphs.Pairwise fun a b => a.position.x < b.position.x
  width : ∀ glyph ∈ line.glyphs, glyph.position.x < line.width

section

variable [Field U] [LinearOrder U]

/-- The loop of `closest_index_for_x`, behind the glyph with the index and the position. -/
def closestLoop (x : U) : List (ShapedGlyph U) → Nat → U → Option Nat
  | [], _, _ => none
  | glyph :: rest, prevIndex, prevX =>
    if x ≤ glyph.position.x then
      some (if glyph.position.x - x < x - prevX then glyph.index else prevIndex)
    else closestLoop x rest glyph.index glyph.position.x

def closestIndexForX (line : LineLayout U I) (x : U) : Nat :=
  (closestLoop x line.glyphs 0 0).getD
    (if line.len = 1 then (if line.width / ((2 : Nat) : U) < x then 1 else 0) else line.len)

/-- No boundary of a list is closer to the position than one with the index. -/
def ClosestIn (l : List (Nat × U)) (x : U) (index : Nat) : Prop :=
  ∃ b ∈ l, b.1 = index ∧ ∀ c ∈ l, |b.2 - x| ≤ |c.2 - x|

def IsClosest (line : LineLayout U I) (x : U) (index : Nat) : Prop := ClosestIn line.boundaries x index

/-- Where the last glyph is. -/
def lastX (line : LineLayout U I) : U := (line.glyphs.getLast?.map fun glyph => glyph.position.x).getD 0

variable [IsStrictOrderedRing U] {x : U} {l : List (ShapedGlyph U)}

omit [IsStrictOrderedRing U] in
theorem closestLoop_eq_none : ∀ {l : List (ShapedGlyph U)} {prevIndex : Nat} {prevX : U},
    closestLoop x l prevIndex prevX = none ↔ ∀ glyph ∈ l, glyph.position.x < x := by
  intro l
  induction l with
  | nil => intro prevIndex prevX; simp [closestLoop]
  | cons glyph rest ih =>
    intro prevIndex prevX
    rw [closestLoop, List.forall_mem_cons]
    by_cases hx : x ≤ glyph.position.x
    · rw [if_pos hx]
      exact iff_of_false (Option.some_ne_none _) fun h => not_lt.mpr hx h.1
    · rw [if_neg hx, ih]
      exact ⟨fun h => ⟨not_le.mp hx, h⟩, fun h => h.2⟩

/-- What the loop returns is the closest of the glyph in front and of those that are left. -/
theorem closestLoop_closest {index : Nat} : ∀ {l : List (ShapedGlyph U)} {prevIndex : Nat} {prevX : U},
    closestLoop x l prevIndex prevX = some index → prevX ≤ x →
    l.Pairwise (fun a b => a.position.x < b.position.x) → (∀ glyph ∈ l, prevX ≤ glyph.position.x) →
    ClosestIn ((prevIndex, prevX) :: l.map boundary) x index := by
  intro l
  induction l with
  | nil => intro prevIndex prevX h; simp [closestLoop] at h
  | cons glyph rest ih =>
    intro prevIndex prevX h hprev hsorted hbehind
    rw [closestLoop] at h
    obtain ⟨hglyph, hrest⟩ := List.pairwise_cons.mp hsorted
    by_cases hx : x ≤ glyph.position.x
    · rw [if_pos hx] at h
      have hright : |glyph.position.x - x| = glyph.position.x - x := abs_of_nonneg (sub_nonneg.mpr hx)
      have hleft : |prevX - x| = x - prevX := by rw [abs_sub_comm]; exact abs_of_nonneg (sub_nonneg.mpr hprev)
      have hfar : ∀ c ∈ rest.map boundary, glyph.position.x - x ≤ |c.2 - x| := by
        intro c hc
        obtain ⟨later, hlater, rfl⟩ := List.mem_map.mp hc
        have hlt := hglyph later hlater
        refine le_trans ?_ (le_abs_self _)
        rw [boundary]
        linarith
      by_cases hcloser : glyph.position.x - x < x - prevX
      · rw [if_pos hcloser] at h
        refine ⟨boundary glyph, by simp, Option.some.inj h, fun c hc => ?_⟩
        rw [boundary, hright]
        rcases List.mem_cons.mp hc with rfl | hc
        · rw [hleft]
          exact hcloser.le
        · rcases List.mem_cons.mp hc with rfl | hc
          · rw [boundary, hright]
          · exact hfar c hc
      · rw [if_neg hcloser] at h
        refine ⟨(prevIndex, prevX), by simp, Option.some.inj h, fun c hc => ?_⟩
        rw [hleft]
        rcases List.mem_cons.mp hc with rfl | hc
        · rw [hleft]
        · rcases List.mem_cons.mp hc with rfl | hc
          · rw [boundary, hright]
            exact not_lt.mp hcloser
          · exact (not_lt.mp hcloser).trans (hfar c hc)
    · rw [if_neg hx] at h
      have hlt := not_le.mp hx
      obtain ⟨b, hb, hindex, hclosest⟩ := ih h hlt.le hrest fun later hlater => (hglyph later hlater).le
      refine ⟨b, List.mem_cons_of_mem _ hb, hindex, fun c hc => ?_⟩
      rcases List.mem_cons.mp hc with rfl | hc
      · -- the glyph in front is further away than the next one, which is still in front of the position
        refine (hclosest (boundary glyph) List.mem_cons_self).trans ?_
        have hle := hbehind glyph List.mem_cons_self
        rw [boundary, abs_sub_comm, abs_of_pos (sub_pos.mpr hlt), abs_sub_comm, abs_of_nonneg (sub_nonneg.mpr hprev)]
        exact sub_le_sub_left hle x
      · exact hclosest c hc

/-! ### When the result is the closest boundary -/

variable {line : LineLayout U I}

omit [IsStrictOrderedRing U] in
theorem Ascending.lastX_spec (h : line.Ascending) : ∃ glyph ∈ line.glyphs, glyph.position.x = line.lastX ∧
    ∀ other ∈ line.glyphs, other.position.x ≤ line.lastX := by
  obtain ⟨first, rest, hglyphs, -⟩ := h.first
  have hne : line.glyphs ≠ [] := hglyphs ▸ List.cons_ne_nil first rest
  have hlast : line.lastX = (line.glyphs.getLast hne).position.x := by
    rw [lastX, List.getLast?_eq_some_getLast hne]
    rfl
  refine ⟨line.glyphs.getLast hne, List.getLast_mem hne, hlast.symm, fun other hother => ?_⟩
  have hpositions := h.positions
  rw [← List.dropLast_append_getLast hne] at hother hpositions
  rw [hlast]
  rcases List.mem_append.mp hother with hfront | hlast'
  · exact (List.pairwise_append.mp hpositions).2.2 other hfront _ (List.mem_singleton_self _) |>.le
  · rw [List.mem_singleton.mp hlast']

theorem Ascending.closest_within (h : line.Ascending) (hx : 0 ≤ x) {index : Nat}
    (hloop : closestLoop x line.glyphs 0 0 = some index) : line.IsClosest x index := by
  obtain ⟨first, rest, hglyphs, hfirst⟩ := h.first
  have hbehind : ∀ glyph ∈ line.glyphs, 0 ≤ glyph.position.x := by
    have hpositions := h.positions
    have hzero : first.position.x = 0 := congrArg Prod.snd hfirst
    rw [hglyphs] at hpositions ⊢
    intro glyph hglyph
    rcases List.mem_cons.mp hglyph with rfl | hrest
    · exact hzero.ge
    · rw [← hzero]
      exact ((List.pairwise_cons.mp hpositions).1 glyph hrest).le
  obtain ⟨b, hb, hindex, hclosest⟩ := closestLoop_closest hloop hx h.positions hbehind
  have hmem : b ∈ line.boundaries := by
    rw [boundaries]
    rcases List.mem_cons.mp hb with rfl | hb
    · refine List.mem_append_left _ ?_
      rw [hglyphs, ← hfirst]
      exact List.mem_cons_self
    · exact List.mem_append_left _ hb
  refine ⟨b, hmem, hindex, fun c hc => ?_⟩
  rcases List.mem_append.mp hc with hglyph | hend
  · exact hclosest c (List.mem_cons_of_mem _ hglyph)
  · -- some glyph is behind the position, and the end of the line is behind that glyph
    have hsome : closestLoop x line.glyphs 0 0 ≠ none := by
      rw [hloop]
      exact Option.some_ne_none index
    rw [ne_eq, closestLoop_eq_none] at hsome
    push Not at hsome
    obtain ⟨glyph, hglyph, hle⟩ := hsome
    have hwidth := h.width glyph hglyph
    rw [List.mem_singleton.mp hend]
    refine (hclosest (boundary glyph) (List.mem_cons_of_mem _ (List.mem_map_of_mem hglyph))).trans ?_
    rw [boundary, abs_of_nonneg (sub_nonneg.mpr hle), abs_of_nonneg (sub_nonneg.mpr (hle.trans hwidth.le))]
    exact sub_le_sub_right hwidth.le x

omit [IsStrictOrderedRing U] in
theorem Ascending.boundaries_one (h : line.Ascending) (hlen : ∀ glyph ∈ line.glyphs, glyph.index < line.len)
    (hone : line.len = 1) : line.boundaries = [(0, 0), (1, line.width)] := by
  obtain ⟨first, rest, hglyphs, hfirst⟩ := h.first
  have hrest : rest = [] := by
    refine List.eq_nil_iff_forall_not_mem.mpr fun glyph hglyph => ?_
    have hindices := h.indices
    rw [hglyphs] at hindices
    have hlt := (List.pairwise_cons.mp hindices).1 glyph hglyph
    have hend := hlen glyph (by rw [hglyphs]; exact List.mem_cons_of_mem _ hglyph)
    omega
  rw [boundaries, hglyphs, hrest, hone, List.map_singleton, hfirst]
  rfl

theorem Ascending.closest_one (h : line.Ascending) (hlen : ∀ glyph ∈ line.glyphs, glyph.index < line.len)
    (hone : line.len = 1) (hx : 0 ≤ x) : line.IsClosest x (if line.width / ((2 : Nat) : U) < x then 1 else 0) := by
  rw [IsClosest, h.boundaries_one hlen hone]
  have hleft : |(0 : U) - x| = x := by rw [zero_sub, abs_neg, abs_of_nonneg hx]
  have hwidth : 0 < line.width := by
    obtain ⟨first, rest, hglyphs, hfirst⟩ := h.first
    have hlt := h.width first (by rw [hglyphs]; exact List.mem_cons_self)
    rwa [show first.position.x = 0 from congrArg Prod.snd hfirst] at hlt
  by_cases hhalf : line.width / ((2 : Nat) : U) < x
  · rw [if_pos hhalf]
    refine ⟨(1, line.width), by simp, rfl, fun c hc => ?_⟩
    rcases List.mem_cons.mp hc with rfl | hc
    · rw [hleft, abs_le]
      exact ⟨by linarith, by linarith⟩
    · rw [List.mem_singleton.mp hc]
  · rw [if_neg hhalf]
    refine ⟨(0, 0), by simp, rfl, fun c hc => ?_⟩
    rcases List.mem_cons.mp hc with rfl | hc
    · exact le_rfl
    · rw [List.mem_singleton.mp hc, hleft]
      refine le_trans ?_ (le_abs_self _)
      linarith

/-- Behind the last glyph, the end of the line is the closest boundary from the middle of that glyph on. -/
theorem Ascending.closest_end_iff (h : line.Ascending) (hlen : ∀ glyph ∈ line.glyphs, glyph.index < line.len)
    (hx : line.lastX < x) : line.IsClosest x line.len ↔ line.lastX + line.width ≤ 2 * x := by
  obtain ⟨last, hlast, hlastX, hle⟩ := h.lastX_spec
  have hwidth := h.width last hlast
  rw [hlastX] at hwidth
  have hdistance : |line.lastX - x| = x - line.lastX := by
    rw [abs_sub_comm, abs_of_pos (sub_pos.mpr hx)]
  constructor
  · rintro ⟨b, hb, hindex, hclosest⟩
    have hclosest := hclosest (boundary last) (List.mem_append_left _ (List.mem_map_of_mem hlast))
    rw [boundary, hlastX, hdistance] at hclosest
    rcases List.mem_append.mp hb with hmem | hend
    · obtain ⟨glyph, hglyph, rfl⟩ := List.mem_map.mp hmem
      exact absurd hindex (hlen glyph hglyph).ne
    · rw [List.mem_singleton.mp hend] at hclosest
      have hright := (le_abs_self _).trans hclosest
      linarith
  · intro hmiddle
    refine ⟨(line.len, line.width), List.mem_append_right _ (List.mem_singleton_self _), rfl, fun c hc => ?_⟩
    rcases List.mem_append.mp hc with hmem | hend
    · obtain ⟨glyph, hglyph, rfl⟩ := List.mem_map.mp hmem
      have hfront := hle glyph hglyph
      have hfurther : x - line.lastX ≤ |glyph.position.x - x| := by
        rw [abs_sub_comm]
        exact (sub_le_sub_left hfront x).trans (le_abs_self _)
      refine le_trans ?_ hfurther
      rw [abs_le]
      exact ⟨by linarith, by linarith⟩
    · rw [List.mem_singleton.mp hend]

/-- **The result is the closest boundary**, but for positions in the left half of the last glyph of a line
that is longer than one byte. -/
theorem closestIndexForX_isClosest_iff (line : LineLayout U I) (x : U) (h : line.Ascending)
    (hlen : ∀ glyph ∈ line.glyphs, glyph.index < line.len) (hx : 0 ≤ x) :
    line.IsClosest x (line.closestIndexForX x) ↔
      line.len = 1 ∨ x ≤ line.lastX ∨ line.lastX + line.width ≤ 2 * x := by
  rw [closestIndexForX]
  cases hloop : closestLoop x line.glyphs 0 0 with
  | some index =>
    obtain ⟨last, hlast, hlastX, hle⟩ := h.lastX_spec
    have hwithin : x ≤ line.lastX := by
      by_contra hbehind
      have hnone : closestLoop x line.glyphs 0 0 = none :=
        closestLoop_eq_none.mpr fun glyph hglyph => (hle glyph hglyph).trans_lt (not_le.mp hbehind)
      exact Option.some_ne_none index (hloop.symm.trans hnone)
    exact iff_of_true (h.closest_within hx hloop) (Or.inr (Or.inl hwithin))
  | none =>
    have hbehind : line.lastX < x := by
      obtain ⟨last, hlast, hlastX, -⟩ := h.lastX_spec
      rw [← hlastX]
      exact closestLoop_eq_none.mp hloop last hlast
    rw [Option.getD_none]
    by_cases hone : line.len = 1
    · rw [if_pos hone]
      exact iff_of_true (h.closest_one hlen hone hx) (Or.inl hone)
    · rw [if_neg hone, h.closest_end_iff hlen hbehind]
      constructor
      · intro hmiddle
        exact Or.inr (Or.inr hmiddle)
      · rintro (hlen | hle | hmiddle)
        · exact absurd hlen hone
        · exact absurd hle (not_le.mpr hbehind)
        · exact hmiddle

end

/-- Two glyphs of one byte. -/
def twoLetters : LineLayout ℚ Nat :=
  ⟨16, 20, 12, 4, [⟨0, [⟨0, ⟨0, 0⟩, 0, false⟩, ⟨0, ⟨10, 0⟩, 1, false⟩]⟩], 2⟩

theorem twoLetters_ascending : twoLetters.Ascending where
  first := ⟨_, _, rfl, rfl⟩
  indices := by decide
  positions := by decide
  width := by decide

theorem closestIndexForX_isClosest_iff_twoLetters : twoLetters.IsClosest 11 (twoLetters.closestIndexForX 11) ↔
    twoLetters.len = 1 ∨ 11 ≤ twoLetters.lastX ∨ twoLetters.lastX + twoLetters.width ≤ 2 * 11 :=
  closestIndexForX_isClosest_iff twoLetters 11 twoLetters_ascending (by decide) (by decide)

/-- A position just behind the start of the second glyph. -/
theorem not_closestIndexForX_isClosest : ¬ ∀ (line : LineLayout ℚ Nat) (x : ℚ), line.Ascending →
    (∀ glyph ∈ line.glyphs, glyph.index < line.len) → 0 ≤ x → line.IsClosest x (line.closestIndexForX x) := by
  intro h
  obtain ⟨b, hb, hindex, hclosest⟩ := h twoLetters 11 twoLetters_ascending (by decide) (by decide)
  have hlast := hclosest (1, 10) (by decide +kernel)
  have hend : b = (2, 20) := by
    revert b
    decide +kernel
  rw [hend] at hlast
  exact absurd hlast (by decide +kernel)

end LineLayout

end FcGpui
