import FcGpui.TextSystem.LineCursor

/-!
# The glyphs of a line cursor

A cursor over a line whose glyphs are in byte order stands at a glyph of a run; `restFrom` is what is
left of the runs there.  Up to a boundary it takes the glyphs below the boundary and stops at the
first one past it (`takeRuns_spec`).
-/

namespace FcGpui

variable {U I : Type} {p q : Nat → Bool} {run : ShapedRun U I} {runs : List (ShapedRun U I)}

/-! ### Glyphs that are kept -/

theorem keepGlyphs_congr (h : ∀ g ∈ fontGlyphs runs, p g.2.index = q g.2.index) :
    keepGlyphs p runs = keepGlyphs q runs := by
  have hmap : (runs.map fun run => { run with glyphs := run.glyphs.filter fun glyph => p glyph.index })
      = runs.map fun run => { run with glyphs := run.glyphs.filter fun glyph => q glyph.index } := by
    refine List.map_congr_left fun run hrun => ?_
    have hfilter : (run.glyphs.filter fun glyph => p glyph.index) = run.glyphs.filter fun glyph => q glyph.index :=
      List.filter_congr fun glyph hglyph =>
        h (run.fontId, glyph) (List.mem_flatMap.mpr ⟨run, hrun, List.mem_map_of_mem hglyph⟩)
    rw [hfilter]
  rw [keepGlyphs, hmap, keepGlyphs]

theorem keepGlyphs_eq_nil (h : ∀ g ∈ fontGlyphs runs, p g.2.index = false) : keepGlyphs p runs = [] := by
  rw [keepGlyphs_congr (q := fun _ => false) h]
  induction runs with
  | nil => rfl
  | cons run runs ih =>
    rw [keepGlyphs_cons, ih fun g hg => h g (List.mem_append_right _ hg), if_pos (by simp)]
    rfl

theorem keepGlyphs_keepGlyphs (p q : Nat → Bool) (runs : List (ShapedRun U I)) :
    keepGlyphs q (keepGlyphs p runs) = keepGlyphs (fun index => p index && q index) runs := by
  induction runs with
  | nil => rfl
  | cons run runs ih =>
    have hfilter : ((run.glyphs.filter fun glyph => p glyph.index).filter fun glyph => q glyph.index)
        = run.glyphs.filter fun glyph => p glyph.index && q glyph.index := by
      rw [List.filter_filter]
      exact List.filter_congr fun glyph _ => Bool.and_comm _ _
    rw [keepGlyphs_cons p, keepGlyphs_cons fun index => p index && q index]
    by_cases hnil : (run.glyphs.filter fun glyph => p glyph.index) = []
    · rw [hnil, List.filter_nil] at hfilter
      rw [if_pos hnil, if_pos hfilter.symm, List.nil_append, ih]
      rfl
    · rw [if_neg hnil, List.singleton_append, keepGlyphs_cons, ih, ← hfilter]

theorem keepGlyphs_append (p : Nat → Bool) (run : ShapedRun U I) (runs : List (ShapedRun U I)) :
    keepGlyphs p (run :: runs) = keepGlyphs p [run] ++ keepGlyphs p runs := by
  rw [keepGlyphs_eq_flatMap, List.flatMap_cons, ← keepGlyphs_eq_flatMap]

section Rebase

variable [AddCommGroup U]

theorem keepGlyphs_rebase (q : Nat → Bool) (xOffset : U) (byteIndex : Nat) (runs : List (ShapedRun U I)) :
    keepGlyphs q (runs.map (ShapedRun.rebase xOffset byteIndex))
      = (keepGlyphs (fun index => q (index - byteIndex)) runs).map (ShapedRun.rebase xOffset byteIndex) := by
  induction runs with
  | nil => rfl
  | cons run runs ih =>
    have hfilter : ((run.rebase xOffset byteIndex).glyphs.filter fun glyph => q glyph.index)
        = (run.glyphs.filter fun glyph => q (glyph.index - byteIndex)).map
          (ShapedGlyph.rebase xOffset byteIndex) := List.filter_map
    rw [List.map_cons, keepGlyphs_cons, keepGlyphs_cons, ih, List.map_append]
    by_cases hnil : (run.glyphs.filter fun glyph => q (glyph.index - byteIndex)) = []
    · rw [if_pos hnil, if_pos (by rw [hfilter, hnil]; rfl)]
      rfl
    · rw [if_neg hnil, if_neg (by rw [hfilter, List.map_eq_nil_iff]; exact hnil), hfilter]
      rfl

theorem rebase_rebase (xOffset xOffset' : U) {byteIndex byteIndex' : Nat} (hle : byteIndex ≤ byteIndex')
    (run : ShapedRun U I) : (run.rebase xOffset byteIndex).rebase (xOffset' - xOffset) (byteIndex' - byteIndex)
      = run.rebase xOffset' byteIndex' := by
  have hglyph : ∀ glyph : ShapedGlyph U,
      (glyph.rebase xOffset byteIndex).rebase (xOffset' - xOffset) (byteIndex' - byteIndex)
        = glyph.rebase xOffset' byteIndex' := by
    intro glyph
    have hindex : glyph.index - byteIndex - (byteIndex' - byteIndex) = glyph.index - byteIndex' := by omega
    simp only [ShapedGlyph.rebase, sub_sub_sub_cancel_right, hindex]
  rw [ShapedRun.rebase, ShapedRun.rebase, List.map_map]
  simp only [Function.comp_def, hglyph]
  rfl

end Rebase

/-! ### The loop over the runs -/

/-- What is left of the runs at a glyph of the first one. -/
def restFrom (glyphIndex : Nat) : List (ShapedRun U I) → List (ShapedRun U I)
  | [] => []
  | run :: runs => { run with glyphs := run.glyphs.drop glyphIndex } :: runs

theorem restFrom_zero (runs : List (ShapedRun U I)) : restFrom 0 runs = runs := by
  cases runs <;> rfl

namespace ShapedLineCursor

variable [AddCommGroup U] {previousIndex : Nat}

theorem takeGlyphs_spec (byteIndex : Nat) (previousX : U) (run : ShapedRun U I) (start : Nat)
    (hsorted : SortedBy ShapedGlyph.index (run.glyphs.drop start))
    (hpast : ∀ glyph ∈ run.glyphs.drop start, previousIndex ≤ glyph.index) :
    takeGlyphs previousX previousIndex start
        (start + ((run.glyphs.drop start).takeWhile fun glyph => decide (glyph.index < byteIndex)).length) run
      = some ((keepGlyphs (fun index => decide (index < byteIndex)) [{ run with glyphs := run.glyphs.drop start }]).map
        (ShapedRun.rebase previousX previousIndex)) := by
  rw [takeGlyphs, Nat.add_sub_cancel_left, take_takeWhile_length, takeWhile_lt hsorted, keepGlyphs_cons]
  by_cases hnil : ((run.glyphs.drop start).filter fun glyph => decide (glyph.index < byteIndex)) = []
  · rw [if_neg (by rw [hnil]; exact lt_irrefl start), if_pos hnil]
    rfl
  · have hall : ∀ glyph ∈ (run.glyphs.drop start).filter fun glyph => decide (glyph.index < byteIndex),
        previousIndex ≤ glyph.index := fun glyph hglyph => hpast glyph (List.mem_filter.mp hglyph).1
    rw [if_pos (Nat.lt_add_of_pos_right (List.length_pos_iff.mpr hnil)), if_pos hall, if_neg hnil]
    rfl

/-- **The glyphs up to a boundary.** -/
theorem takeRuns_spec (byteIndex previousIndex : Nat) (previousX width : U) :
    ∀ (runs : List (ShapedRun U I)) (runIndex glyphIndex : Nat), ByteOrdered (restFrom glyphIndex runs) →
      (∀ g ∈ fontGlyphs (restFrom glyphIndex runs), previousIndex ≤ g.2.index) →
      ∃ moved glyphIndex',
        takeRuns byteIndex previousIndex previousX width runs runIndex glyphIndex
          = some ((keepGlyphs (fun index => decide (index < byteIndex)) (restFrom glyphIndex runs)).map
              (ShapedRun.rebase previousX previousIndex), runIndex + moved, glyphIndex',
            (((fontGlyphs (restFrom glyphIndex runs)).find? fun g => decide (byteIndex ≤ g.2.index)).map
              fun g => g.2.position.x).getD width) ∧
        keepGlyphs (fun _ => true) (restFrom glyphIndex' (runs.drop moved))
          = keepGlyphs (fun index => decide (byteIndex ≤ index)) (restFrom glyphIndex runs) := by
  intro runs
  induction runs with
  | nil =>
    intro runIndex glyphIndex _ _
    exact ⟨0, glyphIndex, rfl, rfl⟩
  | cons run runs ih =>
    intro runIndex glyphIndex hordered hpast
    have hsorted : SortedBy ShapedGlyph.index (run.glyphs.drop glyphIndex) := hordered.run List.mem_cons_self
    have htaken := takeGlyphs_spec byteIndex previousX run glyphIndex hsorted fun glyph hglyph =>
      hpast (run.fontId, glyph) (List.mem_append_left _ (List.mem_map_of_mem hglyph))
    have hdrop := drop_takeWhile_length (fun glyph => decide (glyph.index < byteIndex)) (run.glyphs.drop glyphIndex)
    rw [dropWhile_lt hsorted, List.drop_drop] at hdrop
    -- the first glyph of the run past the boundary
    have hnext : run.glyphs[glyphIndex +
          ((run.glyphs.drop glyphIndex).takeWhile fun glyph => decide (glyph.index < byteIndex)).length]?
        = (run.glyphs.drop glyphIndex).find? fun glyph => decide (byteIndex ≤ glyph.index) := by
      rw [← List.head?_drop, hdrop, List.head?_filter]
    have hfont : (fontGlyphs (restFrom glyphIndex (run :: runs))).find? (fun g => decide (byteIndex ≤ g.2.index))
        = (((run.glyphs.drop glyphIndex).find? fun glyph => decide (byteIndex ≤ glyph.index)).map
          fun glyph => (run.fontId, glyph)).or ((fontGlyphs runs).find? fun g => decide (byteIndex ≤ g.2.index)) := by
      rw [restFrom, fontGlyphs_cons, List.find?_append, List.find?_map]
      rfl
    rw [takeRuns, htaken]
    simp only [Option.bind_eq_bind, Option.bind_some, hnext]
    rw [hfont, restFrom, keepGlyphs_append _ _ runs, keepGlyphs_append (fun index => decide (byteIndex ≤ index)) _ runs]
    cases hfind : (run.glyphs.drop glyphIndex).find? fun glyph => decide (byteIndex ≤ glyph.index) with
    | some glyph =>
      -- the runs behind it have no glyph below the boundary
      have hglyph : byteIndex ≤ glyph.index := by simpa using List.find?_some hfind
      have hbehind : ∀ g ∈ fontGlyphs runs, byteIndex ≤ g.2.index := fun g hg =>
        hglyph.trans ((List.pairwise_append.mp hordered).2.2 (run.fontId, glyph)
          (List.mem_map_of_mem (List.mem_of_find?_eq_some hfind)) g hg)
      refine ⟨0, glyphIndex +
        ((run.glyphs.drop glyphIndex).takeWhile fun glyph => decide (glyph.index < byteIndex)).length, ?_, ?_⟩
      · have hnone : keepGlyphs (fun index => decide (index < byteIndex)) runs = [] :=
          keepGlyphs_eq_nil fun g hg => decide_eq_false (not_lt.mpr (hbehind g hg))
        rw [hnone, List.append_nil]
        rfl
      · have hall : keepGlyphs (fun _ => true) runs = keepGlyphs (fun index => decide (byteIndex ≤ index)) runs :=
          keepGlyphs_congr fun g hg => (decide_eq_true (hbehind g hg)).symm
        rw [List.drop_zero, restFrom, keepGlyphs_append, hdrop, hall, keepGlyphs_cons, keepGlyphs_cons,
          List.filter_true]
        rfl
    | none =>
      obtain ⟨moved, glyphIndex', htake, hrest⟩ := ih (runIndex + 1) 0
        (by rw [restFrom_zero]; exact hordered.of_cons)
        (by rw [restFrom_zero]; exact fun g hg => hpast g (List.mem_append_right _ hg))
      rw [restFrom_zero] at htake hrest
      refine ⟨moved + 1, glyphIndex', ?_, ?_⟩
      · rw [htake, List.map_append, Nat.add_right_comm]
        rfl
      · have hnone : keepGlyphs (fun index => decide (byteIndex ≤ index))
            [{ run with glyphs := run.glyphs.drop glyphIndex }] = [] := by
          refine keepGlyphs_eq_nil fun g hg => ?_
          rw [fontGlyphs_cons, fontGlyphs_nil, List.append_nil] at hg
          obtain ⟨glyph, hglyph, rfl⟩ := List.mem_map.mp hg
          simpa using List.find?_eq_none.mp hfind glyph hglyph
        rw [List.drop_succ_cons, hrest, hnone, List.nil_append]

end ShapedLineCursor

end FcGpui
