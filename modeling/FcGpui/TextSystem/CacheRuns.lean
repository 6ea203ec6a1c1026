import FcGpui.TextSystem.CacheContents

/-!
# Runs of the layout caches

Two properties of whole runs of a text system and its windows.

*Fonts.*  A window that is up to date trusts the shared cache.  It brings itself
up to date by clearing that cache, except when it is new: then it takes the
generation over without looking at what the shared cache holds.  So every layout
returned was shaped under the current generation in every run in which the shared
cache holds nothing older whenever a window is made (`layouts_current`).
`layout_outdated` is a run with a window made right after fonts were added.

*Clamps.*  The key of a wrapped line leaves `max_lines` out, so a call may be
given a layout that was clamped otherwise.  With the fonts fixed, a wrapped call
returns what it would compute in every run in which each layout found was asked
for with a clamp that cuts the line alike (`wrapped_transparent`).
`wrapped_clamped_otherwise` is a run with two clamps.

`Fresh` is the invariant of the first; `Steady` adds to it, for the second, that
no window is ever out of date.
-/

namespace FcGpui.TextSystem

section Runs

variable {U I : Type} [DecidableEq I] [Field U] [LinearOrder U] (platform : Platform U I)

/-- A cached line that was shaped under `generation`. -/
def LineOf (generation : Nat) (key : CacheKey U I) (line : ShapedLayout U I) : Prop :=
  line.generation = generation ∧ line.layout = shapeLine platform generation key

/-- A cached wrapped line that was shaped under `generation`. -/
def WrappedOf (generation : Nat) (key : CacheKey U I) (line : ShapedWrapped U I) : Prop :=
  line.generation = generation ∧
    shapeWrapped platform generation key line.maxLines = some line.layout

omit [DecidableEq I] in
theorem lineOf_new (generation : Nat) (key : CacheKey U I) :
    LineOf platform generation key ⟨shapeLine platform generation key, generation⟩ := ⟨rfl, rfl⟩

omit [DecidableEq I] in
theorem wrappedOf_new {generation : Nat} {key : CacheKey U I} {maxLines : Option Nat}
    {unwrapped : ShapedLayout U I} {boundaries : List WrapBoundary}
    (hl : LineOf platform generation (lineKey key.text key.fontSize key.runs none none) unwrapped)
    (hb : wrapBoundariesFor unwrapped.layout key maxLines = some boundaries) :
    WrappedOf platform generation key
      ⟨⟨unwrapped.layout, boundaries, key.wrapWidth⟩, unwrapped.generation, maxLines⟩ := by
  refine ⟨hl.1, ?_⟩
  rw [shapeWrapped, ← hl.2]
  show (wrapBoundariesFor unwrapped.layout key maxLines).map _ = _
  rw [hb]
  rfl

/-- Every layout of the shared cache was shaped under the generation it carries. -/
abbrev GlobalSound (g : GlobalLineLayoutCache U I) : Prop :=
  GlobalAll (fun key line => LineOf platform line.generation key line)
    (fun key line => WrappedOf platform line.generation key line) g

/-- Windows that are up to date hold only layouts of the current generation, and
so does the shared cache they look at. -/
structure Fresh (s : TextSystem U I) : Prop where
  window_le : ∀ w ∈ s.windows, w.cachedFontGeneration ≤ s.fontGeneration
  global : GlobalSound platform s.globalCache
  caches : ∀ w ∈ s.windows, w.cachedFontGeneration = s.fontGeneration →
    CachesAll (LineOf platform s.fontGeneration) (WrappedOf platform s.fontGeneration)
      (w, s.globalCache)
  lineCalls : ∀ call ∈ s.lineCalls, LineOf platform call.generation call.key call.result
  wrappedCalls : ∀ call ∈ s.wrappedCalls, WrappedOf platform call.generation call.key call.result

theorem fresh_new (maxEntries lowWatermark : Nat) :
    Fresh platform (new maxEntries lowWatermark : TextSystem U I) where
  window_le _ hw := absurd hw List.not_mem_nil
  global := ⟨mapAll_empty, mapAll_empty⟩
  caches _ hw := absurd hw List.not_mem_nil
  lineCalls _ hc := absurd hc List.not_mem_nil
  wrappedCalls _ hc := absurd hc List.not_mem_nil

variable {platform}

theorem globalSound_of {generation : Nat} {g : GlobalLineLayoutCache U I}
    (h : GlobalAll (LineOf platform generation) (WrappedOf platform generation) g) :
    GlobalSound platform g :=
  h.imp (fun _ _ _ he => he.1.symm ▸ he) fun _ _ _ he => he.1.symm ▸ he

theorem Fresh.cachesOf {s : TextSystem U I} (h : Fresh platform s) {window : Nat} {c : Caches U I}
    (hc : s.cachesOf window = some c) (hg : c.1.cachedFontGeneration = s.fontGeneration) :
    CachesAll (LineOf platform s.fontGeneration) (WrappedOf platform s.fontGeneration) c := by
  obtain ⟨w, hw, rfl⟩ := Option.map_eq_some_iff.mp hc
  exact h.caches w (List.mem_of_getElem? hw) hg

/-! ### What a call on a window does -/

variable (platform) in
/-- A call on a window: the window and the shared cache change, the window is up
to date after it, and whatever is recorded was shaped under the current
generation.  A wrapped layout was made with the clamp asked for, or found under
its key. -/
structure Called (s : TextSystem U I) (a : TextAct U I) (s' : TextSystem U I) (window : Nat)
    (c c' : Caches U I) : Prop where
  cachesOf : s.cachesOf window = some c
  leaves : Leaves (LineOf platform s.fontGeneration) (WrappedOf platform s.fontGeneration)
    s.fontGeneration c'
  windows : s'.windows = s.windows.set window c'.1
  globalCache : s'.globalCache = c'.2
  fontGeneration : s'.fontGeneration = s.fontGeneration
  lineCalls : ∀ call ∈ s'.lineCalls,
    call ∈ s.lineCalls ∨ LineOf platform call.generation call.key call.result
  wrappedCalls : ∀ call ∈ s'.wrappedCalls, call ∈ s.wrappedCalls ∨
    (call.generation = s.fontGeneration ∧ WrappedOf platform call.generation call.key call.result ∧
      (lookupWrapped (clearIfFontGenerationChanged s.fontGeneration c) call.key = some call.result ∨
        call.result.maxLines = call.maxLines) ∧
      ∃ text fontSize runs wrapWidth, call.key = wrappedKey text fontSize runs wrapWidth ∧
        a = .layoutWrappedLine window text fontSize runs wrapWidth call.maxLines)

variable {a : TextAct U I} {s s' : TextSystem U I}

theorem called_setCaches {window : Nat} {c c' : Caches U I} (hc : s.cachesOf window = some c)
    (hl : Leaves (LineOf platform s.fontGeneration) (WrappedOf platform s.fontGeneration)
    s.fontGeneration c') : Called platform s a (s.setCaches window c') window c c' :=
  ⟨hc, hl, rfl, rfl, rfl, fun _ h => Or.inl h, fun _ h => Or.inl h⟩

/-- **What a step can do.** -/
theorem step_cases (h : Fresh platform s) (hs : s.step platform a = some s') :
    (∃ succeeds, a = .addFonts succeeds) ∨ a = .clearLayoutCache ∨ a = .newWindow ∨
      ∃ window c c', Called platform s a s' window c c' := by
  cases a with
  | addFonts succeeds => exact Or.inl ⟨succeeds, rfl⟩
  | clearLayoutCache => exact Or.inr (Or.inl rfl)
  | newWindow => exact Or.inr (Or.inr (Or.inl rfl))
  | layoutIndex window =>
    obtain ⟨c, hc, hs⟩ := Option.bind_eq_some_iff.mp hs
    obtain rfl := Option.some.inj hs
    exact Or.inr (Or.inr (Or.inr ⟨window, c, _, called_setCaches hc (leaves_clear (h.cachesOf hc))⟩))
  | layoutLine window text fontSize runs forceWidth letterSpacing =>
    obtain ⟨c, hc, hs⟩ := Option.bind_eq_some_iff.mp hs
    obtain rfl := Option.some.inj hs
    obtain ⟨hline, hl⟩ := layoutLineWithSpacing_leaves platform (h.cachesOf hc)
      (lineOf_new platform s.fontGeneration
        (lineKey text fontSize runs forceWidth letterSpacing))
    refine Or.inr (Or.inr (Or.inr ⟨window, c, _, hc, hl, rfl, rfl, rfl, fun call hcall => ?_,
      fun _ hcall => Or.inl hcall⟩))
    rcases List.mem_append.mp hcall with hcall | hcall
    · exact Or.inl hcall
    · rw [List.mem_singleton.mp hcall]
      exact Or.inr hline
  | layoutWrappedLine window text fontSize runs wrapWidth maxLines =>
    obtain ⟨c, hc, hs⟩ := Option.bind_eq_some_iff.mp hs
    obtain ⟨⟨line, c'⟩, hcall, hs⟩ := Option.bind_eq_some_iff.mp hs
    obtain rfl := Option.some.inj hs
    obtain ⟨hfrom, hline, hl⟩ := layoutWrappedLine_leaves platform (h.cachesOf hc)
      (lineOf_new platform s.fontGeneration _)
      (fun unwrapped boundaries hu hb => wrappedOf_new platform hu hb) hcall
    refine Or.inr (Or.inr (Or.inr ⟨window, c, c', hc, hl, rfl, rfl, rfl,
      fun _ hcall => Or.inl hcall, fun call hcall => ?_⟩))
    rcases List.mem_append.mp hcall with hcall | hcall
    · exact Or.inl hcall
    · rw [List.mem_singleton.mp hcall]
      exact Or.inr ⟨rfl, hline, hfrom, text, fontSize, runs, wrapWidth, rfl, rfl⟩
  | reuseLayouts window start stop =>
    obtain ⟨c, hc, hs⟩ := Option.bind_eq_some_iff.mp hs
    obtain ⟨c', hcall, hs⟩ := Option.bind_eq_some_iff.mp hs
    obtain rfl := Option.some.inj hs
    exact Or.inr (Or.inr (Or.inr
      ⟨window, c, _, called_setCaches hc (reuseLayouts_leaves (h.cachesOf hc) hcall)⟩))
  | truncateLayouts window index =>
    obtain ⟨c, hc, hs⟩ := Option.bind_eq_some_iff.mp hs
    obtain rfl := Option.some.inj hs
    exact Or.inr (Or.inr (Or.inr
      ⟨window, c, _, called_setCaches hc (truncateLayouts_leaves index (h.cachesOf hc))⟩))
  | finishFrame window =>
    obtain ⟨c, hc, hs⟩ := Option.bind_eq_some_iff.mp hs
    obtain rfl := Option.some.inj hs
    exact Or.inr (Or.inr (Or.inr
      ⟨window, c, _, called_setCaches hc (finishFrame_leaves (h.cachesOf hc))⟩))

theorem Fresh.called (h : Fresh platform s) {window : Nat}
    {c c' : Caches U I} (hc : Called platform s a s' window c c') : Fresh platform s' where
  window_le w hw := by
    rw [hc.windows] at hw
    rw [hc.fontGeneration]
    rcases List.mem_or_eq_of_mem_set hw with hw | rfl
    · exact h.window_le w hw
    · exact hc.leaves.1.le
  global := by
    rw [hc.globalCache]
    exact globalSound_of hc.leaves.2.2
  caches w hw hg := by
    rw [hc.windows] at hw
    rw [hc.fontGeneration] at hg ⊢
    rw [hc.globalCache]
    rcases List.mem_or_eq_of_mem_set hw with hw | rfl
    · exact ⟨(h.caches w hw hg).1, hc.leaves.2.2⟩
    · exact hc.leaves.2
  lineCalls call hcall := by
    rcases hc.lineCalls call hcall with hold | hnew
    · exact h.lineCalls call hold
    · exact hnew
  wrappedCalls call hcall := by
    rcases hc.wrappedCalls call hcall with hold | ⟨-, hnew, -⟩
    · exact h.wrappedCalls call hold
    · exact hnew

/-! ### Fonts -/

/-- A window is made only while the shared cache holds nothing older than the
current generation. -/
def MadeFresh (s : TextSystem U I) : TextAct U I → Prop
  | .newWindow => (∀ key e, s.globalCache.lines.lookup key = some e →
        e.1.generation = s.fontGeneration) ∧
      ∀ key e, s.globalCache.wrappedLines.lookup key = some e → e.1.generation = s.fontGeneration
  | _ => True

/-- One step under the condition keeps the invariant. -/
theorem Fresh.step (h : Fresh platform s)
    (hm : s.MadeFresh a) (hs : s.step platform a = some s') : Fresh platform s' := by
  rcases step_cases h hs with ⟨succeeds, rfl⟩ | rfl | rfl | ⟨window, c, c', hc⟩
  · obtain rfl := Option.some.inj hs
    cases succeeds with
    | false => exact h
    | true =>
      refine ⟨fun w hw => Nat.le_succ_of_le (h.window_le w hw), h.global, fun w hw hg => ?_,
        h.lineCalls, h.wrappedCalls⟩
      have := h.window_le w hw
      exact absurd hg (Nat.ne_of_lt (Nat.lt_succ_of_le this))
  · obtain rfl := Option.some.inj hs
    exact ⟨h.window_le, globalAll_clear _, fun w hw hg => ⟨(h.caches w hw hg).1, globalAll_clear _⟩,
      h.lineCalls, h.wrappedCalls⟩
  · obtain rfl := Option.some.inj hs
    have hglobal : GlobalAll (LineOf platform s.fontGeneration)
        (WrappedOf platform s.fontGeneration) s.globalCache :=
      h.global.imp (fun key e he hl => hm.1 key e he ▸ hl) fun key e he hl => hm.2 key e he ▸ hl
    refine ⟨fun w hw => ?_, h.global, fun w hw hg => ?_, h.lineCalls, h.wrappedCalls⟩
    · rcases List.mem_append.mp hw with hw | hw
      · exact h.window_le w hw
      · rw [List.mem_singleton.mp hw]
    · rcases List.mem_append.mp hw with hw | hw
      · exact h.caches w hw hg
      · rw [List.mem_singleton.mp hw]
        exact ⟨⟨frameAll_empty, frameAll_empty⟩, hglobal⟩
  · exact h.called hc

/-- **Installed fonts reach every window.**  In every run of a new text system in
which windows are made only while the shared cache holds nothing older than the
current generation, every layout returned was shaped under the generation
current at its call. -/
theorem layouts_current (platform : Platform U I) (maxEntries lowWatermark : Nat)
    (acts : List (TextAct U I)) (s : TextSystem U I)
    (hm : RunMeets (step platform) MadeFresh (new maxEntries lowWatermark) acts)
    (hs : run (step platform) (new maxEntries lowWatermark) acts = some s) :
    (∀ call ∈ s.lineCalls, call.result.generation = call.generation ∧
      call.result.layout = shapeLine platform call.generation call.key) ∧
    ∀ call ∈ s.wrappedCalls, call.result.generation = call.generation ∧
      shapeWrapped platform call.generation call.key call.result.maxLines
        = some call.result.layout := by
  have h := run_invariant (fun _ _ _ h hm hs => h.step hm hs) acts
    (fresh_new platform maxEntries lowWatermark) hm hs
  exact ⟨h.lineCalls, h.wrappedCalls⟩

/-- A platform whose lines are as wide as the font generation. -/
def widthOfGeneration : Platform ℚ Nat := fun generation _ fontSize _ =>
  ⟨fontSize, generation, 0, 0, [], 0⟩

/-- A line is laid out, fonts are added, and it is laid out again. -/
def addFontsBetween : List (TextAct ℚ Nat) :=
  [.newWindow, .layoutLine 0 ['a'] 16 [] none none, .addFonts true,
    .layoutLine 0 ['a'] 16 [] none none]

theorem layouts_current_after_addFonts :
    ∃ s, run (step widthOfGeneration) (new 4 2) addFontsBetween = some s ∧
      ∀ call ∈ s.lineCalls, call.result.generation = call.generation ∧
        call.result.layout = shapeLine widthOfGeneration call.generation call.key := by
  have hm : RunMeets (step widthOfGeneration) MadeFresh (new 4 2) addFontsBetween := by
    refine ⟨⟨fun key e he => ?_, fun key e he => ?_⟩, trivial, trivial, trivial, trivial⟩
    · exact absurd he (by rw [show (new 4 2 : TextSystem ℚ Nat).globalCache.lines = ∅ from rfl,
        AList.lookup_empty]; simp)
    · exact absurd he (by rw [show (new 4 2 : TextSystem ℚ Nat).globalCache.wrappedLines = ∅ from rfl,
        AList.lookup_empty]; simp)
  cases hs : run (step widthOfGeneration) (new 4 2) addFontsBetween with
  | none => exact absurd (congrArg Option.isNone hs) (by decide)
  | some s => exact ⟨s, rfl, (layouts_current widthOfGeneration 4 2 addFontsBetween s hm hs).1⟩

/-- A line is laid out in one window, fonts are added, and it is laid out in a
window made after that. -/
def windowAfterFonts : List (TextAct ℚ Nat) :=
  [.newWindow, .layoutLine 0 ['a'] 16 [] none none, .addFonts true, .newWindow,
    .layoutLine 1 ['a'] 16 [] none none]

theorem layout_outdated : ¬ ∀ (acts : List (TextAct ℚ Nat)) (s : TextSystem ℚ Nat),
    run (step widthOfGeneration) (new 4 2) acts = some s →
      ∀ call ∈ s.lineCalls, call.result.generation = call.generation ∧
        call.result.layout = shapeLine widthOfGeneration call.generation call.key := by
  intro h
  have hcalls : (run (step widthOfGeneration) (new 4 2) windowAfterFonts).map
      (fun s => s.lineCalls.map fun call => (call.generation, call.result.generation))
        = some [(0, 0), (1, 0)] := by decide
  obtain ⟨s, hs, hc⟩ := Option.map_eq_some_iff.mp hcalls
  obtain ⟨call, hmem, heq⟩ := List.mem_map.mp (show (1, 0) ∈ s.lineCalls.map fun call =>
    (call.generation, call.result.generation) by rw [hc]; decide)
  have := (h windowAfterFonts s hs call hmem).1
  rw [(Prod.mk.inj heq).1, (Prod.mk.inj heq).2] at this
  exact absurd this (by decide)

/-! ### Clamps -/

/-- A clamp that leaves room for `n` boundaries. -/
def Fits (maxLines : Option Nat) (n : Nat) : Prop := ∀ m ∈ maxLines, n ≤ m - 1

instance (maxLines : Option Nat) (n : Nat) : Decidable (Fits maxLines n) :=
  inferInstanceAs (Decidable (∀ m ∈ maxLines, n ≤ m - 1))

/-- Two clamps that cut a line at the same place: they allow the same number of
boundaries, or both leave room for all of them. -/
def CutsAlike (layout : LineLayout U I) (text : List Char) (wrapWidth : U)
    (a b : Option Nat) : Prop :=
  a.map (· - 1) = b.map (· - 1) ∨
    ∃ bs ∈ layout.computeWrapBoundaries text wrapWidth none, Fits a bs.length ∧ Fits b bs.length

instance (layout : LineLayout U I) (text : List Char) (wrapWidth : U) (a b : Option Nat) :
    Decidable (CutsAlike layout text wrapWidth a b) :=
  inferInstanceAs (Decidable (_ ∨ ∃ bs ∈ layout.computeWrapBoundaries text wrapWidth none,
    Fits a bs.length ∧ Fits b bs.length))

theorem clamp_of_fits {maxLines : Option Nat} {bs : List WrapBoundary}
    (h : Fits maxLines bs.length) : LineLayout.clamp maxLines bs = bs := by
  cases maxLines with
  | none => rfl
  | some m => exact List.take_of_length_le (h m rfl)

omit [DecidableEq I] in
theorem CutsAlike.computeWrapBoundaries_eq {layout : LineLayout U I} {text : List Char}
    {wrapWidth : U} {a b : Option Nat} (h : CutsAlike layout text wrapWidth a b) :
    layout.computeWrapBoundaries text wrapWidth a
      = layout.computeWrapBoundaries text wrapWidth b := by
  rcases h with h | ⟨bs, hbs, ha, hb⟩
  · exact LineLayout.wrapLoop_congr h _ _
  · rw [LineLayout.computeWrapBoundaries_clamp hbs a, LineLayout.computeWrapBoundaries_clamp hbs b,
      clamp_of_fits ha, clamp_of_fits hb]

variable (platform) in
/-- A wrapped call that finds a layout finds one whose clamp cuts the line as its
own does.  The fonts are fixed. -/
def ClampsAgree (s : TextSystem U I) : TextAct U I → Prop
  | .addFonts succeeds => succeeds = false
  | .layoutWrappedLine window text fontSize runs (some wrapWidth) maxLines =>
    ∀ c ∈ s.cachesOf window, ∀ e ∈ lookupWrapped c (wrappedKey text fontSize runs (some wrapWidth)),
      CutsAlike (shapeLine platform s.fontGeneration (lineKey text fontSize runs none none)) text
        wrapWidth e.maxLines maxLines
  | _ => True

instance (s : TextSystem U I) : ∀ a, Decidable (ClampsAgree platform s a)
  | .addFonts succeeds => inferInstanceAs (Decidable (succeeds = false))
  | .layoutWrappedLine window text fontSize runs (some wrapWidth) maxLines =>
    inferInstanceAs (Decidable (∀ c ∈ s.cachesOf window,
      ∀ e ∈ lookupWrapped c (wrappedKey text fontSize runs (some wrapWidth)),
        CutsAlike (shapeLine platform s.fontGeneration (lineKey text fontSize runs none none)) text
          wrapWidth e.maxLines maxLines))
  | .layoutWrappedLine _ _ _ _ none _ | .clearLayoutCache | .newWindow | .layoutIndex _
  | .layoutLine _ _ _ _ _ _ | .reuseLayouts _ _ _ | .truncateLayouts _ _ | .finishFrame _ =>
    isTrue trivial

variable (platform) in
/-- `Fresh`, no window is out of date, and every wrapped call so far returned what
it would have computed. -/
structure Steady (s : TextSystem U I) : Prop where
  fresh : Fresh platform s
  window_eq : ∀ w ∈ s.windows, w.cachedFontGeneration = s.fontGeneration
  global : GlobalAll (LineOf platform s.fontGeneration) (WrappedOf platform s.fontGeneration)
    s.globalCache
  transparent : ∀ call ∈ s.wrappedCalls,
    shapeWrapped platform s.fontGeneration call.key call.maxLines = some call.result.layout

theorem steady_new (maxEntries lowWatermark : Nat) :
    Steady platform (new maxEntries lowWatermark : TextSystem U I) where
  fresh := fresh_new platform maxEntries lowWatermark
  window_eq _ hw := absurd hw List.not_mem_nil
  global := ⟨mapAll_empty, mapAll_empty⟩
  transparent _ hc := absurd hc List.not_mem_nil

omit [DecidableEq I] in
/-- Clamps that cut a line alike give the same wrapped layout; without a wrap
width every two clamps do. -/
theorem shapeWrapped_congr {generation : Nat} {text : List Char} {fontSize : U}
    {runs : List (FontRun I)} {wrapWidth : Option U} {a b : Option Nat}
    (h : ∀ w ∈ wrapWidth,
      CutsAlike (shapeLine platform generation (lineKey text fontSize runs none none)) text w a b) :
    shapeWrapped platform generation (wrappedKey text fontSize runs wrapWidth) a
      = shapeWrapped platform generation (wrappedKey text fontSize runs wrapWidth) b := by
  cases wrapWidth with
  | none => rfl
  | some w =>
    have heq := (h w rfl).computeWrapBoundaries_eq
    exact congrArg (Option.map fun boundaries => WrappedLineLayout.mk
      (shapeLine platform generation (lineKey text fontSize runs none none)) boundaries (some w)) heq

theorem Steady.called {s s' : TextSystem U I} (h : Steady platform s) {a : TextAct U I}
    (ha : ClampsAgree platform s a) {window : Nat} {c c' : Caches U I}
    (hc : Called platform s a s' window c c') : Steady platform s' where
  fresh := h.fresh.called hc
  window_eq w hw := by
    rw [hc.windows] at hw
    rw [hc.fontGeneration]
    rcases List.mem_or_eq_of_mem_set hw with hw | rfl
    · exact h.window_eq w hw
    · exact hc.leaves.1
  global := by
    rw [hc.fontGeneration, hc.globalCache]
    exact hc.leaves.2.2
  transparent call hcall := by
    rw [hc.fontGeneration]
    rcases hc.wrappedCalls call hcall with hold | ⟨hgen, hnew, hfrom, text, fontSize, runs,
      wrapWidth, hkey, rfl⟩
    · exact h.transparent call hold
    · rw [← hgen, ← hnew.2]
      rcases hfrom with hfound | hmade
      · -- the window is up to date, so what was found was there before the call
        have hcur : c.1.cachedFontGeneration = s.fontGeneration := by
          obtain ⟨w, hw, rfl⟩ := Option.map_eq_some_iff.mp hc.cachesOf
          exact h.window_eq w (List.mem_of_getElem? hw)
        rw [clear_of_eq hcur, hkey] at hfound
        rw [hkey]
        refine (shapeWrapped_congr fun w hw => ?_).symm
        obtain rfl : wrapWidth = some w := hw
        rw [hgen]
        exact ha c hc.cachesOf call.result hfound
      · rw [hmade]

/-- One step under the condition keeps the invariant. -/
theorem Steady.step {s s' : TextSystem U I} (h : Steady platform s) {a : TextAct U I}
    (ha : ClampsAgree platform s a) (hs : s.step platform a = some s') : Steady platform s' := by
  rcases step_cases h.fresh hs with ⟨succeeds, rfl⟩ | rfl | rfl | ⟨window, c, c', hc⟩
  · obtain rfl : succeeds = false := ha
    obtain rfl := Option.some.inj hs
    exact h
  · have hfresh := h.fresh.step (a := .clearLayoutCache) trivial hs
    obtain rfl := Option.some.inj hs
    exact ⟨hfresh, h.window_eq, globalAll_clear _, h.transparent⟩
  · have hfresh := h.fresh.step (a := .newWindow)
      ⟨fun key e he => (h.global.1 key e he).1, fun key e he => (h.global.2 key e he).1⟩ hs
    obtain rfl := Option.some.inj hs
    refine ⟨hfresh, fun w hw => ?_, h.global, h.transparent⟩
    rcases List.mem_append.mp hw with hw | hw
    · exact h.window_eq w hw
    · rw [List.mem_singleton.mp hw]
  · exact h.called ha hc

/-- **The wrapped-line cache is transparent.**  In every run of a new text system
with fixed fonts in which each wrapped layout found had been asked for with a
clamp that cuts the line alike, every wrapped call returned what it would have
computed without any cache. -/
theorem wrapped_transparent (platform : Platform U I) (maxEntries lowWatermark : Nat)
    (acts : List (TextAct U I)) (s : TextSystem U I)
    (hm : RunMeets (step platform) (ClampsAgree platform) (new maxEntries lowWatermark) acts)
    (hs : run (step platform) (new maxEntries lowWatermark) acts = some s) :
    ∀ call ∈ s.wrappedCalls,
      shapeWrapped platform s.fontGeneration call.key call.maxLines = some call.result.layout :=
  (run_invariant (fun _ _ _ h ha hs => h.step ha hs) acts
    (steady_new maxEntries lowWatermark) hm hs).transparent

/-- A platform whose glyphs are ten wide. -/
def tenWide : Platform ℚ Nat := fun _ text fontSize _ =>
  ⟨fontSize, 10 * text.length, 0, 0,
    [⟨0, (List.range text.length).map fun i => ⟨i, ⟨10 * i, 0⟩, i, false⟩⟩], text.length⟩

/-- Two windows lay out a line of two rows: one clamps it to three rows, the other
to five. -/
def roomyClamps : List (TextAct ℚ Nat) :=
  [.newWindow, .newWindow, .layoutWrappedLine 0 ['a', 'b'] 16 [] (some 10) (some 3),
    .layoutWrappedLine 1 ['a', 'b'] 16 [] (some 10) (some 5)]

theorem wrapped_transparent_roomy :
    ∃ s, run (step tenWide) (new 4 2) roomyClamps = some s ∧ s.wrappedCalls.length = 2 ∧
      ∀ call ∈ s.wrappedCalls,
        shapeWrapped tenWide s.fontGeneration call.key call.maxLines = some call.result.layout := by
  have hcalls : (run (step tenWide) (new 4 2) roomyClamps).map (fun s => s.wrappedCalls.length)
      = some 2 := by decide +kernel
  obtain ⟨s, hs, hlen⟩ := Option.map_eq_some_iff.mp hcalls
  have hm : RunMeets (step tenWide) (ClampsAgree tenWide) (new 4 2) roomyClamps := by decide +kernel
  exact ⟨s, hs, hlen, wrapped_transparent tenWide 4 2 roomyClamps s hm hs⟩

/-- One window lays out a line, and then lays it out clamped to one row. -/
def clampedLater : List (TextAct ℚ Nat) :=
  [.newWindow, .layoutWrappedLine 0 ['a', 'b'] 16 [] (some 10) none,
    .layoutWrappedLine 0 ['a', 'b'] 16 [] (some 10) (some 1)]

theorem wrapped_clamped_otherwise : ¬ ∀ (acts : List (TextAct ℚ Nat)) (s : TextSystem ℚ Nat),
    run (step tenWide) (new 4 2) acts = some s → (∀ a ∈ acts, a ≠ .addFonts true) →
      ∀ call ∈ s.wrappedCalls,
        shapeWrapped tenWide s.fontGeneration call.key call.maxLines = some call.result.layout := by
  intro h
  have hcalls : (run (step tenWide) (new 4 2) clampedLater).map (fun s => s.wrappedCalls.map
      fun call => ((shapeWrapped tenWide s.fontGeneration call.key call.maxLines).map
        (·.wrapBoundaries), call.result.layout.wrapBoundaries))
        = some [(some [⟨0, 1⟩], [⟨0, 1⟩]), (some [], [⟨0, 1⟩])] := by decide +kernel
  obtain ⟨s, hs, hc⟩ := Option.map_eq_some_iff.mp hcalls
  have hlast : (some [], [⟨0, 1⟩]) ∈ s.wrappedCalls.map fun call =>
      ((shapeWrapped tenWide s.fontGeneration call.key call.maxLines).map (·.wrapBoundaries),
        call.result.layout.wrapBoundaries) := by
    rw [hc]
    decide
  obtain ⟨call, hmem, heq⟩ := List.mem_map.mp hlast
  obtain ⟨hcomputed, hreturned⟩ := Prod.mk.inj heq
  rw [h clampedLater s hs (by simp [clampedLater]) call hmem, Option.map_some, hreturned] at hcomputed
  exact absurd hcomputed (by decide)

end Runs

end FcGpui.TextSystem
