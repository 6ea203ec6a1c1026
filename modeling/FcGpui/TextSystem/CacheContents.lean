import FcGpui.TextSystem.LayoutCache

/-!
# What the layout caches hold

Every operation of the caches moves entries between the two frames of a window
and the shared cache, drops some, and adds at most what it has just computed.
So a property of entries that the computed ones have spreads over every run:
`CachesAll P Q` says that every cached line satisfies `P` with its key and every
cached wrapped line satisfies `Q`, and there is one lemma for each operation.

`layoutWrappedLine_result` says where a wrapped layout comes from: it was found
under its key, or made with the clamp that was asked for.
-/

namespace FcGpui

section Contents

variable {U I : Type} [DecidableEq U] [DecidableEq I]
  {P : CacheKey U I → ShapedLayout U I → Prop} {Q : CacheKey U I → ShapedWrapped U I → Prop}

/-- Every entry of a map satisfies `R` with its key. -/
def MapAll {ν : Type} (R : CacheKey U I → ν → Prop) (m : AList fun _ : CacheKey U I => ν) : Prop :=
  ∀ key v, m.lookup key = some v → R key v

def FrameAll (P : CacheKey U I → ShapedLayout U I → Prop)
    (Q : CacheKey U I → ShapedWrapped U I → Prop) (f : FrameCache U I) : Prop :=
  MapAll P f.lines ∧ MapAll Q f.wrappedLines

def GlobalAll (P : CacheKey U I → ShapedLayout U I → Prop)
    (Q : CacheKey U I → ShapedWrapped U I → Prop) (g : GlobalLineLayoutCache U I) : Prop :=
  MapAll (fun key e => P key e.1) g.lines ∧ MapAll (fun key e => Q key e.1) g.wrappedLines

def WindowAll (P : CacheKey U I → ShapedLayout U I → Prop)
    (Q : CacheKey U I → ShapedWrapped U I → Prop) (w : LineLayoutCache U I) : Prop :=
  FrameAll P Q w.previousFrame ∧ FrameAll P Q w.currentFrame

def CachesAll (P : CacheKey U I → ShapedLayout U I → Prop)
    (Q : CacheKey U I → ShapedWrapped U I → Prop) (c : Caches U I) : Prop :=
  WindowAll P Q c.1 ∧ GlobalAll P Q c.2

variable {g : GlobalLineLayoutCache U I} {ν : Type} {line : ShapedWrapped U I} {c : Caches U I}
  {fontGeneration : Nat}

theorem GlobalAll.imp {P' : CacheKey U I → ShapedLayout U I → Prop}
    {Q' : CacheKey U I → ShapedWrapped U I → Prop}
    (h : GlobalAll P Q g) (hp : ∀ key e, g.lines.lookup key = some e → P key e.1 → P' key e.1)
    (hq : ∀ key e, g.wrappedLines.lookup key = some e → Q key e.1 → Q' key e.1) : GlobalAll P' Q' g :=
  ⟨fun key e he => hp key e he (h.1 key e he), fun key e he => hq key e he (h.2 key e he)⟩

/-! ### Maps -/

theorem mapAll_empty {R : CacheKey U I → ν → Prop} : MapAll R (∅ : AList fun _ : CacheKey U I => ν) := by
  intro key v h
  rw [AList.lookup_empty] at h
  exact absurd h (by simp)

theorem MapAll.insert {R : CacheKey U I → ν → Prop}
    {m : AList fun _ : CacheKey U I => ν} (h : MapAll R m) {key : CacheKey U I} {v : ν}
    (hv : R key v) : MapAll R (m.insert key v) := by
  intro k x hx
  by_cases hk : k = key
  · subst hk
    rw [AList.lookup_insert] at hx
    rw [← Option.some.inj hx]
    exact hv
  · rw [AList.lookup_insert_ne hk] at hx
    exact h k x hx

theorem MapAll.erase {R : CacheKey U I → ν → Prop}
    {m : AList fun _ : CacheKey U I => ν} (h : MapAll R m) (key : CacheKey U I) : MapAll R (m.erase key) := by
  intro k x hx
  by_cases hk : k = key
  · subst hk
    rw [AList.lookup_erase] at hx
    exact absurd hx (by simp)
  · rw [AList.lookup_erase_ne hk] at hx
    exact h k x hx

theorem MapAll.evictToWatermark {R : CacheKey U I → ν × Nat → Prop}
    {m : GlobalMap U I ν} (h : MapAll R m) (targetSize : Nat) : MapAll R (m.evictToWatermark targetSize) := by
  rw [GlobalMap.evictToWatermark]
  generalize ((m.entries.map fun e => (e.1, e.2.2)).insertionSort fun a b => a.2 ≤ b.2).take
    (m.entries.length - targetSize) = doomed
  induction doomed generalizing m with
  | nil => exact h
  | cons e doomed ih => exact ih (h.erase e.1)

theorem MapAll.put {R : CacheKey U I → ν × Nat → Prop} {m : GlobalMap U I ν}
    (h : MapAll R m) (maxEntries lowWatermark : Nat) {key : CacheKey U I} {v : ν} {access : Nat}
    (hv : R key (v, access)) : MapAll R (m.put maxEntries lowWatermark key v access) := by
  rw [GlobalMap.put]
  refine MapAll.insert ?_ hv
  split
  · exact h.evictToWatermark lowWatermark
  · exact h

theorem MapAll.touch {R : CacheKey U I → ν → Prop} {m m' : GlobalMap U I ν}
    (h : MapAll (fun key e => R key e.1) m) {key : CacheKey U I} {access : Nat} {v : ν}
    (ht : m.touch key access = some (v, m')) : R key v ∧ MapAll (fun key e => R key e.1) m' := by
  obtain ⟨e, he, hm⟩ := Option.map_eq_some_iff.mp ht
  obtain ⟨rfl, rfl⟩ := Prod.mk.inj hm
  have hv : R key e.1 := h key e he
  exact ⟨hv, h.insert hv⟩

/-! ### The operations -/

theorem FrameAll.useLine {f : FrameCache U I} (h : FrameAll P Q f) {key : CacheKey U I}
    {line : ShapedLayout U I} (hl : P key line) : FrameAll P Q (f.useLine key line) :=
  ⟨h.1.insert hl, h.2⟩

theorem FrameAll.useWrapped {f : FrameCache U I} (h : FrameAll P Q f) {key : CacheKey U I}
    (hl : Q key line) : FrameAll P Q (f.useWrapped key line) :=
  ⟨h.1, h.2.insert hl⟩

theorem frameAll_empty : FrameAll P Q (FrameCache.empty : FrameCache U I) :=
  ⟨mapAll_empty, mapAll_empty⟩

theorem globalAll_clear (g : GlobalLineLayoutCache U I) : GlobalAll P Q g.clear :=
  ⟨mapAll_empty, mapAll_empty⟩

theorem GlobalAll.getLine {g' : GlobalLineLayoutCache U I} (h : GlobalAll P Q g)
    {key : CacheKey U I} {line : ShapedLayout U I} (hg : g.getLine key = some (line, g')) :
    P key line ∧ GlobalAll P Q g' := by
  obtain ⟨⟨v, m⟩, ht, hm⟩ := Option.map_eq_some_iff.mp hg
  obtain ⟨rfl, rfl⟩ := Prod.mk.inj hm
  obtain ⟨hv, hlines⟩ := h.1.touch ht
  exact ⟨hv, hlines, h.2⟩

theorem GlobalAll.getWrappedLine {g' : GlobalLineLayoutCache U I} (h : GlobalAll P Q g)
    {key : CacheKey U I} (hg : g.getWrappedLine key = some (line, g')) : Q key line ∧ GlobalAll P Q g' := by
  obtain ⟨⟨v, m⟩, ht, hm⟩ := Option.map_eq_some_iff.mp hg
  obtain ⟨rfl, rfl⟩ := Prod.mk.inj hm
  obtain ⟨hv, hlines⟩ := h.2.touch ht
  exact ⟨hv, h.1, hlines⟩

theorem GlobalAll.insertLine (h : GlobalAll P Q g)
    {key : CacheKey U I} {line : ShapedLayout U I} (hl : P key line) : GlobalAll P Q (g.insertLine key line) :=
  ⟨h.1.put g.maxEntries g.lowWatermark hl, h.2⟩

theorem GlobalAll.insertWrappedLine (h : GlobalAll P Q g)
    {key : CacheKey U I} (hl : Q key line) : GlobalAll P Q (g.insertWrappedLine key line) :=
  ⟨h.1, h.2.put g.maxEntries g.lowWatermark hl⟩

/-- Clearing leaves nothing to check, and a window that is up to date is not
cleared. -/
theorem cachesAll_clear
    (h : c.1.cachedFontGeneration = fontGeneration → CachesAll P Q c) :
    CachesAll P Q (clearIfFontGenerationChanged fontGeneration c) := by
  rw [clearIfFontGenerationChanged]
  split
  · rename_i hg
    exact h hg
  · exact ⟨⟨frameAll_empty, frameAll_empty⟩, globalAll_clear c.2⟩

omit [DecidableEq U] [DecidableEq I] in
theorem clear_generation (fontGeneration : Nat) (c : Caches U I) :
    (clearIfFontGenerationChanged fontGeneration c).1.cachedFontGeneration = fontGeneration := by
  rw [clearIfFontGenerationChanged]
  split
  · assumption
  · rfl

omit [DecidableEq U] [DecidableEq I] in
theorem clear_of_eq (h : c.1.cachedFontGeneration = fontGeneration) :
    clearIfFontGenerationChanged fontGeneration c = c := if_pos h

theorem reuseLines_all (keys : List (CacheKey U I)) :
    ∀ {previous current : FrameCache U I}, FrameAll P Q previous → FrameAll P Q current →
      FrameAll P Q (reuseLines keys previous current).1 ∧
        FrameAll P Q (reuseLines keys previous current).2 := by
  induction keys with
  | nil => intro previous current hp hc; exact ⟨hp, hc⟩
  | cons key keys ih =>
    intro previous current hp hc
    rw [reuseLines, List.foldl_cons]
    cases hl : previous.lines.lookup key with
    | none =>
      simp only [hl]
      exact ih hp ⟨hc.1, hc.2⟩
    | some line =>
      simp only [hl]
      exact ih ⟨hp.1.erase key, hp.2⟩ (hc.useLine (hp.1 key line hl))

theorem reuseWrappedLines_all (keys : List (CacheKey U I)) :
    ∀ {previous current : FrameCache U I}, FrameAll P Q previous → FrameAll P Q current →
      FrameAll P Q (reuseWrappedLines keys previous current).1 ∧
        FrameAll P Q (reuseWrappedLines keys previous current).2 := by
  induction keys with
  | nil => intro previous current hp hc; exact ⟨hp, hc⟩
  | cons key keys ih =>
    intro previous current hp hc
    rw [reuseWrappedLines, List.foldl_cons]
    cases hl : previous.wrappedLines.lookup key with
    | none =>
      simp only [hl]
      exact ih hp ⟨hc.1, hc.2⟩
    | some line =>
      simp only [hl]
      exact ih ⟨hp.1, hp.2.erase key⟩ (hc.useWrapped (hp.2 key line hl))

/-- A call that leaves the window up to date and every entry satisfying `P` or
`Q`. -/
def Leaves (P : CacheKey U I → ShapedLayout U I → Prop)
    (Q : CacheKey U I → ShapedWrapped U I → Prop) (fontGeneration : Nat) (c : Caches U I) : Prop :=
  c.1.cachedFontGeneration = fontGeneration ∧ CachesAll P Q c

theorem leaves_clear
    (h : c.1.cachedFontGeneration = fontGeneration → CachesAll P Q c) :
    Leaves P Q fontGeneration (clearIfFontGenerationChanged fontGeneration c) :=
  ⟨clear_generation fontGeneration c, cachesAll_clear h⟩

theorem reuseLayouts_leaves {start stop : LineLayoutIndex} {c' : Caches U I}
    (h : c.1.cachedFontGeneration = fontGeneration → CachesAll P Q c)
    (hr : reuseLayouts fontGeneration start stop c = some c') : Leaves P Q fontGeneration c' := by
  have hl := leaves_clear h
  rw [reuseLayouts] at hr
  generalize clearIfFontGenerationChanged fontGeneration c = cleared at hl hr
  obtain ⟨w, g⟩ := cleared
  dsimp only at hr
  split at hr
  · rw [← Option.some.inj hr]
    exact hl
  · obtain ⟨lines, -, hr⟩ := Option.bind_eq_some_iff.mp hr
    obtain ⟨wrapped, -, hr⟩ := Option.bind_eq_some_iff.mp hr
    rw [← Option.some.inj hr]
    obtain ⟨hp, hc⟩ := reuseLines_all lines hl.2.1.1 hl.2.1.2
    exact ⟨hl.1, reuseWrappedLines_all wrapped hp hc, hl.2.2⟩

theorem truncateLayouts_leaves (index : LineLayoutIndex)
    (h : c.1.cachedFontGeneration = fontGeneration → CachesAll P Q c) :
    Leaves P Q fontGeneration (truncateLayouts fontGeneration index c) := by
  have hl := leaves_clear h
  rw [truncateLayouts]
  generalize clearIfFontGenerationChanged fontGeneration c = cleared at hl ⊢
  obtain ⟨w, g⟩ := cleared
  dsimp only
  split
  · exact hl
  · exact ⟨hl.1, ⟨hl.2.1.1, hl.2.1.2.1, hl.2.1.2.2⟩, hl.2.2⟩

theorem finishFrame_leaves
    (h : c.1.cachedFontGeneration = fontGeneration → CachesAll P Q c) :
    Leaves P Q fontGeneration (finishFrame fontGeneration c) :=
  have hl := leaves_clear h
  ⟨hl.1, ⟨hl.2.1.2, frameAll_empty⟩, hl.2.2⟩

section Calls

variable [Field U] [LinearOrder U] (platform : Platform U I)

variable {c : Caches U I} {fontGeneration : Nat} {line : ShapedWrapped U I}

/-- A line call returns an entry that satisfies `P`, given that a computed one
does. -/
theorem layoutLineWithSpacing_leaves {key : CacheKey U I}
    (h : c.1.cachedFontGeneration = fontGeneration → CachesAll P Q c)
    (hnew : P key ⟨shapeLine platform fontGeneration key, fontGeneration⟩) :
    P key (layoutLineWithSpacing platform fontGeneration key c).1 ∧
      Leaves P Q fontGeneration (layoutLineWithSpacing platform fontGeneration key c).2 := by
  have hl := leaves_clear h
  rw [layoutLineWithSpacing]
  generalize clearIfFontGenerationChanged fontGeneration c = cleared at hl ⊢
  obtain ⟨w, g⟩ := cleared
  obtain ⟨hgen, ⟨hprev, hcurr⟩, hglobal⟩ := hl
  dsimp only
  split
  · rename_i line hfound
    exact ⟨hcurr.1 key line hfound, hgen, ⟨hprev, hcurr⟩, hglobal⟩
  · split
    · rename_i line hfound
      have hline := hprev.1 key line hfound
      exact ⟨hline, hgen, ⟨⟨hprev.1.erase key, hprev.2⟩, hcurr.useLine hline⟩, hglobal⟩
    · split
      · rename_i line g' hfound
        obtain ⟨hline, hg'⟩ := hglobal.getLine hfound
        exact ⟨hline, hgen, ⟨hprev, hcurr.useLine hline⟩, hg'⟩
      · exact ⟨hnew, hgen, ⟨hprev, hcurr.useLine hnew⟩, hglobal.insertLine hnew⟩

/-- What a wrapped call finds before it computes. -/
def lookupWrapped (c : Caches U I) (key : CacheKey U I) : Option (ShapedWrapped U I) :=
  (c.1.currentFrame.wrappedLines.lookup key).or
    ((c.1.previousFrame.wrappedLines.lookup key).or
      ((c.2.wrappedLines.lookup key).map Prod.fst))

/-- What is found is returned, whatever it was clamped to. -/
theorem layoutWrappedLine_found {key : CacheKey U I} (maxLines : Option Nat)
    (h : lookupWrapped (clearIfFontGenerationChanged fontGeneration c) key = some line) :
    ∃ c', layoutWrappedLine platform fontGeneration key maxLines c = some (line, c') := by
  rw [layoutWrappedLine]
  rw [lookupWrapped] at h
  generalize clearIfFontGenerationChanged fontGeneration c = cleared at h ⊢
  obtain ⟨w, g⟩ := cleared
  dsimp only at h ⊢
  cases hcurrent : w.currentFrame.wrappedLines.lookup key with
  | some e =>
    rw [hcurrent] at h
    obtain rfl := Option.some.inj h
    exact ⟨_, rfl⟩
  | none =>
    rw [hcurrent, Option.none_or] at h
    cases hprevious : w.previousFrame.wrappedLines.lookup key with
    | some e =>
      rw [hprevious] at h
      obtain rfl := Option.some.inj h
      exact ⟨_, rfl⟩
    | none =>
      rw [hprevious, Option.none_or] at h
      obtain ⟨e, he, rfl⟩ := Option.map_eq_some_iff.mp h
      have hglobal : g.getWrappedLine key = some (e.1, { g with
          wrappedLines := g.wrappedLines.insert key (e.1, g.accessCounter)
          accessCounter := g.accessCounter + 1 }) := by
        rw [GlobalLineLayoutCache.getWrappedLine, GlobalMap.touch, he]
        rfl
      rw [hglobal]
      exact ⟨_, rfl⟩

/-- Where nothing is found, a line is wrapped with the clamp asked for. -/
theorem layoutWrappedLine_made {key : CacheKey U I} {maxLines : Option Nat} {c' : Caches U I}
    (h : lookupWrapped (clearIfFontGenerationChanged fontGeneration c) key = none)
    (hr : layoutWrappedLine platform fontGeneration key maxLines c = some (line, c')) :
    wrapBoundariesFor line.layout.unwrappedLayout key maxLines = some line.layout.wrapBoundaries := by
  rw [layoutWrappedLine] at hr
  rw [lookupWrapped] at h
  generalize clearIfFontGenerationChanged fontGeneration c = cleared at h hr
  obtain ⟨w, g⟩ := cleared
  dsimp only at h hr
  obtain ⟨hcurrent, h⟩ := Option.or_eq_none_iff.mp h
  obtain ⟨hprevious, h⟩ := Option.or_eq_none_iff.mp h
  have hglobal : g.getWrappedLine key = none := by
    rw [GlobalLineLayoutCache.getWrappedLine, GlobalMap.touch, Option.map_eq_none_iff.mp h]
    rfl
  rw [hcurrent, hprevious, hglobal] at hr
  obtain ⟨boundaries, hb, hr⟩ := Option.bind_eq_some_iff.mp hr
  obtain ⟨rfl, -⟩ := Prod.mk.inj (Option.some.inj hr)
  exact hb

/-- **Where a wrapped layout comes from.**  It was found under its key, or it
was made with the clamp asked for; it satisfies `Q` given that one made from a
line with `P` does. -/
theorem layoutWrappedLine_leaves {key : CacheKey U I} {maxLines : Option Nat} {c' : Caches U I}
    (h : c.1.cachedFontGeneration = fontGeneration → CachesAll P Q c)
    (hline : P (lineKey key.text key.fontSize key.runs none none)
    ⟨shapeLine platform fontGeneration (lineKey key.text key.fontSize key.runs none none), fontGeneration⟩)
    (hwrap : ∀ (unwrapped : ShapedLayout U I) (boundaries : List WrapBoundary),
    P (lineKey key.text key.fontSize key.runs none none) unwrapped →
    wrapBoundariesFor unwrapped.layout key maxLines = some boundaries →
    Q key ⟨⟨unwrapped.layout, boundaries, key.wrapWidth⟩, unwrapped.generation, maxLines⟩)
    (hr : layoutWrappedLine platform fontGeneration key maxLines c = some (line, c')) :
    (lookupWrapped (clearIfFontGenerationChanged fontGeneration c) key = some line ∨
        line.maxLines = maxLines) ∧
      Q key line ∧ Leaves P Q fontGeneration c' := by
  have hl := leaves_clear h
  rw [layoutWrappedLine] at hr
  rw [lookupWrapped]
  generalize clearIfFontGenerationChanged fontGeneration c = cleared at hl hr ⊢
  obtain ⟨w, g⟩ := cleared
  obtain ⟨hgen, ⟨hprev, hcurr⟩, hglobal⟩ := hl
  dsimp only at hr ⊢
  split at hr
  · rename_i e hfound
    obtain ⟨rfl, rfl⟩ := Prod.mk.inj (Option.some.inj hr)
    exact ⟨Or.inl (by rw [hfound]; rfl), hcurr.2 key _ hfound, hgen, ⟨hprev, hcurr⟩, hglobal⟩
  · rename_i hnone
    split at hr
    · rename_i e hfound
      obtain ⟨rfl, rfl⟩ := Prod.mk.inj (Option.some.inj hr)
      have he := hprev.2 key _ hfound
      exact ⟨Or.inl (by rw [hnone, hfound]; rfl), he, hgen,
        ⟨⟨hprev.1, hprev.2.erase key⟩, hcurr.useWrapped he⟩, hglobal⟩
    · rename_i hnone'
      split at hr
      · rename_i e g' hfound
        obtain ⟨rfl, rfl⟩ := Prod.mk.inj (Option.some.inj hr)
        obtain ⟨he, hg'⟩ := hglobal.getWrappedLine hfound
        have hlookup : (g.wrappedLines.lookup key).map Prod.fst = some e := by
          obtain ⟨⟨v, m⟩, ht, hm⟩ := Option.map_eq_some_iff.mp hfound
          obtain ⟨rfl, -⟩ := Prod.mk.inj hm
          obtain ⟨p, hp, hpm⟩ := Option.map_eq_some_iff.mp ht
          obtain ⟨rfl, -⟩ := Prod.mk.inj hpm
          rw [hp]
          rfl
        exact ⟨Or.inl (by rw [hnone, hnone', hlookup]; rfl), he, hgen,
          ⟨hprev, hcurr.useWrapped he⟩, hg'⟩
      · obtain ⟨hun, hun'⟩ := layoutLineWithSpacing_leaves (Q := Q) platform
          (c := (w, g)) (fun _ => ⟨⟨hprev, hcurr⟩, hglobal⟩) hline
        obtain ⟨boundaries, hb, hr⟩ := Option.bind_eq_some_iff.mp hr
        obtain ⟨rfl, rfl⟩ := Prod.mk.inj (Option.some.inj hr)
        have hq := hwrap _ boundaries hun hb
        exact ⟨Or.inr rfl, hq, hun'.1, ⟨hun'.2.1.1, hun'.2.1.2.useWrapped hq⟩,
          hun'.2.2.insertWrappedLine hq⟩

end Calls

end Contents

end FcGpui
