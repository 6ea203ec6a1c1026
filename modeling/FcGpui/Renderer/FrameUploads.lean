import FcGpui.Renderer.InstanceBuffer

/-!
# A frame that was sized is uploaded

`Sized` is what every draw, trim and resize keeps: the capacity lies between the
initial and the maximum size and is the size of the buffer.  `Within` compares a
frame that is being recorded with the dry run at the same point: what was
uploaded is packed, and ends no later than what was reserved.  One upload keeps
it (`writeInstanceBinding_spec`), so one batch does (`drawBatch_spec`), so the
whole frame does.

**Main result.**  `frame_uploads`: in every state reached by drawing, trimming
and resizing, a scene is refused exactly if it needs more than the maximum, and
otherwise it is uploaded in full, into disjoint and aligned ranges of the buffer.
-/

namespace FcGpui

namespace GpuResourceBudget

theorem le_nextPowerOfTwo (n : Nat) : n ≤ nextPowerOfTwo n := Nat.le_pow_clog (by decide) n

/-- The buffer grows exactly if the maximum allows it. -/
theorem nextInstanceBufferCapacity_spec {current required maxCapacity : Nat}
    (h : required ≤ maxCapacity) (hc : current < required) :
    ∃ capacity, nextInstanceBufferCapacity current required maxCapacity = some capacity ∧
      required ≤ capacity ∧ capacity ≤ maxCapacity := by
  have hpow := le_nextPowerOfTwo required
  rw [nextInstanceBufferCapacity, if_neg (by omega), if_neg (by omega)]
  refine ⟨_, if_pos ?_, ?_, min_le_right _ _⟩
  · exact le_min (hpow.trans (le_max_right _ _)) h
  · exact le_min (hpow.trans (le_max_right _ _)) h

theorem nextInstanceBufferCapacity_of_lt {current required maxCapacity : Nat}
    (h : maxCapacity < required) :
    nextInstanceBufferCapacity current required maxCapacity = none := by
  rw [nextInstanceBufferCapacity, if_pos h]

end GpuResourceBudget

namespace WgpuRenderer

variable {U ρ : Type} [AddCommGroup U] [LinearOrder U]

/-! ### The capacity -/

theorem capacityLimits_le (budget : GpuResourceBudget) (limits : DeviceLimits) :
    (capacityLimits budget limits).1 ≤ (capacityLimits budget limits).2 := min_le_right _ _

/-- `trim` computes the limits again from the maximum, and gets the same initial
size. -/
theorem normalize_capacityLimits (budget : GpuResourceBudget) (limits : DeviceLimits) :
    (GpuResourceBudget.normalizeInstanceBufferLimits budget.instanceBufferInitialSize
        budget.instanceBufferMaxSize (capacityLimits budget limits).2).1
      = (capacityLimits budget limits).1 := by
  simp only [capacityLimits, GpuResourceBudget.normalizeInstanceBufferLimits,
    GpuResourceBudget.normalizeInstanceBufferCapacity, minInstanceBufferCapacity]
  omega

/-- What every action keeps. -/
structure Sized (budget : GpuResourceBudget) (limits : DeviceLimits) (r : WgpuRenderer) :
    Prop where
  budget_eq : r.gpuResourceBudget = budget
  max_eq : r.maxBufferSize = (capacityLimits budget limits).2
  alignment_eq : r.storageBufferAlignment = limits.minStorageBufferOffsetAlignment
  buffer : ∃ resources, r.resources = some resources ∧
    resources.instanceBuffer = r.instanceBufferCapacity
  initial_le : (capacityLimits budget limits).1 ≤ r.instanceBufferCapacity
  le_max : r.instanceBufferCapacity ≤ r.maxBufferSize

variable {budget : GpuResourceBudget} {limits : DeviceLimits} {r : WgpuRenderer}

theorem sized_new (budget : GpuResourceBudget) (limits : DeviceLimits) :
    (new budget limits).Sized budget limits :=
  ⟨rfl, rfl, rfl, ⟨_, rfl, rfl⟩, le_rfl, capacityLimits_le budget limits⟩

theorem Sized.trim (h : r.Sized budget limits) : r.trim.Sized budget limits := by
  obtain ⟨resources, hres, hbuf⟩ := h.buffer
  rw [WgpuRenderer.trim, hres]
  simp only [h.budget_eq, h.max_eq, normalize_capacityLimits]
  split
  · exact h
  · exact ⟨rfl, rfl, h.alignment_eq, ⟨_, rfl, rfl⟩, le_rfl, capacityLimits_le budget limits⟩

/-- Nothing but the intermediate textures changes. -/
theorem Sized.setView (h : r.Sized budget limits) (view : Bool) :
    Sized budget limits { r with resources := r.resources.map fun resources =>
      { resources with pathIntermediateView := view } } := by
  obtain ⟨resources, hres, hbuf⟩ := h.buffer
  refine ⟨h.budget_eq, h.max_eq, h.alignment_eq, ?_, h.initial_le, h.le_max⟩
  exact ⟨{ resources with pathIntermediateView := view }, by rw [hres]; rfl, hbuf⟩

theorem ensureInstanceCapacity_of_lt {required : Nat} (h : r.Sized budget limits)
    (hmax : r.maxBufferSize < required) :
    r.ensureInstanceCapacity required = .error (.sceneTooLarge required r.maxBufferSize) := by
  have := h.le_max
  rw [ensureInstanceCapacity, if_neg (by omega), growInstanceBuffer,
    GpuResourceBudget.nextInstanceBufferCapacity_of_lt hmax]

theorem ensureInstanceCapacity_of_le {required : Nat} (h : r.Sized budget limits)
    (hmax : required ≤ r.maxBufferSize) :
    ∃ r', r.ensureInstanceCapacity required = .ok r' ∧ r'.Sized budget limits ∧
      required ≤ r'.instanceBufferCapacity := by
  by_cases hfit : required ≤ r.instanceBufferCapacity
  · exact ⟨r, if_pos hfit, h, hfit⟩
  · obtain ⟨capacity, hcap, hreq, hle⟩ :=
      GpuResourceBudget.nextInstanceBufferCapacity_spec hmax (Nat.lt_of_not_le hfit)
    obtain ⟨resources, hres, -⟩ := h.buffer
    rw [ensureInstanceCapacity, if_neg hfit, growInstanceBuffer, hcap]
    refine ⟨_, rfl, ⟨h.budget_eq, h.max_eq, h.alignment_eq, ?_, ?_, hle⟩, hreq⟩
    · exact ⟨{ resources with instanceBuffer := capacity }, by rw [hres]; rfl, rfl⟩
    · have := h.initial_le
      show (capacityLimits budget limits).1 ≤ capacity
      omega

/-! ### The dry run -/

theorem alignment_pos (r : WgpuRenderer) : 0 < r.alignment := lt_max_of_lt_right Nat.one_pos

theorem le_reserveInstanceLen (r : WgpuRenderer) (offset dataLen : Nat) :
    offset ≤ r.reserveInstanceLen offset dataLen := le_reserve _ _ _ _

omit [AddCommGroup U] [LinearOrder U] in
theorem le_reserveBatch (r : WgpuRenderer) (layout : InstanceLayout ρ) (offset : Nat)
    (batch : PrimitiveBatch U ρ) : offset ≤ r.reserveBatch layout offset batch := by
  rw [reserveBatch]
  split
  · split
    · exact le_rfl
    · exact (r.le_reserveInstanceLen _ _).trans (r.le_reserveInstanceLen _ _)
  · exact le_rfl

omit [AddCommGroup U] [LinearOrder U] in
theorem le_foldl_reserveBatch (r : WgpuRenderer) (layout : InstanceLayout ρ)
    (batches : List (PrimitiveBatch U ρ)) :
    ∀ offset, offset ≤ batches.foldl (r.reserveBatch layout) offset := by
  induction batches with
  | nil => exact fun offset => le_rfl
  | cons batch batches ih => exact fun offset => (r.le_reserveBatch layout offset batch).trans (ih _)

omit [AddCommGroup U] [LinearOrder U] in
theorem vertexLen_eq (layout : InstanceLayout ρ) (paths : List (Primitive U ρ)) :
    vertexLen layout paths
      = (paths.map fun path => layout.vertices path.rest).sum * layout.sizeOfPathVertex :=
  List.sum_map_mul_right paths (fun path => layout.vertices path.rest) layout.sizeOfPathVertex

/-! ### The uploads -/

/-- A frame that is being recorded, at the point where the dry run stood at
`offset`: what was uploaded is packed, and ends no later. -/
structure Within (r : WgpuRenderer) (offset : Nat) (rec : RecordedFrame) : Prop where
  packed : Packed r.alignment rec.instanceOffset rec.spans
  le : rec.instanceOffset ≤ offset

theorem within_start (r : WgpuRenderer) : r.Within 0 ⟨0, []⟩ := ⟨Packed.nil _, le_rfl⟩

variable {offset : Nat} {rec : RecordedFrame} {layout : InstanceLayout ρ}

/-- The dry run may reserve what is never uploaded. -/
theorem Within.mono {offset' : Nat} (h : r.Within offset rec)
    (hle : offset ≤ offset') : r.Within offset' rec := ⟨h.packed, h.le.trans hle⟩

/-- **One upload.**  It fits where the reservation fits. -/
theorem writeInstanceBinding_spec (h : r.Within offset rec) (label : String) (dataLen : Nat)
    (hcap : r.reserveInstanceLen offset dataLen ≤ r.instanceBufferCapacity) :
    ∃ rec', r.writeInstanceBinding label dataLen rec = .ok rec' ∧
      r.Within (r.reserveInstanceLen offset dataLen) rec' := by
  have hmono : r.reserveInstanceLen rec.instanceOffset dataLen
      ≤ r.reserveInstanceLen offset dataLen := reserve_mono r.alignment_pos h.le dataLen
  refine ⟨_, if_pos (hmono.trans hcap), ?_, hmono⟩
  rw [RecordedFrame.spans, List.map_append]
  exact h.packed.push r.alignment_pos dataLen

omit [AddCommGroup U] [LinearOrder U] in
theorem writeInstances_spec {scene : Scene U ρ}
    (hcap : r.reserveArrays layout scene ≤ r.instanceBufferCapacity) :
    ∃ rec, r.writeInstances layout scene ⟨0, []⟩ = .ok rec ∧
      r.Within (r.reserveArrays layout scene) rec := by
  simp only [reserveArrays, List.foldl_cons, List.foldl_nil] at hcap ⊢
  have h4 := (r.le_reserveInstanceLen _ _).trans hcap
  have h3 := (r.le_reserveInstanceLen _ _).trans h4
  have h2 := (r.le_reserveInstanceLen _ _).trans h3
  have h1 := (r.le_reserveInstanceLen _ _).trans h2
  obtain ⟨rec₁, hw1, hin1⟩ := writeInstanceBinding_spec r.within_start "quads_bind_group" _ h1
  obtain ⟨rec₂, hw2, hin2⟩ := writeInstanceBinding_spec hin1 "shadows_bind_group" _ h2
  obtain ⟨rec₃, hw3, hin3⟩ := writeInstanceBinding_spec hin2 "underlines_bind_group" _ h3
  obtain ⟨rec₄, hw4, hin4⟩ := writeInstanceBinding_spec hin3 "monochrome_sprites_bind_group" _ h4
  obtain ⟨rec₅, hw5, hin5⟩ := writeInstanceBinding_spec hin4 "polychrome_sprites_bind_group" _ hcap
  refine ⟨rec₅, ?_, hin5⟩
  rw [writeInstances, hw1]
  show (r.writeInstanceBinding _ _ rec₁).bind _ = _
  rw [hw2]
  show (r.writeInstanceBinding _ _ rec₂).bind _ = _
  rw [hw3]
  show (r.writeInstanceBinding _ _ rec₃).bind _ = _
  rw [hw4]
  exact hw5

/-- **One batch.**  A batch of paths uploads its vertices, and then its sprites
where there is a texture to copy them from. -/
theorem drawBatch_spec (h : r.Within offset rec) (resources : WgpuResources) (batch : PrimitiveBatch U ρ)
    (hcap : r.reserveBatch layout offset batch ≤ r.instanceBufferCapacity) :
    ∃ rec', r.drawBatch resources layout batch rec = some (.ok rec') ∧
      r.Within (r.reserveBatch layout offset batch) rec' := by
  cases hk : batch.kind with
  | path =>
    rw [drawBatch, hk]
    rw [reserveBatch, hk] at hcap ⊢
    simp only [vertexLen_eq, Nat.mul_eq_zero] at hcap ⊢
    have hpos := layout.sizeOfPathVertex_pos
    by_cases hne : batch.primitives = []
    · refine ⟨rec, ?_, h.mono ?_⟩
      · rw [hne]
        rfl
      · rw [hne]
        exact le_rfl
    · have hempty : batch.primitives.isEmpty = false := by simpa using hne
      by_cases hv : (batch.primitives.map fun path => layout.vertices path.rest).sum = 0
      · refine ⟨rec, ?_, h.mono ?_⟩
        · simp only [hempty, drawPathsToIntermediate, if_pos hv, Bool.false_eq_true, if_false]
        · rw [if_pos (Or.inl hv)]
      · have hsome : ¬ ((batch.primitives.map fun path => layout.vertices path.rest).sum = 0 ∨
            layout.sizeOfPathVertex = 0) := by omega
        rw [if_neg hsome] at hcap ⊢
        simp only [hempty, drawPathsToIntermediate, if_neg hv, Bool.false_eq_true, if_false]
        obtain ⟨rec₁, hw1, hin1⟩ := writeInstanceBinding_spec h "path_rasterization_bind_group" _
          ((r.le_reserveInstanceLen _ _).trans hcap)
        rw [hw1]
        cases hview : resources.pathIntermediateView with
        | false => exact ⟨rec₁, rfl, hin1.mono (r.le_reserveInstanceLen _ _)⟩
        | true =>
          obtain ⟨sprites, hs, hlen⟩ := pathSprites_length hne
          rw [← hlen] at hcap ⊢
          obtain ⟨rec₂, hw2, hin2⟩ :=
            writeInstanceBinding_spec hin1 "path_sprites_bind_group" _ hcap
          refine ⟨rec₂, ?_, hin2⟩
          show r.drawPathsFromIntermediate resources layout batch.primitives rec₁ = _
          rw [drawPathsFromIntermediate, hs, Option.map_some, if_pos hview, hw2]
  | _ =>
    refine ⟨rec, ?_, h.mono (r.le_reserveBatch layout offset batch)⟩
    rw [drawBatch, hk]

/-- **All batches.** -/
theorem drawBatches_spec (resources : WgpuResources) (batches : List (PrimitiveBatch U ρ)) :
    ∀ {offset : Nat} {rec : RecordedFrame}, r.Within offset rec →
      batches.foldl (r.reserveBatch layout) offset ≤ r.instanceBufferCapacity →
      ∃ rec', r.drawBatches resources layout batches rec = some (.ok rec') ∧
        r.Within (batches.foldl (r.reserveBatch layout) offset) rec' := by
  induction batches with
  | nil => exact fun h _ => ⟨_, rfl, h⟩
  | cons batch batches ih =>
    intro offset rec h hcap
    have hhead : r.reserveBatch layout offset batch ≤ r.instanceBufferCapacity :=
      (r.le_foldl_reserveBatch layout batches _).trans hcap
    obtain ⟨rec₁, hd, hin⟩ := drawBatch_spec h resources batch hhead
    obtain ⟨rec₂, hds, hin2⟩ := ih hin hcap
    refine ⟨rec₂, ?_, hin2⟩
    rw [drawBatches, hd]
    exact hds

/-! ### Whole runs -/

/-- **A renderer that is sized records every scene that fits.**  `required` is
what the dry run finds. -/
theorem Sized.recordFrame (h : r.Sized budget limits) (layout : InstanceLayout ρ)
    (scene : Scene U ρ) :
    ∃ required, r.frameInstanceBytes layout scene = some required ∧
      (r.maxBufferSize < required → r.recordFrame layout scene
        = some (r, .error (.sceneTooLarge required r.maxBufferSize))) ∧
      (required ≤ r.maxBufferSize → ∃ r' rec, r.ensureInstanceCapacity required = .ok r' ∧
        r'.Sized budget limits ∧ required ≤ r'.instanceBufferCapacity ∧
        r.recordFrame layout scene = some (r', .ok rec) ∧ r'.Within required rec) := by
  obtain ⟨batches, hbatches, -⟩ := scene.batches_runs
  have hbytes : r.frameInstanceBytes layout scene
      = some (batches.foldl (r.reserveBatch layout) (r.reserveArrays layout scene)) := by
    rw [frameInstanceBytes, hbatches, Option.map_some]
  refine ⟨_, hbytes, fun hlt => ?_, fun hle => ?_⟩
  · rw [WgpuRenderer.recordFrame, hbytes]
    simp only [Option.bind_eq_bind, Option.bind_some, ensureInstanceCapacity_of_lt h hlt]
  · obtain ⟨r', hensure, hsized, hcap⟩ := ensureInstanceCapacity_of_le h hle
    obtain ⟨resources, hres, -⟩ := hsized.buffer
    -- growing the buffer leaves the alignment, so the dry run stands for `r'` too
    have halign : r'.storageBufferAlignment = r.storageBufferAlignment := by
      rw [hsized.alignment_eq, h.alignment_eq]
    have hlen : r.reserveInstanceLen = r'.reserveInstanceLen := by
      funext offset dataLen
      rw [reserveInstanceLen, reserveInstanceLen, halign]
    have harrays : r.reserveArrays layout scene = r'.reserveArrays layout scene := by
      rw [reserveArrays, reserveArrays, hlen]
    have hbatch : r.reserveBatch (U := U) layout = r'.reserveBatch layout := by
      funext offset batch
      rw [reserveBatch, reserveBatch, hlen]
    rw [harrays, hbatch] at hbytes hensure hcap ⊢
    obtain ⟨rec, hw, hin⟩ := writeInstances_spec
      ((r'.le_foldl_reserveBatch layout batches _).trans hcap)
    obtain ⟨rec', hd, hin'⟩ := drawBatches_spec resources batches hin hcap
    refine ⟨r', rec', hensure, hsized, hcap, ?_, hin'⟩
    rw [WgpuRenderer.recordFrame, hbytes]
    simp only [Option.bind_eq_bind, Option.bind_some, hensure, hres, hw, hbatches, hd]

/-- Every action can be made, and keeps the sizes. -/
theorem Sized.step (h : r.Sized budget limits) (layout : InstanceLayout ρ)
    (action : Action U ρ) :
    ∃ r', WgpuRenderer.step layout r action = some r' ∧ r'.Sized budget limits := by
  cases action with
  | draw scene =>
    have hview : r.ensureIntermediateTextures.Sized budget limits := h.setView true
    obtain ⟨required, -, hlarge, hfits⟩ := hview.recordFrame layout scene
    rw [WgpuRenderer.step]
    rcases Nat.lt_or_ge r.ensureIntermediateTextures.maxBufferSize required with hlt | hle
    · rw [hlarge hlt]
      exact ⟨_, rfl, hview⟩
    · obtain ⟨r', rec, -, hsized, -, hrec, -⟩ := hfits hle
      rw [hrec]
      exact ⟨r', rfl, hsized⟩
  | trim => exact ⟨_, rfl, h.trim⟩
  | resize => exact ⟨_, rfl, h.setView false⟩

theorem Sized.run (layout : InstanceLayout ρ) (actions : List (Action U ρ)) :
    ∀ {r : WgpuRenderer}, r.Sized budget limits →
      ∃ r', FcGpui.run (WgpuRenderer.step layout) r actions = some r' ∧ r'.Sized budget limits := by
  induction actions with
  | nil => exact fun h => ⟨_, rfl, h⟩
  | cons action actions ih =>
    intro r h
    obtain ⟨mid, hstep, hmid⟩ := h.step layout action
    obtain ⟨r', hrun, hr'⟩ := ih hmid
    refine ⟨r', ?_, hr'⟩
    rw [FcGpui.run, hstep]
    exact hrun

/-- **A frame that was sized always uploads.**  Whatever was drawn, trimmed and
resized before, the capacity lies between the initial and the maximum size, a
scene is refused exactly if it needs more than the maximum, and a scene for
which there is room is recorded without a failing upload, into disjoint and
aligned ranges of the buffer that end within what was reserved. -/
theorem frame_uploads (layout : InstanceLayout ρ) (budget : GpuResourceBudget)
    (limits : DeviceLimits) (actions : List (Action U ρ)) :
    ∃ r, run (step layout) (new budget limits) actions = some r ∧
      (capacityLimits budget limits).1 ≤ r.instanceBufferCapacity ∧
      r.instanceBufferCapacity ≤ (capacityLimits budget limits).2 ∧
      ∀ scene : Scene U ρ, ∃ required, r.frameInstanceBytes layout scene = some required ∧
        ((∃ e, r.ensureInstanceCapacity required = .error e) ↔
          (capacityLimits budget limits).2 < required) ∧
        ∀ r', r.ensureInstanceCapacity required = .ok r' →
          ∃ rec resources, r.recordFrame layout scene = some (r', .ok rec) ∧
            r'.resources = some resources ∧
            rec.spans.Pairwise Span.Disjoint ∧
            (∀ span ∈ rec.spans, max limits.minStorageBufferOffsetAlignment 1 ∣ span.start ∧
              span.stop ≤ resources.instanceBuffer) ∧
            rec.instanceOffset ≤ required := by
  obtain ⟨r, hrun, hr⟩ := (sized_new budget limits).run layout actions
  refine ⟨r, hrun, hr.initial_le, hr.max_eq ▸ hr.le_max, fun scene => ?_⟩
  obtain ⟨required, hbytes, hlarge, hfits⟩ := hr.recordFrame layout scene
  refine ⟨required, hbytes, ⟨fun ⟨e, he⟩ => ?_, fun hlt => ?_⟩, fun r' hensure => ?_⟩
  · by_contra hle
    rw [← hr.max_eq] at hle
    obtain ⟨r', -, hok, -⟩ := hfits (Nat.le_of_not_lt hle)
    rw [hok] at he
    cases he
  · exact ⟨_, ensureInstanceCapacity_of_lt hr (hr.max_eq ▸ hlt)⟩
  · have hle : required ≤ r.maxBufferSize := by
      by_contra hlt
      rw [ensureInstanceCapacity_of_lt hr (Nat.lt_of_not_le hlt)] at hensure
      cases hensure
    obtain ⟨r'', rec, hok, hsized, hcap, hrec, hin⟩ := hfits hle
    rw [hok] at hensure
    cases hensure
    obtain ⟨resources, hres, hbuf⟩ := hsized.buffer
    refine ⟨rec, resources, hrec, hres, hin.packed.disjoint, fun span hs => ⟨?_, ?_⟩, hin.le⟩
    · rw [← hsized.alignment_eq]
      exact hin.packed.aligned span hs
    · rw [hbuf]
      exact ((hin.packed.below span hs).trans hin.le).trans hcap

end WgpuRenderer

end FcGpui
