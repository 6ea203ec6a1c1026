import FcGpui.Platform.FrameWakes

/-!
# No wake is lost

The invariant of a Wayland client over whole runs, and what follows for the state between two events:
a visible window waits for a wake that is on its way, or it has nothing to do and its surface shows the
last frame it has drawn.  Callbacks for the next frame run once each and in order, and a render without
the caches that a tick was asked for is put off by throttling but not forgotten.
-/

namespace FcGpui

namespace WaylandClient

/-- What holds of a window; `updating` tells whether code of the application has run since the effects
were flushed, and `lost` whether a retry timer may have been lost. -/
structure Kept (lost : Prop) (c : WaylandClient) (updating : Bool) (id : WindowId) (w : WaylandWindow) : Prop where
  sound : w.Sound (c.ping = true ∨ id ∈ c.visiting) (lost ∨ id ∈ c.timers) (c.control = .configuring id)
  settled : w.isOpen = true → c.control.ticking ≠ some id → w.Settled updating
  inTick : w.isOpen = true → c.control.ticking = some id → w.InTick updating
  fresh : w.Fresh
  drawn : w.drawn = 0 → id ∈ c.drawing
  callbacks : w.isOpen = true → w.registered = w.ran ++ c.control.taken id ++ w.nextFrameCallbacks
  forced : w.isOpen = true → w.forceOwed = true → w.deferredForceRender = true ∨ c.control.forces id = true

structure Inv (lost : Prop) (c : WaylandClient) : Prop where
  kept : ∀ {id w}, c.windows id = some w → c.Kept lost c.control.updating id w
  bounded : ∀ {id w}, c.windows id = some w → id < c.nextWindowId
  drawing : c.control.updating = false → c.drawing = []
  ticking : ∀ {id}, c.control.ticking = some id → id < c.nextWindowId

theorem inv_new : ({} : WaylandClient).Inv lost where
  kept h := by simp at h
  bounded h := by simp at h
  drawing _ := rfl
  ticking h := by simp [FrameControl.ticking] at h

variable {lost : Prop} {c c' : WaylandClient} {u u' : Bool} {id id' : WindowId} {w w' : WaylandWindow}

/-- What is kept of a window that a step leaves as it is. -/
theorem Kept.carry (h : c.Kept lost u id w) (hping : c.ping = true ∨ id ∈ c.visiting → c'.ping = true ∨ id ∈ c'.visiting)
    (htimers : id ∈ c.timers → id ∈ c'.timers)
    (hconfiguring : c.control = .configuring id → c'.control = .configuring id)
    (hticking : c'.control.ticking = some id ↔ c.control.ticking = some id)
    (hu : u' = false → u = false) (hdrawing : id ∈ c.drawing → id ∈ c'.drawing)
    (htaken : c'.control.taken id = c.control.taken id) (hforces : c'.control.forces id = c.control.forces id) :
    c'.Kept lost u' id w where
  sound := h.sound.mono hping (Or.imp_right htimers) hconfiguring
  settled ho ht := by
    have hs := h.settled ho (mt hticking.mpr ht)
    cases u' with
    | true => exact hs.updating
    | false =>
      obtain rfl := hu rfl
      exact hs
  inTick ho ht := by
    have hs := h.inTick ho (hticking.mp ht)
    cases u' with
    | true => exact hs.updating
    | false =>
      obtain rfl := hu rfl
      exact hs
  fresh := h.fresh
  drawn hd := hdrawing (h.drawn hd)
  callbacks ho := by rw [htaken]; exact h.callbacks ho
  forced ho hf := by rw [hforces]; exact h.forced ho hf

/-- The control of a window that is not the one of the event. -/
structure Elsewhere (id : WindowId) (control : FrameControl) : Prop where
  ticking : control.ticking ≠ some id
  taken : control.taken id = []
  forces : control.forces id = false

theorem elsewhere_tick (h : id' ≠ id) (stage : TickStage) : Elsewhere id' (.tick id stage) := by
  have h' : ¬id = id' := fun he => h he.symm
  constructor
  · simp [FrameControl.ticking, h']
  · cases stage <;> simp [FrameControl.taken, h']
  · cases stage <;> simp [FrameControl.forces, h']

theorem elsewhere_completing (h : id' ≠ id) : Elsewhere id' (.completing id) :=
  ⟨by simpa [FrameControl.ticking] using fun he => h he.symm, rfl, rfl⟩

theorem elsewhere_of_not_ticking {control : FrameControl} (h : control.ticking = none) : Elsewhere id control := by
  cases control with
  | tick id' stage => simp [FrameControl.ticking] at h
  | completing id' => simp [FrameControl.ticking] at h
  | idle => exact ⟨by simp [FrameControl.ticking], rfl, rfl⟩
  | app => exact ⟨by simp [FrameControl.ticking], rfl, rfl⟩
  | configuring id' => exact ⟨by simp [FrameControl.ticking], rfl, rfl⟩

theorem elsewhere_of_ticking {control : FrameControl} (ht : control.ticking = some id) (h : id' ≠ id) :
    Elsewhere id' control := by
  cases control with
  | tick id'' stage =>
    obtain rfl := Option.some.inj ht
    exact elsewhere_tick h stage
  | completing id'' =>
    obtain rfl := Option.some.inj ht
    exact elsewhere_completing h
  | idle => simp [FrameControl.ticking] at ht
  | app => simp [FrameControl.ticking] at ht
  | configuring id'' => simp [FrameControl.ticking] at ht

theorem Kept.other (h : c.Kept lost u id w) (hping : c.ping = true ∨ id ∈ c.visiting → c'.ping = true ∨ id ∈ c'.visiting)
    (htimers : id ∈ c.timers → id ∈ c'.timers) (hconfiguring : c.control ≠ .configuring id)
    (hu : u' = false → u = false) (hdrawing : id ∈ c.drawing → id ∈ c'.drawing)
    (hc : Elsewhere id c.control) (hc' : Elsewhere id c'.control) : c'.Kept lost u' id w :=
  h.carry hping htimers (fun he => absurd he hconfiguring) ⟨fun he => absurd he hc'.ticking, fun he => absurd he hc.ticking⟩
    hu hdrawing (by rw [hc.taken, hc'.taken]) (by rw [hc.forces, hc'.forces])

theorem Inv.set (hwindows : c'.windows = Function.update c.windows id (some w'))
    (hbounded : ∀ {id w}, c.windows id = some w → id < c.nextWindowId) (hid : id < c'.nextWindowId)
    (hnext : c.nextWindowId ≤ c'.nextWindowId) (hkept : c'.Kept lost c'.control.updating id w')
    (hother : ∀ {id' w}, id' ≠ id → c.windows id' = some w → c'.Kept lost c'.control.updating id' w)
    (hdrawing : c'.control.updating = false → c'.drawing = [])
    (hticking : ∀ {id}, c'.control.ticking = some id → id < c'.nextWindowId) : c'.Inv lost where
  kept {id'' w} hw := by
    rw [hwindows] at hw
    by_cases he : id'' = id
    · subst he
      rw [Function.update_self, Option.some.injEq] at hw
      subst hw
      exact hkept
    · rw [Function.update_of_ne he] at hw
      exact hother he hw
  bounded {id'' w} hw := by
    rw [hwindows] at hw
    by_cases he : id'' = id
    · exact he ▸ hid
    · rw [Function.update_of_ne he] at hw
      exact lt_of_lt_of_le (hbounded hw) hnext
  drawing := hdrawing
  ticking := hticking

/-! ### Ticks -/

/-- What holds of the rest when the effects are flushed and a tick goes on, or begins. -/
structure Others (lost : Prop) (c : WaylandClient) (id : WindowId) : Prop where
  kept : ∀ {id' w}, id' ≠ id → c.windows id' = some w → c.Kept lost false id' w
  bounded : ∀ {id w}, c.windows id = some w → id < c.nextWindowId
  configuring : ∀ {id'}, id' ≠ id → c.control ≠ .configuring id'
  elsewhere : ∀ {id'}, id' ≠ id → Elsewhere id' c.control
  drawing : c.drawing = []

/-- What holds of the window of the tick. -/
structure Ticking (lost : Prop) (c : WaylandClient) (id : WindowId) (taken : List FrameCallback) (force : Bool)
    (w : WaylandWindow) : Prop where
  bound : id < c.nextWindowId
  sound : w.Sound (c.ping = true ∨ id ∈ c.visiting) (lost ∨ id ∈ c.timers) False
  inTick : w.isOpen = true → w.InTick true
  fresh : w.Fresh
  drawn : w.drawn ≠ 0
  callbacks : w.isOpen = true → w.registered = w.ran ++ taken ++ w.nextFrameCallbacks
  forced : w.isOpen = true → w.forceOwed = true → w.deferredForceRender = true ∨ force = true

variable {force : Bool}

theorem Ticking.inv {taken : List FrameCallback} (stage : TickStage)
    (h : c'.Ticking lost id taken force w') (ho : c.Others lost id)
    (hwindows : c'.windows = Function.update c.windows id (some w')) (hping : c.ping = true → c'.ping = true)
    (hvisiting : c'.visiting = c.visiting) (htimers : c'.timers = c.timers)
    (hnext : c'.nextWindowId = c.nextWindowId) (htaken : FrameControl.taken id (.tick id stage) = taken)
    (hforces : force = true → FrameControl.forces id (.tick id stage) = true) :
    ({ c' with control := .tick id stage } : WaylandClient).Inv lost := by
  refine Inv.set hwindows ho.bounded h.bound (le_of_eq hnext.symm) ?_ ?_ (by simp [FrameControl.updating])
    fun he => Option.some.inj he ▸ h.bound
  · refine ⟨h.sound.mono (fun hp => hp) (fun ht => ht) False.elim, fun _ hn => absurd rfl hn, fun hopen _ => h.inTick hopen,
      h.fresh, fun hz => absurd hz h.drawn, ?_, fun hopen hf => (h.forced hopen hf).imp_right hforces⟩
    simp only [htaken]
    exact h.callbacks
  · intro id' w hne hw
    refine (ho.kept hne hw).other ?_ ?_ (ho.configuring hne) (by simp [FrameControl.updating]) ?_ (ho.elsewhere hne)
      (elsewhere_tick hne stage)
    · simp only [hvisiting]
      exact Or.imp_left hping
    · simp only [htimers]
      exact fun h => h
    · rw [ho.drawing]
      exact fun h => absurd h List.not_mem_nil

theorem Ticking.setWindow {taken : List FrameCallback} (h : c.Ticking lost id taken force w)
    (w'' : WaylandWindow) : (c.setWindow id w'').Ticking lost id taken force w :=
  ⟨h.bound, h.sound, h.inTick, h.fresh, h.drawn, h.callbacks, h.forced⟩

theorem Ticking.scheduleFrame {taken : List FrameCallback} (h : c.Ticking lost id taken force w) :
    (c.scheduleFrame id w).Ticking lost id taken force w.scheduleFrame := by
  have hs := h.sound.scheduleFrame
  refine ⟨h.bound, hs.mono ?_ (fun ht => ht) (fun hf => hf), fun hopen => ?_, h.fresh.scheduleFrame, ?_, ?_, ?_⟩
  · rintro ((hp | hv) | hp)
    · exact Or.inl (by simp [WaylandClient.scheduleFrame, hp])
    · exact Or.inr hv
    · exact Or.inl (by simp [WaylandClient.scheduleFrame, hp])
  · rw [WaylandWindow.scheduleFrame_eq] at hopen
    exact (h.inTick hopen).scheduleFrame h.sound.hidden
  · rw [WaylandWindow.scheduleFrame_eq]
    exact h.drawn
  · rw [WaylandWindow.scheduleFrame_eq]
    exact h.callbacks
  · rw [WaylandWindow.scheduleFrame_eq]
    exact h.forced

theorem Ticking.scheduled (h : c.Ticking lost id [] false w) (ho : c.Others lost id) {stage : TickStage} (schedules : Bool)
    (htaken : FrameControl.taken id (.tick id stage) = []) :
    ({ (if schedules then c.scheduleFrame id w else c.setWindow id w) with
        control := .tick id stage } : WaylandClient).Inv lost := by
  cases schedules with
  | true =>
    refine h.scheduleFrame.inv stage ho rfl (fun hp => ?_) rfl rfl rfl htaken (by simp)
    simp [WaylandClient.scheduleFrame, hp]
  | false => exact (h.setWindow w).inv stage ho rfl (fun hp => hp) rfl rfl rfl htaken (by simp)

theorem Ticking.reschedule (h : c.Ticking lost id [] false w) (ho : c.Others lost id) : (c.reschedule id w).Inv lost :=
  h.scheduled ho _ rfl

theorem Ticking.render {require highRate : Bool} (h : c.Ticking lost id [] force w) (ho : c.Others lost id) :
    (c.render id w force require highRate).Inv lost := by
  unfold WaylandClient.render
  cases force with
  | true =>
    simp only [Bool.or_true, if_true]
    split
    · have hw : ({ c.setWindow id ({ w with refreshing := true, dirty := true } : WaylandWindow).beginDraw with
          drawing := [id] } : WaylandClient).Ticking lost id [] false
            ({ w with refreshing := true, dirty := true } : WaylandWindow).beginDraw :=
        ⟨h.bound, { h.sound with }, fun ho => { h.inTick ho with quiet := by simp }, h.fresh, h.drawn, h.callbacks,
          fun _ hf => by simp [WaylandWindow.beginDraw] at hf⟩
      exact hw.inv .presenting ho rfl (fun hp => hp) rfl rfl rfl rfl (by simp)
    · have hw : (c.setWindow id w).Ticking lost id [] false w := ⟨h.bound, h.sound, h.inTick, h.fresh, h.drawn, h.callbacks, by simp_all⟩
      exact hw.inv .presented ho rfl (fun hp => hp) rfl rfl rfl rfl (by simp)
  | false =>
    split
    · split
      · have hw : ({ c.setWindow id w.beginDraw with drawing := [id] } : WaylandClient).Ticking lost id [] false w.beginDraw :=
          ⟨h.bound, { h.sound with }, fun ho => { h.inTick ho with quiet := by simp }, h.fresh, h.drawn, h.callbacks, by
            intro hopen hf
            refine h.forced hopen ?_
            simp [WaylandWindow.beginDraw] at hf
            exact hf.1⟩
        exact hw.inv .presenting ho rfl (fun hp => hp) rfl rfl rfl rfl (by simp)
      · exact (h.setWindow w).inv .presented ho rfl (fun hp => hp) rfl rfl rfl rfl (by simp)
    · split
      · split
        · exact (h.setWindow w).inv .presenting ho rfl (fun hp => hp) rfl rfl rfl rfl (by simp)
        · exact (h.setWindow w).inv .presented ho rfl (fun hp => hp) rfl rfl rfl rfl (by simp)
      · exact h.reschedule ho

theorem Ticking.deferred (h : c.Ticking lost id [] force w) (hopen : w.isOpen = true)
    {w' : WaylandWindow} (hw' : w' = { w with deferredForceRender := w.deferredForceRender || force }) :
    (c.scheduleFrame id w').Ticking lost id [] false w'.scheduleFrame := by
  subst hw'
  have hs := WaylandWindow.Sound.scheduleFrame
    (w := { w with deferredForceRender := w.deferredForceRender || force }) { h.sound with }
  refine ⟨h.bound, hs.mono ?_ (fun ht => ht) (fun hf => hf), fun _ => (h.inTick hopen).scheduleFrame_deferred h.sound.hidden _,
    WaylandWindow.Fresh.scheduleFrame h.fresh, ?_, ?_, ?_⟩
  · rintro ((hp | hv) | hp)
    · exact Or.inl (by simp [WaylandClient.scheduleFrame, hp])
    · exact Or.inr hv
    · exact Or.inl (by simp [WaylandClient.scheduleFrame, hp])
  · rw [WaylandWindow.scheduleFrame_eq]
    exact h.drawn
  · rw [WaylandWindow.scheduleFrame_eq]
    exact h.callbacks
  · rw [WaylandWindow.scheduleFrame_eq]
    intro _ hf
    have := h.forced hopen hf
    simpa using this

theorem Ticking.throttle {require : Bool} {thermalState : Option ThermalState} (h : c.Ticking lost id [] force w)
    (ho : c.Others lost id) : (c.throttle id w force require thermalState).Inv lost := by
  unfold WaylandClient.throttle
  split
  · simp only
    split
    · rename_i hopen
      refine (h.deferred hopen rfl).inv .deferred ho rfl (fun hp => ?_) rfl rfl rfl rfl (by simp)
      simp [WaylandClient.scheduleFrame, hp]
    · rename_i hopen
      have hw : (c.setWindow id { w with deferredForceRender := w.deferredForceRender || force }).Ticking lost id [] false
          { w with deferredForceRender := w.deferredForceRender || force } :=
        ⟨h.bound, { h.sound with }, fun ho => absurd ho hopen, h.fresh, h.drawn, h.callbacks, fun ho => absurd ho hopen⟩
      exact hw.inv .deferred ho rfl (fun hp => hp) rfl rfl rfl rfl (by simp)
  · simp only
    split
    · rename_i hempty
      have hnil := List.isEmpty_iff.mp hempty
      refine Ticking.render ⟨h.bound, { h.sound with }, fun ho => { h.inTick ho with quiet := by simp }, h.fresh, h.drawn, ?_,
        h.forced⟩ ho
      intro hopen
      have := h.callbacks hopen
      rw [hnil] at this
      exact this
    · have hw : (c.setWindow id { w with lastFrameTime := some c.now, nextFrameCallbacks := [] }).Ticking lost id
          (if w.isOpen = true then w.nextFrameCallbacks else []) force
          { w with lastFrameTime := some c.now, nextFrameCallbacks := [] } := by
        refine ⟨h.bound, { h.sound with }, fun ho => { h.inTick ho with quiet := by simp }, h.fresh, h.drawn, ?_, h.forced⟩
        intro hopen
        have := h.callbacks hopen
        rw [List.append_nil] at this
        rw [if_pos (show w.isOpen = true from hopen), List.append_nil]
        exact this
      refine hw.inv _ ho rfl (fun hp => hp) rfl rfl rfl ?_ ?_
      · simp [FrameControl.taken]
      · simp [FrameControl.forces]

/-- What holds of the window of an event once the event loop waits again. -/
structure Resting (lost : Prop) (c : WaylandClient) (id : WindowId) (w : WaylandWindow) : Prop where
  bound : id < c.nextWindowId
  sound : w.Sound (c.ping = true ∨ id ∈ c.visiting) (lost ∨ id ∈ c.timers) False
  settled : w.isOpen = true → w.Settled false
  fresh : w.Fresh
  drawn : w.drawn ≠ 0
  callbacks : w.isOpen = true → w.registered = w.ran ++ w.nextFrameCallbacks
  forced : w.isOpen = true → w.forceOwed = true → w.deferredForceRender = true

theorem Resting.inv (h : c'.Resting lost id w') (ho : c.Others lost id)
    (hwindows : c'.windows = Function.update c.windows id (some w')) (hping : c.ping = true → c'.ping = true)
    (hvisiting : c'.visiting = c.visiting) (htimers : ∀ {id}, id ∈ c.timers → id ∈ c'.timers)
    (hnext : c'.nextWindowId = c.nextWindowId) (hdrawing : c'.drawing = c.drawing) :
    ({ c' with control := .idle } : WaylandClient).Inv lost := by
  refine Inv.set hwindows ho.bounded h.bound (le_of_eq hnext.symm) ?_ ?_ (fun _ => hdrawing.trans ho.drawing)
    fun he => by simp [FrameControl.ticking] at he
  · exact ⟨h.sound.mono (fun hp => hp) (fun ht => ht) False.elim, fun hopen _ => h.settled hopen,
      fun _ hn => by simp [FrameControl.ticking] at hn, h.fresh, fun hz => absurd hz h.drawn,
      fun hopen => by simpa [FrameControl.taken] using h.callbacks hopen, fun hopen hf => Or.inl (h.forced hopen hf)⟩
  · intro id' w hne hw
    refine (ho.kept hne hw).other ?_ htimers (ho.configuring hne) (fun _ => rfl) ?_ (ho.elsewhere hne)
      (elsewhere_of_not_ticking rfl)
    · simp only [hvisiting]
      exact Or.imp_left hping
    · rw [ho.drawing]
      exact fun h => absurd h List.not_mem_nil

theorem Others.frame (ho : c.Others lost id) (hbound : id < c.nextWindowId)
    (htracked : w.requested ++ w.committed = w.pendingFrameCallback.toList)
    (howed : w.role = .layerShell false → w.configureOwed = true) (hfresh : w.Fresh)
    (hdrawn : w.drawn ≠ 0) (hcallbacks : w.isOpen = true → w.registered = w.ran ++ w.nextFrameCallbacks)
    (hforced : w.isOpen = true → w.forceOwed = true → w.deferredForceRender = true) : (c.frame id w).Inv lost := by
  unfold WaylandClient.frame
  split
  · rename_i hv
    simp only [Bool.not_eq_true'] at hv
    have hw : (c.setWindow id { w with redrawRequested := true, frameLoop := .parked }).Resting lost id
        { w with redrawRequested := true, frameLoop := .parked } := by
      refine ⟨hbound, ?_, fun _ => ?_, fun hv' => ?_, hdrawn, hcallbacks, hforced⟩
      · constructor <;> simp [htracked]
        exact howed
      · constructor <;> simp [hv]
      · simp [hv] at hv'
    exact hw.inv ho rfl (fun hp => hp) rfl (fun ht => ht) rfl rfl
  · rename_i hvis
    have hv := WaylandWindow.eq_true_of_not_hidden hvis
    unfold WaylandClient.requestFrame
    simp only [ho.drawing, ne_eq, not_true_eq_false, if_false]
    have hw : (c.setWindow id { w with
        frameLoop := .ticking, resizeThrottle := false, deferredForceRender := false
        forceOwed := w.forceOwed || (w.deferredForceRender || w.redrawRequested) }).Ticking lost id []
          (w.deferredForceRender || w.redrawRequested)
          { w with
            frameLoop := .ticking, resizeThrottle := false, deferredForceRender := false
            forceOwed := w.forceOwed || (w.deferredForceRender || w.redrawRequested) } := by
      refine ⟨hbound, ?_, fun _ => ?_, hfresh, hdrawn, ?_, ?_⟩
      · constructor <;> simp [hv, htracked]
        exact howed
      · constructor <;> simp
      · simpa using hcallbacks
      · intro hopen hf
        have := hforced hopen
        simp only [Bool.or_eq_true] at hf ⊢
        tauto
    exact hw.inv _ ho rfl (fun hp => hp) rfl rfl rfl rfl (by simp [FrameControl.forces])

/-! ### Events -/

theorem Waiting.updating (h : c.Waiting) : c.control.updating = false := by
  rw [h.1]
  rfl

theorem Inv.others (h : c.Inv lost) (hc : c.control = .idle) (id : WindowId) : c.Others lost id where
  kept _ hw := by
    have := h.kept hw
    rw [hc] at this
    exact this
  bounded := h.bounded
  configuring _ := by simp [hc]
  elsewhere _ := by
    rw [hc]
    exact elsewhere_of_not_ticking rfl
  drawing := h.drawing (by rw [hc]; rfl)

theorem Kept.drawn_ne_zero (h : c.Kept lost u id w) (hdrawing : c.drawing = []) : w.drawn ≠ 0 := fun hz => by
  have := h.drawn hz
  rw [hdrawing] at this
  exact absurd this List.not_mem_nil

theorem Inv.frame (h : c.Inv lost) (hc : c.control = .idle) (hw : c.windows id = some w) (ho : c'.Others lost id)
    (hnext : c'.nextWindowId = c.nextWindowId) {pending : Option WlCallback} {committed : List WlCallback}
    (htracked : w.requested ++ committed = pending.toList) :
    (c'.frame id { w with pendingFrameCallback := pending, committed }).Inv lost := by
  have hk := h.kept hw
  have hdrawing := (h.others hc id).drawing
  refine ho.frame (hnext ▸ h.bounded hw) htracked hk.sound.owed hk.fresh (hk.drawn_ne_zero hdrawing) ?_ ?_
  · intro hopen
    have := hk.callbacks hopen
    rw [hc] at this
    simpa [FrameControl.taken] using this
  · intro hopen hf
    have := hk.forced hopen hf
    rw [hc] at this
    simpa [FrameControl.forces] using this

/-- No window changes, and what wakes are armed is known. -/
theorem Inv.resound (h : c.Inv lost) (hwindows : c'.windows = c.windows) (hcontrol : c'.control = c.control)
    (hnext : c'.nextWindowId = c.nextWindowId) (hdrawing : c'.drawing = c.drawing)
    (hs : ∀ {id w}, c.windows id = some w →
      w.Sound (c'.ping = true ∨ id ∈ c'.visiting) (lost ∨ id ∈ c'.timers) (c'.control = .configuring id)) : c'.Inv lost where
  kept {id w} hw := by
    rw [hwindows] at hw
    have hk := h.kept hw
    refine ⟨hs hw, ?_, ?_, hk.fresh, ?_, ?_, ?_⟩
    · rw [hcontrol]
      exact hk.settled
    · rw [hcontrol]
      exact hk.inTick
    · rw [hdrawing]
      exact hk.drawn
    · rw [hcontrol]
      exact hk.callbacks
    · rw [hcontrol]
      exact hk.forced
  bounded {id w} hw := by
    rw [hwindows] at hw
    exact hnext ▸ h.bounded hw
  drawing := by
    rw [hcontrol, hdrawing]
    exact h.drawing
  ticking := by
    rw [hcontrol, hnext]
    exact h.ticking

/-! ### Flushes -/

theorem Inv.flush (h : c.Inv lost) (hw : c.flush.windows id = some w) : c.flush.Kept lost false id w := by
  obtain ⟨w₀, hw₀, hwant⟩ := Option.map_eq_some_iff.mp hw
  have hk := h.kept hw₀
  cases hwants : w₀.wantsFrame with
  | false =>
    rw [hwants] at hwant
    simp only [Bool.false_eq_true, if_false] at hwant
    subst hwant
    refine ⟨hk.sound.mono ?_ (fun ht => ht) (fun hc => hc), fun hopen hn => ?_, fun hopen hn => ?_, hk.fresh, hk.drawn,
      hk.callbacks, hk.forced⟩
    · exact Or.imp_left fun hp => by simp [WaylandClient.flush, hp]
    · exact { hk.settled hopen hn with quiet := fun _ _ _ => hwants }
    · exact { hk.inTick hopen hn with quiet := fun _ _ => hwants }
  | true =>
    rw [hwants] at hwant
    simp only [if_true] at hwant
    subst hwant
    have hopen₀ : w₀.isOpen = true := by
      simp only [WaylandWindow.wantsFrame, Bool.and_eq_true] at hwants
      exact hwants.1
    refine ⟨hk.sound.scheduleFrame.mono ?_ (fun ht => ht) (fun hc => hc), fun _ hn => ?_, fun _ hn => ?_,
      hk.fresh.scheduleFrame, ?_, ?_, ?_⟩
    · rintro ((hp | hv) | hp)
      · exact Or.inl (by simp [WaylandClient.flush, hp])
      · exact Or.inr hv
      · refine Or.inl ?_
        simp only [WaylandClient.flush, Bool.or_eq_true, List.any_eq_true]
        exact Or.inr ⟨id, List.mem_range.mpr (h.bounded hw₀), by simp [hw₀, hwants, hp]⟩
    · have hs := hk.settled hopen₀ hn
      exact WaylandWindow.settled_scheduleFrame hs.notTicking hs.notRequested hs.notFailed
    · exact (hk.inTick hopen₀ hn).scheduleFrame hk.sound.hidden
    · rw [WaylandWindow.scheduleFrame_eq]
      exact hk.drawn
    · rw [WaylandWindow.scheduleFrame_eq]
      exact hk.callbacks
    · rw [WaylandWindow.scheduleFrame_eq]
      exact hk.forced

theorem Inv.bounded_flush (h : c.Inv lost) (hw : c.flush.windows id = some w) : id < c.flush.nextWindowId := by
  obtain ⟨w₀, hw₀, -⟩ := Option.map_eq_some_iff.mp hw
  exact h.bounded hw₀

theorem Inv.others_flush (h : c.Inv lost) (hdrawing : c.drawing = [])
    (hcontrol : c.control = .configuring id ∨ c.control.ticking = some id) : c.flush.Others lost id where
  kept _ hw := h.flush hw
  bounded := h.bounded_flush
  configuring {id'} hne := by
    show c.control ≠ _
    obtain hc | hc := hcontrol
    · rw [hc]
      simpa using fun he => hne he.symm
    · intro he
      simp [he, FrameControl.ticking] at hc
  elsewhere {id'} hne := by
    show Elsewhere id' c.control
    obtain hc | hc := hcontrol
    · rw [hc]
      exact elsewhere_of_not_ticking rfl
    · exact elsewhere_of_ticking hc hne
  drawing := hdrawing

theorem Inv.ticking_flush (h : c.Inv lost) (hdrawing : c.drawing = []) (hw : c.flush.windows id = some w)
    {stage : TickStage} (hc : c.control = .tick id stage) :
    c.flush.Ticking lost id (c.control.taken id) (c.control.forces id) w := by
  have hk := h.flush hw
  refine ⟨h.bounded_flush hw, hk.sound.mono (fun hp => hp) (fun ht => ht) ?_, fun hopen => ?_, hk.fresh,
    hk.drawn_ne_zero hdrawing, hk.callbacks, hk.forced⟩
  · show c.control = _ → False
    simp [hc]
  · refine (hk.inTick hopen ?_).updating
    show c.control.ticking = _
    simp [hc, FrameControl.ticking]

theorem Inv.afterUpdate (h : c.Inv lost) (hdrawing : c.drawing = []) (hafter : c.flush.afterUpdate = some c') : c'.Inv lost := by
  have hflush : c.flush.control = c.control := rfl
  unfold WaylandClient.afterUpdate at hafter
  cases hc : c.control with
  | idle => simp [hflush, hc] at hafter
  | completing id => simp [hflush, hc] at hafter
  | app =>
    simp only [hflush, hc, Option.some.injEq] at hafter
    subst hafter
    refine ⟨fun {id w} hw => ?_, h.bounded_flush, fun _ => hdrawing, fun he => by simp [FrameControl.ticking] at he⟩
    refine (h.flush hw).other (fun hp => hp) (fun ht => ht) ?_ (fun _ => rfl) (fun hd => hd) ?_ (elsewhere_of_not_ticking rfl)
    · simp [hflush, hc]
    · rw [hflush, hc]
      exact elsewhere_of_not_ticking rfl
  | configuring id =>
    simp only [hflush, hc] at hafter
    obtain ⟨w, hw, rfl⟩ := Option.map_eq_some_iff.mp hafter
    have hk := h.flush hw
    have ho := h.others_flush hdrawing (Or.inl hc)
    have hdrawn := hk.drawn_ne_zero hdrawing
    have hcallbacks : w.isOpen = true → w.registered = w.ran ++ w.nextFrameCallbacks := fun hopen => by
      have := hk.callbacks hopen
      rw [hflush, hc] at this
      simpa [FrameControl.taken] using this
    have hforced : w.isOpen = true → w.forceOwed = true → w.deferredForceRender = true := fun hopen hf => by
      have := hk.forced hopen hf
      rw [hflush, hc] at this
      simpa [FrameControl.forces] using this
    split
    · exact ho.frame (h.bounded_flush hw) hk.sound.tracked hk.sound.owed hk.fresh hdrawn hcallbacks hforced
    · rename_i hl
      have hs : w.redraw.Sound (c.flush.ping = true ∨ id ∈ c.flush.visiting) (lost ∨ id ∈ c.flush.timers) False :=
        { hk.sound with unconfigured := fun he => absurd he hl, resizing := fun he => absurd he hl }
      have hr : (c.flush.scheduleFrame id w.redraw).Resting lost id w.redraw.scheduleFrame := by
        refine ⟨h.bounded_flush hw, hs.scheduleFrame.mono ?_ (fun ht => ht) (fun hf => hf), fun hopen => ?_,
          WaylandWindow.Fresh.scheduleFrame fun _ _ => by simp [WaylandWindow.redraw], ?_, ?_, ?_⟩
        · rintro ((hp | hv) | hp)
          · exact Or.inl (by simp [WaylandClient.scheduleFrame, hp])
          · exact Or.inr hv
          · exact Or.inl (by simp [WaylandClient.scheduleFrame, hp])
        · rw [WaylandWindow.scheduleFrame_eq] at hopen
          have hsettled := hk.settled hopen (by simp [hflush, hc, FrameControl.ticking])
          exact WaylandWindow.settled_scheduleFrame hsettled.notTicking hsettled.notRequested hsettled.notFailed
        · rw [WaylandWindow.scheduleFrame_eq]
          exact hdrawn
        · rw [WaylandWindow.scheduleFrame_eq]
          exact hcallbacks
        · rw [WaylandWindow.scheduleFrame_eq]
          exact hforced
      refine hr.inv ho rfl (fun hp => ?_) rfl (fun ht => ht) rfl rfl
      simp [WaylandClient.scheduleFrame, hp]
  | tick id stage =>
    simp only [hflush, hc] at hafter
    obtain ⟨w, hw, hafter⟩ := Option.bind_eq_some_iff.mp hafter
    have ho := h.others_flush hdrawing (Or.inr (by rw [hc]; rfl))
    have ht := h.ticking_flush hdrawing hw hc
    have hwindows : c.flush.windows = Function.update c.flush.windows id (some w) := by
      rw [← hw, Function.update_eq_self]
    rw [hc] at ht
    cases stage with
    | thermal force require thermalState =>
      obtain rfl := Option.some.inj hafter
      have ht' : c.flush.Ticking lost id [] force w := by simpa [FrameControl.taken, FrameControl.forces] using ht
      exact ht'.throttle ho
    | callbacks force require highRate remaining =>
      cases remaining with
      | nil =>
        obtain rfl := Option.some.inj hafter
        have ht' : c.flush.Ticking lost id [] force w := by simpa [FrameControl.taken, FrameControl.forces] using ht
        exact ht'.render ho
      | cons callback remaining => simp at hafter
    | presenting => simp at hafter
    | presented =>
      obtain rfl := Option.some.inj hafter
      exact Ticking.reschedule ht ho
    | deferred =>
      obtain rfl := Option.some.inj hafter
      exact Ticking.inv .ime ht ho hwindows (fun hp => hp) rfl rfl rfl rfl (by simp [FrameControl.forces])
    | final =>
      obtain rfl := Option.some.inj hafter
      exact Ticking.inv .ime ht ho hwindows (fun hp => hp) rfl rfl rfl rfl (by simp [FrameControl.forces])
    | ime =>
      obtain rfl := Option.some.inj hafter
      refine ⟨fun {id' w'} hw' => ?_, h.bounded_flush, fun _ => hdrawing, fun he => Option.some.inj he ▸ h.bounded_flush hw⟩
      have hk := h.flush hw'
      by_cases he : id' = id
      · subst he
        refine hk.carry (fun hp => hp) (fun ht => ht) ?_ ?_ (fun _ => rfl) (fun hd => hd) ?_ ?_ <;>
          simp [hflush, hc, FrameControl.ticking, FrameControl.taken, FrameControl.forces]
      · refine hk.other (fun hp => hp) (fun ht => ht) ?_ (fun _ => rfl) (fun hd => hd) ?_ (elsewhere_completing he)
        · simp [hflush, hc]
        · rw [hflush, hc]
          exact elsewhere_tick he _

/-- The retry timers of the run could be inserted into the event loop. -/
def TimersInserted (a : FrameAct) : Prop := a ≠ .complete false

instance (a : FrameAct) : Decidable (TimersInserted a) := inferInstanceAs (Decidable (_ ≠ _))

theorem Inv.complete {timerInserted : Bool} (h : c.Inv lost) (hlost : timerInserted = false → lost)
    (hstep : c.step (.complete timerInserted) = some c') : c'.Inv lost := by
  unfold WaylandClient.step at hstep
  cases hc : c.control with
  | completing id =>
    simp only [hc] at hstep
    obtain ⟨w, hw, rfl⟩ := Option.map_eq_some_iff.mp hstep
    have hk := h.kept hw
    rw [hc] at hk
    have hdrawing := h.drawing (by rw [hc]; rfl)
    have ho : c.Others lost id := by
      refine ⟨fun {id' w'} hne hw' => ?_, h.bounded, fun _ => by simp [hc], fun hne => ?_, hdrawing⟩
      · have := h.kept hw'
        rw [hc] at this
        exact this
      · rw [hc]
        exact elsewhere_completing hne
    have hs := hk.sound.completeFrame c.nextCallback
    have hopen₀ : (w.completeFrame c.nextCallback).1.isOpen = w.isOpen := by
      obtain ⟨_, _, _, _, heq⟩ := w.completeFrame_eq c.nextCallback
      rw [heq]
    have hr : ({ c.setWindow id (w.completeFrame c.nextCallback).1 with
          nextCallback := c.nextCallback + 1
          timers := if (w.completeFrame c.nextCallback).2 && timerInserted then id :: c.timers else c.timers } :
        WaylandClient).Resting lost id (w.completeFrame c.nextCallback).1 := by
      refine ⟨h.bounded hw, hs.mono (fun hp => hp) ?_ (by simp [hc]), fun hopen => ?_, ?_, ?_, ?_, ?_⟩
      · rintro ((hl | ht) | hretry)
        · exact Or.inl hl
        · refine Or.inr ?_
          show id ∈ if _ then _ else _
          split
          · exact List.mem_cons_of_mem _ ht
          · exact ht
        · cases timerInserted with
          | true => exact Or.inr (by simp [hretry])
          | false => exact Or.inl (hlost rfl)
      · rw [hopen₀] at hopen
        exact (hk.inTick hopen (by simp [hc, FrameControl.ticking])).completeFrame c.nextCallback
      · obtain ⟨_, _, _, _, heq⟩ := w.completeFrame_eq c.nextCallback
        rw [heq]
        exact hk.fresh
      · obtain ⟨_, _, _, _, heq⟩ := w.completeFrame_eq c.nextCallback
        rw [heq]
        exact hk.drawn_ne_zero hdrawing
      · obtain ⟨_, _, _, _, heq⟩ := w.completeFrame_eq c.nextCallback
        rw [heq]
        intro hopen
        have := hk.callbacks hopen
        rw [hc] at this
        simpa [FrameControl.taken] using this
      · obtain ⟨_, _, _, _, heq⟩ := w.completeFrame_eq c.nextCallback
        rw [heq]
        intro hopen hf
        have := hk.forced hopen hf
        rw [hc] at this
        simpa [FrameControl.forces] using this
    refine hr.inv ho rfl (fun hp => hp) rfl (fun ht => ?_) rfl rfl
    show _ ∈ if _ then _ else _
    split
    · exact List.mem_cons_of_mem _ ht
    · exact ht
  | idle => simp [hc] at hstep
  | app => simp [hc] at hstep
  | configuring id => simp [hc] at hstep
  | tick id stage => simp [hc] at hstep

/-! ### Steps -/

section Steps

variable (h : c.Inv lost)
include h

theorem Inv.one (hw : c.windows id = some w) (hwindows : c'.windows = Function.update c.windows id (some w'))
    (hcontrol : c'.control = c.control) (hping : c.ping = true → c'.ping = true) (hvisiting : c'.visiting = c.visiting)
    (htimers : c'.timers = c.timers) (hnext : c'.nextWindowId = c.nextWindowId)
    (hdraws : ∀ {id'}, id' ≠ id → id' ∈ c.drawing → id' ∈ c'.drawing)
    (hdrawing : c.control.updating = false → c'.drawing = []) (hk : c'.Kept lost c.control.updating id w') :
    c'.Inv lost := by
  refine Inv.set hwindows h.bounded (hnext ▸ h.bounded hw) (le_of_eq hnext.symm) (by rw [hcontrol]; exact hk) ?_
    (by rw [hcontrol]; exact hdrawing) (by rw [hcontrol, hnext]; exact h.ticking)
  intro id' w' hne hw'
  refine (h.kept hw').carry ?_ ?_ ?_ ?_ ?_ (hdraws hne) ?_ ?_
  · rw [hvisiting]
    exact Or.imp_left hping
  · rw [htimers]
    exact fun ht => ht
  · rw [hcontrol]
    exact fun hc => hc
  · rw [hcontrol]
  · rw [hcontrol]
    exact fun hu => hu
  · rw [hcontrol]
  · rw [hcontrol]

theorem Inv.op {op : WindowOp} (hstep : c.step (.op id op) = some c') : c'.Inv lost := by
  simp only [WaylandClient.step] at hstep
  split at hstep
  · rename_i hguard
    simp only [Bool.and_eq_true] at hguard
    obtain ⟨w, hw, hstep⟩ := Option.bind_eq_some_iff.mp hstep
    split at hstep
    · have hk := h.kept hw
      rw [hguard.1] at hk
      obtain rfl := Option.some.inj hstep
      have hs := hk.sound.apply c.now (decide (id ∈ c.drawing)) op
      obtain ⟨hdrawn, hran, hdeferred, howed, hopened, callbacks, hregistered, hnext⟩ :=
        w.applied_records c.now (decide (id ∈ c.drawing)) op
      have hkept : ∀ {c' : WaylandClient}, c'.control = c.control → c'.drawing = c.drawing →
          (w.applied c.now (decide (id ∈ c.drawing)) op).Sound (c'.ping = true ∨ id ∈ c'.visiting) (lost ∨ id ∈ c'.timers)
            (c'.control = .configuring id) →
          c'.Kept lost c.control.updating id (w.applied c.now (decide (id ∈ c.drawing)) op) := by
        intro c' hcontrol hdrawing hsound
        refine ⟨hsound, fun hopen hn => ?_, fun hopen hn => ?_, hk.fresh.applied _ _ _, fun hz => ?_, fun hopen => ?_,
          fun hopen hf => ?_⟩
        · rw [hguard.1]
          rw [hcontrol] at hn
          exact (hk.settled (hopened hopen) hn).applied _ _ _ hopen
        · rw [hguard.1]
          rw [hcontrol] at hn
          exact (hk.inTick (hopened hopen) hn).applied hk.sound _ _ _ hopen
        · rw [hdrawing]
          exact hk.drawn (hdrawn ▸ hz)
        · rw [hregistered, hran, hnext, hcontrol, hk.callbacks (hopened hopen), List.append_assoc]
        · rw [hdeferred, hcontrol]
          exact hk.forced (hopened hopen) (howed ▸ hf)
      cases hsched : (w.apply c.now (decide (id ∈ c.drawing)) op).2 with
      | true =>
        have happlied : w.applied c.now (decide (id ∈ c.drawing)) op =
            (w.apply c.now (decide (id ∈ c.drawing)) op).1.scheduleFrame := by
          unfold WaylandWindow.applied
          rw [hsched, if_pos rfl]
        refine h.one hw (by rw [happlied]; rfl) rfl (fun hp => ?_) rfl rfl rfl (fun _ hd => hd) h.drawing (hkept rfl rfl ?_)
        · simp [WaylandClient.scheduleFrame, hp]
        · rw [happlied]
          refine hs.scheduleFrame.mono ?_ (fun ht => ht) (fun hc => hc)
          rintro ((hp | hv) | hp)
          · exact Or.inl (by simp [WaylandClient.scheduleFrame, hp])
          · exact Or.inr hv
          · exact Or.inl (by simp [WaylandClient.scheduleFrame, hp])
      | false =>
        have happlied : w.applied c.now (decide (id ∈ c.drawing)) op =
            (w.apply c.now (decide (id ∈ c.drawing)) op).1 := by
          unfold WaylandWindow.applied
          rw [hsched]
          rfl
        refine h.one hw (by rw [happlied]; rfl) rfl (fun hp => hp) rfl rfl rfl (fun _ hd => hd) h.drawing (hkept rfl rfl ?_)
        rw [happlied]
        exact hs
    · simp at hstep
  · simp at hstep

theorem Inv.fireCallback {callback : WlCallback} (hstep : c.step (.fireCallback id callback) = some c') :
    c'.Inv lost := by
  simp only [WaylandClient.step] at hstep
  split at hstep
  · rename_i hwaiting
    obtain ⟨w, hw, hstep⟩ := Option.bind_eq_some_iff.mp hstep
    split at hstep
    · rename_i hmem
      have hk := h.kept hw
      have htracked : w.requested ++ w.committed.erase callback = (none : Option WlCallback).toList := by
        have ht := hk.sound.tracked
        cases hp : w.pendingFrameCallback with
        | none =>
          rw [hp] at ht
          simp only [Option.toList_none, List.append_eq_nil_iff] at ht
          simp [ht.2] at hmem
        | some pending =>
          rw [hp] at ht
          cases hr : w.requested with
          | nil =>
            rw [hr] at ht
            simp only [List.nil_append, Option.toList_some] at ht
            rw [ht] at hmem ⊢
            obtain rfl := List.mem_singleton.mp hmem
            simp
          | cons x xs =>
            rw [hr] at ht
            simp only [List.cons_append, Option.toList_some, List.cons.injEq, List.append_eq_nil_iff] at ht
            simp [ht.2.2] at hmem
      have ho := h.others hwaiting.1 id
      obtain rfl := Option.some.inj hstep
      split
      · exact h.frame hwaiting.1 hw ho rfl htracked
      · rename_i hl
        refine h.one hw rfl rfl (fun hp => hp) rfl rfl rfl (fun _ hd => hd) h.drawing ?_
        exact ⟨⟨htracked, hk.sound.hidden, hk.sound.scheduled, hk.sound.retryScheduled, fun he => absurd he hl,
          hk.sound.unconfigured, hk.sound.resizing, hk.sound.owed⟩,
          fun hopen hn => { hk.settled hopen hn with }, fun hopen hn => { hk.inTick hopen hn with }, hk.fresh, hk.drawn,
          hk.callbacks, hk.forced⟩
    · simp at hstep
  · simp at hstep

theorem Inv.firePing {order : List WindowId} (hstep : c.step (.firePing order) = some c') : c'.Inv lost := by
  simp only [WaylandClient.step] at hstep
  split at hstep
  · rename_i hguard
    obtain rfl := Option.some.inj hstep
    refine h.resound rfl rfl rfl rfl fun {id w} hw => (h.kept hw).sound.mono (fun _ => Or.inr ?_) (fun ht => ht) (fun hc => hc)
    exact hguard.2.2.mem_iff.mpr (by simp [h.bounded hw, hw])
  · simp at hstep

/-- A wake that is taken off without a tick was not the one that its window waits for. -/
theorem Inv.spent (id : WindowId) (hwindows : c'.windows = c.windows) (hcontrol : c'.control = c.control)
    (hnext : c'.nextWindowId = c.nextWindowId) (hdrawing : c'.drawing = c.drawing) (hping : c'.ping = c.ping)
    (hvisiting : ∀ {id'}, id' ≠ id → id' ∈ c.visiting → id' ∈ c'.visiting)
    (htimers : ∀ {id'}, id' ≠ id → id' ∈ c.timers → id' ∈ c'.timers) (hspent : ∀ {w}, c.windows id = some w →
    w.Sound (c'.ping = true ∨ id ∈ c'.visiting) (lost ∨ id ∈ c'.timers) (c'.control = .configuring id)) :
    c'.Inv lost := by
  refine h.resound hwindows hcontrol hnext hdrawing fun {id' w} hw => ?_
  by_cases he : id' = id
  · subst he
    exact hspent hw
  · refine (h.kept hw).sound.mono ?_ (Or.imp_right (htimers he)) (by rw [hcontrol]; exact fun hc => hc)
    rw [hping]
    exact Or.imp_right (hvisiting he)

theorem Inv.visit (hstep : c.step .visit = some c') : c'.Inv lost := by
  simp only [WaylandClient.step] at hstep
  split at hstep
  · rename_i id rest hc hvisiting
    have hrest : ∀ {id'}, id' ≠ id → id' ∈ c.visiting → id' ∈ rest := fun hne hm => by
      rw [hvisiting] at hm
      exact (List.mem_cons.mp hm).resolve_left hne
    cases hw : c.windows id with
    | none =>
      simp only [hw, Option.some.injEq] at hstep
      subst hstep
      exact h.spent id rfl rfl rfl rfl rfl hrest (fun _ ht => ht) fun hw' => by simp [hw] at hw'
    | some w =>
      simp only [hw, Option.some.injEq] at hstep
      subst hstep
      have hs := (h.kept hw).sound
      split
      · have ho := h.others hc id
        have ho' : ({ c with visiting := rest } : WaylandClient).Others lost id :=
          ⟨fun {id' w'} hne hw' => (ho.kept hne hw').other (Or.imp_right (hrest hne)) (fun ht => ht) (ho.configuring hne)
            (fun hu => hu) (fun hd => hd) (ho.elsewhere hne) (ho.elsewhere hne),
          ho.bounded, ho.configuring, ho.elsewhere, ho.drawing⟩
        exact h.frame hc hw ho' rfl hs.tracked
      · rename_i hl
        exact h.spent id rfl rfl rfl rfl rfl hrest (fun _ ht => ht) fun hw' => by
          obtain rfl := Option.some.inj (hw.symm.trans hw')
          exact { hs with scheduled := fun he => absurd he hl }
  · simp at hstep

theorem Inv.fireTimer (hstep : c.step (.fireTimer id) = some c') : c'.Inv lost := by
  simp only [WaylandClient.step] at hstep
  split at hstep
  · rename_i hguard
    have hrest : ∀ {id'}, id' ≠ id → id' ∈ c.timers → id' ∈ c.timers.erase id :=
      fun hne hm => (List.mem_erase_of_ne hne).mpr hm
    cases hw : c.windows id with
    | none =>
      simp only [hw, Option.some.injEq] at hstep
      subst hstep
      exact h.spent id rfl rfl rfl rfl rfl (fun _ hv => hv) hrest fun hw' => by simp [hw] at hw'
    | some w =>
      simp only [hw, Option.some.injEq] at hstep
      subst hstep
      have hs := (h.kept hw).sound
      split
      · have ho := h.others hguard.1.1 id
        have ho' : ({ c with timers := c.timers.erase id } : WaylandClient).Others lost id :=
          ⟨fun {id' w'} hne hw' => (ho.kept hne hw').other (fun hp => hp) (hrest hne) (ho.configuring hne)
            (fun hu => hu) (fun hd => hd) (ho.elsewhere hne) (ho.elsewhere hne),
          ho.bounded, ho.configuring, ho.elsewhere, ho.drawing⟩
        exact h.frame hguard.1.1 hw ho' rfl hs.tracked
      · rename_i hl
        exact h.spent id rfl rfl rfl rfl rfl (fun _ hv => hv) hrest fun hw' => by
          obtain rfl := Option.some.inj (hw.symm.trans hw')
          exact { hs with retryScheduled := fun he => absurd he hl }
  · simp at hstep

/-- An event begins with code of the application, its window `w'` with it. -/
theorem Inv.begin (hc : c.control = .idle) (hw : c.windows id = some w) (control : FrameControl)
    (hcontrol : control = .app ∨ control = .configuring id)
    (hs : w'.Sound (c.ping = true ∨ id ∈ c.visiting) (lost ∨ id ∈ c.timers) (control = .configuring id))
    (hsame : w' = { w with role := w'.role, resizeThrottle := w'.resizeThrottle, configureOwed := w'.configureOwed }) :
    ({ c.setWindow id w' with control } : WaylandClient).Inv lost := by
  have hk := h.kept hw
  rw [hc] at hk
  have hticking : control.ticking = none := by
    obtain rfl | rfl := hcontrol <;> rfl
  have hupdating : control.updating = true := by
    obtain rfl | rfl := hcontrol <;> rfl
  have helse : Elsewhere id control := elsewhere_of_not_ticking hticking
  refine Inv.set (c := c) rfl h.bounded (h.bounded hw) le_rfl ?_ ?_ (by simp [hupdating]) (by simp [hticking])
  · refine ⟨hs, fun hopen _ => ?_, fun _ hn => absurd hn helse.ticking, ?_, ?_, ?_, ?_⟩
    · rw [hsame] at hopen ⊢
      have hsettled := hk.settled hopen (by simp [hc, FrameControl.ticking])
      exact { hsettled with quiet := fun hu => by simp [hupdating] at hu }
    · rw [hsame]
      exact hk.fresh
    · rw [hsame]
      exact hk.drawn
    · rw [hsame]
      simp only [helse.taken]
      have := hk.callbacks
      rw [hc] at this
      exact this
    · rw [hsame]
      intro hopen hf
      have := hk.forced hopen hf
      rw [hc] at this
      exact Or.inl (by simpa [FrameControl.forces] using this)
  · intro id' w₁ hne hw₁
    have ho := h.others hc id
    refine (ho.kept hne hw₁).other (fun hp => hp) (fun ht => ht) (ho.configuring hne) (by simp [hupdating]) (fun hd => hd)
      (ho.elsewhere hne) (elsewhere_of_not_ticking hticking)

theorem Inv.beginUpdate (hstep : c.step .beginUpdate = some c') : c'.Inv lost := by
  simp only [WaylandClient.step] at hstep
  split at hstep
  · rename_i hwaiting
    obtain rfl := Option.some.inj hstep
    refine ⟨fun {id w} hw => ?_, h.bounded, by simp [FrameControl.updating], by simp [FrameControl.ticking]⟩
    have ho := h.others hwaiting.1 (id + 1)
    refine (ho.kept (Nat.ne_of_lt (Nat.lt_succ_self id)) hw).other (fun hp => hp) (fun ht => ht) (by simp [hwaiting.1])
      (by simp [FrameControl.updating]) (fun hd => hd) ?_ (elsewhere_of_not_ticking rfl)
    rw [hwaiting.1]
    exact elsewhere_of_not_ticking rfl
  · simp at hstep

theorem Inv.xdgConfigure {resizing : Option Bool} (hstep : c.step (.xdgConfigure id resizing) = some c') :
    c'.Inv lost := by
  simp only [WaylandClient.step] at hstep
  split at hstep
  · rename_i hwaiting
    obtain ⟨w, hw, hstep⟩ := Option.bind_eq_some_iff.mp hstep
    have hs := (h.kept hw).sound
    rw [hwaiting.1] at hs
    split at hstep
    · rename_i hrole
      have hconfigured : ∀ throttle : Bool,
          ({ w with configureOwed := false, resizeThrottle := throttle } : WaylandWindow).Sound
            (c.ping = true ∨ id ∈ c.visiting) (lost ∨ id ∈ c.timers) (FrameControl.configuring id = .configuring id) := fun throttle =>
        ⟨hs.tracked, hs.hidden, hs.scheduled, hs.retryScheduled, hs.awaiting, fun _ => Or.inl rfl, fun _ _ => Or.inl rfl,
          fun hr => by simp [hrole] at hr⟩
      split at hstep
      · split at hstep
        · rename_i hthrottle
          obtain rfl := Option.some.inj hstep
          -- a window that is not configured yet is not throttled
          have hl : w.frameLoop ≠ .unconfigured := fun hl => by
            have := hs.resizing hl hrole
            simp [hthrottle] at this
          refine h.begin hwaiting.1 hw _ (Or.inl rfl) ?_ rfl
          exact ⟨hs.tracked, hs.hidden, hs.scheduled, hs.retryScheduled, hs.awaiting, fun he => absurd he hl,
            fun he => absurd he hl, fun hr => by simp [hrole] at hr⟩
        · obtain rfl := Option.some.inj hstep
          exact h.begin hwaiting.1 hw _ (Or.inr rfl) (hconfigured true) rfl
      · obtain rfl := Option.some.inj hstep
        exact h.begin hwaiting.1 hw _ (Or.inr rfl) (hconfigured w.resizeThrottle) rfl
    · simp at hstep
  · simp at hstep

theorem Inv.layerConfigure (hstep : c.step (.layerConfigure id) = some c') : c'.Inv lost := by
  simp only [WaylandClient.step] at hstep
  split at hstep
  · rename_i hwaiting
    obtain ⟨w, hw, hstep⟩ := Option.bind_eq_some_iff.mp hstep
    have hs := (h.kept hw).sound
    split at hstep
    · obtain rfl := Option.some.inj hstep
      refine h.begin hwaiting.1 hw _ (Or.inr rfl) ?_ rfl
      exact ⟨hs.tracked, hs.hidden, hs.scheduled, hs.retryScheduled, hs.awaiting, fun _ => Or.inl rfl, fun _ _ => Or.inl rfl,
        fun hr => by simp at hr⟩
    · simp at hstep
  · simp at hstep

theorem Inv.dropWindow (hstep : c.step (.dropWindow id) = some c') : c'.Inv lost := by
  simp only [WaylandClient.step] at hstep
  split at hstep
  · obtain ⟨w, hw, hstep⟩ := Option.bind_eq_some_iff.mp hstep
    split at hstep
    · simp at hstep
    · obtain rfl := Option.some.inj hstep
      refine ⟨fun {id' w'} hw' => ?_, fun {id' w'} hw' => ?_, h.drawing, h.ticking⟩ <;>
        by_cases he : id' = id <;> simp only [he, Function.update_self, reduceCtorEq] at hw'
      · rw [Function.update_of_ne he] at hw'
        exact (h.kept hw').carry (fun hp => hp) (fun ht => ht) (fun hc => hc) Iff.rfl (fun hu => hu) (fun hd => hd) rfl rfl
      · rw [Function.update_of_ne he] at hw'
        exact h.bounded hw'
  · simp at hstep

theorem Inv.refreshWindows (hstep : c.step .refreshWindows = some c') : c'.Inv lost := by
  simp only [WaylandClient.step] at hstep
  split at hstep
  · rename_i hupdating
    obtain rfl := Option.some.inj hstep
    refine ⟨fun {id w} hw => ?_, fun {id w} hw => ?_, fun hu => by simp [hupdating] at hu, h.ticking⟩
    · obtain ⟨w₀, hw₀, rfl⟩ := Option.map_eq_some_iff.mp hw
      have hk := h.kept hw₀
      split
      · refine ⟨{ hk.sound with }, fun hopen hn => ?_, fun hopen hn => ?_, hk.fresh, hk.drawn, hk.callbacks, hk.forced⟩
        · exact { hk.settled hopen hn with quiet := by simp [hupdating] }
        · exact { hk.inTick hopen hn with quiet := by simp [hupdating] }
      · exact hk.carry (fun hp => hp) (fun ht => ht) (fun hc => hc) Iff.rfl (fun hu => hu) (fun hd => hd) rfl rfl
    · obtain ⟨w₀, hw₀, -⟩ := Option.map_eq_some_iff.mp hw
      exact h.bounded hw₀
  · simp at hstep

end Steps

theorem elsewhere_of_ne {control : FrameControl} (h : control.ticking ≠ some id) : Elsewhere id control := by
  cases ht : control.ticking with
  | none => exact elsewhere_of_not_ticking ht
  | some id' => exact elsewhere_of_ticking ht fun he => h (he ▸ ht)

theorem Inv.openWindow {role : WaylandWindowRole} {active : Bool} {interval : Option Nat} {callbacks : List FrameCallback}
    (h : c.Inv lost) (hstep : c.step (.openWindow role active interval callbacks) = some c') : c'.Inv lost := by
  simp only [WaylandClient.step] at hstep
  split at hstep
  · rename_i hguard
    obtain rfl := Option.some.inj hstep
    have hne : c.control.ticking ≠ some c.nextWindowId := fun he => Nat.lt_irrefl _ (h.ticking he)
    have helse := elsewhere_of_ne hne
    refine Inv.set (c := c) rfl h.bounded (Nat.lt_succ_self _) (Nat.le_succ _) ?_ ?_ (fun hu => absurd (hguard.1.symm.trans hu) (by simp))
      fun he => Nat.lt_succ_of_lt (h.ticking he)
    · refine ⟨?_, fun _ _ => ?_, fun _ hn => absurd hn hne, fun _ hd => by simp at hd, fun _ => List.mem_cons_self,
        fun _ => ?_, fun _ hf => by simp at hf⟩
      · constructor <;> simp
      · constructor <;> simp
      · show callbacks = [] ++ c.control.taken c.nextWindowId ++ callbacks
        rw [helse.taken]
        rfl
    · intro id' w' hne' hw'
      exact (h.kept hw').carry (fun hp => hp) (fun ht => ht) (fun hc => hc) Iff.rfl (fun hu => hu)
        (fun hd => List.mem_cons_of_mem _ hd) rfl rfl
  · simp at hstep

theorem Inv.beginDraw (h : c.Inv lost) (hstep : c.step (.beginDraw id) = some c') : c'.Inv lost := by
  simp only [WaylandClient.step] at hstep
  split at hstep
  · rename_i hguard
    simp only [Bool.and_eq_true] at hguard
    obtain ⟨w, hw, hstep⟩ := Option.bind_eq_some_iff.mp hstep
    split at hstep
    · obtain rfl := Option.some.inj hstep
      have hk := h.kept hw
      refine h.one hw rfl rfl (fun hp => hp) rfl rfl rfl (fun _ hd => List.mem_cons_of_mem _ hd)
        (fun hu => by simp [hguard.1] at hu) ?_
      refine ⟨{ hk.sound with }, fun hopen hn => ?_, fun hopen hn => ?_, hk.fresh, fun _ => List.mem_cons_self, hk.callbacks,
        fun hopen hf => ?_⟩
      · exact { hk.settled hopen hn with quiet := by simp [hguard.1] }
      · exact { hk.inTick hopen hn with quiet := by simp [hguard.1] }
      · simp only [WaylandWindow.beginDraw, Bool.and_eq_true] at hf
        exact hk.forced hopen hf.1
    · simp at hstep
  · simp at hstep

theorem Inv.finishDraw (h : c.Inv lost) (hstep : c.step (.finishDraw id) = some c') : c'.Inv lost := by
  simp only [WaylandClient.step] at hstep
  split at hstep
  · rename_i hguard
    simp only [Bool.and_eq_true] at hguard
    obtain ⟨w, hw, rfl⟩ := Option.map_eq_some_iff.mp hstep
    have hk := h.kept hw
    refine h.one hw rfl rfl (fun hp => hp) rfl rfl rfl (fun hne hd => (List.mem_erase_of_ne hne).mpr hd)
      (fun hu => by simp [hguard.1] at hu) ?_
    refine ⟨{ hk.sound with }, fun hopen hn => ?_, fun hopen hn => ?_, fun _ _ => ?_, fun hz => ?_, hk.callbacks, hk.forced⟩
    · exact { hk.settled hopen hn with quiet := by simp [hguard.1] }
    · exact { hk.inTick hopen hn with quiet := by simp [hguard.1] }
    · simp [WaylandWindow.finishDraw]
    · simp [WaylandWindow.finishDraw] at hz
  · simp at hstep

theorem Inv.runCallback (h : c.Inv lost) (hstep : c.step .runCallback = some c') : c'.Inv lost := by
  simp only [WaylandClient.step] at hstep
  split at hstep
  · rename_i id force require highRate callback remaining hc
    obtain ⟨w, hw, rfl⟩ := Option.map_eq_some_iff.mp hstep
    have hk := h.kept hw
    rw [hc] at hk
    refine Inv.set (c := c) rfl h.bounded (h.bounded hw) le_rfl ?_ ?_ (by simp [FrameControl.updating])
      fun he => Option.some.inj he ▸ h.bounded hw
    · refine ⟨{ hk.sound with unconfigured := fun hl => ?_, resizing := fun hl hr => ?_ }, fun _ hn => absurd rfl hn,
        fun hopen _ => ?_, hk.fresh, hk.drawn, fun hopen => ?_, fun hopen hf => ?_⟩
      · exact Or.inr ((hk.sound.unconfigured hl).resolve_left (by simp [hc]))
      · exact Or.inr ((hk.sound.resizing hl hr).resolve_left (by simp [hc]))
      · exact { (hk.inTick hopen (by simp [hc, FrameControl.ticking])).updating with quiet := by simp [FrameControl.updating] }
      · have := hk.callbacks hopen
        rw [hc] at this
        simpa [FrameControl.taken] using this
      · have := hk.forced hopen hf
        rw [hc] at this
        simpa [FrameControl.forces] using this
    · intro id' w' hne hw'
      have hk' := h.kept hw'
      rw [hc] at hk'
      refine hk'.other (fun hp => hp) (fun ht => ht) (by simp [hc]) (by simp [FrameControl.updating]) (fun hd => hd) ?_
        (elsewhere_tick hne _)
      rw [hc]
      exact elsewhere_tick hne _
  · simp at hstep

theorem Inv.present {outcome : DrawOutcome} (h : c.Inv lost) (hstep : c.step (.present outcome) = some c') : c'.Inv lost := by
  simp only [WaylandClient.step] at hstep
  split at hstep
  · rename_i id hc
    split at hstep
    · simp at hstep
    · rename_i hdrawing
      obtain ⟨w, hw, rfl⟩ := Option.map_eq_some_iff.mp hstep
      have hk := h.kept hw
      rw [hc] at hk
      have hs : (w.present c.nextCallback outcome).Sound (c.ping = true ∨ id ∈ c.visiting) (lost ∨ id ∈ c.timers)
          (c.control = .configuring id) := { hk.sound.draw c.nextCallback outcome with }
      obtain ⟨_, _, _, _, _, _, _, _, heq⟩ := w.draw_eq c.nextCallback outcome
      refine Inv.set (c := c) rfl h.bounded (h.bounded hw) le_rfl ?_ ?_ (by simp [FrameControl.updating])
        fun he => Option.some.inj he ▸ h.bounded hw
      · refine ⟨hs.mono (fun hp => hp) (fun ht => ht) (by simp [hc]), fun _ hn => absurd rfl hn, fun hopen _ => ?_,
          w.fresh_present c.nextCallback outcome, fun hz => ?_, fun hopen => ?_, fun hopen hf => ?_⟩
        · have hopen' : w.isOpen = true := by
            unfold WaylandWindow.present at hopen
            rw [heq] at hopen
            exact hopen
          have ht := (hk.inTick hopen' (by simp [hc, FrameControl.ticking])).updating.draw c.nextCallback outcome
          exact { ht with quiet := by simp [FrameControl.updating] }
        · unfold WaylandWindow.present at hz
          rw [heq] at hz
          exact absurd (hk.drawn hz) hdrawing
        · unfold WaylandWindow.present at hopen ⊢
          rw [heq] at hopen ⊢
          have := hk.callbacks hopen
          rw [hc] at this
          simpa [FrameControl.taken] using this
        · unfold WaylandWindow.present at hopen hf ⊢
          rw [heq] at hopen hf ⊢
          have := hk.forced hopen hf
          rw [hc] at this
          simpa [FrameControl.forces] using this
      · intro id' w' hne hw'
        have hk' := h.kept hw'
        rw [hc] at hk'
        refine hk'.other (fun hp => hp) (fun ht => ht) (by simp [hc]) (by simp [FrameControl.updating]) (fun hd => hd) ?_
          (elsewhere_tick hne _)
        rw [hc]
        exact elsewhere_tick hne _
  · simp at hstep

/-- **Every step keeps the invariant**, unless it loses a retry timer. -/
theorem Inv.step {a : FrameAct} (h : c.Inv lost) (ha : ¬ TimersInserted a → lost) (hstep : c.step a = some c') : c'.Inv lost := by
  cases a with
  | elapse time =>
    obtain rfl := Option.some.inj hstep
    exact h.resound rfl rfl rfl rfl fun hw => (h.kept hw).sound
  | setThermalState thermalState =>
    obtain rfl := Option.some.inj hstep
    exact h.resound rfl rfl rfl rfl fun hw => (h.kept hw).sound
  | beginUpdate => exact h.beginUpdate hstep
  | fireCallback id callback => exact h.fireCallback hstep
  | firePing order => exact h.firePing hstep
  | visit => exact h.visit hstep
  | fireTimer id => exact h.fireTimer hstep
  | xdgConfigure id resizing => exact h.xdgConfigure hstep
  | layerConfigure id => exact h.layerConfigure hstep
  | dropWindow id => exact h.dropWindow hstep
  | op id op => exact h.op hstep
  | refreshWindows => exact h.refreshWindows hstep
  | openWindow role active interval callbacks => exact h.openWindow hstep
  | beginDraw id => exact h.beginDraw hstep
  | finishDraw id => exact h.finishDraw hstep
  | runCallback => exact h.runCallback hstep
  | present outcome => exact h.present hstep
  | endUpdate =>
    simp only [WaylandClient.step] at hstep
    split at hstep
    · rename_i hguard
      exact h.afterUpdate hguard.2 hstep
    · simp at hstep
  | complete timerInserted =>
    refine h.complete (fun hfalse => ha fun hinserted => ?_) hstep
    rw [hfalse] at hinserted
    exact hinserted rfl

theorem run_inv {acts : List FrameAct} (hrun : run step {} acts = some c)
    (hacts : ∀ a ∈ acts, ¬ TimersInserted a → lost) : c.Inv lost :=
  run_invariant (fun _ _ _ h ha hstep => h.step ha hstep) acts inv_new (RunMeets.of_forall_mem hacts _) hrun

/-! ### Between two events -/

/-- What the frame loop waits for is on its way. -/
def Armed (c : WaylandClient) (id : WindowId) (w : WaylandWindow) : Prop :=
  match w.frameLoop with
  | .unconfigured => w.configureOwed = true
  | .scheduled => c.ping = true
  | .retryScheduled => id ∈ c.timers
  | .awaitingCallback => w.committed ≠ []
  | .ticking | .rescheduleRequested | .presentationFailed | .parked => False

/-- Nothing is left to do for the window. -/
structure UpToDate (w : WaylandWindow) : Prop where
  dirty : w.dirty = false
  callbacks : w.nextFrameCallbacks = []
  forced : w.deferredForceRender = false
  redraw : w.redrawRequested = false
  presentation : w.presentation.requiresPresentation = false
  shown : w.shown = some w.drawn ∨ w.remapped = true

theorem Inv.armed_or_upToDate (h : c.Inv False) (hwaiting : c.Waiting) (hw : c.windows id = some w) (hopen : w.isOpen = true)
    (hvisible : w.visible = true) : c.Armed id w ∨ UpToDate w := by
  have hk := h.kept hw
  have hdrawing := (h.others hwaiting.1 id).drawing
  have hs := hk.sound
  rw [hwaiting.1, hwaiting.2] at hs
  have hsettled := hk.settled hopen (by simp [hwaiting.1, FrameControl.ticking])
  rw [hwaiting.updating] at hsettled
  cases hl : w.frameLoop with
  | unconfigured => exact Or.inl (by simpa [Armed, hl] using hs.unconfigured hl)
  | scheduled => exact Or.inl (by simpa [Armed, hl] using hs.scheduled hl)
  | retryScheduled => exact Or.inl (by simpa [Armed, hl] using hs.retryScheduled hl)
  | awaitingCallback => exact Or.inl (by simpa [Armed, hl] using hs.awaiting hl)
  | ticking => exact absurd hl hsettled.notTicking
  | rescheduleRequested => exact absurd hl hsettled.notRequested
  | presentationFailed => exact absurd hl hsettled.notFailed
  | parked =>
    obtain ⟨hredraw, hpresentation, hdeferred⟩ := hsettled.parked hl hvisible
    have hquiet := hsettled.quiet rfl hl hvisible
    simp only [WaylandWindow.wantsFrame, hopen, Bool.true_and, Bool.or_eq_false_iff, Bool.not_eq_false',
      List.isEmpty_iff] at hquiet
    have hfresh := hk.fresh hvisible (Nat.pos_of_ne_zero (hk.drawn_ne_zero hdrawing))
    refine Or.inr ⟨hquiet.1.1, hquiet.2, hdeferred, hredraw, hpresentation, ?_⟩
    simpa [hquiet.1.2, hredraw, hpresentation] using hfresh

/-- **No wake is lost.**  Between two events, a visible window waits for a wake that is on its way, or nothing
is left to do for it and its surface shows the last frame that it has drawn, unless it is a layer surface that
was mapped again. -/
theorem wake_armed {acts : List FrameAct} (hrun : run step {} acts = some c) (hacts : ∀ a ∈ acts, TimersInserted a)
    (hwaiting : c.Waiting) (hw : c.windows id = some w) (hopen : w.isOpen = true) (hvisible : w.visible = true) :
    c.Armed id w ∨ UpToDate w :=
  (run_inv hrun fun a ha hlost => hlost (hacts a ha)).armed_or_upToDate hwaiting hw hopen hvisible

/-- A window is opened, configured, drawn and presented. -/
def firstFrame : List FrameAct :=
  [.beginUpdate, .openWindow .xdgToplevel true none [7], .finishDraw 0, .endUpdate, .xdgConfigure 0 none, .endUpdate,
    .endUpdate, .runCallback, .endUpdate, .present {}, .endUpdate, .endUpdate, .endUpdate, .complete true]

theorem wake_armed_firstFrame : ∃ c w, run step {} firstFrame = some c ∧ c.windows 0 = some w ∧ (c.Armed 0 w ∨ UpToDate w) :=
  ⟨_, _, rfl, rfl, wake_armed (show run step {} firstFrame = some _ from rfl) (by decide) ⟨rfl, rfl⟩ rfl rfl rfl⟩

/-- **Callbacks for the next frame run once each, in order**: of those registered with an open window the
first have run, then come those that its tick has taken, then those that wait for a tick. -/
theorem nextFrameCallbacks_in_order {acts : List FrameAct} (hrun : run step {} acts = some c)
    (hw : c.windows id = some w) (hopen : w.isOpen = true) :
    w.registered = w.ran ++ c.control.taken id ++ w.nextFrameCallbacks := by
  have h : c.Inv True := run_inv hrun fun _ _ _ => trivial
  exact (h.kept hw).callbacks hopen

theorem nextFrameCallbacks_in_order_firstFrame : ∃ c w, run step {} firstFrame = some c ∧ c.windows 0 = some w ∧
    w.ran = [7] ∧ w.registered = w.ran ++ c.control.taken 0 ++ w.nextFrameCallbacks :=
  ⟨_, _, rfl, rfl, rfl, nextFrameCallbacks_in_order (show run step {} firstFrame = some _ from rfl) rfl rfl⟩

/-- **A forced render is never lost**: between two events, a render without the caches that a tick of an open
window was asked for is put off to the next tick, and the wake for that tick is on its way if the window is
visible. -/
theorem forced_render_kept {acts : List FrameAct} (hrun : run step {} acts = some c)
    (hacts : ∀ a ∈ acts, TimersInserted a) (hwaiting : c.Waiting) (hw : c.windows id = some w) (hopen : w.isOpen = true)
    (howed : w.forceOwed = true) : w.deferredForceRender = true ∧ (w.visible = true → c.Armed id w) := by
  have h : c.Inv False := run_inv hrun fun a ha hlost => hlost (hacts a ha)
  have hdeferred : w.deferredForceRender = true := by
    have := (h.kept hw).forced hopen howed
    rw [hwaiting.1] at this
    simpa [FrameControl.forces] using this
  refine ⟨hdeferred, fun hvisible => ?_⟩
  obtain harmed | hdone := h.armed_or_upToDate hwaiting hw hopen hvisible
  · exact harmed
  · simp [hdone.forced] at hdeferred

/-- A redraw is asked for soon after the first frame, while the window is not active. -/
def throttledFrame : List FrameAct :=
  [.beginUpdate, .openWindow .xdgToplevel false (some 33333) [], .finishDraw 0, .endUpdate, .xdgConfigure 0 none,
    .endUpdate, .endUpdate, .present {}, .endUpdate, .endUpdate, .endUpdate, .complete true, .beginUpdate,
    .op 0 .requestRedraw, .endUpdate, .fireCallback 0 0, .endUpdate, .endUpdate, .endUpdate, .complete true]

theorem forced_render_kept_throttledFrame : ∃ c w, run step {} throttledFrame = some c ∧ c.windows 0 = some w ∧
    w.deferredForceRender = true ∧ (w.visible = true → c.Armed 0 w) :=
  ⟨_, _, rfl, rfl, forced_render_kept (show run step {} throttledFrame = some _ from rfl) (by decide) ⟨rfl, rfl⟩ rfl rfl rfl⟩

/-- **A surface has one frame callback at most**, and it is the one that the window has kept. -/
theorem frame_callback_unique {acts : List FrameAct} (hrun : run step {} acts = some c) (hw : c.windows id = some w) :
    w.requested ++ w.committed = w.pendingFrameCallback.toList := by
  have h : c.Inv True := run_inv hrun fun _ _ _ => trivial
  exact (h.kept hw).sound.tracked

theorem frame_callback_unique_firstFrame : ∃ c w, run step {} firstFrame = some c ∧ c.windows 0 = some w ∧
    w.pendingFrameCallback = some 0 ∧ w.requested ++ w.committed = w.pendingFrameCallback.toList :=
  ⟨_, _, rfl, rfl, rfl, frame_callback_unique (show run step {} firstFrame = some _ from rfl)
    (show WaylandClient.windows _ 0 = some _ from rfl)⟩

end WaylandClient

end FcGpui
