import FcGpui.Platform.FrameLoop

/-!
# A window's wake

What holds of one window, between ticks and in its own tick, and that whatever is done to a window
keeps it.  `Sound` says that a wake the frame loop waits for is really armed, and that the surface has at
most one frame callback; `Settled`, that a window with something to do waits for one; and `InTick`, that
at the end of a tick such a window will wait for one.
-/

namespace FcGpui

namespace WaylandWindow

/-- `pinged` and `timed` tell whether a ping and a retry timer are on the way to the window, and
`configuring` whether it is taking a configure event. -/
structure Sound (pinged timed configuring : Prop) (w : WaylandWindow) : Prop where
  tracked : w.requested ++ w.committed = w.pendingFrameCallback.toList
  hidden : w.visible = false → w.frameLoop = .parked
  scheduled : w.frameLoop = .scheduled → pinged
  retryScheduled : w.frameLoop = .retryScheduled → timed
  awaiting : w.frameLoop = .awaitingCallback → w.committed ≠ []
  unconfigured : w.frameLoop = .unconfigured → configuring ∨ w.configureOwed = true
  resizing : w.frameLoop = .unconfigured → w.role = .xdgToplevel → configuring ∨ w.resizeThrottle = false
  owed : w.role = .layerShell false → w.configureOwed = true

/-- What holds of an open window between its ticks. -/
structure Settled (updating : Bool) (w : WaylandWindow) : Prop where
  notTicking : w.frameLoop ≠ .ticking
  notRequested : w.frameLoop ≠ .rescheduleRequested
  notFailed : w.frameLoop ≠ .presentationFailed
  parked : w.frameLoop = .parked → w.visible = true →
    w.redrawRequested = false ∧ w.presentation.requiresPresentation = false ∧ w.deferredForceRender = false
  quiet : updating = false → w.frameLoop = .parked → w.visible = true → w.wantsFrame = false

/-- What holds of an open window in its tick. -/
structure InTick (updating : Bool) (w : WaylandWindow) : Prop where
  noTimer : w.frameLoop ≠ .retryScheduled
  parked : w.frameLoop = .parked → w.visible = false
  scheduled : w.frameLoop = .scheduled → w.redrawRequested = true
  ticking : w.frameLoop = .ticking → w.deferredForceRender = false
  failed : w.frameLoop = .presentationFailed → w.presentation.requiresPresentation = true
  unconfigured : w.frameLoop = .unconfigured → w.role = .layerShell false
  quiet : updating = false → w.frameLoop = .ticking → w.wantsFrame = false

/-- The surface shows the last frame that was drawn, or it is known that it does not. -/
def Fresh (w : WaylandWindow) : Prop :=
  w.visible = true → 0 < w.drawn →
    w.shown = some w.drawn ∨ w.remapped = true ∨ w.needsPresent = true ∨ w.redrawRequested = true ∨
      w.presentation.requiresPresentation = true

variable {P P' T T' C C' : Prop} {u : Bool} {w : WaylandWindow}

theorem Sound.mono (h : w.Sound P T C) (hP : P → P') (hT : T → T') (hC : C → C') : w.Sound P' T' C' where
  tracked := h.tracked
  hidden := h.hidden
  scheduled hs := hP (h.scheduled hs)
  retryScheduled hs := hT (h.retryScheduled hs)
  awaiting := h.awaiting
  unconfigured hs := (h.unconfigured hs).imp_left hC
  resizing hs hr := (h.resizing hs hr).imp_left hC
  owed := h.owed

theorem Settled.updating (h : w.Settled u) : w.Settled true where
  notTicking := h.notTicking
  notRequested := h.notRequested
  notFailed := h.notFailed
  parked := h.parked
  quiet := by simp

theorem InTick.updating (h : w.InTick u) : w.InTick true where
  noTimer := h.noTimer
  parked := h.parked
  scheduled := h.scheduled
  ticking := h.ticking
  failed := h.failed
  unconfigured := h.unconfigured
  quiet := by simp

/-! ### Frame callbacks -/

theorem tracked_commit {requested committed : List WlCallback} {pending : Option WlCallback}
    (h : requested ++ committed = pending.toList) : [] ++ (committed ++ requested) = pending.toList := by
  cases requested with
  | nil => simpa using h
  | cons callback rest =>
    cases pending with
    | none => simp at h
    | some pending =>
      simp only [List.cons_append, Option.toList_some, List.cons.injEq, List.append_eq_nil_iff] at h
      obtain ⟨rfl, rfl, rfl⟩ := h
      rfl

theorem tracked_requestCallback (callback : WlCallback)
    (h : w.requested ++ w.committed = w.pendingFrameCallback.toList) :
    (w.requestCallback callback).requested ++ (w.requestCallback callback).committed =
      (w.requestCallback callback).pendingFrameCallback.toList := by
  unfold requestCallback
  cases hp : w.pendingFrameCallback with
  | some pending =>
    rw [hp] at h
    simpa [hp] using h
  | none =>
    rw [hp, Option.toList_none, List.append_eq_nil_iff] at h
    simp [h.1, h.2]

theorem committed_requestCallback_ne_nil {callback : WlCallback}
    (h : w.requested ++ w.committed = w.pendingFrameCallback.toList) :
    (w.requestCallback callback).commit.committed ≠ [] := by
  intro hnil
  have htracked := tracked_requestCallback callback h
  obtain ⟨hcommitted, hrequested⟩ := List.append_eq_nil_iff.mp hnil
  rw [hcommitted, hrequested] at htracked
  unfold requestCallback at htracked
  cases hp : w.pendingFrameCallback <;> simp [hp] at htracked

/-! ### What is done to a window -/

theorem Sound.scheduleFrame (h : w.Sound P T C) : w.scheduleFrame.Sound (P ∨ w.pings = true) T C := by
  unfold WaylandWindow.scheduleFrame pings
  cases hv : w.visible with
  | false => exact h.mono Or.inl id id
  | true =>
    cases hl : w.frameLoop with
    | parked => constructor <;> simp [h.tracked]; exact h.owed
    | ticking => constructor <;> simp [h.tracked]; exact h.owed
    | _ => exact h.mono Or.inl id id

theorem settled_scheduleFrame (hticking : w.frameLoop ≠ .ticking) (hrequested : w.frameLoop ≠ .rescheduleRequested)
    (hfailed : w.frameLoop ≠ .presentationFailed) : w.scheduleFrame.Settled u := by
  unfold WaylandWindow.scheduleFrame
  cases hv : w.visible with
  | false => constructor <;> simp_all
  | true => cases hl : w.frameLoop <;> constructor <;> simp_all

/-- In a tick, what is put off asks for another frame. -/
theorem InTick.scheduleFrame_deferred (h : w.InTick u) (hidden : w.visible = false → w.frameLoop = .parked)
    (deferred : Bool) {u' : Bool} :
    ({ w with deferredForceRender := deferred } : WaylandWindow).scheduleFrame.InTick u' := by
  unfold WaylandWindow.scheduleFrame
  cases hv : w.visible with
  | false =>
    have hl := hidden hv
    constructor <;> simp_all
  | true =>
    have hparked : w.frameLoop ≠ .parked := fun hl => by simp [h.parked hl] at hv
    obtain ⟨hnoTimer, -, hscheduled, -, hfailed, hunconfigured, -⟩ := h
    cases hl : w.frameLoop <;> constructor <;> simp_all

theorem InTick.scheduleFrame (h : w.InTick u) (hidden : w.visible = false → w.frameLoop = .parked) {u' : Bool} :
    w.scheduleFrame.InTick u' :=
  h.scheduleFrame_deferred hidden w.deferredForceRender

theorem scheduleFrame_eq (w : WaylandWindow) :
    w.scheduleFrame = { w with frameLoop := w.scheduleFrame.frameLoop } := by
  unfold WaylandWindow.scheduleFrame
  split
  · rfl
  · split <;> rfl

theorem Fresh.scheduleFrame (h : w.Fresh) : w.scheduleFrame.Fresh := by
  rw [scheduleFrame_eq]
  exact h

theorem Sound.commit (h : w.Sound P T C) : w.commit.Sound P T C :=
  { h with
    tracked := tracked_commit h.tracked
    awaiting := fun hl hnil => h.awaiting hl (List.append_eq_nil_iff.mp hnil).1 }

theorem Sound.mapped (h : w.Sound P T C) : w.mapped.Sound P T C := by
  unfold WaylandWindow.mapped
  split
  · constructor <;> simp [WaylandWindow.commit, tracked_commit h.tracked]
  · exact { h.commit with hidden := by simp }

theorem Sound.hide (h : w.Sound P T C) : w.hide.Sound P T C := by
  unfold WaylandWindow.hide
  simp only
  split
  · constructor <;> simp [h.tracked]; exact h.owed
  · constructor <;> simp [WaylandWindow.commit, tracked_commit h.tracked]; exact h.owed

theorem hide_eq (w : WaylandWindow) : ∃ requested committed shown,
    w.hide = { w with visible := false, frameLoop := .parked, requested, committed, shown } := by
  unfold WaylandWindow.hide
  simp only
  split
  · exact ⟨_, _, _, rfl⟩
  · exact ⟨_, _, _, rfl⟩

@[simp] theorem hide_frameLoop : w.hide.frameLoop = .parked := by
  obtain ⟨_, _, _, heq⟩ := w.hide_eq
  rw [heq]

@[simp] theorem hide_visible : w.hide.visible = false := by
  obtain ⟨_, _, _, heq⟩ := w.hide_eq
  rw [heq]

/-- What the application does to a window, with the frame that is scheduled for it. -/
def applied (now : Nat) (drawing : Bool) (w : WaylandWindow) (op : WindowOp) : WaylandWindow :=
  if (w.apply now drawing op).2 then (w.apply now drawing op).1.scheduleFrame else (w.apply now drawing op).1

theorem Sound.apply (h : w.Sound P T C) (now : Nat) (drawing : Bool) (op : WindowOp) :
    (w.apply now drawing op).1.Sound P T C := by
  cases op with
  | refresh => cases drawing <;> exact { h with }
  | invalidate => cases drawing <;> exact { h with }
  | onNextFrame callback => exact { h with }
  | setActive active => exact { h with }
  | recordInput => exact { h with }
  | requestRedraw => exact { h with }
  | «show» =>
    unfold WaylandWindow.apply
    simp only
    split
    · exact h.mapped
    · exact { h.mapped with }
  | hide => exact h.hide
  | commit => exact h.commit
  | close => constructor <;> simp [WaylandWindow.apply, WaylandWindow.close, h.tracked]; exact h.owed

theorem Settled.applied (h : w.Settled u) (now : Nat) (drawing : Bool) (op : WindowOp)
    (hopen : (w.applied now drawing op).isOpen = true) : (w.applied now drawing op).Settled true := by
  have hu := h.updating
  cases op with
  | refresh => cases drawing <;> exact { hu with quiet := by simp }
  | invalidate => cases drawing <;> exact { hu with quiet := by simp }
  | onNextFrame callback => exact settled_scheduleFrame h.notTicking h.notRequested h.notFailed
  | setActive active => exact { hu with quiet := by simp }
  | recordInput => exact { hu with quiet := by simp }
  | requestRedraw => exact settled_scheduleFrame h.notTicking h.notRequested h.notFailed
  | «show» =>
    cases hr : w.role with
    | layerShell configured =>
      constructor <;> simp [WaylandWindow.applied, WaylandWindow.apply, WaylandWindow.mapped, hr]
    | xdgToplevel =>
      simp only [WaylandWindow.applied, WaylandWindow.apply, WaylandWindow.mapped, hr, if_true]
      exact settled_scheduleFrame h.notTicking h.notRequested h.notFailed
  | hide =>
    constructor <;> simp [WaylandWindow.applied, WaylandWindow.apply]
  | commit => exact { hu with quiet := by simp }
  | close => simp [WaylandWindow.applied, WaylandWindow.apply, WaylandWindow.close] at hopen

theorem InTick.applied (h : w.InTick u) (hs : w.Sound P T C) (now : Nat) (drawing : Bool) (op : WindowOp)
    (hopen : (w.applied now drawing op).isOpen = true) : (w.applied now drawing op).InTick true := by
  have hu := h.updating
  cases op with
  | refresh => cases drawing <;> exact { hu with quiet := by simp }
  | invalidate => cases drawing <;> exact { hu with quiet := by simp }
  | onNextFrame callback =>
    have hw : InTick true { w with
        nextFrameCallbacks := w.nextFrameCallbacks ++ [callback], registered := w.registered ++ [callback] } :=
      { hu with quiet := by simp }
    exact hw.scheduleFrame hs.hidden
  | setActive active => exact { hu with quiet := by simp }
  | recordInput => exact { hu with quiet := by simp }
  | requestRedraw =>
    have hw : w.redraw.InTick true := { hu with scheduled := fun _ => rfl, quiet := by simp }
    exact hw.scheduleFrame hs.hidden
  | «show» =>
    obtain ⟨hnoTimer, hparked, -, hticking, hfailed, hunconfigured, -⟩ := h
    cases hr : w.role with
    | layerShell configured =>
      constructor <;> simp [WaylandWindow.applied, WaylandWindow.apply, WaylandWindow.mapped, hr]
    | xdgToplevel =>
      -- the window may have been hidden, and then the frame loop is parked
      cases hl : w.frameLoop <;> constructor <;>
        simp_all [WaylandWindow.applied, WaylandWindow.apply, WaylandWindow.mapped, WaylandWindow.redraw,
          WaylandWindow.commit, WaylandWindow.scheduleFrame]
  | hide => constructor <;> simp [WaylandWindow.applied, WaylandWindow.apply]
  | commit => exact { hu with quiet := by simp }
  | close => simp [WaylandWindow.applied, WaylandWindow.apply, WaylandWindow.close] at hopen

theorem Fresh.applied (h : w.Fresh) (now : Nat) (drawing : Bool) (op : WindowOp) :
    (w.applied now drawing op).Fresh := by
  cases op with
  | refresh => cases drawing <;> exact h
  | invalidate => cases drawing <;> exact h
  | onNextFrame callback => exact Fresh.scheduleFrame h
  | setActive active => exact h
  | recordInput => exact h
  | requestRedraw =>
    refine Fresh.scheduleFrame fun _ _ => ?_
    simp [WaylandWindow.apply, WaylandWindow.redraw]
  | «show» =>
    cases hr : w.role with
    | layerShell configured =>
      intro _ _
      simp [WaylandWindow.applied, WaylandWindow.apply, WaylandWindow.mapped, hr]
    | xdgToplevel =>
      simp only [WaylandWindow.applied, WaylandWindow.apply, WaylandWindow.mapped, hr, if_true]
      refine Fresh.scheduleFrame fun _ _ => ?_
      simp [WaylandWindow.redraw]
  | hide =>
    intro hv
    simp [WaylandWindow.applied, WaylandWindow.apply] at hv
  | commit => exact h
  | close => exact h

/-- The records of a window, and what is put off, while the application runs. -/
theorem applied_records (w : WaylandWindow) (now : Nat) (drawing : Bool) (op : WindowOp) :
    (w.applied now drawing op).drawn = w.drawn ∧ (w.applied now drawing op).ran = w.ran ∧
      (w.applied now drawing op).deferredForceRender = w.deferredForceRender ∧
      (w.applied now drawing op).forceOwed = w.forceOwed ∧
      ((w.applied now drawing op).isOpen = true → w.isOpen = true) ∧
      ∃ callbacks, (w.applied now drawing op).registered = w.registered ++ callbacks ∧
        (w.applied now drawing op).nextFrameCallbacks = w.nextFrameCallbacks ++ callbacks := by
  cases op with
  | refresh => cases drawing <;> exact ⟨rfl, rfl, rfl, rfl, fun h => h, [], by simp [applied, WaylandWindow.apply]⟩
  | invalidate => cases drawing <;> exact ⟨rfl, rfl, rfl, rfl, fun h => h, [], by simp [applied, WaylandWindow.apply]⟩
  | onNextFrame callback =>
    simp only [applied, WaylandWindow.apply, if_true]
    rw [scheduleFrame_eq]
    exact ⟨rfl, rfl, rfl, rfl, fun h => h, [callback], rfl, rfl⟩
  | setActive active => exact ⟨rfl, rfl, rfl, rfl, fun h => h, [], by simp [applied, WaylandWindow.apply]⟩
  | recordInput => exact ⟨rfl, rfl, rfl, rfl, fun h => h, [], by simp [applied, WaylandWindow.apply]⟩
  | requestRedraw =>
    simp only [applied, WaylandWindow.apply, if_true]
    rw [scheduleFrame_eq]
    exact ⟨rfl, rfl, rfl, rfl, fun h => h, [], by simp [WaylandWindow.redraw]⟩
  | «show» =>
    cases hr : w.role with
    | layerShell configured =>
      simp [applied, WaylandWindow.apply, WaylandWindow.mapped, WaylandWindow.commit, hr]
    | xdgToplevel =>
      simp only [applied, WaylandWindow.apply, WaylandWindow.mapped, hr, if_true]
      rw [scheduleFrame_eq]
      exact ⟨rfl, rfl, rfl, rfl, fun h => h, [], by simp [WaylandWindow.redraw, WaylandWindow.commit]⟩
  | hide =>
    have happlied : w.applied now drawing .hide = w.hide := rfl
    obtain ⟨requested, committed, shown, heq⟩ := w.hide_eq
    rw [happlied, heq]
    exact ⟨rfl, rfl, rfl, rfl, fun h => h, [], by simp⟩
  | commit => exact ⟨rfl, rfl, rfl, rfl, fun h => h, [], by simp [applied, WaylandWindow.apply, WaylandWindow.commit]⟩
  | close => simp [applied, WaylandWindow.apply, WaylandWindow.close]

/-! ### Drawing and completing a frame -/

/-- A draw that does not reach the renderer asks for another, and one that does is presented or fails. -/
theorem draw_cases (w : WaylandWindow) (callback : WlCallback) (outcome : DrawOutcome) :
    w.draw callback outcome = { w with redrawRequested := true } ∨
    (w.visible = true ∧ ∃ redraw, w.draw callback outcome =
      { (w.requestCallback callback).commit with
        redrawRequested := redraw, presentation := .presented, frameLoop := .awaitingCallback
        shown := some w.drawn, remapped := false }) ∨
    (w.visible = true ∧ ∃ redraw, w.draw callback outcome =
      { w.requestCallback callback with
        redrawRequested := redraw, presentation := w.presentation.failed, frameLoop := .presentationFailed }) := by
  unfold WaylandWindow.draw
  split
  · exact Or.inl rfl
  · rename_i hvis
    have hv : w.visible = true := by
      cases hv : w.visible
      · simp [hv] at hvis
      · rfl
    split
    · exact Or.inl rfl
    · right
      cases outcome.drawn with
      | true =>
        refine Or.inl ⟨hv, outcome.needsRedraw, ?_⟩
        unfold requestCallback WaylandWindow.commit
        cases outcome.needsRedraw <;> split <;> rfl
      | false =>
        refine Or.inr ⟨hv, outcome.needsRedraw, ?_⟩
        unfold requestCallback
        cases outcome.needsRedraw <;> split <;> rfl

theorem requestCallback_eq (w : WaylandWindow) (callback : WlCallback) :
    w.requestCallback callback =
      { w with
        pendingFrameCallback := (w.requestCallback callback).pendingFrameCallback
        requested := (w.requestCallback callback).requested } := by
  unfold requestCallback
  split <;> rfl

theorem Sound.draw (h : w.Sound P T C) (callback : WlCallback) (outcome : DrawOutcome) :
    (w.draw callback outcome).Sound P T C := by
  have htracked := tracked_requestCallback callback h.tracked
  have howed : (w.requestCallback callback).role = .layerShell false →
      (w.requestCallback callback).configureOwed = true := by
    rw [requestCallback_eq]
    exact h.owed
  obtain heq | ⟨hv, redraw, heq⟩ | ⟨hv, redraw, heq⟩ := w.draw_cases callback outcome
  · rw [heq]
    exact { h with }
  · have hv' : (w.requestCallback callback).visible = true := by rw [requestCallback_eq]; exact hv
    rw [heq]
    exact ⟨tracked_commit htracked, fun hf => absurd (hv'.symm.trans hf) (by simp), by simp, by simp,
      fun _ => committed_requestCallback_ne_nil h.tracked, by simp, by simp, howed⟩
  · have hv' : (w.requestCallback callback).visible = true := by rw [requestCallback_eq]; exact hv
    rw [heq]
    exact ⟨htracked, fun hf => absurd (hv'.symm.trans hf) (by simp), by simp, by simp, by simp, by simp,
      by simp, howed⟩

theorem InTick.draw (h : w.InTick true) (callback : WlCallback) (outcome : DrawOutcome) :
    (w.draw callback outcome).InTick true := by
  obtain heq | ⟨-, redraw, heq⟩ | ⟨-, redraw, heq⟩ := w.draw_cases callback outcome
  · rw [heq]
    exact { h with scheduled := fun _ => rfl, quiet := by simp }
  · rw [heq]
    constructor <;> simp
  · rw [heq]
    constructor <;> simp

/-- **A present leaves nothing behind unnoticed.** -/
theorem fresh_present (w : WaylandWindow) (callback : WlCallback) (outcome : DrawOutcome) :
    (w.present callback outcome).Fresh := by
  unfold WaylandWindow.present
  obtain heq | ⟨-, redraw, heq⟩ | ⟨-, redraw, heq⟩ := w.draw_cases callback outcome
  · rw [heq]
    exact fun _ _ => by simp
  · rw [heq]
    have hdrawn : (w.requestCallback callback).drawn = w.drawn := by rw [requestCallback_eq]
    exact fun _ _ => Or.inl (by simp [WaylandWindow.commit, hdrawn])
  · rw [heq]
    exact fun _ _ => by simp

theorem eq_true_of_not_hidden (h : ¬(!w.visible) = true) : w.visible = true := by
  cases hv : w.visible with
  | false => simp [hv] at h
  | true => rfl

/-- What `complete_frame` waits for. -/
theorem completeFrame_cases (w : WaylandWindow) (callback : WlCallback) :
    (w.visible = false ∧ w.completeFrame callback = ({ w with frameLoop := .parked }, false)) ∨
    (w.visible = true ∧ w.role = .layerShell false ∧
      w.completeFrame callback = ({ w with frameLoop := .unconfigured }, false)) ∨
    (w.visible = true ∧ w.frameLoop = .awaitingCallback ∧ w.completeFrame callback = (w, false)) ∨
    (w.visible = true ∧ w.completeFrame callback =
      ({ (w.requestCallback callback).commit with frameLoop := .awaitingCallback }, false)) ∨
    (w.visible = true ∧ w.completeFrame callback = ({ w with frameLoop := .retryScheduled }, true)) ∨
    (w.visible = true ∧ w.role ≠ .layerShell false ∧ w.frameLoop ≠ .awaitingCallback ∧
      w.frameLoop ≠ .rescheduleRequested ∧ w.presentation.requiresPresentation = false ∧
      w.redrawRequested = false ∧ w.completeFrame callback = ({ w with frameLoop := .parked }, false)) := by
  unfold WaylandWindow.completeFrame
  by_cases hv : w.visible = true
  · by_cases hr : w.role = .layerShell false
    · simp [hv, hr, WaylandWindowRole.isUnconfiguredLayerShell]
    · have hr' : w.role.isUnconfiguredLayerShell = false := by
        cases h : w.role with
        | xdgToplevel => rfl
        | layerShell configured =>
          cases configured with
          | false => exact absurd h hr
          | true => rfl
      by_cases hl : w.frameLoop = .awaitingCallback
      · simp [hv, hr', hl]
      · by_cases hp : w.presentation.requiresPresentation = true
        · cases w.presentation.compositorPacedRetry <;> simp [hv, hr', hl, hp]
        · by_cases hs : w.frameLoop = .rescheduleRequested ∨ w.redrawRequested = true
          · simp [hv, hr', hl, hp, hs]
          · simp only [not_or, Bool.not_eq_true] at hs hp
            simp [hv, hr', hl, hp, hs, hr]
  · simp only [Bool.not_eq_true] at hv
    simp [hv]

theorem Sound.completeFrame (h : w.Sound P T C) (callback : WlCallback) :
    (w.completeFrame callback).1.Sound P (T ∨ (w.completeFrame callback).2 = true) C := by
  obtain ⟨hv, heq⟩ | ⟨hv, hr, heq⟩ | ⟨-, -, heq⟩ | ⟨hv, heq⟩ | ⟨hv, heq⟩ | ⟨hv, -, -, -, -, -, heq⟩ :=
    w.completeFrame_cases callback
  · rw [heq]
    constructor <;> simp [h.tracked]
    exact h.owed
  · rw [heq]
    have howed := h.owed hr
    constructor <;> simp_all [h.tracked]
  · rw [heq]
    exact h.mono id Or.inl id
  · rw [heq]
    have hv' : (w.requestCallback callback).visible = true := by rw [requestCallback_eq]; exact hv
    refine ⟨tracked_commit (tracked_requestCallback callback h.tracked), fun hf => ?_, by simp, by simp,
      fun _ => committed_requestCallback_ne_nil h.tracked, by simp, by simp, ?_⟩
    · exact absurd (hv'.symm.trans hf) (by simp)
    · unfold WaylandWindow.commit
      rw [requestCallback_eq]
      exact h.owed
  · rw [heq]
    constructor <;> simp [h.tracked, hv]
    exact h.owed
  · rw [heq]
    constructor <;> simp [h.tracked]
    exact h.owed

/-- **A window that waits for nothing has nothing to do** at the end of its tick. -/
theorem InTick.completeFrame (h : w.InTick false) (callback : WlCallback) :
    (w.completeFrame callback).1.Settled false := by
  obtain ⟨hv, heq⟩ | ⟨hv, hr, heq⟩ | ⟨-, hl, heq⟩ | ⟨hv, heq⟩ | ⟨hv, heq⟩ | ⟨hv, hr, hawaiting, hrequested, hp, hs, heq⟩ :=
    w.completeFrame_cases callback
  · rw [heq]
    constructor <;> simp [hv]
  · rw [heq]
    constructor <;> simp
  · rw [heq]
    constructor <;> simp [hl]
  · rw [heq]
    constructor <;> simp
  · rw [heq]
    constructor <;> simp
  · -- nothing has asked for a frame since the tick began, so the frame loop is still ticking
    have hl : w.frameLoop = .ticking := by
      cases hl : w.frameLoop with
      | ticking => rfl
      | unconfigured => exact absurd (h.unconfigured hl) hr
      | rescheduleRequested => exact absurd hl hrequested
      | presentationFailed => simp [h.failed hl] at hp
      | awaitingCallback => exact absurd hl hawaiting
      | scheduled => simp [h.scheduled hl] at hs
      | retryScheduled => exact absurd hl h.noTimer
      | parked => simp [h.parked hl] at hv
    have hquiet := h.quiet rfl hl
    rw [heq]
    refine ⟨by simp, by simp, by simp, fun _ _ => ⟨hs, hp, h.ticking hl⟩, fun _ _ _ => hquiet⟩

theorem draw_eq (w : WaylandWindow) (callback : WlCallback) (outcome : DrawOutcome) :
    ∃ redrawRequested presentation frameLoop shown remapped pendingFrameCallback requested committed,
      w.draw callback outcome =
        { w with
          redrawRequested, presentation, frameLoop, shown, remapped, pendingFrameCallback, requested, committed } := by
  obtain heq | ⟨-, redraw, heq⟩ | ⟨-, redraw, heq⟩ := w.draw_cases callback outcome
  · exact ⟨_, _, _, _, _, _, _, _, heq⟩
  · rw [requestCallback_eq] at heq
    exact ⟨_, _, _, _, _, _, _, _, heq⟩
  · rw [requestCallback_eq] at heq
    exact ⟨_, _, _, _, _, _, _, _, heq⟩

theorem completeFrame_eq (w : WaylandWindow) (callback : WlCallback) :
    ∃ frameLoop pendingFrameCallback requested committed, (w.completeFrame callback).1 =
      { w with frameLoop, pendingFrameCallback, requested, committed } := by
  obtain ⟨-, heq⟩ | ⟨-, -, heq⟩ | ⟨-, -, heq⟩ | ⟨-, heq⟩ | ⟨-, heq⟩ | ⟨-, -, -, -, -, -, heq⟩ :=
    w.completeFrame_cases callback <;> rw [heq]
  · exact ⟨_, _, _, _, rfl⟩
  · exact ⟨_, _, _, _, rfl⟩
  · exact ⟨_, _, _, _, rfl⟩
  · rw [requestCallback_eq]
    exact ⟨_, _, _, _, rfl⟩
  · exact ⟨_, _, _, _, rfl⟩
  · exact ⟨_, _, _, _, rfl⟩

end WaylandWindow

end FcGpui
