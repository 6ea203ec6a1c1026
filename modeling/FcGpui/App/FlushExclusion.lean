import FcGpui.App.Windows

/-!
# Flushes exclude each other outside of shutdowns

The end of an update flushes the effects if no flush is active and no other update is
under way.  The counter `pending_updates` and the flag `flushing_effects` tell it so:
`Counted`, which every step keeps.  `App::shutdown` flushes too, and asks neither.

So a handler that calls `shutdown` begins a second flush, and so does the end of an
update that a handler makes while a shutdown flushes, since then the flag is not set.
These are the only ways (`FlushesApart`).

**Main result.**  `flushes_exclusive`: the flushes of a run exclude each other exactly if
all its steps keep them apart.
-/

namespace FcGpui

/-- Of what is under way, what `pending_updates` and `flushing_effects` are about. -/
inductive Control
  | update
  | flush
  | shutdownFlush
deriving DecidableEq, Repr

def WindowFrame.control : WindowFrame → Option Control
  | flush => some .flush
  | shutdownFlush => some .shutdownFlush
  | frame => if frame.isUpdate then some .update else none

namespace WindowedApp

variable {s s' t : WindowedApp} {act : WindowAct}

def controls (s : WindowedApp) : List Control := s.frames.filterMap WindowFrame.control

/-- What a step does to the updates and flushes. -/
inductive Controls (s : WindowedApp) (act : WindowAct) (s' : WindowedApp) : Prop
  | same (flushing : s'.flushingEffects = s.flushingEffects)
      (updates : s'.pendingUpdates = s.pendingUpdates) (controls : s'.controls = s.controls)
  | begin (flushing : s'.flushingEffects = s.flushingEffects)
      (updates : s'.pendingUpdates = s.pendingUpdates + 1)
      (controls : s'.controls = .update :: s.controls)
  | finish (hact : act = .finishUpdate) (inside : ¬(s.flushingEffects = false ∧ s.pendingUpdates = 1))
      (flushing : s'.flushingEffects = s.flushingEffects)
      (updates : s'.pendingUpdates = s.pendingUpdates - 1)
      (controls : s.controls = .update :: s'.controls)
  | flush (rest : List Control) (hact : act = .finishUpdate)
      (outermost : s.flushingEffects = false ∧ s.pendingUpdates = 1)
      (flushing : s'.flushingEffects = true) (updates : s'.pendingUpdates = s.pendingUpdates)
      (before : s.controls = .update :: rest) (controls : s'.controls = .flush :: rest)
  | shutdown (hact : act = .clearWindows) (flushing : s'.flushingEffects = s.flushingEffects)
      (updates : s'.pendingUpdates = s.pendingUpdates)
      (controls : s'.controls = .shutdownFlush :: s.controls)
  | endFlush (flushing : s'.flushingEffects = false)
      (updates : s'.pendingUpdates = s.pendingUpdates - 1)
      (controls : s.controls = .flush :: s'.controls)
  | endShutdown (flushing : s'.flushingEffects = s.flushingEffects)
      (updates : s'.pendingUpdates = s.pendingUpdates)
      (controls : s.controls = .shutdownFlush :: s'.controls)

theorem Quiet.controls (h : s.Quiet s') : s.Controls act s' :=
  .same h.flushing h.updates (by rw [WindowedApp.controls, WindowedApp.controls, h.frames])

theorem Quiet.controls_trans (h : s.Quiet t) (ht : t.Controls act s') : s.Controls act s' := by
  obtain ⟨hflushing, hupdates, -, -, -, -, hframes, -, -⟩ := h
  have hcontrols : t.controls = s.controls := by
    rw [WindowedApp.controls, WindowedApp.controls, hframes]
  cases ht with
  | same f u c => exact .same (f.trans hflushing) (u.trans hupdates) (c.trans hcontrols)
  | begin f u c => exact .begin (f.trans hflushing) (by rw [u, hupdates]) (by rw [c, hcontrols])
  | finish a i f u c =>
    rw [hflushing, hupdates] at i
    exact .finish a i (f.trans hflushing) (by rw [u, hupdates]) (by rw [← hcontrols, c])
  | flush rest a o f u b c =>
    rw [hflushing, hupdates] at o
    exact .flush rest a o f (u.trans hupdates) (by rw [← hcontrols, b]) c
  | shutdown a f u c =>
    exact .shutdown a (f.trans hflushing) (u.trans hupdates) (by rw [c, hcontrols])
  | endFlush f u c => exact .endFlush f (by rw [u, hupdates]) (by rw [← hcontrols, c])
  | endShutdown f u c =>
    exact .endShutdown (f.trans hflushing) (u.trans hupdates) (by rw [← hcontrols, c])

theorem controls_updateWindowId (id : WindowId) :
    (s.updateWindowId id).flushingEffects = s.flushingEffects ∧
      (s.updateWindowId id).pendingUpdates = s.pendingUpdates + 1 ∧
      (s.updateWindowId id).controls = .update :: s.controls := by
  rw [updateWindowId]
  split <;> exact ⟨rfl, rfl, rfl⟩

theorem controls_enter (h : s.enter act = some s') : s.Controls act s' := by
  unfold enter at h
  split at h
  · cases h
    exact .begin rfl rfl rfl
  · cases h
    exact .begin rfl rfl rfl
  · rename_i id
    cases h
    obtain ⟨hflushing, hupdates, hcontrols⟩ := s.controls_updateWindowId id
    exact .begin hflushing hupdates hcontrols
  · cases h
    exact .begin rfl rfl rfl
  · cases h
    exact .same rfl rfl rfl
  · cases h

variable {rest : List WindowFrame}

theorem Controls.exchange {frame frame' : WindowFrame}
    (hframes : s.frames = frame :: rest) (hframes' : s'.frames = frame' :: rest)
    (hcontrol : frame'.control = frame.control) (hflushing : s'.flushingEffects = s.flushingEffects)
    (hupdates : s'.pendingUpdates = s.pendingUpdates) : s.Controls act s' := by
  refine .same hflushing hupdates ?_
  rw [controls, controls, hframes, hframes', List.filterMap_cons, List.filterMap_cons, hcontrol]

theorem filterMap_notFound (frames : List WindowFrame) :
    (notFound frames).filterMap WindowFrame.control = frames.filterMap WindowFrame.control := by
  unfold notFound
  split <;> rfl

theorem controls_endWindow {id : WindowId}
    (hframes : s.frames = .window id :: rest) : s.Controls act (s.endWindow id rest) := by
  have hcontrols : s.controls = .update :: rest.filterMap WindowFrame.control := by
    rw [controls, hframes]
    rfl
  unfold endWindow
  split
  · exact .same rfl rfl hcontrols.symm
  · unfold putBack
    split
    · exact .same rfl rfl hcontrols.symm
    · refine .same rfl rfl ?_
      rw [hcontrols]
      exact congrArg (Control.update :: ·) (filterMap_notFound rest)

theorem controls_finishUpdate {frame : WindowFrame}
    (hframes : s.frames = frame :: rest) (hcontrol : frame.control = some .update) :
    s.Controls .finishUpdate (s.finishUpdate rest) := by
  have hcontrols : s.controls = .update :: rest.filterMap WindowFrame.control := by
    rw [controls, hframes, List.filterMap_cons, hcontrol]
  unfold finishUpdate
  split
  · rename_i houtermost
    exact .flush _ rfl houtermost rfl rfl hcontrols rfl
  · rename_i hinside
    exact .finish rfl hinside rfl rfl hcontrols

theorem controls_proceed {frame : WindowFrame}
    (hframes : s.frames = frame :: rest) (h : s.proceed rest frame act = some s') : s.Controls act s' := by
  unfold proceed at h
  split at h
  iterate 3
    cases h
    exact controls_finishUpdate hframes rfl
  · cases h
    exact .exchange hframes rfl rfl rfl rfl
  · cases h
    exact controls_endWindow hframes
  · cases h
    exact .exchange hframes rfl rfl rfl rfl
  · cases h
    exact .exchange hframes rfl rfl rfl rfl
  · cases h
    exact .exchange hframes rfl rfl rfl rfl
  · cases h
    unfold windowOpened
    split
    · exact .exchange hframes rfl rfl rfl rfl
    · exact .same rfl rfl rfl
  · cases h
    refine .shutdown rfl rfl rfl ?_
    rw [controls, controls, hframes]
    rfl
  · cases h

theorem Controls.visit {frame frame' begun : WindowFrame}
    (hframes : s.frames = frame :: rest) (hframes' : s'.frames = begun :: frame' :: rest)
    (hupdate : begun.control = some .update) (hcontrol : frame'.control = frame.control)
    (hflushing : s'.flushingEffects = s.flushingEffects)
    (hupdates : s'.pendingUpdates = s.pendingUpdates + 1) : s.Controls act s' := by
  refine .begin hflushing hupdates ?_
  rw [controls, controls, hframes, hframes', List.filterMap_cons, hupdate, List.filterMap_cons,
    List.filterMap_cons, hcontrol]

theorem controls_blurWindow {focus : FocusId} {remaining : Finset WindowId} {id : WindowId}
    (hframes : s.frames = .releaseFocus focus remaining true :: rest) :
    s.Controls act (s.blurWindow focus remaining id rest) := by
  have hquiet := s.quiet_blurFocused focus id
  unfold blurWindow
  split
  · split
    · exact .visit hframes rfl rfl rfl hquiet.flushing (congrArg (· + 1) hquiet.updates)
    · exact .visit hframes rfl rfl rfl hquiet.flushing (congrArg (· + 1) hquiet.updates)
  · exact .visit hframes rfl rfl rfl rfl rfl

theorem controls_callObserver {window : Option WindowId}
    (hframes : s.frames = .created window true true :: rest) : s.Controls act (s.callObserver window rest) := by
  unfold callObserver
  split
  · rename_i id
    unfold updateWindowId
    split
    · exact .visit hframes rfl rfl rfl rfl rfl
    · exact .visit hframes rfl rfl rfl rfl rfl
  · exact .same rfl rfl rfl

theorem controls_applyEffect {effect : Effect} (h : s.applyEffect effect = some s') :
    s.Controls act s' := by
  unfold applyEffect at h
  split at h
  · obtain ⟨observers, -, rfl⟩ := Option.map_eq_some_iff.mp h
    exact .same rfl rfl rfl
  · cases h
    unfold unpend
    split
    · exact .same rfl rfl rfl
    · exact .same rfl rfl rfl

theorem Controls.leave {frame : WindowFrame}
    (hframes : s.frames = frame :: rest) (hframes' : s'.frames = rest) (hcontrol : frame.control = none)
    (hflushing : s'.flushingEffects = s.flushingEffects)
    (hupdates : s'.pendingUpdates = s.pendingUpdates) : s.Controls act s' := by
  refine .same hflushing hupdates ?_
  rw [controls, controls, hframes, hframes', List.filterMap_cons, hcontrol]

theorem controls_flush {frame : WindowFrame}
    (hframes : s.frames = frame :: rest) (h : s.flush rest frame act = some s') : s.Controls act s' := by
  unfold flush at h
  split at h
  · cases h
    exact .leave hframes rfl rfl rfl rfl
  · obtain ⟨observers, -, rfl⟩ := Option.map_eq_some_iff.mp h
    exact (quiet_rest s s.window observers s.nextFocusId s.focusHandles).controls_trans
      (controls_callObserver hframes)
  · obtain ⟨observers, -, rfl⟩ := Option.map_eq_some_iff.mp h
    exact .same rfl rfl rfl
  · unfold endCreated at h
    split at h
    · obtain ⟨observers, -, rfl⟩ := Option.map_eq_some_iff.mp h
      exact .leave hframes rfl rfl rfl rfl
    · cases h
      exact .leave hframes rfl rfl rfl rfl
  · cases h
    exact .same rfl rfl rfl
  · split at h
    · cases h
      exact controls_blurWindow hframes
    · cases h
  · split at h
    · cases h
      exact .leave hframes rfl rfl rfl rfl
    · cases h
  · cases h
    exact .same rfl rfl rfl
  · split at h
    · cases h
      refine .endFlush rfl rfl ?_
      rw [controls, hframes]
      rfl
    · cases h
  · split at h
    · cases h
      refine .endShutdown rfl rfl ?_
      rw [controls, hframes]
      rfl
    · cases h
  · split at h
    · rename_i effect effects _ heffects
      have hquiet : s.Quiet { s with pendingEffects := effects } :=
        ⟨rfl, rfl, rfl, rfl, rfl, rfl, rfl, rfl, fun _ _ _ hmem =>
          heffects ▸ List.mem_cons_of_mem effect hmem⟩
      exact hquiet.controls_trans (controls_applyEffect h)
    · cases h
  · split at h
    · cases h
      refine .same rfl rfl ?_
      rw [controls, controls, hframes]
      rfl
    · cases h
  · cases h

theorem step_controls (h : s.step act = some s') : s.Controls act s' := by
  obtain ⟨-, ⟨-, hclient⟩ | ⟨-, henter⟩ | ⟨frame, rest, hframes, hproceed | hflush⟩⟩ := step_cases h
  · exact (quiet_client hclient).controls
  · exact controls_enter henter
  · exact controls_proceed hframes hproceed
  · exact controls_flush hframes hflush

/-! ### The counter and the flag -/

/-- What `pending_updates` and `flushing_effects` say, in every state. -/
structure Counted (s : WindowedApp) : Prop where
  updates : s.pendingUpdates = s.controls.count .update + s.controls.count .flush
  flushing : s.controls.count .flush = if s.flushingEffects then 1 else 0
  outermost : s.controls.Pairwise fun above below => above = .flush → below = .shutdownFlush

theorem counted_new : new.Counted := ⟨rfl, rfl, List.Pairwise.nil⟩

theorem Counted.step (hs : s.Counted) (h : s.step act = some s') : s'.Counted := by
  obtain ⟨hupdates, hflushing, houtermost⟩ := hs
  cases step_controls h with
  | same f u c =>
    refine ⟨?_, ?_, ?_⟩
    · rw [u, c, hupdates]
    · rw [f, c, hflushing]
    · rw [c]
      exact houtermost
  | begin f u c =>
    refine ⟨?_, ?_, ?_⟩
    · rw [u, c, hupdates, List.count_cons_self, List.count_cons_of_ne (by decide)]
      omega
    · rw [f, c, List.count_cons_of_ne (by decide), hflushing]
    · rw [c]
      exact List.pairwise_cons.mpr ⟨fun _ _ habove => (by cases habove), houtermost⟩
  | finish a i f u c =>
    rw [c] at hupdates hflushing houtermost
    rw [List.count_cons_of_ne (by decide)] at hflushing
    rw [List.count_cons_self, List.count_cons_of_ne (by decide)] at hupdates
    refine ⟨?_, ?_, (List.pairwise_cons.mp houtermost).2⟩
    · omega
    · rw [f, hflushing]
  | flush rest a o f u b c =>
    obtain ⟨hoff, hone⟩ := o
    rw [b] at hupdates hflushing houtermost
    rw [List.count_cons_of_ne (by decide), hoff] at hflushing
    rw [List.count_cons_self, List.count_cons_of_ne (by decide), hone] at hupdates
    have hnoflush : rest.count .flush = 0 := hflushing
    have hnoupdate : rest.count .update = 0 := by omega
    refine ⟨?_, ?_, ?_⟩
    · rw [u, c, hone, List.count_cons_self, List.count_cons_of_ne (by decide)]
      omega
    · rw [f, c, List.count_cons_self, hnoflush]
      rfl
    · rw [c]
      refine List.pairwise_cons.mpr ⟨?_, (List.pairwise_cons.mp houtermost).2⟩
      intro below hbelow _
      cases below with
      | update => exact absurd hbelow (List.count_eq_zero.mp hnoupdate)
      | flush => exact absurd hbelow (List.count_eq_zero.mp hnoflush)
      | shutdownFlush => rfl
  | shutdown a f u c =>
    refine ⟨?_, ?_, ?_⟩
    · rw [u, c, hupdates, List.count_cons_of_ne (by decide), List.count_cons_of_ne (by decide)]
    · rw [f, c, List.count_cons_of_ne (by decide), hflushing]
    · rw [c]
      exact List.pairwise_cons.mpr ⟨fun _ _ habove => (by cases habove), houtermost⟩
  | endFlush f u c =>
    rw [c] at hupdates hflushing houtermost
    rw [List.count_cons_self] at hflushing hupdates
    rw [List.count_cons_of_ne (by decide)] at hupdates
    have hnoflush : s'.controls.count .flush = 0 := by
      split at hflushing <;> omega
    refine ⟨?_, ?_, (List.pairwise_cons.mp houtermost).2⟩
    · omega
    · rw [f, hnoflush]
      rfl
  | endShutdown f u c =>
    rw [c] at hupdates hflushing houtermost
    rw [List.count_cons_of_ne (by decide)] at hflushing
    rw [List.count_cons_of_ne (by decide), List.count_cons_of_ne (by decide)] at hupdates
    refine ⟨?_, ?_, (List.pairwise_cons.mp houtermost).2⟩
    · rw [u, hupdates]
    · rw [f, hflushing]

/-! ### Flushes that exclude each other -/

/-- At most one flush is active, and where the end of an update has begun it, no
update was under way outside of that. -/
structure Exclusive (s : WindowedApp) : Prop where
  one : (s.frames.filter WindowFrame.isFlush).length ≤ 1
  outermost : s.frames.Pairwise fun above below => above = .flush → below.isUpdate = false

/-- `App::shutdown` drops the windows while no flush is active, and no update ends
that is the only one while a shutdown flushes. -/
def FlushesApart (s : WindowedApp) : WindowAct → Prop
  | .clearWindows => ∀ frame ∈ s.frames, frame.isFlush = false
  | .finishUpdate => s.pendingUpdates = 1 → .shutdownFlush ∉ s.frames
  | _ => True

instance FlushesApart.decidable (s : WindowedApp) (act : WindowAct) :
    Decidable (s.FlushesApart act) := by
  cases act with
  | clearWindows => exact inferInstanceAs (Decidable (∀ frame ∈ s.frames, frame.isFlush = false))
  | finishUpdate =>
    exact inferInstanceAs (Decidable (s.pendingUpdates = 1 → WindowFrame.shutdownFlush ∉ s.frames))
  | _ => exact isTrue trivial

attribute [local simp] WindowFrame.control WindowFrame.isFlush WindowFrame.isUpdate

theorem length_filter_isFlush (frames : List WindowFrame) :
    (frames.filter WindowFrame.isFlush).length =
      (frames.filterMap WindowFrame.control).count .flush +
        (frames.filterMap WindowFrame.control).count .shutdownFlush := by
  induction frames with
  | nil => rfl
  | cons frame frames ih =>
    cases frame <;>
      simp [List.filter_cons] at ih ⊢ <;>
      omega

/-- The number of flushes that are active. -/
def flushes (s : WindowedApp) : Nat := s.controls.count .flush + s.controls.count .shutdownFlush

theorem flushes_eq (s : WindowedApp) :
    s.flushes = (s.frames.filter WindowFrame.isFlush).length := (length_filter_isFlush s.frames).symm

theorem flushes_eq_zero : s.flushes = 0 ↔ ∀ frame ∈ s.frames, frame.isFlush = false := by
  rw [flushes_eq, List.length_eq_zero_iff, List.filter_eq_nil_iff]
  simp only [Bool.not_eq_true]

theorem mem_controls {control : Control} :
    control ∈ s.controls ↔ ∃ frame ∈ s.frames, frame.control = some control := List.mem_filterMap

theorem control_eq_shutdownFlush {frame : WindowFrame} :
    frame.control = some .shutdownFlush ↔ frame = .shutdownFlush := by
  cases frame <;> simp

theorem shutdownFlush_notMem :
    .shutdownFlush ∉ s.frames ↔ s.controls.count .shutdownFlush = 0 := by
  rw [List.count_eq_zero, mem_controls]
  refine not_congr ⟨fun h => ⟨_, h, rfl⟩, ?_⟩
  rintro ⟨frame, hframe, hcontrol⟩
  rwa [control_eq_shutdownFlush.mp hcontrol] at hframe

theorem isUpdate_iff {frame : WindowFrame} :
    frame.isUpdate = true ↔ frame.control = some .update ∨ frame.control = some .flush := by
  cases frame <;> simp

/-- What the end of an update has begun is always alone among the updates, so flushes
exclude each other if there is one at most. -/
theorem Counted.exclusive_iff (hs : s.Counted) :
    s.Exclusive ↔ s.flushes ≤ 1 := by
  constructor
  · intro h
    rw [flushes_eq]
    exact h.one
  · intro h
    refine ⟨?_, ?_⟩
    · rwa [← flushes_eq]
    · refine (List.pairwise_filterMap.mp hs.outermost).imp ?_
      rintro above below hbelow rfl
      rw [Bool.eq_false_iff]
      intro hupdate
      rcases isUpdate_iff.mp hupdate with hcontrol | hcontrol
      · cases hbelow .flush rfl .update hcontrol rfl
      · cases hbelow .flush rfl .flush hcontrol rfl

theorem step_finishUpdate (h : s.step .finishUpdate = some s') :
    ∃ rest, s.controls = .update :: rest.filterMap WindowFrame.control ∧ s' = s.finishUpdate rest := by
  obtain ⟨-, ⟨-, hclient⟩ | ⟨-, henter⟩ | ⟨frame, rest, hframes, hproceed | hflush⟩⟩ := step_cases h
  · cases hclient
  · cases henter
  · have hcontrols : ∀ {t}, s.frames = t :: rest → t.control = some .update →
        s.controls = .update :: rest.filterMap WindowFrame.control := by
      intro t ht hcontrol
      rw [controls, ht, List.filterMap_cons, hcontrol]
    cases frame with
    | update => exact ⟨rest, hcontrols hframes rfl, (Option.some.inj hproceed).symm⟩
    | closed => exact ⟨rest, hcontrols hframes rfl, (Option.some.inj hproceed).symm⟩
    | ended => exact ⟨rest, hcontrols hframes rfl, (Option.some.inj hproceed).symm⟩
    | opening id stage => cases stage <;> cases hproceed
    | _ => cases hproceed
  · cases (flush_eq_none (Or.inl rfl) frame rest).symm.trans hflush

theorem step_clearWindows (h : s.step .clearWindows = some s') :
    ∃ rest, s.frames = .shutdown :: rest ∧ s' = s.clearWindows rest := by
  obtain ⟨-, ⟨-, hclient⟩ | ⟨-, henter⟩ | ⟨frame, rest, hframes, hproceed | hflush⟩⟩ := step_cases h
  · cases hclient
  · cases henter
  · cases frame with
    | shutdown => exact ⟨rest, hframes, (Option.some.inj hproceed).symm⟩
    | opening id stage => cases stage <;> cases hproceed
    | _ => cases hproceed
  · cases (flush_eq_none (Or.inr rfl) frame rest).symm.trans hflush

theorem exclusive_finishUpdate (hs : s.Counted) (hone : s.flushes ≤ 1)
    (hcontrols : s.controls = .update :: rest.filterMap WindowFrame.control) :
    (s.finishUpdate rest).flushes ≤ 1 ↔ s.FlushesApart .finishUpdate := by
  obtain ⟨hupdates, hflushing, -⟩ := hs
  unfold flushes at hone
  rw [hcontrols] at hupdates hflushing hone
  rw [List.count_cons_self, List.count_cons_of_ne (by decide)] at hupdates
  rw [List.count_cons_of_ne (by decide)] at hflushing
  rw [List.count_cons_of_ne (by decide), List.count_cons_of_ne (by decide)] at hone
  have hcond : s.FlushesApart .finishUpdate ↔ (s.pendingUpdates = 1 →
      (rest.filterMap WindowFrame.control).count .shutdownFlush = 0) := by
    show (_ → _) ↔ _
    rw [shutdownFlush_notMem, hcontrols, List.count_cons_of_ne (by decide)]
  rw [hcond]
  unfold finishUpdate
  split
  · rename_i houtermost
    obtain ⟨hoff, hlast⟩ := houtermost
    rw [hoff] at hflushing
    simp only [Bool.false_eq_true, if_false] at hflushing
    have hafter : controls { s with flushingEffects := true, frames := .flush :: rest } =
        .flush :: rest.filterMap WindowFrame.control := rfl
    rw [flushes, hafter, List.count_cons_self, List.count_cons_of_ne (by decide)]
    omega
  · rename_i hinside
    refine iff_of_true hone fun hlast => ?_
    cases hon : s.flushingEffects with
    | false => exact absurd ⟨hon, hlast⟩ hinside
    | true =>
      rw [hon, if_pos rfl] at hflushing
      omega

/-- **The flushes after a step** exclude each other if those before it do, exactly if the
step keeps them apart. -/
theorem exclusive_step (hs : s.Counted) (hone : s.Exclusive) (h : s.step act = some s') :
    s'.Exclusive ↔ s.FlushesApart act := by
  rw [hs.exclusive_iff] at hone
  rw [(hs.step h).exclusive_iff]
  by_cases hfinish : act = .finishUpdate
  · subst hfinish
    obtain ⟨rest, hcontrols, rfl⟩ := step_finishUpdate h
    exact exclusive_finishUpdate hs hone hcontrols
  · by_cases hclear : act = .clearWindows
    · subst hclear
      obtain ⟨rest, hframes, rfl⟩ := step_clearWindows h
      have hcontrols : s.controls = rest.filterMap WindowFrame.control := by
        rw [controls, hframes]
        rfl
      have hafter : (s.clearWindows rest).flushes = s.flushes + 1 := by
        have hpush : (s.clearWindows rest).controls = .shutdownFlush :: s.controls := by
          rw [hcontrols]
          rfl
        rw [flushes, hpush, List.count_cons_self, List.count_cons_of_ne (by decide), flushes]
        omega
      rw [hafter]
      show _ ↔ ∀ frame ∈ s.frames, frame.isFlush = false
      rw [← flushes_eq_zero]
      omega
    · have hcond : s.FlushesApart act := by
        unfold FlushesApart
        split <;> first | contradiction | trivial
      refine iff_of_true ?_ hcond
      cases step_controls h with
      | same f u c => rwa [flushes, c]
      | begin f u c => rwa [flushes, c, List.count_cons_of_ne (by decide), List.count_cons_of_ne (by decide)]
      | finish a i f u c => exact absurd a hfinish
      | flush rest a o f u b c => exact absurd a hfinish
      | shutdown a f u c => exact absurd a hclear
      | endFlush f u c =>
        rw [flushes, c, List.count_cons_self, List.count_cons_of_ne (by decide)] at hone
        unfold flushes
        omega
      | endShutdown f u c =>
        rw [flushes, c, List.count_cons_self, List.count_cons_of_ne (by decide)] at hone
        unfold flushes
        omega

/-- **Flushes exclude each other** in all states of a run exactly if `shutdown` drops the
windows only while no flush is active, and no update ends that is the only one while a
shutdown flushes. -/
theorem flushes_exclusive (as : List WindowAct) (h : (run step new as).isSome) :
    Throughout step Exclusive new as ↔ RunMeets step FlushesApart new as := by
  obtain ⟨s, hs⟩ := Option.isSome_iff_exists.mp h
  exact throughout_iff (fun _ _ _ => Counted.step) (fun _ _ _ => exclusive_step) as counted_new
    ⟨by decide, List.Pairwise.nil⟩ hs

/-- An update with an effect, and a shutdown after it. -/
theorem flushes_exclusive_updateThenShutdown :
    Throughout step Exclusive new [.startUpdate, .pushEffect .defer, .finishUpdate, .popEffect,
      .startUpdate, .finishUpdate, .endHandler, .endFlush, .shutdown, .clearWindows, .endFlush] :=
  (flushes_exclusive _ (by decide)).mpr
    (by decide)

/-- An observer of quitting notifies of an entity, and the handler of that updates. -/
theorem flushes_nested_shutdown : ¬ ∀ as, (run step new as).isSome → Throughout step Exclusive new as := by
  intro h
  obtain ⟨s, hs⟩ := Option.isSome_iff_exists.mp (by decide : (run step new [.shutdown,
    .pushEffect (.notify 0), .clearWindows, .popEffect, .startUpdate, .finishUpdate]).isSome)
  have hone := ((h _ (Option.isSome_iff_exists.mpr ⟨s, hs⟩)).last _ hs).one
  have hcount : (run step new [.shutdown, .pushEffect (.notify 0), .clearWindows, .popEffect,
      .startUpdate, .finishUpdate]).map (fun s => (s.frames.filter WindowFrame.isFlush).length) =
      some 2 := by decide
  rw [hs] at hcount
  have htwo : (s.frames.filter WindowFrame.isFlush).length = 2 := Option.some.inj hcount
  omega

end WindowedApp

end FcGpui
