import FcGpui.Window.PaintRounds

/-!
# Copied ranges are of the last frame

`draw_fresh`: in every run of draws in which a draw reuses only views that the draw
before came by, every range that is copied was recorded by the draw before, by the
same view or by a deferred draw at the same place, is within the bounds of every
vector of the rendered frame and selects what was appended when it was recorded.
No draw panics, unless draws are deferred in draws deferred more than ten deep.

The condition (`ReusesVisited`) is about what is known before the draw.  A view that
is inside a reused view or inside a deferred draw that was copied is not come by:
its state is carried over with ranges of an earlier frame.  Below a view that is
rendered nothing is reused, which keeps such a state from being used; but what is
deferred there is drawn after the flag that says so was put back.
`stale_range_copied` is a run of three draws in which a range of the first frame is
copied from the second.
-/

namespace FcGpui

section FreshRanges

variable {E K : Type}

theorem map_unit_congr {α β : Type} {l : List α} {m : List β} (h : l.length = m.length) :
    l.map (fun _ => ()) = m.map fun _ => () := by
  rw [List.map_const', List.map_const', h]

namespace Frame

theorem length_putLast {handler : E} {l slots : List (Option E)}
    (h : restoreInputHandler.putLast handler l = some slots) : slots.length = l.length := by
  induction l generalizing slots with
  | nil => exact absurd h (by simp [restoreInputHandler.putLast])
  | cons a l ih =>
    cases a with
    | none =>
      obtain rfl := Option.some.inj h
      rfl
    | some other =>
      obtain ⟨slots', hslots', rfl⟩ := Option.map_eq_some_iff.mp h
      rw [List.length_cons, List.length_cons, ih hslots']

theorem length_takeLast (l : List (Option E)) : (takeInputHandler.takeLast l).2.length = l.length := by
  induction l with
  | nil => rfl
  | cons a l ih =>
    cases a with
    | none => exact congrArg Nat.succ ih
    | some handler => rfl

/-- The handler comes back to a slot or to a new one. -/
theorem grows_restoreInputHandler (f : Frame E K) (handler : Option E) :
    f.Grows (f.restoreInputHandler handler) := by
  cases handler with
  | none => exact Grows.refl f
  | some handler =>
    simp only [restoreInputHandler]
    cases hslots : restoreInputHandler.putLast handler f.inputHandlers.reverse with
    | none =>
      refine { Grows.refl f with inputHandlers := ?_ }
      show _ <+: (f.inputHandlers ++ [some handler]).map fun _ => ()
      rw [List.map_append]
      exact List.prefix_append _ _
    | some slots =>
      have hlength := length_putLast hslots
      rw [List.length_reverse] at hlength
      refine { Grows.refl f with inputHandlers := ?_ }
      show _ <+: slots.reverse.map fun _ => ()
      rw [map_unit_congr (l := slots.reverse) (m := f.inputHandlers)
        (by rw [List.length_reverse, hlength])]

theorem grows_takeInputHandler (f : Frame E K) : f.Grows f.takeInputHandler.2 := by
  refine { Grows.refl f with inputHandlers := ?_ }
  show _ <+: (takeInputHandler.takeLast f.inputHandlers.reverse).2.reverse.map fun _ => ()
  rw [map_unit_congr (l := (takeInputHandler.takeLast f.inputHandlers.reverse).2.reverse)
    (m := f.inputHandlers) (by rw [List.length_reverse, length_takeLast, List.length_reverse])]

end Frame

/-- A state that the previous frame no longer has is the one of the next frame. -/
theorem lookup_finishStates {accessed : List (GlobalElementId × StateType)}
    {previous states : AList fun _ : GlobalElementId => AnyViewState K} {id : GlobalElementId}
    (h : previous.lookup id = none) :
    (finishStates accessed previous states).lookup id = states.lookup id := by
  unfold finishStates
  induction accessed generalizing previous states with
  | nil => rfl
  | cons key accessed ih =>
    rw [List.foldl_cons]
    cases htype : key.2 with
    | other _ => exact ih h
    | anyViewState =>
      dsimp only
      cases hfound : previous.lookup key.1 with
      | none => exact ih h
      | some st =>
        have hne : id ≠ key.1 := by
          rintro rfl
          rw [h] at hfound
          exact absurd hfound (by simp)
        have herase : (previous.erase key.1).lookup id = none := by
          rw [AList.lookup_erase_ne hne]
          exact h
        exact (ih herase).trans (AList.lookup_insert_ne hne)

namespace Window

variable {s b : Window E K}

theorem begins_beginDraw (s : Window E K) (input : DrawInput E K) : Begins s (s.beginDraw input) := by
  have hkept : ∀ (f : Frame E K) (handler : Option E),
      (f.restoreInputHandler handler).elementStates = f.elementStates ∧
        (f.restoreInputHandler handler).deferredDraws = f.deferredDraws := by
    intro f handler
    cases handler with
    | none => exact ⟨rfl, rfl⟩
    | some handler =>
      simp only [Frame.restoreInputHandler]
      split
      · exact ⟨rfl, rfl⟩
      · exact ⟨rfl, rfl⟩
  exact ⟨(hkept _ _).1, (hkept _ _).2, s.rendered.grows_restoreInputHandler s.inputHandler⟩

theorem Ready.drawing (hs : s.Ready) (input : DrawInput E K) :
    Drawing s (s.beginDraw input) [] (s.beginDraw input) where
  shape := SameShape.refl _
  dirtyViews := rfl
  kept _ _ := rfl
  taken _ hid := absurd hid List.not_mem_nil
  stored id st hst := by
    have hst : s.next.elementStates.lookup id = some st := hst
    rw [hs.next] at hst
    exact absurd hst (by simp [Frame.empty])
  recorded _ hr := absurd hr List.not_mem_nil
  prepaintRecords _ hr := absurd hr List.not_mem_nil
  paintRecords _ hr := absurd hr List.not_mem_nil
  prepaintReplays _ he := absurd he List.not_mem_nil
  paintReplays _ he := absurd he List.not_mem_nil

variable [DecidableEq K]

/-- The cached views that a draw will come by. -/
def plannedVisits (s : Window E K) (input : DrawInput E K) : List Visit :=
  input.root.visits (s.beginDraw input) [] input.refresh true

/-- The cached views that the draw will come by have distinct ids, and each of those it
will reuse was itself come by in the last draw, and painted there if it is to be
painted. -/
def ReusesVisited (s : Window E K) (input : DrawInput E K) : Prop :=
  ((s.plannedVisits input).map Visit.id).Nodup ∧
    (∀ v ∈ s.plannedVisits input, v.reused = true → s.PrepaintedLast v.id) ∧
    ∀ v ∈ s.plannedVisits input, v.reused = true → v.shown = true → s.PaintedLast v.id

instance (s : Window E K) (id : GlobalElementId) : Decidable (s.PrepaintedLast id) :=
  inferInstanceAs (Decidable (∃ r ∈ s.log.prepaintRecords, r.drawer = .view id))

instance (s : Window E K) (id : GlobalElementId) : Decidable (s.PaintedLast id) :=
  inferInstanceAs (Decidable (∃ r ∈ s.log.paintRecords, r.drawer = .view id))

instance (s : Window E K) (input : DrawInput E K) : Decidable (s.ReusesVisited input) :=
  inferInstanceAs (Decidable (_ ∧ _ ∧ _))

variable {input : DrawInput E K}

theorem ReusesVisited.visitable (h : s.ReusesVisited input) : Visitable s [] (s.plannedVisits input) :=
  ⟨fun _ _ => List.not_mem_nil, h.1, h.2.1⟩

theorem Prepaints.rounds (hs : s.Ready) {p : Prepainted E}
    {planned : List Visit} {w : Window E K} {draws : List (DeferredDraw E K)}
    (h : Prepaints s (s.beginDraw input) [] planned (p.visits [] true) (s.beginDraw input) w draws) :
    Rounds s (s.beginDraw input) (p.visits [] true) planned []
      (List.range' 0 (w.next.deferredDraws.length - 0)) w := by
  have hdraws : w.next.deferredDraws = draws := by
    rw [h.deferredDraws]
    show s.next.deferredDraws ++ draws = draws
    rw [hs.next]
    rfl
  have hvisits : (List.range' 0 (w.next.deferredDraws.length - 0)).flatMap
      (visitsAt (s.beginDraw input) w) = draws.flatMap (DeferredDraw.visits (s.beginDraw input)) := by
    rw [visitsAt, hdraws]
    exact flatMap_itemsAt_append _ [] draws
  refine ⟨?_, h.refreshing, fun v hv => ?_, ?_, ?_, fun ix _ d hd => ?_,
    fun ix hix => absurd hix List.not_mem_nil, h.paintLog⟩
  · rw [List.flatMap_nil, List.append_nil]
    exact h.drawing
  · rw [List.flatMap_nil, List.append_nil] at hv
    exact h.states v hv
  · rw [List.nil_append, Nat.sub_zero, ← List.range_eq_range']
  · rw [List.nil_append, hvisits]
    exact h.perm
  · rw [hdraws] at hd
    exact h.waiting d (List.mem_of_getElem? hd)

/-- The phases of a draw: its root is prepainted, then what was deferred; then both are
painted. -/
structure Phases (s : Window E K) (input : DrawInput E K) (root : Prepainted E)
    (draws : List (DeferredDraw E K)) (done order : List Nat) (w₁ w₂ w₃ w₄ : Window E K) : Prop where
  prepaintRoot : prepaint input.root [] (s.beginDraw input) = .ok (root, w₁)
  prepaints : Prepaints s (s.beginDraw input) [] (s.plannedVisits input) (root.visits [] true)
    (s.beginDraw input) w₁ draws
  prepaintDeferred : prepaintDeferredDraws 10 0 w₁ = .ok w₂
  rounds : Rounds s (s.beginDraw input) (root.visits [] true) (s.plannedVisits input) done [] w₂
  paintRoot : paint root [] w₂ = .ok w₃
  paintDeferred : w₃.paintDeferredDraws = .ok w₄
  paintRounds : PaintRounds s (s.beginDraw input) w₂
    ((root.visits [] true ++ done.flatMap (visitsAt (s.beginDraw input) w₂)).map Visit.id) order []
    w₄

theorem Ready.draw (hs : s.Ready) (h : s.ReusesVisited input) :
    s.draw input = .error .deferredDepth ∨
      ∃ root draws done order w₁ w₂ w₃ w₄, s.draw input = .ok w₄.endDraw ∧
        Phases s input root draws done order w₁ w₂ w₃ w₄ := by
  have hb := begins_beginDraw s input
  obtain ⟨root, w₁, draws, hroot, hprepaints⟩ := prepaint_spec hs hb input.root [] true []
    (s.beginDraw input) (hs.drawing input) h.visitable
  have hstart : s.draw input = (do
      let w ← prepaintDeferredDraws 10 0 w₁
      let w ← paint root [] w
      let w ← w.paintDeferredDraws
      return w.endDraw) := by
    unfold Window.draw
    exact bind_of_ok hroot _
  rw [hstart]
  rcases prepaintDeferredDraws_spec hs hb h.visitable 10 (Nat.zero_le _) (hprepaints.rounds hs) with
    ⟨w₂, done, hdeferred, hrounds⟩ | hdeep
  · right
    obtain ⟨w₃, w₄, order, hpaint, hpaintDeferred, hpaintRounds⟩ :=
      paintAll_spec hs hb h.visitable h.2.2 hrounds
    refine ⟨root, draws, done, order, w₁, w₂, w₃, w₄, ?_,
      ⟨hroot, hprepaints, hdeferred, hrounds, hpaint, hpaintDeferred, hpaintRounds⟩⟩
    rw [bind_of_ok hdeferred, bind_of_ok hpaint, bind_of_ok hpaintDeferred]
    rfl
  · left
    rw [hdeep]
    rfl

omit [DecidableEq K] in
/-- The finished frame has grown from the one that was built. -/
theorem grows_endDraw (w : Window E K) : w.next.Grows w.endDraw.rendered :=
  { w.next.grows_takeInputHandler with }

theorem PaintRounds.ready_endDraw {touched : List GlobalElementId} {order : List Nat}
    {w₀ w : Window E K} (h : PaintRounds s b w₀ touched order [] w) : w.endDraw.Ready := by
  have hstates : ∀ id ∈ touched,
      w.endDraw.rendered.elementStates.lookup id = w.next.elementStates.lookup id :=
    fun id hid => lookup_finishStates (h.drawing.taken id hid)
  refine ⟨rfl, fun id hid => ?_, fun id hid => ?_, fun ix d hd => h.prepainted ix d hd,
    fun ix d hd => ?_, fun r hr => ?_, fun r hr => ?_⟩
  · obtain ⟨r, hr, hdrawer⟩ := hid
    have htouched := h.drawing.recorded r hr id hdrawer
    obtain ⟨st, hst, hrecord⟩ := h.prepaintStored id htouched
    exact ⟨st, (hstates id htouched).trans hst, hrecord⟩
  · obtain ⟨r, hr, hdrawer⟩ := hid
    obtain ⟨st, hst, hrecord⟩ := h.paintStored r hr id hdrawer
    exact ⟨st, (hstates id (h.drawing.stored id st hst)).trans hst, hrecord⟩
  · apply h.painted ix _ d hd
    have horder := h.order
    rw [List.append_nil] at horder
    exact horder.symm.subset (List.mem_range.mpr (List.getElem?_eq_some_iff.mp hd).1)
  · exact (h.drawing.prepaintRecords r hr).mono w.grows_endDraw
  · exact (h.drawing.paintRecords r hr).mono w.grows_endDraw

theorem draw_of_step {s' : Window E K} (h : s.step input = some s') : s.draw input = .ok s' := by
  unfold Window.step at h
  cases hdraw : s.draw input with
  | error panic =>
    rw [hdraw] at h
    exact absurd h (by simp [Except.toOption])
  | ok s'' =>
    rw [hdraw] at h
    rw [Option.some.inj h]

theorem Ready.step (hs : s.Ready) (h : s.ReusesVisited input)
    {s' : Window E K} (hstep : s.step input = some s') : s'.Ready := by
  rcases hs.draw h with hdeep | ⟨root, draws, done, order, w₁, w₂, w₃, w₄, hdraw, hphases⟩
  · exact absurd (hdeep.symm.trans (draw_of_step hstep)) (by simp)
  · obtain rfl := Except.ok.inj (hdraw.symm.trans (draw_of_step hstep))
    exact hphases.paintRounds.ready_endDraw

/-- Every range that was copied was recorded in the last draw. -/
def FreshReplays (s s' : Window E K) : Prop :=
  (∀ e ∈ s'.log.prepaintReplays, s.FreshPrepaint e) ∧ ∀ e ∈ s'.log.paintReplays, s.FreshPaint e

/-- **In a run of draws that reuse only views come by in the draw before, every range
that is copied is one of the frame it is copied from.** -/
theorem draw_fresh {inputs : List (DrawInput E K)} {s : Window E K}
    (hrun : run Window.step new inputs = some s)
    (hmeets : RunMeets Window.step ReusesVisited new inputs) {input : DrawInput E K}
    (hinput : s.ReusesVisited input) :
    s.draw input = .error .deferredDepth ∨ ∃ s', s.draw input = .ok s' ∧ s.FreshReplays s' := by
  have hs : s.Ready := run_invariant (fun _ _ _ hs hc hstep => hs.step hc hstep) inputs ready_new
    hmeets hrun
  rcases hs.draw hinput with hdeep | ⟨root, draws, done, order, w₁, w₂, w₃, w₄, hdraw, hphases⟩
  · exact .inl hdeep
  · right
    refine ⟨w₄.endDraw, hdraw, ?_, ?_⟩
    · exact hphases.paintRounds.drawing.prepaintReplays
    · exact hphases.paintRounds.drawing.paintReplays

/-! ### A range that is not fresh -/

/-- A cached view in a draw deferred by another one, drawn below a view that shows
`before` first. -/
def deferredTree (before : Element Nat Unit) : Element Nat Unit :=
  .view 0 [] (.append before (.cached 1 () [] (.deferred 0 (.cached 2 () []
    (.leaf [.insertHitbox 7] [.insertPrimitive 7])))))

/-- The first two draws of a run: in the second one the view 1 is reused, after a new
hitbox. -/
def twoDraws : List (DrawInput Nat Unit) :=
  [⟨deferredTree .empty, ∅, false⟩, ⟨deferredTree (.leaf [.insertHitbox 5] []), {0}, false⟩]

/-- Both of them reuse only what the draw before came by. -/
theorem draw_fresh_twoDraws : ∃ s s', run Window.step new (twoDraws.take 1) = some s ∧
    s.draw ⟨deferredTree (.leaf [.insertHitbox 5] []), {0}, false⟩ = .ok s' ∧
    s'.log.prepaintReplays.length = 2 ∧ s.FreshReplays s' := by
  have hrun : ∃ s ∈ run Window.step new (twoDraws.take 1),
      s.ReusesVisited ⟨deferredTree (.leaf [.insertHitbox 5] []), {0}, false⟩ ∧
      ∃ s' ∈ s.step ⟨deferredTree (.leaf [.insertHitbox 5] []), {0}, false⟩,
        s'.log.prepaintReplays.length = 2 := by
    decide +kernel
  have hmeets : RunMeets Window.step ReusesVisited new (twoDraws.take 1) := by
    decide +kernel
  obtain ⟨s, hs, hinput, s', hs', hlength⟩ := hrun
  rcases draw_fresh hs hmeets hinput with hdeep | ⟨s'', hdraw, hfresh⟩
  · exact absurd (hdeep.symm.trans (draw_of_step hs')) (by simp)
  · obtain rfl := Except.ok.inj (hdraw.symm.trans (draw_of_step hs'))
    exact ⟨s, s'', hs, hdraw, hlength, hfresh⟩

/-- **In a third draw the view 1 is rendered and the view 2 in its deferred draw is
reused: what is copied is a range of the first frame.** -/
theorem stale_range_copied : ∃ s s', run Window.step new twoDraws = some s ∧
    s.draw ⟨deferredTree (.leaf [.insertHitbox 5] []), {0, 1}, false⟩ = .ok s' ∧
    ¬ s.FreshReplays s' := by
  have hstale : ∃ s ∈ run Window.step new twoDraws,
      ∃ s' ∈ s.step ⟨deferredTree (.leaf [.insertHitbox 5] []), {0, 1}, false⟩,
        ∃ e ∈ s'.log.prepaintReplays, ∀ r ∈ s.log.prepaintRecords, r.range ≠ e.range := by
    decide +kernel
  obtain ⟨s, hs, s', hs', e, he, hnone⟩ := hstale
  refine ⟨s, s', hs, draw_of_step hs', fun hfresh => ?_⟩
  obtain ⟨r, hr, hrange, -⟩ := hfresh.1 e he
  exact hnone r hr hrange

end Window

end FreshRanges

end FcGpui
