import FcGpui.Elements.PressedElements

/-!
# Clicks are pairs of a press and its release

A click is to pair a left press over an element with the first left release after it, over the element
as well, and no drag is to have come of the press.  The release is not asked for its button, though;
a press stays where it is when another listener stops the capture phase in front of the element, and in
the variable of the listener when the bubble phase does not reach it; and a drag forgets the press of
its own element only, those of the others with the next frame.

* `dispatchMouseEvent_up`: what a release does, for any listeners that stop it.
* `Unreleased`: what all other acts do.
* `clicksPaired`: in a run whose releases avoid the four (`ReleaseKept`), all clicks are pairs.
-/

namespace FcGpui.Mouse

open Actions (DispatchPhase)

variable {E : Type}

/-! ### What a run shows of a click -/

def MouseAct.IsLeftRelease : MouseAct E → Prop
  | .mouse d => match d.event with
    | .up event => event.button = .left
    | _ => False
  | _ => False

/-- The press was made over the element. -/
def PressedOver (acts : List (MouseAct E)) (id : E) (press : Press) : Prop :=
  press.event.button = .left ∧
    ∃ d, acts[press.time]? = some (.mouse d) ∧ d.event = .down press.event ∧ d.hovered id = true

/-- The release was made over the element. -/
def ReleasedOver (acts : List (MouseAct E)) (click : Click E) : Prop :=
  click.up.button = .left ∧
    ∃ d, acts[click.time]? = some (.mouse d) ∧ d.event = .up click.up ∧ d.hovered click.element = true

/-- No left release comes between two times. -/
def NoLeftRelease (acts : List (MouseAct E)) (start stop : Nat) : Prop :=
  ∀ t act, start < t → t < stop → acts[t]? = some act → ¬ act.IsLeftRelease

structure Paired (acts : List (MouseAct E)) (drags : List (DragStart E)) (click : Click E) : Prop where
  pressed : PressedOver acts click.element click.down
  released : ReleasedOver acts click
  before : click.down.time < click.time
  first : NoLeftRelease acts click.down.time click.time
  undragged : ∀ drag ∈ drags, drag.down.time ≠ click.down.time

/-- Every click pairs a press with its release, and no press is clicked twice on an element. -/
structure ClicksPaired (acts : List (MouseAct E)) (w : PressWindow E) : Prop where
  paired : ∀ click ∈ w.clicks, Paired acts w.drags click
  once : (w.clicks.map fun click => (click.element, click.down.time)).Nodup

/-! ### What a release does -/

/-- Another listener stops the capture phase. -/
def Dispatch.stopsCapture (d : Dispatch E) : Listener E → Bool
  | .other key => d.stops .capture key
  | _ => false

namespace PressWindow

variable [DecidableEq E] {w w' : PressWindow E} {d : Dispatch E} {id : E}

/-- The capture phase reaches the element. -/
def captures (w : PressWindow E) (d : Dispatch E) (id : E) : Bool :=
  decide (.mouseUp id ∈ called d.stopsCapture w.mouseListeners)

/-- The release takes the press that the element remembers. -/
def takes (w : PressWindow E) (d : Dispatch E) (id : E) : Bool :=
  w.captures d id && d.hovered id && (w.pendingMouseDown id).isSome

/-- The press that the listener of the element has after the capture phase. -/
def held (w : PressWindow E) (d : Dispatch E) (id : E) : Option Press :=
  if w.takes d id then w.pendingMouseDown id else (w.listeners id).capturedMouseDown

/-- The bubble phase is stopped by another listener, or by the click listeners of an element. -/
def stopsBubble (w : PressWindow E) (d : Dispatch E) : Listener E → Bool
  | .other key => d.stops .bubble key
  | .mouseUp id => (w.held d id).isSome && (w.listeners id).clickListeners && d.clickStops id
  | _ => false

/-- Both phases reach the element, and its listener has a press for its click listeners. -/
def fires (w : PressWindow E) (d : Dispatch E) (id : E) : Bool :=
  !w.mouseListeners.any d.stopsCapture && decide (.mouseUp id ∈ called (w.stopsBubble d) w.mouseListeners.reverse) &&
    (w.listeners id).clickListeners && (w.held d id).isSome

/-- A window between the phases of a release: what the listeners called so far have done. -/
structure Captured (w : PressWindow E) (d : Dispatch E) (done : List (Listener E)) (u : PressWindow E) : Prop where
  pending : ∀ id, u.pendingMouseDown id = if .mouseUp id ∈ done then none else w.pendingMouseDown id
  captured : ∀ id, (u.listeners id).capturedMouseDown =
    if .mouseUp id ∈ done ∧ d.hovered id = true ∧ (w.pendingMouseDown id).isSome = true then w.pendingMouseDown id
    else (w.listeners id).capturedMouseDown
  clickListeners : ∀ id, (u.listeners id).clickListeners = (w.listeners id).clickListeners
  frame : u.frame = w.frame
  clicks : u.clicks = w.clicks
  drags : u.drags = w.drags
  time : u.time = w.time

theorem onMouseUp_capture (event : MouseUpEvent) : w.onMouseUp d event .capture id =
    { w with
      pendingMouseDown := Function.update w.pendingMouseDown id none
      listeners := Function.update w.listeners id { w.listeners id with
        capturedMouseDown := if d.hovered id = true ∧ (w.pendingMouseDown id).isSome = true then w.pendingMouseDown id
          else (w.listeners id).capturedMouseDown } } := by
  rw [onMouseUp]
  cases hpending : w.pendingMouseDown id with
  | none =>
    have hsame : Function.update w.pendingMouseDown id none = w.pendingMouseDown := by
      rw [← hpending, Function.update_eq_self]
    rw [hsame, if_neg (by simp), Function.update_eq_self]
  | some press =>
    dsimp only
    by_cases hhovered : d.hovered id = true
    · rw [if_pos hhovered, if_pos ⟨hhovered, rfl⟩]
      rfl
    · rw [if_neg hhovered, if_neg fun h => hhovered h.1, Function.update_eq_self]
      rfl

theorem captured_nil : Captured w d [] { w with propagateEvent := true } where
  pending _ := (if_neg List.not_mem_nil).symm
  captured _ := (if_neg fun h => List.not_mem_nil h.1).symm
  clickListeners _ := rfl
  frame := rfl
  clicks := rfl
  drags := rfl
  time := rfl

variable {done : List (Listener E)} {u : PressWindow E}

/-- A call that is not of a listener for releases. -/
theorem Captured.concat_other (hu : Captured w d done u)
    {listener : Listener E} (hne : ∀ id, listener ≠ .mouseUp id) (propagateEvent : Bool) :
    Captured w d (done ++ [listener]) { u with propagateEvent := propagateEvent } := by
  have hmem : ∀ id, .mouseUp id ∈ done ++ [listener] ↔ .mouseUp id ∈ done := by
    intro id
    rw [List.mem_append, List.mem_singleton]
    exact or_iff_left fun heq => hne id heq.symm
  refine ⟨fun id => ?_, fun id => ?_, hu.clickListeners, hu.frame, hu.clicks, hu.drags, hu.time⟩
  · simp only [hmem id]
    exact hu.pending id
  · simp only [hmem id]
    exact hu.captured id

theorem Captured.concat_mouseUp (hu : Captured w d done u)
    (event : MouseUpEvent) : Captured w d (done ++ [.mouseUp id]) (u.onMouseUp d event .capture id) := by
  rw [onMouseUp_capture]
  refine ⟨fun other => ?_, fun other => ?_, fun other => ?_, hu.frame, hu.clicks, hu.drags, hu.time⟩
  · dsimp only
    by_cases hother : other = id
    · subst hother
      rw [Function.update_self, if_pos (by simp)]
    · rw [Function.update_of_ne hother, hu.pending]
      simp [hother]
  · dsimp only
    by_cases hother : other = id
    · subst hother
      rw [Function.update_self, hu.pending, hu.captured]
      by_cases hdone : Listener.mouseUp other ∈ done
      · simp [hdone]
      · simp [hdone]
    · rw [Function.update_of_ne hother, hu.captured]
      simp [hother]
  · dsimp only
    by_cases hother : other = id
    · subst hother
      rw [Function.update_self]
      exact hu.clickListeners other
    · rw [Function.update_of_ne hother]
      exact hu.clickListeners other

theorem Captured.call {event : MouseUpEvent} (hevent : d.event = .up event)
    (hu : Captured w d done u) (hprop : u.propagateEvent = true) (listener : Listener E) :
    Captured w d (done ++ [listener]) (PressWindow.call d .capture listener u) ∧
      (PressWindow.call d .capture listener u).propagateEvent = !d.stopsCapture listener := by
  have hsame : ({ u with propagateEvent := true } : PressWindow E) = u := by rw [← hprop]
  cases listener with
  | mouseDown id =>
    have hcall : PressWindow.call d .capture (.mouseDown id) u = u := by rw [PressWindow.call, hevent]
    rw [hcall]
    exact ⟨hsame ▸ hu.concat_other (by simp) true, hprop⟩
  | mouseMove id =>
    have hcall : PressWindow.call d .capture (.mouseMove id) u = u := by rw [PressWindow.call, hevent]
    rw [hcall]
    exact ⟨hsame ▸ hu.concat_other (by simp) true, hprop⟩
  | other key =>
    rw [PressWindow.call, Dispatch.stopsCapture]
    cases d.stops .capture key with
    | true => exact ⟨hu.concat_other (by simp) false, rfl⟩
    | false => exact ⟨hsame ▸ hu.concat_other (by simp) true, hprop⟩
  | mouseUp id =>
    have hcall : PressWindow.call d .capture (.mouseUp id) u = u.onMouseUp d event .capture id := by
      rw [PressWindow.call, hevent]
    rw [hcall]
    refine ⟨hu.concat_mouseUp event, ?_⟩
    rw [onMouseUp_capture]
    exact hprop

/-- A window in the bubble phase of a release: what the listeners called so far have done. -/
structure Fired (w : PressWindow E) (event : MouseUpEvent) (done : List (Listener E)) (new : List (Click E))
    (u : PressWindow E) : Prop where
  pending : u.pendingMouseDown = w.pendingMouseDown
  captured : ∀ id, (u.listeners id).capturedMouseDown =
    if .mouseUp id ∈ done then none else (w.listeners id).capturedMouseDown
  clickListeners : ∀ id, (u.listeners id).clickListeners = (w.listeners id).clickListeners
  clicks : u.clicks = w.clicks ++ new
  elements : (new.map Click.element).Nodup
  fired : ∀ click ∈ new, .mouseUp click.element ∈ done ∧
    (w.listeners click.element).capturedMouseDown = some click.down ∧
    (w.listeners click.element).clickListeners = true ∧ click.up = event ∧ click.time = w.time
  drags : u.drags = w.drags
  time : u.time = w.time

section Bubble

variable {event : MouseUpEvent} {done : List (Listener E)} {new : List (Click E)} {u : PressWindow E}

theorem fired_nil : Fired w event [] [] w where
  pending := rfl
  captured _ := (if_neg List.not_mem_nil).symm
  clickListeners _ := rfl
  clicks := (List.append_nil _).symm
  elements := List.nodup_nil
  fired _ h := absurd h List.not_mem_nil
  drags := rfl
  time := rfl

theorem Fired.concat_other (hu : Fired w event done new u) {listener : Listener E}
    (hne : ∀ id, (u.listeners id).capturedMouseDown ≠ none → listener ≠ .mouseUp id) (propagateEvent : Bool) :
    Fired w event (done ++ [listener]) new { u with propagateEvent := propagateEvent } := by
  refine ⟨hu.pending, fun id => ?_, hu.clickListeners, hu.clicks, hu.elements, fun click hclick => ?_, hu.drags, hu.time⟩
  · show (u.listeners id).capturedMouseDown = _
    by_cases hlistener : listener = .mouseUp id
    · rw [if_pos (by simp [hlistener])]
      by_contra hcaptured
      exact hne id hcaptured hlistener
    · rw [hu.captured id]
      simp [Ne.symm hlistener]
  · obtain ⟨hdone, hrest⟩ := hu.fired click hclick
    exact ⟨List.mem_append_left _ hdone, hrest⟩

/-- The captured press is taken, and clicks if there is somebody to tell. -/
theorem Fired.concat_mouseUp (hu : Fired w event done new u) {press : Press}
    (hpress : (u.listeners id).capturedMouseDown = some press) :
    ∃ new', Fired w event (done ++ [.mouseUp id]) new' (u.onMouseUp d event .bubble id) := by
  have hdone : Listener.mouseUp id ∉ done := by
    intro hmem
    rw [hu.captured id, if_pos hmem] at hpress
    cases hpress
  have hcaptured : (w.listeners id).capturedMouseDown = some press := by
    rw [← hpress, hu.captured id, if_neg hdone]
  have hstate : ∀ other, ((Function.update u.listeners id { u.listeners id with capturedMouseDown := none })
      other).capturedMouseDown =
        if .mouseUp other ∈ done ++ [.mouseUp id] then none else (w.listeners other).capturedMouseDown := by
    intro other
    by_cases hother : other = id
    · subst hother
      rw [Function.update_self, if_pos (by simp)]
    · rw [Function.update_of_ne hother, hu.captured other]
      simp [hother]
  have hclickListeners : ∀ other, ((Function.update u.listeners id
      { u.listeners id with capturedMouseDown := none }) other).clickListeners = (w.listeners other).clickListeners := by
    intro other
    by_cases hother : other = id
    · subst hother
      rw [Function.update_self]
      exact hu.clickListeners other
    · rw [Function.update_of_ne hother]
      exact hu.clickListeners other
  have hfired : ∀ click ∈ new, Listener.mouseUp click.element ∈ done ++ [.mouseUp id] ∧
      (w.listeners click.element).capturedMouseDown = some click.down ∧
      (w.listeners click.element).clickListeners = true ∧ click.up = event ∧ click.time = w.time :=
    fun click hclick => ⟨List.mem_append_left _ (hu.fired click hclick).1, (hu.fired click hclick).2⟩
  rw [onMouseUp]
  dsimp only
  rw [hpress]
  dsimp only
  by_cases hlisteners : (u.listeners id).clickListeners = true
  · rw [if_pos hlisteners]
    refine ⟨new ++ [⟨id, press, event, u.time⟩], hu.pending, hstate, hclickListeners, ?_, ?_, ?_, hu.drags, hu.time⟩
    · show u.clicks ++ _ = _
      rw [hu.clicks, List.append_assoc]
    · rw [List.map_append, List.nodup_append]
      refine ⟨hu.elements, List.nodup_singleton _, ?_⟩
      rintro _ helement other hother rfl
      obtain ⟨click, hclick, rfl⟩ := List.mem_map.mp helement
      obtain rfl : click.element = id := List.mem_singleton.mp hother
      exact hdone (hu.fired click hclick).1
    · intro click hclick
      rcases List.mem_append.mp hclick with hold | hnew
      · exact hfired click hold
      · obtain rfl := List.mem_singleton.mp hnew
        exact ⟨by simp, hcaptured, (hu.clickListeners id).symm.trans hlisteners, rfl, hu.time⟩
  · rw [if_neg hlisteners]
    exact ⟨new, hu.pending, hstate, hclickListeners, hu.clicks, hu.elements, hfired, hu.drags, hu.time⟩

theorem propagateEvent_mouseUp (hprop : u.propagateEvent = true) : (u.onMouseUp d event .bubble id).propagateEvent =
    !((u.listeners id).capturedMouseDown.isSome && (u.listeners id).clickListeners && d.clickStops id) := by
  rw [onMouseUp]
  dsimp only
  cases (u.listeners id).capturedMouseDown with
  | none => exact hprop
  | some press =>
    cases hlisteners : (u.listeners id).clickListeners with
    | false => simpa [setListener, hlisteners] using hprop
    | true => simp [hprop]

/-- One call of the bubble phase, which starts in `v` with what the capture phase has left. -/
theorem Fired.call {v : PressWindow E} (hevent : d.event = .up event)
    (hheld : ∀ id, (v.listeners id).capturedMouseDown = w.held d id)
    (hclicks : ∀ id, (v.listeners id).clickListeners = (w.listeners id).clickListeners)
    (hu : Fired v event done new u) (hprop : u.propagateEvent = true)
    (hdone : ∀ listener ∈ done, w.stopsBubble d listener = false) (listener : Listener E) :
    (∃ new', Fired v event (done ++ [listener]) new' (PressWindow.call d .bubble listener u)) ∧
      (PressWindow.call d .bubble listener u).propagateEvent = !w.stopsBubble d listener := by
  have hsame : ({ u with propagateEvent := true } : PressWindow E) = u := by rw [← hprop]
  cases listener with
  | mouseDown id =>
    have hcall : PressWindow.call d .bubble (.mouseDown id) u = u := by rw [PressWindow.call, hevent]
    rw [hcall]
    exact ⟨⟨new, hsame ▸ hu.concat_other (by simp) true⟩, hprop⟩
  | mouseMove id =>
    have hcall : PressWindow.call d .bubble (.mouseMove id) u = u := by rw [PressWindow.call, hevent]
    rw [hcall]
    exact ⟨⟨new, hsame ▸ hu.concat_other (by simp) true⟩, hprop⟩
  | other key =>
    rw [PressWindow.call, stopsBubble]
    cases d.stops .bubble key with
    | true => exact ⟨⟨new, hu.concat_other (by simp) false⟩, rfl⟩
    | false => exact ⟨⟨new, hsame ▸ hu.concat_other (by simp) true⟩, hprop⟩
  | mouseUp id =>
    have hcall : PressWindow.call d .bubble (.mouseUp id) u = u.onMouseUp d event .bubble id := by
      rw [PressWindow.call, hevent]
    rw [hcall, propagateEvent_mouseUp hprop, hu.clickListeners id, hclicks id]
    cases hcaptured : (u.listeners id).capturedMouseDown with
    | none =>
      have hidle : u.onMouseUp d event .bubble id = u := by
        rw [onMouseUp]
        dsimp only
        rw [hcaptured]
      refine ⟨⟨new, ?_⟩, ?_⟩
      · have hne : ∀ other, (u.listeners other).capturedMouseDown ≠ none → Listener.mouseUp id ≠ .mouseUp other := by
          intro other hother heq
          obtain rfl := Listener.mouseUp.inj heq
          exact hother hcaptured
        rw [hidle]
        exact hsame ▸ hu.concat_other hne true
      · -- A press that it has had has been taken by a call before, which did not stop.
        have hstops : w.stopsBubble d (.mouseUp id) = false := by
          by_cases hmem : Listener.mouseUp id ∈ done
          · exact hdone _ hmem
          · have hnone := (hu.captured id).symm.trans hcaptured
            rw [if_neg hmem, hheld id] at hnone
            rw [stopsBubble, hnone]
            rfl
        rw [hstops]
        rfl
    | some press =>
      refine ⟨hu.concat_mouseUp hcaptured, ?_⟩
      have hmem : Listener.mouseUp id ∉ done := by
        intro hmem
        rw [hu.captured id, if_pos hmem] at hcaptured
        cases hcaptured
      rw [hu.captured id, if_neg hmem, hheld id] at hcaptured
      rw [stopsBubble, hcaptured]

end Bubble

/-- **What a release does** to a window. -/
structure Released (w : PressWindow E) (d : Dispatch E) (event : MouseUpEvent) (new : List (Click E))
    (w' : PressWindow E) : Prop where
  pending : ∀ id, w'.pendingMouseDown id = if w.captures d id then none else w.pendingMouseDown id
  clicks : w'.clicks = w.clicks ++ new
  elements : (new.map Click.element).Nodup
  fired : ∀ click ∈ new, w.fires d click.element = true ∧ w.held d click.element = some click.down ∧
    click.up = event ∧ click.time = w.time
  drags : w'.drags = w.drags
  time : w'.time = w.time

theorem dispatchMouseEvent_up {event : MouseUpEvent} (hevent : d.event = .up event) :
    ∃ w' new, w.dispatchMouseEvent d = some w' ∧ Released w d event new w' := by
  have hcapture : ∃ v, untilStopped (fun listener u => some (PressWindow.call d .capture listener u)) propagateEvent
      w.mouseListeners { w with propagateEvent := true } = some v ∧
        Captured w d ([] ++ called d.stopsCapture w.mouseListeners) v ∧
        v.propagateEvent = !w.mouseListeners.any d.stopsCapture :=
    untilStopped_called (fun done listener u hu hprop _ => ⟨_, rfl, hu.call hevent hprop listener⟩)
      w.mouseListeners [] captured_nil rfl (fun _ h => absurd h List.not_mem_nil)
  obtain ⟨v, hcapture, hv, hprop⟩ := hcapture
  rw [List.nil_append] at hv
  have hpending : ∀ id, v.pendingMouseDown id = if w.captures d id then none else w.pendingMouseDown id := by
    intro id
    rw [hv.pending id]
    simp [captures]
  have hheld : ∀ id, (v.listeners id).capturedMouseDown = w.held d id := by
    intro id
    rw [hv.captured id, held]
    simp [takes, captures, and_assoc]
  have hend : ∀ u : PressWindow E, endDrag d.event u = { u with activeDrag := false } := by
    intro u
    rw [hevent]
    rfl
  rw [dispatchMouseEvent, dispatchPhases, hcapture, Option.bind_some, hprop]
  cases hstopped : w.mouseListeners.any d.stopsCapture with
  | true =>
    refine ⟨_, [], rfl, ?_⟩
    rw [hend]
    exact ⟨hpending, hv.clicks.trans (List.append_nil _).symm, List.nodup_nil, fun _ h => absurd h List.not_mem_nil,
      hv.drags, hv.time⟩
  | false =>
    have hcall : ∀ done listener (u : PressWindow E), (∃ new, Fired v event done new u) → u.propagateEvent = true →
        (∀ listener ∈ done, w.stopsBubble d listener = false) →
        ∃ u', some (PressWindow.call d .bubble listener u) = some u' ∧
          (∃ new, Fired v event (done ++ [listener]) new u') ∧ u'.propagateEvent = !w.stopsBubble d listener := by
      rintro done listener u ⟨new, hu⟩ hgoes hdone
      exact ⟨_, rfl, hu.call hevent hheld hv.clickListeners hgoes hdone listener⟩
    obtain ⟨u, hbubble, ⟨new, hu⟩, -⟩ := untilStopped_called hcall w.mouseListeners.reverse [] ⟨[], fired_nil⟩
      (hprop.trans (congrArg Bool.not hstopped)) (fun _ h => absurd h List.not_mem_nil)
    rw [List.nil_append] at hu
    refine ⟨_, new, congrArg _ hbubble, ?_⟩
    rw [hend]
    refine ⟨fun id => ?_, ?_, hu.elements, fun click hclick => ?_, hu.drags.trans hv.drags, hu.time.trans hv.time⟩
    · show u.pendingMouseDown id = _
      rw [hu.pending, hpending]
    · show u.clicks = _
      rw [hu.clicks, hv.clicks]
    · obtain ⟨hcalled, hcaptured, hlisteners, hup, htime⟩ := hu.fired click hclick
      rw [hheld] at hcaptured
      refine ⟨?_, hcaptured, hup, htime.trans hv.time⟩
      rw [fires, hstopped, ← hv.clickListeners, hlisteners, hcaptured, decide_eq_true hcalled]
      rfl

/-! ### What the other acts do -/

/-- **What any other act does** to a window: a press that is remembered afterwards was remembered before, or
is made by the act. -/
structure Unreleased (w : PressWindow E) (act : MouseAct E) (w' : PressWindow E) : Prop where
  pending : ∀ id press, w'.pendingMouseDown id = some press → w.pendingMouseDown id = some press ∨
    (press.time = w.time ∧ press.event.button = .left ∧
      ∃ d, act = .mouse d ∧ d.event = .down press.event ∧ d.hovered id = true)
  clicks : w'.clicks = w.clicks
  drags : ∀ drag ∈ w'.drags, drag ∈ w.drags ∨ ∃ id, w.pendingMouseDown id = some drag.down
  time : w'.time = w.time

theorem unreleased_mouseDown {event : MouseDownEvent} (hevent : d.event = .down event) (phase : DispatchPhase)
    {u : PressWindow E} (hu : Unreleased w (.mouse d) u) :
    Unreleased w (.mouse d) (u.onMouseDown d event phase id) := by
  rw [onMouseDown]
  split
  · rename_i hpressed
    refine ⟨fun other press hpress => ?_, hu.clicks, hu.drags, hu.time⟩
    by_cases hother : other = id
    · subst hother
      have hpress : Function.update u.pendingMouseDown other (some ⟨u.time, event⟩) other = some press := hpress
      rw [Function.update_self] at hpress
      obtain rfl := Option.some.inj hpress
      exact Or.inr ⟨hu.time, hpressed.2.1, d, rfl, hevent, hpressed.2.2⟩
    · have hpress : Function.update u.pendingMouseDown id (some ⟨u.time, event⟩) other = some press := hpress
      rw [Function.update_of_ne hother] at hpress
      exact hu.pending other press hpress
  · exact hu

theorem unreleased_mouseMove {event : MouseMoveEvent} (hevent : d.event = .move event) (phase : DispatchPhase)
    {u : PressWindow E} (hu : Unreleased w (.mouse d) u) : Unreleased w (.mouse d) (u.onMouseMove event phase id) := by
  rw [onMouseMove]
  split
  · exact hu
  · split
    · exact hu
    · rename_i press hpress
      split
      · refine ⟨fun other press hother => ?_, hu.clicks, fun drag hdrag => ?_, hu.time⟩
        · by_cases hid : other = id
          · subst hid
            have hother : Function.update u.pendingMouseDown other none other = some press := hother
            rw [Function.update_self] at hother
            cases hother
          · have hother : Function.update u.pendingMouseDown id none other = some press := hother
            rw [Function.update_of_ne hid] at hother
            exact hu.pending other press hother
        · rcases List.mem_append.mp hdrag with hold | hnew
          · exact hu.drags drag hold
          · obtain rfl := List.mem_singleton.mp hnew
            rcases hu.pending id press hpress with hremembered | ⟨-, -, d', hd, hdown, -⟩
            · exact Or.inr ⟨id, hremembered⟩
            · -- An event is a move or a press.
              cases hd
              cases hevent.symm.trans hdown
      · exact hu

theorem unreleased_call (hevent : ∀ event, d.event ≠ .up event) (phase : DispatchPhase) (listener : Listener E)
    {u : PressWindow E} (hu : Unreleased w (.mouse d) u) : Unreleased w (.mouse d) (call d phase listener u) := by
  cases listener with
  | mouseDown id =>
    rw [call]
    split
    · rename_i event hdown
      exact unreleased_mouseDown hdown phase hu
    · exact hu
  | mouseMove id =>
    rw [call]
    split
    · rename_i event hmove
      exact unreleased_mouseMove hmove phase hu
    · exact hu
  | mouseUp id =>
    rw [call]
    split
    · rename_i event hup
      exact absurd hup (hevent event)
    · exact hu
  | other key =>
    rw [call]
    split
    · exact ⟨hu.pending, hu.clicks, hu.drags, hu.time⟩
    · exact hu

theorem unreleased_dispatch (hevent : ∀ event, d.event ≠ .up event) (h : w.dispatchMouseEvent d = some w') :
    Unreleased w (.mouse d) w' := by
  obtain ⟨u, hu, rfl⟩ := Option.map_eq_some_iff.mp h
  have hstart : Unreleased w (.mouse d) { w with propagateEvent := true } :=
    ⟨fun _ _ => Or.inl, rfl, fun _ => Or.inl, rfl⟩
  have hdispatched := dispatchPhases_invariant (fun phase listener u u' hu hcall => by
    obtain rfl := Option.some.inj hcall
    exact unreleased_call hevent phase listener hu) hstart hu
  have hend : endDrag d.event u = u := by
    cases hd : d.event with
    | up event => exact absurd hd (hevent event)
    | down event => rfl
    | move event => rfl
  rw [hend]
  exact hdispatched

/-- A frame remembers no press that was not remembered. -/
theorem pending_of_drawn {parts : List (Drawn E)} {press : Press}
    (h : (parts.findSome? (Drawn.pending? w id)).join = some press) : w.pendingMouseDown id = some press := by
  obtain ⟨part, -, hpart⟩ := List.exists_of_findSome?_eq_some (Option.join_eq_some_iff.mp h)
  cases part with
  | painted element =>
    rw [Drawn.pending?] at hpart
    split at hpart
    · cases hdrag : w.activeDrag with
      | true =>
        rw [hdrag] at hpart
        cases hpart
      | false =>
        rw [hdrag] at hpart
        exact Option.some.inj hpart
    · cases hpart
  | reused element =>
    rw [Drawn.pending?] at hpart
    split at hpart
    · exact Option.some.inj hpart
    · cases hpart
  | other key => cases hpart

theorem unreleased_draw {parts : List (Drawn E)} (h : w.draw parts = some w') : Unreleased w (.draw parts) w' := by
  rw [draw] at h
  split at h
  · obtain rfl := Option.some.inj h
    exact ⟨fun id press hpress => Or.inl (pending_of_drawn hpress), rfl, fun _ => Or.inl, rfl⟩
  · cases h

/-- What is remembered does not depend on the drag. -/
theorem unreleased_perform {act : MouseAct E} (hact : ∀ d event, act = .mouse d → d.event ≠ .up event)
    (h : w.perform act = some w') : Unreleased w act w' := by
  cases act with
  | mouse d => exact unreleased_dispatch (fun event => hact d event rfl) h
  | draw parts => exact unreleased_draw h
  | setActiveDrag active =>
    obtain rfl := Option.some.inj h
    exact ⟨fun _ _ => Or.inl, rfl, fun _ => Or.inl, rfl⟩

/-! ### The condition -/

/-- At a release: an element clicks only with the press that it takes now, for the left button, and one
that has not become a drag; and a release of the left button reaches every element that remembers a
press. -/
structure ReleaseKept (w : PressWindow E) (d : Dispatch E) (button : MouseButton) : Prop where
  fresh : ∀ id, w.fires d id = true → w.takes d id = true
  left : button ≠ .left → ∀ id, w.fires d id = false
  undragged : ∀ id, w.fires d id = true → ∀ drag ∈ w.drags,
    (w.pendingMouseDown id).map Press.time ≠ some drag.down.time
  reached : button = .left → ∀ id, (w.pendingMouseDown id).isSome = true → w.captures d id = true

def Meets (w : PressWindow E) : MouseAct E → Prop
  | .mouse d => match d.event with
    | .up event => w.ReleaseKept d event.button
    | _ => True
  | _ => True

end PressWindow

/-! ### Runs -/

section Runs

variable {acts : List (MouseAct E)} {act : MouseAct E} {click : Click E} {press : Press} {id : E} {start stop : Nat}

theorem getElem?_concat_of_some {t : Nat} (h : acts[t]? = some act) (last : MouseAct E) :
    (acts ++ [last])[t]? = some act := by
  obtain ⟨hlt, -⟩ := List.getElem?_eq_some_iff.mp h
  rw [List.getElem?_append_left hlt, h]

theorem PressedOver.time_lt (h : PressedOver acts id press) : press.time < acts.length := by
  obtain ⟨-, d, hd, -⟩ := h
  exact (List.getElem?_eq_some_iff.mp hd).1

theorem ReleasedOver.time_lt (h : ReleasedOver acts click) : click.time < acts.length := by
  obtain ⟨-, d, hd, -⟩ := h
  exact (List.getElem?_eq_some_iff.mp hd).1

theorem PressedOver.concat (h : PressedOver acts id press) (last : MouseAct E) :
    PressedOver (acts ++ [last]) id press := by
  obtain ⟨hleft, d, hd, hrest⟩ := h
  exact ⟨hleft, d, getElem?_concat_of_some hd last, hrest⟩

theorem ReleasedOver.concat (h : ReleasedOver acts click) (last : MouseAct E) :
    ReleasedOver (acts ++ [last]) click := by
  obtain ⟨hleft, d, hd, hrest⟩ := h
  exact ⟨hleft, d, getElem?_concat_of_some hd last, hrest⟩

theorem ReleasedOver.not_between (h : ReleasedOver acts click) (hstart : start < click.time) :
    ¬ NoLeftRelease acts start acts.length := by
  intro hnone
  obtain ⟨hleft, d, hd, hevent, -⟩ := h
  refine hnone click.time _ hstart (List.getElem?_eq_some_iff.mp hd).1 hd ?_
  rw [MouseAct.IsLeftRelease, hevent]
  exact hleft

theorem NoLeftRelease.concat (h : NoLeftRelease acts start stop) (hstop : stop ≤ acts.length) (last : MouseAct E) :
    NoLeftRelease (acts ++ [last]) start stop := by
  intro t act hstart hlt hact
  rw [List.getElem?_append_left (by omega)] at hact
  exact h t act hstart hlt hact

theorem NoLeftRelease.concat_succ (h : NoLeftRelease acts start acts.length) {last : MouseAct E}
    (hlast : ¬ last.IsLeftRelease) : NoLeftRelease (acts ++ [last]) start (acts.length + 1) := by
  intro t act hstart hlt hact
  by_cases hend : t = acts.length
  · subst hend
    rw [List.getElem?_concat_length] at hact
    obtain rfl := Option.some.inj hact
    exact hlast
  · exact (h.concat le_rfl last) t act hstart (by omega) hact

theorem Paired.concat {drags drags' : List (DragStart E)} (h : Paired acts drags click) (last : MouseAct E)
    (hdrags : ∀ drag ∈ drags', drag ∈ drags ∨ NoLeftRelease acts drag.down.time acts.length) :
    Paired (acts ++ [last]) drags' click := by
  refine ⟨h.pressed.concat last, h.released.concat last, h.before, h.first.concat h.released.time_lt.le last, ?_⟩
  intro drag hdrag heq
  rcases hdrags drag hdrag with hold | hnone
  · exact h.undragged drag hold heq
  · -- A press that is still remembered has not been released, so that it has not been clicked.
    exact h.released.not_between h.before (heq ▸ hnone)

variable {w w' : PressWindow E}

/-- What a run leaves: the presses that are remembered have not been released, and the clicks are pairs. -/
structure Recorded (acts : List (MouseAct E)) (w : PressWindow E) : Prop where
  time : w.time = acts.length
  pressed : ∀ id press, w.pendingMouseDown id = some press → PressedOver acts id press
  unreleased : ∀ id press, w.pendingMouseDown id = some press → NoLeftRelease acts press.time acts.length
  clicks : ClicksPaired acts w

theorem recorded_new (activeDrag : Bool) : Recorded [] (PressWindow.new activeDrag : PressWindow E) where
  time := rfl
  pressed _ _ h := by cases h
  unreleased _ _ h := by cases h
  clicks := ⟨fun _ h => absurd h List.not_mem_nil, List.nodup_nil⟩

theorem Recorded.unreleased_act (hw : Recorded acts w) (hact : ¬ act.IsLeftRelease)
    (h : PressWindow.Unreleased w act w') : Recorded (acts ++ [act]) { w' with time := w'.time + 1 } := by
  have hlength : (acts ++ [act]).length = acts.length + 1 := List.length_append
  refine ⟨?_, fun id press hpress => ?_, fun id press hpress => ?_, ?_, ?_⟩
  · show w'.time + 1 = _
    rw [h.time, hw.time, hlength]
  · rcases h.pending id press hpress with hold | ⟨htime, hleft, d, rfl, hevent, hhovered⟩
    · exact (hw.pressed id press hold).concat act
    · refine ⟨hleft, d, ?_, hevent, hhovered⟩
      rw [htime, hw.time, List.getElem?_concat_length]
  · rw [hlength]
    rcases h.pending id press hpress with hold | ⟨htime, -, -⟩
    · exact (hw.unreleased id press hold).concat_succ hact
    · intro t other hstart hlt
      rw [htime, hw.time] at hstart
      omega
  · intro click hclick
    have hclick : click ∈ w'.clicks := hclick
    rw [h.clicks] at hclick
    refine (hw.clicks.paired click hclick).concat act fun drag hdrag => ?_
    exact (h.drags drag hdrag).imp_right fun ⟨id, hpress⟩ => hw.unreleased id drag.down hpress
  · show (w'.clicks.map _).Nodup
    rw [h.clicks]
    exact hw.clicks.once

variable [DecidableEq E]

theorem Recorded.paired_fired (hw : Recorded acts w) {d : Dispatch E} {event : MouseUpEvent}
    (hevent : d.event = .up event) (hkept : w.ReleaseKept d event.button)
    (hfires : w.fires d click.element = true) (hheld : w.held d click.element = some click.down)
    (hup : click.up = event) (htime : click.time = w.time) :
    w.pendingMouseDown click.element = some click.down ∧ Paired (acts ++ [.mouse d]) w.drags click := by
  have htakes := hkept.fresh click.element hfires
  have hpress : w.pendingMouseDown click.element = some click.down := by
    rw [PressWindow.held, if_pos htakes] at hheld
    exact hheld
  have hhovered : d.hovered click.element = true := by
    rw [PressWindow.takes, Bool.and_eq_true, Bool.and_eq_true] at htakes
    exact htakes.1.2
  have hleft : event.button = .left := by
    by_contra hother
    exact Bool.false_ne_true ((hkept.left hother click.element).symm.trans hfires)
  have hpressed := hw.pressed click.element click.down hpress
  have hend : click.time = acts.length := htime.trans hw.time
  refine ⟨hpress, hpressed.concat _, ⟨hup ▸ hleft, d, ?_, hup ▸ hevent, hhovered⟩, ?_, ?_, fun drag hdrag heq => ?_⟩
  · rw [hend, List.getElem?_concat_length]
  · exact hend ▸ hpressed.time_lt
  · rw [hend]
    exact (hw.unreleased click.element click.down hpress).concat le_rfl _
  · refine hkept.undragged click.element hfires drag hdrag ?_
    rw [hpress, heq]
    rfl

theorem Recorded.released (hw : Recorded acts w) {d : Dispatch E} {event : MouseUpEvent} {new : List (Click E)}
    (hevent : d.event = .up event) (hkept : w.ReleaseKept d event.button)
    (h : PressWindow.Released w d event new w') : Recorded (acts ++ [.mouse d]) { w' with time := w'.time + 1 } := by
  have hlength : (acts ++ [MouseAct.mouse d]).length = acts.length + 1 := List.length_append
  have hold : ∀ id press, w'.pendingMouseDown id = some press →
      w.captures d id = false ∧ w.pendingMouseDown id = some press := by
    intro id press hpress
    rw [h.pending id] at hpress
    split at hpress
    · cases hpress
    · rename_i hcaptures
      exact ⟨Bool.eq_false_iff.mpr hcaptures, hpress⟩
  have hnew : ∀ click ∈ new, w.pendingMouseDown click.element = some click.down ∧
      Paired (acts ++ [.mouse d]) w.drags click := by
    intro click hclick
    obtain ⟨hfires, hheld, hup, htime⟩ := h.fired click hclick
    exact hw.paired_fired hevent hkept hfires hheld hup htime
  refine ⟨?_, fun id press hpress => ?_, fun id press hpress => ?_, fun click hclick => ?_, ?_⟩
  · show w'.time + 1 = _
    rw [h.time, hw.time, hlength]
  · exact (hw.pressed id press (hold id press hpress).2).concat _
  · obtain ⟨hcaptures, hpress⟩ := hold id press hpress
    rw [hlength]
    refine (hw.unreleased id press hpress).concat_succ fun hleft => ?_
    rw [MouseAct.IsLeftRelease, hevent] at hleft
    have hreached := hkept.reached hleft id (by rw [hpress]; rfl)
    exact Bool.false_ne_true (hcaptures.symm.trans hreached)
  · have hclick : click ∈ w'.clicks := hclick
    show Paired _ w'.drags click
    rw [h.drags]
    rw [h.clicks] at hclick
    rcases List.mem_append.mp hclick with hbefore | hfired
    · exact (hw.clicks.paired click hbefore).concat _ fun drag => Or.inl
    · exact (hnew click hfired).2
  · show (w'.clicks.map _).Nodup
    rw [h.clicks, List.map_append, List.nodup_append]
    refine ⟨hw.clicks.once, ?_, ?_⟩
    · refine List.Nodup.of_map Prod.fst ?_
      rw [List.map_map]
      exact h.elements
    · -- What has been clicked before has been released.
      rintro pair hold' _ hnew' rfl
      obtain ⟨after, hafter, rfl⟩ := List.mem_map.mp hnew'
      obtain ⟨before, hbefore, heq⟩ := List.mem_map.mp hold'
      have hpaired := hw.clicks.paired before hbefore
      have htime : before.down.time = after.down.time := congrArg Prod.snd heq
      have hnone := hw.unreleased after.element after.down (hnew after hafter).1
      exact hpaired.released.not_between hpaired.before (htime ▸ hnone)

/-- **One act.** -/
theorem Recorded.step (hw : Recorded acts w) (hmeets : w.Meets act) (h : w.step act = some w') :
    Recorded (acts ++ [act]) w' := by
  obtain ⟨u, hperform, rfl⟩ := Option.map_eq_some_iff.mp h
  by_cases hup : ∃ d event, act = .mouse d ∧ d.event = .up event
  · obtain ⟨d, event, rfl, hevent⟩ := hup
    obtain ⟨u', new, hdispatch, hreleased⟩ := PressWindow.dispatchMouseEvent_up (w := w) hevent
    obtain rfl := Option.some.inj (hperform.symm.trans hdispatch)
    have hkept : w.ReleaseKept d event.button := by
      rw [PressWindow.Meets, hevent] at hmeets
      exact hmeets
    exact hw.released hevent hkept hreleased
  · have hother : ∀ d event, act = .mouse d → d.event ≠ .up event := fun d event hact hevent => hup ⟨d, event, hact, hevent⟩
    refine hw.unreleased_act (fun hleft => ?_) (PressWindow.unreleased_perform hother hperform)
    cases act with
    | mouse d =>
      rw [MouseAct.IsLeftRelease] at hleft
      split at hleft
      · rename_i event hevent
        exact hother d event rfl hevent
      · exact hleft
    | draw parts => exact hleft
    | setActiveDrag active => exact hleft

/-- **A click pairs a press with its release** in every run of a window whose releases meet the condition. -/
theorem clicksPaired (activeDrag : Bool) (acts : List (MouseAct E)) {w : PressWindow E}
    (hrun : run PressWindow.step (PressWindow.new activeDrag) acts = some w)
    (hmeets : RunMeets PressWindow.step PressWindow.Meets (PressWindow.new activeDrag) acts) : ClicksPaired acts w :=
  (run_history (fun _ _ _ _ hw hcond hstep => hw.step hcond hstep) acts [] (recorded_new activeDrag) hmeets hrun).clicks

end Runs

/-! ### One element -/

/-- An element with a click listener, and a press over it. -/
def pressed : List (MouseAct Unit) :=
  [.draw [.painted ⟨(), true, false⟩],
    .mouse ⟨.down ⟨.left, ⟨0, 0⟩, {}, 1, false⟩, fun _ => true, fun _ _ => false, fun _ => false⟩]

/-- The release of a button over it. -/
def releasedOver (button : MouseButton) : MouseAct Unit :=
  .mouse ⟨.up ⟨button, ⟨0, 0⟩, {}, 1⟩, fun _ => true, fun _ _ => false, fun _ => false⟩

theorem clicksPaired_left : ∃ w, run PressWindow.step (PressWindow.new false) (pressed ++ [releasedOver .left]) = some w ∧
    w.clicks.length = 1 ∧ ClicksPaired (pressed ++ [releasedOver .left]) w :=
  ⟨_, rfl, rfl, clicksPaired false _ rfl ⟨trivial, trivial, ⟨by decide, by decide, by decide, by decide⟩, trivial⟩⟩

/-- The right button is released while the left one is pressed. -/
theorem not_clicksPaired : ¬ ∀ (acts : List (MouseAct Unit)) (w : PressWindow Unit),
    run PressWindow.step (PressWindow.new false) acts = some w → ClicksPaired acts w := by
  intro h
  have hpaired := (h (pressed ++ [releasedOver .right]) _ rfl).paired _ List.mem_cons_self
  exact absurd hpaired.released.1 (by decide)

end FcGpui.Mouse
