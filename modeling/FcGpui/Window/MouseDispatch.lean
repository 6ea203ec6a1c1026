import FcGpui.App.GlobalActions
import FcGpui.Geometry
import FcGpui.Keymap.Binding
import FcGpui.Lib.Propagation

/-!
# Mouse events

The mouse events of `crates/gpui/src/interactive.rs`, and the two phases in which
`Window::dispatch_mouse_event` hands one to the listeners of the frame: back to front in the capture
phase, front to back in the bubble phase.  Pixels are exact.
-/

namespace FcGpui.Mouse

open Actions (DispatchPhase)

inductive NavigationDirection
  | back
  | forward
deriving DecidableEq, Repr

inductive MouseButton
  | left
  | right
  | middle
  | navigate (direction : NavigationDirection)
deriving DecidableEq, Repr

structure MouseDownEvent where
  button : MouseButton
  position : Point ℚ
  modifiers : Modifiers
  clickCount : Nat
  firstMouse : Bool
deriving DecidableEq

structure MouseUpEvent where
  button : MouseButton
  position : Point ℚ
  modifiers : Modifiers
  clickCount : Nat
deriving DecidableEq

structure MouseMoveEvent where
  position : Point ℚ
  pressedButton : Option MouseButton
  modifiers : Modifiers
deriving DecidableEq

/-- The loops over the listeners, which are in the order in which they were painted.  `handle` is
the call of one of them, and `none` is a panic. -/
def dispatchPhases {ℓ W : Type} (handle : DispatchPhase → ℓ → W → Option W) (propagates : W → Bool)
    (listeners : List ℓ) (w : W) : Option W :=
  (untilStopped (handle .capture) propagates listeners w).bind fun w =>
    if propagates w then untilStopped (handle .bubble) propagates listeners.reverse w else some w

theorem dispatchPhases_invariant {ℓ W : Type} {handle : DispatchPhase → ℓ → W → Option W} {propagates : W → Bool}
    {inv : W → Prop} (hcall : ∀ phase l w w', inv w → handle phase l w = some w' → inv w') {listeners : List ℓ}
    {w w' : W} (hinv : inv w) (h : dispatchPhases handle propagates listeners w = some w') : inv w' := by
  obtain ⟨mid, hmid, h⟩ := Option.bind_eq_some_iff.mp h
  have hinv' := untilStopped_invariant (hcall .capture) listeners hinv hmid
  split at h
  · exact untilStopped_invariant (hcall .bubble) listeners.reverse hinv' h
  · cases h
    exact hinv'

end FcGpui.Mouse
