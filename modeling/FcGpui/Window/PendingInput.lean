import FcGpui.Keymap.KeyDispatch
import FcGpui.Lib.Machine

/-!
# Pending input

What `Window` in `crates/gpui/src/window.rs` does with keystrokes that may begin
a longer chord.  A key event takes the pending input out of the window, has the
dispatch tree resolve it together with the new keystroke (`dispatch_key`),
replays what was given up, and puts back what is still pending.  A timeout
replays all of it (`flush_dispatch`).

The interceptors of a keystroke, replayed actions and listeners are code of the
application: they may move the focus, clear the pending input and dispatch other
key events.  So handling a key event takes several steps here, other actions may
come in between, and the events that are being handled are a stack, the innermost
first.  Where the source runs no code of the application between two steps,
nothing else may come in between (`interruptible`).

A key event begins where the source computes its dispatch path; every keystroke
carries the focus of that moment (`typedUnder`), and the window carries the inputs
of all calls of `dispatch_key` and `flush_dispatch` so far (`inputs`).  The source
has neither.
-/

namespace FcGpui

abbrev FocusId := Nat

structure TypedKeystroke where
  keystroke : Keystroke
  typedUnder : Option FocusId
deriving DecidableEq

structure PendingInput where
  keystrokes : List TypedKeystroke
  focus : Option FocusId

def PendingInput.default : PendingInput := ⟨[], none⟩

inductive KeyEventPhase (P : Type)
  /-- The interceptors run. -/
  | intercepting
  /-- The keystroke is resolved; what was given up is being replayed. -/
  | resolved (result : DispatchResult TypedKeystroke (KeyBinding P))
  /-- Bindings, listeners and observers run. -/
  | finishing

/-- A key event that is being handled.  Of its dispatch path the keymap reads the
contexts. -/
structure KeyEvent (P : Type) where
  keystroke : TypedKeystroke
  contextStack : List KeyContext
  phase : KeyEventPhase P

structure WindowInput (P : Type) where
  focus : Option FocusId
  focusEnabled : Bool
  pendingInput : Option PendingInput
  keymap : Keymap P
  handling : List (KeyEvent P)
  inputs : List (List TypedKeystroke)

inductive InputAct (P : Type)
  | focus (id : FocusId)
  | blur
  | disableFocus
  | clearPendingKeystrokes
  | setKeymap (keymap : Keymap P)
  | keyDown (keystroke : Keystroke) (contextStack : List KeyContext)
  | stopPropagation
  | dispatchKey
  | storePending
  | finish
  | timeout (contextStack : List KeyContext)

namespace WindowInput

variable {P : Type}

def new (focus : Option FocusId) (focusEnabled : Bool) (keymap : Keymap P) : WindowInput P :=
  ⟨focus, focusEnabled, none, keymap, [], []⟩

/-- Code of the application runs. -/
def interruptible (s : WindowInput P) : Bool :=
  match s.handling with
  | [] => true
  | event :: _ =>
    match event.phase with
    | .resolved result => !result.toReplay.isEmpty
    | _ => true

def setFocus (s : WindowInput P) (id : FocusId) : WindowInput P :=
  if s.focusEnabled = false ∨ s.focus = some id then s
  else { s with focus := some id, pendingInput := none }

def clearPendingKeystrokes (s : WindowInput P) : WindowInput P := { s with pendingInput := none }

def blur (s : WindowInput P) : WindowInput P :=
  if s.focusEnabled then { s.clearPendingKeystrokes with focus := none }
  else s.clearPendingKeystrokes

def disableFocus (s : WindowInput P) : WindowInput P := { s.blur with focusEnabled := false }

/-- What the dispatch tree finds for an input. -/
def bindingsForInput (os : TargetOs) (s : WindowInput P) (contextStack : List KeyContext)
    (input : List TypedKeystroke) : List (KeyBinding P) × Bool × List KeyContext :=
  DispatchTree.bindingsForInput os s.keymap contextStack (input.map TypedKeystroke.keystroke)

/-- The pending keystrokes a new one is added to. -/
def currentlyPending (s : WindowInput P) : PendingInput :=
  let currentlyPending := s.pendingInput.getD PendingInput.default
  if currentlyPending.focus.isSome ∧ currentlyPending.focus ≠ s.focus then PendingInput.default
  else currentlyPending

/-- The interceptors of `event` are through. -/
def dispatchKey (os : TargetOs) (s : WindowInput P) (event : KeyEvent P)
    (rest : List (KeyEvent P)) : Option (WindowInput P) :=
  (DispatchTree.dispatchKey (s.bindingsForInput os event.contextStack)
      s.currentlyPending.keystrokes event.keystroke).map fun result =>
    { s with
      pendingInput := none
      handling := { event with phase := .resolved result } :: rest
      inputs := s.inputs ++ result.inputs }

/-- The replays of `event` are through. -/
def storePending (s : WindowInput P) (event : KeyEvent P) (rest : List (KeyEvent P))
    (result : DispatchResult TypedKeystroke (KeyBinding P)) : WindowInput P :=
  { s with
    pendingInput :=
      if result.pending.isEmpty then s.pendingInput else some ⟨result.pending, s.focus⟩
    handling := { event with phase := .finishing } :: rest }

/-- `none` where `flush_dispatch` panics. -/
def flushPending (os : TargetOs) (s : WindowInput P) (contextStack : List KeyContext) :
    Option (WindowInput P) :=
  match s.pendingInput.filter fun pending => pending.focus = s.focus with
  | none => some { s with pendingInput := none }
  | some pending =>
    (DispatchTree.flushDispatch (s.bindingsForInput os contextStack) pending.keystrokes).map
      fun flushed => { s with pendingInput := none, inputs := s.inputs ++ flushed.2 }

/-- `none` also where the action cannot come next. -/
def step (os : TargetOs) (s : WindowInput P) : InputAct P → Option (WindowInput P)
  | .focus id => if s.interruptible then some (s.setFocus id) else none
  | .blur => if s.interruptible then some s.blur else none
  | .disableFocus => if s.interruptible then some s.disableFocus else none
  | .clearPendingKeystrokes => if s.interruptible then some s.clearPendingKeystrokes else none
  | .setKeymap keymap => if s.interruptible then some { s with keymap := keymap } else none
  | .keyDown keystroke contextStack =>
    if s.interruptible then
      some { s with handling := ⟨⟨keystroke, s.focus⟩, contextStack, .intercepting⟩ :: s.handling }
    else none
  | .stopPropagation =>
    match s.handling with
    | ⟨keystroke, contextStack, .intercepting⟩ :: rest =>
      some { s with handling := ⟨keystroke, contextStack, .finishing⟩ :: rest }
    | _ => none
  | .dispatchKey =>
    match s.handling with
    | ⟨keystroke, contextStack, .intercepting⟩ :: rest =>
      s.dispatchKey os ⟨keystroke, contextStack, .intercepting⟩ rest
    | _ => none
  | .storePending =>
    match s.handling with
    | ⟨keystroke, contextStack, .resolved result⟩ :: rest =>
      some (s.storePending ⟨keystroke, contextStack, .resolved result⟩ rest result)
    | _ => none
  | .finish =>
    match s.handling with
    | ⟨_, _, .finishing⟩ :: rest => some { s with handling := rest }
    | _ => none
  | .timeout contextStack => if s.handling.isEmpty then s.flushPending os contextStack else none

end WindowInput

end FcGpui
