import FcGpui.Window.Frame

/-!
# The timeout of pending input

`PendingInputTimeout` in `crates/gpui/src/window.rs`, and what `Window` does with it: a key event
takes the pending input out of the window and may put it back, an owner pauses and resumes the
timeout, and so does its release.

A timeout that runs has a task of the foreground executor.  The task makes its timer when it is polled
first, and flushes the pending input when it is polled after the timer has ended.  Dropping the task
cancels it.  A timeout that is paused has a subscription to the release of its owner.

Of the pending input only the timeout is looked at, and the focus does not change.  Key events are
handled one inside another, the innermost first.  While one is handled no task is polled and no entity
released: both are done between the updates of the application.

`TimeoutRun` has records besides: how long the timeout has been running since the last keystroke that
left input pending, and what was flushed.
-/

namespace FcGpui

/-- `PENDING_INPUT_TIMEOUT`, in nanoseconds. -/
def pendingInputTimeout : Nat := 1000000000

structure PendingInputTimeoutPause where
  ownerId : EntityId
  releaseSubscription : Nat
deriving DecidableEq, Repr

inductive PendingInputTimeoutState
  | running (startedAt : Nat) (task : Nat)
  | paused (pause : PendingInputTimeoutPause)
deriving DecidableEq, Repr

structure PendingInputTimeoutStatus where
  duration : Nat
  remaining : Nat
  startedAt : Option Nat
  paused : Bool
deriving DecidableEq, Repr

/-- `PendingInputTimeoutStatus::remaining`. -/
def PendingInputTimeoutStatus.remainingAt (now : Nat) (status : PendingInputTimeoutStatus) : Nat :=
  (status.startedAt.map fun startedAt => status.remaining - (now - startedAt)).getD status.remaining

structure PendingInputTimeout where
  duration : Nat
  remaining : Nat
  state : PendingInputTimeoutState
deriving DecidableEq, Repr

namespace PendingInputTimeout

def isPaused (timeout : PendingInputTimeout) : Bool :=
  match timeout.state with
  | .running _ _ => false
  | .paused _ => true

/-- Whether it was changed, what it is then, and the state that is dropped. -/
def pause (pause : PendingInputTimeoutPause) (now : Nat) (timeout : PendingInputTimeout) :
    Bool × PendingInputTimeout × PendingInputTimeoutState :=
  match timeout.state with
  | .running startedAt task =>
    (true, { timeout with remaining := timeout.remaining - (now - startedAt), state := .paused pause },
      .running startedAt task)
  | .paused _ => (false, timeout, .paused pause)

def pauseOwnerId (timeout : PendingInputTimeout) : Option EntityId :=
  match timeout.state with
  | .running _ _ => none
  | .paused pause => some pause.ownerId

def resume (ownerId : EntityId) (startedAt task : Nat) (timeout : PendingInputTimeout) :
    Bool × PendingInputTimeout × PendingInputTimeoutState :=
  match timeout.state with
  | .paused pause =>
    if pause.ownerId = ownerId then
      (true, { timeout with state := .running startedAt task }, .paused pause)
    else (false, timeout, .running startedAt task)
  | .running _ _ => (false, timeout, .running startedAt task)

def resetDuration (duration : Nat) (timeout : PendingInputTimeout) : PendingInputTimeout :=
  { timeout with duration := duration, remaining := duration }

def status (timeout : PendingInputTimeout) : PendingInputTimeoutStatus :=
  match timeout.state with
  | .running startedAt _ => ⟨timeout.duration, timeout.remaining, some startedAt, false⟩
  | .paused _ => ⟨timeout.duration, timeout.remaining, none, true⟩

end PendingInputTimeout

/-! ### The application -/

/-- A task of `start_pending_input_timeout`. -/
structure TimeoutTask where
  duration : Nat
  /-- When its timer ends, once there is one. -/
  due : Option Nat
  alive : Bool
deriving DecidableEq, Repr

structure TimeoutCx where
  now : Nat
  tasks : List TimeoutTask
  releaseListeners : List (Nat × EntityId)
  nextSubscription : Nat
  released : List EntityId
deriving DecidableEq, Repr

namespace TimeoutCx

def dropState (state : PendingInputTimeoutState) (cx : TimeoutCx) : TimeoutCx :=
  match state with
  | .running _ task => { cx with tasks := cx.tasks.modify task fun it => { it with alive := false } }
  | .paused pause =>
    { cx with
      releaseListeners := cx.releaseListeners.filter fun it => it.1 ≠ pause.releaseSubscription }

def dropTimeout (timeout : Option PendingInputTimeout) (cx : TimeoutCx) : TimeoutCx :=
  match timeout with
  | none => cx
  | some timeout => cx.dropState timeout.state

/-- The subscription, and the application with it. -/
def observeRelease (owner : EntityId) (cx : TimeoutCx) : Nat × TimeoutCx :=
  (cx.nextSubscription,
    { cx with
      releaseListeners := cx.releaseListeners ++ [(cx.nextSubscription, owner)]
      nextSubscription := cx.nextSubscription + 1 })

/-- The task, which has not been polled, and the application with it. -/
def startPendingInputTimeout (remaining : Nat) (cx : TimeoutCx) : Nat × TimeoutCx :=
  (cx.tasks.length, { cx with tasks := cx.tasks ++ [⟨remaining, none, true⟩] })

def newPendingInputTimeout (duration : Nat) (cx : TimeoutCx) : PendingInputTimeout × TimeoutCx :=
  (⟨duration, duration, .running cx.now (cx.startPendingInputTimeout duration).1⟩,
    (cx.startPendingInputTimeout duration).2)

/-- `timer(duration)`, when the task is polled first. -/
def poll (task : Nat) (cx : TimeoutCx) : TimeoutCx :=
  { cx with
    tasks := cx.tasks.modify task fun it =>
      if it.alive ∧ it.due = none then { it with due := some (cx.now + it.duration) } else it }

/-- An owner is released, and its callbacks are taken out. -/
def release (owner : EntityId) (cx : TimeoutCx) : TimeoutCx :=
  { cx with
    releaseListeners := cx.releaseListeners.filter fun it => it.2 ≠ owner
    released := cx.released ++ [owner] }

/-- The timer of the task has ended. -/
def expired (task : Nat) (cx : TimeoutCx) : Bool :=
  cx.tasks[task]?.any fun it => it.alive && it.due.any fun due => due ≤ cx.now

end TimeoutCx

/-! ### The window -/

/-- `PendingInput`. -/
structure TimedInput where
  timeout : Option PendingInputTimeout
deriving DecidableEq, Repr

/-- What a task has flushed. -/
structure Flushed where
  task : Nat
  timeout : Option PendingInputTimeout
  ran : Nat
deriving DecidableEq, Repr

structure TimeoutRun where
  cx : TimeoutCx
  pendingInput : Option TimedInput
  /-- What the key events that are being handled have taken. -/
  handling : List TimedInput
  /-- How long the timeout in the window has been running since the last keystroke that left input
  pending. -/
  ran : Nat
  flushed : List Flushed
deriving DecidableEq, Repr

inductive TimeoutAct
  /-- Up to `take`. -/
  | beginKey
  /-- And from the replay on; whether there is input pending then. -/
  | endKey (pending : Bool)
  | setPaused (owner : EntityId) (paused : Bool)
  | release (owner : EntityId)
  | elapse (duration : Nat)
  | poll (task : Nat)
  | fire (task : Nat)
deriving DecidableEq, Repr

namespace TimeoutRun

def new : TimeoutRun := ⟨⟨0, [], [], 0, []⟩, none, [], 0, []⟩

/-- The timeout in the window. -/
def timeout (w : TimeoutRun) : Option PendingInputTimeout := w.pendingInput.bind TimedInput.timeout

def resumePendingInputTimeout (ownerId : EntityId) (w : TimeoutRun) : Bool × TimeoutRun :=
  match w.timeout with
  | none => (false, w)
  | some timeout =>
    if timeout.pauseOwnerId = some ownerId then
      let started := w.cx.startPendingInputTimeout timeout.remaining
      let resumed := timeout.resume ownerId w.cx.now started.1
      (resumed.1,
        { w with cx := started.2.dropState resumed.2.2, pendingInput := some ⟨some resumed.2.1⟩ })
    else (false, w)

def setPendingInputTimeoutPaused (owner : EntityId) (paused : Bool) (w : TimeoutRun) : Bool × TimeoutRun :=
  if paused then
    match w.timeout with
    | none => (false, w)
    | some timeout =>
      if timeout.isPaused then (false, w)
      else
        let observed := w.cx.observeRelease owner
        let changed := timeout.pause ⟨owner, observed.1⟩ w.cx.now
        (changed.1,
          { w with cx := observed.2.dropState changed.2.2, pendingInput := some ⟨some changed.2.1⟩ })
  else w.resumePendingInputTimeout owner

/-- `self.pending_input.take().unwrap_or_default()`. -/
def beginKey (w : TimeoutRun) : TimeoutRun :=
  { w with pendingInput := none, handling := w.pendingInput.getD ⟨none⟩ :: w.handling }

/-- What a key event that leaves input pending puts into the window. -/
def nextTimeout (previous : Option PendingInputTimeout) (cx : TimeoutCx) : PendingInputTimeout × TimeoutCx :=
  match previous with
  | some timeout =>
    if timeout.isPaused then (timeout.resetDuration pendingInputTimeout, cx)
    else (cx.dropTimeout previous).newPendingInputTimeout pendingInputTimeout
  | none => cx.newPendingInputTimeout pendingInputTimeout

def endKey (pending : Bool) (w : TimeoutRun) : TimeoutRun :=
  match w.handling with
  | [] => w
  | currentlyPending :: handling =>
    if pending then
      let next := nextTimeout currentlyPending.timeout w.cx
      { w with
        cx := next.2.dropTimeout w.timeout
        pendingInput := some ⟨some next.1⟩
        handling := handling
        ran := 0 }
    else { w with cx := w.cx.dropTimeout currentlyPending.timeout, handling := handling }

/-- The callbacks of the owner are called. -/
def release (owner : EntityId) (w : TimeoutRun) : TimeoutRun :=
  if w.handling ≠ [] ∨ owner ∈ w.cx.released then w
  else
    (w.cx.releaseListeners.filter fun it => it.2 = owner).foldl
      (fun w _ => (w.resumePendingInputTimeout owner).2) { w with cx := w.cx.release owner }

def elapse (duration : Nat) (w : TimeoutRun) : TimeoutRun :=
  { w with
    cx := { w.cx with now := w.cx.now + duration }
    ran := if w.timeout.any (fun timeout => !timeout.isPaused) then w.ran + duration else w.ran }

/-- The task is done, and the pending input is flushed. -/
def fire (task : Nat) (w : TimeoutRun) : TimeoutRun :=
  if w.handling = [] ∧ w.cx.expired task = true then
    { w with
      cx := (w.cx.dropState (.running w.cx.now task)).dropTimeout w.timeout
      pendingInput := none
      flushed := w.flushed ++ [⟨task, w.timeout, w.ran⟩] }
  else w

/-- An owner that has been released does not call anything. -/
def step (w : TimeoutRun) : TimeoutAct → TimeoutRun
  | .beginKey => w.beginKey
  | .endKey pending => w.endKey pending
  | .setPaused owner paused =>
    if owner ∈ w.cx.released then w else (w.setPendingInputTimeoutPaused owner paused).2
  | .release owner => w.release owner
  | .elapse duration => w.elapse duration
  | .poll task => if w.handling = [] then { w with cx := w.cx.poll task } else w
  | .fire task => w.fire task

end TimeoutRun

end FcGpui
