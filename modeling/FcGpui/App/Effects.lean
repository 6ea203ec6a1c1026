import FcGpui.Subscription.SubscriberSet
import FcGpui.Window.Frame

/-!
# Updates and effects

`App::update`, `push_effect`, `flush_effects` and `notify` in
`crates/gpui/src/app.rs`, and `WindowInvalidator` in `crates/gpui/src/window.rs`.
What happens during an update is queued as effects, and the end of the outermost
update flushes the queue: it takes effect by effect and lets the observers of
each run.  A notification is queued once: the sets of pending notifications say
for whom one is queued already.

Update closures, observers and other handlers are code of the application, and
may start updates, push effects and notify.  So an update and a flush are not one
step.  What is under way is the stack `frames`, innermost first: updates, the
flush, and the effect it applies.  Code of the application runs inside an update,
between two effects (where dropped entities are released), and inside the handler
of an effect (`runsCode`).

There are two kinds of observers, those of entities and those of globals.  They
are treated alike, so the sets of pending notifications and of observers are
families by kind.  Each `SubscriberSet` is that of `FcGpui.Subscription`.

The last two fields of `App`, and the lists in `Processed`, are not in the source:
all effects queued so far, and those processed so far, each with the observers
that were active when it was taken and those that were called.
-/

namespace FcGpui

abbrev TypeId := Nat

/-- Of what the effects carry, the model has what the queue reads. -/
inductive Effect
  | notify (emitter : EntityId)
  | emit (emitter : EntityId) (eventType : TypeId)
  | refreshWindows
  | notifyGlobalObservers (globalType : TypeId)
  | defer
  | entityCreated (entity : EntityId) (tid : TypeId) (window : Option WindowId)
deriving DecidableEq, Repr

inductive NotifyKind
  | entity
  | global
deriving DecidableEq, Repr

/-- Whom an effect notifies of. -/
def Effect.notifies : Effect → Option (NotifyKind × Nat)
  | notify emitter => some (.entity, emitter)
  | notifyGlobalObservers globalType => some (.global, globalType)
  | _ => none

inductive DrawPhase
  | none
  | prepaint
  | paint
  | focus
deriving DecidableEq, Repr

structure WindowInvalidator where
  dirty : Bool
  drawPhase : DrawPhase
  dirtyViews : Finset EntityId
  updateCount : Nat

/-- An effect with the observers that were active when it was taken, and those
called so far. -/
structure Processed where
  effect : Effect
  active : List Nat
  called : List Nat
deriving DecidableEq, Repr

inductive AppFrame
  | update
  | flush
  | apply (processed : Processed)
deriving DecidableEq, Repr

structure App where
  flushingEffects : Bool
  pendingUpdates : Nat
  pendingEffects : List Effect
  pending : NotifyKind → Finset Nat
  observers : NotifyKind → SubscriberSet Nat Unit
  windowInvalidatorsByEntity : EntityId → List WindowId
  invalidators : WindowId → WindowInvalidator
  frames : List AppFrame
  pushed : List Effect
  processed : List Processed

inductive AppAct
  | notify (entity : EntityId)
  | pushEffect (effect : Effect)
  | subscribers (kind : NotifyKind) (act : Act Nat Unit)
  | recordEntitiesAccessed (entity : EntityId) (windows : List WindowId)
  | setPhase (window : WindowId) (phase : DrawPhase)
  | startUpdate
  | finishUpdate
  | popEffect
  | visit
  | return (keep : Bool)
  | endApply
  | endFlush

/-- What code of the application does with a subscriber set; the calls of
`retain` are the flush's. -/
def Act.isClient {K C : Type} : Act K C → Bool
  | insert _ _ | activate _ | drop _ | detach _ | remove _ => true
  | _ => false

namespace App

def new : App where
  flushingEffects := false
  pendingUpdates := 0
  pendingEffects := []
  pending := fun _ => ∅
  observers := fun _ => SubscriberSet.new
  windowInvalidatorsByEntity := fun _ => []
  invalidators := fun _ => ⟨true, .none, ∅, 0⟩
  frames := []
  pushed := []
  processed := []

def pendingNotifications (s : App) : Finset EntityId := s.pending .entity

def pendingGlobalNotifications (s : App) : Finset TypeId := s.pending .global

/-- The effects that are being applied. -/
def applying (s : App) : List Effect :=
  s.frames.filterMap fun
    | .apply processed => some processed.effect
    | _ => none

/-- A subscriber's callback is running. -/
def observerRuns (s : App) (kind : NotifyKind) : Bool :=
  (s.observers kind).passes.head?.any fun pass => pass.running.isSome

def runsCode (s : App) : Bool :=
  match s.frames with
  | [] => false
  | .update :: _ => true
  | .flush :: _ => true
  | .apply processed :: _ =>
    match processed.effect.notifies with
    | some (kind, _) => s.observerRuns kind
    | none => processed.effect != .refreshWindows

/-! ### The queue -/

def queueEffect (s : App) (effect : Effect) : App :=
  { s with pendingEffects := s.pendingEffects ++ [effect], pushed := s.pushed ++ [effect] }

def insertPending (s : App) (kind : NotifyKind) (id : Nat) : App :=
  { s with pending := Function.update s.pending kind (insert id (s.pending kind)) }

def pushEffect (s : App) (effect : Effect) : App :=
  match effect.notifies with
  | some (kind, id) =>
    if id ∈ s.pending kind then s else (s.insertPending kind id).queueEffect effect
  | none => s.queueEffect effect

def invalidateView (entity : EntityId) (s : App) (window : WindowId) : App :=
  let inner := s.invalidators window
  let inner := { inner with
    updateCount := inner.updateCount + 1
    dirtyViews := insert entity inner.dirtyViews }
  if inner.drawPhase = .none then
    { s with invalidators := Function.update s.invalidators window { inner with dirty := true } }.pushEffect
      (.notify entity)
  else { s with invalidators := Function.update s.invalidators window inner }

def notify (s : App) (entity : EntityId) : App :=
  let windowInvalidators := s.windowInvalidatorsByEntity entity
  if windowInvalidators.isEmpty then
    if entity ∈ s.pending .entity then s
    else (s.insertPending .entity entity).queueEffect (.notify entity)
  else windowInvalidators.foldl (invalidateView entity) s

/-! ### Updates and flushes -/

def startUpdate (s : App) : App :=
  { s with pendingUpdates := s.pendingUpdates + 1, frames := .update :: s.frames }

/-- The closure of the innermost update, over `rest`, has returned. -/
def finishUpdate (s : App) (rest : List AppFrame) : App :=
  if s.flushingEffects = false ∧ s.pendingUpdates = 1 then
    { s with flushingEffects := true, frames := .flush :: .update :: rest }
  else { s with pendingUpdates := s.pendingUpdates - 1, frames := rest }

/-- The observers of `id` that are active. -/
def activeObservers (s : App) (kind : NotifyKind) (id : Nat) : List Nat :=
  ((s.observers kind).state.entries id).keys.filter (s.observers kind).active

def setObservers (s : App) (kind : NotifyKind) (observers : SubscriberSet Nat Unit) : App :=
  { s with observers := Function.update s.observers kind observers }

/-- `apply_notify_effect` and `apply_notify_global_observers_effect`, up to where
the first observer is visited. -/
def beginNotify (s : App) (kind : NotifyKind) (id : Nat) : Option App :=
  let s := { s with pending := Function.update s.pending kind ((s.pending kind).erase id) }
  ((s.observers kind).step (.beginRetain id)).map (s.setObservers kind)

def applyRefreshEffect (s : App) : App :=
  { s with invalidators := fun window => { s.invalidators window with
      dirty := true
      updateCount := (s.invalidators window).updateCount + 1 } }

/-- The effect is taken from the queue, and its handler begins. -/
def applyEffect (s : App) (effect : Effect) : Option App :=
  match effect.notifies with
  | some (kind, id) =>
    (s.beginNotify kind id).map fun s' =>
      { s' with frames := .apply ⟨effect, s.activeObservers kind id, []⟩ :: s.frames }
  | none =>
    let s := if effect = .refreshWindows then s.applyRefreshEffect else s
    some { s with frames := .apply ⟨effect, [], []⟩ :: s.frames }

/-- The observers of the effect that is being applied go on with `act`. -/
def advance (s : App) (act : Act Nat Unit) : Option App :=
  match s.frames with
  | .apply processed :: rest =>
    processed.effect.notifies.bind fun notified =>
      ((s.observers notified.1).step act).map fun observers =>
        let calls := observers.calls.drop (s.observers notified.1).calls.length
        { s.setObservers notified.1 observers with
          frames := .apply { processed with called := processed.called ++ calls.map Call.id } :: rest }
  | _ => none

/-- The end of `retain`; a `retain` that found no observers is over at once. -/
def endNotify (s : App) (kind : NotifyKind) : Option App :=
  if (s.observers kind).passes.isEmpty then some s
  else ((s.observers kind).step .endRetain).map (s.setObservers kind)

def endApply (s : App) : Option App :=
  match s.frames with
  | .apply processed :: rest =>
    let ended :=
      match processed.effect.notifies with
      | some (kind, _) => s.endNotify kind
      | none => some s
    ended.map fun s => { s with frames := rest, processed := s.processed ++ [processed] }
  | _ => none

/-- `none` where the action cannot come next. -/
def step (s : App) : AppAct → Option App
  | .notify entity => if s.runsCode then some (s.notify entity) else none
  | .pushEffect effect => if s.runsCode then some (s.pushEffect effect) else none
  | .subscribers kind act =>
    if s.runsCode && act.isClient then ((s.observers kind).step act).map (s.setObservers kind)
    else none
  | .recordEntitiesAccessed entity windows =>
    some { s with
      windowInvalidatorsByEntity := Function.update s.windowInvalidatorsByEntity entity windows }
  | .setPhase window phase =>
    some { s with
      invalidators := Function.update s.invalidators window
        { s.invalidators window with drawPhase := phase } }
  | .startUpdate => if s.frames.isEmpty || s.runsCode then some s.startUpdate else none
  | .finishUpdate =>
    match s.frames with
    | .update :: rest => some (s.finishUpdate rest)
    | _ => none
  | .popEffect =>
    match s.frames, s.pendingEffects with
    | .flush :: _, effect :: effects => { s with pendingEffects := effects }.applyEffect effect
    | _, _ => none
  | .visit => s.advance .visit
  | .return keep => s.advance (.return keep ())
  | .endApply => s.endApply
  | .endFlush =>
    match s.frames, s.pendingEffects with
    | .flush :: .update :: rest, [] =>
      some { s with flushingEffects := false, pendingUpdates := s.pendingUpdates - 1, frames := rest }
    | _, _ => none

/-! ### Where the turn of the app is -/

variable {s s' : App}

theorem step_finishUpdate (h : s.step .finishUpdate = some s') :
    ∃ rest, s.frames = .update :: rest ∧ s' = s.finishUpdate rest := by
  rw [step] at h
  split at h
  · rename_i rest hframes
    exact ⟨rest, hframes, (Option.some.inj h).symm⟩
  · cases h

theorem step_popEffect (h : s.step .popEffect = some s') : ∃ rest effect effects, s.frames = .flush :: rest ∧
    s.pendingEffects = effect :: effects ∧ { s with pendingEffects := effects }.applyEffect effect = some s' := by
  rw [step] at h
  split at h
  · rename_i rest effect effects hframes hqueue
    exact ⟨rest, effect, effects, hframes, hqueue, h⟩
  · cases h

theorem step_endFlush (h : s.step .endFlush = some s') : ∃ rest, s.frames = .flush :: .update :: rest ∧
    s.pendingEffects = [] ∧
      s' = { s with flushingEffects := false, pendingUpdates := s.pendingUpdates - 1, frames := rest } := by
  rw [step] at h
  split at h
  · rename_i rest hframes hqueue
    exact ⟨rest, hframes, hqueue, (Option.some.inj h).symm⟩
  · cases h

end App

end FcGpui
