import Mathlib.Data.List.Basic
import Mathlib.Logic.Function.Basic

/-!
# Global action listeners

`dispatch_global_action` and `on_action` of `crates/gpui/src/app.rs`, and
`dispatch_action_on_node` of `crates/gpui/src/window.rs`.  An action goes to the global
listeners in the capture phase, to those of the dispatch path in both phases, and to the
global ones again in the bubble phase, until one of them leaves `propagate_event` unset.

What a listener does is given by `Client`, for the calls made so far: what it last writes
to the flag (itself or by what it dispatches in turn), and the listeners that it registers.
`calls` is not in the source.
-/

namespace FcGpui.Actions

inductive DispatchPhase
  | bubble
  | capture
deriving DecidableEq

/-- What a call does to the app: `some true` is `propagate` and `some false` is `stop_propagation`. -/
structure Reaction (A L : Type) where
  propagateEvent : Option Bool
  registered : List (A × L)

/-- The reaction of a listener to a call in a phase. -/
abbrev Client (A L : Type) := List (L × DispatchPhase) → L → DispatchPhase → Reaction A L

structure App (A L : Type) where
  propagateEvent : Bool
  globalActionListeners : A → Option (List L)
  calls : List (L × DispatchPhase)

structure DispatchActionListener (A L : Type) where
  actionType : A
  listener : L

variable {A L : Type}

namespace App

variable [DecidableEq A]

def onAction (cx : App A L) (actionType : A) (listener : L) : App A L :=
  { cx with
    globalActionListeners := Function.update cx.globalActionListeners actionType
      (some ((cx.globalActionListeners actionType).getD [] ++ [listener])) }

def react (cx : App A L) (reaction : Reaction A L) : App A L :=
  reaction.registered.foldl (fun cx r => cx.onAction r.1 r.2)
    { cx with propagateEvent := reaction.propagateEvent.getD cx.propagateEvent }

/-- The call of a listener of the dispatch path. -/
def call (client : Client A L) (phase : DispatchPhase) (listener : L) (cx : App A L) : App A L :=
  { cx with calls := cx.calls ++ [(listener, phase)] }.react (client cx.calls listener phase)

/-- The call of a global listener: the closure of `on_action` does nothing in the capture phase. -/
def callGlobal (client : Client A L) (phase : DispatchPhase) (listener : L) (cx : App A L) : App A L :=
  if phase = .bubble then call client phase listener cx
  else { cx with calls := cx.calls ++ [(listener, phase)] }

/-- Actions stop propagation by default during the bubble phase. -/
def stopByDefault (visit : L → App A L → App A L) (listener : L) (cx : App A L) : App A L :=
  visit listener { cx with propagateEvent := false }

/-- A loop over listeners that breaks when the flag is not set. -/
def visitAll (visit : L → App A L → App A L) : List L → App A L → App A L
  | [], cx => cx
  | listener :: listeners, cx =>
    let cx := visit listener cx
    if cx.propagateEvent then visitAll visit listeners cx else cx

/-- The listeners of an action type are out of the map while the loop runs. -/
def visitGlobal (actionType : A) (visit : List L → App A L → App A L) (cx : App A L) : App A L :=
  match cx.globalActionListeners actionType with
  | none => cx
  | some globalListeners =>
    let cx := visit globalListeners
      { cx with globalActionListeners := Function.update cx.globalActionListeners actionType none }
    { cx with
      globalActionListeners := Function.update cx.globalActionListeners actionType
        (some (globalListeners ++ (cx.globalActionListeners actionType).getD [])) }

def dispatchGlobalAction (client : Client A L) (action : A) (cx : App A L) : App A L :=
  let cx := visitGlobal action (visitAll (callGlobal client .capture)) { cx with propagateEvent := true }
  if cx.propagateEvent then
    visitGlobal action (fun listeners => visitAll (callGlobal client .bubble) listeners.reverse) cx
  else cx

/-- The listeners for an action of the nodes, one node after the other. -/
def listenersFor (action : A) (nodes : List (List (DispatchActionListener A L))) : List L :=
  nodes.flatMap fun node => (node.filter fun listener => listener.actionType = action).map
    DispatchActionListener.listener

/-- `dispatchPath` has the action listeners of each node, from the root. -/
def dispatchActionOnNode (client : Client A L) (dispatchPath : List (List (DispatchActionListener A L)))
    (action : A) (cx : App A L) : App A L :=
  let cx := visitGlobal action (visitAll (callGlobal client .capture)) { cx with propagateEvent := true }
  if !cx.propagateEvent then cx
  else
    let cx := visitAll (call client .capture) (listenersFor action dispatchPath) cx
    if !cx.propagateEvent then cx
    else
      let cx := visitAll (stopByDefault (call client .bubble)) (listenersFor action dispatchPath.reverse) cx
      if !cx.propagateEvent then cx
      else visitGlobal action (fun listeners =>
        visitAll (stopByDefault (callGlobal client .bubble)) listeners.reverse) cx

end App

/-- Every listener that is reached in the bubble phase calls `stop_propagation` or `propagate`, but
for the last one. -/
def Decides (client : Client A L) : List (L × DispatchPhase) → List L → Prop
  | calls, listener :: next :: listeners =>
    match (client calls listener .bubble).propagateEvent with
    | none => False
    | some false => True
    | some true => Decides client (calls ++ [(listener, .bubble)]) (next :: listeners)
  | _, _ => True

/-! ### The calls of a loop -/

namespace App

variable [DecidableEq A] {client : Client A L} {cx cx' : App A L} {listener : L} {phase : DispatchPhase}

@[simp]
theorem onAction_calls (cx : App A L) (actionType : A) (listener : L) :
    (cx.onAction actionType listener).calls = cx.calls := rfl

@[simp]
theorem onAction_propagateEvent (cx : App A L) (actionType : A) (listener : L) :
    (cx.onAction actionType listener).propagateEvent = cx.propagateEvent := rfl

theorem registers (registered : List (A × L)) (cx : App A L) :
    (registered.foldl (fun cx r => cx.onAction r.1 r.2) cx).calls = cx.calls ∧
      (registered.foldl (fun cx r => cx.onAction r.1 r.2) cx).propagateEvent = cx.propagateEvent := by
  induction registered generalizing cx with
  | nil => exact ⟨rfl, rfl⟩
  | cons r registered ih => exact ih (cx.onAction r.1 r.2)

@[simp]
theorem react_calls (cx : App A L) (reaction : Reaction A L) : (cx.react reaction).calls = cx.calls :=
  (registers reaction.registered _).1

@[simp]
theorem react_propagateEvent (cx : App A L) (reaction : Reaction A L) :
    (cx.react reaction).propagateEvent = reaction.propagateEvent.getD cx.propagateEvent :=
  (registers reaction.registered _).2

@[simp]
theorem callGlobal_calls (client : Client A L) (phase : DispatchPhase) (listener : L) (cx : App A L) :
    (callGlobal client phase listener cx).calls = cx.calls ++ [(listener, phase)] := by
  rw [callGlobal]
  split
  · rw [call, react_calls]
  · rfl

theorem callGlobal_bubble_propagateEvent (client : Client A L) (listener : L) (cx : App A L) :
    (callGlobal client .bubble listener cx).propagateEvent
      = (client cx.calls listener .bubble).propagateEvent.getD cx.propagateEvent := by
  rw [callGlobal, if_pos rfl, call, react_propagateEvent]

omit [DecidableEq A] in
theorem visitAll_cons (visit : L → App A L → App A L) (listener : L) (listeners : List L) (cx : App A L) :
    visitAll visit (listener :: listeners) cx =
      if (visit listener cx).propagateEvent then visitAll visit listeners (visit listener cx)
      else visit listener cx := rfl

theorem visitAll_calls (client : Client A L) (phase : DispatchPhase) (listeners : List L) (cx : App A L) :
    ∃ more, (visitAll (callGlobal client phase) listeners cx).calls = cx.calls ++ more ∧
      (listeners ≠ [] → more ≠ []) := by
  induction listeners generalizing cx with
  | nil => exact ⟨[], (List.append_nil _).symm, fun h => absurd rfl h⟩
  | cons listener listeners ih =>
    rw [visitAll_cons]
    split
    · obtain ⟨more, hcalls, -⟩ := ih (callGlobal client phase listener cx)
      refine ⟨(listener, phase) :: more, ?_, fun _ => List.cons_ne_nil _ _⟩
      rw [hcalls, callGlobal_calls, List.append_assoc]
      rfl
    · exact ⟨[(listener, phase)], callGlobal_calls client phase listener cx, fun _ => List.cons_ne_nil _ _⟩

theorem visitAll_calls_iff (listeners : List L) (hcalls : cx.calls = cx'.calls) (hflag : cx'.propagateEvent = true) :
    (visitAll (stopByDefault (callGlobal client .bubble)) listeners cx).calls
        = (visitAll (callGlobal client .bubble) listeners cx').calls ↔ Decides client cx.calls listeners := by
  induction listeners generalizing cx cx' with
  | nil => exact iff_of_true hcalls trivial
  | cons listener listeners ih =>
    -- both loops call the listener; what it writes to the flag decides whether they go on
    have hwindow : (stopByDefault (callGlobal client .bubble) listener cx).propagateEvent
        = (client cx.calls listener .bubble).propagateEvent.getD false := by
      rw [stopByDefault, callGlobal_bubble_propagateEvent]
    have hglobal : (callGlobal client .bubble listener cx').propagateEvent
        = (client cx.calls listener .bubble).propagateEvent.getD true := by
      rw [callGlobal_bubble_propagateEvent, hflag, hcalls]
    have hstep : (stopByDefault (callGlobal client .bubble) listener cx).calls
        = cx.calls ++ [(listener, .bubble)] := by
      rw [stopByDefault, callGlobal_calls]
    have hstep' : (callGlobal client .bubble listener cx').calls = cx.calls ++ [(listener, .bubble)] := by
      rw [callGlobal_calls, hcalls]
    cases listeners with
    | nil =>
      refine iff_of_true ?_ trivial
      simp only [visitAll, ite_self]
      rw [hstep, hstep']
    | cons next listeners =>
      rw [visitAll_cons _ listener, visitAll_cons _ listener, Decides, hwindow, hglobal]
      cases hwrites : (client cx.calls listener .bubble).propagateEvent with
      | none =>
        refine iff_of_false ?_ id
        obtain ⟨more, hmore, hne⟩ := visitAll_calls client .bubble (next :: listeners)
          (callGlobal client .bubble listener cx')
        simp only [Option.getD_none, Bool.false_eq_true, if_false, if_true]
        rw [hmore, hstep, hstep']
        exact fun heq => hne (List.cons_ne_nil _ _) (List.self_eq_append_right.mp heq)
      | some propagates =>
        cases propagates with
        | false =>
          refine iff_of_true ?_ trivial
          simp only [Option.getD_some, Bool.false_eq_true, if_false]
          rw [hstep, hstep']
        | true =>
          simp only [Option.getD_some, if_true]
          rw [ih (hstep.trans hstep'.symm) (by rw [hglobal, hwrites]; rfl), hstep]

/-! ### The dispatches -/

theorem visitAll_capture (listeners : List L) (cx : App A L) (hflag : cx.propagateEvent = true) :
    visitAll (callGlobal client .capture) listeners cx
      = { cx with calls := cx.calls ++ listeners.map fun listener => (listener, .capture) } := by
  induction listeners generalizing cx with
  | nil => rw [visitAll, List.map_nil, List.append_nil]
  | cons listener listeners ih =>
    have hcall : callGlobal client .capture listener cx
        = { cx with calls := cx.calls ++ [(listener, .capture)] } := rfl
    rw [visitAll_cons, hcall, if_pos hflag]
    refine (ih { cx with calls := cx.calls ++ [(listener, .capture)] } hflag).trans ?_
    rw [List.append_assoc]
    rfl

theorem visitGlobal_capture (action : A) (cx : App A L) (hflag : cx.propagateEvent = true) :
    visitGlobal action (visitAll (callGlobal client .capture)) cx =
      { cx with
        calls := cx.calls ++ ((cx.globalActionListeners action).getD []).map fun listener =>
          (listener, .capture) } := by
  rw [visitGlobal]
  cases hlisteners : cx.globalActionListeners action with
  | none => rw [Option.getD_none, List.map_nil, List.append_nil]
  | some listeners =>
    have hcapture : visitAll (callGlobal client .capture) listeners
        { cx with globalActionListeners := Function.update cx.globalActionListeners action none } = _ :=
      visitAll_capture listeners _ hflag
    dsimp only
    rw [hcapture]
    simp only [Function.update_self, Function.update_idem, Option.getD_none, List.append_nil, Option.getD_some]
    rw [← hlisteners, Function.update_eq_self]

theorem visitGlobal_calls_iff (action : A) (cx : App A L) (hflag : cx.propagateEvent = true) :
    (visitGlobal action (fun listeners => visitAll (stopByDefault (callGlobal client .bubble)) listeners.reverse)
        cx).calls
      = (visitGlobal action (fun listeners => visitAll (callGlobal client .bubble) listeners.reverse) cx).calls ↔
    Decides client cx.calls ((cx.globalActionListeners action).getD []).reverse := by
  rw [visitGlobal, visitGlobal]
  cases cx.globalActionListeners action with
  | none => exact iff_of_true rfl trivial
  | some listeners => exact visitAll_calls_iff listeners.reverse rfl hflag

end App

theorem listenersFor_eq_nil {action : A} [DecidableEq A] {nodes : List (List (DispatchActionListener A L))}
    (h : ∀ node ∈ nodes, ∀ listener ∈ node, listener.actionType ≠ action) : App.listenersFor action nodes = [] := by
  refine List.flatMap_eq_nil_iff.mpr fun node hnode => ?_
  rw [List.map_eq_nil_iff, List.filter_eq_nil_iff]
  intro listener hlistener hdecide
  exact h node hnode listener hlistener (of_decide_eq_true hdecide)

/-- **Global action listeners do not depend on having a window** just if each one that is reached in the
bubble phase decides, but for the last. -/
theorem dispatchActionOnNode_calls_iff [DecidableEq A] (client : Client A L)
    {dispatchPath : List (List (DispatchActionListener A L))} {action : A}
    (hpath : ∀ node ∈ dispatchPath, ∀ listener ∈ node, listener.actionType ≠ action) (cx : App A L) :
    (cx.dispatchActionOnNode client dispatchPath action).calls = (cx.dispatchGlobalAction client action).calls ↔
      Decides client
        (cx.calls ++ ((cx.globalActionListeners action).getD []).map fun listener => (listener, .capture))
        ((cx.globalActionListeners action).getD []).reverse := by
  have hreverse : ∀ node ∈ dispatchPath.reverse, ∀ listener ∈ node, listener.actionType ≠ action :=
    fun node hnode => hpath node (List.mem_reverse.mp hnode)
  rw [App.dispatchActionOnNode, App.dispatchGlobalAction, listenersFor_eq_nil hpath, listenersFor_eq_nil hreverse,
    App.visitGlobal_capture action _ rfl]
  exact App.visitGlobal_calls_iff action _ rfl

/-- A listener that writes nothing to the flag, under two names. -/
def silent : Client Unit Nat := fun _ _ _ => ⟨none, []⟩

def twoListeners : App Unit Nat := ((⟨true, fun _ => none, []⟩ : App Unit Nat).onAction () 0).onAction () 1

theorem dispatchActionOnNode_calls_iff_twoListeners :
    (twoListeners.dispatchActionOnNode silent [] ()).calls = (twoListeners.dispatchGlobalAction silent ()).calls ↔
      Decides silent (twoListeners.calls ++
        ((twoListeners.globalActionListeners ()).getD []).map fun listener => (listener, .capture))
        ((twoListeners.globalActionListeners ()).getD []).reverse :=
  dispatchActionOnNode_calls_iff silent (by simp) twoListeners

/-- Without a window, both are called in the bubble phase. -/
theorem not_dispatchActionOnNode_calls : ¬ ∀ (client : Client Unit Nat)
    (dispatchPath : List (List (DispatchActionListener Unit Nat))) action (cx : App Unit Nat),
    (∀ node ∈ dispatchPath, ∀ listener ∈ node, listener.actionType ≠ action) →
    (cx.dispatchActionOnNode client dispatchPath action).calls = (cx.dispatchGlobalAction client action).calls := by
  intro h
  have hcalls := h silent [] () twoListeners (by simp)
  exact absurd hcalls (by decide)

end FcGpui.Actions
