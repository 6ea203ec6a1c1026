import FcGpui.Lib.OrdMap
import FcGpui.Lib.Machine

/-!
# Subscriber sets

`crates/gpui/src/subscription.rs`.  A `SubscriberSet` maps an emitter to its
subscribers, by subscriber id.  `retain` takes the subscribers of an emitter out
of the map, so that the callbacks it invokes may use the set again, and puts
back at the end those that stay together with those that came in meanwhile.  A
subscription dropped while its emitter is taken out is marked in
`dropped_subscribers`.

Since callbacks re-enter the set, a call of `retain` is not one step.  It begins,
visits the subscribers one by one, waits for each callback to return, and ends;
the calls that have begun and not ended are the stack `passes`, innermost
first.  The clients of the set act between these steps at will, so an
interleaving of calls is a list of `Act`s and a run is `run step`.

The flags shared by a subscriber and its activation closure are the map
`active`.  What the set does not hold but the statements need is in the last
three fields: the subscriptions not dropped or detached yet, the ids whose
subscription was dropped, and the calls made so far, each with the ids that had
been dropped when its pass began.
-/

namespace FcGpui

structure SubscriberSetState (K C : Type) where
  subscribers : K → Option (Option (OrdMap Nat C))
  droppedSubscribers : Finset (K × Nat)
  nextSubscriberId : Nat

/-- A call of `retain` under way: the subscribers visited and kept, the one
whose callback is running, and those still to visit. -/
structure Pass (K C : Type) where
  emitter : K
  kept : OrdMap Nat C
  running : Option (Nat × C)
  pending : OrdMap Nat C
  droppedBefore : Finset Nat

/-- A callback invoked, and the ids dropped before its pass began. -/
structure Call where
  id : Nat
  droppedBefore : Finset Nat
deriving DecidableEq

structure SubscriberSet (K C : Type) where
  state : SubscriberSetState K C
  active : Nat → Bool
  passes : List (Pass K C)
  subscriptions : Nat → Option K
  dropped : Finset Nat
  calls : List Call

inductive Act (K C : Type)
  | insert (emitterKey : K) (callback : C)
  | activate (id : Nat)
  | drop (id : Nat)
  | detach (id : Nat)
  | remove (emitter : K)
  | beginRetain (emitter : K)
  | visit
  | return (keep : Bool) (callback : C)
  | endRetain

namespace Pass

variable {K C : Type}

/-- The subscribers a pass has taken out of the map. -/
def held (p : Pass K C) : List Nat :=
  p.kept.keys ++ (p.running.map Prod.fst).toList ++ p.pending.keys

end Pass

namespace SubscriberSetState

variable {K C : Type} [DecidableEq K]

/-- The subscribers of an emitter that are in the map. -/
def entries (s : SubscriberSetState K C) (k : K) : OrdMap Nat C :=
  ((s.subscribers k).bind id).getD []

def set (s : SubscriberSetState K C) (k : K) (entry : Option (Option (OrdMap Nat C))) :
    SubscriberSetState K C :=
  { s with subscribers := Function.update s.subscribers k entry }

/-- The map without an entry left empty. -/
def entryOf (m : OrdMap Nat C) : Option (Option (OrdMap Nat C)) :=
  if m.isEmpty then none else some (some m)

/-- `entry(k).or_default().get_or_insert_with(Default::default).insert(..)`. -/
def insert (s : SubscriberSetState K C) (emitterKey : K) (callback : C) :
    Nat × SubscriberSetState K C :=
  let id := s.nextSubscriberId
  let s := { s with nextSubscriberId := id + 1 }
  (id, s.set emitterKey (some (some ((s.entries emitterKey).insert id callback))))

/-- What dropping a subscription runs. -/
def unsubscribe (s : SubscriberSetState K C) (emitterKey : K) (id : Nat) :
    SubscriberSetState K C :=
  match s.subscribers emitterKey with
  | none => s
  | some (some subscribers) => s.set emitterKey (entryOf (subscribers.erase id))
  | some none => { s with droppedSubscribers := Insert.insert (emitterKey, id) s.droppedSubscribers }

/-- Returns the subscribers that were in the map; the caller gets the callbacks
of the active ones. -/
def remove (s : SubscriberSetState K C) (emitter : K) : OrdMap Nat C × SubscriberSetState K C :=
  (s.entries emitter, s.set emitter none)

/-- The end of `retain`: new subscribers join, marked ones leave, all marks are
taken. -/
def putBack (s : SubscriberSetState K C) (emitter : K) (subscribers : OrdMap Nat C) :
    SubscriberSetState K C :=
  let subscribers := subscribers.extend (s.entries emitter)
  let subscribers := subscribers.filter fun e => e.1 ∉ s.droppedSubscribers.image Prod.snd
  { s.set emitter (entryOf subscribers) with droppedSubscribers := ∅ }

end SubscriberSetState

namespace SubscriberSet

variable {K C : Type} [DecidableEq K]

def new : SubscriberSet K C :=
  ⟨⟨fun _ => none, ∅, 0⟩, fun _ => false, [], fun _ => none, ∅, []⟩

/-- One step of the set and its clients; `none` where the action cannot be made:
a subscription is dropped or detached once, a pass goes on in turn. -/
def step (s : SubscriberSet K C) : Act K C → Option (SubscriberSet K C)
  | .insert emitterKey callback =>
    let (id, state) := s.state.insert emitterKey callback
    some { s with
      state := state
      active := Function.update s.active id false
      subscriptions := Function.update s.subscriptions id (some emitterKey) }
  | .activate id =>
    if id < s.state.nextSubscriberId then some { s with active := Function.update s.active id true }
    else none
  | .drop id => do
    let emitterKey ← s.subscriptions id
    some { s with
      state := s.state.unsubscribe emitterKey id
      subscriptions := Function.update s.subscriptions id none
      dropped := Insert.insert id s.dropped }
  | .detach id =>
    if (s.subscriptions id).isSome then
      some { s with subscriptions := Function.update s.subscriptions id none }
    else none
  | .remove emitter => some { s with state := (s.state.remove emitter).2 }
  | .beginRetain emitter =>
    match s.state.subscribers emitter with
    | some (some subscribers) =>
      some { s with
        state := s.state.set emitter (some none)
        passes := ⟨emitter, [], none, subscribers, s.dropped⟩ :: s.passes }
    | _ => some s
  | .visit =>
    match s.passes with
    | ⟨emitter, kept, none, e :: pending, before⟩ :: passes =>
      if s.active e.1 then
        some { s with
          passes := ⟨emitter, kept, some e, pending, before⟩ :: passes
          calls := s.calls ++ [⟨e.1, before⟩] }
      else some { s with passes := ⟨emitter, kept ++ [e], none, pending, before⟩ :: passes }
    | _ => none
  | .return keep callback =>
    match s.passes with
    | ⟨emitter, kept, some e, pending, before⟩ :: passes =>
      let kept := if keep then kept ++ [(e.1, callback)] else kept
      some { s with passes := ⟨emitter, kept, none, pending, before⟩ :: passes }
    | _ => none
  | .endRetain =>
    match s.passes with
    | ⟨emitter, kept, none, [], _⟩ :: passes =>
      some { s with state := s.state.putBack emitter kept, passes := passes }
    | _ => none

end SubscriberSet

section Steps

variable {K C : Type}

/-! ### What a step does -/

/-- How a pass goes on: the callback it invokes is listed, if it invokes one. -/
inductive Pass.Next (active : Nat → Bool) : Act K C → Pass K C → Pass K C → List Nat → Prop
  | call {k : K} {kept pending : OrdMap Nat C} {e : Nat × C} {before : Finset Nat}
      (h : active e.1 = true) : Next active .visit ⟨k, kept, none, e :: pending, before⟩
        ⟨k, kept, some e, pending, before⟩ [e.1]
  | skip {k : K} {kept pending : OrdMap Nat C} {e : Nat × C} {before : Finset Nat}
      (h : active e.1 = false) : Next active .visit ⟨k, kept, none, e :: pending, before⟩
        ⟨k, kept ++ [e], none, pending, before⟩ []
  | keep {k : K} {kept pending : OrdMap Nat C} {e : Nat × C} {before : Finset Nat} {c : C} :
      Next active (.return true c) ⟨k, kept, some e, pending, before⟩
        ⟨k, kept ++ [(e.1, c)], none, pending, before⟩ []
  | discard {k : K} {kept pending : OrdMap Nat C} {e : Nat × C} {before : Finset Nat} {c : C} :
      Next active (.return false c) ⟨k, kept, some e, pending, before⟩
        ⟨k, kept, none, pending, before⟩ []

namespace Pass.Next

variable {active : Nat → Bool} {a : Act K C} {p p' : Pass K C} {called : List Nat}

section OneVisit

variable (h : Next active a p p' called)
include h

theorem emitter : p'.emitter = p.emitter := by
  cases h <;> rfl

theorem droppedBefore : p'.droppedBefore = p.droppedBefore := by
  cases h <;> rfl

theorem held : p'.held.Sublist p.held := by
  cases h with
  | call h => simp [Pass.held, OrdMap.keys]
  | skip h => simp [Pass.held, OrdMap.keys]
  | keep => simp [Pass.held, OrdMap.keys]
  | discard => simp [Pass.held, OrdMap.keys]

theorem called_held : ∀ i ∈ called, i ∈ p.held := by
  cases h with
  | call h => simp [Pass.held, OrdMap.keys]
  | _ => simp

/-- The subscribers it calls and those it has to visit afterwards. -/
theorem pending : (called ++ p'.pending.keys).Sublist p.pending.keys := by
  cases h with
  | call h => simp [OrdMap.keys]
  | skip h => simp [OrdMap.keys]
  | keep => simp
  | discard => simp

theorem active_pending {i : Nat} (hi : i ∈ p.pending.keys)
    (hactive : active i = true) : i ∈ called ∨ i ∈ p'.pending.keys := by
  cases h with
  | call h => simpa [OrdMap.keys] using hi
  | skip h =>
    rcases List.mem_cons.mp hi with rfl | hi
    · exact absurd hactive (by simp [h])
    · exact Or.inr hi
  | keep => exact Or.inr hi
  | discard => exact Or.inr hi

end OneVisit

end Pass.Next

namespace SubscriberSet

variable [DecidableEq K] {s s' : SubscriberSet K C}

theorem step_activate {id : Nat} (h : s.step (.activate id) = some s') :
    s' = { s with active := Function.update s.active id true } := by
  rw [step] at h
  split at h
  · exact (Option.some.inj h).symm
  · cases h

theorem step_drop {id : Nat} (h : s.step (.drop id) = some s') :
    ∃ k, s.subscriptions id = some k ∧ s' = { s with
      state := s.state.unsubscribe k id
      subscriptions := Function.update s.subscriptions id none
      dropped := Insert.insert id s.dropped } := by
  obtain ⟨k, hk, h⟩ := Option.bind_eq_some_iff.mp h
  exact ⟨k, hk, (Option.some.inj h).symm⟩

theorem step_detach {id : Nat} (h : s.step (.detach id) = some s') :
    s' = { s with subscriptions := Function.update s.subscriptions id none } := by
  rw [step] at h
  split at h
  · exact (Option.some.inj h).symm
  · cases h

theorem step_beginRetain {k : K} (h : s.step (.beginRetain k) = some s') :
    (∃ subscribers, s.state.subscribers k = some (some subscribers) ∧ s' = { s with
      state := s.state.set k (some none)
      passes := ⟨k, [], none, subscribers, s.dropped⟩ :: s.passes }) ∨
    ((∀ subscribers, s.state.subscribers k ≠ some (some subscribers)) ∧ s' = s) := by
  rw [step] at h
  split at h
  · rename_i subscribers hk
    exact Or.inl ⟨subscribers, hk, (Option.some.inj h).symm⟩
  · rename_i hk
    exact Or.inr ⟨hk, (Option.some.inj h).symm⟩

theorem step_visit_next (h : s.step .visit = some s') : ∃ p p' rest called, s.passes = p :: rest ∧
    p.Next s.active .visit p' called ∧ s' = { s with
      passes := p' :: rest
      calls := s.calls ++ called.map fun i => ⟨i, p.droppedBefore⟩ } := by
  rw [step] at h
  split at h
  · rename_i emitter kept e pending before rest hp
    split at h
    · rename_i hactive
      obtain rfl := Option.some.inj h
      exact ⟨_, _, rest, [e.1], hp, .call hactive, rfl⟩
    · rename_i hactive
      obtain rfl := Option.some.inj h
      exact ⟨_, _, rest, [], hp, .skip (Bool.not_eq_true _ ▸ hactive), by rw [List.map_nil, List.append_nil]⟩
  · cases h

theorem step_return_next {keep : Bool} {c : C} (h : s.step (.return keep c) = some s') :
    ∃ p p' rest, s.passes = p :: rest ∧ p.Next s.active (.return keep c) p' [] ∧
      s' = { s with passes := p' :: rest } := by
  rw [step] at h
  split at h
  · rename_i emitter kept e pending before rest hp
    obtain rfl := Option.some.inj h
    cases keep with
    | true => exact ⟨_, _, rest, hp, .keep, rfl⟩
    | false => exact ⟨_, _, rest, hp, .discard, rfl⟩
  · cases h

/-- The innermost pass ends when it has visited its subscribers. -/
theorem step_endRetain (h : s.step .endRetain = some s') : ∃ p rest, s.passes = p :: rest ∧
    p.running = none ∧ p.pending = [] ∧
      s' = { s with state := s.state.putBack p.emitter p.kept, passes := rest } := by
  rw [step] at h
  split at h
  · rename_i emitter kept before rest hp
    exact ⟨_, rest, hp, rfl, rfl, (Option.some.inj h).symm⟩
  · cases h

end SubscriberSet

end Steps

end FcGpui
