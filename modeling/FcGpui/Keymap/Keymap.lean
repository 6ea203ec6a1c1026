import FcGpui.Keymap.Binding
import FcGpui.Lib.Selection

/-!
# The keymap

`Keymap` in `crates/gpui/src/keymap.rs`, and the functions of `DispatchTree` in
`crates/gpui/src/key_dispatch.rs` that only look at the keymap.  A keymap is the
list of its bindings in the order they were added, with two tables of positions:
those of each type of action and those of `NoAction`.  The tables are kept with
the list, so a keymap whose tables are wrong cannot be built.

`resolveBindingsForInput` finds what a typed input runs: the enabled bindings it
matches, the deepest first and at one depth the one added last, up to a
`NoAction` of the user.  `Keymap.bindingsForAction` lists the bindings of an
action for display and drops those a later `NoAction` removes;
`DispatchTree.bindingsForAction` keeps of these what the input would run.
-/

namespace FcGpui

structure Keymap (P : Type) where
  bindings : List (KeyBinding P)
  bindingIndicesByActionId : AList fun _ : Option Nat => List Nat
  noActionBindingIndices : List Nat
  indices_eq : ∀ id, (bindingIndicesByActionId.lookup id).getD [] =
    positions (fun binding => !binding.action.isNoAction && binding.action.typeId == id) bindings
  noAction_eq : noActionBindingIndices =
    positions (fun binding => binding.action.isNoAction) bindings

namespace Keymap

variable {P : Type}

def empty : Keymap P where
  bindings := []
  bindingIndicesByActionId := ∅
  noActionBindingIndices := []
  indices_eq id := by rw [AList.lookup_empty]; rfl
  noAction_eq := rfl

/-- One binding of `add_bindings`. -/
def addBinding (keymap : Keymap P) (binding : KeyBinding P) : Keymap P :=
  if h : binding.action.isNoAction = true then
    { bindings := keymap.bindings ++ [binding]
      bindingIndicesByActionId := keymap.bindingIndicesByActionId
      noActionBindingIndices := keymap.noActionBindingIndices ++ [keymap.bindings.length]
      indices_eq := fun id => by
        rw [keymap.indices_eq, positions_append_singleton]
        simp [h]
      noAction_eq := by
        rw [keymap.noAction_eq, positions_append_singleton]
        simp [h] }
  else
    { bindings := keymap.bindings ++ [binding]
      bindingIndicesByActionId := keymap.bindingIndicesByActionId.insert binding.action.typeId
        ((keymap.bindingIndicesByActionId.lookup binding.action.typeId).getD []
          ++ [keymap.bindings.length])
      noActionBindingIndices := keymap.noActionBindingIndices
      indices_eq := fun id => by
        rw [positions_append_singleton]
        by_cases hid : id = binding.action.typeId
        · subst hid
          rw [AList.lookup_insert, Option.getD_some, keymap.indices_eq]
          simp [h]
        · rw [AList.lookup_insert_ne hid, keymap.indices_eq]
          simp [Ne.symm hid]
      noAction_eq := by
        rw [keymap.noAction_eq, positions_append_singleton]
        simp [h] }

def addBindings (keymap : Keymap P) (bindings : List (KeyBinding P)) : Keymap P :=
  bindings.foldl addBinding keymap

def new (bindings : List (KeyBinding P)) : Keymap P := empty.addBindings bindings

/-- Whether a `NoAction` binding removes another one: the keystrokes are the same
and its predicate covers the other's. -/
def removes (nullBinding binding : KeyBinding P) : Bool :=
  nullBinding.keystrokes == binding.keystrokes &&
    match nullBinding.contextPredicate, binding.contextPredicate with
    | none, _ => true
    | some _, none => false
    | some nullPredicate, some predicate => nullPredicate.isSuperset predicate

/-- The bindings of an action, less those removed by a `NoAction` added later. -/
def bindingsForAction [BEq P] (keymap : Keymap P) (action : Action P) : List (KeyBinding P) :=
  ((keymap.bindingIndicesByActionId.lookup action.typeId).getD []).filterMap fun ix =>
    (keymap.bindings[ix]?).bind fun binding =>
      if !binding.action.partialEq action then none
      else if keymap.noActionBindingIndices.any fun nullIx =>
        decide (ix < nullIx) && (keymap.bindings[nullIx]?).any fun nullBinding =>
          removes nullBinding binding then none
      else some binding

/-- The depth at which a binding is enabled. -/
def bindingEnabled (binding : KeyBinding P) (contexts : List KeyContext) : Option Nat :=
  match binding.contextPredicate with
  | some predicate => predicate.depthOf contexts
  | none => some contexts.length

/-- A binding that an input matches: its depth, its position and the binding. -/
abbrev Matched (P : Type) := Nat × Nat × KeyBinding P

/-- The order of precedence: deeper first, and at one depth added later first. -/
def Matched.precedes (a b : Matched P) : Bool :=
  decide (b.1 < a.1 ∨ (b.1 = a.1 ∧ b.2.1 ≤ a.2.1))

/-- A `NoAction` of a user's keymap; one without metadata counts as such. -/
def isUserNoAction (binding : KeyBinding P) : Bool :=
  binding.action.isNoAction && match binding.metaIndex with
    | some index => index == 0
    | none => true

/-- The loop over the matched bindings. -/
def takeMatched : List (Matched P) → List (Nat × KeyBinding P)
  | [] => []
  | (_, ix, binding) :: rest =>
    if binding.action.isNoAction then
      -- a `NoAction` of a base keymap may be overridden, so the search goes on
      if isUserNoAction binding then [] else takeMatched rest
    else (ix, binding) :: takeMatched rest

def matchedBindings (os : TargetOs) (input : List Keystroke) (contextStack : List KeyContext)
    (keymapBindings : List (Nat × KeyBinding P)) (pending : Bool) : List (Matched P) :=
  keymapBindings.filterMap fun (ix, binding) => do
    let depth ← bindingEnabled binding contextStack
    let isPending ← binding.matchKeystrokes os input
    if isPending = pending then some (depth, ix, binding) else none

/-- The keystrokes that may still follow, from the pending bindings in keymap
order. -/
def pendingKeystrokes (firstBindingIndex : Option Nat) (pendingBindings : List (Matched P)) :
    Finset (List KeybindingKeystroke) :=
  pendingBindings.foldl (fun pending (_, ix, binding) =>
    if firstBindingIndex.any fun bindingIx => decide (ix < bindingIx) then pending
    else if binding.action.isNoAction then pending.erase binding.keystrokes
    else insert binding.keystrokes pending) ∅

def resolveBindingsForInput (os : TargetOs) (input : List Keystroke)
    (contextStack : List KeyContext) (keymapBindings : List (Nat × KeyBinding P)) :
    List (Nat × KeyBinding P) × Bool :=
  let matched := (matchedBindings os input contextStack keymapBindings false).insertionSort
    fun a b => a.precedes b = true
  let bindings := takeMatched matched
  let pending := pendingKeystrokes (bindings.head?.map Prod.fst)
    (matchedBindings os input contextStack keymapBindings true).reverse
  (bindings, decide (pending ≠ ∅))

/-- The bindings of the keymap with their positions, the last first. -/
def indexed (keymap : Keymap P) : List (Nat × KeyBinding P) :=
  (keymap.bindings.zipIdx.map Prod.swap).reverse

def bindingsForInput (os : TargetOs) (keymap : Keymap P) (input : List Keystroke)
    (contextStack : List KeyContext) : List (KeyBinding P) × Bool :=
  let (bindings, pending) := resolveBindingsForInput os input contextStack keymap.indexed
  (bindings.map Prod.snd, pending)

end Keymap

namespace DispatchTree

variable {P : Type} [BEq P]

def bindingMatchesPredicateAndNotShadowed (os : TargetOs) (keymap : Keymap P)
    (binding : KeyBinding P) (contextStack : List KeyContext) : Bool :=
  (keymap.bindingsForInput os binding.chord contextStack).1.head?.any fun found =>
    found.action.partialEq binding.action

def bindingsForAction (os : TargetOs) (keymap : Keymap P) (action : Action P)
    (contextStack : List KeyContext) : List (KeyBinding P) :=
  (keymap.bindingsForAction action).filter fun binding =>
    bindingMatchesPredicateAndNotShadowed os keymap binding contextStack

def highestPrecedenceBindingForAction (os : TargetOs) (keymap : Keymap P) (action : Action P)
    (contextStack : List KeyContext) : Option (KeyBinding P) :=
  (keymap.bindingsForAction action).reverse.find? fun binding =>
    bindingMatchesPredicateAndNotShadowed os keymap binding contextStack

end DispatchTree

end FcGpui
