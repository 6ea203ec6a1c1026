import FcGpui.Window.MouseDispatch

/-!
# Drops

The drop listeners of `Interactivity::paint_mouse_listeners`: the release of a mouse button, handed to
the elements under the mouse while something is dragged.  An element asks its predicate only when it
has taken the drag out of the application, once for each listener of the drag's type.

`deliveries` says which listeners are to get the value.  `dispatchMouseUp_eq` is what the code does for
any stack of elements, `dropReaches_iff` for which stacks the two agree.

What a predicate answers depends on the dragged value; what it or a listener does besides is left out.
-/

namespace FcGpui.Mouse

open Actions (DispatchPhase)

variable {H T V L : Type}

/-- A dragged value and its type. -/
structure AnyDrag (T V : Type) where
  typeId : T
  value : V

/-- The hitbox of an element, and what it takes drops with. -/
structure DropTarget (H T V L : Type) where
  hitbox : H
  dropListeners : List (T × L)
  canDropPredicate : Option (V → Bool)

/-- The flag and the drag of the application, and the calls of drop listeners. -/
structure Dropping (T V L : Type) where
  activeDrag : Option (AnyDrag T V)
  propagateEvent : Bool
  dropped : List (L × V)

namespace DropTarget

section Listener

variable [DecidableEq T]

/-- The loop over the listeners of an element. -/
def dropOn (target : DropTarget H T V L) (dragStateType : T) : List (T × L) → Dropping T V L → Option (Dropping T V L)
  | [], w => some w
  | (dropStateType, listener) :: listeners, w =>
    if dropStateType = dragStateType then
      match w.activeDrag with
      -- `expect("checked for type drag state type above")`
      | none => none
      | some drag =>
        let canDrop := target.canDropPredicate.elim true fun predicate => predicate drag.value
        let w := { w with activeDrag := none }
        dropOn target dragStateType listeners
          (if canDrop then { w with dropped := w.dropped ++ [(listener, drag.value)], propagateEvent := false } else w)
    else dropOn target dragStateType listeners w

/-- The listener of an element for the release of a mouse button. -/
def onMouseUp (hovered : H → Bool) (phase : DispatchPhase) (target : DropTarget H T V L) (w : Dropping T V L) :
    Option (Dropping T V L) :=
  match w.activeDrag with
  | some drag =>
    if phase = .bubble ∧ hovered target.hitbox = true then target.dropOn drag.typeId target.dropListeners w
    else some w
  | none => some w

end Listener

end DropTarget

/-- `dispatch_mouse_event` for the release of a button.  The elements are in the order in which they
were painted, and `hovered` is the hit test. -/
def dispatchMouseUp [DecidableEq T] (hovered : H → Bool) (targets : List (DropTarget H T V L))
    (drag : AnyDrag T V) : Option (Dropping T V L) :=
  (dispatchPhases (DropTarget.onMouseUp hovered) Dropping.propagateEvent
    (targets.filter fun target => !target.dropListeners.isEmpty) ⟨some drag, true, []⟩).map
      fun w => { w with activeDrag := none }

/-! ### What is to be delivered -/

/-- The elements under the mouse, the front-most first. -/
def stackOf (hovered : H → Bool) (targets : List (DropTarget H T V L)) : List (DropTarget H T V L) :=
  (targets.filter fun target => hovered target.hitbox).reverse

namespace DropTarget

def accepts (target : DropTarget H T V L) (drag : AnyDrag T V) : Bool :=
  target.canDropPredicate.elim true fun predicate => predicate drag.value

variable [DecidableEq T]

/-- The listeners of the drag's type. -/
def matching (target : DropTarget H T V L) (drag : AnyDrag T V) : List L :=
  (target.dropListeners.filter fun listener => listener.1 = drag.typeId).map Prod.snd

/-- The drop is for this element, if it is for none in front of it. -/
def takes (target : DropTarget H T V L) (drag : AnyDrag T V) : Bool :=
  !(target.matching drag).isEmpty && target.accepts drag

end DropTarget

section Expected

variable [DecidableEq T]

/-- The calls that a drop is to make. -/
def deliveries (drag : AnyDrag T V) (stack : List (DropTarget H T V L)) : List (L × V) :=
  (stack.find? fun target => target.takes drag).elim [] fun target =>
    (target.matching drag).map fun listener => (listener, drag.value)

/-- The drop panics for nobody, and makes the calls that it is to make. -/
def DropReaches (hovered : H → Bool) (targets : List (DropTarget H T V L)) (drag : AnyDrag T V) : Prop :=
  ∃ w, dispatchMouseUp hovered targets drag = some w ∧ w.dropped = deliveries drag (stackOf hovered targets)

/-! ### What is delivered -/

/-- The front-most element with listeners of the type takes the drag, and panics at the second of
them. -/
def delivered (drag : AnyDrag T V) : List (DropTarget H T V L) → Option (List (L × V))
  | [] => some []
  | target :: behind =>
    match target.matching drag with
    | [] => delivered drag behind
    | [listener] => some (if target.accepts drag then [(listener, drag.value)] else [])
    | _ :: _ :: _ => none

end Expected

namespace DropTarget

variable {hovered : H → Bool} {phase : DispatchPhase} {target : DropTarget H T V L} {drag : AnyDrag T V}
  {w : Dropping T V L}

/-- What is left when the drag has been taken by a listener. -/
def dropTo (target : DropTarget H T V L) (listener : L) (drag : AnyDrag T V) (w : Dropping T V L) : Dropping T V L :=
  if target.accepts drag then ⟨none, false, w.dropped ++ [(listener, drag.value)]⟩ else { w with activeDrag := none }

theorem activeDrag_dropTo (listener : L) : (target.dropTo listener drag w).activeDrag = none := by
  rw [dropTo]
  split <;> rfl

variable [DecidableEq T]

theorem dropOn_of_taken (hw : w.activeDrag = none) {dragStateType : T} (listeners : List (T × L)) :
    target.dropOn dragStateType listeners w =
      if ∃ listener ∈ listeners, listener.1 = dragStateType then none else some w := by
  induction listeners with
  | nil => rfl
  | cons head listeners ih =>
    obtain ⟨dropStateType, listener⟩ := head
    rw [dropOn, hw]
    by_cases htype : dropStateType = dragStateType
    · rw [if_pos htype, if_pos ⟨_, List.mem_cons_self, htype⟩]
    · rw [if_neg htype, ih]
      simp only [List.mem_cons, exists_eq_or_imp, htype, false_or]

theorem dropOn_eq (hw : w.activeDrag = some drag) (listeners : List (T × L)) :
    target.dropOn drag.typeId listeners w =
      match (listeners.filter fun listener => listener.1 = drag.typeId).map Prod.snd with
      | [] => some w
      | [listener] => some (target.dropTo listener drag w)
      | _ :: _ :: _ => none := by
  induction listeners with
  | nil => rfl
  | cons head listeners ih =>
    obtain ⟨dropStateType, listener⟩ := head
    rw [dropOn, hw]
    by_cases htype : dropStateType = drag.typeId
    · have hcons : ((dropStateType, listener) :: listeners).filter (fun listener => listener.1 = drag.typeId) =
          (dropStateType, listener) :: listeners.filter fun listener => listener.1 = drag.typeId :=
        List.filter_cons_of_pos (by simp [htype])
      rw [if_pos htype, hcons, List.map_cons]
      have hstate : (if (target.canDropPredicate.elim true fun predicate => predicate drag.value) = true then
          { w with activeDrag := none, dropped := w.dropped ++ [(listener, drag.value)], propagateEvent := false }
          else { w with activeDrag := none }) = target.dropTo listener drag w := rfl
      dsimp only
      rw [hstate, dropOn_of_taken (activeDrag_dropTo listener)]
      cases hrest : listeners.filter fun listener => listener.1 = drag.typeId with
      | nil =>
        rw [if_neg]
        · rfl
        · rintro ⟨other, hmem, hother⟩
          exact absurd (List.mem_filter.mpr ⟨hmem, decide_eq_true hother⟩) (hrest ▸ List.not_mem_nil)
      | cons other rest =>
        have hother : other ∈ listeners.filter fun listener => listener.1 = drag.typeId := hrest ▸ List.mem_cons_self
        obtain ⟨hmem, hother⟩ := List.mem_filter.mp hother
        rw [if_pos ⟨other, hmem, of_decide_eq_true hother⟩]
        rfl
    · rw [if_neg htype, ih, List.filter_cons_of_neg (by simp [htype])]

theorem onMouseUp_capture : onMouseUp hovered .capture target w = some w := by
  rw [onMouseUp]
  split <;> rfl

theorem onMouseUp_of_taken (hw : w.activeDrag = none) : onMouseUp hovered phase target w = some w := by
  rw [onMouseUp, hw]

theorem onMouseUp_bubble (hw : w.activeDrag = some drag) (hhovered : hovered target.hitbox = true) :
    onMouseUp hovered .bubble target w =
      match target.matching drag with
      | [] => some w
      | [listener] => some (target.dropTo listener drag w)
      | _ :: _ :: _ => none := by
  rw [onMouseUp, hw, matching, ← dropOn_eq hw]
  exact if_pos ⟨rfl, hhovered⟩

theorem onMouseUp_of_not_hovered (hhovered : hovered target.hitbox = false) :
    onMouseUp hovered phase target w = some w := by
  rw [onMouseUp]
  split
  · exact if_neg fun h => Bool.false_ne_true (hhovered.symm.trans h.2)
  · rfl

end DropTarget

variable [DecidableEq T]

variable {drag : AnyDrag T V}

/-- The bubble phase, over the elements front to back. -/
theorem bubble_dropped (hovered : H → Bool) (targets : List (DropTarget H T V L))
    {w : Dropping T V L} (hw : w.activeDrag = some drag) (hprop : w.propagateEvent = true) :
    (untilStopped (DropTarget.onMouseUp hovered .bubble) Dropping.propagateEvent targets w).map Dropping.dropped =
      (delivered drag (targets.filter fun target => hovered target.hitbox)).map fun calls => w.dropped ++ calls := by
  have hself : (some w).map Dropping.dropped = some (w.dropped ++ []) := by rw [List.append_nil]; rfl
  induction targets with
  | nil => exact hself
  | cons target behind ih =>
    cases hhovered : hovered target.hitbox with
    | false =>
      rw [untilStopped, DropTarget.onMouseUp_of_not_hovered hhovered, Option.bind_some, if_pos hprop,
        List.filter_cons_of_neg (by simp [hhovered])]
      exact ih
    | true =>
      have hfilter : (target :: behind).filter (fun target => hovered target.hitbox) =
          target :: behind.filter fun target => hovered target.hitbox := List.filter_cons_of_pos (by simp [hhovered])
      rw [untilStopped, DropTarget.onMouseUp_bubble hw hhovered, hfilter, delivered]
      cases hmatching : target.matching drag with
      | nil =>
        rw [Option.bind_some, if_pos hprop]
        exact ih
      | cons listener others =>
        cases others with
        | cons _ _ => rfl
        | nil =>
          have hidle : ∀ other ∈ behind, DropTarget.onMouseUp hovered .bubble other (target.dropTo listener drag w) =
              some (target.dropTo listener drag w) :=
            fun other _ => DropTarget.onMouseUp_of_taken (DropTarget.activeDrag_dropTo listener)
          dsimp only
          rw [Option.bind_some]
          cases haccepts : target.accepts drag with
          | true =>
            rw [DropTarget.dropTo, haccepts]
            rfl
          | false =>
            have hdropTo : target.dropTo listener drag w = { w with activeDrag := none } := by
              rw [DropTarget.dropTo, haccepts]
              rfl
            have hgoes : ({ w with activeDrag := none } : Dropping T V L).propagateEvent = true := hprop
            rw [hdropTo] at hidle ⊢
            rw [if_pos hgoes, untilStopped_of_idle hgoes hidle]
            exact hself

/-- Elements without a listener of the type are passed by. -/
theorem delivered_filter {p : DropTarget H T V L → Bool}
    (hp : ∀ target, p target = false → target.matching drag = []) (targets : List (DropTarget H T V L)) :
    delivered drag (targets.filter p) = delivered drag targets := by
  induction targets with
  | nil => rfl
  | cons target targets ih =>
    cases htarget : p target with
    | true =>
      rw [List.filter_cons_of_pos htarget, delivered, delivered, ih]
    | false =>
      rw [List.filter_cons_of_neg (by simp [htarget]), delivered, hp target htarget]
      exact ih

/-- **The calls of a drop.** -/
theorem dispatchMouseUp_eq (hovered : H → Bool) (targets : List (DropTarget H T V L)) (drag : AnyDrag T V) :
    (dispatchMouseUp hovered targets drag).map Dropping.dropped = delivered drag (stackOf hovered targets) := by
  have hnone : ∀ target : DropTarget H T V L, (!target.dropListeners.isEmpty) = false → target.matching drag = [] := by
    intro target hempty
    have hlisteners : target.dropListeners = [] := by simpa using hempty
    rw [DropTarget.matching, hlisteners]
    rfl
  have hcapture : untilStopped (DropTarget.onMouseUp hovered .capture) Dropping.propagateEvent
      (targets.filter fun target => !target.dropListeners.isEmpty) ⟨some drag, true, []⟩ = some ⟨some drag, true, []⟩ :=
    untilStopped_of_idle rfl fun target _ => DropTarget.onMouseUp_capture
  have hbubble := bubble_dropped hovered (targets.filter fun target => !target.dropListeners.isEmpty).reverse
    (rfl : (⟨some drag, true, []⟩ : Dropping T V L).activeDrag = some drag) rfl
  have hstack : (targets.filter fun target => !target.dropListeners.isEmpty).reverse.filter
      (fun target => hovered target.hitbox) =
      (stackOf hovered targets).filter fun target => !target.dropListeners.isEmpty := by
    rw [stackOf, List.filter_reverse, List.filter_reverse, List.filter_comm]
  rw [dispatchMouseUp, dispatchPhases, hcapture, Option.bind_some, Option.map_map]
  refine hbubble.trans ?_
  rw [hstack, delivered_filter hnone]
  exact Option.map_id'

/-! ### When the two agree -/

/-- The front-most element with listeners of the drag's type has one of them, and accepts the drag, or
there is no element behind that would take it. -/
def OneTakes (drag : AnyDrag T V) : List (DropTarget H T V L) → Prop
  | [] => True
  | target :: behind =>
    match target.matching drag with
    | [] => OneTakes drag behind
    | [_] => target.accepts drag = true ∨ ∀ other ∈ behind, other.takes drag = false
    | _ :: _ :: _ => False

theorem deliveries_eq_nil_iff {stack : List (DropTarget H T V L)} :
    deliveries drag stack = [] ↔ ∀ target ∈ stack, target.takes drag = false := by
  rw [deliveries]
  cases hfind : stack.find? fun target => target.takes drag with
  | none =>
    have hnone := List.find?_eq_none.mp hfind
    exact iff_of_true rfl fun target hmem => Bool.eq_false_iff.mpr (hnone target hmem)
  | some target =>
    have htakes : target.takes drag = true := List.find?_some (p := fun target : DropTarget H T V L => target.takes drag) hfind
    refine iff_of_false ?_ fun hall => ?_
    · intro hnil
      have hmatching : target.matching drag = [] := List.map_eq_nil_iff.mp hnil
      rw [DropTarget.takes, hmatching] at htakes
      cases htakes
    · exact Bool.false_ne_true ((hall target (List.mem_of_find?_eq_some hfind)).symm.trans htakes)

theorem deliveries_of_takes {target : DropTarget H T V L} {behind : List (DropTarget H T V L)}
    (h : target.takes drag = true) :
    deliveries drag (target :: behind) = (target.matching drag).map fun listener => (listener, drag.value) := by
  rw [deliveries, List.find?_cons_of_pos (by exact h)]
  rfl

theorem deliveries_of_not_takes {target : DropTarget H T V L}
    {behind : List (DropTarget H T V L)} (h : target.takes drag = false) :
    deliveries drag (target :: behind) = deliveries drag behind := by
  rw [deliveries, List.find?_cons_of_neg (by simp [h])]
  rfl

theorem delivered_iff (stack : List (DropTarget H T V L)) :
    delivered drag stack = some (deliveries drag stack) ↔ OneTakes drag stack := by
  induction stack with
  | nil => exact iff_of_true rfl trivial
  | cons target behind ih =>
    rw [delivered, OneTakes]
    cases hmatching : target.matching drag with
    | nil =>
      have htakes : target.takes drag = false := by
        rw [DropTarget.takes, hmatching]
        rfl
      rw [deliveries_of_not_takes htakes]
      exact ih
    | cons listener others =>
      cases others with
      | cons _ _ => exact iff_of_false (fun h => Option.some_ne_none _ h.symm) id
      | nil =>
        have htakes : target.takes drag = target.accepts drag := by
          rw [DropTarget.takes, hmatching]
          rfl
        cases haccepts : target.accepts drag with
        | true =>
          rw [deliveries_of_takes (htakes.trans haccepts), hmatching]
          exact iff_of_true rfl (Or.inl rfl)
        | false =>
          rw [deliveries_of_not_takes (htakes.trans haccepts)]
          constructor
          · intro h
            exact Or.inr (deliveries_eq_nil_iff.mp (Option.some.inj h).symm)
          · intro h
            rw [deliveries_eq_nil_iff.mpr (h.resolve_left Bool.false_ne_true)]
            rfl

/-- **A drop reaches its listeners** if and only if one listener of the front-most element that has any takes it,
or nobody would. -/
theorem dropReaches_iff (hovered : H → Bool) (targets : List (DropTarget H T V L)) (drag : AnyDrag T V) :
    DropReaches hovered targets drag ↔ OneTakes drag (stackOf hovered targets) := by
  rw [← delivered_iff, ← dispatchMouseUp_eq, Option.map_eq_some_iff]
  rfl

/-- Two listeners for one type. -/
theorem not_dropReaches : ¬ DropReaches (fun _ => true)
    [(⟨0, [(0, "copy"), (0, "move")], none⟩ : DropTarget Nat Nat Unit String)] ⟨0, ()⟩ := by
  rintro ⟨w, hdispatch, -⟩
  cases hdispatch

/-- A refusal in front of an element that would accept. -/
example : ¬ DropReaches (fun _ => true) [(⟨0, [(0, "list")], none⟩ : DropTarget Nat Nat Unit String),
    ⟨1, [(0, "row")], some fun _ => false⟩] ⟨0, ()⟩ := by
  rintro ⟨w, hdispatch, hdropped⟩
  cases hdispatch
  exact absurd hdropped (by decide)

end FcGpui.Mouse
