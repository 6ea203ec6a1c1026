import FcGpui.Window.Growth

/-!
# What a draw comes by

`Element.visits` lists the cached views that a draw will come by, from what is
known when it begins: the stored states, the dirty views and whether all is drawn
anew.  A view that is reused hides what is below it; below one that is rendered
nothing is reused, except in what is deferred, which is drawn after the flag that
says so was put back.

`Ready` is what holds between two draws of what the last one logged.  `Drawing`
is what holds while a draw is under way: the rendered frame keeps its shape and the
states that were not asked for, every range recorded so far selects what was
appended in it, and every range copied so far is one that the last draw recorded
(`FreshPrepaint`, `FreshPaint`).  The lemmas of the last section say that each
operation of a draw keeps it.
-/

namespace FcGpui

section Visits

variable {E K : Type}

/-- A cached view that a draw comes by: whether it is reused, and whether it is also
painted. -/
structure Visit where
  id : GlobalElementId
  reused : Bool
  shown : Bool
deriving DecidableEq

/-- The visits of a draw that began with `b`, to an element below the ids `id`. -/
def Element.visits [DecidableEq K] (b : Window E K) :
    Element E K → GlobalElementId → Bool → Bool → List Visit
  | .empty, _, _, _ => []
  | .append first rest, id, refreshing, shown =>
    first.visits b id refreshing shown ++ rest.visits b id refreshing shown
  | .leaf _ _, _, _, _ => []
  | .withId name child, id, refreshing, shown => child.visits b (id ++ [name]) refreshing shown
  | .hidden child, id, refreshing, _ => child.visits b id refreshing false
  | .view entity _ child, id, refreshing, shown =>
    child.visits b (id ++ [.view entity]) refreshing shown
  | .cached entity cacheKey _ child, id, refreshing, shown =>
    if ((b.rendered.elementStates.lookup (id ++ [.view entity])).filter
        (Window.reusable b.dirtyViews refreshing entity cacheKey)).isSome then
      [⟨id ++ [.view entity], true, shown⟩]
    else ⟨id ++ [.view entity], false, shown⟩ :: child.visits b (id ++ [.view entity]) true shown
  | .deferred _ child, id, _, _ => child.visits b id b.refreshing true

/-- The cached views of an element that was prepainted. -/
def Prepainted.visits : Prepainted E → GlobalElementId → Bool → List Visit
  | .empty, _, _ => []
  | .append first rest, id, shown => first.visits id shown ++ rest.visits id shown
  | .leaf _, _, _ => []
  | .withId name child, id, shown => child.visits (id ++ [name]) shown
  | .hidden child, id, _ => child.visits id false
  | .view entity child, id, shown => child.visits (id ++ [.view entity]) shown
  | .rendered entity child, id, shown =>
    ⟨id ++ [.view entity], false, shown⟩ :: child.visits (id ++ [.view entity]) shown
  | .reused entity, id, shown => [⟨id ++ [.view entity], true, shown⟩]
  | .deferred, _, _ => []

def DeferredDraw.visits [DecidableEq K] (b : Window E K) (d : DeferredDraw E K) : List Visit :=
  match d.element with
  | .laidOut element => element.visits b d.elementIdStack b.refreshing true
  | .prepainted element => element.visits d.elementIdStack true
  | .none => []

/-- The same view, or deferred draws of one place. -/
def Drawer.Same : Drawer → Drawer → Prop
  | .view id, .view id' => id = id'
  | .deferred _ priority stack, .deferred _ priority' stack' => priority = priority' ∧ stack = stack'
  | _, _ => False

namespace Window

/-- The view was prepainted in the last draw. -/
def PrepaintedLast (s : Window E K) (id : GlobalElementId) : Prop :=
  ∃ r ∈ s.log.prepaintRecords, r.drawer = .view id

def PaintedLast (s : Window E K) (id : GlobalElementId) : Prop :=
  ∃ r ∈ s.log.paintRecords, r.drawer = .view id

/-- The range that is copied was recorded by the same drawer in the last draw, and it
selects what that drawer contributed to the frame that is now rendered. -/
def FreshPrepaint (s : Window E K) (e : Replay PrepaintStateIndex) : Prop :=
  ∃ r ∈ s.log.prepaintRecords, r.range = e.range ∧ r.drawer.Same e.drawer ∧
    SelectsPrepaint s.rendered r.range r.contribution

def FreshPaint (s : Window E K) (e : Replay PaintIndex) : Prop :=
  ∃ r ∈ s.log.paintRecords, r.range = e.range ∧ r.drawer.Same e.drawer ∧
    SelectsPaint s.rendered r.range r.contribution

/-- What holds between two draws. -/
structure Ready (s : Window E K) : Prop where
  next : s.next = .empty
  prepaintState : ∀ id, s.PrepaintedLast id → ∃ st, s.rendered.elementStates.lookup id = some st ∧
    ∃ r ∈ s.log.prepaintRecords, r.drawer = .view id ∧ r.range = st.prepaintRange
  paintState : ∀ id, s.PaintedLast id → ∃ st, s.rendered.elementStates.lookup id = some st ∧
    ∃ r ∈ s.log.paintRecords, r.drawer = .view id ∧ r.range = st.paintRange
  prepaintDeferred : ∀ ix d, s.rendered.deferredDraws[ix]? = some d →
    ∃ r ∈ s.log.prepaintRecords, r.drawer = .deferred ix d.priority d.elementIdStack ∧
      r.range = d.prepaintRange
  paintDeferred : ∀ ix d, s.rendered.deferredDraws[ix]? = some d →
    ∃ r ∈ s.log.paintRecords, r.drawer = .deferred ix d.priority d.elementIdStack ∧
      r.range = d.paintRange
  prepaintSelects : ∀ r ∈ s.log.prepaintRecords, SelectsPrepaint s.rendered r.range r.contribution
  paintSelects : ∀ r ∈ s.log.paintRecords, SelectsPaint s.rendered r.range r.contribution

theorem ready_new : (new : Window E K).Ready where
  next := rfl
  prepaintState _ h := absurd h fun ⟨_, hr, _⟩ => List.not_mem_nil hr
  paintState _ h := absurd h fun ⟨_, hr, _⟩ => List.not_mem_nil hr
  prepaintDeferred _ _ h := absurd h (by simp [new, Frame.empty])
  paintDeferred _ _ h := absurd h (by simp [new, Frame.empty])
  prepaintSelects _ h := absurd h List.not_mem_nil
  paintSelects _ h := absurd h List.not_mem_nil

/-- What holds while a draw is under way that began with `b` after `s`, and that has
come by the views `touched`. -/
structure Drawing (s b : Window E K) (touched : List GlobalElementId) (w : Window E K) : Prop where
  shape : SameShape b.rendered w.rendered
  dirtyViews : w.dirtyViews = b.dirtyViews
  kept : ∀ id, id ∉ touched →
    w.rendered.elementStates.lookup id = b.rendered.elementStates.lookup id
  taken : ∀ id, id ∈ touched → w.rendered.elementStates.lookup id = none
  stored : ∀ id st, w.next.elementStates.lookup id = some st → id ∈ touched
  recorded : ∀ r ∈ w.log.prepaintRecords, ∀ id, r.drawer = .view id → id ∈ touched
  prepaintRecords : ∀ r ∈ w.log.prepaintRecords, SelectsPrepaint w.next r.range r.contribution
  paintRecords : ∀ r ∈ w.log.paintRecords, SelectsPaint w.next r.range r.contribution
  prepaintReplays : ∀ e ∈ w.log.prepaintReplays, s.FreshPrepaint e
  paintReplays : ∀ e ∈ w.log.paintReplays, s.FreshPaint e

namespace Drawing

variable {s b w : Window E K} {touched : List GlobalElementId}

/-- A view that was not come by yet finds what was stored when the draw began. -/
theorem stateOf (h : Drawing s b touched w) {id : GlobalElementId} (hid : id ∉ touched) :
    w.stateOf id = b.rendered.elementStates.lookup id := by
  have hnext : w.next.elementStates.lookup id = none := by
    cases hl : w.next.elementStates.lookup id with
    | none => rfl
    | some st => exact absurd (h.stored id st hl) hid
  rw [Window.stateOf, hnext, Option.none_or, h.kept id hid]

/-- It does not matter how often and in which order the views were come by. -/
theorem congr (h : Drawing s b touched w) {touched' : List GlobalElementId}
    (hsame : ∀ id, id ∈ touched' ↔ id ∈ touched) : Drawing s b touched' w :=
  { h with
    kept := fun id hid => h.kept id fun hmem => hid ((hsame id).mpr hmem)
    taken := fun id hid => h.taken id ((hsame id).mp hid)
    stored := fun id st hst => (hsame id).mpr (h.stored id st hst)
    recorded := fun r hr id hd => (hsame id).mpr (h.recorded r hr id hd) }

/-! ### The operations of a draw -/

variable {f : Frame E K} {drawer : Drawer}

section UnderWay

variable (h : Drawing s b touched w)
include h

theorem grow (hg : w.next.Grows f)
    (hstates : f.elementStates = w.next.elementStates) : Drawing s b touched { w with next := f } :=
  { h with
    stored := fun id st hst => h.stored id st (hstates ▸ hst)
    prepaintRecords := fun r hr => (h.prepaintRecords r hr).mono hg
    paintRecords := fun r hr => (h.paintRecords r hr).mono hg }

theorem pushNode (viewId : Option EntityId) (reads : Finset EntityId) :
    Drawing s b touched (w.pushNode viewId reads) :=
  h.grow (w.next.grows_pushNode _) rfl

theorem accessState (id : GlobalElementId) : Drawing s b (touched ++ [id]) (w.accessState id) := by
  have hg : w.next.Grows (w.accessState id).next := { w.next.grows_access id .anyViewState with }
  refine { h with
    kept := fun i hi => ?_
    taken := fun i hi => ?_
    stored := fun i st hst => ?_
    recorded := fun r hr i hd => List.mem_append_left _ (h.recorded r hr i hd)
    shape := { h.shape with }
    prepaintRecords := fun r hr => (h.prepaintRecords r hr).mono hg
    paintRecords := fun r hr => (h.paintRecords r hr).mono hg }
  · rw [List.mem_append, List.mem_singleton, not_or] at hi
    show AList.lookup i (w.rendered.elementStates.erase id) = _
    rw [AList.lookup_erase_ne hi.2, h.kept i hi.1]
  · show AList.lookup i (w.rendered.elementStates.erase id) = none
    by_cases heq : i = id
    · rw [heq, AList.lookup_erase]
    · rw [AList.lookup_erase_ne heq]
      rcases List.mem_append.mp hi with hi | hi
      · exact h.taken i hi
      · exact absurd (List.mem_singleton.mp hi) heq
  · have hst : AList.lookup i (w.next.elementStates.erase id) = some st := hst
    by_cases heq : i = id
    · rw [heq, AList.lookup_erase] at hst
      exact absurd hst (by simp)
    · rw [AList.lookup_erase_ne heq] at hst
      exact List.mem_append_left _ (h.stored i st hst)

theorem insertState {id : GlobalElementId} (hid : id ∈ touched)
    (st : AnyViewState K) : Drawing s b touched (w.insertState id st) := by
  have hg : w.next.Grows (w.insertState id st).next := { Frame.Grows.refl w.next with }
  refine { h with
    stored := fun i st' hst => ?_
    prepaintRecords := fun r hr => (h.prepaintRecords r hr).mono hg
    paintRecords := fun r hr => (h.paintRecords r hr).mono hg }
  have hst : AList.lookup i (w.next.elementStates.insert id st) = some st' := hst
  by_cases heq : i = id
  · rw [heq]
    exact hid
  · rw [AList.lookup_insert_ne heq] at hst
    exact h.stored i st' hst

theorem recordPrepaint
    (hf : f.Grows w.next) (hd : ∀ id, drawer = .view id → id ∈ touched) :
    Drawing s b touched (w.recordPrepaint drawer f.prepaintIndex).2 := by
  refine { h with
    recorded := fun r hr i hi => ?_
    prepaintRecords := fun r hr => ?_ }
  · rcases List.mem_append.mp hr with hr | hr
    · exact h.recorded r hr i hi
    · rw [List.mem_singleton.mp hr] at hi
      exact hd i hi
  · rcases List.mem_append.mp hr with hr | hr
    · exact h.prepaintRecords r hr
    · rw [List.mem_singleton.mp hr]
      exact hf.selectsPrepaint

theorem recordPaint (hf : f.Grows w.next) : Drawing s b touched (w.recordPaint drawer f.paintIndex).2 := by
  refine { h with paintRecords := fun r hr => ?_ }
  rcases List.mem_append.mp hr with hr | hr
  · exact h.paintRecords r hr
  · rw [List.mem_singleton.mp hr]
    exact hf.selectsPaint

theorem reusePrepaint {range : IndexRange PrepaintStateIndex} {c : PrepaintSlice E}
    (hfresh : s.FreshPrepaint ⟨drawer, range⟩) (hc : SelectsPrepaint b.rendered range c) :
    ∃ w' draws, w.reusePrepaint drawer range = .ok w' ∧ Drawing s b touched w' ∧
      w.next.Grows w'.next ∧ w'.next.elementStates = w.next.elementStates ∧
      slice b.rendered.deferredDraws range.start.deferredDrawsIndex range.stop.deferredDrawsIndex
        = some draws ∧
      w'.next.deferredDraws = w.next.deferredDraws ++ draws.map DeferredDraw.replay ∧
      w'.next.dispatchTree = w.next.dispatchTree ++ c.dispatchTree ∧
      w'.accessedEntities = w.accessedEntities ∧ w'.refreshing = w.refreshing ∧
      w'.log.prepaintRecords = w.log.prepaintRecords ∧
      w'.log.paintRecords = w.log.paintRecords := by
  obtain ⟨f, next, draws, hok, hshape, hstates, hg, hnext, hdraws, happend, hnodes⟩ :=
    reusePrepaint_of_selects w.next h.shape hc
  refine ⟨{ w with
      rendered := f
      next := next
      log := { w.log with prepaintReplays := w.log.prepaintReplays ++ [⟨drawer, range⟩] } },
    draws, ?_, ?_, hg, hnext, hdraws, happend, hnodes, rfl, rfl, rfl, rfl⟩
  · simp only [Window.reusePrepaint, hok, bind, Except.bind, pure, Except.pure]
  · refine { (h.grow hg hnext) with
      shape := hshape
      kept := fun i hi => hstates ▸ h.kept i hi
      taken := fun i hi => hstates ▸ h.taken i hi
      prepaintReplays := fun e he => ?_ }
    rcases List.mem_append.mp he with he | he
    · exact h.prepaintReplays e he
    · rw [List.mem_singleton.mp he]
      exact hfresh

theorem reusePaint {range : IndexRange PaintIndex}
    {c : PaintSlice E} (hfresh : s.FreshPaint ⟨drawer, range⟩) (hc : SelectsPaint b.rendered range c) :
    ∃ w', w.reusePaint drawer range = .ok w' ∧ Drawing s b touched w' ∧ w.next.Grows w'.next ∧
      w'.next.elementStates = w.next.elementStates ∧ w'.next.deferredDraws = w.next.deferredDraws ∧
      w'.next.dispatchTree = w.next.dispatchTree ∧ w'.accessedEntities = w.accessedEntities ∧
      w'.log.prepaintRecords = w.log.prepaintRecords ∧
      w'.log.paintRecords = w.log.paintRecords := by
  obtain ⟨f, next, hok, hshape, hstates, hg, hnext, hdraws, hnodes⟩ :=
    reusePaint_of_selects w.next h.shape hc
  refine ⟨{ w with
      rendered := f
      next := next
      log := { w.log with paintReplays := w.log.paintReplays ++ [⟨drawer, range⟩] } },
    ?_, ?_, hg, hnext, hdraws, hnodes, rfl, rfl, rfl⟩
  · simp only [Window.reusePaint, hok, bind, Except.bind, pure, Except.pure]
  · refine { (h.grow hg hnext) with
      shape := hshape
      kept := fun i hi => hstates ▸ h.kept i hi
      taken := fun i hi => hstates ▸ h.taken i hi
      paintReplays := fun e he => ?_ }
    rcases List.mem_append.mp he with he | he
    · exact h.paintReplays e he
    · rw [List.mem_singleton.mp he]
      exact hfresh

end UnderWay

end Drawing

end Window

end Visits

end FcGpui
