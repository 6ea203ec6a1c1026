import FcGpui.Window.Draw

/-!
# Growing frames

While a frame is built its vectors only grow at the end (`Grows`), so what was
appended between two readings of an index is still there when the frame is
finished: `Grows.selectsPrepaint` and `Grows.selectsPaint` for the range itself,
`SelectsPrepaint.mono` and `SelectsPaint.mono` for what comes after.

The rendered frame keeps its shape while ranges are copied from it (`SameShape`):
slots are emptied, but no vector gets longer or shorter.  So a range that selects
something when the draw begins can be copied at any time
(`reusePrepaint_of_selects`, `reusePaint_of_selects`).
-/

namespace FcGpui

section Growth

variable {E K : Type}

/-- The range selects `c` in the frame, within the bounds of every vector. -/
structure SelectsPrepaint (f : Frame E K) (range : IndexRange PrepaintStateIndex)
    (c : PrepaintSlice E) : Prop where
  hitboxes : slice f.hitboxes range.start.hitboxesIndex range.stop.hitboxesIndex = some c.hitboxes
  tooltipRequests : slice f.tooltipRequests range.start.tooltipsIndex range.stop.tooltipsIndex
    = some c.tooltipRequests
  deferredDraws : slice (f.deferredDraws.map DeferredDraw.place) range.start.deferredDrawsIndex
    range.stop.deferredDrawsIndex = some c.deferredDraws
  dispatchTree : slice f.dispatchTree range.start.dispatchTreeIndex range.stop.dispatchTreeIndex
    = some c.dispatchTree
  accessedElementStates : slice f.accessedElementStates range.start.accessedElementStatesIndex
    range.stop.accessedElementStatesIndex = some c.accessedElementStates
  lineLayouts : slice f.lineLayouts range.start.lineLayoutIndex range.stop.lineLayoutIndex
    = some c.lineLayouts

structure SelectsPaint (f : Frame E K) (range : IndexRange PaintIndex) (c : PaintSlice E) :
    Prop where
  scene : slice f.scene range.start.sceneIndex range.stop.sceneIndex = some c.scene
  mouseListeners : slice f.mouseListeners range.start.mouseListenersIndex
    range.stop.mouseListenersIndex = some c.mouseListeners
  inputHandlers : slice (f.inputHandlers.map fun _ => ()) range.start.inputHandlersIndex
    range.stop.inputHandlersIndex = some c.inputHandlers
  cursorStyles : slice f.cursorStyles range.start.cursorStylesIndex range.stop.cursorStylesIndex
    = some c.cursorStyles
  accessedElementStates : slice f.accessedElementStates range.start.accessedElementStatesIndex
    range.stop.accessedElementStatesIndex = some c.accessedElementStates
  tabStops : slice f.tabStops range.start.tabHandleIndex range.stop.tabHandleIndex = some c.tabStops
  lineLayouts : slice f.lineLayouts range.start.lineLayoutIndex range.stop.lineLayoutIndex
    = some c.lineLayouts

namespace Frame

/-- Every vector of `f` is the beginning of that of `g`. -/
structure Grows (f g : Frame E K) : Prop where
  accessedElementStates : f.accessedElementStates <+: g.accessedElementStates
  mouseListeners : f.mouseListeners <+: g.mouseListeners
  dispatchTree : f.dispatchTree <+: g.dispatchTree
  scene : f.scene <+: g.scene
  hitboxes : f.hitboxes <+: g.hitboxes
  deferredDraws : f.deferredDraws.map DeferredDraw.place <+: g.deferredDraws.map DeferredDraw.place
  inputHandlers : (f.inputHandlers.map fun _ => ()) <+: g.inputHandlers.map fun _ => ()
  tooltipRequests : f.tooltipRequests <+: g.tooltipRequests
  cursorStyles : f.cursorStyles <+: g.cursorStyles
  tabStops : f.tabStops <+: g.tabStops
  lineLayouts : f.lineLayouts <+: g.lineLayouts

theorem Grows.refl (f : Frame E K) : f.Grows f where
  accessedElementStates := List.prefix_rfl
  mouseListeners := List.prefix_rfl
  dispatchTree := List.prefix_rfl
  scene := List.prefix_rfl
  hitboxes := List.prefix_rfl
  deferredDraws := List.prefix_rfl
  inputHandlers := List.prefix_rfl
  tooltipRequests := List.prefix_rfl
  cursorStyles := List.prefix_rfl
  tabStops := List.prefix_rfl
  lineLayouts := List.prefix_rfl

theorem Grows.trans {f g h : Frame E K} (hf : f.Grows g) (hg : g.Grows h) : f.Grows h where
  accessedElementStates := hf.accessedElementStates.trans hg.accessedElementStates
  mouseListeners := hf.mouseListeners.trans hg.mouseListeners
  dispatchTree := hf.dispatchTree.trans hg.dispatchTree
  scene := hf.scene.trans hg.scene
  hitboxes := hf.hitboxes.trans hg.hitboxes
  deferredDraws := hf.deferredDraws.trans hg.deferredDraws
  inputHandlers := hf.inputHandlers.trans hg.inputHandlers
  tooltipRequests := hf.tooltipRequests.trans hg.tooltipRequests
  cursorStyles := hf.cursorStyles.trans hg.cursorStyles
  tabStops := hf.tabStops.trans hg.tabStops
  lineLayouts := hf.lineLayouts.trans hg.lineLayouts

theorem Grows.selectsPrepaint {f g : Frame E K} (h : f.Grows g) :
    SelectsPrepaint g ⟨f.prepaintIndex, g.prepaintIndex⟩ (g.prepaintSince f.prepaintIndex) where
  hitboxes := slice_to_end h.hitboxes
  tooltipRequests := slice_to_end h.tooltipRequests
  deferredDraws := by
    have hd := slice_to_end h.deferredDraws
    rw [List.length_map, List.length_map] at hd
    exact hd
  dispatchTree := slice_to_end h.dispatchTree
  accessedElementStates := slice_to_end h.accessedElementStates
  lineLayouts := slice_to_end h.lineLayouts

theorem Grows.selectsPaint {f g : Frame E K} (h : f.Grows g) :
    SelectsPaint g ⟨f.paintIndex, g.paintIndex⟩ (g.paintSince f.paintIndex) where
  scene := slice_to_end h.scene
  mouseListeners := slice_to_end h.mouseListeners
  inputHandlers := by
    have hi := slice_to_end h.inputHandlers
    rw [List.length_map, List.length_map] at hi
    exact hi
  cursorStyles := slice_to_end h.cursorStyles
  accessedElementStates := slice_to_end h.accessedElementStates
  tabStops := slice_to_end h.tabStops
  lineLayouts := slice_to_end h.lineLayouts

end Frame

theorem SelectsPrepaint.mono {f g : Frame E K} {range : IndexRange PrepaintStateIndex}
    {c : PrepaintSlice E} (h : SelectsPrepaint f range c) (hg : f.Grows g) :
    SelectsPrepaint g range c where
  hitboxes := slice_of_extends hg.hitboxes h.hitboxes
  tooltipRequests := slice_of_extends hg.tooltipRequests h.tooltipRequests
  deferredDraws := slice_of_extends hg.deferredDraws h.deferredDraws
  dispatchTree := slice_of_extends hg.dispatchTree h.dispatchTree
  accessedElementStates := slice_of_extends hg.accessedElementStates h.accessedElementStates
  lineLayouts := slice_of_extends hg.lineLayouts h.lineLayouts

theorem SelectsPaint.mono {f g : Frame E K} {range : IndexRange PaintIndex} {c : PaintSlice E}
    (h : SelectsPaint f range c) (hg : f.Grows g) : SelectsPaint g range c where
  scene := slice_of_extends hg.scene h.scene
  mouseListeners := slice_of_extends hg.mouseListeners h.mouseListeners
  inputHandlers := slice_of_extends hg.inputHandlers h.inputHandlers
  cursorStyles := slice_of_extends hg.cursorStyles h.cursorStyles
  accessedElementStates := slice_of_extends hg.accessedElementStates h.accessedElementStates
  tabStops := slice_of_extends hg.tabStops h.tabStops
  lineLayouts := slice_of_extends hg.lineLayouts h.lineLayouts

/-! ### What grows a frame -/

namespace Frame

/-- One vector is longer at its end and the others are as before. -/
theorem grows_pushNode (f : Frame E K) (nodes : List DispatchNode) :
    f.Grows { f with dispatchTree := f.dispatchTree ++ nodes } :=
  { Grows.refl f with dispatchTree := List.prefix_append _ _ }

theorem grows_access (f : Frame E K) (id : GlobalElementId) (type : StateType) :
    f.Grows (f.accessElementState id type) :=
  { Grows.refl f with accessedElementStates := List.prefix_append _ _ }

theorem grows_prepaintOp (f : Frame E K) (id : GlobalElementId) (op : PrepaintOp E) :
    f.Grows (f.prepaintOp id op) := by
  cases op with
  | insertHitbox _ => exact { Grows.refl f with hitboxes := List.prefix_append _ _ }
  | setTooltip _ => exact { Grows.refl f with tooltipRequests := List.prefix_append _ _ }
  | withElementState _ => exact f.grows_access id _
  | layoutLine _ => exact { Grows.refl f with lineLayouts := List.prefix_append _ _ }

theorem grows_paintOp (f : Frame E K) (id : GlobalElementId) (op : PaintOp E) :
    f.Grows (f.paintOp id op) := by
  cases op with
  | insertPrimitive _ => exact { Grows.refl f with scene := List.prefix_append _ _ }
  | setCursorStyle _ => exact { Grows.refl f with cursorStyles := List.prefix_append _ _ }
  | handleInput focused handler => cases focused with
    | false => exact Grows.refl f
    | true =>
      refine { Grows.refl f with inputHandlers := ?_ }
      show _ <+: (f.inputHandlers ++ [some handler]).map fun _ => ()
      rw [List.map_append]
      exact List.prefix_append _ _
  | onMouseEvent _ => exact { Grows.refl f with mouseListeners := List.prefix_append _ _ }
  | insertWindowControlHitbox _ => exact { Grows.refl f with }
  | tabStop _ => exact { Grows.refl f with tabStops := List.prefix_append _ _ }
  | withElementState _ => exact f.grows_access id _
  | layoutLine _ => exact { Grows.refl f with lineLayouts := List.prefix_append _ _ }

theorem grows_prepaintOps (id : GlobalElementId) (ops : List (PrepaintOp E)) (f : Frame E K) :
    f.Grows (ops.foldl (prepaintOp id) f) := by
  induction ops generalizing f with
  | nil => exact Grows.refl f
  | cons op ops ih => exact (f.grows_prepaintOp id op).trans (ih _)

theorem grows_paintOps (id : GlobalElementId) (ops : List (PaintOp E)) (f : Frame E K) :
    f.Grows (ops.foldl (paintOp id) f) := by
  induction ops generalizing f with
  | nil => exact Grows.refl f
  | cons op ops ih => exact (f.grows_paintOp id op).trans (ih _)

theorem grows_setDeferred {f : Frame E K} {ix : Nat} {d d' : DeferredDraw E K}
    (hd : f.deferredDraws[ix]? = some d) (hplace : d'.place = d.place) :
    f.Grows { f with deferredDraws := f.deferredDraws.set ix d' } := by
  refine { Grows.refl f with deferredDraws := ?_ }
  have hsame : (f.deferredDraws.set ix d').map DeferredDraw.place
      = f.deferredDraws.map DeferredDraw.place := by
    have hget : (f.deferredDraws.map DeferredDraw.place)[ix]? = some d.place := by
      rw [List.getElem?_map, hd]
      rfl
    obtain ⟨hlt, hget⟩ := List.getElem?_eq_some_iff.mp hget
    rw [List.map_set, hplace, ← hget, List.set_getElem_self]
  rw [hsame]

end Frame

/-! ### The rendered frame -/

/-- The frame as it was when the draw began, with some slots emptied and some states
taken. -/
structure SameShape (f₀ f : Frame E K) : Prop where
  accessedElementStates : f.accessedElementStates = f₀.accessedElementStates
  mouseListeners : f.mouseListeners.length = f₀.mouseListeners.length
  dispatchTree : f.dispatchTree = f₀.dispatchTree
  scene : f.scene = f₀.scene
  hitboxes : f.hitboxes = f₀.hitboxes
  deferredDraws : f.deferredDraws = f₀.deferredDraws
  inputHandlers : f.inputHandlers.length = f₀.inputHandlers.length
  tooltipRequests : f.tooltipRequests.length = f₀.tooltipRequests.length
  cursorStyles : f.cursorStyles = f₀.cursorStyles
  tabStops : f.tabStops = f₀.tabStops
  lineLayouts : f.lineLayouts = f₀.lineLayouts

theorem SameShape.refl (f : Frame E K) : SameShape f f := ⟨rfl, rfl, rfl, rfl, rfl, rfl, rfl, rfl,
  rfl, rfl, rfl⟩

theorem length_takeSlots {α : Type} {l : List (Option α)} {a b : Nat} (hab : a ≤ b)
    (hb : b ≤ l.length) : (takeSlots l a b).length = l.length := by
  rw [takeSlots, List.length_append, List.length_append, List.length_take, List.length_replicate,
    List.length_drop]
  omega

theorem sliceOrPanic_ok {α : Type} {l m : List α} {a b : Nat} (h : slice l a b = some m) :
    sliceOrPanic l a b = .ok m := by
  rw [sliceOrPanic, h]

/-- Copying a range that was in bounds when the draw began. -/
theorem reusePrepaint_of_selects {f₀ f : Frame E K} (next : Frame E K)
    {range : IndexRange PrepaintStateIndex} {c : PrepaintSlice E} (hf : SameShape f₀ f) (hc : SelectsPrepaint f₀ range c) :
    ∃ f' next' draws, reusePrepaint range f next = .ok (f', next') ∧ SameShape f₀ f' ∧
      f'.elementStates = f.elementStates ∧ next.Grows next' ∧
      next'.elementStates = next.elementStates ∧
      slice f₀.deferredDraws range.start.deferredDrawsIndex range.stop.deferredDrawsIndex
        = some draws ∧
      next'.deferredDraws = next.deferredDraws ++ draws.map DeferredDraw.replay ∧
      next'.dispatchTree = next.dispatchTree ++ c.dispatchTree := by
  obtain ⟨tooltips, htooltips⟩ := slice_of_length hf.tooltipRequests.symm hc.tooltipRequests
  obtain ⟨draws, hdraws, -⟩ := Option.map_eq_some_iff.mp
    ((slice_map DeferredDraw.place f₀.deferredDraws _ _).symm.trans hc.deferredDraws)
  obtain ⟨-, -, hnodes⟩ := bounds_of_slice hc.dispatchTree
  obtain ⟨hab, hb, -⟩ := bounds_of_slice htooltips
  have hhitboxes := sliceOrPanic_ok (hf.hitboxes ▸ hc.hitboxes)
  have haccessed := sliceOrPanic_ok (hf.accessedElementStates ▸ hc.accessedElementStates)
  have hlines := sliceOrPanic_ok (hf.lineLayouts ▸ hc.lineLayouts)
  have hdraws' := sliceOrPanic_ok (hf.deferredDraws ▸ hdraws)
  refine ⟨{ f with
      tooltipRequests := takeSlots f.tooltipRequests range.start.tooltipsIndex
        range.stop.tooltipsIndex }, { next with
      hitboxes := next.hitboxes ++ c.hitboxes
      tooltipRequests := next.tooltipRequests ++ tooltips
      accessedElementStates := next.accessedElementStates ++ c.accessedElementStates
      lineLayouts := next.lineLayouts ++ c.lineLayouts
      dispatchTree := next.dispatchTree ++ c.dispatchTree
      deferredDraws := next.deferredDraws ++ draws.map DeferredDraw.replay }, draws, ?_, ?_, rfl, ?_,
    rfl, hdraws, rfl, rfl⟩
  · rw [hnodes, ← hf.dispatchTree]
    simp only [reusePrepaint, hhitboxes, sliceOrPanic_ok htooltips, haccessed, hlines, hdraws', bind,
      Except.bind, pure, Except.pure]
  · exact { hf with tooltipRequests := (length_takeSlots hab hb).trans hf.tooltipRequests }
  · refine { Frame.Grows.refl next with
      hitboxes := List.prefix_append _ _
      tooltipRequests := List.prefix_append _ _
      accessedElementStates := List.prefix_append _ _
      lineLayouts := List.prefix_append _ _
      dispatchTree := List.prefix_append _ _
      deferredDraws := ?_ }
    show _ <+: (next.deferredDraws ++ _).map DeferredDraw.place
    rw [List.map_append]
    exact List.prefix_append _ _

theorem reusePaint_of_selects {f₀ f : Frame E K} (next : Frame E K)
    {range : IndexRange PaintIndex} {c : PaintSlice E} (hf : SameShape f₀ f) (hc : SelectsPaint f₀ range c) :
    ∃ f' next', reusePaint range f next = .ok (f', next') ∧ SameShape f₀ f' ∧
      f'.elementStates = f.elementStates ∧ next.Grows next' ∧
      next'.elementStates = next.elementStates ∧ next'.deferredDraws = next.deferredDraws ∧
      next'.dispatchTree = next.dispatchTree := by
  have hinput : f₀.inputHandlers.length = f.inputHandlers.length := hf.inputHandlers.symm
  obtain ⟨listeners, hlisteners⟩ := slice_of_length hf.mouseListeners.symm hc.mouseListeners
  obtain ⟨slots, hslots, -⟩ := Option.map_eq_some_iff.mp
    ((slice_map (fun _ => ()) f₀.inputHandlers _ _).symm.trans hc.inputHandlers)
  obtain ⟨handlers, hhandlers⟩ := slice_of_length hinput hslots
  obtain ⟨hab, hb, -⟩ := bounds_of_slice hlisteners
  obtain ⟨hab', hb', -⟩ := bounds_of_slice hhandlers
  have hscene := sliceOrPanic_ok (hf.scene ▸ hc.scene)
  have hcursor := sliceOrPanic_ok (hf.cursorStyles ▸ hc.cursorStyles)
  have haccessed := sliceOrPanic_ok (hf.accessedElementStates ▸ hc.accessedElementStates)
  have htabs := sliceOrPanic_ok (hf.tabStops ▸ hc.tabStops)
  have hlines := sliceOrPanic_ok (hf.lineLayouts ▸ hc.lineLayouts)
  refine ⟨{ f with
      inputHandlers := takeSlots f.inputHandlers range.start.inputHandlersIndex
        range.stop.inputHandlersIndex
      mouseListeners := takeSlots f.mouseListeners range.start.mouseListenersIndex
        range.stop.mouseListenersIndex }, { next with
      cursorStyles := next.cursorStyles ++ c.cursorStyles
      inputHandlers := next.inputHandlers ++ handlers
      mouseListeners := next.mouseListeners ++ listeners
      accessedElementStates := next.accessedElementStates ++ c.accessedElementStates
      tabStops := next.tabStops ++ c.tabStops
      lineLayouts := next.lineLayouts ++ c.lineLayouts
      scene := next.scene ++ c.scene }, ?_, ?_, rfl, ?_, rfl, rfl, rfl⟩
  · simp only [reusePaint, hscene, hcursor, haccessed, htabs, hlines, sliceOrPanic_ok hlisteners,
      sliceOrPanic_ok hhandlers, bind, Except.bind, pure, Except.pure]
  · exact { hf with
      mouseListeners := (length_takeSlots hab hb).trans hf.mouseListeners
      inputHandlers := (length_takeSlots hab' hb').trans hf.inputHandlers }
  · refine { Frame.Grows.refl next with
      cursorStyles := List.prefix_append _ _
      mouseListeners := List.prefix_append _ _
      accessedElementStates := List.prefix_append _ _
      tabStops := List.prefix_append _ _
      lineLayouts := List.prefix_append _ _
      scene := List.prefix_append _ _
      inputHandlers := ?_ }
    show _ <+: (next.inputHandlers ++ handlers).map fun _ => ()
    rw [List.map_append]
    exact List.prefix_append _ _

end Growth

end FcGpui
