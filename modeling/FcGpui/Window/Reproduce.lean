import FcGpui.Window.Frame

/-!
# Reproducing what a view registered

A view that is reused registers nothing itself; its two ranges of the rendered
frame are copied instead.  `Recording` is a frame built from a cleared one, with
what one view does in it set apart, and `Recording.renderedFrame` is that frame at
the next draw, after the platform window gave the input handler back.

The two copies reproduce all that the view registered except the hitboxes of
window controls, which no index counts and no function copies: `reproduces_iff`.

Operations only append, so a frame is a concatenation of what its parts appended
(`prepaintOps_eq`, `paintOps_eq`), and a range is one of these parts.
-/

namespace FcGpui

section Reproduce

variable {E K : Type}

namespace Frame

/-- The vectors of one frame followed by those of another. -/
def concat (f g : Frame E K) : Frame E K where
  elementStates := f.elementStates
  accessedElementStates := f.accessedElementStates ++ g.accessedElementStates
  mouseListeners := f.mouseListeners ++ g.mouseListeners
  dispatchTree := f.dispatchTree ++ g.dispatchTree
  scene := f.scene ++ g.scene
  hitboxes := f.hitboxes ++ g.hitboxes
  windowControlHitboxes := f.windowControlHitboxes ++ g.windowControlHitboxes
  deferredDraws := f.deferredDraws ++ g.deferredDraws
  inputHandlers := f.inputHandlers ++ g.inputHandlers
  tooltipRequests := f.tooltipRequests ++ g.tooltipRequests
  cursorStyles := f.cursorStyles ++ g.cursorStyles
  tabStops := f.tabStops ++ g.tabStops
  lineLayouts := f.lineLayouts ++ g.lineLayouts

theorem concat_empty (f : Frame E K) : f.concat empty = f := by
  simp [concat, empty]

theorem concat_assoc (f g h : Frame E K) : (f.concat g).concat h = f.concat (g.concat h) := by
  simp [concat]

theorem prepaintOp_eq (f : Frame E K) (id : GlobalElementId) (op : PrepaintOp E) :
    f.prepaintOp id op = f.concat (empty.prepaintOp id op) := by
  cases op with
  | insertHitbox hitbox => simp [prepaintOp, concat, empty]
  | setTooltip tooltip => simp [prepaintOp, concat, empty]
  | withElementState typeId => simp [prepaintOp, accessElementState, concat, empty]
  | layoutLine line => simp [prepaintOp, concat, empty]

theorem paintOp_eq (f : Frame E K) (id : GlobalElementId) (op : PaintOp E) :
    f.paintOp id op = f.concat (empty.paintOp id op) := by
  cases op with
  | insertPrimitive primitive => simp [paintOp, concat, empty]
  | setCursorStyle request => simp [paintOp, concat, empty]
  | handleInput focused handler => cases focused with
    | false => exact (concat_empty f).symm
    | true => simp [paintOp, concat, empty]
  | onMouseEvent listener => simp [paintOp, concat, empty]
  | insertWindowControlHitbox hitbox => simp [paintOp, concat, empty]
  | tabStop operation => simp [paintOp, concat, empty]
  | withElementState typeId => simp [paintOp, accessElementState, concat, empty]
  | layoutLine line => simp [paintOp, concat, empty]

/-- Operations of elements, each with its global id. -/
def prepaintOps (f : Frame E K) (ops : List (GlobalElementId × PrepaintOp E)) : Frame E K :=
  ops.foldl (fun f op => f.prepaintOp op.1 op.2) f

def paintOps (f : Frame E K) (ops : List (GlobalElementId × PaintOp E)) : Frame E K :=
  ops.foldl (fun f op => f.paintOp op.1 op.2) f

theorem prepaintOps_eq (f : Frame E K) (ops : List (GlobalElementId × PrepaintOp E)) :
    f.prepaintOps ops = f.concat (empty.prepaintOps ops) := by
  induction ops generalizing f with
  | nil => exact (concat_empty f).symm
  | cons op ops ih =>
    show (f.prepaintOp op.1 op.2).prepaintOps ops
      = f.concat ((empty.prepaintOp op.1 op.2).prepaintOps ops)
    rw [ih, ih (empty.prepaintOp op.1 op.2), prepaintOp_eq, concat_assoc]

theorem paintOps_eq (f : Frame E K) (ops : List (GlobalElementId × PaintOp E)) :
    f.paintOps ops = f.concat (empty.paintOps ops) := by
  induction ops generalizing f with
  | nil => exact (concat_empty f).symm
  | cons op ops ih =>
    show (f.paintOp op.1 op.2).paintOps ops
      = f.concat ((empty.paintOp op.1 op.2).paintOps ops)
    rw [ih, ih (empty.paintOp op.1 op.2), paintOp_eq, concat_assoc]

/-! ### Copying a part of a frame -/

theorem sliceOrPanic_middle {α : Type} (pre mid post : List α) :
    sliceOrPanic (pre ++ mid ++ post) pre.length (pre ++ mid).length = .ok mid := by
  rw [sliceOrPanic, slice_append_middle]

theorem reusePrepaint_concat (before view after next : Frame E K) :
    reusePrepaint ⟨before.prepaintIndex, (before.concat view).prepaintIndex⟩
        ((before.concat view).concat after) next =
      .ok ({ (before.concat view).concat after with
          tooltipRequests := takeSlots ((before.concat view).concat after).tooltipRequests
            before.tooltipRequests.length (before.concat view).tooltipRequests.length },
        { next with
          hitboxes := next.hitboxes ++ view.hitboxes
          tooltipRequests := next.tooltipRequests ++ view.tooltipRequests
          accessedElementStates := next.accessedElementStates ++ view.accessedElementStates
          lineLayouts := next.lineLayouts ++ view.lineLayouts
          dispatchTree := next.dispatchTree ++ view.dispatchTree
          deferredDraws := next.deferredDraws ++ view.deferredDraws.map DeferredDraw.replay }) := by
  have hnodes : ((before.dispatchTree ++ view.dispatchTree ++ after.dispatchTree).drop
      before.dispatchTree.length).take
        ((before.dispatchTree ++ view.dispatchTree).length - before.dispatchTree.length)
        = view.dispatchTree := by
    rw [List.append_assoc, List.drop_left, List.length_append, Nat.add_sub_cancel_left,
      List.take_left]
  simp only [reusePrepaint, prepaintIndex, concat, sliceOrPanic_middle, hnodes, bind, Except.bind,
    pure, Except.pure]

theorem reusePaint_concat (before view after next : Frame E K) (tooltips : List (Option E)) :
    reusePaint ⟨before.paintIndex, (before.concat view).paintIndex⟩
        { (before.concat view).concat after with tooltipRequests := tooltips } next =
      .ok ({ (before.concat view).concat after with
          tooltipRequests := tooltips
          inputHandlers := takeSlots ((before.concat view).concat after).inputHandlers
            before.inputHandlers.length (before.concat view).inputHandlers.length
          mouseListeners := takeSlots ((before.concat view).concat after).mouseListeners
            before.mouseListeners.length (before.concat view).mouseListeners.length },
        { next with
          cursorStyles := next.cursorStyles ++ view.cursorStyles
          inputHandlers := next.inputHandlers ++ view.inputHandlers
          mouseListeners := next.mouseListeners ++ view.mouseListeners
          accessedElementStates := next.accessedElementStates ++ view.accessedElementStates
          tabStops := next.tabStops ++ view.tabStops
          lineLayouts := next.lineLayouts ++ view.lineLayouts
          scene := next.scene ++ view.scene }) := by
  simp only [reusePaint, paintIndex, concat, sliceOrPanic_middle, bind, Except.bind, pure,
    Except.pure]

/-! ### The input handler -/

/-- No handler is missing. -/
def Handlers (f : Frame E K) : Prop := ∀ slot ∈ f.inputHandlers, slot.isSome = true

/-- The platform window gives back what it was given, to the same place. -/
theorem Handlers.restore {f : Frame E K} (h : f.Handlers) :
    f.takeInputHandler.2.restoreInputHandler f.takeInputHandler.1 = f := by
  have hrev : ∀ slot ∈ f.inputHandlers.reverse, slot.isSome = true :=
    fun slot hs => h slot (List.mem_reverse.mp hs)
  rw [takeInputHandler]
  cases hl : f.inputHandlers.reverse with
  | nil =>
    have hnil : f.inputHandlers = [] := List.reverse_eq_nil_iff.mp hl
    show { f with inputHandlers := ([] : List (Option E)).reverse } = f
    rw [List.reverse_nil, ← hnil]
  | cons slot slots =>
    cases slot with
    | none => exact absurd (hrev none (by rw [hl]; exact List.mem_cons_self)) Bool.false_ne_true
    | some handler =>
      have hslots : (some handler :: slots).reverse = f.inputHandlers := by
        rw [← hl, List.reverse_reverse]
      simp only [takeInputHandler.takeLast, restoreInputHandler, List.reverse_reverse,
        restoreInputHandler.putLast, hslots]

theorem Handlers.paintOp {f : Frame E K} (h : f.Handlers) (id : GlobalElementId) (op : PaintOp E) :
    (f.paintOp id op).Handlers := by
  cases op with
  | handleInput focused handler => cases focused with
    | false => exact h
    | true =>
      intro slot hs
      rcases List.mem_append.mp hs with hs | hs
      · exact h slot hs
      · rw [List.mem_singleton.mp hs]
        rfl
  | insertPrimitive _ => exact h
  | setCursorStyle _ => exact h
  | onMouseEvent _ => exact h
  | insertWindowControlHitbox _ => exact h
  | tabStop _ => exact h
  | withElementState _ => exact h
  | layoutLine _ => exact h

theorem Handlers.paintOps {f : Frame E K} (h : f.Handlers)
    (ops : List (GlobalElementId × PaintOp E)) : (f.paintOps ops).Handlers := by
  induction ops generalizing f with
  | nil => exact h
  | cons op ops ih => exact ih (h.paintOp op.1 op.2)

theorem Handlers.prepaintOps {f : Frame E K} (h : f.Handlers)
    (ops : List (GlobalElementId × PrepaintOp E)) : (f.prepaintOps ops).Handlers := by
  induction ops generalizing f with
  | nil => exact h
  | cons op ops ih =>
    obtain ⟨id, op⟩ := op
    refine ih ?_
    cases op with
    | insertHitbox _ => exact h
    | setTooltip _ => exact h
    | withElementState _ => exact h
    | layoutLine _ => exact h

end Frame

/-! ### What is registered -/

/-- The vectors that elements register something in. -/
structure Registered (E : Type) where
  hitboxes : List E
  tooltipRequests : List (Option E)
  cursorStyles : List E
  inputHandlers : List (Option E)
  mouseListeners : List (Option E)
  windowControlHitboxes : List E
  tabStops : List (TabStopOperation E)
  accessedElementStates : List (GlobalElementId × StateType)

def Registered.append (a b : Registered E) : Registered E where
  hitboxes := a.hitboxes ++ b.hitboxes
  tooltipRequests := a.tooltipRequests ++ b.tooltipRequests
  cursorStyles := a.cursorStyles ++ b.cursorStyles
  inputHandlers := a.inputHandlers ++ b.inputHandlers
  mouseListeners := a.mouseListeners ++ b.mouseListeners
  windowControlHitboxes := a.windowControlHitboxes ++ b.windowControlHitboxes
  tabStops := a.tabStops ++ b.tabStops
  accessedElementStates := a.accessedElementStates ++ b.accessedElementStates

def Frame.registered (f : Frame E K) : Registered E where
  hitboxes := f.hitboxes
  tooltipRequests := f.tooltipRequests
  cursorStyles := f.cursorStyles
  inputHandlers := f.inputHandlers
  mouseListeners := f.mouseListeners
  windowControlHitboxes := f.windowControlHitboxes
  tabStops := f.tabStops
  accessedElementStates := f.accessedElementStates

/-- A frame in which one view does `prepaintView` and `paintView`, and other
elements the rest. -/
structure Recording (E : Type) where
  prepaintBefore : List (GlobalElementId × PrepaintOp E)
  prepaintView : List (GlobalElementId × PrepaintOp E)
  prepaintAfter : List (GlobalElementId × PrepaintOp E)
  paintBefore : List (GlobalElementId × PaintOp E)
  paintView : List (GlobalElementId × PaintOp E)
  paintAfter : List (GlobalElementId × PaintOp E)

namespace Recording

variable (K) in
/-- The frame when the prepaint of the view begins. -/
def prepaintStart (r : Recording E) : Frame E K := Frame.empty.prepaintOps r.prepaintBefore

variable (K) in
def prepaintEnd (r : Recording E) : Frame E K := (r.prepaintStart K).prepaintOps r.prepaintView

variable (K) in
/-- The frame when the paint of the view begins. -/
def paintStart (r : Recording E) : Frame E K :=
  ((r.prepaintEnd K).prepaintOps r.prepaintAfter).paintOps r.paintBefore

variable (K) in
def paintEnd (r : Recording E) : Frame E K := (r.paintStart K).paintOps r.paintView

variable (K) in
def frame (r : Recording E) : Frame E K := (r.paintEnd K).paintOps r.paintAfter

variable (K) in
def prepaintRange (r : Recording E) : IndexRange PrepaintStateIndex :=
  ⟨(r.prepaintStart K).prepaintIndex, (r.prepaintEnd K).prepaintIndex⟩

variable (K) in
def paintRange (r : Recording E) : IndexRange PaintIndex :=
  ⟨(r.paintStart K).paintIndex, (r.paintEnd K).paintIndex⟩

variable (K) in
/-- The frame at the next draw: the platform window was given an input handler and
gave it back. -/
def renderedFrame (r : Recording E) : Frame E K :=
  (r.frame K).takeInputHandler.2.restoreInputHandler (r.frame K).takeInputHandler.1

variable (K) in
/-- Reusing the two ranges extends the frame that is being prepainted, and then the
one that is being painted, by what the view registered. -/
def Reproduces (r : Recording E) : Prop :=
  ∀ next paintNext : Frame E K, ∃ rendered next' rendered' paintNext',
    reusePrepaint (r.prepaintRange K) (r.renderedFrame K) next = .ok (rendered, next') ∧
    next'.registered =
      next.registered.append (Frame.empty.prepaintOps r.prepaintView : Frame E K).registered ∧
    reusePaint (r.paintRange K) rendered paintNext = .ok (rendered', paintNext') ∧
    paintNext'.registered =
      paintNext.registered.append (Frame.empty.paintOps r.paintView : Frame E K).registered

/-! ### The two copies -/

theorem prepaintOps_registered (f : Frame E K) (ops : List (GlobalElementId × PrepaintOp E)) :
    (f.prepaintOps ops).cursorStyles = f.cursorStyles ∧
      (f.prepaintOps ops).inputHandlers = f.inputHandlers ∧
      (f.prepaintOps ops).mouseListeners = f.mouseListeners ∧
      (f.prepaintOps ops).windowControlHitboxes = f.windowControlHitboxes ∧
      (f.prepaintOps ops).tabStops = f.tabStops := by
  induction ops generalizing f with
  | nil => exact ⟨rfl, rfl, rfl, rfl, rfl⟩
  | cons op ops ih =>
    obtain ⟨id, op⟩ := op
    have hop := ih (f.prepaintOp id op)
    cases op with
    | insertHitbox _ => exact hop
    | setTooltip _ => exact hop
    | withElementState _ => exact hop
    | layoutLine _ => exact hop

theorem paintOps_registered (f : Frame E K) (ops : List (GlobalElementId × PaintOp E)) :
    (f.paintOps ops).hitboxes = f.hitboxes ∧
      (f.paintOps ops).tooltipRequests = f.tooltipRequests := by
  induction ops generalizing f with
  | nil => exact ⟨rfl, rfl⟩
  | cons op ops ih =>
    obtain ⟨id, op⟩ := op
    have hop := ih (f.paintOp id op)
    cases op with
    | handleInput focused handler => cases focused with
      | false => exact hop
      | true => exact hop
    | insertPrimitive _ => exact hop
    | setCursorStyle _ => exact hop
    | onMouseEvent _ => exact hop
    | insertWindowControlHitbox _ => exact hop
    | tabStop _ => exact hop
    | withElementState _ => exact hop
    | layoutLine _ => exact hop

/-- Whether an operation is `insert_window_control_hitbox`. -/
def isWindowControl : PaintOp E → Bool
  | .insertWindowControlHitbox _ => true
  | _ => false

theorem windowControlHitboxes_eq_nil_iff (ops : List (GlobalElementId × PaintOp E)) :
    (Frame.empty.paintOps ops : Frame E K).windowControlHitboxes = [] ↔
      ∀ op ∈ ops, isWindowControl op.2 = false := by
  induction ops with
  | nil => exact iff_of_true rfl fun op hop => absurd hop List.not_mem_nil
  | cons op ops ih =>
    obtain ⟨id, op⟩ := op
    have hconcat := congrArg Frame.windowControlHitboxes
      (Frame.paintOps_eq (K := K) (Frame.empty.paintOp id op) ops)
    rw [List.forall_mem_cons, ← ih]
    show ((Frame.empty.paintOp id op).paintOps ops).windowControlHitboxes = [] ↔ _
    rw [hconcat]
    cases op with
    | handleInput focused handler => cases focused with
      | false => simp [Frame.concat, Frame.paintOp, Frame.empty, isWindowControl]
      | true => simp [Frame.concat, Frame.paintOp, Frame.empty, isWindowControl]
    | insertWindowControlHitbox _ => simp [Frame.concat, Frame.paintOp, isWindowControl]
    | insertPrimitive _ => simp [Frame.concat, Frame.paintOp, Frame.empty, isWindowControl]
    | setCursorStyle _ => simp [Frame.concat, Frame.paintOp, Frame.empty, isWindowControl]
    | onMouseEvent _ => simp [Frame.concat, Frame.paintOp, Frame.empty, isWindowControl]
    | tabStop _ => simp [Frame.concat, Frame.paintOp, Frame.empty, isWindowControl]
    | withElementState _ =>
      simp [Frame.concat, Frame.paintOp, Frame.accessElementState, Frame.empty, isWindowControl]
    | layoutLine _ => simp [Frame.concat, Frame.paintOp, Frame.empty, isWindowControl]

theorem frame_eq_paint (r : Recording E) : r.frame K =
    ((r.paintStart K).concat (Frame.empty.paintOps r.paintView)).concat
      (Frame.empty.paintOps r.paintAfter) := by
  rw [frame, Frame.paintOps_eq, paintEnd, Frame.paintOps_eq (r.paintStart K)]

theorem frame_eq_prepaint (r : Recording E) : ∃ after, r.frame K =
    ((r.prepaintStart K).concat (Frame.empty.prepaintOps r.prepaintView)).concat after := by
  refine ⟨((Frame.empty.prepaintOps r.prepaintAfter).concat (Frame.empty.paintOps r.paintBefore)).concat
    ((Frame.empty.paintOps r.paintView).concat (Frame.empty.paintOps r.paintAfter)), ?_⟩
  rw [frame_eq_paint, paintStart, Frame.paintOps_eq ((r.prepaintEnd K).prepaintOps r.prepaintAfter),
    Frame.prepaintOps_eq (r.prepaintEnd K), prepaintEnd, Frame.prepaintOps_eq (r.prepaintStart K)]
  simp only [Frame.concat_assoc]

theorem renderedFrame_eq (r : Recording E) : r.renderedFrame K = r.frame K := by
  have hempty : (Frame.empty : Frame E K).Handlers := fun slot hs => absurd hs List.not_mem_nil
  exact Frame.Handlers.restore (((((hempty.prepaintOps _).prepaintOps _).prepaintOps _).paintOps
    _).paintOps _ |>.paintOps _)

/-- Both copies go through, and all they leave out is the hitboxes of window
controls. -/
theorem reuse_eq (r : Recording E) (next paintNext : Frame E K) :
    ∃ rendered next' rendered' paintNext',
      reusePrepaint (r.prepaintRange K) (r.renderedFrame K) next = .ok (rendered, next') ∧
      next'.registered =
        next.registered.append (Frame.empty.prepaintOps r.prepaintView : Frame E K).registered ∧
      reusePaint (r.paintRange K) rendered paintNext = .ok (rendered', paintNext') ∧
      { paintNext'.registered with
          windowControlHitboxes := paintNext'.windowControlHitboxes
            ++ (Frame.empty.paintOps r.paintView : Frame E K).windowControlHitboxes } =
        paintNext.registered.append (Frame.empty.paintOps r.paintView : Frame E K).registered ∧
      paintNext'.windowControlHitboxes = paintNext.windowControlHitboxes := by
  obtain ⟨after, hframe⟩ := r.frame_eq_prepaint (K := K)
  have hprepaint := Frame.reusePrepaint_concat (r.prepaintStart K)
    (Frame.empty.prepaintOps r.prepaintView) after next
  have hend : (r.prepaintStart K).concat (Frame.empty.prepaintOps r.prepaintView)
      = r.prepaintEnd K := (Frame.prepaintOps_eq _ _).symm
  have hpaintEnd : (r.paintStart K).concat (Frame.empty.paintOps r.paintView)
      = r.paintEnd K := (Frame.paintOps_eq _ _).symm
  rw [← hframe, hend] at hprepaint
  have hpaint := Frame.reusePaint_concat (r.paintStart K) (Frame.empty.paintOps r.paintView)
    (Frame.empty.paintOps r.paintAfter) paintNext
    (takeSlots (r.frame K).tooltipRequests (r.prepaintStart K).tooltipRequests.length
      (r.prepaintEnd K).tooltipRequests.length)
  rw [← r.frame_eq_paint (K := K), hpaintEnd] at hpaint
  obtain ⟨hcursor, hinput, hmouse, hcontrol, htab⟩ :=
    prepaintOps_registered (Frame.empty : Frame E K) r.prepaintView
  obtain ⟨hhitbox, htooltip⟩ := paintOps_registered (Frame.empty : Frame E K) r.paintView
  refine ⟨_, _, _, _, by rw [renderedFrame_eq]; exact hprepaint, ?_, hpaint, ?_, rfl⟩
  · simp only [Frame.registered, Registered.append, hcursor, hinput, hmouse, hcontrol, htab]
    simp only [Frame.empty, List.append_nil]
  · simp only [Frame.registered, Registered.append, hhitbox, htooltip]
    simp only [Frame.empty, List.append_nil]

/-- **Reusing a cached view reproduces everything it registered** exactly when it
registers no hitbox of a window control. -/
theorem reproduces_iff (K : Type) (r : Recording E) :
    r.Reproduces K ↔ ∀ op ∈ r.paintView, isWindowControl op.2 = false := by
  rw [← windowControlHitboxes_eq_nil_iff (K := K)]
  refine ⟨fun h => ?_, fun h next paintNext => ?_⟩
  · obtain ⟨rendered, next', rendered', paintNext', hprepaint, -, hpaint, hregistered⟩ :=
      h Frame.empty Frame.empty
    obtain ⟨rendered₁, next₁, rendered₁', paintNext₁, hprepaint₁, -, hpaint₁, -, hcontrols⟩ :=
      r.reuse_eq (K := K) Frame.empty Frame.empty
    obtain ⟨rfl, rfl⟩ := Prod.mk.inj (Except.ok.inj (hprepaint.symm.trans hprepaint₁))
    obtain ⟨rfl, rfl⟩ := Prod.mk.inj (Except.ok.inj (hpaint.symm.trans hpaint₁))
    have hwindow := congrArg Registered.windowControlHitboxes hregistered
    exact hwindow.symm.trans hcontrols
  · obtain ⟨rendered, next', rendered', paintNext', hprepaint, hnext, hpaint, hregistered, -⟩ :=
      r.reuse_eq next paintNext
    refine ⟨rendered, next', rendered', paintNext', hprepaint, hnext, hpaint, ?_⟩
    rw [h, List.append_nil] at hregistered
    exact hregistered

/-- A view that marks a hitbox as a control of the window. -/
def windowControl : Recording Nat := ⟨[], [([], .insertHitbox 0)], [], [],
  [([], .insertWindowControlHitbox 0)], []⟩

theorem not_reproduces_windowControl : ¬ windowControl.Reproduces Unit := by
  intro h
  obtain ⟨rendered, next', rendered', paintNext', hprepaint, -, hpaint, hregistered⟩ :=
    h Frame.empty Frame.empty
  have hcontrols := congrArg Registered.windowControlHitboxes hregistered
  cases hprepaint
  cases hpaint
  exact absurd hcontrols (by decide)

end Recording

end Reproduce

end FcGpui
