import FcGpui.DispatchTree.Stacks
import FcGpui.Window.Transact

/-!
# Prepaints that are made twice

What a sequence adds to a window depends on little of it: on the number of nodes, the stacks
and the focus (`Place`).  So from two windows of one place a sequence adds the same
(`prepaint_adds`), given that it reuses no cached view from either.

A failed attempt leaves the place as it was, and the vectors.  The maps have lost entries, but
only those that the sequence writes again (`Additions.Covered`).

**Main result.**  `attempt_leavesNoTrace`: a failed attempt leaves no trace if no cached view is
reused, in it or in the second attempt.  No view is if all are dirty (`renders_of_drawsAnew`).
`not_leavesNoTrace` is a view with a tooltip.
-/

namespace FcGpui.Transact

variable {E K S L : Type}

/-! ### What is compared -/

/-- What a sequence may ask for, of what it adds to. -/
structure Place (E : Type) where
  nodes : Nat
  nodeStack : List DispatchNodeId
  viewStack : List EntityId
  focus : Option FocusId
  renderedEntityStack : List EntityId
  elementIdStack : GlobalElementId
  textStyleStack : List E

/-- A window without its ids and element states, and with its maps as functions. -/
structure Core (E L : Type) where
  hitboxes : List E
  tooltipRequests : List (Option E)
  deferredDraws : List (PlacedDraw E)
  accessedElementStates : List (GlobalElementId × StateType)
  nodes : List (DispatchTree.DispatchNode L)
  focusableNodeIds : FocusId → Option DispatchNodeId
  viewNodeIds : EntityId → Option DispatchNodeId
  frameFocus : Option FocusId
  nodeStack : List DispatchNodeId
  viewStack : List EntityId
  focus : Option FocusId
  renderedEntityStack : List EntityId
  elementIdStack : GlobalElementId
  textStyleStack : List E

def core (w : PrepaintWindow E K S L) : Core E L where
  hitboxes := w.next.hitboxes.map Hitbox.hitbox
  tooltipRequests := w.next.tooltipRequests.map (Option.map TooltipRequest.tooltip)
  deferredDraws := w.next.deferredDraws
  accessedElementStates := w.next.accessedElementStates
  nodes := w.next.dispatchTree.nodes
  focusableNodeIds id := w.next.dispatchTree.focusableNodeIds.lookup id
  viewNodeIds id := w.next.dispatchTree.viewNodeIds.lookup id
  frameFocus := w.next.focus
  nodeStack := w.next.dispatchTree.nodeStack
  viewStack := w.next.dispatchTree.viewStack
  focus := w.focus
  renderedEntityStack := w.renderedEntityStack
  elementIdStack := w.elementIdStack
  textStyleStack := w.textStyleStack

def Core.place (c : Core E L) : Place E :=
  ⟨c.nodes.length, c.nodeStack, c.viewStack, c.focus, c.renderedEntityStack, c.elementIdStack,
    c.textStyleStack⟩

/-- What a sequence adds; of the maps, the entries that it writes. -/
structure Additions (E L : Type) where
  hitboxes : List E := []
  tooltipRequests : List (Option E) := []
  deferredDraws : List (PlacedDraw E) := []
  accessedElementStates : List (GlobalElementId × StateType) := []
  nodes : List (DispatchTree.DispatchNode L) := []
  focusIds : List (FocusId × DispatchNodeId) := []
  viewIds : List (EntityId × DispatchNodeId) := []
  focused : Bool := false

def Additions.append (d d' : Additions E L) : Additions E L where
  hitboxes := d.hitboxes ++ d'.hitboxes
  tooltipRequests := d.tooltipRequests ++ d'.tooltipRequests
  deferredDraws := d.deferredDraws ++ d'.deferredDraws
  accessedElementStates := d.accessedElementStates ++ d'.accessedElementStates
  nodes := d.nodes ++ d'.nodes
  focusIds := d.focusIds ++ d'.focusIds
  viewIds := d.viewIds ++ d'.viewIds
  focused := d.focused || d'.focused

/-- Writes entries one by one. -/
def writeAll {α β : Type} [DecidableEq α] (m : α → Option β) (entries : List (α × β)) : α → Option β :=
  entries.foldl (fun m entry => Function.update m entry.1 (some entry.2)) m

def Core.add (c : Core E L) (d : Additions E L) : Core E L :=
  { c with
    hitboxes := c.hitboxes ++ d.hitboxes
    tooltipRequests := c.tooltipRequests ++ d.tooltipRequests
    deferredDraws := c.deferredDraws ++ d.deferredDraws
    accessedElementStates := c.accessedElementStates ++ d.accessedElementStates
    nodes := c.nodes ++ d.nodes
    focusableNodeIds := writeAll c.focusableNodeIds d.focusIds
    viewNodeIds := writeAll c.viewNodeIds d.viewIds
    frameFocus := if d.focused then c.focus else c.frameFocus }

/-- The entries of the nodes are among those that are written. -/
structure Additions.Covered (d : Additions E L) : Prop where
  focusIds : ∀ node ∈ d.nodes, ∀ focusId ∈ node.focusId, focusId ∈ d.focusIds.map Prod.fst
  viewIds : ∀ node ∈ d.nodes, ∀ viewId ∈ node.viewId, viewId ∈ d.viewIds.map Prod.fst

section WriteAll

variable {α β : Type} [DecidableEq α] {m m' : α → Option β}

theorem writeAll_of_notMem {entries : List (α × β)} {k : α} (hk : k ∉ entries.map Prod.fst) :
    writeAll m entries k = m k := by
  induction entries generalizing m with
  | nil => rfl
  | cons entry entries ih =>
    rw [List.map_cons, List.mem_cons, not_or] at hk
    rw [writeAll, List.foldl_cons]
    exact (ih hk.2).trans (Function.update_of_ne hk.1 _ _)

/-- What is written does not depend on what was there. -/
theorem writeAll_congr {entries : List (α × β)} {k : α}
    (h : k ∈ entries.map Prod.fst ∨ m k = m' k) : writeAll m entries k = writeAll m' entries k := by
  induction entries generalizing m m' with
  | nil => exact h.resolve_left List.not_mem_nil
  | cons entry entries ih =>
    rw [writeAll, writeAll, List.foldl_cons, List.foldl_cons]
    refine ih ?_
    rcases h with hk | hsame
    · rw [List.map_cons, List.mem_cons] at hk
      rcases hk with rfl | hk
      · exact Or.inr (by rw [Function.update_self, Function.update_self])
      · exact Or.inl hk
    · by_cases hk : k = entry.1
      · subst hk
        exact Or.inr (by rw [Function.update_self, Function.update_self])
      · exact Or.inr (by rw [Function.update_of_ne hk, Function.update_of_ne hk, hsame])

end WriteAll

theorem add_nothing (c : Core E L) : c.add {} = c := by
  simp [Core.add, writeAll]

theorem add_add (c : Core E L) (d d' : Additions E L) : (c.add d).add d' = c.add (d.append d') := by
  cases hfocused : d'.focused <;>
    simp [Core.add, Additions.append, writeAll, List.append_assoc, List.foldl_append, hfocused]

theorem place_add {c c' : Core E L} (h : c.place = c'.place) (d : Additions E L) :
    (c.add d).place = (c'.add d).place := by
  obtain ⟨hnodes, hrest⟩ := Place.mk.inj h
  rw [Core.place, Core.place, Core.add, Core.add, List.length_append, List.length_append, hnodes]
  obtain ⟨h₁, h₂, h₃, h₄, h₅, h₆⟩ := hrest
  simp only [h₁, h₂, h₃, h₄, h₅, h₆]

theorem covered_nothing : ({} : Additions E L).Covered := ⟨by simp, by simp⟩

theorem Additions.Covered.append {d d' : Additions E L} (h : d.Covered) (h' : d'.Covered) :
    (d.append d').Covered := by
  constructor
  · intro node hnode focusId hfocus
    rw [Additions.append, List.map_append]
    rcases List.mem_append.mp hnode with hnode | hnode
    · exact List.mem_append_left _ (h.focusIds node hnode focusId hfocus)
    · exact List.mem_append_right _ (h'.focusIds node hnode focusId hfocus)
  · intro node hnode viewId hview
    rw [Additions.append, List.map_append]
    rcases List.mem_append.mp hnode with hnode | hnode
    · exact List.mem_append_left _ (h.viewIds node hnode viewId hview)
    · exact List.mem_append_right _ (h'.viewIds node hnode viewId hview)

/-- Two windows get the same. -/
def Both (a b a' b' : PrepaintWindow E K S L) : Prop :=
  ∃ d : Additions E L, d.Covered ∧ core a' = (core a).add d ∧ core b' = (core b).add d

section Both

variable {a b a' b' a'' b'' : PrepaintWindow E K S L}

theorem both_refl (a b : PrepaintWindow E K S L) : Both a b a b :=
  ⟨{}, covered_nothing, (add_nothing _).symm, (add_nothing _).symm⟩

theorem Both.trans (h : Both a b a' b') (h' : Both a' b' a'' b'') : Both a b a'' b'' := by
  obtain ⟨d, hcovered, ha, hb⟩ := h
  obtain ⟨d', hcovered', ha', hb'⟩ := h'
  refine ⟨d.append d', hcovered.append hcovered', ?_, ?_⟩
  · rw [ha', ha, add_add]
  · rw [hb', hb, add_add]

theorem Both.place (h : Both a b a' b') (hplace : (core a).place = (core b).place) :
    (core a').place = (core b').place := by
  obtain ⟨d, -, ha, hb⟩ := h
  rw [ha, hb]
  exact place_add hplace d

/-- What does not touch what is compared may be left out. -/
theorem Both.congr (h : Both a b a' b') (ha : core a'' = core a') (hb : core b'' = core b') :
    Both a b a'' b'' := by
  obtain ⟨d, hcovered, ha', hb'⟩ := h
  exact ⟨d, hcovered, ha.trans ha', hb.trans hb'⟩

end Both

/-! ### Nodes -/

/-- The view of a new node: none if it is on top already. -/
def Place.shown (p : Place E) (viewId : Option EntityId) : Option EntityId :=
  viewId.filter fun viewId => decide (p.viewStack.getLast? ≠ some viewId)

/-- What comes with a new node. -/
def Place.opened (p : Place E) (viewId : Option EntityId) (focusId : Option FocusId) :
    Additions E L where
  nodes := [{ focusId := focusId, viewId := p.shown viewId, parent := p.nodeStack.getLast? }]
  focusIds := focusId.toList.map fun focusId => (focusId, p.nodes)
  viewIds := (p.shown viewId).toList.map fun viewId => (viewId, p.nodes)
  focused := focusId.isSome && focusId == p.focus

/-- Inside of a new node. -/
def Core.inside (c : Core E L) (viewId : Option EntityId) (focusId : Option FocusId) : Core E L :=
  { c.add (c.place.opened viewId focusId) with
    nodeStack := c.nodeStack ++ [c.nodes.length]
    viewStack := c.viewStack ++ (c.place.shown viewId).toList }

theorem covered_opened (p : Place E) (viewId : Option EntityId) (focusId : Option FocusId) :
    (p.opened viewId focusId : Additions E L).Covered := by
  constructor
  · intro node hnode id hid
    obtain rfl := List.mem_singleton.mp hnode
    obtain rfl : focusId = some id := hid
    exact List.mem_singleton_self id
  · intro node hnode id hid
    obtain rfl := List.mem_singleton.mp hnode
    have hid : p.shown viewId = some id := hid
    simp [Place.opened, hid]

theorem setViewId_opened (w : PrepaintWindow E K S L) (viewId : Option EntityId) :
    viewId.elim (some (w.setTree w.next.dispatchTree.pushNode.2))
        (w.setTree w.next.dispatchTree.pushNode.2).setViewId
      = some (w.setTree ⟨w.next.dispatchTree.nodeStack ++ [w.next.dispatchTree.nodes.length],
          w.next.dispatchTree.contextStack,
          w.next.dispatchTree.viewStack ++ ((core w).place.shown viewId).toList,
          w.next.dispatchTree.nodes ++ [{
            viewId := (core w).place.shown viewId, parent := w.next.dispatchTree.nodeStack.getLast? }],
          w.next.dispatchTree.focusableNodeIds,
          ((core w).place.shown viewId).elim w.next.dispatchTree.viewNodeIds fun viewId =>
            w.next.dispatchTree.viewNodeIds.insert viewId w.next.dispatchTree.nodes.length⟩) := by
  cases viewId with
  | none => simp [Place.shown, PrepaintWindow.setTree, DispatchTree.pushNode, DispatchTree.activeNodeId]
  | some viewId =>
    by_cases htop : w.next.dispatchTree.viewStack.getLast? = some viewId
    · have hshown : (core w).place.shown (some viewId) = none := by
        simp [Place.shown, Core.place, core, htop]
      rw [hshown]
      simp [PrepaintWindow.setViewId, PrepaintWindow.setTree, DispatchTree.pushNode, DispatchTree.setViewId, htop,
        DispatchTree.activeNodeId]
    · have hshown : (core w).place.shown (some viewId) = some viewId := by
        simp [Place.shown, Core.place, core, htop]
      rw [hshown]
      simp [PrepaintWindow.setViewId, PrepaintWindow.setTree, DispatchTree.pushNode, DispatchTree.setViewId, htop,
        DispatchTree.activeNodeId, DispatchTree.updateActiveNode_added]

theorem lookup_insert_eq_update {α β : Type} [DecidableEq α] (m : AList fun _ : α => β) (k : α) (v : β) :
    (fun x => (m.insert k v).lookup x) = Function.update (fun x => m.lookup x) k (some v) := by
  funext x
  by_cases hx : x = k
  · subst hx
    rw [AList.lookup_insert, Function.update_self]
  · rw [AList.lookup_insert_ne hx, Function.update_of_ne hx]

theorem openNode_inside (w : PrepaintWindow E K S L) (viewId : Option EntityId) (focusId : Option FocusId) :
    ∃ w', w.openNode viewId focusId = some w' ∧ core w' = (core w).inside viewId focusId := by
  rw [PrepaintWindow.openNode]
  simp only [setViewId_opened, Option.bind_eq_bind, Option.bind_some]
  rw [Core.inside, Place.opened]
  generalize (core w).place.shown viewId = shown
  have hviews : (fun id => (shown.elim w.next.dispatchTree.viewNodeIds fun viewId =>
        w.next.dispatchTree.viewNodeIds.insert viewId w.next.dispatchTree.nodes.length).lookup id)
      = writeAll (fun id => w.next.dispatchTree.viewNodeIds.lookup id)
          (shown.toList.map fun viewId => (viewId, w.next.dispatchTree.nodes.length)) := by
    cases shown with
    | none => rfl
    | some viewId => exact lookup_insert_eq_update _ _ _
  cases focusId with
  | none =>
    refine ⟨_, rfl, ?_⟩
    simp only [core, PrepaintWindow.setTree, hviews]
    simp [Core.add, Core.place, writeAll]
  | some focusId =>
    have hfocusIds := lookup_insert_eq_update w.next.dispatchTree.focusableNodeIds focusId
      w.next.dispatchTree.nodes.length
    by_cases hfocus : w.focus = some focusId
    · simp only [Option.elim_some, PrepaintWindow.setFocusHandle, PrepaintWindow.setTree, hfocus, if_true,
        DispatchTree.setFocusId, DispatchTree.activeNodeId, List.getLast?_concat, Option.bind_eq_bind,
        Option.bind_some, DispatchTree.updateActiveNode_added, Option.map_some]
      refine ⟨_, rfl, ?_⟩
      simp only [core, hviews, hfocusIds]
      simp [Core.add, Core.place, writeAll, hfocus]
    · simp only [Option.elim_some, PrepaintWindow.setFocusHandle, PrepaintWindow.setTree, hfocus, if_false,
        DispatchTree.setFocusId, DispatchTree.activeNodeId, List.getLast?_concat, Option.bind_eq_bind,
        Option.bind_some, DispatchTree.updateActiveNode_added, Option.map_some]
      refine ⟨_, rfl, ?_⟩
      simp only [core, hviews, hfocusIds]
      simp [Core.add, Core.place, writeAll, Ne.symm hfocus]

theorem closeNode_inside {w : PrepaintWindow E K S L} {c : Core E L} {viewId : Option EntityId}
    {focusId : Option FocusId} {d : Additions E L} (h : core w = (c.inside viewId focusId).add d) :
    ∃ w', w.closeNode = some w' ∧ core w' = c.add ((c.place.opened viewId focusId).append d) := by
  have hstack : w.next.dispatchTree.nodeStack = c.nodeStack ++ [c.nodes.length] :=
    congrArg Core.nodeStack h
  have hnodes : w.next.dispatchTree.nodes = c.nodes ++ [{
      focusId := focusId, viewId := c.place.shown viewId, parent := c.nodeStack.getLast? }] ++ d.nodes :=
    congrArg Core.nodes h
  have hviews : w.next.dispatchTree.viewStack = c.viewStack ++ (c.place.shown viewId).toList :=
    congrArg Core.viewStack h
  have hactive : w.next.dispatchTree.activeNodeId = some c.nodes.length := by
    rw [DispatchTree.activeNodeId, hstack, List.getLast?_concat]
  have hnode : w.next.dispatchTree.nodes[c.nodes.length]? = some {
      focusId := focusId, viewId := c.place.shown viewId, parent := c.nodeStack.getLast? } := by
    rw [hnodes, List.append_assoc, List.getElem?_append_right le_rfl, Nat.sub_self]
    rfl
  rw [PrepaintWindow.closeNode, DispatchTree.popNode]
  simp only [hactive, hnode, Option.bind_eq_bind, Option.bind_some, Option.map_some]
  refine ⟨_, rfl, ?_⟩
  rw [hstack, hviews, List.dropLast_concat, DispatchTree.dropLast_append_toList, ← add_add]
  calc core (w.setTree _)
    _ = { core w with nodeStack := c.nodeStack, viewStack := c.viewStack } := rfl
    _ = _ := by
      rw [h]
      rfl

theorem place_inside {c c' : Core E L} (h : c.place = c'.place) (viewId : Option EntityId)
    (focusId : Option FocusId) : (c.inside viewId focusId).place = (c'.inside viewId focusId).place := by
  have hadd := place_add h (c.place.opened viewId focusId)
  obtain ⟨hlength, hstack, hviews, hfocus, hrendered, hids, hstyles⟩ := Place.mk.inj h
  obtain ⟨hlength', -⟩ := Place.mk.inj hadd
  rw [Core.place, Core.place, Core.inside, Core.inside, ← h, ← hlength, ← hstack, ← hviews]
  simp only [hlength']
  simp only [Core.add, hfocus, hrendered, hids, hstyles]

section Steps

variable {a b a₀ b₀ a₁ b₁ a' b' : PrepaintWindow E K S L}

theorem Both.node (hplace : (core a).place = (core b).place) {viewId : Option EntityId}
    {focusId : Option FocusId} (ha : core a₀ = (core a).inside viewId focusId)
    (hb : core b₀ = (core b).inside viewId focusId) (h : Both a₀ b₀ a₁ b₁) :
    ∃ a' b', a₁.closeNode = some a' ∧ b₁.closeNode = some b' ∧ Both a b a' b' := by
  obtain ⟨d, hcovered, ha₁, hb₁⟩ := h
  rw [ha] at ha₁
  rw [hb] at hb₁
  obtain ⟨a', hclose, ha'⟩ := closeNode_inside ha₁
  obtain ⟨b', hclose', hb'⟩ := closeNode_inside hb₁
  rw [← hplace] at hb'
  exact ⟨a', b', hclose, hclose', _, (covered_opened _ _ _).append hcovered, ha', hb'⟩

theorem place_enterView (h : (core a).place = (core b).place) (entity : EntityId) :
    (core (a.enterView entity)).place = (core (b.enterView entity)).place :=
  congrArg (fun p : Place E => { p with renderedEntityStack := p.renderedEntityStack ++ [entity] }) h

theorem both_insertHitbox (a b : PrepaintWindow E K S L) (hitbox : E) :
    Both a b (a.insertHitbox hitbox) (b.insertHitbox hitbox) := by
  refine ⟨{ hitboxes := [hitbox] }, ⟨by simp, by simp⟩, ?_, ?_⟩ <;>
    simp [core, Core.add, writeAll, PrepaintWindow.insertHitbox]

theorem both_setTooltip (a b : PrepaintWindow E K S L) (tooltip : E) :
    Both a b (a.setTooltip tooltip) (b.setTooltip tooltip) := by
  refine ⟨{ tooltipRequests := [some tooltip] }, ⟨by simp, by simp⟩, ?_, ?_⟩ <;>
    simp [core, Core.add, writeAll, PrepaintWindow.setTooltip]

theorem both_deferDraw (hplace : (core a).place = (core b).place) {element absoluteOffset : E}
    {priority : Nat} (h : a.deferDraw element absoluteOffset priority = some a') :
    ∃ b', b.deferDraw element absoluteOffset priority = some b' ∧ Both a b a' b' := by
  obtain ⟨-, hstack, -, -, hrendered, hids, hstyles⟩ := Place.mk.inj hplace
  obtain ⟨parentNode, hparent, h⟩ := Option.bind_eq_some_iff.mp h
  obtain ⟨currentView, hview, h⟩ := Option.bind_eq_some_iff.mp h
  obtain rfl := Option.some.inj h
  have hparent' : b.next.dispatchTree.activeNodeId = some parentNode :=
    (congrArg List.getLast? hstack).symm.trans hparent
  have hview' : b.renderedEntityStack.getLast? = some currentView :=
    (congrArg List.getLast? hrendered).symm.trans hview
  have hids : a.elementIdStack = b.elementIdStack := hids
  have hstyles : a.textStyleStack = b.textStyleStack := hstyles
  rw [PrepaintWindow.deferDraw, hparent', hview']
  refine ⟨_, rfl, { deferredDraws := [⟨currentView, parentNode, a.elementIdStack, a.textStyleStack, priority,
    some element, absoluteOffset, ⟨{}, {}⟩, ⟨{}, {}⟩⟩] }, ⟨by simp, by simp⟩, ?_, ?_⟩
  · simp [core, Core.add, writeAll]
  · rw [hids, hstyles]
    simp [core, Core.add, writeAll]

theorem both_takeElementState (a b : PrepaintWindow E K S L) (key : GlobalElementId × Nat) :
    Both a b (a.takeElementState key).2 (b.takeElementState key).2 := by
  refine ⟨{ accessedElementStates := [(key.1, .other key.2)] }, ⟨by simp, by simp⟩, ?_, ?_⟩ <;>
    simp [core, Core.add, writeAll, PrepaintWindow.takeElementState]

theorem both_takeViewState (a b : PrepaintWindow E K S L) (id : GlobalElementId) :
    Both a b (a.takeViewState id).2 (b.takeViewState id).2 := by
  refine ⟨{ accessedElementStates := [(id, .anyViewState)] }, ⟨by simp, by simp⟩, ?_, ?_⟩ <;>
    simp [core, Core.add, writeAll, PrepaintWindow.takeViewState]

theorem Both.leaveView {entity : EntityId} (h : Both (a₀.enterView entity) (b₀.enterView entity) a₁ b₁) :
    Both a₀ b₀ a₁.leaveView b₁.leaveView := by
  have hleave : ∀ {w₀ w₁ : PrepaintWindow E K S L} {d : Additions E L},
      core w₁ = (core (w₀.enterView entity)).add d → core w₁.leaveView = (core w₀).add d := by
    intro w₀ w₁ d h
    calc core w₁.leaveView
      _ = { core w₁ with renderedEntityStack := (core w₁).renderedEntityStack.dropLast } := rfl
      _ = (core w₀).add d := by
        rw [h]
        simp [Core.add, core, PrepaintWindow.enterView]
  obtain ⟨d, hcovered, ha, hb⟩ := h
  exact ⟨d, hcovered, hleave ha, hleave hb⟩

end Steps

theorem prepaint_cachedView [DecidableEq K] {w w₀ : PrepaintWindow E K S L} {id : GlobalElementId}
    {entity : EntityId} {cacheKey : K} {render rest : Prepaints E K S}
    {taken : Option (ViewState K) × PrepaintWindow E K S L} (hopen : w.openNode (some entity) none = some w₀)
    (htake : (w₀.enterView entity).takeViewState id = taken) :
    prepaint (.cachedView id entity cacheKey render rest) w
      = ((taken.1.filter (taken.2.reuses entity cacheKey)).elim
          ((prepaint render (taken.2.setRefreshing true)).map fun w₁ => w₁.setRefreshing taken.2.refreshing)
          fun state => taken.2.reusePrepaint state.prepaintRange).bind fun w₁ =>
        (w₁.storeRange id taken.2.next.prepaintIndex cacheKey).leaveView.closeNode.bind (prepaint rest) := by
  rw [prepaint, hopen]
  simp only [Option.bind_eq_bind, Option.bind_some, htake]
  cases taken.1.filter (taken.2.reuses entity cacheKey) with
  | none => cases prepaint render (taken.2.setRefreshing true) <;> rfl
  | some state => rfl

theorem prepaint_cachedView_renders [DecidableEq K] {w w₀ : PrepaintWindow E K S L} {id : GlobalElementId}
    {entity : EntityId} {cacheKey : K} {render rest : Prepaints E K S}
    {taken : Option (ViewState K) × PrepaintWindow E K S L} (hopen : w.openNode (some entity) none = some w₀)
    (htake : (w₀.enterView entity).takeViewState id = taken)
    (hnone : taken.1.filter (taken.2.reuses entity cacheKey) = none) :
    prepaint (.cachedView id entity cacheKey render rest) w
      = (prepaint render (taken.2.setRefreshing true)).bind fun w₁ =>
        ((w₁.setRefreshing taken.2.refreshing).storeRange id taken.2.next.prepaintIndex
          cacheKey).leaveView.closeNode.bind (prepaint rest) := by
  rw [prepaint_cachedView hopen htake, hnone, Option.elim_none, Option.bind_map]
  rfl

/-- **From two windows of one place** a sequence that reuses no cached view adds the same. -/
theorem prepaint_both [DecidableEq K] (ops : Prepaints E K S) :
    ∀ {a b a' : PrepaintWindow E K S L}, (core a).place = (core b).place → Renders ops a → Renders ops b →
      prepaint ops a = some a' → ∃ b', prepaint ops b = some b' ∧ Both a b a' b' := by
  induction ops with
  | done =>
    intro a b a' _ _ _ h
    obtain rfl := Option.some.inj h
    exact ⟨b, rfl, both_refl a b⟩
  | insertHitbox hitbox rest ih =>
    intro a b a' hplace ha hb h
    have hadds := both_insertHitbox a b hitbox
    obtain ⟨b', hb', hrest⟩ := ih (hadds.place hplace) ha hb h
    exact ⟨b', hb', hadds.trans hrest⟩
  | setTooltip tooltip rest ih =>
    intro a b a' hplace ha hb h
    have hadds := both_setTooltip a b tooltip
    obtain ⟨b', hb', hrest⟩ := ih (hadds.place hplace) ha hb h
    exact ⟨b', hb', hadds.trans hrest⟩
  | deferDraw element absoluteOffset priority rest ih =>
    intro a b a' hplace ha hb h
    obtain ⟨a₁, ha₁, h⟩ := Option.bind_eq_some_iff.mp h
    obtain ⟨b₁, hb₁, hadds⟩ := both_deferDraw hplace ha₁
    obtain ⟨b', hb', hrest⟩ := ih (hadds.place hplace) (ha a₁ ha₁) (hb b₁ hb₁) h
    refine ⟨b', ?_, hadds.trans hrest⟩
    rw [prepaint, hb₁]
    exact hb'
  | node viewId focusId body rest ihBody ihRest =>
    intro a b a' hplace ha hb h
    obtain ⟨a₀, hopen, h⟩ := Option.bind_eq_some_iff.mp h
    obtain ⟨a₁, hbody, h⟩ := Option.bind_eq_some_iff.mp h
    obtain ⟨a₂, hclose, h⟩ := Option.bind_eq_some_iff.mp h
    obtain ⟨a₀', hopen', hinside⟩ := openNode_inside a viewId focusId
    obtain rfl := Option.some.inj (hopen.symm.trans hopen')
    obtain ⟨b₀, hopenb, hinsideb⟩ := openNode_inside b viewId focusId
    have hplace₀ : (core a₀).place = (core b₀).place := by
      rw [hinside, hinsideb]
      exact place_inside hplace viewId focusId
    obtain ⟨harenders, harest⟩ := ha a₀ hopen
    obtain ⟨hbrenders, hbrest⟩ := hb b₀ hopenb
    obtain ⟨b₁, hbodyb, hadds⟩ := ihBody hplace₀ harenders hbrenders hbody
    obtain ⟨a₂', b₂, hclosea, hcloseb, hboth⟩ := hadds.node hplace hinside hinsideb
    obtain rfl := Option.some.inj (hclose.symm.trans hclosea)
    obtain ⟨b', hb', hrest⟩ := ihRest (hboth.place hplace) (harest a₁ hbody a₂ hclose)
      (hbrest b₁ hbodyb b₂ hcloseb) h
    refine ⟨b', ?_, hboth.trans hrest⟩
    rw [prepaint, hopenb]
    simp only [Option.bind_eq_bind, Option.bind_some, hbodyb, hcloseb]
    exact hb'
  | withElementState id typeId update body rest ihBody ihRest =>
    intro a b a' hplace ha hb h
    obtain ⟨a₁, hbody, h⟩ := Option.bind_eq_some_iff.mp h
    have htake := both_takeElementState a b (id, typeId)
    obtain ⟨b₁, hbodyb, hadds⟩ := ihBody (htake.place hplace) ha.1 hb.1 hbody
    have hboth : Both a b
        (a₁.putElementState (id, typeId) (update (a.takeElementState (id, typeId)).1))
        (b₁.putElementState (id, typeId) (update (b.takeElementState (id, typeId)).1)) :=
      (htake.trans hadds).congr rfl rfl
    obtain ⟨b', hb', hrest⟩ := ihRest (hboth.place hplace) (ha.2 a₁ hbody) (hb.2 b₁ hbodyb) h
    refine ⟨b', ?_, hboth.trans hrest⟩
    rw [prepaint]
    simp only [Option.bind_eq_bind, Option.bind_some, hbodyb]
    exact hb'
  | cachedView id entity cacheKey render rest ihRender ihRest =>
    intro a b a' hplace ha hb h
    obtain ⟨a₀, hopen, hinside⟩ := openNode_inside a (some entity) none
    obtain ⟨b₀, hopenb, hinsideb⟩ := openNode_inside b (some entity) none
    obtain ⟨hnoneA, harenders, harest⟩ := ha a₀ hopen
    obtain ⟨hnoneB, hbrenders, hbrest⟩ := hb b₀ hopenb
    have hplace₀ : (core (a₀.enterView entity)).place = (core (b₀.enterView entity)).place := by
      refine place_enterView ?_ entity
      rw [hinside, hinsideb]
      exact place_inside hplace (some entity) none
    have htake := both_takeViewState (a₀.enterView entity) (b₀.enterView entity) id
    rw [prepaint_cachedView_renders hopen rfl hnoneA] at h
    rw [prepaint_cachedView_renders hopenb rfl hnoneB]
    generalize hA : (a₀.enterView entity).takeViewState id = takenA at *
    generalize hB : (b₀.enterView entity).takeViewState id = takenB at *
    obtain ⟨a₁, hrender, h⟩ := Option.bind_eq_some_iff.mp h
    obtain ⟨a₂, hclose, h⟩ := Option.bind_eq_some_iff.mp h
    have htaken : Both (a₀.enterView entity) (b₀.enterView entity) (takenA.2.setRefreshing true)
        (takenB.2.setRefreshing true) := htake.congr rfl rfl
    obtain ⟨b₁, hrenderb, hadds⟩ := ihRender (htaken.place hplace₀) harenders hbrenders hrender
    have hstored : Both (a₀.enterView entity) (b₀.enterView entity)
        ((a₁.setRefreshing takenA.2.refreshing).storeRange id takenA.2.next.prepaintIndex cacheKey)
        ((b₁.setRefreshing takenB.2.refreshing).storeRange id takenB.2.next.prepaintIndex cacheKey) :=
      (htaken.trans hadds).congr rfl rfl
    obtain ⟨a₂', b₂, hclosea, hcloseb, hboth⟩ := hstored.leaveView.node hplace hinside hinsideb
    obtain rfl := Option.some.inj (hclose.symm.trans hclosea)
    obtain ⟨b', hb', hrest⟩ := ihRest (hboth.place hplace) (harest a₁ hrender a₂ hclose)
      (hbrest b₁ hrenderb b₂ hcloseb) h
    refine ⟨b', ?_, hboth.trans hrest⟩
    rw [hrenderb, Option.bind_some, hcloseb]
    exact hb'

/-! ### After a failed attempt -/

theorem lookup_eraseAll {α β : Type} [DecidableEq α] {keys : List α} {m : AList fun _ : α => β} {k : α}
    (hk : k ∉ keys) : (keys.foldl (fun m key => m.erase key) m).lookup k = m.lookup k := by
  induction keys generalizing m with
  | nil => rfl
  | cons key keys ih =>
    rw [List.mem_cons, not_or] at hk
    rw [List.foldl_cons]
    exact (ih hk.2).trans (AList.lookup_erase_ne hk.1)

section Attempt

variable [DecidableEq K] {ops : Prepaints E K S} {w once failed : PrepaintWindow E K S L}

theorem attempt_eq (h : prepaint ops w = some once) :
    attempt ops w = once.truncate w.next.prepaintIndex := by
  rw [attempt, PrepaintWindow.transact, h]
  simp only [Option.map_some, Option.bind_eq_bind, Option.bind_some, Option.map_map]
  exact Option.map_id'

/-- What a failed attempt leaves: the vectors and the stacks of before, and maps without the
entries of the nodes that are dropped. -/
structure CutBack (w once failed : PrepaintWindow E K S L) (d : Additions E L) : Prop where
  place : (core failed).place = (core w).place
  hitboxes : (core failed).hitboxes = (core w).hitboxes
  tooltipRequests : (core failed).tooltipRequests = (core w).tooltipRequests
  deferredDraws : (core failed).deferredDraws = (core w).deferredDraws
  accessedElementStates : (core failed).accessedElementStates = (core w).accessedElementStates
  nodes : (core failed).nodes = (core w).nodes
  frameFocus : (core failed).frameFocus = (core once).frameFocus
  focusableNodeIds : ∀ id ∉ d.focusIds.map Prod.fst,
    (core failed).focusableNodeIds id = (core once).focusableNodeIds id
  viewNodeIds : ∀ id ∉ d.viewIds.map Prod.fst, (core failed).viewNodeIds id = (core once).viewNodeIds id

omit [DecidableEq K] in
theorem truncate_cutBack {d : Additions E L} (hd : d.Covered) (honce : core once = (core w).add d)
    (h : once.truncate w.next.prepaintIndex = some failed) : CutBack w once failed d := by
  have hhitboxes : once.next.hitboxes.map Hitbox.hitbox = w.next.hitboxes.map Hitbox.hitbox ++ d.hitboxes :=
    congrArg Core.hitboxes honce
  have htooltips : once.next.tooltipRequests.map (Option.map TooltipRequest.tooltip)
      = w.next.tooltipRequests.map (Option.map TooltipRequest.tooltip) ++ d.tooltipRequests :=
    congrArg Core.tooltipRequests honce
  have hdraws : once.next.deferredDraws = w.next.deferredDraws ++ d.deferredDraws :=
    congrArg Core.deferredDraws honce
  have haccessed : once.next.accessedElementStates = w.next.accessedElementStates ++ d.accessedElementStates :=
    congrArg Core.accessedElementStates honce
  have hnodes : once.next.dispatchTree.nodes = w.next.dispatchTree.nodes ++ d.nodes :=
    congrArg Core.nodes honce
  have hdropped : once.next.dispatchTree.nodes.drop w.next.dispatchTree.nodes.length = d.nodes := by
    rw [hnodes, List.drop_left]
  obtain ⟨tree, htree, rfl⟩ := Option.map_eq_some_iff.mp h
  rw [DispatchTree.truncate] at htree
  split at htree
  · obtain rfl := Option.some.inj htree
    have hkept : once.next.dispatchTree.nodes.take w.next.dispatchTree.nodes.length
        = w.next.dispatchTree.nodes := by rw [hnodes, List.take_left]
    refine ⟨?_, ?_, ?_, ?_, ?_, hkept, rfl, fun id hid => ?_, fun id hid => ?_⟩
    · have hstack := congrArg Core.nodeStack honce
      have hviews := congrArg Core.viewStack honce
      have hfocus := congrArg Core.focus honce
      have hrendered := congrArg Core.renderedEntityStack honce
      have hids := congrArg Core.elementIdStack honce
      have hstyles := congrArg Core.textStyleStack honce
      exact Place.mk.injEq .. |>.mpr ⟨congrArg List.length hkept, hstack, hviews, hfocus, hrendered, hids, hstyles⟩
    · show (once.next.hitboxes.take w.next.hitboxes.length).map Hitbox.hitbox = _
      rw [List.map_take, hhitboxes]
      exact List.take_left' (List.length_map _)
    · show (once.next.tooltipRequests.take w.next.tooltipRequests.length).map _ = _
      rw [List.map_take, htooltips]
      exact List.take_left' (List.length_map _)
    · show once.next.deferredDraws.take w.next.deferredDraws.length = _
      rw [hdraws]
      exact List.take_left
    · show once.next.accessedElementStates.take w.next.accessedElementStates.length = _
      rw [haccessed]
      exact List.take_left
    · refine lookup_eraseAll fun hmem => hid ?_
      obtain ⟨node, hnode, hfocus⟩ := List.mem_filterMap.mp hmem
      have hnode : node ∈ once.next.dispatchTree.nodes.drop w.next.dispatchTree.nodes.length := hnode
      rw [hdropped] at hnode
      exact hd.focusIds node hnode id hfocus
    · refine lookup_eraseAll fun hmem => hid ?_
      obtain ⟨node, hnode, hview⟩ := List.mem_filterMap.mp hmem
      have hnode : node ∈ once.next.dispatchTree.nodes.drop w.next.dispatchTree.nodes.length := hnode
      rw [hdropped] at hnode
      exact hd.viewIds node hnode id hview
  · cases htree

omit [DecidableEq K] in
theorem CutBack.sameFrame {d : Additions E L} {again : PrepaintWindow E K S L} (h : CutBack w once failed d)
    (honce : core once = (core w).add d) (hagain : core again = (core failed).add d) :
    SameFrame again.next once.next := by
  obtain ⟨-, -, -, hfocus, -⟩ := Place.mk.inj h.place
  have hfocusIds : ∀ id, (core again).focusableNodeIds id = (core once).focusableNodeIds id := by
    intro id
    rw [hagain, honce]
    refine writeAll_congr ?_
    by_cases hid : id ∈ d.focusIds.map Prod.fst
    · exact Or.inl hid
    · right
      rw [h.focusableNodeIds id hid, honce]
      exact writeAll_of_notMem hid
  have hviewIds : ∀ id, (core again).viewNodeIds id = (core once).viewNodeIds id := by
    intro id
    rw [hagain, honce]
    refine writeAll_congr ?_
    by_cases hid : id ∈ d.viewIds.map Prod.fst
    · exact Or.inl hid
    · right
      rw [h.viewNodeIds id hid, honce]
      exact writeAll_of_notMem hid
  have hframeFocus : (core again).frameFocus = (core once).frameFocus := by
    have honceFocus := congrArg Core.frameFocus honce
    rw [hagain]
    show (if d.focused then (core failed).focus else (core failed).frameFocus) = _
    rw [h.frameFocus, honceFocus, hfocus]
    show (if d.focused then (core w).focus else if d.focused then (core w).focus else (core w).frameFocus)
      = if d.focused then (core w).focus else (core w).frameFocus
    split <;> rfl
  refine ⟨?_, ?_, ?_, ?_, hfocusIds, hviewIds, hframeFocus, ?_⟩
  · show (core again).hitboxes = (core once).hitboxes
    rw [hagain, honce, Core.add, Core.add, h.hitboxes]
  · show (core again).tooltipRequests = (core once).tooltipRequests
    rw [hagain, honce, Core.add, Core.add, h.tooltipRequests]
  · show (core again).deferredDraws = (core once).deferredDraws
    rw [hagain, honce, Core.add, Core.add, h.deferredDraws]
  · show (core again).nodes = (core once).nodes
    rw [hagain, honce, Core.add, Core.add, h.nodes]
  · show (core again).accessedElementStates = (core once).accessedElementStates
    rw [hagain, honce, Core.add, Core.add, h.accessedElementStates]

end Attempt

/-- **A failed attempt leaves no trace** if no cached view is reused, in it or in the second
attempt. -/
theorem attempt_leavesNoTrace [DecidableEq K] (ops : Prepaints E K S) (w : PrepaintWindow E K S L)
    (hrenders : Renders ops w) (hagain : ∀ failed, attempt ops w = some failed → Renders ops failed) :
    LeavesNoTrace ops w := by
  intro once failed honce hfailed
  have hcut := hfailed
  rw [attempt_eq honce] at hcut
  obtain ⟨once', honce', d₀, hcovered₀, hadds₀, -⟩ := prepaint_both ops (b := w) rfl hrenders hrenders honce
  have hplace := (truncate_cutBack hcovered₀ hadds₀ hcut).place
  obtain ⟨again, hagain', d, hcovered, hadds, haddsAgain⟩ := prepaint_both ops hplace.symm hrenders
    (hagain failed hfailed) honce
  exact ⟨again, hagain', (truncate_cutBack hcovered hadds hcut).sameFrame hadds haddsAgain⟩

/-! ### Views that are rendered anyway -/

/-- A cached view is dirty unless it is inside another one, or everything is drawn anew. -/
def DrawsAnew (dirtyViews : Finset EntityId) : Bool → Prepaints E K S → Prop
  | _, .done => True
  | refreshing, .insertHitbox _ rest => DrawsAnew dirtyViews refreshing rest
  | refreshing, .setTooltip _ rest => DrawsAnew dirtyViews refreshing rest
  | refreshing, .deferDraw _ _ _ rest => DrawsAnew dirtyViews refreshing rest
  | refreshing, .node _ _ body rest =>
    DrawsAnew dirtyViews refreshing body ∧ DrawsAnew dirtyViews refreshing rest
  | refreshing, .withElementState _ _ _ body rest =>
    DrawsAnew dirtyViews refreshing body ∧ DrawsAnew dirtyViews refreshing rest
  | refreshing, .cachedView _ entity _ render rest => (refreshing = true ∨ entity ∈ dirtyViews) ∧
    DrawsAnew dirtyViews true render ∧ DrawsAnew dirtyViews refreshing rest

/-- What decides whether views are drawn anew. -/
def anew (w : PrepaintWindow E K S L) : Finset EntityId × Bool := (w.dirtyViews, w.refreshing)

section Anew

variable {w w' : PrepaintWindow E K S L}

theorem setTree_anew {tree : Option (DispatchTree L)} (h : tree.map w.setTree = some w') : anew w' = anew w := by
  obtain ⟨tree, -, rfl⟩ := Option.map_eq_some_iff.mp h
  rfl

theorem setFocusHandle_anew {focusId : FocusId} (h : w.setFocusHandle focusId = some w') : anew w' = anew w := by
  rw [PrepaintWindow.setFocusHandle] at h
  rw [setTree_anew h]
  split <;> rfl

theorem openNode_anew {viewId : Option EntityId} {focusId : Option FocusId}
    (h : w.openNode viewId focusId = some w') : anew w' = anew w := by
  obtain ⟨w₁, hview, hfocus⟩ := Option.bind_eq_some_iff.mp h
  have hviewed : anew w₁ = anew w := by
    cases viewId with
    | none =>
      obtain rfl := Option.some.inj hview
      rfl
    | some viewId => exact setTree_anew (w := w.setTree w.next.dispatchTree.pushNode.2) hview
  cases focusId with
  | none =>
    obtain rfl := Option.some.inj hfocus
    exact hviewed
  | some focusId => exact (setFocusHandle_anew hfocus).trans hviewed

theorem reusePrepaint_anew {range : IndexRange PrepaintStateIndex} (h : w.reusePrepaint range = some w') :
    anew w' = anew w := by
  obtain ⟨hitboxes, -, h⟩ := Option.bind_eq_some_iff.mp h
  obtain ⟨tooltips, -, h⟩ := Option.bind_eq_some_iff.mp h
  obtain ⟨accessed, -, h⟩ := Option.bind_eq_some_iff.mp h
  obtain ⟨⟨tree, source, reused⟩, -, h⟩ := Option.bind_eq_some_iff.mp h
  obtain ⟨draws, -, h⟩ := Option.bind_eq_some_iff.mp h
  obtain rfl := Option.some.inj h
  rfl

theorem prepaint_anew [DecidableEq K] (ops : Prepaints E K S) :
    ∀ {w w' : PrepaintWindow E K S L}, prepaint ops w = some w' → anew w' = anew w := by
  induction ops with
  | done =>
    intro w w' h
    obtain rfl := Option.some.inj h
    rfl
  | insertHitbox hitbox rest ih =>
    intro w w' h
    have hrest := ih (w := w.insertHitbox hitbox) h
    exact hrest
  | setTooltip tooltip rest ih =>
    intro w w' h
    have hrest := ih (w := w.setTooltip tooltip) h
    exact hrest
  | deferDraw element absoluteOffset priority rest ih =>
    intro w w' h
    obtain ⟨w₁, hdefer, h⟩ := Option.bind_eq_some_iff.mp h
    obtain ⟨parentNode, -, hdefer⟩ := Option.bind_eq_some_iff.mp hdefer
    obtain ⟨currentView, -, hdefer⟩ := Option.bind_eq_some_iff.mp hdefer
    obtain rfl := Option.some.inj hdefer
    exact (ih h).trans rfl
  | node viewId focusId body rest ihBody ihRest =>
    intro w w' h
    obtain ⟨w₀, hopen, h⟩ := Option.bind_eq_some_iff.mp h
    obtain ⟨w₁, hbody, h⟩ := Option.bind_eq_some_iff.mp h
    obtain ⟨w₂, hclose, h⟩ := Option.bind_eq_some_iff.mp h
    exact (ihRest h).trans ((setTree_anew hclose).trans ((ihBody hbody).trans (openNode_anew hopen)))
  | withElementState id typeId update body rest ihBody ihRest =>
    intro w w' h
    obtain ⟨w₁, hbody, h⟩ := Option.bind_eq_some_iff.mp h
    have hbefore := ihBody hbody
    exact (ihRest h).trans hbefore
  | cachedView id entity cacheKey render rest ihRender ihRest =>
    intro w w' h
    obtain ⟨w₀, hopen, -⟩ := openNode_inside w (some entity) none
    have hopened := openNode_anew hopen
    rw [prepaint_cachedView hopen rfl] at h
    obtain ⟨w₁, hcontent, h⟩ := Option.bind_eq_some_iff.mp h
    obtain ⟨w₂, hclose, h⟩ := Option.bind_eq_some_iff.mp h
    refine (ihRest h).trans ((setTree_anew hclose).trans (Eq.trans ?_ hopened))
    show anew w₁ = anew w₀
    cases hfound : ((w₀.enterView entity).takeViewState id).1.filter
        (((w₀.enterView entity).takeViewState id).2.reuses entity cacheKey) with
    | some state =>
      rw [hfound] at hcontent
      have hreused := reusePrepaint_anew hcontent
      exact hreused
    | none =>
      rw [hfound] at hcontent
      obtain ⟨w₃, hrender, rfl⟩ := Option.map_eq_some_iff.mp hcontent
      have hrendered := congrArg Prod.fst (ihRender hrender)
      exact Prod.ext hrendered rfl

theorem reuses_of_anew [DecidableEq K] {entity : EntityId} {cacheKey : K}
    (h : w.refreshing = true ∨ entity ∈ w.dirtyViews) (found : Option (ViewState K)) :
    found.filter (w.reuses entity cacheKey) = none := by
  cases found with
  | none => rfl
  | some state =>
    rcases h with h | h
    · simp [PrepaintWindow.reuses, h]
    · simp [PrepaintWindow.reuses, h]

end Anew

/-- **Nothing is reused** where every cached view is rendered anyway. -/
theorem renders_of_drawsAnew [DecidableEq K] (ops : Prepaints E K S) : ∀ (w : PrepaintWindow E K S L),
    DrawsAnew w.dirtyViews w.refreshing ops → Renders ops w := by
  induction ops with
  | done => exact fun _ _ => trivial
  | insertHitbox hitbox rest ih => exact fun w h => ih _ h
  | setTooltip tooltip rest ih => exact fun w h => ih _ h
  | deferDraw element absoluteOffset priority rest ih =>
    intro w h w' hdefer
    obtain ⟨parentNode, -, hdefer⟩ := Option.bind_eq_some_iff.mp hdefer
    obtain ⟨currentView, -, hdefer⟩ := Option.bind_eq_some_iff.mp hdefer
    obtain rfl := Option.some.inj hdefer
    exact ih _ h
  | node viewId focusId body rest ihBody ihRest =>
    intro w h w₀ hopen
    obtain ⟨hdirty, hrefreshing⟩ := Prod.mk.inj (openNode_anew hopen)
    refine ⟨ihBody w₀ ?_, fun w₁ hbody w₂ hclose => ihRest w₂ ?_⟩
    · rw [hdirty, hrefreshing]
      exact h.1
    · obtain ⟨hdirty', hrefreshing'⟩ := Prod.mk.inj ((setTree_anew hclose).trans (prepaint_anew body hbody))
      rw [hdirty', hrefreshing', hdirty, hrefreshing]
      exact h.2
  | withElementState id typeId update body rest ihBody ihRest =>
    intro w h
    refine ⟨ihBody _ h.1, fun w₁ hbody => ihRest _ ?_⟩
    obtain ⟨hdirty, hrefreshing⟩ := Prod.mk.inj (prepaint_anew body hbody)
    show DrawsAnew w₁.dirtyViews w₁.refreshing rest
    rw [hdirty, hrefreshing]
    exact h.2
  | cachedView id entity cacheKey render rest ihRender ihRest =>
    intro w h w₀ hopen
    obtain ⟨hdirty, hrefreshing⟩ := Prod.mk.inj (openNode_anew hopen)
    obtain ⟨hanew, hrender, hrest⟩ := h
    rw [← hdirty] at hanew hrender hrest
    rw [← hrefreshing] at hanew hrest
    refine ⟨reuses_of_anew hanew _, ihRender _ hrender, fun w₁ hcontent w₂ hclose => ihRest w₂ ?_⟩
    obtain ⟨hdirty', hrefreshing'⟩ := Prod.mk.inj (setTree_anew hclose)
    have hcontent' := congrArg Prod.fst (prepaint_anew render hcontent)
    rw [hdirty', hrefreshing']
    show DrawsAnew w₁.dirtyViews w₀.refreshing rest
    rw [show w₁.dirtyViews = w₀.dirtyViews from hcontent']
    exact hrest

theorem renders_after_attempt [DecidableEq K] {ops : Prepaints E K S} {w failed : PrepaintWindow E K S L}
    (h : DrawsAnew w.dirtyViews w.refreshing ops) (hfailed : attempt ops w = some failed) : Renders ops failed := by
  have hanew : anew failed = anew w := by
    cases honce : prepaint ops w with
    | none =>
      rw [attempt, PrepaintWindow.transact, honce] at hfailed
      cases hfailed
    | some once =>
      rw [attempt_eq honce] at hfailed
      obtain ⟨tree, -, rfl⟩ := Option.map_eq_some_iff.mp hfailed
      have honce := prepaint_anew ops honce
      exact honce
  obtain ⟨hdirty, hrefreshing⟩ := Prod.mk.inj hanew
  refine renders_of_drawsAnew ops failed ?_
  rw [hdirty, hrefreshing]
  exact h

/-- A window that begins a frame after another one, in the node of its root view. -/
def beginFrame (rendered : PrepaintFrame Nat Nat Nat Nat) (dirtyViews : Finset EntityId) :
    PrepaintWindow Nat Nat Nat Nat :=
  ⟨rendered, ⟨none, fun _ => none, fun _ => none, [], (DispatchTree.new : DispatchTree Nat).pushNode.2, [], [], []⟩,
    some 5, dirtyViews, false, [0], [], [], 0, 0⟩

def emptyFrame : PrepaintFrame Nat Nat Nat Nat :=
  ⟨none, fun _ => none, fun _ => none, [], .new, [], [], []⟩

/-- A cached view with a tooltip. -/
def tooltipView : Prepaints Nat Nat Nat := .cachedView [.view 1] 1 0 (.setTooltip 7 .done) .done

/-- The same view, dirty, next to an element with the focus and a state. -/
theorem attempt_leavesNoTrace_dirty :
    LeavesNoTrace (.node none (some 5) (.withElementState [.name 2] 3 (fun state => state.getD 0 + 1)
        (.insertHitbox 4 (.deferDraw 6 0 1 .done)) .done) tooltipView) (beginFrame emptyFrame {1}) := by
  have hanew : DrawsAnew (K := Nat) {1} false (.node none (some 5) (.withElementState [.name 2] 3
      (fun state => state.getD 0 + 1) (.insertHitbox 4 (.deferDraw 6 0 1 .done)) .done) tooltipView) :=
    ⟨⟨trivial, trivial⟩, Or.inr (Finset.mem_singleton_self 1), trivial, trivial⟩
  exact attempt_leavesNoTrace _ _ (renders_of_drawsAnew _ _ hanew) fun failed hfailed =>
    renders_after_attempt hanew hfailed

/-- The view is not dirty in the second frame.  The failed attempt takes the tooltip. -/
theorem not_leavesNoTrace : ¬ ∀ (first ops : Prepaints Nat Nat Nat) (drawn : PrepaintWindow Nat Nat Nat Nat),
    prepaint first (beginFrame emptyFrame ∅) = some drawn → LeavesNoTrace ops (beginFrame drawn.next ∅) := by
  intro h
  obtain ⟨drawn, hdrawn⟩ := Option.isSome_iff_exists.mp
    (show (prepaint tooltipView (beginFrame emptyFrame ∅)).isSome = true by decide +kernel)
  have honce : (prepaint tooltipView (beginFrame emptyFrame ∅)).bind (fun drawn =>
      (prepaint tooltipView (beginFrame drawn.next ∅)).map fun once =>
        once.next.tooltipRequests.map (Option.map TooltipRequest.tooltip)) = some [some 7] := by decide +kernel
  have hagain : (prepaint tooltipView (beginFrame emptyFrame ∅)).bind (fun drawn =>
      (attempt tooltipView (beginFrame drawn.next ∅)).bind fun failed => (prepaint tooltipView failed).map fun again =>
        again.next.tooltipRequests.map (Option.map TooltipRequest.tooltip)) = some [none] := by decide +kernel
  rw [hdrawn, Option.bind_some] at honce hagain
  obtain ⟨once, honce, htooltip⟩ := Option.map_eq_some_iff.mp honce
  obtain ⟨failed, hfailed, hagain⟩ := Option.bind_eq_some_iff.mp hagain
  obtain ⟨again, hagain, hlost⟩ := Option.map_eq_some_iff.mp hagain
  obtain ⟨again', hagain', hsame⟩ := h tooltipView tooltipView drawn hdrawn once failed honce hfailed
  obtain rfl := Option.some.inj (hagain.symm.trans hagain')
  have htooltips := hsame.tooltipRequests
  rw [hlost, htooltip] at htooltips
  exact absurd htooltips (by decide)

end FcGpui.Transact
