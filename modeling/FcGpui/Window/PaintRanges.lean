import FcGpui.Window.PrepaintRounds

/-!
# The ranges of a paint

`paint_spec`: an element whose cached views all have a state, those that are reused
one with a paint range that the last draw recorded, is painted without a panic.
`Paints` says what is different afterwards: the views painted have stored the range
just recorded, and nothing else of their state or of the others' has changed.
-/

namespace FcGpui

section PaintRanges

variable {E K : Type}

/-- The cached views that are painted with an element. -/
def Prepainted.painted (p : Prepainted E) (id : GlobalElementId) : List Visit :=
  (p.visits id true).filter Visit.shown

theorem Prepainted.filter_shown_hidden (p : Prepainted E) (id : GlobalElementId) :
    (p.visits id false).filter Visit.shown = [] := by
  induction p generalizing id with
  | empty => rfl
  | append first rest ihFirst ihRest =>
    rw [Prepainted.visits, List.filter_append, ihFirst, ihRest]
    rfl
  | leaf _ => rfl
  | withId name child ih => exact ih _
  | hidden child ih => exact ih _
  | view entity child ih => exact ih _
  | rendered entity child ih => exact ih _
  | reused entity => rfl
  | deferred => rfl

/-- A stored state that at most got another paint range. -/
def Repainted (state state' : Option (AnyViewState K)) : Prop :=
  ∃ range, state' = state.map fun st => { st with paintRange := range }

theorem Repainted.refl (state : Option (AnyViewState K)) : Repainted state state := by
  cases state with
  | none => exact ⟨⟨{}, {}⟩, rfl⟩
  | some st => exact ⟨st.paintRange, rfl⟩

theorem Repainted.trans {state₁ state₂ state₃ : Option (AnyViewState K)}
    (h₁ : Repainted state₁ state₂) (h₂ : Repainted state₂ state₃) : Repainted state₁ state₃ := by
  obtain ⟨range₁, rfl⟩ := h₁
  obtain ⟨range₂, rfl⟩ := h₂
  refine ⟨range₂, ?_⟩
  rw [Option.map_map]
  rfl

namespace Window

variable {s b : Window E K}

/-- The views to be painted have states, each its own, and the ranges to be copied
are fresh. -/
structure Paintable (s : Window E K) (touched : List GlobalElementId) (visits : List Visit)
    (w : Window E K) : Prop where
  touched : ∀ v ∈ visits, v.id ∈ touched
  nodup : (visits.map Visit.id).Nodup
  ready : ∀ v ∈ visits, ∃ st, w.next.elementStates.lookup v.id = some st ∧
    (v.reused = true → s.FreshPaint ⟨.view v.id, st.paintRange⟩)

/-- From `w` to `w'` the views of `visits` were painted. -/
structure Paints (s b : Window E K) (touched : List GlobalElementId) (visits : List Visit)
    (w w' : Window E K) : Prop where
  drawing : Drawing s b touched w'
  grows : w.next.Grows w'.next
  deferredDraws : w'.next.deferredDraws = w.next.deferredDraws
  dispatchTree : w'.next.dispatchTree = w.next.dispatchTree
  accessedEntities : w'.accessedEntities = w.accessedEntities
  prepaintLog : w'.log.prepaintRecords = w.log.prepaintRecords
  paintLog : w.log.paintRecords ⊆ w'.log.paintRecords
  painted : ∀ r ∈ w'.log.paintRecords, r ∈ w.log.paintRecords ∨
    ∃ v ∈ visits, r.drawer = .view v.id
  states : ∀ v ∈ visits, ∃ st, w'.next.elementStates.lookup v.id = some st ∧
    ∃ r ∈ w'.log.paintRecords, r.drawer = .view v.id ∧ r.range = st.paintRange
  kept : ∀ id, Repainted (w.next.elementStates.lookup id) (w'.next.elementStates.lookup id)
  frame : ∀ id, id ∉ visits.map Visit.id →
    w'.next.elementStates.lookup id = w.next.elementStates.lookup id

variable {touched : List GlobalElementId} {w : Window E K} {rest : List Visit}

theorem Paintable.mono {visits : List Visit} {w' : Window E K} (h : Paintable s touched visits w)
    (hframe : ∀ v ∈ visits, w'.next.elementStates.lookup v.id = w.next.elementStates.lookup v.id) :
    Paintable s touched visits w' :=
  { h with
    ready := fun v hv => by
      rw [hframe v hv]
      exact h.ready v hv }

theorem Paintable.left {first : List Visit}
    (h : Paintable s touched (first ++ rest) w) : Paintable s touched first w where
  touched v hv := h.touched v (List.mem_append_left _ hv)
  nodup := by
    have hn := h.nodup
    rw [List.map_append] at hn
    exact hn.of_append_left
  ready v hv := h.ready v (List.mem_append_left _ hv)

theorem Paintable.right {first : List Visit}
    (h : Paintable s touched (first ++ rest) w) : Paintable s touched rest w where
  touched v hv := h.touched v (List.mem_append_right _ hv)
  nodup := by
    have hn := h.nodup
    rw [List.map_append] at hn
    exact hn.of_append_right
  ready v hv := h.ready v (List.mem_append_right _ hv)

theorem Paintable.disjoint {first : List Visit}
    (h : Paintable s touched (first ++ rest) w) {v : Visit} (hv : v ∈ rest) : v.id ∉ first.map Visit.id := by
  have hn := h.nodup
  rw [List.map_append, List.nodup_append] at hn
  exact fun hmem => hn.2.2 v.id hmem v.id (List.mem_map_of_mem hv) rfl

theorem Paints.of_grow {f : Frame E K} (h : Drawing s b touched w) (hg : w.next.Grows f)
    (hstates : f.elementStates = w.next.elementStates) (hdraws : f.deferredDraws = w.next.deferredDraws)
    (hnodes : f.dispatchTree = w.next.dispatchTree) :
    Paints s b touched [] w { w with next := f } where
  drawing := h.grow hg hstates
  grows := hg
  deferredDraws := hdraws
  dispatchTree := hnodes
  accessedEntities := rfl
  prepaintLog := rfl
  paintLog := List.Subset.refl _
  painted _ hr := .inl hr
  states _ hv := absurd hv List.not_mem_nil
  kept _ := by
    rw [hstates]
    exact Repainted.refl _
  frame _ _ := by rw [hstates]

theorem Paints.append {visits₁ visits₂ : List Visit}
    {w₁ w₂ w₃ : Window E K} (h₁ : Paints s b touched visits₁ w₁ w₂) (h₂ : Paints s b touched visits₂ w₂ w₃)
    (hdisjoint : ∀ v ∈ visits₁, v.id ∉ visits₂.map Visit.id) :
    Paints s b touched (visits₁ ++ visits₂) w₁ w₃ where
  drawing := h₂.drawing
  grows := h₁.grows.trans h₂.grows
  deferredDraws := h₂.deferredDraws.trans h₁.deferredDraws
  dispatchTree := h₂.dispatchTree.trans h₁.dispatchTree
  accessedEntities := h₂.accessedEntities.trans h₁.accessedEntities
  prepaintLog := h₂.prepaintLog.trans h₁.prepaintLog
  paintLog := List.Subset.trans h₁.paintLog h₂.paintLog
  painted r hr := by
    rcases h₂.painted r hr with hr | ⟨v, hv, hd⟩
    · rcases h₁.painted r hr with hr | ⟨v, hv, hd⟩
      · exact .inl hr
      · exact .inr ⟨v, List.mem_append_left _ hv, hd⟩
    · exact .inr ⟨v, List.mem_append_right _ hv, hd⟩
  states v hv := by
    rcases List.mem_append.mp hv with hv | hv
    · obtain ⟨st, hst, r, hr, hrecord⟩ := h₁.states v hv
      exact ⟨st, (h₂.frame v.id (hdisjoint v hv)).trans hst, r, h₂.paintLog hr, hrecord⟩
    · exact h₂.states v hv
  kept id := (h₁.kept id).trans (h₂.kept id)
  frame id hid := by
    rw [List.map_append, List.mem_append, not_or] at hid
    rw [h₂.frame id hid.2, h₁.frame id hid.1]

/-! ### One element -/

theorem paintOps_kept (id : GlobalElementId) (ops : List (PaintOp E)) (f : Frame E K) :
    (ops.foldl (Frame.paintOp id) f).elementStates = f.elementStates ∧
      (ops.foldl (Frame.paintOp id) f).deferredDraws = f.deferredDraws ∧
      (ops.foldl (Frame.paintOp id) f).dispatchTree = f.dispatchTree := by
  induction ops generalizing f with
  | nil => exact ⟨rfl, rfl, rfl⟩
  | cons op ops ih =>
    have hop := ih (f.paintOp id op)
    cases op with
    | insertPrimitive _ => exact hop
    | setCursorStyle _ => exact hop
    | handleInput focused _ => cases focused with
      | false => exact hop
      | true => exact hop
    | onMouseEvent _ => exact hop
    | insertWindowControlHitbox _ => exact hop
    | tabStop _ => exact hop
    | withElementState _ => exact hop
    | layoutLine _ => exact hop

theorem Paints.of_reuse (hb : Begins s b)
    (h : Drawing s b touched w) {drawer : Drawer} {range : IndexRange PaintIndex}
    (hfresh : s.FreshPaint ⟨drawer, range⟩) :
    ∃ w', w.reusePaint drawer range = .ok w' ∧ Paints s b touched [] w w' := by
  have hfresh' := hfresh
  obtain ⟨r, hr, hrange, -, hselects⟩ := hfresh'
  have hselects := hrange ▸ hselects.mono hb.grows
  obtain ⟨w', hok, hdrawing, hg, hstates, hdraws, hnodes, haccessed, hlog, hpaintLog⟩ :=
    h.reusePaint hfresh hselects
  refine ⟨w', hok, ?_⟩
  exact {
    drawing := hdrawing
    grows := hg
    deferredDraws := hdraws
    dispatchTree := hnodes
    accessedEntities := haccessed
    prepaintLog := hlog
    paintLog := hpaintLog ▸ List.Subset.refl _
    painted := fun r hr => .inl (hpaintLog ▸ hr)
    states := fun _ hv => absurd hv List.not_mem_nil
    kept := fun _ => by
      rw [hstates]
      exact Repainted.refl _
    frame := fun _ _ => by rw [hstates] }

/-- A cached view is painted: its state was taken, its content was painted to `w₁`, and
its state is stored with the range of that. -/
theorem Paints.store {visits : List Visit} {w₁ : Window E K}
    (v : Visit) {st : AnyViewState K} (hv : v.id ∈ touched) (hst : w.next.elementStates.lookup v.id = some st)
    (h : Paints s b touched visits (w.accessState v.id) w₁) (hnew : v.id ∉ visits.map Visit.id) :
    Paints s b touched (v :: visits) w
      ((w₁.recordPaint (.view v.id) (w.accessState v.id).next.paintIndex).2.insertState v.id
        { st with
          paintRange := (w₁.recordPaint (.view v.id)
            (w.accessState v.id).next.paintIndex).1 }) := by
  have hframe : ∀ i, i ≠ v.id → ∀ st' : AnyViewState K,
      AList.lookup i (w₁.next.elementStates.insert v.id st') = w₁.next.elementStates.lookup i :=
    fun i hi st' => AList.lookup_insert_ne hi
  have herase : ∀ i, i ≠ v.id →
      (w.accessState v.id).next.elementStates.lookup i = w.next.elementStates.lookup i :=
    fun i hi => AList.lookup_erase_ne hi
  have hstart : w.next.Grows (w.accessState v.id).next :=
    { w.next.grows_access v.id .anyViewState with }
  have hrecord : Drawing s b touched
      (w₁.recordPaint (.view v.id) (w.accessState v.id).next.paintIndex).2 :=
    h.drawing.recordPaint h.grows
  refine ⟨hrecord.insertState hv _, { hstart.trans h.grows with }, h.deferredDraws, h.dispatchTree,
    h.accessedEntities, h.prepaintLog, fun r hr => ?_, fun r hr => ?_, fun u hu => ?_,
    fun i => ?_, fun i hi => ?_⟩
  · exact List.mem_append_left _ (h.paintLog hr)
  · rcases List.mem_append.mp hr with hr | hr
    · rcases h.painted r hr with hr | ⟨u, hu, hd⟩
      · exact .inl hr
      · exact .inr ⟨u, List.mem_cons_of_mem _ hu, hd⟩
    · rw [List.mem_singleton.mp hr]
      exact .inr ⟨v, List.mem_cons_self, rfl⟩
  · rcases List.mem_cons.mp hu with rfl | hu
    · exact ⟨_, AList.lookup_insert _, _, List.mem_append_right _ (List.mem_singleton_self _),
        rfl, rfl⟩
    · obtain ⟨st', hst', r, hr, hrecord⟩ := h.states u hu
      have hne : u.id ≠ v.id := fun heq => hnew (heq ▸ List.mem_map_of_mem hu)
      exact ⟨st', (hframe u.id hne _).trans hst', r, List.mem_append_left _ hr, hrecord⟩
  · by_cases heq : i = v.id
    · rw [heq, hst]
      exact ⟨_, AList.lookup_insert _⟩
    · have hkept := h.kept i
      rw [herase i heq, ← hframe i heq] at hkept
      exact hkept
  · rw [List.map_cons, List.mem_cons, not_or] at hi
    exact ((hframe i hi.1 _).trans (h.frame i hi.2)).trans (herase i hi.1)

theorem stateOf_next {id : GlobalElementId} {st : AnyViewState K}
    (hst : w.next.elementStates.lookup id = some st) : w.stateOf id = some st := by
  rw [stateOf, hst]
  rfl

/-- Taking the state of a view that was come by before. -/
theorem Drawing.accessAgain
    (h : Drawing s b touched w) {id : GlobalElementId} (hid : id ∈ touched) :
    Drawing s b touched (w.accessState id) := by
  refine (h.accessState id).congr fun i => ⟨fun hi => List.mem_append_left _ hi, fun hi => ?_⟩
  rcases List.mem_append.mp hi with hi | hi
  · exact hi
  · rw [List.mem_singleton.mp hi]
    exact hid

/-- An element whose views can be painted is painted without a panic. -/
theorem paint_spec (hb : Begins s b) (p : Prepainted E) :
    ∀ (id : GlobalElementId) (w : Window E K),
      Drawing s b touched w → Paintable s touched (p.painted id) w →
      ∃ w', paint p id w = .ok w' ∧ Paints s b touched (p.painted id) w w' := by
  induction p with
  | empty =>
    intro id w h _
    exact ⟨w, rfl, Paints.of_grow h (Frame.Grows.refl _) rfl rfl rfl⟩
  | append first rest ihFirst ihRest =>
    intro id w h hp
    have hsplit : (Prepainted.append first rest).painted id = first.painted id ++ rest.painted id :=
      List.filter_append _ _
    rw [hsplit] at hp ⊢
    obtain ⟨w₁, hok₁, h₁⟩ := ihFirst id w h hp.left
    have hrest := hp.right.mono fun v hv => h₁.frame v.id (hp.disjoint hv)
    obtain ⟨w₂, hok₂, h₂⟩ := ihRest id w₁ h₁.drawing hrest
    refine ⟨w₂, ?_, h₁.append h₂ fun v hv hmem => ?_⟩
    · unfold paint
      rw [bind_of_ok hok₁]
      exact hok₂
    · obtain ⟨u, hu, heq⟩ := List.mem_map.mp hmem
      exact hp.disjoint hu (heq ▸ List.mem_map_of_mem hv)
  | leaf paintOps =>
    intro id w h _
    have hkept := paintOps_kept id paintOps w.next
    exact ⟨_, rfl, Paints.of_grow h (Frame.grows_paintOps id paintOps _) hkept.1 hkept.2.1
      hkept.2.2⟩
  | withId name child ih =>
    intro id w h hp
    exact ih (id ++ [name]) w h hp
  | hidden child _ =>
    intro id w h _
    have hnone : (Prepainted.hidden child).painted id = [] := child.filter_shown_hidden id
    rw [hnone]
    exact ⟨w, rfl, Paints.of_grow h (Frame.Grows.refl _) rfl rfl rfl⟩
  | view entity child ih =>
    intro id w h hp
    exact ih (id ++ [ElementId.view entity]) w h hp
  | rendered entity child ih =>
    intro id w h hp
    have hsplit : (Prepainted.rendered entity child).painted id
        = [⟨id ++ [.view entity], false, true⟩] ++
          child.painted (id ++ [.view entity]) := rfl
    rw [hsplit] at hp ⊢
    obtain ⟨st, hst, -⟩ := hp.ready _ List.mem_cons_self
    have htouched := hp.touched _ List.mem_cons_self
    have hne : ∀ v ∈ child.painted (id ++ [.view entity]), v.id ≠ id ++ [.view entity] :=
      fun v hv heq => hp.disjoint hv (heq ▸ List.mem_cons_self)
    obtain ⟨w₁, hok, h₁⟩ := ih (id ++ [ElementId.view entity])
      (w.accessState (id ++ [.view entity])) (h.accessAgain htouched)
      (hp.right.mono fun v hv => AList.lookup_erase_ne (hne v hv))
    have hnew : id ++ [.view entity] ∉
        (child.painted (id ++ [.view entity])).map Visit.id := by
      intro hmem
      obtain ⟨u, hu, heq⟩ := List.mem_map.mp hmem
      exact hne u hu heq
    refine ⟨_, ?_, Paints.store ⟨id ++ [.view entity], false, true⟩ htouched hst h₁ hnew⟩
    have hstate : w.stateOf (id ++ [.view entity]) = some st := stateOf_next hst
    unfold paint
    dsimp only
    rw [hstate]
    exact bind_of_ok hok _
  | reused entity =>
    intro id w h hp
    have hsplit : (Prepainted.reused entity : Prepainted E).painted id
        = [⟨id ++ [.view entity], true, true⟩] := rfl
    rw [hsplit] at hp ⊢
    obtain ⟨st, hst, hfresh⟩ := hp.ready _ List.mem_cons_self
    have htouched := hp.touched _ List.mem_cons_self
    obtain ⟨w₁, hok, h₁⟩ := Paints.of_reuse hb (h.accessAgain htouched) (hfresh rfl)
    refine ⟨_, ?_, Paints.store ⟨id ++ [.view entity], true, true⟩ htouched hst h₁
      List.not_mem_nil⟩
    have hstate : w.stateOf (id ++ [.view entity]) = some st := stateOf_next hst
    unfold paint
    dsimp only
    rw [hstate]
    exact bind_of_ok hok _
  | deferred =>
    intro id w h _
    exact ⟨w, rfl, Paints.of_grow h (Frame.Grows.refl _) rfl rfl rfl⟩

end Window

end PaintRanges

end FcGpui
