import FcGpui.Window.PaintRanges

/-!
# Painting the deferred draws

`paintDeferredDraws_spec`: the deferred draws are painted, by priority and all in one
go, without a panic.  `PaintRounds` is what holds from one to the next: the
positions done and to do, that the views of those to do can still be painted, and
that what was painted has stored the range of it.  `paintStored` needs that no view
is painted twice (`once`), which comes from the ids of the visits being distinct.
-/

namespace FcGpui

section PaintRounds

variable {E K : Type}

namespace Window

variable {s b : Window E K} [DecidableEq K]

/-- The view has stored the range of its last prepaint in this draw. -/
def PrepaintStored (w : Window E K) (id : GlobalElementId) : Prop :=
  ∃ st, w.next.elementStates.lookup id = some st ∧
    ∃ r ∈ w.log.prepaintRecords, r.drawer = .view id ∧ r.range = st.prepaintRange

/-- The view has stored the range of its last paint in this draw. -/
def PaintStored (w : Window E K) (id : GlobalElementId) : Prop :=
  ∃ st, w.next.elementStates.lookup id = some st ∧
    ∃ r ∈ w.log.paintRecords, r.drawer = .view id ∧ r.range = st.paintRange

/-- What painting keeps of the window `w₀`. -/
structure PaintKeeps (w₀ w : Window E K) : Prop where
  dispatchTree : w.next.dispatchTree = w₀.next.dispatchTree
  accessedEntities : w.accessedEntities = w₀.accessedEntities
  states : ∀ id, Repainted (w₀.next.elementStates.lookup id) (w.next.elementStates.lookup id)
  ranges : w.next.deferredDraws.map DeferredDraw.prepaintRange
    = w₀.next.deferredDraws.map DeferredDraw.prepaintRange

/-- Between two deferred draws that are painted, after the prepaint ended with `w₀`. -/
structure PaintRounds (s b w₀ : Window E K) (touched : List GlobalElementId) (done todo : List Nat)
    (w : Window E K) : Prop where
  drawing : Drawing s b touched w
  keeps : PaintKeeps w₀ w
  order : (done ++ todo).Perm (List.range w.next.deferredDraws.length)
  paintable : Paintable s touched ((todo.flatMap (visitsAt b w)).filter Visit.shown) w
  waiting : ∀ ix ∈ todo, ∀ d, w.next.deferredDraws[ix]? = some d → d.Paintable b
  prepainted : ∀ ix d, w.next.deferredDraws[ix]? = some d → ∃ r ∈ w.log.prepaintRecords,
    r.drawer = .deferred ix d.priority d.elementIdStack ∧ r.range = d.prepaintRange
  painted : ∀ ix ∈ done, ∀ d, w.next.deferredDraws[ix]? = some d → ∃ r ∈ w.log.paintRecords,
    r.drawer = .deferred ix d.priority d.elementIdStack ∧ r.range = d.paintRange
  prepaintStored : ∀ id ∈ touched, w.PrepaintStored id
  paintStored : ∀ r ∈ w.log.paintRecords, ∀ id, r.drawer = .view id → w.PaintStored id
  once : ∀ r ∈ w.log.paintRecords, ∀ id, r.drawer = .view id →
    id ∉ ((todo.flatMap (visitsAt b w)).filter Visit.shown).map Visit.id

variable {touched : List GlobalElementId} {w w' : Window E K}

omit [DecidableEq K] in
theorem Paints.keeps {visits : List Visit} (h : Paints s b touched visits w w') : PaintKeeps w w' :=
  ⟨h.dispatchTree, h.accessedEntities, h.kept, by rw [h.deferredDraws]⟩

omit [DecidableEq K] in
theorem PaintKeeps.trans {w₀ w₁ w₂ : Window E K} (h₁ : PaintKeeps w₀ w₁) (h₂ : PaintKeeps w₁ w₂) :
    PaintKeeps w₀ w₂ where
  dispatchTree := h₂.dispatchTree.trans h₁.dispatchTree
  accessedEntities := h₂.accessedEntities.trans h₁.accessedEntities
  states id := (h₁.states id).trans (h₂.states id)
  ranges := h₂.ranges.trans h₁.ranges

omit [DecidableEq K] in
theorem Paints.prepaintStored {visits : List Visit} (h : Paints s b touched visits w w') {id : GlobalElementId}
    (hid : w.PrepaintStored id) : w'.PrepaintStored id := by
  obtain ⟨st, hst, r, hr, hrecord⟩ := hid
  obtain ⟨range, hst'⟩ := h.kept id
  rw [hst] at hst'
  exact ⟨_, hst', r, h.prepaintLog ▸ hr, hrecord⟩

omit [DecidableEq K] in
theorem Paints.paintStored {visits : List Visit} (h : Paints s b touched visits w w')
    (hstored : ∀ r ∈ w.log.paintRecords, ∀ id, r.drawer = .view id → w.PaintStored id)
    (honce : ∀ r ∈ w.log.paintRecords, ∀ id, r.drawer = .view id → id ∉ visits.map Visit.id) :
    ∀ r ∈ w'.log.paintRecords, ∀ id, r.drawer = .view id → w'.PaintStored id := by
  intro r hr id hd
  rcases h.painted r hr with hr | ⟨v, hv, hdrawer⟩
  · obtain ⟨st, hst, r', hr', hrecord⟩ := hstored r hr id hd
    exact ⟨st, (h.frame id (honce r hr id hd)).trans hst, r', h.paintLog hr', hrecord⟩
  · rw [hdrawer] at hd
    cases hd
    exact h.states v hv

/-- The draw at `ix` was painted from `w` to `w₁`, and is put back at its place with the range of that. -/
def storePainted (w w₁ : Window E K) (ix : Nat) (d : DeferredDraw E K) : Window E K :=
  (w₁.recordPaint (.deferred ix d.priority d.elementIdStack) w.next.paintIndex).2.setDeferredDraw ix
    { d with paintRange := ⟨w.next.paintIndex, w₁.next.paintIndex⟩ }

section

variable {touched : List GlobalElementId} {visits : List Visit} {done todo : List Nat} {ix : Nat} {w₀ w w₁ : Window E K}
  {d : DeferredDraw E K}

omit [DecidableEq K] in
theorem Paints.draws_store (hp : Paints s b touched visits w w₁) :
    (w.storePainted w₁ ix d).next.deferredDraws = w.next.deferredDraws.set ix
      { d with paintRange := ⟨w.next.paintIndex, w₁.next.paintIndex⟩ } := by
  rw [← hp.deferredDraws]
  rfl

theorem Paints.visits_store (hp : Paints s b touched visits w w₁) (hd : w.next.deferredDraws[ix]? = some d) :
    visitsAt b (w.storePainted w₁ ix d) = visitsAt b w := by
  rw [visitsAt, hp.draws_store]
  exact itemsAt_set_same hd rfl

omit [DecidableEq K] in
theorem mem_paintRecords_store {r : Record PaintIndex (PaintSlice E)} : r ∈ (w.storePainted w₁ ix d).log.paintRecords ↔
    r ∈ w₁.log.paintRecords ∨ r = ⟨.deferred ix d.priority d.elementIdStack,
      ⟨w.next.paintIndex, w₁.next.paintIndex⟩, w₁.next.paintSince w.next.paintIndex⟩ := by
  rw [← List.mem_singleton]
  exact List.mem_append

omit [DecidableEq K] in
theorem Paints.keeps_store (hp : Paints s b touched visits w w₁) (hd : w.next.deferredDraws[ix]? = some d) :
    PaintKeeps w₁ (w.storePainted w₁ ix d) where
  dispatchTree := rfl
  accessedEntities := rfl
  states _ := Repainted.refl _
  ranges := by
    have hget : (w.next.deferredDraws.map DeferredDraw.prepaintRange)[ix]? = some d.prepaintRange := by
      rw [List.getElem?_map, hd]
      rfl
    obtain ⟨hlt, hget⟩ := List.getElem?_eq_some_iff.mp hget
    rw [hp.draws_store, hp.deferredDraws, List.map_set]
    show List.set _ ix d.prepaintRange = _
    rw [← hget, List.set_getElem_self]

section NextDraw

variable (h : PaintRounds s b w₀ touched done (ix :: todo) w)
include h

theorem PaintRounds.painted_store
    (hd : w.next.deferredDraws[ix]? = some d) (hp : Paints s b touched visits w w₁) {j : Nat} (hj : j ∈ done ++ [ix])
    {e : DeferredDraw E K} (he : (w.storePainted w₁ ix d).next.deferredDraws[j]? = some e) :
    ∃ r ∈ (w.storePainted w₁ ix d).log.paintRecords,
      r.drawer = .deferred j e.priority e.elementIdStack ∧ r.range = e.paintRange := by
  have hix : ix < w.next.deferredDraws.length := (List.getElem?_eq_some_iff.mp hd).1
  by_cases hne : ix = j
  · subst hne
    rw [hp.draws_store, List.getElem?_set_self hix] at he
    obtain rfl := Option.some.inj he
    exact ⟨_, mem_paintRecords_store.mpr (.inr rfl), rfl, rfl⟩
  · have hj : j ∈ done := by
      rcases List.mem_append.mp hj with hj | hj
      · exact hj
      · exact absurd (List.mem_singleton.mp hj).symm hne
    rw [hp.draws_store, List.getElem?_set_ne hne] at he
    obtain ⟨r, hr, hrecord⟩ := h.painted j hj e he
    exact ⟨r, mem_paintRecords_store.mpr (.inl (hp.paintLog hr)), hrecord⟩

theorem PaintRounds.prepainted_store
    (hd : w.next.deferredDraws[ix]? = some d) (hp : Paints s b touched visits w w₁) {j : Nat} {e : DeferredDraw E K}
    (he : (w.storePainted w₁ ix d).next.deferredDraws[j]? = some e) :
    ∃ r ∈ w.log.prepaintRecords, r.drawer = .deferred j e.priority e.elementIdStack ∧ r.range = e.prepaintRange := by
  have hix : ix < w.next.deferredDraws.length := (List.getElem?_eq_some_iff.mp hd).1
  by_cases hj : ix = j
  · subst hj
    rw [hp.draws_store, List.getElem?_set_self hix] at he
    obtain rfl := Option.some.inj he
    exact h.prepainted ix d hd
  · rw [hp.draws_store, List.getElem?_set_ne hj] at he
    exact h.prepainted j e he

/-- The views of the draw are not among those to come. -/
theorem PaintRounds.once_store
    (hp : Paints s b touched ((visitsAt b w ix).filter Visit.shown) w w₁) {r : Record PaintIndex (PaintSlice E)}
    (hr : r ∈ w₁.log.paintRecords) {id : GlobalElementId} (hid : r.drawer = .view id) :
    id ∉ ((todo.flatMap (visitsAt b w)).filter Visit.shown).map Visit.id := by
  have htodo := h.paintable
  have honce := h.once
  rw [List.flatMap_cons, List.filter_append] at htodo honce
  rcases hp.painted r hr with hr | ⟨v, hv, hdrawer⟩
  · intro hmem
    refine honce r hr id hid ?_
    rw [List.map_append]
    exact List.mem_append_right _ hmem
  · rw [hdrawer] at hid
    cases hid
    intro hmem
    obtain ⟨u, hu, heq⟩ := List.mem_map.mp hmem
    exact htodo.disjoint hu (heq ▸ List.mem_map_of_mem hv)

theorem PaintRounds.paintStored_store
    (hp : Paints s b touched ((visitsAt b w ix).filter Visit.shown) w w₁) :
    ∀ r ∈ w₁.log.paintRecords, ∀ id, r.drawer = .view id → w₁.PaintStored id := by
  have honce := h.once
  rw [List.flatMap_cons, List.filter_append] at honce
  refine hp.paintStored h.paintStored fun r hr id hid hmem => honce r hr id hid ?_
  rw [List.map_append]
  exact List.mem_append_left _ hmem

/-- **A deferred draw that has been painted** leaves the others as they were. -/
theorem PaintRounds.store (hd : w.next.deferredDraws[ix]? = some d)
    (hp : Paints s b touched ((visitsAt b w ix).filter Visit.shown) w w₁) :
    PaintRounds s b w₀ touched (done ++ [ix]) todo (w.storePainted w₁ ix d) where
  drawing := by
    have hget : w₁.next.deferredDraws[ix]? = some d := by
      rw [hp.deferredDraws]
      exact hd
    have hrecord : Drawing s b touched (w₁.recordPaint
        (.deferred ix d.priority d.elementIdStack) w.next.paintIndex).2 :=
      hp.drawing.recordPaint hp.grows
    exact hrecord.grow (Frame.grows_setDeferred hget rfl) rfl
  keeps := (h.keeps.trans hp.keeps).trans (hp.keeps_store hd)
  order := by
    rw [hp.draws_store, List.length_set, List.append_assoc]
    exact h.order
  paintable := by
    have htodo := h.paintable
    rw [List.flatMap_cons, List.filter_append] at htodo
    rw [hp.visits_store hd]
    exact htodo.right.mono fun v hv => hp.frame v.id (htodo.disjoint hv)
  waiting j hj e he := by
    have hne : ix ≠ j := by
      rintro rfl
      have hn := h.order.nodup_iff.mpr List.nodup_range
      exact (List.nodup_cons.mp (List.nodup_append.mp hn).2.1).1 hj
    rw [hp.draws_store, List.getElem?_set_ne hne] at he
    exact h.waiting j (List.mem_cons_of_mem _ hj) e he
  prepainted j e he := by
    obtain ⟨r, hr, hrecord⟩ := h.prepainted_store hd hp he
    exact ⟨r, hp.prepaintLog ▸ hr, hrecord⟩
  painted _ hj _ he := h.painted_store hd hp hj he
  prepaintStored _ hid := hp.prepaintStored (h.prepaintStored _ hid)
  paintStored r hr id hid := by
    rcases mem_paintRecords_store.mp hr with hr | rfl
    · obtain ⟨st, hst, r', hr', hrecord⟩ := h.paintStored_store hp r hr id hid
      exact ⟨st, hst, r', mem_paintRecords_store.mpr (.inl hr'), hrecord⟩
    · cases hid
  once r hr id hid := by
    rw [hp.visits_store hd]
    rcases mem_paintRecords_store.mp hr with hr | rfl
    · exact h.once_store hp hr hid
    · cases hid

end NextDraw

end

omit [DecidableEq K] in
theorem Ready.freshPaint (hs : s.Ready) {id : GlobalElementId} (hlast : s.PaintedLast id)
    {st : AnyViewState K} (hst : s.rendered.elementStates.lookup id = some st) :
    s.FreshPaint ⟨.view id, st.paintRange⟩ := by
  obtain ⟨st', hst', r, hr, hdrawer, hrange⟩ := hs.paintState id hlast
  obtain rfl : st' = st := Option.some.inj (hst'.symm.trans hst)
  refine ⟨r, hr, hrange, ?_, hs.paintSelects r hr⟩
  rw [hdrawer]
  rfl

omit [DecidableEq K] in
theorem Ready.freshPaint_deferred (hs : s.Ready) (hb : Begins s b) (ix : Nat) {j : Nat}
    {d d₀ : DeferredDraw E K} (hd₀ : b.rendered.deferredDraws[j]? = some d₀)
    (hplace : d₀.place = d.place) (hrange : d₀.paintRange = d.paintRange) :
    s.FreshPaint ⟨.deferred ix d.priority d.elementIdStack, d.paintRange⟩ := by
  rw [hb.deferredDraws] at hd₀
  obtain ⟨r, hr, hdrawer, hr'⟩ := hs.paintDeferred j d₀ hd₀
  refine ⟨r, hr, hr'.trans hrange, ?_, hs.paintSelects r hr⟩
  rw [hdrawer]
  exact Prod.mk.inj hplace

variable {done : List Nat} {w : Window E K} {planned : List Visit}

theorem paintDeferredDraw_spec (hs : s.Ready) (hb : Begins s b) {touched : List GlobalElementId}
    {todo : List Nat} {ix : Nat} {w₀ : Window E K}
    (h : PaintRounds s b w₀ touched done (ix :: todo) w) :
    ∃ w', w.paintDeferredDraw ix = .ok w' ∧ PaintRounds s b w₀ touched (done ++ [ix]) todo w' := by
  have hix : ix < w.next.deferredDraws.length :=
    List.mem_range.mp (h.order.subset (List.mem_append_right _ List.mem_cons_self))
  have hd := List.getElem?_eq_getElem hix
  generalize w.next.deferredDraws[ix] = d at hd
  have hat : visitsAt b w ix = d.visits b := itemsAt_of_getElem? hd
  have hpaintable := h.paintable
  rw [List.flatMap_cons, List.filter_append] at hpaintable
  have hwaiting := h.waiting ix List.mem_cons_self d hd
  rw [DeferredDraw.Paintable] at hwaiting
  obtain ⟨w₁, hok, hp⟩ : ∃ w₁, w.paintDeferredElement ix d = .ok w₁ ∧
      Paints s b touched ((visitsAt b w ix).filter Visit.shown) w w₁ := by
    unfold paintDeferredElement
    cases helement : d.element with
    | laidOut e =>
      rw [helement] at hwaiting
      exact hwaiting.elim
    | prepainted p =>
      have hvisits : (visitsAt b w ix).filter Visit.shown = p.painted d.elementIdStack := by
        rw [hat, DeferredDraw.visits, helement]
        rfl
      rw [hvisits] at hpaintable ⊢
      exact paint_spec hb p _ w h.drawing hpaintable.left
    | none =>
      rw [helement] at hwaiting
      obtain ⟨j, d₀, hd₀, hplace, hrange⟩ := hwaiting
      have hvisits : visitsAt b w ix = [] := by rw [hat, DeferredDraw.visits, helement]
      rw [hvisits]
      exact Paints.of_reuse hb h.drawing (hs.freshPaint_deferred hb ix hd₀ hplace hrange)
  refine ⟨w.storePainted w₁ ix d, ?_, h.store hd hp⟩
  unfold paintDeferredDraw
  rw [hd]
  exact bind_of_ok hok _

/-- The deferred draws at the positions `ixs`. -/
theorem paintDeferredDraws_fold (hs : s.Ready) (hb : Begins s b) {w₀ : Window E K}
    {touched : List GlobalElementId} (ixs : List Nat) :
    ∀ {done : List Nat} {w : Window E K}, PaintRounds s b w₀ touched done ixs w →
      ∃ w', ixs.foldlM paintDeferredDraw w = .ok w' ∧
        PaintRounds s b w₀ touched (done ++ ixs) [] w' := by
  induction ixs with
  | nil =>
    intro done w h
    refine ⟨w, rfl, ?_⟩
    rw [List.append_nil]
    exact h
  | cons ix ixs ih =>
    intro done w h
    obtain ⟨w₁, hok, h₁⟩ := paintDeferredDraw_spec hs hb h
    obtain ⟨w₂, hok₂, h₂⟩ := ih h₁
    refine ⟨w₂, ?_, ?_⟩
    · rw [List.foldlM_cons, bind_of_ok hok]
      exact hok₂
    · rw [List.append_assoc] at h₂
      exact h₂

/-! ### From the prepaint to the paint -/

/-- After the prepaint, the views of the root and of the deferred draws can be painted. -/
theorem Rounds.paintable (hs : s.Ready) (hb : Begins s b) {rootVisits : List Visit}
    (hplanned : Visitable s [] planned)
    (hpainted : ∀ v ∈ planned, v.reused = true → v.shown = true → s.PaintedLast v.id)
    {order : List Nat} (h : Rounds s b rootVisits planned done [] w) (horder : order.Perm done) :
    Paintable s ((rootVisits ++ done.flatMap (visitsAt b w)).map Visit.id)
      ((rootVisits ++ order.flatMap (visitsAt b w)).filter Visit.shown) w := by
  have hperm := h.perm
  rw [List.append_nil] at hperm
  have hmade : (rootVisits ++ order.flatMap (visitsAt b w)).Perm
      (rootVisits ++ done.flatMap (visitsAt b w)) :=
    (horder.flatMap_right _).append_left _
  have hvisitable := hplanned.perm (hmade.trans hperm)
  refine ⟨fun v hv => ?_, ?_, fun v hv => ?_⟩
  · exact List.mem_map_of_mem (hmade.subset (List.mem_filter.mp hv).1)
  · exact hvisitable.nodup.sublist (List.filter_sublist.map _)
  · obtain ⟨hv, hshown⟩ := List.mem_filter.mp hv
    have hv := hmade.subset hv
    obtain ⟨st, hst, -, hreused⟩ := h.states v hv
    refine ⟨st, hst, fun hr => ?_⟩
    obtain ⟨st₀, hst₀, hrange⟩ := hreused hr
    rw [hrange]
    exact hs.freshPaint (hpainted v (hperm.subset hv) hr hshown) (hb.states ▸ hst₀)

/-- After the root was painted, the deferred draws can be. -/
theorem Rounds.paintRounds {rootVisits : List Visit} {order : List Nat}
    {w₁ : Window E K} (h : Rounds s b rootVisits planned done [] w) (horder : order.Perm done)
    (hpaintable : Paintable s ((rootVisits ++ done.flatMap (visitsAt b w)).map Visit.id)
    (rootVisits.filter Visit.shown ++ (order.flatMap (visitsAt b w)).filter Visit.shown) w)
    (hp : Paints s b ((rootVisits ++ done.flatMap (visitsAt b w)).map Visit.id)
    (rootVisits.filter Visit.shown) w w₁) :
    PaintRounds s b w ((rootVisits ++ done.flatMap (visitsAt b w)).map Visit.id) [] order w₁ := by
  have hrange := h.order
  rw [List.append_nil] at hrange
  have hvisits : visitsAt b w₁ = visitsAt b w := by
    unfold visitsAt
    rw [hp.deferredDraws]
  have hnone : ∀ r, r ∉ w.log.paintRecords := by
    rw [h.paintLog]
    exact fun _ => List.not_mem_nil
  have hdrawn : ∀ (ix : Nat) (d : DeferredDraw E K), w₁.next.deferredDraws[ix]? = some d →
      d.Drawn b w ix := by
    intro ix d hd
    rw [hp.deferredDraws] at hd
    apply h.drawn ix _ d hd
    exact hrange.symm.subset (List.mem_range.mpr (List.getElem?_eq_some_iff.mp hd).1)
  refine ⟨hp.drawing, hp.keeps, ?_, ?_, fun ix _ d hd => (hdrawn ix d hd).2, fun ix d hd => ?_,
    fun ix hix => absurd hix List.not_mem_nil, fun id hid => ?_, ?_, fun r hr id hid => ?_⟩
  · rw [hp.deferredDraws]
    exact horder.trans hrange
  · rw [hvisits]
    apply hpaintable.right.mono
    exact fun v hv => hp.frame v.id (hpaintable.disjoint hv)
  · rw [hp.prepaintLog]
    exact (hdrawn ix d hd).1
  · obtain ⟨v, hv, rfl⟩ := List.mem_map.mp hid
    obtain ⟨st, hst, hrecord, -⟩ := h.states v hv
    exact hp.prepaintStored ⟨st, hst, hrecord⟩
  · apply hp.paintStored
    · exact fun r hr => absurd hr (hnone r)
    · exact fun r hr => absurd hr (hnone r)
  · rcases hp.painted r hr with hr | ⟨v, hv, hdrawer⟩
    · exact absurd hr (hnone r)
    · rw [hdrawer] at hid
      cases hid
      rw [hvisits]
      intro hmem
      obtain ⟨u, hu, heq⟩ := List.mem_map.mp hmem
      exact hpaintable.disjoint hu (heq ▸ List.mem_map_of_mem hv)

/-- **The root and then the deferred draws are painted without a panic.** -/
theorem paintAll_spec (hs : s.Ready) (hb : Begins s b) {root : Prepainted E} (hplanned : Visitable s [] planned)
    (hpainted : ∀ v ∈ planned, v.reused = true → v.shown = true → s.PaintedLast v.id)
    (h : Rounds s b (root.visits [] true) planned done [] w) :
    ∃ w₁ w' done', paint root [] w = .ok w₁ ∧ w₁.paintDeferredDraws = .ok w' ∧
      PaintRounds s b w ((root.visits [] true ++ done.flatMap (visitsAt b w)).map Visit.id) done' []
        w' := by
  have hrange := h.order
  rw [List.append_nil] at hrange
  have horder : (w.traversalOrder 0 w.next.deferredDraws.length).Perm done := by
    refine List.Perm.trans (List.perm_insertionSort _ _) ?_
    rw [Nat.sub_zero, ← List.range_eq_range']
    exact hrange.symm
  have hpaintable := h.paintable hs hb hplanned hpainted horder
  rw [List.filter_append] at hpaintable
  obtain ⟨w₁, hok₁, h₁⟩ := paint_spec hb root [] w h.drawing hpaintable.left
  obtain ⟨w', hok', h'⟩ := paintDeferredDraws_fold hs hb _
    (h.paintRounds horder hpaintable h₁)
  refine ⟨w₁, w', _, hok₁, ?_, h'⟩
  unfold paintDeferredDraws traversalOrder
  rw [h₁.deferredDraws]
  exact hok'

end Window

end PaintRounds

end FcGpui
