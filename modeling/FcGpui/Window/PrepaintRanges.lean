import FcGpui.Window.Visits

/-!
# The ranges of a prepaint

`prepaint_spec`: an element whose visits are new and reuse only views that the last
draw prepainted is prepainted without a panic, and the draw stays under way.  What
is left to do is said by `Prepaints`: the visits that the element promised are
those of the prepainted element and of the draws it deferred, and every view come
by has stored a state with the range just recorded.

A deferred draw that was copied can be copied again, since the last draw recorded
the ranges of all its deferred draws (`Waiting`).
-/

namespace FcGpui

section PrepaintRanges

variable {E K : Type}

/-- A deferred draw that is still to be prepainted: its element is laid out, or its
ranges are those of a draw of the rendered frame. -/
def DeferredDraw.Waiting (b : Window E K) (d : DeferredDraw E K) : Prop :=
  match d.element with
  | .laidOut _ => True
  | .prepainted _ => False
  | .none => ∃ (j : Nat) (d₀ : DeferredDraw E K), b.rendered.deferredDraws[j]? = some d₀ ∧ d₀.place = d.place ∧
    d₀.prepaintRange = d.prepaintRange ∧ d₀.paintRange = d.paintRange

namespace Window

variable {s b : Window E K}

/-- The view that was come by has stored the range just recorded, and still the paint
range it had if it was reused. -/
def Stored (b w : Window E K) (v : Visit) : Prop :=
  ∃ st, w.next.elementStates.lookup v.id = some st ∧
    (∃ r ∈ w.log.prepaintRecords, r.drawer = .view v.id ∧ r.range = st.prepaintRange) ∧
    (v.reused = true → ∃ st₀, b.rendered.elementStates.lookup v.id = some st₀ ∧
      st.paintRange = st₀.paintRange)

theorem Stored.mono {w w' : Window E K} {v : Visit} (h : Stored b w v)
    (hstate : w'.next.elementStates.lookup v.id = w.next.elementStates.lookup v.id)
    (hlog : w.log.prepaintRecords ⊆ w'.log.prepaintRecords) : Stored b w' v := by
  obtain ⟨st, hst, ⟨r, hr, hrecord⟩, hreused⟩ := h
  exact ⟨st, hstate.trans hst, ⟨r, hlog hr, hrecord⟩, hreused⟩

/-- From `w` to `w'` an element was prepainted that promised `promised`; the result
has the visits `visits`, and the draws `draws` were deferred. -/
structure Prepaints [DecidableEq K] (s b : Window E K) (touched : List GlobalElementId)
    (promised visits : List Visit) (w w' : Window E K) (draws : List (DeferredDraw E K)) : Prop where
  drawing : Drawing s b (touched ++ visits.map Visit.id) w'
  grows : w.next.Grows w'.next
  refreshing : w'.refreshing = w.refreshing
  deferredDraws : w'.next.deferredDraws = w.next.deferredDraws ++ draws
  waiting : ∀ d ∈ draws, d.Waiting b
  perm : (visits ++ draws.flatMap (DeferredDraw.visits b)).Perm promised
  states : ∀ v ∈ visits, Stored b w' v
  frame : ∀ id, id ∉ visits.map Visit.id →
    w'.next.elementStates.lookup id = w.next.elementStates.lookup id
  prepaintLog : w.log.prepaintRecords ⊆ w'.log.prepaintRecords
  paintLog : w'.log.paintRecords = w.log.paintRecords

/-- The visits are new, each at another view, and reuse only what the last draw
prepainted. -/
structure Visitable (s : Window E K) (touched : List GlobalElementId) (visits : List Visit) : Prop where
  new : ∀ v ∈ visits, v.id ∉ touched
  nodup : (visits.map Visit.id).Nodup
  last : ∀ v ∈ visits, v.reused = true → s.PrepaintedLast v.id

theorem Visitable.left {touched : List GlobalElementId} {first rest : List Visit}
    (h : Visitable s touched (first ++ rest)) : Visitable s touched first where
  new v hv := h.new v (List.mem_append_left _ hv)
  nodup := by
    have hn := h.nodup
    rw [List.map_append] at hn
    exact hn.of_append_left
  last v hv := h.last v (List.mem_append_left _ hv)

theorem Visitable.right {touched : List GlobalElementId} {first rest : List Visit}
    (h : Visitable s touched (first ++ rest)) (visits : List Visit) (hsub : ∀ v ∈ visits, v ∈ first) :
    Visitable s (touched ++ visits.map Visit.id) rest where
  new v hv := by
    have hn := h.nodup
    rw [List.map_append, List.nodup_append] at hn
    rw [List.mem_append, not_or]
    refine ⟨h.new v (List.mem_append_right _ hv), fun hmem => ?_⟩
    obtain ⟨u, hu, heq⟩ := List.mem_map.mp hmem
    exact hn.2.2 u.id (List.mem_map_of_mem (hsub u hu)) v.id (List.mem_map_of_mem hv) heq
  nodup := by
    have hn := h.nodup
    rw [List.map_append] at hn
    exact hn.of_append_right
  last v hv := h.last v (List.mem_append_right _ hv)

variable [DecidableEq K]

variable {touched : List GlobalElementId} {w : Window E K} {draws : List (DeferredDraw E K)}
  {promised : List Visit} {α : Type} {id : GlobalElementId}

theorem Prepaints.of_grow {f : Frame E K} (h : Drawing s b touched w) (hg : w.next.Grows f)
    (hstates : f.elementStates = w.next.elementStates) (hdraws : f.deferredDraws = w.next.deferredDraws) :
    Prepaints s b touched [] [] w { w with next := f } [] where
  drawing := by
    rw [List.map_nil, List.append_nil]
    exact h.grow hg hstates
  grows := hg
  refreshing := rfl
  deferredDraws := by rw [List.append_nil]; exact hdraws
  waiting _ hd := absurd hd List.not_mem_nil
  perm := List.Perm.refl _
  states _ hv := absurd hv List.not_mem_nil
  frame _ _ := by rw [hstates]
  prepaintLog := List.Subset.refl _
  paintLog := rfl

theorem Prepaints.pushNode {visits : List Visit} {w' : Window E K} {viewId : Option EntityId}
    {reads : Finset EntityId}
    (h : Prepaints s b touched promised visits (w.pushNode viewId reads) w' draws) :
    Prepaints s b touched promised visits w w' draws :=
  { h with grows := (w.next.grows_pushNode _).trans h.grows }

theorem Prepaints.append {promised₁ promised₂ visits₁ visits₂ : List Visit} {w₁ w₂ w₃ : Window E K}
    {draws₁ draws₂ : List (DeferredDraw E K)} (h₁ : Prepaints s b touched promised₁ visits₁ w₁ w₂ draws₁)
    (h₂ : Prepaints s b (touched ++ visits₁.map Visit.id) promised₂ visits₂ w₂ w₃ draws₂)
    (hdisjoint : ∀ v ∈ visits₁, v.id ∉ visits₂.map Visit.id) :
    Prepaints s b touched (promised₁ ++ promised₂) (visits₁ ++ visits₂) w₁ w₃ (draws₁ ++ draws₂) where
  drawing := by
    rw [List.map_append, ← List.append_assoc]
    exact h₂.drawing
  grows := h₁.grows.trans h₂.grows
  refreshing := h₂.refreshing.trans h₁.refreshing
  deferredDraws := by rw [h₂.deferredDraws, h₁.deferredDraws, List.append_assoc]
  waiting d hd := by
    rcases List.mem_append.mp hd with hd | hd
    · exact h₁.waiting d hd
    · exact h₂.waiting d hd
  perm := by
    rw [List.flatMap_append]
    refine List.Perm.trans ?_ (h₁.perm.append h₂.perm)
    rw [List.append_assoc, List.append_assoc]
    refine List.Perm.append_left _ ?_
    rw [← List.append_assoc, ← List.append_assoc]
    exact List.perm_append_comm.append_right _
  states v hv := by
    rcases List.mem_append.mp hv with hv | hv
    · exact (h₁.states v hv).mono (h₂.frame v.id (hdisjoint v hv)) h₂.prepaintLog
    · exact h₂.states v hv
  frame id hid := by
    rw [List.map_append, List.mem_append, not_or] at hid
    rw [h₂.frame id hid.2, h₁.frame id hid.1]
  prepaintLog := List.Subset.trans h₁.prepaintLog h₂.prepaintLog
  paintLog := h₂.paintLog.trans h₁.paintLog

/-! ### One element -/

omit [DecidableEq K] in
theorem prepaintOps_kept (id : GlobalElementId) (ops : List (PrepaintOp E)) (f : Frame E K) :
    (ops.foldl (Frame.prepaintOp id) f).elementStates = f.elementStates ∧
      (ops.foldl (Frame.prepaintOp id) f).deferredDraws = f.deferredDraws ∧
      (ops.foldl (Frame.prepaintOp id) f).dispatchTree = f.dispatchTree := by
  induction ops generalizing f with
  | nil => exact ⟨rfl, rfl, rfl⟩
  | cons op ops ih =>
    have hop := ih (f.prepaintOp id op)
    cases op with
    | insertHitbox _ => exact hop
    | setTooltip _ => exact hop
    | withElementState _ => exact hop
    | layoutLine _ => exact hop

/-- How the window at the beginning of a draw comes from the one before. -/
structure Begins (s b : Window E K) : Prop where
  states : b.rendered.elementStates = s.rendered.elementStates
  deferredDraws : b.rendered.deferredDraws = s.rendered.deferredDraws
  grows : s.rendered.Grows b.rendered

omit [DecidableEq K] in
theorem mem_of_slice {l m : List α} {i j : Nat} (h : slice l i j = some m) {a : α} (ha : a ∈ m) : a ∈ l := by
  obtain ⟨-, -, rfl⟩ := bounds_of_slice h
  exact List.mem_of_mem_drop (List.mem_of_mem_take ha)

omit [DecidableEq K] in
theorem waiting_replay {i j : Nat}
    (h : slice b.rendered.deferredDraws i j = some draws) :
    ∀ d ∈ draws.map DeferredDraw.replay, d.Waiting b := by
  intro d hd
  obtain ⟨d₀, hd₀, rfl⟩ := List.mem_map.mp hd
  obtain ⟨k, hk⟩ := List.getElem?_of_mem (mem_of_slice h hd₀)
  exact ⟨k, d₀, hk, rfl, rfl, rfl⟩

theorem visits_replay (draws : List (DeferredDraw E K)) :
    (draws.map DeferredDraw.replay).flatMap (DeferredDraw.visits b) = [] := by
  rw [List.flatMap_eq_nil_iff]
  intro d hd
  obtain ⟨d₀, -, rfl⟩ := List.mem_map.mp hd
  rfl

omit [DecidableEq K] in
/-- A computation that goes on after one that gave a result. -/
theorem bind_of_ok {β : Type} {x : Except Panic α} {a : α} (h : x = .ok a)
    (f : α → Except Panic β) : (x >>= f) = f a := by
  rw [h]
  rfl

theorem ok_of_bind {β : Type} {x : Except Panic α} {f : α → Except Panic β} {r : β}
    (h : (x >>= f) = .ok r) : ∃ a, x = .ok a ∧ f a = .ok r := by
  cases x with
  | error panic => exact absurd h (by simp [bind, Except.bind])
  | ok a => exact ⟨a, rfl, h⟩

omit [DecidableEq K] in
theorem Ready.freshPrepaint (hs : s.Ready) (hlast : s.PrepaintedLast id)
    {st : AnyViewState K} (hst : s.rendered.elementStates.lookup id = some st) :
    s.FreshPrepaint ⟨.view id, st.prepaintRange⟩ := by
  obtain ⟨st', hst', r, hr, hdrawer, hrange⟩ := hs.prepaintState id hlast
  obtain rfl : st' = st := Option.some.inj (hst'.symm.trans hst)
  refine ⟨r, hr, hrange, ?_, hs.prepaintSelects r hr⟩
  rw [hdrawer]
  rfl

/-- A cached view is come by: its state was taken, its content was prepainted from
`w₀` to `w₁`, and its state is stored with the range of that. -/
theorem Prepaints.store {visits : List Visit} {w₀ : Window E K} (w w₁ w₂ : Window E K) (v : Visit)
    (st : AnyViewState K) (h : Prepaints s b (touched ++ [v.id]) promised visits w₀ w₁ draws)
    (hnew : v.id ∉ visits.map Visit.id) (hnext₀ : w₀.next = (w.accessState v.id).next) (hlog₀ : w₀.log = w.log)
    (h₂ : Drawing s b (touched ++ [v.id] ++ visits.map Visit.id) w₂)
    (hnext₂ : w₂.next = w₁.next) (hlog₂ : w₂.log = w₁.log) (hrefreshing : w₂.refreshing = w.refreshing)
    (hreused : v.reused = true → ∃ st₀, b.rendered.elementStates.lookup v.id = some st₀ ∧
    st.paintRange = st₀.paintRange) :
    Prepaints s b touched (v :: promised) (v :: visits) w
      ((w₂.recordPrepaint (.view v.id) (w.accessState v.id).next.prepaintIndex).2.insertState v.id
        { st with
          prepaintRange := (w₂.recordPrepaint (.view v.id)
            (w.accessState v.id).next.prepaintIndex).1 }) draws := by
  have hg : (w.accessState v.id).next.Grows w₂.next := by
    rw [hnext₂, ← hnext₀]
    exact h.grows
  have hmem : v.id ∈ touched ++ [v.id] ++ visits.map Visit.id := by simp
  have hrecord : Drawing s b (touched ++ [v.id] ++ visits.map Visit.id)
      (w₂.recordPrepaint (.view v.id) (w.accessState v.id).next.prepaintIndex).2 :=
    h₂.recordPrepaint hg fun i hi => by
      cases hi
      exact hmem
  have hlog : w.log.prepaintRecords ⊆ w₂.log.prepaintRecords := by
    rw [hlog₂, ← hlog₀]
    exact h.prepaintLog
  have hframe : ∀ i, i ≠ v.id → ∀ st' : AnyViewState K,
      AList.lookup i (w₂.next.elementStates.insert v.id st') = w₁.next.elementStates.lookup i := by
    intro i hi st'
    rw [AList.lookup_insert_ne hi, hnext₂]
  refine ⟨?_, ?_, hrefreshing, ?_, h.waiting, ?_, fun u hu => ?_, fun i hi => ?_, fun r hr => ?_, ?_⟩
  · have hstored := hrecord.insertState hmem { st with
      prepaintRange := (w₂.recordPrepaint (.view v.id)
        (w.accessState v.id).next.prepaintIndex).1 }
    rw [List.append_assoc] at hstored
    exact hstored
  · have hstart : w.next.Grows (w.accessState v.id).next :=
      { w.next.grows_access v.id .anyViewState with }
    exact { hstart.trans hg with }
  · show w₂.next.deferredDraws = _
    rw [hnext₂, h.deferredDraws, hnext₀]
    rfl
  · exact h.perm.cons v
  · rcases List.mem_cons.mp hu with rfl | hu
    · exact ⟨_, AList.lookup_insert _, ⟨_, List.mem_append_right _ (List.mem_singleton_self _),
        rfl, rfl⟩, hreused⟩
    · refine (h.states u hu).mono (hframe u.id (fun heq => hnew ?_) _) ?_
      · rw [← heq]
        exact List.mem_map_of_mem hu
      · show _ ⊆ w₂.log.prepaintRecords ++ _
        rw [hlog₂]
        exact List.subset_append_left _ _
  · rw [List.map_cons, List.mem_cons, not_or] at hi
    refine (hframe i hi.1 _).trans ?_
    rw [h.frame i hi.2, hnext₀]
    exact AList.lookup_erase_ne hi.1
  · exact List.mem_append_left _ (hlog hr)
  · show w₂.log.paintRecords = _
    rw [hlog₂, h.paintLog, hlog₀]

theorem Prepaints.of_reuse (hb : Begins s b)
    (h : Drawing s b touched w) {drawer : Drawer} {range : IndexRange PrepaintStateIndex}
    (hfresh : s.FreshPrepaint ⟨drawer, range⟩) :
    ∃ w' draws, w.reusePrepaint drawer range = .ok w' ∧ Prepaints s b touched [] [] w w' draws := by
  have hfresh' := hfresh
  obtain ⟨r, hr, hrange, -, hselects⟩ := hfresh'
  have hselects := hrange ▸ hselects.mono hb.grows
  obtain ⟨w', draws, hok, hdrawing, hg, hstates, hslice, happend, -, -, hrefreshing, hlog,
    hpaintLog⟩ := h.reusePrepaint hfresh hselects
  refine ⟨w', draws.map DeferredDraw.replay, hok, ?_⟩
  exact {
    drawing := by
      rw [List.map_nil, List.append_nil]
      exact hdrawing
    grows := hg
    refreshing := hrefreshing
    deferredDraws := happend
    waiting := waiting_replay hslice
    perm := by
      rw [visits_replay]
      exact List.Perm.refl _
    states := fun _ hv => absurd hv List.not_mem_nil
    frame := fun _ _ => by rw [hstates]
    prepaintLog := hlog ▸ List.Subset.refl _
    paintLog := hpaintLog }

/-- Whether a cached view is reused, as the states of the last frame have it. -/
theorem Drawing.filter_reusable (h : Drawing s b touched w) {viewId : GlobalElementId} (hid : viewId ∉ touched)
    (entity : EntityId) (cacheKey : K) :
    (w.stateOf viewId).filter (reusable w.dirtyViews w.refreshing entity cacheKey) =
      (b.rendered.elementStates.lookup viewId).filter (reusable b.dirtyViews w.refreshing entity cacheKey) := by
  rw [h.stateOf hid, h.dirtyViews]

theorem prepaint_reused (hs : s.Ready) (hb : Begins s b)
    (h : Drawing s b touched w) {entity : EntityId} {cacheKey : K}
    {reads : List EntityId} {child : Element E K} (shown : Bool)
    {st : AnyViewState K} (hid : id ++ [.view entity] ∉ touched)
    (hfound : (b.rendered.elementStates.lookup (id ++ [.view entity])).filter
    (reusable b.dirtyViews w.refreshing entity cacheKey) = some st)
    (hlast : s.PrepaintedLast (id ++ [.view entity])) :
    ∃ w' draws, prepaint (.cached entity cacheKey reads child) id w = .ok (.reused entity, w') ∧
      Prepaints s b touched [⟨id ++ [.view entity], true, shown⟩]
        [⟨id ++ [.view entity], true, shown⟩] w w' draws := by
  have hst := (Option.filter_eq_some_iff.mp hfound).1
  have hfresh := hs.freshPrepaint hlast (hb.states ▸ hst)
  obtain ⟨w₁, draws, hok, hcontent⟩ := Prepaints.of_reuse hb
    ((h.pushNode (some entity) st.reads).accessState (id ++ [.view entity])) hfresh
  have hprepaints := Prepaints.store (w.pushNode (some entity) st.reads) w₁
    { w₁ with accessedEntities := w₁.accessedEntities ∪ st.accessedEntities }
    ⟨id ++ [.view entity], true, shown⟩ st hcontent List.not_mem_nil rfl rfl
    { hcontent.drawing with } rfl rfl hcontent.refreshing
    fun _ => ⟨st, hst, rfl⟩
  refine ⟨_, _, ?_, hprepaints.pushNode⟩
  have hdecide := (h.filter_reusable hid entity cacheKey).trans hfound
  unfold prepaint
  simp only [hdecide, hok, bind, Except.bind, pure, Except.pure]

theorem prepaint_rendered (h : Drawing s b touched w) {entity : EntityId} {cacheKey : K} {reads : List EntityId}
    {child : Element E K} (shown : Bool) (hid : id ++ [.view entity] ∉ touched)
    (hfound : (b.rendered.elementStates.lookup (id ++ [.view entity])).filter
    (reusable b.dirtyViews w.refreshing entity cacheKey) = none) (hnew : id ++ [.view entity] ∉
    (child.visits b (id ++ [.view entity]) true shown).map Visit.id)
    (hchild : ∀ w₀ : Window E K, w₀.refreshing = true → Drawing s b (touched ++ [id ++ [.view entity]]) w₀ →
    ∃ p w' draws, prepaint child (id ++ [.view entity]) w₀ = .ok (p, w') ∧
    Prepaints s b (touched ++ [id ++ [.view entity]])
    (child.visits b (id ++ [.view entity]) true shown) (p.visits (id ++ [.view entity]) shown)
    w₀ w' draws) :
    ∃ p w' draws, prepaint (.cached entity cacheKey reads child) id w = .ok (p, w') ∧
      Prepaints s b touched
        (⟨id ++ [.view entity], false, shown⟩ ::
          child.visits b (id ++ [.view entity]) true shown) (p.visits id shown) w w' draws := by
  have hstart := (h.pushNode (some entity) (insert entity reads.toFinset)).accessState
    (id ++ [.view entity])
  obtain ⟨p, w₁, draws, hok, hcontent⟩ := hchild _ rfl ({ hstart with } : Drawing s b
    (touched ++ [id ++ [.view entity]])
    { (w.pushNode (some entity) (insert entity reads.toFinset)).accessState
        (id ++ [.view entity]) with
      refreshing := true
      accessedEntities := w.accessedEntities ∪ (insert entity reads.toFinset ∪ child.layoutReads) })
  have hnew' : id ++ [.view entity] ∉ (p.visits (id ++ [.view entity]) shown).map Visit.id :=
    fun hmem => hnew ((hcontent.perm.map Visit.id).subset (by
      rw [List.map_append]
      exact List.mem_append_left _ hmem))
  have hprepaints := Prepaints.store (w.pushNode (some entity) (insert entity reads.toFinset)) w₁
    { w₁ with refreshing := w.refreshing } ⟨id ++ [.view entity], false, shown⟩
    ⟨⟨{}, {}⟩, ⟨{}, {}⟩, cacheKey, w₁.accessedEntities \ w.accessedEntities,
      insert entity reads.toFinset, insert entity reads.toFinset ∪ child.renderReads,
      child.defersCached⟩ hcontent hnew' (by rfl) (by rfl) { hcontent.drawing with } rfl rfl rfl
    fun hfalse => absurd hfalse (by simp)
  refine ⟨.rendered entity p, _, _, ?_, hprepaints.pushNode⟩
  have hdecide := (h.filter_reusable hid entity cacheKey).trans hfound
  unfold prepaint
  simp only [hdecide]
  exact bind_of_ok hok _

/-- After the first of two elements was prepainted, the visits of the second can still be
made. -/
theorem Prepaints.visitable_rest {rest visits : List Visit} {w' : Window E K}
    (h : Prepaints s b touched promised visits w w' draws)
    (hv : Visitable s touched (promised ++ rest)) : Visitable s (touched ++ visits.map Visit.id) rest :=
  hv.right visits fun _ hv => h.perm.subset (List.mem_append_left _ hv)

/-- An element whose promised visits can be made is prepainted without a panic. -/
theorem prepaint_spec (hs : s.Ready) (hb : Begins s b) (e : Element E K) :
    ∀ (id : GlobalElementId) (shown : Bool) (touched : List GlobalElementId) (w : Window E K),
      Drawing s b touched w → Visitable s touched (e.visits b id w.refreshing shown) →
      ∃ p w' draws, prepaint e id w = .ok (p, w') ∧
        Prepaints s b touched (e.visits b id w.refreshing shown) (p.visits id shown) w w' draws := by
  induction e with
  | empty =>
    intro id shown touched w h _
    exact ⟨.empty, w, [], rfl, Prepaints.of_grow h (Frame.Grows.refl _) rfl rfl⟩
  | append first rest ihFirst ihRest =>
    intro id shown touched w h hv
    obtain ⟨p₁, w₁, draws₁, hok₁, h₁⟩ := ihFirst id shown touched w h hv.left
    have hv₂ := h₁.visitable_rest hv
    rw [← h₁.refreshing] at hv₂
    obtain ⟨p₂, w₂, draws₂, hok₂, h₂⟩ := ihRest id shown _ w₁ h₁.drawing hv₂
    have hdisjoint : ∀ v ∈ p₁.visits id shown, v.id ∉ (p₂.visits id shown).map Visit.id := by
      intro v hmem hmem'
      obtain ⟨u, hu, heq⟩ := List.mem_map.mp hmem'
      have hu := h₂.perm.subset (List.mem_append_left _ hu)
      refine hv₂.new u hu (List.mem_append_right _ ?_)
      rw [heq]
      exact List.mem_map_of_mem hmem
    have hboth := h₁.append h₂ hdisjoint
    rw [h₁.refreshing] at hboth
    refine ⟨.append p₁ p₂, w₂, _, ?_, hboth⟩
    unfold prepaint
    rw [bind_of_ok hok₁]
    exact bind_of_ok hok₂ _
  | leaf prepaintOps paintOps =>
    intro id shown touched w h _
    have hkept := prepaintOps_kept id prepaintOps (w.pushNode none ∅).next
    have hgrow := Prepaints.of_grow (h.pushNode none ∅)
      (Frame.grows_prepaintOps id prepaintOps _) hkept.1 hkept.2.1
    exact ⟨.leaf paintOps, _, [], rfl, hgrow.pushNode⟩
  | withId name child ih =>
    intro id shown touched w h hv
    obtain ⟨p, w', draws, hok, hp⟩ := ih (id ++ [name]) shown touched _ (h.pushNode none ∅) hv
    refine ⟨.withId name p, w', draws, ?_, hp.pushNode⟩
    unfold prepaint
    exact bind_of_ok hok _
  | hidden child ih =>
    intro id shown touched w h hv
    obtain ⟨p, w', draws, hok, hp⟩ := ih id false touched _ (h.pushNode none ∅) hv
    refine ⟨.hidden p, w', draws, ?_, hp.pushNode⟩
    unfold prepaint
    exact bind_of_ok hok _
  | view entity reads child ih =>
    intro id shown touched w h hv
    obtain ⟨p, w', draws, hok, hp⟩ := ih (id ++ [ElementId.view entity]) shown touched _
      (h.pushNode (some entity) (insert entity reads.toFinset)) hv
    refine ⟨.view entity p, w', draws, ?_, hp.pushNode⟩
    unfold prepaint
    exact bind_of_ok hok _
  | cached entity cacheKey reads child ih =>
    intro id shown touched w h hv
    rw [Element.visits] at hv ⊢
    cases hfound : (b.rendered.elementStates.lookup (id ++ [.view entity])).filter
        (reusable b.dirtyViews w.refreshing entity cacheKey) with
    | some st =>
      rw [hfound] at hv
      have hself := hv.new _ (List.mem_singleton_self _)
      obtain ⟨w', draws, hok, hp⟩ := prepaint_reused hs hb h shown hself hfound
        (hv.last _ (List.mem_singleton_self _) rfl)
      exact ⟨.reused entity, w', draws, hok, hp⟩
    | none =>
      rw [hfound] at hv
      have hself := hv.new _ (List.mem_cons_self ..)
      have hcons : Visitable s touched ([⟨id ++ [.view entity], false, shown⟩] ++
        child.visits b (id ++ [.view entity]) true shown) := hv
      refine prepaint_rendered h shown hself hfound (List.nodup_cons.mp hv.nodup).1 ?_
      intro w₀ hrefreshing h₀
      have hchild := ih (id ++ [ElementId.view entity]) shown _ w₀ h₀
      rw [hrefreshing] at hchild
      exact hchild (hcons.right [_] fun _ hmem => hmem)
  | deferred priority child _ =>
    intro id shown touched w h hv
    refine ⟨.deferred, _, [⟨priority, id, .laidOut child, ⟨{}, {}⟩, ⟨{}, {}⟩⟩], rfl, ?_⟩
    have hg : (w.pushNode none ∅).next.Grows ((w.pushNode none ∅).deferDraw id priority child).next := by
      refine { Frame.Grows.refl (w.pushNode none ∅).next with deferredDraws := ?_ }
      show _ <+: (w.next.deferredDraws ++ _).map DeferredDraw.place
      rw [List.map_append]
      exact List.prefix_append _ _
    have hdraw : Prepaints s b touched (child.visits b id b.refreshing true) []
        (w.pushNode none ∅) ((w.pushNode none ∅).deferDraw id priority child)
        [⟨priority, id, .laidOut child, ⟨{}, {}⟩, ⟨{}, {}⟩⟩] :=
      { drawing := by
          rw [List.map_nil, List.append_nil]
          exact (h.pushNode none ∅).grow hg rfl
        grows := hg
        refreshing := rfl
        deferredDraws := rfl
        waiting := fun d hd => by
          rw [List.mem_singleton.mp hd]
          trivial
        perm := by
          rw [List.flatMap_singleton]
          exact List.Perm.refl _
        states := fun _ hmem => absurd hmem List.not_mem_nil
        frame := fun _ _ => rfl
        prepaintLog := List.Subset.refl _
        paintLog := rfl }
    exact hdraw.pushNode

end Window

end PrepaintRanges

end FcGpui
