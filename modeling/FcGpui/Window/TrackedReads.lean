import FcGpui.Window.FreshRanges

/-!
# What is tracked of a prepaint

While a draw is under way the entities read are collected, and what a cached view
adds to them is stored with it.  `prepaint_tracks`: where the stored sets of the
views that are reused are complete (`Complete`), every node that a prepaint adds to
the dispatch tree has what its view read among the entities collected.

The nodes of a deferred draw come later than the view that deferred it.  So each
deferred draw has a label, a set that bounds what its nodes may have read, and the
labels of the draws in a range are within the set of whoever owns the range
(`Covered`).  A draw with a cached view inside is labelled with everything: what such
a view will read is not known when it is deferred.
-/

namespace FcGpui

section TrackedReads

variable {E K : Type}

/-- The view of the node and what it read are in `T`. -/
def DispatchNode.In (T : Set EntityId) (node : DispatchNode) : Prop :=
  ∀ view ∈ node.viewId, ∀ entity ∈ insert view node.reads, entity ∈ T

theorem DispatchNode.In.mono {T T' : Set EntityId} {node : DispatchNode} (h : node.In T)
    (hT : T ⊆ T') : node.In T' :=
  fun view hview entity hentity => hT (h view hview entity hentity)

theorem DispatchNode.in_none (T : Set EntityId) (reads : Finset EntityId) :
    DispatchNode.In T ⟨none, reads⟩ :=
  fun _ hview => absurd hview (by simp)

theorem DispatchNode.in_own {T : Set EntityId} {view : EntityId} {reads : Finset EntityId}
    (h : ∀ entity ∈ insert view reads, entity ∈ T) :
    DispatchNode.In T ⟨some view, insert view reads⟩ := by
  intro view' hview entity hentity
  obtain rfl := Option.some.inj hview
  rw [Finset.insert_idem] at hentity
  exact h entity hentity

/-- The nodes in a range, and the labels of the deferred draws in it, are within `T`. -/
def Covered (tree : List DispatchNode) (labels : List (Set EntityId))
    (range : IndexRange PrepaintStateIndex) (T : Set EntityId) : Prop :=
  ∃ nodes ts, slice tree range.start.dispatchTreeIndex range.stop.dispatchTreeIndex = some nodes ∧
    slice labels range.start.deferredDrawsIndex range.stop.deferredDrawsIndex = some ts ∧
    (∀ node ∈ nodes, node.In T) ∧ ∀ t ∈ ts, t ⊆ T

theorem Covered.grow {tree tree' : List DispatchNode} {labels labels' : List (Set EntityId)}
    {range : IndexRange PrepaintStateIndex} {T : Set EntityId} (h : Covered tree labels range T)
    (htree : tree <+: tree') (hlabels : labels <+: labels') : Covered tree' labels' range T := by
  obtain ⟨nodes, ts, hnodes, hts, hcovered⟩ := h
  exact ⟨nodes, ts, slice_of_extends htree hnodes, slice_of_extends hlabels hts, hcovered⟩

theorem Covered.since {f g : Frame E K} {labels ts : List (Set EntityId)}
    {nodes : List DispatchNode} {T : Set EntityId}
    (htree : g.dispatchTree = f.dispatchTree ++ nodes)
    (hlabels : labels.length = f.deferredDraws.length)
    (hlabels' : (labels ++ ts).length = g.deferredDraws.length)
    (hnodes : ∀ node ∈ nodes, node.In T) (hts : ∀ t ∈ ts, t ⊆ T) :
    Covered g.dispatchTree (labels ++ ts) ⟨f.prepaintIndex, g.prepaintIndex⟩ T := by
  refine ⟨nodes, ts, ?_, ?_, hnodes, hts⟩
  · have hslice := slice_to_end (List.prefix_append f.dispatchTree nodes)
    rw [List.drop_left, ← htree] at hslice
    exact hslice
  · have hslice := slice_to_end (List.prefix_append labels ts)
    rw [List.drop_left, hlabels, hlabels'] at hslice
    exact hslice

namespace Element

/-- What an element in a view that is rendered may read: everything if it defers a cached
view. -/
def renderLabel (e : Element E K) : Set EntityId :=
  {entity | e.defersCached = false → entity ∈ e.renderReads}

/-- What a deferred element may read: everything if it has a cached view inside. -/
def deferLabel (e : Element E K) : Set EntityId :=
  {entity | e.hasCached = false → entity ∈ e.layoutReads}

theorem renderReads_of_not_hasCached (e : Element E K) (h : e.hasCached = false) :
    e.defersCached = false ∧ e.renderReads = e.layoutReads := by
  induction e with
  | empty => exact ⟨rfl, rfl⟩
  | append first rest ihFirst ihRest =>
    rw [hasCached, Bool.or_eq_false_iff] at h
    rw [defersCached, renderReads, layoutReads, (ihFirst h.1).1, (ihFirst h.1).2, (ihRest h.2).1,
      (ihRest h.2).2]
    exact ⟨rfl, rfl⟩
  | leaf _ _ => exact ⟨rfl, rfl⟩
  | withId _ child ih => exact ih h
  | hidden child ih => exact ih h
  | view entity reads child ih =>
    rw [defersCached, renderReads, layoutReads, (ih h).1, (ih h).2]
    exact ⟨rfl, rfl⟩
  | cached _ _ _ child _ => exact absurd h (by simp [hasCached])
  | deferred _ child _ => exact ⟨h, rfl⟩

theorem renderLabel_subset_deferLabel (e : Element E K) : e.renderLabel ⊆ e.deferLabel := by
  intro entity hentity hcached
  obtain ⟨hdefers, hreads⟩ := e.renderReads_of_not_hasCached hcached
  rw [← hreads]
  exact hentity hdefers

end Element

/-- A stored state whose range is covered by what its last render touched. -/
structure AnyViewState.Covered (st : AnyViewState K) (id : GlobalElementId)
    (tree : List DispatchNode) (labels : List (Set EntityId)) : Prop where
  range : FcGpui.Covered tree labels st.prepaintRange
    {entity | st.defersCached = false → entity ∈ st.touched}
  own : ∀ entity, id.getLast? = some (.view entity) → entity ∈ st.reads
  reads : st.reads ⊆ st.touched

theorem AnyViewState.Covered.grow {st : AnyViewState K} {id : GlobalElementId}
    {tree tree' : List DispatchNode} {labels labels' : List (Set EntityId)}
    (h : st.Covered id tree labels) (htree : tree <+: tree') (hlabels : labels <+: labels') :
    st.Covered id tree' labels' :=
  { h with range := h.range.grow htree hlabels }

/-- A deferred draw that is still to be prepainted, with its label. -/
def DeferredDraw.Expected (b : Window E K) (labels₀ : List (Set EntityId))
    (accessed : Finset EntityId) (d : DeferredDraw E K) (t : Set EntityId) : Prop :=
  match d.element with
  | .laidOut element => t = element.deferLabel ∧ element.layoutReads ⊆ accessed
  | .prepainted _ => False
  | .none => ∃ (j : Nat) (d₀ : DeferredDraw E K), b.rendered.deferredDraws[j]? = some d₀ ∧
    labels₀[j]? = some t ∧ d₀.prepaintRange = d.prepaintRange ∧ t ⊆ ↑accessed

theorem DeferredDraw.Expected.mono {b : Window E K} {labels₀ : List (Set EntityId)}
    {accessed accessed' : Finset EntityId} {d : DeferredDraw E K} {t : Set EntityId}
    (h : d.Expected b labels₀ accessed t) (haccessed : accessed ⊆ accessed') :
    d.Expected b labels₀ accessed' t := by
  unfold DeferredDraw.Expected at h ⊢
  cases helement : d.element with
  | laidOut element =>
    rw [helement] at h
    exact ⟨h.1, h.2.trans haccessed⟩
  | prepainted element =>
    rw [helement] at h
    exact h
  | none =>
    rw [helement] at h
    obtain ⟨j, d₀, hd₀, hlabel, hrange, hsub⟩ := h
    exact ⟨j, d₀, hd₀, hlabel, hrange, hsub.trans (Finset.coe_subset.mpr haccessed)⟩

namespace Window

/-- Between two draws: the ranges that may be copied are covered. -/
structure Tracks (s : Window E K) (labels : List (Set EntityId)) : Prop where
  length : labels.length = s.rendered.deferredDraws.length
  deferred : ∀ (j : Nat) (d : DeferredDraw E K) (t : Set EntityId),
    s.rendered.deferredDraws[j]? = some d → labels[j]? = some t →
    FcGpui.Covered s.rendered.dispatchTree labels d.prepaintRange t
  views : ∀ id st, s.PrepaintedLast id → s.rendered.elementStates.lookup id = some st →
    st.Covered id s.rendered.dispatchTree labels

/-- The reused views of these visits have stored all that they touched, and no cached view
is hidden in what they deferred. -/
def Complete (b : Window E K) (visits : List Visit) : Prop :=
  ∀ v ∈ visits, v.reused = true → ∀ st ∈ b.rendered.elementStates.lookup v.id,
    st.touched ⊆ st.accessedEntities ∧ st.defersCached = false

/-- The states stored so far are covered. -/
structure TrackedStates (labels : List (Set EntityId)) (w : Window E K) : Prop where
  length : labels.length = w.next.deferredDraws.length
  states : ∀ id st, w.next.elementStates.lookup id = some st →
    st.Covered id w.next.dispatchTree labels

/-- From `w` to `w'` the nodes `nodes` were added and draws labelled `ts` were deferred;
where `rendered` holds, all of them are within `T`. -/
structure TrackedPrepaint (b : Window E K) (labels₀ labels : List (Set EntityId)) (rendered : Prop)
    (T : Set EntityId) (w w' : Window E K) (nodes : List DispatchNode) (ts : List (Set EntityId)) :
    Prop where
  accessed : w.accessedEntities ⊆ w'.accessedEntities
  dispatchTree : w'.next.dispatchTree = w.next.dispatchTree ++ nodes
  collected : ∀ node ∈ nodes, node.In ↑w'.accessedEntities
  draws : ∃ draws, w'.next.deferredDraws = w.next.deferredDraws ++ draws ∧
    List.Forall₂ (DeferredDraw.Expected b labels₀ w'.accessedEntities) draws ts
  within : rendered → (∀ node ∈ nodes, node.In T) ∧ ∀ t ∈ ts, t ⊆ T
  states : TrackedStates (labels ++ ts) w'

variable {b : Window E K} {labels₀ labels : List (Set EntityId)}

variable {w : Window E K} {T : Set EntityId}

theorem TrackedStates.grow (h : TrackedStates labels w) (w' : Window E K)
    (htree : w.next.dispatchTree <+: w'.next.dispatchTree)
    (hdraws : w'.next.deferredDraws.length = w.next.deferredDraws.length)
    (hstates : ∀ id st, w'.next.elementStates.lookup id = some st →
    w.next.elementStates.lookup id = some st) : TrackedStates labels w' where
  length := h.length.trans hdraws.symm
  states id st hst := (h.states id st (hstates id st hst)).grow htree List.prefix_rfl

theorem TrackedStates.pushNode (h : TrackedStates labels w)
    (viewId : Option EntityId) (reads : Finset EntityId) : TrackedStates labels (w.pushNode viewId reads) :=
  h.grow (w.pushNode viewId reads) (List.prefix_append _ _) rfl fun _ _ hst => hst

theorem TrackedStates.accessState (h : TrackedStates labels w)
    (id : GlobalElementId) : TrackedStates labels (w.accessState id) := by
  apply h.grow (w.accessState id) List.prefix_rfl rfl
  intro i st hst
  have hst : AList.lookup i (w.next.elementStates.erase id) = some st := hst
  by_cases heq : i = id
  · rw [heq, AList.lookup_erase] at hst
    exact absurd hst (by simp)
  · rw [AList.lookup_erase_ne heq] at hst
    exact hst

theorem TrackedStates.insertState (h : TrackedStates labels w)
    {id : GlobalElementId} {st : AnyViewState K} (hst : st.Covered id w.next.dispatchTree labels) :
    TrackedStates labels (w.insertState id st) where
  length := h.length
  states i st' hst' := by
    have hst' : AList.lookup i (w.next.elementStates.insert id st) = some st' := hst'
    by_cases heq : i = id
    · rw [heq, AList.lookup_insert] at hst'
      obtain rfl := Option.some.inj hst'
      rw [heq]
      exact hst
    · rw [AList.lookup_insert_ne heq] at hst'
      exact h.states i st' hst'

theorem TrackedPrepaint.of_kept {rendered : Prop}
    {f : Frame E K} (h : TrackedStates labels w) (htree : f.dispatchTree = w.next.dispatchTree)
    (hdraws : f.deferredDraws = w.next.deferredDraws) (hstates : f.elementStates = w.next.elementStates) :
    TrackedPrepaint b labels₀ labels rendered T w { w with next := f } [] [] where
  accessed := Finset.Subset.refl _
  dispatchTree := by
    rw [List.append_nil]
    exact htree
  collected _ hnode := absurd hnode List.not_mem_nil
  draws := ⟨[], by rw [List.append_nil]; exact hdraws, List.Forall₂.nil⟩
  within _ := ⟨fun _ hnode => absurd hnode List.not_mem_nil,
    fun _ ht => absurd ht List.not_mem_nil⟩
  states := by
    rw [List.append_nil]
    apply h.grow { w with next := f } (htree ▸ List.prefix_rfl) (congrArg List.length hdraws)
    intro id st hst
    exact hstates ▸ hst

theorem TrackedPrepaint.weaken {rendered rendered' : Prop} {T' : Set EntityId}
    {w' : Window E K} {nodes : List DispatchNode} {ts : List (Set EntityId)}
    (h : TrackedPrepaint b labels₀ labels rendered T w w' nodes ts)
    (hrendered : rendered' → rendered) (hT : rendered' → T ⊆ T') :
    TrackedPrepaint b labels₀ labels rendered' T' w w' nodes ts :=
  { h with
    within := fun hr => by
      obtain ⟨hnodes, hts⟩ := h.within (hrendered hr)
      exact ⟨fun node hnode => (hnodes node hnode).mono (hT hr),
        fun t ht => (hts t ht).trans (hT hr)⟩ }

theorem TrackedPrepaint.pushNode {rendered : Prop} {w' : Window E K}
    {nodes : List DispatchNode} {ts : List (Set EntityId)} {viewId : Option EntityId} {reads : Finset EntityId}
    (h : TrackedPrepaint b labels₀ labels rendered T (w.pushNode viewId reads) w' nodes ts)
    (hcollected : DispatchNode.In ↑w'.accessedEntities ⟨viewId, reads⟩)
    (hwithin : DispatchNode.In T ⟨viewId, reads⟩) :
    TrackedPrepaint b labels₀ labels rendered T w w' (⟨viewId, reads⟩ :: nodes) ts where
  accessed := h.accessed
  dispatchTree := by
    rw [h.dispatchTree]
    exact List.append_assoc _ _ _
  collected node hnode := by
    rcases List.mem_cons.mp hnode with rfl | hnode
    · exact hcollected
    · exact h.collected node hnode
  draws := h.draws
  within hr := by
    obtain ⟨hnodes, hts⟩ := h.within hr
    refine ⟨fun node hnode => ?_, hts⟩
    rcases List.mem_cons.mp hnode with rfl | hnode
    · exact hwithin
    · exact hnodes node hnode
  states := h.states

theorem TrackedPrepaint.append {rendered : Prop}
    {w₁ w₂ w₃ : Window E K} {nodes₁ nodes₂ : List DispatchNode} {ts₁ ts₂ : List (Set EntityId)}
    (h₁ : TrackedPrepaint b labels₀ labels rendered T w₁ w₂ nodes₁ ts₁)
    (h₂ : TrackedPrepaint b labels₀ (labels ++ ts₁) rendered T w₂ w₃ nodes₂ ts₂) :
    TrackedPrepaint b labels₀ labels rendered T w₁ w₃ (nodes₁ ++ nodes₂) (ts₁ ++ ts₂) where
  accessed := h₁.accessed.trans h₂.accessed
  dispatchTree := by rw [h₂.dispatchTree, h₁.dispatchTree, List.append_assoc]
  collected node hnode := by
    rcases List.mem_append.mp hnode with hnode | hnode
    · exact (h₁.collected node hnode).mono (Finset.coe_subset.mpr h₂.accessed)
    · exact h₂.collected node hnode
  draws := by
    obtain ⟨draws₁, happend₁, hexpected₁⟩ := h₁.draws
    obtain ⟨draws₂, happend₂, hexpected₂⟩ := h₂.draws
    refine ⟨draws₁ ++ draws₂, ?_, List.rel_append ?_ hexpected₂⟩
    · rw [happend₂, happend₁, List.append_assoc]
    · exact hexpected₁.imp fun _ _ h => h.mono h₂.accessed
  within hr := by
    obtain ⟨hnodes₁, hts₁⟩ := h₁.within hr
    obtain ⟨hnodes₂, hts₂⟩ := h₂.within hr
    refine ⟨fun node hnode => ?_, fun t ht => ?_⟩
    · rcases List.mem_append.mp hnode with hnode | hnode
      · exact hnodes₁ node hnode
      · exact hnodes₂ node hnode
    · rcases List.mem_append.mp ht with ht | ht
      · exact hts₁ t ht
      · exact hts₂ t ht
  states := by
    rw [← List.append_assoc]
    exact h₂.states

/-! ### One element -/

variable {s : Window E K}

theorem TrackedPrepaint.of_reuse (hb : Begins s b) {touched : List GlobalElementId}
    {w w₁ : Window E K} (w₂ : Window E K) (h : Drawing s b touched w)
    (hstates : TrackedStates labels w) {drawer : Drawer} {range : IndexRange PrepaintStateIndex}
    (hfresh : s.FreshPrepaint ⟨drawer, range⟩) {T : Set EntityId}
    (hcovered : FcGpui.Covered s.rendered.dispatchTree labels₀ range T)
    (hok : w.reusePrepaint drawer range = .ok w₁) (hnext : w₂.next = w₁.next)
    (haccessed : w.accessedEntities ⊆ w₂.accessedEntities) (hT : T ⊆ ↑w₂.accessedEntities) :
    ∃ nodes ts, TrackedPrepaint b labels₀ labels True T w w₂ nodes ts := by
  have hfresh' := hfresh
  obtain ⟨r, hr, hrange, -, hselects⟩ := hfresh'
  have hselects := hrange ▸ hselects.mono hb.grows
  obtain ⟨w₁', draws, hok', -, hg, hkept, hslice, happend, hnodes, -⟩ :=
    h.reusePrepaint hfresh hselects
  obtain rfl := Except.ok.inj (hok'.symm.trans hok)
  obtain ⟨nodes, ts, hslice', hts, hin, hwithin⟩ := hcovered.grow hb.grows.dispatchTree
    (List.prefix_refl labels₀)
  obtain rfl : r.contribution.dispatchTree = nodes :=
    Option.some.inj (hselects.dispatchTree.symm.trans hslice')
  have hexpected : List.Forall₂ (DeferredDraw.Expected b labels₀ w₂.accessedEntities)
      (draws.map DeferredDraw.replay) ts := by
    rw [List.forall₂_map_left_iff]
    apply forall₂_of_slice hslice hts
    intro j d t ht hd hlabel
    exact ⟨j, d, hd, hlabel, rfl, (hwithin t ht).trans hT⟩
  have hlength : (labels ++ ts).length = w₁'.next.deferredDraws.length := by
    rw [happend, List.length_append, List.length_append, hstates.length, hexpected.length_eq]
  refine ⟨r.contribution.dispatchTree, ts, haccessed, ?_, ?_, ?_, fun _ => ⟨hin, hwithin⟩, ?_⟩
  · rw [hnext]
    exact hnodes
  · exact fun node hnode => (hin node hnode).mono hT
  · rw [hnext]
    exact ⟨_, happend, hexpected⟩
  · refine ⟨hnext ▸ hlength, fun id st hst => ?_⟩
    rw [hnext] at hst ⊢
    rw [hkept] at hst
    exact (hstates.states id st hst).grow (hnodes ▸ List.prefix_append _ _) (List.prefix_append _ _)

/-- A cached view is come by: its state was taken, its content was prepainted from `w₀` to
`w₁`, and a state that is covered is stored. -/
theorem TrackedPrepaint.store {rendered : Prop} {T : Set EntityId}
    {w₀ w₁ : Window E K} {nodes : List DispatchNode} {ts : List (Set EntityId)} (w w₂ : Window E K)
    (h : TrackedPrepaint b labels₀ labels rendered T w₀ w₁ nodes ts)
    (htree : w₀.next.dispatchTree = w.next.dispatchTree)
    (hdraws : w₀.next.deferredDraws = w.next.deferredDraws)
    (haccessed : w.accessedEntities ⊆ w₀.accessedEntities) (hnext : w₂.next = w₁.next)
    (haccessed₂ : w₂.accessedEntities = w₁.accessedEntities) {id : GlobalElementId}
    {st : AnyViewState K} (hst : st.Covered id w₁.next.dispatchTree (labels ++ ts)) :
    TrackedPrepaint b labels₀ labels rendered T w (w₂.insertState id st) nodes ts where
  accessed := by
    show w.accessedEntities ⊆ w₂.accessedEntities
    rw [haccessed₂]
    exact haccessed.trans h.accessed
  dispatchTree := by
    show w₂.next.dispatchTree = _
    rw [hnext, h.dispatchTree, htree]
  collected node hnode := by
    show node.In ↑w₂.accessedEntities
    rw [haccessed₂]
    exact h.collected node hnode
  draws := by
    obtain ⟨draws, happend, hexpected⟩ := h.draws
    refine ⟨draws, ?_, ?_⟩
    · show w₂.next.deferredDraws = _
      rw [hnext, happend, hdraws]
    · show List.Forall₂ (DeferredDraw.Expected b labels₀ w₂.accessedEntities) draws ts
      rw [haccessed₂]
      exact hexpected
  within := h.within
  states := by
    have hstates : TrackedStates (labels ++ ts) w₂ :=
      h.states.grow w₂ (hnext ▸ List.prefix_rfl) (by rw [hnext]) fun i st' hst' => hnext ▸ hst'
    apply hstates.insertState
    rw [hnext]
    exact hst

theorem accessed_of_reusePrepaint {w w₁ : Window E K} {drawer : Drawer}
    {range : IndexRange PrepaintStateIndex} (hok : w.reusePrepaint drawer range = .ok w₁) :
    w₁.accessedEntities = w.accessedEntities := by
  obtain ⟨_, -, hrest⟩ := ok_of_bind hok
  rw [← Except.ok.inj hrest]

variable [DecidableEq K]

variable {child : Element E K} {w : Window E K}

theorem prepaint_reused_tracks (hs : s.Ready) (hb : Begins s b) (ht : Tracks s labels₀)
    {touched : List GlobalElementId} (h : Drawing s b touched w)
    (hstates : TrackedStates labels w) {entity : EntityId} {cacheKey : K} {reads : List EntityId}
    {id : GlobalElementId} {st : AnyViewState K} (hid : id ++ [.view entity] ∉ touched)
    (hfound : (b.rendered.elementStates.lookup (id ++ [.view entity])).filter
    (reusable b.dirtyViews w.refreshing entity cacheKey) = some st)
    (hlast : s.PrepaintedLast (id ++ [.view entity]))
    (hcomplete : st.touched ⊆ st.accessedEntities ∧ st.defersCached = false)
    {p : Prepainted E} {w' : Window E K}
    (hok : prepaint (.cached entity cacheKey reads child) id w = .ok (p, w')) (T : Set EntityId) :
    ∃ nodes ts, TrackedPrepaint b labels₀ labels False T w w' nodes ts := by
  have hst := (Option.filter_eq_some_iff.mp hfound).1
  have hfresh := hs.freshPrepaint hlast (hb.states ▸ hst)
  have hcovered := ht.views _ st hlast (hb.states ▸ hst)
  have hrange := hcovered.range
  have hlabel : {entity | st.defersCached = false → entity ∈ st.touched} = ↑st.touched :=
    Set.ext fun x => ⟨fun hx => hx hcomplete.2, fun hx _ => hx⟩
  rw [hlabel] at hrange
  have hdecide := (h.filter_reusable hid entity cacheKey).trans hfound
  unfold prepaint at hok
  simp only [hdecide] at hok
  obtain ⟨w₁, hreuse, hrest⟩ := ok_of_bind hok
  obtain ⟨-, rfl⟩ := Prod.mk.inj (Except.ok.inj hrest)
  have hstart := (h.pushNode (some entity) st.reads).accessState (id ++ [.view entity])
  have hstates₀ := hstates.pushNode (some entity) st.reads
  have haccessed := accessed_of_reusePrepaint hreuse
  let w₂ : Window E K := { w₁ with accessedEntities := w₁.accessedEntities ∪ st.accessedEntities }
  have htouched : (↑st.touched : Set EntityId) ⊆ ↑w₂.accessedEntities :=
    Finset.coe_subset.mpr (hcomplete.1.trans Finset.subset_union_right)
  obtain ⟨nodes, ts, hcontent⟩ := TrackedPrepaint.of_reuse hb w₂ hstart (hstates₀.accessState _)
    hfresh hrange hreuse rfl (haccessed ▸ Finset.subset_union_left) htouched
  obtain ⟨hnodes, hts⟩ := hcontent.within trivial
  have hstored : AnyViewState.Covered
      { st with prepaintRange := ⟨((w.pushNode (some entity) st.reads).accessState
        (id ++ [.view entity])).next.prepaintIndex, w₁.next.prepaintIndex⟩ }
      (id ++ [.view entity]) w₂.next.dispatchTree (labels ++ ts) := by
    refine ⟨?_, hcovered.own, hcovered.reads⟩
    rw [hlabel]
    exact Covered.since hcontent.dispatchTree (hstates₀.accessState _).length hcontent.states.length
      hnodes hts
  have hview := TrackedPrepaint.store (w.pushNode (some entity) st.reads)
    (w₂.recordPrepaint (.view (id ++ [.view entity]))
      ((w.pushNode (some entity) st.reads).accessState
        (id ++ [.view entity])).next.prepaintIndex).2 hcontent rfl rfl
    (Finset.Subset.refl _) rfl rfl hstored
  have hnode : DispatchNode.In ↑st.touched ⟨some entity, st.reads⟩ := by
    intro view hview x hx
    obtain rfl := Option.some.inj hview
    apply hcovered.reads
    rcases Finset.mem_insert.mp hx with rfl | hx
    · apply hcovered.own
      rw [List.getLast?_append]
      rfl
    · exact hx
  refine ⟨_, ts, (hview.pushNode (hnode.mono htouched) hnode).weaken (fun _ => trivial) ?_⟩
  exact fun hfalse => hfalse.elim

theorem prepaint_rendered_tracks {touched : List GlobalElementId}
    (h : Drawing s b touched w) (hstates : TrackedStates labels w) {entity : EntityId}
    {cacheKey : K} {reads : List EntityId} {id : GlobalElementId}
    (hid : id ++ [.view entity] ∉ touched)
    (hfound : (b.rendered.elementStates.lookup (id ++ [.view entity])).filter
    (reusable b.dirtyViews w.refreshing entity cacheKey) = none)
    (hchild : ∀ (w₀ w₁ : Window E K) (p : Prepainted E), w₀.refreshing = true →
    Drawing s b (touched ++ [id ++ [.view entity]]) w₀ → TrackedStates labels w₀ →
    child.layoutReads ⊆ w₀.accessedEntities → prepaint child (id ++ [.view entity]) w₀ = .ok (p, w₁) →
    ∃ nodes ts, TrackedPrepaint b labels₀ labels True child.renderLabel w₀ w₁ nodes ts)
    {p : Prepainted E} {w' : Window E K}
    (hok : prepaint (.cached entity cacheKey reads child) id w = .ok (p, w')) :
    ∃ nodes ts, TrackedPrepaint b labels₀ labels True
      (Element.cached entity cacheKey reads child).renderLabel w w' nodes ts := by
  have hdecide := (h.filter_reusable hid entity cacheKey).trans hfound
  unfold prepaint at hok
  simp only [hdecide] at hok
  obtain ⟨⟨p₁, w₁⟩, hprepaint, hrest⟩ := ok_of_bind hok
  obtain ⟨-, rfl⟩ := Prod.mk.inj (Except.ok.inj hrest)
  have hstates₀ := hstates.pushNode (some entity) (insert entity reads.toFinset)
  have hstart := (h.pushNode (some entity) (insert entity reads.toFinset)).accessState
    (id ++ [.view entity])
  let w₀ : Window E K :=
    { (w.pushNode (some entity) (insert entity reads.toFinset)).accessState
        (id ++ [.view entity]) with
      refreshing := true
      accessedEntities := w.accessedEntities ∪ (insert entity reads.toFinset ∪ child.layoutReads) }
  have hdrawing : Drawing s b (touched ++ [id ++ [.view entity]]) w₀ := { hstart with }
  have hstates₁ : TrackedStates labels w₀ :=
    (hstates₀.accessState (id ++ [.view entity])).grow w₀ List.prefix_rfl rfl
      fun _ _ hst => hst
  have hlayout : child.layoutReads ⊆ w₀.accessedEntities :=
    fun x hx => Finset.mem_union_right _ (Finset.mem_union_right _ hx)
  obtain ⟨nodes, ts, hcontent⟩ := hchild w₀ w₁ p₁ rfl hdrawing hstates₁ hlayout hprepaint
  obtain ⟨hnodes, hts⟩ := hcontent.within trivial
  have hlabel : child.renderLabel ⊆ (Element.cached entity cacheKey reads child).renderLabel :=
    fun x hx hdefers => Finset.mem_union_right _ (hx hdefers)
  have hstored : AnyViewState.Covered
      (⟨⟨w₀.next.prepaintIndex, w₁.next.prepaintIndex⟩, ⟨{}, {}⟩, cacheKey,
        w₁.accessedEntities \ w.accessedEntities, insert entity reads.toFinset,
        insert entity reads.toFinset ∪ child.renderReads, child.defersCached⟩ : AnyViewState K)
      (id ++ [.view entity]) w₁.next.dispatchTree (labels ++ ts) := by
    refine ⟨?_, fun view hview => ?_, Finset.subset_union_left⟩
    · exact Covered.since hcontent.dispatchTree hstates₁.length hcontent.states.length
        (fun node hnode => (hnodes node hnode).mono hlabel) fun t ht => (hts t ht).trans hlabel
    · rw [List.getLast?_append] at hview
      cases hview
      exact Finset.mem_insert_self _ _
  have hview := TrackedPrepaint.store (w.pushNode (some entity) (insert entity reads.toFinset))
    (Window.recordPrepaint { w₁ with refreshing := w.refreshing }
      (.view (id ++ [.view entity])) w₀.next.prepaintIndex).2 hcontent rfl rfl
    Finset.subset_union_left rfl rfl hstored
  refine ⟨_, ts, (hview.weaken (fun h => h) fun _ => hlabel).pushNode
    (DispatchNode.in_own fun x hx => ?_) (DispatchNode.in_own fun x hx => ?_)⟩
  · apply hcontent.accessed
    exact Finset.mem_union_right _ (Finset.mem_union_left _ hx)
  · exact fun _ => Finset.mem_union_left _ hx

omit [DecidableEq K] in
theorem TrackedPrepaint.deferred (b : Window E K) (labels₀ : List (Set EntityId)) {labels : List (Set EntityId)}
    (hst : TrackedStates labels w) (id : GlobalElementId) (priority : Nat)
    (hl : (Element.deferred priority child).layoutReads ⊆ w.accessedEntities) :
    TrackedPrepaint b labels₀ labels (w.refreshing = true ∨ (Element.deferred priority child).hasCached = false)
      (Element.deferred priority child).renderLabel (w.pushNode none ∅)
      ((w.pushNode none ∅).deferDraw id priority child) [] [child.deferLabel] where
  accessed := Finset.Subset.refl _
  dispatchTree := (List.append_nil _).symm
  collected _ hnode := absurd hnode List.not_mem_nil
  draws := ⟨_, rfl, List.Forall₂.cons ⟨rfl, hl⟩ List.Forall₂.nil⟩
  within _ := ⟨fun _ hnode => absurd hnode List.not_mem_nil, fun t ht => by
    rw [List.mem_singleton.mp ht]
    exact Set.Subset.rfl⟩
  states := by
    refine ⟨?_, fun i st hst' => ?_⟩
    · show _ = (w.next.deferredDraws ++ _).length
      rw [List.length_append, List.length_append, hst.length]
      rfl
    · exact ((hst.pushNode none ∅).states i st hst').grow List.prefix_rfl (List.prefix_append _ _)

/-- **What a prepaint adds has read only what is collected.** -/
theorem prepaint_tracks (hs : s.Ready) (hb : Begins s b) (ht : Tracks s labels₀) (e : Element E K) :
    ∀ (id : GlobalElementId) (shown : Bool) (touched : List GlobalElementId)
      (labels : List (Set EntityId)) (w : Window E K) (p : Prepainted E) (w' : Window E K),
      Drawing s b touched w → Visitable s touched (e.visits b id w.refreshing shown) →
      Complete b (e.visits b id w.refreshing shown) → TrackedStates labels w →
      e.layoutReads ⊆ w.accessedEntities → prepaint e id w = .ok (p, w') →
      ∃ nodes ts, TrackedPrepaint b labels₀ labels (w.refreshing = true ∨ e.hasCached = false)
        e.renderLabel w w' nodes ts := by
  induction e with
  | empty =>
    intro id shown touched labels w p w' h hv hc hst hl hok
    obtain ⟨-, rfl⟩ := Prod.mk.inj (Except.ok.inj hok)
    exact ⟨[], [], TrackedPrepaint.of_kept hst rfl rfl rfl⟩
  | append first rest ihFirst ihRest =>
    intro id shown touched labels w p w' h hv hc hst hl hok
    obtain ⟨p₁, w₁, draws₁, hok₁, h₁⟩ := prepaint_spec hs hb first id shown touched w h hv.left
    have hv₂ := h₁.visitable_rest hv
    have hc₁ : Complete b (first.visits b id w.refreshing shown) :=
      fun v hmem => hc v (List.mem_append_left _ hmem)
    have hc₂ : Complete b (rest.visits b id w.refreshing shown) :=
      fun v hmem => hc v (List.mem_append_right _ hmem)
    rw [← h₁.refreshing] at hv₂ hc₂
    unfold prepaint at hok
    rw [bind_of_ok hok₁] at hok
    obtain ⟨⟨p₂, w₂⟩, hok₂, hrest⟩ := ok_of_bind hok
    obtain ⟨-, rfl⟩ := Prod.mk.inj (Except.ok.inj hrest)
    obtain ⟨nodes₁, ts₁, ht₁⟩ := ihFirst id shown touched labels w p₁ w₁ h hv.left hc₁ hst
      (Finset.union_subset_left hl) hok₁
    obtain ⟨nodes₂, ts₂, ht₂⟩ := ihRest id shown _ (labels ++ ts₁) w₁ p₂ w₂ h₁.drawing hv₂ hc₂
      ht₁.states ((Finset.union_subset_right hl).trans ht₁.accessed) hok₂
    rw [h₁.refreshing] at ht₂
    have hcached : (first.append rest).hasCached = false →
        first.hasCached = false ∧ rest.hasCached = false := fun h => Bool.or_eq_false_iff.mp h
    have hdefers : (first.append rest).defersCached = false →
        first.defersCached = false ∧ rest.defersCached = false := fun h => Bool.or_eq_false_iff.mp h
    refine ⟨_, _, (ht₁.weaken (fun h => h.imp_right fun h => (hcached h).1) fun _ => ?_).append
      (ht₂.weaken (fun h => h.imp_right fun h => (hcached h).2) fun _ => ?_)⟩
    · exact fun x hx h => Finset.mem_union_left _ (hx (hdefers h).1)
    · exact fun x hx h => Finset.mem_union_right _ (hx (hdefers h).2)
  | leaf prepaintOps paintOps =>
    intro id shown touched labels w p w' h hv hc hst hl hok
    obtain ⟨-, rfl⟩ := Prod.mk.inj (Except.ok.inj hok)
    obtain ⟨hstates, hdraws, htree⟩ := prepaintOps_kept id prepaintOps (w.pushNode none ∅).next
    exact ⟨_, [], (TrackedPrepaint.of_kept (hst.pushNode none ∅) htree hdraws hstates).pushNode
      (DispatchNode.in_none _ _) (DispatchNode.in_none _ _)⟩
  | withId name child ih =>
    intro id shown touched labels w p w' h hv hc hst hl hok
    obtain ⟨⟨p₁, w₁⟩, hok₁, hrest⟩ := ok_of_bind hok
    obtain ⟨-, rfl⟩ := Prod.mk.inj (Except.ok.inj hrest)
    obtain ⟨nodes, ts, htracks⟩ := ih (id ++ [name]) shown touched labels _ p₁ w₁
      (h.pushNode none ∅) hv hc (hst.pushNode none ∅) hl hok₁
    exact ⟨_, ts, htracks.pushNode (DispatchNode.in_none _ _) (DispatchNode.in_none _ _)⟩
  | hidden child ih =>
    intro id shown touched labels w p w' h hv hc hst hl hok
    obtain ⟨⟨p₁, w₁⟩, hok₁, hrest⟩ := ok_of_bind hok
    obtain ⟨-, rfl⟩ := Prod.mk.inj (Except.ok.inj hrest)
    obtain ⟨nodes, ts, htracks⟩ := ih id false touched labels _ p₁ w₁
      (h.pushNode none ∅) hv hc (hst.pushNode none ∅) hl hok₁
    exact ⟨_, ts, htracks.pushNode (DispatchNode.in_none _ _) (DispatchNode.in_none _ _)⟩
  | view entity reads child ih =>
    intro id shown touched labels w p w' h hv hc hst hl hok
    obtain ⟨⟨p₁, w₁⟩, hok₁, hrest⟩ := ok_of_bind hok
    obtain ⟨-, rfl⟩ := Prod.mk.inj (Except.ok.inj hrest)
    obtain ⟨nodes, ts, htracks⟩ := ih (id ++ [ElementId.view entity]) shown touched labels _ p₁ w₁
      (h.pushNode (some entity) (insert entity reads.toFinset)) hv hc
      (hst.pushNode (some entity) (insert entity reads.toFinset)) (Finset.union_subset_right hl) hok₁
    have hlabel : child.renderLabel ⊆ (Element.view entity reads child).renderLabel :=
      fun x hx hdefers => Finset.mem_union_right _ (hx hdefers)
    refine ⟨_, ts, (htracks.weaken (fun h => h) fun _ => hlabel).pushNode
      (DispatchNode.in_own fun x hx => ?_) (DispatchNode.in_own fun x hx => ?_)⟩
    · exact htracks.accessed (hl (Finset.mem_union_left _ hx))
    · exact fun _ => Finset.mem_union_left _ hx
  | cached entity cacheKey reads child ih =>
    intro id shown touched labels w p w' h hv hc hst hl hok
    rw [Element.visits] at hv hc
    cases hfound : (b.rendered.elementStates.lookup (id ++ [.view entity])).filter
        (reusable b.dirtyViews w.refreshing entity cacheKey) with
    | some st =>
      rw [hfound] at hv hc
      obtain ⟨hlookup, hreusable⟩ := Option.filter_eq_some_iff.mp hfound
      obtain ⟨nodes, ts, htracks⟩ := prepaint_reused_tracks hs hb ht h hst
        (hv.new _ (List.mem_singleton_self _)) hfound (hv.last _ (List.mem_singleton_self _) rfl)
        (hc _ (List.mem_singleton_self _) rfl st hlookup) hok
        (Element.cached entity cacheKey reads child).renderLabel
      refine ⟨nodes, ts, htracks.weaken (fun hrendered => ?_) fun _ => Set.Subset.rfl⟩
      rcases hrendered with hrefreshing | hcached
      · rw [reusable, hrefreshing] at hreusable
        exact absurd hreusable (by simp)
      · exact absurd hcached (by simp [Element.hasCached])
    | none =>
      rw [hfound] at hv hc
      have hcons : Visitable s touched ([⟨id ++ [.view entity], false, shown⟩] ++
        child.visits b (id ++ [.view entity]) true shown) := hv
      have hchild : ∀ (w₀ w₁ : Window E K) (p₁ : Prepainted E), w₀.refreshing = true →
          Drawing s b (touched ++ [id ++ [.view entity]]) w₀ → TrackedStates labels w₀ →
          child.layoutReads ⊆ w₀.accessedEntities →
          prepaint child (id ++ [.view entity]) w₀ = .ok (p₁, w₁) →
          ∃ nodes ts, TrackedPrepaint b labels₀ labels True child.renderLabel w₀ w₁ nodes ts := by
        intro w₀ w₁ p₁ hrefreshing h₀ hst₀ hl₀ hok₀
        have hcontent := ih (id ++ [ElementId.view entity]) shown _ labels w₀ p₁ w₁ h₀
        rw [hrefreshing] at hcontent
        obtain ⟨nodes, ts, htracks⟩ := hcontent (hcons.right [_] fun _ hmem => hmem)
          (fun v hmem => hc v (List.mem_cons_of_mem _ hmem)) hst₀ hl₀ hok₀
        exact ⟨nodes, ts, htracks.weaken (fun _ => .inl rfl) fun _ => Set.Subset.rfl⟩
      obtain ⟨nodes, ts, htracks⟩ := prepaint_rendered_tracks h hst
        (hv.new _ List.mem_cons_self) hfound hchild hok
      exact ⟨nodes, ts, htracks.weaken (fun _ => trivial) fun _ => Set.Subset.rfl⟩
  | deferred priority child _ =>
    intro id shown touched labels w p w' h hv hc hst hl hok
    obtain ⟨-, rfl⟩ := Prod.mk.inj (Except.ok.inj hok)
    have hdraw := TrackedPrepaint.deferred b labels₀ hst id priority hl
    exact ⟨_, _, hdraw.pushNode (DispatchNode.in_none _ _) (DispatchNode.in_none _ _)⟩

end Window

end TrackedReads

end FcGpui
