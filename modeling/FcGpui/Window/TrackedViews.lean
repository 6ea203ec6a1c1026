import FcGpui.Window.TrackedReads

/-!
# The views of a frame are tracked

`run_tracksViews`: in every run of draws that meet `TracksReused`, after each draw the
tracked entities of the window contain what the last render of every view in the
frame read, and the view itself.

The condition asks, besides what is needed for the ranges that are copied, that
the stored set of every view that is reused has all that its last render touched.
What is stored is a difference: an entity that had been accessed before in that draw
is not in it, and is lost when the view is reused without whoever accessed it before.
`entity_lost` is a run of two draws in which this happens.
-/

namespace FcGpui

section TrackedViews

variable {E K : Type}

theorem Element.deferLabel_of_hasCached {e : Element E K} (h : e.hasCached = true)
    (T : Set EntityId) : T ⊆ e.deferLabel :=
  fun _ _ hnone => absurd (h.symm.trans hnone) (by simp)

namespace Window

variable {s b : Window E K} {labels₀ labels : List (Set EntityId)}

/-- Between two deferred draws, what is tracked. -/
structure TrackedRounds (b : Window E K) (labels₀ : List (Set EntityId)) (done todo : List Nat)
    (labels : List (Set EntityId)) (w : Window E K) : Prop where
  states : TrackedStates labels w
  nodes : ∀ node ∈ w.next.dispatchTree, node.In ↑w.accessedEntities
  expected : ∀ ix ∈ todo, ∀ d t, w.next.deferredDraws[ix]? = some d → labels[ix]? = some t →
    d.Expected b labels₀ w.accessedEntities t
  covered : ∀ ix ∈ done, ∀ (d : DeferredDraw E K) (t : Set EntityId),
    w.next.deferredDraws[ix]? = some d → labels[ix]? = some t →
    FcGpui.Covered w.next.dispatchTree labels d.prepaintRange t

theorem TrackedRounds.reorder {done todo todo' : List Nat} {w : Window E K}
    (h : TrackedRounds b labels₀ done todo labels w) (hperm : todo'.Perm todo) :
    TrackedRounds b labels₀ done todo' labels w :=
  { h with expected := fun ix hix => h.expected ix (hperm.subset hix) }

/-- The draw at `ix` was prepainted from `w` to `w₁`, within its label, and is put back at
its place with the range of that. -/
theorem TrackedRounds.store {done todo : List Nat} {ix : Nat} {w w₁ w' : Window E K}
    {d d' : DeferredDraw E K} {t : Set EntityId} {nodes : List DispatchNode}
    {ts : List (Set EntityId)} (h : TrackedRounds b labels₀ done (ix :: todo) labels w)
    (hnodup : (done ++ ix :: todo).Nodup) (hlt : ∀ j ∈ done ++ ix :: todo, j < labels.length)
    (hlabel : labels[ix]? = some t)
    (hp : TrackedPrepaint b labels₀ labels True t w w₁ nodes ts)
    (hrange : d'.prepaintRange = ⟨w.next.prepaintIndex, w₁.next.prepaintIndex⟩)
    (hw' : w' = (w₁.recordPrepaint (.deferred ix d.priority d.elementIdStack)
      w.next.prepaintIndex).2.setDeferredDraw ix d') :
    TrackedRounds b labels₀ (done ++ [ix]) (todo ++ List.range' labels.length ts.length)
      (labels ++ ts) w' := by
  obtain ⟨draws, happend, hexpected⟩ := hp.draws
  obtain ⟨hnodes, hts⟩ := hp.within trivial
  have hlength := h.states.length
  have hix : ix < labels.length := hlt ix (by simp)
  have htree : w'.next.dispatchTree = w₁.next.dispatchTree := by
    rw [hw']
    rfl
  have haccessed : w'.accessedEntities = w₁.accessedEntities := by
    rw [hw']
    rfl
  have hdraws : w'.next.deferredDraws = (w.next.deferredDraws ++ draws).set ix d' := by
    rw [hw', ← happend]
    rfl
  -- the other positions hold what they held
  have hkept : ∀ j, j ≠ ix → j < labels.length →
      w'.next.deferredDraws[j]? = w.next.deferredDraws[j]? ∧ (labels ++ ts)[j]? = labels[j]? := by
    intro j hne hj
    rw [hdraws, List.getElem?_set_ne hne.symm, List.getElem?_append_left (hlength ▸ hj),
      List.getElem?_append_left hj]
    exact ⟨rfl, rfl⟩
  have hcovered : FcGpui.Covered w₁.next.dispatchTree (labels ++ ts) d'.prepaintRange t := by
    rw [hrange]
    exact Covered.since hp.dispatchTree hlength hp.states.length hnodes hts
  refine ⟨?_, fun node hnode => ?_, fun j hj e u he hu => ?_, fun j hj e u he hu => ?_⟩
  · apply hp.states.grow w' (htree ▸ List.prefix_rfl)
    · rw [hdraws, List.length_set, happend]
    · intro id st hst
      rw [hw'] at hst
      exact hst
  · rw [htree, hp.dispatchTree] at hnode
    rw [haccessed]
    rcases List.mem_append.mp hnode with hnode | hnode
    · exact (h.nodes node hnode).mono (Finset.coe_subset.mpr hp.accessed)
    · exact hp.collected node hnode
  · rw [haccessed]
    rcases List.mem_append.mp hj with hj | hj
    · have hne : j ≠ ix := by
        rintro rfl
        exact (List.nodup_cons.mp (List.nodup_append.mp hnodup).2.1).1 hj
      obtain ⟨hget, hgetLabel⟩ := hkept j hne (hlt j (by simp [hj]))
      exact (h.expected j (List.mem_cons_of_mem _ hj) e u (hget ▸ he) (hgetLabel ▸ hu)).mono
        hp.accessed
    · have hle := (List.mem_range'_1.mp hj).1
      have hne : ix ≠ j := by omega
      rw [hdraws, List.getElem?_set_ne hne, List.getElem?_append_right (hlength ▸ hle)] at he
      rw [List.getElem?_append_right hle, hlength] at hu
      obtain ⟨hlt₁, he⟩ := List.getElem?_eq_some_iff.mp he
      obtain ⟨hlt₂, hu⟩ := List.getElem?_eq_some_iff.mp hu
      rw [← he, ← hu]
      exact hexpected.get hlt₁ hlt₂
  · rw [htree]
    by_cases hne : j = ix
    · subst hne
      rw [hdraws, List.getElem?_set_self (by rw [List.length_append]; omega)] at he
      rw [List.getElem?_append_left hix, hlabel] at hu
      obtain rfl := Option.some.inj he
      obtain rfl := Option.some.inj hu
      exact hcovered
    · have hj : j ∈ done := by
        rcases List.mem_append.mp hj with hj | hj
        · exact hj
        · exact absurd (List.mem_singleton.mp hj) hne
      obtain ⟨hget, hgetLabel⟩ := hkept j hne (hlt j (List.mem_append_left _ hj))
      exact (h.covered j hj e u (hget ▸ he) (hgetLabel ▸ hu)).grow
        (hp.dispatchTree ▸ List.prefix_append _ _) (List.prefix_append _ _)

variable [DecidableEq K]

variable {done : List Nat} {planned rootVisits : List Visit} {w : Window E K}

theorem prepaintDeferredElement_tracks (hs : s.Ready) (hb : Begins s b) (ht : Tracks s labels₀)
    (hplanned : Visitable s [] planned)
    (hcomplete : Complete b planned) {todo : List Nat} {ix : Nat} {w₁ : Window E K}
    (h : Rounds s b rootVisits planned done (ix :: todo) w) (hstates : TrackedStates labels w)
    {d : DeferredDraw E K} {t : Set EntityId} (hd : w.next.deferredDraws[ix]? = some d)
    (hexpected : d.Expected b labels₀ w.accessedEntities t) {element : DeferredElement E K}
    (hok : w.prepaintDeferredElement ix d = .ok (element, w₁)) :
    ∃ nodes ts, TrackedPrepaint b labels₀ labels True t w w₁ nodes ts := by
  have hat : visitsAt b w ix = d.visits b := itemsAt_of_getElem? hd
  have hwaiting := h.waiting ix List.mem_cons_self d hd
  unfold prepaintDeferredElement at hok
  unfold DeferredDraw.Expected at hexpected
  unfold DeferredDraw.Waiting at hwaiting
  cases hcase : d.element with
  | laidOut e =>
    rw [hcase] at hok hexpected
    obtain ⟨⟨p, w₂⟩, hprepaint, hpair⟩ := ok_of_bind hok
    obtain ⟨-, rfl⟩ := Prod.mk.inj (Except.ok.inj hpair)
    obtain ⟨rfl, hlayout⟩ := hexpected
    have hvisits : visitsAt b w ix = e.visits b d.elementIdStack w.refreshing true := by
      rw [hat, DeferredDraw.visits, hcase, h.refreshing]
    have hvisitable := h.visitable hplanned
    have hcomplete' : Complete b (visitsAt b w ix) := by
      intro v hv
      apply hcomplete v
      apply h.perm.subset
      rw [List.flatMap_append, List.flatMap_cons]
      exact List.mem_append_right _ (List.mem_append_right _ (List.mem_append_left _ hv))
    rw [hvisits] at hvisitable hcomplete'
    obtain ⟨nodes, ts, htracks⟩ := prepaint_tracks hs hb ht e d.elementIdStack true _ labels w p w₂
      h.drawing hvisitable hcomplete' hstates hlayout hprepaint
    refine ⟨nodes, ts, { htracks with within := fun _ => ?_ }⟩
    cases hcached : e.hasCached with
    | true =>
      refine ⟨fun node _ view _ entity _ => ?_, fun t _ => Element.deferLabel_of_hasCached hcached t⟩
      exact Element.deferLabel_of_hasCached hcached Set.univ (Set.mem_univ entity)
    | false =>
      obtain ⟨hnodes, hts⟩ := htracks.within (.inr hcached)
      exact ⟨fun node hnode => (hnodes node hnode).mono e.renderLabel_subset_deferLabel,
        fun t ht => (hts t ht).trans e.renderLabel_subset_deferLabel⟩
  | prepainted p =>
    rw [hcase] at hwaiting
    exact hwaiting.elim
  | none =>
    rw [hcase] at hok hexpected hwaiting
    obtain ⟨w₂, hreuse, hpair⟩ := ok_of_bind hok
    obtain ⟨-, rfl⟩ := Prod.mk.inj (Except.ok.inj hpair)
    obtain ⟨j, d₀, hd₀, hplace, hrange, -⟩ := hwaiting
    obtain ⟨k, d₁, hd₁, hlabel₁, hrange₁, hsub⟩ := hexpected
    have hfresh := hs.freshPrepaint_deferred hb ix hd₀ hplace hrange
    have hcovered := ht.deferred k d₁ t (hb.deferredDraws ▸ hd₁) hlabel₁
    rw [hrange₁] at hcovered
    have haccessed := accessed_of_reusePrepaint hreuse
    exact TrackedPrepaint.of_reuse hb w₂ h.drawing hstates hfresh hcovered hreuse rfl
      (haccessed ▸ Finset.Subset.refl _) (haccessed ▸ hsub)

theorem prepaintDeferredDraw_tracks (hs : s.Ready) (hb : Begins s b) (ht : Tracks s labels₀)
    (hplanned : Visitable s [] planned)
    (hcomplete : Complete b planned) {todo : List Nat} {ix : Nat} {w' : Window E K}
    (h : Rounds s b rootVisits planned done (ix :: todo) w)
    (htracked : TrackedRounds b labels₀ done (ix :: todo) labels w) (hok : w.prepaintDeferredDraw ix = .ok w') :
    ∃ ts, w'.next.deferredDraws.length = w.next.deferredDraws.length + ts.length ∧
      TrackedRounds b labels₀ (done ++ [ix])
        (todo ++ List.range' w.next.deferredDraws.length ts.length) (labels ++ ts) w' := by
  have hlength := htracked.states.length
  have hix : ix < w.next.deferredDraws.length := h.lt (by simp)
  have hd := List.getElem?_eq_getElem hix
  generalize w.next.deferredDraws[ix] = d at hd
  have hlabel := List.getElem?_eq_getElem (hlength ▸ hix)
  generalize labels[ix] = t at hlabel
  have hexpected := htracked.expected ix List.mem_cons_self d t hd hlabel
  unfold prepaintDeferredDraw at hok
  rw [hd] at hok
  obtain ⟨⟨element, w₁⟩, helement, hrest⟩ := ok_of_bind hok
  have hw' := (Except.ok.inj hrest).symm
  obtain ⟨nodes, ts, hp⟩ := prepaintDeferredElement_tracks hs hb ht hplanned hcomplete h
    htracked.states hd hexpected helement
  obtain ⟨draws, happend, hforall⟩ := hp.draws
  have hresult := htracked.store h.nodup (fun j hj => hlength ▸ h.lt hj) hlabel hp rfl hw'
  rw [hlength] at hresult
  refine ⟨ts, ?_, hresult⟩
  rw [hw']
  show (w₁.next.deferredDraws.set ix _).length = _
  rw [List.length_set, happend, List.length_append, hforall.length_eq]

theorem round_tracks (hs : s.Ready) (hb : Begins s b) (ht : Tracks s labels₀)
    (hplanned : Visitable s [] planned) (hcomplete : Complete b planned) (ixs : List Nat) :
    ∀ {done later : List Nat} {labels : List (Set EntityId)} {w w' : Window E K},
      Rounds s b rootVisits planned done (ixs ++ later) w →
      TrackedRounds b labels₀ done (ixs ++ later) labels w →
      ixs.foldlM prepaintDeferredDraw w = .ok w' →
      ∃ n labels', w'.next.deferredDraws.length = w.next.deferredDraws.length + n ∧
        Rounds s b rootVisits planned (done ++ ixs)
          (later ++ List.range' w.next.deferredDraws.length n) w' ∧
        TrackedRounds b labels₀ (done ++ ixs)
          (later ++ List.range' w.next.deferredDraws.length n) labels' w' := by
  induction ixs with
  | nil =>
    intro done later labels w w' h htracked hok
    obtain rfl := Except.ok.inj hok
    refine ⟨0, labels, rfl, ?_, ?_⟩
    · rw [List.append_nil, List.range'_zero, List.append_nil]
      exact h
    · rw [List.append_nil, List.range'_zero, List.append_nil]
      exact htracked
  | cons ix ixs ih =>
    intro done later labels w w' h htracked hok
    obtain ⟨w₁, n, hok₁, hlength₁, h₁⟩ := prepaintDeferredDraw_spec hs hb hplanned h
    obtain ⟨ts, hlength, htracked₁⟩ := prepaintDeferredDraw_tracks hs hb ht hplanned hcomplete h
      htracked hok₁
    obtain rfl : n = ts.length := by omega
    rw [List.foldlM_cons, bind_of_ok hok₁] at hok
    have hassoc : ∀ m, ixs ++ later ++ m = ixs ++ (later ++ m) := fun m => List.append_assoc _ _ _
    obtain ⟨m, labels', hlength₂, h₂, htracked₂⟩ := ih (hassoc _ ▸ h₁) (hassoc _ ▸ htracked₁) hok
    refine ⟨ts.length + m, labels', by omega, ?_, ?_⟩
    · rw [List.append_assoc, List.singleton_append, List.append_assoc, hlength₁,
        List.range'_append_1] at h₂
      exact h₂
    · rw [List.append_assoc, List.singleton_append, List.append_assoc, hlength₁,
        List.range'_append_1] at htracked₂
      exact htracked₂

theorem prepaintDeferredDraws_tracks (hs : s.Ready) (hb : Begins s b) (ht : Tracks s labels₀)
    (hplanned : Visitable s [] planned) (hcomplete : Complete b planned) (rounds : Nat) :
    ∀ {roundStart : Nat} {done : List Nat} {labels : List (Set EntityId)} {w w' : Window E K},
      roundStart ≤ w.next.deferredDraws.length →
      Rounds s b rootVisits planned done
        (List.range' roundStart (w.next.deferredDraws.length - roundStart)) w →
      TrackedRounds b labels₀ done
        (List.range' roundStart (w.next.deferredDraws.length - roundStart)) labels w →
      prepaintDeferredDraws rounds roundStart w = .ok w' →
      ∃ done' labels', Rounds s b rootVisits planned done' [] w' ∧
        TrackedRounds b labels₀ done' [] labels' w' := by
  induction rounds with
  | zero =>
    intro roundStart done labels w w' _ h htracked hok
    by_cases hend : roundStart = w.next.deferredDraws.length
    · rw [prepaintDeferredDraws_end 0 hend] at hok
      obtain rfl := Except.ok.inj hok
      rw [range'_nothingLeft hend] at h htracked
      exact ⟨done, labels, h, htracked⟩
    · rw [prepaintDeferredDraws, if_neg hend] at hok
      exact absurd hok (by simp)
  | succ rounds ih =>
    intro roundStart done labels w w' hle h htracked hok
    by_cases hend : roundStart = w.next.deferredDraws.length
    · rw [prepaintDeferredDraws_end _ hend] at hok
      obtain rfl := Except.ok.inj hok
      rw [range'_nothingLeft hend] at h htracked
      exact ⟨done, labels, h, htracked⟩
    · rw [prepaintDeferredDraws, if_neg hend] at hok
      obtain ⟨w₁, hround, hrest⟩ := ok_of_bind hok
      have horder := w.traversalOrder_perm roundStart w.next.deferredDraws.length
      have h' := h.reorder horder
      have htracked' := htracked.reorder horder
      rw [← List.append_nil (w.traversalOrder _ _)] at h' htracked'
      obtain ⟨n, labels', hlength, h₁, htracked₁⟩ := round_tracks hs hb ht hplanned hcomplete _ h'
        htracked' hround
      have hn : w₁.next.deferredDraws.length - w.next.deferredDraws.length = n := by omega
      rw [List.nil_append, ← hn] at h₁ htracked₁
      exact ih (by omega) h₁ htracked₁ hrest

/-! ### Runs of draws -/

/-- Every view in the frame, and what its last render read, is tracked. -/
def TracksViews (s : Window E K) : Prop :=
  ∀ node ∈ s.rendered.dispatchTree, ∀ view ∈ node.viewId,
    insert view node.reads ⊆ s.trackedEntities

/-- The draw reuses only views that the last draw came by, and of each of them all that its
last render touched is stored, and no cached view is hidden in what it deferred. -/
def TracksReused (s : Window E K) (input : DrawInput E K) : Prop :=
  s.ReusesVisited input ∧ Complete (s.beginDraw input) (s.plannedVisits input)

omit [DecidableEq K] in
instance (b : Window E K) (visits : List Visit) : Decidable (Complete b visits) :=
  inferInstanceAs (Decidable (∀ v ∈ visits, v.reused = true →
    ∀ st ∈ b.rendered.elementStates.lookup v.id,
      st.touched ⊆ st.accessedEntities ∧ st.defersCached = false))

instance (s : Window E K) (input : DrawInput E K) : Decidable (s.TracksReused input) :=
  inferInstanceAs (Decidable (_ ∧ _))

omit [DecidableEq K] in
instance (s : Window E K) : Decidable s.TracksViews :=
  inferInstanceAs (Decidable (∀ node ∈ s.rendered.dispatchTree, ∀ view ∈ node.viewId,
    insert view node.reads ⊆ s.trackedEntities))

/-- What holds between two draws of a run. -/
def Tracking (s : Window E K) : Prop := s.Ready ∧ ∃ labels, s.Tracks labels ∧ s.TracksViews

omit [DecidableEq K] in
theorem tracking_new : (new : Window E K).Tracking := by
  refine ⟨ready_new, [], ⟨rfl, fun j d t hd => ?_, fun id st hid => ?_⟩, fun node hnode => ?_⟩
  · exact absurd hd (by simp [new, Frame.empty])
  · obtain ⟨r, hr, -⟩ := hid
    exact absurd hr List.not_mem_nil
  · exact absurd hnode List.not_mem_nil

omit [DecidableEq K] in
theorem TrackedPrepaint.rounds (hs : s.Ready) {input : DrawInput E K} {rendered : Prop}
    {T : Set EntityId} {nodes : List DispatchNode} {ts : List (Set EntityId)}
    (h : TrackedPrepaint (s.beginDraw input) labels₀ [] rendered T (s.beginDraw input) w nodes ts) :
    TrackedRounds (s.beginDraw input) labels₀ []
      (List.range' 0 (w.next.deferredDraws.length - 0)) ts w := by
  obtain ⟨draws, happend, hexpected⟩ := h.draws
  have hempty : (s.beginDraw input).next = .empty := hs.next
  refine ⟨h.states, fun node hnode => ?_, fun ix _ d t hd ht => ?_,
    fun ix hix => absurd hix List.not_mem_nil⟩
  · rw [h.dispatchTree, hempty] at hnode
    exact h.collected node hnode
  · rw [happend, hempty] at hd
    obtain ⟨hlt₁, hd⟩ := List.getElem?_eq_some_iff.mp hd
    obtain ⟨hlt₂, ht⟩ := List.getElem?_eq_some_iff.mp ht
    rw [← hd, ← ht]
    exact hexpected.get hlt₁ hlt₂

theorem TrackedRounds.endDraw {order : List Nat} {touched : List GlobalElementId} {w₂ w₄ : Window E K}
    (hrounds : Rounds s b rootVisits planned done [] w₂) (h : TrackedRounds b labels₀ done [] labels w₂)
    (hpaint : PaintRounds s b w₂ touched order [] w₄) : w₄.endDraw.Tracks labels ∧ w₄.endDraw.TracksViews := by
  have hkeeps := hpaint.keeps
  have htree : w₄.endDraw.rendered.dispatchTree = w₂.next.dispatchTree := hkeeps.dispatchTree
  have hrange := hrounds.order
  rw [List.append_nil] at hrange
  refine ⟨⟨?_, fun j d t hd hlabel => ?_, fun id st hid hst => ?_⟩, fun node hnode view hview => ?_⟩
  · have hlength := congrArg List.length hkeeps.ranges
    rw [List.length_map, List.length_map] at hlength
    exact h.states.length.trans hlength.symm
  · have hget : (w₄.next.deferredDraws.map DeferredDraw.prepaintRange)[j]? = some d.prepaintRange := by
      rw [List.getElem?_map]
      exact congrArg (Option.map _) hd
    rw [hkeeps.ranges, List.getElem?_map, Option.map_eq_some_iff] at hget
    obtain ⟨d₂, hd₂, hsame⟩ := hget
    rw [htree, ← hsame]
    apply h.covered j _ d₂ t hd₂ hlabel
    exact hrange.symm.subset (List.mem_range.mpr (List.getElem?_eq_some_iff.mp hd₂).1)
  · obtain ⟨r, hr, hdrawer⟩ := hid
    have htouched := hpaint.drawing.recorded r hr id hdrawer
    have hst : w₄.next.elementStates.lookup id = some st :=
      (lookup_finishStates (hpaint.drawing.taken id htouched)).symm.trans hst
    obtain ⟨range, hrepainted⟩ := hkeeps.states id
    rw [hst] at hrepainted
    obtain ⟨st₂, hst₂, rfl⟩ := Option.map_eq_some_iff.mp hrepainted.symm
    rw [htree]
    exact { h.states.states id st₂ hst₂ with }
  · rw [htree] at hnode
    show insert view node.reads ⊆ w₄.accessedEntities
    rw [hkeeps.accessedEntities]
    exact fun entity hentity => h.nodes node hnode view hview entity hentity

theorem Tracking.step (h₀ : s.Tracking) {input : DrawInput E K} (h : s.TracksReused input)
    {s' : Window E K} (hstep : s.step input = some s') : s'.Tracking := by
  obtain ⟨hs, labels₀, ht, -⟩ := h₀
  have hb := begins_beginDraw s input
  refine ⟨hs.step h.1 hstep, ?_⟩
  rcases hs.draw h.1 with hdeep | ⟨root, draws, done, order, w₁, w₂, w₃, w₄, hdraw, hphases⟩
  · exact absurd (hdeep.symm.trans (draw_of_step hstep)) (by simp)
  · obtain rfl := Except.ok.inj (hdraw.symm.trans (draw_of_step hstep))
    have hstates : TrackedStates [] (s.beginDraw input) := by
      have hempty : (s.beginDraw input).next = .empty := hs.next
      refine ⟨by rw [hempty]; rfl, fun id st hst => ?_⟩
      rw [hempty] at hst
      exact absurd hst (by simp [Frame.empty])
    obtain ⟨nodes, ts, htracks⟩ := prepaint_tracks hs hb ht input.root [] true [] []
      (s.beginDraw input) root w₁ (hs.drawing input) h.1.visitable h.2 hstates
      (Finset.Subset.refl _) hphases.prepaintRoot
    obtain ⟨done', labels, hrounds, htracked⟩ := prepaintDeferredDraws_tracks hs hb ht h.1.visitable
      h.2 10 (Nat.zero_le _) (hphases.prepaints.rounds hs) (htracks.rounds hs)
      hphases.prepaintDeferred
    exact ⟨labels, htracked.endDraw hrounds hphases.paintRounds⟩

/-- **In a run of draws whose reused views have stored all that they touched, every view of
the frame is tracked with what it read.** -/
theorem run_tracksViews {inputs : List (DrawInput E K)} {s : Window E K}
    (hrun : run Window.step new inputs = some s)
    (hmeets : RunMeets Window.step TracksReused new inputs) : s.TracksViews := by
  have hinv : s.Tracking := run_invariant (fun _ _ _ hs hc hstep => hs.step hc hstep) inputs
    tracking_new hmeets hrun
  obtain ⟨-, -, -, htracks⟩ := hinv
  exact htracks

/-- A view that reads `reads` before a cached one that reads the entity 9. -/
def readersTree (reads : List EntityId) : Element Nat Unit :=
  .view 0 [] (.append (.view 1 reads .empty) (.cached 2 () [9] .empty))

/-- The cached view is reused in the second draw, and what it read is tracked. -/
theorem run_tracksViews_readers : ∃ s, run Window.step new
    [⟨readersTree [8], ∅, false⟩, ⟨readersTree [], {0, 1}, false⟩] = some s ∧
    9 ∈ s.trackedEntities ∧ s.TracksViews := by
  have hrun : ∃ s ∈ run Window.step new
      [⟨readersTree [8], ∅, false⟩, ⟨readersTree [], {0, 1}, false⟩], 9 ∈ s.trackedEntities := by
    decide +kernel
  have hmeets : RunMeets Window.step TracksReused new
      [⟨readersTree [8], ∅, false⟩, ⟨readersTree [], {0, 1}, false⟩] := by
    decide +kernel
  obtain ⟨s, hs, hmem⟩ := hrun
  exact ⟨s, hs, hmem, run_tracksViews hs hmeets⟩

/-- **If the view before reads the same entity in the first draw and no longer in the
second, that entity is not tracked although the cached view has read it.** -/
theorem entity_lost : ∃ s, run Window.step new
    [⟨readersTree [9], ∅, false⟩, ⟨readersTree [], {0, 1}, false⟩] = some s ∧ ¬ s.TracksViews := by
  have hlost : ∃ s ∈ run Window.step new
      [⟨readersTree [9], ∅, false⟩, ⟨readersTree [], {0, 1}, false⟩], ¬ s.TracksViews := by
    decide +kernel
  exact hlost

end Window

end TrackedViews

end FcGpui
