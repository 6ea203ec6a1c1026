import FcGpui.Lib.Selection
import FcGpui.Window.PrepaintRanges

/-!
# The rounds of deferred draws

`prepaintDeferredDraws_spec`: if the visits promised by the tree can be made, the
rounds of deferred draws are prepainted without a panic, or there are too many of
them.  `Rounds` is what holds from one deferred draw to the next.  The positions of
the deferred draws fall into those that are done, in the order they were, and those
to do; the visits made so far are those of the root and of the draws done, and
together with what is still promised they are what was planned (`perm`).  A step
moves one position from the second list to the first and appends the positions of
what it deferred.
-/

namespace FcGpui

section PrepaintRounds

variable {E K : Type}

/-- A deferred draw that can be painted: it was prepainted, or its paint range is that
of a draw of the rendered frame. -/
def DeferredDraw.Paintable (b : Window E K) (d : DeferredDraw E K) : Prop :=
  match d.element with
  | .laidOut _ => False
  | .prepainted _ => True
  | .none => ∃ (j : Nat) (d₀ : DeferredDraw E K), b.rendered.deferredDraws[j]? = some d₀ ∧
    d₀.place = d.place ∧ d₀.paintRange = d.paintRange

/-- A deferred draw whose prepaint was recorded. -/
def DeferredDraw.Drawn (b w : Window E K) (ix : Nat) (d : DeferredDraw E K) : Prop :=
  (∃ r ∈ w.log.prepaintRecords, r.drawer = .deferred ix d.priority d.elementIdStack ∧
    r.range = d.prepaintRange) ∧ d.Paintable b

theorem DeferredDraw.Drawn.mono {b w w' : Window E K} {ix : Nat} {d : DeferredDraw E K}
    (h : d.Drawn b w ix) (hlog : w.log.prepaintRecords ⊆ w'.log.prepaintRecords) :
    d.Drawn b w' ix := by
  obtain ⟨⟨r, hr, hrecord⟩, hpaintable⟩ := h
  exact ⟨⟨r, hlog hr, hrecord⟩, hpaintable⟩

namespace Window

variable {s b : Window E K} [DecidableEq K]

/-- The visits of the deferred draw at a position. -/
def visitsAt (b w : Window E K) : Nat → List Visit :=
  itemsAt (DeferredDraw.visits b) w.next.deferredDraws

/-- Between two deferred draws. -/
structure Rounds (s b : Window E K) (rootVisits planned : List Visit) (done todo : List Nat)
    (w : Window E K) : Prop where
  drawing : Drawing s b ((rootVisits ++ done.flatMap (visitsAt b w)).map Visit.id) w
  refreshing : w.refreshing = b.refreshing
  states : ∀ v ∈ rootVisits ++ done.flatMap (visitsAt b w), Stored b w v
  order : (done ++ todo).Perm (List.range w.next.deferredDraws.length)
  perm : (rootVisits ++ (done ++ todo).flatMap (visitsAt b w)).Perm planned
  waiting : ∀ ix ∈ todo, ∀ d, w.next.deferredDraws[ix]? = some d → d.Waiting b
  drawn : ∀ ix ∈ done, ∀ d, w.next.deferredDraws[ix]? = some d → d.Drawn b w ix
  paintLog : w.log.paintRecords = []

variable {done todo : List Nat} {planned rootVisits : List Visit} {w : Window E K} {ix : Nat}
  {d : DeferredDraw E K} {draws : List (DeferredDraw E K)}

theorem Rounds.reorder {todo' : List Nat}
    (h : Rounds s b rootVisits planned done todo w) (hperm : todo'.Perm todo) :
    Rounds s b rootVisits planned done todo' w :=
  { h with
    order := (hperm.append_left done).trans h.order
    perm := (((hperm.append_left done).flatMap_right _).append_left rootVisits).trans h.perm
    waiting := fun ix hix => h.waiting ix (hperm.subset hix) }

theorem Rounds.nodup (h : Rounds s b rootVisits planned done todo w) : (done ++ todo).Nodup :=
  h.order.nodup_iff.mpr List.nodup_range

theorem Rounds.lt
    (h : Rounds s b rootVisits planned done todo w) (hix : ix ∈ done ++ todo) :
    ix < w.next.deferredDraws.length :=
  List.mem_range.mp (h.order.subset hix)

omit [DecidableEq K] in
theorem Visitable.perm {touched : List GlobalElementId} {visits visits' : List Visit}
    (h : Visitable s touched visits) (hperm : visits'.Perm visits) : Visitable s touched visits' where
  new v hv := h.new v (hperm.subset hv)
  nodup := (hperm.map Visit.id).nodup_iff.mpr h.nodup
  last v hv := h.last v (hperm.subset hv)

theorem Rounds.visitable (hplanned : Visitable s [] planned)
    (h : Rounds s b rootVisits planned done (ix :: todo) w) :
    Visitable s ((rootVisits ++ done.flatMap (visitsAt b w)).map Visit.id) (visitsAt b w ix) := by
  have hperm := h.perm
  rw [List.flatMap_append, List.flatMap_cons, ← List.append_assoc] at hperm
  exact ((hplanned.perm hperm).right _ fun _ hv => hv).left

/-- What stands where after a draw was put back and others were appended. -/
theorem visitsAt_of_set {w' : Window E K} (hix : ix < w.next.deferredDraws.length)
    (hdraws : w'.next.deferredDraws = (w.next.deferredDraws ++ draws).set ix d) :
    visitsAt b w' ix = d.visits b ∧
      (∀ j, j ≠ ix → j < w.next.deferredDraws.length →
        w'.next.deferredDraws[j]? = w.next.deferredDraws[j]?) ∧
      (List.range' w.next.deferredDraws.length draws.length).flatMap (visitsAt b w')
        = draws.flatMap (DeferredDraw.visits b) := by
  have hix' : ix < (w.next.deferredDraws ++ draws).length := by
    rw [List.length_append]
    omega
  refine ⟨?_, fun j hj hlt => ?_, ?_⟩
  · refine itemsAt_of_getElem? ?_
    rw [hdraws, List.getElem?_set_self hix']
  · rw [hdraws, List.getElem?_set_ne hj.symm, List.getElem?_append_left hlt]
  · rw [← flatMap_itemsAt_append (DeferredDraw.visits b) w.next.deferredDraws draws]
    refine List.flatMap_congr fun j hj => ?_
    have hne : ix ≠ j := by
      have hj := (List.mem_range'_1.mp hj).1
      omega
    rw [visitsAt, hdraws, itemsAt_set_ne hne]

/-- What was planned at one place is visited there, or comes last. -/
theorem perm_visited (before made later : List Visit) {visits appended : List Visit}
    (h : (visits ++ appended).Perm planned) :
    (before ++ ((made ++ visits) ++ (later ++ appended))).Perm (before ++ (made ++ (planned ++ later))) := by
  refine List.Perm.append_left _ ?_
  rw [List.append_assoc]
  refine List.Perm.append_left _ ?_
  refine List.Perm.trans ?_ (h.append_right _)
  rw [List.append_assoc]
  exact List.Perm.append_left _ List.perm_append_comm

/-- The draw at `ix` was prepainted from `w` to `w₁`, and is put back at its place
with the range of that. -/
theorem Rounds.store {visits : List Visit} {w₁ w' : Window E K}
    (d' : DeferredDraw E K) (h : Rounds s b rootVisits planned done (ix :: todo) w)
    (hd : w.next.deferredDraws[ix]? = some d)
    (hp : Prepaints s b ((rootVisits ++ done.flatMap (visitsAt b w)).map Visit.id) (visitsAt b w ix)
    visits w w₁ draws) (hnew : ∀ v ∈ rootVisits ++ done.flatMap (visitsAt b w), v.id ∉ visits.map Visit.id)
    (hplace : d'.place = d.place) (hvisits : d'.visits b = visits) (hdrawn : d'.Drawn b w' ix)
    (hw' : w' = (w₁.recordPrepaint (.deferred ix d.priority d.elementIdStack)
    w.next.prepaintIndex).2.setDeferredDraw ix d') :
    Rounds s b rootVisits planned (done ++ [ix])
      (todo ++ List.range' w.next.deferredDraws.length draws.length) w' := by
  have hnodup := h.nodup
  have hix : ix < w.next.deferredDraws.length := h.lt (by simp)
  have hdraws : w'.next.deferredDraws = (w.next.deferredDraws ++ draws).set ix d' := by
    rw [hw', ← hp.deferredDraws]
    rfl
  have hlog : w₁.log.prepaintRecords ⊆ w'.log.prepaintRecords := by
    rw [hw']
    exact List.subset_append_left _ _
  have hstates : w'.next.elementStates = w₁.next.elementStates := by
    rw [hw']
    rfl
  obtain ⟨hself, hkept, hlater⟩ := visitsAt_of_set (b := b) hix hdraws
  have hdoneGet : ∀ j ∈ done, w'.next.deferredDraws[j]? = w.next.deferredDraws[j]? := by
    intro j hj
    refine hkept j ?_ (h.lt (List.mem_append_left _ hj))
    rintro rfl
    exact (List.nodup_append.mp hnodup).2.2 j hj j List.mem_cons_self rfl
  have htodoGet : ∀ j ∈ todo, w'.next.deferredDraws[j]? = w.next.deferredDraws[j]? := by
    intro j hj
    refine hkept j ?_ (h.lt (by simp [hj]))
    rintro rfl
    exact (List.nodup_cons.mp (List.nodup_append.mp hnodup).2.1).1 hj
  have hdone : done.flatMap (visitsAt b w') = done.flatMap (visitsAt b w) :=
    List.flatMap_congr fun j hj => congrArg (Option.elim · [] (DeferredDraw.visits b)) (hdoneGet j hj)
  have htodo : todo.flatMap (visitsAt b w') = todo.flatMap (visitsAt b w) :=
    List.flatMap_congr fun j hj => congrArg (Option.elim · [] (DeferredDraw.visits b)) (htodoGet j hj)
  have hmade : (done ++ [ix]).flatMap (visitsAt b w') = done.flatMap (visitsAt b w) ++ visits := by
    rw [List.flatMap_append, List.flatMap_singleton, hdone, hself, hvisits]
  refine ⟨?_, ?_, fun v hv => ?_, ?_, ?_, fun j hj e he => ?_, fun j hj e he => ?_, ?_⟩
  · rw [hmade, ← List.append_assoc, List.map_append, hw']
    have hget : w₁.next.deferredDraws[ix]? = some d := by
      rw [hp.deferredDraws, List.getElem?_append_left hix]
      exact hd
    have hrecord : Drawing s b _ (w₁.recordPrepaint (.deferred ix d.priority d.elementIdStack)
        w.next.prepaintIndex).2 :=
      hp.drawing.recordPrepaint hp.grows fun i hi => nomatch hi
    exact hrecord.grow (Frame.grows_setDeferred hget hplace) rfl
  · rw [hw']
    exact hp.refreshing.trans h.refreshing
  · rw [hmade, ← List.append_assoc] at hv
    rcases List.mem_append.mp hv with hv | hv
    · refine (h.states v hv).mono ?_ (List.Subset.trans hp.prepaintLog hlog)
      rw [hstates]
      exact hp.frame v.id (hnew v hv)
    · exact (hp.states v hv).mono (by rw [hstates]) hlog
  · have hlength : w'.next.deferredDraws.length = w.next.deferredDraws.length + draws.length := by
      rw [hdraws, List.length_set, List.length_append]
    have hall := h.order.append_right (List.range' w.next.deferredDraws.length draws.length)
    rw [hlength, List.range_eq_range', ← List.range'_append_1, Nat.zero_add, ← List.range_eq_range']
    rw [List.append_assoc] at hall
    rw [List.append_assoc]
    exact hall
  · have hperm := h.perm
    rw [List.flatMap_append, List.flatMap_cons] at hperm
    rw [List.flatMap_append, hmade, List.flatMap_append, htodo, hlater]
    exact (perm_visited _ _ _ hp.perm).trans hperm
  · rcases List.mem_append.mp hj with hj | hj
    · exact h.waiting j (List.mem_cons_of_mem _ hj) e (htodoGet j hj ▸ he)
    · have hj := (List.mem_range'_1.mp hj).1
      have hne : ix ≠ j := by omega
      rw [hdraws, List.getElem?_set_ne hne, List.getElem?_append_right hj] at he
      exact hp.waiting e (List.mem_of_getElem? he)
  · rcases List.mem_append.mp hj with hj | hj
    · exact (h.drawn j hj e (hdoneGet j hj ▸ he)).mono (List.Subset.trans hp.prepaintLog hlog)
    · obtain rfl := List.mem_singleton.mp hj
      rw [hdraws, List.getElem?_set_self (by rw [List.length_append]; omega)] at he
      exact Option.some.inj he ▸ hdrawn
  · rw [hw']
    exact hp.paintLog.trans h.paintLog

omit [DecidableEq K] in
theorem Ready.freshPrepaint_deferred (hs : s.Ready) (hb : Begins s b) (ix : Nat) {j : Nat}
    {d₀ : DeferredDraw E K} (hd₀ : b.rendered.deferredDraws[j]? = some d₀)
    (hplace : d₀.place = d.place) (hrange : d₀.prepaintRange = d.prepaintRange) :
    s.FreshPrepaint ⟨.deferred ix d.priority d.elementIdStack, d.prepaintRange⟩ := by
  rw [hb.deferredDraws] at hd₀
  obtain ⟨r, hr, hdrawer, hr'⟩ := hs.prepaintDeferred j d₀ hd₀
  refine ⟨r, hr, hr'.trans hrange, ?_, hs.prepaintSelects r hr⟩
  rw [hdrawer]
  exact Prod.mk.inj hplace

theorem prepaintDeferredDraw_of_element {visits : List Visit} {w₁ : Window E K} (element : DeferredElement E K)
    (h : Rounds s b rootVisits planned done (ix :: todo) w) (hd : w.next.deferredDraws[ix]? = some d)
    (hok : w.prepaintDeferredElement ix d = .ok (element, w₁))
    (hp : Prepaints s b ((rootVisits ++ done.flatMap (visitsAt b w)).map Visit.id) (visitsAt b w ix)
    visits w w₁ draws) (hnew : ∀ v ∈ rootVisits ++ done.flatMap (visitsAt b w), v.id ∉ visits.map Visit.id)
    (hvisits : ∀ range, DeferredDraw.visits b { d with element := element, prepaintRange := range } = visits)
    (hpaintable : ∀ range, DeferredDraw.Paintable b { d with element := element, prepaintRange := range }) :
    ∃ w' n, w.prepaintDeferredDraw ix = .ok w' ∧
      w'.next.deferredDraws.length = w.next.deferredDraws.length + n ∧
      Rounds s b rootVisits planned (done ++ [ix])
        (todo ++ List.range' w.next.deferredDraws.length n) w' := by
  let d' : DeferredDraw E K := { d with
    element := element
    prepaintRange := ⟨w.next.prepaintIndex, w₁.next.prepaintIndex⟩ }
  let w' := (w₁.recordPrepaint (.deferred ix d.priority d.elementIdStack)
    w.next.prepaintIndex).2.setDeferredDraw ix d'
  have hdrawn : d'.Drawn b w' ix :=
    ⟨⟨⟨.deferred ix d.priority d.elementIdStack, _, _⟩,
      List.mem_append_right _ (List.mem_singleton_self _), rfl, rfl⟩, hpaintable _⟩
  refine ⟨w', draws.length, ?_, ?_, h.store d' hd hp hnew rfl (hvisits _) hdrawn rfl⟩
  · unfold prepaintDeferredDraw
    rw [hd]
    exact bind_of_ok hok _
  · show (w₁.next.deferredDraws.set ix d').length = _
    rw [List.length_set, hp.deferredDraws, List.length_append]

theorem prepaintDeferredDraw_spec (hs : s.Ready) (hb : Begins s b) (hplanned : Visitable s [] planned)
    (h : Rounds s b rootVisits planned done (ix :: todo) w) :
    ∃ w' n, w.prepaintDeferredDraw ix = .ok w' ∧
      w'.next.deferredDraws.length = w.next.deferredDraws.length + n ∧
      Rounds s b rootVisits planned (done ++ [ix])
        (todo ++ List.range' w.next.deferredDraws.length n) w' := by
  have hix : ix < w.next.deferredDraws.length := h.lt (by simp)
  have hd := List.getElem?_eq_getElem hix
  generalize w.next.deferredDraws[ix] = d at hd
  have hat : visitsAt b w ix = d.visits b := itemsAt_of_getElem? hd
  have hvisitable := h.visitable hplanned
  have hwaiting := h.waiting ix List.mem_cons_self d hd
  rw [DeferredDraw.Waiting] at hwaiting
  cases helement : d.element with
  | laidOut e =>
    have hvisits : d.visits b = e.visits b d.elementIdStack w.refreshing true := by
      rw [DeferredDraw.visits, helement, h.refreshing]
    rw [hat, hvisits] at hvisitable
    obtain ⟨p, w₁, draws, hok, hp⟩ := prepaint_spec hs hb e _ true _ w h.drawing hvisitable
    have hnew : ∀ v ∈ rootVisits ++ done.flatMap (visitsAt b w),
        v.id ∉ (p.visits d.elementIdStack true).map Visit.id := by
      intro v hv hmem
      obtain ⟨u, hu, heq⟩ := List.mem_map.mp hmem
      refine hvisitable.new u (hp.perm.subset (List.mem_append_left _ hu)) ?_
      rw [heq]
      exact List.mem_map_of_mem hv
    rw [← hvisits, ← hat] at hp
    refine prepaintDeferredDraw_of_element (.prepainted p) h hd ?_ hp hnew (fun _ => rfl)
      fun _ => trivial
    unfold prepaintDeferredElement
    rw [helement]
    exact bind_of_ok hok _
  | prepainted p =>
    rw [helement] at hwaiting
    exact hwaiting.elim
  | none =>
    rw [helement] at hwaiting
    obtain ⟨j, d₀, hd₀, hplace, hrange, hpaintRange⟩ := hwaiting
    have hfresh := hs.freshPrepaint_deferred hb ix hd₀ hplace hrange
    obtain ⟨w₁, draws, hok, hp⟩ := Prepaints.of_reuse hb h.drawing hfresh
    have hvisits : d.visits b = [] := by rw [DeferredDraw.visits, helement]
    have hp : Prepaints s b ((rootVisits ++ done.flatMap (visitsAt b w)).map Visit.id)
        (visitsAt b w ix) [] w w₁ draws := by
      rw [hat, hvisits]
      exact hp
    refine prepaintDeferredDraw_of_element .none h hd ?_ hp (fun _ _ => List.not_mem_nil)
      (fun _ => rfl) fun _ => ⟨j, d₀, hd₀, hplace, hpaintRange⟩
    unfold prepaintDeferredElement
    rw [helement]
    exact bind_of_ok hok _

/-- A round: the positions of the draws it makes, and then those of what they
deferred. -/
theorem round_spec (hs : s.Ready) (hb : Begins s b) (hplanned : Visitable s [] planned) (ixs : List Nat) :
    ∀ {done later : List Nat} {w : Window E K},
      Rounds s b rootVisits planned done (ixs ++ later) w →
      ∃ w' n, ixs.foldlM prepaintDeferredDraw w = .ok w' ∧
        w'.next.deferredDraws.length = w.next.deferredDraws.length + n ∧
        Rounds s b rootVisits planned (done ++ ixs)
          (later ++ List.range' w.next.deferredDraws.length n) w' := by
  induction ixs with
  | nil =>
    intro done later w h
    refine ⟨w, 0, rfl, rfl, ?_⟩
    rw [List.append_nil, List.range'_zero, List.append_nil]
    exact h
  | cons ix ixs ih =>
    intro done later w h
    obtain ⟨w₁, n, hok, hlength, h₁⟩ := prepaintDeferredDraw_spec hs hb hplanned h
    have h₁ : Rounds s b rootVisits planned (done ++ [ix])
        (ixs ++ (later ++ List.range' w.next.deferredDraws.length n)) w₁ := by
      rw [← List.append_assoc]
      exact h₁
    obtain ⟨w₂, m, hok₂, hlength₂, h₂⟩ := ih h₁
    refine ⟨w₂, n + m, ?_, ?_, ?_⟩
    · rw [List.foldlM_cons, bind_of_ok hok]
      exact hok₂
    · omega
    · rw [List.append_assoc, List.singleton_append, List.append_assoc, hlength,
        List.range'_append_1] at h₂
      exact h₂

omit [DecidableEq K] in
theorem traversalOrder_perm (w : Window E K) (a b : Nat) :
    (w.traversalOrder a b).Perm (List.range' a (b - a)) := List.perm_insertionSort _ _

theorem range'_nothingLeft {roundStart roundEnd : Nat} (hend : roundStart = roundEnd) :
    List.range' roundStart (roundEnd - roundStart) = [] := by
  rw [hend, Nat.sub_self, List.range'_zero]

theorem prepaintDeferredDraws_end (rounds : Nat) {roundStart : Nat}
    (hend : roundStart = w.next.deferredDraws.length) : prepaintDeferredDraws rounds roundStart w = .ok w := by
  unfold prepaintDeferredDraws
  rw [if_pos hend]

/-- **The deferred draws are prepainted without a panic, unless they are nested too
deep.** -/
theorem prepaintDeferredDraws_spec (hs : s.Ready) (hb : Begins s b)
    (hplanned : Visitable s [] planned) (rounds : Nat) :
    ∀ {roundStart : Nat} {done : List Nat} {w : Window E K},
      roundStart ≤ w.next.deferredDraws.length →
      Rounds s b rootVisits planned done
        (List.range' roundStart (w.next.deferredDraws.length - roundStart)) w →
      (∃ w' done', prepaintDeferredDraws rounds roundStart w = .ok w' ∧
        Rounds s b rootVisits planned done' [] w') ∨
      prepaintDeferredDraws rounds roundStart w = .error .deferredDepth := by
  induction rounds with
  | zero =>
    intro roundStart done w _ h
    by_cases hend : roundStart = w.next.deferredDraws.length
    · rw [range'_nothingLeft hend] at h
      exact Or.inl ⟨w, done, prepaintDeferredDraws_end 0 hend, h⟩
    · right
      unfold prepaintDeferredDraws
      rw [if_neg hend]
  | succ rounds ih =>
    intro roundStart done w hle h
    by_cases hend : roundStart = w.next.deferredDraws.length
    · rw [range'_nothingLeft hend] at h
      exact Or.inl ⟨w, done, prepaintDeferredDraws_end _ hend, h⟩
    · have h' := h.reorder (w.traversalOrder_perm roundStart w.next.deferredDraws.length)
      rw [← List.append_nil (w.traversalOrder _ _)] at h'
      obtain ⟨w₁, n, hok, hlength, h₁⟩ := round_spec hs hb hplanned _ h'
      have hn : w₁.next.deferredDraws.length - w.next.deferredDraws.length = n := by omega
      rw [List.nil_append, ← hn] at h₁
      have hdeeper := ih (by omega) h₁
      have hunfold : prepaintDeferredDraws (rounds + 1) roundStart w
          = prepaintDeferredDraws rounds w.next.deferredDraws.length w₁ := by
        rw [prepaintDeferredDraws, if_neg hend]
        exact bind_of_ok hok _
      rw [hunfold]
      exact hdeeper

end Window

end PrepaintRounds

end FcGpui
