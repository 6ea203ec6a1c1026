import FcGpui.SumTree.Iteration
import FcGpui.Window.TabOrder

/-!
# Tab navigation

A node of the map is in its tree, so a seek parts the nodes at it; from there the loops of
`next_inner` and `prev_inner` walk to the nearest tab stop on either side.

**Main result.**  `tab_navigation_cycles`: after any operations that insert no focus id
twice, `next` and `prev` go around the tab stops in order (`TabStopMap.Cycles`).
-/

namespace FcGpui

open SumTree

namespace TabStopMap

variable {ops : List (TabStopOperation FocusHandle)} {m : TabStopMap} {e : TabEntry}
  {root : SumTree TabStopNode TabStopOrderNodeSummary} {c : SumTree.Cursor TabStopNode TabStopOrderNodeSummary TabStopNode}
  {passed remaining : List TabStopNode}

theorem lawful : True → True ∧ LawfulSummary TabStopOrderNodeSummary ∧
    LawfulDimension TabStopNode TabStopOrderNodeSummary :=
  fun _ => ⟨trivial, inferInstance, inferInstance⟩

/-! ### The loops -/

/-- **Forward to a tab stop.** -/
theorem skipLoop_next (hroot : root.Valid True) : ∀ (fuel : Nat) {c : SumTree.Cursor _ _ TabStopNode}
    {passed remaining : List TabStopNode}, remaining.length < fuel →
      Cursor.Stands True root c passed remaining →
      ∃ c', skipLoop Cursor.next fuel c = some c' ∧ c'.item = some (remaining.find? TabStopNode.tabStop) := by
  intro fuel
  induction fuel with
  | zero =>
    intro c passed remaining hfuel
    exact absurd hfuel (Nat.not_lt_zero _)
  | succ fuel ih =>
    intro c passed remaining hfuel hstands
    cases remaining with
    | nil =>
      refine ⟨c, ?_, hstands.item⟩
      simp only [skipLoop, hstands.item, Option.bind_eq_bind, Option.bind_some, List.head?_nil]
    | cons item remaining =>
      cases hstop : item.tabStop with
      | true =>
        refine ⟨c, ?_, ?_⟩
        · simp only [skipLoop, hstands.item, Option.bind_eq_bind, Option.bind_some, List.head?_cons, hstop, if_true]
        · rw [hstands.item, List.find?_cons_of_pos hstop, List.head?_cons]
      | false =>
        obtain ⟨c₁, hnext, hstands₁⟩ := hstands.next lawful hroot
        obtain ⟨c', hloop, hitem⟩ := ih (by simpa using hfuel) hstands₁
        refine ⟨c', ?_, ?_⟩
        · simp only [skipLoop, hstands.item, Option.bind_eq_bind, Option.bind_some, List.head?_cons, hstop,
            Bool.false_eq_true, if_false, hnext, hloop]
        · rw [hitem, List.find?_cons_of_neg (by simp [hstop])]

/-- **Backward to a tab stop.** -/
theorem skipLoop_prev (hroot : root.Valid True) : ∀ (fuel : Nat) {c : SumTree.Cursor _ _ TabStopNode}
    {passed remaining : List TabStopNode} {item : TabStopNode}, passed.length + 1 < fuel →
      Cursor.Stands True root c passed (item :: remaining) →
      ∃ c', skipLoop Cursor.prev fuel c = some c' ∧
        c'.item = some ((passed ++ [item]).reverse.find? TabStopNode.tabStop) := by
  intro fuel
  induction fuel with
  | zero =>
    intro c passed remaining item hfuel
    exact absurd hfuel (Nat.not_lt_zero _)
  | succ fuel ih =>
    intro c passed remaining item hfuel hstands
    rw [List.reverse_append, List.reverse_singleton, List.singleton_append]
    cases hstop : item.tabStop with
    | true =>
      refine ⟨c, ?_, ?_⟩
      · simp only [skipLoop, hstands.item, Option.bind_eq_bind, Option.bind_some, List.head?_cons, hstop, if_true]
      · rw [hstands.item, List.find?_cons_of_pos hstop, List.head?_cons]
    | false =>
      rw [List.find?_cons_of_neg (by simp [hstop])]
      cases passed using List.reverseRecOn with
      | nil =>
        obtain ⟨fuel, rfl⟩ := Nat.exists_eq_add_one_of_ne_zero (by simpa using hfuel.ne' : fuel ≠ 0)
        have hstart : (Cursor.beforeStart root true : SumTree.Cursor _ _ TabStopNode).item = some none := rfl
        refine ⟨Cursor.beforeStart root true, ?_, hstart⟩
        simp only [skipLoop, hstands.item, Option.bind_eq_bind, Option.bind_some, List.head?_cons, hstop,
          Bool.false_eq_true, if_false, hstands.prev_start lawful hroot, hstart]
      | append_singleton passed last _ =>
        obtain ⟨c₁, hprev, hstands₁⟩ := hstands.prev lawful hroot
        obtain ⟨c', hloop, hitem⟩ := ih (by simpa using hfuel) hstands₁
        refine ⟨c', ?_, hitem⟩
        simp only [skipLoop, hstands.item, Option.bind_eq_bind, Option.bind_some, List.head?_cons, hstop,
          Bool.false_eq_true, if_false, hprev, hloop]

/-- **The nearest tab stops** on either side of a node. -/
theorem Holds.inner (h : m.Holds ops) {node : TabStopNode} (hn : node ∈ m.order.toList) :
    ∃ lower upper, m.order.toList = lower ++ node :: upper ∧ (∀ a ∈ lower, a.rank < node.rank) ∧
      (∀ a ∈ upper, node.rank < a.rank) ∧
      m.nextInner node = some (upper.find? TabStopNode.tabStop) ∧
      m.prevInner node = some (lower.reverse.find? TabStopNode.tabStop) := by
  obtain ⟨found, c, lower, remaining, hseek, hstands, hlower, hremaining⟩ :=
    (TabStopNode.parted h.sorted (h.paths node hn)).seek h.tree (c := Cursor.new m.order) rfl
  obtain ⟨upper, rfl, hupper⟩ :=
    TabStopNode.split_of_sorted h.sorted hn hstands.toList hlower hremaining
  have hrounds := h.tree.length_lt_rounds
  rw [hstands.toList, List.length_append, List.length_cons] at hrounds
  refine ⟨lower, upper, hstands.toList, hlower, hupper, ?_, ?_⟩
  · obtain ⟨c₁, hnext, hstands₁⟩ := hstands.next lawful h.tree
    obtain ⟨c', hloop, hitem⟩ := skipLoop_next h.tree m.order.rounds (by omega) hstands₁
    simp only [nextInner, hseek, Option.bind_eq_bind, Option.bind_some, hnext, hloop, hitem]
  · cases lower using List.reverseRecOn with
    | nil =>
      obtain ⟨n, hn⟩ := Nat.exists_eq_add_one_of_ne_zero (by omega : m.order.rounds ≠ 0)
      have hstart : (Cursor.beforeStart m.order true : SumTree.Cursor _ _ TabStopNode).item = some none := rfl
      simp only [prevInner, hseek, Option.bind_eq_bind, Option.bind_some, hstands.prev_start lawful h.tree, hn,
        skipLoop, hstart]
      rfl
    | append_singleton lower last _ =>
      obtain ⟨c₁, hprev, hstands₁⟩ := hstands.prev lawful h.tree
      rw [List.length_append, List.length_singleton] at hrounds
      obtain ⟨c', hloop, hitem⟩ := skipLoop_prev h.tree m.order.rounds (by omega) hstands₁
      simp only [prevInner, hseek, Option.bind_eq_bind, Option.bind_some, hprev, hloop, hitem]

/-! ### `next` and `prev` -/

/-- The handle of a node, if there is one. -/
def handleFor (m : TabStopMap) : Option TabStopNode → Option (Option FocusHandle)
  | none => some none
  | some node => m.focusHandleForOrder node

theorem Holds.handleFor (h : m.Holds ops) {found : Option TabEntry} (hfound : ∀ e ∈ found, e ∈ registered ops) :
    m.handleFor (found.map TabEntry.node) = some (found.map TabEntry.handle) := by
  cases found with
  | none => rfl
  | some e =>
    have hop := operation_of_registered (hfound e rfl)
    have hop : m.insertionHistory[e.node.nodeInsertionIndex]? = some (.insert e.handle) := by
      rw [h.history]
      exact hop
    simp only [Option.map_some, TabStopMap.handleFor, focusHandleForOrder, hop, Option.bind_eq_bind, Option.bind_some,
      TabStopOperation.focusHandle]

theorem Holds.nextOfNone (h : m.Holds ops) :
    m.nextOfNone = some ((tabOrder ops).head?.map TabEntry.handle) := by
  have hstop : m.nextOfNone = m.handleFor (m.order.toList.find? TabStopNode.tabStop) := by
    rw [TabStopMap.nextOfNone, first_spec h.tree]
    cases hlist : m.order.toList with
    | nil => rfl
    | cons first rest =>
      have hfirst : first ∈ m.order.toList := by
        rw [hlist]
        exact List.mem_cons_self
      simp only [List.head?_cons, Option.bind_eq_bind, Option.bind_some]
      cases htab : first.tabStop with
      | true =>
        rw [if_pos rfl, List.find?_cons_of_pos htab]
        rfl
      | false =>
        obtain ⟨lower, upper, hparts, hlower, -, hnext, -⟩ := h.inner hfirst
        have hrest : upper = rest := by
          rw [hlist] at hparts
          cases lower with
          | nil => exact (List.cons.inj hparts).2.symm
          | cons a lower =>
            have hlt := hlower a List.mem_cons_self
            rw [(List.cons.inj hparts).1] at hlt
            exact absurd hlt (lt_irrefl _)
        rw [if_neg nofun, List.find?_cons_of_neg (by simp [htab]), hnext, hrest, Option.bind_some]
        cases rest.find? TabStopNode.tabStop <;> rfl
  rw [hstop, ← List.head?_filter, h.stops, List.head?_map]
  exact h.handleFor fun e he => (mem_tabOrder.mp (List.mem_of_mem_head? he)).1

theorem Holds.prevOfNone (h : m.Holds ops) :
    m.prevOfNone = some ((tabOrder ops).getLast?.map TabEntry.handle) := by
  have hstop : m.prevOfNone = m.handleFor (m.order.toList.reverse.find? TabStopNode.tabStop) := by
    rw [TabStopMap.prevOfNone, last_spec h.tree]
    cases hlist : m.order.toList using List.reverseRecOn with
    | nil => rfl
    | append_singleton rest last _ =>
      have hlast : last ∈ m.order.toList := by
        rw [hlist]
        exact List.mem_append_right _ (List.mem_singleton_self last)
      rw [List.getLast?_concat, List.reverse_append, List.reverse_singleton, List.singleton_append]
      simp only [Option.bind_eq_bind, Option.bind_some]
      cases htab : last.tabStop with
      | true =>
        rw [if_pos rfl, List.find?_cons_of_pos htab]
        rfl
      | false =>
        obtain ⟨lower, upper, hparts, -, hupper, -, hprev⟩ := h.inner hlast
        have hrest : lower = rest := by
          rw [hlist] at hparts
          cases upper using List.reverseRecOn with
          | nil => exact (List.append_inj' hparts rfl).1.symm
          | append_singleton upper a _ =>
            have hlt := hupper a (List.mem_append_right _ (List.mem_singleton_self a))
            rw [← List.cons_append, ← List.append_assoc] at hparts
            rw [← List.singleton_inj.mp (List.append_inj' hparts rfl).2] at hlt
            exact absurd hlt (lt_irrefl _)
        rw [if_neg nofun, List.find?_cons_of_neg (by simp [htab]), hprev, hrest, Option.bind_some]
        cases rest.reverse.find? TabStopNode.tabStop <;> rfl
  rw [hstop, ← List.head?_filter, List.filter_reverse, List.head?_reverse, h.stops, List.getLast?_map]
  exact h.handleFor fun e he => (mem_tabOrder.mp (List.mem_of_getLast? he)).1

theorem Holds.mem_order (h : m.Holds ops) (he : e ∈ registered ops) : e.node ∈ m.order.toList :=
  h.nodes.mem_iff.mpr (List.mem_map_of_mem he)

theorem registered_of_next {k : TabStopPath ×ₗ Nat} : ∀ e ∈ cyclicNext TabEntry.rank (tabOrder ops) k,
    e ∈ registered ops :=
  fun _ he => (mem_tabOrder.mp (mem_of_cyclicNext he)).1

theorem registered_of_prev {k : TabStopPath ×ₗ Nat} : ∀ e ∈ cyclicPrev TabEntry.rank (tabOrder ops) k,
    e ∈ registered ops :=
  fun _ he => (mem_tabOrder.mp (mem_of_cyclicPrev he)).1

/-- **Next from a handle** that is registered. -/
theorem Holds.next (h : m.Holds ops) (he : e ∈ registered ops) :
    m.next (some e.handle.id) = some ((cyclicNext TabEntry.rank (tabOrder ops) e.rank).map TabEntry.handle) := by
  obtain ⟨lower, upper, hparts, hlower, hupper, hnext, -⟩ := h.inner (h.mem_order he)
  have hcyclic : (cyclicNext TabEntry.rank (tabOrder ops) e.rank).map TabEntry.node =
      (upper.find? TabStopNode.tabStop).or ((tabOrder ops).head?.map TabEntry.node) := by
    have hmap : cyclicNext TabStopNode.rank ((tabOrder ops).map TabEntry.node) e.rank =
        (cyclicNext TabEntry.rank (tabOrder ops) e.rank).map TabEntry.node := cyclicNext_map _ _ _
    rw [← h.stops, hparts, List.append_cons, List.filter_append] at hmap
    refine hmap.symm.trans ?_
    rw [cyclicNext_append, List.head?_filter, ← List.filter_append, ← List.append_cons, ← hparts, h.stops,
      List.head?_map]
    · intro a ha
      rcases List.mem_append.mp (List.mem_of_mem_filter ha) with ha | ha
      · exact (hlower a ha).le
      · rw [List.mem_singleton.mp ha]
        exact le_rfl
    · exact fun a ha => hupper a (List.mem_of_mem_filter ha)
  rw [← h.handleFor registered_of_next, hcyclic]
  simp only [TabStopMap.next, h.byId e he, hnext, Option.bind_eq_bind, Option.bind_some]
  cases upper.find? TabStopNode.tabStop with
  | none =>
    rw [Option.none_or, h.handleFor fun e he => (mem_tabOrder.mp (List.mem_of_mem_head? he)).1]
    exact h.nextOfNone
  | some item => rfl

/-- **The one before a handle** that is registered. -/
theorem Holds.prev (h : m.Holds ops) (he : e ∈ registered ops) :
    m.prev (some e.handle.id) = some ((cyclicPrev TabEntry.rank (tabOrder ops) e.rank).map TabEntry.handle) := by
  obtain ⟨lower, upper, hparts, hlower, hupper, -, hprev⟩ := h.inner (h.mem_order he)
  have hcyclic : (cyclicPrev TabEntry.rank (tabOrder ops) e.rank).map TabEntry.node =
      (lower.reverse.find? TabStopNode.tabStop).or ((tabOrder ops).getLast?.map TabEntry.node) := by
    have hmap : cyclicPrev TabStopNode.rank ((tabOrder ops).map TabEntry.node) e.rank =
        (cyclicPrev TabEntry.rank (tabOrder ops) e.rank).map TabEntry.node := cyclicPrev_map _ _ _
    rw [← h.stops, hparts, List.filter_append] at hmap
    refine hmap.symm.trans ?_
    rw [cyclicPrev_append, ← List.head?_reverse, ← List.filter_reverse, List.head?_filter, ← List.filter_append,
      ← hparts, h.stops, List.getLast?_map]
    · exact fun a ha => hlower a (List.mem_of_mem_filter ha)
    · intro a ha
      rcases List.mem_cons.mp (List.mem_of_mem_filter ha) with rfl | ha
      · exact le_rfl
      · exact (hupper a ha).le
  rw [← h.handleFor registered_of_prev, hcyclic]
  simp only [TabStopMap.prev, h.byId e he, hprev, Option.bind_eq_bind, Option.bind_some]
  cases lower.reverse.find? TabStopNode.tabStop with
  | none =>
    rw [Option.none_or, h.handleFor fun e he => (mem_tabOrder.mp (List.mem_of_getLast? he)).1]
    exact h.prevOfNone
  | some item => rfl

/-! ### Rounds -/

/-- `traverse_tab_map` of the tests: `count` times on from the last handle, and every time
one has to be found. -/
def traverse (move : Option FocusId → Option (Option FocusHandle)) :
    Nat → Option FocusId → Option (List FocusHandle)
  | 0, _ => some []
  | count + 1, last => do
    let found ← move last
    let handle ← found
    let rest ← traverse move count (some handle.id)
    some (handle :: rest)

/-- **Around a list**: from an entry to the next index. -/
theorem traverse_eq {move : Option FocusId → Option (Option FocusHandle)} {l : List TabEntry}
    (hmove : ∀ (i : Nat) (hi : i < l.length), move (some l[i].handle.id) =
      some (l[(i + 1) % l.length]?.map TabEntry.handle)) (hl : l ≠ []) (count : Nat) :
    ∀ {i : Nat} {start : Option FocusId}, move start = some (l[i % l.length]?.map TabEntry.handle) →
      traverse move count start =
        some (((List.range count).filterMap fun j => l[(i + j) % l.length]?).map TabEntry.handle) := by
  have hpos := List.length_pos_iff.mpr hl
  induction count with
  | zero => exact fun _ => rfl
  | succ count ih =>
    intro i start hstart
    have hlt : i % l.length < l.length := Nat.mod_lt _ hpos
    have hfirst := hmove _ hlt
    rw [Nat.mod_add_mod] at hfirst
    rw [List.getElem?_eq_getElem hlt] at hstart
    have hrest : (List.range (count + 1)).filterMap (fun j => l[(i + j) % l.length]?) =
        l[i % l.length] :: (List.range count).filterMap fun j => l[(i + 1 + j) % l.length]? := by
      rw [List.range_succ_eq_map, List.filterMap_cons, Nat.add_zero, List.getElem?_eq_getElem hlt,
        List.filterMap_map]
      simp only [Function.comp_def, Nat.succ_eq_add_one, Nat.add_assoc, Nat.add_comm 1]
    rw [traverse, hstart, hrest]
    simp only [Option.map_some, Option.bind_eq_bind, Option.bind_some, ih hfirst, List.map_cons]

/-- **A round** visits the list from where it starts. -/
theorem traverse_round {move : Option FocusId → Option (Option FocusHandle)} {l : List TabEntry}
    (hmove : ∀ (i : Nat) (hi : i < l.length), move (some l[i].handle.id) =
      some (l[(i + 1) % l.length]?.map TabEntry.handle)) {start : Option FocusId} {found : Option TabEntry}
    (hstart : move start = some (found.map TabEntry.handle)) (hfound : ∀ e ∈ found, e ∈ l)
    (hsome : found = none → l = []) :
    ∃ visited, traverse move l.length start = some visited ∧ visited.IsRotated (l.map TabEntry.handle) := by
  cases found with
  | none =>
    rw [hsome rfl]
    exact ⟨[], rfl, List.IsRotated.refl []⟩
  | some e =>
    obtain ⟨i, hi, heq⟩ := List.getElem_of_mem (hfound e rfl)
    have hfirst : move start = some (l[i % l.length]?.map TabEntry.handle) := by
      rw [hstart, Nat.mod_eq_of_lt hi, List.getElem?_eq_getElem hi, heq]
    refine ⟨_, traverse_eq hmove (List.ne_nil_of_mem (hfound e rfl)) l.length hfirst, ?_⟩
    rw [range_map_rotate]
    exact (List.IsRotated.forall l i).map _

/-- Where navigation may start: nowhere, or at a registered handle. -/
def StartsAt (ops : List (TabStopOperation FocusHandle)) (start : Option FocusId) : Prop :=
  ∀ id ∈ start, ∃ e ∈ registered ops, id = e.handle.id

/-- **`next` and `prev` go around the tab stops.** -/
structure Cycles (m : TabStopMap) (ops : List (TabStopOperation FocusHandle)) : Prop where
  first : m.next none = some ((tabOrder ops).head?.map TabEntry.handle)
  last : m.prev none = some ((tabOrder ops).getLast?.map TabEntry.handle)
  next : ∀ e ∈ registered ops, m.next (some e.handle.id) =
    some ((((tabOrder ops).find? fun a => e.rank < a.rank).or (tabOrder ops).head?).map TabEntry.handle)
  prev : ∀ e ∈ registered ops, m.prev (some e.handle.id) =
    some ((((tabOrder ops).reverse.find? fun a => a.rank < e.rank).or (tabOrder ops).getLast?).map TabEntry.handle)
  prev_next : ∀ a ∈ tabOrder ops, ∃ b ∈ tabOrder ops,
    m.next (some a.handle.id) = some (some b.handle) ∧ m.prev (some b.handle.id) = some (some a.handle)
  next_prev : ∀ a ∈ tabOrder ops, ∃ b ∈ tabOrder ops,
    m.prev (some a.handle.id) = some (some b.handle) ∧ m.next (some b.handle.id) = some (some a.handle)
  distinct : ((tabOrder ops).map fun a => a.handle.id).Nodup
  nextRound : ∀ start, StartsAt ops start → ∃ visited,
    traverse m.next (tabOrder ops).length start = some visited ∧
      visited.IsRotated ((tabOrder ops).map TabEntry.handle)
  prevRound : ∀ start, StartsAt ops start → ∃ visited,
    traverse m.prev (tabOrder ops).length start = some visited ∧
      visited.IsRotated ((tabOrder ops).map TabEntry.handle).reverse
  none_iff : ∀ start, StartsAt ops start →
    (m.next start = some none ↔ tabOrder ops = []) ∧ (m.prev start = some none ↔ tabOrder ops = [])

theorem Holds.next_startsAt (h : m.Holds ops) {start : Option FocusId} (hstart : StartsAt ops start) :
    ∃ found : Option TabEntry, m.next start = some (found.map TabEntry.handle) ∧
      (∀ e ∈ found, e ∈ tabOrder ops) ∧ (found = none ↔ tabOrder ops = []) := by
  cases start with
  | none => exact ⟨_, h.nextOfNone, fun e he => List.mem_of_mem_head? he, List.head?_eq_none_iff⟩
  | some id =>
    obtain ⟨e, he, rfl⟩ := hstart id rfl
    exact ⟨_, h.next he, fun a ha => mem_of_cyclicNext ha, cyclicNext_eq_none⟩

theorem Holds.prev_startsAt (h : m.Holds ops) {start : Option FocusId} (hstart : StartsAt ops start) :
    ∃ found : Option TabEntry, m.prev start = some (found.map TabEntry.handle) ∧
      (∀ e ∈ found, e ∈ tabOrder ops) ∧ (found = none ↔ tabOrder ops = []) := by
  cases start with
  | none => exact ⟨_, h.prevOfNone, fun e he => List.mem_of_getLast? he, List.getLast?_eq_none_iff⟩
  | some id =>
    obtain ⟨e, he, rfl⟩ := hstart id rfl
    exact ⟨_, h.prev he, fun a ha => mem_of_cyclicPrev ha, cyclicPrev_eq_none⟩

theorem Holds.cycles (h : m.Holds ops) (hids : ((registered ops).map fun e => e.handle.id).Nodup) :
    m.Cycles ops where
  first := h.nextOfNone
  last := h.prevOfNone
  next e he := h.next he
  prev e he := h.prev he
  prev_next a ha := by
    obtain ⟨b, hb, hnext, hprev⟩ := cyclicPrev_next tabOrder_pairwise ha
    refine ⟨b, hb, ?_, ?_⟩
    · rw [h.next (mem_tabOrder.mp ha).1, hnext, Option.map_some]
    · rw [h.prev (mem_tabOrder.mp hb).1, hprev, Option.map_some]
  next_prev a ha := by
    obtain ⟨b, hb, hprev, hnext⟩ := cyclicNext_prev tabOrder_pairwise ha
    refine ⟨b, hb, ?_, ?_⟩
    · rw [h.prev (mem_tabOrder.mp ha).1, hprev, Option.map_some]
    · rw [h.next (mem_tabOrder.mp hb).1, hnext, Option.map_some]
  distinct := by
    have hperm : (tabOrder ops).Perm ((registered ops).filter fun e => e.handle.tabStop) :=
      List.perm_insertionSort _ _
    exact (hperm.map _).nodup_iff.mpr (hids.sublist (List.filter_sublist.map _))
  nextRound start hstart := by
    obtain ⟨found, hnext, hmem, hnone⟩ := h.next_startsAt hstart
    refine traverse_round (fun i hi => ?_) hnext hmem hnone.mp
    rw [h.next (mem_tabOrder.mp (List.getElem_mem hi)).1, cyclicNext_getElem tabOrder_pairwise hi]
  prevRound start hstart := by
    obtain ⟨found, hprev, hmem, hnone⟩ := h.prev_startsAt hstart
    have hround := traverse_round (l := (tabOrder ops).reverse) (fun i hi => ?_) hprev
      (fun e he => List.mem_reverse.mpr (hmem e he)) fun hn => by rw [hnone.mp hn, List.reverse_nil]
    · rwa [List.length_reverse, List.map_reverse] at hround
    · have hmem := List.mem_reverse.mp (List.getElem_mem hi)
      rw [h.prev (mem_tabOrder.mp hmem).1, cyclicPrev_reverse_getElem tabOrder_pairwise hi]
  none_iff start hstart := by
    constructor
    · obtain ⟨found, hnext, -, hnone⟩ := h.next_startsAt hstart
      rw [hnext, ← hnone, Option.some.injEq, Option.map_eq_none_iff]
    · obtain ⟨found, hprev, -, hnone⟩ := h.prev_startsAt hstart
      rw [hprev, ← hnone, Option.some.injEq, Option.map_eq_none_iff]

theorem tab_navigation_cycles (ops : List (TabStopOperation FocusHandle))
    (hids : ((registered ops).map fun e => e.handle.id).Nodup) :
    ∃ m, default.replay ops = some m ∧ m.Cycles ops := by
  obtain ⟨m, hreplay, h⟩ := replay_holds hids
  exact ⟨m, hreplay, h.cycles hids⟩

/-- A group at the index of a tab stop, with a negative index and a handle that is no tab
stop in it, and one end of a group too many. -/
def nestedStops : List (TabStopOperation FocusHandle) :=
  [.insert ⟨0, 2, true⟩, .group 2, .insert ⟨1, 0, true⟩, .insert ⟨2, -3, true⟩, .insert ⟨3, -1, false⟩, .groupEnd,
    .groupEnd, .insert ⟨4, 1, true⟩]

/-- The stops are visited in the order of their paths, from the handle that is none. -/
theorem tab_navigation_cycles_nestedStops : ∃ m, default.replay nestedStops = some m ∧
    m.next (some 3) = some (some ⟨1, 0, true⟩) ∧ m.prev (some 4) = some (some ⟨1, 0, true⟩) ∧
    ∃ visited, traverse m.next 4 (some 3) = some visited ∧
      visited.IsRotated [⟨4, 1, true⟩, ⟨0, 2, true⟩, ⟨2, -3, true⟩, ⟨1, 0, true⟩] := by
  obtain ⟨m, hreplay, h⟩ := tab_navigation_cycles nestedStops (by decide)
  have horder : (tabOrder nestedStops).map TabEntry.handle =
      [⟨4, 1, true⟩, ⟨0, 2, true⟩, ⟨2, -3, true⟩, ⟨1, 0, true⟩] := by decide
  refine ⟨m, hreplay, ?_, ?_, ?_⟩
  · exact (h.next ⟨⟨3, -1, false⟩, [2, -1], 4⟩ (by decide)).trans (by decide)
  · exact (h.prev ⟨⟨4, 1, true⟩, [1], 7⟩ (by decide)).trans (by decide)
  · rw [← horder]
    refine h.nextRound (some 3) fun id hid => ⟨⟨⟨3, -1, false⟩, [2, -1], 4⟩, by decide, ?_⟩
    exact (Option.some.inj hid).symm

end TabStopMap

end FcGpui
