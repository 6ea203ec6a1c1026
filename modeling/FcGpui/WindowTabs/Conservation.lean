import FcGpui.WindowTabs.Controller

/-!
# Window tabs are neither lost nor doubled

`tabs_conserved`: in every run of calls in which a tab that is added alone finds its
key free, the windows that are registered and not removed are each in one group,
once, no group is empty, and no call takes away a tab that it does not name.

Every call is described by what it does to the list of the ids of all tabs, up to
order.  `addTab` takes the number of groups as the key of a new group.  When a group
in the middle has been removed that key may be in use, and the group there is
replaced: `tab_lost`.
-/

namespace FcGpui

open SystemWindowTabController

/-- The ids of the tabs of a group. -/
def groupIds (g : TabGroup) : List WindowId := g.2.map SystemWindowTab.id

/-! ### What a call does to the ids -/

section Ids

variable {id : WindowId}

theorem nonempty_of_withoutTab {g g' : TabGroup} (h : withoutTab id g = some g') : g'.2 ≠ [] := by
  unfold withoutTab at h
  split at h
  · exact absurd h (by simp)
  · rename_i tabs hne
    rw [← Option.some.inj h]
    exact fun hnil => hne hnil

theorem map_id_eraseP (tabs : List SystemWindowTab) :
    (tabs.eraseP fun tab => decide (tab.id = id)).map SystemWindowTab.id
      = (tabs.map SystemWindowTab.id).erase id := by
  induction tabs with
  | nil => rfl
  | cons tab tabs ih =>
    by_cases h : tab.id = id
    · rw [List.eraseP_cons_of_pos (by simp [h]), List.map_cons, h, List.erase_cons_head]
    · rw [List.eraseP_cons_of_neg (by simp [h]), List.map_cons, List.map_cons,
        List.erase_cons_tail (by simp [h]), ih]

theorem flatMap_withoutTab {groups : List TabGroup} (h : (groups.flatMap groupIds).Nodup) :
    (groups.filterMap (withoutTab id)).flatMap groupIds
      = (groups.flatMap groupIds).filter (· ≠ id) := by
  induction groups with
  | nil => rfl
  | cons g groups ih =>
    rw [List.flatMap_cons, List.nodup_append] at h
    have hids : (g.2.eraseP fun tab => decide (tab.id = id)).map SystemWindowTab.id
        = (groupIds g).filter (· ≠ id) := by
      rw [map_id_eraseP, show g.2.map SystemWindowTab.id = groupIds g from rfl,
        h.1.erase_eq_filter id]
      exact List.filter_congr fun x _ => (decide_not.trans (congrArg _ (beq_eq_decide x id).symm)).symm
    rw [List.flatMap_cons, List.filter_append, ← ih h.2.1, ← hids, List.filterMap_cons]
    unfold withoutTab
    cases g.2.eraseP fun tab => decide (tab.id = id) with
    | nil => rfl
    | cons tab tabs => rfl

theorem foldl_or {α β : Type} (f : α → Option β) (l : List α) (r : Option β) :
    l.foldl (fun r a => (f a).or r) r = (l.reverse.findSome? f).or r := by
  induction l generalizing r with
  | nil => rfl
  | cons a l ih =>
    rw [List.foldl_cons, ih, List.reverse_cons, List.findSome?_append, Option.or_assoc]
    congr 1
    rw [List.findSome?_singleton]

variable {c : SystemWindowTabController}

theorem removeTab_some {tab : SystemWindowTab}
    (h : (c.removeTab id).1 = some tab) : tab.id = id ∧ id ∈ c.tabIds := by
  have hfind : (c.tabGroups.reverse.findSome?
      fun g => g.2.find? fun tab => decide (tab.id = id)).or none = some tab :=
    (foldl_or _ _ _).symm.trans h
  rw [Option.or_none] at hfind
  obtain ⟨g, hg, hfound⟩ := List.exists_of_findSome?_eq_some hfind
  have hid := List.find?_some hfound
  rw [decide_eq_true_eq] at hid
  refine ⟨hid, List.mem_flatMap.mpr ⟨g, List.mem_reverse.mp hg, ?_⟩⟩
  rw [← hid]
  exact List.mem_map_of_mem (List.mem_of_find?_eq_some hfound)

theorem removeTab_none (h : (c.removeTab id).1 = none) : id ∉ c.tabIds := by
  have hfind : (c.tabGroups.reverse.findSome?
      fun g => g.2.find? fun tab => decide (tab.id = id)).or none = none :=
    (foldl_or _ _ _).symm.trans h
  rw [Option.or_none, List.findSome?_eq_none_iff] at hfind
  intro hmem
  obtain ⟨g, hg, hid⟩ := List.mem_flatMap.mp hmem
  obtain ⟨tab, htab, rfl⟩ := List.mem_map.mp hid
  have hnone := hfind g (List.mem_reverse.mpr hg)
  rw [List.find?_eq_none] at hnone
  exact hnone tab htab (by simp)

theorem tabIds_removeTab (id : WindowId) (h : c.tabIds.Nodup) :
    (c.removeTab id).2.tabIds = c.tabIds.filter (· ≠ id) :=
  flatMap_withoutTab h

theorem tabIds_insert {group : Nat} {tabs : List SystemWindowTab}
    (h : group ∉ c.tabGroups.map Prod.fst) :
    (c.insert group tabs).tabIds = c.tabIds ++ tabs.map SystemWindowTab.id := by
  have hall : c.tabGroups.filter (fun g => decide (g.1 ≠ group)) = c.tabGroups := by
    rw [List.filter_eq_self]
    intro g hg
    apply decide_eq_true
    rintro rfl
    exact h (List.mem_map_of_mem hg)
  show List.flatMap groupIds (c.tabGroups.filter (fun g => decide (g.1 ≠ group)) ++ [(group, tabs)]) = _
  rw [hall, List.flatMap_append, List.flatMap_singleton]
  rfl

theorem max_succ_not_mem (keys : List Nat) : keys.max?.elim 0 (· + 1) ∉ keys := by
  cases hmax : keys.max? with
  | none =>
    rw [List.max?_eq_none_iff.mp hmax]
    exact List.not_mem_nil
  | some k =>
    intro hmem
    have hle := (List.max?_eq_some_iff.mp hmax).2 (k + 1) hmem
    omega

theorem perm_push {groups : List TabGroup} {group : Nat} (tab : SystemWindowTab)
    (hnodup : (groups.map Prod.fst).Nodup) (h : group ∈ groups.map Prod.fst) :
    ((groups.map fun g => if g.1 = group then (g.1, g.2 ++ [tab]) else g).flatMap groupIds).Perm
      (tab.id :: groups.flatMap groupIds) := by
  induction groups with
  | nil => exact absurd h List.not_mem_nil
  | cons g groups ih =>
    rw [List.map_cons, List.nodup_cons] at hnodup
    rw [List.map_cons, List.flatMap_cons, List.flatMap_cons]
    by_cases hg : g.1 = group
    · -- the keys after this one are others
      have hrest : (groups.map fun g => if g.1 = group then (g.1, g.2 ++ [tab]) else g) = groups := by
        conv_rhs => rw [← List.map_id groups]
        refine List.map_congr_left fun g' hg' => if_neg ?_
        rintro rfl
        exact hnodup.1 (hg ▸ List.mem_map_of_mem hg')
      rw [if_pos hg, hrest]
      show (List.map SystemWindowTab.id (g.2 ++ [tab]) ++ _).Perm _
      rw [List.map_append, List.append_assoc]
      exact List.perm_middle
    · have hmem : group ∈ groups.map Prod.fst := by
        rcases List.mem_cons.mp h with rfl | h
        · exact absurd rfl hg
        · exact h
      rw [if_neg hg]
      refine ((ih hnodup.2 hmem).append_left _).trans ?_
      exact List.perm_middle

theorem perm_moveTab (tabs : List SystemWindowTab) (currentPos ix : Nat) :
    (moveTab tabs currentPos ix).Perm tabs := by
  unfold moveTab
  split
  · rename_i tab htab
    obtain ⟨hlt, rfl⟩ := List.getElem?_eq_some_iff.mp htab
    split
    · rename_i hix
      have hle : ix ≤ (tabs.eraseIdx currentPos).length := by
        rw [List.length_eraseIdx_of_lt hlt]
        omega
      refine (List.perm_insertIdx _ _ hle).trans ?_
      exact List.getElem_cons_eraseIdx_perm hlt
    · exact List.Perm.refl _
  · exact List.Perm.refl _

theorem perm_updatePosition (ix : Nat) (groups : List TabGroup) :
    ((updatePosition id ix groups).flatMap groupIds).Perm (groups.flatMap groupIds) := by
  induction groups with
  | nil => exact List.Perm.refl _
  | cons g groups ih =>
    unfold updatePosition
    split
    · rename_i currentPos _
      rw [List.flatMap_cons, List.flatMap_cons]
      exact ((perm_moveTab g.2 currentPos ix).map _).append_right _
    · rw [List.flatMap_cons, List.flatMap_cons]
      exact ih.append_left _

theorem tabIds_mapTabs (c : SystemWindowTabController) {f : SystemWindowTab → SystemWindowTab}
    (hf : ∀ tab, (f tab).id = tab.id) : (c.mapTabs f).tabIds = c.tabIds := by
  show (c.tabGroups.map fun g => (g.1, g.2.map f)).flatMap groupIds = c.tabGroups.flatMap groupIds
  rw [List.flatMap_map]
  refine List.flatMap_congr fun g _ => ?_
  show (g.2.map f).map SystemWindowTab.id = g.2.map SystemWindowTab.id
  rw [List.map_map]
  exact List.map_congr_left fun tab _ => hf tab

theorem tabs_some {tabs : List SystemWindowTab}
    (h : c.tabs id = some tabs) : ∃ before g after, c.tabGroups = before ++ g :: after ∧ tabs = g.2 := by
  obtain ⟨group, -, hget⟩ := Option.bind_eq_some_iff.mp h
  obtain ⟨g, hg, rfl⟩ := Option.map_eq_some_iff.mp hget
  obtain ⟨before, after, hsplit⟩ := List.append_of_mem (List.mem_of_find?_eq_some hg)
  exact ⟨before, g, after, hsplit, rfl⟩

/-- The tabs that the first group does not have, where the ids are distinct. -/
theorem filter_not_mem {tabs initialTabs : List SystemWindowTab}
    (h : ∀ x ∈ tabs.map SystemWindowTab.id, x ∉ initialTabs.map SystemWindowTab.id) :
    (tabs.filter fun tab => decide (tab ∉ initialTabs)) = tabs := by
  rw [List.filter_eq_self]
  intro tab htab
  apply decide_eq_true
  exact fun hmem => h tab.id (List.mem_map_of_mem htab) (List.mem_map_of_mem hmem)

theorem perm_mergeAllWindows (h : c.tabIds.Nodup) : (c.mergeAllWindows id).tabIds.Perm c.tabIds := by
  unfold mergeAllWindows
  cases htabs : c.tabs id with
  | none => exact List.Perm.refl _
  | some initialTabs =>
    obtain ⟨before, g, after, hsplit, rfl⟩ := tabs_some htabs
    have hids : c.tabIds = before.flatMap groupIds ++ (groupIds g ++ after.flatMap groupIds) := by
      rw [tabIds, hsplit]
      exact List.flatMap_append
    rw [hids, List.nodup_append] at h
    obtain ⟨-, hrest, hbefore⟩ := h
    rw [List.nodup_append] at hrest
    -- only the tabs of the other groups are added
    have hothers : ∀ groups : List TabGroup,
        (∀ x ∈ groups.flatMap groupIds, x ∉ groupIds g) →
        groups.flatMap (fun g' => g'.2.filter fun tab => decide (tab ∉ g.2))
          = groups.flatMap Prod.snd := by
      intro groups hgroups
      refine List.flatMap_congr fun g' hg' => filter_not_mem fun x hx => ?_
      exact hgroups x (List.mem_flatMap.mpr ⟨g', hg', hx⟩)
    have hself : (g.2.filter fun tab => decide (tab ∉ g.2)) = [] := by
      rw [List.filter_eq_nil_iff]
      intro tab htab
      simp [htab]
    have hall : (g.2 ++ c.tabGroups.flatMap fun g' => g'.2.filter fun tab => decide (tab ∉ g.2)).map
        SystemWindowTab.id = groupIds g ++ (before.flatMap groupIds ++ after.flatMap groupIds) := by
      rw [hsplit, List.flatMap_append, List.flatMap_cons, hself, List.nil_append, List.map_append,
        List.map_append]
      rw [hothers before fun x hx hg => hbefore x hx x (List.mem_append_left _ hg) rfl,
        hothers after fun x hx hg => hrest.2.2 x hg x hx rfl, List.map_flatMap, List.map_flatMap]
      rfl
    rw [tabIds_insert List.not_mem_nil, hall, hids]
    show ([] ++ (groupIds g ++ (before.flatMap groupIds ++ after.flatMap groupIds))).Perm _
    rw [List.nil_append, ← List.append_assoc, ← List.append_assoc]
    exact List.perm_append_comm.append_right _

theorem perm_moveTabToNewWindow (h : c.tabIds.Nodup) : (c.moveTabToNewWindow id).tabIds.Perm c.tabIds := by
  unfold moveTabToNewWindow
  have hids := tabIds_removeTab id h
  cases hremoved : (c.removeTab id).1 with
  | none =>
    have hall : c.tabIds.filter (· ≠ id) = c.tabIds := by
      rw [List.filter_eq_self]
      intro x hx
      apply decide_eq_true
      rintro rfl
      exact removeTab_none hremoved hx
    simp only [hremoved, hids, hall]
    exact List.Perm.refl _
  | some tab =>
    obtain ⟨hid, hmem⟩ := removeTab_some hremoved
    simp only [hremoved]
    rw [tabIds_insert (max_succ_not_mem _), hids, List.map_singleton, hid]
    have hfilter : c.tabIds.filter (· ≠ id) = c.tabIds.erase id := by
      rw [h.erase_eq_filter]
      exact List.filter_congr fun x _ => decide_not.trans (congrArg _ (beq_eq_decide x id).symm)
    rw [hfilter]
    exact List.perm_append_comm.trans (List.perm_cons_erase hmem).symm

theorem sortedIds_perm (tabs : List SystemWindowTab) :
    (sortedIds tabs).Perm (tabs.map SystemWindowTab.id) :=
  List.perm_insertionSort _ _

theorem sortedIds_eq_of_perm {tabs tabs' : List SystemWindowTab}
    (h : (tabs.map SystemWindowTab.id).Perm (tabs'.map SystemWindowTab.id)) :
    sortedIds tabs = sortedIds tabs' := by
  have hsorted : ∀ tabs : List SystemWindowTab, (sortedIds tabs).Pairwise (· ≤ ·) :=
    fun tabs => List.pairwise_insertionSort _ _
  apply List.Perm.eq_of_pairwise (fun _ _ _ _ => Nat.le_antisymm) (hsorted tabs) (hsorted tabs')
  exact ((sortedIds_perm tabs).trans h).trans (sortedIds_perm tabs').symm

theorem addTab_alone {tabs : List SystemWindowTab}
    (hnonempty : ∀ g ∈ c.tabGroups, g.2 ≠ []) (htabs : tabs.map SystemWindowTab.id = [id]) :
    c.addTab id tabs = c.insert c.tabGroups.length tabs := by
  obtain ⟨tab, rest, rfl, hid, hrest⟩ := List.map_eq_cons_iff.mp htabs
  obtain rfl := List.map_eq_nil_iff.mp hrest
  have hfind : [tab].find? (fun tab => decide (tab.id = id)) = some tab := by simp [hid]
  have hexpected : sortedIds ([tab].filter fun tab => decide (tab.id ≠ id)) = [] := by
    simp [hid, sortedIds]
  have hnone : (c.tabGroups.find? fun g => decide (sortedIds g.2 = [])) = none := by
    rw [List.find?_eq_none]
    intro g hg hsorted
    rw [decide_eq_true_eq] at hsorted
    have hperm := sortedIds_perm g.2
    rw [hsorted] at hperm
    exact hnonempty g hg (List.map_eq_nil_iff.mp (List.Perm.nil_eq hperm).symm)
  unfold addTab
  simp only [hfind, hexpected, hnone]

theorem addTab_group {tabs : List SystemWindowTab} {g : TabGroup} (hg : g ∈ c.tabGroups) (hid : id ∉ groupIds g)
    (htabs : (tabs.map SystemWindowTab.id).Perm (id :: groupIds g)) :
    ∃ g' ∈ c.tabGroups, ∃ tab : SystemWindowTab, tab.id = id ∧ c.addTab id tabs = c.push g'.1 tab := by
  have hmem : id ∈ tabs.map SystemWindowTab.id := htabs.symm.subset List.mem_cons_self
  obtain ⟨tab₀, htab₀, hid₀⟩ := List.mem_map.mp hmem
  cases hfind : tabs.find? fun tab => decide (tab.id = id) with
  | none =>
    rw [List.find?_eq_none] at hfind
    exact absurd (decide_eq_true hid₀) (hfind tab₀ htab₀)
  | some tab =>
    have htab := List.find?_some hfind
    rw [decide_eq_true_eq] at htab
    have hothers : ((tabs.filter fun tab => decide (tab.id ≠ id)).map SystemWindowTab.id).Perm
        (g.2.map SystemWindowTab.id) := by
      have hfilter := htabs.filter (· ≠ id)
      rw [List.filter_cons_of_neg (by simp), List.filter_map] at hfilter
      have hsame : (groupIds g).filter (· ≠ id) = groupIds g := by
        rw [List.filter_eq_self]
        intro x hx
        apply decide_eq_true
        rintro rfl
        exact hid hx
      rw [hsame] at hfilter
      exact hfilter
    cases hgroup : c.tabGroups.find? fun g => decide (sortedIds g.2
        = sortedIds (tabs.filter fun tab => decide (tab.id ≠ id))) with
    | none =>
      rw [List.find?_eq_none] at hgroup
      exact absurd (decide_eq_true (sortedIds_eq_of_perm hothers).symm) (hgroup g hg)
    | some g' =>
      refine ⟨g', List.mem_of_find?_eq_some hgroup, tab, htab, ?_⟩
      unfold addTab
      simp only [hfind, hgroup]

end Ids

/-! ### Runs -/

namespace TabState

/-- Each window that is registered and not removed is in one group, once; the groups hold
no other tabs, and none of them is empty. -/
def Conserved (s : TabState) : Prop :=
  (∀ id ∈ s.live, s.controller.tabIds.count id = 1) ∧
    (∀ id ∈ s.controller.tabIds, id ∈ s.live) ∧ ∀ g ∈ s.controller.tabGroups, g.2 ≠ []

instance (s : TabState) : Decidable s.Conserved :=
  inferInstanceAs (Decidable ((∀ id ∈ s.live, s.controller.tabIds.count id = 1) ∧
    (∀ id ∈ s.controller.tabIds, id ∈ s.live) ∧ ∀ g ∈ s.controller.tabGroups, g.2 ≠ []))

/-- What every call keeps. -/
structure Inv (s : TabState) : Prop where
  ids : s.controller.tabIds.Perm s.live
  nodup : s.live.Nodup
  nonempty : ∀ g ∈ s.controller.tabGroups, g.2 ≠ []

variable {s : TabState}

theorem Inv.nodup_tabIds (h : s.Inv) : s.controller.tabIds.Nodup :=
  h.ids.nodup_iff.mpr h.nodup

theorem Inv.conserved (h : s.Inv) : s.Conserved := by
  refine ⟨fun id hid => ?_, fun id hid => h.ids.subset hid, h.nonempty⟩
  rw [h.ids.count_eq, List.count_eq_one_of_mem h.nodup hid]

theorem inv_new : new.Inv := ⟨List.Perm.refl _, List.nodup_nil, fun _ hg => absurd hg List.not_mem_nil⟩

theorem nonempty_insert {c : SystemWindowTabController} {group : Nat} {tabs : List SystemWindowTab}
    (h : ∀ g ∈ c.tabGroups, g.2 ≠ []) (htabs : tabs ≠ []) :
    ∀ g ∈ (c.insert group tabs).tabGroups, g.2 ≠ [] := by
  intro g hg
  rcases List.mem_append.mp hg with hg | hg
  · exact h g (List.mem_filter.mp hg).1
  · rw [List.mem_singleton.mp hg]
    exact htabs

theorem nonempty_removeTab (c : SystemWindowTabController) (id : WindowId) :
    ∀ g ∈ (c.removeTab id).2.tabGroups, g.2 ≠ [] := by
  intro g hg
  obtain ⟨_, -, hg⟩ := List.mem_filterMap.mp hg
  exact nonempty_of_withoutTab hg

theorem inv_addTab (h : s.Inv) {id : WindowId} {tabs : List SystemWindowTab}
    (hadmissible : s.Admissible (.addTab id tabs)) (hfree : s.KeyFree (.addTab id tabs)) :
    Inv ⟨s.controller.addTab id tabs, s.live ++ [id]⟩ := by
  obtain ⟨hnew, halone | ⟨g, hg, hgroup⟩⟩ := hadmissible
  · have hlength := congrArg List.length halone
    rw [List.length_map] at hlength
    rw [addTab_alone h.nonempty halone]
    refine ⟨?_, ?_, nonempty_insert h.nonempty ?_⟩
    · rw [tabIds_insert (hfree hlength), halone]
      exact h.ids.append_right _
    · rw [← List.concat_eq_append]
      exact h.nodup.concat hnew
    · rintro rfl
      exact absurd hlength (by simp)
  · have hid : id ∉ groupIds g := fun hmem =>
      hnew (h.ids.subset (List.mem_flatMap.mpr ⟨g, hg, hmem⟩))
    obtain ⟨g', hg', tab, rfl, heq⟩ := addTab_group hg hid hgroup
    rw [heq]
    refine ⟨?_, ?_, fun g'' hg'' => ?_⟩
    · refine (perm_push tab s.controller.nodup (List.mem_map_of_mem hg')).trans ?_
      exact (h.ids.cons tab.id).trans (List.perm_append_singleton _ _).symm
    · rw [← List.concat_eq_append]
      exact h.nodup.concat hnew
    · obtain ⟨g₀, hg₀, rfl⟩ := List.mem_map.mp hg''
      split
      · simp
      · exact h.nonempty g₀ hg₀

theorem inv_removeTab (h : s.Inv) (id : WindowId) :
    Inv ⟨(s.controller.removeTab id).2, s.live.filter (· ≠ id)⟩ where
  ids := by
    rw [tabIds_removeTab id h.nodup_tabIds]
    exact h.ids.filter _
  nodup := h.nodup.filter _
  nonempty := nonempty_removeTab s.controller id

theorem inv_moveTabToNewWindow (h : s.Inv) (id : WindowId) :
    Inv ⟨s.controller.moveTabToNewWindow id, s.live⟩ where
  ids := (perm_moveTabToNewWindow h.nodup_tabIds).trans h.ids
  nodup := h.nodup
  nonempty := by
    unfold moveTabToNewWindow
    cases hremoved : (s.controller.removeTab id).1 with
    | none =>
      simp only [hremoved]
      exact nonempty_removeTab s.controller id
    | some tab =>
      simp only [hremoved]
      exact nonempty_insert (nonempty_removeTab s.controller id) (by simp)

theorem inv_mergeAllWindows (h : s.Inv) (id : WindowId) :
    Inv ⟨s.controller.mergeAllWindows id, s.live⟩ where
  ids := (perm_mergeAllWindows h.nodup_tabIds).trans h.ids
  nodup := h.nodup
  nonempty := by
    unfold mergeAllWindows
    cases htabs : s.controller.tabs id with
    | none => exact h.nonempty
    | some initialTabs =>
      obtain ⟨before, g, after, hsplit, rfl⟩ := tabs_some htabs
      have hg : g ∈ s.controller.tabGroups := by simp [hsplit]
      apply nonempty_insert fun g hg => absurd hg List.not_mem_nil
      exact fun hnil => h.nonempty g hg (List.append_eq_nil_iff.mp hnil).1

theorem inv_updateTabPosition (h : s.Inv) (id : WindowId) (ix : Nat) :
    Inv ⟨s.controller.updateTabPosition id ix, s.live⟩ where
  ids := (perm_updatePosition ix s.controller.tabGroups).trans h.ids
  nodup := h.nodup
  nonempty := by
    have hgroups : ∀ groups : List TabGroup, (∀ g ∈ groups, g.2 ≠ []) →
        ∀ g ∈ updatePosition id ix groups, g.2 ≠ [] := by
      intro groups
      induction groups with
      | nil => exact fun hgroups => hgroups
      | cons g groups ih =>
        intro hgroups g' hg'
        unfold updatePosition at hg'
        split at hg'
        · rename_i currentPos _
          rcases List.mem_cons.mp hg' with rfl | hg'
          · intro hnil
            have hperm := perm_moveTab g.2 currentPos ix
            rw [show moveTab g.2 currentPos ix = [] from hnil] at hperm
            exact hgroups g List.mem_cons_self (List.Perm.nil_eq hperm).symm
          · exact hgroups g' (List.mem_cons_of_mem _ hg')
        · rcases List.mem_cons.mp hg' with rfl | hg'
          · exact hgroups g' List.mem_cons_self
          · exact ih (fun g hg => hgroups g (List.mem_cons_of_mem _ hg)) g' hg'
    exact hgroups _ h.nonempty

theorem inv_mapTabs (h : s.Inv) {f : SystemWindowTab → SystemWindowTab}
    (hf : ∀ tab, (f tab).id = tab.id) : Inv ⟨s.controller.mapTabs f, s.live⟩ where
  ids := tabIds_mapTabs s.controller hf ▸ h.ids
  nodup := h.nodup
  nonempty g hg := by
    obtain ⟨g₀, hg₀, rfl⟩ := List.mem_map.mp hg
    simp [h.nonempty g₀ hg₀]

theorem inv_rehash (h : s.Inv) {order : List TabGroup}
    {c : SystemWindowTabController} (hc : s.controller.rehash order = some c) : Inv ⟨c, s.live⟩ := by
  unfold rehash at hc
  split at hc
  · rename_i hperm
    obtain rfl := Option.some.inj hc
    exact ⟨(hperm.flatMap_right _).trans h.ids, h.nodup, fun g hg => h.nonempty g (hperm.subset hg)⟩
  · exact absurd hc (by simp)

theorem Inv.step {s' : TabState} {call : TabCall} (h : s.Inv)
    (hcall : s.Admissible call ∧ s.KeyFree call) (hstep : s.step call = some s') : s'.Inv := by
  cases call with
  | addTab id tabs =>
    obtain rfl := Option.some.inj hstep
    exact inv_addTab h hcall.1 hcall.2
  | removeTab id =>
    obtain rfl := Option.some.inj hstep
    exact inv_removeTab h id
  | moveTabToNewWindow id =>
    obtain rfl := Option.some.inj hstep
    exact inv_moveTabToNewWindow h id
  | mergeAllWindows id =>
    obtain rfl := Option.some.inj hstep
    exact inv_mergeAllWindows h id
  | updateTabPosition id ix =>
    obtain rfl := Option.some.inj hstep
    exact inv_updateTabPosition h id ix
  | updateTabTitle id title =>
    obtain rfl := Option.some.inj hstep
    show Inv ⟨s.controller.updateTabTitle id title, s.live⟩
    unfold updateTabTitle
    split
    · exact h
    · split
      · exact h
      · refine inv_mapTabs h fun tab => ?_
        split <;> rfl
  | updateLastActive id now =>
    obtain rfl := Option.some.inj hstep
    refine inv_mapTabs h fun tab => ?_
    split <;> rfl
  | rehash order =>
    obtain ⟨c, hc, rfl⟩ := Option.map_eq_some_iff.mp hstep
    exact inv_rehash h hc

theorem live_step {s' : TabState} {call : TabCall} (hstep : s.step call = some s') {id : WindowId}
    (hid : id ∈ s.live) (hcall : call ≠ .removeTab id) : id ∈ s'.live := by
  cases call with
  | addTab id' tabs =>
    obtain rfl := Option.some.inj hstep
    exact List.mem_append_left _ hid
  | removeTab id' =>
    obtain rfl := Option.some.inj hstep
    refine List.mem_filter.mpr ⟨hid, decide_eq_true ?_⟩
    rintro rfl
    exact hcall rfl
  | rehash order =>
    obtain ⟨c, -, rfl⟩ := Option.map_eq_some_iff.mp hstep
    exact hid
  | _ =>
    obtain rfl := Option.some.inj hstep
    exact hid

/-- **In a run in which a tab that is added alone finds its key free, no tab is lost or
doubled, no group is empty, and a call takes away no tab but the one it removes.** -/
theorem tabs_conserved {calls : List TabCall} {s : TabState}
    (hrun : run TabState.step new calls = some s)
    (hmeets : RunMeets TabState.step (fun s call => s.Admissible call ∧ s.KeyFree call) new calls) :
    s.Conserved ∧ ∀ call s', s.Admissible call → s.KeyFree call → s.step call = some s' →
      ∀ id ∈ s.controller.tabIds, call ≠ .removeTab id → id ∈ s'.controller.tabIds := by
  have hinv : s.Inv := run_invariant (fun _ _ _ hs hc hstep => hs.step hc hstep) calls inv_new
    hmeets hrun
  refine ⟨hinv.conserved, fun call s' hadmissible hfree hstep id hid hcall => ?_⟩
  have hinv' := hinv.step ⟨hadmissible, hfree⟩ hstep
  exact hinv'.ids.symm.subset (live_step hstep (hinv.ids.subset hid) hcall)

/-- A tab as a window has it when it opens. -/
def openedTab (id : WindowId) : SystemWindowTab := ⟨id, "", ⟨id, 0⟩, 0⟩

/-- Three windows are opened, the second as a tab of the first; the second is moved to
its own window, and the first is closed. -/
def movedTabs : List TabCall :=
  [.addTab 0 [openedTab 0], .addTab 1 [openedTab 0, openedTab 1], .addTab 2 [openedTab 2],
    .moveTabToNewWindow 1, .updateTabPosition 2 0, .removeTab 0, .mergeAllWindows 1]

theorem tabs_conserved_movedTabs :
    ∃ s, run TabState.step new movedTabs = some s ∧ s.live = [1, 2] ∧ s.Conserved := by
  obtain ⟨s, hrun⟩ := Option.isSome_iff_exists.mp
    (by decide +kernel : (run TabState.step new movedTabs).isSome = true)
  have hlive : (run TabState.step new movedTabs).map TabState.live = some [1, 2] := by
    decide +kernel
  rw [hrun] at hlive
  exact ⟨s, hrun, Option.some.inj hlive, (tabs_conserved hrun (by decide +kernel)).1⟩

/-- Two windows, each in its own group; the first is closed and a third one is opened. -/
def reopened : List TabCall :=
  [.addTab 0 [openedTab 0], .addTab 1 [openedTab 1], .removeTab 0, .addTab 2 [openedTab 2]]

/-- The third window takes the key of the second, whose tab is lost. -/
theorem tab_lost : RunMeets TabState.step (fun s call => s.Admissible call) new reopened ∧
    ∃ s, run TabState.step new reopened = some s ∧ 1 ∈ s.live ∧ s.controller.tabIds = [2] ∧
      ¬s.Conserved := by
  refine ⟨by decide +kernel, ?_⟩
  obtain ⟨s, hrun⟩ := Option.isSome_iff_exists.mp
    (by decide +kernel : (run TabState.step new reopened).isSome = true)
  have hlost : (run TabState.step new reopened).all fun s =>
      decide (1 ∈ s.live ∧ s.controller.tabIds = [2] ∧ ¬s.Conserved) := by decide +kernel
  rw [hrun] at hlost
  exact ⟨s, hrun, of_decide_eq_true hlost⟩

end TabState

end FcGpui
