import FcGpui.Lib.Machine
import FcGpui.Window.Frame

/-!
# The groups of window tabs

`SystemWindowTabController` of `crates/gpui/src/app.rs`.  The tab groups are in a hash
map under numeric keys.  A hash map is iterated in an order that is not known: here
the list of its entries is the order of the next iteration, and `rehash` puts it into
any other order between two calls.
-/

namespace FcGpui

structure AnyWindowHandle where
  id : WindowId
  stateType : Nat
deriving DecidableEq

structure SystemWindowTab where
  id : WindowId
  title : String
  handle : AnyWindowHandle
  lastActiveAt : Nat
deriving DecidableEq

abbrev TabGroup := Nat × List SystemWindowTab

structure SystemWindowTabController where
  tabGroups : List TabGroup
  nodup : (tabGroups.map Prod.fst).Nodup

/-- What is done with every entry keeps its key, or drops it. -/
theorem nodup_filterMap_keys {groups : List TabGroup} {f : TabGroup → Option TabGroup}
    (hf : ∀ g g', f g = some g' → g'.1 = g.1) (h : (groups.map Prod.fst).Nodup) :
    ((groups.filterMap f).map Prod.fst).Nodup := by
  refine h.sublist ?_
  clear h
  induction groups with
  | nil => exact List.Sublist.refl _
  | cons g groups ih =>
    rw [List.filterMap_cons]
    cases hg : f g with
    | none => exact ih.cons _
    | some g' =>
      rw [List.map_cons, List.map_cons, hf g g' hg]
      exact ih.cons_cons _

namespace SystemWindowTabController

def new : SystemWindowTabController := ⟨[], List.nodup_nil⟩

/-- `HashMap::get`. -/
def get (c : SystemWindowTabController) (group : Nat) : Option (List SystemWindowTab) :=
  (c.tabGroups.find? fun g => decide (g.1 = group)).map Prod.snd

/-- `HashMap::insert`: what is there under the key is replaced. -/
def insert (c : SystemWindowTabController) (group : Nat) (tabs : List SystemWindowTab) :
    SystemWindowTabController where
  tabGroups := c.tabGroups.filter (fun g => decide (g.1 ≠ group)) ++ [(group, tabs)]
  nodup := by
    rw [List.map_append, List.nodup_append]
    refine ⟨c.nodup.sublist (List.filter_sublist.map _), List.nodup_singleton _, ?_⟩
    intro k hk k' hk' heq
    obtain ⟨g, hg, rfl⟩ := List.mem_map.mp hk
    have hne := of_decide_eq_true (List.mem_filter.mp hg).2
    rw [List.map_singleton, List.mem_singleton] at hk'
    exact hne (heq.trans hk')

/-- The tabs of the group that the window is in. -/
def tabs (c : SystemWindowTabController) (id : WindowId) : Option (List SystemWindowTab) :=
  ((c.tabGroups.find? fun g => g.2.any fun tab => decide (tab.id = id)).map Prod.fst).bind c.get

/-- What is done with the tabs of every group. -/
def mapTabs (c : SystemWindowTabController) (f : SystemWindowTab → SystemWindowTab) :
    SystemWindowTabController where
  tabGroups := c.tabGroups.map fun g => (g.1, g.2.map f)
  nodup := by
    rw [List.map_map]
    exact c.nodup

def updateLastActive (c : SystemWindowTabController) (id : WindowId) (now : Nat) :
    SystemWindowTabController :=
  c.mapTabs fun tab => if tab.id = id then { tab with lastActiveAt := now } else tab

def updateTabTitle (c : SystemWindowTabController) (id : WindowId) (title : String) :
    SystemWindowTabController :=
  match (c.tabGroups.flatMap Prod.snd).find? fun tab => decide (tab.id = id) with
  | none => c
  | some tab =>
    if tab.title = title then c
    else c.mapTabs fun tab => if tab.id = id then { tab with title := title } else tab

/-- The tab at `currentPos` is removed and inserted at `ix`. -/
def moveTab (tabs : List SystemWindowTab) (currentPos ix : Nat) : List SystemWindowTab :=
  match tabs[currentPos]? with
  | some tab =>
    if ix < tabs.length ∧ currentPos ≠ ix then (tabs.eraseIdx currentPos).insertIdx ix tab else tabs
  | none => tabs

/-- The first group that has the window. -/
def updatePosition (id : WindowId) (ix : Nat) : List TabGroup → List TabGroup
  | [] => []
  | g :: groups =>
    match g.2.findIdx? fun tab => decide (tab.id = id) with
    | some currentPos => (g.1, moveTab g.2 currentPos ix) :: groups
    | none => g :: updatePosition id ix groups

theorem keys_updatePosition (id : WindowId) (ix : Nat) (groups : List TabGroup) :
    (updatePosition id ix groups).map Prod.fst = groups.map Prod.fst := by
  induction groups with
  | nil => rfl
  | cons g groups ih =>
    rw [updatePosition]
    split
    · rfl
    · rw [List.map_cons, List.map_cons, ih]

def updateTabPosition (c : SystemWindowTabController) (id : WindowId) (ix : Nat) :
    SystemWindowTabController :=
  ⟨updatePosition id ix c.tabGroups, (keys_updatePosition id ix c.tabGroups).symm ▸ c.nodup⟩

/-- The ids in ascending order. -/
def sortedIds (tabs : List SystemWindowTab) : List WindowId :=
  (tabs.map SystemWindowTab.id).insertionSort (· ≤ ·)

/-- The tab joins the group under the key, if there is one. -/
def push (c : SystemWindowTabController) (group : Nat) (tab : SystemWindowTab) :
    SystemWindowTabController where
  tabGroups := c.tabGroups.map fun g => if g.1 = group then (g.1, g.2 ++ [tab]) else g
  nodup := by
    have hkeys : (c.tabGroups.map fun g => if g.1 = group then (g.1, g.2 ++ [tab]) else g).map Prod.fst
        = c.tabGroups.map Prod.fst := by
      rw [List.map_map]
      refine List.map_congr_left fun g _ => ?_
      show (if g.1 = group then (g.1, g.2 ++ [tab]) else g).1 = g.1
      split <;> rfl
    rw [hkeys]
    exact c.nodup

def addTab (c : SystemWindowTabController) (id : WindowId) (tabs : List SystemWindowTab) :
    SystemWindowTabController :=
  match tabs.find? fun tab => decide (tab.id = id) with
  | none => c
  | some tab =>
    let expectedTabIds := sortedIds (tabs.filter fun tab => decide (tab.id ≠ id))
    match c.tabGroups.find? fun g => decide (sortedIds g.2 = expectedTabIds) with
    | some g => c.push g.1 tab
    | none => c.insert c.tabGroups.length tabs

/-- What is left of a group without the window; an empty group goes. -/
def withoutTab (id : WindowId) (g : TabGroup) : Option TabGroup :=
  match g.2.eraseP fun tab => decide (tab.id = id) with
  | [] => none
  | tabs => some (g.1, tabs)

theorem withoutTab_key {id : WindowId} {g g' : TabGroup} (h : withoutTab id g = some g') :
    g'.1 = g.1 := by
  unfold withoutTab at h
  split at h
  · exact absurd h (by simp)
  · rw [← Option.some.inj h]

def removeTab (c : SystemWindowTabController) (id : WindowId) :
    Option SystemWindowTab × SystemWindowTabController :=
  (c.tabGroups.foldl (fun removed g => (g.2.find? fun tab => decide (tab.id = id)).or removed) none,
    ⟨c.tabGroups.filterMap (withoutTab id), nodup_filterMap_keys (fun _ _ => withoutTab_key) c.nodup⟩)

def moveTabToNewWindow (c : SystemWindowTabController) (id : WindowId) : SystemWindowTabController :=
  let (removed, c) := c.removeTab id
  match removed with
  | none => c
  | some tab => c.insert ((c.tabGroups.map Prod.fst).max?.elim 0 (· + 1)) [tab]

def mergeAllWindows (c : SystemWindowTabController) (id : WindowId) : SystemWindowTabController :=
  match c.tabs id with
  | none => c
  | some initialTabs =>
    new.insert 0 (initialTabs ++
      c.tabGroups.flatMap fun g => g.2.filter fun tab => decide (tab ∉ initialTabs))

/-- The entries in another order. -/
def rehash (c : SystemWindowTabController) (order : List TabGroup) :
    Option SystemWindowTabController :=
  if h : order.Perm c.tabGroups then some ⟨order, (h.map Prod.fst).nodup_iff.mpr c.nodup⟩ else none

/-- The ids of all tabs. -/
def tabIds (c : SystemWindowTabController) : List WindowId :=
  c.tabGroups.flatMap fun g => g.2.map SystemWindowTab.id

end SystemWindowTabController

/-! ### Runs -/

inductive TabCall
  | addTab (id : WindowId) (tabs : List SystemWindowTab)
  | removeTab (id : WindowId)
  | moveTabToNewWindow (id : WindowId)
  | mergeAllWindows (id : WindowId)
  | updateTabPosition (id : WindowId) (ix : Nat)
  | updateTabTitle (id : WindowId) (title : String)
  | updateLastActive (id : WindowId) (now : Nat)
  | rehash (order : List TabGroup)

/-- The controller with the windows that are registered and not removed. -/
structure TabState where
  controller : SystemWindowTabController
  live : List WindowId

namespace TabState

def new : TabState := ⟨.new, []⟩

def step (s : TabState) : TabCall → Option TabState
  | .addTab id tabs => some ⟨s.controller.addTab id tabs, s.live ++ [id]⟩
  | .removeTab id => some ⟨(s.controller.removeTab id).2, s.live.filter (· ≠ id)⟩
  | .moveTabToNewWindow id => some ⟨s.controller.moveTabToNewWindow id, s.live⟩
  | .mergeAllWindows id => some ⟨s.controller.mergeAllWindows id, s.live⟩
  | .updateTabPosition id ix => some ⟨s.controller.updateTabPosition id ix, s.live⟩
  | .updateTabTitle id title => some ⟨s.controller.updateTabTitle id title, s.live⟩
  | .updateLastActive id now => some ⟨s.controller.updateLastActive id now, s.live⟩
  | .rehash order => (s.controller.rehash order).map fun c => ⟨c, s.live⟩

/-- A tab is added for a window that is not registered, with a list that has that tab
alone or exactly the tabs of one group besides it. -/
def Admissible (s : TabState) : TabCall → Prop
  | .addTab id tabs => id ∉ s.live ∧ ((tabs.map SystemWindowTab.id) = [id] ∨
    ∃ g ∈ s.controller.tabGroups,
      (tabs.map SystemWindowTab.id).Perm (id :: g.2.map SystemWindowTab.id))
  | _ => True

instance (s : TabState) : (call : TabCall) → Decidable (s.Admissible call)
  | .addTab id tabs => inferInstanceAs (Decidable (id ∉ s.live ∧
    ((tabs.map SystemWindowTab.id) = [id] ∨ ∃ g ∈ s.controller.tabGroups,
      (tabs.map SystemWindowTab.id).Perm (id :: g.2.map SystemWindowTab.id))))
  | .removeTab _ | .moveTabToNewWindow _ | .mergeAllWindows _ | .updateTabPosition _ _
  | .updateTabTitle _ _ | .updateLastActive _ _ | .rehash _ => .isTrue trivial

/-- A tab that is added alone finds the key free that is the number of groups. -/
def KeyFree (s : TabState) : TabCall → Prop
  | .addTab _ tabs => tabs.length = 1 →
    s.controller.tabGroups.length ∉ s.controller.tabGroups.map Prod.fst
  | _ => True

instance (s : TabState) : (call : TabCall) → Decidable (s.KeyFree call)
  | .addTab _ tabs => inferInstanceAs (Decidable (tabs.length = 1 →
    s.controller.tabGroups.length ∉ s.controller.tabGroups.map Prod.fst))
  | .removeTab _ | .moveTabToNewWindow _ | .mergeAllWindows _ | .updateTabPosition _ _
  | .updateTabTitle _ _ | .updateLastActive _ _ | .rehash _ => .isTrue trivial

end TabState

end FcGpui
