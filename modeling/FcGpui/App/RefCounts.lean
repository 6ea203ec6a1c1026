import FcGpui.App.EntityMap

/-!
# Reference counts are exact

After every run of calls the count of an entity is the number of its handles that are
alive, and an entity whose count is zero is queued once, until it is taken (`Exact`).
So no check fails while only live handles are used, and an entity without handles
never gets one again.

**Main result.**  `refCounts_exact`.
-/

namespace FcGpui

namespace EntityWorld

variable {E : Type}

structure Exact (w : EntityWorld E) : Prop where
  /-- The count is the number of live handles; an entity that was taken has none. -/
  counts : ∀ id, (w.map.counts.lookup id).getD 0 = w.live id
  issued : ∀ id, w.map.counts.lookup id ≠ none → id < w.map.nextKey
  /-- Queued once while the count is zero. -/
  dropped : ∀ id, w.map.droppedEntityIds.count id = if w.map.counts.lookup id = some 0 then 1 else 0
  entities : ∀ id entity, w.map.entities.lookup id = some entity ↔
    (id, entity) ∈ w.inserted ∧ w.map.counts.lookup id ≠ none
  insertedNodup : (w.inserted.map Prod.fst).Nodup
  insertedIssued : ∀ e ∈ w.inserted, e.1 < w.map.nextKey
  /-- What was given back is what was inserted and is freed. -/
  taken : ∀ e, e ∈ w.taken ↔ e ∈ w.inserted ∧ w.map.counts.lookup e.1 = none
  takenNodup : (w.taken.map Prod.fst).Nodup
  /-- A slot is alive in one place only, until it is inserted into. -/
  slots : ∀ id, ⟨id, true⟩ ∈ w.handles → id ∉ w.inserted.map Prod.fst
  slotsOnce : ∀ id, w.handles.count ⟨id, true⟩ ≤ 1

theorem exact_new : Exact (new : EntityWorld E) where
  counts _ := rfl
  issued _ h := absurd rfl h
  dropped _ := rfl
  entities id entity := by simp [new, EntityMap.new]
  insertedNodup := List.nodup_nil
  insertedIssued _ h := absurd h List.not_mem_nil
  taken e := by simp [new]
  takenNodup := List.nodup_nil
  slots _ h := absurd h List.not_mem_nil
  slotsOnce _ := Nat.zero_le _

/-! ### Handles -/

theorem live_concat (handles : List EntityHandle) (h : EntityHandle) (id : EntityId) :
    ((handles ++ [h]).map EntityHandle.entityId).count id =
      (handles.map EntityHandle.entityId).count id + if h.entityId = id then 1 else 0 := by
  rw [List.map_append, List.count_append, List.map_singleton, List.count_singleton]
  simp only [beq_iff_eq]

variable {h : EntityHandle} {ix id : Nat} {w w' : EntityWorld E} {act : EntityAct E}

theorem live_eraseIdx {handles : List EntityHandle} (hget : handles[ix]? = some h) (id : EntityId) :
    (handles.map EntityHandle.entityId).count id =
      ((handles.eraseIdx ix).map EntityHandle.entityId).count id +
        if h.entityId = id then 1 else 0 := by
  obtain ⟨hlt, rfl⟩ := List.getElem?_eq_some_iff.mp hget
  rw [← ((List.getElem_cons_eraseIdx_perm hlt).map EntityHandle.entityId).count_eq, List.map_cons,
    List.count_cons]
  simp only [beq_iff_eq]

theorem map_entityId_set {handles : List EntityHandle} {slot : Nat} (hget : handles[slot]? = some h) :
    (handles.set slot ⟨h.entityId, false⟩).map EntityHandle.entityId =
      handles.map EntityHandle.entityId := by
  obtain ⟨hlt, rfl⟩ := List.getElem?_eq_some_iff.mp hget
  have hself : handles[slot].entityId =
      (handles.map EntityHandle.entityId).get ⟨slot, by rwa [List.length_map]⟩ := by
    rw [List.get_eq_getElem, List.getElem_map]
  rw [List.map_set]
  conv_lhs => rw [hself]
  exact List.set_getElem_self _

theorem live_pos (hget : w.handles[ix]? = some h) : 0 < w.live h.entityId :=
  List.count_pos_iff.mpr (List.mem_map_of_mem (List.mem_of_getElem? hget))

theorem Exact.lookup_of_live (h : Exact w) {id : EntityId}
    (hlive : 0 < w.live id) : w.map.counts.lookup id = some (w.live id) := by
  have hcount := h.counts id
  cases hl : w.map.counts.lookup id with
  | none =>
    rw [hl, Option.getD_none] at hcount
    omega
  | some count =>
    rw [hl, Option.getD_some] at hcount
    rw [hcount]

/-! ### One step -/

theorem Exact.setCount (h : Exact w) {count count' : Nat} (hid : w.map.counts.lookup id = some count)
    (hcounts : w'.map.counts = w.map.counts.insert id count')
    (hentities : w'.map.entities = w.map.entities) (hnext : w'.map.nextKey = w.map.nextKey)
    (hinserted : w'.inserted = w.inserted) (htaken : w'.taken = w.taken)
    (hlive : ∀ x, w'.live x = if x = id then count' else w.live x)
    (hdropped : ∀ x, w'.map.droppedEntityIds.count x =
    if x = id then (if count' = 0 then 1 else 0) else w.map.droppedEntityIds.count x)
    (hslots : ∀ x, w'.handles.count ⟨x, true⟩ ≤ w.handles.count ⟨x, true⟩) : Exact w' := by
  have hnone : ∀ x, w'.map.counts.lookup x = none ↔ w.map.counts.lookup x = none := by
    intro x
    rw [hcounts]
    by_cases hx : x = id
    · rw [hx, AList.lookup_insert, hid]
      exact iff_of_false nofun nofun
    · rw [AList.lookup_insert_ne hx]
  refine ⟨fun x => ?_, fun x hx => ?_, fun x => ?_, fun x entity => ?_, ?_, ?_, fun e => ?_, ?_,
    fun x hmem => ?_, fun x => (hslots x).trans (h.slotsOnce x)⟩
  · rw [hcounts, hlive]
    by_cases hx : x = id
    · rw [hx, AList.lookup_insert, if_pos rfl, Option.getD_some]
    · rw [AList.lookup_insert_ne hx, if_neg hx, h.counts]
  · rw [hnext]
    exact h.issued x fun hn => hx ((hnone x).mpr hn)
  · rw [hdropped, hcounts]
    by_cases hx : x = id
    · rw [hx, AList.lookup_insert, if_pos rfl]
      simp only [Option.some.injEq]
    · rw [AList.lookup_insert_ne hx, if_neg hx, h.dropped]
  · rw [hentities, hinserted, h.entities, Ne, Ne, hnone]
  · rw [hinserted]
    exact h.insertedNodup
  · rw [hinserted, hnext]
    exact h.insertedIssued
  · rw [htaken, hinserted, h.taken, hnone]
  · rw [htaken]
    exact h.takenNodup
  · rw [hinserted]
    exact h.slots x (List.count_pos_iff.mp ((List.count_pos_iff.mpr hmem).trans_le (hslots x)))

/-- A handle is added to an entity that has one, by cloning it or by upgrading a weak
handle. -/
theorem Exact.addHandle (h : Exact w) {count : Nat} (hid : w.map.counts.lookup id = some (count + 1)) :
    Exact { w with
      map := { w.map with counts := w.map.counts.insert id (count + 2) }
      handles := w.handles ++ [⟨id, false⟩] } := by
  have hlive : w.live id = count + 1 := by rw [← h.counts, hid, Option.getD_some]
  refine h.setCount hid rfl rfl rfl rfl rfl (fun x => ?_) (fun x => ?_) fun x => ?_
  · rw [live, live_concat]
    by_cases hx : x = id
    · rw [hx, if_pos rfl, if_pos rfl, ← live, hlive]
    · rw [if_neg fun heq => hx heq.symm, if_neg hx]
      rfl
  · by_cases hx : x = id
    · rw [if_pos hx, if_neg (Nat.succ_ne_zero _), hx]
      dsimp only
      rw [h.dropped, hid, if_neg (by simp)]
    · rw [if_neg hx]
  · rw [List.count_append, List.count_singleton]
    simp

theorem Exact.reserve (h : Exact w) : Exact { w with
    map := { w.map with
      counts := w.map.counts.insert w.map.nextKey 1
      nextKey := w.map.nextKey + 1 }
    handles := w.handles ++ [⟨w.map.nextKey, true⟩] } := by
  have hfresh : w.map.counts.lookup w.map.nextKey = none :=
    by_contra fun hne => Nat.lt_irrefl _ (h.issued _ hne)
  have hlive : w.live w.map.nextKey = 0 := by rw [← h.counts, hfresh, Option.getD_none]
  have hnew : ∀ e ∈ w.inserted, e.1 ≠ w.map.nextKey := fun e he => (h.insertedIssued e he).ne
  have hcounts : ∀ x, x ≠ w.map.nextKey → (w.map.counts.insert w.map.nextKey 1).lookup x =
      w.map.counts.lookup x := fun x hx => AList.lookup_insert_ne hx
  refine ⟨fun x => ?_, fun x hx => ?_, fun x => ?_, fun x entity => ?_, h.insertedNodup,
    fun e he => (h.insertedIssued e he).trans (Nat.lt_succ_self _), fun e => ?_, h.takenNodup,
    fun x hmem => ?_, fun x => ?_⟩
  · rw [live, live_concat]
    dsimp only
    by_cases hx : x = w.map.nextKey
    · rw [hx, AList.lookup_insert, if_pos rfl, Option.getD_some, ← live, hlive]
    · rw [hcounts x hx, if_neg (Ne.symm hx), h.counts]
      rfl
  · dsimp only at hx ⊢
    by_cases hxk : x = w.map.nextKey
    · rw [hxk]
      exact Nat.lt_succ_self _
    · rw [hcounts x hxk] at hx
      exact (h.issued x hx).trans (Nat.lt_succ_self _)
  · dsimp only
    by_cases hx : x = w.map.nextKey
    · rw [hx, AList.lookup_insert, h.dropped, hfresh, if_neg (by simp), if_neg (by simp)]
    · rw [hcounts x hx, h.dropped]
  · dsimp only
    rw [h.entities]
    refine and_congr_right fun hmem => ?_
    rw [hcounts x (hnew _ hmem)]
  · dsimp only
    rw [h.taken]
    refine and_congr_right fun hmem => ?_
    rw [hcounts e.1 (hnew e hmem)]
  · rcases List.mem_append.mp hmem with hmem | hmem
    · exact h.slots x hmem
    · cases List.mem_singleton.mp hmem
      intro hin
      obtain ⟨e, he, hid⟩ := List.mem_map.mp hin
      exact hnew e he hid
  · dsimp only
    rw [List.count_append, List.count_singleton]
    by_cases hx : x = w.map.nextKey
    · have hzero : w.handles.count ⟨w.map.nextKey, true⟩ = 0 := by
        refine List.count_eq_zero.mpr fun hmem => ?_
        have hpos : 0 < w.live w.map.nextKey := List.count_pos_iff.mpr (List.mem_map_of_mem hmem)
        omega
      rw [hx, hzero, if_pos (beq_self_eq_true _)]
    · have hne : ((⟨w.map.nextKey, true⟩ : EntityHandle) == ⟨x, true⟩) = false := by
        simpa using Ne.symm hx
      rw [hne]
      exact h.slotsOnce x

theorem Exact.insert (h : Exact w) {slot : Nat}
    (hslot : w.handles[slot]? = some ⟨id, true⟩) (entity : E) : Exact { w with
      map := w.map.insert id entity
      handles := w.handles.set slot ⟨id, false⟩
      inserted := w.inserted ++ [(id, entity)] } := by
  obtain ⟨hlt, hget⟩ := List.getElem?_eq_some_iff.mp hslot
  have hlookup := h.lookup_of_live (live_pos hslot)
  have hnotin : id ∉ w.inserted.map Prod.fst := h.slots id (List.mem_of_getElem? hslot)
  have hissued : id < w.map.nextKey := h.issued id (by rw [hlookup]; exact nofun)
  have hcount : ∀ x, (w.handles.set slot ⟨id, false⟩).count ⟨x, true⟩ =
      w.handles.count ⟨x, true⟩ - if x = id then 1 else 0 := by
    intro x
    rw [List.count_set hlt, hget]
    by_cases hx : x = id
    · simp [hx]
    · simp [hx, Ne.symm hx]
  have hids := map_entityId_set hslot
  have hother : ∀ {x : EntityId} {found : E}, (x, found) ∈ w.inserted → x ≠ id := by
    rintro x found hmem rfl
    exact hnotin (List.mem_map_of_mem hmem)
  refine ⟨fun x => ?_, h.issued, h.dropped, fun x found => ?_, ?_, fun e he => ?_, fun e => ?_,
    h.takenNodup, fun x hmem => ?_, fun x => ?_⟩
  · rw [live, hids]
    exact h.counts x
  · rw [List.mem_append, List.mem_singleton]
    dsimp only [EntityMap.insert]
    by_cases hx : x = id
    · subst hx
      rw [AList.lookup_insert, hlookup, Option.some.injEq]
      refine ⟨fun heq => ⟨Or.inr (by rw [heq]), nofun⟩, fun ⟨hmem, _⟩ => ?_⟩
      rcases hmem with hmem | hmem
      · exact absurd rfl (hother hmem)
      · exact (Prod.mk.inj hmem).2.symm
    · rw [AList.lookup_insert_ne hx, h.entities]
      refine and_congr_left' (or_iff_left fun heq => hx (Prod.mk.inj heq).1).symm
  · rw [List.map_append, List.map_singleton]
    exact List.nodup_append.mpr ⟨h.insertedNodup, List.nodup_singleton _, fun x hx y hy heq => by
      rw [heq, List.mem_singleton.mp hy] at hx
      exact hnotin hx⟩
  · rcases List.mem_append.mp he with he | he
    · exact h.insertedIssued e he
    · rw [List.mem_singleton.mp he]
      exact hissued
  · dsimp only [EntityMap.insert]
    rw [h.taken, List.mem_append, List.mem_singleton]
    refine and_congr_left fun hnone => (or_iff_left ?_).symm
    rintro rfl
    rw [hlookup] at hnone
    cases hnone
  · have hpos : 0 < w.handles.count ⟨x, true⟩ - if x = id then 1 else 0 := by
      rw [← hcount]
      exact List.count_pos_iff.mpr hmem
    have honce := h.slotsOnce x
    have hx : x ≠ id := fun heq => by
      rw [if_pos heq] at hpos
      omega
    rw [if_neg hx] at hpos
    rw [List.map_append, List.mem_append, List.map_singleton, List.mem_singleton]
    rintro (hin | hin)
    · exact h.slots x (List.count_pos_iff.mp hpos) hin
    · exact hx hin
  · dsimp only
    rw [hcount]
    exact (Nat.sub_le _ _).trans (h.slotsOnce x)

theorem Exact.dropHandle (h : Exact w) {handle : EntityHandle}
    (hget : w.handles[ix]? = some handle) : ∃ map, w.map.dropHandle handle.entityId = some map ∧
      Exact { w with map := map, handles := w.handles.eraseIdx ix } := by
  have hpos := live_pos hget
  have hlookup := h.lookup_of_live hpos
  refine ⟨_, by rw [EntityMap.dropHandle, hlookup, Option.bind_eq_bind, Option.bind_some,
    if_neg hpos.ne'], ?_⟩
  refine h.setCount hlookup rfl rfl rfl rfl rfl (fun x => ?_) (fun x => ?_) fun x => ?_
  · have hlive := live_eraseIdx hget x
    rw [live, live] at *
    by_cases hx : x = handle.entityId
    · rw [if_pos hx]
      rw [if_pos hx.symm] at hlive
      rw [← hx, hlive]
      rfl
    · rw [if_neg hx]
      rw [if_neg (Ne.symm hx)] at hlive
      exact hlive.symm
  · dsimp only
    have hzero : w.map.droppedEntityIds.count handle.entityId = 0 := by
      rw [h.dropped, hlookup, if_neg]
      simpa using hpos.ne'
    by_cases hone : w.live handle.entityId = 1
    · have hleft : w.live handle.entityId - 1 = 0 := by omega
      rw [if_pos hone, if_pos hleft, List.count_append, List.count_singleton]
      by_cases hx : x = handle.entityId
      · rw [if_pos hx, hx, hzero, if_pos (beq_self_eq_true _)]
      · rw [if_neg hx, if_neg (by simpa using Ne.symm hx), Nat.add_zero]
    · have hleft : w.live handle.entityId - 1 ≠ 0 := by omega
      rw [if_neg hone, if_neg hleft]
      by_cases hx : x = handle.entityId
      · rw [if_pos hx, hx, hzero]
      · rw [if_neg hx]
  · exact (List.eraseIdx_sublist _ _).count_le _

/-- **What the loop of `take_dropped` frees and gives back.** -/
theorem takeIds_spec : ∀ (ids : List EntityId) (map : EntityMap E), ids.Nodup →
    (∀ id ∈ ids, map.counts.lookup id = some 0) →
    ∃ taken map', EntityMap.takeIds ids map = some (taken, map') ∧
      (∀ x, map'.counts.lookup x = if x ∈ ids then none else map.counts.lookup x) ∧
      (∀ x, map'.entities.lookup x = if x ∈ ids then none else map.entities.lookup x) ∧
      map'.droppedEntityIds = map.droppedEntityIds ∧ map'.nextKey = map.nextKey ∧
      (∀ e, e ∈ taken ↔ e.1 ∈ ids ∧ map.entities.lookup e.1 = some e.2) ∧
      (taken.map Prod.fst).Sublist ids := by
  intro ids
  induction ids with
  | nil =>
    intro map _ _
    refine ⟨[], map, rfl, fun x => ?_, fun x => ?_, rfl, rfl, fun e => ?_, List.Sublist.refl _⟩
    · rw [if_neg List.not_mem_nil]
    · rw [if_neg List.not_mem_nil]
    · exact iff_of_false List.not_mem_nil fun h => List.not_mem_nil h.1
  | cons id ids ih =>
    intro map hnodup hzero
    obtain ⟨hid, hnodup⟩ := List.nodup_cons.mp hnodup
    have hne : ∀ x ∈ ids, x ≠ id := fun x hx heq => hid (heq ▸ hx)
    obtain ⟨taken, map', htake, hcounts, hentities, hdropped, hnext, htaken, hsub⟩ :=
      ih { map with
        counts := map.counts.erase id
        accessedEntities := map.accessedEntities.erase id
        entities := map.entities.erase id } hnodup fun x hx => by
          rw [AList.lookup_erase_ne (hne x hx)]
          exact hzero x (List.mem_cons_of_mem _ hx)
    refine ⟨((map.entities.lookup id).map (id, ·)).toList ++ taken, map', ?_, fun x => ?_, fun x => ?_,
      hdropped, hnext, fun e => ?_, ?_⟩
    · rw [EntityMap.takeIds, hzero id List.mem_cons_self, Option.bind_eq_bind, Option.bind_some,
        if_pos rfl, htake]
      rfl
    · rw [hcounts]
      by_cases hx : x = id
      · rw [hx, if_neg hid, AList.lookup_erase, if_pos List.mem_cons_self]
      · simp only [List.mem_cons, hx, false_or, AList.lookup_erase_ne hx]
    · rw [hentities]
      by_cases hx : x = id
      · rw [hx, if_neg hid, AList.lookup_erase, if_pos List.mem_cons_self]
      · simp only [List.mem_cons, hx, false_or, AList.lookup_erase_ne hx]
    · rw [List.mem_append, htaken]
      by_cases hx : e.1 = id
      · have hout : e ∈ ((map.entities.lookup id).map (id, ·)).toList ↔
            map.entities.lookup e.1 = some e.2 := by
          obtain ⟨x, entity⟩ := e
          obtain rfl : x = id := hx
          cases map.entities.lookup x with
          | none => simp
          | some found => simp [eq_comm]
        rw [hout, hx]
        simp [hid]
      · have hout : e ∉ ((map.entities.lookup id).map (id, ·)).toList := by
          cases map.entities.lookup id with
          | none => simp
          | some found =>
            simp only [Option.map_some, Option.toList_some, List.mem_singleton]
            rintro rfl
            exact hx rfl
        dsimp only
        rw [List.mem_cons, AList.lookup_erase_ne hx]
        simp [hx, hout]
    · rw [List.map_append]
      cases map.entities.lookup id with
      | none => exact hsub.cons _
      | some found => exact hsub.cons_cons _

/-- **What is queued is freed, and the entities are given back.** -/
theorem Exact.takeDropped (h : Exact w) : ∃ taken map,
    w.map.takeDropped = some (taken, map) ∧
      Exact { w with map := map, taken := w.taken ++ taken } ∧ map.nextKey = w.map.nextKey ∧
      ∀ e ∈ w.inserted, w.live e.1 = 0 → e ∈ w.taken ++ taken := by
  have hmem : ∀ id, id ∈ w.map.droppedEntityIds ↔ w.map.counts.lookup id = some 0 := by
    intro id
    rw [← List.count_pos_iff, h.dropped]
    split
    · exact iff_of_true Nat.one_pos ‹_›
    · exact iff_of_false (Nat.lt_irrefl 0) ‹_›
  have hnodup : w.map.droppedEntityIds.Nodup := by
    refine List.nodup_iff_count_le_one.mpr fun id => ?_
    rw [h.dropped]
    split
    · exact le_rfl
    · exact Nat.zero_le 1
  obtain ⟨taken, map, htake, hcounts, hentities, hdropped, hnext, htaken, hsub⟩ :=
    takeIds_spec w.map.droppedEntityIds { w.map with droppedEntityIds := [] } hnodup
      fun id hid => (hmem id).mp hid
  dsimp only at hcounts hentities hdropped hnext htaken
  have hcounts : ∀ x, map.counts.lookup x =
      if w.map.counts.lookup x = some 0 then none else w.map.counts.lookup x := by
    intro x
    rw [hcounts]
    exact if_congr (hmem x) rfl rfl
  have htaken : ∀ e, e ∈ taken ↔ e ∈ w.inserted ∧ w.map.counts.lookup e.1 = some 0 := by
    intro e
    rw [htaken, hmem, h.entities]
    refine ⟨fun ⟨hz, he, _⟩ => ⟨he, hz⟩, fun ⟨he, hz⟩ => ⟨hz, he, ?_⟩⟩
    rw [hz]
    exact nofun
  refine ⟨taken, map, htake, ⟨fun x => ?_, fun x hx => ?_, fun x => ?_, fun x entity => ?_,
    h.insertedNodup, fun e he => ?_, fun e => ?_, ?_, h.slots, h.slotsOnce⟩, hnext, fun e he hlive => ?_⟩
  · rw [hcounts]
    have hcount := h.counts x
    split
    · rename_i hz
      rw [hz] at hcount
      exact hcount
    · exact hcount
  · rw [hcounts] at hx
    dsimp only
    rw [hnext]
    refine h.issued x fun hn => hx ?_
    rw [hn]
    rfl
  · dsimp only
    rw [hdropped, hcounts, List.count_nil]
    split
    · exact (if_neg nofun).symm
    · rfl
  · dsimp only
    rw [hentities, hcounts]
    by_cases hz : w.map.counts.lookup x = some 0
    · rw [if_pos ((hmem x).mpr hz), if_pos hz]
      exact iff_of_false nofun fun hn => hn.2 rfl
    · rw [if_neg fun hx => hz ((hmem x).mp hx), if_neg hz, h.entities]
  · dsimp only
    rw [hnext]
    exact h.insertedIssued e he
  · rw [List.mem_append, h.taken, htaken, ← and_or_left]
    refine and_congr_right fun _ => ?_
    dsimp only
    rw [hcounts]
    by_cases hz : w.map.counts.lookup e.1 = some 0
    · rw [if_pos hz]
      exact iff_of_true (Or.inr hz) rfl
    · rw [if_neg hz]
      exact or_iff_left hz
  · rw [List.map_append]
    refine List.nodup_append.mpr ⟨h.takenNodup, hnodup.sublist hsub, fun x hx y hy heq => ?_⟩
    subst heq
    obtain ⟨e, he, hxe⟩ := List.mem_map.mp hx
    have hzero := (hmem x).mp (hsub.subset hy)
    rw [← hxe, ((h.taken e).mp he).2] at hzero
    cases hzero
  · have hcount := h.counts e.1
    rw [List.mem_append, h.taken, htaken, ← and_or_left]
    refine ⟨he, ?_⟩
    cases hl : w.map.counts.lookup e.1 with
    | none => exact Or.inl rfl
    | some count =>
      rw [hl, Option.getD_some, hlive] at hcount
      rw [hcount]
      exact Or.inr rfl

/-- **A call on a live handle** passes every check and keeps the counts exact. -/
theorem Exact.perform (h : Exact w) (hcan : w.CanDo act) : ∃ w', w.perform act = some w' ∧ Exact w' := by
  cases act with
  | reserve => exact ⟨_, rfl, h.reserve⟩
  | insert slot entity =>
    obtain ⟨id, hget⟩ := hcan
    refine ⟨_, ?_, h.insert hget entity⟩
    rw [EntityWorld.perform, hget]
    rfl
  | clone handle =>
    have hget := List.getElem?_eq_getElem hcan
    have hpos := live_pos hget
    obtain ⟨count, hcount⟩ := Nat.exists_eq_succ_of_ne_zero hpos.ne'
    have hlookup := h.lookup_of_live hpos
    rw [hcount] at hlookup
    refine ⟨_, ?_, h.addHandle hlookup⟩
    simp [EntityWorld.perform, hget, EntityMap.cloneHandle, hlookup]
  | drop ix =>
    have hget := List.getElem?_eq_getElem hcan
    obtain ⟨map, hdrop, hexact⟩ := h.dropHandle hget
    refine ⟨_, ?_, hexact⟩
    simp [EntityWorld.perform, hget, hdrop]
  | downgrade handle =>
    have hget := List.getElem?_eq_getElem hcan
    refine ⟨{ w with weakHandles := w.weakHandles ++ [w.handles[handle].entityId] }, ?_,
      ⟨h.counts, h.issued, h.dropped, h.entities, h.insertedNodup, h.insertedIssued, h.taken,
        h.takenNodup, h.slots, h.slotsOnce⟩⟩
    simp [EntityWorld.perform, hget]
  | upgrade weakHandle =>
    have hget := List.getElem?_eq_getElem hcan
    cases hlookup : w.map.counts.lookup w.weakHandles[weakHandle] with
    | none =>
      refine ⟨w, ?_, h⟩
      simp [EntityWorld.perform, hget, EntityMap.upgrade, hlookup]
    | some count =>
      cases count with
      | zero =>
        refine ⟨w, ?_, h⟩
        simp [EntityWorld.perform, hget, EntityMap.upgrade, hlookup]
      | succ count =>
        refine ⟨_, ?_, h.addHandle hlookup⟩
        simp [EntityWorld.perform, hget, EntityMap.upgrade, hlookup]
  | takeDropped =>
    obtain ⟨taken, map, htake, hexact, -⟩ := h.takeDropped
    refine ⟨_, ?_, hexact⟩
    simp [EntityWorld.perform, htake]

theorem canDo_of_perform (h : w.perform act = some w') : w.CanDo act := by
  cases act with
  | reserve | takeDropped => trivial
  | insert slot entity =>
    obtain ⟨handle, hget, h⟩ := Option.bind_eq_some_iff.mp h
    obtain ⟨id, isSlot⟩ := handle
    obtain ⟨hslot, -⟩ := Option.ite_none_right_eq_some.mp h
    obtain rfl : isSlot = true := hslot
    exact ⟨id, hget⟩
  | clone handle =>
    obtain ⟨_, hget, -⟩ := Option.bind_eq_some_iff.mp h
    exact (List.getElem?_eq_some_iff.mp hget).1
  | drop handle =>
    obtain ⟨_, hget, -⟩ := Option.bind_eq_some_iff.mp h
    exact (List.getElem?_eq_some_iff.mp hget).1
  | downgrade handle =>
    obtain ⟨_, hget, -⟩ := Option.bind_eq_some_iff.mp h
    exact (List.getElem?_eq_some_iff.mp hget).1
  | upgrade weakHandle =>
    obtain ⟨_, hget, -⟩ := Option.bind_eq_some_iff.mp h
    exact (List.getElem?_eq_some_iff.mp hget).1

theorem Exact.step (h : Exact w) (hstep : w.perform act = some w') : Exact w' := by
  obtain ⟨w₁, hperform, h₁⟩ := h.perform (canDo_of_perform hstep)
  obtain rfl := Option.some.inj (hperform.symm.trans hstep)
  exact h₁

theorem Exact.upgrade_iff (h : Exact w) (id : EntityId) : (w.map.upgrade id).1 = true ↔ 0 < w.live id := by
  rw [← h.counts, EntityMap.upgrade]
  cases w.map.counts.lookup id with
  | none => exact iff_of_false nofun (Nat.lt_irrefl 0)
  | some count => cases count with
    | zero => exact iff_of_false nofun (Nat.lt_irrefl 0)
    | succ count => exact iff_of_true rfl (Nat.succ_pos count)

/-- An entity that was issued and has no handle. -/
def Released (w : EntityWorld E) (id : EntityId) : Prop := id < w.map.nextKey ∧ w.live id = 0

/-- **A released entity gets no handle again.** -/
theorem Released.step {id : EntityId}
    (hid : w.Released id) (h : Exact w) (hstep : w.perform act = some w') : w'.Released id := by
  obtain ⟨hissued, hlive⟩ := hid
  have hconcat : ∀ (handle : EntityHandle), handle.entityId ≠ id →
      ((w.handles ++ [handle]).map EntityHandle.entityId).count id = 0 := by
    intro handle hne
    rw [live_concat, if_neg hne]
    exact hlive
  cases act with
  | reserve =>
    cases hstep
    exact ⟨hissued.trans (Nat.lt_succ_self _), hconcat _ hissued.ne'⟩
  | insert slot entity =>
    obtain ⟨handle, hget, hstep⟩ := Option.bind_eq_some_iff.mp hstep
    obtain ⟨-, hsome⟩ := Option.ite_none_right_eq_some.mp hstep
    cases hsome
    refine ⟨hissued, ?_⟩
    rw [live, map_entityId_set hget]
    exact hlive
  | clone ix =>
    obtain ⟨handle, hget, hstep⟩ := Option.bind_eq_some_iff.mp hstep
    obtain ⟨map, hclone, hsome⟩ := Option.bind_eq_some_iff.mp hstep
    cases hsome
    obtain ⟨_, -, hclone⟩ := Option.bind_eq_some_iff.mp hclone
    obtain ⟨-, hmap⟩ := Option.ite_none_left_eq_some.mp hclone
    cases hmap
    refine ⟨hissued, hconcat _ fun heq => ?_⟩
    have hpos := live_pos hget
    rw [heq] at hpos
    omega
  | drop ix =>
    obtain ⟨handle, hget, hstep⟩ := Option.bind_eq_some_iff.mp hstep
    obtain ⟨map, hdrop, hsome⟩ := Option.bind_eq_some_iff.mp hstep
    cases hsome
    obtain ⟨_, -, hdrop⟩ := Option.bind_eq_some_iff.mp hdrop
    obtain ⟨-, hmap⟩ := Option.ite_none_left_eq_some.mp hdrop
    cases hmap
    refine ⟨hissued, ?_⟩
    have hcount : w.live id = _ := live_eraseIdx hget id
    exact (Nat.add_eq_zero_iff.mp (hcount.symm.trans hlive)).1
  | downgrade ix =>
    obtain ⟨handle, hget, hsome⟩ := Option.bind_eq_some_iff.mp hstep
    cases hsome
    exact ⟨hissued, hlive⟩
  | upgrade ix =>
    obtain ⟨weak, hget, hstep⟩ := Option.bind_eq_some_iff.mp hstep
    have hupgrade := h.upgrade_iff weak
    rw [EntityMap.upgrade] at hupgrade hstep
    split at hstep
    · rename_i hsplit
      cases hstep
      rw [hsplit] at hupgrade
      have hpos := hupgrade.mp rfl
      refine ⟨?_, hconcat _ fun heq => ?_⟩
      · split at hsplit
        · cases hsplit
        · cases hsplit
        · cases hsplit
          exact hissued
      · dsimp only at heq
        rw [heq] at hpos
        omega
    · rename_i hsplit
      cases hstep
      split at hsplit
      · cases hsplit
        exact ⟨hissued, hlive⟩
      · cases hsplit
        exact ⟨hissued, hlive⟩
      · cases hsplit
  | takeDropped =>
    obtain ⟨taken, map, htake, -, hnext, -⟩ := h.takeDropped
    obtain ⟨found, hfound, hsome⟩ := Option.bind_eq_some_iff.mp hstep
    obtain rfl := Option.some.inj (htake.symm.trans hfound)
    cases hsome
    exact ⟨hissued.trans_eq hnext.symm, hlive⟩

/-- **Reference counts are exact** after every run, no check fails on a live handle, and
released entities stay released until `take_dropped` gives them back. -/
theorem refCounts_exact (acts : List (EntityAct E)) {w : EntityWorld E}
    (hrun : run perform new acts = some w) :
    Exact w ∧ (∀ act, w.CanDo act → (w.perform act).isSome = true) ∧
      (∀ id, (w.map.upgrade id).1 = true ↔ 0 < w.live id) ∧
      (∀ id, w.Released id → ∀ more w', run perform w more = some w' → w'.Released id) ∧
      ∀ w', w.perform .takeDropped = some w' → ∀ e ∈ w.inserted, w.live e.1 = 0 → e ∈ w'.taken := by
  have hexact : Exact w :=
    run_invariant (fun _ _ _ h (_ : True) hstep => Exact.step h hstep) acts exact_new
      (RunMeets.of_forall (fun _ _ => trivial) acts new) hrun
  refine ⟨hexact, fun act hcan => ?_, hexact.upgrade_iff, fun id hid more w' hmore => ?_,
    fun w' htake e he hlive => ?_⟩
  · obtain ⟨w', hperform, -⟩ := hexact.perform hcan
    rw [hperform]
    rfl
  · have hstep : ∀ (v : EntityWorld E) (act : EntityAct E) (v' : EntityWorld E),
        Exact v ∧ v.Released id → True → v.perform act = some v' → Exact v' ∧ v'.Released id :=
      fun v act v' h _ hperform => ⟨h.1.step hperform, h.2.step h.1 hperform⟩
    exact (run_invariant hstep more ⟨hexact, hid⟩
      (RunMeets.of_forall (fun _ _ => trivial) more w) hmore).2
  · obtain ⟨taken, map, htaken, -, -, hall⟩ := hexact.takeDropped
    have hw' : some { w with map := map, taken := w.taken ++ taken } = some w' := by
      rw [← htake, EntityWorld.perform, htaken]
      rfl
    obtain rfl := Option.some.inj hw'
    exact hall e he hlive

/-- An entity whose last handle is dropped while a weak one is left, and a slot that is
dropped before anything is inserted. -/
def dropTwo : List (EntityAct Nat) :=
  [.reserve, .insert 0 7, .downgrade 0, .drop 0, .upgrade 0, .reserve, .drop 0, .takeDropped]

theorem dropTwo_runs : (run perform new dropTwo).isSome = true := by decide +kernel

theorem refCounts_exact_dropTwo : Exact ((run perform new dropTwo).get dropTwo_runs) :=
  (refCounts_exact dropTwo (Option.some_get _).symm).1

/-- Only what was inserted is given back. -/
example : ((run perform new dropTwo).get dropTwo_runs).taken = [(0, 7)] := by decide +kernel

end EntityWorld

end FcGpui
