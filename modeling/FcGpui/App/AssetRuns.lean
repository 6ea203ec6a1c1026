import FcGpui.App.AssetCache

/-!
# Loads are shared and do not cross over

`Tells` is what every step of a run keeps: the load of an entry has a cell, and no other load has
one; as long as the cell is loading its views are those that asked, none of which was notified yet;
and once it is published they were notified once each, and it holds the result of its own task.

**Main result.**  `assets_shared`.
-/

namespace FcGpui

variable {Source Output : Type}

namespace AssetRun

/-- A load between its start and its end. -/
def CellOk (w : AssetRun Source Output) (load : Nat) (it : CachedLoad Source Output) : Prop :=
  match it.state with
  | none => it.foreground ≠ .waiting
  | some (.loading views) =>
    it.foreground = .waiting ∧ load ∉ w.published ∧ views.Nodup ∧ ∀ view, view ∈ views ↔ (load, view) ∈ w.asked
  | some (.loaded result) =>
    it.background = some result ∧ it.foreground = .finished ∧ load ∈ w.published

/-- What every step keeps; `assets` are those that are asked for. -/
structure Tells (hash : Source → UInt64) (assets : Set (Asset Source)) (w : AssetRun Source Output) :
    Prop where
  entry : ∀ id load, w.cx.loadingAssets id = some load →
    ∃ it : CachedLoad Source Output, w.cx.loads[load]? = some it ∧ it.state.isSome ∧
      assetId hash it.asset = id
  owned : ∀ (load : Nat) (it : CachedLoad Source Output), w.cx.loads[load]? = some it →
    it.state.isSome → w.cx.loadingAssets (assetId hash it.asset) = some load
  cell : ∀ (load : Nat) (it : CachedLoad Source Output), w.cx.loads[load]? = some it → w.CellOk load it
  asset : ∀ (load : Nat) (it : CachedLoad Source Output), w.cx.loads[load]? = some it →
    it.asset ∈ assets
  published : ∀ load ∈ w.published, load < w.cx.loads.length
  asked : ∀ load view, (load, view) ∈ w.asked → load < w.cx.loads.length
  notified : ∀ load view, w.cx.notified.count (load, view) =
    if load ∈ w.published ∧ (load, view) ∈ w.asked then 1 else 0
  returned : ∀ asset entry result, (asset, entry, result) ∈ w.returned →
    ∃ load, entry = some load ∧ load ∈ w.published ∧
      ∃ it : CachedLoad Source Output, w.cx.loads[load]? = some it ∧ it.asset = asset ∧
        it.background = some result
  stale : ∀ load ∈ w.stale, load ∉ w.published ∧
    ∃ it : CachedLoad Source Output, w.cx.loads[load]? = some it ∧ it.state = none

variable {hash : Source → UInt64} {assets : Set (Asset Source)} {w w' : AssetRun Source Output}

theorem tells_new : Tells hash assets (new : AssetRun Source Output) where
  entry := fun id load h => by cases h
  owned := fun load it h => by cases h
  cell := fun load it h => by cases h
  asset := fun load it h => by cases h
  published := fun load h => by cases h
  asked := fun load view h => by cases h
  notified := fun load view => by simp [new, AssetCache.new]
  returned := fun asset entry result h => by cases h
  stale := fun load h => by cases h

/-! ### The entry -/

variable {α : Type} {asset : Asset Source} {it jt : CachedLoad Source Output} {load : Nat}
  {views : List EntityId}

theorem getElem?_concat (xs : List α) (x : α) (ix : Nat) :
    (xs ++ [x])[ix]? = if ix = xs.length then some x else xs[ix]? := by
  by_cases h : ix = xs.length
  · rw [h, if_pos rfl, List.getElem?_concat_length]
  · rw [if_neg h]
    rcases Nat.lt_or_gt_of_ne h with hlt | hgt
    · rw [List.getElem?_append_left hlt]
    · rw [List.getElem?_eq_none (by rw [List.length_append, List.length_singleton]; omega),
        List.getElem?_eq_none (by omega)]

theorem Tells.insertLoad (h : Tells hash assets w) (hmem : asset ∈ assets)
    (hentry : w.cx.loadingAssets (assetId hash asset) = none) :
    Tells hash assets { w with cx := w.cx.insertLoad hash asset } := by
  have hold : ∀ {load : Nat} {it : CachedLoad Source Output}, w.cx.loads[load]? = some it →
      (w.cx.insertLoad hash asset).loads[load]? = some it := by
    intro load it hit
    rw [AssetCache.insertLoad, getElem?_concat, if_neg (List.getElem?_eq_some_iff.mp hit).1.ne, hit]
  have hnew : ∀ {load : Nat} {it : CachedLoad Source Output},
      (w.cx.insertLoad hash asset).loads[load]? = some it →
        load = w.cx.loads.length ∧ it = CachedLoad.new asset ∨ w.cx.loads[load]? = some it := by
    intro load it hit
    rw [AssetCache.insertLoad, getElem?_concat] at hit
    split_ifs at hit with hlast
    · exact Or.inl ⟨hlast, (Option.some.inj hit).symm⟩
    · exact Or.inr hit
  have hself : (w.cx.insertLoad hash asset).loadingAssets (assetId hash asset) =
      some w.cx.loads.length := Function.update_self _ _ _
  have hother : ∀ {id}, id ≠ assetId hash asset →
      (w.cx.insertLoad hash asset).loadingAssets id = w.cx.loadingAssets id :=
    fun hid => Function.update_of_ne hid _ _
  have hlength : (w.cx.insertLoad hash asset).loads.length = w.cx.loads.length + 1 :=
    List.length_append
  exact {
    entry := by
      intro id load hload
      by_cases hid : id = assetId hash asset
      · obtain rfl := Option.some.inj (hself.symm.trans (hid ▸ hload))
        exact ⟨CachedLoad.new asset, List.getElem?_concat_length, rfl, hid.symm⟩
      · obtain ⟨it, hit, hrest⟩ := h.entry id load ((hother hid).symm.trans hload)
        exact ⟨it, hold hit, hrest⟩
    owned := by
      intro load it hit hstate
      rcases hnew hit with ⟨rfl, rfl⟩ | hit
      · exact hself
      · have howned := h.owned load it hit hstate
        refine (hother fun hid => ?_).trans howned
        rw [hid, hentry] at howned
        cases howned
    cell := by
      intro load it hit
      rcases hnew hit with ⟨rfl, rfl⟩ | hit
      · refine ⟨rfl, fun hpub => ?_, List.nodup_nil,
          fun view => iff_of_false List.not_mem_nil fun hask => ?_⟩
        · exact absurd (h.published _ hpub) (Nat.lt_irrefl _)
        · exact absurd (h.asked _ view hask) (Nat.lt_irrefl _)
      · exact h.cell load it hit
    asset := by
      intro load it hit
      rcases hnew hit with ⟨_, rfl⟩ | hit
      · exact hmem
      · exact h.asset load it hit
    published := fun load hload => hlength ▸ Nat.lt_succ_of_lt (h.published load hload)
    asked := fun load view hask => hlength ▸ Nat.lt_succ_of_lt (h.asked load view hask)
    notified := h.notified
    returned := by
      intro asset entry result hret
      obtain ⟨load, hentry, hpub, it, hit, hrest⟩ := h.returned asset entry result hret
      exact ⟨load, hentry, hpub, it, hold hit, hrest⟩
    stale := by
      intro load hload
      obtain ⟨hpub, it, hit, hrest⟩ := h.stale load hload
      exact ⟨hpub, it, hold hit, hrest⟩ }

/-- **Looking up an entry**: it is there afterwards, and a load that is started is a new one. -/
theorem Tells.assetEntry (h : Tells hash assets w) (hmem : asset ∈ assets) :
    Tells hash assets { w with cx := (w.cx.assetEntry hash asset).2 } ∧
      (w.cx.assetEntry hash asset).2.loadingAssets (assetId hash asset) =
        some (w.cx.assetEntry hash asset).1 := by
  cases hentry : w.cx.loadingAssets (assetId hash asset) with
  | some load =>
    have heq : w.cx.assetEntry hash asset = (load, w.cx) := by rw [AssetCache.assetEntry, hentry]
    rw [heq]
    exact ⟨h, hentry⟩
  | none =>
    have heq : w.cx.assetEntry hash asset = (w.cx.loads.length, w.cx.insertLoad hash asset) := by
      rw [AssetCache.assetEntry, hentry]
    rw [heq]
    exact ⟨h.insertLoad hmem hentry, Function.update_self _ _ _⟩

/-! ### One load is changed -/

theorem CellOk.congr (h : w.CellOk load it) (hpublished : load ∈ w'.published ↔ load ∈ w.published)
    (hasked : ∀ view, (load, view) ∈ w'.asked ↔ (load, view) ∈ w.asked) : w'.CellOk load it := by
  unfold CellOk at h ⊢
  simpa only [hpublished, hasked] using h

/-- The step from `w` to `w'` changes the load from `it` to `it'`, and nothing of the others. -/
structure Changes (w w' : AssetRun Source Output) (load : Nat) (it it' : CachedLoad Source Output) :
    Prop where
  loadingAssets : w'.cx.loadingAssets = w.cx.loadingAssets
  before : w.cx.loads[load]? = some it
  after : w'.cx.loads[load]? = some it'
  loads : ∀ other, other ≠ load → w'.cx.loads[other]? = w.cx.loads[other]?
  length : w'.cx.loads.length = w.cx.loads.length
  asset : it'.asset = it.asset
  state : it'.state.isSome = it.state.isSome
  background : ∀ result, it.background = some result → it'.background = some result
  published : ∀ other, other ≠ load → (other ∈ w'.published ↔ other ∈ w.published)
  grows : load ∈ w.published → load ∈ w'.published
  asked : ∀ other view, other ≠ load → ((other, view) ∈ w'.asked ↔ (other, view) ∈ w.asked)
  notified : ∀ other view, other ≠ load →
    w'.cx.notified.count (other, view) = w.cx.notified.count (other, view)
  returned : w'.returned = w.returned
  stale : w'.stale = w.stale

theorem Changes.back {other : Nat} {it' : CachedLoad Source Output} (h : Changes w w' load it it')
    (hjt : w'.cx.loads[other]? = some jt) :
    other = load ∧ jt = it' ∨ other ≠ load ∧ w.cx.loads[other]? = some jt := by
  by_cases hother : other = load
  · subst hother
    exact Or.inl ⟨rfl, Option.some.inj (hjt.symm.trans h.after)⟩
  · exact Or.inr ⟨hother, (h.loads other hother).symm.trans hjt⟩

theorem Changes.forth {other : Nat} {it' : CachedLoad Source Output} (h : Changes w w' load it it')
    (hjt : w.cx.loads[other]? = some jt) :
    ∃ jt' : CachedLoad Source Output, w'.cx.loads[other]? = some jt' ∧ jt'.asset = jt.asset ∧
      jt'.state.isSome = jt.state.isSome ∧
      ∀ result, jt.background = some result → jt'.background = some result := by
  by_cases hother : other = load
  · subst hother
    obtain rfl := Option.some.inj (h.before.symm.trans hjt)
    exact ⟨it', h.after, h.asset, h.state, h.background⟩
  · exact ⟨jt, (h.loads other hother).trans hjt, rfl, rfl, fun _ => id⟩

/-- **A step that changes one load** keeps what it keeps for this load. -/
theorem Tells.change (h : Tells hash assets w) (load : Nat) (it it' : CachedLoad Source Output)
    (hchange : Changes w w' load it it') (hcell : w'.CellOk load it')
    (hnotified : ∀ view, w'.cx.notified.count (load, view) =
      if load ∈ w'.published ∧ (load, view) ∈ w'.asked then 1 else 0)
    (hstale : load ∈ w.stale → load ∉ w'.published) : Tells hash assets w' := by
  have hlt : load < w.cx.loads.length := (List.getElem?_eq_some_iff.mp hchange.before).1
  exact {
    entry := by
      intro id other hid
      rw [hchange.loadingAssets] at hid
      obtain ⟨jt, hjt, hsome, hasset⟩ := h.entry id other hid
      obtain ⟨jt', hjt', hasset', hstate', -⟩ := hchange.forth hjt
      exact ⟨jt', hjt', hstate'.trans hsome, hasset'.symm ▸ hasset⟩
    owned := by
      intro other jt hjt hsome
      rw [hchange.loadingAssets]
      rcases hchange.back hjt with ⟨rfl, rfl⟩ | ⟨_, hjt⟩
      · rw [hchange.asset]
        exact h.owned other it hchange.before (hchange.state.symm.trans hsome)
      · exact h.owned other jt hjt hsome
    cell := by
      intro other jt hjt
      rcases hchange.back hjt with ⟨rfl, rfl⟩ | ⟨hother, hjt⟩
      · exact hcell
      · exact (h.cell other jt hjt).congr (hchange.published other hother)
          fun view => hchange.asked other view hother
    asset := by
      intro other jt hjt
      rcases hchange.back hjt with ⟨rfl, rfl⟩ | ⟨_, hjt⟩
      · rw [hchange.asset]
        exact h.asset other it hchange.before
      · exact h.asset other jt hjt
    published := by
      intro other hpub
      rw [hchange.length]
      by_cases hother : other = load
      · exact hother ▸ hlt
      · exact h.published other ((hchange.published other hother).mp hpub)
    asked := by
      intro other view hask
      rw [hchange.length]
      by_cases hother : other = load
      · exact hother ▸ hlt
      · exact h.asked other view ((hchange.asked other view hother).mp hask)
    notified := by
      intro other view
      by_cases hother : other = load
      · exact hother ▸ hnotified view
      · rw [hchange.notified other view hother, h.notified]
        simp only [hchange.published other hother, hchange.asked other view hother]
    returned := by
      intro asset entry result hret
      rw [hchange.returned] at hret
      obtain ⟨other, hentry, hpub, jt, hjt, hasset, hbackground⟩ := h.returned asset entry result hret
      obtain ⟨jt', hjt', hasset', -, hbackground'⟩ := hchange.forth hjt
      refine ⟨other, hentry, ?_, jt', hjt', hasset'.trans hasset, hbackground' result hbackground⟩
      by_cases hother : other = load
      · exact hother ▸ hchange.grows (hother ▸ hpub)
      · exact (hchange.published other hother).mpr hpub
    stale := by
      intro other hold
      rw [hchange.stale] at hold
      obtain ⟨hpub, jt, hjt, hnone⟩ := h.stale other hold
      obtain ⟨jt', hjt', -, hstate', -⟩ := hchange.forth hjt
      refine ⟨?_, jt', hjt', ?_⟩
      · by_cases hother : other = load
        · exact hother ▸ hstale (hother ▸ hold)
        · exact fun hpub' => hpub ((hchange.published other hother).mp hpub')
      · rw [hnone] at hstate'
        exact Option.not_isSome_iff_eq_none.mp (by rw [hstate']; exact Bool.false_ne_true) }

/-! ### The steps -/

theorem modify_of_none {xs : List α} {ix : Nat} (h : xs[ix]? = none) (f : α → α) : xs.modify ix f = xs := by
  refine List.ext_getElem? fun jx => ?_
  by_cases hjx : ix = jx
  · rw [← hjx, List.getElem?_modify_eq, h]
    rfl
  · rw [List.getElem?_modify_ne _ _ hjx]

theorem Tells.complete (h : Tells hash assets w) (load : Nat) (result : Output) :
    Tells hash assets { w with cx := w.cx.complete load result } := by
  cases hit : w.cx.loads[load]? with
  | none =>
    have hsame : w.cx.complete load result = w.cx := by rw [AssetCache.complete, modify_of_none hit]
    rw [hsame]
    exact h
  | some it =>
    have hcell := h.cell load it hit
    refine h.change load it { it with background := it.background.or (some result) } ?_ ?_ (h.notified load)
      fun hold => (h.stale load hold).1
    · exact {
        loadingAssets := rfl
        before := hit
        after := by rw [AssetCache.complete, List.getElem?_modify_eq, hit]; rfl
        loads := fun other hother => List.getElem?_modify_ne _ _ (Ne.symm hother)
        length := List.length_modify _ _ _
        asset := rfl
        state := rfl
        background := fun result' hresult => by simp [hresult]
        published := fun _ _ => Iff.rfl
        grows := id
        asked := fun _ _ _ => Iff.rfl
        notified := fun _ _ _ => rfl
        returned := rfl
        stale := rfl }
    · unfold CellOk at hcell ⊢
      cases hstate : it.state with
      | none =>
        rw [hstate] at hcell
        exact hcell
      | some state =>
        rw [hstate] at hcell
        cases state with
        | loading views => exact hcell
        | loaded result' =>
          obtain ⟨hbackground, hrest⟩ := hcell
          exact ⟨by simp [hbackground], hrest⟩

theorem Tells.useBy (h : Tells hash assets w)
    (hstate : w.cx.cell load = some (.loading views)) (view : EntityId) :
    Tells hash assets { w with
      cx := w.cx.setCell load (.loading (if view ∈ views then views else views ++ [view]))
      asked := w.asked ++ [(load, view)] } := by
  obtain ⟨it, hit, hit'⟩ := Option.bind_eq_some_iff.mp hstate
  have hcell := h.cell load it hit
  rw [CellOk, hit'] at hcell
  obtain ⟨hwaiting, hpub, hnodup, hviews⟩ := hcell
  have hasked : ∀ other view', (other, view') ∈ w.asked ++ [(load, view)] ↔
      (other, view') ∈ w.asked ∨ other = load ∧ view' = view := by
    intro other view'
    rw [List.mem_append, List.mem_singleton, Prod.mk.injEq]
  refine h.change load it
    { it with state := some (.loading (if view ∈ views then views else views ++ [view])) }
    ?_ ?_ ?_ fun hold => (h.stale load hold).1
  · exact {
      loadingAssets := rfl
      before := hit
      after := by rw [AssetCache.setCell, List.getElem?_modify_eq, hit]; rfl
      loads := fun other hother => List.getElem?_modify_ne _ _ (Ne.symm hother)
      length := List.length_modify _ _ _
      asset := rfl
      state := by rw [hit']; rfl
      background := fun _ => id
      published := fun _ _ => Iff.rfl
      grows := id
      asked := fun other view' hother => by rw [hasked]; simp [hother]
      notified := fun _ _ _ => rfl
      returned := rfl
      stale := rfl }
  · refine ⟨hwaiting, hpub, ?_, fun view' => ?_⟩
    · split_ifs with hmem
      · exact hnodup
      · exact List.nodup_append.mpr ⟨hnodup, List.nodup_singleton _, fun a ha b hb hab =>
          hmem (List.mem_singleton.mp hb ▸ hab ▸ ha)⟩
    · rw [hasked, ← hviews]
      split_ifs with hmem
      · constructor
        · exact Or.inl
        · rintro (hview | ⟨_, rfl⟩)
          · exact hview
          · exact hmem
      · rw [List.mem_append, List.mem_singleton]
        simp
  · intro view'
    have hnot := h.notified load view'
    rw [if_neg (fun hand => hpub hand.1)] at hnot
    exact hnot.trans (if_neg fun hand => hpub hand.1).symm

/-- What is returned is the result of the load that is the entry. -/
theorem Tells.answer (h : Tells hash assets w) (hentry : w.cx.loadingAssets (assetId hash asset) = some load)
    (hit : w.cx.loads[load]? = some it) (hasset : it.asset = asset) {state : CachedLoadState Output}
    (hstate : it.state = some state) : Tells hash assets (w.answer hash asset (state.get, w.cx)) := by
  cases state with
  | loading views =>
    have hsame : w.answer hash asset
        ((CachedLoadState.loading views : CachedLoadState Output).get, w.cx) = w := by
      simp [AssetRun.answer, CachedLoadState.get]
    rw [hsame]
    exact h
  | loaded result =>
    have hcell := h.cell load it hit
    rw [CellOk, hstate] at hcell
    obtain ⟨hbackground, -, hpub⟩ := hcell
    exact {
      entry := h.entry
      owned := h.owned
      cell := h.cell
      asset := h.asset
      published := h.published
      asked := h.asked
      notified := h.notified
      returned := by
        intro asset' entry result' hret
        rcases List.mem_append.mp hret with hret | hret
        · exact h.returned asset' entry result' hret
        · cases List.mem_singleton.mp hret
          exact ⟨load, hentry, hpub, it, hit, hasset, hbackground⟩
      stale := h.stale }

theorem getElem?_modify_back {xs : List α} {ix jx : Nat} {f : α → α} {x y : α}
    (hx : xs[ix]? = some x) (hy : (xs.modify ix f)[jx]? = some y) :
    jx = ix ∧ y = f x ∨ jx ≠ ix ∧ xs[jx]? = some y := by
  by_cases hjx : jx = ix
  · subst hjx
    rw [List.getElem?_modify_eq, hx] at hy
    exact Or.inl ⟨rfl, (Option.some.inj hy).symm⟩
  · rw [List.getElem?_modify_ne _ _ (Ne.symm hjx)] at hy
    exact Or.inr ⟨hjx, hy⟩

/-- What has become of a load when one is dropped. -/
theorem drop_forth {loads : List (CachedLoad Source Output)} (load : Nat) {other : Nat}
    (hjt : loads[other]? = some jt) :
    ∃ jt' : CachedLoad Source Output, (loads.modify load CachedLoad.drop)[other]? = some jt' ∧
      jt'.asset = jt.asset ∧ jt'.background = jt.background ∧ (jt.state = none → jt'.state = none) := by
  by_cases hother : other = load
  · subst hother
    exact ⟨jt.drop, by rw [List.getElem?_modify_eq, hjt]; rfl, rfl, rfl, fun _ => rfl⟩
  · exact ⟨jt, by rw [List.getElem?_modify_ne _ _ (Ne.symm hother), hjt], rfl, rfl, id⟩

/-- **Removing** drops the load of the entry; if it is not published, it is stale from now on. -/
theorem Tells.removeAsset (h : Tells hash assets w) (asset : Asset Source) :
    Tells hash assets { w with
      cx := w.cx.removeAsset hash asset
      stale := w.stale ++
        ((w.cx.loadingAssets (assetId hash asset)).filter fun load => load ∉ w.published).toList } := by
  cases hentry : w.cx.loadingAssets (assetId hash asset) with
  | none =>
    have hsame : w.cx.removeAsset hash asset = w.cx := by rw [AssetCache.removeAsset, hentry]
    rw [hsame, Option.filter_none, Option.toList_none, List.append_nil]
    exact h
  | some load =>
    obtain ⟨it, hit, hsome, hasset⟩ := h.entry _ load hentry
    have hremoved : w.cx.removeAsset hash asset =
        { w.cx with
          loadingAssets := Function.update w.cx.loadingAssets (assetId hash asset) none
          loads := w.cx.loads.modify load CachedLoad.drop } := by
      rw [AssetCache.removeAsset, hentry]
    rw [hremoved]
    -- no other id has this load
    have hother : ∀ id other, Function.update w.cx.loadingAssets (assetId hash asset) none id = some other →
        other ≠ load ∧ w.cx.loadingAssets id = some other := by
      intro id other hid
      by_cases heq : id = assetId hash asset
      · rw [heq, Function.update_self] at hid
        cases hid
      · rw [Function.update_of_ne heq] at hid
        refine ⟨?_, hid⟩
        rintro rfl
        obtain ⟨jt, hjt, _, hjtAsset⟩ := h.entry id other hid
        rw [hit] at hjt
        obtain rfl := Option.some.inj hjt
        exact heq (hjtAsset.symm.trans hasset)
    exact {
      entry := by
        intro id other hid
        obtain ⟨hne, hid⟩ := hother id other hid
        obtain ⟨jt, hjt, hrest⟩ := h.entry id other hid
        exact ⟨jt, (List.getElem?_modify_ne _ _ (Ne.symm hne)).trans hjt, hrest⟩
      owned := by
        intro other jt hjt hstate
        rcases getElem?_modify_back hit hjt with ⟨rfl, rfl⟩ | ⟨hne, hjt⟩
        · cases hstate
        · have howned := h.owned other jt hjt hstate
          refine (Function.update_of_ne (fun heq => hne ?_) _ _).trans howned
          exact Option.some.inj (howned.symm.trans (heq ▸ hentry))
      cell := by
        intro other jt hjt
        rcases getElem?_modify_back hit hjt with ⟨rfl, rfl⟩ | ⟨_, hjt⟩
        · have hforeground : it.drop.foreground ≠ .waiting := by
            unfold CachedLoad.drop
            dsimp only
            split_ifs with hwaiting
            · exact nofun
            · exact hwaiting
          exact hforeground
        · exact h.cell other jt hjt
      asset := by
        intro other jt hjt
        rcases getElem?_modify_back hit hjt with ⟨rfl, rfl⟩ | ⟨_, hjt⟩
        · exact h.asset other it hit
        · exact h.asset other jt hjt
      published := fun other hpub => (List.length_modify _ _ _).symm ▸ h.published other hpub
      asked := fun other view hask => (List.length_modify _ _ _).symm ▸ h.asked other view hask
      notified := h.notified
      returned := by
        intro asset' entry result hret
        obtain ⟨other, hother, hpub, jt, hjt, hjtAsset, hbackground⟩ := h.returned asset' entry result hret
        obtain ⟨jt', hjt', hasset', hbackground', -⟩ := drop_forth load hjt
        exact ⟨other, hother, hpub, jt', hjt', hasset'.trans hjtAsset, hbackground'.trans hbackground⟩
      stale := by
        intro other hold
        rcases List.mem_append.mp hold with hold | hnew
        · obtain ⟨hpub, jt, hjt, hnone⟩ := h.stale other hold
          obtain ⟨jt', hjt', -, -, hnone'⟩ := drop_forth load hjt
          exact ⟨hpub, jt', hjt', hnone' hnone⟩
        · rw [Option.mem_toList, Option.filter_eq_some_iff] at hnew
          obtain ⟨hload, hpub⟩ := hnew
          obtain rfl := Option.some.inj hload
          exact ⟨of_decide_eq_true hpub, it.drop, by rw [List.getElem?_modify_eq, hit]; rfl, rfl⟩ }

/-- **Publishing**: those that asked are notified. -/
theorem Tells.publish (h : Tells hash assets w)
    (hit : w.cx.loads[load]? = some it) (hviews : it.state = some (.loading views))
    {result : Output} (hresult : it.background = some result) :
    Tells hash assets { w with
      cx := { w.cx with
        loads := w.cx.loads.modify load fun it =>
          { it with state := some (.loaded result), foreground := .finished }
        notified := w.cx.notified ++ views.map fun view => (load, view) }
      published := w.published ++ [load] } := by
  have hcell := h.cell load it hit
  rw [CellOk, hviews] at hcell
  obtain ⟨-, hpub, hnodup, hasked⟩ := hcell
  have hcount : ∀ other view, (views.map fun view => (load, view)).count (other, view) =
      if other = load ∧ view ∈ views then 1 else 0 := by
    intro other view
    split_ifs with hand
    · rw [hand.1, List.count_map_of_injective _ _ (fun _ _ heq => (Prod.mk.inj heq).2)]
      exact List.count_eq_one_of_mem hnodup hand.2
    · refine List.count_eq_zero.mpr fun hmem => hand ?_
      obtain ⟨view', hview', heq⟩ := List.mem_map.mp hmem
      obtain ⟨rfl, rfl⟩ := Prod.mk.inj heq
      exact ⟨rfl, hview'⟩
  have hpublished : ∀ other, other ∈ w.published ++ [load] ↔ other ∈ w.published ∨ other = load := by
    intro other
    rw [List.mem_append, List.mem_singleton]
  refine h.change load it { it with state := some (.loaded result), foreground := .finished } ?_ ?_ ?_ ?_
  · exact {
      loadingAssets := rfl
      before := hit
      after := by rw [List.getElem?_modify_eq, hit]; rfl
      loads := fun other hother => List.getElem?_modify_ne _ _ (Ne.symm hother)
      length := List.length_modify _ _ _
      asset := rfl
      state := by rw [hviews]; rfl
      background := fun _ => id
      published := fun other hother => by rw [hpublished]; simp [hother]
      grows := fun hold => List.mem_append_left _ hold
      asked := fun _ _ _ => Iff.rfl
      notified := fun other view hother => by
        rw [List.count_append, hcount, if_neg (fun hand => hother hand.1), Nat.add_zero]
      returned := rfl
      stale := rfl }
  · exact ⟨hresult, rfl, List.mem_append_right _ (List.mem_singleton_self _)⟩
  · intro view
    have hnot := h.notified load view
    rw [if_neg (fun hand => hpub hand.1)] at hnot
    rw [List.count_append, hnot, hcount, Nat.zero_add]
    refine if_congr ?_ rfl rfl
    rw [hpublished, hasked]
    simp
  · intro hold
    obtain ⟨_, jt, hjt, hnone⟩ := h.stale load hold
    obtain rfl := Option.some.inj (hit.symm.trans hjt)
    rw [hviews] at hnone
    cases hnone

theorem Tells.runForeground_same (h : Tells hash assets w)
    (hrun : w.cx.runForeground load = some w.cx) : step hash w (.runForeground load) = some w := by
  have hold : ¬ ((w.cx.cell load).any (fun state => state.get.isSome) = true ∧ load ∉ w.published) := by
    rintro ⟨hany, hpub⟩
    cases hstate : w.cx.cell load with
    | none =>
      rw [hstate] at hany
      cases hany
    | some state =>
      obtain ⟨it, hit, hit'⟩ := Option.bind_eq_some_iff.mp hstate
      have hcell := h.cell load it hit
      rw [CellOk, hit'] at hcell
      rw [hstate] at hany
      cases state with
      | loading views => cases hany
      | loaded result => exact hpub hcell.2.2
  rw [AssetRun.step, hrun, Option.map_some, if_neg hold]

theorem Tells.runForeground_publish (h : Tells hash assets w) (hit : w.cx.loads[load]? = some it)
    (hviews : it.state = some (.loading views)) {result : Output} (hresult : it.background = some result) :
    step hash w (.runForeground load) = some { w with
      cx := { w.cx with
        loads := w.cx.loads.modify load fun it =>
          { it with state := some (.loaded result), foreground := .finished }
        notified := w.cx.notified ++ views.map fun view => (load, view) }
      published := w.published ++ [load] } := by
  have hcell := h.cell load it hit
  rw [CellOk, hviews] at hcell
  obtain ⟨hwaiting, hpub, -⟩ := hcell
  have hrun : w.cx.runForeground load = some { w.cx with
      loads := w.cx.loads.modify load fun it =>
        { it with state := some (.loaded result), foreground := .finished }
      notified := w.cx.notified ++ views.map fun view => (load, view) } := by
    rw [AssetCache.runForeground, hit]
    dsimp only
    rw [hwaiting, hresult, hviews]
  rw [AssetRun.step, hrun, Option.map_some, if_pos]
  refine ⟨?_, hpub⟩
  rw [AssetCache.cell, List.getElem?_modify_eq, hit]
  rfl

/-- The task in the foreground publishes, or does nothing. -/
theorem Tells.runForeground (h : Tells hash assets w) (load : Nat) :
    ∃ w', step hash w (.runForeground load) = some w' ∧ Tells hash assets w' := by
  have hstay : w.cx.runForeground load = some w.cx →
      ∃ w', step hash w (.runForeground load) = some w' ∧ Tells hash assets w' :=
    fun hrun => ⟨w, h.runForeground_same hrun, h⟩
  cases hit : w.cx.loads[load]? with
  | none => exact hstay (by rw [AssetCache.runForeground, hit])
  | some it =>
    have hcell := h.cell load it hit
    unfold CellOk at hcell
    cases hresult : it.background with
    | none =>
      refine hstay ?_
      rw [AssetCache.runForeground, hit]
      dsimp only
      rw [hresult]
      cases it.foreground <;> rfl
    | some result =>
      cases hstate : it.state with
      | none =>
        rw [hstate] at hcell
        refine hstay ?_
        rw [AssetCache.runForeground, hit]
        dsimp only
        cases hforeground : it.foreground with
        | waiting => exact absurd hforeground hcell
        | finished => rfl
        | cancelled => rfl
      | some state =>
        rw [hstate] at hcell
        cases state with
        | loading views => exact ⟨_, h.runForeground_publish hit hstate hresult, h.publish hit hstate hresult⟩
        | loaded result' =>
          refine hstay ?_
          rw [AssetCache.runForeground, hit]
          dsimp only
          rw [hcell.2.1]

/-- The assets that a step asks for. -/
def assetsOf : AssetAct Source Output → List (Asset Source)
  | .fetchAsset asset => [asset]
  | .useAsset _ asset => [asset]
  | .removeAsset asset => [asset]
  | _ => []

theorem setCell_self {cx : AssetCache Source Output}
    (hit : cx.loads[load]? = some it) {state : CachedLoadState Output} (hstate : it.state = some state) :
    cx.setCell load state = cx := by
  have hloads : (cx.loads.modify load fun it => { it with state := some state }) = cx.loads := by
    refine List.ext_getElem? fun other => ?_
    by_cases hother : load = other
    · rw [← hother, List.getElem?_modify_eq, hit, Option.map_eq_map, Option.map_some, ← hstate]
    · rw [List.getElem?_modify_ne _ _ hother]
  rw [AssetCache.setCell, hloads]

theorem Tells.entry_of_asset (hinj : Set.InjOn (assetId hash) assets) (h : Tells hash assets w)
    (hmem : asset ∈ assets) :
    Tells hash assets { w with cx := (w.cx.assetEntry hash asset).2 } ∧
      ∃ load it state, (w.cx.assetEntry hash asset).1 = load ∧
        (w.cx.assetEntry hash asset).2.loadingAssets (assetId hash asset) = some load ∧
        (w.cx.assetEntry hash asset).2.loads[load]? = some it ∧ it.asset = asset ∧
        it.state = some state := by
  obtain ⟨hentry, hid⟩ := h.assetEntry hmem
  obtain ⟨it, hit, hsome, hasset⟩ := hentry.entry _ _ hid
  obtain ⟨state, hstate⟩ := Option.isSome_iff_exists.mp hsome
  exact ⟨hentry, _, it, state, rfl, hid, hit, hinj (hentry.asset _ it hit) hmem hasset, hstate⟩

/-- **Every step keeps what the run tells**, and none is refused. -/
theorem Tells.step (hinj : Set.InjOn (assetId hash) assets) (h : Tells hash assets w)
    {act : AssetAct Source Output} (hmem : ∀ asset ∈ assetsOf act, asset ∈ assets) :
    ∃ w', AssetRun.step hash w act = some w' ∧ Tells hash assets w' := by
  cases act with
  | complete load result => exact ⟨_, rfl, h.complete load result⟩
  | removeAsset asset => exact ⟨_, rfl, h.removeAsset asset⟩
  | runForeground load => exact h.runForeground load
  | fetchAsset asset =>
    obtain ⟨htells, load, it, state, hload, hentry, hit, hasset, hstate⟩ :=
      h.entry_of_asset hinj (hmem asset List.mem_cons_self)
    have hfetch : w.cx.fetchAsset hash asset =
        (((w.cx.assetEntry hash asset).2.cell (w.cx.assetEntry hash asset).1).bind CachedLoadState.get,
          (w.cx.assetEntry hash asset).2) := rfl
    rw [hload, AssetCache.cell, hit, Option.bind_some, hstate, Option.bind_some] at hfetch
    refine ⟨_, rfl, ?_⟩
    rw [hfetch]
    exact htells.answer hentry hit hasset hstate
  | useAsset view asset =>
    obtain ⟨htells, load, it, state, hload, hentry, hit, hasset, hstate⟩ :=
      h.entry_of_asset hinj (hmem asset List.mem_cons_self)
    have hcell : (w.cx.assetEntry hash asset).2.cell load = some state := by
      rw [AssetCache.cell, hit, Option.bind_some, hstate]
    have huse : w.cx.useAsset hash view asset =
        ((state.useBy view).1, (w.cx.assetEntry hash asset).2.setCell load (state.useBy view).2) := by
      unfold AssetCache.useAsset
      dsimp only
      rw [hload, hcell]
    have hids : ∀ state : CachedLoadState Output,
        ((w.cx.assetEntry hash asset).2.setCell load state).loadingAssets (assetId hash asset) =
          some load := fun _ => hentry
    refine ⟨_, rfl, ?_⟩
    rw [huse]
    cases state with
    | loading views =>
      simpa [AssetRun.answerView, AssetRun.answer, CachedLoadState.useBy, hids] using htells.useBy hcell view
    | loaded result =>
      have hanswer := htells.answer hentry hit hasset hstate
      have hsame : (w.cx.assetEntry hash asset).2.setCell load (.loaded result) =
          (w.cx.assetEntry hash asset).2 := setCell_self hit hstate
      simpa [AssetRun.answerView, AssetRun.answer, CachedLoadState.useBy, CachedLoadState.get, hsame] using hanswer

theorem Tells.run (hinj : Set.InjOn (assetId hash) assets) : ∀ (acts : List (AssetAct Source Output))
    {w : AssetRun Source Output}, Tells hash assets w →
      (∀ act ∈ acts, ∀ asset ∈ assetsOf act, asset ∈ assets) →
        ∃ w', FcGpui.run (AssetRun.step hash) w acts = some w' ∧ Tells hash assets w' := by
  intro acts
  induction acts with
  | nil => exact fun h _ => ⟨_, rfl, h⟩
  | cons act acts ih =>
    intro w h hmem
    obtain ⟨hact, hacts⟩ := List.forall_mem_cons.mp hmem
    obtain ⟨mid, hmid, htells⟩ := h.step hinj hact
    obtain ⟨w', hw', htells'⟩ := ih htells hacts
    refine ⟨w', ?_, htells'⟩
    rw [FcGpui.run, hmid]
    exact hw'

/-! ### Loads between two removals -/

section Loads

variable [DecidableEq Source]

/-- How often the asset was loaded. -/
def loadsOf (asset : Asset Source) (w : AssetRun Source Output) : Nat :=
  (w.cx.loads.map CachedLoad.asset).count asset

/-- How often it may have been loaded before it is removed: once more, if there is no entry. -/
def budget (hash : Source → UInt64) (asset : Asset Source) (cx : AssetCache Source Output) : Nat :=
  (cx.loads.map CachedLoad.asset).count asset + (cx.loadingAssets (assetId hash asset)).elim 1 fun _ => 0

theorem map_modify_of_eq {α β : Type} {f : α → α} {g : α → β} (h : ∀ x, g (f x) = g x) (xs : List α)
    (ix : Nat) : (xs.modify ix f).map g = xs.map g := by
  refine List.ext_getElem? fun jx => ?_
  rw [List.getElem?_map, List.getElem?_map, List.getElem?_modify]
  cases xs[jx]? with
  | none => rfl
  | some x =>
    show some (g (if ix = jx then f x else x)) = some (g x)
    split_ifs
    · rw [h]
    · rfl

theorem budget_assetEntry (asset asset' : Asset Source) (cx : AssetCache Source Output) :
    budget hash asset (cx.assetEntry hash asset').2 ≤ budget hash asset cx := by
  cases hentry : cx.loadingAssets (assetId hash asset') with
  | some load =>
    have heq : cx.assetEntry hash asset' = (load, cx) := by rw [AssetCache.assetEntry, hentry]
    rw [heq]
  | none =>
    have heq : cx.assetEntry hash asset' = (cx.loads.length, cx.insertLoad hash asset') := by
      rw [AssetCache.assetEntry, hentry]
    have hbudget : budget hash asset (cx.insertLoad hash asset') =
        (cx.loads.map CachedLoad.asset).count asset + [asset'].count asset +
          (Function.update cx.loadingAssets (assetId hash asset') (some cx.loads.length)
            (assetId hash asset)).elim 1 fun _ => 0 := by
      rw [budget, AssetCache.insertLoad, List.map_append, List.count_append]
      rfl
    rw [heq, hbudget, budget]
    by_cases hasset : asset' = asset
    · subst hasset
      rw [Function.update_self, hentry, List.count_singleton_self]
      exact le_rfl
    · rw [List.count_singleton, if_neg (by simpa using hasset)]
      by_cases hid : assetId hash asset = assetId hash asset'
      · rw [hid, Function.update_self]
        exact Nat.add_le_add_left (Nat.zero_le _) _
      · rw [Function.update_of_ne hid]
        exact le_rfl

variable {asset : Asset Source}

theorem budget_congr {cx cx' : AssetCache Source Output}
    (hloads : cx'.loads.map CachedLoad.asset = cx.loads.map CachedLoad.asset)
    (hentry : cx'.loadingAssets (assetId hash asset) = cx.loadingAssets (assetId hash asset)) :
    budget hash asset cx' = budget hash asset cx := by
  rw [budget, hloads, hentry, budget]

theorem budget_setCell (asset : Asset Source) (cx : AssetCache Source Output) (load : Nat)
    (state : CachedLoadState Output) : budget hash asset (cx.setCell load state) = budget hash asset cx :=
  budget_congr (map_modify_of_eq (fun _ => by rfl) cx.loads load) rfl

theorem budget_complete (asset : Asset Source) (cx : AssetCache Source Output) (load : Nat) (result : Output) :
    budget hash asset (cx.complete load result) = budget hash asset cx :=
  budget_congr (map_modify_of_eq (fun _ => by rfl) cx.loads load) rfl

theorem budget_removeAsset {asset' : Asset Source} (h : assetId hash asset ≠ assetId hash asset')
    (cx : AssetCache Source Output) :
    budget hash asset (cx.removeAsset hash asset') = budget hash asset cx := by
  unfold AssetCache.removeAsset
  split
  · rfl
  · exact budget_congr (map_modify_of_eq (fun _ => by rfl) _ _) (Function.update_of_ne h _ _)

theorem budget_runForeground {cx cx' : AssetCache Source Output} {load : Nat}
    (h : cx.runForeground load = some cx') : budget hash asset cx' = budget hash asset cx := by
  unfold AssetCache.runForeground at h
  split at h
  · obtain rfl := Option.some.inj h
    rfl
  · split at h
    · split at h
      · obtain rfl := Option.some.inj h
        exact budget_congr (map_modify_of_eq (fun _ => by rfl) _ _) rfl
      · obtain rfl := Option.some.inj h
        exact budget_congr (map_modify_of_eq (fun _ => by rfl) _ _) rfl
      · cases h
    · obtain rfl := Option.some.inj h
      rfl

/-- **A step that does not remove the asset** loads it only where there is no entry. -/
theorem budget_step (hinj : Set.InjOn (assetId hash) assets)
    (hasset : asset ∈ assets) {act : AssetAct Source Output}
    (hmem : ∀ asset ∈ assetsOf act, asset ∈ assets) (hne : act ≠ .removeAsset asset)
    (hstep : AssetRun.step hash w act = some w') : budget hash asset w'.cx ≤ budget hash asset w.cx := by
  cases act with
  | fetchAsset asset' =>
    obtain rfl := Option.some.inj hstep
    exact budget_assetEntry asset asset' w.cx
  | useAsset view asset' =>
    obtain rfl := Option.some.inj hstep
    show budget hash asset (w.cx.useAsset hash view asset').2 ≤ _
    unfold AssetCache.useAsset
    dsimp only
    cases (w.cx.assetEntry hash asset').2.cell (w.cx.assetEntry hash asset').1 with
    | none => exact budget_assetEntry asset asset' w.cx
    | some state =>
      dsimp only
      rw [budget_setCell]
      exact budget_assetEntry asset asset' w.cx
  | removeAsset asset' =>
    obtain rfl := Option.some.inj hstep
    have hid : assetId hash asset ≠ assetId hash asset' := by
      intro hid
      exact hne (congrArg _ (hinj hasset (hmem asset' List.mem_cons_self) hid).symm)
    exact (budget_removeAsset hid w.cx).le
  | complete load result =>
    obtain rfl := Option.some.inj hstep
    exact (budget_complete asset w.cx load result).le
  | runForeground load =>
    obtain ⟨cx, hcx, rfl⟩ := Option.map_eq_some_iff.mp hstep
    exact (budget_runForeground hcx).le

theorem budget_run (hinj : Set.InjOn (assetId hash) assets)
    (hasset : asset ∈ assets) (acts : List (AssetAct Source Output)) :
    ∀ {w w' : AssetRun Source Output}, (∀ act ∈ acts, ∀ asset ∈ assetsOf act, asset ∈ assets) →
      AssetAct.removeAsset asset ∉ acts → FcGpui.run (AssetRun.step hash) w acts = some w' →
        budget hash asset w'.cx ≤ budget hash asset w.cx := by
  induction acts with
  | nil =>
    intro w w' _ _ hrun
    cases hrun
    exact le_rfl
  | cons act acts ih =>
    intro w w' hmem hne hrun
    obtain ⟨hact, hacts⟩ := List.forall_mem_cons.mp hmem
    obtain ⟨mid, hmid, hrest⟩ := Option.bind_eq_some_iff.mp hrun
    have hfirst := budget_step hinj hasset hact (fun heq => hne (heq ▸ List.mem_cons_self)) hmid
    have hlater := ih hacts (fun hin => hne (List.mem_cons_of_mem _ hin)) hrest
    exact hlater.trans hfirst

/-- **At most one load** between two removals. -/
theorem Tells.loadsOf_le (hinj : Set.InjOn (assetId hash) assets) (h : Tells hash assets w)
    {acts : List (AssetAct Source Output)} (hmem : ∀ act ∈ acts, ∀ asset ∈ assetsOf act, asset ∈ assets)
    (hne : AssetAct.removeAsset asset ∉ acts)
    (hrun : FcGpui.run (AssetRun.step hash) w acts = some w') : w'.loadsOf asset ≤ w.loadsOf asset + 1 := by
  by_cases hasset : asset ∈ assets
  · have hbudget := budget_run hinj hasset acts hmem hne hrun
    have hmax : budget hash asset w.cx ≤ w.loadsOf asset + 1 := by
      unfold budget loadsOf
      cases w.cx.loadingAssets (assetId hash asset) with
      | none => exact le_rfl
      | some load => exact Nat.add_le_add_left (Nat.zero_le 1) _
    exact (Nat.le_add_right _ _).trans (hbudget.trans hmax)
  · obtain ⟨_, hrun', h'⟩ := h.run hinj acts hmem
    obtain rfl := Option.some.inj (hrun.symm.trans hrun')
    have hzero : w'.loadsOf asset = 0 := by
      refine List.count_eq_zero.mpr fun hin => hasset ?_
      obtain ⟨it, hit, rfl⟩ := List.mem_map.mp hin
      obtain ⟨load, hload⟩ := List.mem_iff_getElem?.mp hit
      exact h'.asset load it hload
    rw [hzero]
    exact Nat.zero_le _

end Loads

/-! ### Runs -/

theorem mem_published_run {load : Nat} (acts : List (AssetAct Source Output))
    (h : load ∈ w.published) (hrun : FcGpui.run (step hash) w acts = some w') : load ∈ w'.published := by
  have hstays : ∀ (w : AssetRun Source Output) act w', load ∈ w.published → True →
      step hash w act = some w' → load ∈ w'.published := by
    intro w act w' hload _ hstep
    cases act with
    | fetchAsset asset =>
      obtain rfl := Option.some.inj hstep
      exact hload
    | useAsset view asset =>
      obtain rfl := Option.some.inj hstep
      exact hload
    | removeAsset asset =>
      obtain rfl := Option.some.inj hstep
      exact hload
    | complete other result =>
      obtain rfl := Option.some.inj hstep
      exact hload
    | runForeground other =>
      obtain ⟨cx, _, rfl⟩ := Option.map_eq_some_iff.mp hstep
      dsimp only
      split_ifs
      · exact List.mem_append_left _ hload
      · exact hload
  exact run_invariant hstays acts h (RunMeets.of_forall (fun _ _ => trivial) acts w) hrun

/-- A load that has its result and is an entry is published when its task in the foreground is run. -/
theorem Tells.publishes (h : Tells hash assets w) {load : Nat} {id : AssetId}
    (hid : w.cx.loadingAssets id = some load) {it : CachedLoad Source Output}
    (hit : w.cx.loads[load]? = some it) (hresult : it.background.isSome)
    (hstep : AssetRun.step hash w (.runForeground load) = some w') : load ∈ w'.published := by
  obtain ⟨jt, hjt, hsome, -⟩ := h.entry id load hid
  obtain rfl := Option.some.inj (hit.symm.trans hjt)
  obtain ⟨result, hresult⟩ := Option.isSome_iff_exists.mp hresult
  obtain ⟨state, hstate⟩ := Option.isSome_iff_exists.mp hsome
  cases state with
  | loading views =>
    rw [h.runForeground_publish hit hstate hresult] at hstep
    obtain rfl := Option.some.inj hstep
    exact List.mem_append_right _ (List.mem_singleton_self _)
  | loaded _ =>
    have hcell := h.cell load it hit
    rw [CellOk, hstate] at hcell
    exact mem_published_run [.runForeground load] hcell.2.2 (by rw [FcGpui.run, hstep]; rfl)

variable [DecidableEq Source]

/-- What is expected of a run that ends in `w`. -/
structure Shares (hash : Source → UInt64) (acts : List (AssetAct Source Output))
    (w : AssetRun Source Output) : Prop where
  /-- Between two removals an asset is loaded once. -/
  loadedOnce : ∀ front mid back, acts = front ++ (mid ++ back) → ∀ asset,
    AssetAct.removeAsset asset ∉ mid → ∀ w₁ w₂, FcGpui.run (step hash) new front = some w₁ →
      FcGpui.run (step hash) w₁ mid = some w₂ → w₂.loadsOf asset ≤ w₁.loadsOf asset + 1
  /-- What is returned is the result of the load that is the entry then. -/
  own : ∀ asset entry result, (asset, entry, result) ∈ w.returned → ∃ load, entry = some load ∧
    ∃ it : CachedLoad Source Output, w.cx.loads[load]? = some it ∧ it.asset = asset ∧
      it.background = some result
  /-- A load that was removed before it was published is never seen again. -/
  stale : ∀ load ∈ w.stale, load ∉ w.published ∧ (∀ id, w.cx.loadingAssets id ≠ some load) ∧
    (∀ asset result, (asset, some load, result) ∉ w.returned) ∧
      ∀ view, (load, view) ∉ w.cx.notified
  /-- Who waits for a load is notified once when it is published, and nobody else is. -/
  notified : ∀ load view, w.cx.notified.count (load, view) =
    if load ∈ w.published ∧ (load, view) ∈ w.asked then 1 else 0
  /-- And it is published when it has its result and its task is run, unless it was removed. -/
  completes : ∀ front load back, acts = front ++ .runForeground load :: back → ∀ w₁ id,
    FcGpui.run (step hash) new front = some w₁ → w₁.cx.loadingAssets id = some load →
      (∃ it : CachedLoad Source Output, w₁.cx.loads[load]? = some it ∧ it.background.isSome) →
        load ∈ w.published

/-- **Asset loads are shared and do not cross over.** -/
theorem assets_shared (hash : Source → UInt64) (acts : List (AssetAct Source Output))
    (hinj : Set.InjOn (assetId hash) {asset | ∃ act ∈ acts, asset ∈ assetsOf act}) :
    ∃ w, FcGpui.run (step hash) new acts = some w ∧ Shares hash acts w := by
  have hmem : ∀ act ∈ acts, ∀ asset ∈ assetsOf act, asset ∈ {asset | ∃ act ∈ acts, asset ∈ assetsOf act} :=
    fun act hact asset hasset => ⟨act, hact, hasset⟩
  have hnew : Tells hash {asset | ∃ act ∈ acts, asset ∈ assetsOf act} (new : AssetRun Source Output) :=
    tells_new
  have htells : ∀ (front back : List (AssetAct Source Output)) (w₁ : AssetRun Source Output),
      acts = front ++ back → FcGpui.run (step hash) new front = some w₁ →
        Tells hash {asset | ∃ act ∈ acts, asset ∈ assetsOf act} w₁ := by
    rintro front back w₁ hacts hrun
    obtain ⟨w₁', hrun', h₁⟩ := hnew.run hinj front
      fun act hact => hmem act (hacts ▸ List.mem_append_left _ hact)
    obtain rfl := Option.some.inj (hrun.symm.trans hrun')
    exact h₁
  obtain ⟨w, hw, h⟩ := hnew.run hinj acts hmem
  refine ⟨w, hw, ?_⟩
  exact {
    loadedOnce := by
      intro front mid back hacts asset hne w₁ w₂ hfront hmid
      exact (htells front (mid ++ back) w₁ hacts hfront).loadsOf_le hinj
        (fun act hact => hmem act (hacts ▸ List.mem_append_right _ (List.mem_append_left _ hact))) hne hmid
    own := by
      intro asset entry result hret
      obtain ⟨load, hentry, -, hit⟩ := h.returned asset entry result hret
      exact ⟨load, hentry, hit⟩
    stale := by
      intro load hload
      obtain ⟨hpub, it, hit, hnone⟩ := h.stale load hload
      refine ⟨hpub, ?_, ?_, ?_⟩
      · intro id hid
        obtain ⟨jt, hjt, hsome, -⟩ := h.entry id load hid
        obtain rfl := Option.some.inj (hit.symm.trans hjt)
        rw [hnone] at hsome
        cases hsome
      · intro asset result hret
        obtain ⟨other, hother, hpub', -⟩ := h.returned asset _ result hret
        obtain rfl := Option.some.inj hother
        exact hpub hpub'
      · intro view hnot
        have hcount := h.notified load view
        rw [if_neg (fun hand => hpub hand.1)] at hcount
        exact List.count_eq_zero.mp hcount hnot
    notified := h.notified
    completes := by
      rintro front load back hacts w₁ id hfront hid ⟨it, hit, hresult⟩
      have h₁ := htells front _ w₁ hacts hfront
      obtain ⟨w₂, hstep, -⟩ := h₁.runForeground load
      have hrest : FcGpui.run (step hash) w₂ back = some w := by
        rw [hacts, run_rest hfront, FcGpui.run, hstep] at hw
        exact hw
      exact mem_published_run back (h₁.publishes hid hit hresult hstep) hrest }

/-- A load is removed while a view waits for it, and completes when it was replaced already. -/
def staleCompletion : List (AssetAct Nat Nat) :=
  [.useAsset 7 ⟨0, 5⟩, .removeAsset ⟨0, 5⟩, .useAsset 7 ⟨0, 5⟩, .useAsset 8 ⟨0, 5⟩, .complete 0 1,
    .runForeground 0, .complete 1 2, .runForeground 1, .fetchAsset ⟨0, 5⟩]

theorem assets_shared_staleCompletion :
    ∃ w, FcGpui.run (step fun source : Nat => source.toUInt64) new staleCompletion = some w ∧
      Shares (fun source : Nat => source.toUInt64) staleCompletion w :=
  assets_shared _ staleCompletion (by
    have hone : ∀ act ∈ staleCompletion, ∀ asset ∈ assetsOf act, asset = ⟨0, 5⟩ := by decide
    rintro asset ⟨act, hact, hin⟩ asset' ⟨act', hact', hin'⟩ _
    rw [hone act hact asset hin, hone act' hact' asset' hin'])

end AssetRun

end FcGpui
