import FcGpui.Renderer.AtlasTextures

/-!
# Every live tile shows the bytes of its key

What puts a tile in and what takes it out keep `Sound`: a write to a new tile
leaves the texels of the live ones alone, and what is pending for a texture that
was dropped is not written to the next one in its slot.

**Main results.**  `Sound.getOrInsertWith`, `Sound.remove`, `Sound.flushUploads`.
-/

namespace FcGpui

variable {α : Type}

namespace WgpuAtlas

variable {etagere : Etagere α} {s s' : WgpuAtlas α} {size : Size Int}

/-! ### Putting tiles in -/

theorem shows_write {texture : GpuTexture} {bytes : List UInt8} {bounds : Bounds Int}
    (h : texture.Shows bytes bounds) (bytesPerPixel : Nat) {upload : PendingUpload}
    (hapart : bounds.Apart upload.bounds) :
    (texture.write bytesPerPixel upload).Shows bytes bounds := by
  intro x y hin
  show (if upload.bounds.hasTexel x y then _ else texture.texels x y) = _
  rw [hapart x y hin, if_neg Bool.false_ne_true]
  exact h x y hin

theorem shows_of_write (texture : GpuTexture) (id : AtlasTextureId) (bytes : List UInt8)
    (bounds : Bounds Int) :
    (texture.write texture.format.bytesPerPixel
      ⟨id, bounds, swizzleUploadData bytes texture.format⟩).Shows bytes bounds := by
  intro x y hin
  show (if bounds.hasTexel x y then _ else texture.texels x y) = _
  rw [hin, if_pos rfl]
  rfl

theorem free_setTexture (h : s.Sound etagere) {id : AtlasTextureId} {t : WgpuAtlasTexture α}
    (ht : s.get id = some t) (v : Option (WgpuAtlasTexture α)) (kind : AtlasTextureKind) :
    ((s.setTexture id v).storage kind).freeList = (s.storage kind).freeList ∧
    ∀ ix ∈ (s.storage kind).freeList, (s.setTexture id v).slot ⟨ix, kind⟩ = some none := by
  constructor
  · by_cases hk : kind = id.kind
    · subst hk
      simp [setTexture, setTextures]
    · simp [setTexture, setTextures, hk]
  · intro ix hix
    have hfree := (h.free kind).2 ix hix
    have hne : (⟨ix, kind⟩ : AtlasTextureId) ≠ id := by
      rintro rfl
      rw [get_eq_some.mp ht] at hfree
      cases hfree
    rw [slot_setTexture, if_neg hne]
    exact hfree

theorem contents_append (hdevice : s'.device = s.device) {upload : PendingUpload}
    (hpending : s'.pendingUploads = s.pendingUploads ++ [upload]) (t : WgpuAtlasTexture α) :
    s'.contents t = (s.contents t).map fun texture =>
      if upload.id = t.id then texture.write t.format.bytesPerPixel upload else texture := by
  rw [contents, contents, hdevice, hpending, List.filter_append, Option.map_map]
  congr 1
  funext texture
  rw [Function.comp_apply, List.foldl_append]
  by_cases hid : upload.id = t.id
  · simp [hid]
  · simp [hid]

/-- What putting a tile into a texture changes: `t'` and `texture'` are the texture and its texels
afterwards. -/
structure PutsTile (s s' : WgpuAtlas α) (id : AtlasTextureId) (t' : WgpuAtlasTexture α)
    (texture' : GpuTexture) (key : AtlasKey) (tile : PlacedTile) (bytes : List UInt8) : Prop where
  textureId : tile.textureId = id
  get_self : s'.get id = some t'
  get_of_ne : ∀ id', id' ≠ id → s'.get id' = s.get id'
  contents_self : s'.contents t' = some texture'
  contents_of_ne : ∀ id' u, id' ≠ id → s.get id' = some u → s'.contents u = s.contents u
  tilesByKey : s'.tilesByKey = (key, tile) :: s.tilesByKey
  uploaded : s'.uploaded = Function.update s.uploaded key bytes

theorem putsTile_uploadTexture (h : s.Sound etagere) {id : AtlasTextureId} {t t' : WgpuAtlasTexture α}
    (ht : s.get id = some t) (hid : t'.id = id) (hsame : t'.texture = t.texture)
    (hformats : t'.format = t.format) {texture : GpuTexture}
    (hcon : s.contents t = some texture) (hformat : texture.format = t.format) {tile : PlacedTile}
    (htile : tile.textureId = id) (key : AtlasKey) (bytes : List UInt8) :
    PutsTile s { (s.setTexture id (some t')).uploadTexture tile.textureId tile.bounds bytes with
        tilesByKey := (key, tile) :: s.tilesByKey
        uploaded := Function.update s.uploaded key bytes } id t'
      (texture.write texture.format.bytesPerPixel
        ⟨id, tile.bounds, swizzleUploadData bytes texture.format⟩) key tile bytes := by
  have hslot := get_eq_some.mp ht
  obtain ⟨s', hs'⟩ : ∃ s' : WgpuAtlas α, s' =
      { (s.setTexture id (some t')).uploadTexture tile.textureId tile.bounds bytes with
        tilesByKey := (key, tile) :: s.tilesByKey
        uploaded := Function.update s.uploaded key bytes } := ⟨_, rfl⟩
  rw [← hs']
  have hpending : s'.pendingUploads =
      s.pendingUploads ++ [⟨id, tile.bounds, swizzleUploadData bytes texture.format⟩] := by
    have hdata : (((s.setTexture id (some t')).get tile.textureId).map fun t =>
        swizzleUploadData bytes t.format).getD bytes = swizzleUploadData bytes texture.format := by
      rw [htile, get_setTexture_self hslot, hformat, ← hformats]
      rfl
    rw [hs', ← hdata, ← htile]
    rfl
  have hdevice : s'.device = s.device := by
    rw [hs']
    rfl
  have hcontents := contents_append hdevice hpending
  refine ⟨htile, ?_, fun id' hne => ?_, ?_, fun id' u hne hu => ?_, ?_, ?_⟩
  · rw [hs']
    exact get_setTexture_self hslot
  · rw [hs']
    exact get_setTexture_of_ne s hne _
  · have hbefore : s.contents t' = s.contents t := by
      have hidt := (h.textures id t ht).id_eq
      rw [contents, contents, hsame, hformats, hid, hidt]
    rw [hcontents, hbefore, hcon, hformats, hformat]
    simp [hid]
  · rw [hcontents, (h.textures id' u hu).id_eq]
    simp [Ne.symm hne]
  · rw [hs']
  · rw [hs']

section PutsTile

variable {id : AtlasTextureId} {t t' : WgpuAtlasTexture α} {texture' : GpuTexture} {key : AtlasKey}
  {tile : PlacedTile} {bytes : List UInt8}

section Put

variable (hputs : PutsTile s s' id t' texture' key tile bytes)
include hputs

theorem PutsTile.tilesIn_self : s'.tilesIn id = tile :: s.tilesIn id := by
  rw [tilesIn, hputs.tilesByKey, List.map_cons, List.filter_cons_of_pos (by simpa using hputs.textureId)]
  rfl

theorem PutsTile.tilesIn_of_ne {id' : AtlasTextureId} (hne : id' ≠ id) : s'.tilesIn id' = s.tilesIn id' := by
  rw [tilesIn, hputs.tilesByKey, List.map_cons,
    List.filter_cons_of_neg (by simpa [hputs.textureId] using Ne.symm hne)]
  rfl

/-- Every texture was there before, under the same handle. -/
theorem PutsTile.get_before (ht : s.get id = some t)
    (hsame : t'.texture = t.texture) {id' : AtlasTextureId} {u : WgpuAtlasTexture α}
    (hu : s'.get id' = some u) : ∃ u', s.get id' = some u' ∧ u'.texture = u.texture := by
  by_cases hne : id' = id
  · rw [hne, hputs.get_self] at hu
    cases hu
    exact ⟨t, hne ▸ ht, hsame.symm⟩
  · exact ⟨u, hputs.get_of_ne id' hne ▸ hu, rfl⟩

/-- A tile that was live shows its bytes still, if it does not overlap the new one. -/
theorem PutsTile.live_before (h : s.Sound etagere)
    (ht : s.get id = some t) {texture : GpuTexture} (hcon : s.contents t = some texture) {upload : PendingUpload}
    (hwrite : texture' = texture.write texture.format.bytesPerPixel upload)
    {key' : AtlasKey} {tile' : PlacedTile} (hold : (key', tile') ∈ s.tilesByKey)
    (hapart : tile'.textureId = id → tile'.bounds.Apart upload.bounds) :
    ∃ u texture', s'.get tile'.textureId = some u ∧ s'.contents u = some texture' ∧
      texture'.Shows (s.uploaded key') tile'.bounds := by
  obtain ⟨u, texture₀, hu, hcon₀, hshows⟩ := h.live key' tile' hold
  by_cases hid' : tile'.textureId = id
  · rw [hid', ht] at hu
    cases hu
    rw [hcon] at hcon₀
    cases hcon₀
    refine ⟨t', texture', hid' ▸ hputs.get_self, hputs.contents_self, ?_⟩
    rw [hwrite]
    exact shows_write hshows _ (hapart hid')
  · exact ⟨u, texture₀, (hputs.get_of_ne _ hid').trans hu,
      (hputs.contents_of_ne _ u hid' hu).trans hcon₀, hshows⟩

end Put

end PutsTile

variable {id : AtlasTextureId} {t : WgpuAtlasTexture α} {tile : PlacedTile}

/-- **A tile is put in.** -/
theorem Sound.insertTile (h : s.Sound etagere) (hapart : etagere.Apart tileRegion Bounds.Apart)
    (ht : s.get id = some t) (hgives : (t.allocate etagere size).1 = some tile) {key : AtlasKey}
    (hkey : key ∉ s.tilesByKey.map Prod.fst) (bytes : List UInt8) :
    Sound etagere
      { (s.setTexture id (some (t.allocate etagere size).2)).uploadTexture tile.textureId
          tile.bounds bytes with
        tilesByKey := (key, tile) :: s.tilesByKey
        uploaded := Function.update s.uploaded key bytes } := by
  obtain ⟨hid, hgen, ⟨texture, hcon, hformat⟩, ⟨held, hserves, hperm⟩, hcount⟩ :=
    h.textures id t ht
  obtain ⟨min, a', ha, htile, hbounds, ht'⟩ := allocate_some hgives
  generalize (t.allocate etagere size).2 = t' at ht' ⊢
  rw [hid] at htile
  have hid' : t'.id = id := by
    rw [ht']
    exact hid
  have hputs := putsTile_uploadTexture h ht hid' (by rw [ht']) (by rw [ht']) hcon hformat htile key bytes
  obtain ⟨s', hs'⟩ : ∃ s' : WgpuAtlas α, s' =
      { (s.setTexture id (some t')).uploadTexture tile.textureId tile.bounds bytes with
        tilesByKey := (key, tile) :: s.tilesByKey
        uploaded := Function.update s.uploaded key bytes } := ⟨_, rfl⟩
  rw [← hs'] at hputs ⊢
  refine ⟨fun id' u hu => ?_, fun id₁ id₂ u₁ u₂ h₁ h₂ heq => ?_, ?_, fun kind => ?_, ?_, ?_⟩
  · by_cases hne : id' = id
    · subst hne
      rw [hputs.get_self] at hu
      cases hu
      refine ⟨hid', ?_, ⟨_, hputs.contents_self, ?_⟩, ⟨tile.held :: held, ?_, ?_⟩, ?_⟩
      · rw [ht']
        exact hgen
      · rw [ht']
        exact hformat
      · have hheld : tile.held = (tile.tileId, tileRegion size min) := by
          rw [PlacedTile.held, hbounds]
        rw [ht', hheld]
        exact hserves.allocate ha
      · rw [hputs.tilesIn_self, List.map_cons]
        exact hperm.cons _
      · rw [hputs.tilesIn_self, List.length_cons, ← hcount, ht']
    · rw [hputs.get_of_ne id' hne] at hu
      obtain ⟨hid', hgen', hcontents', hserved', hcount'⟩ := h.textures id' u hu
      refine ⟨hid', hgen', ?_, ?_, ?_⟩
      · rw [hputs.contents_of_ne id' u hne hu]
        exact hcontents'
      · rw [hputs.tilesIn_of_ne hne]
        exact hserved'
      · rw [hputs.tilesIn_of_ne hne]
        exact hcount'
  · obtain ⟨v₁, hv₁, he₁⟩ := hputs.get_before ht (by rw [ht']) h₁
    obtain ⟨v₂, hv₂, he₂⟩ := hputs.get_before ht (by rw [ht']) h₂
    exact h.handles id₁ id₂ v₁ v₂ hv₁ hv₂ (he₁.trans (heq.trans he₂.symm))
  · rw [hs']
    exact h.generation
  · obtain ⟨hlist, hslots⟩ := free_setTexture h ht (some t') kind
    rw [hs']
    refine ⟨?_, fun ix hix => ?_⟩
    · show ((s.setTexture id (some t')).storage kind).freeList.Nodup
      rw [hlist]
      exact (h.free kind).1
    · have hix : ix ∈ ((s.setTexture id (some t')).storage kind).freeList := hix
      rw [hlist] at hix
      exact hslots ix hix
  · rw [hputs.tilesByKey, List.map_cons]
    exact List.nodup_cons.mpr ⟨hkey, h.keys⟩
  · intro key' tile' hmem
    rw [hputs.tilesByKey] at hmem
    rw [hputs.uploaded]
    rcases List.mem_cons.mp hmem with heq | hold
    · cases heq
      refine ⟨t', _, htile ▸ hputs.get_self, hputs.contents_self, ?_⟩
      rw [Function.update_self]
      exact shows_of_write texture id bytes tile.bounds
    · have hne : key' ≠ key := by
        rintro rfl
        exact hkey (List.mem_map_of_mem hold)
      rw [Function.update_of_ne hne]
      refine hputs.live_before h ht hcon rfl hold fun hid' => ?_
      -- the allocator still holds the rectangle of the other tile
      have hheld : tile'.held ∈ held := by
        apply hperm.mem_iff.mpr
        apply List.mem_map_of_mem
        rw [tilesIn, List.mem_filter]
        exact ⟨List.mem_map_of_mem hold, by simpa using hid'⟩
      have hclear := hapart hserves ha _ hheld
      rw [← hbounds] at hclear
      exact hclear

/-! ### Taking tiles out -/

theorem mem_of_lookup {key : AtlasKey} (h : s.lookup key = some tile) : (key, tile) ∈ s.tilesByKey := by
  obtain ⟨before, after, heq, -⟩ := List.lookup_eq_some_iff.mp h
  rw [heq]
  exact List.mem_append_right _ List.mem_cons_self

theorem lookup_eq_none {key : AtlasKey} (h : s.lookup key = none) :
    key ∉ s.tilesByKey.map Prod.fst := by
  intro hmem
  obtain ⟨entry, hentry, rfl⟩ := List.mem_map.mp hmem
  have := List.lookup_eq_none_iff.mp h entry hentry
  simp at this

theorem perm_remove (hkeys : (s.tilesByKey.map Prod.fst).Nodup) {key : AtlasKey}
    (h : s.lookup key = some tile) :
    s.tilesByKey.Perm ((key, tile) :: s.tilesByKey.filter fun entry => entry.1 ≠ key) := by
  obtain ⟨before, after, heq, hbefore⟩ := List.lookup_eq_some_iff.mp h
  rw [heq] at hkeys ⊢
  rw [List.map_append, List.map_cons, List.nodup_middle] at hkeys
  have hne : ∀ entry ∈ before ++ after, entry.1 ≠ key := by
    intro entry hentry hfst
    apply (List.nodup_cons.mp hkeys).1
    rw [← List.map_append]
    exact List.mem_map.mpr ⟨entry, hentry, hfst⟩
  have hfilter : (before ++ (key, tile) :: after).filter (fun entry => entry.1 ≠ key)
      = before ++ after := by
    rw [List.filter_append, List.filter_cons_of_neg (by simp), ← List.filter_append,
      List.filter_eq_self]
    intro entry hentry
    simpa using hne entry hentry
  rw [hfilter]
  exact List.perm_middle

theorem tilesIn_perm {key : AtlasKey} (hperm : s.tilesByKey.Perm ((key, tile) :: s'.tilesByKey)) :
    (s.tilesIn tile.textureId).Perm (tile :: s'.tilesIn tile.textureId) ∧
    ∀ id, id ≠ tile.textureId → (s.tilesIn id).Perm (s'.tilesIn id) := by
  have hmap := hperm.map Prod.snd
  rw [List.map_cons] at hmap
  constructor
  · have := hmap.filter fun other => other.textureId = tile.textureId
    rw [List.filter_cons_of_pos (by simp)] at this
    exact this
  · intro id hne
    have := hmap.filter fun other => other.textureId = id
    rw [List.filter_cons_of_neg (by simpa using Ne.symm hne)] at this
    exact this

/-- **A tile is taken out** of the texture `t`, which is dropped only with its last
tile. -/
theorem Sound.takeTile (h : s.Sound etagere) {key : AtlasKey} (ht : s.get tile.textureId = some t)
    (hperm : s.tilesByKey.Perm ((key, tile) :: s'.tilesByKey))
    (hself : s'.get tile.textureId = some (release etagere t tile.tileId) ∨
    s'.get tile.textureId = none ∧ (release etagere t tile.tileId).liveAtlasKeys = 0)
    (hothers : ∀ id, id ≠ tile.textureId → s'.get id = s.get id)
    (hcontents : ∀ id u, s'.get id = some u → s'.contents u = s.contents u) (hdevice : s'.device = s.device)
    (hgeneration : s'.nextTextureGeneration = s.nextTextureGeneration) (huploaded : s'.uploaded = s.uploaded)
    (hfree : ∀ kind, (s'.storage kind).freeList.Nodup ∧
    ∀ ix ∈ (s'.storage kind).freeList, s'.slot ⟨ix, kind⟩ = some none) : s'.Sound etagere := by
  obtain ⟨hin, hinOthers⟩ := tilesIn_perm hperm
  obtain ⟨hid, hgen, ⟨texture, hcon, hformat⟩, ⟨held, hserves, hheld⟩, hcount⟩ :=
    h.textures _ t ht
  have hlength : (s'.tilesIn tile.textureId).length =
      (release etagere t tile.tileId).liveAtlasKeys := by
    have := hin.length_eq
    rw [List.length_cons] at this
    show _ = t.liveAtlasKeys - 1
    omega
  have hback : ∀ id u, s'.get id = some u → ∃ v, s.get id = some v ∧ v.texture = u.texture := by
    intro id u hu
    by_cases hne : id = tile.textureId
    · subst hne
      rcases hself with hself | ⟨hself, -⟩
      · rw [hself] at hu
        cases hu
        exact ⟨t, ht, rfl⟩
      · rw [hself] at hu
        cases hu
    · exact ⟨u, hothers id hne ▸ hu, rfl⟩
  refine ⟨fun id u hu => ?_, fun id₁ id₂ u₁ u₂ h₁ h₂ heq => ?_, ?_, hfree, ?_, ?_⟩
  · have hcon' := hcontents id u hu
    by_cases hne : id = tile.textureId
    · subst hne
      rcases hself with hself | ⟨hself, -⟩
      · rw [hself] at hu
        cases hu
        refine ⟨hid, hgen, ⟨texture, hcon'.trans hcon, hformat⟩,
          ⟨(s'.tilesIn tile.textureId).map PlacedTile.held, ?_, List.Perm.refl _⟩, hlength.symm⟩
        exact hserves.deallocate (hheld.trans (hin.map _))
      · rw [hself] at hu
        cases hu
    · rw [hothers id hne] at hu
      obtain ⟨hid', hgen', hcontents', ⟨held', hserves', hheld'⟩, hcount'⟩ := h.textures id u hu
      have hsame := hinOthers id hne
      exact ⟨hid', hgen', hcon' ▸ hcontents', ⟨held', hserves', hheld'.trans (hsame.map _)⟩,
        hcount'.trans hsame.length_eq⟩
  · obtain ⟨v₁, hv₁, he₁⟩ := hback id₁ u₁ h₁
    obtain ⟨v₂, hv₂, he₂⟩ := hback id₂ u₂ h₂
    exact h.handles id₁ id₂ v₁ v₂ hv₁ hv₂ (he₁.trans (heq.trans he₂.symm))
  · rw [hgeneration, hdevice]
    exact h.generation
  · have := (hperm.map Prod.fst).nodup_iff.mp h.keys
    rw [List.map_cons] at this
    exact (List.nodup_cons.mp this).2
  · intro key' tile' hmem
    obtain ⟨u, texture', hu, hcon', hshows⟩ :=
      h.live key' tile' (hperm.mem_iff.mpr (List.mem_cons_of_mem _ hmem))
    rw [huploaded]
    by_cases hne : tile'.textureId = tile.textureId
    · rw [hne] at hu
      have htu : t = u := Option.some.inj (ht.symm.trans hu)
      subst htu
      rcases hself with hself | ⟨-, hlast⟩
      · exact ⟨_, texture', hne ▸ hself, (hcontents _ _ hself).trans hcon', hshows⟩
      · -- the texture still has this tile, so its count is not zero
        rw [hlast, List.length_eq_zero_iff] at hlength
        have : tile' ∈ s'.tilesIn tile.textureId := by
          rw [tilesIn, List.mem_filter]
          exact ⟨List.mem_map_of_mem hmem, by simpa using hne⟩
        rw [hlength] at this
        exact absurd this List.not_mem_nil
    · rw [← hothers _ hne] at hu
      exact ⟨u, texture', hu, (hcontents _ u hu).trans hcon', hshows⟩

theorem Sound.free_drop (h : s.Sound etagere) (ht : s.get id = some t) (kind : AtlasTextureKind) :
    (((s.setTexture id none).pushFree id.kind id.index).storage kind).freeList.Nodup ∧
    ∀ ix ∈ (((s.setTexture id none).pushFree id.kind id.index).storage kind).freeList,
      (s.setTexture id none).slot ⟨ix, kind⟩ = some none := by
  obtain ⟨hlist, hslots⟩ := free_setTexture h ht none kind
  have hslot := get_eq_some.mp ht
  by_cases hk : kind = id.kind
  · subst hk
    have hpush : (((s.setTexture id none).pushFree id.kind id.index).storage id.kind).freeList =
        id.index :: (s.storage id.kind).freeList := by
      rw [← hlist]
      simp [pushFree]
    rw [hpush]
    refine ⟨List.nodup_cons.mpr ⟨fun hmem => ?_, (h.free id.kind).1⟩, fun ix hix => ?_⟩
    · have := (h.free id.kind).2 id.index hmem
      rw [hslot] at this
      cases this
    · rcases List.mem_cons.mp hix with rfl | hix
      · rw [slot_setTexture, if_pos rfl, hslot]
        rfl
      · exact hslots ix hix
  · have hpush : (((s.setTexture id none).pushFree id.kind id.index).storage kind).freeList =
        (s.storage kind).freeList := by
      rw [← hlist]
      simp [pushFree, hk]
    rw [hpush]
    exact ⟨(h.free kind).1, hslots⟩

theorem slot_pushFree (s : WgpuAtlas α) (kind : AtlasTextureKind) (ix : Nat)
    (id : AtlasTextureId) : (s.pushFree kind ix).slot id = s.slot id := by
  rw [slot, slot, pushFree]
  by_cases hk : id.kind = kind
  · subst hk
    simp
  · simp [hk]

theorem contents_filter (hdevice : s'.device = s.device)
    (hpending : s'.pendingUploads = s.pendingUploads.filter fun upload => upload.id ≠ id)
    (hne : t.id ≠ id) : s'.contents t = s.contents t := by
  have hsame : (s'.pendingUploads.filter fun upload => upload.id = t.id) =
      s.pendingUploads.filter fun upload => upload.id = t.id := by
    rw [hpending, List.filter_filter]
    refine List.filter_congr fun upload _ => ?_
    by_cases huid : upload.id = t.id
    · simp [huid, hne]
    · simp [huid]
  rw [contents, contents, hdevice, hsame]

/-- **Removing a key.** -/
theorem Sound.remove (h : s.Sound etagere) (key : AtlasKey) : (s.remove etagere key).Sound etagere := by
  rw [WgpuAtlas.remove]
  cases hlookup : s.lookup key with
  | none => exact h
  | some tile =>
    have hperm := perm_remove h.keys hlookup
    obtain ⟨t, texture, ht, -, -⟩ := h.live key tile (mem_of_lookup hlookup)
    have hid := (h.textures _ t ht).id_eq
    have hslot := get_eq_some.mp ht
    have hget : WgpuAtlas.get
        { s with tilesByKey := s.tilesByKey.filter fun entry => entry.1 ≠ key } tile.textureId =
          some t := ht
    have hidr : (release etagere t tile.tileId).id = tile.textureId := hid
    simp only [hget, hidr]
    split
    · rename_i hzero
      have hgetOther : ∀ id, id ≠ tile.textureId →
          ((s.setTexture tile.textureId none).pushFree tile.textureId.kind
            tile.textureId.index).get id = s.get id := by
        intro id hne
        rw [get_eq_slot, slot_pushFree]
        exact get_setTexture_of_ne s hne _
      have hgetSelf : ((s.setTexture tile.textureId none).pushFree tile.textureId.kind
          tile.textureId.index).get tile.textureId = none := by
        rw [get_eq_slot, slot_pushFree]
        exact get_setTexture_self hslot
      refine h.takeTile ht hperm (Or.inr ⟨hgetSelf, hzero⟩) hgetOther (fun id u hu => ?_) rfl rfl rfl
        fun kind => ?_
      · have hne : id ≠ tile.textureId := by
          rintro rfl
          exact absurd (hgetSelf.symm.trans hu) nofun
        have hu : s.get id = some u := (hgetOther id hne).symm.trans hu
        apply contents_filter
        · rfl
        · rfl
        · rw [(h.textures id u hu).id_eq]
          exact hne
      · obtain ⟨hnodup, hslots⟩ := h.free_drop ht kind
        refine ⟨hnodup, fun ix hix => ?_⟩
        exact (slot_pushFree (s.setTexture tile.textureId none) _ _ _).trans (hslots ix hix)
    · refine h.takeTile ht hperm (Or.inl (get_setTexture_self hslot))
        (fun id hne => get_setTexture_of_ne s hne _) (fun _ _ _ => rfl) rfl rfl rfl fun kind => ?_
      obtain ⟨hlist, hslots⟩ := free_setTexture h ht (some (release etagere t tile.tileId)) kind
      refine ⟨?_, fun ix hix => hslots ix ?_⟩
      · show ((s.setTexture _ _).storage kind).freeList.Nodup
        rw [hlist]
        exact (h.free kind).1
      · rw [← hlist]
        exact hix

/-! ### Frames -/

theorem sound_of_empty (hstorage : s.storage = fun _ => ⟨[], []⟩) (htiles : s.tilesByKey = [])
    (hgeneration : s.nextTextureGeneration = s.device.length % 2 ^ 64) : s.Sound etagere := by
  have hget : ∀ id, s.get id = none := fun id => by rw [get, hstorage]; rfl
  refine ⟨fun id t ht => ?_, fun id id' t t' ht => ?_, hgeneration, fun kind => ?_, ?_,
    fun key tile hmem => ?_⟩
  · rw [hget] at ht
    cases ht
  · rw [hget] at ht
    cases ht
  · rw [hstorage]
    exact ⟨List.nodup_nil, fun _ hix => absurd hix List.not_mem_nil⟩
  · rw [htiles]
    exact List.nodup_nil
  · rw [htiles] at hmem
    exact absurd hmem List.not_mem_nil

/-- **A flush writes to each texture what is pending for it.** -/
theorem Sound.getElem?_flush (h : s.Sound etagere)
    (ht : s.get id = some t) (uploads : List PendingUpload) : ∀ device : List GpuTexture,
    (uploads.foldl s.flushUpload device)[t.texture]? = (device[t.texture]?).map
      ((uploads.filter fun upload => upload.id = id).foldl
        (GpuTexture.write t.format.bytesPerPixel)) := by
  induction uploads with
  | nil => exact fun _ => Option.map_id'.symm
  | cons upload uploads ih =>
    intro device
    rw [List.foldl_cons, ih]
    by_cases hid : upload.id = id
    · subst hid
      rw [List.filter_cons_of_pos (by simp), flushUpload, ht]
      simp only [List.getElem?_modify_eq, List.foldl_cons]
      cases device[t.texture]? <;> rfl
    · rw [List.filter_cons_of_neg (by simpa using hid), flushUpload]
      cases hu : s.get upload.id with
      | none => rfl
      | some u =>
        have hne : u.texture ≠ t.texture := fun heq => hid (h.handles _ _ u t hu ht heq)
        simp only [List.getElem?_modify_ne _ _ hne]

theorem length_flush (s : WgpuAtlas α) (uploads : List PendingUpload) :
    ∀ device : List GpuTexture, (uploads.foldl s.flushUpload device).length = device.length := by
  induction uploads with
  | nil => exact fun _ => rfl
  | cons upload uploads ih =>
    intro device
    rw [List.foldl_cons, ih, flushUpload]
    split
    · exact List.length_modify ..
    · rfl

/-- **A flush** changes no texture but by what is pending for it. -/
theorem Sound.contents_flush (h : s.Sound etagere)
    (ht : s.get id = some t) :
    s.flushUploads.device[t.texture]? = s.contents t ∧ s.flushUploads.contents t = s.contents t := by
  have hdevice : s.flushUploads.device[t.texture]? = s.contents t := by
    rw [contents, (h.textures id t ht).id_eq]
    exact h.getElem?_flush ht s.pendingUploads s.device
  refine ⟨hdevice, ?_⟩
  rw [← hdevice, contents]
  exact Option.map_id'

theorem Sound.flushUploads (h : s.Sound etagere) : s.flushUploads.Sound etagere where
  textures id t ht := by
    obtain ⟨hid, hgen, hcon, hserved, hcount⟩ := h.textures id t ht
    refine ⟨hid, hgen, ?_, hserved, hcount⟩
    rw [(h.contents_flush ht).2]
    exact hcon
  handles := h.handles
  generation := by
    show s.nextTextureGeneration = _
    rw [WgpuAtlas.flushUploads, length_flush]
    exact h.generation
  free := h.free
  keys := h.keys
  live key tile hmem := by
    obtain ⟨t, texture, ht, hcon, hshows⟩ := h.live key tile hmem
    exact ⟨t, texture, ht, (h.contents_flush ht).2.trans hcon, hshows⟩

/-- **Looking a key up, or putting its tile in.** -/
theorem Sound.getOrInsertWith (h : s.Sound etagere)
    (hapart : etagere.Apart tileRegion Bounds.Apart) (key : AtlasKey)
    (build : Except String (Option (Size Int × List UInt8))) :
    (s.getOrInsertWith etagere key build).2.Sound etagere := by
  cases hlookup : s.lookup key with
  | some tile =>
    simp only [WgpuAtlas.getOrInsertWith, hlookup]
    exact h
  | none =>
    cases build with
    | error error =>
      simp only [WgpuAtlas.getOrInsertWith, hlookup]
      exact h
    | ok built =>
      cases built with
      | none =>
        simp only [WgpuAtlas.getOrInsertWith, hlookup]
        exact h
      | some built =>
        obtain ⟨size, bytes⟩ := built
        rcases h.allocate size key.textureKind with ⟨hnone, hsound, -⟩ |
          ⟨tile, s₁, id, t, hsound, htiles, ht, hgives, heq⟩
        · cases hallocate : s.allocate etagere size key.textureKind with
          | mk given s₁ =>
            rw [hallocate] at hnone hsound
            cases hnone
            simp only [WgpuAtlas.getOrInsertWith, hlookup, hallocate]
            exact hsound
        · simp only [WgpuAtlas.getOrInsertWith, hlookup, heq]
          have hkey : key ∉ s₁.tilesByKey.map Prod.fst := htiles ▸ lookup_eq_none hlookup
          exact hsound.insertTile hapart ht hgives hkey bytes

end WgpuAtlas

end FcGpui
