import FcGpui.Renderer.AtlasTiles

/-!
# Sprites with stale tiles

A scene can carry tiles that were released meanwhile: a view that is replayed is not
painted again, and nothing tells it that its images were dropped.  The renderer
skips a batch of sprites whose texture is gone.  It does not notice a tile that
was released while its texture is still there, or a texture that another one has
replaced under the same id, although it tells the two apart by their generations
when it looks for a bind group.

**Main result.**  `shows_iff_current`: a frame shows just the texels of live tiles
if and only if every sprite it has to draw is `Current`: its tile is live, or its
texture is gone.
-/

namespace FcGpui

variable {α U : Type}

/-- The tile of a sprite, and the key it was returned for. -/
def Primitive.placedTile (p : Primitive U SpriteRest) : Option (AtlasKey × PlacedTile) :=
  match p.detail with
  | .monochromeSprite tile => some (p.rest.key, ⟨tile, p.rest.tileBounds⟩)
  | .polychromeSprite tile => some (p.rest.key, ⟨tile, p.rest.tileBounds⟩)
  | _ => none

theorem textureId_of_placedTile {p : Primitive U SpriteRest} {key : AtlasKey} {tile : PlacedTile}
    (h : p.placedTile = some (key, tile)) : p.detail.textureId = some tile.textureId := by
  rw [Primitive.placedTile] at h
  split at h
  · rename_i hd
    cases h
    rw [hd]
    rfl
  · rename_i hd
    cases h
    rw [hd]
    rfl
  · cases h

/-- What a frame should draw: only sprites whose tiles are live, and their texels
are the bytes of their keys. -/
structure FrameShows (s : WgpuAtlas α) (draws : List (SpriteDraw U)) : Prop where
  texels : ∀ d ∈ draws, ∀ key tile, d.sprite.placedTile = some (key, tile) →
    ∃ texture, s.device[d.texture]? = some texture ∧ texture.Shows (s.uploaded key) tile.bounds
  skipped : ∀ d ∈ draws, ∀ key tile, d.sprite.placedTile = some (key, tile) →
    s.lookup key = some tile

/-- The tile of a sprite is live, or its texture is gone. -/
def WgpuAtlas.Current (s : WgpuAtlas α) (p : Primitive U SpriteRest) : Prop :=
  ∀ key tile, p.placedTile = some (key, tile) →
    s.lookup key = some tile ∨ s.getTextureInfo tile.textureId = none

namespace SpriteRenderer

variable {etagere : Etagere α} {r r' : SpriteRenderer α}

/-- The sprites of the batches. -/
def sprites (batches : List (PrimitiveBatch U SpriteRest)) : List (Primitive U SpriteRest) :=
  (batches.filter fun batch => batch.kind.isSprite).flatMap PrimitiveBatch.primitives

/-! ### Bind groups -/

/-- A bind group has the generation of its texture. -/
structure Bound (etagere : Etagere α) (r : SpriteRenderer α) : Prop where
  atlas : r.atlas.Sound etagere
  cached : ∀ id c, r.atlasTextureBindGroups id = some c →
    c.bindGroup < r.atlas.device.length ∧ c.textureGeneration = c.bindGroup % 2 ^ 64

variable {id : AtlasTextureId}

theorem mem_textureIds {batches : List (PrimitiveBatch U SpriteRest)} :
    id ∈ textureIds batches ↔ ∃ batch ∈ batches, batch.spriteTextureId = some id := by
  have hfold : ∀ (new old : List AtlasTextureId),
      id ∈ new.foldl (fun ids id => if id ∈ ids then ids else ids ++ [id]) old ↔
        id ∈ old ∨ id ∈ new := by
    intro new
    induction new with
    | nil => simp
    | cons i new ih =>
      intro old
      rw [List.foldl_cons, ih, List.mem_cons]
      by_cases hi : i ∈ old
      · rw [if_pos hi]
        constructor
        · rintro (h | h) <;> simp [h]
        · rintro (h | rfl | h)
          · exact Or.inl h
          · exact Or.inl hi
          · exact Or.inr h
      · rw [if_neg hi, List.mem_append, List.mem_singleton, or_assoc]
  rw [textureIds, hfold, List.mem_filterMap]
  simp

theorem Bound.info (h : r.Bound etagere) {info : WgpuTextureInfo}
    (hinfo : r.atlas.getTextureInfo id = some info) :
    info.view < r.atlas.device.length ∧ info.generation = info.view % 2 ^ 64 := by
  obtain ⟨t, ht, rfl⟩ := Option.map_eq_some_iff.mp hinfo
  obtain ⟨texture, hcon, -⟩ := (h.atlas.textures id t ht).contents
  obtain ⟨gpu, hgpu, -⟩ := Option.map_eq_some_iff.mp hcon
  exact ⟨(List.getElem?_eq_some_iff.mp hgpu).1, (h.atlas.textures id t ht).generation⟩

theorem atlas_prepareTexture (r : SpriteRenderer α) (id : AtlasTextureId) :
    (r.prepareTexture id).atlas = r.atlas := by
  rw [prepareTexture]
  split
  · rfl
  · simp only
    split <;> rfl

theorem prepareTexture_of_ne (r : SpriteRenderer α) {id' : AtlasTextureId} (hne : id' ≠ id) :
    (r.prepareTexture id).atlasTextureBindGroups id' = r.atlasTextureBindGroups id' := by
  rw [prepareTexture]
  split
  · exact Function.update_of_ne hne _ _
  · simp only
    split
    · rfl
    · exact Function.update_of_ne hne _ _

theorem prepareTexture_self (r : SpriteRenderer α) (id : AtlasTextureId) :
    (r.prepareTexture id).atlasTextureBindGroups id =
      (r.atlas.getTextureInfo id).map fun info =>
        match r.atlasTextureBindGroups id with
        | some c =>
          if c.textureGeneration = info.generation then c else ⟨info.generation, info.view⟩
        | none => ⟨info.generation, info.view⟩ := by
  cases hinfo : r.atlas.getTextureInfo id with
  | none =>
    simp only [prepareTexture, hinfo]
    exact Function.update_self _ _ _
  | some info =>
    simp only [prepareTexture, hinfo]
    cases hc : r.atlasTextureBindGroups id with
    | none => simp
    | some c =>
      by_cases hgen : c.textureGeneration = info.generation
      · simp [hgen, hc]
      · simp [hgen]

theorem Bound.prepareTexture (h : r.Bound etagere) (id : AtlasTextureId) :
    (r.prepareTexture id).Bound etagere where
  atlas := by
    rw [atlas_prepareTexture]
    exact h.atlas
  cached id' c hc := by
    rw [atlas_prepareTexture]
    by_cases hid : id' = id
    · subst hid
      rw [prepareTexture_self] at hc
      obtain ⟨info, hinfo, rfl⟩ := Option.map_eq_some_iff.mp hc
      have hnew := h.info hinfo
      split
      · rename_i c hold
        split
        · exact h.cached id' c hold
        · exact hnew
      · exact hnew
    · rw [prepareTexture_of_ne r hid] at hc
      exact h.cached id' c hc

/-- **The bind group of a prepared texture** is one of the texture that is there. -/
theorem Bound.prepareTexture_self (h : r.Bound etagere)
    (hmany : r.atlas.device.length ≤ 2 ^ 64) (id : AtlasTextureId) :
    ((r.prepareTexture id).atlasTextureBindGroups id).map CachedTextureBindGroup.bindGroup =
      (r.atlas.getTextureInfo id).map WgpuTextureInfo.view := by
  rw [SpriteRenderer.prepareTexture_self, Option.map_map]
  cases hinfo : r.atlas.getTextureInfo id with
  | none => rfl
  | some info =>
    obtain ⟨hlt, hgen⟩ := h.info hinfo
    simp only [Option.map_some, Function.comp_apply, Option.some.injEq]
    split
    · rename_i c hc
      obtain ⟨hlt', hgen'⟩ := h.cached id c hc
      split
      · -- fewer than 2⁶⁴ textures have different generations
        rename_i heq
        rw [hgen, hgen', Nat.mod_eq_of_lt (by omega), Nat.mod_eq_of_lt (by omega)] at heq
        exact heq
      · rfl
    · rfl

theorem Bound.prepareTextures (ids : List AtlasTextureId) : ∀ {r : SpriteRenderer α},
    r.Bound etagere → (ids.foldl SpriteRenderer.prepareTexture r).Bound etagere ∧
      (ids.foldl SpriteRenderer.prepareTexture r).atlas = r.atlas := by
  induction ids with
  | nil => exact fun h => ⟨h, rfl⟩
  | cons i ids ih =>
    intro r h
    obtain ⟨hbound, hatlas⟩ := ih (h.prepareTexture i)
    exact ⟨hbound, hatlas.trans (atlas_prepareTexture r i)⟩

/-- **All textures are prepared**, in any order. -/
theorem Bound.prepareTextures_self (ids : List AtlasTextureId) : ∀ {r : SpriteRenderer α},
    r.Bound etagere → r.atlas.device.length ≤ 2 ^ 64 → ∀ id,
      (id ∈ ids ∨ (r.atlasTextureBindGroups id).map CachedTextureBindGroup.bindGroup =
        (r.atlas.getTextureInfo id).map WgpuTextureInfo.view) →
      ((ids.foldl SpriteRenderer.prepareTexture r).atlasTextureBindGroups id).map
          CachedTextureBindGroup.bindGroup =
        (r.atlas.getTextureInfo id).map WgpuTextureInfo.view := by
  induction ids with
  | nil => exact fun h hmany id hid => hid.resolve_left List.not_mem_nil
  | cons i ids ih =>
    intro r h hmany id hid
    have hatlas := atlas_prepareTexture r i
    rw [List.foldl_cons, ← hatlas]
    refine ih (h.prepareTexture i) (hatlas ▸ hmany) id ?_
    rw [hatlas]
    by_cases hi : id = i
    · subst hi
      exact Or.inr (h.prepareTexture_self hmany id)
    · rw [prepareTexture_of_ne r hi]
      rcases hid with hid | hid
      · exact Or.inl ((List.mem_cons.mp hid).resolve_left hi)
      · exact Or.inr hid

/-! ### Frames -/

theorem Bound.flush (h : r.Bound etagere) :
    Bound etagere { r with atlas := r.atlas.beforeFrame } where
  atlas := h.atlas.flushUploads
  cached id c hc := by
    show c.bindGroup < (r.atlas.pendingUploads.foldl r.atlas.flushUpload r.atlas.device).length ∧ _
    rw [WgpuAtlas.length_flush]
    exact h.cached id c hc

theorem length_beforeFrame (s : WgpuAtlas α) : s.beforeFrame.device.length = s.device.length :=
  WgpuAtlas.length_flush s s.pendingUploads s.device

theorem Bound.retain (h : r.Bound etagere) (ids : List AtlasTextureId) :
    Bound etagere
      { atlas := r.atlas.beforeFrame
        atlasTextureBindGroups := fun id => if id ∈ ids then r.atlasTextureBindGroups id else none } :=
  ⟨h.flush.atlas, fun id c hc => h.flush.cached id c (Option.ite_none_right_eq_some.mp hc).2⟩

theorem Bound.prepare (h : r.Bound etagere) (batches : List (PrimitiveBatch U SpriteRest)) :
    (r.prepare batches).Bound etagere ∧ (r.prepare batches).atlas = r.atlas.beforeFrame :=
  Bound.prepareTextures (textureIds batches) (h.retain (textureIds batches))

/-- **After the preparations** the textures of the sprites have the bind groups of
the textures that are there. -/
theorem Bound.prepare_bindGroup (h : r.Bound etagere) (hmany : r.atlas.device.length ≤ 2 ^ 64)
    {batches : List (PrimitiveBatch U SpriteRest)} (hid : id ∈ textureIds batches) :
    ((r.prepare batches).atlasTextureBindGroups id).map CachedTextureBindGroup.bindGroup =
      (r.atlas.beforeFrame.getTextureInfo id).map WgpuTextureInfo.view := by
  refine Bound.prepareTextures_self (textureIds batches) (h.retain (textureIds batches)) ?_ id
    (Or.inl hid)
  show r.atlas.beforeFrame.device.length ≤ 2 ^ 64
  rw [length_beforeFrame]
  exact hmany

theorem mem_sprites {batches : List (PrimitiveBatch U SpriteRest)} {p : Primitive U SpriteRest} :
    p ∈ sprites batches ↔
      ∃ batch ∈ batches, batch.kind.isSprite = true ∧ p ∈ batch.primitives := by
  rw [sprites, List.mem_flatMap]
  constructor
  · rintro ⟨batch, hb, hp⟩
    obtain ⟨hb, hk⟩ := List.mem_filter.mp hb
    exact ⟨batch, hb, hk, hp⟩
  · rintro ⟨batch, hb, hk, hp⟩
    exact ⟨batch, List.mem_filter.mpr ⟨hb, hk⟩, hp⟩

theorem spriteTextureId_eq {batch : PrimitiveBatch U SpriteRest} :
    batch.spriteTextureId = some id ↔ batch.kind.isSprite = true ∧ batch.textureId = some id :=
  Option.ite_none_right_eq_some

theorem mem_drawSprites {batch : PrimitiveBatch U SpriteRest} {d : SpriteDraw U} :
    d ∈ r.drawSprites batch ↔ d.sprite ∈ batch.primitives ∧
      ∃ id c, batch.spriteTextureId = some id ∧ r.atlasTextureBindGroups id = some c ∧
        d.texture = c.bindGroup := by
  rw [drawSprites]
  cases hc : batch.spriteTextureId.bind r.atlasTextureBindGroups with
  | none =>
    refine iff_of_false List.not_mem_nil ?_
    rintro ⟨-, id, c, hid, hcached, -⟩
    rw [hid, Option.bind_some, hcached] at hc
    cases hc
  | some c =>
    obtain ⟨id, hid, hcached⟩ := Option.bind_eq_some_iff.mp hc
    rw [List.mem_map]
    constructor
    · rintro ⟨sprite, hs, rfl⟩
      exact ⟨hs, id, c, hid, hcached, rfl⟩
    · rintro ⟨hs, id', c', hid', hcached', htexture⟩
      cases hid.symm.trans hid'
      cases hcached.symm.trans hcached'
      exact ⟨d.sprite, hs, by rw [← htexture]⟩

/-- **A sprite is drawn** if and only if its texture is there, and from that
texture. -/
theorem Bound.mem_draws (h : r.Bound etagere) (hmany : r.atlas.device.length ≤ 2 ^ 64)
    {batches : List (PrimitiveBatch U SpriteRest)}
    (hruns : ∀ batch ∈ batches, batch.kind.isSprite = true →
      ∀ p ∈ batch.primitives, p.detail.textureId = batch.textureId)
    {d : SpriteDraw U} {key : AtlasKey} {tile : PlacedTile}
    (hp : d.sprite.placedTile = some (key, tile)) :
    d ∈ batches.flatMap (r.prepare batches).drawSprites ↔ d.sprite ∈ sprites batches ∧
      ∃ t, r.atlas.beforeFrame.get tile.textureId = some t ∧ t.texture = d.texture := by
  rw [List.mem_flatMap, mem_sprites]
  have htile := textureId_of_placedTile hp
  constructor
  · rintro ⟨batch, hb, hd⟩
    obtain ⟨hs, id, c, hid, hc, htexture⟩ := mem_drawSprites.mp hd
    obtain ⟨hk, hbid⟩ := spriteTextureId_eq.mp hid
    have hsame := hruns batch hb hk d.sprite hs
    rw [htile, hbid] at hsame
    cases hsame
    have hgroup := h.prepare_bindGroup hmany (mem_textureIds.mpr ⟨batch, hb, hid⟩)
    rw [hc] at hgroup
    obtain ⟨info, hinfo, hview⟩ := Option.map_eq_some_iff.mp hgroup.symm
    obtain ⟨t, ht, rfl⟩ := Option.map_eq_some_iff.mp hinfo
    exact ⟨⟨batch, hb, hk, hs⟩, t, ht, hview.trans htexture.symm⟩
  · rintro ⟨⟨batch, hb, hk, hs⟩, t, ht, htexture⟩
    have hid : batch.spriteTextureId = some tile.textureId :=
      spriteTextureId_eq.mpr ⟨hk, (hruns batch hb hk d.sprite hs).symm.trans htile⟩
    have hgroup := h.prepare_bindGroup hmany (mem_textureIds.mpr ⟨batch, hb, hid⟩)
    rw [WgpuAtlas.getTextureInfo, ht] at hgroup
    obtain ⟨c, hc, hview⟩ := Option.map_eq_some_iff.mp hgroup
    exact ⟨batch, hb, mem_drawSprites.mpr ⟨hs, _, c, hid, hc, htexture.symm.trans hview.symm⟩⟩

/-- **One frame.** -/
theorem Bound.frameShows_iff (h : r.Bound etagere) (hmany : r.atlas.device.length ≤ 2 ^ 64)
    {batches : List (PrimitiveBatch U SpriteRest)}
    (hruns : ∀ batch ∈ batches, batch.kind.isSprite = true →
      ∀ p ∈ batch.primitives, p.detail.textureId = batch.textureId) :
    FrameShows (r.prepare batches).atlas (batches.flatMap (r.prepare batches).drawSprites) ↔
      ∀ p ∈ sprites batches, r.atlas.Current p := by
  rw [(h.prepare batches).2]
  constructor
  · intro hshows p hp key tile hplaced
    cases ht : r.atlas.get tile.textureId with
    | none =>
      right
      rw [WgpuAtlas.getTextureInfo, ht]
      rfl
    | some t =>
      left
      have hd : (⟨p, t.texture⟩ : SpriteDraw U) ∈
          batches.flatMap (r.prepare batches).drawSprites :=
        (h.mem_draws hmany hruns hplaced).mpr ⟨hp, t, ht, rfl⟩
      exact hshows.skipped _ hd key tile hplaced
  · intro hcurrent
    have hlive : ∀ d ∈ batches.flatMap (r.prepare batches).drawSprites, ∀ key tile,
        d.sprite.placedTile = some (key, tile) → r.atlas.lookup key = some tile ∧
          ∃ t, r.atlas.beforeFrame.get tile.textureId = some t ∧ t.texture = d.texture := by
      intro d hd key tile hplaced
      obtain ⟨hp, t, ht, htexture⟩ := (h.mem_draws hmany hruns hplaced).mp hd
      refine ⟨(hcurrent _ hp key tile hplaced).resolve_right fun hgone => ?_, t, ht, htexture⟩
      have ht : r.atlas.get tile.textureId = some t := ht
      rw [WgpuAtlas.getTextureInfo, ht] at hgone
      cases hgone
    refine ⟨fun d hd key tile hplaced => ?_, fun d hd key tile hplaced =>
      (hlive d hd key tile hplaced).1⟩
    obtain ⟨hlookup, t, ht, htexture⟩ := hlive d hd key tile hplaced
    obtain ⟨t', texture, ht', hcon, hshows⟩ :=
      h.atlas.live key tile (WgpuAtlas.mem_of_lookup hlookup)
    cases ht.symm.trans ht'
    refine ⟨texture, ?_, hshows⟩
    rw [← htexture]
    exact (h.atlas.contents_flush ht').1.trans hcon

/-! ### Runs -/

theorem length_le_allocate (s : WgpuAtlas α) (size : Size Int) (kind : AtlasTextureKind) :
    s.device.length ≤ (s.allocate etagere size kind).2.device.length := by
  cases hfound : (allocateFrom etagere size (s.storage kind).textures).1 with
  | some tile =>
    rw [WgpuAtlas.allocate_of_room hfound]
    exact le_rfl
  | none =>
    rw [WgpuAtlas.allocate_of_full hfound rfl]
    show s.device.length ≤ (s.device ++ [_]).length
    rw [List.length_append]
    exact Nat.le_add_right _ _

theorem length_le_getOrInsertWith (s : WgpuAtlas α) (key : AtlasKey)
    (build : Except String (Option (Size Int × List UInt8))) :
    s.device.length ≤ (s.getOrInsertWith etagere key build).2.device.length := by
  rw [WgpuAtlas.getOrInsertWith.eq_def]
  split
  · exact le_rfl
  · split
    · exact le_rfl
    · exact le_rfl
    · rename_i size bytes
      have hle : s.device.length ≤ (s.allocate etagere size key.textureKind).2.device.length :=
        length_le_allocate s size key.textureKind
      split
      · rename_i heq
        rw [heq] at hle
        exact hle
      · rename_i heq
        rw [heq] at hle
        exact hle

theorem device_remove (s : WgpuAtlas α) (key : AtlasKey) :
    (s.remove etagere key).device = s.device := by
  cases hlookup : s.lookup key with
  | none => simp only [WgpuAtlas.remove, hlookup]
  | some tile =>
    simp only [WgpuAtlas.remove, hlookup]
    split
    · rfl
    · split <;> rfl

theorem Bound.step (h : r.Bound etagere) (hapart : etagere.Apart tileRegion Bounds.Apart)
    {act : SpriteAct U} (hs : r.step etagere act = some r') : r'.Bound etagere := by
  cases act with
  | getOrInsertWith key build =>
    cases hs
    refine ⟨h.atlas.getOrInsertWith hapart key build, fun id c hc => ?_⟩
    obtain ⟨hlt, hgen⟩ := h.cached id c hc
    exact ⟨hlt.trans_le (length_le_getOrInsertWith r.atlas key build), hgen⟩
  | remove key =>
    cases hs
    refine ⟨h.atlas.remove key, fun id c hc => ?_⟩
    show c.bindGroup < (r.atlas.remove etagere key).device.length ∧ _
    rw [device_remove]
    exact h.cached id c hc
  | clear =>
    cases hs
    exact ⟨WgpuAtlas.sound_of_empty rfl rfl h.atlas.generation, h.cached⟩
  | handleDeviceLost format =>
    cases hs
    exact ⟨WgpuAtlas.sound_of_empty rfl rfl h.atlas.generation, fun _ _ hc => absurd hc nofun⟩
  | beforeFrame =>
    cases hs
    exact h.flush
  | prepare scene =>
    obtain ⟨batches, -, rfl⟩ := Option.map_eq_some_iff.mp hs
    exact (h.prepare batches).1
  | frame scene =>
    obtain ⟨drawn, hdrawn, rfl⟩ := Option.map_eq_some_iff.mp hs
    obtain ⟨batches, -, rfl⟩ := Option.map_eq_some_iff.mp hdrawn
    exact (h.prepare batches).1

theorem bound_new (maxTextureSize : Int) (atlasInitialSize : Size Int)
    (colorTextureFormat : TextureFormat) :
    (new (WgpuAtlas.new maxTextureSize atlasInitialSize colorTextureFormat)).Bound etagere :=
  ⟨WgpuAtlas.sound_of_empty rfl rfl rfl, fun _ _ hc => absurd hc nofun⟩

theorem Bound.run (h : r.Bound etagere) (hapart : etagere.Apart tileRegion Bounds.Apart)
    {acts : List (SpriteAct U)} (hrun : run (SpriteRenderer.step etagere) r acts = some r') : r'.Bound etagere :=
  run_invariant (fun _ _ _ hb (_ : True) hs => Bound.step hb hapart hs) acts h
    (RunMeets.of_forall (fun _ _ => trivial) acts r) hrun

/-- **After every run, a frame shows just the texels of live tiles if and only if
each sprite in its batches is current.**  (Fewer than 2⁶⁴ textures have been made.) -/
theorem shows_iff_current (hapart : etagere.Apart tileRegion Bounds.Apart)
    {maxTextureSize : Int} {atlasInitialSize : Size Int} {colorTextureFormat : TextureFormat}
    {acts : List (SpriteAct U)}
    (hrun : run (step etagere)
      (new (WgpuAtlas.new maxTextureSize atlasInitialSize colorTextureFormat)) acts = some r)
    (hmany : r.atlas.device.length ≤ 2 ^ 64) (scene : Scene U SpriteRest) :
    ∃ batches draws, scene.batches = some batches ∧ r.frame scene = some (r.prepare batches, draws) ∧
      (FrameShows (r.prepare batches).atlas draws ↔ ∀ p ∈ sprites batches, r.atlas.Current p) := by
  obtain ⟨batches, hbatches, hruns⟩ := scene.batches_runs
  have h := (bound_new maxTextureSize atlasInitialSize colorTextureFormat).run hapart hrun
  refine ⟨batches, _, hbatches, ?_, h.frameShows_iff hmany fun batch hb => (hruns batch hb).2.2⟩
  rw [frame, hbatches]
  rfl

end SpriteRenderer

/-! ### An image that takes the place of another -/

/-- The part of an allocator that is one row: regions are handed out from left to
right, all with one id, and the row is free again when all are back. -/
structure OneBucket where
  size : Size Int
  x : Int
  count : Nat
deriving DecidableEq, Repr

namespace OneBucket

def allocate (a : OneBucket) (size : Size Int) : Option (Nat × Point Int) × OneBucket :=
  if 0 < size.width ∧ 0 < size.height ∧ a.x + size.width ≤ a.size.width
      ∧ size.height ≤ a.size.height then
    (some (0, ⟨a.x, 0⟩), { a with x := a.x + size.width, count := a.count + 1 })
  else (none, a)

def deallocate (a : OneBucket) : OneBucket :=
  if a.count ≤ 1 then { a with x := 0, count := 0 } else { a with count := a.count - 1 }

theorem allocate_eq {a a' : OneBucket} {size : Size Int} {id : Nat} {place : Point Int}
    (h : a.allocate size = (some (id, place), a')) :
    place = ⟨a.x, 0⟩ ∧ 0 < size.width ∧
      a' = { a with x := a.x + size.width, count := a.count + 1 } := by
  rw [allocate] at h
  split at h
  · rename_i hfits
    cases h
    exact ⟨rfl, hfits.1, rfl⟩
  · cases h

theorem refuse_eq {a a' : OneBucket} {size : Size Int} (h : a.allocate size = (none, a')) :
    a' = a := by
  rw [allocate] at h
  split at h
  · cases h
  · cases h
    rfl

end OneBucket

def oneBucket : Etagere OneBucket where
  new size := ⟨size, 0, 0⟩
  allocate := OneBucket.allocate
  deallocate a _ := a.deallocate

theorem left_of_serves {a : OneBucket} {held : List (Nat × Bounds Int)}
    (h : oneBucket.Serves tileRegion a held) :
    a.count = held.length ∧ ∀ r ∈ held, r.2.origin.x + r.2.size.width ≤ a.x := by
  induction h with
  | new size => exact ⟨rfl, fun _ hr => absurd hr List.not_mem_nil⟩
  | allocate _ ha ih =>
    obtain ⟨rfl, hwidth, rfl⟩ := OneBucket.allocate_eq ha
    refine ⟨congrArg (· + 1) ih.1, fun r hr => ?_⟩
    rcases List.mem_cons.mp hr with rfl | hr
    · exact le_rfl
    · have := ih.2 r hr
      show _ ≤ _ + _
      omega
  | refuse _ ha ih =>
    rw [OneBucket.refuse_eq ha]
    exact ih
  | @deallocate a held held' id r _ hperm ih =>
    obtain ⟨hcount, hleft⟩ := ih
    rw [hperm.length_eq, List.length_cons] at hcount
    show a.deallocate.count = held'.length ∧ ∀ r ∈ held', _ ≤ a.deallocate.x
    rw [OneBucket.deallocate]
    split
    · have hnil : held' = [] := List.length_eq_zero_iff.mp (by omega)
      rw [hnil]
      exact ⟨rfl, fun _ hr => absurd hr List.not_mem_nil⟩
    · refine ⟨?_, fun r hr => hleft r (hperm.mem_iff.mpr (List.mem_cons_of_mem _ hr))⟩
      show a.count - 1 = _
      omega

theorem apart_oneBucket : oneBucket.Apart tileRegion Bounds.Apart := by
  intro a held size id place a' hserves ha r hr x y hin
  obtain ⟨rfl, -, -⟩ := OneBucket.allocate_eq ha
  have hleft := (left_of_serves hserves).2 r hr
  rw [Bounds.hasTexel, Bool.and_eq_true_iff, Bool.and_eq_true_iff, Bool.and_eq_true_iff,
    decide_eq_true_iff, decide_eq_true_iff] at hin
  rw [Bounds.hasTexel, Bool.and_assoc, Bool.and_assoc, Bool.and_eq_false_iff, decide_eq_false_iff_not]
  left
  show ¬ a.x ≤ x
  omega

/-- A request for an image of one pixel. -/
def insertImage (key : Nat) (byte : UInt8) : SpriteAct Int :=
  .getOrInsertWith (.image key) (.ok (some (⟨1, 1⟩, [byte, byte, byte, byte])))

/-- The tile of the first image. -/
def firstTile : PlacedTile := ⟨⟨⟨0, .polychrome⟩, 0⟩, ⟨⟨0, 0⟩, ⟨1, 1⟩⟩⟩

/-- A scene that shows the first image, and one that replays it. -/
def imagePainted : Scene Int SpriteRest :=
  Scene.run ⟨[], ⟨[], none, none⟩, [], fun _ => []⟩
    [.insertPrimitive ⟨0, ⟨⟨0, 0⟩, ⟨1, 1⟩⟩, ⟨⟨⟨0, 0⟩, ⟨1, 1⟩⟩⟩,
      .polychromeSprite firstTile.toAtlasTile, ⟨firstTile.bounds, .image 1⟩⟩]

def imageReplayed : Scene Int SpriteRest :=
  (imagePainted.clear.replay 0 1 imagePainted).get (by decide +kernel)

def atlasStart : WgpuAtlas OneBucket := .new 4096 ⟨1024, 1024⟩ .bgra8Unorm

namespace SpriteRenderer

/-- The sprite of the first image, as the scene holds it. -/
def imageSprite : Primitive Int SpriteRest :=
  ⟨1, ⟨⟨0, 0⟩, ⟨1, 1⟩⟩, ⟨⟨⟨0, 0⟩, ⟨1, 1⟩⟩⟩, .polychromeSprite firstTile.toAtlasTile,
    ⟨firstTile.bounds, .image 1⟩⟩

theorem batches_imageReplayed : imageReplayed.batches =
    some [⟨.polychromeSprite, some ⟨0, .polychrome⟩, [imageSprite]⟩] := by
  decide +kernel

/-- The first image is painted. -/
def imageShown : SpriteRenderer OneBucket :=
  (run (step oneBucket) (new atlasStart) [insertImage 1 1, .frame imagePainted]).get
    (by decide +kernel)

/-- A frame that replays the image is right as long as its tile is live. -/
theorem shows_iff_current_imageShown :
    run (step oneBucket) (new atlasStart) [insertImage 1 1, .frame imagePainted] = some imageShown ∧
    ∃ batches draws, imageReplayed.batches = some batches ∧ imageSprite ∈ sprites batches ∧
      imageShown.frame imageReplayed = some (imageShown.prepare batches, draws) ∧
      FrameShows (imageShown.prepare batches).atlas draws := by
  have hrun : run (step oneBucket) (new atlasStart) [insertImage 1 1, .frame imagePainted] =
      some imageShown := (Option.some_get _).symm
  obtain ⟨batches, draws, hbatches, hframe, hiff⟩ :=
    shows_iff_current apart_oneBucket hrun (by decide +kernel) imageReplayed
  cases batches_imageReplayed.symm.trans hbatches
  refine ⟨hrun, _, draws, hbatches, by decide, hframe, hiff.mpr fun p hp key tile hplaced => ?_⟩
  obtain ⟨-, rfl⟩ : PrimitiveKind.polychromeSprite.isSprite = true ∧ p = imageSprite := by
    simpa [sprites] using hp
  cases hplaced
  left
  decide +kernel

/-- The first image is painted; then it is removed, and a second one put in. -/
def imageReplaced : SpriteRenderer OneBucket :=
  (run (step oneBucket) (new atlasStart)
    [insertImage 1 1, .frame imagePainted, .remove (.image 1), insertImage 2 2]).get
    (by decide +kernel)

/-- What the frame draws then. -/
def foreignFrame : SpriteRenderer OneBucket × List (SpriteDraw Int) :=
  (imageReplaced.frame imageReplayed).get (by decide +kernel)

/-- **The sprite of the first image is drawn with the pixels of the second.** -/
theorem foreign_pixels :
    (atlasStart.getOrInsertWith oneBucket (.image 1)
      (.ok (some (⟨1, 1⟩, [1, 1, 1, 1])))).1 = .ok (some firstTile) ∧
    run (step oneBucket) (new atlasStart)
      [insertImage 1 1, .frame imagePainted, .remove (.image 1), insertImage 2 2] =
        some imageReplaced ∧
    imageReplaced.frame imageReplayed = some foreignFrame ∧
    imageSprite.placedTile = some (.image 1, firstTile) ∧
    foreignFrame.2 = [⟨imageSprite, 1⟩] ∧
    foreignFrame.1.atlas.device[1]?.map (fun texture => texture.texels 0 0) = some [2, 2, 2, 2] ∧
    foreignFrame.1.atlas.uploaded (.image 1) = [1, 1, 1, 1] ∧
    ¬ FrameShows foreignFrame.1.atlas foreignFrame.2 := by
  have hdraws : foreignFrame.2 = [⟨imageSprite, 1⟩] := by decide +kernel
  refine ⟨by decide +kernel, (Option.some_get _).symm, (Option.some_get _).symm, rfl, hdraws,
    by decide +kernel, by decide +kernel, fun h => ?_⟩
  rw [hdraws] at h
  have hlive := h.skipped _ (List.mem_singleton_self _) (.image 1) firstTile rfl
  exact absurd hlive (by decide +kernel)

end SpriteRenderer

end FcGpui
