import FcGpui.Renderer.Atlas

/-!
# The textures of the atlas

`Sound` is what the operations of the atlas keep.  The allocator of a texture has
handed out just the rectangles of the tiles in it, so a new tile is apart from
those that are live; a texture is dropped when no key has a tile in it, and not
before; and once the pending uploads are written, the texels of every live tile
are the bytes of its key (`Shows`).

A request goes from texture to texture, and each that refuses may change its
allocator (`Refusals`).  A new texture takes an empty slot (`Sound.put`).

**Main result.**  `Sound.allocate`: the tile comes from one texture of a sound
atlas.
-/

namespace FcGpui

variable {α : Type}

/-- The texels of `bounds` are the bytes. -/
def GpuTexture.Shows (texture : GpuTexture) (bytes : List UInt8) (bounds : Bounds Int) : Prop :=
  ∀ x y, bounds.hasTexel x y = true → texture.texels x y =
    texelOf (swizzleUploadData bytes texture.format) texture.format.bytesPerPixel bounds x y

/-- What the allocator of a texture has handed out for a tile. -/
def PlacedTile.held (tile : PlacedTile) : Nat × Bounds Int := (tile.tileId, tile.bounds)

namespace WgpuAtlas

/-! ### Slots -/

def slot (s : WgpuAtlas α) (id : AtlasTextureId) : Option (Option (WgpuAtlasTexture α)) :=
  (s.storage id.kind).textures[id.index]?

theorem get_eq_slot (s : WgpuAtlas α) (id : AtlasTextureId) : s.get id = (s.slot id).join := rfl

theorem get_eq_some {s : WgpuAtlas α} {id : AtlasTextureId} {t : WgpuAtlasTexture α} :
    s.get id = some t ↔ s.slot id = some (some t) := by
  rw [get_eq_slot, Option.join_eq_some_iff]

theorem slot_setTextures (s : WgpuAtlas α) (kind : AtlasTextureKind)
    (textures : List (Option (WgpuAtlasTexture α))) (id : AtlasTextureId) :
    (s.setTextures kind textures).slot id =
      if id.kind = kind then textures[id.index]? else s.slot id := by
  rw [slot, setTextures]
  by_cases hk : id.kind = kind
  · rw [if_pos hk, hk]
    simp only [Function.update_self]
  · rw [if_neg hk]
    simp only [Function.update_of_ne hk]
    rfl

theorem slot_setTexture (s : WgpuAtlas α) (id id' : AtlasTextureId)
    (v : Option (WgpuAtlasTexture α)) :
    (s.setTexture id v).slot id' =
      if id' = id then (s.slot id).map (fun _ => v) else s.slot id' := by
  rw [setTexture, slot_setTextures]
  by_cases hid : id' = id
  · subst hid
    rw [if_pos rfl, if_pos rfl, slot, List.getElem?_set_self']
    rfl
  · rw [if_neg hid]
    by_cases hk : id'.kind = id.kind
    · have hix : id.index ≠ id'.index := by
        intro hix
        apply hid
        cases id
        cases id'
        simp_all
      rw [if_pos hk, List.getElem?_set_ne hix, slot, hk]
    · rw [if_neg hk]

theorem get_setTexture_self {s : WgpuAtlas α} {id : AtlasTextureId}
    {old v : Option (WgpuAtlasTexture α)} (h : s.slot id = some old) :
    (s.setTexture id v).get id = v := by
  rw [get_eq_slot, slot_setTexture, if_pos rfl, h]
  rfl

theorem get_setTexture_of_ne (s : WgpuAtlas α) {id id' : AtlasTextureId} (hne : id' ≠ id)
    (v : Option (WgpuAtlasTexture α)) : (s.setTexture id v).get id' = s.get id' := by
  rw [get_eq_slot, slot_setTexture, if_neg hne]
  rfl

/-! ### What the operations keep -/

/-- The tiles in one texture. -/
def tilesIn (s : WgpuAtlas α) (id : AtlasTextureId) : List PlacedTile :=
  (s.tilesByKey.map Prod.snd).filter fun tile => tile.textureId = id

/-- What a texture will hold when the pending uploads are written. -/
def contents (s : WgpuAtlas α) (t : WgpuAtlasTexture α) : Option GpuTexture :=
  (s.device[t.texture]?).map
    ((s.pendingUploads.filter fun upload => upload.id = t.id).foldl
      (GpuTexture.write t.format.bytesPerPixel))

structure TextureSound (etagere : Etagere α) (s : WgpuAtlas α) (id : AtlasTextureId)
    (t : WgpuAtlasTexture α) : Prop where
  id_eq : t.id = id
  generation : t.generation = t.texture % 2 ^ 64
  contents : ∃ texture, s.contents t = some texture ∧ texture.format = t.format
  served : ∃ held, etagere.Serves tileRegion t.allocator held ∧
    held.Perm ((s.tilesIn id).map PlacedTile.held)
  count : t.liveAtlasKeys = (s.tilesIn id).length

structure Sound (etagere : Etagere α) (s : WgpuAtlas α) : Prop where
  textures : ∀ id t, s.get id = some t → TextureSound etagere s id t
  handles : ∀ id id' t t', s.get id = some t → s.get id' = some t' → t.texture = t'.texture → id = id'
  generation : s.nextTextureGeneration = s.device.length % 2 ^ 64
  free : ∀ kind, (s.storage kind).freeList.Nodup ∧
    ∀ ix ∈ (s.storage kind).freeList, s.slot ⟨ix, kind⟩ = some none
  keys : (s.tilesByKey.map Prod.fst).Nodup
  live : ∀ key tile, (key, tile) ∈ s.tilesByKey → ∃ t texture, s.get tile.textureId = some t ∧
    s.contents t = some texture ∧ texture.Shows (s.uploaded key) tile.bounds

variable {etagere : Etagere α} {s s' : WgpuAtlas α} {size : Size Int}

/-! ### Textures that have no room -/

/-- A slot before and after a request that its texture may have refused. -/
def Refused (etagere : Etagere α) (size : Size Int) (v v' : Option (Option (WgpuAtlasTexture α))) :
    Prop :=
  v' = v ∨ ∃ t a', v = some (some t) ∧ v' = some (some { t with allocator := a' }) ∧
    etagere.allocate t.allocator size = (none, a')

variable {t : WgpuAtlasTexture α} {tile : PlacedTile} {v v' : Option (Option (WgpuAtlasTexture α))}
  {id : AtlasTextureId}

theorem allocate_some (h : (t.allocate etagere size).1 = some tile) :
    ∃ min a', etagere.allocate t.allocator size = (some (tile.tileId, min), a') ∧
      tile.textureId = t.id ∧ tile.bounds = tileRegion size min ∧
      (t.allocate etagere size).2 =
        { t with allocator := a', liveAtlasKeys := t.liveAtlasKeys + 1 } := by
  rw [WgpuAtlasTexture.allocate] at h ⊢
  split at h
  · rename_i id min a' ha
    obtain rfl := Option.some.inj h
    rw [ha]
    exact ⟨min, a', rfl, rfl, rfl, rfl⟩
  · cases h

theorem allocate_none (h : (t.allocate etagere size).1 = none) :
    ∃ a', etagere.allocate t.allocator size = (none, a') ∧
      (t.allocate etagere size).2 = { t with allocator := a' } := by
  rw [WgpuAtlasTexture.allocate] at h ⊢
  split at h
  · cases h
  · rename_i a' ha
    rw [ha]
    exact ⟨a', rfl, rfl⟩

theorem refused_allocate (h : (t.allocate etagere size).1 = none) :
    Refused etagere size (some (some t)) (some (some (t.allocate etagere size).2)) := by
  obtain ⟨a', ha, ht⟩ := allocate_none h
  exact Or.inr ⟨t, a', rfl, by rw [ht], ha⟩

theorem allocateFrom_none : ∀ {textures : List (Option (WgpuAtlasTexture α))},
    (allocateFrom etagere size textures).1 = none →
    ∀ i : Nat, Refused etagere size textures[i]? (allocateFrom etagere size textures).2[i]? := by
  intro textures
  induction textures with
  | nil => exact fun _ i => Or.inl rfl
  | cons v rest ih =>
    intro h i
    cases hrest : allocateFrom etagere size rest with
    | mk found rest' =>
      rw [hrest] at ih
      simp only [allocateFrom, hrest] at h ⊢
      cases found with
      | some tile => cases h
      | none =>
        cases v with
        | none =>
          cases i with
          | zero => exact Or.inl rfl
          | succ i => exact ih rfl i
        | some t =>
          cases i with
          | zero => exact refused_allocate h
          | succ i => exact ih rfl i

theorem allocateFrom_some :
    ∀ {textures : List (Option (WgpuAtlasTexture α))},
    (allocateFrom etagere size textures).1 = some tile →
    ∃ (j : Nat) (t : WgpuAtlasTexture α), textures[j]? = some (some t) ∧
      (t.allocate etagere size).1 = some tile ∧
      (allocateFrom etagere size textures).2[j]? = some (some (t.allocate etagere size).2) ∧
      ∀ i, i ≠ j →
        Refused etagere size textures[i]? (allocateFrom etagere size textures).2[i]? := by
  intro textures
  induction textures with
  | nil => exact fun h => absurd h nofun
  | cons v rest ih =>
    intro h
    have hnone : (allocateFrom etagere size rest).1 = none → ∀ i : Nat,
        Refused etagere size rest[i]? (allocateFrom etagere size rest).2[i]? := allocateFrom_none
    cases hrest : allocateFrom etagere size rest with
    | mk found rest' =>
      rw [hrest] at ih hnone
      simp only [allocateFrom, hrest] at h ⊢
      cases found with
      | some tile' =>
        obtain ⟨j, t, hj, ht, hj', hothers⟩ := ih h
        refine ⟨j + 1, t, hj, ht, hj', fun i hi => ?_⟩
        cases i with
        | zero => exact Or.inl rfl
        | succ i => exact hothers i fun heq => hi (congrArg _ heq)
      | none =>
        cases v with
        | none => cases h
        | some t =>
          refine ⟨0, t, rfl, h, rfl, fun i hi => ?_⟩
          cases i with
          | zero => exact absurd rfl hi
          | succ i => exact hnone rfl i

/-- Only refusals have happened. -/
structure Refusals (etagere : Etagere α) (size : Size Int) (s s' : WgpuAtlas α) : Prop where
  slots : ∀ id, Refused etagere size (s.slot id) (s'.slot id)
  free : ∀ kind, (s'.storage kind).freeList = (s.storage kind).freeList
  rest : s' = { s with storage := s'.storage }

/-- The texture of a slot afterwards is the one before, with another state of its
allocator. -/
theorem Refused.texture {t' : WgpuAtlasTexture α} (h : Refused etagere size v v') (ht' : v' = some (some t')) :
    ∃ t, v = some (some t) ∧ t' = { t with allocator := t'.allocator } ∧
      ∀ held, etagere.Serves tileRegion t.allocator held →
        etagere.Serves tileRegion t'.allocator held := by
  rcases h with rfl | ⟨t, a', hv, hv', ha⟩
  · exact ⟨t', ht', rfl, fun _ hserves => hserves⟩
  · rw [hv'] at ht'
    cases ht'
    exact ⟨t, hv, rfl, fun _ hserves => hserves.refuse ha⟩

theorem Refused.of_texture
    (h : Refused etagere size v v') (ht : v = some (some t)) :
    ∃ a', v' = some (some { t with allocator := a' }) := by
  rcases h with rfl | ⟨t', a', hv, hv', -⟩
  · exact ⟨t.allocator, ht⟩
  · rw [hv] at ht
    cases ht
    exact ⟨a', hv'⟩

theorem Refused.empty (h : Refused etagere size v v') (hv : v = some none) : v' = some none := by
  rcases h with rfl | ⟨t, a', ht, -⟩
  · exact hv
  · rw [hv] at ht
    cases ht

theorem Sound.refusals (h : s.Sound etagere) (hr : Refusals etagere size s s') :
    s'.Sound etagere := by
  have hcontents : ∀ t, s'.contents t = s.contents t := by
    intro t
    rw [hr.rest]
    rfl
  have htiles : s'.tilesByKey = s.tilesByKey := by rw [hr.rest]
  have htilesIn : ∀ id, s'.tilesIn id = s.tilesIn id := fun id => by rw [tilesIn, htiles]; rfl
  have hback : ∀ id t', s'.get id = some t' → ∃ t, s.get id = some t ∧
      t' = { t with allocator := t'.allocator } ∧
      ∀ held, etagere.Serves tileRegion t.allocator held →
        etagere.Serves tileRegion t'.allocator held := by
    intro id t' ht'
    obtain ⟨t, ht, heq, hserves⟩ := (hr.slots id).texture (get_eq_some.mp ht')
    exact ⟨t, get_eq_some.mpr ht, heq, hserves⟩
  refine ⟨fun id t' ht' => ?_, fun id id' t₁ t₂ h₁ h₂ heq => ?_, ?_, fun kind => ⟨?_, ?_⟩, ?_, ?_⟩
  · obtain ⟨t, ht, heq, hserves⟩ := hback id t' ht'
    obtain ⟨hid, hgen, hcon, ⟨held, hs, hperm⟩, hcount⟩ := h.textures id t ht
    have hcon' : s'.contents t' = s.contents t := by
      rw [hcontents, heq]
      rfl
    refine ⟨?_, ?_, ?_, ⟨held, hserves held hs, ?_⟩, ?_⟩
    · rw [heq]
      exact hid
    · rw [heq]
      exact hgen
    · rw [hcon', heq]
      exact hcon
    · rw [htilesIn]
      exact hperm
    · rw [htilesIn, heq]
      exact hcount
  · obtain ⟨u₁, hu₁, he₁, -⟩ := hback id t₁ h₁
    obtain ⟨u₂, hu₂, he₂, -⟩ := hback id' t₂ h₂
    rw [he₁, he₂] at heq
    exact h.handles id id' u₁ u₂ hu₁ hu₂ heq
  · rw [hr.rest]
    exact h.generation
  · rw [hr.free]
    exact (h.free kind).1
  · intro ix hix
    rw [hr.free] at hix
    exact (hr.slots _).empty ((h.free kind).2 ix hix)
  · rw [htiles]
    exact h.keys
  · intro key tile hmem
    rw [htiles] at hmem
    obtain ⟨t, texture, ht, hcon, hshows⟩ := h.live key tile hmem
    obtain ⟨a', ha'⟩ := (hr.slots tile.textureId).of_texture (get_eq_some.mp ht)
    refine ⟨_, texture, get_eq_some.mpr ha', ?_, ?_⟩
    · rw [hcontents]
      exact hcon
    · have huploaded : s'.uploaded = s.uploaded := by rw [hr.rest]
      rw [huploaded]
      exact hshows

/-! ### A new texture -/

theorem format_foldl_write (bytesPerPixel : Nat) (uploads : List PendingUpload) :
    ∀ texture : GpuTexture,
      (uploads.foldl (GpuTexture.write bytesPerPixel) texture).format = texture.format := by
  induction uploads with
  | nil => exact fun _ => rfl
  | cons upload uploads ih => exact fun texture => ih _

theorem Sound.tilesIn_eq_nil (h : s.Sound etagere) (hid : s.get id = none) : s.tilesIn id = [] := by
  rw [tilesIn, List.filter_eq_nil_iff]
  intro tile htile
  obtain ⟨⟨key, tile'⟩, hmem, rfl⟩ := List.mem_map.mp htile
  obtain ⟨t, -, ht, -⟩ := h.live key tile' hmem
  rw [decide_eq_true_iff]
  intro heq
  have heq : tile'.textureId = id := heq
  rw [heq, hid] at ht
  cases ht

theorem takeSlot_spec (h : s.Sound etagere) (kind : AtlasTextureKind) :
    (takeSlot (s.storage kind)).2.textures[(takeSlot (s.storage kind)).1]? = some none ∧
    (∀ i, i ≠ (takeSlot (s.storage kind)).1 →
      (takeSlot (s.storage kind)).2.textures[i]? = (s.storage kind).textures[i]?) ∧
    (takeSlot (s.storage kind)).2.freeList.Nodup ∧
    (∀ ix ∈ (takeSlot (s.storage kind)).2.freeList,
      ix ∈ (s.storage kind).freeList ∧ ix ≠ (takeSlot (s.storage kind)).1) ∧
    s.get ⟨(takeSlot (s.storage kind)).1, kind⟩ = none := by
  obtain ⟨hnodup, hfree⟩ := h.free kind
  cases hf : (s.storage kind).freeList with
  | nil =>
    have htake : takeSlot (s.storage kind) = ((s.storage kind).textures.length,
        ⟨(s.storage kind).textures ++ [none], []⟩) := by
      simp only [takeSlot, hf]
    rw [htake]
    refine ⟨by simp, fun i hi => ?_, List.nodup_nil, fun ix hix => ?_, ?_⟩
    · show ((s.storage kind).textures ++ [none])[i]? = (s.storage kind).textures[i]?
      rcases Nat.lt_or_gt_of_ne hi with hlt | hgt
      · exact List.getElem?_append_left hlt
      · rw [List.getElem?_eq_none (by simpa using hgt), List.getElem?_eq_none (by omega)]
    · exact absurd hix List.not_mem_nil
    · rw [get_eq_slot, slot, List.getElem?_eq_none (by simp)]
      rfl
  | cons ix rest =>
    have htake : takeSlot (s.storage kind) = (ix, ⟨(s.storage kind).textures, rest⟩) := by
      simp only [takeSlot, hf]
    rw [hf] at hnodup hfree
    have hslot : s.slot ⟨ix, kind⟩ = some none := hfree ix List.mem_cons_self
    rw [htake]
    refine ⟨hslot, fun i _ => rfl, (List.nodup_cons.mp hnodup).2, fun jx hjx => ?_, ?_⟩
    · refine ⟨List.mem_cons_of_mem _ hjx, ?_⟩
      rintro rfl
      exact (List.nodup_cons.mp hnodup).1 hjx
    · rw [get_eq_slot, hslot]
      rfl

/-- **A new texture** takes an empty slot, and no key has a tile in it. -/
theorem Sound.put (h : s.Sound etagere) (hempty : s.get id = none) (hput : s'.get id = some t)
    (hothers : ∀ id', id' ≠ id → s'.get id' = s.get id')
    (ht : t = ⟨id, s.nextTextureGeneration, t.allocator, s.device.length, t.format, 0⟩)
    (hnew : etagere.Serves tileRegion t.allocator [])
    {textureSize : Size Int} (hdevice : s'.device = s.device ++ [GpuTexture.zeroed textureSize t.format])
    (hgeneration : s'.nextTextureGeneration = (s.nextTextureGeneration + 1) % 2 ^ 64)
    (htiles : s'.tilesByKey = s.tilesByKey) (hpending : s'.pendingUploads = s.pendingUploads)
    (huploaded : s'.uploaded = s.uploaded) (hfree : ∀ kind, (s'.storage kind).freeList.Nodup ∧
    ∀ ix ∈ (s'.storage kind).freeList, s'.slot ⟨ix, kind⟩ = some none) : s'.Sound etagere := by
  have htilesIn : ∀ id, s'.tilesIn id = s.tilesIn id := fun id => by rw [tilesIn, htiles]; rfl
  have hold : ∀ u texture, s.contents u = some texture → s'.contents u = some texture := by
    intro u texture hu
    obtain ⟨gpu, hgpu, rfl⟩ := Option.map_eq_some_iff.mp hu
    rw [contents, hdevice, hpending,
      List.getElem?_append_left (List.getElem?_eq_some_iff.mp hgpu).1, hgpu]
    rfl
  have hlt : ∀ id u, s.get id = some u → u.texture < s.device.length := by
    intro id u hu
    obtain ⟨texture, hcon, -⟩ := (h.textures id u hu).contents
    obtain ⟨gpu, hgpu, -⟩ := Option.map_eq_some_iff.mp hcon
    exact (List.getElem?_eq_some_iff.mp hgpu).1
  have htexture : t.texture = s.device.length := by rw [ht]
  refine ⟨fun id' u hu => ?_, fun id₁ id₂ u₁ u₂ h₁ h₂ heq => ?_, ?_, hfree, ?_, ?_⟩
  · by_cases hid : id' = id
    · subst hid
      rw [hput] at hu
      cases hu
      refine ⟨by rw [ht], ?_, ?_, ⟨[], hnew, ?_⟩, ?_⟩
      · rw [htexture, ← h.generation, ht]
      · rw [contents, hdevice, htexture, List.getElem?_concat_length]
        exact ⟨_, rfl, format_foldl_write _ _ _⟩
      · rw [htilesIn, h.tilesIn_eq_nil hempty]
        exact List.Perm.nil
      · rw [htilesIn, h.tilesIn_eq_nil hempty, ht]
        rfl
    · rw [hothers id' hid] at hu
      obtain ⟨hid', hgen, ⟨texture, hcon, hformat⟩, hserved, hcount⟩ := h.textures id' u hu
      refine ⟨hid', hgen, ⟨texture, hold u texture hcon, hformat⟩, ?_, ?_⟩
      · rw [htilesIn]
        exact hserved
      · rw [htilesIn]
        exact hcount
  · -- the handle of the new texture is new
    by_cases hid₁ : id₁ = id <;> by_cases hid₂ : id₂ = id
    · rw [hid₁, hid₂]
    · rw [hid₁, hput] at h₁
      rw [hothers id₂ hid₂] at h₂
      cases h₁
      have := hlt id₂ u₂ h₂
      omega
    · rw [hid₂, hput] at h₂
      rw [hothers id₁ hid₁] at h₁
      cases h₂
      have := hlt id₁ u₁ h₁
      omega
    · rw [hothers id₁ hid₁] at h₁
      rw [hothers id₂ hid₂] at h₂
      exact h.handles id₁ id₂ u₁ u₂ h₁ h₂ heq
  · rw [hgeneration, hdevice, h.generation, List.length_append, List.length_singleton]
    omega
  · rw [htiles]
    exact h.keys
  · intro key tile hmem
    rw [htiles] at hmem
    obtain ⟨u, texture, hu, hcon, hshows⟩ := h.live key tile hmem
    have hne : tile.textureId ≠ id := by
      intro heq
      rw [heq, hempty] at hu
      cases hu
    refine ⟨u, texture, ?_, hold u texture hcon, ?_⟩
    · rw [hothers _ hne]
      exact hu
    · rw [huploaded]
      exact hshows

/-- The new texture is in the slot that was taken; the other slots and the free lists are
otherwise as they were. -/
theorem pushTexture_slots (h : s.Sound etagere) (minSize : Size Int) (kind : AtlasTextureKind)
    {pushed : WgpuAtlasTexture α × WgpuAtlas α} (hpushed : pushed = s.pushTexture etagere minSize kind) :
    pushed.1.id = ⟨(takeSlot (s.storage kind)).1, kind⟩ ∧ s.get pushed.1.id = none ∧
    pushed.2.slot pushed.1.id = some (some pushed.1) ∧
    (∀ id, id ≠ pushed.1.id → pushed.2.slot id = s.slot id) ∧
    ∀ kind', (pushed.2.storage kind').freeList =
      if kind' = kind then (takeSlot (s.storage kind)).2.freeList else (s.storage kind').freeList := by
  obtain ⟨hslot, hothers, -, -, hempty⟩ := takeSlot_spec h kind
  obtain ⟨taken, htaken⟩ : ∃ taken : WgpuAtlas α, taken = { s with
    storage := Function.update s.storage kind (takeSlot (s.storage kind)).2
    nextTextureGeneration := (s.nextTextureGeneration + 1) % 2 ^ 64
    device := pushed.2.device } := ⟨_, rfl⟩
  have hid : pushed.1.id = ⟨(takeSlot (s.storage kind)).1, kind⟩ := by
    rw [hpushed]
    rfl
  have hset : pushed.2 = taken.setTexture pushed.1.id (some pushed.1) := by
    rw [htaken, hpushed]
    rfl
  have htakenSlot : taken.slot pushed.1.id = some none := by
    rw [hid, htaken, slot]
    simp only [Function.update_self]
    exact hslot
  have htakenOthers : ∀ id, id ≠ pushed.1.id → taken.slot id = s.slot id := by
    intro id hne
    rw [htaken, slot]
    by_cases hk : id.kind = kind
    · subst hk
      simp only [Function.update_self]
      refine hothers id.index fun hix => hne ?_
      rw [hid, ← hix]
    · simp only [Function.update_of_ne hk]
      rfl
  refine ⟨hid, ?_, ?_, fun id hne => ?_, fun kind' => ?_⟩
  · rw [hid]
    exact hempty
  · rw [hset]
    exact get_eq_some.mp (get_setTexture_self htakenSlot)
  · rw [hset, slot_setTexture, if_neg hne, htakenOthers id hne]
  · rw [hset, hid, htaken]
    by_cases hk : kind' = kind
    · subst hk
      simp [setTexture, setTextures]
    · simp [setTexture, setTextures, hk]

theorem Sound.pushTexture (h : s.Sound etagere) (minSize : Size Int) (kind : AtlasTextureKind) :
    (s.pushTexture etagere minSize kind).2.Sound etagere ∧
    (s.pushTexture etagere minSize kind).2.get (s.pushTexture etagere minSize kind).1.id =
      some (s.pushTexture etagere minSize kind).1 ∧
    (s.pushTexture etagere minSize kind).2.tilesByKey = s.tilesByKey := by
  obtain ⟨-, -, hnodup, hfree, -⟩ := takeSlot_spec h kind
  obtain ⟨pushed, hpushed⟩ : ∃ pushed, pushed = s.pushTexture etagere minSize kind := ⟨_, rfl⟩
  obtain ⟨hid, hempty, hself, hothers, hfreeList⟩ := pushTexture_slots h minSize kind hpushed
  rw [← hpushed]
  have hput : pushed.2.get pushed.1.id = some pushed.1 := get_eq_some.mpr hself
  refine ⟨h.put hempty hput (fun id hne => ?_) (by rw [hpushed]; rfl) ?_ (by rw [hpushed]; rfl)
    (by rw [hpushed]; rfl) (by rw [hpushed]; rfl) (by rw [hpushed]; rfl) (by rw [hpushed]; rfl)
    (fun kind' => ?_), hput, by rw [hpushed]; rfl⟩
  · rw [get_eq_slot, hothers id hne]
    rfl
  · rw [hpushed]
    exact .new _
  · rw [hfreeList]
    by_cases hk : kind' = kind
    · subst hk
      rw [if_pos rfl]
      refine ⟨hnodup, fun ix hix => ?_⟩
      obtain ⟨hmem, hne⟩ := hfree ix hix
      rw [hothers _ (by rw [hid]; simpa using hne)]
      exact (h.free kind').2 ix hmem
    · rw [if_neg hk]
      refine ⟨(h.free kind').1, fun ix hix => ?_⟩
      rw [hothers _ (by rw [hid]; simp [hk])]
      exact (h.free kind').2 ix hix

/-! ### Allocation -/

theorem setTexture_setTexture (s : WgpuAtlas α) (id : AtlasTextureId)
    (u v : Option (WgpuAtlasTexture α)) :
    (s.setTexture id u).setTexture id v = s.setTexture id v := by
  simp [setTexture, setTextures]

theorem setTexture_of_slot {v : Option (WgpuAtlasTexture α)}
    (h : s.slot id = some v) : s.setTexture id v = s := by
  obtain ⟨hlt, hv⟩ := List.getElem?_eq_some_iff.mp h
  rw [setTexture, setTextures, ← hv, List.set_getElem_self]
  simp

theorem refusals_setTexture (ht : s.get id = some t) (hrefused : (t.allocate etagere size).1 = none) :
    Refusals etagere size s (s.setTexture id (some (t.allocate etagere size).2)) where
  slots id' := by
    have hslot := get_eq_some.mp ht
    rw [slot_setTexture]
    by_cases hid : id' = id
    · rw [if_pos hid, hid, hslot]
      exact refused_allocate hrefused
    · rw [if_neg hid]
      exact Or.inl rfl
  free kind := by
    by_cases hk : kind = id.kind
    · subst hk
      simp [setTexture, setTextures]
    · simp [setTexture, setTextures, hk]
  rest := rfl

/-- The textures of one kind have refused, but for slot `id`, where `t` is. -/
theorem refusals_setTextures (id : AtlasTextureId)
    {textures : List (Option (WgpuAtlasTexture α))} (ht : s.slot id = some (some t))
    (hothers : ∀ i, i ≠ id.index → Refused etagere size (s.storage id.kind).textures[i]? textures[i]?)
    (hid : (textures[id.index]?).isSome) :
    Refusals etagere size s ((s.setTextures id.kind textures).setTexture id (some t)) where
  slots id' := by
    rw [slot_setTexture]
    by_cases hid' : id' = id
    · rw [if_pos hid', hid', slot_setTextures, if_pos rfl, ht]
      obtain ⟨old, hold⟩ := Option.isSome_iff_exists.mp hid
      rw [hold]
      exact Or.inl rfl
    · rw [if_neg hid', slot_setTextures]
      by_cases hk : id'.kind = id.kind
      · rw [if_pos hk, slot, hk]
        refine hothers id'.index fun hix => hid' ?_
        cases id
        cases id'
        simp_all
      · rw [if_neg hk]
        exact Or.inl rfl
  free kind := by
    by_cases hk : kind = id.kind
    · subst hk
      simp [setTexture, setTextures]
    · simp [setTexture, setTextures, hk]
  rest := rfl

theorem refusals_all {kind : AtlasTextureKind} {textures : List (Option (WgpuAtlasTexture α))}
    (hall : ∀ i : Nat, Refused etagere size (s.storage kind).textures[i]? textures[i]?) :
    Refusals etagere size s (s.setTextures kind textures) where
  slots id := by
    rw [slot_setTextures]
    by_cases hk : id.kind = kind
    · rw [if_pos hk, slot, hk]
      exact hall id.index
    · rw [if_neg hk]
      exact Or.inl rfl
  free kind' := by
    by_cases hk : kind' = kind
    · subst hk
      simp [setTextures]
    · simp [setTextures, hk]
  rest := rfl

theorem allocate_of_room {kind : AtlasTextureKind}
    (h : (allocateFrom etagere size (s.storage kind).textures).1 = some tile) :
    s.allocate etagere size kind =
      (some tile, s.setTextures kind (allocateFrom etagere size (s.storage kind).textures).2) := by
  rw [allocate]
  simp only [h]

/-- Where no texture has room, a new one is asked. -/
theorem allocate_of_full {kind : AtlasTextureKind} {pushed : WgpuAtlasTexture α × WgpuAtlas α}
    (h : (allocateFrom etagere size (s.storage kind).textures).1 = none)
    (hpushed : pushed = (s.setTextures kind (allocateFrom etagere size
      (s.storage kind).textures).2).pushTexture etagere size kind) :
    s.allocate etagere size kind = ((pushed.1.allocate etagere size).1,
      pushed.2.setTexture pushed.1.id (some (pushed.1.allocate etagere size).2)) := by
  rw [allocate, hpushed]
  simp only [h]

/-- One texture `t` has the last word, an old one or a new one; all that were asked before it
have refused. -/
theorem allocate_eq (h : s.Sound etagere) (size : Size Int) (kind : AtlasTextureKind) :
    ∃ (s₁ : WgpuAtlas α) (id : AtlasTextureId) (t : WgpuAtlasTexture α),
      (Refusals etagere size s s₁ ∨ ∃ s₀, Refusals etagere size s s₀ ∧
        s₁ = (s₀.pushTexture etagere size kind).2) ∧
      s₁.get id = some t ∧
      s.allocate etagere size kind =
        ((t.allocate etagere size).1, s₁.setTexture id (some (t.allocate etagere size).2)) := by
  cases hfound : (allocateFrom etagere size (s.storage kind).textures).1 with
  | some tile =>
    obtain ⟨j, t, hj, hgives, hj', hothers⟩ := allocateFrom_some hfound
    have hr := refusals_setTextures ⟨j, kind⟩ hj hothers (by rw [hj']; rfl)
    have hslot : (s.setTextures kind (allocateFrom etagere size
        (s.storage kind).textures).2).slot ⟨j, kind⟩ =
          some (some (t.allocate etagere size).2) := by
      rw [slot_setTextures, if_pos rfl]
      exact hj'
    refine ⟨_, ⟨j, kind⟩, t, Or.inl hr, get_setTexture_self hslot, ?_⟩
    rw [setTexture_setTexture, setTexture_of_slot hslot, hgives]
    exact allocate_of_room hfound
  | none =>
    have hr := refusals_all (allocateFrom_none hfound)
    exact ⟨_, _, _, Or.inr ⟨_, hr, rfl⟩, ((h.refusals hr).pushTexture size kind).2.1,
      allocate_of_full hfound rfl⟩

/-- **Allocation.**  It fails, or one texture `t` of a sound atlas gives the
tile. -/
theorem Sound.allocate (h : s.Sound etagere) (size : Size Int) (kind : AtlasTextureKind) :
    ((s.allocate etagere size kind).1 = none ∧ (s.allocate etagere size kind).2.Sound etagere ∧
      (s.allocate etagere size kind).2.tilesByKey = s.tilesByKey) ∨
    ∃ (tile : PlacedTile) (s₁ : WgpuAtlas α) (id : AtlasTextureId) (t : WgpuAtlasTexture α),
      s₁.Sound etagere ∧ s₁.tilesByKey = s.tilesByKey ∧ s₁.get id = some t ∧
      (t.allocate etagere size).1 = some tile ∧
      s.allocate etagere size kind =
        (some tile, s₁.setTexture id (some (t.allocate etagere size).2)) := by
  obtain ⟨s₁, id, t, hs₁, ht, heq⟩ := allocate_eq h size kind
  have hsound : s₁.Sound etagere ∧ s₁.tilesByKey = s.tilesByKey := by
    rcases hs₁ with hr | ⟨s₀, hr, rfl⟩
    · exact ⟨h.refusals hr, by rw [hr.rest]⟩
    · have hpush := (h.refusals hr).pushTexture size kind
      exact ⟨hpush.1, hpush.2.2.trans (by rw [hr.rest])⟩
  cases hgives : (t.allocate etagere size).1 with
  | none =>
    rw [heq, hgives]
    exact Or.inl ⟨rfl, hsound.1.refusals (refusals_setTexture ht hgives), hsound.2⟩
  | some tile => exact Or.inr ⟨tile, s₁, id, t, hsound.1, hsound.2, ht, hgives, by rw [heq, hgives]⟩

end WgpuAtlas

end FcGpui
