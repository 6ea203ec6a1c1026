import FcGpui.Renderer.StaleSprites

/-!
# The bookkeeping of the atlas

Four things tell of the tiles of the atlas: the map of tiles by key, the slots of
textures, the free lists and the queue of uploads.  `Sound` has what the texels of the
tiles rest on.  Here is the rest: a slot that is empty is on the free list (`Filed`), a
texture has the size of its allocator, and an upload stays with the texture it was queued
for.

For the last the uploads are paired with the generation of the texture they were queued
for, which is not in the source (`QueuedAtlas`).

**Main result.**  `bookkeeping_exact`: in all states of every run the four agree (`Exact`).
-/

namespace FcGpui

variable {α : Type}

/-- All of `b` is within a texture of the size. -/
def Bounds.Inside (b : Bounds Int) (size : Size Int) : Prop :=
  0 ≤ b.origin.x ∧ b.origin.x + b.size.width ≤ size.width ∧
    0 ≤ b.origin.y ∧ b.origin.y + b.size.height ≤ size.height

theorem Bounds.Apart.symm {a b : Bounds Int} (h : a.Apart b) : b.Apart a := by
  intro x y hb
  cases ha : a.hasTexel x y with
  | false => rfl
  | true =>
    rw [h x y ha] at hb
    cases hb

namespace WgpuAtlas

variable {etagere : Etagere α} {capacity : α → Size Int} {s s' t : WgpuAtlas α} {size : Size Int}

/-- What is not in `Sound`: empty slots are on the free list, and textures have the size
of their allocators. -/
structure Filed (capacity : α → Size Int) (s : WgpuAtlas α) : Prop where
  free : ∀ ix kind, s.slot ⟨ix, kind⟩ = some none → ix ∈ (s.storage kind).freeList
  sized : ∀ id t, s.get id = some t →
    ∃ texture, s.device[t.texture]? = some texture ∧ texture.size = capacity t.allocator

/-- No texture is dropped, and none replaced by another one. -/
structure Extends (capacity : α → Size Int) (s s' : WgpuAtlas α) : Prop where
  textures : ∀ id t, s.get id = some t → ∃ t', s'.get id = some t' ∧ t'.generation = t.generation
  pending : s'.pendingUploads = s.pendingUploads
  filed : s.Filed capacity → s'.Filed capacity

theorem Extends.refl (s : WgpuAtlas α) : s.Extends capacity s :=
  ⟨fun _ t ht => ⟨t, ht, rfl⟩, rfl, id⟩

theorem Extends.trans (h : s.Extends capacity t) (g : t.Extends capacity s') :
    s.Extends capacity s' := by
  refine ⟨fun id u hu => ?_, g.pending.trans h.pending, g.filed ∘ h.filed⟩
  obtain ⟨v, hv, hgen⟩ := h.textures id u hu
  obtain ⟨w, hw, hgen'⟩ := g.textures id v hv
  exact ⟨w, hw, hgen'.trans hgen⟩

variable {inside : Bounds Int → Size Int → Prop}

/-- **A texture goes on** in its slot, with another state of its allocator. -/
theorem extends_setTexture {id : AtlasTextureId} {u u' : WgpuAtlasTexture α} (hu : s.get id = some u)
    (htexture : u'.texture = u.texture) (hgeneration : u'.generation = u.generation)
    (hcapacity : capacity u'.allocator = capacity u.allocator) :
    s.Extends capacity (s.setTexture id (some u')) := by
  have hslot := get_eq_some.mp hu
  refine ⟨fun id' v hv => ?_, rfl, fun hfiled => ⟨fun ix kind hempty => ?_, fun id' v hv => ?_⟩⟩
  · by_cases hid : id' = id
    · rw [hid, hu] at hv
      cases hv
      rw [hid]
      exact ⟨u', get_setTexture_self hslot, hgeneration⟩
    · exact ⟨v, (get_setTexture_of_ne s hid _).trans hv, rfl⟩
  · rw [slot_setTexture] at hempty
    split at hempty
    · rw [hslot] at hempty
      cases hempty
    · have hfree := hfiled.free ix kind hempty
      by_cases hk : kind = id.kind
      · subst hk
        simpa [setTexture, setTextures] using hfree
      · simpa [setTexture, setTextures, hk] using hfree
  · by_cases hid : id' = id
    · rw [hid, get_setTexture_self hslot] at hv
      cases hv
      rw [htexture, hcapacity]
      exact hfiled.sized id u hu
    · rw [get_setTexture_of_ne s hid] at hv
      exact hfiled.sized id' v hv

theorem extends_refusals (hbounded : etagere.Bounded tileRegion capacity inside)
    (hr : Refusals etagere size s s') : s.Extends capacity s' := by
  have hback : ∀ id t', s'.get id = some t' → ∃ t, s.get id = some t ∧ t'.texture = t.texture ∧
      capacity t'.allocator = capacity t.allocator := by
    intro id t' ht'
    rcases hr.slots id with hsame | ⟨t, a', ht, hnew, ha⟩
    · rw [get_eq_slot, hsame] at ht'
      exact ⟨t', ht', rfl, rfl⟩
    · rw [get_eq_some, hnew] at ht'
      cases ht'
      exact ⟨t, get_eq_some.mpr ht, rfl, hbounded.capacity_of_allocate ha⟩
  refine ⟨fun id t ht => ?_, by rw [hr.rest], fun hfiled => ⟨fun ix kind hempty => ?_, fun id t' ht' => ?_⟩⟩
  · obtain ⟨a', ha'⟩ := (hr.slots id).of_texture (get_eq_some.mp ht)
    exact ⟨_, get_eq_some.mpr ha', rfl⟩
  · rw [hr.free]
    apply hfiled.free
    rcases hr.slots ⟨ix, kind⟩ with hsame | ⟨t, a', -, hnew, -⟩
    · rw [← hsame]
      exact hempty
    · rw [hnew] at hempty
      cases hempty
  · obtain ⟨t, ht, htexture, hcapacity⟩ := hback id t' ht'
    rw [htexture, hcapacity, hr.rest]
    exact hfiled.sized id t ht

theorem mem_freeList_takeSlot {list : AtlasTextureList α} {ix : Nat} (h : ix ∈ list.freeList)
    (hne : ix ≠ (takeSlot list).1) : ix ∈ (takeSlot list).2.freeList := by
  cases hf : list.freeList with
  | nil =>
    rw [hf] at h
    exact absurd h List.not_mem_nil
  | cons jx rest =>
    simp only [takeSlot, hf] at hne ⊢
    rw [hf] at h
    exact (List.mem_cons.mp h).resolve_left hne

theorem extends_pushTexture (h : s.Sound etagere)
    (hbounded : etagere.Bounded tileRegion capacity inside) (minSize : Size Int)
    (kind : AtlasTextureKind) : s.Extends capacity (s.pushTexture etagere minSize kind).2 := by
  obtain ⟨pushed, hpushed⟩ : ∃ pushed, pushed = s.pushTexture etagere minSize kind := ⟨_, rfl⟩
  obtain ⟨hid, hempty, hself, hothers, hfreeList⟩ := pushTexture_slots h minSize kind hpushed
  have hget : ∀ id, id ≠ pushed.1.id → pushed.2.get id = s.get id := by
    intro id hne
    rw [get_eq_slot, hothers id hne]
    rfl
  rw [← hpushed]
  refine ⟨fun id t ht => ⟨t, ?_, rfl⟩, by rw [hpushed]; rfl, fun hfiled => ⟨fun ix kind' hix => ?_,
    fun id t ht => ?_⟩⟩
  · have hne : id ≠ pushed.1.id := by
      rintro rfl
      rw [hempty] at ht
      cases ht
    exact (hget id hne).trans ht
  · have hne : (⟨ix, kind'⟩ : AtlasTextureId) ≠ pushed.1.id := by
      intro heq
      rw [heq, hself] at hix
      cases hix
    rw [hothers _ hne] at hix
    have hfree := hfiled.free ix kind' hix
    rw [hfreeList]
    by_cases hk : kind' = kind
    · subst hk
      rw [if_pos rfl]
      refine mem_freeList_takeSlot hfree fun heq => hne ?_
      rw [hid, heq]
    · rw [if_neg hk]
      exact hfree
  · have hdevice : pushed.2.device = s.device ++
        [GpuTexture.zeroed (capacity pushed.1.allocator) pushed.1.format] := by
      have hcapacity : capacity pushed.1.allocator =
          (minSize.max s.atlasInitialSize).min ⟨s.maxTextureSize, s.maxTextureSize⟩ := by
        rw [hpushed]
        exact hbounded.new _
      rw [hcapacity, hpushed]
      rfl
    rw [hdevice]
    by_cases hid' : id = pushed.1.id
    · rw [hid', get_eq_some, hself] at ht
      cases ht
      have htexture : pushed.1.texture = s.device.length := by
        rw [hpushed]
        rfl
      rw [htexture]
      exact ⟨_, List.getElem?_concat_length, rfl⟩
    · rw [hget id hid'] at ht
      obtain ⟨texture, htexture, hsize⟩ := hfiled.sized id t ht
      refine ⟨texture, ?_, hsize⟩
      rw [List.getElem?_append_left (List.getElem?_eq_some_iff.mp htexture).1, htexture]

theorem extends_allocate (h : s.Sound etagere)
    (hbounded : etagere.Bounded tileRegion capacity inside) (size : Size Int)
    (kind : AtlasTextureKind) : s.Extends capacity (s.allocate etagere size kind).2 := by
  obtain ⟨s₁, id, t, hs₁, ht, heq⟩ := allocate_eq h size kind
  have hfirst : s.Extends capacity s₁ := by
    rcases hs₁ with hr | ⟨s₀, hr, rfl⟩
    · exact extends_refusals hbounded hr
    · exact (extends_refusals hbounded hr).trans
        (extends_pushTexture (h.refusals hr) hbounded size kind)
  have hallocate : (t.allocate etagere size).2.texture = t.texture ∧
      (t.allocate etagere size).2.generation = t.generation ∧
      capacity (t.allocate etagere size).2.allocator = capacity t.allocator := by
    cases hgives : (t.allocate etagere size).1 with
    | none =>
      obtain ⟨a', ha, ht'⟩ := allocate_none hgives
      rw [ht']
      exact ⟨rfl, rfl, hbounded.capacity_of_allocate ha⟩
    | some tile =>
      obtain ⟨min, a', ha, -, -, ht'⟩ := allocate_some hgives
      rw [ht']
      exact ⟨rfl, rfl, hbounded.capacity_of_allocate ha⟩
  rw [heq]
  exact hfirst.trans (extends_setTexture ht hallocate.1 hallocate.2.1 hallocate.2.2)

end WgpuAtlas

/-! ### The queue of uploads -/

/-- The atlas, with the generation of the texture that each pending upload was queued
for. -/
structure QueuedAtlas (α : Type) where
  atlas : WgpuAtlas α
  queued : List (PendingUpload × Option Nat)

inductive AtlasAct
  | getOrInsertWith (key : AtlasKey) (build : Except String (Option (Size Int × List UInt8)))
  | remove (key : AtlasKey)
  | clear
  | handleDeviceLost (colorTextureFormat : TextureFormat)
  | beforeFrame

namespace QueuedAtlas

def new (maxTextureSize : Int) (atlasInitialSize : Size Int) (colorTextureFormat : TextureFormat) :
    QueuedAtlas α :=
  ⟨WgpuAtlas.new maxTextureSize atlasInitialSize colorTextureFormat, []⟩

/-- The generation that a texture has. -/
def generation (s : WgpuAtlas α) (id : AtlasTextureId) : Option Nat :=
  (s.get id).map WgpuAtlasTexture.generation

/-- What `s'` has queued since `s`. -/
def newlyQueued (s s' : WgpuAtlas α) : List (PendingUpload × Option Nat) :=
  (s'.pendingUploads.drop s.pendingUploads.length).map fun upload =>
    (upload, generation s' upload.id)

def step (etagere : Etagere α) (q : QueuedAtlas α) : AtlasAct → Option (QueuedAtlas α)
  | .getOrInsertWith key build =>
    let atlas := (q.atlas.getOrInsertWith etagere key build).2
    some ⟨atlas, q.queued ++ newlyQueued q.atlas atlas⟩
  | .remove key =>
    let atlas := q.atlas.remove etagere key
    some ⟨atlas, q.queued.filter fun entry => entry.1 ∈ atlas.pendingUploads⟩
  | .clear => some ⟨q.atlas.clear, []⟩
  | .handleDeviceLost format => some ⟨q.atlas.handleDeviceLost format, []⟩
  | .beforeFrame => some ⟨q.atlas.beforeFrame, []⟩

/-- The bookkeeping is exact. -/
structure Exact (q : QueuedAtlas α) : Prop where
  free : ∀ kind, (q.atlas.storage kind).freeList.Nodup ∧
    ∀ ix, ix ∈ (q.atlas.storage kind).freeList ↔ (q.atlas.storage kind).textures[ix]? = some none
  index : ∀ kind ix (t : WgpuAtlasTexture α), (q.atlas.storage kind).textures[ix]? = some (some t) →
    t.id = ⟨ix, kind⟩
  count : ∀ id (t : WgpuAtlasTexture α), q.atlas.get id = some t → t.liveAtlasKeys =
    (q.atlas.tilesByKey.filter fun entry => entry.2.textureId = id).length
  decrement : ∀ key tile, q.atlas.lookup key = some tile →
    ∃ t, q.atlas.get tile.textureId = some t ∧ 0 < t.liveAtlasKeys
  inside : ∀ key tile, (key, tile) ∈ q.atlas.tilesByKey → ∃ t texture,
    q.atlas.get tile.textureId = some t ∧ q.atlas.device[t.texture]? = some texture ∧
      tile.bounds.Inside texture.size
  apart : ∀ key tile key' tile', (key, tile) ∈ q.atlas.tilesByKey →
    (key', tile') ∈ q.atlas.tilesByKey → key ≠ key' → tile.textureId = tile'.textureId →
      tile.bounds.Apart tile'.bounds
  pending : q.queued.map Prod.fst = q.atlas.pendingUploads
  uploads : ∀ upload gen, (upload, gen) ∈ q.queued →
    ∃ t, q.atlas.get upload.id = some t ∧ gen = some t.generation

/-- What every action keeps. -/
structure Kept (etagere : Etagere α) (capacity : α → Size Int) (q : QueuedAtlas α) : Prop where
  sound : q.atlas.Sound etagere
  filed : q.atlas.Filed capacity
  pending : q.queued.map Prod.fst = q.atlas.pendingUploads
  uploads : ∀ upload gen, (upload, gen) ∈ q.queued →
    ∃ t, q.atlas.get upload.id = some t ∧ gen = some t.generation

variable {etagere : Etagere α} {capacity : α → Size Int} {q q' : QueuedAtlas α}

variable {s : WgpuAtlas α}

theorem kept_of_empty (hstorage : s.storage = fun _ => ⟨[], []⟩)
    (htiles : s.tilesByKey = []) (hpending : s.pendingUploads = [])
    (hgeneration : s.nextTextureGeneration = s.device.length % 2 ^ 64) : Kept etagere capacity ⟨s, []⟩ := by
  have hslot : ∀ id, s.slot id = none := fun id => by rw [WgpuAtlas.slot, hstorage]; rfl
  refine ⟨WgpuAtlas.sound_of_empty hstorage htiles hgeneration, ⟨fun ix kind h => ?_, fun id t ht => ?_⟩,
    hpending.symm, fun upload gen h => absurd h List.not_mem_nil⟩
  · rw [hslot] at h
    cases h
  · rw [WgpuAtlas.get_eq_some, hslot] at ht
    cases ht

theorem Kept.uploads_extends (h : q.Kept etagere capacity)
    (hextends : q.atlas.Extends capacity s) : ∀ upload gen, (upload, gen) ∈ q.queued →
      ∃ t, s.get upload.id = some t ∧ gen = some t.generation := by
  intro upload gen hmem
  obtain ⟨t, ht, rfl⟩ := h.uploads upload gen hmem
  obtain ⟨t', ht', hgen⟩ := hextends.textures _ t ht
  exact ⟨t', ht', by rw [hgen]⟩

theorem newlyQueued_eq_nil {s' : WgpuAtlas α} (h : s'.pendingUploads = s.pendingUploads) :
    newlyQueued s s' = [] := by
  rw [newlyQueued, h, List.drop_length]
  rfl

theorem Kept.of_extends (h : q.Kept etagere capacity) (hs : s.Sound etagere)
    (hextends : q.atlas.Extends capacity s) : Kept etagere capacity ⟨s, q.queued ++ newlyQueued q.atlas s⟩ := by
  rw [newlyQueued_eq_nil hextends.pending, List.append_nil]
  exact ⟨hs, hextends.filed h.filed, h.pending.trans hextends.pending.symm, h.uploads_extends hextends⟩

/-- An upload is queued for the texture `t`, where the new tile is. -/
theorem Kept.insertTile (h : q.Kept etagere capacity) {tile : PlacedTile}
    {bytes : List UInt8} {tiles : List (AtlasKey × PlacedTile)} {uploaded : AtlasKey → List UInt8}
    {t : WgpuAtlasTexture α} (hextends : q.atlas.Extends capacity s) (hs : WgpuAtlas.Sound etagere
    { s.uploadTexture tile.textureId tile.bounds bytes with tilesByKey := tiles, uploaded := uploaded })
    (ht : s.get tile.textureId = some t) : let inserted : WgpuAtlas α :=
      { s.uploadTexture tile.textureId tile.bounds bytes with tilesByKey := tiles, uploaded := uploaded }
    Kept etagere capacity ⟨inserted, q.queued ++ newlyQueued q.atlas inserted⟩ := by
  intro inserted
  obtain ⟨upload, hupload, hpending⟩ : ∃ upload : PendingUpload, upload.id = tile.textureId ∧
      inserted.pendingUploads = q.atlas.pendingUploads ++ [upload] :=
    ⟨_, rfl, congrArg (· ++ [_]) hextends.pending⟩
  have hnew : newlyQueued q.atlas inserted = [(upload, some t.generation)] := by
    have hgeneration : generation inserted upload.id = some t.generation := by
      rw [hupload]
      exact congrArg (Option.map WgpuAtlasTexture.generation) ht
    rw [newlyQueued, hpending, List.drop_left, List.map_singleton, hgeneration]
  have hfiled := hextends.filed h.filed
  refine ⟨hs, ⟨hfiled.free, hfiled.sized⟩, ?_, fun other gen hmem => ?_⟩
  · rw [hnew, List.map_append, h.pending, hpending]
    rfl
  · rw [hnew] at hmem
    rcases List.mem_append.mp hmem with hold | hnow
    · exact h.uploads_extends hextends other gen hold
    · cases List.mem_singleton.mp hnow
      exact ⟨t, hupload ▸ ht, rfl⟩

/-- **Looking a key up, or putting its tile in.** -/
theorem Kept.getOrInsertWith (h : q.Kept etagere capacity)
    (hapart : etagere.Apart tileRegion Bounds.Apart)
    (hbounded : etagere.Bounded tileRegion capacity Bounds.Inside) (key : AtlasKey)
    (build : Except String (Option (Size Int × List UInt8))) :
    Kept etagere capacity ⟨(q.atlas.getOrInsertWith etagere key build).2,
      q.queued ++ newlyQueued q.atlas (q.atlas.getOrInsertWith etagere key build).2⟩ := by
  have hsound := h.sound.getOrInsertWith hapart key build
  cases hlookup : q.atlas.lookup key with
  | some tile =>
    simp only [WgpuAtlas.getOrInsertWith, hlookup]
    exact h.of_extends h.sound (.refl _)
  | none =>
    cases build with
    | error error =>
      simp only [WgpuAtlas.getOrInsertWith, hlookup]
      exact h.of_extends h.sound (.refl _)
    | ok built =>
      cases built with
      | none =>
        simp only [WgpuAtlas.getOrInsertWith, hlookup]
        exact h.of_extends h.sound (.refl _)
      | some built =>
        obtain ⟨size, bytes⟩ := built
        have hextends := WgpuAtlas.extends_allocate h.sound hbounded size key.textureKind
        rcases h.sound.allocate size key.textureKind with ⟨hnone, hs, -⟩ |
          ⟨tile, s₁, id, t, hs, -, ht, hgives, heq⟩
        · cases hallocate : q.atlas.allocate etagere size key.textureKind with
          | mk given s₁ =>
            rw [hallocate] at hnone hs hextends
            cases hnone
            simp only [WgpuAtlas.getOrInsertWith, hlookup, hallocate]
            exact h.of_extends hs hextends
        · simp only [WgpuAtlas.getOrInsertWith, hlookup, heq] at hsound ⊢
          rw [heq] at hextends
          have hid : tile.textureId = id := by
            obtain ⟨min, a', -, htile, -, -⟩ := WgpuAtlas.allocate_some hgives
            rw [htile, (hs.textures id t ht).id_eq]
          have hget : (s₁.setTexture id (some (t.allocate etagere size).2)).get tile.textureId =
              some (t.allocate etagere size).2 := by
            rw [hid]
            exact WgpuAtlas.get_setTexture_self (WgpuAtlas.get_eq_some.mp ht)
          exact h.insertTile hextends hsound hget

theorem map_filter_queued {queued : List (PendingUpload × Option Nat)} {pending left : List PendingUpload}
    (hqueued : queued.map Prod.fst = pending) {keep : PendingUpload → Bool}
    (hleft : left = pending.filter keep) :
    (queued.filter fun entry => entry.1 ∈ left).map Prod.fst = left ∧
      ∀ entry ∈ queued.filter fun entry => entry.1 ∈ left, entry ∈ queued ∧ keep entry.1 = true := by
  have hmem : ∀ upload ∈ pending, (upload ∈ left ↔ keep upload = true) := by
    intro upload hupload
    rw [hleft, List.mem_filter]
    exact and_iff_right hupload
  refine ⟨?_, fun entry hentry => ?_⟩
  · have hfilter : queued.filter (fun entry => entry.1 ∈ left) =
        queued.filter fun entry => keep entry.1 := by
      refine List.filter_congr fun entry hentry => ?_
      rw [Bool.eq_iff_iff, decide_eq_true_iff]
      exact hmem entry.1 (hqueued ▸ List.mem_map_of_mem hentry)
    rw [hfilter, hleft, ← hqueued, List.filter_map]
    rfl
  · obtain ⟨hqueue, hin⟩ := List.mem_filter.mp hentry
    exact ⟨hqueue, (hmem entry.1 (hqueued ▸ List.mem_map_of_mem hqueue)).mp (of_decide_eq_true hin)⟩

theorem Kept.of_extends_filter (h : q.Kept etagere capacity) (hs : s.Sound etagere)
    (hextends : q.atlas.Extends capacity s) :
    Kept etagere capacity ⟨s, q.queued.filter fun entry => entry.1 ∈ s.pendingUploads⟩ := by
  have hleft : s.pendingUploads = q.atlas.pendingUploads.filter fun _ => true := by
    rw [List.filter_true]
    exact hextends.pending
  obtain ⟨hpending, hentries⟩ := map_filter_queued h.pending hleft
  exact ⟨hs, hextends.filed h.filed, hpending, fun upload gen hmem =>
    h.uploads_extends hextends upload gen (hentries _ hmem).1⟩

theorem Kept.drop (h : q.Kept etagere capacity) (hs : s.Sound etagere)
    {id : AtlasTextureId} {t : WgpuAtlasTexture α} (ht : q.atlas.get id = some t)
    (hself : s.slot id = some none) (hothers : ∀ id', id' ≠ id → s.slot id' = q.atlas.slot id')
    (hfree : id.index ∈ (s.storage id.kind).freeList)
    (hold : ∀ kind, ∀ ix ∈ (q.atlas.storage kind).freeList, ix ∈ (s.storage kind).freeList)
    (hdevice : s.device = q.atlas.device)
    (hpending : s.pendingUploads = q.atlas.pendingUploads.filter fun upload => upload.id ≠ id) :
    Kept etagere capacity ⟨s, q.queued.filter fun entry => entry.1 ∈ s.pendingUploads⟩ := by
  obtain ⟨hqueued, hentries⟩ := map_filter_queued h.pending hpending
  refine ⟨hs, ⟨fun ix kind hempty => ?_, fun id' u hu => ?_⟩, hqueued, fun upload gen hmem => ?_⟩
  · by_cases hid : (⟨ix, kind⟩ : AtlasTextureId) = id
    · rw [← hid] at hfree
      exact hfree
    · rw [hothers _ hid] at hempty
      exact hold kind ix (h.filed.free ix kind hempty)
  · have hne : id' ≠ id := by
      rintro rfl
      rw [WgpuAtlas.get_eq_some, hself] at hu
      cases hu
    rw [WgpuAtlas.get_eq_slot, hothers id' hne] at hu
    rw [hdevice]
    exact h.filed.sized id' u hu
  · obtain ⟨hentry, hkept⟩ := hentries _ hmem
    obtain ⟨u, hu, rfl⟩ := h.uploads upload gen hentry
    refine ⟨u, ?_, rfl⟩
    rw [WgpuAtlas.get_eq_slot, hothers _ (of_decide_eq_true hkept)]
    exact hu

/-- **Removing a key.** -/
theorem Kept.remove (h : q.Kept etagere capacity)
    (hbounded : etagere.Bounded tileRegion capacity Bounds.Inside) (key : AtlasKey) :
    Kept etagere capacity ⟨q.atlas.remove etagere key,
      q.queued.filter fun entry => entry.1 ∈ (q.atlas.remove etagere key).pendingUploads⟩ := by
  have hsound := h.sound.remove key
  cases hlookup : q.atlas.lookup key with
  | none =>
    simp only [WgpuAtlas.remove, hlookup]
    exact h.of_extends_filter h.sound (.refl _)
  | some tile =>
    obtain ⟨t, -, ht, -⟩ := h.sound.live key tile (WgpuAtlas.mem_of_lookup hlookup)
    have hid := (h.sound.textures _ t ht).id_eq
    have hslot := WgpuAtlas.get_eq_some.mp ht
    have hget : WgpuAtlas.get
        { q.atlas with tilesByKey := q.atlas.tilesByKey.filter fun entry => entry.1 ≠ key }
          tile.textureId = some t := ht
    have hidr : (WgpuAtlas.release etagere t tile.tileId).id = tile.textureId := hid
    simp only [WgpuAtlas.remove, hlookup, hget, hidr] at hsound ⊢
    split at hsound
    · rename_i hzero
      rw [if_pos hzero]
      refine h.drop hsound ht ?_ (fun id hne => ?_) ?_ (fun kind ix hix => ?_) rfl rfl
      · refine (WgpuAtlas.slot_pushFree (q.atlas.setTexture tile.textureId none) _ _ _).trans ?_
        rw [WgpuAtlas.slot_setTexture, if_pos rfl, hslot]
        rfl
      · refine (WgpuAtlas.slot_pushFree (q.atlas.setTexture tile.textureId none) _ _ _).trans ?_
        rw [WgpuAtlas.slot_setTexture, if_neg hne]
      · simp [WgpuAtlas.pushFree]
      · by_cases hk : kind = tile.textureId.kind
        · subst hk
          simp [WgpuAtlas.pushFree, WgpuAtlas.setTexture, WgpuAtlas.setTextures, hix]
        · simpa [WgpuAtlas.pushFree, WgpuAtlas.setTexture, WgpuAtlas.setTextures, hk] using hix
    · rename_i hzero
      rw [if_neg hzero]
      have hextends : q.atlas.Extends capacity
          (q.atlas.setTexture tile.textureId (some (WgpuAtlas.release etagere t tile.tileId))) :=
        WgpuAtlas.extends_setTexture ht rfl rfl (hbounded.deallocate _ _)
      exact h.of_extends_filter hsound ⟨hextends.textures, hextends.pending,
        fun hfiled => ⟨(hextends.filed hfiled).free, (hextends.filed hfiled).sized⟩⟩

theorem size_foldl_write (bytesPerPixel : Nat) (uploads : List PendingUpload) :
    ∀ texture : GpuTexture,
      (uploads.foldl (GpuTexture.write bytesPerPixel) texture).size = texture.size := by
  induction uploads with
  | nil => exact fun _ => rfl
  | cons upload uploads ih => exact fun texture => ih _

theorem Kept.beforeFrame (h : q.Kept etagere capacity) :
    Kept etagere capacity ⟨q.atlas.beforeFrame, []⟩ := by
  refine ⟨h.sound.flushUploads, ⟨h.filed.free, fun id t ht => ?_⟩, rfl,
    fun upload gen hmem => absurd hmem List.not_mem_nil⟩
  have ht : q.atlas.get id = some t := ht
  obtain ⟨texture, htexture, hsize⟩ := h.filed.sized id t ht
  show ∃ texture, q.atlas.flushUploads.device[t.texture]? = some texture ∧ _
  rw [(h.sound.contents_flush ht).1, WgpuAtlas.contents, htexture]
  exact ⟨_, rfl, (size_foldl_write _ _ texture).trans hsize⟩

theorem Kept.step (h : q.Kept etagere capacity) (hapart : etagere.Apart tileRegion Bounds.Apart)
    (hbounded : etagere.Bounded tileRegion capacity Bounds.Inside) {act : AtlasAct}
    (hs : q.step etagere act = some q') : q'.Kept etagere capacity := by
  cases act with
  | getOrInsertWith key build =>
    cases hs
    exact h.getOrInsertWith hapart hbounded key build
  | remove key =>
    cases hs
    exact h.remove hbounded key
  | clear =>
    cases hs
    exact kept_of_empty rfl rfl rfl h.sound.generation
  | handleDeviceLost format =>
    cases hs
    exact kept_of_empty rfl rfl rfl h.sound.generation
  | beforeFrame =>
    cases hs
    exact h.beforeFrame

theorem tilesIn_eq (s : WgpuAtlas α) (id : AtlasTextureId) :
    s.tilesIn id = (s.tilesByKey.filter fun entry => entry.2.textureId = id).map Prod.snd := by
  rw [WgpuAtlas.tilesIn, List.filter_map]
  rfl

theorem Kept.exact (h : q.Kept etagere capacity) (hapart : etagere.Apart tileRegion Bounds.Apart)
    (hbounded : etagere.Bounded tileRegion capacity Bounds.Inside) : q.Exact := by
  have hcount : ∀ id (t : WgpuAtlasTexture α), q.atlas.get id = some t → t.liveAtlasKeys =
      (q.atlas.tilesByKey.filter fun entry => entry.2.textureId = id).length := by
    intro id t ht
    rw [(h.sound.textures id t ht).count, tilesIn_eq, List.length_map]
  have hmem : ∀ key (tile : PlacedTile), (key, tile) ∈ q.atlas.tilesByKey → (key, tile) ∈
      q.atlas.tilesByKey.filter fun entry => entry.2.textureId = tile.textureId := by
    intro key tile htile
    exact List.mem_filter.mpr ⟨htile, decide_eq_true rfl⟩
  refine ⟨fun kind => ⟨(h.sound.free kind).1, fun ix => ⟨(h.sound.free kind).2 ix, h.filed.free ix kind⟩⟩,
    fun kind ix t ht => ?_, hcount, fun key tile hlookup => ?_, fun key tile htile => ?_,
    fun key tile key' tile' htile htile' hne hsame => ?_, h.pending, h.uploads⟩
  · exact (h.sound.textures ⟨ix, kind⟩ t (WgpuAtlas.get_eq_some.mpr ht)).id_eq
  · have htile := WgpuAtlas.mem_of_lookup hlookup
    obtain ⟨t, -, ht, -⟩ := h.sound.live key tile htile
    refine ⟨t, ht, ?_⟩
    rw [hcount _ t ht]
    exact List.length_pos_of_mem (hmem key tile htile)
  · obtain ⟨t, -, ht, -⟩ := h.sound.live key tile htile
    obtain ⟨texture, htexture, hsize⟩ := h.filed.sized _ t ht
    obtain ⟨held, hserves, hperm⟩ := (h.sound.textures _ t ht).served
    refine ⟨t, texture, ht, htexture, ?_⟩
    rw [hsize]
    refine hserves.inside hbounded tile.held (hperm.mem_iff.mpr ?_)
    rw [tilesIn_eq, List.map_map]
    exact List.mem_map_of_mem (hmem key tile htile)
  · obtain ⟨t, -, ht, -⟩ := h.sound.live key tile htile
    obtain ⟨held, hserves, hperm⟩ := (h.sound.textures _ t ht).served
    rw [tilesIn_eq, List.map_map] at hperm
    have hheld := (hperm.pairwise_iff fun {r r'} hr => Bounds.Apart.symm hr).mp
      (hserves.pairwise_apart hapart fun _ _ => Bounds.Apart.symm)
    rw [List.pairwise_map] at hheld
    have hpairs : (q.atlas.tilesByKey.filter fun entry => entry.2.textureId = tile.textureId).Pairwise
        fun entry entry' => entry.2.bounds.Apart entry'.2.bounds := hheld
    have : Std.Symm fun entry entry' : AtlasKey × PlacedTile =>
        entry.2.bounds.Apart entry'.2.bounds := ⟨fun _ _ => Bounds.Apart.symm⟩
    have hmem' := hmem key' tile' htile'
    rw [← hsame] at hmem'
    exact List.Pairwise.forall hpairs (hmem key tile htile) hmem'
      fun heq => hne (congrArg Prod.fst heq)

theorem bookkeeping_exact (hapart : etagere.Apart tileRegion Bounds.Apart)
    (hbounded : etagere.Bounded tileRegion capacity Bounds.Inside) (maxTextureSize : Int)
    (atlasInitialSize : Size Int) (colorTextureFormat : TextureFormat) (acts : List AtlasAct) :
    Throughout (step etagere) Exact (new maxTextureSize atlasInitialSize colorTextureFormat) acts :=
  run_throughout (fun _ _ _ h (_ : True) hs => Kept.step h hapart hbounded hs)
    (fun _ h => Kept.exact h hapart hbounded) acts
    (show Kept etagere capacity (new maxTextureSize atlasInitialSize colorTextureFormat) from
      kept_of_empty rfl rfl rfl rfl)
    (RunMeets.of_forall (fun _ _ => trivial) acts _)

theorem nonneg_of_serves {a : OneBucket} {held : List (Nat × Bounds Int)}
    (h : oneBucket.Serves tileRegion a held) : 0 ≤ a.x := by
  induction h with
  | new size => exact le_rfl
  | allocate _ ha ih =>
    obtain ⟨-, hwidth, rfl⟩ := OneBucket.allocate_eq ha
    exact add_nonneg ih hwidth.le
  | refuse _ ha ih =>
    rw [OneBucket.refuse_eq ha]
    exact ih
  | @deallocate a _ _ _ _ _ _ ih =>
    show 0 ≤ a.deallocate.x
    rw [OneBucket.deallocate]
    split
    · exact le_rfl
    · exact ih

theorem bounded_oneBucket : oneBucket.Bounded tileRegion OneBucket.size Bounds.Inside where
  new _ := rfl
  allocate a size := by
    show (a.allocate size).2.size = a.size
    rw [OneBucket.allocate]
    split <;> rfl
  deallocate a id := by
    show a.deallocate.size = a.size
    rw [OneBucket.deallocate]
    split <;> rfl
  inside {a held size id place a'} hserves ha := by
    have hx := nonneg_of_serves hserves
    have ha : a.allocate size = (some (id, place), a') := ha
    rw [OneBucket.allocate] at ha
    split at ha
    · rename_i hfits
      obtain ⟨-, -, hwidth, hheight⟩ := hfits
      cases ha
      refine ⟨hx, hwidth, le_rfl, ?_⟩
      show 0 + size.height ≤ a.size.height
      omega
    · cases ha

/-- Two images in one texture; both are removed, so that the texture goes with the second
upload pending, and a third image takes the slot. -/
def bookkeepingActs : List AtlasAct :=
  [.getOrInsertWith (.image 1) (.ok (some (⟨1, 1⟩, [1, 1, 1, 1]))), .beforeFrame,
    .getOrInsertWith (.image 2) (.ok (some (⟨1, 1⟩, [2, 2, 2, 2]))),
    .remove (.image 1), .remove (.image 2),
    .getOrInsertWith (.image 3) (.ok (some (⟨1, 1⟩, [3, 3, 3, 3])))]

/-- The upload that is pending in the end is for the texture of the third image. -/
theorem bookkeeping_exact_slotReused :
    ∃ q, run (step oneBucket) (new 4096 ⟨1024, 1024⟩ .bgra8Unorm) bookkeepingActs = some q ∧
      q.queued = [(⟨⟨0, .polychrome⟩, ⟨⟨0, 0⟩, ⟨1, 1⟩⟩, [3, 3, 3, 3]⟩, some 1)] ∧ q.Exact := by
  obtain ⟨q, hrun⟩ := Option.isSome_iff_exists.mp
    (show (run (step oneBucket) (new 4096 ⟨1024, 1024⟩ .bgra8Unorm) bookkeepingActs).isSome = true by
      decide +kernel)
  have hqueued : (run (step oneBucket) (new 4096 ⟨1024, 1024⟩ .bgra8Unorm) bookkeepingActs).map
      QueuedAtlas.queued = some [(⟨⟨0, .polychrome⟩, ⟨⟨0, 0⟩, ⟨1, 1⟩⟩, [3, 3, 3, 3]⟩, some 1)] := by
    decide +kernel
  rw [hrun] at hqueued
  exact ⟨q, hrun, Option.some.inj hqueued,
    (bookkeeping_exact apart_oneBucket bounded_oneBucket _ _ _ _).last _ hrun⟩

end QueuedAtlas

end FcGpui
