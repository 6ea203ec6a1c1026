import FcGpui.Renderer.StaleSprites

/-!
# Insertions that fail

`get_or_insert_with` fails where `build` does, where `build` has nothing to show, and where no
texture has room for the tile.  In the last case a texture was made for it before anyone knew
that even a new one, which is no larger than the device allows, has no room; it stays, and the
next such request makes another one.

`HasRoom` says that a texture has room for a tile, an old one or a new one, and `Placeable` that
a request does not come to the last case.

**Main result.**  `failed_untouched_iff`: a failed request leaves tiles, textures, free lists and
uploads as they were exactly when it is placeable, and a sequence of failed requests takes no
further slot exactly when all of them are.
-/

namespace FcGpui

variable {α : Type}

/-- A call of `get_or_insert_with`; `build` is what it answers. -/
structure InsertRequest where
  key : AtlasKey
  build : Except String (Option (Size Int × List UInt8))

/-- There is no tile in the answer. -/
def Failed (answer : Except String (Option PlacedTile)) : Prop := ∀ tile, answer ≠ .ok (some tile)

namespace WgpuAtlas

/-- The size `push_texture` gives a texture. -/
def newTextureSize (s : WgpuAtlas α) (minSize : Size Int) : Size Int :=
  (minSize.max s.atlasInitialSize).min ⟨s.maxTextureSize, s.maxTextureSize⟩

/-- A texture of the kind has room for a tile, one that is there or a new one. -/
def HasRoom (etagere : Etagere α) (s : WgpuAtlas α) (size : Size Int) (kind : AtlasTextureKind) :
    Prop :=
  (∃ t, some t ∈ (s.storage kind).textures ∧ (etagere.allocate t.allocator size).1.isSome) ∨
    (etagere.allocate (etagere.new (s.newTextureSize size)) size).1.isSome

/-- If the request comes to ask for room, there is room. -/
def Placeable (etagere : Etagere α) (s : WgpuAtlas α) (request : InsertRequest) : Prop :=
  ∀ size bytes, s.lookup request.key = none → request.build = .ok (some (size, bytes)) →
    s.HasRoom etagere size request.key.textureKind

/-- Tiles, texture slots, free lists and uploads are the same. -/
def Untouched (s s' : WgpuAtlas α) : Prop :=
  s'.tilesByKey = s.tilesByKey ∧ s'.storage = s.storage ∧ s'.pendingUploads = s.pendingUploads

/-- How many texture slots of the kind are not free. -/
def slotsInUse (s : WgpuAtlas α) (kind : AtlasTextureKind) : Int :=
  (s.storage kind).textures.length - (s.storage kind).freeList.length

/-- The atlas after a request that fails. -/
def failing (etagere : Etagere α) (s : WgpuAtlas α) (request : InsertRequest) :
    Option (WgpuAtlas α) :=
  match s.getOrInsertWith etagere request.key request.build with
  | (.ok (some _), _) => none
  | (_, s) => some s

variable {etagere : Etagere α} {s s' : WgpuAtlas α} {size : Size Int} {kind : AtlasTextureKind}

theorem texture_allocate_isSome (t : WgpuAtlasTexture α) :
    (t.allocate etagere size).1.isSome = (etagere.allocate t.allocator size).1.isSome := by
  rw [WgpuAtlasTexture.allocate]
  split
  · rename_i ha
    rw [ha]
    rfl
  · rename_i ha
    rw [ha]
    rfl

theorem allocateFrom_isSome_iff : ∀ {textures : List (Option (WgpuAtlasTexture α))},
    (allocateFrom etagere size textures).1.isSome ↔
      ∃ t, some t ∈ textures ∧ (etagere.allocate t.allocator size).1.isSome := by
  intro textures
  induction textures with
  | nil =>
    refine ⟨fun h => absurd h Bool.false_ne_true, ?_⟩
    rintro ⟨t, ht, -⟩
    exact absurd ht List.not_mem_nil
  | cons slot rest ih =>
    cases hrest : allocateFrom etagere size rest with
    | mk found rest' =>
      rw [hrest] at ih
      simp only [allocateFrom, hrest]
      cases found with
      | some tile =>
        obtain ⟨t, ht, hroom⟩ := ih.mp rfl
        exact ⟨fun _ => ⟨t, List.mem_cons_of_mem _ ht, hroom⟩, fun _ => rfl⟩
      | none =>
        have hnone : ¬ ∃ t, some t ∈ rest ∧ (etagere.allocate t.allocator size).1.isSome :=
          fun h => absurd (ih.mpr h) Bool.false_ne_true
        cases slot with
        | none =>
          refine ⟨fun h => absurd h Bool.false_ne_true, ?_⟩
          rintro ⟨t, ht, hroom⟩
          rcases List.mem_cons.mp ht with ht | ht
          · cases ht
          · exact absurd ⟨t, ht, hroom⟩ hnone
        | some t =>
          rw [show ((t.allocate etagere size).1, some (t.allocate etagere size).2 :: rest').1.isSome
            = (t.allocate etagere size).1.isSome from rfl, texture_allocate_isSome]
          refine ⟨fun h => ⟨t, List.mem_cons_self, h⟩, ?_⟩
          rintro ⟨t', ht, hroom⟩
          rcases List.mem_cons.mp ht with ht | ht
          · obtain rfl := Option.some.inj ht
            exact hroom
          · exact absurd ⟨t', ht, hroom⟩ hnone

theorem length_allocateFrom : ∀ {textures : List (Option (WgpuAtlasTexture α))},
    (allocateFrom etagere size textures).2.length = textures.length := by
  intro textures
  induction textures with
  | nil => rfl
  | cons slot rest ih =>
    cases hrest : allocateFrom etagere size rest with
    | mk found rest' =>
      rw [hrest] at ih
      simp only [allocateFrom, hrest]
      cases found with
      | some tile => exact congrArg (· + 1) ih
      | none =>
        cases slot with
        | none => exact congrArg (· + 1) ih
        | some t => exact congrArg (· + 1) ih

/-- Whether the atlas has room is decided before anything is written. -/
theorem allocate_isSome_iff :
    (s.allocate etagere size kind).1.isSome ↔ s.HasRoom etagere size kind := by
  rw [HasRoom, ← allocateFrom_isSome_iff]
  cases hfound : (allocateFrom etagere size (s.storage kind).textures).1 with
  | some tile =>
    rw [allocate_of_room hfound]
    exact ⟨fun _ => Or.inl rfl, fun _ => rfl⟩
  | none =>
    rw [allocate_of_full hfound rfl]
    rw [show ∀ a (b : WgpuAtlas α), (a, b).1.isSome = (a : Option PlacedTile).isSome from fun _ _ => rfl,
      texture_allocate_isSome]
    exact ⟨Or.inr, fun h => h.resolve_left nofun⟩

/-! ### Slots -/

theorem slotsInUse_setTextures (s : WgpuAtlas α) (kind' : AtlasTextureKind)
    {textures : List (Option (WgpuAtlasTexture α))}
    (hlength : textures.length = (s.storage kind').textures.length) :
    (s.setTextures kind' textures).slotsInUse kind = s.slotsInUse kind := by
  by_cases hk : kind = kind'
  · subst hk
    simp [slotsInUse, setTextures, hlength]
  · simp [slotsInUse, setTextures, hk]

theorem slotsInUse_setTexture (s : WgpuAtlas α) (id : AtlasTextureId)
    (slot : Option (WgpuAtlasTexture α)) :
    (s.setTexture id slot).slotsInUse kind = s.slotsInUse kind :=
  slotsInUse_setTextures s id.kind List.length_set

theorem takeSlot_inUse (list : AtlasTextureList α) :
    ((takeSlot list).2.textures.length : Int) - (takeSlot list).2.freeList.length =
      list.textures.length - list.freeList.length + 1 := by
  rw [takeSlot]
  split
  · rename_i ix freeList hfree
    simp only [hfree, List.length_cons]
    omega
  · rename_i hfree
    simp only [hfree, List.length_append, List.length_cons, List.length_nil]
    omega

/-- **A new texture takes a slot of its kind.** -/
theorem slotsInUse_pushTexture (s : WgpuAtlas α) (minSize : Size Int) (kind' : AtlasTextureKind) :
    (s.pushTexture etagere minSize kind').2.slotsInUse kind =
      s.slotsInUse kind + if kind = kind' then 1 else 0 := by
  simp only [pushTexture, slotsInUse_setTexture]
  by_cases hk : kind = kind'
  · subst hk
    rw [if_pos rfl, slotsInUse, slotsInUse]
    simp only [Function.update_self]
    exact takeSlot_inUse (s.storage kind)
  · rw [if_neg hk, slotsInUse, slotsInUse]
    simp only [Function.update_of_ne hk, add_zero]

theorem slotsInUse_allocate (kind : AtlasTextureKind) {kind' : AtlasTextureKind} (hroom : ¬ s.HasRoom etagere size kind') :
    (s.allocate etagere size kind').2.slotsInUse kind =
      s.slotsInUse kind + if kind = kind' then 1 else 0 := by
  have hfull : (allocateFrom etagere size (s.storage kind').textures).1 = none := by
    rw [← Option.not_isSome_iff_eq_none, allocateFrom_isSome_iff]
    exact fun h => hroom (Or.inl h)
  rw [allocate_of_full hfull rfl, slotsInUse_setTexture, slotsInUse_pushTexture,
    slotsInUse_setTextures s kind' length_allocateFrom]

/-! ### Requests -/

variable {request : InsertRequest}

theorem failing_eq_some :
    failing etagere s request = some s' ↔
      Failed (s.getOrInsertWith etagere request.key request.build).1 ∧
        (s.getOrInsertWith etagere request.key request.build).2 = s' := by
  rw [failing]
  split
  · rename_i tile s₁ h
    rw [h]
    exact ⟨nofun, fun hf => absurd rfl (hf.1 tile)⟩
  · rename_i answer s₁ hsome h
    rw [h]
    exact ⟨fun hs => ⟨fun tile ht => hsome tile ht, Option.some.inj hs⟩,
      fun hs => congrArg some hs.2⟩

theorem Placeable.failed_eq (h : s.Placeable etagere request)
    (hfailed : Failed (s.getOrInsertWith etagere request.key request.build).1) :
    (s.getOrInsertWith etagere request.key request.build).2 = s := by
  cases hkey : s.lookup request.key with
  | some tile => simp only [getOrInsertWith, hkey]
  | none =>
    cases hbuild : request.build with
    | error error => simp only [getOrInsertWith, hkey]
    | ok made =>
      cases made with
      | none => simp only [getOrInsertWith, hkey]
      | some made =>
        obtain ⟨size, bytes⟩ := made
        simp only [getOrInsertWith, hkey, hbuild] at hfailed
        obtain ⟨tile, htile⟩ :=
          Option.isSome_iff_exists.mp (allocate_isSome_iff.mpr (h size bytes hkey hbuild))
        cases hallocate : s.allocate etagere size request.key.textureKind with
        | mk found s₁ =>
          rw [hallocate] at htile hfailed
          obtain rfl : found = some tile := htile
          exact absurd rfl (hfailed tile)

/-- **Any other request fails, and takes a slot.** -/
theorem slotsInUse_of_not_placeable (kind : AtlasTextureKind) (h : ¬ s.Placeable etagere request) :
    Failed (s.getOrInsertWith etagere request.key request.build).1 ∧
      (s.getOrInsertWith etagere request.key request.build).2.slotsInUse kind =
        s.slotsInUse kind + if kind = request.key.textureKind then 1 else 0 := by
  simp only [Placeable, not_forall] at h
  obtain ⟨size, bytes, hkey, hbuild, hroom⟩ := h
  have hnone : (s.allocate etagere size request.key.textureKind).1 = none := by
    rw [← Option.not_isSome_iff_eq_none, allocate_isSome_iff]
    exact hroom
  have hslots := slotsInUse_allocate kind hroom
  simp only [getOrInsertWith, hkey, hbuild]
  cases hallocate : s.allocate etagere size request.key.textureKind with
  | mk found s₁ =>
    rw [hallocate] at hnone hslots
    obtain rfl : found = none := hnone
    refine ⟨fun tile htile => ?_, hslots⟩
    cases htile

theorem slotsInUse_congr (h : s'.storage = s.storage) : s'.slotsInUse kind = s.slotsInUse kind := by
  rw [slotsInUse, slotsInUse, h]

/-- **One request.** -/
theorem getOrInsertWith_untouched_iff (request : InsertRequest) :
    (Failed (s.getOrInsertWith etagere request.key request.build).1 →
      s.Untouched (s.getOrInsertWith etagere request.key request.build).2) ↔
      s.Placeable etagere request := by
  constructor
  · intro h
    by_contra hplace
    obtain ⟨hfailed, hslots⟩ :=
      slotsInUse_of_not_placeable request.key.textureKind hplace
    obtain ⟨-, hstorage, -⟩ := h hfailed
    rw [slotsInUse_congr hstorage, if_pos rfl] at hslots
    omega
  · intro h hfailed
    rw [h.failed_eq hfailed]
    exact ⟨rfl, rfl, rfl⟩

theorem slotsInUse_le_failing (kind : AtlasTextureKind) (h : failing etagere s request = some s') :
    s.slotsInUse kind ≤ s'.slotsInUse kind := by
  obtain ⟨hfailed, rfl⟩ := failing_eq_some.mp h
  by_cases hplace : s.Placeable etagere request
  · rw [hplace.failed_eq hfailed]
  · rw [(slotsInUse_of_not_placeable _ hplace).2]
    split <;> omega

theorem slotsInUse_le_run (kind : AtlasTextureKind) : ∀ (requests : List InsertRequest) {s s' : WgpuAtlas α},
    run (failing etagere) s requests = some s' → s.slotsInUse kind ≤ s'.slotsInUse kind := by
  intro requests
  induction requests with
  | nil =>
    intro s s' h
    obtain rfl := Option.some.inj h
    exact le_rfl
  | cons request requests ih =>
    intro s s' h
    obtain ⟨mid, hmid, hrest⟩ := Option.bind_eq_some_iff.mp h
    exact (slotsInUse_le_failing kind hmid).trans (ih hrest)

/-- **A sequence of requests that all fail.** -/
theorem run_failing_iff : ∀ (requests : List InsertRequest) {s s' : WgpuAtlas α},
    run (failing etagere) s requests = some s' →
      ((∀ kind, s'.slotsInUse kind ≤ s.slotsInUse kind) ↔
        RunMeets (failing etagere) (Placeable etagere) s requests) := by
  intro requests
  induction requests with
  | nil =>
    intro s s' h
    obtain rfl := Option.some.inj h
    exact ⟨fun _ => trivial, fun _ _ => le_rfl⟩
  | cons request requests ih =>
    intro s s' h
    obtain ⟨mid, hmid, hrest⟩ := Option.bind_eq_some_iff.mp h
    rw [RunMeets, hmid]
    obtain ⟨hfailed, hmid'⟩ := failing_eq_some.mp hmid
    by_cases hplace : s.Placeable etagere request
    · obtain rfl : mid = s := hmid' ▸ hplace.failed_eq hfailed
      exact ⟨fun hall => ⟨hplace, (ih hrest).mp hall⟩, fun hall => (ih hrest).mpr hall.2⟩
    · refine ⟨fun hall => ?_, fun hall => absurd hall.1 hplace⟩
      have htaken := (slotsInUse_of_not_placeable request.key.textureKind hplace).2
      rw [if_pos rfl, hmid'] at htaken
      have hleft := slotsInUse_le_run request.key.textureKind requests hrest
      have := hall request.key.textureKind
      omega

/-- **A failed insertion leaves the atlas as it was exactly if there was room for the tile**, or
none was asked for; and requests that all fail take no further slot exactly if that holds of each
of them. -/
theorem failed_untouched_iff (etagere : Etagere α) (s : WgpuAtlas α) :
    (∀ request : InsertRequest, (Failed (s.getOrInsertWith etagere request.key request.build).1 →
      s.Untouched (s.getOrInsertWith etagere request.key request.build).2) ↔
        s.Placeable etagere request) ∧
    ∀ requests s', run (failing etagere) s requests = some s' →
      ((∀ kind, s'.slotsInUse kind ≤ s.slotsInUse kind) ↔
        RunMeets (failing etagere) (Placeable etagere) s requests) :=
  ⟨getOrInsertWith_untouched_iff, fun requests _ => run_failing_iff requests⟩

/-- An image that cannot be loaded. -/
def brokenImage : InsertRequest := ⟨.image 1, .error "no such file"⟩

/-- An image that is larger than any texture. -/
def hugeImage : InsertRequest := ⟨.image 2, .ok (some (⟨5000, 1⟩, []))⟩

theorem not_placeable_hugeImage : ¬ atlasStart.Placeable oneBucket hugeImage := by
  intro h
  rcases h ⟨5000, 1⟩ [] rfl rfl with ⟨t, ht, -⟩ | hroom
  · exact absurd ht List.not_mem_nil
  · exact absurd hroom (by decide)

theorem failed_untouched_iff_brokenImage :
    (Failed (atlasStart.getOrInsertWith oneBucket (.image 1) brokenImage.build).1 →
      atlasStart.Untouched (atlasStart.getOrInsertWith oneBucket (.image 1) brokenImage.build).2) ∧
    ∃ s', run (failing oneBucket) atlasStart [brokenImage, brokenImage] = some s' ∧
      ∀ kind, s'.slotsInUse kind ≤ atlasStart.slotsInUse kind := by
  have hplace : atlasStart.Placeable oneBucket brokenImage := fun size bytes _ hbuild => nomatch hbuild
  obtain ⟨hone, hall⟩ := failed_untouched_iff oneBucket atlasStart
  exact ⟨(hone brokenImage).mpr hplace, atlasStart, rfl,
    (hall [brokenImage, brokenImage] atlasStart rfl).mpr ⟨hplace, hplace, trivial⟩⟩

/-- **The image that is too large leaves a texture behind**, whenever it is asked for. -/
theorem not_failed_untouched :
    ¬ ∀ (s : WgpuAtlas OneBucket) (request : InsertRequest),
      Failed (s.getOrInsertWith oneBucket request.key request.build).1 →
        s.Untouched (s.getOrInsertWith oneBucket request.key request.build).2 :=
  fun h => not_placeable_hugeImage
    ((getOrInsertWith_untouched_iff hugeImage).mp (h atlasStart hugeImage))

end WgpuAtlas

end FcGpui
