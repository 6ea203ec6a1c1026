import FcGpui.Lib.Allocator
import FcGpui.Lib.Machine
import FcGpui.Scene.Batches

/-!
# The sprite atlas of the wgpu renderer

`crates/gpui-wgpu/src/wgpu_atlas.rs`, and what `wgpu_renderer.rs` does with it.
Glyphs and images are rasterized once and kept in a few large textures.
`get_or_insert_with` answers with the tile of a key: a texture and a rectangle in
it.  A sprite of a scene carries the tile.  The bytes of a new tile wait in
`pending_uploads` until `before_frame` writes them to the texture.

`remove` gives the rectangle back to the allocator of its texture, and when no key
has a tile in the texture any more, drops the texture: its slot goes to the free
list, and the next texture of that kind takes the slot and with it the
`AtlasTextureId`.  The generation tells the two textures apart, and the renderer
asks for it when it reuses a bind group.

The rectangles come from the allocator `etagere`, which is not part of the
repository: it is a parameter.  The textures on the device are the list `device`;
a texture, a view of it and a bind group are all its index there.  A texel is its
bytes.  The last field of `WgpuAtlas` is not in the source: the bytes last uploaded
for a key.
-/

namespace FcGpui

/-- Of the parameters other than `is_emoji` only equality is used. -/
structure RenderGlyphParams where
  glyph : Nat
  isEmoji : Bool
deriving DecidableEq, Repr

inductive AtlasKey
  | glyph (params : RenderGlyphParams)
  | svg (params : Nat)
  | image (params : Nat)
deriving DecidableEq, Repr

def AtlasKey.textureKind : AtlasKey → AtlasTextureKind
  | glyph params => if params.isEmoji then .polychrome else .monochrome
  | svg _ => .monochrome
  | image _ => .polychrome

inductive TextureFormat
  | r8Unorm
  | bgra8Unorm
  | rgba8Unorm
deriving DecidableEq, Repr

def TextureFormat.bytesPerPixel : TextureFormat → Nat
  | r8Unorm => 1
  | bgra8Unorm => 4
  | rgba8Unorm => 4

/-- Blue and red of every pixel change places. -/
def swapPixels : List UInt8 → List UInt8
  | b :: g :: r :: a :: rest => r :: g :: b :: a :: swapPixels rest
  | rest => rest

def swizzleUploadData (bytes : List UInt8) : TextureFormat → List UInt8
  | .rgba8Unorm => swapPixels bytes
  | _ => bytes

/-- An `AtlasTile`: what the scene reads of it, and its rectangle. -/
structure PlacedTile extends AtlasTile where
  bounds : Bounds Int
deriving DecidableEq, Repr

def Size.max (a b : Size Int) : Size Int where
  width := if b.width ≤ a.width then a.width else b.width
  height := if b.height ≤ a.height then a.height else b.height

def Size.min (a b : Size Int) : Size Int where
  width := if b.width ≤ a.width then b.width else a.width
  height := if b.height ≤ a.height then b.height else a.height

/-- The texel at `x`, `y` is inside. -/
def Bounds.hasTexel (b : Bounds Int) (x y : Int) : Bool :=
  decide (b.origin.x ≤ x) && decide (x < b.origin.x + b.size.width)
    && decide (b.origin.y ≤ y) && decide (y < b.origin.y + b.size.height)

/-- No texel is inside both. -/
def Bounds.Apart (a b : Bounds Int) : Prop :=
  ∀ x y, a.hasTexel x y = true → b.hasTexel x y = false

/-- The region of an allocation. -/
def tileRegion (size : Size Int) (min : Point Int) : Bounds Int := ⟨min, size⟩

/-- The allocator of one texture: it answers with an id and the upper left
corner. -/
abbrev Etagere (α : Type) := Allocator α (Size Int) Nat (Point Int)

structure PendingUpload where
  id : AtlasTextureId
  bounds : Bounds Int
  data : List UInt8
deriving DecidableEq, Repr

/-- A texture on the device. -/
structure GpuTexture where
  size : Size Int
  format : TextureFormat
  texels : Int → Int → List UInt8

/-- A new texture is zero. -/
def GpuTexture.zeroed (size : Size Int) (format : TextureFormat) : GpuTexture :=
  ⟨size, format, fun _ _ => List.replicate format.bytesPerPixel 0⟩

/-- The texel at `x`, `y` of bytes that are laid out row by row over `bounds`. -/
def texelOf (data : List UInt8) (bytesPerPixel : Nat) (bounds : Bounds Int) (x y : Int) :
    List UInt8 :=
  let bytesPerRow := bounds.size.width.toNat * bytesPerPixel
  let row := (y - bounds.origin.y).toNat
  let column := (x - bounds.origin.x).toNat
  (data.drop (row * bytesPerRow + column * bytesPerPixel)).take bytesPerPixel

/-- `Queue::write_texture`, of a whole upload. -/
def GpuTexture.write (bytesPerPixel : Nat) (texture : GpuTexture) (upload : PendingUpload) :
    GpuTexture :=
  { texture with
    texels := fun x y =>
      if upload.bounds.hasTexel x y then texelOf upload.data bytesPerPixel upload.bounds x y
      else texture.texels x y }

structure WgpuAtlasTexture (α : Type) where
  id : AtlasTextureId
  generation : Nat
  allocator : α
  texture : Nat
  format : TextureFormat
  liveAtlasKeys : Nat
deriving DecidableEq, Repr

/-- The last of `freeList` is first here. -/
structure AtlasTextureList (α : Type) where
  textures : List (Option (WgpuAtlasTexture α))
  freeList : List Nat

structure WgpuAtlas (α : Type) where
  maxTextureSize : Int
  atlasInitialSize : Size Int
  colorTextureFormat : TextureFormat
  storage : AtlasTextureKind → AtlasTextureList α
  tilesByKey : List (AtlasKey × PlacedTile)
  pendingUploads : List PendingUpload
  nextTextureGeneration : Nat
  device : List GpuTexture
  uploaded : AtlasKey → List UInt8

structure WgpuTextureInfo where
  view : Nat
  generation : Nat
deriving DecidableEq, Repr

variable {α : Type}

/-- `WgpuAtlasTexture::allocate`. -/
def WgpuAtlasTexture.allocate (etagere : Etagere α) (size : Size Int) (t : WgpuAtlasTexture α) :
    Option PlacedTile × WgpuAtlasTexture α :=
  match etagere.allocate t.allocator size with
  | (some (id, min), allocator) =>
    (some { textureId := t.id, tileId := id, bounds := tileRegion size min },
      { t with allocator := allocator, liveAtlasKeys := t.liveAtlasKeys + 1 })
  | (none, allocator) => (none, { t with allocator := allocator })

/-- The last texture that has room gives the tile. -/
def allocateFrom (etagere : Etagere α) (size : Size Int) :
    List (Option (WgpuAtlasTexture α)) → Option PlacedTile × List (Option (WgpuAtlasTexture α))
  | [] => (none, [])
  | slot :: rest =>
    match allocateFrom etagere size rest with
    | (some tile, rest) => (some tile, slot :: rest)
    | (none, rest) =>
      match slot with
      | none => (none, none :: rest)
      | some t => ((t.allocate etagere size).1, some (t.allocate etagere size).2 :: rest)

namespace WgpuAtlas

def new (maxTextureSize : Int) (atlasInitialSize : Size Int) (colorTextureFormat : TextureFormat) :
    WgpuAtlas α where
  maxTextureSize := maxTextureSize
  atlasInitialSize := atlasInitialSize
  colorTextureFormat := colorTextureFormat
  storage := fun _ => ⟨[], []⟩
  tilesByKey := []
  pendingUploads := []
  nextTextureGeneration := 0
  device := []
  uploaded := fun _ => []

/-- `WgpuAtlasStorage::get`. -/
def get (s : WgpuAtlas α) (id : AtlasTextureId) : Option (WgpuAtlasTexture α) :=
  ((s.storage id.kind).textures[id.index]?).join

def getTextureInfo (s : WgpuAtlas α) (id : AtlasTextureId) : Option WgpuTextureInfo :=
  (s.get id).map fun t => ⟨t.texture, t.generation⟩

def lookup (s : WgpuAtlas α) (key : AtlasKey) : Option PlacedTile := s.tilesByKey.lookup key

def setTextures (s : WgpuAtlas α) (kind : AtlasTextureKind)
    (textures : List (Option (WgpuAtlasTexture α))) : WgpuAtlas α :=
  let list := s.storage kind
  { s with storage := Function.update s.storage kind { list with textures := textures } }

def setTexture (s : WgpuAtlas α) (id : AtlasTextureId) (slot : Option (WgpuAtlasTexture α)) :
    WgpuAtlas α :=
  s.setTextures id.kind ((s.storage id.kind).textures.set id.index slot)

/-- The slot for a new texture, and the list with the slot taken. -/
def takeSlot (list : AtlasTextureList α) : Nat × AtlasTextureList α :=
  match list.freeList with
  | ix :: freeList => (ix, { list with freeList := freeList })
  | [] => (list.textures.length, { list with textures := list.textures ++ [none] })

/-- The new texture, and the atlas that holds it. -/
def pushTexture (etagere : Etagere α) (s : WgpuAtlas α) (minSize : Size Int)
    (kind : AtlasTextureKind) : WgpuAtlasTexture α × WgpuAtlas α :=
  let size := (minSize.max s.atlasInitialSize).min ⟨s.maxTextureSize, s.maxTextureSize⟩
  let format : TextureFormat :=
    match kind with
    | .monochrome => .r8Unorm
    | .polychrome => s.colorTextureFormat
  let index := (takeSlot (s.storage kind)).1
  let texture : WgpuAtlasTexture α :=
    { id := ⟨index, kind⟩
      generation := s.nextTextureGeneration
      allocator := etagere.new size
      texture := s.device.length
      format := format
      liveAtlasKeys := 0 }
  let s := { s with
    storage := Function.update s.storage kind (takeSlot (s.storage kind)).2
    nextTextureGeneration := (s.nextTextureGeneration + 1) % 2 ^ 64
    device := s.device ++ [GpuTexture.zeroed size format] }
  (texture, s.setTexture ⟨index, kind⟩ (some texture))

def allocate (etagere : Etagere α) (s : WgpuAtlas α) (size : Size Int) (kind : AtlasTextureKind) :
    Option PlacedTile × WgpuAtlas α :=
  let found := allocateFrom etagere size (s.storage kind).textures
  let s := s.setTextures kind found.2
  match found.1 with
  | some tile => (some tile, s)
  | none =>
    let pushed := s.pushTexture etagere size kind
    let allocated := pushed.1.allocate etagere size
    (allocated.1, pushed.2.setTexture pushed.1.id (some allocated.2))

def uploadTexture (s : WgpuAtlas α) (id : AtlasTextureId) (bounds : Bounds Int)
    (bytes : List UInt8) : WgpuAtlas α :=
  let data := ((s.get id).map fun t => swizzleUploadData bytes t.format).getD bytes
  { s with pendingUploads := s.pendingUploads ++ [⟨id, bounds, data⟩] }

def flushUpload (s : WgpuAtlas α) (device : List GpuTexture) (upload : PendingUpload) :
    List GpuTexture :=
  match s.get upload.id with
  | some t =>
    device.modify t.texture fun texture => texture.write t.format.bytesPerPixel upload
  | none => device

def flushUploads (s : WgpuAtlas α) : WgpuAtlas α :=
  { s with device := s.pendingUploads.foldl s.flushUpload s.device, pendingUploads := [] }

def beforeFrame (s : WgpuAtlas α) : WgpuAtlas α := s.flushUploads

def clear (s : WgpuAtlas α) : WgpuAtlas α :=
  { s with storage := fun _ => ⟨[], []⟩, tilesByKey := [], pendingUploads := [] }

def handleDeviceLost (s : WgpuAtlas α) (colorTextureFormat : TextureFormat) : WgpuAtlas α :=
  { s.clear with colorTextureFormat := colorTextureFormat }

/-- What `build` answers is an argument. -/
def getOrInsertWith (etagere : Etagere α) (s : WgpuAtlas α) (key : AtlasKey)
    (build : Except String (Option (Size Int × List UInt8))) :
    Except String (Option PlacedTile) × WgpuAtlas α :=
  match s.lookup key with
  | some tile => (.ok (some tile), s)
  | none =>
    match build with
    | .error error => (.error error, s)
    | .ok none => (.ok none, s)
    | .ok (some (size, bytes)) =>
      match s.allocate etagere size key.textureKind with
      | (none, s) => (.error "failed to allocate", s)
      | (some tile, s) =>
        let s := s.uploadTexture tile.textureId tile.bounds bytes
        (.ok (some tile), { s with
          tilesByKey := (key, tile) :: s.tilesByKey
          uploaded := Function.update s.uploaded key bytes })

/-- The texture `t` after one of its tiles is taken back. -/
def release (etagere : Etagere α) (t : WgpuAtlasTexture α) (tileId : Nat) : WgpuAtlasTexture α :=
  { t with
    allocator := etagere.deallocate t.allocator tileId
    liveAtlasKeys := t.liveAtlasKeys - 1 }

def pushFree (s : WgpuAtlas α) (kind : AtlasTextureKind) (ix : Nat) : WgpuAtlas α :=
  let list := s.storage kind
  { s with storage := Function.update s.storage kind { list with freeList := ix :: list.freeList } }

def remove (etagere : Etagere α) (s : WgpuAtlas α) (key : AtlasKey) : WgpuAtlas α :=
  match s.lookup key with
  | none => s
  | some tile =>
    let s := { s with tilesByKey := s.tilesByKey.filter fun entry => entry.1 ≠ key }
    match s.get tile.textureId with
    | none => s
    | some texture =>
      let texture := release etagere texture tile.tileId
      if texture.liveAtlasKeys = 0 then
        { (s.setTexture tile.textureId none).pushFree tile.textureId.kind texture.id.index with
          pendingUploads := s.pendingUploads.filter fun upload => upload.id ≠ texture.id }
      else s.setTexture tile.textureId (some texture)

end WgpuAtlas

/-! ### The renderer -/

structure CachedTextureBindGroup where
  textureGeneration : Nat
  bindGroup : Nat
deriving DecidableEq, Repr

/-- What a sprite has beyond what the scene reads: the rectangle of its tile.  The
key its tile was returned for is not in the source. -/
structure SpriteRest where
  tileBounds : Bounds Int
  key : AtlasKey
deriving DecidableEq, Repr

/-- The part of `WgpuRenderer` that draws sprites. -/
structure SpriteRenderer (α : Type) where
  atlas : WgpuAtlas α
  atlasTextureBindGroups : AtlasTextureId → Option CachedTextureBindGroup

/-- A sprite that is drawn, and the texture it is drawn from. -/
structure SpriteDraw (U : Type) where
  sprite : Primitive U SpriteRest
  texture : Nat
deriving DecidableEq, Repr

inductive SpriteAct (U : Type)
  | getOrInsertWith (key : AtlasKey) (build : Except String (Option (Size Int × List UInt8)))
  | remove (key : AtlasKey)
  | clear
  | handleDeviceLost (colorTextureFormat : TextureFormat)
  | beforeFrame
  | prepare (scene : Scene U SpriteRest)
  | frame (scene : Scene U SpriteRest)

def PrimitiveBatch.spriteTextureId {U ρ : Type} (batch : PrimitiveBatch U ρ) :
    Option AtlasTextureId :=
  if batch.kind.isSprite then batch.textureId else none

namespace SpriteRenderer

variable {U : Type}

def new (atlas : WgpuAtlas α) : SpriteRenderer α := ⟨atlas, fun _ => none⟩

def textureIds (batches : List (PrimitiveBatch U SpriteRest)) : List AtlasTextureId :=
  (batches.filterMap PrimitiveBatch.spriteTextureId).foldl
    (fun ids id => if id ∈ ids then ids else ids ++ [id]) []

def prepareTexture (r : SpriteRenderer α) (id : AtlasTextureId) : SpriteRenderer α :=
  match r.atlas.getTextureInfo id with
  | none => { r with atlasTextureBindGroups := Function.update r.atlasTextureBindGroups id none }
  | some info =>
    let isCurrent := (r.atlasTextureBindGroups id).any fun cached =>
      cached.textureGeneration == info.generation
    if isCurrent then r
    else
      { r with atlasTextureBindGroups :=
          Function.update r.atlasTextureBindGroups id (some ⟨info.generation, info.view⟩) }

def prepareTextureBindGroups (r : SpriteRenderer α) (batches : List (PrimitiveBatch U SpriteRest)) :
    SpriteRenderer α :=
  let ids := textureIds batches
  let r := { r with atlasTextureBindGroups := fun id =>
    if id ∈ ids then r.atlasTextureBindGroups id else none }
  ids.foldl prepareTexture r

def drawSprites (r : SpriteRenderer α) (batch : PrimitiveBatch U SpriteRest) :
    List (SpriteDraw U) :=
  match batch.spriteTextureId.bind r.atlasTextureBindGroups with
  | none => []
  | some cached => batch.primitives.map fun sprite => ⟨sprite, cached.bindGroup⟩

/-- What of a frame concerns the atlas, up to where it begins to draw. -/
def prepare (r : SpriteRenderer α) (batches : List (PrimitiveBatch U SpriteRest)) :
    SpriteRenderer α :=
  { r with atlas := r.atlas.beforeFrame }.prepareTextureBindGroups batches

/-- A frame that is drawn, with the sprites it draws. -/
def frame (r : SpriteRenderer α) (scene : Scene U SpriteRest) :
    Option (SpriteRenderer α × List (SpriteDraw U)) :=
  scene.batches.map fun batches =>
    (r.prepare batches, batches.flatMap (r.prepare batches).drawSprites)

/-- `prepare` is a frame that fails before it is submitted. -/
def step (etagere : Etagere α) (r : SpriteRenderer α) : SpriteAct U → Option (SpriteRenderer α)
  | .getOrInsertWith key build =>
    some { r with atlas := (r.atlas.getOrInsertWith etagere key build).2 }
  | .remove key => some { r with atlas := r.atlas.remove etagere key }
  | .clear => some { r with atlas := r.atlas.clear }
  | .handleDeviceLost format => some (new (r.atlas.handleDeviceLost format))
  | .beforeFrame => some { r with atlas := r.atlas.beforeFrame }
  | .prepare scene => scene.batches.map r.prepare
  | .frame scene => (r.frame scene).map Prod.fst

end SpriteRenderer

end FcGpui
