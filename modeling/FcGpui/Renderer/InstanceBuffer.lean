import FcGpui.Lib.Allocator
import FcGpui.Lib.Machine
import FcGpui.Renderer.PathSprites

/-!
# The instance buffer of the wgpu renderer

`crates/gpui-wgpu/src/wgpu_renderer.rs` and the budgets of
`crates/gpui/src/resource_profile.rs`.  All the records of one frame go to one
GPU buffer.  `record_frame` first computes what the scene will need
(`frame_instance_bytes`), makes the buffer that large
(`ensure_instance_capacity`), and then uploads: the five arrays of the scene,
and for every batch of paths its vertices and its sprites.  `trim` gives the
buffer back its first size.

The dry run and the uploads are different functions over the same batches.  They
agree up to the uploads that are skipped, and a bump allocation that skips some
allocations stays below one that does not.

Sizes are natural numbers.  A draw that stops before `record_frame` (no surface,
no frame) leaves all of this alone and is not an action here; `recover` begins a
new renderer.

`FrameUploads` shows that a frame that was sized is uploaded.
-/

namespace FcGpui

/-- `MIN_INSTANCE_BUFFER_CAPACITY`. -/
def minInstanceBufferCapacity : Nat := 16

/-- `MAX_INSTANCE_BUFFER_SIZE`. -/
def maxInstanceBufferSize : Nat := 256 * 1024 * 1024

/-- The largest `u64`. -/
def u64Max : Nat := 2 ^ 64 - 1

structure GpuResourceBudget where
  instanceBufferInitialSize : Nat
  instanceBufferMaxSize : Nat
deriving DecidableEq, Repr

namespace GpuResourceBudget

def normalizeInstanceBufferCapacity (instanceBufferInitialSize maxBufferSize : Nat) : Nat :=
  min (max instanceBufferInitialSize minInstanceBufferCapacity) maxBufferSize

/-- The initial and the maximum capacity. -/
def normalizeInstanceBufferLimits
    (instanceBufferInitialSize instanceBufferMaxSize deviceMaxBufferSize : Nat) : Nat × Nat :=
  let deviceMax := max deviceMaxBufferSize minInstanceBufferCapacity
  let profileMax :=
    min (max (max instanceBufferMaxSize instanceBufferInitialSize) minInstanceBufferCapacity)
      deviceMax
  (normalizeInstanceBufferCapacity instanceBufferInitialSize profileMax, profileMax)

/-- `u64::next_power_of_two`. -/
def nextPowerOfTwo (n : Nat) : Nat := 2 ^ Nat.clog 2 n

def nextInstanceBufferCapacity (current required maxCapacity : Nat) : Option Nat :=
  if maxCapacity < required then none
  else if required ≤ current then some current
  else
    let grown := min (max (min (current * 2) u64Max) (nextPowerOfTwo required)) maxCapacity
    if required ≤ grown then some grown else none

end GpuResourceBudget

/-- What the renderer asks the device for. -/
structure DeviceLimits where
  maxBufferSize : Nat
  maxStorageBufferBindingSize : Nat
  minStorageBufferOffsetAlignment : Nat
deriving DecidableEq, Repr

/-- The sizes of the records that are uploaded, and how many vertices a path
has. -/
structure InstanceLayout (ρ : Type) where
  sizeOf : PrimitiveKind → Nat
  sizeOfPathSprite : Nat
  sizeOfPathVertex : Nat
  sizeOfPathVertex_pos : 0 < sizeOfPathVertex
  vertices : ρ → Nat

/-- The buffer by its size, and whether the intermediate texture of the paths is
there. -/
structure WgpuResources where
  instanceBuffer : Nat
  pathIntermediateView : Bool
deriving DecidableEq, Repr

structure WgpuRenderer where
  resources : Option WgpuResources
  instanceBufferCapacity : Nat
  gpuResourceBudget : GpuResourceBudget
  maxBufferSize : Nat
  storageBufferAlignment : Nat
deriving DecidableEq, Repr

/-- One call of `write_instance_binding`: its label, the range it binds, and how
many bytes of it it writes. -/
structure Upload where
  label : String
  span : Span
  dataLen : Nat
deriving DecidableEq, Repr

/-- A frame while it is recorded. -/
structure RecordedFrame where
  instanceOffset : Nat
  uploads : List Upload
deriving DecidableEq, Repr

/-- The ranges bound so far. -/
def RecordedFrame.spans (rec : RecordedFrame) : List Span := rec.uploads.map Upload.span

inductive FrameError
  | sceneTooLarge (required cap : Nat)
  | uploadExceeds (size offset capacity : Nat)
deriving DecidableEq, Repr

namespace WgpuRenderer

variable {U ρ : Type} [AddCommGroup U] [LinearOrder U]

def deviceMaxBufferSize (limits : DeviceLimits) : Nat :=
  min (min limits.maxBufferSize limits.maxStorageBufferBindingSize) maxInstanceBufferSize

/-- The initial and the maximum capacity of a renderer. -/
def capacityLimits (budget : GpuResourceBudget) (limits : DeviceLimits) : Nat × Nat :=
  GpuResourceBudget.normalizeInstanceBufferLimits budget.instanceBufferInitialSize
    budget.instanceBufferMaxSize (deviceMaxBufferSize limits)

def new (budget : GpuResourceBudget) (limits : DeviceLimits) : WgpuRenderer where
  resources := some ⟨(capacityLimits budget limits).1, false⟩
  instanceBufferCapacity := (capacityLimits budget limits).1
  gpuResourceBudget := budget
  maxBufferSize := (capacityLimits budget limits).2
  storageBufferAlignment := limits.minStorageBufferOffsetAlignment

/-- What every allocation is aligned to. -/
def alignment (r : WgpuRenderer) : Nat := max r.storageBufferAlignment 1

/-! ### The dry run -/

def reserveInstanceLen (r : WgpuRenderer) (offset dataLen : Nat) : Nat :=
  nextMultipleOf offset (max r.storageBufferAlignment 1) + max dataLen 16

/-- How many bytes the records of one array take. -/
def arrayLen (layout : InstanceLayout ρ) (scene : Scene U ρ) (kind : PrimitiveKind) : Nat :=
  (scene.items kind).length * layout.sizeOf kind

def vertexLen (layout : InstanceLayout ρ) (paths : List (Primitive U ρ)) : Nat :=
  (paths.map fun path => layout.vertices path.rest * layout.sizeOfPathVertex).sum

/-- What one batch adds. -/
def reserveBatch (r : WgpuRenderer) (layout : InstanceLayout ρ) (offset : Nat)
    (batch : PrimitiveBatch U ρ) : Nat :=
  match batch.kind with
  | .path =>
    if vertexLen layout batch.primitives = 0 then offset
    else
      r.reserveInstanceLen (r.reserveInstanceLen offset (vertexLen layout batch.primitives))
        (pathSpriteCount batch.primitives * layout.sizeOfPathSprite)
  | _ => offset

def reserveArrays (r : WgpuRenderer) (layout : InstanceLayout ρ) (scene : Scene U ρ) : Nat :=
  [.quad, .shadow, .underline, .monochromeSprite, .polychromeSprite].foldl
    (fun offset kind => r.reserveInstanceLen offset (arrayLen layout scene kind)) 0

def frameInstanceBytes (r : WgpuRenderer) (layout : InstanceLayout ρ) (scene : Scene U ρ) :
    Option Nat :=
  scene.batches.map fun batches =>
    batches.foldl (r.reserveBatch layout) (r.reserveArrays layout scene)

/-! ### Growing and trimming -/

def growInstanceBuffer (r : WgpuRenderer) (required : Nat) : Except FrameError WgpuRenderer :=
  match GpuResourceBudget.nextInstanceBufferCapacity r.instanceBufferCapacity required
      r.maxBufferSize with
  | none => .error (.sceneTooLarge required r.maxBufferSize)
  | some capacity => .ok { r with
      resources := r.resources.map fun resources => { resources with instanceBuffer := capacity }
      instanceBufferCapacity := capacity }

def ensureInstanceCapacity (r : WgpuRenderer) (required : Nat) : Except FrameError WgpuRenderer :=
  if required ≤ r.instanceBufferCapacity then .ok r else r.growInstanceBuffer required

def trim (r : WgpuRenderer) : WgpuRenderer :=
  match r.resources with
  | none => r
  | some resources =>
    let initialCapacity :=
      (GpuResourceBudget.normalizeInstanceBufferLimits r.gpuResourceBudget.instanceBufferInitialSize
        r.gpuResourceBudget.instanceBufferMaxSize r.maxBufferSize).1
    if r.instanceBufferCapacity ≤ initialCapacity then r
    else { r with
      resources := some { resources with instanceBuffer := initialCapacity }
      instanceBufferCapacity := initialCapacity }

/-! ### The uploads -/

/-- The records are an array of `dataLen` bytes. -/
def writeInstanceBinding (r : WgpuRenderer) (label : String) (dataLen : Nat) (rec : RecordedFrame) :
    Except FrameError RecordedFrame :=
  let size := max dataLen 16
  let offset := nextMultipleOf rec.instanceOffset (max r.storageBufferAlignment 1)
  if offset + size ≤ r.instanceBufferCapacity then
    .ok ⟨offset + size, rec.uploads ++ [⟨label, ⟨offset, size⟩, dataLen⟩]⟩
  else .error (.uploadExceeds size offset r.instanceBufferCapacity)

def writeInstances (r : WgpuRenderer) (layout : InstanceLayout ρ) (scene : Scene U ρ)
    (rec : RecordedFrame) : Except FrameError RecordedFrame := do
  let rec ← r.writeInstanceBinding "quads_bind_group" (arrayLen layout scene .quad) rec
  let rec ← r.writeInstanceBinding "shadows_bind_group" (arrayLen layout scene .shadow) rec
  let rec ← r.writeInstanceBinding "underlines_bind_group" (arrayLen layout scene .underline) rec
  let rec ← r.writeInstanceBinding "monochrome_sprites_bind_group"
    (arrayLen layout scene .monochromeSprite) rec
  r.writeInstanceBinding "polychrome_sprites_bind_group"
    (arrayLen layout scene .polychromeSprite) rec

/-- The vertices of all paths of the batch.  The second component says whether
they were drawn. -/
def drawPathsToIntermediate (r : WgpuRenderer) (resources : WgpuResources)
    (layout : InstanceLayout ρ) (paths : List (Primitive U ρ)) (rec : RecordedFrame) :
    Except FrameError (RecordedFrame × Bool) :=
  let vertices := (paths.map fun path => layout.vertices path.rest).sum
  if vertices = 0 then .ok (rec, false)
  else do
    let rec ← r.writeInstanceBinding "path_rasterization_bind_group"
      (vertices * layout.sizeOfPathVertex) rec
    .ok (rec, resources.pathIntermediateView)

/-- `none` where `path_sprites` panics. -/
def drawPathsFromIntermediate (r : WgpuRenderer) (resources : WgpuResources)
    (layout : InstanceLayout ρ) (paths : List (Primitive U ρ)) (rec : RecordedFrame) :
    Option (Except FrameError RecordedFrame) :=
  (pathSprites paths).map fun sprites =>
    if resources.pathIntermediateView then
      r.writeInstanceBinding "path_sprites_bind_group"
        (sprites.length * layout.sizeOfPathSprite) rec
    else .ok rec

/-- One round of the loop over the batches.  The batches of the other kinds are
drawn from what was uploaded before, and no draw of theirs fails. -/
def drawBatch (r : WgpuRenderer) (resources : WgpuResources) (layout : InstanceLayout ρ)
    (batch : PrimitiveBatch U ρ) (rec : RecordedFrame) : Option (Except FrameError RecordedFrame) :=
  match batch.kind with
  | .path =>
    if batch.primitives.isEmpty then some (.ok rec)
    else
      match r.drawPathsToIntermediate resources layout batch.primitives rec with
      | .error e => some (.error e)
      | .ok (rec, false) => some (.ok rec)
      | .ok (rec, true) => r.drawPathsFromIntermediate resources layout batch.primitives rec
  | _ => some (.ok rec)

def drawBatches (r : WgpuRenderer) (resources : WgpuResources) (layout : InstanceLayout ρ) :
    List (PrimitiveBatch U ρ) → RecordedFrame → Option (Except FrameError RecordedFrame)
  | [], rec => some (.ok rec)
  | batch :: batches, rec =>
    (r.drawBatch resources layout batch rec).bind fun
      | .error e => some (.error e)
      | .ok rec => drawBatches r resources layout batches rec

/-- The renderer after the frame, and the frame.  `none` is a panic. -/
def recordFrame (r : WgpuRenderer) (layout : InstanceLayout ρ) (scene : Scene U ρ) :
    Option (WgpuRenderer × Except FrameError RecordedFrame) := do
  let required ← r.frameInstanceBytes layout scene
  match r.ensureInstanceCapacity required with
  | .error e => some (r, .error e)
  | .ok r =>
    let resources ← r.resources
    match r.writeInstances layout scene ⟨0, []⟩ with
    | .error e => some (r, .error e)
    | .ok rec =>
      let batches ← scene.batches
      let frame ← r.drawBatches resources layout batches rec
      some (r, frame)

/-! ### The renderer over time -/

inductive Action (U ρ : Type)
  | draw (scene : Scene U ρ)
  | trim
  | resize

/-- `ensure_intermediate_textures`. -/
def ensureIntermediateTextures (r : WgpuRenderer) : WgpuRenderer :=
  { r with resources := r.resources.map fun resources =>
      { resources with pathIntermediateView := true } }

/-- A new drawable size, or a new surface: the intermediate textures go. -/
def invalidateIntermediateTextures (r : WgpuRenderer) : WgpuRenderer :=
  { r with resources := r.resources.map fun resources =>
      { resources with pathIntermediateView := false } }

def step (layout : InstanceLayout ρ) (r : WgpuRenderer) : Action U ρ → Option WgpuRenderer
  | .draw scene => (r.ensureIntermediateTextures.recordFrame layout scene).map Prod.fst
  | .trim => some r.trim
  | .resize => some r.invalidateIntermediateTextures

end WgpuRenderer

end FcGpui
