import FcGpui.App.Effects
import FcGpui.Lib.Machine

/-!
# The asset cache

`CachedLoad` in `crates/gpui/src/asset_cache.rs`, and the functions of `App` and `Window` that keep
such loads by the type of the asset and the hash of its source.  A load has a task in the
background and one in the foreground.  The latter waits for the result, publishes it in a cell that
it holds weakly, and notifies the views that asked for the asset in the meantime.  Removing the
entry drops the cell and cancels the foreground task.

`loads` has every call of `Asset::load` that was ever made, and `notified` every call of `notify`
by a load.  `Asset::load` is made in one step.  A result may also arrive in the background after
the load was removed.

`AssetRun` is a run of the cache; its last fields are the records of what was asked, published,
returned and removed.
-/

namespace FcGpui

section AssetCache

variable {Source Output : Type}

/-- An asset as the callers name it. -/
structure Asset (Source : Type) where
  assetType : TypeId
  source : Source
deriving DecidableEq, Repr

structure AssetId where
  assetType : TypeId
  hash : UInt64
deriving DecidableEq, Repr

def assetId (hash : Source → UInt64) (asset : Asset Source) : AssetId :=
  ⟨asset.assetType, hash asset.source⟩

inductive CachedLoadState (Output : Type)
  /-- The views are a set. -/
  | loading (views : List EntityId)
  | loaded (result : Output)
deriving DecidableEq, Repr

namespace CachedLoadState

def get : CachedLoadState Output → Option Output
  | .loading _ => none
  | .loaded result => some result

def useBy (view : EntityId) : CachedLoadState Output → Option Output × CachedLoadState Output
  | .loading views => (none, .loading (if view ∈ views then views else views ++ [view]))
  | .loaded result => (some result, .loaded result)

end CachedLoadState

inductive ForegroundTask
  | waiting
  | finished
  | cancelled
deriving DecidableEq, Repr

/-- A load and its tasks. -/
structure CachedLoad (Source Output : Type) where
  /-- What `Asset::load` was called with. -/
  asset : Asset Source
  /-- The result of the task in the background, once there is one. -/
  background : Option Output := none
  /-- Nothing once the owner is dropped. -/
  state : Option (CachedLoadState Output) := some (.loading [])
  foreground : ForegroundTask := .waiting
deriving DecidableEq, Repr

namespace CachedLoad

def new (asset : Asset Source) : CachedLoad Source Output := { asset := asset }

/-- Dropping the owner: of the cell first, and then of the task. -/
def drop (load : CachedLoad Source Output) : CachedLoad Source Output :=
  { load with
    state := none
    foreground := if load.foreground = .waiting then .cancelled else load.foreground }

end CachedLoad

structure AssetCache (Source Output : Type) where
  loadingAssets : AssetId → Option Nat
  loads : List (CachedLoad Source Output)
  notified : List (Nat × EntityId)

namespace AssetCache

def new : AssetCache Source Output := ⟨fun _ => none, [], []⟩

/-- A new load, under the id of the asset. -/
def insertLoad (hash : Source → UInt64) (asset : Asset Source) (cx : AssetCache Source Output) :
    AssetCache Source Output :=
  { cx with
    loadingAssets := Function.update cx.loadingAssets (assetId hash asset) (some cx.loads.length)
    loads := cx.loads ++ [CachedLoad.new asset] }

/-- The place of the load, which is started if there is none. -/
def assetEntry (hash : Source → UInt64) (asset : Asset Source) (cx : AssetCache Source Output) :
    Nat × AssetCache Source Output :=
  match cx.loadingAssets (assetId hash asset) with
  | some load => (load, cx)
  | none => (cx.loads.length, cx.insertLoad hash asset)

def cell (cx : AssetCache Source Output) (load : Nat) : Option (CachedLoadState Output) :=
  cx.loads[load]?.bind CachedLoad.state

def setCell (cx : AssetCache Source Output) (load : Nat) (state : CachedLoadState Output) :
    AssetCache Source Output :=
  { cx with loads := cx.loads.modify load fun load => { load with state := some state } }

def fetchAsset (hash : Source → UInt64) (asset : Asset Source) (cx : AssetCache Source Output) :
    Option Output × AssetCache Source Output :=
  let (load, cx) := cx.assetEntry hash asset
  ((cx.cell load).bind CachedLoadState.get, cx)

/-- `Window::use_asset`, for the view that is drawn. -/
def useAsset (hash : Source → UInt64) (view : EntityId) (asset : Asset Source)
    (cx : AssetCache Source Output) : Option Output × AssetCache Source Output :=
  let (load, cx) := cx.assetEntry hash asset
  match cx.cell load with
  | none => (none, cx)
  | some state =>
    let (result, state) := state.useBy view
    (result, cx.setCell load state)

def removeAsset (hash : Source → UInt64) (asset : Asset Source) (cx : AssetCache Source Output) :
    AssetCache Source Output :=
  match cx.loadingAssets (assetId hash asset) with
  | none => cx
  | some load =>
    { cx with
      loadingAssets := Function.update cx.loadingAssets (assetId hash asset) none
      loads := cx.loads.modify load CachedLoad.drop }

/-- The task in the background is done, once. -/
def complete (load : Nat) (result : Output) (cx : AssetCache Source Output) : AssetCache Source Output :=
  { cx with
    loads := cx.loads.modify load fun load => { load with background := load.background.or (some result) } }

/-- What the foreground task does when it is run: nothing, before there is a result, or after it was
cancelled.  A cell that is loaded already is unreachable. -/
def runForeground (load : Nat) (cx : AssetCache Source Output) : Option (AssetCache Source Output) :=
  match cx.loads[load]? with
  | none => some cx
  | some it =>
    match it.foreground, it.background with
    | .waiting, some result =>
      match it.state with
      | none =>
        some { cx with loads := cx.loads.modify load fun it => { it with foreground := .finished } }
      | some (.loading views) =>
        some { cx with
          loads := cx.loads.modify load fun it =>
            { it with state := some (.loaded result), foreground := .finished }
          notified := cx.notified ++ views.map fun view => (load, view) }
      | some (.loaded _) => none
    | _, _ => some cx

end AssetCache

/-! ### Runs -/

inductive AssetAct (Source Output : Type)
  | fetchAsset (asset : Asset Source)
  | useAsset (view : EntityId) (asset : Asset Source)
  | removeAsset (asset : Asset Source)
  | complete (load : Nat) (result : Output)
  | runForeground (load : Nat)
deriving DecidableEq, Repr

structure AssetRun (Source Output : Type) where
  cx : AssetCache Source Output
  /-- The views that were told to wait, with the load that was the entry. -/
  asked : List (Nat × EntityId)
  published : List Nat
  /-- The results that were returned, with the load that was the entry. -/
  returned : List (Asset Source × Option Nat × Output)
  /-- The loads that were removed before they were published. -/
  stale : List Nat

namespace AssetRun

def new : AssetRun Source Output := ⟨AssetCache.new, [], [], [], []⟩

/-- A result, if there is one, is recorded as returned. -/
def answer (hash : Source → UInt64) (asset : Asset Source) (w : AssetRun Source Output) :
    Option Output × AssetCache Source Output → AssetRun Source Output
  | (result, cx) =>
    { w with
      cx := cx
      returned := w.returned ++
        (result.map fun result => (asset, cx.loadingAssets (assetId hash asset), result)).toList }

/-- Where there is none, the view is recorded as one that waits. -/
def answerView (hash : Source → UInt64) (view : EntityId) (asset : Asset Source)
    (w : AssetRun Source Output) : Option Output × AssetCache Source Output → AssetRun Source Output
  | (result, cx) =>
    { w.answer hash asset (result, cx) with
      asked := if result.isNone then
          w.asked ++ (cx.loadingAssets (assetId hash asset)).toList.map fun load => (load, view)
        else w.asked }

def step (hash : Source → UInt64) (w : AssetRun Source Output) :
    AssetAct Source Output → Option (AssetRun Source Output)
  | .fetchAsset asset => some (w.answer hash asset (w.cx.fetchAsset hash asset))
  | .useAsset view asset => some (w.answerView hash view asset (w.cx.useAsset hash view asset))
  | .removeAsset asset =>
    some { w with
      cx := w.cx.removeAsset hash asset
      stale := w.stale ++
        ((w.cx.loadingAssets (assetId hash asset)).filter fun load => load ∉ w.published).toList }
  | .complete load result => some { w with cx := w.cx.complete load result }
  | .runForeground load =>
    (w.cx.runForeground load).map fun cx =>
      { w with
        cx := cx
        published := if (cx.cell load).any (fun state => state.get.isSome) ∧ load ∉ w.published then
            w.published ++ [load]
          else w.published }

end AssetRun

end AssetCache

end FcGpui
