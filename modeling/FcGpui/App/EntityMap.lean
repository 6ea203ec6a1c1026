import FcGpui.Window.Frame
import FcGpui.Lib.Machine

/-!
# The entity map

`EntityMap` in `crates/gpui/src/app/entity_map.rs`, and the handles that count
references in it.  Cloning a handle and upgrading a weak one add to the count of the
entity, dropping a handle takes from it.  The handle that takes the last one only
queues the entity; `take_dropped` frees what is queued and gives back the entities
that were inserted.

A key of the slot map is never issued again, so keys are numbers that count up.  The
locks make every call atomic.  A function gives `none` where an `expect`, an `unwrap`
or an assertion fails.

`EntityWorld` is a map with the handles that are alive; a reserved slot is a handle
too.  What was inserted so far and what `take_dropped` gave back so far are not in the
source.
-/

namespace FcGpui

structure EntityMap (E : Type) where
  entities : AList fun _ : EntityId => E
  accessedEntities : Finset EntityId
  counts : AList fun _ : EntityId => Nat
  droppedEntityIds : List EntityId
  /-- The next key of the slot map `counts`. -/
  nextKey : EntityId

namespace EntityMap

variable {E : Type}

def new : EntityMap E := ⟨∅, ∅, ∅, [], 0⟩

def reserve (map : EntityMap E) : EntityId × EntityMap E :=
  (map.nextKey,
    { map with counts := map.counts.insert map.nextKey 1, nextKey := map.nextKey + 1 })

def insert (map : EntityMap E) (slot : EntityId) (entity : E) : EntityMap E :=
  { map with
    accessedEntities := Insert.insert slot map.accessedEntities
    entities := map.entities.insert slot entity }

/-- What cloning a handle does to the map. -/
def cloneHandle (map : EntityMap E) (entityId : EntityId) : Option (EntityMap E) := do
  let prevCount ← map.counts.lookup entityId
  if prevCount = 0 then none
  else some { map with counts := map.counts.insert entityId (prevCount + 1) }

/-- What dropping a handle does to the map. -/
def dropHandle (map : EntityMap E) (entityId : EntityId) : Option (EntityMap E) := do
  let prevCount ← map.counts.lookup entityId
  if prevCount = 0 then none
  else some { map with
    counts := map.counts.insert entityId (prevCount - 1)
    droppedEntityIds :=
      if prevCount = 1 then map.droppedEntityIds ++ [entityId] else map.droppedEntityIds }

/-- Whether a weak handle can be upgraded, and the map afterwards. -/
def upgrade (map : EntityMap E) (entityId : EntityId) : Bool × EntityMap E :=
  match map.counts.lookup entityId with
  | none | some 0 => (false, map)
  | some (count + 1) => (true, { map with counts := map.counts.insert entityId (count + 2) })

/-- The loop of `take_dropped`.  An entity that was reserved may not have been
inserted. -/
def takeIds : List EntityId → EntityMap E → Option (List (EntityId × E) × EntityMap E)
  | [], map => some ([], map)
  | entityId :: entityIds, map => do
    let count ← map.counts.lookup entityId
    if count = 0 then
      let (taken, rest) ← takeIds entityIds { map with
        counts := map.counts.erase entityId
        accessedEntities := map.accessedEntities.erase entityId
        entities := map.entities.erase entityId }
      some (((map.entities.lookup entityId).map (entityId, ·)).toList ++ taken, rest)
    else none

def takeDropped (map : EntityMap E) : Option (List (EntityId × E) × EntityMap E) :=
  takeIds map.droppedEntityIds { map with droppedEntityIds := [] }

end EntityMap

/-- A handle, or the slot that a reservation gave. -/
structure EntityHandle where
  entityId : EntityId
  slot : Bool
deriving DecidableEq

structure EntityWorld (E : Type) where
  map : EntityMap E
  handles : List EntityHandle
  weakHandles : List EntityId
  inserted : List (EntityId × E)
  taken : List (EntityId × E)

/-- What is done with a handle, given by its place among the handles that are alive. -/
inductive EntityAct (E : Type)
  | reserve
  | insert (slot : Nat) (entity : E)
  | clone (handle : Nat)
  | drop (handle : Nat)
  | downgrade (handle : Nat)
  | upgrade (weakHandle : Nat)
  | takeDropped

namespace EntityWorld

variable {E : Type}

def new : EntityWorld E := ⟨EntityMap.new, [], [], [], []⟩

/-- How many handles of an entity are alive. -/
def live (w : EntityWorld E) (entityId : EntityId) : Nat :=
  (w.handles.map EntityHandle.entityId).count entityId

/-- The handle that is acted on is alive, and only a slot is inserted into. -/
def CanDo (w : EntityWorld E) : EntityAct E → Prop
  | .reserve | .takeDropped => True
  | .insert slot _ => ∃ entityId, w.handles[slot]? = some ⟨entityId, true⟩
  | .clone handle | .drop handle | .downgrade handle => handle < w.handles.length
  | .upgrade weakHandle => weakHandle < w.weakHandles.length

def perform (w : EntityWorld E) : EntityAct E → Option (EntityWorld E)
  | .reserve =>
    let (entityId, map) := w.map.reserve
    some { w with map := map, handles := w.handles ++ [⟨entityId, true⟩] }
  | .insert slot entity => do
    let handle ← w.handles[slot]?
    if handle.slot then
      some { w with
        map := w.map.insert handle.entityId entity
        handles := w.handles.set slot ⟨handle.entityId, false⟩
        inserted := w.inserted ++ [(handle.entityId, entity)] }
    else none
  | .clone handle => do
    let handle ← w.handles[handle]?
    let map ← w.map.cloneHandle handle.entityId
    some { w with map := map, handles := w.handles ++ [⟨handle.entityId, false⟩] }
  | .drop ix => do
    let handle ← w.handles[ix]?
    let map ← w.map.dropHandle handle.entityId
    some { w with map := map, handles := w.handles.eraseIdx ix }
  | .downgrade handle => do
    let handle ← w.handles[handle]?
    some { w with weakHandles := w.weakHandles ++ [handle.entityId] }
  | .upgrade weakHandle => do
    let entityId ← w.weakHandles[weakHandle]?
    match w.map.upgrade entityId with
    | (true, map) => some { w with map := map, handles := w.handles ++ [⟨entityId, false⟩] }
    | (false, map) => some { w with map := map }
  | .takeDropped => do
    let (taken, map) ← w.map.takeDropped
    some { w with map := map, taken := w.taken ++ taken }

end EntityWorld

end FcGpui
