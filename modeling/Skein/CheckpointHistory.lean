import Skein.FaultyCalls
import Skein.OrderedMap
import Skein.Reachability
import Skein.ThreadCheckpointer

/-!
# Direct manipulation of a thread's checkpoint history

Copying a history, rolling it back and pruning it. Every call of the checkpointer
may fail and every `throwIfAborted` may stop the operation. The UUIDs of the
scratch thread ids are a list of draws, consumed one by one while the id drawn is
taken. A joined key `namespace\0id` is the coordinate, and tuples are told apart
by it, which for a listing is the same as by identity.
-/
namespace Skein

inductive HistoryOperation
  | prune | rollback
  deriving DecidableEq, Repr

namespace HistoryOperation

def name : HistoryOperation → String
  | prune => "prune"
  | rollback => "rollback"

def gerund : HistoryOperation → String
  | prune => "pruning"
  | rollback => "rolling back"

end HistoryOperation

inductive HistoryError
  /-- The abort signal's reason. -/
  | aborted
  /-- A checkpointer call's own error. -/
  | failed
  /-- Every id drawn so far was taken, and the loop goes on. -/
  | drawing
  | replaceFailed (message : String) (cause : HistoryError)
  deriving DecidableEq, Repr

/-- The scratch thread id made from one UUID. -/
def scratchThreadId (operation : HistoryOperation) (threadId uuid : String) : String :=
  threadId ++ "::skein-" ++ operation.name ++ ":" ++ uuid

/-- The message of a replacement that failed after its backup was written. -/
def backupMessage (operation : HistoryOperation) (threadId scratchThreadId : String) : String :=
  operation.gerund ++ " thread \"" ++ threadId ++ "\" failed; " ++
    "its checkpoint backup survives under \"" ++ scratchThreadId ++ "\""

abbrev HistoryM (C : ThreadCheckpointer) (α : Type) : Type := FaultM C.Store HistoryError α

/-- `byCoordinate.get`: a later tuple at the same coordinate wins. -/
def byCoordinate (tuples : List CheckpointTuple) (c : Coordinate) : Option CheckpointTuple :=
  tuples.reverse.find? fun tuple => tuple.coordinate = c

/-- What a visit of the tuple at `c` adds: the pointers to tuples that exist. -/
def pointers (tuples : List CheckpointTuple) (c : Coordinate) : List Coordinate :=
  match byCoordinate tuples c with
  | some tuple => tuple.toValue.coords.filter fun c => (byCoordinate tuples c).isSome
  | none => []

/-- Retain explicit cross-namespace pointers, also those carried by pending task writes. -/
def referencedCheckpoints (tuples seeds : List CheckpointTuple) : List CheckpointTuple :=
  let kept := Reachability.closure (pointers tuples) tuples.length
    (seeds.map CheckpointTuple.coordinate)
  tuples.filter fun tuple => tuple.coordinate ∈ kept

def latestByNamespace (tuples : List CheckpointTuple) : OrderedMap String CheckpointTuple :=
  tuples.foldl (fun latest tuple =>
    if latest.contains tuple.ns then latest else latest.set tuple.ns tuple) ∅

/-- The tuples that a prune keeps, in listing order. -/
def keepLatest (tuples : List CheckpointTuple) : List CheckpointTuple :=
  referencedCheckpoints tuples (latestByNamespace tuples).values

/-- Drop a parent link that leaves the kept coordinates. -/
def reroot (coordinates : List Coordinate) (tuple : CheckpointTuple) : CheckpointTuple :=
  match tuple.parentCoordinate with
  | some parent => if parent ∈ coordinates then tuple else { tuple with parentId := none }
  | none => { tuple with parentId := none }

/-- What a prune replays, oldest first. -/
def rootedKeep (tuples : List CheckpointTuple) : List CheckpointTuple :=
  ((keepLatest tuples).map (reroot ((keepLatest tuples).map CheckpointTuple.coordinate))).reverse

/-- The root checkpoints by id. -/
def rootById (tuples : List CheckpointTuple) (id : String) : Option CheckpointTuple :=
  byCoordinate tuples ⟨"", id⟩

/-- The walk along parent links. Each step adds an id to `seen`, so fuel for every
tuple and one more reaches the loop's own end. -/
def ancestors (tuples : List CheckpointTuple) :
    ℕ → (seen : List String) → (cursor : Option String) → List CheckpointTuple
  | 0, _, _ => []
  | _ + 1, _, none => []
  | fuel + 1, seen, some id =>
    match rootById tuples id with
    | none => []
    | some tuple =>
      if id ∈ seen then [] else tuple :: ancestors tuples fuel (id :: seen) tuple.parentId

/-- A child tuple stamped no later than the base; a missing stamp precedes nothing. -/
def precedesBase (base tuple : CheckpointTuple) : Bool :=
  match base.checkpoint.ts, tuple.checkpoint.ts with
  | some timestamp, some childTimestamp =>
    tuple.ns ≠ "" && timestamp ≠ "" && childTimestamp ≠ "" && childTimestamp ≤ timestamp
  | _, _ => false

/-- What a rollback keeps before pointers are followed. -/
def rollbackSeeds (tuples : List CheckpointTuple) (base : CheckpointTuple) : List CheckpointTuple :=
  ancestors tuples (tuples.length + 1) [] (some base.checkpoint.id) ++
    tuples.filter (precedesBase base)

/-- What a rollback replays, oldest first. -/
def rollbackKeep (tuples : List CheckpointTuple) (base : CheckpointTuple) : List CheckpointTuple :=
  (referencedCheckpoints tuples (rollbackSeeds tuples base)).reverse

/-- The writes of each task as `[channel, value]`, in the order in which the tasks appear. -/
def byTask (writes : List PendingWrite) : OrderedMap String (List (String × Value)) :=
  writes.foldl (fun byTask w => byTask.set w.taskId
    ((byTask.get? w.taskId).getD [] ++ [(w.channel, w.value)])) ∅

section Operations
variable (C : ThreadCheckpointer) (cloneCheckpoint : Checkpoint → Checkpoint)

def throwIfAborted : HistoryM C Unit := .check .aborted

def listCheckpoints (threadId : String) (limit : Option ℕ) : HistoryM C (List CheckpointTuple) :=
  .read .failed fun s =>
    match limit with
    | none => C.list s threadId
    | some limit => (C.list s threadId).take limit

def deleteThread (threadId : String) : HistoryM C Unit :=
  .modify .failed fun s => C.deleteThread s threadId

/-- Re-put a tuple with its parent link. -/
def putTuple (targetId : String) (tuple : CheckpointTuple) : HistoryM C Unit :=
  .modify .failed fun s =>
    C.put s ⟨targetId, tuple.ns, tuple.parentId⟩ (cloneCheckpoint tuple.checkpoint)
      tuple.metadata.orEmpty tuple.checkpoint.channelVersions

/-- Re-apply the writes of one task. -/
def putGroup (targetId : String) (tuple : CheckpointTuple)
    (group : String × List (String × Value)) : HistoryM C Unit := do
  throwIfAborted C
  .modify .failed fun s =>
    C.putWrites s ⟨targetId, tuple.ns, some tuple.checkpoint.id⟩ group.2 group.1

/-- The body of the replay loop; no writes means no groups. -/
def replayCheckpoint (targetId : String) (tuple : CheckpointTuple) : HistoryM C Unit := do
  throwIfAborted C
  putTuple C cloneCheckpoint targetId tuple
  (byTask tuple.pendingWrites).entries.forM (putGroup C targetId tuple)

/-- Write `tuples`, oldest first, under `targetId`. -/
def replayCheckpoints (targetId : String) (tuples : List CheckpointTuple) : HistoryM C Unit :=
  tuples.forM (replayCheckpoint C cloneCheckpoint targetId)

/-- `do { … } while (…)`: draw until nothing is listed under the id. -/
def drawScratchThread (operation : HistoryOperation) (threadId : String) :
    (uuids : List String) → HistoryM C String
  | [] => .throw .drawing
  | uuid :: uuids => do
    throwIfAborted C
    let taken ← listCheckpoints C (scratchThreadId operation threadId uuid) (some 1)
    if taken.length > 0 then drawScratchThread operation threadId uuids
    else return scratchThreadId operation threadId uuid

/-- Delete and replay, with a copy under a scratch id until that has worked. -/
def replaceCheckpointHistory (operation : HistoryOperation) (threadId : String)
    (uuids : List String) (tuples : List CheckpointTuple) : HistoryM C Unit := do
  let scratch ← drawScratchThread C operation threadId uuids
  throwIfAborted C
  replayCheckpoints C cloneCheckpoint scratch tuples
  FaultM.mapError (.replaceFailed (backupMessage operation threadId scratch)) do
    throwIfAborted C
    deleteThread C threadId
    replayCheckpoints C cloneCheckpoint threadId tuples
  -- past this point the replacement has worked, and only an abort is reported
  throwIfAborted C
  FaultM.ignore (deleteThread C scratch)

def copyCheckpointHistory (sourceId targetId : String) : HistoryM C Unit := do
  let tuples ← listCheckpoints C sourceId none
  replayCheckpoints C cloneCheckpoint targetId tuples.reverse

def pruneThreadCheckpointsToLatest (threadId : String) (uuids : List String) : HistoryM C Bool := do
  let tuples ← listCheckpoints C threadId none
  if (keepLatest tuples).length = tuples.length then return false
  else
    replaceCheckpointHistory C cloneCheckpoint .prune threadId uuids (rootedKeep tuples)
    return true

def rollbackThreadCheckpointsTo (threadId : String) (baseCheckpointId : Option String)
    (uuids : List String) : HistoryM C Unit := do
  throwIfAborted C
  match baseCheckpointId with
  | none => deleteThread C threadId
  | some baseCheckpointId =>
    let tuples ← listCheckpoints C threadId none
    match rootById tuples baseCheckpointId with
    | none => return ()
    | some base =>
      replaceCheckpointHistory C cloneCheckpoint .rollback threadId uuids (rollbackKeep tuples base)

end Operations
end Skein
