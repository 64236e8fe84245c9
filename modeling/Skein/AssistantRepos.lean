import Skein.Machine
import Skein.OrderedMap
import Skein.WireTypes

/-!
# Assistants on the memory and the SQLite driver

The `assistants` repo of `MemorySkeinStore` and of `SqliteSkeinStore` over the same two tables:
the live rows, and the version snapshots under their pair key. The memory driver keeps clones of
the rows, the SQLite driver keeps them as JSON text, so a row it cannot serialize is refused and
what is read back is the parsed text; a call that throws inside its transaction leaves nothing
behind. Reads and searches are left out. An optional payload that is absent stands for
`undefined`, and for `null` where the source asks with `??`.
-/
namespace Skein

/-- What a live row shares with the snapshot of its version. -/
structure AssistantFields (J : Type*) where
  graphId : String
  config : J
  context : J
  metadata : J
  name : String
  description : Option String
  deriving DecidableEq, Repr

structure Assistant (J : Type*) extends AssistantFields J where
  assistantId : AssistantId
  createdAt : Timestamp
  updatedAt : Timestamp
  version : ℕ
  deriving DecidableEq, Repr

structure AssistantVersion (J : Type*) extends AssistantFields J where
  assistantId : AssistantId
  createdAt : Timestamp
  version : ℕ
  deriving DecidableEq, Repr

structure AssistantCreate (J : Type*) where
  graphId : String
  assistantId : Option AssistantId := none
  name : Option String := none
  description : Option String := none
  config : Option J := none
  context : Option J := none
  metadata : Option J := none
  deriving DecidableEq, Repr

structure AssistantUpdate (J : Type*) where
  graphId : Option String := none
  name : Option String := none
  description : Option String := none
  config : Option J := none
  context : Option J := none
  metadata : Option J := none
  deriving DecidableEq, Repr

/-- `toVersion`, that is also the row `version` writes. -/
def Assistant.toVersion {J : Type*} (assistant : Assistant J) (createdAt : Timestamp) :
    AssistantVersion J :=
  { assistant with createdAt }

section
variable {J : Type*} [WireJson J]

/-- The row `create` writes. -/
def AssistantCreate.row (input : AssistantCreate J) (id : AssistantId) (now : Timestamp) :
    Assistant J where
  graphId := input.graphId
  config := input.config.getD ∅
  context := input.context.getD ∅
  metadata := input.metadata.getD ∅
  name := input.name.getD input.graphId
  description := input.description
  assistantId := id
  createdAt := now
  updatedAt := now
  version := 1

/-- The row `update` writes: metadata is merged, the other fields of the patch replace. -/
def AssistantUpdate.row (patch : AssistantUpdate J) (existing : Assistant J) (next : ℕ)
    (now : Timestamp) : Assistant J where
  graphId := patch.graphId.getD existing.graphId
  config := patch.config.getD existing.config
  context := patch.context.getD existing.context
  metadata := (patch.metadata.map fun m => WireJson.spread existing.metadata m).getD
    existing.metadata
  name := patch.name.getD existing.name
  description := patch.description.or existing.description
  assistantId := existing.assistantId
  createdAt := existing.createdAt
  updatedAt := now
  version := next

/-- `JSON.parse(JSON.stringify(row))` -/
def AssistantFields.roundTrip (fields : AssistantFields J) : Option (AssistantFields J) := do
  let config ← WireJson.roundTrip fields.config
  let context ← WireJson.roundTrip fields.context
  let metadata ← WireJson.roundTrip fields.metadata
  return { fields with config := config, context := context, metadata := metadata }

def Assistant.roundTrip (row : Assistant J) : Option (Assistant J) :=
  row.toAssistantFields.roundTrip.map fun fields => { row with toAssistantFields := fields }

def AssistantVersion.roundTrip (row : AssistantVersion J) : Option (AssistantVersion J) :=
  row.toAssistantFields.roundTrip.map fun fields => { row with toAssistantFields := fields }

end

/-- The live rows and the snapshots of a driver. -/
structure AssistantTables (J : Type*) where
  assistants : OrderedMap AssistantId (Assistant J) := ∅
  versions : OrderedMap (AssistantId × ℕ) (AssistantVersion J) := ∅

inductive AssistantCall (J : Type*)
  | create (input : AssistantCreate J) (uuid : AssistantId) (now : Timestamp)
  | update (id : AssistantId) (patch : AssistantUpdate J) (now : Timestamp)
  | setLatest (id : AssistantId) (version : ℕ) (now : Timestamp)
  | delete (id : AssistantId)

namespace AssistantTables
variable {J : Type*} (t : AssistantTables J)

/-- `#maxVersionOf`, and `coalesce(max(version), 0)` over the rows of an assistant. -/
def maxVersionOf (id : AssistantId) : ℕ :=
  t.versions.values.foldl (fun highest v =>
    if v.assistantId = id ∧ highest < v.version then v.version else highest) 0

/-- A live row and the snapshot of its version are written together. -/
def writeBoth (id : AssistantId) (row : Assistant J) (snapshot : AssistantVersion J) :
    AssistantTables J :=
  ⟨t.assistants.set id row, t.versions.set (id, row.version) snapshot⟩

/-- The rows of an assistant go, and its snapshots with them. -/
def remove (id : AssistantId) : AssistantTables J :=
  ⟨t.assistants.erase id, t.versions.filter fun _ v => decide (v.assistantId ≠ id)⟩

end AssistantTables

namespace MemoryAssistants
variable {J : Type*} [WireJson J] (t : AssistantTables J)

def notFound (id : AssistantId) : Thrown :=
  .http (.notFound ("Assistant \"" ++ id.value ++ "\" not found."))

def create (input : AssistantCreate J) (uuid : AssistantId) (now : Timestamp) :
    Except Thrown (Assistant J) × AssistantTables J :=
  let id := input.assistantId.getD uuid
  if t.assistants.contains id then
    (.error (.http (.conflict ("Assistant \"" ++ id.value ++ "\" already exists."))), t)
  else
    let row := input.row id now
    (.ok row, t.writeBoth id row (row.toVersion row.createdAt))

def update (id : AssistantId) (patch : AssistantUpdate J) (now : Timestamp) :
    Except Thrown (Assistant J) × AssistantTables J :=
  match t.assistants.get? id with
  | none => (.error (notFound id), t)
  | some existing =>
    -- Not the version of the live row: that one is lower after a rollback.
    let row := patch.row existing (t.maxVersionOf id + 1) now
    (.ok row, t.writeBoth id row (row.toVersion now))

def setLatest (id : AssistantId) (version : ℕ) (now : Timestamp) :
    Except Thrown (Assistant J) × AssistantTables J :=
  match t.assistants.get? id with
  | none => (.error (notFound id), t)
  | some existing =>
    match t.versions.get? (id, version) with
    | none => (.error (.http (.notFound ("Version " ++ toString version ++ " of assistant \"" ++
        id.value ++ "\" not found."))), t)
    | some target =>
      let row : Assistant J := { existing with
        graphId := target.graphId
        name := target.name
        description := target.description
        config := target.config
        context := target.context
        metadata := target.metadata
        version := target.version
        updatedAt := now }
      (.ok row, { t with assistants := t.assistants.set id row })

end MemoryAssistants

namespace SqliteAssistants
variable {J : Type*} [WireJson J] (t : AssistantTables J)

/-- `JSON.stringify([id, version])`, for an identifier without control characters. -/
def pairKey (id : AssistantId) (version : ℕ) : String :=
  "[" ++ id.value.quote ++ "," ++ toString version ++ "]"

def notFound (table key : String) : Thrown :=
  .http (.notFound (table ++ " \"" ++ key ++ "\" not found."))

/-- The two writes of a transaction: the row, and the snapshot of the row as it was read
back. -/
def writeVersion (id : AssistantId) (row : Assistant J) (createdAt : Assistant J → Timestamp) :
    Except Thrown (Assistant J) × AssistantTables J :=
  match row.roundTrip with
  | none => (.error .unserializable, t)
  | some written =>
    match (written.toVersion (createdAt written)).roundTrip with
    | none => (.error .unserializable, t)
    | some snapshot => (.ok written, t.writeBoth id written snapshot)

def create (input : AssistantCreate J) (uuid : AssistantId) (now : Timestamp) :
    Except Thrown (Assistant J) × AssistantTables J :=
  let id := input.assistantId.getD uuid
  if t.assistants.contains id then
    (.error (.http (.conflict ("assistants \"" ++ id.value ++ "\" already exists."))), t)
  else writeVersion t id (input.row id now) Assistant.createdAt

def update (id : AssistantId) (patch : AssistantUpdate J) (now : Timestamp) :
    Except Thrown (Assistant J) × AssistantTables J :=
  match t.assistants.get? id with
  | none => (.error (notFound "assistants" id.value), t)
  | some existing =>
    writeVersion t id (patch.row existing (t.maxVersionOf id + 1) now) Assistant.updatedAt

/-- `{ ...existing, ...selected }`: a description that the parsed snapshot does not have is not
spread, and the one of the live row stays. -/
def restored (existing : Assistant J) (selected : AssistantVersion J) (now : Timestamp) :
    Assistant J :=
  { selected with
    description := selected.description.or existing.description
    createdAt := existing.createdAt
    updatedAt := now }

def setLatest (id : AssistantId) (version : ℕ) (now : Timestamp) :
    Except Thrown (Assistant J) × AssistantTables J :=
  match t.assistants.get? id with
  | none => (.error (notFound "assistants" id.value), t)
  | some existing =>
    match t.versions.get? (id, version) with
    | none => (.error (notFound "assistant_versions" (pairKey id version)), t)
    | some selected =>
      match (restored existing selected now).roundTrip with
      | none => (.error .unserializable, t)
      | some written => (.ok written, { t with assistants := t.assistants.set id written })

end SqliteAssistants

section
variable {J : Type*} [WireJson J]

/-- A call to the memory driver. -/
def memoryAssistants : Machine (AssistantTables J) (AssistantCall J) where
  step t
    | .create input uuid now => some (MemoryAssistants.create t input uuid now).2
    | .update id patch now => some (MemoryAssistants.update t id patch now).2
    | .setLatest id version now => some (MemoryAssistants.setLatest t id version now).2
    | .delete id => some (t.remove id)

/-- A call to the SQLite driver; the snapshots of a deleted assistant go by the cascade. -/
def sqliteAssistants : Machine (AssistantTables J) (AssistantCall J) where
  step t
    | .create input uuid now => some (SqliteAssistants.create t input uuid now).2
    | .update id patch now => some (SqliteAssistants.update t id patch now).2
    | .setLatest id version now => some (SqliteAssistants.setLatest t id version now).2
    | .delete id => some (t.remove id)

end
end Skein
