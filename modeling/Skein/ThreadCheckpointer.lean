import Skein.Checkpoints
import Mathlib.Logic.Relation

/-!
# Checkpoint tuples and the checkpointer surface

A checkpointer is code of the graph runtime, so it is a parameter: four
operations on a store of its own, and in `Lawful` what the callers rely on. It
keeps one tuple at each coordinate of a thread, an operation on one thread leaves
the others alone, and a listing has each namespace's newest checkpoint first.
Recorded writes may be listed in another order as long as the values that one
task wrote to one channel keep theirs.
-/
namespace Skein

structure Checkpoint where
  id : String
  ts : Option String := none
  channelVersions : Value := .null
  fields : List (String × Value) := []
  deriving Repr

def Checkpoint.toValue (checkpoint : Checkpoint) : Value :=
  .obj (("id", .str checkpoint.id) :: ("channel_versions", checkpoint.channelVersions) ::
    (checkpoint.ts.toList.map fun ts => ("ts", .str ts)) ++ checkpoint.fields)

structure PendingWrite where
  taskId : String
  channel : String
  value : Value
  deriving Repr

def PendingWrite.toValue (write : PendingWrite) : Value :=
  .array [.str write.taskId, .str write.channel, write.value]

/-- The checkpointer builds `config` from the tuple's own coordinates and
`parentConfig` from its namespace and its parent's id. -/
structure CheckpointTuple where
  ns : String := ""
  checkpoint : Checkpoint
  metadata : Value := .null
  parentId : Option String := none
  pendingWrites : List PendingWrite := []
  deriving Repr

/-- `{ configurable: { checkpoint_ns, checkpoint_id } }`. -/
def configValue (ns id : String) : Value :=
  .obj [("configurable", .obj [("checkpoint_ns", .str ns), ("checkpoint_id", .str id)])]

@[simp] theorem configValue_coords (ns id : String) : (configValue ns id).coords = [⟨ns, id⟩] := by
  simp [configValue, Value.coords, Value.fieldCoords, ownCoords, mapCoords, countsDeltas,
    List.lookup_cons, namespaceText, Value.text]

/-- `metadata ?? {}`. -/
def Value.orEmpty : Value → Value
  | .null => .obj []
  | value => value

namespace CheckpointTuple

def coordinate (x : CheckpointTuple) : Coordinate := ⟨x.ns, x.checkpoint.id⟩

/-- The tuple as the record that `visit` reads. -/
def fields (x : CheckpointTuple) : List (String × Value) :=
  ("config", configValue x.ns x.checkpoint.id) :: ("checkpoint", x.checkpoint.toValue) ::
    ("metadata", x.metadata) :: ("pendingWrites", .array (x.pendingWrites.map PendingWrite.toValue)) ::
    x.parentId.toList.map fun parentId => ("parentConfig", configValue x.ns parentId)

def toValue (x : CheckpointTuple) : Value := .obj x.fields

/-- The tuple points at the coordinate. -/
def References (x : CheckpointTuple) (c : Coordinate) : Prop := Mentions x.toValue c

/-- The tuple's state needs its ancestors' writes. -/
def NeedsParent (x : CheckpointTuple) : Prop := countsDeltas x.fields = true

/-- The coordinate that the parent link names. -/
def parentCoordinate (x : CheckpointTuple) : Option Coordinate :=
  x.parentId.map fun parentId => ⟨x.ns, parentId⟩

theorem mem_writeCoords {writes : List PendingWrite} {c : Coordinate} :
    c ∈ Value.itemCoords (writes.map PendingWrite.toValue) ↔
      ∃ write ∈ writes, c ∈ write.value.coords := by
  induction writes with
  | nil => simp [Value.itemCoords]
  | cons write rest ih =>
    simp [Value.itemCoords, ih, PendingWrite.toValue, Value.coords]

/-- What a tuple points at: itself, what its data mentions, and its parent while it
needs the parent's writes. -/
theorem references_iff {x : CheckpointTuple} {c : Coordinate} :
    x.References c ↔ c = x.coordinate ∨ Mentions x.checkpoint.toValue c ∨ Mentions x.metadata c ∨
      (∃ write ∈ x.pendingWrites, Mentions write.value c) ∨
      (x.NeedsParent ∧ x.parentCoordinate = some c) := by
  simp only [References, NeedsParent, ← mem_coords_iff]
  have hown : ownCoords x.fields = [] := by
    cases hparent : x.parentId <;> simp [ownCoords, fields, List.lookup_cons, hparent]
  have hmap : mapCoords x.fields "checkpoint_map" = [] := by
    cases hparent : x.parentId <;> simp [mapCoords, fields, List.lookup_cons, hparent]
  have hparents : mapCoords x.fields "parents" = [] := by
    cases hparent : x.parentId <;> simp [mapCoords, fields, List.lookup_cons, hparent]
  have hparentCoords : Value.parentCoords x.fields = x.parentCoordinate.toList := by
    cases hparent : x.parentId <;>
      simp [Value.parentCoords, fields, parentCoordinate, hparent]
  have hfields : ∀ c, c ∈ Value.fieldCoords x.fields ↔ c = x.coordinate ∨
      c ∈ x.checkpoint.toValue.coords ∨ c ∈ x.metadata.coords ∨
        ∃ write ∈ x.pendingWrites, c ∈ write.value.coords := by
    intro c
    cases hparent : x.parentId <;>
      simp [Value.fieldCoords, fields, coordinate, Value.coords, mem_writeCoords, hparent]
  have hdelta : c ∈ (if countsDeltas x.fields = true then x.parentCoordinate.toList else []) ↔
      countsDeltas x.fields = true ∧ x.parentCoordinate = some c := by
    split_ifs with hcounts <;> simp [hcounts]
  rw [toValue, Value.coords, hown, hmap, hparents, hparentCoords, List.mem_append, hfields,
    List.nil_append, List.nil_append, List.nil_append, hdelta, or_comm, or_assoc, or_assoc, or_assoc]

/-- The values that one task wrote to one channel, in order. -/
def writesOf (task channel : String) (writes : List PendingWrite) : List Value :=
  (writes.filter fun w => w.taskId = task ∧ w.channel = channel).map PendingWrite.value

/-- The same writes of every task to every channel. -/
def SameWrites (writes writes' : List PendingWrite) : Prop :=
  ∀ task channel, writesOf task channel writes = writesOf task channel writes'

theorem writesOf_append (task channel : String) (writes writes' : List PendingWrite) :
    writesOf task channel (writes ++ writes') =
      writesOf task channel writes ++ writesOf task channel writes' := by
  simp [writesOf]

theorem SameWrites.trans {a b c : List PendingWrite} (hab : SameWrites a b) (hbc : SameWrites b c) :
    SameWrites a c := fun task channel => (hab task channel).trans (hbc task channel)

theorem SameWrites.append {a a' b b' : List PendingWrite} (ha : SameWrites a a')
    (hb : SameWrites b b') : SameWrites (a ++ b) (a' ++ b') := by
  intro task channel
  rw [writesOf_append, writesOf_append, ha, hb]

theorem SameWrites.mem {writes writes' : List PendingWrite} (h : SameWrites writes writes')
    {w : PendingWrite} (hw : w ∈ writes) : w ∈ writes' := by
  have hvalue : w.value ∈ writesOf w.taskId w.channel writes' := by
    rw [← h]
    exact List.mem_map.mpr ⟨w, List.mem_filter.mpr ⟨hw, by simp⟩, rfl⟩
  obtain ⟨w', hmem, heq⟩ := List.mem_map.mp hvalue
  obtain ⟨hw', hkey⟩ := List.mem_filter.mp hmem
  have hfields : w'.taskId = w.taskId ∧ w'.channel = w.channel := by simpa using hkey
  have hsame : w' = w := by
    cases w
    cases w'
    simp_all
  exact hsame ▸ hw'

/-- `y` holds what was replayed from `x`: the same data and parent link, and the
same writes for each task. -/
structure Copies (y x : CheckpointTuple) : Prop where
  ns : y.ns = x.ns
  checkpoint : y.checkpoint = x.checkpoint
  metadata : y.metadata = x.metadata.orEmpty
  parentId : y.parentId = x.parentId
  pendingWrites : SameWrites y.pendingWrites x.pendingWrites

theorem orEmpty_orEmpty (value : Value) : value.orEmpty.orEmpty = value.orEmpty := by
  cases value <;> rfl

theorem orEmpty_coords (value : Value) : value.orEmpty.coords = value.coords := by
  cases value <;> rfl

theorem countsDeltas_eq {x y : CheckpointTuple} (h : y.metadata = x.metadata.orEmpty) :
    countsDeltas y.fields = countsDeltas x.fields := by
  simp only [countsDeltas, fields, List.lookup_cons, h]
  cases x.metadata <;> rfl

namespace Copies
variable {x y z : CheckpointTuple}

theorem coordinate (h : y.Copies x) : y.coordinate = x.coordinate := by
  rw [CheckpointTuple.coordinate, CheckpointTuple.coordinate, h.ns, h.checkpoint]

theorem parentCoordinate (h : y.Copies x) : y.parentCoordinate = x.parentCoordinate := by
  rw [CheckpointTuple.parentCoordinate, CheckpointTuple.parentCoordinate, h.ns, h.parentId]

theorem references (h : y.Copies x) (c : Coordinate) : y.References c ↔ x.References c := by
  have hwrites : (∃ write ∈ y.pendingWrites, Mentions write.value c) ↔
      ∃ write ∈ x.pendingWrites, Mentions write.value c := by
    constructor
    · rintro ⟨write, hwrite, hmention⟩
      exact ⟨write, h.pendingWrites.mem hwrite, hmention⟩
    · rintro ⟨write, hwrite, hmention⟩
      have hsame : SameWrites x.pendingWrites y.pendingWrites := fun task channel =>
        (h.pendingWrites task channel).symm
      exact ⟨write, hsame.mem hwrite, hmention⟩
  have hmetadata : Mentions y.metadata c ↔ Mentions x.metadata c := by
    rw [← mem_coords_iff, ← mem_coords_iff, h.metadata, orEmpty_coords]
  rw [references_iff, references_iff, h.coordinate, h.checkpoint, hmetadata, hwrites,
    h.parentCoordinate, NeedsParent, NeedsParent, countsDeltas_eq h.metadata]

end Copies
end CheckpointTuple

/-- The `configurable` of a call. -/
structure CheckpointConfig where
  threadId : String
  ns : String
  checkpointId : Option String
  deriving DecidableEq, Repr

/-- The operations of a checkpointer. `newer` is the order of its listings. -/
structure ThreadCheckpointer where
  Store : Type
  newer : String → String → Prop
  list : Store → (threadId : String) → List CheckpointTuple
  put : Store → CheckpointConfig → Checkpoint → (metadata newVersions : Value) → Store
  putWrites : Store → CheckpointConfig → List (String × Value) → (taskId : String) → Store
  deleteThread : Store → (threadId : String) → Store

namespace ThreadCheckpointer

structure Lawful (C : ThreadCheckpointer) : Prop where
  newer_asymm : ∀ a b, C.newer a b → ¬ C.newer b a
  newer_trans : ∀ a b c, C.newer a b → C.newer b c → C.newer a c
  newestFirst : ∀ s threadId, (C.list s threadId).Pairwise fun x y =>
    x.ns = y.ns → C.newer x.checkpoint.id y.checkpoint.id
  /-- A checkpoint put with all its channel versions is listed beside the others. -/
  list_put : ∀ s config checkpoint metadata,
    (∀ x ∈ C.list s config.threadId, x.coordinate ≠ ⟨config.ns, checkpoint.id⟩) →
    ∀ x, x ∈ C.list (C.put s config checkpoint metadata checkpoint.channelVersions) config.threadId ↔
      x ∈ C.list s config.threadId ∨
        x = ⟨config.ns, checkpoint, metadata, config.checkpointId, []⟩
  put_frame : ∀ s config checkpoint metadata newVersions threadId, threadId ≠ config.threadId →
    C.list (C.put s config checkpoint metadata newVersions) threadId = C.list s threadId
  /-- The writes of a task that has none yet are added to the tuple they name. -/
  list_putWrites : ∀ s config writes taskId, ∀ y ∈ C.list s config.threadId,
    y.ns = config.ns → some y.checkpoint.id = config.checkpointId →
    (∀ w ∈ y.pendingWrites, w.taskId ≠ taskId) →
    ∃ recorded, CheckpointTuple.SameWrites recorded
        (y.pendingWrites ++ writes.map fun w => ⟨taskId, w.1, w.2⟩) ∧
      ∀ x, x ∈ C.list (C.putWrites s config writes taskId) config.threadId ↔
        (x ∈ C.list s config.threadId ∧ x ≠ y) ∨ x = { y with pendingWrites := recorded }
  putWrites_frame : ∀ s config writes taskId threadId, threadId ≠ config.threadId →
    C.list (C.putWrites s config writes taskId) threadId = C.list s threadId
  list_deleteThread : ∀ s threadId, C.list (C.deleteThread s threadId) threadId = []
  deleteThread_frame : ∀ s threadId other, other ≠ threadId →
    C.list (C.deleteThread s threadId) other = C.list s other

end ThreadCheckpointer
end Skein
