import Skein.OrderedMap
import Skein.ThreadCheckpointer
import Mathlib.Data.List.Sort

/-!
# A checkpointer over tables

One table of tuples for each thread, listed by descending id: the laws of the
checkpointer surface hold of a store that can be run.
-/
namespace Skein

abbrev CheckpointTable : Type := Table Coordinate CheckpointTuple CheckpointTuple.coordinate

/-- A tuple is listed before those of smaller ids. -/
def listedBefore (x y : CheckpointTuple) : Prop := y.checkpoint.id ≤ x.checkpoint.id

instance : DecidableRel listedBefore := fun x y =>
  inferInstanceAs (Decidable (y.checkpoint.id ≤ x.checkpoint.id))

instance : Std.Total listedBefore := ⟨fun x y => le_total y.checkpoint.id x.checkpoint.id⟩
instance : IsTrans CheckpointTuple listedBefore := ⟨fun _ _ _ hxy hyz => le_trans hyz hxy⟩

namespace TableCheckpointer

/-- `list`, newest first within a namespace. -/
def list (s : String → CheckpointTable) (threadId : String) : List CheckpointTuple :=
  (s threadId).values.insertionSort listedBefore

/-- Replace a thread's table. -/
def setTable (s : String → CheckpointTable) (threadId : String) (table : CheckpointTable) :
    String → CheckpointTable :=
  Function.update s threadId table

/-- `put`, which keeps the pending writes of a checkpoint it replaces. -/
def put (s : String → CheckpointTable) (config : CheckpointConfig) (checkpoint : Checkpoint)
    (metadata _newVersions : Value) : String → CheckpointTable :=
  let pendingWrites := ((s config.threadId).get? ⟨config.ns, checkpoint.id⟩).elim []
    CheckpointTuple.pendingWrites
  setTable s config.threadId ((s config.threadId).write
    ⟨config.ns, checkpoint, metadata, config.checkpointId, pendingWrites⟩)

/-- `putWrites`, which adds to the checkpoint that the configuration names, if it is there. -/
def putWrites (s : String → CheckpointTable) (config : CheckpointConfig)
    (writes : List (String × Value)) (taskId : String) : String → CheckpointTable :=
  match config.checkpointId.bind fun id => (s config.threadId).get? ⟨config.ns, id⟩ with
  | none => s
  | some y => setTable s config.threadId ((s config.threadId).write
      { y with pendingWrites := y.pendingWrites ++ writes.map fun w => ⟨taskId, w.1, w.2⟩ })

def deleteThread (s : String → CheckpointTable) (threadId : String) : String → CheckpointTable :=
  setTable s threadId ∅

theorem mem_list {s : String → CheckpointTable} {threadId : String} {x : CheckpointTuple} :
    x ∈ list s threadId ↔ (s threadId).get? x.coordinate = some x := by
  rw [← Table.mem_values_iff]
  exact (List.perm_insertionSort listedBefore (s threadId).values).mem_iff

theorem list_setTable_of_ne {s : String → CheckpointTable} {threadId other : String}
    (table : CheckpointTable) (h : other ≠ threadId) :
    list (setTable s threadId table) other = list s other := by
  rw [list, list, setTable, Function.update_of_ne h]

/-- Writing a tuple replaces the one at its coordinate. -/
theorem mem_list_write {s : String → CheckpointTable} {threadId : String} {x y : CheckpointTuple} :
    x ∈ list (setTable s threadId ((s threadId).write y)) threadId ↔
      (x ∈ list s threadId ∧ x.coordinate ≠ y.coordinate) ∨ x = y := by
  rw [mem_list, mem_list, setTable, Function.update_self, Table.get?_write]
  split_ifs with hkey
  · constructor
    · exact fun h => .inr (Option.some.inj h).symm
    · rintro (⟨_, hne⟩ | rfl)
      · exact absurd hkey.symm hne
      · rfl
  · constructor
    · exact fun h => .inl ⟨h, Ne.symm hkey⟩
    · rintro (⟨h, _⟩ | rfl)
      · exact h
      · exact absurd rfl hkey

/-- Within a namespace the identifiers descend. -/
theorem list_newestFirst (s : String → CheckpointTable) (threadId : String) :
    (list s threadId).Pairwise fun x y => x.ns = y.ns → y.checkpoint.id < x.checkpoint.id := by
  have hsorted : (list s threadId).Pairwise listedBefore :=
    List.pairwise_insertionSort listedBefore (s threadId).values
  have hnodup : (list s threadId).Pairwise fun x y => x.coordinate ≠ y.coordinate := by
    apply List.pairwise_map.mp
    have hperm := (List.perm_insertionSort listedBefore (s threadId).values).map
      CheckpointTuple.coordinate
    exact hperm.nodup_iff.mpr (s threadId).nodup_map_key
  apply (hsorted.and hnodup).imp
  rintro x y ⟨hle, hne⟩ hns
  apply lt_of_le_of_ne hle
  intro hid
  apply hne
  rw [CheckpointTuple.coordinate, CheckpointTuple.coordinate, hns, hid]

/-- A checkpoint under a new coordinate is added, and nothing else changes. -/
theorem list_put {s : String → CheckpointTable} {config : CheckpointConfig} {checkpoint : Checkpoint}
    {metadata : Value} (newVersions : Value)
    (h : ∀ x ∈ list s config.threadId, x.coordinate ≠ ⟨config.ns, checkpoint.id⟩)
    (x : CheckpointTuple) :
    x ∈ list (put s config checkpoint metadata newVersions) config.threadId ↔
      x ∈ list s config.threadId ∨
        x = ⟨config.ns, checkpoint, metadata, config.checkpointId, []⟩ := by
  have hnone : (s config.threadId).get? ⟨config.ns, checkpoint.id⟩ = none := by
    rcases hget : (s config.threadId).get? ⟨config.ns, checkpoint.id⟩ with _ | y
    · rfl
    · have hkey : y.coordinate = ⟨config.ns, checkpoint.id⟩ := Table.key_of_get? hget
      exact absurd hkey (h y (mem_list.mpr (hkey ▸ hget)))
  rw [put, hnone, Option.elim_none, mem_list_write]
  constructor
  · exact Or.imp_left And.left
  · exact Or.imp_left fun hx => ⟨hx, h x hx⟩

/-- Pending writes change the checkpoint they are for. -/
theorem list_putWrites {s : String → CheckpointTable} {config : CheckpointConfig}
    {writes : List (String × Value)} {taskId : String} {y : CheckpointTuple}
    (hy : y ∈ list s config.threadId) (hns : y.ns = config.ns)
    (hid : some y.checkpoint.id = config.checkpointId) (x : CheckpointTuple) :
    x ∈ list (putWrites s config writes taskId) config.threadId ↔
      (x ∈ list s config.threadId ∧ x ≠ y) ∨ x = { y with
        pendingWrites := y.pendingWrites ++ writes.map fun w => ⟨taskId, w.1, w.2⟩ } := by
  have hget : (config.checkpointId.bind fun id => (s config.threadId).get? ⟨config.ns, id⟩) =
      some y := by
    rw [← hid, ← hns]
    exact mem_list.mp hy
  have hsame : ∀ z ∈ list s config.threadId, z.coordinate ≠ y.coordinate ↔ z ≠ y := by
    intro z hz
    constructor
    · rintro hne rfl
      exact hne rfl
    · intro hne hcoordinate
      have hzy := mem_list.mp hz
      rw [hcoordinate, mem_list.mp hy] at hzy
      exact hne (Option.some.inj hzy).symm
  simp only [putWrites, hget, mem_list_write]
  constructor
  · exact Or.imp_left fun hx => ⟨hx.1, (hsame x hx.1).mp hx.2⟩
  · exact Or.imp_left fun hx => ⟨hx.1, (hsame x hx.1).mpr hx.2⟩

theorem list_putWrites_of_ne {s : String → CheckpointTable} {config : CheckpointConfig}
    {writes : List (String × Value)} {taskId threadId : String} (h : threadId ≠ config.threadId) :
    list (putWrites s config writes taskId) threadId = list s threadId := by
  unfold putWrites
  split
  · rfl
  · exact list_setTable_of_ne _ h

theorem list_deleteThread (s : String → CheckpointTable) (threadId : String) :
    list (deleteThread s threadId) threadId = [] := by
  rw [list, deleteThread, setTable, Function.update_self]
  rfl

end TableCheckpointer

def tableCheckpointer : ThreadCheckpointer where
  Store := String → CheckpointTable
  newer a b := b < a
  list := TableCheckpointer.list
  put := TableCheckpointer.put
  putWrites := TableCheckpointer.putWrites
  deleteThread := TableCheckpointer.deleteThread

/-- Tables keyed by coordinates behave as a checkpointer promises. -/
theorem tableCheckpointer_lawful : tableCheckpointer.Lawful where
  newer_asymm := fun _ _ h => lt_asymm h
  newer_trans := fun _ _ _ hab hbc => lt_trans hbc hab
  newestFirst := TableCheckpointer.list_newestFirst
  list_put := fun _ _ checkpoint _ h x =>
    TableCheckpointer.list_put checkpoint.channelVersions h x
  put_frame := fun _ _ _ _ _ _ h => TableCheckpointer.list_setTable_of_ne _ h
  list_putWrites := fun _ _ _ _ _ hy hns hid _ =>
    ⟨_, fun _ _ => rfl, TableCheckpointer.list_putWrites hy hns hid⟩
  putWrites_frame := fun _ _ _ _ _ h => TableCheckpointer.list_putWrites_of_ne h
  list_deleteThread := TableCheckpointer.list_deleteThread
  deleteThread_frame := fun _ _ _ h => TableCheckpointer.list_setTable_of_ne _ h

end Skein
