import Skein.MemoryRunQueue
import Skein.MemoryStore

/-!
# Persisted dev state

`skein dev` saves its memory store and restores it into the runtime of the next boot, whose
queue is empty; a `.langgraph_api` directory is imported the same way. A restored map is
filled from a list of entries: its keys need not be those of its rows, and the status of a
thread row is whatever its source wrote.
-/
namespace Skein

/-- What the snapshot and the importer read of a kwargs object. -/
class KwargsJson (J : Type*) where
  truthy : J → String → Bool
  isText : J → String → Bool
  without : List String → J → J
  pick : List String → J → J

instance : KwargsJson ℕ where
  truthy _ _ := false
  isText _ _ := false
  without _ := id
  pick _ := id

/-- `isTerminalRunStatus` of any string. -/
def RunStatus.ofWire : String → Option RunStatus
  | "pending" => some .pending
  | "running" => some .running
  | "success" => some .success
  | "error" => some .error
  | "timeout" => some .timeout
  | "interrupted" => some .interrupted
  | "cancelled" => some .cancelled
  | _ => none

/-- A thread row as it is stored. -/
structure ThreadRow (J : Type*) where
  threadId : ThreadId
  createdAt : Timestamp
  updatedAt : Timestamp
  stateUpdatedAt : Timestamp
  metadata : J
  status : String
  values : J
  interrupts : J
  error : Option String := none
  deriving DecidableEq, Repr

/-- `SkeinStoreSnapshot`. -/
structure SkeinStoreSnapshot (J : Type*) where
  threads : List (ThreadId × ThreadRow J)
  runs : List (RunId × Run J)
  runKwargs : List (RunId × RunKwargs J)
  runResults : Option (List (RunId × J)) := none
  crons : Option (List (CronId × Cron J)) := none

/-- `DevStateSnapshot`; `C` is the snapshot of a checkpointer. -/
structure DevStateSnapshot (J C : Type*) where
  store : SkeinStoreSnapshot J
  checkpoints : C

/-- The maps of a memory store that has been hydrated. -/
structure HydratedStore (J : Type*) where
  threads : OrderedMap ThreadId (ThreadRow J) := ∅
  runs : OrderedMap RunId (Run J) := ∅
  runKwargs : OrderedMap RunId (RunKwargs J) := ∅
  runResults : OrderedMap RunId J := ∅
  crons : OrderedMap CronId (Cron J) := ∅
  cronSeq : OrderedMap CronId ℕ := ∅
  cronAuth : OrderedMap CronId J := ∅
  dispatches : OrderedMap RunId DispatchIntent := ∅
  admittedRunIds : List RunId := []
  resumeReservations : OrderedMap RunId RunId := ∅

/-- The part of `createInMemoryRuntime` a restart goes through. -/
structure InMemoryRuntime (J C : Type*) where
  store : HydratedStore J := {}
  checkpointer : C
  queue : MemoryRunQueue := {}

namespace OrderedMap
variable {κ α : Type*} [DecidableEq κ]

/-- `fill`: the map is cleared and every entry written. -/
def fill (rows : List (κ × α)) : OrderedMap κ α := rows.foldl (fun m row => m.set row.1 row.2) ∅

theorem entries_set_of_fresh {m : OrderedMap κ α} {k : κ} (hk : k ∉ m.keys) (v : α) :
    (m.set k v).entries = m.entries ++ [(k, v)] := by
  rcases m with ⟨entries, hnodup⟩
  dsimp only [keys, set] at *
  clear hnodup
  induction entries with
  | nil => rfl
  | cons e rest ih =>
    simp only [List.map_cons, List.mem_cons, not_or] at hk
    rw [setEntry, if_neg (Ne.symm hk.1), ih hk.2, List.cons_append]

theorem entries_fill_append (m : OrderedMap κ α) (rows : List (κ × α))
    (hnodup : ((m.entries ++ rows).map Prod.fst).Nodup) :
    (rows.foldl (fun m row => m.set row.1 row.2) m).entries = m.entries ++ rows := by
  induction rows generalizing m with
  | nil => simp
  | cons row rest ih =>
    have hfresh : row.1 ∉ m.keys := by
      rw [List.map_append, List.map_cons] at hnodup
      exact fun hmem => List.disjoint_of_nodup_append hnodup hmem List.mem_cons_self
    have hentries := entries_set_of_fresh hfresh row.2
    rw [List.foldl_cons, ih _ (by simpa [hentries] using hnodup), hentries]
    simp

/-- Filling a map with the entries of another copies it. -/
theorem fill_entries (m : OrderedMap κ α) : fill m.entries = m := by
  have hentries : (fill m.entries).entries = m.entries := entries_fill_append ∅ m.entries m.nodup
  rcases hfill : fill m.entries with ⟨entries, hnodup⟩
  rw [hfill] at hentries
  cases hentries
  rfl

omit [DecidableEq κ] in
theorem forall_mem_values_mapValues {β : Type*} (m : OrderedMap κ α) (f : α → β) (p : β → Prop) :
    (∀ v ∈ (m.mapValues f).values, p v) ↔ ∀ v ∈ m.values, p (f v) := by
  have hvalues : (m.mapValues f).values = m.values.map f := by
    simp only [values, mapValues, List.map_map, Function.comp_def]
  rw [hvalues, List.forall_mem_map]

end OrderedMap

/-- `snapshotRunKwargs`: the caller of a native run, and its webhook with it, stay out. -/
def snapshotRunKwargs {J : Type*} [KwargsJson J] (kwargs : RunKwargs J) : RunKwargs J :=
  { kwargs with
    rest :=
      if KwargsJson.truthy kwargs.rest "native_origin" ∨
          KwargsJson.truthy kwargs.rest "terminal_delivery" ∨
          KwargsJson.truthy kwargs.rest "webhook" = false then
        KwargsJson.without ["native_origin", "terminal_delivery", "webhook"] kwargs.rest
      else KwargsJson.without ["native_origin", "terminal_delivery"] kwargs.rest }

def Thread.row {J : Type*} (thread : Thread J) : ThreadRow J where
  threadId := thread.threadId
  createdAt := thread.createdAt
  updatedAt := thread.updatedAt
  stateUpdatedAt := thread.stateUpdatedAt
  metadata := thread.metadata
  status := thread.status.wire
  values := thread.values
  interrupts := thread.interrupts
  error := thread.error

section DevState
variable {J C : Type*} [KwargsJson J]

/-- `snapshot`. -/
def MemorySkeinStore.snapshot (store : MemorySkeinStore J) : SkeinStoreSnapshot J where
  threads := (store.threads.mapValues Thread.row).entries
  runs := store.runs.entries
  runKwargs := (store.runKwargs.mapValues snapshotRunKwargs).entries
  runResults := some store.runResults.entries
  crons := some store.crons.entries

/-- `hydrate`. -/
def HydratedStore.hydrate (snapshot : SkeinStoreSnapshot J) : HydratedStore J :=
  let runs := OrderedMap.fill snapshot.runs
  let crons := OrderedMap.fill (snapshot.crons.getD [])
  { threads := .fill snapshot.threads
    runs
    runKwargs := .fill (snapshot.runKwargs.map fun row => (row.1, snapshotRunKwargs row.2))
    runResults := .fill ((snapshot.runResults.getD []).filter fun row => runs.contains row.1)
    crons
    cronSeq := .fill (crons.keys.map fun cronId => (cronId, 0)) }

/-- `snapshotState`, of a runtime that serves `store`. -/
def snapshotState (store : MemorySkeinStore J) (checkpoints : C) : DevStateSnapshot J C where
  store := store.snapshot
  checkpoints

/-- `hydrateState`: neither the queue nor any row is looked at. -/
def InMemoryRuntime.hydrateState (runtime : InMemoryRuntime J C) (snapshot : DevStateSnapshot J C) :
    InMemoryRuntime J C :=
  { runtime with store := .hydrate snapshot.store, checkpointer := snapshot.checkpoints }

/-- A thread of `.langgraphjs_ops.json` that passed the schema. -/
structure LanggraphThread (J : Type*) where
  threadId : ThreadId
  status : Option String := none
  metadata : Option J := none
  values : Option J := none
  interrupts : Option J := none
  createdAt : Option Timestamp := none
  updatedAt : Option Timestamp := none

structure LanggraphRun (J : Type*) where
  runId : RunId
  threadId : ThreadId
  assistantId : AssistantId
  status : Option String := none
  metadata : Option J := none
  multitaskStrategy : Option MultitaskStrategy := none
  kwargs : Option J := none
  createdAt : Option Timestamp := none
  updatedAt : Option Timestamp := none

structure LanggraphOps (J : Type*) where
  threads : OrderedMap ThreadId (LanggraphThread J) := ∅
  runs : OrderedMap RunId (LanggraphRun J) := ∅

def toThread [EmptyCollection J] (row : LanggraphThread J) (now : Timestamp) : ThreadRow J :=
  let createdAt := row.createdAt.getD now
  let updatedAt := row.updatedAt.getD createdAt
  { threadId := row.threadId
    status := row.status.getD "idle"
    metadata := row.metadata.getD ∅
    values := row.values.getD ∅
    interrupts := row.interrupts.getD ∅
    createdAt
    updatedAt
    stateUpdatedAt := updatedAt }

/-- The status of an imported run: one captured in mid-flight becomes an error. -/
def toRunStatus (status : Option String) : RunStatus :=
  match RunStatus.ofWire (status.getD "success") with
  | some known => if known.isTerminal then known else .error
  | none => .error

def toRun [EmptyCollection J] (row : LanggraphRun J) (now : Timestamp) : Run J :=
  let createdAt := row.createdAt.getD now
  { runId := row.runId
    threadId := row.threadId
    assistantId := row.assistantId
    status := toRunStatus row.status
    metadata := row.metadata.getD ∅
    multitaskStrategy := row.multitaskStrategy
    createdAt
    updatedAt := row.updatedAt.getD createdAt }

def toRunKwargs [EmptyCollection J] (kwargs : Option J) : RunKwargs J where
  rest := kwargs.elim ∅ fun kwargs => KwargsJson.pick
    (["input", "command", "config", "context", "stream_mode", "interrupt_before",
      "interrupt_after"] ++ if KwargsJson.isText kwargs "webhook" then ["webhook"] else []) kwargs

/-- `readLanggraphDevState`. -/
def readLanggraphDevState [EmptyCollection J] (ops : LanggraphOps J) (checkpoints : C)
    (now : Timestamp) : DevStateSnapshot J C where
  store := {
    threads := (ops.threads.mapValues fun row => toThread row now).entries
    runs := (ops.runs.mapValues fun row => toRun row now).entries
    runKwargs := (ops.runs.mapValues fun row => toRunKwargs row.kwargs).entries }
  checkpoints

/-- `hasActiveRun`: what the `reject` strategy refuses a run on. -/
def HydratedStore.hasActiveRun (store : HydratedStore J) (threadId : ThreadId) : Bool :=
  store.runs.values.any fun run => run.threadId = threadId && !run.status.isTerminal

/-- The run is in the queue, ready or delayed. -/
def MemoryRunQueue.Holds (queue : MemoryRunQueue) (runId : RunId) : Prop :=
  (∃ item ∈ queue.items, item.run.runId = runId) ∨ (queue.delayed.get? runId).isSome = true

/-- The thread has a pending run that the queue will hand out. -/
def InMemoryRuntime.Owes (runtime : InMemoryRuntime J C) (threadId : ThreadId) : Prop :=
  ∃ run ∈ runtime.store.runs.values, run.threadId = threadId ∧ run.status = .pending ∧
    runtime.queue.Holds run.runId

/-- Nothing is shown to be under way that nothing will carry out. -/
structure InMemoryRuntime.NoGhosts (runtime : InMemoryRuntime J C) : Prop where
  running : ∀ run ∈ runtime.store.runs.values, run.status ≠ .running
  pending : ∀ run ∈ runtime.store.runs.values, run.status = .pending →
    runtime.queue.Holds run.runId
  busy : ∀ thread ∈ runtime.store.threads.values, thread.status = "busy" →
    runtime.Owes thread.threadId
  refused : ∀ threadId, runtime.store.hasActiveRun threadId = true → runtime.Owes threadId

/-- What is restored: a snapshot of a store, or an import. -/
inductive DevStateSource (J : Type*)
  | stateFile (store : MemorySkeinStore J)
  | langgraph (ops : LanggraphOps J)

namespace DevStateSource

/-- The snapshot `skein dev` restores. -/
def snapshot [EmptyCollection J] (source : DevStateSource J) (checkpoints : C) (now : Timestamp) :
    DevStateSnapshot J C :=
  match source with
  | stateFile store => snapshotState store checkpoints
  | langgraph ops => readLanggraphDevState ops checkpoints now

/-- Nothing was under way when it was written. -/
def Quiet : DevStateSource J → Prop
  | stateFile store => (∀ run ∈ store.runs.values, run.status.isTerminal = true) ∧
      ∀ thread ∈ store.threads.values, thread.status ≠ .busy
  | langgraph ops => ∀ thread ∈ ops.threads.values, thread.status ≠ some "busy"

end DevStateSource

omit [KwargsJson J] in
theorem MemoryRunQueue.not_holds_empty (runId : RunId) : ¬ MemoryRunQueue.Holds {} runId := by
  rintro (⟨item, hitem, -⟩ | hdelayed)
  · cases hitem
  · cases hdelayed

omit [KwargsJson J] in
/-- With an empty queue, nothing may be under way at all. -/
theorem InMemoryRuntime.noGhosts_iff (store : HydratedStore J) (checkpointer : C) :
    InMemoryRuntime.NoGhosts { store, checkpointer } ↔
      (∀ run ∈ store.runs.values, run.status.isTerminal = true) ∧
        ∀ thread ∈ store.threads.values, thread.status ≠ "busy" := by
  have howes : ∀ threadId, ¬ InMemoryRuntime.Owes { store, checkpointer } threadId := by
    rintro threadId ⟨run, -, -, -, hholds⟩
    exact MemoryRunQueue.not_holds_empty run.runId hholds
  constructor
  · intro hnone
    refine ⟨fun run hrun => ?_, fun thread hthread hbusy =>
      howes _ (hnone.busy thread hthread hbusy)⟩
    have hrunning := hnone.running run hrun
    have hpending : run.status ≠ .pending := fun h =>
      MemoryRunQueue.not_holds_empty _ (hnone.pending run hrun h)
    revert hrunning hpending
    cases run.status <;> simp [RunStatus.isTerminal]
  · rintro ⟨hterminal, hidle⟩
    refine ⟨?_, ?_, ?_, ?_⟩
    · intro run hrun hrunning
      have hterm := hterminal run hrun
      rw [hrunning] at hterm
      cases hterm
    · intro run hrun hpending
      have hterm := hterminal run hrun
      rw [hpending] at hterm
      cases hterm
    · exact fun thread hthread hbusy => absurd hbusy (hidle thread hthread)
    · intro threadId hactive
      obtain ⟨run, hrun, hon⟩ := List.any_eq_true.mp hactive
      simp [hterminal run hrun] at hon

theorem toRunStatus_terminal (status : Option String) : (toRunStatus status).isTerminal = true := by
  unfold toRunStatus
  split
  · split_ifs with hterm
    · exact hterm
    · rfl
  · rfl

/-- Only the status of a busy thread is spelled `busy`. -/
theorem ThreadStatus.wire_eq_busy {status : ThreadStatus} : status.wire = "busy" ↔ status = .busy := by
  cases status <;> decide

omit [KwargsJson J] in
theorem toThread_busy_iff [EmptyCollection J] (row : LanggraphThread J) (now : Timestamp) :
    (toThread row now).status = "busy" ↔ row.status = some "busy" := by
  cases hstatus : row.status <;> simp [toThread, hstatus]

/-- A restart leaves no ghost behind exactly when nothing was under way. -/
theorem noGhosts_hydrated_iff [EmptyCollection J] (source : DevStateSource J)
    (fresh checkpoints : C) (now : Timestamp) :
    (InMemoryRuntime.hydrateState { checkpointer := fresh }
      (source.snapshot checkpoints now)).NoGhosts ↔ source.Quiet := by
  unfold InMemoryRuntime.hydrateState
  rw [InMemoryRuntime.noGhosts_iff]
  cases source with
  | stateFile store =>
    simp only [DevStateSource.snapshot, snapshotState, MemorySkeinStore.snapshot,
      HydratedStore.hydrate, OrderedMap.fill_entries, OrderedMap.forall_mem_values_mapValues,
      DevStateSource.Quiet]
    refine and_congr Iff.rfl (forall₂_congr fun thread _ => not_congr ?_)
    exact ThreadStatus.wire_eq_busy
  | langgraph ops =>
    simp only [DevStateSource.snapshot, readLanggraphDevState, HydratedStore.hydrate,
      OrderedMap.fill_entries, OrderedMap.forall_mem_values_mapValues, DevStateSource.Quiet]
    have hruns : ∀ row ∈ ops.runs.values, (toRun row now).status.isTerminal = true :=
      fun row _ => toRunStatus_terminal row.status
    rw [and_iff_right hruns]
    exact forall₂_congr fun row _ => not_congr (toThread_busy_iff row now)

end DevState

/-- A thread with a run that has been created, while the queue still holds it. -/
def pendingStore : MemorySkeinStore ℕ :=
  ((({} : MemorySkeinStore ℕ).threadsCreate { threadId := some (.of "t") } (.of "t") 0).2.createRun
    { threadId := .of "t", assistantId := .of "a", runId := some (.of "r") } (.of "r") 0).2

/-- The restarted server refuses the thread for a run nobody will execute. -/
theorem pendingStore_leaves_ghost :
    ¬ (InMemoryRuntime.hydrateState { checkpointer := () }
      (snapshotState pendingStore ())).NoGhosts := by
  intro hnone
  exact MemoryRunQueue.not_holds_empty _ (hnone.pending
    ⟨.of "r", .of "t", .of "a", 0, 0, .pending, 0, none, none⟩ List.mem_cons_self rfl)

end Skein
