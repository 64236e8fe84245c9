import Skein.HistoryGrowth
import Skein.Machine
import Skein.WireTypes

/-!
# Executions, displacements and cancels on one thread

Every await of `createPendingRun`, `cancelRun` with `action=rollback`, `startRunExecution` and
`executeRun` that reads or writes a run row, a base checkpoint, the claim or the checkpoints
is a step, for any number of runs without native origin on one thread; only the read and the
write of `finalizeRun`, which both leave a terminal row, are one. The execution claim is
granted to any waiter, which covers the queue of `ThreadLocks` in one instance and a gate
between instances. No call fails here: no fault is injected into a rollback, and the scratch
id it needs is drawn in the end.
-/
namespace Skein

/-- A thread with its checkpointer and the way its checkpoints are cloned. -/
structure CheckpointedThread where
  saver : ThreadCheckpointer
  lawful : saver.Lawful
  cloneCheckpoint : Checkpoint → Checkpoint
  clone_eq : ∀ checkpoint, cloneCheckpoint checkpoint = checkpoint
  threadId : String

/-- A row of the thread's runs with the `base_checkpoint_id` and `rollback_plan` of its
kwargs. A deleted row stays behind as a mark that no later run has its id. -/
structure ThreadRun where
  status : RunStatus
  /-- The run was created by `admission.admitRun`. -/
  admitted : Bool := false
  baseCheckpointId : Option (Option CheckpointId) := none
  rollbackPlan : Option RollbackPlan := none
  deleted : Bool := false
  deriving DecidableEq, Repr

namespace ThreadRun

/-- What `runs.get` returns and `isTerminalRunStatus` does not reject. -/
def live (row : ThreadRun) : Bool := !row.deleted && !row.status.isTerminal

/-- `runs.setStatus`. Only an admitted run refuses to go back to `running`. -/
def setStatus (row : ThreadRun) (status : RunStatus) : ThreadRun :=
  if status = .running ∧ row.admitted = true ∧ row.status.isTerminal = true then row
  else { row with status }

end ThreadRun

/-- How far the execution that holds the claim has come. -/
inductive ExecutionPhase
  /-- Before `runs.get(runId)` under the claim. -/
  | claimed
  | reverting (plan : RollbackPlan)
  | deleting (displacedRunIds : List RunId)
  /-- Before the `runs.get` of `executeRun`. -/
  | starting
  /-- Before its `runs.setStatus`. -/
  | marking
  /-- Before the tip is read. -/
  | started
  | graph
  deriving DecidableEq, Repr

/-- Who holds the thread's execution claim. -/
inductive Claimant
  | execution (runId : RunId) (phase : ExecutionPhase)
  | rollback (cancel : ℕ)
  deriving DecidableEq, Repr

inductive CancelStage
  /-- The row was found and is not terminal. -/
  | found
  | read (base : Option (Option CheckpointId))
  /-- `rollbackCancelledRun` waits for the claim or holds it. -/
  | waiting (base : Option CheckpointId)
  | deleting
  deriving DecidableEq, Repr

/-- A `cancelRun` request with `action=rollback`. -/
structure CancelRequest where
  runId : RunId
  stage : CancelStage
  deriving DecidableEq, Repr

/-- A `createPendingRun` under way. -/
inductive RunCreation
  | reading (unread active : List RunId) (revert : Option (Option CheckpointId))
  | displacing (left : List RunId) (status : TerminalStatus) (plan : Option RollbackPlan)
  | inserting (requireNoActiveRun : Bool) (plan : Option RollbackPlan)
  deriving DecidableEq, Repr

/-- The thread's checkpoints and rows, the in-process notes and the requests under way.
`unsaved` is the base whose `runs.recordBaseCheckpoint` has not been performed. The last
two fields are history variables: which run put the checkpoint at a coordinate, and
which runs were displaced or cancelled with rollback. -/
structure ThreadRuns (T : CheckpointedThread) where
  store : T.saver.Store
  created : List RunId
  rows : RunId → Option ThreadRun
  runBaseCheckpoints : RunId → Option (Option CheckpointId)
  unsaved : RunId → Option (Option CheckpointId)
  claim : Option Claimant
  creations : ℕ → Option RunCreation
  cancels : ℕ → Option CancelRequest
  writer : Coordinate → Option RunId
  withdrawn : List RunId

namespace ThreadRuns
variable {T : CheckpointedThread}

/-- A thread with checkpoints of unknown origin and no runs. -/
def fresh (T : CheckpointedThread) (store : T.saver.Store) : ThreadRuns T where
  store := store
  created := []
  rows := fun _ => none
  runBaseCheckpoints := fun _ => none
  unsaved := fun _ => none
  claim := none
  creations := fun _ => none
  cancels := fun _ => none
  writer := fun _ => none
  withdrawn := []

def history (s : ThreadRuns T) : List CheckpointTuple := T.saver.list s.store T.threadId

def coordinates (s : ThreadRuns T) : List Coordinate := s.history.map CheckpointTuple.coordinate

/-- `runs.get(runId)`. -/
def get? (s : ThreadRuns T) (runId : RunId) : Option ThreadRun :=
  (s.rows runId).filter fun row => !row.deleted

/-- The run's row exists and is not terminal. -/
def isLive (s : ThreadRuns T) (runId : RunId) : Bool := (s.rows runId).any ThreadRun.live

def listActiveRuns (s : ThreadRuns T) : List RunId := s.created.filter s.isLive

def modifyRow (s : ThreadRuns T) (runId : RunId) (f : ThreadRun → ThreadRun) : ThreadRuns T :=
  { s with rows := Function.update s.rows runId ((s.rows runId).map f) }

def setCreation (s : ThreadRuns T) (k : ℕ) (creation : Option RunCreation) : ThreadRuns T :=
  { s with creations := Function.update s.creations k creation }

def setCancel (s : ThreadRuns T) (k : ℕ) (request : Option CancelRequest) : ThreadRuns T :=
  { s with cancels := Function.update s.cancels k request }

def setStatus (s : ThreadRuns T) (runId : RunId) (status : RunStatus) : ThreadRuns T :=
  s.modifyRow runId fun row => row.setStatus status

def delete (s : ThreadRuns T) (runId : RunId) : ThreadRuns T :=
  s.modifyRow runId fun row => { row with deleted := true }

/-- The status of a displaced or rolled back run is written. -/
def withdraw (s : ThreadRuns T) (runId : RunId) (status : TerminalStatus) : ThreadRuns T :=
  { s.setStatus runId status.1 with withdrawn := runId :: s.withdrawn }

/-- `readBaseCheckpoint`; the note exists only in the instance that executes the run. -/
def readBaseCheckpoint (s : ThreadRuns T) (sameInstance : Bool) (runId : RunId) :
    Option (Option CheckpointId) :=
  match if sameInstance then s.runBaseCheckpoints runId else none with
  | some base => some base
  | none => (s.get? runId).bind ThreadRun.baseCheckpointId

/-- The id of `getTuple({ thread_id })`: the root namespace's newest checkpoint. -/
def tip (s : ThreadRuns T) : Option CheckpointId :=
  (s.history.find? fun x => x.ns = "").map fun x => x.checkpoint.id

/-- `rollbackThreadCheckpointsTo` on this thread. -/
def revertTo (s : ThreadRuns T) (base : Option CheckpointId) (uuids : List String) :
    Option T.saver.Store :=
  match rollbackThreadCheckpointsTo T.saver T.cloneCheckpoint T.threadId base uuids
    ⟨s.store, []⟩ with
  | (.ok _, after) => some after.state
  | (.error _, _) => none

/-- The decision of `createPendingRun` on the active runs it lists. -/
def beginCreation (s : ThreadRuns T) (strategy : MultitaskStrategy) : RunCreation :=
  match strategy with
  | .reject => .inserting true none
  | .enqueue => .inserting false none
  | .interrupt => .displacing s.listActiveRuns ⟨.interrupted, RunStatus.isTerminal_interrupted⟩ none
  | .rollback =>
    match s.listActiveRuns with
    | [] => .inserting false none
    | active => .reading active active none

/-- The next of the awaits before the insert. -/
def advanceCreation (s : ThreadRuns T) (k : ℕ) (sameInstance : Bool) : Option (ThreadRuns T) :=
  match s.creations k with
  | some (.reading [] active revert) =>
    some (s.setCreation k (some
      (.displacing active ⟨.cancelled, RunStatus.isTerminal_cancelled⟩ (some ⟨revert, active⟩))))
  | some (.reading (runId :: unread) active revert) =>
    let revert' := match s.readBaseCheckpoint sameInstance runId with
      | some base => some base
      | none => revert
    some (s.setCreation k (some (.reading unread active revert')))
  | some (.displacing [] _ plan) =>
    some (s.setCreation k (some (.inserting false plan)))
  | some (.displacing (runId :: left) status plan) =>
    -- `runs.setStatus` throws where the row is gone, and the creation with it
    if (s.get? runId).isNone then some (s.setCreation k none)
    else some ((s.withdraw runId status).setCreation k (some (.displacing left status plan)))
  | _ => none

/-- The guarded insert; `runId` is new. -/
def insertRun (s : ThreadRuns T) (k : ℕ) (runId : RunId) (admitted : Bool) :
    Option (ThreadRuns T) :=
  match s.creations k with
  | some (.inserting requireNoActiveRun plan) =>
    if requireNoActiveRun && !s.listActiveRuns.isEmpty then some (s.setCreation k none)
    else if (s.rows runId).isSome then none
    else
      some { s.setCreation k none with
        created := s.created ++ [runId]
        rows := Function.update s.rows runId
          (some { status := .pending, admitted, rollbackPlan := plan }) }
  | _ => none

/-- The claim is granted to an execution of a run that was created. -/
def takeClaim (s : ThreadRuns T) (runId : RunId) : Option (ThreadRuns T) :=
  if s.claim = none ∧ (s.rows runId).isSome then
    some { s with claim := some (.execution runId .claimed) }
  else none

/-- Where the execution goes on with its row reread. -/
def afterReread (s : ThreadRuns T) (runId : RunId) : Option Claimant :=
  if s.isLive runId then
    match (s.rows runId).bind ThreadRun.rollbackPlan with
    | some plan => some (.execution runId (.reverting plan))
    | none => some (.execution runId .starting)
  else none

/-- The next await of the execution that holds the claim, up to its graph. -/
def advanceExecution (s : ThreadRuns T) (uuids : List String) : Option (ThreadRuns T) :=
  match s.claim with
  | some (.execution runId .claimed) => some { s with claim := s.afterReread runId }
  | some (.execution runId (.reverting plan)) =>
    let t := { s with claim := some (.execution runId (.deleting plan.displacedRunIds)) }
    match plan.revertToCheckpoint with
    | none => some t
    | some base => (s.revertTo base uuids).map fun store => { t with store }
  | some (.execution runId (.deleting (displacedId :: rest))) =>
    some { s.delete displacedId with claim := some (.execution runId (.deleting rest)) }
  | some (.execution runId (.deleting [])) =>
    some { s with claim := some (.execution runId .starting) }
  | some (.execution runId .starting) =>
    if (s.get? runId).any fun row => row.status.isTerminal then some { s with claim := none }
    else some { s with claim := some (.execution runId .marking) }
  | some (.execution runId .marking) =>
    -- without a row the call throws, and the run ends before its graph
    if (s.get? runId).all fun row => (row.setStatus .running).status.isTerminal then
      some { s with claim := none }
    else some { s.setStatus runId .running with claim := some (.execution runId .started) }
  | some (.execution runId .started) =>
    some { s with
      claim := some (.execution runId .graph)
      runBaseCheckpoints := Function.update s.runBaseCheckpoints runId (some s.tip)
      unsaved := Function.update s.unsaved runId (some s.tip) }
  | _ => none

/-- The executing graph writes to the thread. -/
def graphWrite (s : ThreadRuns T) (w : GraphWrite T.saver T.threadId) : Option (ThreadRuns T) :=
  match s.claim with
  | some (.execution runId .graph) =>
    let t := { s with store := w.write s.store }
    some { t with writer := fun c =>
      if c ∈ t.coordinates ∧ c ∉ s.coordinates then some runId else s.writer c }
  | _ => none

/-- `finalizeRun` leaves a terminal row alone, and the claim is let go. -/
def settle (s : ThreadRuns T) (status : TerminalStatus) : Option (ThreadRuns T) :=
  match s.claim with
  | some (.execution runId .graph) =>
    if s.isLive runId then some { s.setStatus runId status.1 with claim := none }
    else some { s with claim := none }
  | _ => none

/-- `runs.recordBaseCheckpoint` arrives. -/
def saveBase (s : ThreadRuns T) (runId : RunId) : Option (ThreadRuns T) :=
  match s.unsaved runId with
  | some base =>
    let t := s.modifyRow runId fun row => { row with baseCheckpointId := some base }
    some { t with unsaved := Function.update s.unsaved runId none }
  | none => none

/-- The `finally` of an execution drops the note. -/
def dropNote (s : ThreadRuns T) (runId : RunId) : ThreadRuns T :=
  { s with runBaseCheckpoints := Function.update s.runBaseCheckpoints runId none }

/-- `cancelRun` finds the row; a request for a settled run has no effect. -/
def requestCancel (s : ThreadRuns T) (k : ℕ) (runId : RunId) : Option (ThreadRuns T) :=
  match s.cancels k with
  | some _ => none
  | none =>
    if s.isLive runId then
      some (s.setCancel k (some ⟨runId, .found⟩))
    else some s

/-- The next await of `cancelRun`, up to the wait for the claim. -/
def advanceCancel (s : ThreadRuns T) (k : ℕ) (sameInstance : Bool) : Option (ThreadRuns T) :=
  match s.cancels k with
  | some ⟨runId, .found⟩ =>
    some (s.setCancel k (some ⟨runId, .read (s.readBaseCheckpoint sameInstance runId)⟩))
  | some ⟨runId, .read base⟩ =>
    if (s.get? runId).isNone then some (s.setCancel k none)
    else
      some ((s.withdraw runId ⟨.cancelled, RunStatus.isTerminal_cancelled⟩).setCancel k
        (base.map fun base => ⟨runId, .waiting base⟩))
  | some ⟨_, .waiting _⟩ =>
    if s.claim = none then some { s with claim := some (.rollback k) } else none
  | _ => none

/-- `rollbackCancelledRun` reverts the checkpoints under the claim. -/
def rollbackCancelled (s : ThreadRuns T) (k : ℕ) (uuids : List String) : Option (ThreadRuns T) :=
  match s.claim, s.cancels k with
  | some (.rollback k'), some ⟨runId, .waiting base⟩ =>
    if k' = k then
      (s.revertTo base uuids).map fun store =>
        { s.setCancel k (some ⟨runId, .deleting⟩) with store := store }
    else none
  | _, _ => none

/-- The row goes last, and with it the claim. -/
def deleteCancelled (s : ThreadRuns T) (k : ℕ) : Option (ThreadRuns T) :=
  match s.claim, s.cancels k with
  | some (.rollback k'), some ⟨runId, .deleting⟩ =>
    if k' = k then
      some { (s.delete runId).setCancel k none with claim := none }
    else none
  | _, _ => none

end ThreadRuns

inductive ThreadRunsAction (T : CheckpointedThread)
  | create (creation : ℕ) (strategy : MultitaskStrategy)
  | advanceCreation (creation : ℕ) (sameInstance : Bool)
  | insert (creation : ℕ) (runId : RunId) (admitted : Bool)
  | takeClaim (runId : RunId)
  | advanceExecution (uuids : List String)
  | graphWrite (w : GraphWrite T.saver T.threadId)
  | settle (status : TerminalStatus)
  | saveBase (runId : RunId)
  | dropNote (runId : RunId)
  | cancel (request : ℕ) (runId : RunId)
  | advanceCancel (request : ℕ) (sameInstance : Bool)
  | rollback (request : ℕ) (uuids : List String)
  | deleteCancelled (request : ℕ)

namespace ThreadRuns

/-- One await of one of the parties. The note of an executing run is never dropped. -/
def step {T : CheckpointedThread} (s : ThreadRuns T) : ThreadRunsAction T → Option (ThreadRuns T)
  | .create k strategy =>
    match s.creations k with
    | some _ => none
    | none => some (s.setCreation k (some (s.beginCreation strategy)))
  | .advanceCreation k sameInstance => s.advanceCreation k sameInstance
  | .insert k runId admitted => s.insertRun k runId admitted
  | .takeClaim runId => s.takeClaim runId
  | .advanceExecution uuids => s.advanceExecution uuids
  | .graphWrite w => s.graphWrite w
  | .settle status => s.settle status
  | .saveBase runId => s.saveBase runId
  | .dropNote runId =>
    match s.claim with
    | some (.execution holder _) => if holder = runId then none else some (s.dropNote runId)
    | _ => some (s.dropNote runId)
  | .cancel k runId => s.requestCancel k runId
  | .advanceCancel k sameInstance => s.advanceCancel k sameInstance
  | .rollback k uuids => s.rollbackCancelled k uuids
  | .deleteCancelled k => s.deleteCancelled k

end ThreadRuns

/-- All interleavings on one thread. -/
def threadRunsMachine (T : CheckpointedThread) :
    Machine (ThreadRuns T) (ThreadRunsAction T) := ⟨ThreadRuns.step⟩

end Skein
