import Skein.MemoryStore
import Skein.ProcessPool

/-!
# The life of a run row

Who writes the status of a run that has no native origin, no admission and no webhook:
its execution (`executeRun` with `finalizeRun`), cancel requests and the creations that
displace it. Each is a process that suspends at its awaits and writes what it decided
from an earlier read. Reads of rows no party writes are merged with the turn that
follows them. The per-thread creation lock is a lock of one server process; it is left
out, so several creations on one thread may overlap.
-/
namespace Skein

/-- Where a party stands, named by what it does when it resumes: `starting` and `finalizing`
stand before the `setStatus` that follows a read, `mirroring` before the write of the thread row,
and `displacing` holds the active runs still to be displaced. `caught` tells the `catch` block of
`executeRun` from its `try` block. -/
inductive RunProcess (J : Type*)
  | executeRun (runId : RunId)
  | starting (runId : RunId)
  | executing (runId : RunId) (caught : Bool)
  | finalizing (runId : RunId) (status : TerminalStatus) (error : Option J) (caught : Bool)
  | mirroring (runId : RunId) (caught : Bool)
  | cancelRun (runId : RunId)
  | cancelling (run : Run J)
  | createPendingRun (strategy : MultitaskStrategy) (create : RunCreate J)
    (ifThreadStatus : Option (List ThreadStatus))
  | displacing (active : List (Run J)) (reason : CancelAction) (create : RunCreate J)
    (ifThreadStatus : Option (List ThreadStatus))
  | done

/-- What the environment decides in one turn: the clock, a generated identifier, how the
graph ended, and whether the body of `executeRun` throws. -/
structure RunInput (J : Type*) where
  now : Timestamp
  uuid : RunId := .of "uuid"
  outcome : TerminalStatus := ⟨.success, rfl⟩
  error : Option J := none
  throws : Bool := false

/-- The status `cancelActiveRun` writes. -/
def displacedStatus : CancelAction → RunStatus
  | .interrupt => .interrupted
  | .rollback => .cancelled

namespace MemorySkeinStore
variable {J : Type*}

/-- `guardedInsert` of a run with no admission key; `none` is `"thread_busy"`. -/
def guardedInsert [EmptyCollection J] (store : MemorySkeinStore J) (create : RunCreate J)
    (requireNoActiveRun : Bool) (ifThreadStatus : Option (List ThreadStatus)) (uuid : RunId)
    (now : Timestamp) : Completion J (Option (Run J)) :=
  match ifThreadStatus with
  | none =>
    if requireNoActiveRun then store.runsCreateIfThreadIdle create uuid now
    else
      let created := store.createRun create uuid now
      (created.1.map some, created.2)
  | some statuses =>
    match store.runsCreateIfThreadMatches create
        { requireNoActiveRun, threadStatusIn := some statuses } uuid now with
    | (.error e, store) => (.error e, store)
    | (.ok (.run run), store) => (.ok (some run), store)
    | (.ok .threadBusy, store) => (.ok none, store)
    | (.ok (.threadStatusMismatch status), store) =>
      (.error (.http (.conflict ("Thread status is \"" ++ status.wire ++
        "\", which is not in the requested if_thread_status.")
        (some "thread_status_mismatch"))), store)

end MemorySkeinStore

namespace RunProcess
variable {J : Type*}

/-- The status writes a party is committed to by what it has read, in order. -/
def intends : RunProcess J → List (RunId × RunStatus)
  | .starting runId => [(runId, .running)]
  | .finalizing runId status _ _ => [(runId, status)]
  | .cancelling run => [(run.runId, .cancelled)]
  | .displacing active reason _ _ => active.map fun run => (run.runId, displacedStatus reason)
  | _ => []

/-- `finalizeRun` up to its `get`. -/
def settleRun (store : MemorySkeinStore J) (runId : RunId) (caught : Bool) (x : RunInput J) :
    RunProcess J :=
  match store.runsGet runId with
  | none => .mirroring runId caught
  | some fresh =>
    if fresh.status.isTerminal then .mirroring runId caught
    else .finalizing runId x.outcome x.error caught

/-- A rejected `setStatus` ends a request, and takes an execution to its `catch` block. -/
def rejected (runId : RunId) (caught : Bool) : RunProcess J :=
  if caught then .done else .executing runId true

/-- Executions, cancels and creations may start at any time. -/
def start (store : MemorySkeinStore J) : RunProcess J → Option (MemorySkeinStore J)
  | .executeRun _ | .cancelRun _ | .createPendingRun .. => some store
  | _ => none

variable [EmptyCollection J]

/-- One turn of a party. -/
def resume (store : MemorySkeinStore J) (p : RunProcess J) (x : RunInput J) :
    Option (MemorySkeinStore J × RunProcess J) :=
  match p with
  | .executeRun runId =>
    match store.runsGet runId with
    | some current =>
      if current.status.isTerminal then some (store, .done) else some (store, .starting runId)
    | none => some (store, .starting runId)
  | .starting runId =>
    match store.runsSetStatus runId .running none x.now with
    | (.error _, store) => some (store, rejected runId false)
    | (.ok running, store) =>
      if running.status.isTerminal then some (store, .done)
      else some (store, .executing runId false)
  | .executing runId caught => some (store, settleRun store runId (caught || x.throws) x)
  | .finalizing runId status error caught =>
    match store.runsSetStatus runId status error x.now with
    | (.error _, store) => some (store, rejected runId caught)
    | (.ok _, store) => some (store, .mirroring runId caught)
  | .mirroring runId caught =>
    if x.throws && !caught then some (store, .executing runId true) else some (store, .done)
  | .cancelRun runId =>
    match store.runsGet runId with
    | none => some (store, .done)
    | some run =>
      if run.status.isTerminal then some (store, .done) else some (store, .cancelling run)
  | .cancelling run => some ((store.runsSetStatus run.runId .cancelled none x.now).2, .done)
  | .createPendingRun strategy create ifThreadStatus =>
    match strategy with
    | .reject => some ((store.guardedInsert { create with status := some .pending } true
        ifThreadStatus x.uuid x.now).2, .done)
    | .enqueue => some (store, .displacing [] .interrupt create ifThreadStatus)
    | .interrupt => some (store, .displacing (store.runsListActiveRuns (some create.threadId))
        .interrupt create ifThreadStatus)
    | .rollback => some (store, .displacing (store.runsListActiveRuns (some create.threadId))
        .rollback create ifThreadStatus)
  | .displacing [] _ create ifThreadStatus =>
    some ((store.guardedInsert { create with status := some .pending } false ifThreadStatus
      x.uuid x.now).2, .done)
  | .displacing (run :: rest) reason create ifThreadStatus =>
    match store.runsSetStatus run.runId (displacedStatus reason) none x.now with
    | (.error _, store) => some (store, .done)
    | (.ok _, store) => some (store, .displacing rest reason create ifThreadStatus)
  | .done => none

/-- Every interleaving of executions, cancels and creations over one store. -/
def program : Program (MemorySkeinStore J) (RunProcess J) Empty (RunInput J) where
  env := fun _ e => nomatch e
  start := fun store _ p => start store p
  resume := fun store _ p x => resume store p x

end RunProcess
end Skein
