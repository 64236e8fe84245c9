import Skein.RunLifecycle

/-!
# The thread row as a mirror of its runs

`startRunExecution` waits for the thread's execution claim and runs `executeRun` under
it, which writes the thread row when the run starts and again when it has settled.
`cancelRun` holds no claim and frees the thread as well. Both suspend at every access to
the store. The graph, the base checkpoint and the bus stand between two writes of the
thread row and leave it alone, so an execution shows only how it ended; the revert of a
rollback touches no row but the runs it deletes.
-/
namespace Skein

/-- How the engine builds and reads JSON: the `error` entry of a metadata object, and
`runError(name, message)`. -/
class EngineJson (J : Type*) where
  hasError : J → Bool
  clearError : J → J
  setError : J → String → J
  runError : String → String → J

instance : EngineJson ℕ where
  hasError := fun _ => false
  clearError := id
  setError := fun metadata _ => metadata
  runError := fun _ _ => 0

/-- `threadStatusForRun`. -/
def threadStatusForRun : RunStatus → ThreadStatus
  | .running => .busy
  | .interrupted => .interrupted
  | .error | .timeout => .error
  | .pending | .success | .cancelled => .idle

/-- `abortedStatus`. -/
def abortedStatus : Option AbortReason → TerminalStatus
  | some .timeout => ⟨.timeout, RunStatus.isTerminal_timeout⟩
  | some .interrupt => ⟨.interrupted, RunStatus.isTerminal_interrupted⟩
  | some .cancel | some .rollback | none => ⟨.cancelled, RunStatus.isTerminal_cancelled⟩

/-- The message of `RUN_TIMEOUT_ERROR`. -/
def runTimeoutMessage : String := "Run timed out."

/-- How the body of `executeRun` ends: on the final snapshot, `paused` where its `next` is not
empty; with the signal found aborted once the stream is over; or in the `catch` block, with the
state of the control and the error on the wire. -/
inductive RunEnding (J : Type*)
  | completed (values interrupts : J) (paused : Bool)
  | aborted (reason : Option AbortReason)
  | threw (reason : Option AbortReason) (aborted : Bool) (error : J) (message : String)
  deriving DecidableEq, Repr

/-- A write of the thread row by the engine; `error` is that of `mirrorThreadError`. -/
inductive ThreadMirror (J : Type*)
  | patch (patch : MemorySkeinStore.ThreadUpdate J)
  | error (message : String)
  deriving DecidableEq, Repr

/-- What the kwargs of a run select in `settleRun`. -/
inductive SettleWay (J : Type*)
  | finalizeRun
  | settleNativeRun (result : Option J) (delivery : Option (DeliveryCreate J))
  | recordDelivery (delivery : DeliveryCreate J)
  deriving DecidableEq, Repr

/-- The callback of the run can be cloned. -/
def SettleWay.clones {J : Type*} [WireJson J] : SettleWay J → Bool
  | .recordDelivery delivery => delivery.clones
  | .finalizeRun | .settleNativeRun .. => true

namespace ThreadMirror
variable {J : Type*} [EngineJson J]

/-- The patch a mirror sends once it has read the thread: leaving the error state drops
the error a failed run left behind. -/
def update (thread : Thread J) : ThreadMirror J → MemorySkeinStore.ThreadUpdate J
  | .patch wanted =>
    if wanted.status.any (· ≠ .error) then
      { wanted with
        error := some none
        metadata :=
          if wanted.metadata.isNone ∧ EngineJson.hasError thread.metadata then
            some (EngineJson.clearError thread.metadata)
          else wanted.metadata }
    else wanted
  | .error message =>
    { status := some .error
      metadata := some (EngineJson.setError thread.metadata message)
      error := some (some message) }

end ThreadMirror

namespace RunEnding
variable {J : Type*}

/-- The run ended in the `catch` block. -/
def caught : RunEnding J → Bool
  | .threw .. => true
  | .completed .. | .aborted _ => false

/-- The status asked of `settleRun`. -/
def status : RunEnding J → TerminalStatus
  | .completed _ _ true => ⟨.interrupted, RunStatus.isTerminal_interrupted⟩
  | .completed _ _ false => ⟨.success, RunStatus.isTerminal_success⟩
  | .aborted reason => abortedStatus reason
  | .threw none false _ _ => ⟨.error, RunStatus.isTerminal_error⟩
  | .threw reason _ _ _ => abortedStatus reason

/-- The error settled with it. -/
def error [EngineJson J] (ending : RunEnding J) : Option J :=
  match ending with
  | .threw none false error _ => some error
  | .completed .. => none
  | .aborted _ | .threw .. =>
    if ending.status.val = .timeout then some (EngineJson.runError "TimeoutError" runTimeoutMessage)
    else none

/-- The mirror of a run that settled as `final`, which another party may have decided. -/
def mirror (ending : RunEnding J) (final : RunStatus) : Option (ThreadMirror J) :=
  match ending with
  | .completed values interrupts _ =>
    if final = ending.status then
      some (.patch { values := some values, interrupts := some interrupts,
                     status := some (threadStatusForRun final) })
    else some (.patch { status := some (if final = .error then .error else .idle) })
  | .aborted _ =>
    if final = .timeout then some (.error runTimeoutMessage)
    else some (.patch { status := some .idle })
  | .threw (some .timeout) _ _ _ =>
    if final = .timeout then some (.error runTimeoutMessage) else none
  | .threw none false _ message => if final = .error then some (.error message) else none
  | .threw .. => some (.patch { status := some .idle })

end RunEnding

/-- How far `startRunExecution` has come. `showing` and `mirroring` stand before `mirrorThread`
reads the thread, at the start and after the settlement; at `finishing` the engine has returned or
thrown, and the claim is still held. -/
inductive ExecutionStage (J : Type*)
  | waiting
  | claimed
  | entered
  | starting
  | showing
  | showingWrite (thread : Thread J)
  | executing (caught : Bool)
  | finalizing (ending : RunEnding J)
  | mirroring (mirror : ThreadMirror J) (caught : Bool)
  | mirroringWrite (mirror : ThreadMirror J) (thread : Thread J) (caught : Bool)
  | finishing
  deriving DecidableEq, Repr

/-- A party. `shown` tells that an execution has written its busy mirror and not the
mirror of its settlement. -/
inductive MirrorProcess (J : Type*)
  | execution (runId : RunId) (threadId : ThreadId) (shown : Bool) (stage : ExecutionStage J)
  | cancelRun (runId : RunId) (recovering : Bool)
  | cancelling (run : Run J) (recovering : Bool)
  | checkingLatest (run : Run J)
  | freeing (run : Run J)
  | done
  deriving DecidableEq, Repr

structure MirrorInput (J : Type*) where
  now : Timestamp
  uuid : DeliveryId := .of "uuid"
  ending : RunEnding J
  way : SettleWay J := .finalizeRun
  throws : Bool := false

/-- What creations and rollbacks do to the run rows meanwhile. -/
inductive RunsEvent (J : Type*)
  | create (input : RunCreate J) (uuid : RunId) (now : Timestamp)
  | displace (runId : RunId) (reason : CancelAction) (now : Timestamp)
  | delete (runId : RunId)

/-- The store and the execution claims: the process that holds each thread's. -/
structure ExecutionState (J : Type*) where
  store : MemorySkeinStore J
  holders : OrderedMap ThreadId ℕ := ∅

namespace ExecutionStage
variable {J : Type*}

/-- A rejection takes the `try` block to the `catch` block and ends the latter. -/
def rejected (caught : Bool) : ExecutionStage J := if caught then .finishing else .executing true

/-- What follows once `settleRun` has returned `final`. -/
def settled (ending : RunEnding J) (final : RunStatus) : ExecutionStage J :=
  match ending.mirror final with
  | none => .finishing
  | some mirror => .mirroring mirror ending.caught

variable [WireJson J] [EngineJson J]

/-- `settleRun`, up to the `setStatus` of `finalizeRun`. -/
def settleRun (store : MemorySkeinStore J) (runId : RunId) (ending : RunEnding J)
    (x : MirrorInput J) : MemorySkeinStore J × ExecutionStage J :=
  match x.way with
  | .finalizeRun =>
    match store.runsGet runId with
    | none => (store, settled ending ending.status)
    | some fresh =>
      if fresh.status.isTerminal then (store, settled ending fresh.status)
      else (store, .finalizing ending)
  | .settleNativeRun result delivery =>
    match store.runsSettle runId ⟨ending.status, ending.error, result, delivery⟩ x.uuid x.now with
    | (.error _, store) => (store, rejected ending.caught)
    | (.ok row, store) => (store, settled ending (row.run.elim ending.status.val Run.status))
  | .recordDelivery delivery =>
    match store.runsFinalizeWithDelivery runId ⟨ending.status, ending.error, delivery⟩ x.uuid
        x.now with
    | (.error _, store) => (store, rejected ending.caught)
    | (.ok row, store) => (store, settled ending row.delivery.runStatus)

end ExecutionStage

namespace MirrorProcess
variable {J : Type*}

/-- Executions and cancels may start at any time. -/
def start (s : ExecutionState J) : MirrorProcess J → Option (ExecutionState J)
  | .execution _ _ false .waiting | .cancelRun .. => some s
  | _ => none

def env [EmptyCollection J] (s : ExecutionState J) : RunsEvent J → ExecutionState J
  | .create input uuid now =>
    { s with store := (s.store.createRun { input with status := some .pending } uuid now).2 }
  | .displace runId reason now =>
    { s with store := (s.store.runsSetStatus runId (displacedStatus reason) none now).2 }
  | .delete runId => { s with store := s.store.runsDelete runId }

variable [WireJson J] [EngineJson J]

/-- One turn of the execution that is process `i`. -/
def resumeExecution (s : ExecutionState J) (i : ℕ) (runId : RunId) (threadId : ThreadId)
    (shown : Bool) (stage : ExecutionStage J) (x : MirrorInput J) :
    Option (ExecutionState J × MirrorProcess J) :=
  let goto (shown : Bool) (stage : ExecutionStage J) (store : MemorySkeinStore J) :=
    some ({ s with store }, MirrorProcess.execution runId threadId shown stage)
  match stage with
  | .waiting =>
    if s.holders.contains threadId then none
    else some ({ s with holders := s.holders.set threadId i },
      .execution runId threadId false .claimed)
  | .claimed =>
    if (s.store.runsGet runId).all fun current => current.status.isTerminal then
      goto shown .finishing s.store
    else goto shown .entered s.store
  | .entered =>
    if (s.store.runsGet runId).any fun current => current.status.isTerminal then
      goto shown .finishing s.store
    else goto shown .starting s.store
  | .starting =>
    match s.store.runsSetStatus runId .running none x.now with
    | (.error _, store) => goto shown (.rejected false) store
    | (.ok running, store) =>
      if running.status.isTerminal then goto shown .finishing store else goto shown .showing store
  | .showing =>
    match s.store.threadsGet threadId with
    | none => goto shown (.executing false) s.store
    | some thread => goto shown (.showingWrite thread) s.store
  | .showingWrite thread =>
    match s.store.threadsUpdate threadId
        ((ThreadMirror.patch { status := some .busy }).update thread) x.now with
    | (.error _, store) => goto shown (.rejected false) store
    | (.ok _, store) => goto true (.executing false) store
  | .executing caught =>
    -- The `catch` block is left only the way it ends itself.
    if caught && !x.ending.caught then none
    else
      let settled := ExecutionStage.settleRun s.store runId x.ending x
      goto shown settled.2 settled.1
  | .finalizing ending =>
    match s.store.runsSetStatus runId ending.status ending.error x.now with
    | (.error _, store) => goto shown (.rejected ending.caught) store
    | (.ok _, store) => goto shown (.settled ending ending.status) store
  | .mirroring mirror caught =>
    match s.store.threadsGet threadId with
    | none => goto shown .finishing s.store
    | some thread => goto shown (.mirroringWrite mirror thread caught) s.store
  | .mirroringWrite mirror thread caught =>
    match s.store.threadsUpdate threadId (mirror.update thread) x.now with
    | (.error _, store) => goto shown (.rejected caught) store
    | (.ok _, store) =>
      if x.throws then goto false (.rejected caught) store else goto false .finishing store
  | .finishing => some ({ s with holders := s.holders.erase threadId }, .done)

/-- One turn of process `i`. -/
def resume (s : ExecutionState J) (i : ℕ) (p : MirrorProcess J) (x : MirrorInput J) :
    Option (ExecutionState J × MirrorProcess J) :=
  match p with
  | .execution runId threadId shown stage => resumeExecution s i runId threadId shown stage x
  | .cancelRun runId recovering =>
    match s.store.runsGet runId with
    | none => some (s, .done)
    | some run =>
      if run.status.isTerminal ∧ ¬(recovering = true ∧ run.status = .cancelled) then
        some (s, .done)
      else some (s, .cancelling run recovering)
  | .cancelling run recovering =>
    let next : MirrorProcess J := if recovering then .checkingLatest run else .freeing run
    match x.way with
    | .settleNativeRun _ delivery =>
      match s.store.runsSettle run.runId
          { status := ⟨.cancelled, RunStatus.isTerminal_cancelled⟩, delivery } x.uuid x.now with
      | (.error _, store) => some ({ s with store }, .done)
      | (.ok _, store) => some ({ s with store }, next)
    | .finalizeRun | .recordDelivery _ =>
      if run.status.isTerminal then some (s, next)
      else
        match s.store.runsSetStatus run.runId .cancelled none x.now with
        | (.error _, store) => some ({ s with store }, .done)
        | (.ok _, store) => some ({ s with store }, next)
  | .checkingLatest run =>
    if (s.store.runsLatestForThread run.threadId).any (·.runId = run.runId) then
      some (s, .freeing run)
    else some (s, .done)
  | .freeing run =>
    some ({ s with store := (s.store.threadsUpdate run.threadId { status := some .idle } x.now).2 },
      .done)
  | .done => none

/-- Every interleaving of executions and cancels. -/
def program : Program (ExecutionState J) (MirrorProcess J) (RunsEvent J) (MirrorInput J) where
  env := fun s e => some (env s e)
  start := fun s _ p => start s p
  resume := resume

end MirrorProcess
end Skein
