import Mathlib.Logic.Function.Basic
import Skein.Admission
import Skein.ThreadMirror

/-!
# Channel events on a thread

`resolveRunPlan` and `createWithPlan` against the guarded creation of the run service, beside
one execution that settles its run as interrupted. An event reads the thread's status,
suspends, and creates its run under the guard its plan carries; it decides again once where
the guard refuses. Strategies that displace a run do not occur on this path.
-/
namespace Skein

/-- `onExisting`. -/
inductive ExistingPolicy
  | resume | enqueue | interrupt | reject
  deriving DecidableEq, Repr

structure InboundEvent (J : Type*) where
  onExisting : Option ExistingPolicy := none
  input : J
  resumeWith : Option J := none
  metadata : Option J := none
  deriving DecidableEq, Repr

/-- `RunPlan.run`; `resume` is `command.resume`. -/
structure RunPlan (J : Type*) where
  input : Option J := none
  resume : Option J := none
  ifThreadStatus : Option (List ThreadStatus) := none
  multitaskStrategy : Option MultitaskStrategy := none
  metadata : Option J := none
  deriving DecidableEq, Repr

/-- `resolveRunPlan`, once the status is read. -/
def resolveRunPlan {J : Type*} (event : InboundEvent J) (status : Option ThreadStatus) : RunPlan J :=
  let base : RunPlan J := { metadata := event.metadata }
  match event.onExisting.getD .resume with
  | .enqueue => { base with input := some event.input, multitaskStrategy := some .enqueue }
  | .interrupt => { base with input := some event.input, multitaskStrategy := some .interrupt }
  | .reject => { base with input := some event.input, ifThreadStatus := some [.idle, .error] }
  | .resume =>
    if status = some .interrupted then
      { base with
        resume := some (event.resumeWith.getD event.input)
        ifThreadStatus := some [.interrupted] }
    else
      { base with
        input := some event.input
        multitaskStrategy := some .enqueue
        ifThreadStatus := some [.idle, .error, .busy] }

/-- `isThreadStatusMismatch`. -/
def isThreadStatusMismatch : Thrown → Bool
  | .http error => error.code = some "thread_status_mismatch"
  | _ => false

namespace MemorySkeinStore
variable {J : Type*} [WireJson J]

/-- `guardedInsert` of a run with an admission key that displaces no run. -/
def admittedInsert (store : MemorySkeinStore J) (admissionKey : AdmissionKey)
    (create : RunCreate J) (guard : RunCreateGuard) (draws : AdmissionDraws) :
    Completion J (Option RunId) :=
  let identified := { create with runId := some (create.runId.getD draws.runUuid) }
  match store.admitRun { toAdmissionKey := admissionKey, run := identified, guard } draws with
  | (.error e, store) => (.error e, store)
  | (.ok receipt, store) =>
    if store.runs.contains receipt.runId then (.ok (some receipt.runId), store)
    else (.error (.http (.notFound "Accepted run was deleted.")), store)

/-- `createPendingRun`, for the strategies that displace no run. -/
def createPendingRun (store : MemorySkeinStore J) (admissionKey : Option AdmissionKey)
    (create : RunCreate J) (ifThreadStatus : Option (List ThreadStatus)) (draws : AdmissionDraws) :
    Completion J RunId :=
  let requireNoActiveRun : Bool := create.multitaskStrategy.getD .reject = .reject
  let inserted : Completion J (Option RunId) :=
    match admissionKey with
    | some key =>
      store.admittedInsert key create { requireNoActiveRun, threadStatusIn := ifThreadStatus } draws
    | none =>
      let created := store.guardedInsert create requireNoActiveRun ifThreadStatus draws.runUuid
        draws.now
      (created.1.map (Option.map Run.runId), created.2)
  match inserted with
  | (.error e, store) => (.error e, store)
  | (.ok (some runId), store) => (.ok runId, store)
  | (.ok none, store) =>
    (.error (.http (.unprocessable ("Thread is already running a task. Wait for it to finish or " ++
      "choose a different multitask strategy.") (some "thread_busy"))), store)

end MemorySkeinStore

/-- The events of one thread, and the run that parks on a question. `toKwargs` is what the
run service makes of an event's plan, its stream modes and its reply target. -/
structure ChannelPipeline (ι J : Type*) where
  threadId : ThreadId
  assistantId : AssistantId
  asking : RunId
  event : ι → InboundEvent J
  admission : ι → Option AdmissionKey
  toKwargs : ι → RunPlan J → J

/-- How far `createWithPlan` has come; `again` tells that the first attempt was refused. -/
inductive EventStage (J : Type*)
  | resolving (again : Bool)
  | creating (plan : RunPlan J) (again : Bool)
  | created (runId : RunId)
  | failed (error : Thrown)
  deriving DecidableEq, Repr

/-- A run an event has inserted. `asked` tells that the interrupted run had settled. -/
structure Creation (ι J : Type*) where
  event : ι
  runId : RunId
  plan : RunPlan J
  asked : Bool
  deriving DecidableEq, Repr

structure ChannelWorld (ι J : Type*) where
  exec : ExecutionState J
  engine : MirrorProcess J
  events : ι → EventStage J
  created : List (Creation ι J) := []

inductive ChannelStep (ι J : Type*)
  | engine (x : MirrorInput J)
  /-- An unanswered read is a thread that is not found or not visible. -/
  | read (i : ι) (answered : Bool)
  | create (i : ι) (draws : AdmissionDraws)

namespace ChannelPipeline
variable {ι J : Type*} (p : ChannelPipeline ι J)

/-- The insert of an event's plan. -/
def runCreate (i : ι) (plan : RunPlan J) (now : Timestamp) : RunCreate J where
  threadId := p.threadId
  assistantId := p.assistantId
  status := some .pending
  metadata := plan.metadata
  multitaskStrategy := some (plan.multitaskStrategy.getD .reject)
  kwargs := some { queueNotBefore := some now, rest := p.toKwargs i plan }

/-- The asking run has settled as interrupted. -/
def asked (store : MemorySkeinStore J) : Bool :=
  (store.runs.get? p.asking).any fun run => run.status = .interrupted

variable [DecidableEq ι]

/-- An event's read of the status. -/
def read (w : ChannelWorld ι J) (i : ι) (answered : Bool) : Option (ChannelWorld ι J) :=
  match w.events i with
  | .resolving again =>
    let status := if answered then (w.exec.store.threadsGet p.threadId).map Thread.status else none
    some { w with
      events := Function.update w.events i (.creating (resolveRunPlan (p.event i) status) again) }
  | _ => none

variable [WireJson J]

/-- An event's attempt. `randomUUID` never returns the identifier of an existing run. -/
def create (w : ChannelWorld ι J) (i : ι) (draws : AdmissionDraws) : Option (ChannelWorld ι J) :=
  match w.events i with
  | .creating plan again =>
    if w.exec.store.runs.contains draws.runUuid ∨ plan.multitaskStrategy = some .interrupt then none
    else
      let done := w.exec.store.createPendingRun (p.admission i) (p.runCreate i plan draws.now)
        plan.ifThreadStatus draws
      let w' := { w with exec := { w.exec with store := done.2 } }
      match done.1 with
      | .error e =>
        some { w' with
          events := Function.update w.events i
            (if isThreadStatusMismatch e && !again then .resolving true else .failed e) }
      | .ok runId =>
        some { w' with
          events := Function.update w.events i (.created runId)
          created :=
            if w.exec.store.runs.contains runId then w.created
            else w.created ++ [⟨i, runId, plan, p.asked w.exec.store⟩] }
  | _ => none

variable [EngineJson J]

/-- One turn. The execution pauses on its question, and nothing it calls fails. -/
def step (w : ChannelWorld ι J) : ChannelStep ι J → Option (ChannelWorld ι J)
  | .engine x =>
    match x.ending with
    | .completed _ _ true =>
      if x.throws || !x.way.clones then none
      else (MirrorProcess.resume w.exec 0 w.engine x).map fun r =>
        { w with exec := r.1, engine := r.2 }
    | _ => none
  | .read i answered => p.read w i answered
  | .create i draws => p.create w i draws

def machine : Machine (ChannelWorld ι J) (ChannelStep ι J) := ⟨p.step⟩

end ChannelPipeline
end Skein
