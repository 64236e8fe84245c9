import Mathlib.Logic.Function.Basic
import Skein.Machine
import Skein.ThreadRetention

/-!
# The sweeper of expired threads

`createThreadTtlSweeper`: a tick lists the threads whose time has run out and takes them one by
one. Between any two of its calls the requests call the store as they like. A call of the
sweeper may fail; the thread is left and the tick goes on.
-/
namespace Skein
variable {J : Type*} [EmptyCollection J]

inductive ThreadCall (J : Type*)
  | threadsCreate (input : RetainedCreate J) (uuid : ThreadId)
  | threadsUpdate (threadId : ThreadId) (patch : RetainedUpdate J)
  | threadsCopy (threadId uuid : ThreadId)
  | threadsDelete (threadId : ThreadId)
  | createRun (input : RunCreate J) (uuid : RunId)
  | runsSetStatus (runId : RunId) (status : RunStatus)

/-- The arguments of a call of `setThreadExpiry`. -/
structure Touch where
  threadId : ThreadId
  ttl : Option Ttl
  strategy : Option TtlStrategy

namespace ThreadCall

def apply (store : RetainingStore J) (now : Timestamp) : ThreadCall J → RetainingStore J
  | threadsCreate input uuid => store.threadsCreate input uuid now
  | threadsUpdate threadId patch => store.threadsUpdate threadId patch now
  | threadsCopy threadId uuid => store.threadsCopy threadId uuid now
  | threadsDelete threadId => store.threadsDelete threadId
  | createRun input uuid => { store with rows := (store.rows.createRun input uuid now).2 }
  | runsSetStatus runId status =>
    { store with rows := (store.rows.runsSetStatus runId status none now).2 }

/-- What the call passes to `setThreadExpiry`, where it comes to that. -/
def touch (store : RetainingStore J) : ThreadCall J → Option Touch
  | threadsCreate input uuid =>
    if store.rows.threads.contains (input.threadId.getD uuid) then none
    else some ⟨input.threadId.getD uuid, input.ttl, input.ttlStrategy⟩
  | threadsUpdate threadId patch =>
    if store.rows.threads.contains threadId && store.rearms threadId patch then
      some ⟨threadId, patch.ttl, patch.ttlStrategy⟩
    else none
  | threadsCopy threadId uuid =>
    if store.rows.threads.contains threadId then some ⟨uuid, none, none⟩ else none
  | _ => none

end ThreadCall

/-- Where a tick stands with the first of the threads that are left to it. -/
inductive TtlStage
  /-- before `getTtl` -/
  | policy
  /-- before the first `hasActiveRun` -/
  | active (policy : Retention)
  | pruning (policy : Retention)
  /-- before the second `hasActiveRun` -/
  | pruned (policy : Retention)
  /-- before `requireThread` of `patch` -/
  | patching (policy : Retention)
  | rearming (policy : Retention)
  /-- before `requireThread` of `delete` -/
  | requiring
  | aborting
  /-- before `checkpointer.deleteThread` -/
  | erasing
  /-- before `store.threads.delete` -/
  | removing
  /-- before what follows it -/
  | clearing

structure Tick where
  /-- What `clock` said. -/
  cutoff : Timestamp
  listed : List ThreadId
  handled : List ThreadId
  rest : List ThreadId
  stage : TtlStage

structure ThreadTtlSweeperDeps where
  maxPageSize : Option ℕ := none
  /-- `deps.threads` has `prune` and `patch`. -/
  prunesAndPatches : Bool := true

/-- `SWEEP_BATCH_SIZE` -/
def sweepBatchSize : ℕ := 100

def ThreadTtlSweeperDeps.scanLimit (deps : ThreadTtlSweeperDeps) : ℕ :=
  min sweepBatchSize (deps.maxPageSize.getD sweepBatchSize)

namespace Tick
variable (tick : Tick)

def start (cutoff : Timestamp) (listed : List ThreadId) : Tick :=
  { cutoff, listed, handled := [], rest := listed, stage := .policy }

/-- `continue`, or the end of the body. -/
def next : Tick :=
  { tick with handled := tick.handled ++ tick.rest.take 1, rest := tick.rest.tail,
              stage := .policy }

def goTo (stage : TtlStage) : Tick := { tick with stage }

/-- Which stage follows where the call of this one succeeds; `none` where the thread is left. -/
def following (deps : ThreadTtlSweeperDeps) (store : RetainingStore J) (threadId : ThreadId) :
    TtlStage → Option TtlStage
  | .policy =>
    if (store.getTtl threadId).strategy = .keepLatest then
      if deps.prunesAndPatches then some (.active (store.getTtl threadId)) else none
    else some .requiring
  | .active policy => if store.hasActiveRun threadId then none else some (.pruning policy)
  | .pruning policy => some (.pruned policy)
  | .pruned policy => if store.hasActiveRun threadId then none else some (.patching policy)
  | .patching policy => if store.rows.threads.contains threadId then some (.rearming policy) else none
  | .rearming _ => none
  | .requiring => if store.rows.threads.contains threadId then some .aborting else none
  | .aborting => some .erasing
  | .erasing => some .removing
  | .removing => some .clearing
  | .clearing => none

/-- What a stage calls that changes the store. -/
def threadCall (J : Type*) (threadId : ThreadId) : TtlStage → Option (ThreadCall J)
  | .rearming policy => some (.threadsUpdate threadId { ttl := some policy.ttl.join })
  | .removing => some (.threadsDelete threadId)
  | _ => none

end Tick

structure SweepWorld (J : Type*) where
  store : RetainingStore J
  ticks : ℕ → Option Tick

inductive SweepAction (J : Type*)
  | call (call : ThreadCall J)
  /-- `listExpired` of a tick. -/
  | list (n : ℕ)
  /-- The next call of a tick. -/
  | advance (n : ℕ) (failed : Bool)

namespace SweepWorld
variable (deps : ThreadTtlSweeperDeps)

def init (store : RetainingStore J) : SweepWorld J := { store, ticks := fun _ => none }

/-- What an action calls that changes the store. -/
def threadCall (world : SweepWorld J) : SweepAction J → Option (ThreadCall J)
  | .call call => some call
  | .list _ => none
  | .advance _ true => none
  | .advance n false =>
    (world.ticks n).bind fun tick => tick.rest.head?.bind fun threadId =>
      Tick.threadCall J threadId tick.stage

def nextTick (store : RetainingStore J) (tick : Tick) (threadId : ThreadId) (failed : Bool) : Tick :=
  if failed then tick.next
  else ((Tick.following deps store threadId tick.stage).map tick.goTo).getD tick.next

/-- One step, with what the clocks say in it. -/
def step (world : SweepWorld J) (action : SweepAction J × Timestamp) : Option (SweepWorld J) :=
  let store := ((world.threadCall action.1).map (·.apply world.store action.2)).getD world.store
  match action.1 with
  | .call _ => some { world with store }
  | .list n =>
    match world.ticks n with
    | some _ => none
    | none => some { world with
        ticks := Function.update world.ticks n
          (some (.start action.2 (world.store.listExpired action.2 deps.scanLimit))) }
  | .advance n failed =>
    (world.ticks n).bind fun tick => tick.rest.head?.map fun threadId => {
      store
      ticks := Function.update world.ticks n
        (some (nextTick deps world.store tick threadId failed)) }

def machine : Machine (SweepWorld J) (SweepAction J × Timestamp) where
  step := step deps

end SweepWorld
end Skein
