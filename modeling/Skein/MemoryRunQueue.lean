import Skein.Machine
import Skein.OrderedMap
import Skein.WireTypes

/-!
# The partitioned in-memory queue

`MemoryRunQueue` with any number of partitioned consumers. What runs between two awaits is one
step: an `enqueue`, a delay timer, one turn of a consumer's loop, the handler of an answer, the
`finally` of a task, a retry timer, a `close`. The tasks and the deferrals of all consumers are
kept in one list each, every entry under its consumer; a promise that has been settled but not
been looked at is a step that is enabled. What became visible, what was started and what left
is recorded beside the queue, as is what an `enqueue` took in, and no step reads it.
-/
namespace Skein

structure QueuedRun where
  runId : RunId
  threadId : ThreadId
  deriving DecidableEq, Repr

/-- An entry of `#items`, with the place of its run among those that became visible. -/
structure QueueItem where
  run : QueuedRun
  seq : ℕ
  deriving DecidableEq, Repr

/-- A timer of `#delayed`. -/
structure DelayedRun where
  run : QueuedRun
  dueAt : Timestamp
  deriving DecidableEq, Repr

/-- How `tryProcess` settles: `true`, `false` for a busy thread, or an exception. -/
inductive ProcessAnswer
  | handled
  | busy
  | thrown
  deriving DecidableEq, Repr

inductive QueueTaskPhase
  | processing
  /-- The answer has been looked at, the `finally` block has not run. -/
  | answered (busy : Bool)
  deriving DecidableEq, Repr

/-- A task of a consumer's `running`. -/
structure QueueTask where
  consumer : ℕ
  item : QueueItem
  phase : QueueTaskPhase
  deriving DecidableEq, Repr

structure PartitionedConsumer where
  concurrency : ℕ
  consuming : Bool
  deriving DecidableEq, Repr

structure MemoryRunQueue where
  items : List QueueItem := []
  /-- The consumers parked on a promise. -/
  waiters : List ℕ := []
  active : List RunId := []
  claimedThreads : List ThreadId := []
  delayed : Table RunId DelayedRun (fun d => d.run.runId) := ∅
  consumers : List PartitionedConsumer := []
  running : List QueueTask := []
  /-- The retry timers of the consumers. -/
  deferred : List (ℕ × ThreadId) := []
  accepted : List QueuedRun := []
  visible : List QueuedRun := []
  started : List QueueItem := []
  left : List QueueItem := []

inductive QueueEvent
  | enqueue (run : QueuedRun) (delayMs : ℕ) (now : Timestamp)
  /-- The delay timer of a run fires. -/
  | due (runId : RunId) (now : Timestamp)
  | consumePartitioned (concurrency : ℕ)
  /-- A turn of the loop of a consumer. -/
  | turn (consumer : ℕ)
  /-- The handler of what `tryProcess` answered to a task. -/
  | answer (task : ℕ) (answer : ProcessAnswer)
  /-- The `finally` of a task. -/
  | settle (task : ℕ)
  /-- A retry timer fires. -/
  | retry (consumer : ℕ) (threadId : ThreadId)
  | close (consumer : ℕ)

namespace MemoryRunQueue
variable (q : MemoryRunQueue)

/-- A run becomes visible; one parked consumer is woken, if any. -/
def push (run : QueuedRun) : MemoryRunQueue :=
  { q with
    items := q.items ++ [⟨run, q.visible.length⟩]
    visible := q.visible ++ [run]
    waiters := q.waiters.tail }

/-- A run that is taken in. -/
def accept (run : QueuedRun) : MemoryRunQueue := { q with accepted := q.accepted ++ [run] }

def enqueue (run : QueuedRun) (delayMs : ℕ) (now : Timestamp) : MemoryRunQueue :=
  if run.runId ∈ q.active then q
  else if q.delayed.contains run.runId then q
  else if q.items.any fun queued => queued.run.runId = run.runId then q
  else if 0 < delayMs then
    { q.accept run with delayed := q.delayed.write ⟨run, now + delayMs⟩ }
  else (q.accept run).push run

/-- The timer of `#holdUntil`; an early one is armed again for the remainder. -/
def due (runId : RunId) (now : Timestamp) : Option MemoryRunQueue :=
  match q.delayed.get? runId with
  | none => none
  | some held =>
    if now < held.dueAt then some q
    else some ({ q with delayed := q.delayed.erase runId }.push held.run)

/-- `consumePartitioned` throws unless the concurrency is positive. -/
def consumePartitioned (concurrency : ℕ) : Option MemoryRunQueue :=
  if concurrency < 1 then none
  else some { q with consumers := q.consumers ++ [⟨concurrency, true⟩] }

/-- `wake` -/
def wake : MemoryRunQueue := { q with waiters := [] }

/-- `releaseThread` of a consumer. -/
def releaseThread (consumer : ℕ) (threadId : ThreadId) : MemoryRunQueue :=
  { q with
    claimedThreads := q.claimedThreads.filter (· ≠ threadId)
    deferred := q.deferred.filter (· ≠ (consumer, threadId)) }.wake

/-- `running.size` of a consumer. -/
def runningSize (consumer : ℕ) : ℕ := q.running.countP fun task => task.consumer = consumer

def consuming (consumer : ℕ) : Bool := (q.consumers[consumer]?).any PartitionedConsumer.consuming

/-- An open consumer below its concurrency. -/
def hasCapacity (consumer : ℕ) : Bool :=
  (q.consumers[consumer]?).any fun c =>
    c.consuming && decide (q.runningSize consumer < c.concurrency)

/-- The loop is at its top, not parked and not waiting for one of its tasks. -/
def awake (consumer : ℕ) : Bool := q.hasCapacity consumer && decide (consumer ∉ q.waiters)

/-- The run may be taken: nobody has claimed its thread. -/
def eligible (item : QueueItem) : Bool := decide (item.run.threadId ∉ q.claimedThreads)

/-- A turn of the loop: it takes the first run of an unclaimed thread, or parks. -/
def turn (consumer : ℕ) : Option MemoryRunQueue :=
  if q.awake consumer then
    match q.items.find? q.eligible with
    | none => some { q with waiters := q.waiters ++ [consumer] }
    | some item => some { q with
        items := q.items.eraseP q.eligible
        active := q.active.insert item.run.runId
        claimedThreads := q.claimedThreads.insert item.run.threadId
        running := q.running ++ [⟨consumer, item, .processing⟩]
        started := q.started ++ [item] }
  else none

/-- The handlers of the answer: a busy run goes back to the head of the queue. -/
def answer (task : ℕ) (answer : ProcessAnswer) : Option MemoryRunQueue :=
  match q.running[task]? with
  | some ⟨consumer, item, .processing⟩ =>
    match answer with
    | .busy => some { q with
        items := item :: q.items
        running := q.running.set task ⟨consumer, item, .answered true⟩ }
    | .handled | .thrown => some { q with
        left := q.left ++ [item]
        running := q.running.set task ⟨consumer, item, .answered false⟩ }
  | _ => none

/-- The `finally` of a task: a busy thread stays claimed until its retry timer fires. -/
def settle (task : ℕ) : Option MemoryRunQueue :=
  match q.running[task]? with
  | some ⟨consumer, item, .answered busy⟩ =>
    let rest := { q with
      active := q.active.filter (· ≠ item.run.runId)
      running := q.running.eraseIdx task }
    if busy && q.consuming consumer then
      some { rest with deferred := rest.deferred ++ [(consumer, item.run.threadId)] }.wake
    else some (rest.releaseThread consumer item.run.threadId).wake
  | _ => none

/-- The retry timer of a thread; a cleared one does not fire. -/
def retry (consumer : ℕ) (threadId : ThreadId) : Option MemoryRunQueue :=
  if (consumer, threadId) ∈ q.deferred then some (q.releaseThread consumer threadId) else none

/-- `close` up to its await, which only waits for the loop and the tasks. -/
def close (consumer : ℕ) : Option MemoryRunQueue :=
  match q.consumers[consumer]? with
  | none => none
  | some c =>
    let own := q.deferred.filter fun d => d.1 = consumer
    some (own.foldl (fun (r : MemoryRunQueue) d => r.releaseThread consumer d.2)
      { q with consumers := q.consumers.set consumer { c with consuming := false } }).wake

end MemoryRunQueue

/-- The queue, its callers and its consumers. -/
def memoryRunQueue : Machine MemoryRunQueue QueueEvent where
  step q
    | .enqueue run delayMs now => some (q.enqueue run delayMs now)
    | .due runId now => q.due runId now
    | .consumePartitioned concurrency => q.consumePartitioned concurrency
    | .turn consumer => q.turn consumer
    | .answer task answer => q.answer task answer
    | .settle task => q.settle task
    | .retry consumer threadId => q.retry consumer threadId
    | .close consumer => q.close consumer

end Skein
