import Skein.Machine
import Skein.MemoryRunQueue
import Skein.MemoryStore

/-!
# The partitioned SQLite queue

`createSqliteQueue` with any number of partitioned consumers over one open database. What runs
between two awaits is one step: an `enqueue`, the microtask or the due timer of a consumer, the
handlers of an answer, the `finally` of an attempt, a deferral timer, a `close`, a `dispose`.
The rows of `skein_run_jobs` are kept in the order of their sequence, the attempts of all
consumers in one list; an attempt belongs to the closed consumer that started it too. The rows
of `skein_runs` belong to the rest of the server, which may write them at any time.
-/
namespace Skein

/-- The `status` of a row of `skein_run_jobs`. -/
inductive JobStatus
  | waiting | active | done
  deriving DecidableEq, Repr

/-- A row of `skein_run_jobs`. -/
structure RunJob where
  sequence : ℕ
  runId : RunId
  threadId : ThreadId
  dueAt : Timestamp
  status : JobStatus := .waiting
  deriving DecidableEq, Repr

/-- How `process` settles: `true` or `undefined`, `false` for a busy thread, or an exception,
as `toRunError` describes it; `none` is one that it throws on. -/
inductive JobOutcome (J : Type*)
  | handled
  | busy
  | thrown (error : Option J)
  deriving DecidableEq, Repr

/-- The variable `handled` of an attempt. -/
def JobOutcome.isHandled {J : Type*} : JobOutcome J → Bool
  | .busy => false
  | .handled | .thrown _ => true

/-- A member of a consumer's `running`, with what has been looked at of its outcome. -/
structure JobAttempt (J : Type*) where
  consumer : ℕ
  run : QueuedRun
  outcome : Option (JobOutcome J) := none
  deriving DecidableEq, Repr

/-- `timer` is when the armed timer fires. -/
structure SqliteConsumer where
  concurrency : ℕ
  closed : Bool := false
  scheduled : Bool := false
  timer : Option Timestamp := none
  deriving DecidableEq, Repr

structure SqliteQueue (J : Type*) where
  jobs : List RunJob := []
  /-- The last value of the sequence. -/
  sequence : ℕ := 0
  runs : Table RunId (Run J) Run.runId := ∅
  consumers : List SqliteConsumer := []
  running : List (JobAttempt J) := []
  /-- The keys of `deferredThreads`. -/
  deferred : List ThreadId := []
  disposed : Bool := false

inductive SqliteQueueEvent (J : Type*)
  | enqueue (run : QueuedRun) (delayMs : ℕ) (now : Timestamp)
  | consumePartitioned (concurrency : ℕ)
  /-- The microtask of a consumer. -/
  | tick (consumer : ℕ) (now : Timestamp)
  /-- The due timer of a consumer fires. -/
  | fire (consumer : ℕ) (now : Timestamp)
  /-- What `process` did is looked at. -/
  | answer (attempt : ℕ) (outcome : JobOutcome J) (now : Timestamp)
  /-- The `finally` of an attempt. -/
  | settle (attempt : ℕ)
  /-- A deferral timer fires. -/
  | retry (threadId : ThreadId)
  | close (consumer : ℕ) (force : Bool)
  | dispose
  /-- The rest of the server writes the rows of the runs. -/
  | runs (runs : Table RunId (Run J) Run.runId)

namespace SqliteQueue
variable {J : Type*} (q : SqliteQueue J)

/-- `notify` of a consumer. -/
def notify (disposed : Bool) (consumer : SqliteConsumer) : SqliteConsumer :=
  if consumer.closed || disposed || consumer.scheduled then consumer
  else { consumer with scheduled := true }

/-- `wake` -/
def wake : SqliteQueue J := { q with consumers := q.consumers.map (notify q.disposed) }

/-- `UPDATE skein_run_jobs SET status=? WHERE run_id=?` -/
def setJobStatus (runId : RunId) (status : JobStatus) : SqliteQueue J :=
  { q with jobs := q.jobs.map fun job => if job.runId = runId then { job with status } else job }

/-- `INSERT … ON CONFLICT(run_id) DO NOTHING` -/
def insertJob (run : QueuedRun) (dueAt : Timestamp) : SqliteQueue J :=
  if q.jobs.any fun job => job.runId = run.runId then q
  else { q with
    sequence := q.sequence + 1
    jobs := q.jobs ++ [{
      sequence := q.sequence + 1
      runId := run.runId
      threadId := run.threadId
      dueAt }] }

/-- `enqueue` rejects once the queue is disposed. -/
def enqueue (run : QueuedRun) (delayMs : ℕ) (now : Timestamp) : Option (SqliteQueue J) :=
  if q.disposed then none else some (q.insertJob run (now + delayMs)).wake

/-- `consumePartitioned` throws unless the concurrency is positive and the queue is there. -/
def consumePartitioned (concurrency : ℕ) : Option (SqliteQueue J) :=
  if concurrency < 1 ∨ q.disposed then none
  else some { q with consumers := q.consumers ++ [notify q.disposed { concurrency }] }

/-- `running.size` of a consumer. -/
def runningSize (consumer : ℕ) : ℕ := q.running.countP fun attempt => attempt.consumer = consumer

/-- A waiting job of a thread that is neither active nor deferred. -/
def claimable (job : RunJob) : Bool :=
  decide (job.status = .waiting) &&
    !(q.jobs.any fun active => active.threadId = job.threadId && active.status = .active) &&
    decide (job.threadId ∉ q.deferred)

/-- The row the `claim` of a consumer selects. -/
def claim (now : Timestamp) : Option RunJob :=
  q.jobs.find? fun job => q.claimable job && decide (job.dueAt ≤ now)

/-- What the transaction writes, and the attempt that is started on it. -/
def attempt (consumer : ℕ) (job : RunJob) : SqliteQueue J :=
  let claimed := q.setJobStatus job.runId .active
  { claimed with running := claimed.running ++ [⟨consumer, ⟨job.runId, job.threadId⟩, none⟩] }

/-- The loop of `tick`, with the room left as its bound. -/
def claimAll (consumer : ℕ) (now : Timestamp) : ℕ → SqliteQueue J → SqliteQueue J
  | 0, q => q
  | room + 1, q =>
    match q.claim now with
    | none => q
    | some job => claimAll consumer now room (q.attempt consumer job)

/-- `SELECT min(due_at)` -/
def nextDue : Option Timestamp := ((q.jobs.filter q.claimable).map RunJob.dueAt).min?

def setConsumer (i : ℕ) (consumer : SqliteConsumer) : SqliteQueue J :=
  { q with consumers := q.consumers.set i consumer }

/-- The delay `setTimeout` is given for a job that is due at `due`. -/
def timerDelay (due now : Timestamp) : ℕ := min 2147483647 (max 1 (due - now))

/-- The microtask of a consumer: `scheduled = false`, then `tick`. -/
def tick (i : ℕ) (now : Timestamp) : Option (SqliteQueue J) :=
  match q.consumers[i]? with
  | none => none
  | some consumer =>
    if consumer.scheduled then
      if consumer.closed || q.disposed then
        some (q.setConsumer i { consumer with scheduled := false })
      else
        let cleared := { consumer with scheduled := false, timer := none }
        let claimed := (q.setConsumer i cleared).claimAll i now
          (consumer.concurrency - q.runningSize i)
        if consumer.concurrency ≤ claimed.runningSize i then some claimed
        else
          let timer := claimed.nextDue.map fun due => now + timerDelay due now
          some (claimed.setConsumer i { cleared with timer })
    else none

/-- A timer fires no earlier than it was set for. -/
def fire (i : ℕ) (now : Timestamp) : Option (SqliteQueue J) :=
  match q.consumers[i]? with
  | none => none
  | some consumer =>
    match consumer.timer with
    | none => none
    | some at' =>
      if at' ≤ now then
        some (q.setConsumer i (notify q.disposed { consumer with timer := none }))
      else none

/-- `UPDATE skein_runs … WHERE key=? AND status IN ('pending','running')` -/
def failRun (runId : RunId) (error : J) (now : Timestamp) : SqliteQueue J :=
  match q.runs.get? runId with
  | none => q
  | some run =>
    if run.status = .pending ∨ run.status = .running then
      { q with
        runs := q.runs.write { run with status := .error, updatedAt := now, error := some error } }
    else q

/-- The handlers of what `process` did: a busy thread is deferred, an exception ends the run.
`toRunError` is evaluated before the `UPDATE` runs. -/
def answer (i : ℕ) (outcome : JobOutcome J) (now : Timestamp) : Option (SqliteQueue J) :=
  match q.running[i]? with
  | some ⟨consumer, run, none⟩ =>
    let answered := { q with running := q.running.set i ⟨consumer, run, some outcome⟩ }
    match outcome with
    | .handled => some answered
    | .busy => some { answered with deferred := q.deferred.insert run.threadId }
    | .thrown none => some answered
    | .thrown (some error) => some (answered.failRun run.runId error now)
  | _ => none

/-- The `finally` of an attempt. -/
def settle (i : ℕ) : Option (SqliteQueue J) :=
  match q.running[i]? with
  | some ⟨_, run, some outcome⟩ =>
    let settled := q.setJobStatus run.runId (if outcome.isHandled then .done else .waiting)
    some { settled with running := q.running.eraseIdx i }.wake
  | _ => none

/-- The deferral timer of a thread; a cleared one does not fire. -/
def retry (threadId : ThreadId) : Option (SqliteQueue J) :=
  if threadId ∈ q.deferred then
    some { q with deferred := q.deferred.filter (· ≠ threadId) }.wake
  else none

/-- `close` up to its await, which only waits for the attempts unless it is forced. -/
def close (i : ℕ) (_force : Bool) : Option (SqliteQueue J) :=
  match q.consumers[i]? with
  | none => none
  | some consumer => some (q.setConsumer i { consumer with closed := true, timer := none })

/-- `dispose` up to its await. -/
def dispose : SqliteQueue J :=
  if q.disposed then q
  else { q with
    disposed := true
    deferred := []
    consumers := q.consumers.map fun consumer => { consumer with closed := true, timer := none } }

end SqliteQueue

/-- The queue, its callers and its consumers. -/
def sqliteQueue (J : Type*) : Machine (SqliteQueue J) (SqliteQueueEvent J) where
  step q
    | .enqueue run delayMs now => q.enqueue run delayMs now
    | .consumePartitioned concurrency => q.consumePartitioned concurrency
    | .tick consumer now => q.tick consumer now
    | .fire consumer now => q.fire consumer now
    | .answer attempt outcome now => q.answer attempt outcome now
    | .settle attempt => q.settle attempt
    | .retry threadId => q.retry threadId
    | .close consumer force => q.close consumer force
    | .dispose => some q.dispose
    | .runs runs => some { q with runs }

end Skein
