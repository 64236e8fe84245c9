import Mathlib.Data.List.MinMax
import Mathlib.Data.List.Sort
import Mathlib.Data.Prod.Lex
import Mathlib.Data.String.Basic
import Skein.DrainLoop
import Skein.JsonValues
import Skein.SqliteQueue

/-!
# What SQLite does on startup

`reconcileAbandonedRuns`: the runs that the process lost are failed in batches, then the
threads that are still busy take the status of the run that ended last, then the jobs that
nobody waits for are retired. A statement without `ORDER BY` returns its rows in an order that
SQLite chooses.
-/
namespace Skein

/-- `kwargs.terminal_delivery`. -/
structure TerminalDelivery where
  deliveryId : DeliveryId
  threadId : ThreadId
  url : String
  payload : Json
  payloadTruncated : Option Bool := none
  nextAttemptAt : Timestamp
  expiresAt : Timestamp

/-- A row of `skein_runs`, with the members of `kwargs` that are looked at. -/
structure SqliteRun where
  run : Run Json
  queueNotBefore : Option Timestamp := none
  terminalDelivery : Option TerminalDelivery := none

def SqliteRun.runId (row : SqliteRun) : RunId := row.run.runId
def SqliteRun.threadId (row : SqliteRun) : ThreadId := row.run.threadId

structure SqliteDatabase where
  threads : Table ThreadId (Thread Json) Thread.threadId := ∅
  runs : Table RunId SqliteRun SqliteRun.runId := ∅
  jobs : Table RunId RunJob RunJob.runId := ∅
  deliveries : Table DeliveryId (Delivery Json) Delivery.deliveryId := ∅

/-- What the clock and the query planner decide. -/
structure SqliteStartup where
  /-- The clock when the batch of a run is failed. -/
  failedAt : RunId → Timestamp
  repairedAt : ThreadId → Timestamp
  runOrder : List SqliteRun → List SqliteRun
  jobOrder : List RunJob → List RunJob
  runOrder_perm : ∀ rows, (runOrder rows).Perm rows
  jobOrder_perm : ∀ jobs, (jobOrder jobs).Perm jobs

/-- `LIMIT 128` -/
def batchLimit : ℕ := 128

namespace SqliteStartup

def failureMessage : String := "The process ended before this run completed."

/-- `runError("ProcessLostError", …)` -/
def failure : Json := .obj [("error", .str "ProcessLostError"), ("name", .str "ProcessLostError"),
  ("message", .str failureMessage)]

end SqliteStartup

namespace SqliteDatabase
open SqliteStartup (failure failureMessage)
variable (startup : SqliteStartup) (db : SqliteDatabase)

def runsOf (threadId : ThreadId) : List (Run Json) :=
  (db.runs.values.map SqliteRun.run).filter fun run => run.threadId = threadId

/-- `ORDER BY created_at DESC, key DESC LIMIT 1` of the runs of a thread. -/
def newestRun (threadId : ThreadId) : Option (Run Json) :=
  (db.runsOf threadId).argmax fun run => toLex (run.createdAt, run.runId.value)

/-- `ORDER BY updated_at DESC, key DESC LIMIT 1` of some runs that have ended. -/
def lastEnded (runs : List (Run Json)) : Option (Run Json) :=
  (runs.filter fun run => run.status.isTerminal).argmax fun run =>
    toLex (run.updatedAt, run.runId.value)

/-- The condition of the first `SELECT`. -/
def abandoned (row : SqliteRun) : Bool :=
  !row.run.status.isTerminal &&
    (row.run.status = .running || (db.jobs.get? row.runId).any (fun job => job.status = .active) ||
      row.queueNotBefore.isNone)

/-- `UPDATE skein_runs SET body=json_set(…)` -/
def failedRun (now : Timestamp) (row : SqliteRun) : SqliteRun :=
  { row with run := { row.run with status := .error, error := some failure, updatedAt := now } }

def retiredJob (job : RunJob) : RunJob := { job with status := .done }

/-- `failThread`, over the runs of `db`. -/
def failedThread (runId : RunId) (now : Timestamp) (thread : Thread Json) : Thread Json :=
  if thread.status = .busy ∨ (thread.status ≠ .interrupted ∧
      (db.newestRun thread.threadId).map Run.runId = some runId) then
    { thread with status := .error, error := some failureMessage, updatedAt := now }
  else thread

/-- What `insertDelivery` writes for a run that was lost. -/
def lostDelivery (runId : RunId) (now : Timestamp) (template : TerminalDelivery) : Delivery Json where
  deliveryId := template.deliveryId
  runId := runId
  threadId := template.threadId
  url := template.url
  payload := some ((template.payload.withMember "error" (.str failureMessage)).withMember
    "result_unavailable" (.bool true))
  payloadTruncated := template.payloadTruncated.getD false
  runStatus := .error
  status := .pending
  attempt := 0
  nextAttemptAt := now
  lastError := none
  createdAt := now
  updatedAt := now
  expiresAt := now + template.expiresAt - template.nextAttemptAt

/-- The delivery of a run that was lost, unless it is there. -/
def deliverLoss (row : SqliteRun) (now : Timestamp) : SqliteDatabase :=
  match row.terminalDelivery with
  | none => db
  | some template =>
    if db.deliveries.contains template.deliveryId then db
    else { db with deliveries := db.deliveries.write (lostDelivery row.runId now template) }

/-- The body of the loop over a batch. -/
def failRow (db : SqliteDatabase) (row : SqliteRun) : SqliteDatabase :=
  let now := startup.failedAt row.runId
  let failed := { db with
    runs := db.runs.update row.runId (failedRun now)
    jobs := db.jobs.update row.runId retiredJob }
  { failed with
    threads := db.threads.update row.threadId (failed.failedThread row.runId now) }.deliverLoss row now

/-- `batch` -/
def failBatch (db : SqliteDatabase) : SqliteDatabase × ℕ :=
  let rows := (startup.runOrder (db.runs.values.filter db.abandoned)).take batchLimit
  (rows.foldl (failRow startup) db, rows.length)

/-- `run.error?.message`, where it is not empty. -/
def errorMessage? (run : Run Json) : Option String :=
  match run.error.bind fun error => error.member? "message" with
  | some (.str message) => if message = "" then none else some message
  | _ => none

def endedStatus (run : Run Json) : ThreadStatus :=
  match run.status with
  | .interrupted => .interrupted
  | .error | .timeout => .error
  | _ => .idle

def repairedThread (run : Run Json) (now : Timestamp) (thread : Thread Json) : Thread Json :=
  { thread with
    status := endedStatus run
    error := if endedStatus run = .error then errorMessage? run else none
    updatedAt := now }

/-- The condition of `stale`, but for the cursor. -/
def stale (thread : Thread Json) : Bool :=
  thread.status = .busy && (lastEnded (db.runsOf thread.threadId)).isSome

def repairRow (db : SqliteDatabase) (thread : Thread Json) : SqliteDatabase :=
  match lastEnded (db.runsOf thread.threadId) with
  | none => db
  | some run =>
    { db with
      threads := db.threads.update thread.threadId
        (repairedThread run (startup.repairedAt thread.threadId)) }

/-- `repair`, with the cursor. -/
def repairBatch (s : SqliteDatabase × String) : (SqliteDatabase × String) × ℕ :=
  let rows := ((s.1.threads.values.filter fun thread =>
    s.1.stale thread && s.2 < thread.threadId.value).insertionSort fun a b =>
      a.threadId.value ≤ b.threadId.value).take batchLimit
  ((rows.foldl (repairRow startup) s.1,
    (rows.getLast?.map fun thread => thread.threadId.value).getD s.2), rows.length)

/-- The condition of `retireJobs`. -/
def retirable (job : RunJob) : Bool :=
  job.status = .active ||
    (job.status = .waiting && (db.runs.get? job.runId).any fun row => row.run.status.isTerminal)

def retireRow (db : SqliteDatabase) (job : RunJob) : SqliteDatabase :=
  { db with jobs := db.jobs.update job.runId retiredJob }

def retireBatch (db : SqliteDatabase) : SqliteDatabase × ℕ :=
  let jobs := (startup.jobOrder (db.jobs.values.filter db.retirable)).take batchLimit
  (jobs.foldl retireRow db, jobs.length)

/-- `reconcileAbandonedRuns`, with so much fuel for each of its loops. -/
def reconcileAbandonedRuns (fuel : ℕ) : Option SqliteDatabase := do
  let failed ← drainLoop (failBatch startup) fuel db
  let repaired ← drainLoop (repairBatch startup) fuel (failed, "")
  drainLoop (retireBatch startup) fuel repaired.1

end SqliteDatabase
end Skein
