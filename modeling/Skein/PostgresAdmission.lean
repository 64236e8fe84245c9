import Skein.Dispatches

/-!
# Atomic admission in Postgres

The tables of `PostgresSkeinStore` that admission reads and writes, and its calls. A
call is one transaction, `PostgresStore → Except PostgresError (α × PostgresStore)`:
it has no state to leave behind when it throws. A statement refuses a text that holds
U+0000, and a `jsonb` value that holds it or a lone surrogate. The calls come one at a
time, so `FOR UPDATE` and `SKIP LOCKED` meet no lock. Crons, which a thread takes with it
too, are not among the tables.
-/
namespace Skein

/-- How a payload is bound to a `jsonb` column: `stringify` is `JSON.parse(JSON.stringify(value))`,
`none` where it throws, and `storable` says that the database takes every text in the value. -/
class JsonbColumn (J : Type*) extends WireJson J where
  stringify : J → Option J
  storable : J → Bool

/-- Numbers. -/
instance : JsonbColumn ℕ where
  stringify := some
  storable _ := true

/-- The database takes the text. -/
def storableText (text : String) : Bool := text.toList.all fun c => c.val ≠ 0

def Id.storable (id : Id) : Bool := storableText id.value

section Storable
variable {J : Type*} [JsonbColumn J]

def RunKwargs.storable (kwargs : RunKwargs J) : Bool :=
  (kwargs.baseCheckpointId.all fun id => id.all storableText) &&
    (kwargs.rollbackPlan.all fun plan =>
      (plan.revertToCheckpoint.all fun id => id.all storableText) &&
        plan.displacedRunIds.all Id.storable) &&
    JsonbColumn.storable kwargs.rest

/-- The columns of a new run, but for its identifier. -/
def RunCreate.storable (run : RunCreate J) : Bool :=
  run.threadId.storable && run.assistantId.storable && run.metadata.all JsonbColumn.storable &&
    run.kwargs.all RunKwargs.storable

end Storable

/-- A row of `runs`: the columns of the wire run, the payload and the result. -/
structure RunRow (J : Type*) where
  run : Run J
  kwargs : Option (RunKwargs J) := none
  result : Option J := none
  deriving DecidableEq, Repr

def RunRow.runId {J : Type*} (row : RunRow J) : RunId := row.run.runId

/-- A row of `native_resume_reservations`. Both columns reference `runs`. -/
structure NativeReservation where
  expectedRunId : RunId
  runId : RunId
  deriving DecidableEq, Repr

/-- A row of `native_dispatches`, whose key references `runs`. -/
structure NativeDispatch where
  runId : RunId
  threadId : ThreadId
  kind : DispatchKind
  action : Option CancelAction := none
  notBefore : Timestamp
  token : Option String := none
  leaseUntil : Option Timestamp := none
  dispatched : Bool := false
  deriving DecidableEq, Repr

/-- `DispatchClaim`. -/
structure DispatchClaim where
  runId : RunId
  threadId : ThreadId
  token : String
  kind : DispatchKind
  notBefore : Timestamp
  action : Option CancelAction
  deriving DecidableEq, Repr

/-- `ORDER BY created_at, run_id`. -/
def RunRow.createdBefore {J : Type*} (a b : RunRow J) : Bool :=
  a.run.createdAt < b.run.createdAt ||
    a.run.createdAt = b.run.createdAt && a.runId.value ≤ b.runId.value

namespace NativeDispatch

/-- Whether the lease of a row, if any, is over. -/
def due (row : NativeDispatch) (now : Timestamp) : Bool := row.leaseUntil.all (· ≤ now)

def lease (row : NativeDispatch) (token : String) (leaseUntil : Timestamp) : NativeDispatch :=
  { row with token := some token, leaseUntil := some leaseUntil }

def claim (row : NativeDispatch) (token : String) : DispatchClaim :=
  ⟨row.runId, row.threadId, token, row.kind, row.notBefore, row.action⟩

/-- `ORDER BY lease_until NULLS FIRST, run_id`. -/
def leasedBefore (a b : NativeDispatch) : Bool :=
  match a.leaseUntil, b.leaseUntil with
  | none, some _ => true
  | some _, none => false
  | lease, lease' => lease.getD 0 < lease'.getD 0 ||
      lease.getD 0 = lease'.getD 0 && a.runId.value ≤ b.runId.value

end NativeDispatch

structure PostgresStore (J : Type*) where
  threads : Table ThreadId (Thread J) Thread.threadId := ∅
  runs : Table RunId (RunRow J) RunRow.runId := ∅
  idempotencyRecords : Table (String × String) (IdempotencyRecord J)
    IdempotencyRecord.coordinate := ∅
  deliveries : Table DeliveryId (Delivery J) Delivery.deliveryId := ∅
  nativeResumeReservations : Table RunId NativeReservation NativeReservation.expectedRunId := ∅
  nativeDispatches : Table RunId NativeDispatch NativeDispatch.runId := ∅
  maxPageSize : ℕ := 1000

/-- What a transaction throws: an error of the driver, or a constraint of the table named. -/
inductive PostgresError
  | thrown (error : Thrown)
  | uniqueViolation (table : String)
  | foreignKeyViolation (table : String)
  | untranslatableCharacter
  deriving DecidableEq, Repr

namespace PostgresStore
variable {J : Type*}

/-- The values of a statement are taken. -/
def bound (storable : Bool) : Except PostgresError PUnit :=
  if storable then .ok ⟨⟩ else .error .untranslatableCharacter

@[simp] theorem bound_true : bound true = .ok ⟨⟩ := rfl

/-- A value that is serialized. -/
def serialized {α : Type*} (value : Option α) : Except PostgresError α :=
  value.elim (.error (.thrown .unserializable)) .ok

@[simp] theorem serialized_some {α : Type*} (value : α) : serialized (some value) = .ok value := rfl

/-- `#withTransaction`: the state a transaction leaves is kept when it commits. -/
def withTransaction {α : Type*} (store : PostgresStore J)
    (work : PostgresStore J → Except PostgresError (α × PostgresStore J)) :
    Except PostgresError α × PostgresStore J :=
  match work store with
  | .error e => (.error e, store)
  | .ok result => (.ok result.1, result.2)

/-- `#pageLimit`. -/
def pageLimit (store : PostgresStore J) (limit : Option ℕ) : ℕ :=
  min (limit.getD store.maxPageSize) store.maxPageSize

/-- `replay`. -/
def replay (store : PostgresStore J) (input : AdmissionKey) :
    Except PostgresError (Option AdmissionReceipt) :=
  if !(storableText input.scope && storableText input.key) then .error .untranslatableCharacter
  else match store.idempotencyRecords.get? input.coordinate with
  | none => .ok none
  | some row =>
    if row.expiresAt ≤ input.now then .ok none
    else if row.fingerprint ≠ input.fingerprint then
      .error (.thrown (.http (.conflict
        "The operation key was already used for different input." (some "idempotency_key_reused"))))
    else match row.runId, row.threadId with
      | some runId, some threadId => .ok (some ⟨input.key, runId, threadId⟩)
      | _, _ => .error (.thrown (.http (.conflict "Admission is in progress."
          (some "idempotency_key_in_flight"))))

/-- `record`. The upsert keeps the creation time of a row it replaces. -/
def record (store : PostgresStore J) (input : AdmissionKey) (run : Run J) (claimUuid : String)
    (now : Timestamp) : Except PostgresError (AdmissionReceipt × PostgresStore J) :=
  let receipt : AdmissionReceipt := ⟨input.key, run.runId, run.threadId⟩
  let replaced := store.idempotencyRecords.get? input.coordinate
  if !storableText input.fingerprint then .error .untranslatableCharacter
  else .ok (receipt, { store with
    idempotencyRecords := store.idempotencyRecords.write {
      scope := input.scope
      key := input.key
      fingerprint := input.fingerprint
      claimId := claimUuid
      status := .done
      response := some { status := 202, body := .receipt receipt }
      runId := some run.runId
      threadId := some run.threadId
      createdAt := (replaced.map IdempotencyRecord.createdAt).getD now
      updatedAt := now
      expiresAt := input.expiresAt } })

/-- `dispatch`: the row is selected from `runs`. The upsert clears the lease of a row it
replaces and keeps its thread. -/
def dispatch (store : PostgresStore J) (run : Run J) (kind : DispatchKind)
    (action : Option CancelAction) (now : Timestamp) : PostgresStore J :=
  match store.runs.get? run.runId with
  | none => store
  | some row =>
    let replaced := store.nativeDispatches.get? row.runId
    { store with
      nativeDispatches := store.nativeDispatches.write {
        runId := row.runId
        threadId := (replaced.map NativeDispatch.threadId).getD row.run.threadId
        kind
        action
        notBefore := match kind with
          | .run => (row.kwargs.bind RunKwargs.queueNotBefore).getD now
          | .cancel => now } }

/-- `insertRun`. -/
def insertRun [JsonbColumn J] (store : PostgresStore J) (input : RunCreate J) (uuid : RunId)
    (now : Timestamp) : Except PostgresError (Run J × PostgresStore J) :=
  let run : Run J := {
    runId := input.runId.getD uuid
    threadId := input.threadId
    assistantId := input.assistantId
    createdAt := now
    updatedAt := now
    status := input.status.getD .pending
    metadata := input.metadata.getD ∅
    multitaskStrategy := input.multitaskStrategy }
  if !(run.runId.storable && input.storable) then .error .untranslatableCharacter
  else if store.runs.contains run.runId then .error (.uniqueViolation "runs")
  else if store.threads.contains run.threadId = false then .error (.foreignKeyViolation "runs")
  else .ok (run, { store with runs := store.runs.write { run, kwargs := input.kwargs } })

/-- `insertDelivery`, as a settlement calls it: not claimed. -/
def insertDelivery [JsonbColumn J] (store : PostgresStore J) (runId : RunId) (runStatus : RunStatus)
    (input : DeliveryCreate J) (uuid : DeliveryId) (now : Timestamp) :
    Except PostgresError (Delivery J × PostgresStore J) := do
  let payload ← serialized (roundTripOption JsonbColumn.stringify input.payload)
  let delivery : Delivery J := {
    deliveryId := input.deliveryId.getD uuid
    runId
    threadId := input.threadId
    url := input.url
    payload
    payloadTruncated := input.payloadTruncated.getD false
    runStatus
    status := .pending
    attempt := 0
    nextAttemptAt := input.nextAttemptAt
    lastError := none
    createdAt := now
    updatedAt := now
    expiresAt := input.expiresAt }
  bound (delivery.deliveryId.storable && delivery.threadId.storable &&
    storableText delivery.url && payload.all JsonbColumn.storable)
  if store.deliveries.contains delivery.deliveryId then .error (.uniqueViolation "deliveries")
  else .ok (delivery, { store with deliveries := store.deliveries.write delivery })

/-- The reservation of a resume target, when the admission names one. -/
def insertReservation (store : PostgresStore J) (expectedRunId : Option RunId) (runId : RunId) :
    Except PostgresError (PostgresStore J) :=
  match expectedRunId with
  | none => .ok store
  | some expected =>
    if store.nativeResumeReservations.contains expected then
      .error (.uniqueViolation "native_resume_reservations")
    else if store.runs.contains expected = false ∨ store.runs.contains runId = false then
      .error (.foreignKeyViolation "native_resume_reservations")
    else .ok { store with
      nativeResumeReservations := store.nativeResumeReservations.write ⟨expected, runId⟩ }

/-- `UPDATE runs SET status, error WHERE run_id = … AND status IN ('pending','running')`. -/
def updateStatus (store : PostgresStore J) (runId : RunId) (final : RunSettlement J)
    (now : Timestamp) : PostgresStore J :=
  { store with runs := store.runs.update runId fun row =>
      if row.run.status.isTerminal then row
      else { row with
        run := { row.run with status := final.status, error := final.error, updatedAt := now } } }

/-- `UPDATE runs SET result WHERE run_id = … AND result IS NULL`. -/
def updateResult (store : PostgresStore J) (runId : RunId) (result : J) : PostgresStore J :=
  { store with runs := store.runs.update runId fun row =>
      if row.result.isNone then { row with result := some result } else row }

/-- The result of a settlement, where its status is the one the row has. -/
def settleResult [JsonbColumn J] (store : PostgresStore J) (runId : RunId) (run : Option (Run J))
    (final : RunSettlement J) : Except PostgresError (PostgresStore J) :=
  match final.result with
  | none => .ok store
  | some result =>
    if run.map Run.status = some final.status.val then
      if !JsonbColumn.storable result then .error .untranslatableCharacter
      else .ok (store.updateResult runId result)
    else .ok store

/-- The delivery of a settlement: read by its identifier, or inserted. -/
def settleDelivery [JsonbColumn J] (store : PostgresStore J) (runId : RunId) (run : Option (Run J))
    (final : RunSettlement J) (uuid : DeliveryId) (now : Timestamp) :
    Except PostgresError (Option (Delivery J) × PostgresStore J) :=
  match final.delivery with
  | none => .ok (none, store)
  | some delivery =>
    match delivery.deliveryId.bind store.deliveries.get? with
    | some existing => .ok (some existing, store)
    | none => do
      let inserted ← store.insertDelivery runId (run.elim final.status.val Run.status) delivery
        uuid now
      return (some inserted.1, inserted.2)

/-- `settlePostgresRun`. The result goes through `serializeWireJson`, the error and the payload
through `JSON.stringify`. -/
def settle [JsonbColumn J] (store : PostgresStore J) (runId : RunId) (input : RunSettlement J)
    (uuid : DeliveryId) (now : Timestamp) :
    Except PostgresError (SettledRun J × PostgresStore J) := do
  let result ← serialized (roundTripOption WireJson.roundTrip input.result)
  let _ ← serialized (roundTripOption DeliveryCreate.roundTrip input.delivery)
  bound runId.storable
  let error ← serialized (roundTripOption JsonbColumn.stringify input.error)
  bound (error.all JsonbColumn.storable)
  let final := { input with error := error, result := result }
  let updated := store.updateStatus runId final now
  let run := (updated.runs.get? runId).map RunRow.run
  let resulted ← updated.settleResult runId run final
  let delivered ← resulted.settleDelivery runId run final uuid now
  return (⟨run, delivered.1⟩, delivered.2)

/-- The thread's rows with status `pending` or `running`. -/
def activeRuns (store : PostgresStore J) (threadId : ThreadId) : List (RunRow J) :=
  store.runs.values.filter fun row => row.run.threadId = threadId && !row.run.status.isTerminal

/-- The guards of `admitRun` on the thread and on its active runs. -/
def threadGuard (store : PostgresStore J) (input : RunAdmission J) (threadId : ThreadId) :
    Except PostgresError Unit :=
  if !threadId.storable then .error .untranslatableCharacter
  else match store.threads.get? threadId with
  | none => .error (.thrown (.http (.notFound "Thread not found.")))
  | some thread =>
    if input.guard.threadStatusIn.any fun statuses => thread.status ∉ statuses then
      .error (.thrown (.http (.conflict "Thread status changed." (some "thread_status_mismatch"))))
    else
      let active := store.activeRuns threadId
      if (input.guard.requireNoActiveRun ∧ active ≠ []) ∨
          (input.displacements ≠ [] ∧ (active.length ≠ input.displacements.length ∨
            ∃ row ∈ active, ∀ item ∈ input.displacements, item.runId ≠ row.runId)) then
        .error (.thrown (.http (.conflict "Active runs changed." (some "thread_busy"))))
      else .ok ()

/-- The guard of `admitRun` on the run it resumes. -/
def resumeGuard (store : PostgresStore J) (expectedRunId : Option RunId) (threadId : ThreadId) :
    Except PostgresError Unit :=
  match expectedRunId with
  | none => .ok ()
  | some expected =>
    if !expected.storable then .error .untranslatableCharacter
    else if ((store.runs.get? expected).all fun row =>
        row.run.threadId ≠ threadId ∨ row.run.status ≠ .interrupted) ∨
        store.nativeResumeReservations.contains expected then
      .error (.thrown (.http (.conflict "Resume target was consumed or changed."
        (some "stale_resume"))))
    else .ok ()

def admissionGuards (store : PostgresStore J) (input : RunAdmission J) (threadId : ThreadId) :
    Except PostgresError Unit := do
  store.threadGuard input threadId
  store.resumeGuard input.expectedRunId threadId

/-- The cancel of a settled run, if there is one. -/
def dispatchSettled (store : PostgresStore J) (settled : SettledRun J)
    (action : Option CancelAction) (now : Timestamp) : PostgresStore J :=
  settled.run.elim store fun run => store.dispatch run .cancel action now

variable [JsonbColumn J]

/-- The loop of `admitRun` over the runs it displaces. -/
def displaceAll (action : CancelAction) (draws : AdmissionDraws) :
    List (Displacement J) → PostgresStore J → Except PostgresError (PostgresStore J)
  | [], store => .ok store
  | item :: rest, store => do
    let settled ← store.settle item.runId item.settlement (draws.deliveryUuid item.runId) draws.now
    displaceAll action draws rest (settled.2.dispatchSettled settled.1 (some action) draws.now)

/-- The writes of `admitRun`, once its guards have passed. -/
def commitAdmission (store : PostgresStore J) (input : RunAdmission J) (prepared : RunCreate J)
    (draws : AdmissionDraws) : Except PostgresError (AdmissionReceipt × PostgresStore J) := do
  let displaced ← displaceAll (MemorySkeinStore.displacementAction prepared.multitaskStrategy)
    draws input.displacements store
  let inserted ← displaced.insertRun prepared draws.runUuid draws.now
  let reserved ← inserted.2.insertReservation input.expectedRunId inserted.1.runId
  (reserved.dispatch inserted.1 .run none draws.now).record input.toAdmissionKey inserted.1
    draws.claimUuid draws.now

/-- `admission.admitRun`. Its signal is read again within the transaction; it is the
signal of the one call there is, so it reads the same. -/
def admitRun (store : PostgresStore J) (input : RunAdmission J) (draws : AdmissionDraws) :
    Except PostgresError (AdmissionReceipt × PostgresStore J) :=
  if input.aborted then .error (.thrown .aborted)
  else match store.replay input.toAdmissionKey with
  | .error e => .error e
  | .ok (some receipt) => .ok (receipt, store)
  | .ok none =>
    match input.run.roundTrip with
    | none => .error (.thrown .unserializable)
    | some prepared =>
      match store.admissionGuards input prepared.threadId with
      | .error e => .error e
      | .ok () => store.commitAdmission input prepared draws

/-- `admission.admitCancel`. -/
def admitCancel (store : PostgresStore J) (input : CancelAdmission J) (draws : AdmissionDraws) :
    Except PostgresError (AdmissionReceipt × PostgresStore J) :=
  match store.replay input.toAdmissionKey with
  | .error e => .error e
  | .ok (some receipt) => .ok (receipt, store)
  | .ok none =>
    if !input.runId.storable then .error .untranslatableCharacter
    else match store.runs.get? input.runId with
    | none => .error (.thrown (.http (.notFound "Run not found.")))
    | some row =>
      if row.run.status.isTerminal then
        store.record input.toAdmissionKey row.run draws.claimUuid draws.now
      else do
        let settled ← store.settle row.runId
          { status := ⟨.cancelled, RunStatus.isTerminal_cancelled⟩, delivery := input.delivery }
          (draws.deliveryUuid input.runId) draws.now
        let cancelled :=
          if settled.1.run.map Run.status = some .cancelled then
            settled.2.dispatchSettled settled.1 input.action draws.now
          else settled.2
        cancelled.record input.toAdmissionKey row.run draws.claimUuid draws.now

omit [JsonbColumn J]

/-- The cancels a claim finds due, the longest expired lease first. -/
def dueCancels (store : PostgresStore J) (now : Timestamp) : List NativeDispatch :=
  (store.nativeDispatches.values.filter fun row =>
    row.kind = .cancel && !row.dispatched && row.due now).mergeSort NativeDispatch.leasedBefore

/-- The intents of active runs a claim finds due, the oldest run first. They are found
through `runs`, acknowledged or not. -/
def dueRuns (store : PostgresStore J) (now : Timestamp) : List NativeDispatch :=
  ((store.runs.values.filter fun row => !row.run.status.isTerminal).mergeSort
    RunRow.createdBefore).filterMap fun row =>
      (store.nativeDispatches.get? row.runId).filter fun intent => intent.kind = .run && intent.due now

/-- The rows a claim leases. -/
def claimed (store : PostgresStore J) (query : DispatchQuery) : List NativeDispatch :=
  let limit := max 1 (min (store.pageLimit (some (query.limit.getD 100))) 1000)
  let cancels := (store.dueCancels query.now).take limit
  if cancels.length < limit then
    cancels ++ (store.dueRuns query.now).take (limit - cancels.length)
  else cancels

/-- `UPDATE native_dispatches SET token, lease_until`, row by row. -/
def leaseAll (query : DispatchQuery) (tokens : RunId → String) (rows : List NativeDispatch)
    (store : PostgresStore J) : PostgresStore J :=
  rows.foldl (fun store row => { store with
    nativeDispatches := store.nativeDispatches.update row.runId
      (NativeDispatch.lease · (tokens row.runId) query.leaseUntil) }) store

/-- `admission.claimDispatches`. -/
def claimDispatches (store : PostgresStore J) (query : DispatchQuery) (tokens : RunId → String) :
    List DispatchClaim × PostgresStore J :=
  ((store.claimed query).map fun row => row.claim (tokens row.runId),
    leaseAll query tokens (store.claimed query) store)

/-- `admission.markDispatched`. -/
def markDispatched (store : PostgresStore J) (runId : RunId) (token : String) : PostgresStore J :=
  { store with nativeDispatches := store.nativeDispatches.update runId fun row =>
      if row.token = some token then { row with dispatched := true } else row }

/-- `DELETE FROM runs`, with the rows that reference a deleted run. -/
def deleteRuns (store : PostgresStore J) (p : RunRow J → Bool) : PostgresStore J :=
  let gone := fun runId => (store.runs.get? runId).any p
  { store with
    runs := store.runs.filter fun row => !p row
    nativeResumeReservations := store.nativeResumeReservations.filter fun row =>
      !(gone row.expectedRunId || gone row.runId)
    nativeDispatches := store.nativeDispatches.filter fun row => !gone row.runId }

/-- `runs.delete`. -/
def runsDelete (store : PostgresStore J) (runId : RunId) : PostgresStore J :=
  store.deleteRuns fun row => row.runId = runId

/-- `threads.delete`: the runs that reference a deleted thread go with it. -/
def threadsDelete (store : PostgresStore J) (threadId : ThreadId) : PostgresStore J :=
  if store.threads.contains threadId then
    { store.deleteRuns (fun row => row.run.threadId = threadId) with
      threads := store.threads.erase threadId }
  else store

end PostgresStore
end Skein
