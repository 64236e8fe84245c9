import Skein.OrderedMap
import Skein.WireTypes

/-!
# The in-memory store

`MemorySkeinStore` as one value. A repo method runs without suspending, so it is a
function of the store; it returns the store it leaves also when it throws, since
whatever it wrote before throwing stays written. Deep copies at the boundary are
the identity here. Generated identifiers and clock readings are arguments.
-/
namespace Skein

inductive DispatchKind
  | run | cancel
  deriving DecidableEq, Repr

inductive CancelAction
  | interrupt | rollback
  deriving DecidableEq, Repr

/-- A `DispatchClaim` with its lease. -/
structure DispatchIntent where
  runId : RunId
  threadId : ThreadId
  token : String
  kind : DispatchKind
  notBefore : Timestamp
  action : Option CancelAction := none
  leaseUntil : Option Timestamp := none
  dispatched : Bool := false
  deriving DecidableEq, Repr

/-- The body of a recorded response: a handler's JSON, or an admission receipt. -/
inductive RecordedBody (J : Type*)
  | json (value : J)
  | receipt (value : AdmissionReceipt)
  deriving DecidableEq, Repr

structure IdempotencyRecord (J : Type*) where
  scope : String
  key : String
  fingerprint : String
  claimId : String
  status : IdempotencyStatus
  response : Option (RecordedResponse (RecordedBody J)) := none
  runId : Option RunId := none
  threadId : Option ThreadId := none
  createdAt : Timestamp
  updatedAt : Timestamp
  expiresAt : Timestamp
  deriving DecidableEq, Repr

/-- `idempotencyKey(scope, key)`. -/
def IdempotencyRecord.coordinate {J : Type*} (record : IdempotencyRecord J) : String × String :=
  (record.scope, record.key)

structure MemorySkeinStore (J : Type*) where
  dispatches : Table RunId DispatchIntent DispatchIntent.runId := ∅
  resumeReservations : OrderedMap RunId RunId := ∅
  admittedRunIds : List RunId := []
  threads : Table ThreadId (Thread J) Thread.threadId := ∅
  runs : Table RunId (Run J) Run.runId := ∅
  runResults : OrderedMap RunId J := ∅
  runKwargs : OrderedMap RunId (RunKwargs J) := ∅
  crons : Table CronId (Cron J) Cron.cronId := ∅
  cronAuth : OrderedMap CronId J := ∅
  cronSeq : OrderedMap CronId ℕ := ∅
  idempotency : Table (String × String) (IdempotencyRecord J) IdempotencyRecord.coordinate := ∅
  deliveries : Table DeliveryId (Delivery J) Delivery.deliveryId := ∅
  maxPageSize : ℕ := 1000

structure SettledRun (J : Type*) where
  run : Option (Run J)
  delivery : Option (Delivery J) := none

structure FinalizedRun (J : Type*) where
  run : Option (Run J)
  delivery : Delivery J

/-- What `createIfThreadMatches` answers. -/
inductive GuardedRunCreate (J : Type*)
  | run (run : Run J)
  | threadStatusMismatch (status : ThreadStatus)
  | threadBusy

/-- The completion of a repo call: its result or what it threw, and the store left behind. -/
abbrev Completion (J α : Type*) := Except Thrown α × MemorySkeinStore J

namespace MemorySkeinStore
variable {J : Type*}

/-- `#pageLimit`. -/
def pageLimit (store : MemorySkeinStore J) (limit : Option ℕ) : ℕ :=
  min (limit.getD store.maxPageSize) store.maxPageSize

/-- The thread's non-terminal runs, in insertion order. -/
def activeRuns (store : MemorySkeinStore J) (threadId : ThreadId) : List (Run J) :=
  store.runs.values.filter fun run => run.threadId = threadId && !run.status.isTerminal

theorem mem_activeRuns {store : MemorySkeinStore J} {threadId : ThreadId} {run : Run J} :
    run ∈ store.activeRuns threadId ↔
      store.runs.get? run.runId = some run ∧ run.threadId = threadId ∧
        run.status.isTerminal = false := by
  simp [activeRuns, Table.mem_values_iff]

def runsGet (store : MemorySkeinStore J) (runId : RunId) : Option (Run J) := store.runs.get? runId

/-- `runs.listActiveRuns`, for one thread or for all of them. -/
def runsListActiveRuns (store : MemorySkeinStore J) (threadId : Option ThreadId) : List (Run J) :=
  (store.runs.values.filter fun run =>
    threadId.all (run.threadId = ·) && !run.status.isTerminal).take (store.pageLimit none)

theorem mem_runsListActiveRuns {store : MemorySkeinStore J} {threadId : Option ThreadId}
    {run : Run J} (h : run ∈ store.runsListActiveRuns threadId) :
    store.runs.get? run.runId = some run ∧ run.status.isTerminal = false := by
  have hmem := List.mem_of_mem_take h
  rw [List.mem_filter, Table.mem_values_iff, Bool.and_eq_true, Bool.not_eq_true'] at hmem
  exact ⟨hmem.1, hmem.2.2⟩

theorem nodup_runsListActiveRuns (store : MemorySkeinStore J) (threadId : Option ThreadId) :
    ((store.runsListActiveRuns threadId).map Run.runId).Nodup :=
  store.runs.nodup_map_key.sublist
    (((List.take_sublist _ _).trans List.filter_sublist).map _)

def runNotFound (runId : RunId) : Thrown :=
  .http (.notFound ("Run \"" ++ runId.value ++ "\" not found."))

/-- A write of the status, error and update time; `error` replaces a stale one. -/
def writeStatus (store : MemorySkeinStore J) (run : Run J) (status : RunStatus) (error : Option J)
    (now : Timestamp) : MemorySkeinStore J :=
  { store with runs := store.runs.write { run with status, error, updatedAt := now } }

/-- `runs.setStatus`. Only an admitted run refuses to go back to `running`. -/
def runsSetStatus (store : MemorySkeinStore J) (runId : RunId) (status : RunStatus)
    (error : Option J) (now : Timestamp) : Completion J (Run J) :=
  match store.runs.get? runId with
  | none => (.error (runNotFound runId), store)
  | some existing =>
    if status = .running ∧ runId ∈ store.admittedRunIds ∧ existing.status.isTerminal then
      (.ok existing, store)
    else
      (.ok { existing with status, error, updatedAt := now },
        store.writeStatus existing status error now)

/-- `#createRun`; `uuid` is what `randomUUID` would produce. -/
def createRun [EmptyCollection J] (store : MemorySkeinStore J) (input : RunCreate J) (uuid : RunId)
    (now : Timestamp) : Completion J (Run J) :=
  let run : Run J := {
    runId := input.runId.getD uuid
    threadId := input.threadId
    assistantId := input.assistantId
    createdAt := now
    updatedAt := now
    status := input.status.getD .pending
    metadata := input.metadata.getD ∅
    multitaskStrategy := input.multitaskStrategy }
  if store.runs.contains run.runId then
    (.error (.http (.conflict "Run already exists.")), store)
  else
    (.ok run, { store with
      runs := store.runs.write run
      runKwargs := match input.kwargs with
        | none => store.runKwargs
        | some kwargs => store.runKwargs.set run.runId kwargs })

/-- `runs.createIfThreadIdle`: `none` where the thread is unknown or busy. -/
def runsCreateIfThreadIdle [EmptyCollection J] (store : MemorySkeinStore J) (input : RunCreate J)
    (uuid : RunId) (now : Timestamp) : Completion J (Option (Run J)) :=
  if store.threads.contains input.threadId = false ∨ store.activeRuns input.threadId ≠ [] then
    (.ok none, store)
  else
    let created := store.createRun input uuid now
    (created.1.map some, created.2)

/-- `runs.createIfThreadMatches`. A refusal is a result and not an error. -/
def runsCreateIfThreadMatches [EmptyCollection J] (store : MemorySkeinStore J)
    (input : RunCreate J) (guard : RunCreateGuard) (uuid : RunId) (now : Timestamp) :
    Completion J (GuardedRunCreate J) :=
  match store.threads.get? input.threadId with
  | none =>
    (.error (.http (.notFound ("Thread \"" ++ input.threadId.value ++ "\" not found."))), store)
  | some thread =>
    if guard.threadStatusIn.any fun statuses => thread.status ∉ statuses then
      (.ok (.threadStatusMismatch thread.status), store)
    else if guard.requireNoActiveRun ∧ store.activeRuns input.threadId ≠ [] then
      (.ok .threadBusy, store)
    else
      let created := store.createRun input uuid now
      (created.1.map .run, created.2)

/-- `#forgetAdmission`. -/
def forgetAdmission (store : MemorySkeinStore J) (runId : RunId) : MemorySkeinStore J :=
  { store with
    admittedRunIds := store.admittedRunIds.filter (· ≠ runId)
    dispatches := store.dispatches.erase runId
    resumeReservations := store.resumeReservations.filter fun expected admitted =>
      !(expected = runId || admitted = runId) }

/-- `runs.delete`. -/
def runsDelete (store : MemorySkeinStore J) (runId : RunId) : MemorySkeinStore J :=
  { store with
    runs := store.runs.erase runId
    runKwargs := store.runKwargs.erase runId
    runResults := store.runResults.erase runId }.forgetAdmission runId

structure ThreadCreate (J : Type*) where
  threadId : Option ThreadId := none
  metadata : Option J := none
  status : Option ThreadStatus := none

/-- `threads.get`. -/
def threadsGet (store : MemorySkeinStore J) (threadId : ThreadId) : Option (Thread J) :=
  store.threads.get? threadId

/-- A patch of a thread row. `error` is tri-state: `none` leaves it alone, `some none`
clears it. -/
structure ThreadUpdate (J : Type*) where
  metadata : Option J := none
  status : Option ThreadStatus := none
  values : Option J := none
  interrupts : Option J := none
  error : Option (Option String) := none
  deriving DecidableEq, Repr

/-- The row `threads.update` writes. -/
def patchedThread (thread : Thread J) (patch : ThreadUpdate J) (now : Timestamp) : Thread J :=
  { thread with
    metadata := patch.metadata.getD thread.metadata
    status := patch.status.getD thread.status
    values := patch.values.getD thread.values
    interrupts := patch.interrupts.getD thread.interrupts
    updatedAt := now
    stateUpdatedAt := if patch.values.isSome then now else thread.stateUpdatedAt
    error := patch.error.getD thread.error }

/-- `threads.update`. -/
def threadsUpdate (store : MemorySkeinStore J) (threadId : ThreadId) (patch : ThreadUpdate J)
    (now : Timestamp) : Completion J (Thread J) :=
  match store.threads.get? threadId with
  | none =>
    (.error (.http (.notFound ("Thread \"" ++ threadId.value ++ "\" not found."))), store)
  | some existing =>
    (.ok (patchedThread existing patch now),
      { store with threads := store.threads.write (patchedThread existing patch now) })

theorem threadsUpdate_get? (store : MemorySkeinStore J) (threadId : ThreadId)
    (patch : ThreadUpdate J) (now : Timestamp) (k : ThreadId) :
    (store.threadsUpdate threadId patch now).2.threads.get? k =
      if k = threadId then (store.threads.get? k).map fun thread => patchedThread thread patch now
      else store.threads.get? k := by
  unfold threadsUpdate
  cases hthread : store.threads.get? threadId with
  | none =>
    split_ifs with hk
    · rw [hk, hthread]
      rfl
    · rfl
  | some existing =>
    have hid : existing.threadId = threadId := Table.key_of_get? hthread
    dsimp only
    rw [Table.get?_write, show (patchedThread existing patch now).threadId = threadId from hid]
    by_cases hk : k = threadId
    · simp [hk, hthread]
    · simp [hk, Ne.symm hk]

/-- `runs.latestForThread`: the newest row, the larger identifier among equally new ones. -/
def runsLatestForThread (store : MemorySkeinStore J) (threadId : ThreadId) : Option (Run J) :=
  store.runs.values.foldl
    (fun latest run =>
      if run.threadId ≠ threadId then latest
      else match latest with
        | none => some run
        | some best =>
          if best.createdAt < run.createdAt ∨
              (run.createdAt = best.createdAt ∧ best.runId.value < run.runId.value) then some run
          else some best)
    none

/-- `threads.create`; `uuid` is what `randomUUID` would produce. -/
def threadsCreate [EmptyCollection J] (store : MemorySkeinStore J) (input : ThreadCreate J)
    (uuid : ThreadId) (now : Timestamp) : Completion J (Thread J) :=
  let threadId := input.threadId.getD uuid
  if store.threads.contains threadId then
    (.error (.http (.conflict ("Thread \"" ++ threadId.value ++ "\" already exists."))), store)
  else
    let thread : Thread J := {
      threadId
      createdAt := now
      updatedAt := now
      stateUpdatedAt := now
      metadata := input.metadata.getD ∅
      status := input.status.getD .idle
      values := ∅
      interrupts := ∅ }
    (.ok thread, { store with threads := store.threads.write thread })

/-- `threads.delete`: the thread's runs go with it, each forgotten as `runs.delete`
does, and so do its crons. -/
def threadsDelete (store : MemorySkeinStore J) (threadId : ThreadId) : MemorySkeinStore J :=
  let owned := store.runs.values.filter fun run => run.threadId = threadId
  let cascaded := owned.foldl (fun s run => s.runsDelete run.runId)
    { store with threads := store.threads.erase threadId }
  let crons := store.crons.values.filter fun cron => cron.threadId = some threadId
  { cascaded with
    crons := cascaded.crons.filter fun cron => cron.threadId ≠ some threadId
    cronAuth := cascaded.cronAuth.filter fun cronId _ => cronId ∉ crons.map Cron.cronId }

/-- `#insertDelivery`; `uuid` is what `randomUUID` would produce. -/
def insertDelivery (store : MemorySkeinStore J) (runId : RunId) (runStatus : RunStatus)
    (input : DeliveryCreate J) (claimed : Bool) (uuid : DeliveryId) (now : Timestamp) :
    Delivery J × MemorySkeinStore J :=
  let delivery : Delivery J := {
    deliveryId := input.deliveryId.getD uuid
    runId
    threadId := input.threadId
    url := input.url
    payload := input.payload
    payloadTruncated := input.payloadTruncated.getD false
    runStatus
    status := if claimed then .delivering else .pending
    attempt := if claimed then 1 else 0
    nextAttemptAt := input.nextAttemptAt
    lastError := none
    createdAt := now
    updatedAt := now
    expiresAt := input.expiresAt }
  (delivery, { store with deliveries := store.deliveries.write delivery })

/-- The row write of `#settle`: the first terminal status and its error win. -/
def settleRow (store : MemorySkeinStore J) (runId : RunId) (final : RunSettlement J)
    (now : Timestamp) : MemorySkeinStore J :=
  match store.runs.get? runId with
  | none => store
  | some run =>
    if run.status.isTerminal then store else store.writeStatus run final.status final.error now

/-- The result write of `#settle`: once, and only when this settlement's status won. -/
def settleResult (store : MemorySkeinStore J) (runId : RunId) (final : RunSettlement J) :
    MemorySkeinStore J :=
  match store.runs.get? runId, final.result with
  | some run, some normalized =>
    if run.status = final.status ∧ store.runResults.contains runId = false then
      { store with runResults := store.runResults.set runId normalized }
    else store
  | _, _ => store

/-- The delivery of `#settle`: an identified one is inserted once, born pending. -/
def settleDelivery (store : MemorySkeinStore J) (runId : RunId) (final : RunSettlement J)
    (uuid : DeliveryId) (now : Timestamp) : Option (Delivery J) × MemorySkeinStore J :=
  match final.delivery with
  | none => (none, store)
  | some prepared =>
    match prepared.deliveryId.bind store.deliveries.get? with
    | some existing => (some existing, store)
    | none =>
      let runStatus := (store.runs.get? runId).elim final.status.val Run.status
      let inserted := store.insertDelivery runId runStatus prepared false uuid now
      (some inserted.1, inserted.2)

/-- `#settle` after its argument has been serialized. -/
def settleFinal (store : MemorySkeinStore J) (runId : RunId) (final : RunSettlement J)
    (uuid : DeliveryId) (now : Timestamp) : SettledRun J × MemorySkeinStore J :=
  let settled := (store.settleRow runId final now).settleResult runId final
  let delivered := settled.settleDelivery runId final uuid now
  (⟨settled.runs.get? runId, delivered.1⟩, delivered.2)

/-- `#settle`, that is `runs.settle`. -/
def runsSettle [WireJson J] (store : MemorySkeinStore J) (runId : RunId) (input : RunSettlement J)
    (uuid : DeliveryId) (now : Timestamp) : Completion J (SettledRun J) :=
  match input.roundTrip with
  | none => (.error .unserializable, store)
  | some final =>
    let settled := store.settleFinal runId final uuid now
    (.ok settled.1, settled.2)

/-- `#insertDelivery` of a delivery that has not been serialized, born claimed. -/
def insertClaimed [WireJson J] (store : MemorySkeinStore J) (runId : RunId) (runStatus : RunStatus)
    (input : DeliveryCreate J) (uuid : DeliveryId) (now : Timestamp) : Completion J (Delivery J) :=
  if input.clones then
    let inserted := store.insertDelivery runId runStatus input true uuid now
    (.ok inserted.1, inserted.2)
  else (.error .unserializable, store)

/-- `runs.finalizeWithDelivery`: the status is written unless the row is terminal, and then the
delivery is inserted in any case. -/
def runsFinalizeWithDelivery [WireJson J] (store : MemorySkeinStore J) (runId : RunId)
    (final : RunFinalization J) (uuid : DeliveryId) (now : Timestamp) :
    Completion J (FinalizedRun J) :=
  match store.runs.get? runId with
  | none =>
    let inserted := store.insertClaimed runId final.status final.delivery uuid now
    (inserted.1.map (⟨none, ·⟩), inserted.2)
  | some existing =>
    if existing.status.isTerminal then
      let inserted := store.insertClaimed runId existing.status final.delivery uuid now
      (inserted.1.map (⟨some existing, ·⟩), inserted.2)
    else
      let written := store.writeStatus existing final.status final.error now
      let inserted := written.insertClaimed runId final.status final.delivery uuid now
      (inserted.1.map (⟨written.runs.get? runId, ·⟩), inserted.2)

/-- `runs.recordResult`: the first result of a run that is there. -/
def runsRecordResult [WireJson J] (store : MemorySkeinStore J) (runId : RunId) (result : J) :
    Completion J Unit :=
  if store.runs.contains runId = true ∧ store.runResults.contains runId = false then
    match WireJson.roundTrip result with
    | none => (.error .unserializable, store)
    | some normalized =>
      (.ok (), { store with runResults := store.runResults.set runId normalized })
  else (.ok (), store)

/-- The row a settlement leaves: a terminal row is kept as it is. -/
def settledRun (run : Run J) (final : RunSettlement J) (now : Timestamp) : Run J :=
  if run.status.isTerminal then run
  else { run with status := final.status, error := final.error, updatedAt := now }

@[simp] theorem settledRun_runId (run : Run J) (final : RunSettlement J) (now : Timestamp) :
    (settledRun run final now).runId = run.runId := by
  unfold settledRun
  split <;> rfl

@[simp] theorem settledRun_threadId (run : Run J) (final : RunSettlement J) (now : Timestamp) :
    (settledRun run final now).threadId = run.threadId := by
  unfold settledRun
  split <;> rfl

theorem settledRun_isTerminal (run : Run J) (final : RunSettlement J) (now : Timestamp) :
    (settledRun run final now).status.isTerminal = true := by
  unfold settledRun
  split
  · assumption
  · exact final.status.property

theorem settledRun_of_isTerminal {run : Run J} (h : run.status.isTerminal = true)
    (final : RunSettlement J) (now : Timestamp) : settledRun run final now = run := if_pos h

@[simp] theorem settleResult_runs (store : MemorySkeinStore J) (runId : RunId)
    (final : RunSettlement J) : (store.settleResult runId final).runs = store.runs := by
  unfold settleResult
  split
  · split <;> rfl
  · rfl

@[simp] theorem settleDelivery_runs (store : MemorySkeinStore J) (runId : RunId)
    (final : RunSettlement J) (uuid : DeliveryId) (now : Timestamp) :
    (store.settleDelivery runId final uuid now).2.runs = store.runs := by
  unfold settleDelivery
  split
  · rfl
  · split <;> rfl

theorem settleRow_get? (store : MemorySkeinStore J) (runId : RunId) (final : RunSettlement J)
    (now : Timestamp) (k : RunId) :
    (store.settleRow runId final now).runs.get? k =
      if k = runId then (store.runs.get? k).map fun run => settledRun run final now
      else store.runs.get? k := by
  unfold settleRow
  cases hrun : store.runs.get? runId with
  | none =>
    split_ifs with hk
    · rw [hk, hrun]; rfl
    · rfl
  | some run =>
    have hid : run.runId = runId := Table.key_of_get? hrun
    by_cases hterm : run.status.isTerminal = true
    · simp only [hterm, if_true]
      split_ifs with hk
      · rw [hk, hrun, Option.map_some, settledRun_of_isTerminal hterm]
      · rfl
    · simp only [if_neg hterm, writeStatus]
      rw [Table.get?_write, hid]
      by_cases hk : k = runId
      · simp [hk, hrun, settledRun, hterm, hid]
      · simp [hk, Ne.symm hk]

theorem settleFinal_get? (store : MemorySkeinStore J) (runId : RunId) (final : RunSettlement J)
    (uuid : DeliveryId) (now : Timestamp) (k : RunId) :
    (store.settleFinal runId final uuid now).2.runs.get? k =
      if k = runId then (store.runs.get? k).map fun run => settledRun run final now
      else store.runs.get? k := by
  simp [settleFinal, settleRow_get?]

/-- The row a settlement reports is the row it leaves. -/
theorem settleFinal_run (store : MemorySkeinStore J) (runId : RunId) (final : RunSettlement J)
    (uuid : DeliveryId) (now : Timestamp) :
    (store.settleFinal runId final uuid now).1.run =
      (store.settleFinal runId final uuid now).2.runs.get? runId := by
  simp [settleFinal]

theorem settleRow_frame (store : MemorySkeinStore J) (runId : RunId) (final : RunSettlement J)
    (now : Timestamp) :
    store.settleRow runId final now =
      { store with runs := (store.settleRow runId final now).runs } := by
  unfold settleRow
  split
  · rfl
  · split <;> rfl

theorem settleResult_frame (store : MemorySkeinStore J) (runId : RunId)
    (final : RunSettlement J) :
    store.settleResult runId final =
      { store with runResults := (store.settleResult runId final).runResults } := by
  unfold settleResult
  split
  · split <;> rfl
  · rfl

theorem settleDelivery_frame (store : MemorySkeinStore J) (runId : RunId)
    (final : RunSettlement J) (uuid : DeliveryId) (now : Timestamp) :
    (store.settleDelivery runId final uuid now).2 =
      { store with deliveries := (store.settleDelivery runId final uuid now).2.deliveries } := by
  unfold settleDelivery
  split
  · rfl
  · split <;> rfl

/-- A settlement writes rows, results and deliveries, and nothing else. -/
theorem settleFinal_frame (store : MemorySkeinStore J) (runId : RunId) (final : RunSettlement J)
    (uuid : DeliveryId) (now : Timestamp) :
    (store.settleFinal runId final uuid now).2 =
      { store with
        runs := (store.settleFinal runId final uuid now).2.runs
        runResults := (store.settleFinal runId final uuid now).2.runResults
        deliveries := (store.settleFinal runId final uuid now).2.deliveries } := by
  simp only [settleFinal]
  rw [settleDelivery_frame, settleResult_frame, settleRow_frame]

theorem runsSettle_of_roundTrip [WireJson J] {store : MemorySkeinStore J} {runId : RunId}
    {input final : RunSettlement J} {uuid : DeliveryId} {now : Timestamp}
    (h : input.roundTrip = some final) :
    store.runsSettle runId input uuid now =
      (.ok (store.settleFinal runId final uuid now).1,
        (store.settleFinal runId final uuid now).2) := by
  simp [runsSettle, h]

theorem runsSettle_ok [WireJson J] {store store' : MemorySkeinStore J} {runId : RunId}
    {input : RunSettlement J} {uuid : DeliveryId} {now : Timestamp} {settled : SettledRun J}
    (h : store.runsSettle runId input uuid now = (.ok settled, store')) :
    ∃ final, input.roundTrip = some final ∧
      settled = (store.settleFinal runId final uuid now).1 ∧
      store' = (store.settleFinal runId final uuid now).2 := by
  unfold runsSettle at h
  split at h
  · cases h
  next final hfinal =>
    cases h
    exact ⟨final, hfinal, rfl, rfl⟩

theorem runsSettle_error [WireJson J] {store store' : MemorySkeinStore J} {runId : RunId}
    {input : RunSettlement J} {uuid : DeliveryId} {now : Timestamp} {e : Thrown}
    (h : store.runsSettle runId input uuid now = (.error e, store')) : store' = store := by
  unfold runsSettle at h
  split at h
  · cases h
    rfl
  · cases h

/-- The row `runs.setStatus` leaves where it finds `run`. -/
def statusRow (store : MemorySkeinStore J) (runId : RunId) (status : RunStatus)
    (error : Option J) (now : Timestamp) (run : Run J) : Run J :=
  if run.runId = runId ∧ ¬(status = .running ∧ runId ∈ store.admittedRunIds ∧
      run.status.isTerminal) then
    { run with status, error, updatedAt := now }
  else run

theorem runsSetStatus_get? (store : MemorySkeinStore J) (runId : RunId) (status : RunStatus)
    (error : Option J) (now : Timestamp) (k : RunId) :
    (store.runsSetStatus runId status error now).2.runs.get? k =
      (store.runs.get? k).map (store.statusRow runId status error now) := by
  unfold runsSetStatus
  cases hrun : store.runs.get? runId with
  | none =>
    cases hk : store.runs.get? k with
    | none => simp only [Option.map_none]
    | some run =>
      have hne : run.runId ≠ runId := by
        rintro rfl
        rw [Table.key_of_get? hk, hk] at hrun
        cases hrun
      simp only [Option.map_some, statusRow, hne, false_and, if_false]
  | some existing =>
    have hid : existing.runId = runId := Table.key_of_get? hrun
    by_cases hk : k = runId
    · subst hk
      by_cases hguard : status = .running ∧ k ∈ store.admittedRunIds ∧ existing.status.isTerminal
      · simp [hrun, statusRow, hguard]
      · simp only [if_neg hguard, writeStatus, hrun, Option.map_some, statusRow]
        rw [Table.get?_write]
        simp [hid, hguard]
    · have hkept : store.runs.get? k =
          (store.runs.get? k).map (store.statusRow runId status error now) := by
        cases hrow : store.runs.get? k with
        | none => rfl
        | some run =>
          have hne : run.runId ≠ runId := (Table.key_of_get? hrow).symm ▸ hk
          simp [statusRow, hne]
      dsimp only
      split_ifs with hguard
      · exact hkept
      · rw [writeStatus, Table.get?_write]
        simp only [hid, Ne.symm hk, if_false]
        exact hkept

theorem statusRow_status (store : MemorySkeinStore J) (runId : RunId) (status : RunStatus)
    (error : Option J) (now : Timestamp) (run : Run J) :
    store.statusRow runId status error now run = run ∨
      (run.runId = runId ∧ (store.statusRow runId status error now run).status = status) := by
  unfold statusRow
  split_ifs with h
  · exact .inr ⟨h.1, rfl⟩
  · exact .inl rfl

theorem runsSetStatus_contains (store : MemorySkeinStore J) (runId : RunId) (status : RunStatus)
    (error : Option J) (now : Timestamp) (k : RunId) :
    (store.runsSetStatus runId status error now).2.runs.contains k = store.runs.contains k := by
  simp [OrderedMap.contains, runsSetStatus_get?]

theorem runsSetStatus_admittedRunIds (store : MemorySkeinStore J) (runId : RunId)
    (status : RunStatus) (error : Option J) (now : Timestamp) :
    (store.runsSetStatus runId status error now).2.admittedRunIds = store.admittedRunIds := by
  unfold runsSetStatus
  split
  · rfl
  · split_ifs <;> rfl

/-- The row of a run that was never admitted takes whatever status is written to it. -/
theorem runsSetStatus_present {store : MemorySkeinStore J} {runId : RunId}
    (hrow : store.runs.contains runId = true) (hadmitted : store.admittedRunIds = [])
    (status : RunStatus) (error : Option J) (now : Timestamp) :
    ∃ run, (store.runsSetStatus runId status error now).1 = .ok run ∧ run.status = status ∧
      (store.runsSetStatus runId status error now).2.runs.get? runId = some run := by
  obtain ⟨existing, hexisting⟩ := Option.isSome_iff_exists.mp hrow
  have hid : existing.runId = runId := Table.key_of_get? hexisting
  refine ⟨{ existing with status, error, updatedAt := now }, ?_, rfl, ?_⟩
  · simp [runsSetStatus, hexisting, hadmitted]
  · rw [runsSetStatus_get?, hexisting, Option.map_some]
    simp [statusRow, hid, hadmitted]

end MemorySkeinStore
end Skein
