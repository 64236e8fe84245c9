import Skein.MemoryStore

/-!
# Atomic admission

`MemorySkeinStore.admission`: one call settles the displaced runs, inserts the
admitted run, its dispatch intents, its resume reservation and its receipt behind
a row of guards. The guards that read only come first, then the one that may
clear a stale reservation, then the commit.
-/
namespace Skein

structure AdmissionKey where
  scope : String
  key : String
  fingerprint : String
  now : Timestamp
  expiresAt : Timestamp
  deriving DecidableEq, Repr

def AdmissionKey.coordinate (key : AdmissionKey) : String × String := (key.scope, key.key)

structure Displacement (J : Type*) where
  runId : RunId
  settlement : RunSettlement J
  deriving DecidableEq, Repr

/-- `RunAdmission`; `aborted` is the state of its abort signal. -/
structure RunAdmission (J : Type*) extends AdmissionKey where
  aborted : Bool := false
  run : RunCreate J
  guard : RunCreateGuard := {}
  expectedRunId : Option RunId := none
  displacements : List (Displacement J) := []
  deriving DecidableEq, Repr

structure CancelAdmission (J : Type*) extends AdmissionKey where
  runId : RunId
  action : Option CancelAction := none
  delivery : Option (DeliveryCreate J) := none
  deriving DecidableEq, Repr

/-- What one admission call draws from `randomUUID` and the clock. -/
structure AdmissionDraws where
  runUuid : RunId
  claimUuid : String
  deliveryUuid : RunId → DeliveryId
  now : Timestamp

namespace MemorySkeinStore
variable {J : Type*}

/-- `#replayAdmission`. -/
def replayAdmission (store : MemorySkeinStore J) (input : AdmissionKey) :
    Except Thrown (Option AdmissionReceipt) :=
  match store.idempotency.get? input.coordinate with
  | none => .ok none
  | some record =>
    if record.expiresAt ≤ input.now then .ok none
    else if record.fingerprint ≠ input.fingerprint then
      .error (.http (.conflict "The operation key was already used for different input."
        (some "idempotency_key_reused")))
    else match record.runId, record.threadId with
      | some runId, some threadId => .ok (some ⟨input.key, runId, threadId⟩)
      | _, _ => .error (.http (.conflict "Admission is in progress."
          (some "idempotency_key_in_flight")))

/-- The record of an admission: its response is the receipt, its run the admitted one. -/
def admissionRecord (input : AdmissionKey) (run : Run J) (claimUuid : String) :
    IdempotencyRecord J where
  key := input.key
  scope := input.scope
  fingerprint := input.fingerprint
  claimId := claimUuid
  status := .done
  response := some { status := 202, body := .receipt ⟨input.key, run.runId, run.threadId⟩ }
  runId := some run.runId
  threadId := some run.threadId
  createdAt := input.now
  updatedAt := input.now
  expiresAt := input.expiresAt

/-- `#recordAdmission`. -/
def recordAdmission (store : MemorySkeinStore J) (input : AdmissionKey) (run : Run J)
    (claimUuid : String) : AdmissionReceipt × MemorySkeinStore J :=
  (⟨input.key, run.runId, run.threadId⟩,
    { store with idempotency := store.idempotency.write (admissionRecord input run claimUuid) })

/-- `#dispatch`. -/
def dispatch (store : MemorySkeinStore J) (run : Run J) (kind : DispatchKind)
    (action : Option CancelAction) (now : Timestamp) : MemorySkeinStore J :=
  { store with
    admittedRunIds := store.admittedRunIds.insert run.runId
    dispatches := store.dispatches.write {
      runId := run.runId
      threadId := run.threadId
      token := ""
      kind
      notBefore := match kind with
        | .run => ((store.runKwargs.get? run.runId).bind RunKwargs.queueNotBefore).getD now
        | .cancel => now
      action } }

/-- Clear the reservation of a resume target when its run is gone. -/
def clearStaleReservation (store : MemorySkeinStore J) (expectedRunId : RunId) :
    MemorySkeinStore J :=
  match store.resumeReservations.get? expectedRunId with
  | none => store
  | some reservation =>
    if store.runs.contains reservation then store
    else { store with resumeReservations := store.resumeReservations.erase expectedRunId }

/-- The reservation guard: a stale reservation is cleared before it is checked. -/
def resumeGuard (store : MemorySkeinStore J) (expectedRunId : Option RunId)
    (threadId : ThreadId) : Completion J Unit :=
  match expectedRunId with
  | none => (.ok (), store)
  | some expectedRunId =>
    let expected := store.runs.get? expectedRunId
    let cleared := store.clearStaleReservation expectedRunId
    if (expected.all fun run => run.threadId ≠ threadId ∨ run.status ≠ .interrupted) ∨
        cleared.resumeReservations.contains expectedRunId then
      (.error (.http (.conflict "Resume target was consumed or changed." (some "stale_resume"))),
        cleared)
    else (.ok (), cleared)

/-- Replace the intent of a settled run, if there is one, by a cancel. -/
def dispatchSettled (store : MemorySkeinStore J) (settled : SettledRun J)
    (action : Option CancelAction) (now : Timestamp) : MemorySkeinStore J :=
  settled.run.elim store fun run => store.dispatch run .cancel action now

variable [WireJson J]

def roundTripDisplacements (displacements : List (Displacement J)) :
    Option (List (Displacement J)) :=
  displacements.mapM fun item => item.settlement.roundTrip.map (⟨item.runId, ·⟩)

/-- The guards of `admitRun` that read only; the prepared run and displacements. -/
def admissionGuards (store : MemorySkeinStore J) (input : RunAdmission J) :
    Except Thrown (RunCreate J × List (Displacement J)) :=
  match input.run.roundTrip with
  | none => .error .unserializable
  | some prepared =>
    if prepared.runId.any store.runs.contains then
      .error (.http (.conflict "Run already exists."))
    else match store.threads.get? prepared.threadId with
    | none => .error (.http (.notFound "Thread not found."))
    | some thread =>
      if input.guard.threadStatusIn.any fun statuses => thread.status ∉ statuses then
        .error (.http (.conflict "Thread status changed." (some "thread_status_mismatch")))
      else
        let active := store.activeRuns thread.threadId
        match roundTripDisplacements input.displacements with
        | none => .error .unserializable
        | some displaced =>
          -- An empty displacement list skips the comparison with the active runs.
          if displaced ≠ [] ∧ (active.length ≠ displaced.length ∨
              ∃ run ∈ active, ∀ item ∈ displaced, item.runId ≠ run.runId) then
            .error (.http (.conflict "Active runs changed." (some "thread_busy")))
          else if input.guard.requireNoActiveRun ∧ active ≠ [] then
            .error (.http (.conflict "Thread is busy." (some "thread_busy")))
          else .ok (prepared, displaced)

/-- Settle one displaced run and replace its dispatch intent by a cancel. -/
def displaceAll (action : CancelAction) (draws : AdmissionDraws) :
    List (Displacement J) → MemorySkeinStore J → Completion J Unit
  | [], store => (.ok (), store)
  | item :: rest, store =>
    match store.runsSettle item.runId item.settlement (draws.deliveryUuid item.runId) draws.now with
    | (.error e, store) => (.error e, store)
    | (.ok settled, store) =>
      displaceAll action draws rest (store.dispatchSettled settled (some action) draws.now)

/-- `#resumeReservations.set`, when the admission names the run it resumes. -/
def reserveResume (store : MemorySkeinStore J) (expectedRunId : Option RunId) (runId : RunId) :
    MemorySkeinStore J :=
  match expectedRunId with
  | none => store
  | some expected =>
    { store with resumeReservations := store.resumeReservations.set expected runId }

/-- What a displacing creation asks of the runs it displaces. -/
def displacementAction (strategy : Option MultitaskStrategy) : CancelAction :=
  if strategy = some .rollback then .rollback else .interrupt

/-- The mutations of `admitRun`, after every guard has passed. -/
def commitAdmission (store : MemorySkeinStore J) (input : RunAdmission J) (prepared : RunCreate J)
    (displaced : List (Displacement J)) (draws : AdmissionDraws) :
    Completion J AdmissionReceipt :=
  match displaceAll (displacementAction prepared.multitaskStrategy) draws displaced store with
  | (.error e, store) => (.error e, store)
  | (.ok (), store) =>
    match store.createRun prepared draws.runUuid draws.now with
    | (.error e, store) => (.error e, store)
    | (.ok run, store) =>
      let reserved := store.reserveResume input.expectedRunId run.runId
      let recorded := (reserved.dispatch run .run none draws.now).recordAdmission
        input.toAdmissionKey run draws.claimUuid
      (.ok recorded.1, recorded.2)

/-- `admission.admitRun`. Its second `throwIfAborted` rereads the flag of the first
within one turn of the event loop. -/
def admitRun (store : MemorySkeinStore J) (input : RunAdmission J) (draws : AdmissionDraws) :
    Completion J AdmissionReceipt :=
  if input.aborted then (.error .aborted, store)
  else match store.replayAdmission input.toAdmissionKey with
  | .error e => (.error e, store)
  | .ok (some receipt) => (.ok receipt, store)
  | .ok none =>
    match store.admissionGuards input with
    | .error e => (.error e, store)
    | .ok (prepared, displaced) =>
      match store.resumeGuard input.expectedRunId prepared.threadId with
      | (.error e, store) => (.error e, store)
      | (.ok (), store) =>
        if displaced.any fun item =>
            (roundTripOption WireJson.roundTrip item.settlement.result).isNone ||
            (roundTripOption DeliveryCreate.roundTrip item.settlement.delivery).isNone then
          (.error .unserializable, store)
        else store.commitAdmission input prepared displaced draws

/-- `admission.admitCancel`. -/
def admitCancel (store : MemorySkeinStore J) (input : CancelAdmission J) (draws : AdmissionDraws) :
    Completion J AdmissionReceipt :=
  match store.replayAdmission input.toAdmissionKey with
  | .error e => (.error e, store)
  | .ok (some receipt) => (.ok receipt, store)
  | .ok none =>
    match store.runs.get? input.runId with
    | none => (.error (.http (.notFound "Run not found.")), store)
    | some existing =>
      match roundTripOption DeliveryCreate.roundTrip input.delivery with
      | none => (.error .unserializable, store)
      | some _ =>
        let finish := fun store : MemorySkeinStore J =>
          let recorded := store.recordAdmission input.toAdmissionKey
            ((store.runs.get? input.runId).getD existing) draws.claimUuid
          ((.ok recorded.1, recorded.2) : Completion J AdmissionReceipt)
        if existing.status.isTerminal then finish store
        else
          match store.runsSettle input.runId
              { status := ⟨.cancelled, rfl⟩, delivery := input.delivery }
              (draws.deliveryUuid input.runId) draws.now with
          | (.error e, store) => (.error e, store)
          | (.ok settled, store) =>
            finish (store.dispatchSettled settled input.action draws.now)

end MemorySkeinStore
end Skein
