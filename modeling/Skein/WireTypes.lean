import Mathlib.Data.List.Basic

/-!
# Wire and row types

The rows a store driver holds and the vocabulary they share. Identifiers are
non-empty strings (generated UUIDs, or validated), so the source's truthiness
tests on an optional identifier are presence tests. Timestamps are ISO 8601 in UTC
throughout the source, where they are compared as strings or through `Date.parse`;
both orders are that of the epoch milliseconds used here. JSON payloads nobody
inspects (metadata, graph values, errors, callback bodies) are an arbitrary type `J`.
The JSON round trip of a record is that of its opaque parts; everything else in it is
strings, booleans and numbers, which survive.
-/
namespace Skein

structure Id where
  value : String
  nonempty : value ≠ ""
  deriving DecidableEq, Repr

/-- The identifier spelled `value`; the empty string, which is none, reads as `-`. -/
def Id.of (value : String) : Id :=
  if nonempty : value = "" then ⟨"-", by decide⟩ else ⟨value, nonempty⟩

theorem Id.eq_of_value {a b : Id} (h : a.value = b.value) : a = b := by
  cases a
  cases b
  cases h
  rfl

abbrev RunId := Id
abbrev ThreadId := Id
abbrev AssistantId := Id
abbrev CronId := Id
abbrev DeliveryId := Id
abbrev CheckpointId := String
abbrev Timestamp := ℕ

/-- An opaque payload type: `{}` is the empty object, `spread a b` is `{ ...a, ...b }`, and
`roundTrip` is `JSON.parse(serializeWireJson(value))`, `none` where serializing throws.
What `JSON.parse` produced serializes to itself. `structuredClone` takes the values that
`clones` holds of, and throws on the others. -/
class WireJson (J : Type*) extends EmptyCollection J where
  spread : J → J → J
  roundTrip : J → Option J
  roundTrip_parsed : ∀ v w, roundTrip v = some w → roundTrip w = some w
  clones : J → Bool

/-- Payloads that are already JSON survive the round trip unchanged. -/
instance : WireJson ℕ where
  emptyCollection := 0
  spread := fun a b => if b = 0 then a else b
  roundTrip := some
  roundTrip_parsed := fun _ _ _ => rfl
  clones := fun _ => true

/-- `SkeinHttpError`, without the details and cause no modelled caller reads. -/
structure SkeinHttpError where
  status : ℕ
  message : String
  code : Option String
  deriving DecidableEq, Repr

namespace SkeinHttpError
def notFound (message : String) (code : Option String := none) : SkeinHttpError :=
  ⟨404, message, code⟩
def conflict (message : String) (code : Option String := none) : SkeinHttpError :=
  ⟨409, message, code⟩
def unprocessable (message : String) (code : Option String := none) : SkeinHttpError :=
  ⟨422, message, code⟩
end SkeinHttpError

/-- Everything a modelled call can throw. -/
inductive Thrown
  | http (error : SkeinHttpError)
  /-- `signal.throwIfAborted()`. -/
  | aborted
  /-- `JSON.stringify` of a cycle or a BigInt, `structuredClone` of a function. -/
  | unserializable
  deriving DecidableEq, Repr

inductive RunStatus
  | pending | running | success | error | timeout | interrupted | cancelled
  deriving DecidableEq, Repr

/-- `isTerminalRunStatus`. -/
def RunStatus.isTerminal : RunStatus → Bool
  | .pending | .running => false
  | .success | .error | .timeout | .interrupted | .cancelled => true

namespace RunStatus
theorem isTerminal_success : success.isTerminal = true := rfl
theorem isTerminal_error : error.isTerminal = true := rfl
theorem isTerminal_timeout : timeout.isTerminal = true := rfl
theorem isTerminal_interrupted : interrupted.isTerminal = true := rfl
theorem isTerminal_cancelled : cancelled.isTerminal = true := rfl
end RunStatus

/-- `Exclude<RunStatus, "pending" | "running">`. -/
abbrev TerminalStatus := { s : RunStatus // s.isTerminal = true }

inductive ThreadStatus
  | idle | busy | interrupted | error
  deriving DecidableEq, Repr

/-- The status as it is spelled on the wire. -/
def ThreadStatus.wire : ThreadStatus → String
  | .idle => "idle"
  | .busy => "busy"
  | .interrupted => "interrupted"
  | .error => "error"

inductive MultitaskStrategy
  | reject | interrupt | rollback | enqueue
  deriving DecidableEq, Repr

/-- Why a run was aborted, as recorded by the run control. -/
inductive AbortReason
  | cancel | timeout | interrupt | rollback
  deriving DecidableEq, Repr

structure Run (J : Type*) where
  runId : RunId
  threadId : ThreadId
  assistantId : AssistantId
  createdAt : Timestamp
  updatedAt : Timestamp
  status : RunStatus
  metadata : J
  multitaskStrategy : Option MultitaskStrategy
  error : Option J := none
  deriving DecidableEq, Repr

/-- What a `rollback` run must do before it executes. `revertToCheckpoint = none`
is the source's `false`; `some none` reverts to an empty history. The stored form
differs in spelling only. -/
structure RollbackPlan where
  revertToCheckpoint : Option (Option CheckpointId)
  displacedRunIds : List RunId
  deriving DecidableEq, Repr

/-- The execution payload beside a run row. `baseCheckpointId` is three-valued:
never recorded, recorded as no checkpoint, recorded as a checkpoint. -/
structure RunKwargs (J : Type*) where
  queueNotBefore : Option Timestamp := none
  baseCheckpointId : Option (Option CheckpointId) := none
  rollbackPlan : Option RollbackPlan := none
  rest : J
  deriving DecidableEq, Repr

structure RunCreate (J : Type*) where
  threadId : ThreadId
  assistantId : AssistantId
  runId : Option RunId := none
  status : Option RunStatus := none
  metadata : Option J := none
  multitaskStrategy : Option MultitaskStrategy := none
  kwargs : Option (RunKwargs J) := none
  deriving DecidableEq, Repr

structure RunCreateGuard where
  requireNoActiveRun : Bool := false
  threadStatusIn : Option (List ThreadStatus) := none
  deriving DecidableEq, Repr

inductive DeliveryStatus
  | pending | delivering | delivered | dead
  deriving DecidableEq, Repr

/-- One outbound callback. `payload = none` is `null`, the cleared payload. -/
structure Delivery (J : Type*) where
  deliveryId : DeliveryId
  runId : RunId
  threadId : ThreadId
  url : String
  payload : Option J
  payloadTruncated : Bool
  runStatus : RunStatus
  status : DeliveryStatus
  attempt : ℕ
  nextAttemptAt : Timestamp
  lastError : Option String
  createdAt : Timestamp
  updatedAt : Timestamp
  expiresAt : Timestamp
  deriving DecidableEq, Repr

structure DeliveryCreate (J : Type*) where
  deliveryId : Option DeliveryId := none
  threadId : ThreadId
  url : String
  payload : Option J
  payloadTruncated : Option Bool := none
  nextAttemptAt : Timestamp
  expiresAt : Timestamp
  deriving DecidableEq, Repr

structure RunSettlement (J : Type*) where
  status : TerminalStatus
  error : Option J := none
  result : Option J := none
  delivery : Option (DeliveryCreate J) := none
  deriving DecidableEq, Repr

/-- What `finalizeWithDelivery` writes. -/
structure RunFinalization (J : Type*) where
  status : RunStatus
  error : Option J := none
  delivery : DeliveryCreate J
  deriving DecidableEq, Repr

structure Thread (J : Type*) where
  threadId : ThreadId
  createdAt : Timestamp
  updatedAt : Timestamp
  stateUpdatedAt : Timestamp
  metadata : J
  status : ThreadStatus
  values : J
  interrupts : J
  error : Option String := none
  deriving DecidableEq, Repr

structure Cron (J : Type*) where
  cronId : CronId
  assistantId : AssistantId
  threadId : Option ThreadId
  schedule : String
  timezone : Option String
  endTime : Option Timestamp
  nextRunDate : Option Timestamp
  enabled : Bool
  payload : J
  metadata : J
  userId : Option String
  createdAt : Timestamp
  updatedAt : Timestamp
  onRunCompleted : Option String := none
  deriving DecidableEq, Repr

inductive IdempotencyStatus
  | inFlight | done
  deriving DecidableEq, Repr

structure RecordedResponse (J : Type*) where
  status : ℕ
  body : J
  headers : Option (List (String × String)) := none
  deriving DecidableEq, Repr

structure AdmissionReceipt where
  idempotencyKey : String
  runId : RunId
  threadId : ThreadId
  deriving DecidableEq, Repr

section RoundTrip
variable {J : Type*} [WireJson J]

/-- An absent field stays absent. -/
def roundTripOption {α : Type*} (f : α → Option α) : Option α → Option (Option α)
  | none => some none
  | some v => (f v).map some

def RunKwargs.roundTrip (kwargs : RunKwargs J) : Option (RunKwargs J) :=
  (WireJson.roundTrip kwargs.rest).map fun rest => { kwargs with rest := rest }

def RunCreate.roundTrip (run : RunCreate J) : Option (RunCreate J) := do
  let metadata ← roundTripOption WireJson.roundTrip run.metadata
  let kwargs ← roundTripOption RunKwargs.roundTrip run.kwargs
  return { run with metadata := metadata, kwargs := kwargs }

def DeliveryCreate.roundTrip (delivery : DeliveryCreate J) : Option (DeliveryCreate J) :=
  (roundTripOption WireJson.roundTrip delivery.payload).map fun payload => { delivery with payload := payload }

def DeliveryCreate.clones (delivery : DeliveryCreate J) : Bool :=
  delivery.payload.all WireJson.clones

def RunSettlement.roundTrip (final : RunSettlement J) : Option (RunSettlement J) := do
  let error ← roundTripOption WireJson.roundTrip final.error
  let result ← roundTripOption WireJson.roundTrip final.result
  let delivery ← roundTripOption DeliveryCreate.roundTrip final.delivery
  return { final with error := error, result := result, delivery := delivery }

end RoundTrip

section RoundTripLemmas
variable {J : Type*} [WireJson J]

theorem roundTripOption_parsed {α : Type*} {f : α → Option α}
    (hf : ∀ v w, f v = some w → f w = some w) {v w : Option α}
    (h : roundTripOption f v = some w) : roundTripOption f w = some w := by
  cases v with
  | none =>
    cases h
    rfl
  | some v =>
    obtain ⟨u, hu, rfl⟩ := Option.map_eq_some_iff.mp h
    simp [roundTripOption, hf v u hu]

theorem DeliveryCreate.roundTrip_parsed (delivery delivery' : DeliveryCreate J)
    (h : delivery.roundTrip = some delivery') : delivery'.roundTrip = some delivery' := by
  obtain ⟨payload, hp, rfl⟩ := Option.map_eq_some_iff.mp h
  simp [DeliveryCreate.roundTrip, roundTripOption_parsed WireJson.roundTrip_parsed hp]

theorem RunSettlement.roundTrip_eq_some {final final' : RunSettlement J} :
    final.roundTrip = some final' ↔ ∃ error result delivery,
      roundTripOption WireJson.roundTrip final.error = some error ∧
      roundTripOption WireJson.roundTrip final.result = some result ∧
      roundTripOption DeliveryCreate.roundTrip final.delivery = some delivery ∧
      final' = ⟨final.status, error, result, delivery⟩ := by
  simp only [RunSettlement.roundTrip, Option.bind_eq_bind, Option.bind_eq_some_iff,
    Option.pure_def, Option.some.injEq]
  constructor
  · rintro ⟨error, he, result, hr, delivery, hd, rfl⟩
    exact ⟨error, result, delivery, he, hr, hd, rfl⟩
  · rintro ⟨error, result, delivery, he, hr, hd, rfl⟩
    exact ⟨error, he, result, hr, delivery, hd, rfl⟩

/-- A settlement that was serialized once serializes again to itself. -/
theorem RunSettlement.roundTrip_parsed (final final' : RunSettlement J)
    (h : final.roundTrip = some final') : final'.roundTrip = some final' := by
  obtain ⟨error, result, delivery, he, hr, hd, rfl⟩ := RunSettlement.roundTrip_eq_some.mp h
  exact RunSettlement.roundTrip_eq_some.mpr ⟨error, result, delivery,
    roundTripOption_parsed WireJson.roundTrip_parsed he,
    roundTripOption_parsed WireJson.roundTrip_parsed hr,
    roundTripOption_parsed DeliveryCreate.roundTrip_parsed hd, rfl⟩

/-- A settlement keeps its terminal status through the round trip. -/
theorem RunSettlement.roundTrip_status {final final' : RunSettlement J}
    (h : final.roundTrip = some final') : final'.status = final.status := by
  obtain ⟨error, result, delivery, -, -, -, rfl⟩ := RunSettlement.roundTrip_eq_some.mp h
  rfl

end RoundTripLemmas

/-- A round trip of a run creation normalizes its opaque fields only. -/
theorem RunCreate.roundTrip_eq_some {J : Type*} [WireJson J] {run run' : RunCreate J}
    (h : run.roundTrip = some run') :
    run'.threadId = run.threadId ∧ run'.assistantId = run.assistantId ∧
      run'.runId = run.runId ∧ run'.status = run.status ∧
      run'.multitaskStrategy = run.multitaskStrategy := by
  simp only [RunCreate.roundTrip, Option.bind_eq_bind, Option.bind_eq_some_iff] at h
  obtain ⟨metadata, -, kwargs, -, h⟩ := h
  cases h
  exact ⟨rfl, rfl, rfl, rfl, rfl⟩

/-- A frame of a run's stream: what is not its number is one payload. -/
structure RunFrame (J : Type*) where
  seq : ℕ
  payload : J
  deriving DecidableEq, Repr

end Skein
