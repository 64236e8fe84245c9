import Skein.AdmissionLaws
import Skein.ChannelPlans
import Skein.IdempotentHandlers

/-!
# Redelivered channel events

`claimEventKey` and `handleInboundEvent` from its claim on, over the in-memory store: the
attempts that arrive for one channel, principal and event key, with any bytes. An attempt
suspends at its awaits, each of which may reject, and may stall at any of them for good.
`createRun` is what it is to this pipeline, a call that commits through the admission key:
what else it asks of the admission and what it does besides is left open.
-/
namespace Skein

/-- One event key of one channel and principal. `sha256` is that of `node:crypto` in hex;
`resolveThread` is the thread an event's bytes are parsed to, and `acknowledgement` the body
that names a run. -/
structure InboundPipeline (J : Type*) where
  channelName : String
  identity : String
  key : String
  sha256 : String → String
  resolveThread : String → ThreadId
  acknowledgement : RunId → J
  inFlightMs : ℕ := 15 * 60 * 1000
  retentionMs : ℕ := 24 * 60 * 60 * 1000

/-- Where an attempt stands, named by what it awaits. `claimedAt` is the clock reading its
claim was granted by. -/
inductive InboundAttempt (J : Type*)
  /-- Before `claimEventKey`. -/
  | claiming (rawBody : String)
  | ensuring (rawBody : String) (claimedAt : Timestamp)
  /-- Before the thread's status is read; `again` tells that the first create was refused. -/
  | planning (rawBody : String) (claimedAt : Timestamp) (again : Bool)
  | creating (rawBody : String) (claimedAt : Timestamp) (again : Bool)
  /-- The run exists: before `claim.record`. -/
  | recording (rawBody : String) (claimedAt : Timestamp) (runId : RunId)
  /-- Nothing was created: before `claim.release`. -/
  | releasing (rawBody : String) (claimedAt : Timestamp) (error : Thrown)
  /-- Answered 202, recorded until `expiresAt`. -/
  | acknowledged (rawBody : String) (claimedAt : Timestamp) (runId : RunId)
    (expiresAt : Timestamp)
  /-- Threw after its claim was released. -/
  | released (rawBody : String) (claimedAt : Timestamp) (error : Thrown)
  /-- Threw with its claim left to expire. -/
  | abandoned (rawBody : String) (claimedAt : Timestamp) (error : Thrown)
  /-- Answered from the record. -/
  | replayed (rawBody : String) (response : JsonResponse J)
  /-- Answered 422 or 409. -/
  | refused (rawBody : String) (error : SkeinHttpError)

/-- What is decided in one turn of an attempt: the store's clock, what the await rejects with,
and the admission call `createRun` makes with what it draws. -/
structure InboundInput (J : Type*) where
  now : Timestamp
  rejected : Option Thrown := none
  admission : Option (RunAdmission J × AdmissionDraws) := none

/-- A run that an attempt's create has inserted at `createdAt`, with the end of the retention
of its admission key. -/
structure EventRun where
  rawBody : String
  runId : RunId
  createdAt : Timestamp
  expiresAt : Timestamp
  deriving DecidableEq, Repr

/-- The store, the clock of the process and, as history, the attempts that were granted the
claim and the runs they created, latest first. -/
structure InboundWorld (J : Type*) where
  store : MemorySkeinStore J
  clock : Timestamp := 0
  granted : List ℕ := []
  created : List EventRun := []

/-- What the rest of the server does between two turns of an attempt. -/
inductive InboundSurroundings (J : Type*)
  | elapse (ms : ℕ)
  | sweepExpired
  /-- Anything that leaves the records of the event key alone. -/
  | elsewhere (store : MemorySkeinStore J)

namespace InboundPipeline
variable {J : Type*} (p : InboundPipeline J)

def scope : String := "POST /channels/" ++ p.channelName ++ " " ++ p.identity

def admissionScope : String := "admission " ++ p.scope

/-- The claim token: a digest of the event, not of the attempt. -/
def claimId (rawBody : String) : String :=
  String.ofList ((p.sha256 (p.scope ++ ":" ++ p.key ++ ":" ++ rawBody)).toList.take 32)

def fingerprintOf (rawBody : String) : String := p.sha256 rawBody

/-- What `claimEventKey` claims at `now`. -/
def eventClaim (rawBody : String) (now : Timestamp) : IdempotencyClaim where
  key := p.key
  scope := p.scope
  fingerprint := p.fingerprintOf rawBody
  claimId := p.claimId rawBody
  now := now
  expiresAt := now + p.inFlightMs

/-- `claim.admission`. -/
def admission (rawBody : String) (claimedAt : Timestamp) : AdmissionKey where
  scope := p.admissionScope
  key := p.key
  fingerprint := p.fingerprintOf rawBody
  now := claimedAt
  expiresAt := claimedAt + p.retentionMs

/-- The 202 of a run. -/
def response (runId : RunId) : JsonResponse J where
  status := 202
  body := .json (p.acknowledgement runId)

def keyReused : SkeinHttpError :=
  .unprocessable ("Event id \"" ++ p.key ++ "\" was already used for a different event.")
    (some "idempotency_key_reused")

def keyInFlight : SkeinHttpError :=
  .conflict "This event is already being handled." (some "idempotency_key_in_flight")

/-- The turn of `claimEventKey`. -/
def claimTurn (world : InboundWorld J) (i : ℕ) (rawBody : String) (now : Timestamp) :
    InboundWorld J × InboundAttempt J :=
  match world.store.idempotencyClaim (p.eventClaim rawBody world.clock) now with
  | (⟨true, _⟩, store) =>
    ({ world with store, granted := i :: world.granted }, .ensuring rawBody world.clock)
  | (⟨false, incumbent⟩, store) =>
    let world := { world with store }
    if incumbent.fingerprint ≠ p.fingerprintOf rawBody then
      (world, .refused rawBody p.keyReused)
    else match incumbent.status, incumbent.response with
      -- A replay answers status and body, without headers.
      | .done, some response =>
        (world, .replayed rawBody { status := response.status, body := response.body })
      | _, _ => (world, .refused rawBody keyInFlight)

/-- Where a rejected create goes: once back to the status, else to the release. -/
def afterRefusal (rawBody : String) (claimedAt : Timestamp) (again : Bool) (error : Thrown) :
    InboundAttempt J :=
  if isThreadStatusMismatch error && !again then .planning rawBody claimedAt true
  else .releasing rawBody claimedAt error

/-- The turn of `claim.record`. -/
def recordTurn (world : InboundWorld J) (rawBody : String) (claimedAt : Timestamp)
    (runId : RunId) (now : Timestamp) : InboundWorld J × InboundAttempt J :=
  let expiresAt := world.clock + p.retentionMs
  let store := world.store.idempotencyRecord p.scope p.key (p.claimId rawBody)
    { response := p.response runId
      runId := some runId
      threadId := some (p.resolveThread rawBody)
      expiresAt } now
  ({ world with store }, .acknowledged rawBody claimedAt runId expiresAt)

/-- The turn of `claim.release`. -/
def releaseTurn (world : InboundWorld J) (rawBody : String) (claimedAt : Timestamp)
    (error : Thrown) : InboundWorld J × InboundAttempt J :=
  let store := world.store.idempotencyRelease p.scope p.key (p.claimId rawBody)
  ({ world with store }, .released rawBody claimedAt error)

/-- The other store's records, and this store's at the two coordinates of the event. -/
def surroundings (world : InboundWorld J) : InboundSurroundings J → Option (InboundWorld J)
  | .elapse ms => some { world with clock := world.clock + ms }
  | .sweepExpired => some { world with store := world.store.idempotencySweepExpired world.clock }
  | .elsewhere store =>
    let outer := IdempotencyWorld.keeping world.store store (p.scope, p.key)
    some { world with
      store := { store with
        idempotency := IdempotencyWorld.keeping world.store { store with idempotency := outer }
          (p.admissionScope, p.key) } }

variable [WireJson J]

/-- The turn of `createRun`. It may reject before the admission, with what the admission
throws, or after the run is in the store. -/
def createTurn (world : InboundWorld J) (rawBody : String) (claimedAt : Timestamp)
    (again : Bool) (x : InboundInput J) : Option (InboundWorld J × InboundAttempt J) :=
  match x.admission with
  | none => x.rejected.map fun error => (world, afterRefusal rawBody claimedAt again error)
  | some (input, draws) =>
    let key := p.admission rawBody claimedAt
    match world.store.admitRun { input with toAdmissionKey := key } draws with
    | (.error error, store) =>
      some ({ world with store }, afterRefusal rawBody claimedAt again error)
    | (.ok receipt, store) =>
      let run : EventRun := ⟨rawBody, receipt.runId, world.clock, key.expiresAt⟩
      let created := if world.store.runs.contains receipt.runId then world.created
        else if store.runs.contains receipt.runId then run :: world.created else world.created
      let world := { world with store, created }
      match x.rejected with
      | some error => some (world, afterRefusal rawBody claimedAt again error)
      | none =>
        if store.runs.contains receipt.runId then
          some (world, .recording rawBody claimedAt receipt.runId)
        else
          some (world, afterRefusal rawBody claimedAt again
            (.http (.notFound "Accepted run was deleted.")))

/-- One turn of an attempt. -/
def resume (world : InboundWorld J) (i : ℕ) (attempt : InboundAttempt J) (x : InboundInput J) :
    Option (InboundWorld J × InboundAttempt J) :=
  match attempt, x.rejected with
  -- Nothing was claimed, so there is nothing to give back.
  | .claiming rawBody, none => some (p.claimTurn world i rawBody x.now)
  | .claiming _, some _ => none
  | .ensuring rawBody claimedAt, none => some (world, .planning rawBody claimedAt false)
  | .ensuring rawBody claimedAt, some error => some (world, .releasing rawBody claimedAt error)
  | .planning rawBody claimedAt again, none => some (world, .creating rawBody claimedAt again)
  | .planning rawBody claimedAt again, some error =>
    some (world, afterRefusal rawBody claimedAt again error)
  | .creating rawBody claimedAt again, _ => p.createTurn world rawBody claimedAt again x
  | .recording rawBody claimedAt runId, none =>
    some (p.recordTurn world rawBody claimedAt runId x.now)
  | .recording rawBody claimedAt _, some error => some (world, .abandoned rawBody claimedAt error)
  | .releasing rawBody claimedAt error, none => some (p.releaseTurn world rawBody claimedAt error)
  | .releasing rawBody claimedAt _, some error => some (world, .abandoned rawBody claimedAt error)
  | .acknowledged .., _ | .released .., _ | .abandoned .., _ | .replayed .., _ | .refused .., _ =>
    none

def start (world : InboundWorld J) : InboundAttempt J → Option (InboundWorld J)
  | .claiming _ => some world
  | _ => none

/-- Every interleaving of the deliveries under the event key with the rest of the server. -/
def program :
    Program (InboundWorld J) (InboundAttempt J) (InboundSurroundings J) (InboundInput J) where
  env := p.surroundings
  start := fun world _ attempt => start world attempt
  resume := p.resume

end InboundPipeline
end Skein
