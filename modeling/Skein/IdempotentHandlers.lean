import Skein.IdempotencyRepo
import Skein.ProcessPool

/-!
# Idempotent creates

The requests `createIdempotentHandlers` wraps, over the in-memory store. A request is a
process that suspends at its awaits: the claim, the inner handler, the look at the
operation's own admission after a failure, recording, releasing. Everything the inner
handlers and the rest of the server do is left to the environment, which may write what
it likes except the record of the scope and key at hand. Scope and fingerprint are
functions of the request alone and enter as strings; streaming creates reject the header
and never get here.
-/
namespace Skein

/-- `RECORDABLE_CREATES`. -/
inductive RecordableCreate
  | createWaitRun | createBackgroundRun | createStatelessRun | createRunBatch
  deriving DecidableEq, Repr

/-- What the wrapper reads of a request: its scope names method, path and principal. -/
structure KeyedRequest where
  name : RecordableCreate
  scope : String
  key : String
  fingerprint : String
  deriving DecidableEq, Repr

def KeyedRequest.coordinate (req : KeyedRequest) : String × String := (req.scope, req.key)

/-- `MAX_KEY_LENGTH` and `VALID_KEY`. -/
def validIdempotencyKey (key : String) : Bool :=
  key.length ≤ 255 && !key.isEmpty && key.toList.all fun c => 0x20 ≤ c.toNat && c.toNat ≤ 0x7E

/-- A JSON response of a handler is what gets recorded of it. -/
abbrev JsonResponse (J : Type*) := RecordedResponse (RecordedBody J)

inductive ProtocolResponse (J : Type*)
  | json (response : JsonResponse J)
  | sse
  deriving DecidableEq, Repr

/-- `IdempotencyOptions`, with the two readings of a response body it needs: the run a body
names, and the body a run row makes. -/
structure IdempotencyOptions (J : Type*) where
  retentionMs : ℕ := 24 * 3600000
  inFlightMs : ℕ := 15 * 60000
  admission : Bool := true
  runIdOf : RecordedBody J → Option RunId
  runBody : Run J → RecordedBody J

/-- `threadIdOf`: the thread named by `Content-Location`. -/
def threadIdOf {J : Type*} (response : JsonResponse J) : Option ThreadId :=
  let location := (response.headers.bind (List.lookup "content-location")).getD ""
  match location.splitOn "/" with
  | "" :: "threads" :: threadId :: "runs" :: _ :: _ =>
    if threadId = "" then none else some (.of threadId)
  | _ => none

/-- The headers of a replay: what was recorded, and the marker. -/
def replayHeaders (headers : Option (List (String × String))) : List (String × String) :=
  OrderedMap.setEntry "idempotent-replay" "true" (headers.getD [])

/-- What a replay answers. -/
def replayOf {J : Type*} (response : JsonResponse J) : JsonResponse J :=
  { response with headers := some (replayHeaders response.headers) }

/-- The claim a request executes under. -/
structure HeldClaim where
  claimId : String
  now : Timestamp
  expiresAt : Timestamp
  deriving DecidableEq, Repr

/-- Where a request stands, named by what it does when it resumes. `checking` to `rereading` are
the rescue of an admission whose handler threw. The last six are ends: a request is `superseded`
where its claim was no longer there to record under, `refused` where it never executed, and
`abandoned` where it may not see its own accepted run. -/
inductive IdempotentCall (J : Type*)
  | claiming (req : KeyedRequest)
  | replaying (req : KeyedRequest) (response : JsonResponse J)
  | executing (req : KeyedRequest) (claim : HeldClaim)
  | checking (req : KeyedRequest) (claim : HeldClaim) (error : Thrown)
  | reauthorizing (req : KeyedRequest) (claim : HeldClaim) (error : Thrown) (runId : RunId)
  | rereading (req : KeyedRequest) (claim : HeldClaim) (error : Thrown) (runId : RunId)
  | recording (req : KeyedRequest) (claim : HeldClaim) (response : JsonResponse J)
  | releasing (req : KeyedRequest) (claim : HeldClaim)
    (outcome : Except Thrown (ProtocolResponse J))
  | replayed (req : KeyedRequest) (response : JsonResponse J)
  | recorded (req : KeyedRequest) (claim : HeldClaim) (expiresAt : Timestamp)
    (response : JsonResponse J)
  | superseded (req : KeyedRequest) (claim : HeldClaim) (response : JsonResponse J)
  | released (req : KeyedRequest) (claim : HeldClaim)
    (outcome : Except Thrown (ProtocolResponse J))
  | refused (req : KeyedRequest) (error : Thrown)
  | abandoned (req : KeyedRequest) (claim : HeldClaim) (error : Thrown)

/-- What the environment decides in one turn: the wrapper's clock and the store's, a
generated claim token, how the handler ended, whether the caller is denied the replay,
and whether recording fails. -/
structure CallInput (J : Type*) where
  clock : Timestamp
  now : Timestamp
  claimId : String := ""
  handler : Except Thrown (ProtocolResponse J) := .ok .sse
  denied : Option Thrown := none
  recordFails : Bool := false

/-- A response recorded under the claim of the request that answered it. -/
structure Recording (J : Type*) where
  owner : ℕ
  claimId : String
  fingerprint : String
  response : JsonResponse J

/-- The store with the history of one scope and key: the latest clock reading a claim or a
sweep went by, who was granted which claim token, what was recorded, and the tokens whose
record was erased together with its thread or run. -/
structure IdempotencyWorld (J : Type*) where
  store : MemorySkeinStore J
  latest : Timestamp := 0
  owners : List (String × ℕ) := []
  recordings : List (Recording J) := []
  erased : List String := []

/-- What the rest of the server does to the store between two turns of a request; `elsewhere`
leaves the record of the scope and key at hand alone. -/
inductive IdempotencyEvent (J : Type*)
  | sweepExpired (now : Timestamp)
  | deleteByThread (threadId : ThreadId)
  | deleteByRun (runId : RunId)
  | elsewhere (store : MemorySkeinStore J)

namespace IdempotencyWorld
variable {J : Type*}

/-- The other store's records, and this store's at one coordinate. -/
def keeping (store other : MemorySkeinStore J) (coordinate : String × String) :
    Table (String × String) (IdempotencyRecord J) IdempotencyRecord.coordinate :=
  match store.idempotency.get? coordinate with
  | none => other.idempotency.erase coordinate
  | some record => other.idempotency.write record

/-- The token whose record a deletion takes away at one coordinate. -/
def erasing (store store' : MemorySkeinStore J) (coordinate : String × String) : List String :=
  match store.idempotency.get? coordinate with
  | none => []
  | some record => if store'.idempotency.contains coordinate then [] else [record.claimId]

def step (coordinate : String × String) (world : IdempotencyWorld J) :
    IdempotencyEvent J → Option (IdempotencyWorld J)
  | .sweepExpired now =>
    some { world with
      store := world.store.idempotencySweepExpired now
      latest := max world.latest now }
  | .deleteByThread threadId =>
    let store := world.store.idempotencyDeleteByThread threadId
    some { world with store, erased := erasing world.store store coordinate ++ world.erased }
  | .deleteByRun runId =>
    let store := world.store.idempotencyDeleteByRun runId
    some { world with store, erased := erasing world.store store coordinate ++ world.erased }
  | .elsewhere store =>
    some { world with
      store := { store with idempotency := keeping world.store store coordinate } }

end IdempotencyWorld

namespace IdempotentCall
variable {J : Type*}

def keyReused (key : String) : Thrown :=
  .http (.unprocessable ("Idempotency-Key \"" ++ key ++
    "\" was already used for a different request body.") (some "idempotency_key_reused"))

def keyInFlight (key : String) : Thrown :=
  .http (.conflict ("Idempotency-Key \"" ++ key ++ "\" is still in flight. Retry shortly.")
    (some "idempotency_key_in_flight"))

def invalidKey : Thrown :=
  .http (.unprocessable "Idempotency-Key must be at most 255 printable ASCII characters."
    (some "invalid_idempotency_key"))

/-- A request for the key may arrive at any time; an empty header is no key. -/
def start (coordinate : String × String) (world : IdempotencyWorld J) :
    IdempotentCall J → Option (IdempotencyWorld J)
  | .claiming req => if req.coordinate = coordinate ∧ req.key ≠ "" then some world else none
  | _ => none

/-- The turn that claims the key. -/
def claimTurn (options : IdempotencyOptions J) (world : IdempotencyWorld J) (i : ℕ)
    (req : KeyedRequest) (x : CallInput J) : Option (IdempotencyWorld J × IdempotentCall J) :=
  if validIdempotencyKey req.key = false then some (world, .refused req invalidKey)
  else if x.claimId ∈ world.owners.map Prod.fst then none
  else
    let claim : HeldClaim := ⟨x.claimId, x.clock, x.clock + options.inFlightMs⟩
    let latest := max world.latest x.clock
    match world.store.idempotencyClaim
        ⟨req.key, req.scope, req.fingerprint, x.claimId, x.clock, claim.expiresAt⟩ x.now with
    | (⟨true, _⟩, store) =>
      some ({ world with store, latest, owners := (x.claimId, i) :: world.owners },
        .executing req claim)
    | (⟨false, record⟩, store) =>
      let world := { world with store, latest }
      if record.fingerprint ≠ req.fingerprint then some (world, .refused req (keyReused req.key))
      else match record.status, record.response with
        | .done, some response => some (world, .replaying req response)
        | _, _ => some (world, .refused req (keyInFlight req.key))

/-- Where a request goes once its response is decided. -/
def respond (req : KeyedRequest) (claim : HeldClaim) :
    ProtocolResponse J → IdempotentCall J
  | .sse => .releasing req claim (.ok .sse)
  | .json response =>
    if 300 ≤ response.status then .releasing req claim (.ok (.json response))
    else .recording req claim response

/-- The turn that records a response; a rejected write frees the key instead. -/
def recordTurn (options : IdempotencyOptions J) (world : IdempotencyWorld J) (i : ℕ)
    (req : KeyedRequest) (claim : HeldClaim) (response : JsonResponse J) (x : CallInput J) :
    IdempotencyWorld J × IdempotentCall J :=
  if x.recordFails then (world, .releasing req claim (.ok (.json response)))
  else
    let expiresAt := x.clock + options.retentionMs
    let store := world.store.idempotencyRecord req.scope req.key claim.claimId
      { response, expiresAt, runId := options.runIdOf response.body
        threadId := threadIdOf response } x.now
    if (world.store.idempotency.get? req.coordinate).any (·.claimId = claim.claimId) then
      ({ world with
          store
          recordings := ⟨i, claim.claimId, req.fingerprint, response⟩ :: world.recordings },
        .recorded req claim expiresAt response)
    else ({ world with store }, .superseded req claim response)

/-- One turn of a request. -/
def resume (options : IdempotencyOptions J) (world : IdempotencyWorld J) (i : ℕ)
    (p : IdempotentCall J) (x : CallInput J) : Option (IdempotencyWorld J × IdempotentCall J) :=
  match p with
  | .claiming req => claimTurn options world i req x
  | .replaying req response =>
    match x.denied with
    | some error => some (world, .refused req error)
    | none => some (world, .replayed req (replayOf response))
  | .executing req claim =>
    match x.handler with
    | .ok response => some (world, respond req claim response)
    | .error error =>
      if req.name = .createBackgroundRun ∧ options.admission then
        some (world, .checking req claim error)
      else some (world, .releasing req claim (.error error))
  | .checking req claim error =>
    match (world.store.idempotencyGet ("admission " ++ req.scope) req.key).bind
        IdempotencyRecord.runId with
    | none => some (world, .releasing req claim (.error error))
    | some runId => some (world, .reauthorizing req claim error runId)
  | .reauthorizing req claim error runId =>
    match x.denied with
    | some denied => some (world, .abandoned req claim denied)
    | none => some (world, .rereading req claim error runId)
  | .rereading req claim error runId =>
    match world.store.runsGet runId with
    | none => some (world, .releasing req claim (.error error))
    | some run =>
      some (world, respond req claim (.json {
        status := 200
        body := options.runBody run
        headers := some [("content-location",
          "/threads/" ++ run.threadId.value ++ "/runs/" ++ run.runId.value)] }))
  | .recording req claim response => some (recordTurn options world i req claim response x)
  | .releasing req claim outcome =>
    some ({ world with
      store := world.store.idempotencyRelease req.scope req.key claim.claimId },
      .released req claim outcome)
  | .replayed .. | .recorded .. | .superseded .. | .released .. | .refused .. | .abandoned .. =>
    none

/-- Every interleaving of the requests for one scope and key with the rest of the server. -/
def program (options : IdempotencyOptions J) (coordinate : String × String) :
    Program (IdempotencyWorld J) (IdempotentCall J) (IdempotencyEvent J) (CallInput J) where
  env := IdempotencyWorld.step coordinate
  start := fun world _ p => start coordinate world p
  resume := resume options

end IdempotentCall
end Skein
