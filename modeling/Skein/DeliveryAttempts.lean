import Skein.DeliveryRepo
import Skein.ProcessPool

/-!
# Delivery attempts

`attemptDelivery` and `processDelivery`, each a sequence of turns between its awaits,
run by any number of polling workers, inline engine attempts and queue consumers over
one outbox. A turn starts a POST, records at most one outcome, and says where its
function suspends next. Outcomes, clocks, jitter and URL parsing are inputs.
-/
namespace Skein

structure ParsedUrl where
  protocol : String
  host : String
  hostname : String
  pathname : String

/-- What both attempt paths are configured with. `parseUrl` is `new URL`. -/
structure DeliveryDeps where
  parseUrl : String → Option ParsedUrl
  allowedHosts : List String := []
  requireHttps : Bool := false
  maxAttempts : ℕ := 12
  /-- The inline attempt hands its retries to a queue. -/
  deliveryQueue : Bool := false

namespace DeliveryDeps
variable (deps : DeliveryDeps)

def isServerDerivedTarget (url : String) : Bool :=
  url.startsWith "skein+channel://" || url.startsWith "skein-bullmq://"

def redactWebhookUrl (url : String) : String :=
  match deps.parseUrl url with
  | none => "<unparseable url>"
  | some parsed =>
    if parsed.pathname = "/" then parsed.protocol ++ "//" ++ parsed.host
    else parsed.protocol ++ "//" ++ parsed.host ++ "/…"

def notAbsolute (url : String) : String :=
  "webhook URL " ++ deps.redactWebhookUrl url ++ " is not a valid absolute URL"

def disallowedHost (url : String) : Option String :=
  if deps.allowedHosts = [] ∨ isServerDerivedTarget url then none
  else match deps.parseUrl url with
  | none => some (deps.notAbsolute url)
  | some parsed =>
    if parsed.hostname ∈ deps.allowedHosts then none
    else some ("webhook host \"" ++ parsed.hostname ++ "\" is not in skein.webhooks.allowed_hosts")

def insecureTransport (url : String) : Option String :=
  if deps.requireHttps = false ∨ isServerDerivedTarget url then none
  else match deps.parseUrl url with
  | none => some (deps.notAbsolute url)
  | some parsed =>
    if parsed.protocol = "https:" then none
    else some ("webhook URL uses " ++ parsed.protocol ++ " and skein.webhooks.require_https is set")

/-- Why a callback may not be sent at all. -/
def disallowed (url : String) : Option String :=
  (deps.disallowedHost url).orElse fun _ => deps.insecureTransport url

def isFinalAttempt (attempt : ℕ) : Bool := deps.maxAttempts ≤ attempt

end DeliveryDeps

/-- `QUEUE_SWEEP_MARGIN_MS`. -/
def queueSweepMargin : ℕ := 60000

/-- What the environment decides during one turn: the clocks, the jittered delay of
`nextAttemptDelayMs`, and how the awaited call ended (`none` where it resolved). -/
structure DeliveryInput where
  now : Timestamp
  clock : Timestamp
  delayMs : ℕ := 0
  failure : Option String := none
  deriving DecidableEq, Repr

/-- Where an attempting function stands. `queue` is the rest of a claimed batch and
`handOff` says whether a failure goes to the delivery queue. -/
inductive DeliveryProcess (J : Type*)
  /-- A polling tick before `claimDue`. -/
  | worker (query : DueDeliveriesQuery)
  /-- The engine before `finalizeWithDelivery`. -/
  | inline (runId : RunId) (runStatus : RunStatus) (create : DeliveryCreate J) (uuid : DeliveryId)
  /-- A queue job before `processDelivery`. -/
  | consumer (deliveryId : DeliveryId) (isFinalAttempt : Bool)
  /-- Between two calls of `attemptDelivery`. -/
  | claimed (queue : List (Delivery J)) (handOff : Bool)
  /-- `attemptDelivery` awaits the dispatcher. -/
  | posting (delivery : Delivery J) (queue : List (Delivery J)) (handOff : Bool)
  /-- `attemptDelivery` awaits `deliveryQueue.schedule`. -/
  | scheduling (delivery : Delivery J) (error : String) (queue : List (Delivery J))
    (handOff : Bool)
  /-- `processDelivery` awaits `deliveries.get`. -/
  | fetched (row : Option (Delivery J)) (isFinalAttempt : Bool)
  /-- `processDelivery` awaits the dispatcher. -/
  | processing (delivery : Delivery J) (isFinalAttempt : Bool)
  | done

/-- One turn of an attempt: a POST it starts, an outcome it records, where it suspends. -/
structure DeliveryTurn (J : Type*) where
  post : Option (Delivery J) := none
  outcome : Option (DeliveryId × DeliveryAttemptResult) := none
  next : DeliveryProcess J

section Turns
variable {J : Type*} (deps : DeliveryDeps)

/-- `attemptDelivery` up to its POST. -/
def startAttempt (delivery : Delivery J) (queue : List (Delivery J)) (handOff : Bool) :
    DeliveryTurn J :=
  match deps.disallowed delivery.url with
  | some reason => {
      outcome := some (delivery.deliveryId, .dead reason)
      next := .claimed queue handOff }
  | none => { post := some delivery, next := .posting delivery queue handOff }

/-- `failureResult`. -/
def failureResult (delivery : Delivery J) (error : String) (handOff : Bool) (x : DeliveryInput) :
    DeliveryAttemptResult :=
  if deps.isFinalAttempt delivery.attempt then .dead error
  else
    let dueIn := if handOff then x.delayMs + queueSweepMargin else x.delayMs
    .retrying (x.clock + dueIn) error

/-- `attemptDelivery` from its POST to its record. -/
def finishAttempt (delivery : Delivery J) (queue : List (Delivery J)) (handOff : Bool)
    (x : DeliveryInput) : DeliveryTurn J :=
  match x.failure with
  | none => {
      outcome := some (delivery.deliveryId, .delivered)
      next := .claimed queue handOff }
  | some error => {
      outcome := some (delivery.deliveryId, failureResult deps delivery error handOff x)
      next :=
        if handOff && !deps.isFinalAttempt delivery.attempt then
          .scheduling delivery error queue handOff
        else .claimed queue handOff }

/-- The end of the hand-off: a refused job is put back on the polling schedule. -/
def finishHandOff (delivery : Delivery J) (error : String) (queue : List (Delivery J))
    (handOff : Bool) (x : DeliveryInput) : DeliveryTurn J := {
  outcome := x.failure.map fun _ =>
    (delivery.deliveryId, .retrying (x.clock + x.delayMs) error)
  next := .claimed queue handOff }

/-- `processDelivery` from its read to its POST. -/
def startProcessing (row : Option (Delivery J)) (isFinalAttempt : Bool) : DeliveryTurn J :=
  match row with
  | none => { next := .done }
  | some delivery =>
    if delivery.status = .delivered ∨ delivery.status = .dead then { next := .done }
    else match deps.disallowed delivery.url with
    | some reason => { outcome := some (delivery.deliveryId, .dead reason), next := .done }
    | none => { post := some delivery, next := .processing delivery isFinalAttempt }

/-- `processDelivery` from its POST to its record. -/
def finishProcessing (delivery : Delivery J) (isFinalAttempt : Bool) (x : DeliveryInput) :
    DeliveryTurn J :=
  let attempt := delivery.attempt + 1
  { outcome := some (delivery.deliveryId, match x.failure with
      | none => .delivered (some attempt)
      | some error =>
        if isFinalAttempt then .dead error (some attempt)
        else .retrying (x.clock + x.delayMs + queueSweepMargin) error (some attempt))
    next := .done }

/-- The turn of an attempt that is under way. -/
def DeliveryProcess.turn (x : DeliveryInput) : DeliveryProcess J → Option (DeliveryTurn J)
  | .claimed (delivery :: queue) handOff => some (startAttempt deps delivery queue handOff)
  | .posting delivery queue handOff => some (finishAttempt deps delivery queue handOff x)
  | .scheduling delivery error queue handOff => some (finishHandOff delivery error queue handOff x)
  | .fetched row isFinalAttempt => some (startProcessing deps row isFinalAttempt)
  | .processing delivery isFinalAttempt => some (finishProcessing delivery isFinalAttempt x)
  | _ => none

end Turns

/-- The store, the identifiers generated so far, and every snapshot that was POSTed. -/
structure Outbox (J : Type*) where
  store : MemorySkeinStore J
  issued : List DeliveryId
  sent : List (Delivery J) := []

/-- What happens to the outbox besides the attempts. -/
inductive OutboxEvent (J : Type*)
  /-- `runs.settle` records a callback for later. -/
  | enqueue (runId : RunId) (runStatus : RunStatus) (create : DeliveryCreate J) (uuid : DeliveryId)
    (now : Timestamp)
  | retryNow (deliveryId : DeliveryId) (nextAttemptAt now : Timestamp)
  | sweepExpired (now : Timestamp)

namespace Outbox
variable {J : Type*} (deps : DeliveryDeps)

/-- Insert a callback under an identifier never used before. Its body is always there:
the engine renders it before it records the delivery. -/
def insert (o : Outbox J) (runId : RunId) (runStatus : RunStatus) (create : DeliveryCreate J)
    (claimed : Bool) (uuid : DeliveryId) (now : Timestamp) : Option (Delivery J × Outbox J) :=
  let id := create.deliveryId.getD uuid
  if id ∈ o.issued ∨ create.payload = none then none
  else
    let inserted := o.store.insertDelivery runId runStatus create claimed uuid now
    some (inserted.1, { o with store := inserted.2, issued := id :: o.issued })

def env (o : Outbox J) : OutboxEvent J → Option (Outbox J)
  | .enqueue runId runStatus create uuid now =>
    (o.insert runId runStatus create false uuid now).map Prod.snd
  | .retryNow deliveryId nextAttemptAt now =>
    some { o with store := (o.store.deliveriesRetryNow deliveryId nextAttemptAt now).2 }
  | .sweepExpired now => some { o with store := o.store.deliveriesSweepExpired now }

/-- Carry out what a turn does to the outbox. -/
def perform (o : Outbox J) (turn : DeliveryTurn J) (now : Timestamp) : Outbox J := {
  o with
  store := turn.outcome.elim o.store fun outcome =>
    (o.store.deliveriesRecordAttempt outcome.1 outcome.2 now).2
  sent := o.sent ++ turn.post.toList }

/-- The next turn of an attempt that is under way. -/
def takeTurn (o : Outbox J) (p : DeliveryProcess J) (x : DeliveryInput) :
    Option (Outbox J × DeliveryProcess J) :=
  (p.turn deps x).map fun turn => (o.perform turn x.now, turn.next)

def resume (o : Outbox J) (p : DeliveryProcess J) (x : DeliveryInput) :
    Option (Outbox J × DeliveryProcess J) :=
  match p with
  | .worker query =>
    let claim := o.store.deliveriesClaimDue query x.now
    some ({ o with store := claim.2 }, .claimed claim.1 false)
  | .inline runId runStatus create uuid =>
    (o.insert runId runStatus create true uuid x.now).map fun inserted =>
      (inserted.2, .claimed [inserted.1] deps.deliveryQueue)
  | .consumer deliveryId isFinalAttempt =>
    some (o, .fetched (o.store.deliveries.get? deliveryId) isFinalAttempt)
  | p => o.takeTurn deps p x

/-- Anything may start at any time, at its first statement. -/
def start (o : Outbox J) : DeliveryProcess J → Option (Outbox J)
  | .worker _ | .inline .. | .consumer .. => some o
  | _ => none

/-- Every interleaving of workers, inline attempts, queue consumers, replays and sweeps. -/
def program : Program (Outbox J) (DeliveryProcess J) (OutboxEvent J) DeliveryInput where
  env := env
  start := fun o _ p => o.start p
  resume := fun o _ p x => o.resume deps p x

/-- Every row still to be sent has its payload, and so had every snapshot POSTed. -/
def PayloadsKept (o : Outbox J) : Prop :=
  (∀ k d, o.store.deliveries.get? k = some d → d.isLive = true → d.payload.isSome = true) ∧
    ∀ d ∈ o.sent, d.payload.isSome = true

/-- What was delivered in `o` is not to be sent again in `o'`. -/
def DeliveredStays (o o' : Outbox J) : Prop :=
  ∀ k d, o.store.deliveries.get? k = some d → d.status = .delivered →
    ∀ d', o'.store.deliveries.get? k = some d' → d'.isLive = false

/-- Along a run, payloads are kept in every state and deliveries stay delivered from
every state on. -/
def StaysDelivered (w : Pool (Outbox J) (DeliveryProcess J))
    (as : List (Action (OutboxEvent J) (DeliveryProcess J) DeliveryInput)) : Prop :=
  ∀ before after u v, before ++ after <+: as → (program deps).machine.run w before = some u →
    (program deps).machine.run u after = some v →
    v.shared.PayloadsKept ∧ DeliveredStays u.shared v.shared

/-- The outcome the next turn of process `i` records. -/
def nextOutcome (w : Pool (Outbox J) (DeliveryProcess J)) (i : ℕ) (x : DeliveryInput) :
    Option (DeliveryId × DeliveryAttemptResult) :=
  ((w.procs[i]?).bind fun p => p.turn deps x).bind DeliveryTurn.outcome

/-- The outcome is not a retry of a row whose payload was cleared. -/
def Resendable (o : Outbox J) : Option (DeliveryId × DeliveryAttemptResult) → Prop
  | some (id, .retrying ..) => (o.store.deliveries.get? id).all (·.payload.isSome) = true
  | _ => True

instance (o : Outbox J) : ∀ outcome, Decidable (o.Resendable outcome)
  | some (id, .retrying ..) =>
    inferInstanceAs (Decidable ((o.store.deliveries.get? id).all (·.payload.isSome) = true))
  | some (_, .delivered _) => isTrue trivial
  | some (_, .dead ..) => isTrue trivial
  | none => isTrue trivial

/-- No failure that is due again is recorded on a row whose payload a peer's success
has cleared. -/
def RetriesInTime (w : Pool (Outbox J) (DeliveryProcess J)) :
    Action (OutboxEvent J) (DeliveryProcess J) DeliveryInput → Prop
  | .resume i x => w.shared.Resendable (nextOutcome deps w i x)
  | _ => True

instance (w : Pool (Outbox J) (DeliveryProcess J)) : ∀ a, Decidable (RetriesInTime deps w a)
  | .resume i x => inferInstanceAs (Decidable (w.shared.Resendable (nextOutcome deps w i x)))
  | .env _ => isTrue trivial
  | .spawn _ => isTrue trivial

variable {deps}

/-- Every row moved, or was just inserted under a new identifier. -/
structure Evolves (o o' : Outbox J) : Prop where
  rows : ∀ k d', o'.store.deliveries.get? k = some d' →
    (∃ d, o.store.deliveries.get? k = some d ∧ d.Moves d') ∨
      (k ∉ o.issued ∧ k ∈ o'.issued ∧ d'.WellFormed)
  issued : ∀ k, k ∈ o.issued → k ∈ o'.issued

theorem Evolves.of_moves {o o' : Outbox J} (h : o.store.DeliveriesMove o'.store)
    (hissued : o'.issued = o.issued) : Evolves o o' :=
  ⟨fun k d' hd' => .inl (h k d' hd'), fun _ hk => hissued ▸ hk⟩

theorem insert_evolves {o : Outbox J} {runId : RunId} {runStatus : RunStatus}
    {create : DeliveryCreate J} {claimed : Bool} {uuid : DeliveryId} {now : Timestamp}
    {inserted : Delivery J × Outbox J}
    (h : o.insert runId runStatus create claimed uuid now = some inserted) :
    Evolves o inserted.2 ∧ inserted.2.sent = o.sent ∧ inserted.1.payload.isSome = true := by
  unfold insert at h
  dsimp only at h
  split_ifs at h with hguard
  obtain ⟨hnew, hpayload⟩ := not_or.mp hguard
  have hsome : create.payload.isSome = true := by
    rwa [Option.isSome_iff_ne_none]
  cases h
  refine ⟨⟨fun k d' hd' => ?_, fun k hk => List.mem_cons_of_mem _ hk⟩, rfl, hsome⟩
  rw [MemorySkeinStore.insertDelivery_get?] at hd'
  split_ifs at hd' with hk
  · right
    cases hd'
    subst hk
    refine ⟨hnew, List.mem_cons_self, fun _ => hsome, fun hstatus => ?_⟩
    cases claimed <;> cases hstatus
  · exact .inl ⟨d', hd', .keep d'⟩

theorem env_evolves {o o' : Outbox J} {e : OutboxEvent J} (h : o.env e = some o') :
    Evolves o o' ∧ o'.sent = o.sent := by
  cases e with
  | enqueue runId runStatus create uuid now =>
    obtain ⟨inserted, hinserted, rfl⟩ := Option.map_eq_some_iff.mp h
    obtain ⟨hevolves, hsent, -⟩ := insert_evolves hinserted
    exact ⟨hevolves, hsent⟩
  | retryNow deliveryId nextAttemptAt now =>
    cases h
    exact ⟨.of_moves (o.store.deliveriesRetryNow_moves deliveryId nextAttemptAt now) rfl, rfl⟩
  | sweepExpired now =>
    cases h
    exact ⟨.of_moves (o.store.deliveriesSweepExpired_moves now) rfl, rfl⟩

theorem perform_evolves {o : Outbox J} {turn : DeliveryTurn J} (now : Timestamp)
    (h : o.Resendable turn.outcome) : Evolves o (o.perform turn now) := by
  refine .of_moves ?_ rfl
  unfold perform
  cases houtcome : turn.outcome with
  | none => exact .refl _
  | some outcome =>
    rcases outcome with ⟨id, result⟩
    refine MemorySkeinStore.deliveriesRecordAttempt_moves now ?_
    rintro nextAttemptAt error attempt rfl d hd
    rw [houtcome] at h
    simpa [Resendable, hd] using h

/-- Rows are well formed and under issued identifiers; what was sent had its payload. -/
structure Inv (o : Outbox J) : Prop where
  rows : ∀ k d, o.store.deliveries.get? k = some d → d.WellFormed
  issued : ∀ k d, o.store.deliveries.get? k = some d → k ∈ o.issued
  sent : ∀ d ∈ o.sent, d.payload.isSome = true

theorem Inv.payloadsKept {o : Outbox J} (h : o.Inv) : o.PayloadsKept :=
  ⟨fun k d hd hlive => (h.rows k d hd).live hlive, h.sent⟩

theorem Inv.evolves {o o' : Outbox J} (h : o.Inv) (he : Evolves o o')
    (hsent : ∀ d ∈ o'.sent, d ∈ o.sent ∨ d.payload.isSome = true) : o'.Inv where
  rows := by
    intro k d' hd'
    rcases he.rows k d' hd' with ⟨d, hd, hmove⟩ | ⟨-, -, hwell⟩
    · exact hmove.wellFormed (h.rows k d hd)
    · exact hwell
  issued := by
    intro k d' hd'
    rcases he.rows k d' hd' with ⟨d, hd, -⟩ | ⟨-, hissued, -⟩
    · exact he.issued k (h.issued k d hd)
    · exact hissued
  sent := by
    intro d hd
    rcases hsent d hd with hold | hnew
    · exact h.sent d hold
    · exact hnew

/-- The identifier is used up and its row, if any, has no payload. -/
def Cleared (o : Outbox J) (k : DeliveryId) : Prop :=
  k ∈ o.issued ∧ ∀ d, o.store.deliveries.get? k = some d → d.payload = none

theorem Evolves.cleared {o o' : Outbox J} (he : Evolves o o') {k : DeliveryId}
    (h : o.Cleared k) : o'.Cleared k := by
  refine ⟨he.issued k h.1, fun d' hd' => ?_⟩
  rcases he.rows k d' hd' with ⟨d, hd, hmove⟩ | ⟨hnew, -⟩
  · exact hmove.payload_none (h.2 d hd)
  · exact absurd h.1 hnew

/-- The snapshots a process may still POST have their payload. -/
def Holding : DeliveryProcess J → Prop
  | .claimed queue _ | .posting _ queue _ | .scheduling _ _ queue _ =>
    ∀ d ∈ queue, d.payload.isSome = true
  | .fetched (some d) _ => d.isLive = true → d.payload.isSome = true
  | _ => True

theorem not_settled_iff {d : Delivery J} :
    ¬(d.status = .delivered ∨ d.status = .dead) ↔ d.isLive = true := by
  rcases d with ⟨_, _, _, _, _, _, _, status⟩
  cases status <;> simp [Delivery.isLive]

/-- A turn POSTs a snapshot its process held, and holds what is left. -/
theorem turn_holding {p : DeliveryProcess J} {x : DeliveryInput} {turn : DeliveryTurn J}
    (h : p.turn deps x = some turn) (hp : Holding p) :
    Holding turn.next ∧ ∀ d, turn.post = some d → d.payload.isSome = true := by
  cases p with
  | worker query => cases h
  | inline runId runStatus create uuid => cases h
  | consumer deliveryId isFinalAttempt => cases h
  | done => cases h
  | claimed queue handOff =>
    cases queue with
    | nil => cases h
    | cons delivery queue =>
      cases h
      obtain ⟨hfirst, hrest⟩ := List.forall_mem_cons.mp hp
      unfold startAttempt
      split
      · exact ⟨hrest, by simp⟩
      · exact ⟨hrest, by simpa using hfirst⟩
  | posting delivery queue handOff =>
    cases h
    unfold finishAttempt
    split
    · exact ⟨hp, by simp⟩
    · dsimp only
      split <;> exact ⟨hp, by simp⟩
  | scheduling delivery error queue handOff =>
    cases h
    exact ⟨hp, by simp [finishHandOff]⟩
  | fetched row isFinalAttempt =>
    cases h
    unfold startProcessing
    split
    · exact ⟨trivial, by simp⟩
    next delivery =>
      split_ifs with hsettled
      · exact ⟨trivial, by simp⟩
      · have hlive := hp (not_settled_iff.mp hsettled)
        split
        · exact ⟨trivial, by simp⟩
        · exact ⟨trivial, by simpa using hlive⟩
  | processing delivery isFinalAttempt =>
    cases h
    exact ⟨trivial, by simp [finishProcessing]⟩

theorem takeTurn_cases {o o' : Outbox J} {p p' : DeliveryProcess J} {x : DeliveryInput}
    (h : o.takeTurn deps p x = some (o', p')) :
    ∃ turn, p.turn deps x = some turn ∧ o' = o.perform turn x.now ∧ p' = turn.next := by
  obtain ⟨turn, hturn, hdone⟩ := Option.map_eq_some_iff.mp h
  cases hdone
  exact ⟨turn, hturn, rfl, rfl⟩

/-- A process claims, inserts or reads before its attempt, and takes turns in it. -/
theorem resume_cases {o o' : Outbox J} {p p' : DeliveryProcess J} {x : DeliveryInput}
    (h : o.resume deps p x = some (o', p')) :
    (p.turn deps x = none ∧ Evolves o o' ∧ o'.sent = o.sent ∧ (o.Inv → Holding p')) ∨
    (∃ turn, p.turn deps x = some turn ∧ o' = o.perform turn x.now ∧ p' = turn.next) := by
  cases p with
  | worker query =>
    cases h
    refine .inl ⟨rfl, .of_moves (o.store.deliveriesClaimDue_moves query x.now) rfl, rfl, ?_⟩
    intro hinv d hd
    obtain ⟨row, hrow, hlive, rfl⟩ := MemorySkeinStore.mem_deliveriesClaimDue hd
    exact (hinv.rows _ row hrow).live hlive
  | inline runId runStatus create uuid =>
    obtain ⟨inserted, hinserted, hdone⟩ := Option.map_eq_some_iff.mp h
    cases hdone
    obtain ⟨hevolves, hsent, hpayload⟩ := insert_evolves hinserted
    exact .inl ⟨rfl, hevolves, hsent, fun _ => by simpa [Holding] using hpayload⟩
  | consumer deliveryId isFinalAttempt =>
    cases h
    refine .inl ⟨rfl, .of_moves (.refl _) rfl, rfl, fun hinv => ?_⟩
    cases hrow : o.store.deliveries.get? deliveryId with
    | none => trivial
    | some row => exact (hinv.rows _ row hrow).live
  | claimed queue handOff => exact .inr (takeTurn_cases h)
  | posting delivery queue handOff => exact .inr (takeTurn_cases h)
  | scheduling delivery error queue handOff => exact .inr (takeTurn_cases h)
  | fetched row isFinalAttempt => exact .inr (takeTurn_cases h)
  | processing delivery isFinalAttempt => exact .inr (takeTurn_cases h)
  | done => cases h

/-- A step in time evolves the outbox and keeps what processes hold. -/
theorem resume_inTime {w : Pool (Outbox J) (DeliveryProcess J)} {i : ℕ} {x : DeliveryInput}
    {p p' : DeliveryProcess J} {o' : Outbox J} (hinv : w.shared.Inv) (hp : Holding p)
    (htime : RetriesInTime deps w (.resume i x)) (hi : w.procs[i]? = some p)
    (h : w.shared.resume deps p x = some (o', p')) :
    Evolves w.shared o' ∧ o'.Inv ∧ Holding p' := by
  rcases resume_cases h with ⟨-, hevolves, hsent, hholding⟩ | ⟨turn, hturn, rfl, rfl⟩
  · exact ⟨hevolves, hinv.evolves hevolves fun d hd => .inl (hsent ▸ hd), hholding hinv⟩
  · have hresend : w.shared.Resendable turn.outcome := by
      simpa [RetriesInTime, nextOutcome, hi, hturn] using htime
    obtain ⟨hnext, hpost⟩ := turn_holding hturn hp
    have hevolves := perform_evolves x.now hresend
    refine ⟨hevolves, hinv.evolves hevolves fun d hd => ?_, hnext⟩
    rcases List.mem_append.mp hd with hold | hnew
    · exact .inl hold
    · exact .inr (hpost d (Option.mem_toList.mp hnew))

theorem interferenceFree :
    InterferenceFree (program (J := J) deps) Inv (fun _ _ p => Holding p) (RetriesInTime deps) where
  env := by
    intro w e o' hw _ h
    obtain ⟨hevolves, hsent⟩ := env_evolves h
    exact ⟨hw.1.evolves hevolves fun d hd => .inl (hsent ▸ hd), hw.2⟩
  start := by
    intro w p o' hw _ h
    cases p <;> cases h <;> exact ⟨hw.1, trivial, hw.2⟩
  resume := by
    intro w i x p o' p' hw htime hi h
    obtain ⟨-, hinv, hp'⟩ := resume_inTime hw.1 (hw.2 i p hi) htime hi h
    exact ⟨hinv, hp', fun j q _ hq => hw.2 j q hq⟩

theorem step_cleared {w w' : Pool (Outbox J) (DeliveryProcess J)}
    {a : Action (OutboxEvent J) (DeliveryProcess J) DeliveryInput}
    (hw : w.Holds Inv fun _ _ p => Holding p) (htime : RetriesInTime deps w a)
    (h : (program deps).step w a = some w') {k : DeliveryId} (hk : w.shared.Cleared k) :
    w'.shared.Cleared k := by
  rcases (program deps).step_cases h with ⟨e, o', rfl, ho', rfl⟩ | ⟨p, o', rfl, ho', rfl⟩ |
    ⟨i, x, p, o', p', rfl, hi, ho', rfl⟩
  · exact (env_evolves ho').1.cleared hk
  · cases p <;> cases ho' <;> exact hk
  · exact (resume_inTime hw.1 (hw.2 i p hi) htime hi ho').1.cleared hk

/-- An outbox before any attempt: well-formed rows under issued identifiers. -/
structure Initial (w : Pool (Outbox J) (DeliveryProcess J)) : Prop where
  rows : ∀ k d, w.shared.store.deliveries.get? k = some d → d.WellFormed ∧ k ∈ w.shared.issued
  sent : w.shared.sent = []
  procs : w.procs = []

theorem Initial.holds {w : Pool (Outbox J) (DeliveryProcess J)} (h : Initial w) :
    w.Holds Inv fun _ _ p => Holding p :=
  ⟨⟨fun k d hd => (h.rows k d hd).1, fun k d hd => (h.rows k d hd).2, by simp [h.sent]⟩,
    by simp [h.procs]⟩

/-- A retry recorded too late leaves a row that is due again without its payload. -/
theorem late_retry {w w' : Pool (Outbox J) (DeliveryProcess J)}
    {a : Action (OutboxEvent J) (DeliveryProcess J) DeliveryInput}
    (hlate : ¬ RetriesInTime deps w a) (h : (program deps).step w a = some w') :
    ¬ w'.shared.PayloadsKept := by
  rcases (program deps).step_cases h with ⟨e, o', rfl, ho', rfl⟩ | ⟨p, o', rfl, ho', rfl⟩ |
    ⟨i, x, p, o', p', rfl, hi, ho', rfl⟩
  · exact absurd trivial hlate
  · exact absurd trivial hlate
  · rintro ⟨hkept, -⟩
    rcases resume_cases ho' with ⟨hnone, -⟩ | ⟨turn, hturn, rfl, rfl⟩
    · exact hlate (by simp [RetriesInTime, nextOutcome, hi, hnone, Resendable])
    · have hnext : nextOutcome deps w i x = turn.outcome := by simp [nextOutcome, hi, hturn]
      rw [RetriesInTime, hnext] at hlate
      cases houtcome : turn.outcome with
      | none => exact hlate (by simp [houtcome, Resendable])
      | some outcome =>
        rcases outcome with ⟨id, _ | ⟨nextAttemptAt, error, attempt⟩ | _⟩
        · exact hlate (by simp [houtcome, Resendable])
        · cases hrow : w.shared.store.deliveries.get? id with
          | none => exact hlate (by simp [houtcome, Resendable, hrow])
          | some d =>
            have hcleared : d.payload = none := by
              simpa [houtcome, Resendable, hrow] using hlate
            have hid : d.deliveryId = id := Table.key_of_get? hrow
            have hwrite : (w.shared.perform turn x.now).store.deliveries.get? id =
                some (d.attempted (.retrying nextAttemptAt error attempt) x.now) := by
              simp only [perform, houtcome, Option.elim,
                MemorySkeinStore.deliveriesRecordAttempt, hrow]
              rw [Table.get?_write, Delivery.attempted_deliveryId, if_pos hid]
            have := hkept id _ hwrite (by simp [Delivery.attempted, Delivery.isLive])
            simp [Delivery.attempted, hcleared] at this
        · exact hlate (by simp [houtcome, Resendable])

/-- Deliveries stay delivered and keep their payloads exactly in the runs that record no
retry after the payload was cleared. -/
theorem staysDelivered_iff {w w' : Pool (Outbox J) (DeliveryProcess J)}
    {as : List (Action (OutboxEvent J) (DeliveryProcess J) DeliveryInput)} (hw : Initial w)
    (hrun : (program deps).machine.run w as = some w') :
    StaysDelivered deps w as ↔ (program deps).machine.Along (RetriesInTime deps) w as := by
  constructor
  · intro hstays
    refine Machine.along_of_steps hrun fun before a u v hprefix hu hv => ?_
    by_contra hlate
    have hone : (program deps).machine.run u [a] = some v := by
      simpa [Machine.run] using hv
    exact late_retry hlate hv (hstays before [a] u v hprefix hu hone).1
  · intro htime before after u v hprefix hu hv
    obtain ⟨rest, rfl⟩ := hprefix
    have huv := (program deps).machine.run_append_of_run hu hv
    obtain ⟨hboth, -⟩ := Machine.along_append htime huv
    obtain ⟨hbefore, hafter⟩ := Machine.along_append hboth hu
    have hholds := interferenceFree.run hw.holds hbefore hu
    have hholds' := interferenceFree.run hholds hafter hv
    refine ⟨hholds'.1.payloadsKept, fun k d hd hdelivered d' hd' => ?_⟩
    have hcleared : u.shared.Cleared k := by
      refine ⟨hholds.1.issued k d hd, fun row hrow => ?_⟩
      rw [hd] at hrow
      exact Option.some.inj hrow ▸ (hholds.1.rows k d hd).delivered hdelivered
    have hstill := Machine.run_invariant_along
      (I := fun w : Pool (Outbox J) (DeliveryProcess J) =>
        (w.Holds Inv fun _ _ p => Holding p) ∧ w.shared.Cleared k)
      (fun s a t hs htime hst =>
        ⟨interferenceFree.step hs.1 htime hst, step_cleared hs.1 htime hst hs.2⟩)
      ⟨hholds, hcleared⟩ hafter hv
    by_contra hlive
    have hpayload := (hholds'.1.rows k d' hd').live (by simpa using hlive)
    rw [hstill.2.2 d' hd'] at hpayload
    cases hpayload

/-- No allow list and no transport requirement, so no URL is ever parsed. -/
def openDeps : DeliveryDeps where
  parseUrl := fun _ => none

/-- One callback waiting for its first attempt. -/
def dueOutbox : Pool (Outbox ℕ) (DeliveryProcess ℕ) where
  shared := {
    store := {
      deliveries := (∅ : Table DeliveryId (Delivery ℕ) Delivery.deliveryId).write {
        deliveryId := .of "d", runId := .of "r", threadId := .of "t", url := "https://a/"
        payload := some 7, payloadTruncated := false, runStatus := .success, status := .pending
        attempt := 0, nextAttemptAt := 0, lastError := none, createdAt := 0, updatedAt := 0
        expiresAt := 100 } }
    issued := [.of "d"] }
  procs := []

theorem dueOutbox_initial : Initial dueOutbox where
  rows := by
    intro k d hd
    simp only [dueOutbox, Table.get?_write, Table.get?_empty] at hd
    split_ifs at hd with hk
    cases hd
    exact ⟨⟨fun _ => rfl, fun hstatus => by cases hstatus⟩, by simp [dueOutbox, ← hk]⟩
  sent := rfl
  procs := rfl

/-- A tick claims the row at time `now` and starts its POST, as process `i`. -/
def claimAndPost (i : ℕ) (now : Timestamp) :
    List (Action (OutboxEvent ℕ) (DeliveryProcess ℕ) DeliveryInput) :=
  [.spawn (.worker { now, leaseUntil := now + 10 }), .resume i { now, clock := now },
    .resume i { now, clock := now }]

/-- The first POST outlives its lease, and a peer delivers meanwhile. -/
def deliveredByPeer : List (Action (OutboxEvent ℕ) (DeliveryProcess ℕ) DeliveryInput) :=
  claimAndPost 0 0 ++ claimAndPost 1 11 ++ [.resume 1 { now := 12, clock := 12 }]

/-- Then the first POST fails, and a third worker finds the row due. -/
def lateFailure : List (Action (OutboxEvent ℕ) (DeliveryProcess ℕ) DeliveryInput) :=
  .resume 0 { now := 13, clock := 13, failure := some "timeout" } :: claimAndPost 2 14

def deliveredOutbox : Pool (Outbox ℕ) (DeliveryProcess ℕ) :=
  ((program openDeps).machine.run dueOutbox deliveredByPeer).getD dueOutbox

def emptyPostOutbox : Pool (Outbox ℕ) (DeliveryProcess ℕ) :=
  ((program openDeps).machine.run deliveredOutbox lateFailure).getD dueOutbox

theorem lateFailure_not_staysDelivered :
    (deliveredOutbox.shared.store.deliveries.values.map Delivery.status = [.delivered]) ∧
      (emptyPostOutbox.shared.sent.map Delivery.payload = [some 7, some 7, none]) ∧
      ¬ StaysDelivered openDeps dueOutbox (deliveredByPeer ++ lateFailure) := by
  refine ⟨by decide, by decide, fun hstays => ?_⟩
  have hkept := (hstays deliveredByPeer lateFailure deliveredOutbox emptyPostOutbox
    (List.prefix_refl _) rfl rfl).1
  have hsent : ∀ d ∈ emptyPostOutbox.shared.sent, d.payload.isSome = true := hkept.2
  have hnone : ¬ ∀ d ∈ emptyPostOutbox.shared.sent, d.payload.isSome = true := by decide
  exact hnone hsent

/-- The same interleaving without the late failure. -/
theorem deliveredByPeer_staysDelivered : StaysDelivered openDeps dueOutbox deliveredByPeer := by
  have hrun : (program openDeps).machine.run dueOutbox deliveredByPeer = some deliveredOutbox := rfl
  exact (staysDelivered_iff dueOutbox_initial hrun).mpr (by decide)

end Outbox
end Skein
