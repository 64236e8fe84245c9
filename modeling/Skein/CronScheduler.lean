import Skein.CronRepo
import Skein.ProcessPool

/-!
# The cron scheduler

`tickOnce` and `fireCron` of `createCronScheduler` over the in-memory store. A tick is a
process that suspends at every await; ticks of any number of schedulers, and abandoned
ones, overlap freely with each other and with whatever the server does to the store.
Beside the store the world records every committed claim. The sweep of unqueued runs and
the overdue reading that end a tick write nothing and are left out, as are the counters.
-/
namespace Skein

/-- The cron library, with the one fact the scheduler relies on: `nextRun` answers the
first occurrence strictly after its argument. -/
structure Croner where
  nextRun : String → String → Timestamp → Option Timestamp
  later : ∀ schedule timezone after next, nextRun schedule timezone after = some next →
    after < next

namespace Croner
variable (croner : Croner)

/-- `nextCronOccurrence`. The end is inclusive. -/
def nextCronOccurrence (schedule : String) (timezone : Option String) (after : Timestamp)
    (endTime : Option Timestamp) : Option Timestamp :=
  match croner.nextRun schedule (timezone.getD "UTC") after with
  | none => none
  | some next => if endTime.any (· < next) then none else some next

/-- `advanceCronOccurrence`: from whichever is later of the stored date and now. -/
def advanceCronOccurrence (schedule : String) (timezone : Option String)
    (endTime : Option Timestamp) (fromDate now : Timestamp) : Option Timestamp :=
  croner.nextCronOccurrence schedule timezone (max fromDate now) endTime

variable {croner}

theorem nextCronOccurrence_later {schedule : String} {timezone : Option String}
    {after next : Timestamp} {endTime : Option Timestamp}
    (h : croner.nextCronOccurrence schedule timezone after endTime = some next) :
    after < next := by
  unfold nextCronOccurrence at h
  split at h
  · cases h
  next found hfound =>
    split_ifs at h
    exact Option.some.inj h ▸ croner.later _ _ _ _ hfound

theorem advanceCronOccurrence_later {schedule : String} {timezone : Option String}
    {endTime : Option Timestamp} {left now next : Timestamp}
    (h : croner.advanceCronOccurrence schedule timezone endTime left now = some next) :
    left < next ∧ now < next := by
  have hlater : max left now < next := nextCronOccurrence_later h
  exact Nat.max_lt.mp hlater

end Croner

/-- What the scheduler is configured with. The members of a payload and of the auth
filters that nobody modelled reads enter through the functions that build them; `stamp` is
`stampFromFilters`, and `ownerMetadata` is `authFiltersToMetadataSubset`. -/
structure CronDeps (J : Type*) where
  croner : Croner
  authEnabled : Bool
  batchSize : ℕ := 100
  toKwargs : Cron J → Option J → J
  multitaskStrategy : J → Option MultitaskStrategy
  cronMetadata : CronId → J
  stamp : J → J → J
  ownerMetadata : J → J

/-- One due cron on its way through `fireCron`, with the crons the tick has still to fire. -/
structure CronFire (J : Type*) extends DueCron J where
  now : Timestamp
  remaining : List (DueCron J)
  deriving DecidableEq, Repr

namespace CronFire
variable {J : Type*}

/-- Where the cron points after this occurrence, computed from the scanned row. -/
def nextRunDate (croner : Croner) (fire : CronFire J) : Option Timestamp :=
  croner.advanceCronOccurrence fire.cron.schedule fire.cron.timezone fire.cron.endTime
    (fire.cron.nextRunDate.getD fire.now) fire.now

/-- The compare-and-swap both claim calls of this fire pass. -/
def claim (croner : Croner) (fire : CronFire J) : CronClaim :=
  ⟨fire.occurrenceSeq, fire.nextRunDate croner⟩

/-- `cron.thread_id == null`. -/
def stateless (fire : CronFire J) : Bool := fire.cron.threadId.isNone

/-- The value of the occurrence sequence this fire wants to consume. -/
def occurrence (fire : CronFire J) : CronId × ℕ := (fire.cron.cronId, fire.occurrenceSeq)

/-- The `pending` run that goes with the claim. -/
def runCreate [WireJson J] (deps : CronDeps J) (fire : CronFire J) (auth filters : Option J)
    (threadId : ThreadId) (clock : Timestamp) : RunCreate J where
  threadId
  assistantId := fire.cron.assistantId
  status := some .pending
  metadata := some (WireJson.spread (filters.elim ∅ deps.ownerMetadata)
    (deps.cronMetadata fire.cron.cronId))
  multitaskStrategy :=
    if fire.stateless then none
    else some ((deps.multitaskStrategy fire.cron.payload).getD .enqueue)
  kwargs := some { queueNotBefore := some clock, rest := deps.toKwargs fire.cron auth }

end CronFire

/-- Where a tick stands, named by what it does when it resumes. A tick `retracting` has lost the
claim and takes back the thread it made for it; one `catching` has thrown. -/
inductive CronTick (J : Type*)
  | tickOnce
  | firing (fire : CronFire J)
  | authorizing (fire : CronFire J) (auth : J)
  | resolving (fire : CronFire J) (auth filters : Option J)
  | claiming (fire : CronFire J) (auth filters : Option J) (threadId : ThreadId)
  | retracting (fire : CronFire J) (threadId : ThreadId)
  | enqueueing (fire : CronFire J) (runId : RunId)
  | catching (fire : CronFire J)
  | done

/-- What the environment decides in one turn: the scheduler's clock and the store's, the
filters the auth engine answers, generated identifiers, and whether the awaited call
throws. -/
structure CronInput (J : Type*) where
  clock : Timestamp
  now : Timestamp
  filters : Option J := none
  threadUuid : ThreadId := .of "thread"
  runUuid : RunId := .of "run"
  throws : Bool := false

/-- A committed claim: the sequence it consumed, the scheduler's time, the date it left
and the one it wrote, and the run created with it. -/
structure CommittedClaim where
  cronId : CronId
  occurrenceSeq : ℕ
  now : Timestamp
  left : Option Timestamp
  next : Option Timestamp
  runId : Option RunId
  deriving DecidableEq, Repr

def CommittedClaim.occurrence (claim : CommittedClaim) : CronId × ℕ :=
  (claim.cronId, claim.occurrenceSeq)

/-- The store with its history: every identifier a cron ever had, and the committed
claims, newest first. -/
structure CronWorld (J : Type*) where
  store : MemorySkeinStore J
  issued : List CronId
  claims : List CommittedClaim := []

/-- What the rest of the server does to the store between two turns of a tick; `elsewhere` is any
write that leaves the cron tables alone. -/
inductive CronEvent (J : Type*)
  | create (input : CronCreate J) (uuid : CronId) (now : Timestamp)
  | update (cronId : CronId) (patch : CronUpdate J) (now : Timestamp)
  | delete (cronId : CronId)
  | threadsDelete (threadId : ThreadId)
  | elsewhere (store : MemorySkeinStore J)

namespace CronWorld
variable {J : Type*}

/-- A world about to be scheduled. -/
def ofStore (store : MemorySkeinStore J) : CronWorld J := ⟨store, store.crons.keys, []⟩

/-- The completion of a claim call, recorded where the claim was won. -/
def committing (world : CronWorld J) (croner : Croner) (fire : CronFire J) (x : CronInput J)
    (runId : Option RunId) (store : MemorySkeinStore J) : CronWorld J :=
  { world with
    store
    claims :=
      if (world.store.claimCron fire.cron.cronId (fire.claim croner) x.now).1.isSome then
        { cronId := fire.cron.cronId
          occurrenceSeq := fire.occurrenceSeq
          now := fire.now
          left := (world.store.crons.get? fire.cron.cronId).bind Cron.nextRunDate
          next := (store.crons.get? fire.cron.cronId).bind Cron.nextRunDate
          runId } :: world.claims
      else world.claims }

def step [WireJson J] (world : CronWorld J) : CronEvent J → Option (CronWorld J)
  | .create input uuid now =>
    if input.cronId = none ∧ uuid ∉ world.issued then
      some { world with
        store := (world.store.cronsCreate input uuid now).2, issued := uuid :: world.issued }
    else none
  | .update cronId patch now =>
    some { world with store := (world.store.cronsUpdate cronId patch now).2 }
  | .delete cronId => some { world with store := world.store.cronsDelete cronId }
  | .threadsDelete threadId => some { world with store := world.store.threadsDelete threadId }
  | .elsewhere store =>
    some { world with store := { store with
      crons := world.store.crons
      cronSeq := world.store.cronSeq } }

end CronWorld

namespace CronTick
variable {J : Type*}

/-- The next due cron of the tick, or its end. -/
def next (now : Timestamp) : List (DueCron J) → CronTick J
  | [] => .done
  | due :: remaining => .firing { toDueCron := due, now, remaining }

def start (world : CronWorld J) : CronTick J → Option (CronWorld J)
  | .tickOnce => some world
  | _ => none

variable [WireJson J]

/-- One turn of a tick. -/
def resume (deps : CronDeps J) (world : CronWorld J) (p : CronTick J) (x : CronInput J) :
    Option (CronWorld J × CronTick J) :=
  match p with
  | .tickOnce =>
    let scanLimit := min deps.batchSize world.store.maxPageSize
    some (world, next x.clock (world.store.cronsListDue x.clock (some scanLimit)))
  | .firing fire =>
    if deps.authEnabled then
      match world.store.cronsGetAuth fire.cron.cronId with
      | some auth => some (world, .authorizing fire auth)
      | none =>
        -- A recorded owner whose principal is gone must not fire.
        if fire.cron.userId.isSome then some (world, .catching fire)
        else some (world, .resolving fire none none)
    else some (world, .resolving fire none none)
  | .authorizing fire auth =>
    if x.throws then some (world, .catching fire)
    else some (world, .resolving fire (some auth) x.filters)
  | .resolving fire auth filters =>
    match fire.cron.threadId with
    | none =>
      let metadata := filters.elim id deps.stamp (deps.cronMetadata fire.cron.cronId)
      match world.store.threadsCreate { metadata := some metadata } x.threadUuid x.now with
      | (.error _, store) => some ({ world with store }, .catching fire)
      | (.ok thread, store) =>
        some ({ world with store }, .claiming fire auth filters thread.threadId)
    | some threadId =>
      match world.store.threadsGet threadId with
      | none => some (world, .catching fire)
      | some thread => some (world, .claiming fire auth filters thread.threadId)
  | .claiming fire auth filters threadId =>
    match world.store.cronsClaimAndCreateRun fire.cron.cronId (fire.claim deps.croner)
        (fire.runCreate deps auth filters threadId x.clock) x.runUuid x.now with
    | (.error _, store) =>
      some (world.committing deps.croner fire x none store, .catching fire)
    | (.ok none, store) =>
      some (world.committing deps.croner fire x none store,
        if fire.stateless then .retracting fire threadId else next fire.now fire.remaining)
    | (.ok (some claimed), store) =>
      some (world.committing deps.croner fire x (some claimed.run.runId) store,
        .enqueueing fire claimed.run.runId)
  | .retracting fire threadId =>
    -- Best-effort: a rejected delete is swallowed.
    let store := if x.throws then world.store else world.store.threadsDelete threadId
    some ({ world with store }, next fire.now fire.remaining)
  | .enqueueing fire _ =>
    if x.throws then some (world, .catching fire)
    else some (world, next fire.now fire.remaining)
  | .catching fire =>
    let claimed := world.store.claimCron fire.cron.cronId (fire.claim deps.croner) x.now
    some (world.committing deps.croner fire x none claimed.2, next fire.now fire.remaining)
  | .done => none

/-- Every interleaving of ticks and of what the server does besides. -/
def program (deps : CronDeps J) :
    Program (CronWorld J) (CronTick J) (CronEvent J) (CronInput J) where
  env := CronWorld.step
  start := fun world _ p => start world p
  resume := fun world _ p x => resume deps world p x

end CronTick
end Skein
