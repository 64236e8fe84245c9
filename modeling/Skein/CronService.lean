import Skein.CronScheduler

/-!
# The cron service

`createCronService` over the in-memory store: the record of a cron and its patches, with
`next_run_date` derived on create and on every patch that could move it. A patch reads the
row, suspends, and writes what it resolved from that reading; patches overlap with each
other and with the ticks of any number of schedulers. Looking up the assistant and the
thread before a create decides only whether it happens.
-/
namespace Skein

/-- The members of a cron that decide where it points. -/
structure CronTiming where
  schedule : String
  timezone : Option String
  endTime : Option Timestamp
  enabled : Bool
  deriving DecidableEq, Repr

def Cron.timing {J : Type*} (cron : Cron J) : CronTiming :=
  ⟨cron.schedule, cron.timezone, cron.endTime, cron.enabled⟩

/-- `resolveNextRunDate`, with `deps.clock()` as `after`. -/
def Croner.resolveNextRunDate (croner : Croner) (cron : CronTiming) (after : Timestamp) :
    Option Timestamp :=
  if cron.enabled then croner.nextCronOccurrence cron.schedule cron.timezone after cron.endTime
  else none

/-- `schedule.trim().split(/\s+/).length`; nothing but blanks is one empty field. -/
def cronFieldCount (schedule : String) : ℕ :=
  max 1 ((schedule.toList.splitOnP Char.isWhitespace).filter (· ≠ [])).length

/-- `assertValidCronSchedule`; `evaluate` is the message of the error the cron library throws
for an expression in a zone. -/
def assertValidCronSchedule (evaluate : String → String → Option String) (schedule : String)
    (timezone : Option String) : Except Thrown Unit :=
  if cronFieldCount schedule ≠ 5 then
    .error (.http (.unprocessable ("cron must be a standard 5-field expression; got " ++
      toString (cronFieldCount schedule) ++ " field(s) in \"" ++ schedule ++ "\".")))
  else
    match evaluate schedule (timezone.getD "UTC") with
    | none => .ok ()
    | some message =>
      let zone := (timezone.filter (· ≠ "")).elim "" fun zone => " in timezone \"" ++ zone ++ "\""
      .error (.http (.unprocessable
        ("Invalid cron schedule \"" ++ schedule ++ "\"" ++ zone ++ ": " ++ message)))

/-- A create. `payload` is what `toStoredPayload` leaves of the body. -/
structure CreateCronInput (J : Type*) where
  assistantId : AssistantId
  schedule : String
  threadId : Option ThreadId := none
  timezone : Option String := none
  endTime : Option Timestamp := none
  enabled : Option Bool := none
  onRunCompleted : Option String := none
  metadata : Option J := none
  payload : J

/-- A patch. In a nullable field `some none` is an explicit `null`; `payload` is `none`
where `toStoredPayload` leaves nothing. -/
structure UpdateCronInput (J : Type*) where
  schedule : Option String := none
  timezone : Option (Option String) := none
  endTime : Option (Option Timestamp) := none
  enabled : Option Bool := none
  onRunCompleted : Option String := none
  metadata : Option J := none
  payload : Option J := none
  deriving DecidableEq, Repr

/-- The authenticated caller: its identity, and what a fire replays. -/
structure CronPrincipal (J : Type*) where
  identity : String
  auth : J

namespace CreateCronInput
variable {J : Type*} [EmptyCollection J]

def timing (input : CreateCronInput J) : CronTiming :=
  ⟨input.schedule, input.timezone, input.endTime, input.enabled.getD true⟩

/-- The `cronCreate` of `create`. -/
def cronCreate (croner : Croner) (input : CreateCronInput J) (caller : Option (CronPrincipal J))
    (clock : Timestamp) : CronCreate J where
  assistantId := input.assistantId
  schedule := input.schedule
  threadId := input.threadId
  timezone := input.timezone
  endTime := input.endTime
  enabled := some (input.enabled.getD true)
  nextRunDate := croner.resolveNextRunDate input.timing clock
  onRunCompleted :=
    if input.threadId.isNone then some (input.onRunCompleted.getD "delete") else none
  payload := some input.payload
  metadata := some (input.metadata.getD ∅)
  userId := caller.map CronPrincipal.identity
  auth := caller.map CronPrincipal.auth

end CreateCronInput

namespace UpdateCronInput
variable {J : Type*}

/-- What the patch makes of the timing it is resolved against. -/
def timing (patch : UpdateCronInput J) (existing : CronTiming) : CronTiming where
  schedule := patch.schedule.getD existing.schedule
  timezone := patch.timezone.getD existing.timezone
  endTime := patch.endTime.getD existing.endTime
  enabled := patch.enabled.getD existing.enabled

/-- `movesNextRun`. -/
def movesNextRun (patch : UpdateCronInput J) : Bool :=
  patch.schedule.isSome || patch.timezone.isSome || patch.enabled.isSome || patch.endTime.isSome

/-- The `cronUpdate` of `update`, resolved against the timing that was read. -/
def cronUpdate (croner : Croner) (patch : UpdateCronInput J) (existing : CronTiming)
    (clock : Timestamp) : CronUpdate J where
  schedule := patch.schedule
  timezone := patch.timezone
  endTime := patch.endTime
  enabled := patch.enabled
  onRunCompleted := patch.onRunCompleted
  metadata := patch.metadata
  payload := patch.payload
  nextRunDate :=
    if patch.movesNextRun then some (croner.resolveNextRunDate (patch.timing existing) clock)
    else none

/-- `update` after `requireCron` has answered: the error of a bad schedule, or the patch. -/
def resolve (croner : Croner) (evaluate : String → String → Option String)
    (patch : UpdateCronInput J) (existing : CronTiming) (clock : Timestamp) :
    Except Thrown (CronUpdate J) :=
  let update := patch.cronUpdate croner existing clock
  if patch.schedule.isSome || patch.timezone.isSome then
    let resolved := patch.timing existing
    (assertValidCronSchedule evaluate resolved.schedule resolved.timezone).map fun _ => update
  else .ok update

/-- A row written by the resolved patch has the timing of the patch on that row. -/
theorem timing_patched [WireJson J] (croner : Croner) (patch : UpdateCronInput J)
    (existing : CronTiming) (clock : Timestamp) (row : Cron J) (now : Timestamp) :
    (row.patched (patch.cronUpdate croner existing clock) now).timing = patch.timing row.timing :=
  rfl

/-- A patch that moves nothing leaves the timing as it is. -/
theorem timing_of_not_moves {patch : UpdateCronInput J} (h : patch.movesNextRun = false)
    (existing : CronTiming) : patch.timing existing = existing := by
  simp only [movesNextRun, Bool.or_eq_false_iff, Option.isSome_eq_false_iff,
    Option.isNone_iff_eq_none] at h
  simp [timing, h]

end UpdateCronInput

/-- A scheduler's tick, or a call of `update`. -/
inductive CronCall (J : Type*)
  | tick (p : CronTick J)
  /-- Before `requireCron`. -/
  | update (cronId : CronId) (patch : UpdateCronInput J)
  /-- Between that read and `crons.update`. -/
  | updating (cronId : CronId) (patch : UpdateCronInput J) (existing : Cron J)
  | done

/-- The crons with their history, and the latest reading of any clock so far. -/
structure CronServer (J : Type*) where
  world : CronWorld J
  latest : Timestamp := 0

inductive CronServerEvent (J : Type*)
  | create (input : CreateCronInput J) (caller : Option (CronPrincipal J)) (uuid : CronId)
    (clock now : Timestamp)
  | delete (cronId : CronId)
  | threadsDelete (threadId : ThreadId)
  /-- Any write that leaves the cron tables alone. -/
  | elsewhere (store : MemorySkeinStore J)

namespace CronServer
variable {J : Type*} [WireJson J]

/-- A store that has no crons yet. -/
def ofStore (store : MemorySkeinStore J) : CronServer J := ⟨.ofStore { store with crons := ∅ }, 0⟩

def step (croner : Croner) (evaluate : String → String → Option String) (s : CronServer J) :
    CronServerEvent J → Option (CronServer J)
  | .create input caller uuid clock now =>
    match assertValidCronSchedule evaluate input.schedule input.timezone with
    | .error _ => some s
    | .ok _ => (s.world.step (.create (input.cronCreate croner caller clock) uuid now)).map
        fun world => ⟨world, max s.latest clock⟩
  | .delete cronId => (s.world.step (.delete cronId)).map fun world => { s with world }
  | .threadsDelete threadId => (s.world.step (.threadsDelete threadId)).map
      fun world => { s with world }
  | .elsewhere store => (s.world.step (.elsewhere store)).map fun world => { s with world }

end CronServer

namespace CronCall
variable {J : Type*}

/-- Ticks and patches may start at any time. -/
def start (s : CronServer J) : CronCall J → Option (CronServer J)
  | .tick .tickOnce | .update .. => some s
  | _ => none

variable [WireJson J]

def resume (deps : CronDeps J) (evaluate : String → String → Option String) (s : CronServer J)
    (p : CronCall J) (x : CronInput J) : Option (CronServer J × CronCall J) :=
  match p with
  | .tick p => (CronTick.resume deps s.world p x).map fun r =>
      (⟨r.1, max s.latest x.clock⟩, .tick r.2)
  | .update cronId patch =>
    match s.world.store.cronsGet cronId with
    | none => some (s, .done)
    | some existing => some (s, .updating cronId patch existing)
  | .updating cronId patch existing =>
    match patch.resolve deps.croner evaluate existing.timing x.clock with
    | .error _ => some (s, .done)
    | .ok written => (s.world.step (.update cronId written x.now)).map fun world =>
        (⟨world, max s.latest x.clock⟩, .done)
  | .done => none

/-- Every interleaving of ticks and patches, and of what the server does besides. -/
def program (deps : CronDeps J) (evaluate : String → String → Option String) :
    Program (CronServer J) (CronCall J) (CronServerEvent J) (CronInput J) where
  env := CronServer.step deps.croner evaluate
  start := fun s _ p => start s p
  resume := fun s _ p x => resume deps evaluate s p x

end CronCall
end Skein
