import Skein.Admission
import Skein.AuthFilters
import Skein.MemorySearches

/-!
# The auth-scoped store

`createAuthScopedStore` wraps a driver for one request: a row outside the caller's ownership
filters reads as absent, and what the caller writes is stamped with them. The wrapper of the
threads guards threads and their runs, that of the crons guards crons.
-/
namespace Skein
open MemorySkeinStore

def SkeinHttpError.notImplemented (message : String) (code : Option String := none) :
    SkeinHttpError :=
  ⟨501, message, code⟩

/-- A row of somebody else is reported as one that is not there. -/
def threadNotFound (threadId : ThreadId) : Thrown :=
  .http (.notFound ("Thread \"" ++ threadId.value ++ "\" not found."))

def cronNotFound (cronId : CronId) : Thrown :=
  .http (.notFound ("Cron \"" ++ cronId.value ++ "\" not found."))

section Scoped
variable (matchesFilters : Json → AuthFilters → Bool) (filters : AuthFilters)
  (store : MemorySkeinStore Json)

def scopedThreadsGet (threadId : ThreadId) : Option (Thread Json) :=
  (store.threadsGet threadId).filter fun thread => matchesFilters thread.metadata filters

/-- The caller's own `enforcedMetadata` is dropped. -/
def scopedThreadsSearch (query : ThreadSearchQuery) : List (Thread Json) :=
  (store.threadsSearch
    { query with enforcedMetadata := authFiltersToMetadataSubset filters }).filter fun thread =>
      matchesFilters thread.metadata filters

/-- `list`, which goes through the search, in the order of creation. -/
def scopedThreadsList : List (Thread Json) :=
  scopedThreadsSearch matchesFilters filters store
    { sortBy := some .createdAt, sortOrder := some .asc }

/-- The filters go into the inner store's query. -/
def scopedThreadsCount (query : ThreadSearchQuery) : ℕ :=
  store.threadsCount { query with enforcedMetadata := authFiltersToMetadataSubset filters }

/-- `if (!thread || !matches(thread.metadata)) throw` -/
def guardThread {α : Type} (threadId : ThreadId) (call : Completion Json α) :
    Completion Json α :=
  if (scopedThreadsGet matchesFilters filters store threadId).isSome then call
  else (.error (threadNotFound threadId), store)

/-- A thread of someone else reads as absent, also to a caller that names it. -/
def scopedThreadsCreate (input : ThreadCreate Json) (uuid : ThreadId) (now : Timestamp) :
    Completion Json (Thread Json) :=
  match input.threadId.bind store.threadsGet with
  | some existing =>
    if matchesFilters existing.metadata filters then
      store.threadsCreate
        { input with metadata := some (stampFromFilters input.metadata filters) } uuid now
    else (.error (threadNotFound existing.threadId), store)
  | none =>
    store.threadsCreate
      { input with metadata := some (stampFromFilters input.metadata filters) } uuid now

/-- A patch of the metadata is stamped, so that no caller gives a thread away. -/
def scopedThreadsUpdate (threadId : ThreadId) (patch : ThreadUpdate Json) (now : Timestamp) :
    Completion Json (Thread Json) :=
  guardThread matchesFilters filters store threadId <|
    store.threadsUpdate threadId
      { patch with
        metadata := patch.metadata.map fun metadata => stampFromFilters (some metadata) filters }
      now

/-- Only the source is looked at. -/
def scopedThreadsCopy (threadId uuid : ThreadId) (now : Timestamp) :
    Completion Json (Thread Json) :=
  guardThread matchesFilters filters store threadId (store.threadsCopy threadId uuid now)

def scopedThreadsDelete (threadId : ThreadId) : Completion Json Unit :=
  guardThread matchesFilters filters store threadId (.ok (), store.threadsDelete threadId)

/-- A run is seen by its own metadata, not its thread's. -/
def scopedRunsGet (runId : RunId) : Option (Run Json) :=
  (store.runsGet runId).filter fun run => matchesFilters run.metadata filters

/-- A matcher stricter than its own filters fails the whole request. -/
def scopedRunsSearch (query : RunSearchQuery) : Except Thrown (List (Run Json)) :=
  let found := store.runsSearch
    { query with enforcedMetadata := authFiltersToMetadataSubset filters }
  if found.any fun run => !matchesFilters run.metadata filters then
    .error (.http (.notImplemented ("Run search cannot express this authorization matcher's " ++
      "additional restrictions. Return declarative ownership filters.")))
  else .ok found

/-- The result of a run that the caller may not see is absent. -/
def scopedRunsGetResult (runId : RunId) : Option Json :=
  if (scopedRunsGet matchesFilters filters store runId).isSome then store.runsGetResult runId
  else none

/-- The page is taken after the ownership filter. -/
def scopedRunsListByThread (threadId : ThreadId) (query : RunListQuery) : List (Run Json) :=
  let matchingRuns := (store.runsListPage threadId { status := query.status }).filter fun run =>
    matchesFilters run.metadata filters
  pageRows matchingRuns query.offset (query.limit.getD matchingRuns.length)

/-- A write to a run that the caller does not see fails as not found. -/
def guardRun {α : Type} (runId : RunId) (call : Completion Json α) : Completion Json α :=
  if (scopedRunsGet matchesFilters filters store runId).isSome then call
  else (.error (runNotFound runId), store)

/-- Whatever owner a caller names is overwritten. -/
def stampedRun (input : RunCreate Json) : RunCreate Json :=
  { input with metadata := some (stampFromFilters input.metadata filters) }

def scopedRunsCreate (input : RunCreate Json) (uuid : RunId) (now : Timestamp) :
    Completion Json (Run Json) :=
  store.createRun (stampedRun filters input) uuid now

def scopedRunsCreateIfThreadIdle (input : RunCreate Json) (uuid : RunId) (now : Timestamp) :
    Completion Json (Option (Run Json)) :=
  store.runsCreateIfThreadIdle (stampedRun filters input) uuid now

def scopedRunsCreateIfThreadMatches (input : RunCreate Json) (guard : RunCreateGuard)
    (uuid : RunId) (now : Timestamp) : Completion Json (GuardedRunCreate Json) :=
  store.runsCreateIfThreadMatches (stampedRun filters input) guard uuid now

def scopedRunsSetStatus (runId : RunId) (status : RunStatus) (error : Option Json)
    (now : Timestamp) : Completion Json (Run Json) :=
  guardRun matchesFilters filters store runId (store.runsSetStatus runId status error now)

/-- `settle`, behind the guard of its run. -/
def scopedRunsSettle (runId : RunId) (final : RunSettlement Json) (uuid : DeliveryId)
    (now : Timestamp) : Completion Json (SettledRun Json) :=
  guardRun matchesFilters filters store runId (store.runsSettle runId final uuid now)

def scopedRunsRecordResult (runId : RunId) (result : Json) : Completion Json Unit :=
  guardRun matchesFilters filters store runId (store.runsRecordResult runId result)

/-- `...inner.runs` hands it on: no filter is asked. -/
def scopedRunsFinalizeWithDelivery (runId : RunId) (final : RunFinalization Json)
    (uuid : DeliveryId) (now : Timestamp) : Completion Json (FinalizedRun Json) :=
  store.runsFinalizeWithDelivery runId final uuid now

def scopedRunsDelete (runId : RunId) : Completion Json Unit :=
  guardRun matchesFilters filters store runId (.ok (), store.runsDelete runId)

/-- An admission is stamped like a creation, on a thread that the caller sees. -/
def scopedAdmitRun (input : RunAdmission Json) (draws : AdmissionDraws) :
    Completion Json AdmissionReceipt :=
  guardThread matchesFilters filters store input.run.threadId
    (store.admitRun { input with run := stampedRun filters input.run } draws)

def scopedAdmitCancel (input : CancelAdmission Json) (draws : AdmissionDraws) :
    Completion Json AdmissionReceipt :=
  guardRun matchesFilters filters store input.runId (store.admitCancel input draws)

def scopedCronsGet (cronId : CronId) : Option (Cron Json) :=
  (store.cronsGet cronId).filter fun cron => matchesFilters cron.metadata filters

/-- What the inner store finds is filtered again. -/
def scopedCronsSearch (query : CronSearchQuery) : List (Cron Json) :=
  (store.cronsSearch
    { query with enforcedMetadata := authFiltersToMetadataSubset filters }).filter fun cron =>
      matchesFilters cron.metadata filters

def scopedCronsCount (query : CronSearchQuery) : ℕ :=
  store.cronsCount { query with enforcedMetadata := authFiltersToMetadataSubset filters }

/-- As `guardRun`, for a cron. -/
def guardCron {α : Type} (cronId : CronId) (call : Completion Json α) : Completion Json α :=
  if (scopedCronsGet matchesFilters filters store cronId).isSome then call
  else (.error (cronNotFound cronId), store)

def scopedCronsCreate (input : CronCreate Json) (uuid : CronId) (now : Timestamp) :
    Completion Json (Cron Json) :=
  store.cronsCreate { input with metadata := some (stampFromFilters input.metadata filters) }
    uuid now

/-- As for a thread, a patch of the metadata is stamped. -/
def scopedCronsUpdate (cronId : CronId) (patch : CronUpdate Json) (now : Timestamp) :
    Completion Json (Cron Json) :=
  guardCron matchesFilters filters store cronId <|
    store.cronsUpdate cronId
      { patch with
        metadata := patch.metadata.map fun metadata => stampFromFilters (some metadata) filters }
      now

def scopedCronsDelete (cronId : CronId) : Completion Json Unit :=
  guardCron matchesFilters filters store cronId (.ok (), store.cronsDelete cronId)

end Scoped

/-- A read through the scoped store. -/
inductive ScopedRead
  | threadsGet (threadId : ThreadId)
  | threadsSearch (query : ThreadSearchQuery)
  | threadsList
  | threadsCount (query : ThreadSearchQuery)
  | runsGet (runId : RunId)
  | runsSearch (query : RunSearchQuery)
  | runsGetResult (runId : RunId)
  | runsListByThread (threadId : ThreadId) (query : RunListQuery)
  | cronsGet (cronId : CronId)
  | cronsSearch (query : CronSearchQuery)
  | cronsCount (query : CronSearchQuery)

/-- What a read answers with; a row read by its identifier is a list of at most one. -/
inductive ScopedAnswer
  | threads (rows : List (Thread Json))
  | runs (rows : List (Run Json))
  | crons (rows : List (Cron Json))
  | result (result : Option Json)
  | count (n : ℕ)

/-- A write through the scoped store, with what the driver draws for it. -/
inductive ScopedWrite
  | threadsCreate (input : ThreadCreate Json) (uuid : ThreadId) (now : Timestamp)
  | threadsUpdate (threadId : ThreadId) (patch : ThreadUpdate Json) (now : Timestamp)
  | threadsCopy (threadId uuid : ThreadId) (now : Timestamp)
  | threadsDelete (threadId : ThreadId)
  | runsCreate (input : RunCreate Json) (uuid : RunId) (now : Timestamp)
  | runsCreateIfThreadIdle (input : RunCreate Json) (uuid : RunId) (now : Timestamp)
  | runsCreateIfThreadMatches (input : RunCreate Json) (guard : RunCreateGuard) (uuid : RunId)
      (now : Timestamp)
  | runsSetStatus (runId : RunId) (status : RunStatus) (error : Option Json) (now : Timestamp)
  | runsSettle (runId : RunId) (final : RunSettlement Json) (uuid : DeliveryId) (now : Timestamp)
  | runsRecordResult (runId : RunId) (result : Json)
  | runsFinalizeWithDelivery (runId : RunId) (final : RunFinalization Json) (uuid : DeliveryId)
      (now : Timestamp)
  | runsDelete (runId : RunId)
  | admitRun (input : RunAdmission Json) (draws : AdmissionDraws)
  | admitCancel (input : CancelAdmission Json) (draws : AdmissionDraws)
  | cronsCreate (input : CronCreate Json) (uuid : CronId) (now : Timestamp)
  | cronsUpdate (cronId : CronId) (patch : CronUpdate Json) (now : Timestamp)
  | cronsDelete (cronId : CronId)

section Calls
variable (matchesFilters : Json → AuthFilters → Bool) (filters : AuthFilters)

/-- What a scoped read answers. -/
def scopedRead (store : MemorySkeinStore Json) : ScopedRead → Except Thrown ScopedAnswer
  | .threadsGet threadId =>
    .ok (.threads (scopedThreadsGet matchesFilters filters store threadId).toList)
  | .threadsSearch query => .ok (.threads (scopedThreadsSearch matchesFilters filters store query))
  | .threadsList => .ok (.threads (scopedThreadsList matchesFilters filters store))
  | .threadsCount query => .ok (.count (scopedThreadsCount filters store query))
  | .runsGet runId => .ok (.runs (scopedRunsGet matchesFilters filters store runId).toList)
  | .runsSearch query => (scopedRunsSearch matchesFilters filters store query).map .runs
  | .runsGetResult runId => .ok (.result (scopedRunsGetResult matchesFilters filters store runId))
  | .runsListByThread threadId query =>
    .ok (.runs (scopedRunsListByThread matchesFilters filters store threadId query))
  | .cronsGet cronId => .ok (.crons (scopedCronsGet matchesFilters filters store cronId).toList)
  | .cronsSearch query => .ok (.crons (scopedCronsSearch matchesFilters filters store query))
  | .cronsCount query => .ok (.count (scopedCronsCount filters store query))

/-- What a scoped write leaves, whether it succeeds or throws. -/
def scopedWrite (store : MemorySkeinStore Json) : ScopedWrite → MemorySkeinStore Json
  | .threadsCreate input uuid now =>
    (scopedThreadsCreate matchesFilters filters store input uuid now).2
  | .threadsUpdate threadId patch now =>
    (scopedThreadsUpdate matchesFilters filters store threadId patch now).2
  | .threadsCopy threadId uuid now =>
    (scopedThreadsCopy matchesFilters filters store threadId uuid now).2
  | .threadsDelete threadId => (scopedThreadsDelete matchesFilters filters store threadId).2
  | .runsCreate input uuid now => (scopedRunsCreate filters store input uuid now).2
  | .runsCreateIfThreadIdle input uuid now =>
    (scopedRunsCreateIfThreadIdle filters store input uuid now).2
  | .runsCreateIfThreadMatches input guard uuid now =>
    (scopedRunsCreateIfThreadMatches filters store input guard uuid now).2
  | .runsSetStatus runId status error now =>
    (scopedRunsSetStatus matchesFilters filters store runId status error now).2
  | .runsSettle runId final uuid now =>
    (scopedRunsSettle matchesFilters filters store runId final uuid now).2
  | .runsRecordResult runId result =>
    (scopedRunsRecordResult matchesFilters filters store runId result).2
  | .runsFinalizeWithDelivery runId final uuid now =>
    (scopedRunsFinalizeWithDelivery store runId final uuid now).2
  | .runsDelete runId => (scopedRunsDelete matchesFilters filters store runId).2
  | .admitRun input draws => (scopedAdmitRun matchesFilters filters store input draws).2
  | .admitCancel input draws => (scopedAdmitCancel matchesFilters filters store input draws).2
  | .cronsCreate input uuid now => (scopedCronsCreate filters store input uuid now).2
  | .cronsUpdate cronId patch now =>
    (scopedCronsUpdate matchesFilters filters store cronId patch now).2
  | .cronsDelete cronId => (scopedCronsDelete matchesFilters filters store cronId).2

end Calls
end Skein
