import Skein.CronRepo
import Skein.MetadataMatch
import Skein.ThreadCopy

/-!
# Searches of the memory driver

Threads, runs and crons: the rows that match, in order, and a page of them. A query carries the
caller's metadata filter and the server's own, `enforcedMetadata`.
-/
namespace Skein

inductive SortOrder
  | asc | desc

/-- `direction * ordered` -/
def SortOrder.directed : SortOrder → Ordering → Ordering
  | asc, ordered => ordered
  | desc, ordered => ordered.swap

/-- `clonePage` -/
def pageRows {α : Type*} (rows : List α) (offset : Option ℕ) (limit : ℕ) : List α :=
  (rows.drop (offset.getD 0)).take limit

inductive ThreadSortKey
  | threadId | status | createdAt | updatedAt | stateUpdatedAt

def ThreadSortKey.compare {J : Type*} (key : ThreadSortKey) (a b : Thread J) : Ordering :=
  match key with
  | threadId => Ord.compare a.threadId.value b.threadId.value
  | status => Ord.compare a.status.wire b.status.wire
  | createdAt => Ord.compare a.createdAt b.createdAt
  | updatedAt => Ord.compare a.updatedAt b.updatedAt
  | stateUpdatedAt => Ord.compare a.stateUpdatedAt b.stateUpdatedAt

structure ThreadSearchQuery where
  metadata : Option Json := none
  enforcedMetadata : Option Json := none
  excludeMetadata : List Json := []
  values : Option Json := none
  status : Option ThreadStatus := none
  ids : Option (List ThreadId) := none
  limit : Option ℕ := none
  offset : Option ℕ := none
  sortBy : Option ThreadSortKey := none
  sortOrder : Option SortOrder := none

namespace ThreadSearchQuery
variable (query : ThreadSearchQuery)

/-- What the caller asks of a row, without the server's scoping. -/
def accepts (thread : Thread Json) : Bool :=
  query.ids.all (fun ids => thread.threadId ∈ ids) &&
    query.status.all (fun status => thread.status = status) &&
    isMetadataSubset thread.metadata query.metadata &&
    !(query.excludeMetadata.any fun excluded => isMetadataSubset thread.metadata (some excluded)) &&
    isMetadataSubset thread.values query.values

/-- Ties fall to the identifier, in the same direction. -/
def precedes (a b : Thread Json) : Bool :=
  (query.sortOrder.getD .desc).directed (((query.sortBy.getD .createdAt).compare a b).then
    (compare a.threadId.value b.threadId.value)) != .gt

end ThreadSearchQuery

structure RunSearchQuery where
  status : Option RunStatus := none
  assistantId : Option AssistantId := none
  threadId : Option ThreadId := none
  createdAfter : Option Timestamp := none
  createdBefore : Option Timestamp := none
  updatedAfter : Option Timestamp := none
  updatedBefore : Option Timestamp := none
  enforcedMetadata : Option Json := none
  limit : Option ℕ := none
  offset : Option ℕ := none

def RunSearchQuery.accepts (query : RunSearchQuery) (run : Run Json) : Bool :=
  query.status.all (fun status => run.status = status) &&
    query.assistantId.all (fun assistantId => run.assistantId = assistantId) &&
    query.threadId.all (fun threadId => run.threadId = threadId) &&
    query.createdAfter.all (fun bound => bound ≤ run.createdAt) &&
    query.createdBefore.all (fun bound => run.createdAt < bound) &&
    query.updatedAfter.all (fun bound => bound ≤ run.updatedAt) &&
    query.updatedBefore.all (fun bound => run.updatedAt < bound)

/-- Newest first, and the larger identifier first among equally new ones. -/
def compareRunCreation (a b : Run Json) : Ordering :=
  (compare b.createdAt a.createdAt).then (compare b.runId.value a.runId.value)

structure RunListQuery where
  status : Option RunStatus := none
  limit : Option ℕ := none
  offset : Option ℕ := none

inductive CronSortKey
  | cronId | assistantId | threadId | createdAt | updatedAt | nextRunDate | endTime

/-- A missing value is last in both directions. -/
def compareNullable {β : Type*} [Ord β] (order : SortOrder) : Option β → Option β → Ordering
  | none, none => .eq
  | none, some _ => .gt
  | some _, none => .lt
  | some a, some b => order.directed (compare a b)

def CronSortKey.compare {J : Type*} (order : SortOrder) (key : CronSortKey) (a b : Cron J) :
    Ordering :=
  match key with
  | cronId => compareNullable order (some a.cronId.value) (some b.cronId.value)
  | assistantId => compareNullable order (some a.assistantId.value) (some b.assistantId.value)
  | threadId => compareNullable order (a.threadId.map Id.value) (b.threadId.map Id.value)
  | createdAt => compareNullable order (some a.createdAt) (some b.createdAt)
  | updatedAt => compareNullable order (some a.updatedAt) (some b.updatedAt)
  | nextRunDate => compareNullable order a.nextRunDate b.nextRunDate
  | endTime => compareNullable order a.endTime b.endTime

structure CronSearchQuery where
  assistantId : Option AssistantId := none
  threadId : Option ThreadId := none
  enabled : Option Bool := none
  metadata : Option Json := none
  enforcedMetadata : Option Json := none
  limit : Option ℕ := none
  offset : Option ℕ := none
  sortBy : Option CronSortKey := none
  sortOrder : Option SortOrder := none

namespace CronSearchQuery
variable (query : CronSearchQuery)

def accepts (cron : Cron Json) : Bool :=
  query.assistantId.all (fun assistantId => cron.assistantId = assistantId) &&
    query.threadId.all (fun threadId => cron.threadId = some threadId) &&
    query.enabled.all (fun enabled => cron.enabled = enabled) &&
    isMetadataSubset cron.metadata query.metadata

def precedes (a b : Cron Json) : Bool :=
  ((query.sortBy.getD .createdAt).compare (query.sortOrder.getD .desc) a b).then
    ((query.sortOrder.getD .desc).directed (compare a.cronId.value b.cronId.value)) != .gt

end CronSearchQuery

namespace MemorySkeinStore
variable (store : MemorySkeinStore Json)

/-- `#matchingThreads` -/
def matchingThreads (query : ThreadSearchQuery) : List (Thread Json) :=
  (store.threads.values.filter fun thread => query.accepts thread &&
    isMetadataSubset thread.metadata query.enforcedMetadata).mergeSort query.precedes

def threadsSearch (query : ThreadSearchQuery) : List (Thread Json) :=
  pageRows (store.matchingThreads query) query.offset (store.pageLimit query.limit)

/-- `threads.list`: the first page, oldest first. -/
def threadsList : List (Thread Json) :=
  pageRows (store.threads.values.mergeSort fun a b =>
    (compare a.createdAt b.createdAt).then (compare a.threadId.value b.threadId.value) != .gt)
    none (store.pageLimit none)

def threadsCount (query : ThreadSearchQuery) : ℕ := (store.matchingThreads query).length

/-- `#pageLimit(Math.min(query.limit ?? 100, DEFAULT_MAX_PAGE_SIZE))` -/
def runsSearch (query : RunSearchQuery) : List (Run Json) :=
  pageRows ((store.runs.values.filter fun run => query.accepts run &&
      isMetadataSubset run.metadata query.enforcedMetadata).mergeSort
      fun a b => compareRunCreation a b != .gt)
    query.offset (store.pageLimit (some (min (query.limit.getD 100) 1000)))

/-- `runs.listByThread` under a query: the status filter comes before the page. -/
def runsListPage (threadId : ThreadId) (query : RunListQuery) : List (Run Json) :=
  let matched := (store.runsListByThread threadId).filter fun run =>
    query.status.all fun status => run.status = status
  pageRows matched query.offset (query.limit.getD matched.length)

/-- `#matchingCrons` -/
def matchingCrons (query : CronSearchQuery) : List (Cron Json) :=
  (store.crons.values.filter fun cron => query.accepts cron &&
    isMetadataSubset cron.metadata query.enforcedMetadata).mergeSort query.precedes

def cronsSearch (query : CronSearchQuery) : List (Cron Json) :=
  pageRows (store.matchingCrons query) query.offset (store.pageLimit query.limit)

def cronsCount (query : CronSearchQuery) : ℕ := (store.matchingCrons query).length

end MemorySkeinStore
end Skein
