import Skein.AuthScopedStore

/-!
# What a tenant sees

A scoped read answers as the bare driver would over a store of the caller's own rows. Nothing
in the answer, neither a page nor a count, depends on a row of someone else, and nothing in the
query widens the scope.
-/
namespace Skein
open MemorySkeinStore

namespace Table
variable {κ α : Type*} {key : α → κ} [DecidableEq κ]

omit [DecidableEq κ] in
theorem ext_entries {t u : Table κ α key} (h : t.entries = u.entries) : t = u := by
  cases t
  cases u
  congr
  exact OrderedMap.ext_entries h

omit [DecidableEq κ] in
theorem values_filter (t : Table κ α key) (p : α → Bool) :
    (t.filter p).values = t.values.filter p := by
  simp only [OrderedMap.values, filter, OrderedMap.filter, List.filter_map, Function.comp_def]

end Table

section View
variable (matchesFilters : Json → AuthFilters → Bool) (filters : AuthFilters)

/-- The driver as it would be with the caller's rows alone. -/
def ownedStore (store : MemorySkeinStore Json) : MemorySkeinStore Json :=
  { store with
    threads := store.threads.filter fun thread => matchesFilters thread.metadata filters
    runs := store.runs.filter fun run => matchesFilters run.metadata filters
    crons := store.crons.filter fun cron => matchesFilters cron.metadata filters }

/-- The answer of the bare driver to what the caller asks, without its `enforcedMetadata`. -/
def plainRead (store : MemorySkeinStore Json) : ScopedRead → ScopedAnswer
  | .threadsGet threadId => .threads (store.threadsGet threadId).toList
  | .threadsSearch query => .threads (store.threadsSearch { query with enforcedMetadata := none })
  | .threadsList => .threads store.threadsList
  | .threadsCount query => .count (store.threadsCount { query with enforcedMetadata := none })
  | .runsGet runId => .runs (store.runsGet runId).toList
  | .runsSearch query => .runs (store.runsSearch { query with enforcedMetadata := none })
  | .runsGetResult runId => .result (store.runsGetResult runId)
  | .runsListByThread threadId query => .runs (store.runsListPage threadId query)
  | .cronsGet cronId => .crons (store.cronsGet cronId).toList
  | .cronsSearch query => .crons (store.cronsSearch { query with enforcedMetadata := none })
  | .cronsCount query => .count (store.cronsCount { query with enforcedMetadata := none })

end View

theorem mem_of_mem_pageRows {α : Type*} {rows : List α} {row : α} {offset : Option ℕ} {limit : ℕ}
    (h : row ∈ pageRows rows offset limit) : row ∈ rows :=
  List.mem_of_mem_drop (List.mem_of_mem_take h)

theorem filter_pageRows {α : Type*} {rows : List α} {p : α → Bool} (h : ∀ row ∈ rows, p row = true)
    (offset : Option ℕ) (limit : ℕ) :
    (pageRows rows offset limit).filter p = pageRows rows offset limit :=
  List.filter_eq_self.mpr fun row hrow => h row (mem_of_mem_pageRows hrow)

theorem isMetadataSubset_none (metadata : Json) : isMetadataSubset metadata none = true := rfl

section Reads
variable {matchesFilters : Json → AuthFilters → Bool} (hengine : MirrorsClauses matchesFilters)
  (filters : AuthFilters) (store : MemorySkeinStore Json)
include hengine

/-- The subset the driver is given lets through what the engine lets through. -/
theorem isMetadataSubset_engine (metadata : Json) :
    isMetadataSubset metadata (authFiltersToMetadataSubset filters) =
      matchesFilters metadata filters := by
  rw [isMetadataSubset_authFilters, hengine metadata filters, AuthFilters.asks]

theorem matchingThreads_owned (query : ThreadSearchQuery) :
    store.matchingThreads
        { query with enforcedMetadata := authFiltersToMetadataSubset filters } =
      (ownedStore matchesFilters filters store).matchingThreads
        { query with enforcedMetadata := none } := by
  simp only [matchingThreads, ownedStore, Table.values_filter, List.filter_filter,
    isMetadataSubset_engine hengine, isMetadataSubset_none, Bool.and_true]
  rfl

theorem matchingCrons_owned (query : CronSearchQuery) :
    store.matchingCrons
        { query with enforcedMetadata := authFiltersToMetadataSubset filters } =
      (ownedStore matchesFilters filters store).matchingCrons
        { query with enforcedMetadata := none } := by
  simp only [matchingCrons, ownedStore, Table.values_filter, List.filter_filter,
    isMetadataSubset_engine hengine, isMetadataSubset_none, Bool.and_true]
  rfl

omit hengine in
theorem matchingThreads_ownedStore {query : ThreadSearchQuery} {thread : Thread Json}
    (h : thread ∈ (ownedStore matchesFilters filters store).matchingThreads query) :
    matchesFilters thread.metadata filters = true := by
  simp only [matchingThreads, ownedStore, Table.values_filter, List.mem_mergeSort,
    List.mem_filter] at h
  exact h.1.2

omit hengine in
theorem matchingCrons_ownedStore {query : CronSearchQuery} {cron : Cron Json}
    (h : cron ∈ (ownedStore matchesFilters filters store).matchingCrons query) :
    matchesFilters cron.metadata filters = true := by
  simp only [matchingCrons, ownedStore, Table.values_filter, List.mem_mergeSort,
    List.mem_filter] at h
  exact h.1.2

theorem scopedThreadsSearch_owned (query : ThreadSearchQuery) :
    scopedThreadsSearch matchesFilters filters store query =
      (ownedStore matchesFilters filters store).threadsSearch
        { query with enforcedMetadata := none } := by
  simp only [scopedThreadsSearch, threadsSearch, matchingThreads_owned hengine]
  exact filter_pageRows (fun thread => matchingThreads_ownedStore filters store) _ _

theorem scopedCronsSearch_owned (query : CronSearchQuery) :
    scopedCronsSearch matchesFilters filters store query =
      (ownedStore matchesFilters filters store).cronsSearch
        { query with enforcedMetadata := none } := by
  simp only [scopedCronsSearch, cronsSearch, matchingCrons_owned hengine]
  exact filter_pageRows (fun cron => matchingCrons_ownedStore filters store) _ _

/-- The fallback for a stricter matcher is not reached. -/
theorem scopedRunsSearch_owned (query : RunSearchQuery) :
    scopedRunsSearch matchesFilters filters store query =
      .ok ((ownedStore matchesFilters filters store).runsSearch
        { query with enforcedMetadata := none }) := by
  have hfound : store.runsSearch
      { query with enforcedMetadata := authFiltersToMetadataSubset filters } =
      (ownedStore matchesFilters filters store).runsSearch
        { query with enforcedMetadata := none } := by
    simp only [runsSearch, ownedStore, Table.values_filter, List.filter_filter,
      isMetadataSubset_engine hengine, isMetadataSubset_none, Bool.and_true]
    rfl
  have howned : ((ownedStore matchesFilters filters store).runsSearch
      { query with enforcedMetadata := none }).any (fun run => !matchesFilters run.metadata filters)
      = false := by
    rw [List.any_eq_false]
    intro run hrun
    have hmem := mem_of_mem_pageRows hrun
    simp only [ownedStore, Table.values_filter, List.mem_mergeSort, List.mem_filter] at hmem
    simp [hmem.1.2]
  simp only [scopedRunsSearch, hfound, howned, Bool.false_eq_true, if_false]

omit hengine in
theorem runsListByThread_ownedStore (threadId : ThreadId) :
    (ownedStore matchesFilters filters store).runsListByThread threadId =
      (store.runsListByThread threadId).filter fun run => matchesFilters run.metadata filters := by
  simp only [runsListByThread, ownedStore, Table.values_filter, List.filter_filter]
  exact List.filter_congr fun run _ => Bool.and_comm _ _

omit hengine in
theorem scopedRunsListByThread_owned (threadId : ThreadId) (query : RunListQuery) :
    scopedRunsListByThread matchesFilters filters store threadId query =
      (ownedStore matchesFilters filters store).runsListPage threadId query := by
  have hfirst : store.runsListPage threadId { status := query.status } =
      (store.runsListByThread threadId).filter fun run =>
        query.status.all fun status => run.status = status := by
    simp [runsListPage, pageRows]
  rw [scopedRunsListByThread, hfirst, runsListPage, runsListByThread_ownedStore]
  simp only [List.filter_filter, Bool.and_comm]

omit hengine in
theorem scopedRunsGetResult_owned (runId : RunId) :
    scopedRunsGetResult matchesFilters filters store runId =
      (ownedStore matchesFilters filters store).runsGetResult runId := by
  have hcontains : (ownedStore matchesFilters filters store).runs.contains runId =
      (scopedRunsGet matchesFilters filters store runId).isSome := by
    rw [OrderedMap.contains, ownedStore, Table.get?_filter, scopedRunsGet, runsGet]
  rw [scopedRunsGetResult, runsGetResult, runsGetResult, hcontains]
  by_cases howned : (scopedRunsGet matchesFilters filters store runId).isSome
  · have hrun : store.runs.contains runId = true := Option.isSome_of_isSome_filter _ _ howned
    rw [if_pos howned, if_pos hrun, if_pos howned, ownedStore]
  · rw [if_neg howned, if_neg howned]

omit hengine in
/-- `list` is the search that the decorator makes of it. -/
theorem threadsSearch_list :
    store.threadsSearch { sortBy := some .createdAt, sortOrder := some .asc } =
      store.threadsList := by
  have hall : (store.threads.values.filter fun thread =>
      ThreadSearchQuery.accepts { sortBy := some .createdAt, sortOrder := some .asc } thread &&
        isMetadataSubset thread.metadata none) = store.threads.values := by
    simp [ThreadSearchQuery.accepts, isMetadataSubset]
  simp only [threadsSearch, matchingThreads, hall]
  rfl

/-- Every scoped read answers as the bare driver over the caller's own rows. -/
theorem scopedRead_owned (read : ScopedRead) :
    scopedRead matchesFilters filters store read =
      .ok (plainRead (ownedStore matchesFilters filters store) read) := by
  cases read with
  | threadsGet threadId =>
    simp [scopedRead, plainRead, scopedThreadsGet, threadsGet, ownedStore, Table.get?_filter]
  | threadsSearch query => simp [scopedRead, plainRead, scopedThreadsSearch_owned hengine]
  | threadsList =>
    simp only [scopedRead, plainRead, scopedThreadsList, scopedThreadsSearch_owned hengine,
      threadsSearch_list]
  | threadsCount query =>
    simp [scopedRead, plainRead, scopedThreadsCount, threadsCount, matchingThreads_owned hengine]
  | runsGet runId =>
    simp [scopedRead, plainRead, scopedRunsGet, runsGet, ownedStore, Table.get?_filter]
  | runsSearch query =>
    simp [scopedRead, plainRead, scopedRunsSearch_owned hengine, Except.map]
  | runsGetResult runId => simp [scopedRead, plainRead, scopedRunsGetResult_owned]
  | runsListByThread threadId query =>
    simp [scopedRead, plainRead, scopedRunsListByThread_owned]
  | cronsGet cronId =>
    simp [scopedRead, plainRead, scopedCronsGet, cronsGet, ownedStore, Table.get?_filter]
  | cronsSearch query => simp [scopedRead, plainRead, scopedCronsSearch_owned hengine]
  | cronsCount query =>
    simp [scopedRead, plainRead, scopedCronsCount, cronsCount, matchingCrons_owned hengine]

/-- The rows of an answer. -/
def ScopedAnswer.metadata : ScopedAnswer → List Json
  | threads rows => rows.map Thread.metadata
  | runs rows => rows.map Run.metadata
  | crons rows => rows.map Cron.metadata
  | result _ | count _ => []

/-- The read with another `enforcedMetadata` from the caller. -/
def ScopedRead.enforcing (metadata : Option Json) : ScopedRead → ScopedRead
  | threadsSearch query => threadsSearch { query with enforcedMetadata := metadata }
  | threadsCount query => threadsCount { query with enforcedMetadata := metadata }
  | runsSearch query => runsSearch { query with enforcedMetadata := metadata }
  | cronsSearch query => cronsSearch { query with enforcedMetadata := metadata }
  | cronsCount query => cronsCount { query with enforcedMetadata := metadata }
  | read => read

omit hengine in
theorem plainRead_metadata (read : ScopedRead) {metadata : Json}
    (h : metadata ∈ (plainRead (ownedStore matchesFilters filters store) read).metadata) :
    matchesFilters metadata filters = true := by
  cases read with
  | threadsGet threadId =>
    obtain ⟨thread, hthread, rfl⟩ := List.mem_map.mp h
    rw [Option.mem_toList, threadsGet, ownedStore, Table.get?_filter] at hthread
    exact (Option.filter_eq_some_iff.mp hthread).2
  | threadsSearch query =>
    obtain ⟨thread, hthread, rfl⟩ := List.mem_map.mp h
    exact matchingThreads_ownedStore filters store (mem_of_mem_pageRows hthread)
  | threadsList =>
    obtain ⟨thread, hthread, rfl⟩ := List.mem_map.mp h
    have hmem := mem_of_mem_pageRows hthread
    rw [List.mem_mergeSort, ownedStore, Table.values_filter, List.mem_filter] at hmem
    exact hmem.2
  | runsGet runId =>
    obtain ⟨run, hrun, rfl⟩ := List.mem_map.mp h
    rw [Option.mem_toList, runsGet, ownedStore, Table.get?_filter] at hrun
    exact (Option.filter_eq_some_iff.mp hrun).2
  | runsSearch query =>
    obtain ⟨run, hrun, rfl⟩ := List.mem_map.mp h
    have hmem := mem_of_mem_pageRows hrun
    rw [List.mem_mergeSort, ownedStore, Table.values_filter, List.mem_filter,
      List.mem_filter] at hmem
    exact hmem.1.2
  | runsListByThread threadId query =>
    obtain ⟨run, hrun, rfl⟩ := List.mem_map.mp h
    have hmem := mem_of_mem_pageRows hrun
    rw [List.mem_filter, runsListByThread_ownedStore, List.mem_filter] at hmem
    exact hmem.1.2
  | cronsGet cronId =>
    obtain ⟨cron, hcron, rfl⟩ := List.mem_map.mp h
    rw [Option.mem_toList, cronsGet, ownedStore, Table.get?_filter] at hcron
    exact (Option.filter_eq_some_iff.mp hcron).2
  | cronsSearch query =>
    obtain ⟨cron, hcron, rfl⟩ := List.mem_map.mp h
    exact matchingCrons_ownedStore filters store (mem_of_mem_pageRows hcron)
  | threadsCount query | runsGetResult runId | cronsCount query => simp [plainRead,
      ScopedAnswer.metadata] at h

/-- Every scoped read answers as the bare driver over the caller's own rows: no row of someone
else is handed out or counted, and an `enforcedMetadata` of the caller changes nothing. -/
theorem scopedRead_confined (read : ScopedRead) :
    (scopedRead matchesFilters filters store read =
      .ok (plainRead (ownedStore matchesFilters filters store) read)) ∧
    (∀ answer, scopedRead matchesFilters filters store read = .ok answer →
      ∀ metadata ∈ answer.metadata, matchesFilters metadata filters = true) ∧
    ∀ metadata, scopedRead matchesFilters filters store (read.enforcing metadata) =
      scopedRead matchesFilters filters store read := by
  have howned := scopedRead_owned hengine filters store
  refine ⟨howned read, ?_, ?_⟩
  · intro answer hanswer metadata hmem
    rw [howned] at hanswer
    exact plainRead_metadata filters store read (Except.ok.inj hanswer ▸ hmem)
  · intro metadata
    rw [howned, howned]
    cases read <;> rfl

end Reads

def annThread : Thread Json where
  threadId := .of "t1"
  createdAt := 1
  updatedAt := 1
  stateUpdatedAt := 1
  metadata := .obj [("owner", .str "ann")]
  status := .idle
  values := .obj []
  interrupts := .obj []

def annRun : Run Json where
  runId := .of "r1"
  threadId := .of "t1"
  assistantId := .of "a1"
  createdAt := 2
  updatedAt := 2
  status := .running
  metadata := .obj [("owner", .str "ann")]
  multitaskStrategy := none

def annStore : MemorySkeinStore Json := {
  threads := Table.write ∅ annThread
  runs := Table.write ∅ annRun }

/-- Ann's rows with a thread of Bob's and a run of his on it. -/
def sharedStore : MemorySkeinStore Json := { annStore with
  threads := annStore.threads.write { annThread with
    threadId := .of "t2", createdAt := 3, metadata := .obj [("owner", .str "bob")] }
  runs := annStore.runs.write { annRun with
    runId := .of "r2", threadId := .of "t2", metadata := .obj [("owner", .str "bob")] } }

theorem annStore_matching (query : ThreadSearchQuery)
    (haccepts : query.accepts annThread = true) (henforced : query.enforcedMetadata = none) :
    (ownedStore plainEngine (ownerFilter "ann") sharedStore).matchingThreads query =
      [annThread] := by
  have hrows : (ownedStore plainEngine (ownerFilter "ann") sharedStore).threads.values =
    [annThread] := rfl
  have hmatches : isMetadataSubset annThread.metadata none = true := rfl
  simp [matchingThreads, hrows, haccepts, henforced, hmatches]

/-- The bare driver counts both threads; Ann counts one and finds hers, even where she asks for
Bob's. -/
theorem sampleRead_confined :
    plainRead sharedStore (.threadsCount {}) = .count 2 ∧
    scopedRead plainEngine (ownerFilter "ann") sharedStore (.threadsCount {}) = .ok (.count 1) ∧
    scopedRead plainEngine (ownerFilter "ann") sharedStore (.threadsSearch {}) =
      .ok (.threads [annThread]) ∧
    scopedRead plainEngine (ownerFilter "ann") sharedStore
        ((ScopedRead.threadsSearch {}).enforcing (some (.obj [("owner", .str "bob")]))) =
      .ok (.threads [annThread]) := by
  have hengine : MirrorsClauses plainEngine := fun _ _ => rfl
  have hconfined := scopedRead_confined hengine (ownerFilter "ann") sharedStore
  have hmatching := annStore_matching {} rfl rfl
  have hcount := (hconfined (.threadsCount {})).1
  have hsearch := (hconfined (.threadsSearch {})).1
  rw [plainRead, threadsCount, hmatching] at hcount
  rw [plainRead, threadsSearch, hmatching] at hsearch
  refine ⟨?_, hcount, hsearch, ((hconfined (.threadsSearch {})).2.2 _).trans hsearch⟩
  rw [plainRead, threadsCount, matchingThreads, List.length_mergeSort]
  rfl

end Skein
