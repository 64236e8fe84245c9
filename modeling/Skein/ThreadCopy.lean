import Mathlib.Data.List.Sort
import Mathlib.Data.Prod.Lex
import Mathlib.Data.String.Basic
import Skein.CheckpointHistory
import Skein.JsonValues
import Skein.MemoryStore

/-!
# Copying a thread

`ThreadService.copy` copies a thread row and its checkpoints and creates its finished runs again
under the copy, one by one, with new identifiers and new timestamps. The graph of a thread is
that of its newest run.
-/
namespace Skein

namespace Json

instance : WireJson Json where
  emptyCollection := obj []
  spread a b := obj (b.spreadFields.foldl (fun fields field =>
    OrderedMap.setEntry field.1 field.2 fields) a.spreadFields)
  roundTrip v := parse (stringify v)
  roundTrip_parsed _ w _ := parse_stringify w
  clones _ := true

end Json

section Newest
variable {J : Type*}

/-- What `latestForThread` compares: the creation, then the identifier. -/
def Run.recency (run : Run J) : ℕ ×ₗ String := toLex (run.createdAt, run.runId.value)

/-- What `latestForThread` chooses among `runs`. -/
def newestOf (runs : List (Run J)) : Option (Run J) :=
  runs.foldl
    (fun latest run =>
      match latest with
      | none => some run
      | some best =>
        if best.createdAt < run.createdAt ∨
            (run.createdAt = best.createdAt ∧ best.runId.value < run.runId.value) then some run
        else some best)
    none

end Newest

namespace MemorySkeinStore
variable {J : Type*}

/-- `runs.listByThread` without a page. -/
def runsListByThread (store : MemorySkeinStore J) (threadId : ThreadId) : List (Run J) :=
  store.runs.values.filter fun run => run.threadId = threadId

/-- `runs.getResult`. -/
def runsGetResult (store : MemorySkeinStore J) (runId : RunId) : Option J :=
  if store.runs.contains runId then store.runResults.get? runId else none

/-- The row `threads.copy` writes. -/
def copiedThread (existing : Thread J) (uuid : ThreadId) (now : Timestamp) : Thread J :=
  { existing with threadId := uuid, createdAt := now, updatedAt := now, stateUpdatedAt := now }

/-- `threads.copy`; `uuid` is what `randomUUID` produces. -/
def threadsCopy (store : MemorySkeinStore J) (threadId uuid : ThreadId) (now : Timestamp) :
    Completion J (Thread J) :=
  match store.threads.get? threadId with
  | none =>
    (.error (.http (.notFound ("Thread \"" ++ threadId.value ++ "\" not found."))), store)
  | some existing =>
    (.ok (copiedThread existing uuid now),
      { store with threads := store.threads.write (copiedThread existing uuid now) })

end MemorySkeinStore

/-- What the copy of a thread draws and reads off the clock. -/
structure CopyDraws where
  threadUuid : ThreadId
  /-- The identifier drawn for the image of a run. -/
  runUuid : RunId → RunId
  copiedAt : Timestamp
  /-- The clock when the image of a run is created. -/
  createdAt : RunId → Timestamp
  freedAt : Timestamp

inductive CopyError
  | thrown (error : Thrown)
  | history (error : HistoryError)

/-- The store, and the checkpointer with the faults its calls still meet. -/
structure CopyWorld (C : ThreadCheckpointer) where
  store : MemorySkeinStore Json
  saver : Faulty C.Store

section Copy
variable (draws : CopyDraws) (sourceRuns : List (Run Json))

/-- The finished runs of the source, in the order of the loop. -/
def copyOrder : List (Run Json) :=
  (sourceRuns.insertionSort fun a b => a.createdAt ≤ b.createdAt).filter fun run =>
    run.status.isTerminal

/-- `copiedRunIds.get`. -/
def copiedRunId? (runId : String) : Option String :=
  (sourceRuns.find? fun run => run.status.isTerminal && run.runId.value = runId).map fun run =>
    (draws.runUuid run.runId).value

/-- A reference to a run of the source, as the copy has it. -/
def copiedReference (reference : Json) : Json :=
  match reference with
  | .str runId => .str ((copiedRunId? draws sourceRuns runId).getD runId)
  | other => other

/-- The kwargs of an image, without the native origin and what would notify anyone twice. -/
def copiedKwargs (kwargs : RunKwargs Json) : RunKwargs Json :=
  let native := (kwargs.rest.member? "native_origin").any Json.isTruthy
  let delivery := (kwargs.rest.member? "terminal_delivery").any Json.isTruthy
  let webhook := (kwargs.rest.member? "webhook").filter Json.isTruthy
  let copied := ((kwargs.rest.withoutMember "native_origin").withoutMember
    "terminal_delivery").withoutMember "webhook"
  let kept :=
    if native || delivery then copied else webhook.elim copied (copied.withMember "webhook")
  match (kept.member? "a2a_origin").filter Json.isTruthy with
  | none => { kwargs with rest := kept }
  | some origin =>
    let rewrite (origin : Json) (field : String) (f : Json → Json) : Json :=
      match (origin.member? field).filter Json.isTruthy with
      | none => origin
      | some value => origin.withMember field (f value)
    let origin := rewrite origin "rootId" (copiedReference draws sourceRuns)
    let origin := rewrite origin "expectedRunId" (copiedReference draws sourceRuns)
    let origin := rewrite origin "checkpoint"
      (·.withMember "thread_id" (.str draws.threadUuid.value))
    { kwargs with rest := kept.withMember "a2a_origin" origin }

def copiedMetadata (run : Run Json) (kwargs : Option (RunKwargs Json)) : Json :=
  let metadata := match run.metadata.member? "skein_a2a_root" with
    | some (.str rootId) =>
      run.metadata.withMember "skein_a2a_root" (copiedReference draws sourceRuns (.str rootId))
    | _ => run.metadata
  let origin := (kwargs.bind fun kwargs => kwargs.rest.member? "a2a_origin").any Json.isTruthy
  match metadata.member? "skein_a2a_message" with
  | some (.obj original) =>
    if origin then
      let taskId := match metadata.member? "skein_a2a_root" with
        | none | some .null => .str (draws.runUuid run.runId).value
        | some root => root
      metadata.withMember "skein_a2a_message"
        (((Json.obj original).withMember "contextId" (.str draws.threadUuid.value)).withMember
          "taskId" taskId)
    else metadata
  | _ => metadata

def copiedResult (result : Json) : Json :=
  match (result.member? "checkpoint").filter Json.isTruthy with
  | none => result
  | some checkpoint =>
    result.withMember "checkpoint"
      (checkpoint.withMember "thread_id" (.str draws.threadUuid.value))

/-- The body of the loop. -/
def copyRun (run : Run Json) (store : MemorySkeinStore Json) : Completion Json Unit :=
  let kwargs := (store.runKwargs.get? run.runId).map (copiedKwargs draws sourceRuns)
  let input : RunCreate Json := {
    runId := some (draws.runUuid run.runId)
    threadId := draws.threadUuid
    assistantId := run.assistantId
    status := some run.status
    metadata := some (copiedMetadata draws sourceRuns run kwargs)
    multitaskStrategy := run.multitaskStrategy
    kwargs := kwargs }
  match store.createRun input (draws.runUuid run.runId) (draws.createdAt run.runId) with
  | (.error e, store) => (.error e, store)
  | (.ok created, store) =>
    match (store.runsGetResult run.runId).filter Json.isTruthy with
    | none => (.ok (), store)
    | some result => store.runsRecordResult created.runId (copiedResult draws result)

def copyRuns : List (Run Json) → MemorySkeinStore Json → Completion Json Unit
  | [], store => (.ok (), store)
  | run :: rest, store =>
    match copyRun draws sourceRuns run store with
    | (.error e, store) => (.error e, store)
    | (.ok _, store) => copyRuns rest store

end Copy

/-- `ThreadService.copy`. -/
def copyThread {C : ThreadCheckpointer} (cloneCheckpoint : Checkpoint → Checkpoint)
    (draws : CopyDraws) (threadId : ThreadId) (world : CopyWorld C) :
    Except CopyError (Thread Json) × CopyWorld C :=
  match world.store.threadsCopy threadId draws.threadUuid draws.copiedAt with
  | (.error e, store) => (.error (.thrown e), { world with store })
  | (.ok copy, store) =>
    match copyCheckpointHistory C cloneCheckpoint threadId.value copy.threadId.value
        world.saver with
    | (.error e, saver) => (.error (.history e), ⟨store, saver⟩)
    | (.ok _, saver) =>
      let sourceRuns := store.runsListByThread threadId
      match copyRuns draws sourceRuns (copyOrder sourceRuns) store with
      | (.error e, store) => (.error (.thrown e), ⟨store, saver⟩)
      | (.ok _, store) =>
        if copy.status = .busy then
          match store.threadsUpdate copy.threadId { status := some .idle } draws.freedAt with
          | (.error e, store) => (.error (.thrown e), ⟨store, saver⟩)
          | (.ok updated, store) => (.ok updated, ⟨store, saver⟩)
        else (.ok copy, ⟨store, saver⟩)

structure GraphDeps where
  /-- `assistants.get`, of which the graph is read. -/
  assistantGraph : AssistantId → Option String
  graphsInclude : String → Bool

/-- Where `loadThreadGraph` takes a graph from. -/
inductive ThreadGraph
  | ofAssistant (assistantId : AssistantId) (graphId : String) (kwargs : Option (RunKwargs Json))
  | ofMetadata (graphId : String)

/-- `loadThreadGraph`, up to the loading of the graph it resolves. -/
def loadThreadGraph (deps : GraphDeps) (store : MemorySkeinStore Json) (threadId : ThreadId) :
    Except Thrown (Option ThreadGraph) :=
  match store.threadsGet threadId with
  | none => .error (.http (.notFound ("Thread \"" ++ threadId.value ++ "\" not found.")))
  | some thread =>
    let fallback := match thread.metadata.member? "graph_id" with
      | some (.str graphId) =>
        if graphId ≠ "" ∧ deps.graphsInclude graphId then some (.ofMetadata graphId) else none
      | _ => none
    match store.runsLatestForThread threadId with
    | none => .ok fallback
    | some latest =>
      match deps.assistantGraph latest.assistantId with
      | none => .ok fallback
      | some graphId =>
        .ok (some (.ofAssistant latest.assistantId graphId (store.runKwargs.get? latest.runId)))

/-- The assistant a resolved graph is that of. -/
def ThreadGraph.assistant? : ThreadGraph → Option AssistantId
  | ofAssistant assistantId _ _ => some assistantId
  | ofMetadata _ => none

end Skein
