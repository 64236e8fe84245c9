import Skein.AssistantRepos
import Skein.Dispatches
import Skein.Machine
import Skein.ThreadCopy

/-!
# What a native state read shows

`readNativeState` resolves a target by three reads, has it allowed and authorized, resolves it
again under the thread's claim and then reads the state through repositories whose lookups of
the target are overridden. Anything may happen to the store at every await. The row that the
overridden repository answers with is read once more, after the two resolutions were compared.
-/
namespace Skein

/-- `overrideReads`: the method of the overrides, or else that of the repository. -/
def overrideReads {K : Type*} {V : K → Type*} (target : ∀ k, V k) (overrides : ∀ k, Option (V k)) :
    ∀ k, V k :=
  fun k => (overrides k).getD (target k)

theorem overrideReads_none {K : Type*} {V : K → Type*} {target : ∀ k, V k}
    {overrides : ∀ k, Option (V k)} {k : K} (h : overrides k = none) :
    overrideReads target overrides k = target k := by
  simp [overrideReads, h]

structure StateWorld where
  store : MemorySkeinStore Json
  assistants : AssistantTables Json := {}

/-- The reads of the thread, run and assistant repositories. -/
inductive StateMethod
  | threadsGet | runsGet | runsListByThread | runsLatestForThread | runsGetKwargs | assistantsGet
  deriving DecidableEq, Repr

def StateMethod.Signature : StateMethod → Type
  | threadsGet => ThreadId → Option (Thread Json)
  | runsGet => RunId → Option (Run Json)
  | runsListByThread => ThreadId → List (Run Json)
  | runsLatestForThread => ThreadId → Option (Run Json)
  | runsGetKwargs => RunId → Option (RunKwargs Json)
  | assistantsGet => AssistantId → Option (Assistant Json)

abbrev StateReads := ∀ method : StateMethod, method.Signature

def StateWorld.reads (world : StateWorld) : StateReads
  | .threadsGet => world.store.threadsGet
  | .runsGet => world.store.runsGet
  | .runsListByThread => world.store.runsListByThread
  | .runsLatestForThread => world.store.runsLatestForThread
  | .runsGetKwargs => world.store.runKwargs.get?
  | .assistantsGet => world.assistants.assistants.get?

/-- The reads of `createAuthScopedStore`; the newest run, the kwargs and the assistants are
not filtered. -/
def authScopedReads (matchesFilters : Json → Bool) (inner : StateReads) : StateReads :=
  overrideReads inner fun
    | .threadsGet => some fun id =>
      (inner .threadsGet id).filter fun thread => matchesFilters thread.metadata
    | .runsGet => some fun id => (inner .runsGet id).filter fun run => matchesFilters run.metadata
    | .runsListByThread => some fun id =>
      (inner .runsListByThread id).filter fun run => matchesFilters run.metadata
    | _ => none

/-- The string under `graph_id`. -/
def threadGraphId (thread : Thread Json) : Option String :=
  match thread.metadata.member? "graph_id" with
  | some (.str graphId) => some graphId
  | _ => none

/-- What `resolveStateTarget` returns. -/
structure StateTargetOf (J : Type*) where
  thread : Thread J
  latest : Option (Run J)
  assistant : Option (Assistant J)
  deriving DecidableEq

abbrev StateTarget := StateTargetOf Json

def StateTarget.assistantId (target : StateTarget) : Option String :=
  match target.latest, target.assistant with
  | some latest, some _ => some latest.assistantId.value
  | _, _ => threadGraphId target.thread

/-- The target with its payloads written out. -/
def StateTarget.written (canonicalJson : Json → List Char) (target : StateTarget) :
    StateTargetOf (List Char) where
  thread := { target.thread with
    metadata := canonicalJson target.thread.metadata
    values := canonicalJson target.thread.values
    interrupts := canonicalJson target.thread.interrupts }
  latest := target.latest.map fun run => { run with
    metadata := canonicalJson run.metadata
    error := run.error.map canonicalJson }
  assistant := target.assistant.map fun assistant => { assistant with
    config := canonicalJson assistant.config
    context := canonicalJson assistant.context
    metadata := canonicalJson assistant.metadata }

/-- The repositories that the state is read through. -/
def frozenReads (threadId : ThreadId) (target : StateTarget) (thread : Thread Json)
    (store : StateReads) : StateReads :=
  overrideReads store fun
    | .threadsGet => some fun id => if id = threadId then some thread else store .threadsGet id
    | .runsLatestForThread => some fun id =>
      if id = threadId then target.latest else store .runsLatestForThread id
    | .assistantsGet => some fun id =>
      if some id = target.latest.map Run.assistantId then target.assistant
      else store .assistantsGet id
    | _ => none

/-- Where a read is; what it has read so far is carried along. A resolution knows the target
it is compared with, which the first has not. -/
inductive StatePhase
  | resolveThread (shown : Option StateTarget)
  | resolveLatest (shown : Option StateTarget) (thread : Thread Json)
  | resolveAssistant (shown : Option StateTarget) (thread : Thread Json) (latest : Run Json)
  | allowing (target : StateTarget) (assistantId : String)
  | authorizing (target : StateTarget)
  | claiming (target : StateTarget)
  /-- `threads.get` of the authorized service. -/
  | readThread (target : StateTarget)
  /-- The reads of `loadThreadGraph`, through the overridden repositories. -/
  | loadThread (target : StateTarget) (thread : Thread Json)
  | loadLatest (target : StateTarget) (thread row : Thread Json)
  | loadAssistant (target : StateTarget) (thread row : Thread Json) (latest : Run Json)
  | loadKwargs (target : StateTarget) (thread : Thread Json) (latest : Run Json)
    (assistant : Assistant Json)
  /-- The checkpoint is read. -/
  | reading
  | ended (error : Option Thrown)

/-- A read in its world, with what it asked `allowAssistant`, the target that was authorized,
the filters it got, the row its state is read for and the graph whose factory is built. -/
structure StateRead where
  world : StateWorld
  phase : StatePhase := .resolveThread none
  allowed : Option String := none
  shown : Option StateTarget := none
  matchesFilters : Json → Bool := fun _ => true
  used : Option (Thread Json) := none
  built : Option ThreadGraph := none

/-- What others do at an await. -/
inductive StateMutation
  | admitRun (input : RunAdmission Json) (draws : AdmissionDraws)
  | createRun (input : RunCreate Json) (uuid : RunId) (now : Timestamp)
  | setStatus (runId : RunId) (status : RunStatus) (error : Option Json) (now : Timestamp)
  | settle (runId : RunId) (final : RunSettlement Json) (uuid : DeliveryId) (now : Timestamp)
  | deleteRun (runId : RunId)
  | createThread (input : MemorySkeinStore.ThreadCreate Json) (uuid : ThreadId) (now : Timestamp)
  | updateThread (threadId : ThreadId) (patch : MemorySkeinStore.ThreadUpdate Json)
    (now : Timestamp)
  | deleteThread (threadId : ThreadId)
  | assistant (call : AssistantCall Json)

def StateWorld.mutate (world : StateWorld) : StateMutation → StateWorld
  | .admitRun input draws => { world with store := (world.store.admitRun input draws).2 }
  | .createRun input uuid now => { world with store := (world.store.createRun input uuid now).2 }
  | .setStatus runId status error now =>
    { world with store := (world.store.runsSetStatus runId status error now).2 }
  | .settle runId final uuid now =>
    { world with store := (world.store.runsSettle runId final uuid now).2 }
  | .deleteRun runId => { world with store := world.store.runsDelete runId }
  | .createThread input uuid now =>
    { world with store := (world.store.threadsCreate input uuid now).2 }
  | .updateThread threadId patch now =>
    { world with store := (world.store.threadsUpdate threadId patch now).2 }
  | .deleteThread threadId => { world with store := world.store.threadsDelete threadId }
  | .assistant call =>
    { world with
      assistants := (memoryAssistants.step world.assistants call).getD world.assistants }

/-- A turn of the read or of the others. -/
inductive StateTurn
  | others (mutation : StateMutation)
  /-- The read goes on; whom it asks agrees. -/
  | advance
  /-- `authorize` agrees, with the filters of its context. -/
  | authorized (matchesFilters : Json → Bool)
  /-- `allowAssistant`, `authorize`, the claim or the lease signal throws. -/
  | refuse (error : Thrown)

section Steps
variable (canonicalJson : Json → List Char) (threadId : ThreadId) (graphsInclude : String → Bool)

def stateChanged : Thrown :=
  .http (.conflict "The state target changed; retry the read." (some "native_state_changed"))

namespace StateRead
variable (read : StateRead)

def fail (error : Thrown) : StateRead := { read with phase := .ended (some error) }

/-- After a resolution: the first is shown, the second is compared with it. -/
def resolved (target : StateTarget) : Option StateTarget → StateRead
  | none =>
    match target.assistantId with
    | none => { read with phase := .authorizing target }
    | some id =>
      if id = "" then { read with phase := .authorizing target }
      else { read with phase := .allowing target id }
  | some shown =>
    if shown.written canonicalJson ≠ target.written canonicalJson then read.fail stateChanged
    else { read with phase := .readThread shown }

/-- `buildGraph` without a run: the row's own graph, where it is served. -/
def fallback (row : Thread Json) : StateRead :=
  match threadGraphId row with
  | none => { read with phase := .ended none }
  | some graphId =>
    if graphId ≠ "" ∧ graphsInclude graphId then
      { read with phase := .reading, built := some (.ofMetadata graphId) }
    else { read with phase := .ended none }

/-- The repositories of the authorized service. -/
def authorizedReads : StateReads := authScopedReads read.matchesFilters read.world.reads

/-- A turn of the read. -/
def advance : Option StateRead :=
  match read.phase with
  | .resolveThread shown =>
    match read.world.reads .threadsGet threadId with
    | none => some (read.fail (.http (.notFound "Thread not found.")))
    | some thread => some { read with phase := .resolveLatest shown thread }
  | .resolveLatest shown thread =>
    match read.world.reads .runsLatestForThread threadId with
    | none => some (read.resolved canonicalJson ⟨thread, none, none⟩ shown)
    | some latest => some { read with phase := .resolveAssistant shown thread latest }
  | .resolveAssistant shown thread latest =>
    let assistant := read.world.reads .assistantsGet latest.assistantId
    some (read.resolved canonicalJson ⟨thread, some latest, assistant⟩ shown)
  | .allowing target id => some { read with phase := .authorizing target, allowed := some id }
  | .authorizing _ => none
  | .claiming target => some { read with phase := .resolveThread (some target) }
  | .readThread target =>
    match read.authorizedReads .threadsGet threadId with
    | none =>
      some (read.fail (.http (.notFound ("Thread \"" ++ threadId.value ++ "\" not found."))))
    | some thread => some { read with phase := .loadThread target thread, used := some thread }
  | .loadThread target thread =>
    match frozenReads threadId target thread read.authorizedReads .threadsGet threadId with
    | none =>
      some (read.fail (.http (.notFound ("Thread \"" ++ threadId.value ++ "\" not found."))))
    | some row => some { read with phase := .loadLatest target thread row }
  | .loadLatest target thread row =>
    match frozenReads threadId target thread read.authorizedReads .runsLatestForThread threadId with
    | none => some (read.fallback graphsInclude row)
    | some latest => some { read with phase := .loadAssistant target thread row latest }
  | .loadAssistant target thread row latest =>
    match frozenReads threadId target thread read.authorizedReads .assistantsGet
        latest.assistantId with
    | none => some (read.fallback graphsInclude row)
    | some assistant => some { read with phase := .loadKwargs target thread latest assistant }
  | .loadKwargs target thread latest assistant =>
    -- Not overridden: the kwargs are those the run has now.
    let kwargs :=
      frozenReads threadId target thread read.authorizedReads .runsGetKwargs latest.runId
    some { read with
      phase := .reading
      built := some (.ofAssistant latest.assistantId assistant.graphId kwargs) }
  | .reading => some { read with phase := .ended none }
  | .ended _ => none

/-- Whether a turn can end with an error that no read finds. -/
def mayRefuse : Bool :=
  match read.phase with
  | .allowing .. | .authorizing _ | .claiming _ | .readThread _ | .reading => true
  | _ => false

end StateRead

def nativeStateStep (read : StateRead) : StateTurn → Option StateRead
  | .others mutation => some { read with world := read.world.mutate mutation }
  | .advance => read.advance canonicalJson threadId graphsInclude
  | .authorized matchesFilters =>
    match read.phase with
    | .authorizing target =>
      some { read with phase := .claiming target, shown := some target, matchesFilters }
    | _ => none
  | .refuse error => if read.mayRefuse then some (read.fail error) else none

def nativeStateReads : Machine StateRead StateTurn where
  step := nativeStateStep canonicalJson threadId graphsInclude

end Steps

section Frozen
variable {threadId : ThreadId} {target : StateTarget} {thread : Thread Json} {store : StateReads}

/-- Reads of other threads, runs and assistants are those of the repositories. -/
structure KeepsOtherReads (threadId : ThreadId) (target : StateTarget) (frozen store : StateReads) :
    Prop where
  threads : ∀ id ≠ threadId, frozen .threadsGet id = store .threadsGet id
  latest : ∀ id ≠ threadId, frozen .runsLatestForThread id = store .runsLatestForThread id
  assistants : ∀ id, some id ≠ target.latest.map Run.assistantId →
    frozen .assistantsGet id = store .assistantsGet id
  runs : frozen .runsGet = store .runsGet
  listed : frozen .runsListByThread = store .runsListByThread
  kwargs : frozen .runsGetKwargs = store .runsGetKwargs

theorem frozenReads_threadsGet (id : ThreadId) :
    frozenReads threadId target thread store .threadsGet id =
      if id = threadId then some thread else store .threadsGet id :=
  rfl

theorem frozenReads_runsLatestForThread (id : ThreadId) :
    frozenReads threadId target thread store .runsLatestForThread id =
      if id = threadId then target.latest else store .runsLatestForThread id :=
  rfl

theorem frozenReads_assistantsGet (id : AssistantId) :
    frozenReads threadId target thread store .assistantsGet id =
      if some id = target.latest.map Run.assistantId then target.assistant
      else store .assistantsGet id :=
  rfl

theorem frozenReads_keepsOtherReads :
    KeepsOtherReads threadId target (frozenReads threadId target thread store) store where
  threads id hid := by rw [frozenReads_threadsGet, if_neg hid]
  latest id hid := by rw [frozenReads_runsLatestForThread, if_neg hid]
  assistants id hid := by rw [frozenReads_assistantsGet, if_neg hid]
  runs := overrideReads_none rfl
  listed := overrideReads_none rfl
  kwargs := overrideReads_none rfl

end Frozen

/-- What `allowAssistant` is asked where a graph is built. -/
def ThreadGraph.askedAs : ThreadGraph → String
  | ofAssistant assistantId _ _ => assistantId.value
  | ofMetadata graphId => graphId

/-- The graph of a target whose row is `row`. -/
def ThreadGraph.OfTarget (target : StateTarget) (row : Thread Json) : ThreadGraph → Prop
  | ofAssistant assistantId graphId _ =>
    target.latest.map Run.assistantId = some assistantId ∧
      (target.assistant.map fun assistant => assistant.graphId) = some graphId
  | ofMetadata graphId =>
    (target.latest = none ∨ target.assistant = none) ∧ threadGraphId row = some graphId ∧
      graphId ≠ ""

theorem ThreadGraph.OfTarget.assistantId {target : StateTarget} {graph : ThreadGraph}
    (h : graph.OfTarget target target.thread) :
    StateTarget.assistantId target = some graph.askedAs := by
  obtain ⟨thread, latest, assistant⟩ := target
  cases graph with
  | ofAssistant assistantId graphId kwargs =>
    obtain ⟨hlatest, hassistant⟩ := h
    obtain ⟨run, rfl, rfl⟩ := Option.map_eq_some_iff.mp hlatest
    obtain ⟨row, rfl, rfl⟩ := Option.map_eq_some_iff.mp hassistant
    rfl
  | ofMetadata graphId =>
    obtain ⟨rfl | rfl, hgraph, -⟩ := h
    · exact hgraph
    · cases latest <;> exact hgraph

theorem ThreadGraph.askedAs_ne_empty {target : StateTarget} {row : Thread Json}
    {graph : ThreadGraph} (h : graph.OfTarget target row) : graph.askedAs ≠ "" := by
  cases graph with
  | ofAssistant assistantId graphId kwargs => exact assistantId.nonempty
  | ofMetadata graphId => exact h.2.2

namespace StateRead

/-- The row and the factory of a read are those of the target that was authorized, and the
factory is one that was allowed. -/
structure ShowsTarget (read : StateRead) : Prop where
  row : ∀ row, read.used = some row → ∃ target, read.shown = some target ∧ target.thread = row
  factory : ∀ graph, read.built = some graph → read.allowed = some graph.askedAs ∧
    ∃ target, read.shown = some target ∧ graph.OfTarget target target.thread

/-- Whom the target names has been allowed. -/
def Asked (read : StateRead) (target : StateTarget) : Prop :=
  ∀ id, target.assistantId = some id → id ≠ "" → read.allowed = some id

/-- The target was authorized, after whom it names was allowed. -/
def Authorized (read : StateRead) (target : StateTarget) : Prop :=
  read.shown = some target ∧ read.Asked target

/-- What each phase knows of the target and the row. -/
def Pending (read : StateRead) : Prop :=
  match read.phase with
  | .resolveThread none | .resolveLatest none _ | .resolveAssistant none .. =>
    read.used = none ∧ read.built = none
  | .allowing target id =>
    (read.used = none ∧ read.built = none) ∧ target.assistantId = some id
  | .authorizing target => (read.used = none ∧ read.built = none) ∧ read.Asked target
  | .resolveThread (some target) | .resolveLatest (some target) _
  | .resolveAssistant (some target) .. | .claiming target | .readThread target =>
    (read.used = none ∧ read.built = none) ∧ read.Authorized target
  | .loadThread target thread =>
    read.built = none ∧ read.Authorized target ∧ read.used = some thread
  | .loadLatest target thread row =>
    read.built = none ∧ read.Authorized target ∧ read.used = some thread ∧ row = thread
  | .loadAssistant target thread row latest =>
    read.built = none ∧ read.Authorized target ∧ read.used = some thread ∧ row = thread ∧
      target.latest = some latest
  | .loadKwargs target thread latest assistant =>
    read.built = none ∧ read.Authorized target ∧ read.used = some thread ∧
      target.latest = some latest ∧ target.assistant = some assistant
  | .reading | .ended _ =>
    ∀ graph, read.built = some graph →
      ∃ target row, read.Authorized target ∧ read.used = some row ∧ graph.OfTarget target row

/-- Every row that is used is that of the target. -/
def RowShown (read : StateRead) : Prop :=
  ∀ row, read.used = some row → read.shown.map StateTargetOf.thread = some row

section Steps
variable {canonicalJson : Json → List Char} {threadId : ThreadId} {graphsInclude : String → Bool}
  {read next : StateRead}

theorem pending_ended_of_unused {error : Option Thrown} (hphase : read.phase = .ended error)
    (hbuilt : read.built = none) : read.Pending := by
  simp [Pending, hphase, hbuilt]

/-- A resolution. -/
theorem pending_resolved {target : StateTarget} {shown : Option StateTarget}
    (hunused : read.used = none ∧ read.built = none)
    (hshown : ∀ first, shown = some first → read.Authorized first) :
    (read.resolved canonicalJson target shown).Pending := by
  cases shown with
  | none =>
    unfold resolved
    cases hid : target.assistantId with
    | none => exact ⟨hunused, fun id h => by simp [hid] at h⟩
    | some id =>
      by_cases hempty : id = ""
      · simp only [hempty, if_pos]
        exact ⟨hunused, fun other h hne => absurd (by simp_all) hne⟩
      · simp only [if_neg hempty]
        exact ⟨hunused, hid⟩
  | some first =>
    unfold resolved
    dsimp only
    split_ifs
    · exact pending_ended_of_unused rfl hunused.2
    · exact ⟨hunused, hshown first rfl⟩

/-- The graph of the row itself. -/
theorem pending_fallback {target : StateTarget} {row : Thread Json} (hbuilt : read.built = none)
    (hauthorized : read.Authorized target) (hused : read.used = some row)
    (hnone : target.latest = none ∨ target.assistant = none) :
    (read.fallback graphsInclude row).Pending := by
  have hended : ∀ error, ({ read with phase := .ended error } : StateRead).Pending := by
    exact fun _ graph hgraph => by simp [hbuilt] at hgraph
  unfold fallback
  cases hgraph : threadGraphId row with
  | none => exact hended none
  | some graphId =>
    dsimp only
    split_ifs with hserved
    · rintro graph ⟨⟩
      exact ⟨target, row, hauthorized, hused, hnone, hgraph, hserved.1⟩
    · exact hended none

/-- A failing read builds nothing more. -/
theorem Pending.fail (h : read.Pending) (error : Thrown) : (read.fail error).Pending := by
  obtain ⟨world, phase, allowed, shown, matchesFilters, used, built⟩ := read
  cases phase with
  | resolveThread first | resolveLatest first | resolveAssistant first =>
    cases first with
    | none => exact pending_ended_of_unused rfl h.2
    | some first => exact pending_ended_of_unused rfl h.1.2
  | allowing | authorizing | claiming | readThread => exact pending_ended_of_unused rfl h.1.2
  | loadThread | loadLatest | loadAssistant | loadKwargs => exact pending_ended_of_unused rfl h.1
  | reading | ended => exact h

/-- What a resolution knows. -/
theorem pending_resolving (first : Option StateTarget) (phase : StatePhase)
    (hphase : read.phase = phase) (hresolving : phase = .resolveThread first ∨
      (∃ thread, phase = .resolveLatest first thread) ∨
      ∃ thread latest, phase = .resolveAssistant first thread latest) :
    read.Pending ↔ (read.used = none ∧ read.built = none) ∧
      ∀ target, first = some target → read.Authorized target := by
  obtain rfl | ⟨thread, rfl⟩ | ⟨thread, latest, rfl⟩ := hresolving <;> cases first <;>
    simp [Pending, hphase]

theorem advance_pending (h : read.Pending)
    (hstep : read.advance canonicalJson threadId graphsInclude = some next) : next.Pending := by
  unfold advance at hstep
  split at hstep
  case h_1 first hphase =>
    have hknown := (pending_resolving first _ hphase (.inl rfl)).mp h
    split at hstep <;> cases hstep
    · exact h.fail _
    · exact (pending_resolving first _ rfl (.inr (.inl ⟨_, rfl⟩))).mpr hknown
  case h_2 first thread hphase =>
    have hknown := (pending_resolving first _ hphase (.inr (.inl ⟨_, rfl⟩))).mp h
    split at hstep <;> cases hstep
    · exact pending_resolved hknown.1 hknown.2
    · exact (pending_resolving first _ rfl (.inr (.inr ⟨_, _, rfl⟩))).mpr hknown
  case h_3 first thread latest hphase =>
    have hknown := (pending_resolving first _ hphase (.inr (.inr ⟨_, _, rfl⟩))).mp h
    cases hstep
    exact pending_resolved hknown.1 hknown.2
  case h_4 target id hphase =>
    simp only [Pending, hphase] at h
    cases hstep
    refine ⟨h.1, fun other hother _ => ?_⟩
    rw [← hother, h.2]
  case h_5 => cases hstep
  case h_6 target hphase =>
    simp only [Pending, hphase] at h
    cases hstep
    exact h
  case h_7 target hphase =>
    split at hstep <;> cases hstep
    · exact h.fail _
    · simp only [Pending, hphase] at h
      exact ⟨h.1.2, h.2, rfl⟩
  case h_8 target thread hphase =>
    simp only [frozenReads_threadsGet, if_true] at hstep
    simp only [Pending, hphase] at h
    cases hstep
    exact ⟨h.1, h.2.1, h.2.2, rfl⟩
  case h_9 target thread row hphase =>
    simp only [frozenReads_runsLatestForThread, if_true] at hstep
    simp only [Pending, hphase] at h
    obtain ⟨hbuilt, hauthorized, hused, rfl⟩ := h
    cases hlatest : target.latest with
    | none =>
      simp only [hlatest] at hstep
      cases hstep
      exact pending_fallback hbuilt hauthorized hused (.inl hlatest)
    | some latest =>
      simp only [hlatest] at hstep
      cases hstep
      exact ⟨hbuilt, hauthorized, hused, rfl, hlatest⟩
  case h_10 target thread row latest hphase =>
    simp only [Pending, hphase] at h
    obtain ⟨hbuilt, hauthorized, hused, rfl, hlatest⟩ := h
    simp only [frozenReads_assistantsGet, hlatest, Option.map_some, if_true] at hstep
    cases hassistant : target.assistant with
    | none =>
      simp only [hassistant] at hstep
      cases hstep
      exact pending_fallback hbuilt hauthorized hused (.inr hassistant)
    | some assistant =>
      simp only [hassistant] at hstep
      cases hstep
      exact ⟨hbuilt, hauthorized, hused, hlatest, hassistant⟩
  case h_11 target thread latest assistant hphase =>
    simp only [Pending, hphase] at h
    obtain ⟨hbuilt, hauthorized, hused, hlatest, hassistant⟩ := h
    cases hstep
    rintro graph ⟨⟩
    exact ⟨target, thread, hauthorized, hused, by simp [hlatest], by simp [hassistant]⟩
  case h_12 hphase =>
    simp only [Pending, hphase] at h
    cases hstep
    exact h
  case h_13 => cases hstep

/-- A turn keeps what the phases know. -/
theorem nativeStateStep_pending {turn : StateTurn} (h : read.Pending)
    (hstep : nativeStateStep canonicalJson threadId graphsInclude read turn = some next) :
    next.Pending := by
  cases turn with
  | others mutation =>
    cases hstep
    exact h
  | advance => exact advance_pending h hstep
  | authorized matchesFilters =>
    simp only [nativeStateStep] at hstep
    split at hstep
    next target hphase =>
      simp only [Pending, hphase] at h
      cases hstep
      exact ⟨h.1, rfl, h.2⟩
    · cases hstep
  | refuse error =>
    unfold nativeStateStep at hstep
    dsimp only at hstep
    split_ifs at hstep
    cases hstep
    exact h.fail error

/-- A turn of the read other than that of the row leaves what it used and showed. -/
structure SameRow (read next : StateRead) : Prop where
  used : next.used = read.used
  shown : next.shown = read.shown

theorem SameRow.rowShown_iff (h : SameRow read next) : next.RowShown ↔ read.RowShown := by
  simp [RowShown, h.used, h.shown]

theorem resolved_sameRow (target : StateTarget) (shown : Option StateTarget) :
    SameRow read (read.resolved canonicalJson target shown) := by
  unfold resolved
  cases shown with
  | none =>
    cases target.assistantId with
    | none => exact ⟨rfl, rfl⟩
    | some id =>
      dsimp only
      split_ifs <;> exact ⟨rfl, rfl⟩
  | some first =>
    dsimp only
    split_ifs <;> exact ⟨rfl, rfl⟩

theorem fallback_sameRow (row : Thread Json) : SameRow read (read.fallback graphsInclude row) := by
  unfold fallback
  cases threadGraphId row with
  | none => exact ⟨rfl, rfl⟩
  | some graphId =>
    dsimp only
    split_ifs <;> exact ⟨rfl, rfl⟩

theorem advance_sameRow (hphase : ∀ target, read.phase ≠ .readThread target)
    (hstep : read.advance canonicalJson threadId graphsInclude = some next) :
    SameRow read next := by
  unfold advance at hstep
  split at hstep
  case h_2 | h_9 | h_10 =>
    split at hstep <;> cases hstep
    · first | exact resolved_sameRow _ _ | exact fallback_sameRow _
    · exact ⟨rfl, rfl⟩
  case h_3 =>
    cases hstep
    exact resolved_sameRow _ _
  case h_7 target heq => exact absurd heq (hphase target)
  case h_1 | h_8 => split at hstep <;> cases hstep <;> exact ⟨rfl, rfl⟩
  all_goals cases hstep
  all_goals exact ⟨rfl, rfl⟩

end Steps

/-- The row that the authorized repository finds after the resolutions were compared is that of
the target. -/
def KeepsRow (threadId : ThreadId) (read : StateRead) (turn : StateTurn) : Prop :=
  turn = .advance → ∀ target row, read.phase = .readThread target →
    read.authorizedReads .threadsGet threadId = some row → row = target.thread

section Steps
variable {canonicalJson : Json → List Char} {threadId : ThreadId} {graphsInclude : String → Bool}
  {read next : StateRead}

/-- A turn keeps the row shown exactly where it is the target's that is read. -/
theorem nativeStateStep_rowShown_iff {turn : StateTurn} (h : read.Pending)
    (hstep : nativeStateStep canonicalJson threadId graphsInclude read turn = some next) :
    next.RowShown ↔ read.RowShown ∧ KeepsRow threadId read turn := by
  have hother : (turn = .advance → ∀ target, read.phase ≠ .readThread target) →
      KeepsRow threadId read turn :=
    fun hne hadvance target _ hphase => absurd hphase (hne hadvance target)
  cases turn with
  | others mutation =>
    cases hstep
    exact (and_iff_left (hother (fun h => by cases h))).symm
  | authorized matchesFilters =>
    rw [and_iff_left (hother (fun h => by cases h))]
    simp only [nativeStateStep] at hstep
    split at hstep
    next target hphase =>
      simp only [Pending, hphase] at h
      cases hstep
      simp [RowShown, h.1.1]
    · cases hstep
  | refuse error =>
    rw [and_iff_left (hother (fun h => by cases h))]
    simp only [nativeStateStep] at hstep
    split_ifs at hstep
    cases hstep
    exact SameRow.rowShown_iff ⟨rfl, rfl⟩
  | advance =>
    by_cases hphase : ∃ target, read.phase = .readThread target
    · obtain ⟨target, hphase⟩ := hphase
      simp only [Pending, hphase] at h
      obtain ⟨⟨hused, -⟩, hshown, -⟩ := h
      have hread : read.RowShown := fun row hrow => by simp [hused] at hrow
      rw [and_iff_right hread]
      simp only [nativeStateStep, advance, hphase] at hstep
      cases hrow : read.authorizedReads .threadsGet threadId with
      | none =>
        simp only [hrow] at hstep
        cases hstep
        refine iff_of_true hread fun _ _ row _ hsome => ?_
        rw [hrow] at hsome
        cases hsome
      | some thread =>
        simp only [hrow] at hstep
        cases hstep
        simp [RowShown, KeepsRow, hshown, hphase, hrow, eq_comm]
    · have hne : ∀ target, read.phase ≠ .readThread target := fun target heq =>
        hphase ⟨target, heq⟩
      rw [and_iff_left (hother fun _ => hne)]
      exact (advance_sameRow hne hstep).rowShown_iff

theorem ShowsTarget.rowShown (h : read.ShowsTarget) : read.RowShown := by
  intro row hrow
  obtain ⟨target, hshown, rfl⟩ := h.row row hrow
  simp [hshown]

/-- Where the row is the target's, so is the graph. -/
theorem RowShown.showsTarget (h : read.RowShown) (hpending : read.Pending) :
    read.ShowsTarget where
  row row hrow := Option.map_eq_some_iff.mp (h row hrow)
  factory graph hgraph := by
    have hbuilt : ∃ target row, read.Authorized target ∧ read.used = some row ∧
        graph.OfTarget target row := by
      unfold Pending at hpending
      split at hpending <;> simp_all
    obtain ⟨target, row, ⟨hshown, hasked⟩, hused, hgraph⟩ := hbuilt
    have hrow := h row hused
    rw [hshown] at hrow
    obtain rfl := Option.some.inj hrow
    exact ⟨hasked _ hgraph.assistantId (ThreadGraph.askedAs_ne_empty hgraph), target, hshown,
      hgraph⟩

end Steps
end StateRead

section Result
variable (canonicalJson : Json → List Char) (threadId : ThreadId) (graphsInclude : String → Bool)

/-- Whatever happens at the awaits of a read, it shows only the authorized target exactly where
the row that is read after the comparison is the target's; the overrides change no other
read. -/
theorem nativeStateRead_showsTarget_iff (world : StateWorld) (turns : List StateTurn)
    (read : StateRead)
    (hrun : (nativeStateReads canonicalJson threadId graphsInclude).run { world } turns =
      some read) :
    (read.ShowsTarget ↔ (nativeStateReads canonicalJson threadId graphsInclude).Along
      (StateRead.KeepsRow threadId) { world } turns) ∧
    ∀ target thread, KeepsOtherReads threadId target
      (frozenReads threadId target thread read.authorizedReads) read.authorizedReads := by
  have hfresh : StateRead.Pending { world } := And.intro rfl rfl
  have hstart : StateRead.RowShown { world } := fun row hrow => by cases hrow
  have hpending : read.Pending := Machine.run_invariant (I := fun r => StateRead.Pending r)
    (fun _ _ _ hs hstep => StateRead.nativeStateStep_pending hs hstep) hfresh hrun
  have hrow : read.RowShown ↔ StateRead.RowShown { world } ∧
      (nativeStateReads canonicalJson threadId graphsInclude).Along
        (StateRead.KeepsRow threadId) { world } turns :=
    Machine.run_iff_along (I := fun r => StateRead.Pending r) (P := fun r => StateRead.RowShown r)
      (fun _ _ _ hs hstep => StateRead.nativeStateStep_pending hs hstep)
      (fun _ _ _ hs hstep => StateRead.nativeStateStep_rowShown_iff hs hstep) hfresh hrun
  refine ⟨?_, fun target thread => frozenReads_keepsOtherReads⟩
  rw [← (hrow.trans (and_iff_right hstart))]
  exact ⟨fun h => h.rowShown, fun h => h.showsTarget hpending⟩

end Result

namespace StateRead

def openThread : Thread Json where
  threadId := .of "t"
  createdAt := 0
  updatedAt := 0
  stateUpdatedAt := 0
  metadata := .obj [("graph_id", .str "open")]
  status := .idle
  values := .null
  interrupts := .null

/-- A thread that has not run. -/
def openWorld : StateWorld where
  store := { threads := (∅ : Table ThreadId (Thread Json) Thread.threadId).write openThread }

/-- The read up to the comparison of the two resolutions. -/
def comparedTurns : List StateTurn :=
  [.advance, .advance, .advance, .authorized fun _ => true, .advance, .advance, .advance]

/-- The thread is patched before its row is read again. -/
def regraphed : StateTurn :=
  .others (.updateThread (.of "t") { metadata := some (.obj [("graph_id", .str "closed")]) } 1)

def loadTurns : List StateTurn := [.advance, .advance, .advance]

def openReads : Machine StateRead StateTurn :=
  nativeStateReads Json.stringify (.of "t") fun _ => true

/-- Only the graph `open` was allowed, and `closed` is built. -/
theorem regraphed_builds : ∃ read,
    openReads.run { world := openWorld } (comparedTurns ++ regraphed :: loadTurns) = some read ∧
      read.allowed = some "open" ∧ read.built = some (.ofMetadata "closed") ∧
        ¬read.ShowsTarget := by
  refine ⟨_, rfl, rfl, rfl, fun h => ?_⟩
  have hallowed : some "open" = some "closed" := (h.factory _ rfl).1
  simp at hallowed

/-- Undisturbed, the read shows the graph that was allowed. -/
theorem undisturbed_shows : ∃ read,
    openReads.run { world := openWorld } (comparedTurns ++ loadTurns) = some read ∧
      read.built = some (.ofMetadata "open") ∧ read.ShowsTarget := by
  refine ⟨_, rfl, rfl, ((nativeStateRead_showsTarget_iff Json.stringify (.of "t") (fun _ => true)
    openWorld (comparedTurns ++ loadTurns) _ rfl).1).mpr ?_⟩
  have hkept : ∀ target row, target = ⟨openThread, none, none⟩ → some openThread = some row →
      row = StateTargetOf.thread target := by
    rintro target row rfl hrow
    exact (Option.some.inj hrow).symm
  refine ⟨?_, ?_, ?_, ?_, ?_, ?_, ?_, ?_, ?_, ?_, trivial⟩ <;> intro _ target row hphase hrow
  case refine_8 => exact hkept target row (StatePhase.readThread.inj hphase).symm hrow
  all_goals cases hphase

end StateRead
end Skein
