import Skein.HistoryReplacement
import Skein.ThreadCopy

/-!
# What a copied thread resolves

A copy has an image of every finished run. Its newest run is the image of the source's newest
finished one exactly where that image is the newest by the clock and the identifiers of the
copy.
-/
namespace Skein

section Newest
variable {J : Type*}

theorem recency_lt_iff {a b : Run J} : a.recency < b.recency ↔
    a.createdAt < b.createdAt ∨ (a.createdAt = b.createdAt ∧ a.runId.value < b.runId.value) := by
  simp [Run.recency, Prod.Lex.toLex_lt_toLex]

/-- One run more: it takes the place of an older one. -/
def newer (latest : Option (Run J)) (run : Run J) : Option (Run J) :=
  match latest with
  | none => some run
  | some best =>
    if best.createdAt < run.createdAt ∨
        (run.createdAt = best.createdAt ∧ best.runId.value < run.runId.value) then some run
    else some best

theorem newer_some (best run : Run J) :
    newer (some best) run = some (if best.recency < run.recency then run else best) := by
  have hiff : (best.createdAt < run.createdAt ∨
      (run.createdAt = best.createdAt ∧ best.runId.value < run.runId.value)) ↔
        best.recency < run.recency := by
    rw [recency_lt_iff, eq_comm]
  unfold newer
  simp only [hiff]
  split_ifs <;> rfl

theorem foldl_newer (runs : List (Run J)) (start : Run J) :
    ∃ best, runs.foldl newer (some start) = some best ∧ (best = start ∨ best ∈ runs) ∧
      start.recency ≤ best.recency ∧ ∀ run ∈ runs, run.recency ≤ best.recency := by
  induction runs generalizing start with
  | nil => exact ⟨start, rfl, .inl rfl, le_rfl, by simp⟩
  | cons run runs ih =>
    rw [List.foldl_cons, newer_some]
    split_ifs with hlt
    · obtain ⟨best, hfold, hmem, hle, hall⟩ := ih run
      refine ⟨best, hfold, .inr ?_, hlt.le.trans hle, ?_⟩
      · rcases hmem with rfl | hmem
        · exact List.mem_cons_self
        · exact List.mem_cons_of_mem _ hmem
      · simpa using ⟨hle, hall⟩
    · obtain ⟨best, hfold, hmem, hle, hall⟩ := ih start
      refine ⟨best, hfold, ?_, hle, ?_⟩
      · rcases hmem with rfl | hmem
        · exact .inl rfl
        · exact .inr (List.mem_cons_of_mem _ hmem)
      · simpa using ⟨(not_lt.mp hlt).trans hle, hall⟩

/-- The choice is a run that none is newer than. -/
theorem newestOf_spec {runs : List (Run J)} {best : Run J} (h : newestOf runs = some best) :
    best ∈ runs ∧ ∀ run ∈ runs, run.recency ≤ best.recency := by
  cases runs with
  | nil => cases h
  | cons run runs =>
    obtain ⟨chosen, hfold, hmem, hle, hall⟩ := foldl_newer runs run
    have hchosen : newestOf (run :: runs) = some chosen := hfold
    rw [hchosen] at h
    cases h
    refine ⟨?_, ?_⟩
    · rcases hmem with rfl | hmem
      · exact List.mem_cons_self
      · exact List.mem_cons_of_mem _ hmem
    · simpa using ⟨hle, hall⟩

theorem newestOf_eq_none {runs : List (Run J)} (h : newestOf runs = none) : runs = [] := by
  cases runs with
  | nil => rfl
  | cons run runs =>
    obtain ⟨chosen, hfold, -⟩ := foldl_newer runs run
    have hchosen : newestOf (run :: runs) = some chosen := hfold
    rw [hchosen] at h
    cases h

/-- A run newer than all others is the choice. -/
theorem newestOf_eq_some {runs : List (Run J)} {best : Run J} (hmem : best ∈ runs)
    (hnewest : ∀ run ∈ runs, run ≠ best → run.recency < best.recency) :
    newestOf runs = some best := by
  cases hchoice : newestOf runs with
  | none =>
    rw [newestOf_eq_none hchoice] at hmem
    cases hmem
  | some chosen =>
    obtain ⟨hchosen, hall⟩ := newestOf_spec hchoice
    by_contra hne
    have hlt := hnewest chosen hchosen fun h => hne (by rw [h])
    exact absurd (hall best hmem) (not_le.mpr hlt)

theorem runsLatestForThread_eq (store : MemorySkeinStore J) (threadId : ThreadId) :
    store.runsLatestForThread threadId = newestOf (store.runsListByThread threadId) := by
  unfold MemorySkeinStore.runsLatestForThread newestOf MemorySkeinStore.runsListByThread
  rw [List.foldl_filter]
  congr 1
  funext latest run
  by_cases h : run.threadId = threadId
  · cases latest <;> simp [h]
  · simp [h]

end Newest

section Loop
variable (draws : CopyDraws) (sourceRuns : List (Run Json))

/-- The image of a run of the source. -/
def runImage (store : MemorySkeinStore Json) (run : Run Json) : Run Json where
  runId := draws.runUuid run.runId
  threadId := draws.threadUuid
  assistantId := run.assistantId
  createdAt := draws.createdAt run.runId
  updatedAt := draws.createdAt run.runId
  status := run.status
  metadata := copiedMetadata draws sourceRuns run
    ((store.runKwargs.get? run.runId).map (copiedKwargs draws sourceRuns))
  multitaskStrategy := run.multitaskStrategy

/-- The runs of `store`, with what belongs to them, are in `store'`. -/
structure RunsKept (store store' : MemorySkeinStore Json) : Prop where
  rows : ∀ k, store.runs.contains k = true → store'.runs.get? k = store.runs.get? k
  kwargs : ∀ k, store.runs.contains k = true → store'.runKwargs.get? k = store.runKwargs.get? k
  results : ∀ k, store.runs.contains k = true → store'.runResults.get? k = store.runResults.get? k
  threads : store'.threads = store.threads

variable {draws sourceRuns} {run : Run Json} {store store' : MemorySkeinStore Json}

theorem RunsKept.contains (h : RunsKept store store') {k : RunId}
    (hk : store.runs.contains k = true) : store'.runs.contains k = true := by
  unfold OrderedMap.contains at hk ⊢
  rw [h.rows k hk]
  exact hk

theorem RunsKept.trans {a b c : MemorySkeinStore Json} (hab : RunsKept a b) (hbc : RunsKept b c) :
    RunsKept a c where
  rows k hk := (hbc.rows k (hab.contains hk)).trans (hab.rows k hk)
  kwargs k hk := (hbc.kwargs k (hab.contains hk)).trans (hab.kwargs k hk)
  results k hk := (hbc.results k (hab.contains hk)).trans (hab.results k hk)
  threads := hbc.threads.trans hab.threads

/-- A run that is created takes an identifier that no run of the store has. -/
theorem createRun_kept {input : RunCreate Json} {uuid : RunId} {now : Timestamp}
    {created : Run Json} (h : store.createRun input uuid now = (.ok created, store')) :
    store'.runs.values = store.runs.values ++ [created] ∧
      store.runs.contains created.runId = false ∧ RunsKept store store' := by
  unfold MemorySkeinStore.createRun at h
  dsimp only at h
  split_ifs at h with htaken
  · cases h
  rw [Bool.not_eq_true] at htaken
  obtain ⟨hcreated, rfl⟩ := Prod.mk.inj h
  obtain rfl := Except.ok.inj hcreated
  have hne : ∀ k, store.runs.contains k = true → input.runId.getD uuid ≠ k := by
    rintro k hk rfl
    rw [htaken] at hk
    cases hk
  refine ⟨Table.values_write_new htaken, htaken, ?_, ?_, fun _ _ => rfl, rfl⟩
  · intro k hk
    exact (Table.get?_write _ _ k).trans (if_neg (hne k hk))
  · intro k hk
    dsimp only
    split
    · rfl
    · exact OrderedMap.get?_set_of_ne _ _ (hne k hk)

theorem runsRecordResult_kept {runId : RunId} {result : Json}
    (h : store.runsRecordResult runId result = (.ok (), store')) :
    store'.runs = store.runs ∧ store'.runKwargs = store.runKwargs ∧
      store'.threads = store.threads ∧
      ∀ k, k ≠ runId → store'.runResults.get? k = store.runResults.get? k := by
  unfold MemorySkeinStore.runsRecordResult at h
  split_ifs at h
  · split at h
    · cases h
    · cases h
      exact ⟨rfl, rfl, rfl, fun k hk => OrderedMap.get?_set_of_ne _ _ (Ne.symm hk)⟩
  · cases h
    exact ⟨rfl, rfl, rfl, fun _ _ => rfl⟩

/-- One run is copied: its image goes to the end. -/
theorem copyRun_ok (h : copyRun draws sourceRuns run store = (.ok (), store')) :
    store'.runs.values = store.runs.values ++ [runImage draws sourceRuns store run] ∧
      RunsKept store store' := by
  unfold copyRun at h
  dsimp only at h
  split at h
  case h_1 => cases h
  case h_2 created mid hcreate =>
    obtain ⟨hvalues, hunused, hkept⟩ := createRun_kept hcreate
    have himage : created = runImage draws sourceRuns store run := by
      unfold MemorySkeinStore.createRun at hcreate
      dsimp only at hcreate
      split_ifs at hcreate
      · cases hcreate
      · exact (Except.ok.inj (Prod.mk.inj hcreate).1).symm
    rw [himage] at hvalues
    split at h
    case h_1 =>
      cases h
      exact ⟨hvalues, hkept⟩
    case h_2 result _ =>
      obtain ⟨hruns, hkwargs, hthreads, hresults⟩ := runsRecordResult_kept h
      refine ⟨by rw [hruns, hvalues], ?_, ?_, ?_, hthreads.trans hkept.threads⟩
      · intro k hk
        rw [hruns]
        exact hkept.rows k hk
      · intro k hk
        rw [hkwargs]
        exact hkept.kwargs k hk
      · intro k hk
        have hne : k ≠ created.runId := by
          rintro rfl
          rw [hunused] at hk
          cases hk
        exact (hresults k hne).trans (hkept.results k hk)

/-- An image is that of the row and the kwargs. -/
theorem RunsKept.runImage_eq (h : RunsKept store store')
    (hrun : store.runs.contains run.runId = true) :
    runImage draws sourceRuns store' run = runImage draws sourceRuns store run := by
  unfold runImage
  rw [h.kwargs _ hrun]

/-- The loop: the images go to the end, in the order of the loop. -/
theorem copyRuns_ok {runs : List (Run Json)}
    (hruns : ∀ run ∈ runs, store.runs.contains run.runId = true)
    (h : copyRuns draws sourceRuns runs store = (.ok (), store')) :
    store'.runs.values = store.runs.values ++ runs.map (runImage draws sourceRuns store) ∧
      RunsKept store store' := by
  induction runs generalizing store with
  | nil =>
    cases h
    refine ⟨by simp, fun _ _ => rfl, fun _ _ => rfl, fun _ _ => rfl, rfl⟩
  | cons run runs ih =>
    unfold copyRuns at h
    split at h
    · cases h
    next mid hcopy =>
    obtain ⟨hvalues, hkept⟩ := copyRun_ok hcopy
    have hrest : ∀ run ∈ runs, store.runs.contains run.runId = true :=
      fun run hrun => hruns run (List.mem_cons_of_mem _ hrun)
    obtain ⟨hall, hmore⟩ := ih (fun run hrun => hkept.contains (hrest run hrun)) h
    have himages : runs.map (runImage draws sourceRuns mid) =
        runs.map (runImage draws sourceRuns store) := by
      apply List.map_congr_left
      intro run hrun
      exact hkept.runImage_eq (hrest run hrun)
    refine ⟨?_, hkept.trans hmore⟩
    rw [hall, hvalues, himages, List.append_assoc, List.map_cons, List.singleton_append]

end Loop

section Checkpoints
open FaultM
variable {C : ThreadCheckpointer} (hC : C.Lawful) (cloneCheckpoint : Checkpoint → Checkpoint)
include hC

/-- A replay writes under its target. -/
theorem replayCheckpoints_sameElsewhere (s₀ : C.Store) (targetId : String)
    (tuples : List CheckpointTuple) :
    Ensures (fun s => SameElsewhere C s₀ s targetId)
      (replayCheckpoints C cloneCheckpoint targetId tuples)
      (fun _ s => SameElsewhere C s₀ s targetId) fun _ s => SameElsewhere C s₀ s targetId := by
  apply Ensures.forM (I := fun _ s => SameElsewhere C s₀ s targetId)
  intro done x rest _
  apply Ensures.bind (Q := fun _ s => SameElsewhere C s₀ s targetId)
    (Ensures.check fun _ hs => hs)
  intro _
  apply Ensures.bind (Q := fun _ s => SameElsewhere C s₀ s targetId)
  · apply Ensures.modify
    · intro s hs
      have hframe := hC.put_frame s ⟨targetId, x.ns, x.parentId⟩ (cloneCheckpoint x.checkpoint)
        x.metadata.orEmpty x.checkpoint.channelVersions
      exact hs.trans hframe
    · exact fun _ hs => hs
  intro _
  apply Ensures.forM (I := fun _ s => SameElsewhere C s₀ s targetId)
  intro done group rest _
  apply Ensures.bind (Q := fun _ s => SameElsewhere C s₀ s targetId)
    (Ensures.check fun _ hs => hs)
  intro _
  apply Ensures.modify
  · intro s hs
    have hframe := hC.putWrites_frame s ⟨targetId, x.ns, some x.checkpoint.id⟩ group.2 group.1
    exact hs.trans hframe
  · exact fun _ hs => hs

theorem copyCheckpointHistory_sameElsewhere (s₀ : C.Store) (sourceId targetId : String) :
    Ensures (fun s => s = s₀) (copyCheckpointHistory C cloneCheckpoint sourceId targetId)
      (fun _ s => SameElsewhere C s₀ s targetId) fun _ s => SameElsewhere C s₀ s targetId := by
  apply Ensures.bind (Q := fun _ s => s = s₀)
  · exact Ensures.read (fun _ hs => hs) fun s hs => by rw [hs]; exact .refl s₀ targetId
  intro tuples
  apply (replayCheckpoints_sameElsewhere hC cloneCheckpoint s₀ targetId tuples.reverse).weaken
  · rintro s rfl
    exact .refl s targetId
  · exact fun _ _ hs => hs
  · exact fun _ _ hs => hs

end Checkpoints

namespace MemorySkeinStore

/-- The finished runs of a thread. -/
def terminalRuns (store : MemorySkeinStore Json) (threadId : ThreadId) : List (Run Json) :=
  (store.runsListByThread threadId).filter fun run => run.status.isTerminal

end MemorySkeinStore

section Faithful
variable {C : ThreadCheckpointer} (deps : GraphDeps) (draws : CopyDraws) (threadId : ThreadId)

/-- The assistant that a run makes its thread resolve. -/
def GraphDeps.resolves (run : Run Json) : Option AssistantId :=
  (deps.assistantGraph run.assistantId).map fun _ => run.assistantId

/-- The assistant a thread resolves. -/
def resolvedAssistant (store : MemorySkeinStore Json) (threadId : ThreadId) :
    Except Thrown (Option AssistantId) :=
  (loadThreadGraph deps store threadId).map fun graph => graph.bind ThreadGraph.assistant?

/-- What a copy is for: the images of the finished runs, of which the newest is that of the
newest, and nothing of the source is touched. -/
structure CopyIsFaithful (world world' : CopyWorld C) : Prop where
  latest : world'.store.runsLatestForThread draws.threadUuid =
    (newestOf (world.store.terminalRuns threadId)).map
      (runImage draws (world.store.runsListByThread threadId) world.store)
  resolves : resolvedAssistant deps world'.store draws.threadUuid =
    resolvedAssistant deps world'.store threadId
  images : (world'.store.runsListByThread draws.threadUuid).Perm
    ((world.store.terminalRuns threadId).map
      (runImage draws (world.store.runsListByThread threadId) world.store))
  thread : world'.store.threadsGet threadId = world.store.threadsGet threadId
  runs : world'.store.runsListByThread threadId = world.store.runsListByThread threadId
  kwargs : ∀ run ∈ world.store.runsListByThread threadId,
    world'.store.runKwargs.get? run.runId = world.store.runKwargs.get? run.runId
  results : ∀ run ∈ world.store.runsListByThread threadId,
    world'.store.runsGetResult run.runId = world.store.runsGetResult run.runId
  checkpoints : C.list world'.saver.state threadId.value = C.list world.saver.state threadId.value

/-- The image of the newest finished run is the newest image, and a newer run that is still in
flight resolves what it resolves. -/
structure CopiesNewestLast (store : MemorySkeinStore Json) (newest : Run Json) : Prop where
  last : ∀ run ∈ store.terminalRuns threadId, run ≠ newest →
    toLex (draws.createdAt run.runId, (draws.runUuid run.runId).value) <
      toLex (draws.createdAt newest.runId, (draws.runUuid newest.runId).value)
  inflight : ∀ latest, store.runsLatestForThread threadId = some latest →
    deps.resolves latest = deps.resolves newest

/-- `randomUUID` gives the copy an identifier that nothing in the store has. -/
structure FreshThread (store : MemorySkeinStore Json) (uuid : ThreadId) : Prop where
  thread : store.threads.contains uuid = false
  runs : ∀ run ∈ store.runs.values, run.threadId ≠ uuid

/-- What a copy that succeeds leaves. -/
structure CopyLeaves (world world' : CopyWorld C) (existing : Thread Json) : Prop where
  source : world.store.threads.get? threadId = some existing
  thread : world'.store.threads.get? threadId = some existing
  copy : ∃ row, world'.store.threads.get? draws.threadUuid = some row ∧
    row.metadata = existing.metadata
  values : world'.store.runs.values = world.store.runs.values ++
    (copyOrder (world.store.runsListByThread threadId)).map
      (runImage draws (world.store.runsListByThread threadId) world.store)
  rows : ∀ k, world.store.runs.contains k = true →
    world'.store.runs.get? k = world.store.runs.get? k
  kwargs : ∀ k, world.store.runs.contains k = true →
    world'.store.runKwargs.get? k = world.store.runKwargs.get? k
  results : ∀ k, world.store.runs.contains k = true →
    world'.store.runResults.get? k = world.store.runResults.get? k
  checkpoints : C.list world'.saver.state threadId.value = C.list world.saver.state threadId.value

variable {deps draws threadId} {cloneCheckpoint : Checkpoint → Checkpoint}
  {world world' : CopyWorld C} {copy : Thread Json}

/-- A status that is set leaves the runs, the other threads and the metadata. -/
theorem threadsUpdate_leaves {store store' : MemorySkeinStore Json} {updated : Thread Json}
    {now : Timestamp} (h : store.threadsUpdate threadId { status := some .idle } now =
      (.ok updated, store')) :
    store'.runs = store.runs ∧ store'.runKwargs = store.runKwargs ∧
      store'.runResults = store.runResults ∧
      (∀ k, k ≠ threadId → store'.threads.get? k = store.threads.get? k) ∧
      ∀ row, store.threads.get? threadId = some row →
        ∃ row', store'.threads.get? threadId = some row' ∧ row'.metadata = row.metadata := by
  have hget := store.threadsUpdate_get? threadId { status := some .idle } now
  rw [h] at hget
  have hframe : store'.runs = store.runs ∧ store'.runKwargs = store.runKwargs ∧
      store'.runResults = store.runResults := by
    unfold MemorySkeinStore.threadsUpdate at h
    split at h
    · cases h
    · cases h
      exact ⟨rfl, rfl, rfl⟩
  refine ⟨hframe.1, hframe.2.1, hframe.2.2, ?_, ?_⟩
  · intro k hk
    rw [hget, if_neg hk]
  · intro row hrow
    have hrow' := hget threadId
    rw [if_pos rfl, hrow] at hrow'
    exact ⟨_, hrow', rfl⟩

theorem copyThread_leaves (hC : C.Lawful) (hfresh : FreshThread world.store draws.threadUuid)
    (h : copyThread cloneCheckpoint draws threadId world = (.ok copy, world')) :
    ∃ existing, CopyLeaves draws threadId world world' existing := by
  unfold copyThread MemorySkeinStore.threadsCopy at h
  cases hsource : world.store.threads.get? threadId with
  | none =>
    rw [hsource] at h
    cases h
  | some existing =>
    rw [hsource] at h
    dsimp only at h
    have hne : draws.threadUuid ≠ threadId := by
      intro heq
      have hfree := hfresh.thread
      unfold OrderedMap.contains at hfree
      rw [heq, hsource] at hfree
      cases hfree
    set row := MemorySkeinStore.copiedThread existing draws.threadUuid draws.copiedAt with hrow
    set store₁ := { world.store with threads := world.store.threads.write row } with hstore₁
    split at h
    · cases h
    next saver hhistory =>
    have hlist := (copyCheckpointHistory_sameElsewhere hC cloneCheckpoint world.saver.state
      threadId.value row.threadId.value).of_ok rfl hhistory
    split at h
    · cases h
    next store₂ hruns =>
    have horder : ∀ run ∈ copyOrder (store₁.runsListByThread threadId),
        store₁.runs.contains run.runId = true := by
      intro run hrun
      have hmem := List.mem_of_mem_filter
        ((List.perm_insertionSort _ _).mem_iff.mp (List.mem_of_mem_filter hrun))
      rw [Table.mem_values_iff] at hmem
      exact Option.isSome_of_eq_some hmem
    obtain ⟨hvalues, hkept⟩ := copyRuns_ok horder hruns
    have hthread : store₂.threads.get? threadId = some existing := by
      rw [hkept.threads]
      exact ((Table.get?_write _ row threadId).trans (if_neg hne)).trans hsource
    have hcopy : store₂.threads.get? draws.threadUuid = some row := by
      rw [hkept.threads]
      exact (Table.get?_write _ row draws.threadUuid).trans (if_pos rfl)
    have hvalue : threadId.value ≠ row.threadId.value := by
      intro heq
      exact hne (Id.eq_of_value heq.symm)
    have hcheckpoints := hlist threadId.value hvalue
    split at h
    · split at h
      · cases h
      next updated store₃ hupdate =>
      cases h
      obtain ⟨hruns', hkwargs', hresults', hthreads', hrow'⟩ := threadsUpdate_leaves hupdate
      refine ⟨existing, hsource, ?_, ?_, ?_, ?_, ?_, ?_, hcheckpoints⟩
      · exact (hthreads' threadId (Ne.symm hne)).trans hthread
      · obtain ⟨row', hget, hmetadata⟩ := hrow' row hcopy
        exact ⟨row', hget, hmetadata⟩
      · rw [hruns']
        exact hvalues
      · intro k hk
        rw [hruns']
        exact hkept.rows k hk
      · intro k hk
        rw [hkwargs']
        exact hkept.kwargs k hk
      · intro k hk
        rw [hresults']
        exact hkept.results k hk
    · obtain ⟨-, rfl⟩ := Prod.mk.inj h
      exact ⟨existing, hsource, hthread, ⟨row, hcopy, rfl⟩, hvalues, hkept.rows, hkept.kwargs,
        hkept.results, hcheckpoints⟩

/-- The loop copies the finished runs, each once. -/
theorem copyOrder_perm (runs : List (Run Json)) :
    (copyOrder runs).Perm (runs.filter fun run => run.status.isTerminal) :=
  (List.perm_insertionSort _ runs).filter _

theorem CopyLeaves.images {existing : Thread Json}
    (h : CopyLeaves draws threadId world world' existing)
    (hfresh : FreshThread world.store draws.threadUuid) :
    world'.store.runsListByThread draws.threadUuid =
      (copyOrder (world.store.runsListByThread threadId)).map
        (runImage draws (world.store.runsListByThread threadId) world.store) := by
  have hlist : world'.store.runsListByThread draws.threadUuid =
      world'.store.runs.values.filter fun run => decide (run.threadId = draws.threadUuid) := rfl
  rw [hlist, h.values, List.filter_append]
  have hold : world.store.runs.values.filter
      (fun run => decide (run.threadId = draws.threadUuid)) = [] := by
    rw [List.filter_eq_nil_iff]
    intro run hrun
    simpa using hfresh.runs run hrun
  rw [hold, List.nil_append, List.filter_eq_self]
  intro image himage
  obtain ⟨run, -, rfl⟩ := List.mem_map.mp himage
  exact decide_eq_true rfl

theorem CopyLeaves.ne {existing : Thread Json}
    (h : CopyLeaves draws threadId world world' existing)
    (hfresh : FreshThread world.store draws.threadUuid) : draws.threadUuid ≠ threadId := by
  intro heq
  have hfree := hfresh.thread
  unfold OrderedMap.contains at hfree
  rw [heq, h.source] at hfree
  cases hfree

theorem CopyLeaves.runs {existing : Thread Json}
    (h : CopyLeaves draws threadId world world' existing)
    (hfresh : FreshThread world.store draws.threadUuid) :
    world'.store.runsListByThread threadId = world.store.runsListByThread threadId := by
  unfold MemorySkeinStore.runsListByThread
  rw [h.values, List.filter_append]
  have hnew : ((copyOrder (world.store.runs.values.filter
      fun run => decide (run.threadId = threadId))).map
        (runImage draws (world.store.runs.values.filter
          fun run => decide (run.threadId = threadId)) world.store)).filter
            (fun run => decide (run.threadId = threadId)) = [] := by
    rw [List.filter_eq_nil_iff]
    intro image himage
    obtain ⟨run, -, rfl⟩ := List.mem_map.mp himage
    exact ne_true_of_eq_false (decide_eq_false (h.ne hfresh))
  exact (congrArg _ hnew).trans (List.append_nil _)

/-- Which assistant a thread with a run resolves. -/
theorem resolvedAssistant_of_latest {store : MemorySkeinStore Json} {thread : Thread Json}
    {latest : Run Json} (hthread : store.threads.get? threadId = some thread)
    (hlatest : store.runsLatestForThread threadId = some latest) :
    resolvedAssistant deps store threadId = .ok (deps.resolves latest) := by
  unfold resolvedAssistant loadThreadGraph MemorySkeinStore.threadsGet GraphDeps.resolves
  rw [hthread]
  dsimp only
  rw [hlatest]
  dsimp only
  cases deps.assistantGraph latest.assistantId with
  | some graphId => rfl
  | none =>
    dsimp only [Except.map]
    split
    · split_ifs <;> rfl
    · rfl

/-- Two images are of two runs. -/
theorem CopyLeaves.image_injective {existing : Thread Json}
    (h : CopyLeaves draws threadId world world' existing)
    {a b : Run Json} (ha : a ∈ world.store.terminalRuns threadId)
    (hb : b ∈ world.store.terminalRuns threadId)
    (huuid : draws.runUuid a.runId = draws.runUuid b.runId) : a = b := by
  have hnodup := world'.store.runs.nodup_map_key
  rw [h.values, List.map_append, List.map_map] at hnodup
  have himages := (List.nodup_append.mp hnodup).2.1
  apply List.inj_on_of_nodup_map himages
  · exact (copyOrder_perm _).mem_iff.mpr ha
  · exact (copyOrder_perm _).mem_iff.mpr hb
  · exact huuid

theorem copyThread_isFaithful_iff (hC : C.Lawful)
    (hfresh : FreshThread world.store draws.threadUuid)
    (h : copyThread cloneCheckpoint draws threadId world = (.ok copy, world'))
    {newest : Run Json} (hnewest : newestOf (world.store.terminalRuns threadId) = some newest) :
    CopyIsFaithful deps draws threadId world world' ↔
      CopiesNewestLast deps draws threadId world.store newest := by
  obtain ⟨existing, hleaves⟩ := copyThread_leaves hC hfresh h
  set image := runImage draws (world.store.runsListByThread threadId) world.store with himage
  have himages := hleaves.images hfresh
  have hperm : (world'.store.runsListByThread draws.threadUuid).Perm
      ((world.store.terminalRuns threadId).map image) := by
    rw [himages]
    exact (copyOrder_perm _).map image
  have hruns := hleaves.runs hfresh
  have hcontains : ∀ run ∈ world.store.runsListByThread threadId,
      world.store.runs.contains run.runId = true := by
    intro run hrun
    have hmem := List.mem_of_mem_filter hrun
    rw [Table.mem_values_iff] at hmem
    exact Option.isSome_of_eq_some hmem
  obtain ⟨hnewestMem, hnewestMax⟩ := newestOf_spec hnewest
  have hlatestSource : world'.store.runsLatestForThread threadId =
      world.store.runsLatestForThread threadId := by
    rw [runsLatestForThread_eq, runsLatestForThread_eq, hruns]
  obtain ⟨row, hrow, -⟩ := hleaves.copy
  constructor
  · intro hfaithful
    have hlatest := hfaithful.latest
    rw [hnewest, Option.map_some] at hlatest
    constructor
    · intro run hrun hother
      have hmax := (newestOf_spec ((runsLatestForThread_eq _ _).symm.trans hlatest)).2 (image run)
        (hperm.mem_iff.mpr (List.mem_map_of_mem hrun))
      refine lt_of_le_of_ne hmax fun heq => hother ?_
      apply hleaves.image_injective hrun hnewestMem
      exact Id.eq_of_value (congrArg (fun key => (ofLex key).2) heq)
    · intro latest hlatest'
      have hresolves := hfaithful.resolves
      rw [resolvedAssistant_of_latest hrow hlatest,
        resolvedAssistant_of_latest hleaves.thread (hlatestSource.trans hlatest')] at hresolves
      exact (Except.ok.inj hresolves).symm
  · intro hlast
    have hlatest : world'.store.runsLatestForThread draws.threadUuid = some (image newest) := by
      rw [runsLatestForThread_eq]
      apply newestOf_eq_some (hperm.mem_iff.mpr (List.mem_map_of_mem hnewestMem))
      intro other hother hne
      obtain ⟨run, hrun, rfl⟩ := List.mem_map.mp (hperm.mem_iff.mp hother)
      exact hlast.last run hrun fun heq => hne (by rw [heq])
    constructor
    · rw [hnewest, hlatest, Option.map_some]
    · cases hsource : world.store.runsLatestForThread threadId with
      | none =>
        rw [runsLatestForThread_eq] at hsource
        have hmem := List.mem_of_mem_filter hnewestMem
        rw [newestOf_eq_none hsource] at hmem
        cases hmem
      | some latest =>
        rw [resolvedAssistant_of_latest hrow hlatest,
          resolvedAssistant_of_latest hleaves.thread (hlatestSource.trans hsource),
          hlast.inflight latest hsource]
        rfl
    · exact hperm
    · exact hleaves.thread.trans hleaves.source.symm
    · exact hruns
    · exact fun run hrun => hleaves.kwargs _ (hcontains run hrun)
    · intro run hrun
      unfold MemorySkeinStore.runsGetResult OrderedMap.contains
      rw [hleaves.rows _ (hcontains run hrun), hleaves.results _ (hcontains run hrun)]
    · exact hleaves.checkpoints

end Faithful

/-- A finished run of the source. -/
def finishedRun (runId assistantId : String) (createdAt : Timestamp) : Run Json where
  runId := .of runId
  threadId := .of "t"
  assistantId := .of assistantId
  createdAt := createdAt
  updatedAt := createdAt
  status := .success
  metadata := .obj []
  multitaskStrategy := none

/-- A thread with a checkpoint and the runs of two assistants. -/
def twoRunWorld : CopyWorld tableCheckpointer where
  store := {
    threads := (∅ : Table ThreadId (Thread Json) Thread.threadId).write {
      threadId := .of "t", createdAt := 0, updatedAt := 2, stateUpdatedAt := 2
      metadata := .obj [], status := .idle, values := .null, interrupts := .null }
    runs := ((∅ : Table RunId (Run Json) Run.runId).write (finishedRun "r1" "first" 1)).write
      (finishedRun "r2" "second" 2) }
  saver := ⟨TableCheckpointer.setTable (fun _ => ∅) "t"
    (Table.write ∅ { checkpoint := { id := "1" } }), []⟩

/-- Only their identifiers tell the two images apart. -/
def sameMillisecond (image₁ image₂ : String) : CopyDraws where
  threadUuid := .of "u"
  runUuid runId := .of (if runId.value = "r1" then image₁ else image₂)
  copiedAt := 9
  createdAt _ := 9
  freedAt := 9

def everyAssistant : GraphDeps where
  assistantGraph assistantId := some assistantId.value
  graphsInclude _ := true

def twoRunCopy (image₁ image₂ : String) :
    Except CopyError (Thread Json) × CopyWorld tableCheckpointer :=
  copyThread id (sameMillisecond image₁ image₂) (.of "t") twoRunWorld

def copiedRow : Thread Json where
  threadId := .of "u"
  createdAt := 9
  updatedAt := 9
  stateUpdatedAt := 9
  metadata := .obj []
  status := .idle
  values := .null
  interrupts := .null

theorem twoRunWorld_fresh : FreshThread twoRunWorld.store (.of "u") := ⟨rfl, by decide +kernel⟩

theorem twoRunCopy_isFaithful :
    CopyIsFaithful everyAssistant (sameMillisecond "a" "b") (.of "t") twoRunWorld
      (twoRunCopy "a" "b").2 := by
  have hnewestLast : CopiesNewestLast everyAssistant (sameMillisecond "a" "b") (.of "t")
      twoRunWorld.store (finishedRun "r2" "second" 2) := {
    last := fun run hrun hne => by
      have hruns : twoRunWorld.store.terminalRuns (.of "t") =
        [finishedRun "r1" "first" 1, finishedRun "r2" "second" 2] := rfl
      rw [hruns] at hrun
      obtain rfl | rfl : run = _ ∨ run = _ := by simpa using hrun
      · exact Prod.Lex.right _ (by decide)
      · exact absurd rfl hne
    inflight := fun latest hlatest => by
      obtain rfl : finishedRun "r2" "second" 2 = latest := Option.some.inj hlatest
      rfl }
  exact (copyThread_isFaithful_iff tableCheckpointer_lawful twoRunWorld_fresh rfl rfl).mpr
    hnewestLast

/-- The image of the older run drew the greater identifier, and the copy takes its assistant. -/
theorem twoRunCopy_resolvesOlder :
    FreshThread twoRunWorld.store (sameMillisecond "b" "a").threadUuid ∧
      twoRunCopy "b" "a" = (.ok copiedRow, (twoRunCopy "b" "a").2) ∧
      resolvedAssistant everyAssistant (twoRunCopy "b" "a").2.store (.of "u") =
        .ok (some (.of "first")) ∧
      resolvedAssistant everyAssistant (twoRunCopy "b" "a").2.store (.of "t") =
        .ok (some (.of "second")) ∧
      ¬CopyIsFaithful everyAssistant (sameMillisecond "b" "a") (.of "t") twoRunWorld
        (twoRunCopy "b" "a").2 := by
  refine ⟨twoRunWorld_fresh, rfl, rfl, rfl, fun hfaithful => ?_⟩
  have hlatest := congrArg (Option.map fun run => run.assistantId.value) hfaithful.latest
  exact absurd hlatest (by decide +kernel)

end Skein
