import Skein.RunSettling

/-!
# What an execution returns

`executeRun` writes to the store several times after the run has settled, and whatever
throws in its `try` block settles the run again in its `catch`. The outcome it returns, the
row it leaves, the frames it publishes and the delivery it records are compared at the end.
-/
namespace Skein

namespace MemorySkeinStore
variable {J : Type*} [EngineJson J]

/-- The mirror fails where there is a row to write and the write fails. -/
theorem mirrorThread_cases (store : MemorySkeinStore J) (threadId : ThreadId)
    (mirror : ThreadMirror J) (rejection : Option Thrown) (now : Timestamp) :
    (∃ e, rejection = some e ∧ (store.threadsGet threadId).isSome = true ∧
      store.mirrorThread threadId mirror rejection now = (.error e, store)) ∨
    (((store.threadsGet threadId).isSome = true → rejection = none) ∧
      ∃ threads, store.mirrorThread threadId mirror rejection now =
          (.ok (), { store with threads }) ∧
        (threads.get? threadId).isSome = (store.threadsGet threadId).isSome) := by
  unfold mirrorThread
  cases hthread : store.threadsGet threadId with
  | none =>
    refine .inr ⟨fun h => (by cases h), store.threads, rfl, ?_⟩
    rw [← hthread]
    rfl
  | some thread =>
    cases rejection with
    | some e => exact .inl ⟨e, rfl, rfl, rfl⟩
    | none =>
      have hget : store.threads.get? threadId = some thread := hthread
      have hid : thread.threadId = threadId := Table.key_of_get? hget
      refine .inr ⟨fun _ => rfl, ?_⟩
      simp only [threadsUpdate, hget]
      refine ⟨_, rfl, ?_⟩
      rw [Table.get?_write, if_pos (show (patchedThread thread _ now).threadId = threadId from hid)]
      rfl

end MemorySkeinStore

namespace RunExecution
variable {J : Type*} [WireJson J] [EngineJson J]

/-- Between `s` and `s'` the engine wrote thread rows and published chunks. -/
structure Proceeds (s s' : EngineState J) : Prop where
  runs : s'.store.runs = s.store.runs
  deliveries : s'.store.deliveries = s.store.deliveries
  recorded : s'.recordedDelivery = s.recordedDelivery
  published : ∃ frames : List J, s'.published = s.published ++ frames.map .chunk

/-- The graph gets to a final snapshot and the run settles on it, but the callback that is
recorded with it cannot be cloned, or the write of the thread row that follows fails. -/
def FailsAfterSettling (exec : RunExecution J) (calls : RunCalls J) (store : MemorySkeinStore J) :
    Prop :=
  ((store.threadsGet exec.threadId).isSome = true → calls.busyRejection = none) ∧
    ∃ snapshot, calls.graph = .ok snapshot ∧ exec.Stores (snapshotResult snapshot) store ∧
      (¬ exec.Clones (snapshotResult snapshot) none ∨
        (store.threadsGet exec.threadId).isSome = true ∧ calls.mirrorRejection.isSome = true)

variable {exec : RunExecution J} {calls : RunCalls J} {run : Run J} {s : EngineState J}

theorem mirrorSettled_eq (exec : RunExecution J) (snapshot : FinalSnapshot J) (final : RunStatus)
    (calls : RunCalls J) (store : MemorySkeinStore J) :
    ∃ mirror, exec.mirrorSettled snapshot final calls store =
      store.mirrorThread exec.threadId mirror calls.mirrorRejection calls.mirroredAt := by
  unfold mirrorSettled
  simp only [RunEnding.mirror]
  split_ifs
  · exact ⟨_, rfl⟩
  · exact ⟨_, rfl⟩
  · exact ⟨_, rfl⟩

omit [WireJson J] [EngineJson J] in
theorem snapshotStatus_ne_error (snapshot : FinalSnapshot J) :
    (snapshotStatus snapshot).val ≠ .error := by
  unfold snapshotStatus
  cases snapshot.paused with
  | true => exact fun h => by cases h
  | false => exact fun h => by cases h

/-- The `try` block once the graph has come to its last snapshot. -/
def returnSnapshot (exec : RunExecution J) (calls : RunCalls J) (snapshot : FinalSnapshot J)
    (s : EngineState J) : Except (WireError J) (RunOutcome J) × EngineState J :=
  match exec.settleRun (snapshotStatus snapshot) (snapshotResult snapshot) none calls.settling s with
  | (.error e, s) => (.error (exec.payloads.toRunError e), s)
  | (.ok final, s) =>
    match exec.mirrorSettled snapshot final calls s.store with
    | (.error e, store) => (.error (exec.payloads.toRunError e), { s with store })
    | (.ok _, store) => (.ok ⟨final, snapshotResult snapshot, none⟩, { s with store })

/-- Once the run has settled on a snapshot, the block throws exactly where the callback cannot
be cloned or the thread row cannot be written. -/
theorem returnSnapshot_cases (exec : RunExecution J) (calls : RunCalls J)
    (snapshot : FinalSnapshot J) (hrun : s.store.runs.get? exec.runId = some run)
    (hlive : run.status.isTerminal = false) (hstarted : s.started = true)
    (hunrecorded : s.recordedDelivery = none)
    (hstores : exec.Stores (snapshotResult snapshot) s.store) :
    ∃ s₂ s', exec.Settles run (snapshotStatus snapshot) (snapshotStatus snapshot).val s s₂ ∧
      Proceeds s₂ s' ∧
      (((¬ exec.Clones (snapshotResult snapshot) none ∨
          (s.store.threadsGet exec.threadId).isSome = true ∧ calls.mirrorRejection.isSome = true) ∧
        ∃ error, exec.returnSnapshot calls snapshot s = (.error error, s')) ∨
      (exec.Clones (snapshotResult snapshot) none ∧
        ((s.store.threadsGet exec.threadId).isSome = true → calls.mirrorRejection = none) ∧
        exec.returnSnapshot calls snapshot s =
          (.ok ⟨(snapshotStatus snapshot).val, snapshotResult snapshot, none⟩, s'))) := by
  have hfinal : ∀ {final s₂}, exec.Settles run (snapshotStatus snapshot) final s s₂ →
      final = (snapshotStatus snapshot).val := by
    intro final s₂ hsettles
    rw [hsettles.final_eq, hlive]
    rfl
  unfold returnSnapshot
  by_cases hclones : exec.Clones (snapshotResult snapshot) none
  case neg =>
    obtain ⟨e, final, s₂, hsettle, hsettles⟩ := settleRun_throws exec (snapshotResult snapshot) none
      hrun hstores hstarted hunrecorded hclones (snapshotStatus snapshot) calls.settling
    obtain rfl := hfinal hsettles
    rw [hsettle]
    exact ⟨s₂, s₂, hsettles, ⟨rfl, rfl, rfl, [], by simp⟩, .inl ⟨.inl hclones, _, rfl⟩⟩
  obtain ⟨final, s₂, hsettle, hsettles⟩ := settleRun_settles exec (snapshotResult snapshot) none
    hrun (fun v hv => by cases hv) hstores hclones (snapshotStatus snapshot) calls.settling
  obtain rfl := hfinal hsettles
  obtain ⟨mirror, hmirrored⟩ := exec.mirrorSettled_eq snapshot (snapshotStatus snapshot).val
    calls s₂.store
  have hthread₂ : s₂.store.threadsGet exec.threadId = s.store.threadsGet exec.threadId := by
    rw [MemorySkeinStore.threadsGet, hsettles.threads]
    rfl
  rw [hsettle]
  dsimp only
  rw [hmirrored, ← hthread₂]
  rcases s₂.store.mirrorThread_cases exec.threadId mirror calls.mirrorRejection
    calls.mirroredAt with ⟨e, hfailed, hthread, hend⟩ | ⟨hpassed, threads, hend, -⟩
  · rw [hend]
    exact ⟨s₂, _, hsettles, ⟨rfl, rfl, rfl, [], by simp⟩,
      .inl ⟨.inr ⟨hthread, by rw [hfailed]; rfl⟩, _, rfl⟩⟩
  · rw [hend]
    exact ⟨s₂, { s₂ with store := { s₂.store with threads } }, hsettles,
      ⟨rfl, rfl, rfl, [], by simp⟩, .inr ⟨hclones, hpassed, rfl⟩⟩

/-- How the `try` block ends on a run that has not: it throws before it has settled the
run, it throws after, or it returns. -/
theorem attempt_cases (exec : RunExecution J) (calls : RunCalls J)
    (hrun : s.store.runs.get? exec.runId = some run) (hlive : run.status.isTerminal = false)
    (hstarted : s.started = true) (hunrecorded : s.recordedDelivery = none) :
    (∃ error s', exec.attempt calls s = (.error error, s') ∧ Proceeds s s' ∧
      ¬ exec.FailsAfterSettling calls s.store) ∨
    (∃ snapshot s₁ s₂ s', Proceeds s s₁ ∧
      exec.Settles run (snapshotStatus snapshot) (snapshotStatus snapshot).val s₁ s₂ ∧
      Proceeds s₂ s' ∧
      ((exec.FailsAfterSettling calls s.store ∧
          ∃ error, exec.attempt calls s = (.error error, s')) ∨
        (¬ exec.FailsAfterSettling calls s.store ∧ exec.attempt calls s =
          (.ok ⟨(snapshotStatus snapshot).val, snapshotResult snapshot, none⟩, s')))) := by
  unfold attempt
  rcases s.store.mirrorThread_cases exec.threadId (.patch { status := some .busy })
    calls.busyRejection calls.startedAt with ⟨e, hrejection, hthread, hmirror⟩ |
      ⟨hrejection, threads, hmirror, hthreads⟩
  · rw [hmirror]
    refine .inl ⟨_, s, rfl, ⟨rfl, rfl, rfl, [], by simp⟩, ?_⟩
    rintro ⟨hnone, -⟩
    rw [hrejection] at hnone
    cases hnone hthread
  · rw [hmirror]
    dsimp only
    cases hgraph : calls.graph with
    | error e =>
      refine .inl ⟨e, _, rfl, ⟨rfl, rfl, rfl, calls.frames, rfl⟩, ?_⟩
      rintro ⟨-, snapshot, hok, -⟩
      rw [hgraph] at hok
      cases hok
    | ok snapshot =>
      dsimp only
      obtain ⟨s₁, hs₁⟩ : ∃ s₁ : EngineState J, s₁ = { s with
          store := { s.store with threads }
          published := s.published ++ calls.frames.map .chunk } := ⟨_, rfl⟩
      have hproceeds : Proceeds s s₁ := by
        rw [hs₁]
        exact ⟨rfl, rfl, rfl, calls.frames, rfl⟩
      have hrun₁ : s₁.store.runs.get? exec.runId = some run := by rw [hproceeds.runs, hrun]
      have hthread₁ : (s₁.store.threadsGet exec.threadId).isSome =
          (s.store.threadsGet exec.threadId).isSome := by
        rw [← hthreads, hs₁]
        rfl
      -- What must hold for the run to settle on its snapshot is the same on both stores.
      have hfails : exec.FailsAfterSettling calls s.store ↔
          exec.Stores (snapshotResult snapshot) s₁.store ∧
            (¬ exec.Clones (snapshotResult snapshot) none ∨
              (s₁.store.threadsGet exec.threadId).isSome = true ∧
                calls.mirrorRejection.isSome = true) := by
        have hstores : exec.Stores (snapshotResult snapshot) s₁.store ↔
            exec.Stores (snapshotResult snapshot) s.store := by
          rw [hs₁]
          rfl
        rw [hstores, hthread₁]
        refine ⟨?_, fun hends => ⟨hrejection, snapshot, hgraph, hends⟩⟩
        rintro ⟨-, snapshot', hok, hends⟩
        rw [hgraph] at hok
        cases hok
        exact hends
      rw [← hs₁]
      by_cases hstore : exec.Stores (snapshotResult snapshot) s₁.store
      case neg =>
        rw [settleRun_fails hrun₁ hstore]
        exact .inl ⟨_, s₁, rfl, hproceeds, fun h => hstore (hfails.mp h).1⟩
      obtain ⟨s₂, s', hsettles, hproceeds', hend⟩ := returnSnapshot_cases exec calls snapshot hrun₁
        hlive (by rw [hs₁]; exact hstarted) (by rw [hs₁]; exact hunrecorded) hstore
      refine .inr ⟨snapshot, s₁, s₂, s', hproceeds, hsettles, hproceeds', hend.imp ?_ ?_⟩
      · rintro ⟨hthrows, error, hattempt⟩
        exact ⟨hfails.mpr ⟨hstore, hthrows⟩, error, hattempt⟩
      · rintro ⟨hclones, hpassed, hattempt⟩
        refine ⟨fun h => ?_, hattempt⟩
        rcases (hfails.mp h).2 with hunclonable | ⟨hthread, hfailed⟩
        · exact hunclonable hclones
        · rw [hpassed hthread] at hfailed
          cases hfailed

/-- An execution that began on `store` has recorded one delivery at most, and then with the
status its row has for good. -/
def RecordedSince (exec : RunExecution J) (store : MemorySkeinStore J) (s : EngineState J) : Prop :=
  s.store.deliveries = store.deliveries ∨
    ∃ d run, s.store.deliveries = store.deliveries.write d ∧
      s.store.runs.get? exec.runId = some run ∧ d.runStatus = run.status ∧
      run.status.isTerminal = true ∧
      match exec.callbacks.native with
      | none => s.recordedDelivery = some d
      | some native => d.deliveryId = native.deliveryId

omit [EngineJson J] in
theorem Proceeds.recordedSince {store : MemorySkeinStore J} {s' : EngineState J}
    (h : Proceeds s s') (hrecorded : exec.RecordedSince store s) : exec.RecordedSince store s' := by
  unfold RecordedSince at *
  rw [h.deliveries, h.runs, h.recorded]
  exact hrecorded

omit [EngineJson J] in
/-- A second settlement finds what the first has recorded. -/
theorem Settles.recordedSince {store : MemorySkeinStore J} {status : TerminalStatus}
    {final : RunStatus} {s' : EngineState J} (h : exec.Settles run status final s s')
    (hrun : s.store.runs.get? exec.runId = some run) (hrecorded : exec.RecordedSince store s) :
    exec.RecordedSince store s' := by
  obtain ⟨run', hrun', hfinal⟩ := h.row
  have hterminal : final.isTerminal = true := by
    rw [h.final_eq]
    split_ifs with hterm
    · exact hterm
    · exact status.property
  rcases hrecorded with hsame | ⟨d, recorded, hwritten, hrow, hstatus, hterm, hbefore⟩
  · rcases h.deliveries with ⟨hsame', -⟩ | ⟨d, hwritten, hstatus, hrecords⟩
    · exact .inl (hsame'.trans hsame)
    · refine .inr ⟨d, run', by rw [hwritten, hsame], hrun', hstatus.trans hfinal.symm,
        by rw [hfinal]; exact hterminal, ?_⟩
      unfold Records at hrecords
      cases hnative : exec.callbacks.native with
      | none =>
        rw [hnative] at hrecords
        exact hrecords.2
      | some native =>
        rw [hnative] at hrecords
        exact hrecords.1
  · rw [hrun] at hrow
    cases hrow
    have hkept : final = run.status := by rw [h.final_eq, if_pos hterm]
    rcases h.deliveries with ⟨hsame', hkeeps⟩ | ⟨d', -, -, hrecords⟩
    · refine .inr ⟨d, run', hsame'.trans hwritten, hrun', ?_, by rw [hfinal]; exact hterminal, ?_⟩
      · rw [hstatus, hfinal, hkept]
      · rw [hkeeps]
        exact hbefore
    · unfold Records at hrecords
      cases hnative : exec.callbacks.native with
      | none =>
        rw [hnative] at hrecords hbefore
        dsimp only at hrecords hbefore
        rw [hrecords.1] at hbefore
        cases hbefore
      | some native =>
        rw [hnative] at hrecords hbefore
        dsimp only at hrecords hbefore
        rw [hwritten, ← hbefore, Table.get?_write, if_pos rfl] at hrecords
        cases hrecords.2

/-- The `catch` block returns with the status the run settled on. -/
theorem catchError_settles (calls : RunCalls J) (error : WireError J)
    (hrun : s.store.runs.get? exec.runId = some run) :
    ∃ final s', exec.Settles run ⟨.error, RunStatus.isTerminal_error⟩ final
        { s with published := s.published ++ [.error error.value] } s' ∧
      Proceeds s' (exec.catchError calls error s).toEngineState ∧
      (final ≠ .error →
        (exec.catchError calls error s).outcome = some ⟨final, { values := ∅ }, some error.value⟩) ∧
      ∀ outcome ∈ (exec.catchError calls error s).outcome,
        outcome = ⟨final, { values := ∅ }, some error.value⟩ := by
  obtain ⟨final, s', hsettle, hsettles⟩ := settleRun_settles exec { values := ∅ }
    (some error.value) (s := { s with published := s.published ++ [.error error.value] }) hrun
    (by rintro v ⟨⟩; exact error.serializes)
    (fun _ _ _ => exec.payloads.resultJson_empty)
    (fun _ _ => exec.payloads.buildDeliveryPayload_clones _) ⟨.error, RunStatus.isTerminal_error⟩
    calls.caught
  refine ⟨final, s', hsettles, ?_⟩
  simp only [catchError, hsettle]
  by_cases hfinal : final = .error
  · rw [if_pos hfinal]
    rcases s'.store.mirrorThread_cases exec.threadId (.error error.message) calls.errorRejection
      calls.mirroredAt with ⟨e, -, -, hend⟩ | ⟨-, threads, hend, -⟩
    · rw [hend]
      exact ⟨⟨rfl, rfl, rfl, [], by simp⟩, fun h => absurd hfinal h, fun _ h => by cases h⟩
    · rw [hend]
      exact ⟨⟨rfl, rfl, rfl, [], by simp⟩, fun h => absurd hfinal h, fun _ h => by cases h; rfl⟩
  · rw [if_neg hfinal]
    exact ⟨⟨rfl, rfl, rfl, [], by simp⟩, fun _ => rfl, fun _ h => by cases h; rfl⟩

/-- The outcome, the row and the error frame say the same, and there is one delivery at
most, with the status of the row. -/
structure Agrees (exec : RunExecution J) (store : MemorySkeinStore J) (e : Executed J) :
    Prop where
  row : ∀ outcome ∈ e.outcome,
    ∃ run, e.store.runs.get? exec.runId = some run ∧ outcome.status = run.status
  error : ∀ outcome ∈ e.outcome, outcome.error.isSome = true ↔ outcome.status = .error
  frame : ∀ outcome ∈ e.outcome, (∃ data, .error data ∈ e.published) ↔ outcome.status = .error
  delivery : e.store.deliveries = store.deliveries ∨
    ∃ d run, e.store.deliveries = store.deliveries.write d ∧
      e.store.runs.get? exec.runId = some run ∧ d.runStatus = run.status

omit [EngineJson J] in
theorem RecordedSince.delivery {store : MemorySkeinStore J} (h : exec.RecordedSince store s) :
    s.store.deliveries = store.deliveries ∨
      ∃ d run, s.store.deliveries = store.deliveries.write d ∧
        s.store.runs.get? exec.runId = some run ∧ d.runStatus = run.status :=
  h.imp id fun hone => by
    obtain ⟨d, run, hwritten, hrun, hstatus, -⟩ := hone
    exact ⟨d, run, hwritten, hrun, hstatus⟩

/-- The run of a live row starts. -/
theorem executeRun_of_live {store : MemorySkeinStore J} (calls : RunCalls J)
    (hrun : store.runs.get? exec.runId = some run) (hlive : run.status.isTerminal = false) :
    ∃ s run', s.store.runs.get? exec.runId = some run' ∧ run'.status.isTerminal = false ∧
      s.started = true ∧ s.recordedDelivery = none ∧ exec.RecordedSince store s ∧
      s.published = [] ∧
      (exec.FailsAfterSettling calls s.store ↔ exec.FailsAfterSettling calls store) ∧
      exec.executeRun calls store =
        match exec.attempt calls s with
        | (.error error, s) => exec.catchError calls error s
        | (.ok outcome, s) => ⟨s, some outcome⟩ := by
  have hid : run.runId = exec.runId := Table.key_of_get? hrun
  refine ⟨{ store := store.writeStatus run .running none calls.startedAt, started := true },
    { run with status := .running, updatedAt := calls.startedAt, error := none }, ?_, rfl, rfl, rfl,
    .inl rfl, rfl, Iff.rfl, ?_⟩
  · simp only [MemorySkeinStore.writeStatus]
    rw [Table.get?_write, if_pos hid]
  · have hstarts : store.runsSetStatus exec.runId .running none calls.startedAt =
        (.ok { run with status := .running, updatedAt := calls.startedAt, error := none },
          store.writeStatus run .running none calls.startedAt) := by
      simp [MemorySkeinStore.runsSetStatus, hrun, hlive]
    have hfirst : (store.runsGet exec.runId).filter (fun current => current.status.isTerminal) =
        none := by
      simp [MemorySkeinStore.runsGet, hrun, hlive]
    unfold executeRun
    rw [hfirst]
    dsimp only
    rw [hstarts]
    rfl

omit [EngineJson J] in
/-- A run that had already ended is reported with its status and without an error. -/
theorem alreadyEnded_agrees_iff (exec : RunExecution J) {store : MemorySkeinStore J}
    (hrun : store.runs.get? exec.runId = some run) :
    exec.Agrees store (alreadyEnded { store } run) ↔ run.status ≠ .error := by
  constructor
  · intro hagrees herror
    have hsome := (hagrees.error _ rfl).mpr herror
    cases hsome
  · intro hne
    refine ⟨?_, ?_, ?_, .inl rfl⟩
    · rintro _ ⟨⟩
      exact ⟨run, hrun, rfl⟩
    · rintro _ ⟨⟩
      exact ⟨fun h => (by cases h), fun h => absurd h hne⟩
    · rintro _ ⟨⟩
      refine ⟨?_, fun h => absurd h hne⟩
      rintro ⟨data, h⟩
      cases h

/-- An error thrown before the run has settled is the one it settles on. -/
theorem catchError_agrees (calls : RunCalls J) (error : WireError J) {store : MemorySkeinStore J}
    (hrun : s.store.runs.get? exec.runId = some run) (hlive : run.status.isTerminal = false)
    (hrecorded : exec.RecordedSince store s) : exec.Agrees store (exec.catchError calls error s) := by
  obtain ⟨final, s', hcaught, hmirrored, -, houtcome⟩ := catchError_settles calls error hrun
  have hfinal : final = .error := by
    rw [hcaught.final_eq, hlive]
    rfl
  obtain ⟨run', hrun', hstatus⟩ := hcaught.row
  refine ⟨?_, ?_, ?_, ?_⟩
  · intro outcome h
    rw [houtcome outcome h, hmirrored.runs]
    exact ⟨run', hrun', hstatus.symm⟩
  · intro outcome h
    rw [houtcome outcome h]
    exact ⟨fun _ => hfinal, fun _ => rfl⟩
  · intro outcome h
    rw [houtcome outcome h]
    refine ⟨fun _ => hfinal, fun _ => ⟨error.value, ?_⟩⟩
    obtain ⟨frames, hframes⟩ := hmirrored.published
    rw [hframes, hcaught.published]
    simp
  · exact (hmirrored.recordedSince (hcaught.recordedSince hrun hrecorded)).delivery

/-- An error thrown after the run has settled is returned beside another status. -/
theorem catchError_not_agrees (calls : RunCalls J) (error : WireError J)
    {store : MemorySkeinStore J} (hrun : s.store.runs.get? exec.runId = some run)
    (hterm : run.status.isTerminal = true) (hne : run.status ≠ .error) :
    ¬ exec.Agrees store (exec.catchError calls error s) := by
  intro hagrees
  obtain ⟨final, s', hcaught, -, houtcome, -⟩ := catchError_settles calls error hrun
  have hfinal : final = run.status := by rw [hcaught.final_eq, if_pos hterm]
  have hsettled : final ≠ .error := by rwa [hfinal]
  exact hsettled ((hagrees.error _ (houtcome hsettled)).mp rfl)

/-- The outcome of an execution says what its row says, unless the row held an error
before it began or the execution fails after it has settled the run. -/
theorem executeRun_agrees_iff (exec : RunExecution J) {store : MemorySkeinStore J}
    (calls : RunCalls J) (hrun : store.runs.get? exec.runId = some run) :
    exec.Agrees store (exec.executeRun calls store) ↔
      run.status ≠ .error ∧
        (run.status.isTerminal = false → ¬ exec.FailsAfterSettling calls store) := by
  by_cases hterm : run.status.isTerminal = true
  · have hended : exec.executeRun calls store = alreadyEnded { store } run := by
      have hfirst : (store.runsGet exec.runId).filter (fun current => current.status.isTerminal) =
          some run := by
        simp [MemorySkeinStore.runsGet, hrun, hterm]
      unfold executeRun
      rw [hfirst]
    rw [hended, alreadyEnded_agrees_iff exec hrun]
    refine ⟨fun hne => ⟨hne, fun hlive => ?_⟩, And.left⟩
    rw [hterm] at hlive
    cases hlive
  · have hlive : run.status.isTerminal = false := by simpa using hterm
    have hne : run.status ≠ .error := by
      rintro h
      rw [h] at hlive
      cases hlive
    obtain ⟨s, run₀, hrun₀, hlive₀, hstarted, hunrecorded, hrecorded, hpublished, hfails,
      hexecute⟩ := executeRun_of_live calls hrun hlive
    rw [hexecute, ← hfails]
    rcases attempt_cases exec calls hrun₀ hlive₀ hstarted hunrecorded with
      ⟨error, s', hattempt, hproceeds, hpass⟩ |
      ⟨snapshot, s₁, s₂, s', hbefore, hsettles, hafter, hend⟩
    · rw [hattempt]
      have hrun' : s'.store.runs.get? exec.runId = some run₀ := by rw [hproceeds.runs, hrun₀]
      exact iff_of_true (catchError_agrees calls error hrun' hlive₀
        (hproceeds.recordedSince hrecorded)) ⟨hne, fun _ => hpass⟩
    · obtain ⟨run₂, hrun₂, hstatus₂⟩ := hsettles.row
      have hrun' : s'.store.runs.get? exec.runId = some run₂ := by rw [hafter.runs, hrun₂]
      have hsettled := snapshotStatus_ne_error snapshot
      rcases hend with ⟨hlate, error, hattempt⟩ | ⟨hpass, hattempt⟩
      · rw [hattempt]
        refine iff_of_false ?_ fun hpass => hpass.2 hlive hlate
        refine catchError_not_agrees calls error hrun' ?_ ?_
        · rw [hstatus₂]
          exact (snapshotStatus snapshot).property
        · rwa [hstatus₂]
      · rw [hattempt]
        have hrecorded₂ : exec.RecordedSince store s' := hafter.recordedSince
          (hsettles.recordedSince (by rw [hbefore.runs, hrun₀]) (hbefore.recordedSince hrecorded))
        refine iff_of_true ⟨?_, ?_, ?_, hrecorded₂.delivery⟩ ⟨hne, fun _ => hpass⟩
        · rintro _ ⟨⟩
          exact ⟨run₂, hrun', hstatus₂.symm⟩
        · rintro _ ⟨⟩
          exact ⟨fun h => (by cases h), fun h => absurd h hsettled⟩
        · rintro _ ⟨⟩
          refine ⟨?_, fun h => absurd h hsettled⟩
          rintro ⟨data, h⟩
          obtain ⟨frames, hframes⟩ := hbefore.published
          obtain ⟨frames', hframes'⟩ := hafter.published
          dsimp only at h
          rw [hframes', hsettles.published, hframes, hpublished] at h
          simp at h

/-- A run on a thread of its own, and a store that holds both. -/
def plainExecution : RunExecution ℕ where
  runId := .of "r"
  threadId := .of "t"
  callbacks := { webhook := some "https://example.test/done" }
  payloads := {
    toRunError := fun _ => ⟨7, "rejected", rfl⟩
    resultJson := RunResult.values
    resultJson_empty := rfl
    buildDeliveryPayload := fun result _ => some (result.values, false)
    buildDeliveryPayload_clones := fun _ _ _ => rfl
    nativePayload := fun _ _ _ => (0, false)
    nativePayload_serializes := fun _ _ _ => rfl }

def plainStore : MemorySkeinStore ℕ where
  threads := (∅ : Table ThreadId (Thread ℕ) Thread.threadId).write
    ⟨.of "t", 0, 0, 0, 0, .idle, 0, 0, none⟩
  runs := (∅ : Table RunId (Run ℕ) Run.runId).write
    ⟨.of "r", .of "t", .of "a", 0, 0, .pending, 0, none, none⟩

def plainCalls : RunCalls ℕ where
  frames := [1, 2]
  graph := .ok ⟨2, none, 0, false, none⟩

theorem plainExecution_agrees :
    plainExecution.Agrees plainStore (plainExecution.executeRun plainCalls plainStore) :=
  (executeRun_agrees_iff plainExecution plainCalls
    (show plainStore.runs.get? (.of "r") =
      some ⟨.of "r", .of "t", .of "a", 0, 0, .pending, 0, none, none⟩ from rfl)).mpr
    ⟨by decide, fun _ => by
      rintro ⟨-, snapshot, -, -, hunclonable | ⟨-, hrejected⟩⟩
      · exact hunclonable fun _ _ _ _ => rfl
      · cases hrejected⟩

/-- The write of the final thread row fails, and a run that succeeded returns an error. -/
theorem rejectedMirror_disagrees : ¬ plainExecution.Agrees plainStore
    (plainExecution.executeRun { plainCalls with mirrorRejection := some .unserializable }
      plainStore) := by
  intro hagrees
  have herror := hagrees.error ⟨.success, { values := 0 }, some 7⟩ rfl
  exact absurd (herror.mp rfl) (by decide)

end RunExecution
end Skein
