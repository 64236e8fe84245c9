import Mathlib.Data.List.Nodup
import Skein.MemoryStore

/-!
# Cancelling many runs

`cancelMany` resolves its targets and cancels them one by one, skipping those it does not
find. The store may be scoped to what a caller's authorization filters match. What is
reported is compared with what became of the runs.
-/
namespace Skein

inductive InflightStatus
  | pending | running | all
  deriving DecidableEq, Repr

/-- Does `inflight.filter` keep a run of this status? -/
def InflightStatus.keeps : InflightStatus → RunStatus → Bool
  | pending, status => status = .pending
  | running, status => status = .running
  | all, _ => true

structure CancelManyQuery where
  runIds : Option (List RunId) := none
  threadId : Option ThreadId := none
  status : InflightStatus := .all
  action : CancelAction := .interrupt
  deriving DecidableEq, Repr

structure CancelManyResult where
  cancelledRunIds : List RunId
  truncated : Bool
  deriving DecidableEq, Repr

/-- What a cancel depends on besides the store. -/
structure CancelDeps (J : Type*) [WireJson J] where
  /-- `engine.matchesFilters`; matches all metadata where there is no authorization. -/
  matchesFilters : J → Bool
  /-- Does `readNativeOrigin` find an origin? -/
  isNative : Option (RunKwargs J) → Bool
  nativeDelivery : Option (RunKwargs J) → Run J → Option (DeliveryCreate J)
  nativeDelivery_serializes : ∀ kwargs run delivery,
    nativeDelivery kwargs run = some delivery → delivery.roundTrip.isSome = true
  /-- The bases noted by the engine of this process. -/
  runBaseCheckpoints : RunId → Option (Option CheckpointId)
  /-- Does `rollbackThreadCheckpointsTo` come through, under the claim of the thread? -/
  reverts : RunId → Bool
  clock : RunId → Timestamp
  uuid : RunId → DeliveryId

namespace CancelDeps
variable {J : Type*} [WireJson J] (deps : CancelDeps J)

def runsGet (store : MemorySkeinStore J) (runId : RunId) : Option (Run J) :=
  (store.runsGet runId).filter fun run => deps.matchesFilters run.metadata

def threadsGet (store : MemorySkeinStore J) (threadId : ThreadId) : Option (Thread J) :=
  (store.threadsGet threadId).filter fun thread => deps.matchesFilters thread.metadata

def threadNotFound (threadId : ThreadId) : Thrown :=
  .http (.notFound ("Thread \"" ++ threadId.value ++ "\" not found."))

def runsSetStatus (store : MemorySkeinStore J) (runId : RunId) (status : RunStatus)
    (now : Timestamp) : Completion J (Run J) :=
  match deps.runsGet store runId with
  | none => (.error (MemorySkeinStore.runNotFound runId), store)
  | some _ => store.runsSetStatus runId status none now

def runsSettle (store : MemorySkeinStore J) (runId : RunId) (final : RunSettlement J)
    (uuid : DeliveryId) (now : Timestamp) : Completion J (SettledRun J) :=
  match deps.runsGet store runId with
  | none => (.error (MemorySkeinStore.runNotFound runId), store)
  | some _ => store.runsSettle runId final uuid now

def runsDelete (store : MemorySkeinStore J) (runId : RunId) : Completion J Unit :=
  match deps.runsGet store runId with
  | none => (.error (MemorySkeinStore.runNotFound runId), store)
  | some _ => (.ok (), store.runsDelete runId)

/-- `threads.update` of the status alone, which leaves the owner's stamp as it is. -/
def threadsUpdate (store : MemorySkeinStore J) (threadId : ThreadId) (status : ThreadStatus)
    (now : Timestamp) : Completion J (Thread J) :=
  match deps.threadsGet store threadId with
  | none => (.error (threadNotFound threadId), store)
  | some _ => store.threadsUpdate threadId { status := some status } now

/-- `readBaseCheckpoint`: `none` where none was recorded. -/
def readBaseCheckpoint (store : MemorySkeinStore J) (runId : RunId) :
    Option (Option CheckpointId) :=
  (deps.runBaseCheckpoints runId).or
    ((store.runKwargs.get? runId).bind RunKwargs.baseCheckpointId)

def cancelledSettlement (delivery : Option (DeliveryCreate J)) : RunSettlement J where
  status := ⟨.cancelled, RunStatus.isTerminal_cancelled⟩
  delivery := delivery

/-- The row is settled, with its outcome where the run is a native one. -/
def settleCancelled (store : MemorySkeinStore J) (run : Run J) : Completion J Unit :=
  let kwargs := store.runKwargs.get? run.runId
  if deps.isNative kwargs then
    let delivery := deps.nativeDelivery kwargs { run with status := .cancelled }
    match deps.runsSettle store run.runId (cancelledSettlement delivery) (deps.uuid run.runId)
        (deps.clock run.runId) with
    | (.error e, store) => (.error e, store)
    | (.ok _, store) => (.ok (), store)
  else
    match deps.runsSetStatus store run.runId .cancelled (deps.clock run.runId) with
    | (.error e, store) => (.error e, store)
    | (.ok _, store) => (.ok (), store)

/-- `rollbackCancelledRun` on the store: the row of a native run stays, and a failure is only
logged. -/
def rollbackCancelledRun (store : MemorySkeinStore J) (run : Run J) : MemorySkeinStore J :=
  if deps.isNative (store.runKwargs.get? run.runId) then store
  else if deps.reverts run.runId then (deps.runsDelete store run.runId).2 else store

/-- `cancelRun`, for a request that is not a recovered one. -/
def cancelRun (action : CancelAction) (store : MemorySkeinStore J) (runId : RunId) :
    Completion J (Run J) :=
  match deps.runsGet store runId with
  | none => (.error (MemorySkeinStore.runNotFound runId), store)
  | some run =>
    -- Idempotent: cancelling a finished run is a no-op.
    if run.status.isTerminal then (.ok run, store)
    else
      let base := if action = .rollback then deps.readBaseCheckpoint store runId else none
      match deps.settleCancelled store run with
      | (.error e, store) => (.error e, store)
      | (.ok _, store) =>
        match deps.threadsUpdate store run.threadId .idle (deps.clock runId) with
        | (.error e, store) => (.error e, store)
        | (.ok _, store) =>
          let store := if base.isSome then deps.rollbackCancelledRun store run else store
          (.ok ((deps.runsGet store runId).getD { run with status := .cancelled }), store)

/-- `resolveCancelTargets`. -/
def resolveCancelTargets (query : CancelManyQuery) (store : MemorySkeinStore J) :
    Except Thrown (List RunId × Bool) :=
  match query.runIds with
  | some runIds => .ok (runIds.eraseDups, false)
  | none =>
    match query.threadId.filter fun threadId => (deps.threadsGet store threadId).isNone with
    | some threadId => .error (threadNotFound threadId)
    | none =>
      let inflight := store.runsListActiveRuns query.threadId
      let wanted := inflight.filter fun run => query.status.keeps run.status
      .ok (wanted.map Run.runId,
        query.threadId.isNone && decide (store.maxPageSize ≤ inflight.length))

/-- The loop of `cancelMany`: a run that is not found is skipped. -/
def cancelEach (action : CancelAction) :
    List RunId → MemorySkeinStore J → Completion J (List RunId)
  | [], store => (.ok [], store)
  | runId :: rest, store =>
    match deps.cancelRun action store runId with
    | (.ok _, store) =>
      match cancelEach action rest store with
      | (.ok cancelled, store) => (.ok (runId :: cancelled), store)
      | (.error e, store) => (.error e, store)
    | (.error (.http e), store) =>
      if e.status = 404 then cancelEach action rest store else (.error (.http e), store)
    | (.error e, store) => (.error e, store)

def cancelMany (query : CancelManyQuery) (store : MemorySkeinStore J) :
    Completion J CancelManyResult :=
  match deps.resolveCancelTargets query store with
  | .error e => (.error e, store)
  | .ok (runIds, truncated) =>
    match deps.cancelEach query.action runIds store with
    | (.error e, store) => (.error e, store)
    | (.ok cancelledRunIds, store) => (.ok { cancelledRunIds, truncated }, store)

/-- What a step that is about `runId` leaves alone. -/
structure Touches (runId : RunId) (store store' : MemorySkeinStore J) : Prop where
  rows : ∀ k, k ≠ runId → store'.runs.get? k = store.runs.get? k
  threads : ∀ t, (deps.threadsGet store' t).isSome = (deps.threadsGet store t).isSome

namespace Touches
variable {deps} {runId : RunId} {a b c : MemorySkeinStore J}

theorem refl : deps.Touches runId a a := ⟨fun _ _ => rfl, fun _ => rfl⟩

theorem trans (hab : deps.Touches runId a b) (hbc : deps.Touches runId b c) :
    deps.Touches runId a c where
  rows k hk := (hbc.rows k hk).trans (hab.rows k hk)
  threads t := (hbc.threads t).trans (hab.threads t)

end Touches

/-- A run is cancelled, or discarded where that was asked for. -/
def Discarded (action : CancelAction) (store : MemorySkeinStore J) (runId : RunId) : Prop :=
  (store.runs.get? runId).map Run.status = some .cancelled ∨
    (action = .rollback ∧ store.runs.get? runId = none)

variable {deps}

theorem runsGet_eq_some {store : MemorySkeinStore J} {runId : RunId} {run : Run J} :
    deps.runsGet store runId = some run ↔
      store.runs.get? runId = some run ∧ deps.matchesFilters run.metadata = true := by
  simp [runsGet, MemorySkeinStore.runsGet, Option.filter_eq_some_iff]

theorem threadsGet_isSome_congr {store store' : MemorySkeinStore J}
    (h : store'.threads = store.threads) (t : ThreadId) :
    (deps.threadsGet store' t).isSome = (deps.threadsGet store t).isSome := by
  simp [threadsGet, MemorySkeinStore.threadsGet, h]

theorem exists_roundTrip_cancelledSettlement {delivery : Option (DeliveryCreate J)}
    (h : ∀ d, delivery = some d → d.roundTrip.isSome = true) :
    ∃ final, (cancelledSettlement delivery).roundTrip = some final := by
  cases delivery with
  | none => exact ⟨_, rfl⟩
  | some d =>
    obtain ⟨parsed, hparsed⟩ := Option.isSome_iff_exists.mp (h d rfl)
    refine ⟨_, RunSettlement.roundTrip_eq_some.mpr ⟨none, none, some parsed, rfl, rfl, ?_, rfl⟩⟩
    simp [cancelledSettlement, roundTripOption, hparsed]

/-- What `runs.setStatus` makes of a cancelled run. -/
def cancelledRow (run : Run J) (now : Timestamp) : Run J :=
  { run with status := .cancelled, error := none, updatedAt := now }

/-- Settling a visible run works, and leaves its row cancelled. -/
theorem settleCancelled_spec {store : MemorySkeinStore J} {run : Run J}
    (hrun : deps.runsGet store run.runId = some run) (hlive : run.status.isTerminal = false) :
    ∃ store' run', deps.settleCancelled store run = (.ok (), store') ∧
      deps.Touches run.runId store store' ∧
      store'.runs.get? run.runId = some run' ∧ run'.status = .cancelled := by
  have hrow := (runsGet_eq_some.mp hrun).1
  unfold settleCancelled
  by_cases hnative : deps.isNative (store.runKwargs.get? run.runId) = true
  · obtain ⟨final, hfinal⟩ := exists_roundTrip_cancelledSettlement
      (deps.nativeDelivery_serializes (store.runKwargs.get? run.runId)
        { run with status := .cancelled })
    have hstatus := RunSettlement.roundTrip_status hfinal
    have hget := store.settleFinal_get? run.runId final (deps.uuid run.runId)
      (deps.clock run.runId)
    have hframe := store.settleFinal_frame run.runId final (deps.uuid run.runId)
      (deps.clock run.runId)
    simp only [hnative, if_true, runsSettle, hrun, MemorySkeinStore.runsSettle_of_roundTrip hfinal]
    refine ⟨_, MemorySkeinStore.settledRun run final (deps.clock run.runId), rfl, ⟨?_, ?_⟩, ?_, ?_⟩
    · intro k hk
      rw [hget, if_neg hk]
    · exact threadsGet_isSome_congr (by rw [hframe])
    · rw [hget, if_pos rfl, hrow, Option.map_some]
    · simp [MemorySkeinStore.settledRun, hlive, hstatus, cancelledSettlement]
  · have hguard : ¬(RunStatus.cancelled = .running ∧ run.runId ∈ store.admittedRunIds ∧
        run.status.isTerminal = true) := by simp
    simp only [hnative, runsSetStatus, hrun, MemorySkeinStore.runsSetStatus, hrow, if_neg hguard]
    refine ⟨_, cancelledRow run (deps.clock run.runId), rfl, ⟨?_, ?_⟩, ?_, rfl⟩
    · intro k hk
      simp [MemorySkeinStore.writeStatus, Table.get?_write, Ne.symm hk]
    · exact threadsGet_isSome_congr rfl
    · simp [MemorySkeinStore.writeStatus, Table.get?_write, cancelledRow]

theorem threadsUpdate_spec (store : MemorySkeinStore J) (runId : RunId) (threadId : ThreadId)
    (now : Timestamp) :
    ∃ answer store', deps.threadsUpdate store threadId .idle now = (answer, store') ∧
      deps.Touches runId store store' ∧ store'.runs = store.runs ∧
      ((deps.threadsGet store threadId).isSome = true → ∃ thread, answer = .ok thread) ∧
      ((deps.threadsGet store threadId).isSome = false →
        answer = .error (threadNotFound threadId)) := by
  cases hthread : deps.threadsGet store threadId with
  | none =>
    refine ⟨_, _, by simp only [threadsUpdate, hthread], .refl, rfl, ?_, fun _ => rfl⟩
    intro h
    cases h
  | some thread =>
    have hrow : store.threads.get? threadId = some thread := by
      simp only [threadsGet, Option.filter_eq_some_iff] at hthread
      exact hthread.1
    have hid : thread.threadId = threadId := Table.key_of_get? hrow
    simp only [threadsUpdate, hthread, MemorySkeinStore.threadsUpdate, hrow]
    refine ⟨_, _, rfl, ⟨fun _ _ => rfl, fun t => ?_⟩, rfl, fun _ => ⟨_, rfl⟩, fun h => by cases h⟩
    simp only [threadsGet, MemorySkeinStore.threadsGet, Table.get?_write]
    by_cases ht : threadId = t
    · subst ht
      have hmetadata : (none : Option J).getD thread.metadata = thread.metadata := rfl
      simp only [MemorySkeinStore.patchedThread, hid, hrow, if_true, Option.filter, hmetadata]
      by_cases hmatches : deps.matchesFilters thread.metadata = true
      · rw [if_pos hmatches, if_pos hmatches]
        rfl
      · rw [if_neg hmatches, if_neg hmatches]
    · simp [MemorySkeinStore.patchedThread, hid, ht]

theorem rollbackCancelledRun_spec (store : MemorySkeinStore J) (run : Run J) :
    deps.Touches run.runId store (deps.rollbackCancelledRun store run) ∧
      ((deps.rollbackCancelledRun store run).runs.get? run.runId = none ∨
        (deps.rollbackCancelledRun store run).runs.get? run.runId = store.runs.get? run.runId) := by
  unfold rollbackCancelledRun
  split_ifs
  · exact ⟨.refl, .inr rfl⟩
  · unfold runsDelete
    split
    · exact ⟨.refl, .inr rfl⟩
    · refine ⟨⟨?_, threadsGet_isSome_congr rfl⟩, .inl ?_⟩
      · intro k hk
        simp [MemorySkeinStore.runsDelete, MemorySkeinStore.forgetAdmission, Table.get?_erase,
          Ne.symm hk]
      · simp [MemorySkeinStore.runsDelete, MemorySkeinStore.forgetAdmission, Table.get?_erase]
  · exact ⟨.refl, .inr rfl⟩

theorem cancelRun_missing {store : MemorySkeinStore J} {runId : RunId}
    (h : deps.runsGet store runId = none) (action : CancelAction) :
    deps.cancelRun action store runId = (.error (MemorySkeinStore.runNotFound runId), store) := by
  simp [cancelRun, h]

theorem cancelRun_finished {store : MemorySkeinStore J} {runId : RunId} {run : Run J}
    (h : deps.runsGet store runId = some run) (hterminal : run.status.isTerminal = true)
    (action : CancelAction) : deps.cancelRun action store runId = (.ok run, store) := by
  simp [cancelRun, h, hterminal]

/-- A live run is discarded in any case; the thread decides whether the call returns. -/
theorem cancelRun_live {store : MemorySkeinStore J} {run : Run J}
    (hrun : deps.runsGet store run.runId = some run) (hlive : run.status.isTerminal = false)
    (action : CancelAction) :
    ∃ answer store', deps.cancelRun action store run.runId = (answer, store') ∧
      deps.Touches run.runId store store' ∧ Discarded action store' run.runId ∧
      ((deps.threadsGet store run.threadId).isSome = true → ∃ cancelled, answer = .ok cancelled) ∧
      ((deps.threadsGet store run.threadId).isSome = false →
        answer = .error (threadNotFound run.threadId)) := by
  obtain ⟨store₁, run₁, hsettle, htouch₁, hrow₁, hcancelled⟩ := settleCancelled_spec hrun hlive
  obtain ⟨freed, store₂, hfree, htouch₂, hruns₂, hfound, hnotFound⟩ :=
    deps.threadsUpdate_spec store₁ run.runId run.threadId (deps.clock run.runId)
  rw [htouch₁.threads] at hfound hnotFound
  have hdiscarded : Discarded action store₂ run.runId := by
    refine .inl ?_
    rw [hruns₂, hrow₁, Option.map_some, hcancelled]
  cases hthread : (deps.threadsGet store run.threadId).isSome with
  | false =>
    have hanswer := hnotFound hthread
    subst hanswer
    refine ⟨.error (threadNotFound run.threadId), store₂, ?_, htouch₁.trans htouch₂, hdiscarded,
      ?_, fun _ => rfl⟩
    · simp [cancelRun, hrun, hlive, hsettle, hfree]
    · intro h
      cases h
  | true =>
    obtain ⟨thread, hanswer⟩ := hfound hthread
    subst hanswer
    obtain ⟨htouch₃, hrow₃⟩ := deps.rollbackCancelledRun_spec store₂ run
    obtain ⟨base, hbase⟩ : ∃ base, base = if action = .rollback then
      deps.readBaseCheckpoint store run.runId else none := ⟨_, rfl⟩
    obtain ⟨store₃, hstore₃⟩ : ∃ store₃, store₃ =
      if base.isSome then deps.rollbackCancelledRun store₂ run else store₂ := ⟨_, rfl⟩
    refine ⟨.ok ((deps.runsGet store₃ run.runId).getD { run with status := .cancelled }), store₃,
      ?_, ?_, ?_, fun _ => ⟨_, rfl⟩, ?_⟩
    · simp only [cancelRun, hrun, hlive, hsettle, hfree, ← hbase, ← hstore₃]
      rfl
    · rw [hstore₃]
      split_ifs
      · exact (htouch₁.trans htouch₂).trans htouch₃
      · exact htouch₁.trans htouch₂
    · rw [hstore₃]
      split_ifs with hsome
      · rcases hrow₃ with hgone | hkept
        · refine .inr ⟨?_, hgone⟩
          by_contra hne
          simp [hbase, hne] at hsome
        · refine .inl ?_
          rw [hkept, hruns₂, hrow₁, Option.map_some, hcancelled]
      · exact hdiscarded
    · intro h
      cases h

/-- The run is there for the caller, and so is its thread unless the run had finished. -/
def Reported (deps : CancelDeps J) (store : MemorySkeinStore J) (runId : RunId) : Prop :=
  ∃ run, deps.runsGet store runId = some run ∧
    (run.status.isTerminal = true ∨ (deps.threadsGet store run.threadId).isSome = true)

/-- What the loop does to the runs of a list without repeats. -/
structure Swept (deps : CancelDeps J) (action : CancelAction) (runIds : List RunId)
    (store : MemorySkeinStore J) (cancelled : List RunId) (store' : MemorySkeinStore J) :
    Prop where
  untargeted : ∀ k, k ∉ runIds → store'.runs.get? k = store.runs.get? k
  sublist : cancelled.Sublist runIds
  reported : ∀ k, k ∈ cancelled ↔ k ∈ runIds ∧ deps.Reported store k
  finished : ∀ k run, k ∈ runIds → deps.runsGet store k = some run →
    run.status.isTerminal = true → store'.runs.get? k = some run
  live : ∀ k run, k ∈ runIds → deps.runsGet store k = some run →
    run.status.isTerminal = false → Discarded action store' k

theorem Touches.reported_iff {runId k : RunId} {store store' : MemorySkeinStore J}
    (h : deps.Touches runId store store') (hk : k ≠ runId) :
    deps.Reported store' k ↔ deps.Reported store k := by
  simp only [Reported, runsGet, MemorySkeinStore.runsGet, h.rows k hk, h.threads]

theorem Touches.runsGet_eq {runId k : RunId} {store store' : MemorySkeinStore J}
    (h : deps.Touches runId store store') (hk : k ≠ runId) :
    deps.runsGet store' k = deps.runsGet store k := by
  simp only [runsGet, MemorySkeinStore.runsGet, h.rows k hk]

/-- One more run before the others: it is not among them, so neither touches the other. -/
theorem Swept.cons {action : CancelAction} {runId : RunId} {rest : List RunId}
    {store store₁ store' : MemorySkeinStore J} {cancelled cancelled' : List RunId}
    (hrest : deps.Swept action rest store₁ cancelled store') (hnotMem : runId ∉ rest)
    (htouch : deps.Touches runId store store₁)
    (hanswer : (cancelled' = runId :: cancelled ∧ deps.Reported store runId) ∨
      (cancelled' = cancelled ∧ ¬ deps.Reported store runId))
    (hfinished : ∀ run, deps.runsGet store runId = some run → run.status.isTerminal = true →
      store₁.runs.get? runId = some run)
    (hlive : ∀ run, deps.runsGet store runId = some run → run.status.isTerminal = false →
      Discarded action store₁ runId) :
    deps.Swept action (runId :: rest) store cancelled' store' := by
  have hne : ∀ k ∈ rest, k ≠ runId := by
    rintro k hk rfl
    exact hnotMem hk
  have hkept : store'.runs.get? runId = store₁.runs.get? runId := hrest.untargeted runId hnotMem
  constructor
  · intro k hk
    rw [List.mem_cons, not_or] at hk
    rw [hrest.untargeted k hk.2, htouch.rows k hk.1]
  · rcases hanswer with ⟨rfl, -⟩ | ⟨rfl, -⟩
    · exact hrest.sublist.cons_cons runId
    · exact hrest.sublist.cons runId
  · intro k
    have hk := hrest.reported k
    by_cases heq : k = runId
    · subst heq
      rcases hanswer with ⟨rfl, hreported⟩ | ⟨rfl, hnot⟩
      · simp [hreported]
      · simp [hk, hnot, hnotMem]
    · rw [htouch.reported_iff heq] at hk
      rcases hanswer with ⟨rfl, -⟩ | ⟨rfl, -⟩ <;> simp [heq, hk]
  · intro k run hk hrun hterminal
    rcases List.mem_cons.mp hk with rfl | hk
    · rw [hkept]
      exact hfinished run hrun hterminal
    · exact hrest.finished k run hk ((htouch.runsGet_eq (hne k hk)).trans hrun) hterminal
  · intro k run hk hrun hlive'
    rcases List.mem_cons.mp hk with rfl | hk
    · unfold Discarded
      rw [hkept]
      exact hlive run hrun hlive'
    · exact hrest.live k run hk ((htouch.runsGet_eq (hne k hk)).trans hrun) hlive'

theorem cancelEach_swept (action : CancelAction) {runIds : List RunId} (hnodup : runIds.Nodup)
    (store : MemorySkeinStore J) :
    ∃ cancelled store', deps.cancelEach action runIds store = (.ok cancelled, store') ∧
      deps.Swept action runIds store cancelled store' := by
  induction runIds generalizing store with
  | nil => exact ⟨[], store, rfl, fun _ _ => rfl, .slnil, by simp, by simp, by simp⟩
  | cons runId rest ih =>
    obtain ⟨hnotMem, hrest⟩ := List.nodup_cons.mp hnodup
    cases hrun : deps.runsGet store runId with
    | none =>
      obtain ⟨cancelled, store', heach, hswept⟩ := ih hrest store
      refine ⟨cancelled, store', ?_, hswept.cons hnotMem .refl (.inr ⟨rfl, ?_⟩) ?_ ?_⟩
      · simp only [cancelEach, cancelRun_missing hrun, MemorySkeinStore.runNotFound]
        exact heach
      all_goals simp [Reported, hrun]
    | some run =>
      have hid : run.runId = runId := Table.key_of_get? (runsGet_eq_some.mp hrun).1
      subst hid
      cases hterminal : run.status.isTerminal with
      | true =>
        obtain ⟨cancelled, store', heach, hswept⟩ := ih hrest store
        refine ⟨run.runId :: cancelled, store', ?_,
          hswept.cons hnotMem .refl (.inl ⟨rfl, run, hrun, .inl hterminal⟩) ?_ ?_⟩
        · simp only [cancelEach, cancelRun_finished hrun hterminal, heach]
        · intro other hother _
          exact (runsGet_eq_some.mp hother).1
        · simp [hrun, hterminal]
      | false =>
        obtain ⟨answer, store₁, hcancel, htouch, hdiscarded, hfound, hnotFound⟩ :=
          cancelRun_live hrun hterminal action
        obtain ⟨cancelled, store', heach, hswept⟩ := ih hrest store₁
        cases hthread : (deps.threadsGet store run.threadId).isSome with
        | true =>
          obtain ⟨row, rfl⟩ := hfound hthread
          refine ⟨run.runId :: cancelled, store', ?_,
            hswept.cons hnotMem htouch (.inl ⟨rfl, run, hrun, .inr hthread⟩) ?_ ?_⟩
          · simp only [cancelEach, hcancel, heach]
          · simp [hrun, hterminal]
          · exact fun _ _ _ => hdiscarded
        | false =>
          have hanswer := hnotFound hthread
          subst hanswer
          refine ⟨cancelled, store', ?_, hswept.cons hnotMem htouch (.inr ⟨rfl, ?_⟩) ?_ ?_⟩
          · simp only [cancelEach, hcancel, threadNotFound]
            exact heach
          · simp [Reported, hrun, hterminal, hthread]
          · simp [hrun, hterminal]
          · exact fun _ _ _ => hdiscarded

/-- The runs a query is about: those it names, the inflight runs of its thread, or the page of
all inflight runs that the store lists. -/
def Targeted (query : CancelManyQuery) (store : MemorySkeinStore J) (runId : RunId) : Prop :=
  (∃ runIds, query.runIds = some runIds ∧ runId ∈ runIds) ∨
  (query.runIds = none ∧ ∃ run, store.runs.get? runId = some run ∧
    run.status.isTerminal = false ∧ query.status.keeps run.status = true ∧
    (query.threadId = some run.threadId ∨
      (query.threadId = none ∧ run ∈ store.runsListActiveRuns none)))

/-- The report of a bulk cancel says what it did. -/
structure ReportsEffect (deps : CancelDeps J) (query : CancelManyQuery)
    (store : MemorySkeinStore J) (result : CancelManyResult) (store' : MemorySkeinStore J) :
    Prop where
  sound : ∀ runId ∈ result.cancelledRunIds, ∃ run, store.runs.get? runId = some run ∧
    run.status.isTerminal = false ∧ Discarded query.action store' runId
  complete : ∀ runId run, Targeted query store runId → deps.runsGet store runId = some run →
    run.status.isTerminal = false → result.cancelledRunIds.count runId = 1
  frame : ∀ runId, ¬ Targeted query store runId →
    (store'.runs.get? runId).map Run.status = (store.runs.get? runId).map Run.status
  truncated : query.runIds = none → query.threadId = none →
    store.maxPageSize ≤ (store.runsListActiveRuns none).length → result.truncated = true

/-- No named run has finished, the thread's inflight runs fit the page, and every targeted run
still has its thread. -/
structure AllCancellable (deps : CancelDeps J) (query : CancelManyQuery)
    (store : MemorySkeinStore J) : Prop where
  unfinished : ∀ runIds, query.runIds = some runIds → ∀ runId ∈ runIds, ∀ run,
    deps.runsGet store runId = some run → run.status.isTerminal = false
  listed : ∀ runId run, query.runIds = none → query.threadId = some run.threadId →
    Targeted query store runId → deps.runsGet store runId = some run →
    run ∈ store.runsListActiveRuns (some run.threadId)
  threads : ∀ runId run, Targeted query store runId → deps.runsGet store runId = some run →
    run.status.isTerminal = false → (deps.threadsGet store run.threadId).isSome = true

theorem nodup_eraseDups {α : Type*} [DecidableEq α] : ∀ l : List α, l.eraseDups.Nodup
  | [] => by simp
  | a :: l => by
    rw [List.eraseDups_cons, List.nodup_cons]
    refine ⟨?_, nodup_eraseDups _⟩
    simp
termination_by l => l.length
decreasing_by exact Nat.lt_succ_of_le (List.length_filter_le _ _)

/-- What is resolved has no repeats and is targeted, and only a thread's page can be too short
for what is. -/
theorem resolveCancelTargets_spec {query : CancelManyQuery} {store : MemorySkeinStore J}
    {runIds : List RunId} {truncated : Bool}
    (h : deps.resolveCancelTargets query store = .ok (runIds, truncated)) :
    runIds.Nodup ∧ (∀ k ∈ runIds, Targeted query store k) ∧
      (∀ k run, Targeted query store k → store.runs.get? k = some run →
        (query.runIds = none → query.threadId = some run.threadId →
          run ∈ store.runsListActiveRuns (some run.threadId)) → k ∈ runIds) ∧
      (∀ k ∈ runIds, ∀ run, store.runs.get? k = some run → query.runIds = none →
        query.threadId = some run.threadId →
        run ∈ store.runsListActiveRuns (some run.threadId)) ∧
      (query.runIds = none → query.threadId = none →
        store.maxPageSize ≤ (store.runsListActiveRuns none).length → truncated = true) := by
  unfold resolveCancelTargets at h
  cases hids : query.runIds with
  | some named =>
    rw [hids] at h
    cases h
    refine ⟨nodup_eraseDups _, ?_, ?_, by simp, by simp⟩
    · intro k hk
      exact .inl ⟨named, hids, List.mem_eraseDups.mp hk⟩
    · rintro k run (⟨ids, hids', hk⟩ | ⟨hnone, -⟩) _ _
      · rw [hids] at hids'
        cases hids'
        exact List.mem_eraseDups.mpr hk
      · rw [hids] at hnone
        cases hnone
  | none =>
    rw [hids] at h
    dsimp only at h
    split at h
    · cases h
    · cases h
      refine ⟨?_, ?_, ?_, ?_, ?_⟩
      · exact (store.nodup_runsListActiveRuns query.threadId).sublist
          (List.filter_sublist.map _)
      · intro k hk
        obtain ⟨run, hmem, rfl⟩ := List.mem_map.mp hk
        obtain ⟨hmem, hkeeps⟩ := List.mem_filter.mp hmem
        obtain ⟨hrow, hlive⟩ := MemorySkeinStore.mem_runsListActiveRuns hmem
        refine .inr ⟨hids, run, hrow, hlive, hkeeps, ?_⟩
        cases hthread : query.threadId with
        | none =>
          rw [hthread] at hmem
          exact .inr ⟨rfl, hmem⟩
        | some threadId =>
          rw [hthread] at hmem
          have hfilter := (List.mem_filter.mp (List.mem_of_mem_take hmem)).2
          simp only [Option.all_some, Bool.and_eq_true, decide_eq_true_eq] at hfilter
          rw [hfilter.1]
          exact .inl rfl
      · rintro k run (⟨ids, hsome, -⟩ | ⟨-, other, hother, -, hkeeps, hwhere⟩) hrow hlisted
        · rw [hids] at hsome
          cases hsome
        · rw [hrow] at hother
          cases hother
          refine List.mem_map.mpr ⟨run, List.mem_filter.mpr ⟨?_, hkeeps⟩, Table.key_of_get? hrow⟩
          rcases hwhere with hthread | ⟨hall, hmem⟩
          · rw [hthread]
            exact hlisted rfl hthread
          · rw [hall]
            exact hmem
      · intro k hk run hrow _ hthread
        obtain ⟨other, hmem, rfl⟩ := List.mem_map.mp hk
        obtain ⟨hmem, -⟩ := List.mem_filter.mp hmem
        rw [(MemorySkeinStore.mem_runsListActiveRuns hmem).1] at hrow
        cases hrow
        rw [← hthread]
        exact hmem
      · intro _ hall hfull
        simp [hall, hfull]

theorem cancelMany_eq {query : CancelManyQuery} {store store' : MemorySkeinStore J}
    {runIds cancelled : List RunId} {truncated : Bool}
    (hresolve : deps.resolveCancelTargets query store = .ok (runIds, truncated))
    (heach : deps.cancelEach query.action runIds store = (.ok cancelled, store')) :
    deps.cancelMany query store = (.ok ⟨cancelled, truncated⟩, store') := by
  unfold cancelMany
  rw [hresolve]
  dsimp only
  rw [heach]

/-- A bulk cancel throws only where the thread it is about is not there; otherwise it reports
its effect exactly where all it targets can be cancelled. -/
theorem cancelMany_reports_iff (deps : CancelDeps J) (query : CancelManyQuery)
    (store : MemorySkeinStore J) :
    (∃ threadId, query.runIds = none ∧ query.threadId = some threadId ∧
      deps.threadsGet store threadId = none ∧
      deps.cancelMany query store = (.error (threadNotFound threadId), store)) ∨
    ∃ result store', deps.cancelMany query store = (.ok result, store') ∧
      (ReportsEffect deps query store result store' ↔ AllCancellable deps query store) := by
  cases hresolve : deps.resolveCancelTargets query store with
  | error e =>
    have hthrown : deps.cancelMany query store = (.error e, store) := by simp [cancelMany, hresolve]
    refine .inl ?_
    unfold resolveCancelTargets at hresolve
    split at hresolve
    · cases hresolve
    · split at hresolve
      next hnone _ threadId hthread =>
        cases hresolve
        rw [Option.filter_eq_some_iff] at hthread
        exact ⟨threadId, hnone, hthread.1, by simpa using hthread.2, hthrown⟩
      · cases hresolve
  | ok resolved =>
    obtain ⟨runIds, truncated⟩ := resolved
    obtain ⟨hnodup, hsub, hsup, hpage, htruncated⟩ := resolveCancelTargets_spec hresolve
    obtain ⟨cancelled, store', heach, hswept⟩ := cancelEach_swept query.action hnodup store
    refine .inr ⟨⟨cancelled, truncated⟩, store', cancelMany_eq hresolve heach, ?_⟩
    have hmem : ∀ {k}, cancelled.count k = 1 → k ∈ cancelled := by
      intro k hcount
      exact List.count_pos_iff.mp (by omega)
    constructor
    · intro h
      constructor
      · intro named hnamed k hk run hrun
        by_contra hterminal
        rw [Bool.not_eq_false] at hterminal
        have hrow := (runsGet_eq_some.mp hrun).1
        have hin : k ∈ runIds := by
          refine hsup k run (.inl ⟨named, hnamed, hk⟩) hrow fun hnone => ?_
          rw [hnamed] at hnone
          cases hnone
        have hreported := (hswept.reported k).mpr ⟨hin, run, hrun, .inl hterminal⟩
        obtain ⟨other, hother, hlive, -⟩ := h.sound k hreported
        rw [hrow] at hother
        cases hother
        rw [hterminal] at hlive
        cases hlive
      · intro k run hnone hthread htargeted hrun
        have hrow := (runsGet_eq_some.mp hrun).1
        have hlive : run.status.isTerminal = false := by
          rcases htargeted with ⟨ids, hsome, -⟩ | ⟨-, other, hother, hlive, -⟩
          · rw [hnone] at hsome
            cases hsome
          · rw [hrow] at hother
            cases hother
            exact hlive
        have hin := hswept.sublist.subset (hmem (h.complete k run htargeted hrun hlive))
        exact hpage k hin run hrow hnone hthread
      · intro k run htargeted hrun hlive
        have hin := hmem (h.complete k run htargeted hrun hlive)
        obtain ⟨-, other, hother, hreason⟩ := (hswept.reported k).mp hin
        rw [hrun] at hother
        cases hother
        rcases hreason with hterminal | hthread
        · rw [hlive] at hterminal
          cases hterminal
        · exact hthread
    · intro h
      constructor
      · intro k hk
        obtain ⟨hin, run, hrun, -⟩ := (hswept.reported k).mp hk
        have hrow := (runsGet_eq_some.mp hrun).1
        have hlive : run.status.isTerminal = false := by
          rcases hsub k hin with ⟨ids, hsome, hmem⟩ | ⟨-, other, hother, hlive, -⟩
          · exact h.unfinished ids hsome k hmem run hrun
          · rw [hrow] at hother
            cases hother
            exact hlive
        exact ⟨run, hrow, hlive, hswept.live k run hin hrun hlive⟩
      · intro k run htargeted hrun hlive
        have hrow := (runsGet_eq_some.mp hrun).1
        have hin := hsup k run htargeted hrow fun hnone hthread =>
          h.listed k run hnone hthread htargeted hrun
        have hthread := h.threads k run htargeted hrun hlive
        exact List.count_eq_one_of_mem (hnodup.sublist hswept.sublist)
          ((hswept.reported k).mpr ⟨hin, run, hrun, .inr hthread⟩)
      · intro k hk
        rw [hswept.untargeted k fun hin => hk (hsub k hin)]
      · exact htruncated

def finishedRun : Run ℕ where
  runId := .of "run"
  threadId := .of "thread"
  assistantId := .of "agent"
  createdAt := 0
  updatedAt := 0
  status := .success
  metadata := 0
  multitaskStrategy := none

def idleThread : Thread ℕ where
  threadId := .of "thread"
  createdAt := 0
  updatedAt := 0
  stateUpdatedAt := 0
  metadata := 0
  status := .idle
  values := 0
  interrupts := 0

def finishedStore : MemorySkeinStore ℕ where
  threads := Table.write ∅ idleThread
  runs := Table.write ∅ finishedRun

/-- No authorization, no native runs, no notes of the engine. -/
def plainDeps : CancelDeps ℕ where
  matchesFilters := fun _ => true
  isNative := fun _ => false
  nativeDelivery := fun _ _ => none
  nativeDelivery_serializes := by simp
  runBaseCheckpoints := fun _ => none
  reverts := fun _ => true
  clock := fun _ => 1
  uuid := fun _ => .of "uuid"

def cancelFinished : CancelManyQuery where
  runIds := some [.of "run"]

/-- A finished run is reported as cancelled by the call that named it. -/
theorem finished_reported : ∃ result store',
    plainDeps.cancelMany cancelFinished finishedStore = (.ok result, store') ∧
      ¬ ReportsEffect plainDeps cancelFinished finishedStore result store' := by
  have hfinished : finishedStore.runs.get? (.of "run") = some finishedRun := by decide +kernel
  have hcancel := cancelRun_finished (runsGet_eq_some.mpr ⟨hfinished, rfl⟩ :
    plainDeps.runsGet finishedStore (.of "run") = some finishedRun) rfl .interrupt
  refine ⟨⟨[.of "run"], false⟩, finishedStore, ?_, ?_⟩
  · have hresolve : plainDeps.resolveCancelTargets cancelFinished finishedStore =
        .ok ([.of "run"], false) := rfl
    refine cancelMany_eq hresolve ?_
    change plainDeps.cancelEach .interrupt [.of "run"] finishedStore = _
    rw [cancelEach, hcancel]
    rfl
  · intro h
    obtain ⟨run, hrow, hlive, -⟩ := h.sound (.of "run") (by simp)
    rw [hfinished] at hrow
    cases hrow
    cases hlive

end CancelDeps
end Skein
