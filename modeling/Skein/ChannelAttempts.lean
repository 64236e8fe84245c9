import Skein.AdmissionLaws
import Skein.ChannelPlans

/-!
# Attempts to create a run

What `createPendingRun` can do under a guard on the thread's status, with and without an
admission key: it is refused, replays a receipt or inserts one run that the guard allows, and
it inserts one wherever the guard allows it.
-/
namespace Skein

/-- The identifier of a run plays no part in its serialization. -/
theorem RunCreate.roundTrip_identified {J : Type*} [WireJson J] {create : RunCreate J}
    (h : create.roundTrip.isSome) (runId : Option RunId) :
    ∃ prepared, ({ create with runId } : RunCreate J).roundTrip = some prepared := by
  obtain ⟨prepared, hprepared⟩ := Option.isSome_iff_exists.mp h
  simp only [RunCreate.roundTrip, Option.bind_eq_bind, Option.bind_eq_some_iff] at hprepared ⊢
  obtain ⟨metadata, hmetadata, kwargs, hkwargs, -⟩ := hprepared
  exact ⟨_, metadata, hmetadata, kwargs, hkwargs, rfl⟩

namespace MemorySkeinStore
variable {J : Type*} [WireJson J]

/-- An attempt is not answered from an earlier admission of its key, and can be stored. -/
def Lands (store : MemorySkeinStore J) (key : Option AdmissionKey) (create : RunCreate J) : Prop :=
  ∀ k ∈ key, store.replayAdmission k = .ok none ∧ create.roundTrip.isSome

/-- What an attempt to create a run can do: nothing, a replay, or one insertion that the guard
allows. -/
inductive AttemptOutcome (store : MemorySkeinStore J) (key : Option AdmissionKey)
    (create : RunCreate J) (requireNoActiveRun : Bool) (statuses : List ThreadStatus) :
    Completion J RunId → Prop
  | refused (e : Thrown) :
      AttemptOutcome store key create requireNoActiveRun statuses (.error e, store)
  | replayed (runId : RunId) (h : store.runs.contains runId = true) :
      AttemptOutcome store key create requireNoActiveRun statuses (.ok runId, store)
  | inserted {run : Run J} {thread : Thread J} {store' : MemorySkeinStore J}
      (hunused : store.runs.contains run.runId = false)
      (hthreadId : run.threadId = create.threadId)
      (hstatus : run.status = create.status.getD .pending)
      (hruns : store'.runs = store.runs.write run) (hthreads : store'.threads = store.threads)
      (hthread : store.threads.get? create.threadId = some thread)
      (hguard : thread.status ∈ statuses)
      (hidle : requireNoActiveRun = true → store.activeRuns create.threadId = [])
      (hlands : store.Lands key create) :
      AttemptOutcome store key create requireNoActiveRun statuses (.ok run.runId, store')

theorem guardedInsert_outcome (store : MemorySkeinStore J) (create : RunCreate J)
    (requireNoActiveRun : Bool) (statuses : List ThreadStatus) (uuid : RunId) (now : Timestamp) :
    (∃ e, store.guardedInsert create requireNoActiveRun (some statuses) uuid now =
      (.error e, store)) ∨
    store.guardedInsert create requireNoActiveRun (some statuses) uuid now = (.ok none, store) ∨
    ∃ run store', store.guardedInsert create requireNoActiveRun (some statuses) uuid now =
        (.ok (some run), store') ∧
      AttemptOutcome store none create requireNoActiveRun statuses (.ok run.runId, store') := by
  unfold guardedInsert runsCreateIfThreadMatches
  dsimp only
  cases hthread : store.threads.get? create.threadId with
  | none => exact .inl ⟨_, rfl⟩
  | some thread =>
    dsimp only [Option.any_some]
    by_cases hstatus : thread.status ∈ statuses
    · rw [if_neg (by simpa using hstatus)]
      by_cases hbusy : requireNoActiveRun = true ∧ store.activeRuns create.threadId ≠ []
      · rw [if_pos hbusy]
        exact .inr (.inl rfl)
      · rw [if_neg hbusy]
        cases hused : store.runs.contains (create.runId.getD uuid) with
        | true =>
          obtain ⟨e, hcreate⟩ := createRun_used now hused
          rw [hcreate]
          exact .inl ⟨e, rfl⟩
        | false =>
          obtain ⟨run, created, hcreate, ⟨runKwargs, rfl⟩, hid, hthreadId, hrow⟩ :=
            createRun_unused now hused
          rw [hcreate]
          refine .inr (.inr ⟨run, _, rfl, .inserted (hid ▸ hused) hthreadId hrow rfl rfl hthread
            hstatus (fun hrequire => ?_) (by simp [Lands])⟩)
          by_contra hactive
          exact hbusy ⟨hrequire, hactive⟩
    · rw [if_pos (by simpa using hstatus)]
      exact .inl ⟨_, rfl⟩

/-- The guards of an admission that displaces nothing. -/
theorem admissionGuards_status {store : MemorySkeinStore J} {input : RunAdmission J}
    {prepared : RunCreate J} {displaced : List (Displacement J)}
    (h : store.admissionGuards input = .ok (prepared, displaced)) :
    ∃ thread, store.threads.get? prepared.threadId = some thread ∧
      ∀ statuses ∈ input.guard.threadStatusIn, thread.status ∈ statuses := by
  unfold admissionGuards at h
  split at h
  · cases h
  · split_ifs at h
    split at h
    · cases h
    next thread hthread =>
      split_ifs at h with hstatus
      split at h
      · cases h
      · dsimp only at h
        split_ifs at h
        cases h
        refine ⟨thread, hthread, fun statuses hstatuses => ?_⟩
        rw [Option.mem_def.mp hstatuses] at hstatus
        simpa using hstatus

/-- An admission that displaces nothing and answers no question of its own. -/
theorem admitRun_plain (store : MemorySkeinStore J) (input : RunAdmission J)
    (haborted : input.aborted = false) (hexpected : input.expectedRunId = none)
    (hdisplacements : input.displacements = []) (draws : AdmissionDraws) :
    (∃ e, store.admitRun input draws = (.error e, store)) ∨
    (∃ receipt, store.admitRun input draws = (.ok receipt, store)) ∨
    ∃ prepared, store.replayAdmission input.toAdmissionKey = .ok none ∧
      store.admissionGuards input = .ok (prepared, []) ∧
      store.admitRun input draws = store.commitAdmission input prepared [] draws := by
  unfold admitRun
  rw [haborted, hexpected]
  simp only [Bool.false_eq_true, if_false, resumeGuard]
  cases store.replayAdmission input.toAdmissionKey with
  | error e => exact .inl ⟨e, rfl⟩
  | ok replay =>
    cases replay with
    | some receipt => exact .inr (.inl ⟨receipt, rfl⟩)
    | none =>
      cases hguards : store.admissionGuards input with
      | error e => exact .inl ⟨e, rfl⟩
      | ok passed =>
        obtain ⟨prepared, displaced⟩ := passed
        have hdisplaced := (admissionGuards_ok hguards).displacements
        rw [hdisplacements] at hdisplaced
        cases hdisplaced
        exact .inr (.inr ⟨prepared, rfl, rfl, rfl⟩)

/-- The commit of an admission that displaces nothing, under a fresh identifier. -/
theorem commitAdmission_plain (store : MemorySkeinStore J) (input : RunAdmission J)
    (prepared : RunCreate J) (draws : AdmissionDraws)
    (hunused : store.runs.contains (prepared.runId.getD draws.runUuid) = false) :
    ∃ run store', store.commitAdmission input prepared [] draws =
        (.ok ⟨input.key, run.runId, run.threadId⟩, store') ∧
      run.runId = prepared.runId.getD draws.runUuid ∧ run.threadId = prepared.threadId ∧
      run.status = prepared.status.getD .pending ∧
      store'.runs = store.runs.write run ∧ store'.threads = store.threads := by
  obtain ⟨run, created, hcreate, ⟨runKwargs, rfl⟩, hid, hthreadId, hstatus⟩ :=
    createRun_unused draws.now hunused
  refine ⟨run, _, by simp only [commitAdmission, displaceAll, hcreate]; rfl, hid, hthreadId,
    hstatus, by simp, ?_⟩
  cases input.expectedRunId <;> rfl

theorem admittedInsert_outcome (store : MemorySkeinStore J) (key : AdmissionKey)
    {create : RunCreate J} (hid : create.runId = none) (requireNoActiveRun : Bool)
    (statuses : List ThreadStatus) {draws : AdmissionDraws}
    (hfresh : store.runs.contains draws.runUuid = false) :
    (∃ e, store.admittedInsert key create ⟨requireNoActiveRun, some statuses⟩ draws =
      (.error e, store)) ∨
    ∃ runId store', store.admittedInsert key create ⟨requireNoActiveRun, some statuses⟩ draws =
        (.ok (some runId), store') ∧
      AttemptOutcome store (some key) create requireNoActiveRun statuses (.ok runId, store') := by
  unfold admittedInsert
  rw [hid, Option.getD_none]
  dsimp only
  rcases store.admitRun_plain { toAdmissionKey := key
                                run := { create with runId := some draws.runUuid }
                                guard := ⟨requireNoActiveRun, some statuses⟩ }
      rfl rfl rfl draws with ⟨e, hdone⟩ | ⟨receipt, hdone⟩ | ⟨prepared, hreplay, hguards, hdone⟩
  · rw [hdone]
    exact .inl ⟨e, rfl⟩
  · rw [hdone]
    dsimp only
    split_ifs with hrow
    · exact .inr ⟨receipt.runId, store, rfl, .replayed _ hrow⟩
    · exact .inl ⟨_, rfl⟩
  · have hpassed := admissionGuards_ok hguards
    obtain ⟨hthreadId, -, hrunId, hstatus, -⟩ := RunCreate.roundTrip_eq_some hpassed.serialized
    have huuid : prepared.runId.getD draws.runUuid = draws.runUuid := by rw [hrunId]; rfl
    obtain ⟨run, store', hcommit, hrun, hthread, hrow, hruns, hthreads⟩ :=
      store.commitAdmission_plain { toAdmissionKey := key
                                    run := { create with runId := some draws.runUuid }
                                    guard := ⟨requireNoActiveRun, some statuses⟩ }
        prepared draws (by rw [huuid, hfresh])
    obtain ⟨thread, hget, hguard⟩ := admissionGuards_status hguards
    have hcontains : store'.runs.contains run.runId = true := by
      simp [OrderedMap.contains, hruns, Table.get?_write]
    rw [hdone, hcommit]
    dsimp only
    rw [if_pos hcontains]
    rw [hthreadId] at hget
    refine .inr ⟨run.runId, store', rfl, .inserted ?_ ?_ ?_ hruns hthreads hget ?_ ?_ ?_⟩
    · rw [hrun, huuid, hfresh]
    · rw [hthread, hthreadId]
    · rw [hrow, hstatus]
    · exact hguard statuses rfl
    · intro hrequire
      have hidle := hpassed.idle hrequire
      rw [hthreadId] at hidle
      exact hidle
    · rintro k hk
      cases hk
      obtain ⟨again, hagain⟩ := RunCreate.roundTrip_identified
        (Option.isSome_iff_exists.mpr ⟨prepared, hpassed.serialized⟩) create.runId
      exact ⟨hreplay, Option.isSome_iff_exists.mpr ⟨again, hagain⟩⟩

/-- Everything an attempt can do, said once. -/
theorem createPendingRun_outcome (store : MemorySkeinStore J) (key : Option AdmissionKey)
    (create : RunCreate J) (hid : create.runId = none) (statuses : List ThreadStatus)
    (draws : AdmissionDraws) (hfresh : store.runs.contains draws.runUuid = false) :
    AttemptOutcome store key create (create.multitaskStrategy.getD .reject = .reject) statuses
      (store.createPendingRun key create (some statuses) draws) := by
  unfold createPendingRun
  dsimp only
  generalize decide (create.multitaskStrategy.getD .reject = .reject) = requireNoActiveRun
  cases key with
  | some key =>
    dsimp only
    rcases store.admittedInsert_outcome key hid requireNoActiveRun statuses hfresh with
      ⟨e, hdone⟩ | ⟨runId, store', hdone, houtcome⟩
    · rw [hdone]
      exact .refused e
    · rw [hdone]
      exact houtcome
  | none =>
    dsimp only
    rcases store.guardedInsert_outcome create requireNoActiveRun statuses draws.runUuid
      draws.now with ⟨e, hdone⟩ | hdone | ⟨run, store', hdone, houtcome⟩
    · rw [hdone]
      exact .refused e
    · rw [hdone]
      exact .refused _
    · rw [hdone]
      exact houtcome

omit [WireJson J] in
theorem createRun_unused_of_fresh [EmptyCollection J] (store : MemorySkeinStore J)
    {create : RunCreate J} (hid : create.runId = none) {uuid : RunId}
    (hfresh : store.runs.contains uuid = false) (now : Timestamp) :
    ∃ run created, store.createRun create uuid now = (.ok run, created) ∧ run.runId = uuid := by
  unfold createRun
  rw [hid, Option.getD_none, if_neg (by simpa using hfresh)]
  exact ⟨_, _, rfl, rfl⟩

/-- An attempt that lands inserts its run wherever its guard allows it. -/
theorem createPendingRun_lands {store : MemorySkeinStore J} {key : Option AdmissionKey}
    (create : RunCreate J) (hid : create.runId = none) {statuses : List ThreadStatus}
    (draws : AdmissionDraws) (hfresh : store.runs.contains draws.runUuid = false)
    (hlands : store.Lands key create) (hstrategy : create.multitaskStrategy = some .enqueue)
    {thread : Thread J} (hthread : store.threads.get? create.threadId = some thread)
    (hguard : thread.status ∈ statuses) :
    ∃ runId, (store.createPendingRun key create (some statuses) draws).1 = .ok runId ∧
      store.runs.contains runId = false := by
  unfold createPendingRun
  rw [hstrategy]
  dsimp only [Option.getD_some]
  cases key with
  | none =>
    obtain ⟨run, created, hcreate, hrun⟩ :=
      store.createRun_unused_of_fresh hid hfresh draws.now
    have hmatch : store.guardedInsert create false (some statuses) draws.runUuid draws.now =
        (.ok (some run), created) := by
      unfold guardedInsert runsCreateIfThreadMatches
      simp [hthread, hguard, hcreate, Except.map]
    refine ⟨run.runId, ?_, by rw [hrun, hfresh]⟩
    simp [hmatch, Except.map]
  | some key =>
    obtain ⟨hreplay, hserialized⟩ := hlands key rfl
    obtain ⟨prepared, hprepared⟩ :=
      RunCreate.roundTrip_identified hserialized (some draws.runUuid)
    obtain ⟨hthreadId, -, hrunId, -, -⟩ := RunCreate.roundTrip_eq_some hprepared
    have huuid : prepared.runId.getD draws.runUuid = draws.runUuid := by rw [hrunId]; rfl
    obtain ⟨run, store', hcommit, hrun, -, -, hruns, -⟩ := store.commitAdmission_plain
      { toAdmissionKey := key
        run := { create with runId := some draws.runUuid }
        guard := ⟨false, some statuses⟩ } prepared draws (by rw [huuid, hfresh])
    have hguards : store.admissionGuards
        { toAdmissionKey := key
          run := { create with runId := some draws.runUuid }
          guard := ⟨false, some statuses⟩ } = .ok (prepared, []) := by
      unfold admissionGuards
      simp [hprepared, hrunId, hfresh, hthreadId, hthread, hguard, roundTripDisplacements]
    have hadm : store.admitRun
        { toAdmissionKey := key
          run := { create with runId := some draws.runUuid }
          guard := ⟨false, some statuses⟩ } draws =
        (.ok ⟨key.key, run.runId, run.threadId⟩, store') := by
      unfold admitRun
      simp only [hreplay, hguards, resumeGuard, hcommit, Bool.false_eq_true, if_false, List.any_nil]
    have hcontains : store'.runs.contains run.runId = true := by
      simp [OrderedMap.contains, hruns, Table.get?_write]
    refine ⟨run.runId, ?_, by rw [hrun, huuid, hfresh]⟩
    unfold admittedInsert
    rw [hid, Option.getD_none]
    simp [hadm, hcontains]

end MemorySkeinStore

end Skein
