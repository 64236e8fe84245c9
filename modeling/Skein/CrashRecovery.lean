import Skein.ReconciledDatabase

/-!
# After a crash

The database that the startup leaves, and exactly when it is consistent again. A thread that
is busy without a run that ended or was lost stays busy: no loop looks for it.
-/
namespace Skein
namespace SqliteDatabase
variable {startup : SqliteStartup} {db db₁ db₂ db₃ : SqliteDatabase}

theorem lastEnded_mem {runs : List (Run Json)} {run : Run Json} (h : lastEnded runs = some run) :
    run ∈ runs ∧ run.status.isTerminal = true := List.mem_filter.mp (List.argmax_mem h)

theorem lastEnded_isSome {runs : List (Run Json)} {run : Run Json} (hmem : run ∈ runs)
    (hended : run.status.isTerminal = true) : (lastEnded runs).isSome = true := by
  rw [Option.isSome_iff_ne_none]
  intro hnone
  have hnil := List.argmax_eq_none.mp hnone
  exact List.not_mem_nil (hnil ▸ List.mem_filter.mpr ⟨hmem, hended⟩)

/-- The run that ended last does not depend on the order of the rows. -/
theorem lastEnded_congr {runs runs' : List (Run Json)} (hmem : ∀ run, run ∈ runs ↔ run ∈ runs')
    (hids : ∀ a ∈ runs, ∀ b ∈ runs, a.runId = b.runId → a = b) :
    lastEnded runs = lastEnded runs' := by
  have hfilter : ∀ run, run ∈ runs.filter (fun run => run.status.isTerminal) ↔
      run ∈ runs'.filter (fun run => run.status.isTerminal) := by
    intro run
    rw [List.mem_filter, List.mem_filter, hmem]
  unfold lastEnded
  cases hlast : (runs.filter fun run => run.status.isTerminal).argmax fun run =>
      toLex (run.updatedAt, run.runId.value) with
  | none =>
    have hnil := List.argmax_eq_none.mp hlast
    symm
    rw [List.argmax_eq_none, List.eq_nil_iff_forall_not_mem]
    intro run hrun
    exact List.not_mem_nil (hnil ▸ (hfilter run).mpr hrun)
  | some last =>
    cases hlast' : (runs'.filter fun run => run.status.isTerminal).argmax fun run =>
        toLex (run.updatedAt, run.runId.value) with
    | none =>
      have hnil := List.argmax_eq_none.mp hlast'
      have hin := (hfilter last).mp (List.argmax_mem hlast)
      exact absurd (hnil ▸ hin) List.not_mem_nil
    | some last' =>
      have hin := (hfilter last).mp (List.argmax_mem hlast)
      have hin' := (hfilter last').mpr (List.argmax_mem hlast')
      have hkeys : toLex (last.updatedAt, last.runId.value) =
          toLex (last'.updatedAt, last'.runId.value) := by
        apply le_antisymm
        · exact List.le_of_mem_argmax
            (f := fun run : Run Json => toLex (run.updatedAt, run.runId.value)) hin hlast'
        · exact List.le_of_mem_argmax
            (f := fun run : Run Json => toLex (run.updatedAt, run.runId.value)) hin' hlast
      have hid : last.runId.value = last'.runId.value :=
        congrArg (fun key => (ofLex key).2) hkeys
      have hsame := hids last (List.mem_filter.mp (List.argmax_mem hlast)).1 last'
        (List.mem_filter.mp hin').1 (Id.eq_of_value hid)
      rw [hsame]

/-- The runs of a thread are those of its rows. -/
theorem mem_runsOf {k : ThreadId} {run : Run Json} : run ∈ db.runsOf k ↔
    ∃ row, db.runs.get? row.runId = some row ∧ row.run = run ∧ row.threadId = k := by
  unfold runsOf
  rw [List.mem_filter, List.mem_map]
  constructor
  · rintro ⟨⟨row, hrow, rfl⟩, hthread⟩
    exact ⟨row, (Table.mem_values_iff _ _).mp hrow, rfl, of_decide_eq_true hthread⟩
  · rintro ⟨row, hrow, rfl, hthread⟩
    exact ⟨⟨row, (Table.mem_values_iff _ _).mpr hrow, rfl⟩, decide_eq_true hthread⟩

/-- The row of a run as the startup leaves it. -/
def settledRun (startup : SqliteStartup) (db : SqliteDatabase) (row : SqliteRun) : SqliteRun :=
  if db.abandoned row then failedRun (startup.failedAt row.runId) row else row

@[simp] theorem settledRun_runId (startup : SqliteStartup) (db : SqliteDatabase) (row : SqliteRun) :
    (settledRun startup db row).runId = row.runId := by
  unfold settledRun
  split_ifs <;> rfl

@[simp] theorem settledRun_threadId (startup : SqliteStartup) (db : SqliteDatabase)
    (row : SqliteRun) : (settledRun startup db row).threadId = row.threadId := by
  unfold settledRun
  split_ifs <;> rfl

/-- The runs of a thread as the startup leaves them. -/
def settledRuns (startup : SqliteStartup) (db : SqliteDatabase) (k : ThreadId) :
    List (Run Json) :=
  (db.runs.values.map fun row => (settledRun startup db row).run).filter fun run =>
    run.threadId = k

theorem mem_settledRuns {k : ThreadId} {run : Run Json} : run ∈ settledRuns startup db k ↔
    ∃ row, db.runs.get? row.runId = some row ∧ (settledRun startup db row).run = run ∧
      row.threadId = k := by
  unfold settledRuns
  rw [List.mem_filter, List.mem_map]
  constructor
  · rintro ⟨⟨row, hrow, rfl⟩, hthread⟩
    have hid : (settledRun startup db row).threadId = k := of_decide_eq_true hthread
    rw [settledRun_threadId] at hid
    exact ⟨row, (Table.mem_values_iff _ _).mp hrow, rfl, hid⟩
  · rintro ⟨row, hrow, rfl, hthread⟩
    refine ⟨⟨row, (Table.mem_values_iff _ _).mpr hrow, rfl⟩, decide_eq_true ?_⟩
    rw [← settledRun_threadId startup db] at hthread
    exact hthread

/-- What the three loops have done: `db₁`, `db₂` and `db₃` are what each of them left. -/
structure Reconciling (startup : SqliteStartup) (db db₁ db₂ db₃ : SqliteDatabase) : Prop where
  failing : Failing startup db db₁
  noneLost : ∀ row ∈ db₁.runs.values, db₁.abandoned row = false
  repairing : Repairing startup db₁ db₂
  noneStale : ∀ thread, ¬IsStale db₂ thread
  retiring : Retiring db₂ db₃
  noneRetirable : ∀ job ∈ db₃.jobs.values, db₃.retirable job = false

/-- The startup ends, whatever the crash left. -/
theorem reconcileAbandonedRuns_ends (startup : SqliteStartup) (db : SqliteDatabase) :
    ∃ db₁ db₂ db₃, Reconciling startup db db₁ db₂ db₃ ∧
      ∃ enough, ∀ fuel, enough ≤ fuel → reconcileAbandonedRuns startup db fuel = some db₃ := by
  obtain ⟨db₁, ⟨enough₁, hfuel₁⟩, hfailing, hlost⟩ := failBatch_drains startup db
  obtain ⟨s, ⟨enough₂, hfuel₂⟩, hrepairing, hstale⟩ := repairBatch_drains startup db₁
  obtain ⟨db₃, ⟨enough₃, hfuel₃⟩, hretiring, hretirable⟩ := retireBatch_drains startup s.1
  refine ⟨db₁, s.1, db₃, ⟨hfailing, hlost, hrepairing, hstale, hretiring, hretirable⟩,
    max enough₁ (max enough₂ enough₃), fun fuel hfuel => ?_⟩
  unfold reconcileAbandonedRuns
  rw [hfuel₁ fuel (by omega), Option.bind_eq_bind, Option.bind_some, hfuel₂ fuel (by omega),
    Option.bind_eq_bind, Option.bind_some, hfuel₃ fuel (by omega)]

namespace Reconciling
variable (h : Reconciling startup db db₁ db₂ db₃)
include h

theorem runs_eq : db₃.runs = db₁.runs := h.retiring.runs.trans h.repairing.runs
theorem threads_eq : db₃.threads = db₂.threads := h.retiring.threads

theorem lost {row : SqliteRun} (hrow : db.runs.get? row.runId = some row)
    (hlost : db.abandoned row = true) : FailedIn startup db db₁ row := by
  rcases h.failing.runs row.runId with ⟨hrun, hjob⟩ | ⟨old, hold, hfailed⟩
  · have hleft := h.noneLost row ((Table.mem_values_iff _ _).mpr (hrun.trans hrow))
    rw [abandoned_congr hjob, hlost] at hleft
    cases hleft
  · rw [hrow] at hold
    exact Option.some.inj hold ▸ hfailed

theorem kept {row : SqliteRun} (hrow : db.runs.get? row.runId = some row)
    (hkept : db.abandoned row = false) :
    db₁.runs.get? row.runId = some row ∧ db₁.jobs.get? row.runId = db.jobs.get? row.runId := by
  rcases h.failing.runs row.runId with ⟨hrun, hjob⟩ | ⟨old, hold, hfailed⟩
  · exact ⟨hrun.trans hrow, hjob⟩
  · rw [hrow] at hold
    have hlost := hfailed.lost
    rw [← Option.some.inj hold, hkept] at hlost
    cases hlost

theorem get?_settledRun {row : SqliteRun} (hrow : db.runs.get? row.runId = some row) :
    db₃.runs.get? row.runId = some (settledRun startup db row) := by
  rw [h.runs_eq]
  unfold settledRun
  split_ifs with hlost
  · exact (h.lost hrow hlost).run
  · exact (h.kept hrow (Bool.eq_false_of_not_eq_true hlost)).1

/-- Every run was there before. -/
theorem origin {row' : SqliteRun} (hrow' : db₃.runs.get? row'.runId = some row') :
    ∃ row, db.runs.get? row.runId = some row ∧ row' = settledRun startup db row := by
  have hsome : ∃ row, db.runs.get? row'.runId = some row := by
    rcases h.failing.runs row'.runId with ⟨hrun, -⟩ | ⟨old, hold, -⟩
    · rw [h.runs_eq, hrun] at hrow'
      exact ⟨row', hrow'⟩
    · exact ⟨old, hold⟩
  obtain ⟨row, hrow⟩ := hsome
  have hkey : row.runId = row'.runId := Table.key_of_get? hrow
  rw [← hkey] at hrow
  have hsettled := h.get?_settledRun hrow
  rw [hkey, hrow'] at hsettled
  exact ⟨row, hrow, Option.some.inj hsettled⟩

theorem lastEnded_runsOf (k : ThreadId) :
    lastEnded (db₃.runsOf k) = lastEnded (settledRuns startup db k) := by
  refine lastEnded_congr (fun run => ?_) ?_
  · rw [mem_runsOf, mem_settledRuns]
    constructor
    · rintro ⟨row', hrow', rfl, hthread⟩
      obtain ⟨row, hrow, rfl⟩ := h.origin hrow'
      rw [settledRun_threadId] at hthread
      exact ⟨row, hrow, rfl, hthread⟩
    · rintro ⟨row, hrow, rfl, hthread⟩
      refine ⟨settledRun startup db row, ?_, rfl, ?_⟩
      · rw [settledRun_runId]
        exact h.get?_settledRun hrow
      · rw [settledRun_threadId]
        exact hthread
  · intro a ha b hb hid
    obtain ⟨row, hrow, rfl, -⟩ := mem_runsOf.mp ha
    obtain ⟨other, hother, rfl, -⟩ := mem_runsOf.mp hb
    have hsame : row.runId = other.runId := hid
    rw [hsame, hother] at hrow
    rw [Option.some.inj hrow]

/-- A thread that is busy at the end has no run that ended. -/
theorem none_of_busy {k : ThreadId} {thread : Thread Json}
    (hthread : db₃.threads.get? k = some thread) (hbusy : thread.status = .busy) :
    lastEnded (db₃.runsOf k) = none := by
  have hkey : thread.threadId = k := Table.key_of_get? hthread
  rw [h.threads_eq, ← hkey] at hthread
  cases hlast : lastEnded (db₃.runsOf k) with
  | none => rfl
  | some run =>
    refine absurd ⟨hthread, ?_⟩ (h.noneStale thread)
    have hruns : db₂.runsOf thread.threadId = db₃.runsOf k := by
      unfold runsOf
      rw [h.retiring.runs, hkey]
    unfold stale
    rw [decide_eq_true hbusy, hruns, hlast]
    rfl

end Reconciling

/-- What the startup owes to a database. -/
structure Restored (startup : SqliteStartup) (db db' : SqliteDatabase) : Prop where
  notRunning : ∀ k row, db'.runs.get? k = some row → row.run.status ≠ .running
  notActive : ∀ k job, db'.jobs.get? k = some job → job.status ≠ .active
  queued : ∀ k row, db'.runs.get? k = some row → row.run.status = .pending →
    row.queueNotBefore.isSome = true ∧
      ∃ job, db'.jobs.get? k = some job ∧ job.status = .waiting
  notBusy : ∀ k thread, db'.threads.get? k = some thread → thread.status ≠ .busy
  failed : ∀ k row, db.runs.get? k = some row → db'.runs.get? k ≠ some row →
    ∃ row', db'.runs.get? k = some row' ∧ row'.run.status = .error ∧
      ∀ template, row'.terminalDelivery = some template →
        ∃! delivery, delivery ∈ db'.deliveries.values ∧ delivery.deliveryId = template.deliveryId
  interrupted : ∀ k thread, db.threads.get? k = some thread →
    ∃ thread', db'.threads.get? k = some thread' ∧
      (thread'.status = .interrupted ↔ thread.status = .interrupted ∨
        (thread.status = .busy ∧ ∃ run, lastEnded (db'.runsOf k) = some run ∧
          run.status = .interrupted))
  terminal : ∀ k row, db.runs.get? k = some row → row.run.status.isTerminal = true →
    db'.runs.get? k = some row
  waiting : ∀ k row job, db.runs.get? k = some row → row.run.status = .pending →
    db.jobs.get? k = some job → job.status = .waiting →
      db'.runs.get? k = some row ∧ db'.jobs.get? k = some job

/-- What a crash has to have left. -/
structure Restorable (startup : SqliteStartup) (db : SqliteDatabase) : Prop where
  /-- A queued run has its job. -/
  queued : ∀ k row, db.runs.get? k = some row → row.run.status = .pending →
    row.queueNotBefore.isSome = true → ∃ job, db.jobs.get? k = some job ∧ job.status ≠ .done
  /-- A run whose job waits is a queued one. -/
  waiting : ∀ k row job, db.runs.get? k = some row → row.run.status = .pending →
    db.jobs.get? k = some job → job.status = .waiting → row.queueNotBefore.isSome = true
  /-- A busy thread has a run that ended or was lost. -/
  busy : ∀ k thread, db.threads.get? k = some thread → thread.status = .busy →
    ∃ row, db.runs.get? row.runId = some row ∧ row.threadId = k ∧
      (row.run.status.isTerminal = true ∨ db.abandoned row = true)
  /-- Where a busy thread lost a run, the run that ended last, the lost ones counted as ended
  now, is not an interrupted one. -/
  clock : ∀ k thread row, db.threads.get? k = some thread → thread.status = .busy →
    db.runs.get? row.runId = some row → row.threadId = k → db.abandoned row = true →
      ∀ run, lastEnded (settledRuns startup db k) = some run → run.status ≠ .interrupted

theorem abandoned_of_running {row : SqliteRun} (h : row.run.status = .running) :
    db.abandoned row = true := by
  unfold abandoned
  rw [h]
  rfl

theorem abandoned_of_terminal {row : SqliteRun} (h : row.run.status.isTerminal = true) :
    db.abandoned row = false := by
  unfold abandoned
  rw [h]
  rfl

/-- A pending run is lost where its job is active or it is no queued run. -/
theorem abandoned_of_pending {row : SqliteRun} (h : row.run.status = .pending) :
    db.abandoned row =
      ((db.jobs.get? row.runId).any (fun job => job.status = .active) ||
        row.queueNotBefore.isNone) := by
  unfold abandoned
  rw [h]
  simp [RunStatus.isTerminal]

theorem endedStatus_interrupted (run : Run Json) :
    endedStatus run = .interrupted ↔ run.status = .interrupted := by
  unfold endedStatus
  cases run.status <;> simp

namespace Reconciling
variable (h : Reconciling startup db db₁ db₂ db₃)
include h

/-- A row of the end, by what it was. -/
theorem row_cases {k : RunId} {row' : SqliteRun} (hrow' : db₃.runs.get? k = some row') :
    (db.runs.get? k = some row' ∧ db.abandoned row' = false) ∨
      ∃ row, db.runs.get? k = some row ∧ db.abandoned row = true ∧
        row' = failedRun (startup.failedAt row.runId) row := by
  have hkey : row'.runId = k := Table.key_of_get? hrow'
  subst hkey
  obtain ⟨row, hrow, hsettled⟩ := h.origin hrow'
  unfold settledRun at hsettled
  split_ifs at hsettled with hlost
  · refine .inr ⟨row, ?_, hlost, hsettled⟩
    rw [hsettled]
    exact hrow
  · subst hsettled
    exact .inl ⟨hrow, Bool.eq_false_of_not_eq_true hlost⟩

/-- The job of a run that is pending still is left alone. -/
theorem job_of_pending {row : SqliteRun} (hrow : db.runs.get? row.runId = some row)
    (hkept : db.abandoned row = false) (hpending : row.run.status = .pending) :
    db₃.jobs.get? row.runId = db.jobs.get? row.runId := by
  obtain ⟨hrow₁, hjob₁⟩ := h.kept hrow hkept
  rcases h.retiring.jobs row.runId with hsame | ⟨job, hjob, hretirable, -⟩
  · rw [hsame, h.repairing.jobs, hjob₁]
  · rw [h.repairing.jobs, hjob₁] at hjob
    have hkey : job.runId = row.runId := Table.key_of_get? hjob
    rw [abandoned_of_pending hpending, hjob] at hkept
    unfold retirable at hretirable
    rw [hkey, h.repairing.runs, hrow₁] at hretirable
    simp_all [RunStatus.isTerminal]

theorem notRunning (k : RunId) (row : SqliteRun) (hrow : db₃.runs.get? k = some row) :
    row.run.status ≠ .running := by
  intro hrunning
  rcases h.row_cases hrow with ⟨-, hkept⟩ | ⟨old, -, -, rfl⟩
  · rw [abandoned_of_running hrunning] at hkept
    cases hkept
  · cases hrunning

theorem notActive (k : RunId) (job : RunJob) (hjob : db₃.jobs.get? k = some job) :
    job.status ≠ .active := by
  intro hactive
  have hkey : job.runId = k := Table.key_of_get? hjob
  rw [← hkey] at hjob
  have hleft := h.noneRetirable job ((Table.mem_values_iff _ _).mpr hjob)
  unfold retirable at hleft
  rw [hactive] at hleft
  cases hleft

theorem failed (k : RunId) (row : SqliteRun) (hrow : db.runs.get? k = some row)
    (hchanged : db₃.runs.get? k ≠ some row) :
    ∃ row', db₃.runs.get? k = some row' ∧ row'.run.status = .error ∧
      ∀ template, row'.terminalDelivery = some template →
        ∃! delivery, delivery ∈ db₃.deliveries.values ∧
          delivery.deliveryId = template.deliveryId := by
  have hkey : row.runId = k := Table.key_of_get? hrow
  subst hkey
  by_cases hlost : db.abandoned row = true
  · have hfailed := h.lost hrow hlost
    refine ⟨_, h.runs_eq ▸ hfailed.run, rfl, fun template htemplate => ?_⟩
    apply Table.existsUnique_of_contains
    rw [h.retiring.deliveries, h.repairing.deliveries]
    exact hfailed.delivery template htemplate
  · refine absurd ?_ hchanged
    rw [h.runs_eq]
    exact (h.kept hrow (Bool.eq_false_of_not_eq_true hlost)).1

theorem terminal (k : RunId) (row : SqliteRun) (hrow : db.runs.get? k = some row)
    (hended : row.run.status.isTerminal = true) : db₃.runs.get? k = some row := by
  have hkey : row.runId = k := Table.key_of_get? hrow
  subst hkey
  rw [h.runs_eq]
  exact (h.kept hrow (abandoned_of_terminal hended)).1

/-- A thread of the crash is left, repaired or failed. -/
theorem thread_cases {k : ThreadId} {thread : Thread Json}
    (hthread : db.threads.get? k = some thread) :
    (db₃.threads.get? k = some thread ∧ db₁.threads.get? k = some thread) ∨
      (∃ run, thread.status = .busy ∧ lastEnded (db₃.runsOf k) = some run ∧
        db₁.threads.get? k = some thread ∧
          db₃.threads.get? k = some (repairedThread run (startup.repairedAt k) thread)) ∨
        ∃ thread' row, db₃.threads.get? k = some thread' ∧ thread.status ≠ .interrupted ∧
          thread'.status = .error ∧ db.runs.get? row.runId = some row ∧ row.threadId = k ∧
            db.abandoned row = true := by
  have hruns : db₁.runsOf k = db₃.runsOf k := by
    unfold runsOf
    rw [h.runs_eq]
  rcases h.failing.threads k with hsame | ⟨old, failed, row, hold, hfailed, hstatus, herror, hrest⟩
  · rw [hthread] at hsame
    rcases h.repairing.threads k with hleft | ⟨old, run, hold, hbusy, hrun, hrepaired⟩
    · exact .inl ⟨by rw [h.threads_eq, hleft, hsame], hsame⟩
    · rw [hsame] at hold
      obtain rfl := Option.some.inj hold
      exact .inr (.inl ⟨run, hbusy, hruns ▸ hrun, hsame, h.threads_eq ▸ hrepaired⟩)
  · rw [hthread] at hold
    obtain rfl := Option.some.inj hold
    rcases h.repairing.threads k with hleft | ⟨old, run, hold, hbusy, -⟩
    · exact .inr (.inr ⟨failed, row, by rw [h.threads_eq, hleft, hfailed], hstatus, herror, hrest⟩)
    · rw [hfailed] at hold
      rw [← Option.some.inj hold, herror] at hbusy
      cases hbusy

/-- A thread that lost a run is not left busy. -/
theorem calm_of_lost {row : SqliteRun} (hrow : db.runs.get? row.runId = some row)
    (hlost : db.abandoned row = true) {thread : Thread Json}
    (hthread : db₁.threads.get? row.threadId = some thread) : thread.status ≠ .busy :=
  (h.lost hrow hlost).thread thread hthread

theorem restored (hable : Restorable startup db) : Restored startup db db₃ where
  notRunning := h.notRunning
  notActive := h.notActive
  failed := h.failed
  terminal := h.terminal
  queued k row hrow hpending := by
    rcases h.row_cases hrow with ⟨hold, hkept⟩ | ⟨old, -, -, rfl⟩
    · have hkey : row.runId = k := Table.key_of_get? hrow
      subst hkey
      have hjobs := h.job_of_pending hold hkept hpending
      rw [abandoned_of_pending hpending, Bool.or_eq_false_iff] at hkept
      have hqueued : row.queueNotBefore.isSome = true := by
        exact Option.isNone_eq_false_iff.mp hkept.2
      obtain ⟨job, hjob, hnotDone⟩ := hable.queued _ row hold hpending hqueued
      refine ⟨hqueued, job, hjobs.trans hjob, ?_⟩
      rw [hjob] at hkept
      cases hstatus : job.status with
      | waiting => rfl
      | active => simp [hstatus] at hkept
      | done => exact absurd hstatus hnotDone
    · cases hpending
  notBusy k thread hthread hbusy := by
    have hnone := h.none_of_busy hthread hbusy
    have hthread₁ : db₁.threads.get? k = some thread :=
      h.repairing.origin (h.threads_eq ▸ hthread) hbusy
    have hthread₀ : db.threads.get? k = some thread := by
      rcases h.failing.threads k with hsame | ⟨-, failed, -, -, hfailed, -, herror, -⟩
      · exact hsame ▸ hthread₁
      · rw [hthread₁] at hfailed
        rw [← Option.some.inj hfailed, hbusy] at herror
        cases herror
    obtain ⟨row, hrow, rfl, hended | hlost⟩ := hable.busy k thread hthread₀ hbusy
    · have hmem : row.run ∈ db₃.runsOf row.threadId :=
        mem_runsOf.mpr ⟨row, h.terminal _ row hrow hended, rfl, rfl⟩
      have hsome := lastEnded_isSome hmem hended
      rw [hnone] at hsome
      cases hsome
    · exact h.calm_of_lost hrow hlost hthread₁ hbusy
  interrupted k thread hthread := by
    rcases h.thread_cases hthread with ⟨hleft, -⟩ | ⟨run, hbusy, hrun, -, hrepaired⟩ |
      ⟨thread', row, hthread', hstatus, herror, hrow, hk, hlost⟩
    · refine ⟨thread, hleft, .inl, ?_⟩
      rintro (hinterrupted | ⟨hbusy, run, hrun, -⟩)
      · exact hinterrupted
      · rw [h.none_of_busy hleft hbusy] at hrun
        cases hrun
    · refine ⟨_, hrepaired, ?_⟩
      show endedStatus run = .interrupted ↔ _
      rw [endedStatus_interrupted, hbusy, hrun]
      constructor
      · exact fun hinterrupted => .inr ⟨rfl, run, rfl, hinterrupted⟩
      · rintro (hfalse | ⟨-, other, hother, hinterrupted⟩)
        · cases hfalse
        · rw [Option.some.inj hother]
          exact hinterrupted
    · refine ⟨thread', hthread', fun hinterrupted => ?_, ?_⟩
      · rw [herror] at hinterrupted
        cases hinterrupted
      · rintro (hinterrupted | ⟨hbusy, run, hrun, hinterrupted⟩)
        · exact absurd hinterrupted hstatus
        · rw [h.lastEnded_runsOf] at hrun
          exact absurd hinterrupted
            (hable.clock k thread row hthread hbusy hrow hk hlost run hrun)
  waiting k row job hrow hpending hjob hwaiting := by
    have hkey : row.runId = k := Table.key_of_get? hrow
    subst hkey
    have hqueued := hable.waiting _ row job hrow hpending hjob hwaiting
    have hkept : db.abandoned row = false := by
      rw [abandoned_of_pending hpending, hjob, Option.any_some, hwaiting,
        Option.isNone_eq_false_iff.mpr hqueued]
      rfl
    refine ⟨?_, (h.job_of_pending hrow hkept hpending).trans hjob⟩
    rw [h.runs_eq]
    exact (h.kept hrow hkept).1

theorem restorable (hdone : Restored startup db db₃) : Restorable startup db where
  queued k row hrow hpending hqueued := by
    have hkey : row.runId = k := Table.key_of_get? hrow
    subst hkey
    cases hlost : db.abandoned row with
    | true =>
      rw [abandoned_of_pending hpending, Option.isNone_eq_false_iff.mpr hqueued, Bool.or_false,
        Option.any_eq_true] at hlost
      obtain ⟨job, hjob, hactive⟩ := hlost
      refine ⟨job, hjob, ?_⟩
      rw [of_decide_eq_true hactive]
      decide
    | false =>
      have hrow₃ : db₃.runs.get? row.runId = some row := h.runs_eq ▸ (h.kept hrow hlost).1
      obtain ⟨-, job, hjob, hwaiting⟩ := hdone.queued _ row hrow₃ hpending
      rw [h.job_of_pending hrow hlost hpending] at hjob
      refine ⟨job, hjob, ?_⟩
      rw [hwaiting]
      decide
  waiting k row job hrow hpending hjob hwaiting := by
    have hkey : row.runId = k := Table.key_of_get? hrow
    subst hkey
    obtain ⟨hrow₃, -⟩ := hdone.waiting _ row job hrow hpending hjob hwaiting
    exact (hdone.queued _ row hrow₃ hpending).1
  busy k thread hthread hbusy := by
    rcases h.thread_cases hthread with ⟨hleft, -⟩ | ⟨run, -, hrun, -⟩ |
      ⟨-, row, -, -, -, hrow, hk, hlost⟩
    · exact absurd hbusy (hdone.notBusy k thread hleft)
    · obtain ⟨hmem, hended⟩ := lastEnded_mem hrun
      obtain ⟨row', hrow', rfl, hk⟩ := mem_runsOf.mp hmem
      obtain ⟨row, hrow, rfl⟩ := h.origin hrow'
      rw [settledRun_threadId] at hk
      refine ⟨row, hrow, hk, ?_⟩
      unfold settledRun at hended
      split_ifs at hended with hlost
      · exact .inr hlost
      · exact .inl hended
    · exact ⟨row, hrow, hk, .inr hlost⟩
  clock k thread row hthread hbusy hrow hk hlost run hrun hinterrupted := by
    obtain ⟨thread', hthread', hiff⟩ := hdone.interrupted k thread hthread
    rw [h.lastEnded_runsOf, hrun] at hiff
    have hstatus' := hiff.mpr (.inr ⟨hbusy, run, rfl, hinterrupted⟩)
    rcases h.thread_cases hthread with ⟨hleft, -⟩ | ⟨-, -, -, hthread₁, -⟩ |
      ⟨failed, -, hfailed, -, herror, -⟩
    · exact hdone.notBusy k thread hleft hbusy
    · subst hk
      exact h.calm_of_lost hrow hlost hthread₁ hbusy
    · rw [hthread'] at hfailed
      rw [Option.some.inj hfailed, herror] at hstatus'
      cases hstatus'

end Reconciling

/-- The startup ends, and what it leaves is consistent exactly where the crash left what can be
restored. -/
theorem reconcileAbandonedRuns_restores (startup : SqliteStartup) (db : SqliteDatabase) :
    ∃ db', (∃ enough, ∀ fuel, enough ≤ fuel →
      reconcileAbandonedRuns startup db fuel = some db') ∧
        (Restored startup db db' ↔ Restorable startup db) := by
  obtain ⟨db₁, db₂, db₃, h, hends⟩ := reconcileAbandonedRuns_ends startup db
  exact ⟨db₃, hends, h.restorable, h.restored⟩

namespace CrashRecovery

def t1 : ThreadId := .of "t1"

/-- The copy of a busy thread, without runs yet: `copyThread` writes the thread as it is and makes
it idle at its end. -/
def copied : Thread Json :=
  { threadId := t1, createdAt := 0, updatedAt := 0, stateUpdatedAt := 0, status := .busy,
    metadata := .obj [], values := .obj [], interrupts := .obj [] }

def crashed : SqliteDatabase := { threads := (∅ : Table ThreadId (Thread Json) _).write copied }

def atOne : SqliteStartup where
  failedAt _ := 1
  repairedAt _ := 1
  runOrder rows := rows
  jobOrder jobs := jobs
  runOrder_perm := List.Perm.refl
  jobOrder_perm := List.Perm.refl

/-- It is busy still after the startup. -/
theorem crashed_staysBusy : ∃ db', reconcileAbandonedRuns atOne crashed 1 = some db' ∧
    (db'.threads.get? t1).map Thread.status = some .busy ∧ ¬Restored atOne crashed db' := by
  refine ⟨crashed, rfl, rfl, fun hrestored => ?_⟩
  exact hrestored.notBusy t1 copied rfl rfl

end CrashRecovery

end SqliteDatabase
end Skein
