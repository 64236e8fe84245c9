import Skein.SqliteReconcile

/-!
# What the startup leaves

Each loop takes its batches until nothing is left that it looks for. What a loop has done so
far is a relation to the database it began with, which every row of a batch keeps.
-/
namespace Skein
namespace SqliteDatabase
variable {startup : SqliteStartup} {db₀ db db' : SqliteDatabase}

section DeliverLoss
variable (db : SqliteDatabase) (row : SqliteRun) (now : Timestamp)

@[simp] theorem deliverLoss_threads : (db.deliverLoss row now).threads = db.threads := by
  unfold deliverLoss
  split
  · rfl
  · split_ifs <;> rfl

@[simp] theorem deliverLoss_runs : (db.deliverLoss row now).runs = db.runs := by
  unfold deliverLoss
  split
  · rfl
  · split_ifs <;> rfl

@[simp] theorem deliverLoss_jobs : (db.deliverLoss row now).jobs = db.jobs := by
  unfold deliverLoss
  split
  · rfl
  · split_ifs <;> rfl

variable {db} in
theorem deliverLoss_keeps {id : DeliveryId} (h : db.deliveries.contains id = true) :
    (db.deliverLoss row now).deliveries.contains id = true := by
  unfold deliverLoss
  split
  · exact h
  · split_ifs
    · exact h
    · unfold OrderedMap.contains at h ⊢
      dsimp only
      rw [Table.get?_write]
      split_ifs
      · rfl
      · exact h

theorem deliverLoss_delivers {template : TerminalDelivery}
    (h : row.terminalDelivery = some template) :
    (db.deliverLoss row now).deliveries.contains template.deliveryId = true := by
  unfold deliverLoss
  rw [h]
  dsimp only
  split_ifs with hthere
  · exact hthere
  · have hid : (lostDelivery row.runId now template).deliveryId = template.deliveryId := rfl
    unfold OrderedMap.contains
    dsimp only
    rw [Table.get?_write, if_pos hid]
    rfl

end DeliverLoss

/-- A thread is left as it is, not being busy, or it fails, not being interrupted. -/
theorem failedThread_spec (db : SqliteDatabase) (runId : RunId) (now : Timestamp)
    (thread : Thread Json) :
    (db.failedThread runId now thread = thread ∧ thread.status ≠ .busy) ∨
      (thread.status ≠ .interrupted ∧ (db.failedThread runId now thread).status = .error) := by
  unfold failedThread
  split_ifs with h
  · refine .inr ⟨?_, rfl⟩
    rcases h with hbusy | ⟨hother, -⟩
    · rw [hbusy]
      decide
    · exact hother
  · exact .inl ⟨rfl, fun hbusy => h (.inl hbusy)⟩

@[simp] theorem failedThread_threadId (db : SqliteDatabase) (runId : RunId) (now : Timestamp)
    (thread : Thread Json) : (db.failedThread runId now thread).threadId = thread.threadId := by
  unfold failedThread
  split_ifs <;> rfl

@[simp] theorem failedRun_runId (now : Timestamp) (row : SqliteRun) :
    (failedRun now row).runId = row.runId := rfl

@[simp] theorem retiredJob_runId (job : RunJob) : (retiredJob job).runId = job.runId := rfl

section FailRow
variable (startup : SqliteStartup) (db : SqliteDatabase) (row : SqliteRun)

theorem failRow_runs (k : RunId) : (failRow startup db row).runs.get? k =
    if row.runId = k then (db.runs.get? k).map (failedRun (startup.failedAt row.runId))
    else db.runs.get? k := by
  unfold failRow
  rw [deliverLoss_runs]
  exact Table.get?_update (failedRun_runId _) db.runs row.runId k

theorem failRow_jobs (k : RunId) : (failRow startup db row).jobs.get? k =
    if row.runId = k then (db.jobs.get? k).map retiredJob else db.jobs.get? k := by
  unfold failRow
  rw [deliverLoss_jobs]
  exact Table.get?_update retiredJob_runId db.jobs row.runId k

theorem failRow_threads (k : ThreadId) : ∃ failed : SqliteDatabase,
    (failRow startup db row).threads.get? k =
      if row.threadId = k then
        (db.threads.get? k).map (failed.failedThread row.runId (startup.failedAt row.runId))
      else db.threads.get? k := by
  unfold failRow
  rw [deliverLoss_threads]
  exact ⟨_, Table.get?_update (fun _ => failedThread_threadId _ _ _ _) _ _ _⟩

/-- A row of another run is what it was, and as lost. -/
theorem failRow_other {other : SqliteRun} (hne : row.runId ≠ other.runId) :
    (failRow startup db row).runs.get? other.runId = db.runs.get? other.runId ∧
      (failRow startup db row).abandoned other = db.abandoned other := by
  refine ⟨by rw [failRow_runs, if_neg hne], ?_⟩
  unfold abandoned
  rw [failRow_jobs, if_neg hne]

end FailRow

theorem abandoned_congr {row : SqliteRun} (h : db'.jobs.get? row.runId = db.jobs.get? row.runId) :
    db'.abandoned row = db.abandoned row := by
  unfold abandoned
  rw [h]

theorem not_isTerminal_of_abandoned {row : SqliteRun} (h : db.abandoned row = true) :
    row.run.status.isTerminal = false := by
  unfold abandoned at h
  simpa using (Bool.and_eq_true_iff.mp h).1

/-- A run of `db₀` that was lost has been failed. -/
structure FailedIn (startup : SqliteStartup) (db₀ db : SqliteDatabase) (row : SqliteRun) :
    Prop where
  lost : db₀.abandoned row = true
  run : db.runs.get? row.runId = some (failedRun (startup.failedAt row.runId) row)
  job : db.jobs.get? row.runId = (db₀.jobs.get? row.runId).map retiredJob
  delivery : ∀ template, row.terminalDelivery = some template →
    db.deliveries.contains template.deliveryId = true
  thread : ∀ thread, db.threads.get? row.threadId = some thread → thread.status ≠ .busy

/-- What the first loop has done to `db₀` so far. -/
structure Failing (startup : SqliteStartup) (db₀ db : SqliteDatabase) : Prop where
  runs : ∀ k, (db.runs.get? k = db₀.runs.get? k ∧ db.jobs.get? k = db₀.jobs.get? k) ∨
    ∃ row, db₀.runs.get? k = some row ∧ FailedIn startup db₀ db row
  threads : ∀ k, db.threads.get? k = db₀.threads.get? k ∨ ∃ thread thread' row,
    db₀.threads.get? k = some thread ∧ db.threads.get? k = some thread' ∧
      thread.status ≠ .interrupted ∧ thread'.status = .error ∧
        db₀.runs.get? row.runId = some row ∧ row.threadId = k ∧ db₀.abandoned row = true

theorem Failing.refl (startup : SqliteStartup) (db : SqliteDatabase) : Failing startup db db :=
  ⟨fun _ => .inl ⟨rfl, rfl⟩, fun _ => .inl rfl⟩

/-- A run that is lost now was lost from the beginning. -/
theorem Failing.origin (h : Failing startup db₀ db) {row : SqliteRun}
    (hrow : db.runs.get? row.runId = some row) (hlost : db.abandoned row = true) :
    db₀.runs.get? row.runId = some row ∧ db₀.abandoned row = true ∧
      db.jobs.get? row.runId = db₀.jobs.get? row.runId := by
  rcases h.runs row.runId with ⟨hrun, hjob⟩ | ⟨old, hold, hfailed⟩
  · exact ⟨hrun ▸ hrow, (abandoned_congr hjob) ▸ hlost, hjob⟩
  · have hkey : old.runId = row.runId := Table.key_of_get? hold
    have hsame := hfailed.run
    rw [hkey, hrow] at hsame
    rw [Option.some.inj hsame] at hlost
    cases hlost

theorem Failing.failRow (h : Failing startup db₀ db) {row : SqliteRun}
    (hrow : db.runs.get? row.runId = some row) (hlost : db.abandoned row = true) :
    Failing startup db₀ (failRow startup db row) := by
  obtain ⟨hold, hlost₀, hjob₀⟩ := h.origin hrow hlost
  have hcalm : ∀ k, (∀ thread, db.threads.get? k = some thread → thread.status ≠ .busy) →
      ∀ thread, (SqliteDatabase.failRow startup db row).threads.get? k = some thread →
        thread.status ≠ .busy := by
    intro k hbefore thread hthread
    obtain ⟨failed, hget⟩ := failRow_threads startup db row k
    rw [hget] at hthread
    split_ifs at hthread
    · obtain ⟨old, hold, rfl⟩ := Option.map_eq_some_iff.mp hthread
      rcases failed.failedThread_spec row.runId (startup.failedAt row.runId) old with
        ⟨hsame, hidle⟩ | ⟨-, herror⟩
      · rw [hsame]
        exact hidle
      · rw [herror]
        decide
    · exact hbefore thread hthread
  constructor
  · intro k
    by_cases hk : row.runId = k
    · subst hk
      refine .inr ⟨row, hold, hlost₀, ?_, ?_, fun template htemplate => ?_, fun thread => ?_⟩
      · rw [failRow_runs, if_pos rfl, hrow, Option.map_some]
      · rw [failRow_jobs, if_pos rfl, hjob₀]
      · exact deliverLoss_delivers _ _ _ htemplate
      · intro hthread
        obtain ⟨failed, hget⟩ := failRow_threads startup db row row.threadId
        rw [hget, if_pos rfl] at hthread
        obtain ⟨old, -, rfl⟩ := Option.map_eq_some_iff.mp hthread
        rcases failed.failedThread_spec row.runId (startup.failedAt row.runId) old with
          ⟨hsame, hidle⟩ | ⟨-, herror⟩
        · rw [hsame]
          exact hidle
        · rw [herror]
          decide
    · rcases h.runs k with ⟨hrun, hjob⟩ | ⟨other, hother, hfailed⟩
      · exact .inl ⟨by rw [failRow_runs, if_neg hk, hrun], by rw [failRow_jobs, if_neg hk, hjob]⟩
      · have hkey : other.runId = k := Table.key_of_get? hother
        have hne : row.runId ≠ other.runId := hkey ▸ hk
        refine .inr ⟨other, hother, hfailed.lost, ?_, ?_, fun template htemplate => ?_, ?_⟩
        · rw [failRow_runs, if_neg hne, hfailed.run]
        · rw [failRow_jobs, if_neg hne, hfailed.job]
        · exact deliverLoss_keeps _ _ (hfailed.delivery template htemplate)
        · exact hcalm _ hfailed.thread
  · intro k
    obtain ⟨failed, hget⟩ := failRow_threads startup db row k
    by_cases hk : row.threadId = k
    · rw [if_pos hk] at hget
      rcases h.threads k with hsame | ⟨thread, thread', other, hthread, hthread', hstatus, herror,
        hother⟩
      · cases hthread : db₀.threads.get? k with
        | none =>
          rw [hsame, hthread] at hget
          exact .inl hget
        | some thread =>
          rw [hsame, hthread, Option.map_some] at hget
          rcases failed.failedThread_spec row.runId (startup.failedAt row.runId) thread with
            ⟨hkept, -⟩ | ⟨hstatus, herror⟩
          · rw [hkept] at hget
            exact .inl hget
          · exact .inr ⟨thread, _, row, rfl, hget, hstatus, herror, hold, hk, hlost₀⟩
      · rw [hthread', Option.map_some] at hget
        refine .inr ⟨thread, _, other, hthread, hget, hstatus, ?_, hother⟩
        rcases failed.failedThread_spec row.runId (startup.failedAt row.runId) thread' with
          ⟨hkept, -⟩ | ⟨-, herror'⟩
        · rw [hkept]
          exact herror
        · exact herror'
    · rw [if_neg hk] at hget
      rcases h.threads k with hsame | ⟨thread, thread', other, hthread, hthread', hrest⟩
      · exact .inl (hget.trans hsame)
      · exact .inr ⟨thread, thread', other, hthread, hget.trans hthread', hrest⟩

/-- The runs that have not ended. -/
def inFlight (db : SqliteDatabase) : ℕ := db.runs.values.countP fun row => !row.run.status.isTerminal

/-- A row that the first loop still has to take. -/
def IsLost (db : SqliteDatabase) (row : SqliteRun) : Prop :=
  db.runs.get? row.runId = some row ∧ db.abandoned row = true

theorem failRow_drains (startup : SqliteStartup) (db₀ : SqliteDatabase) :
    Drains (failRow startup) (Failing startup db₀) IsLost (fun _ _ => True) inFlight where
  keeps _ _ h hrow := h.failRow hrow.1 hrow.2
  counts db row _ hrow := by
    unfold inFlight failRow
    rw [deliverLoss_runs]
    refine Table.countP_update (failedRun_runId _) hrow.1 ?_ rfl
    rw [not_isTerminal_of_abandoned hrow.2]
    rfl
  others db row other _ hrow hother hne := by
    have hid : other.runId ≠ row.runId := by
      intro heq
      have hsame := hother.1
      rw [heq, hrow.1] at hsame
      exact hne (Option.some.inj hsame)
    obtain ⟨hget, hlost⟩ := failRow_other startup db other hid
    exact ⟨hget.trans hrow.1, hlost.trans hrow.2⟩
  done _ _ _ _ := trivial
  stays _ _ _ _ _ _ := trivial

/-- What a batch of the first loop does. -/
theorem failBatch_spec (h : Failing startup db₀ db) :
    Failing startup db₀ (failBatch startup db).1 ∧
      inFlight (failBatch startup db).1 + (failBatch startup db).2 = inFlight db := by
  have hperm := startup.runOrder_perm (db.runs.values.filter db.abandoned)
  have hnodup : ((startup.runOrder (db.runs.values.filter db.abandoned)).take batchLimit).Nodup := by
    refine List.Nodup.sublist (List.take_sublist _ _) ?_
    rw [hperm.nodup_iff]
    exact (List.Nodup.of_map _ db.runs.nodup_map_key).filter _
  obtain ⟨hkeeps, hcount, -⟩ := (failRow_drains startup db₀).foldl hnodup h fun row hrow => by
    have hmem := hperm.subset (List.mem_of_mem_take hrow)
    obtain ⟨hvalues, hlost⟩ := List.mem_filter.mp hmem
    exact ⟨(Table.mem_values_iff _ _).mp hvalues, hlost⟩
  exact ⟨hkeeps, hcount⟩

/-- The first loop: afterwards no run is lost. -/
theorem failBatch_drains (startup : SqliteStartup) (db₀ : SqliteDatabase) :
    ∃ db, DrainsTo (failBatch startup) db₀ db ∧ Failing startup db₀ db ∧
      ∀ row ∈ db.runs.values, db.abandoned row = false := by
  have hless : ∀ db, Failing startup db₀ db → 0 < (failBatch startup db).2 →
      inFlight (failBatch startup db).1 < inFlight db := by
    intro db h hpos
    have hcount := (failBatch_spec h).2
    omega
  have hidle : ∀ db, (failBatch startup db).2 = 0 → (failBatch startup db).1 = db := by
    intro db hzero
    have hnil := List.eq_nil_of_length_eq_zero hzero
    unfold failBatch
    dsimp only
    rw [hnil]
    rfl
  obtain ⟨db, hdrains, hfailing, hempty⟩ :=
    drainsTo_of_measure (fun _ h => (failBatch_spec h).1) hless hidle (Failing.refl startup db₀)
  refine ⟨db, hdrains, hfailing, fun row hrow => ?_⟩
  have hnil := eq_nil_of_take (by decide : 0 < batchLimit)
    (startup.runOrder_perm (db.runs.values.filter db.abandoned)) hempty
  have hnot := List.filter_eq_nil_iff.mp hnil row hrow
  simpa using hnot

section RepairRow
variable (startup : SqliteStartup) (db : SqliteDatabase) (thread : Thread Json)

@[simp] theorem repairRow_runs : (repairRow startup db thread).runs = db.runs := by
  unfold repairRow
  split <;> rfl

@[simp] theorem repairRow_jobs : (repairRow startup db thread).jobs = db.jobs := by
  unfold repairRow
  split <;> rfl

@[simp] theorem repairRow_deliveries : (repairRow startup db thread).deliveries = db.deliveries := by
  unfold repairRow
  split <;> rfl

@[simp] theorem repairRow_runsOf (k : ThreadId) :
    (repairRow startup db thread).runsOf k = db.runsOf k := by
  unfold runsOf
  rw [repairRow_runs]

theorem endedStatus_ne_busy (run : Run Json) : endedStatus run ≠ .busy := by
  unfold endedStatus
  split <;> decide

/-- A thread that the second loop still has to take. -/
def IsStale : Prop := db.threads.get? thread.threadId = some thread ∧ db.stale thread = true

variable {db thread}

theorem IsStale.busy (h : IsStale db thread) : thread.status = .busy :=
  of_decide_eq_true (Bool.and_eq_true_iff.mp h.2).1

theorem IsStale.ended (h : IsStale db thread) :
    ∃ run, lastEnded (db.runsOf thread.threadId) = some run :=
  Option.isSome_iff_exists.mp (Bool.and_eq_true_iff.mp h.2).2

theorem repairRow_threads {run : Run Json}
    (h : lastEnded (db.runsOf thread.threadId) = some run) (k : ThreadId) :
    (repairRow startup db thread).threads.get? k =
      if thread.threadId = k then
        (db.threads.get? k).map (repairedThread run (startup.repairedAt thread.threadId))
      else db.threads.get? k := by
  unfold repairRow
  rw [h]
  exact Table.get?_update (fun _ => by rfl) _ _ _

end RepairRow

/-- What the second loop has done to `db₁` so far. -/
structure Repairing (startup : SqliteStartup) (db₁ db : SqliteDatabase) : Prop where
  runs : db.runs = db₁.runs
  jobs : db.jobs = db₁.jobs
  deliveries : db.deliveries = db₁.deliveries
  threads : ∀ k, db.threads.get? k = db₁.threads.get? k ∨ ∃ thread run,
    db₁.threads.get? k = some thread ∧ thread.status = .busy ∧
      lastEnded (db₁.runsOf k) = some run ∧
        db.threads.get? k = some (repairedThread run (startup.repairedAt k) thread)

theorem Repairing.refl (startup : SqliteStartup) (db : SqliteDatabase) : Repairing startup db db :=
  ⟨rfl, rfl, rfl, fun _ => .inl rfl⟩

variable {db₁ : SqliteDatabase}

theorem Repairing.runsOf (h : Repairing startup db₁ db) (k : ThreadId) :
    db.runsOf k = db₁.runsOf k := by
  unfold SqliteDatabase.runsOf
  rw [h.runs]

/-- A thread that is busy now has been left alone. -/
theorem Repairing.origin (h : Repairing startup db₁ db) {k : ThreadId} {thread : Thread Json}
    (hget : db.threads.get? k = some thread) (hbusy : thread.status = .busy) :
    db₁.threads.get? k = some thread := by
  rcases h.threads k with hsame | ⟨old, run, -, -, -, hrepaired⟩
  · rw [← hsame]
    exact hget
  · rw [hget] at hrepaired
    rw [Option.some.inj hrepaired] at hbusy
    exact absurd hbusy (endedStatus_ne_busy run)

theorem Repairing.repairRow (h : Repairing startup db₁ db) {thread : Thread Json}
    (hstale : IsStale db thread) : Repairing startup db₁ (repairRow startup db thread) := by
  obtain ⟨run, hrun⟩ := hstale.ended
  refine ⟨?_, ?_, ?_, fun k => ?_⟩
  · rw [repairRow_runs, h.runs]
  · rw [repairRow_jobs, h.jobs]
  · rw [repairRow_deliveries, h.deliveries]
  · rw [repairRow_threads startup hrun]
    by_cases hk : thread.threadId = k
    · subst hk
      rw [if_pos rfl, hstale.1, Option.map_some]
      refine .inr ⟨thread, run, h.origin hstale.1 hstale.busy, hstale.busy, ?_, rfl⟩
      rw [← h.runsOf]
      exact hrun
    · rw [if_neg hk]
      exact h.threads k

/-- The threads that are busy. -/
def busyThreads (db : SqliteDatabase) : ℕ :=
  db.threads.values.countP fun thread => thread.status = .busy

/-- The thread has been taken. -/
def IsCalm (db : SqliteDatabase) (thread : Thread Json) : Prop :=
  ∀ row, db.threads.get? thread.threadId = some row → row.status ≠ .busy

theorem repairRow_drains (startup : SqliteStartup) (db₁ : SqliteDatabase) :
    Drains (repairRow startup) (Repairing startup db₁) IsStale IsCalm busyThreads where
  keeps _ _ h hstale := h.repairRow hstale
  counts db thread _ hstale := by
    obtain ⟨run, hrun⟩ := hstale.ended
    unfold busyThreads repairRow
    rw [hrun]
    refine Table.countP_update (fun _ => by rfl) hstale.1 (decide_eq_true hstale.busy) ?_
    exact decide_eq_false (endedStatus_ne_busy run)
  others db thread other _ hthread hother hne := by
    have hid : other.threadId ≠ thread.threadId := by
      intro heq
      have hsame := hother.1
      rw [heq, hthread.1] at hsame
      exact hne (Option.some.inj hsame)
    obtain ⟨run, hrun⟩ := hother.ended
    refine ⟨?_, ?_⟩
    · rw [repairRow_threads startup hrun, if_neg hid]
      exact hthread.1
    · unfold stale
      rw [repairRow_runsOf]
      exact hthread.2
  done db thread _ hstale := by
    intro row hrow
    obtain ⟨run, hrun⟩ := hstale.ended
    rw [repairRow_threads startup hrun, if_pos rfl, hstale.1, Option.map_some] at hrow
    rw [← Option.some.inj hrow]
    exact endedStatus_ne_busy run
  stays db thread other _ hother hcalm := by
    intro row hrow
    obtain ⟨run, hrun⟩ := hother.ended
    rw [repairRow_threads startup hrun] at hrow
    split_ifs at hrow
    · obtain ⟨old, -, rfl⟩ := Option.map_eq_some_iff.mp hrow
      exact endedStatus_ne_busy run
    · exact hcalm row hrow

/-- The cursor is before every thread that is still to be taken. -/
structure RepairingFrom (startup : SqliteStartup) (db₁ : SqliteDatabase)
    (s : SqliteDatabase × String) : Prop where
  repairing : Repairing startup db₁ s.1
  cursor : ∀ thread, IsStale s.1 thread → s.2 < thread.threadId.value

/-- A batch takes the first threads behind the cursor and leaves those behind them. -/
theorem repairBatch_spec {s : SqliteDatabase × String} (h : RepairingFrom startup db₁ s) :
    RepairingFrom startup db₁ (repairBatch startup s).1 ∧
      busyThreads (repairBatch startup s).1.1 + (repairBatch startup s).2 = busyThreads s.1 := by
  set ordered := (s.1.threads.values.filter fun thread =>
    s.1.stale thread && s.2 < thread.threadId.value).insertionSort fun a b =>
      a.threadId.value ≤ b.threadId.value with hordered
  have hperm : ordered.Perm (s.1.threads.values.filter fun thread =>
      s.1.stale thread && s.2 < thread.threadId.value) := List.perm_insertionSort _ _
  have hmem : ∀ thread, thread ∈ ordered ↔ IsStale s.1 thread := by
    intro thread
    rw [hperm.mem_iff, List.mem_filter, Table.mem_values_iff, Bool.and_eq_true_iff]
    constructor
    · rintro ⟨hget, hstale, -⟩
      exact ⟨hget, hstale⟩
    · intro hstale
      exact ⟨hstale.1, hstale.2, decide_eq_true (h.cursor thread hstale)⟩
  have hnodup : ordered.Nodup := by
    rw [hperm.nodup_iff]
    exact (List.Nodup.of_map _ s.1.threads.nodup_map_key).filter _
  have hstale : ∀ thread ∈ ordered.take batchLimit, IsStale s.1 thread :=
    fun thread hthread => (hmem thread).mp (List.mem_of_mem_take hthread)
  have htake : (ordered.take batchLimit).Nodup := hnodup.sublist (List.take_sublist _ _)
  obtain ⟨hkeeps, hcount, -⟩ :=
    (repairRow_drains startup db₁).foldl htake h.repairing hstale
  obtain ⟨hbatch, -, hcalm⟩ :=
    (repairRow_drains startup s.1).foldl htake (.refl startup s.1) hstale
  refine ⟨⟨hkeeps, fun thread hthread => ?_⟩, hcount⟩
  have hbefore : IsStale s.1 thread := by
    refine ⟨hbatch.origin hthread.1 hthread.busy, ?_⟩
    have hsame := hthread.2
    unfold stale at hsame ⊢
    rw [← hbatch.runsOf]
    exact hsame
  have hleft : ∀ row ∈ ordered.take batchLimit, row.threadId ≠ thread.threadId := by
    intro row hrow heq
    refine hcalm row (.inl hrow) thread ?_ hthread.busy
    rw [heq]
    exact hthread.1
  have hdrop : thread ∈ ordered.drop batchLimit := by
    have hin := (hmem thread).mpr hbefore
    rw [← List.take_append_drop batchLimit ordered, List.mem_append] at hin
    exact hin.resolve_left fun hrow => hleft thread hrow rfl
  have htotal : Std.Total fun a b : Thread Json => a.threadId.value ≤ b.threadId.value :=
    ⟨fun a b => le_total _ _⟩
  have htrans : IsTrans (Thread Json) fun a b => a.threadId.value ≤ b.threadId.value :=
    ⟨fun _ _ _ hab hbc => le_trans hab hbc⟩
  have hsorted : ordered.Pairwise fun a b => a.threadId.value ≤ b.threadId.value :=
    List.pairwise_insertionSort _ _
  rw [← List.take_append_drop batchLimit ordered, List.pairwise_append] at hsorted
  show ((ordered.take batchLimit).getLast?.map fun row => row.threadId.value).getD s.2 < _
  cases hlast : (ordered.take batchLimit).getLast? with
  | none => exact h.cursor thread hbefore
  | some last =>
    have hlastMem : last ∈ ordered.take batchLimit := List.mem_of_getLast? hlast
    refine lt_of_le_of_ne (hsorted.2.2 last hlastMem thread hdrop) fun heq => ?_
    exact hleft last hlastMem (Id.eq_of_value heq)

theorem empty_lt_value (id : Id) : "" < id.value := by
  rw [String.lt_iff_toList_lt]
  cases hlist : id.value.toList with
  | nil => exact absurd (String.toList_eq_nil_iff.mp hlist) id.nonempty
  | cons c cs => exact List.nil_lt_cons c cs

/-- The second loop: afterwards no thread is stale. -/
theorem repairBatch_drains (startup : SqliteStartup) (db₁ : SqliteDatabase) :
    ∃ s, DrainsTo (repairBatch startup) (db₁, "") s ∧ Repairing startup db₁ s.1 ∧
      ∀ thread, ¬IsStale s.1 thread := by
  have hless : ∀ s, RepairingFrom startup db₁ s → 0 < (repairBatch startup s).2 →
      (busyThreads ∘ Prod.fst) (repairBatch startup s).1 < (busyThreads ∘ Prod.fst) s := by
    intro s h hpos
    have hcount := (repairBatch_spec h).2
    simp only [Function.comp_apply]
    omega
  have hidle : ∀ s, (repairBatch startup s).2 = 0 → (repairBatch startup s).1 = s := by
    intro s hzero
    have hnil := List.eq_nil_of_length_eq_zero hzero
    unfold repairBatch
    dsimp only
    rw [hnil]
    rfl
  have hstart : RepairingFrom startup db₁ (db₁, "") :=
    ⟨.refl startup db₁, fun thread _ => empty_lt_value thread.threadId⟩
  have hkeeps : ∀ s, RepairingFrom startup db₁ s →
      RepairingFrom startup db₁ (repairBatch startup s).1 := fun _ h => (repairBatch_spec h).1
  obtain ⟨s, hdrains, hrepairing, hempty⟩ :=
    drainsTo_of_measure hkeeps hless hidle hstart
  refine ⟨s, hdrains, hrepairing.repairing, fun thread hstale => ?_⟩
  have hnil := eq_nil_of_take (by decide : 0 < batchLimit) (List.perm_insertionSort _ _) hempty
  refine List.filter_eq_nil_iff.mp hnil thread ((Table.mem_values_iff _ _).mpr hstale.1) ?_
  rw [hstale.2, decide_eq_true (hrepairing.cursor thread hstale)]
  rfl

theorem retireRow_jobs (db : SqliteDatabase) (job : RunJob) (k : RunId) :
    (retireRow db job).jobs.get? k =
      if job.runId = k then (db.jobs.get? k).map retiredJob else db.jobs.get? k :=
  Table.get?_update retiredJob_runId db.jobs job.runId k

/-- What the third loop has done to `db₂` so far. -/
structure Retiring (db₂ db : SqliteDatabase) : Prop where
  threads : db.threads = db₂.threads
  runs : db.runs = db₂.runs
  deliveries : db.deliveries = db₂.deliveries
  jobs : ∀ k, db.jobs.get? k = db₂.jobs.get? k ∨ ∃ job, db₂.jobs.get? k = some job ∧
    db₂.retirable job = true ∧ db.jobs.get? k = some (retiredJob job)

theorem Retiring.refl (db : SqliteDatabase) : Retiring db db := ⟨rfl, rfl, rfl, fun _ => .inl rfl⟩

/-- A job that the third loop still has to take. -/
def IsRetirable (db : SqliteDatabase) (job : RunJob) : Prop :=
  db.jobs.get? job.runId = some job ∧ db.retirable job = true

theorem IsRetirable.not_done {job : RunJob} (h : IsRetirable db job) : job.status ≠ .done := by
  intro hdone
  have hretirable := h.2
  unfold retirable at hretirable
  rw [hdone] at hretirable
  exact absurd hretirable (by simp)

variable {db₂ : SqliteDatabase}

theorem Retiring.retireRow (h : Retiring db₂ db) {job : RunJob} (hjob : IsRetirable db job) :
    Retiring db₂ (retireRow db job) := by
  refine ⟨h.threads, h.runs, h.deliveries, fun k => ?_⟩
  rw [retireRow_jobs]
  by_cases hk : job.runId = k
  · subst hk
    rw [if_pos rfl, hjob.1, Option.map_some]
    rcases h.jobs job.runId with hsame | ⟨old, -, -, hretired⟩
    · refine .inr ⟨job, hsame ▸ hjob.1, ?_, rfl⟩
      have hretirable := hjob.2
      unfold retirable at hretirable ⊢
      rw [← h.runs]
      exact hretirable
    · rw [hjob.1] at hretired
      exact absurd (congrArg RunJob.status (Option.some.inj hretired)) hjob.not_done
  · rw [if_neg hk]
    exact h.jobs k

/-- The jobs that are not done. -/
def openJobs (db : SqliteDatabase) : ℕ := db.jobs.values.countP fun job => job.status ≠ .done

theorem retireRow_drains (db₂ : SqliteDatabase) :
    Drains retireRow (Retiring db₂) IsRetirable (fun _ _ => True) openJobs where
  keeps _ _ h hjob := h.retireRow hjob
  counts db job _ hjob :=
    Table.countP_update retiredJob_runId hjob.1 (decide_eq_true hjob.not_done) (by rfl)
  others db job other _ hjob hother hne := by
    have hid : other.runId ≠ job.runId := by
      intro heq
      have hsame := hother.1
      rw [heq, hjob.1] at hsame
      exact hne (Option.some.inj hsame)
    refine ⟨?_, hjob.2⟩
    rw [retireRow_jobs, if_neg hid]
    exact hjob.1
  done _ _ _ _ := trivial
  stays _ _ _ _ _ _ := trivial

theorem retireBatch_spec (startup : SqliteStartup) (h : Retiring db₂ db) :
    Retiring db₂ (retireBatch startup db).1 ∧
      openJobs (retireBatch startup db).1 + (retireBatch startup db).2 = openJobs db := by
  have hperm := startup.jobOrder_perm (db.jobs.values.filter db.retirable)
  have hnodup : ((startup.jobOrder (db.jobs.values.filter db.retirable)).take batchLimit).Nodup := by
    refine List.Nodup.sublist (List.take_sublist _ _) ?_
    rw [hperm.nodup_iff]
    exact (List.Nodup.of_map _ db.jobs.nodup_map_key).filter _
  obtain ⟨hkeeps, hcount, -⟩ := (retireRow_drains db₂).foldl hnodup h fun job hjob => by
    obtain ⟨hvalues, hretirable⟩ := List.mem_filter.mp (hperm.subset (List.mem_of_mem_take hjob))
    exact ⟨(Table.mem_values_iff _ _).mp hvalues, hretirable⟩
  exact ⟨hkeeps, hcount⟩

/-- The third loop: afterwards no job can be retired. -/
theorem retireBatch_drains (startup : SqliteStartup) (db₂ : SqliteDatabase) :
    ∃ db, DrainsTo (retireBatch startup) db₂ db ∧ Retiring db₂ db ∧
      ∀ job ∈ db.jobs.values, db.retirable job = false := by
  have hless : ∀ db, Retiring db₂ db → 0 < (retireBatch startup db).2 →
      openJobs (retireBatch startup db).1 < openJobs db := by
    intro db h hpos
    obtain ⟨-, hcount⟩ := retireBatch_spec startup h
    omega
  have hidle : ∀ db, (retireBatch startup db).2 = 0 → (retireBatch startup db).1 = db := by
    intro db hzero
    have hnil := List.eq_nil_of_length_eq_zero hzero
    unfold retireBatch
    dsimp only
    rw [hnil]
    rfl
  obtain ⟨db, hdrains, hretiring, hempty⟩ :=
    drainsTo_of_measure (fun _ h => (retireBatch_spec startup h).1) hless hidle (Retiring.refl db₂)
  refine ⟨db, hdrains, hretiring, fun job hjob => ?_⟩
  have hnil := eq_nil_of_take (by decide : 0 < batchLimit)
    (startup.jobOrder_perm (db.jobs.values.filter db.retirable)) hempty
  simpa using List.filter_eq_nil_iff.mp hnil job hjob

end SqliteDatabase
end Skein
