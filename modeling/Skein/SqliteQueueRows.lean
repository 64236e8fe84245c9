import Mathlib.Data.List.Pairwise
import Mathlib.Data.List.MinMax
import Mathlib.Tactic.SplitIfs
import Skein.QueueMoves
import Skein.SqliteQueue

/-!
# The rows of the SQLite queue

A row is active exactly while it has an attempt, and the active rows have different threads.
The loop of a turn is taken apart into single claims, each of which takes the first due row of
its thread.
-/
namespace Skein

namespace JobAttempt
variable {J : Type*}

def runId (attempt : JobAttempt J) : RunId := attempt.run.runId
def threadId (attempt : JobAttempt J) : ThreadId := attempt.run.threadId

end JobAttempt

namespace SqliteQueue
variable {J : Type*} {q q' : SqliteQueue J}

/-- The table of a database that has been reconciled on opening, before anybody consumes. -/
structure Opened (q : SqliteQueue J) : Prop where
  ids : (q.jobs.map RunJob.runId).Nodup
  sequences : q.jobs.Pairwise fun a b => a.sequence < b.sequence
  last : ∀ job ∈ q.jobs, job.sequence ≤ q.sequence
  idle : ∀ job ∈ q.jobs, job.status ≠ .active
  consumers : q.consumers = []
  running : q.running = []
  deferred : q.deferred = []
  disposed : q.disposed = false

/-- The rows and the attempts on them. -/
structure Sound (q : SqliteQueue J) : Prop where
  ids : (q.jobs.map RunJob.runId).Nodup
  sequences : q.jobs.Pairwise fun a b => a.sequence < b.sequence
  last : ∀ job ∈ q.jobs, job.sequence ≤ q.sequence
  attempts : (q.running.map JobAttempt.runId).Nodup
  started : ∀ attempt ∈ q.running, ∃ job ∈ q.jobs, job.runId = attempt.runId ∧
    job.threadId = attempt.threadId ∧ job.status = .active
  active : ∀ job ∈ q.jobs, job.status = .active → job.runId ∈ q.running.map JobAttempt.runId
  threads : ∀ a ∈ q.jobs, ∀ b ∈ q.jobs, a.status = .active → b.status = .active →
    a.threadId = b.threadId → a = b

theorem mem_setJobStatus {runId : RunId} {status : JobStatus} {job' : RunJob} :
    job' ∈ (q.setJobStatus runId status).jobs ↔ ∃ job ∈ q.jobs,
      (if job.runId = runId then { job with status } else job) = job' := List.mem_map

/-- A write of a status leaves the columns it does not name alone. -/
theorem setJobStatus_map {β : Type*} (q : SqliteQueue J) (runId : RunId) (status : JobStatus)
    (f : RunJob → β) (hf : ∀ job : RunJob, f { job with status } = f job) :
    (q.setJobStatus runId status).jobs.map f = q.jobs.map f := by
  unfold setJobStatus
  rw [List.map_map]
  refine List.map_congr_left fun job _ => ?_
  simp only [Function.comp_apply]
  split_ifs
  · exact hf job
  · rfl

theorem setJobStatus_sequences (h : q.jobs.Pairwise fun a b => a.sequence < b.sequence)
    (runId : RunId) (status : JobStatus) :
    (q.setJobStatus runId status).jobs.Pairwise fun a b => a.sequence < b.sequence := by
  rw [← List.pairwise_map (f := RunJob.sequence) (R := (· < ·))] at h ⊢
  rw [q.setJobStatus_map runId status RunJob.sequence fun _ => rfl]
  exact h

theorem setJobStatus_ids (h : (q.jobs.map RunJob.runId).Nodup) (runId : RunId)
    (status : JobStatus) : ((q.setJobStatus runId status).jobs.map RunJob.runId).Nodup := by
  rw [q.setJobStatus_map runId status RunJob.runId fun _ => rfl]
  exact h

/-- A row is determined by its run. -/
theorem Sound.eq_of_runId (h : q.Sound) {a b : RunJob} (ha : a ∈ q.jobs) (hb : b ∈ q.jobs)
    (hid : a.runId = b.runId) : a = b := List.inj_on_of_nodup_map h.ids ha hb hid

theorem claim_eq_some {now : Timestamp} {job : RunJob} (h : q.claim now = some job) :
    job ∈ q.jobs ∧ q.claimable job = true ∧ job.dueAt ≤ now := by
  have hprop := List.find?_some h
  simp only [Bool.and_eq_true, decide_eq_true_eq] at hprop
  exact ⟨List.mem_of_find?_eq_some h, hprop⟩

theorem claimable_iff {job : RunJob} :
    q.claimable job = true ↔ job.status = .waiting ∧
      (∀ other ∈ q.jobs, other.status = .active → other.threadId ≠ job.threadId) ∧
      job.threadId ∉ q.deferred := by
  simp only [claimable, Bool.and_eq_true, decide_eq_true_eq, Bool.not_eq_true', List.any_eq_false,
    not_and, and_assoc]
  constructor
  · rintro ⟨hwaiting, hactive, hdeferred⟩
    exact ⟨hwaiting, fun other hother hstatus hthread => hactive other hother hthread hstatus,
      hdeferred⟩
  · rintro ⟨hwaiting, hactive, hdeferred⟩
    exact ⟨hwaiting, fun other hother hthread hstatus => hactive other hother hstatus hthread,
      hdeferred⟩

theorem Sound.attempt (h : q.Sound) {now : Timestamp} {job : RunJob}
    (hclaim : q.claim now = some job) (i : ℕ) : (q.attempt i job).Sound := by
  obtain ⟨hjob, hclaimable, -⟩ := claim_eq_some hclaim
  obtain ⟨hwaiting, hthread, -⟩ := claimable_iff.mp hclaimable
  have hnew : job.runId ∉ q.running.map JobAttempt.runId := by
    intro hmem
    obtain ⟨attempt, hattempt, hid⟩ := List.mem_map.mp hmem
    obtain ⟨row, hrow, hrowId, -, hactive⟩ := h.started attempt hattempt
    rw [h.eq_of_runId hrow hjob (hrowId.trans hid), hwaiting] at hactive
    cases hactive
  have hactive : ∀ row' ∈ (q.attempt i job).jobs, row'.status = .active →
      row' = { job with status := .active } ∨ (row' ∈ q.jobs ∧ row'.runId ≠ job.runId) := by
    intro row' hrow' hstatus
    obtain ⟨row, hrow, rfl⟩ := mem_setJobStatus.mp hrow'
    split_ifs with hid
    · rw [h.eq_of_runId hrow hjob hid]
      exact .inl rfl
    · exact .inr ⟨hrow, hid⟩
  exact {
    ids := setJobStatus_ids h.ids _ _
    sequences := setJobStatus_sequences h.sequences _ _
    last := by
      intro row' hrow'
      obtain ⟨row, hrow, rfl⟩ := mem_setJobStatus.mp hrow'
      split_ifs <;> exact h.last row hrow
    attempts := by
      rw [show (q.attempt i job).running = q.running ++ [⟨i, ⟨job.runId, job.threadId⟩, none⟩]
        from rfl, List.map_append]
      exact (List.perm_append_singleton _ _).nodup_iff.mpr
        (List.nodup_cons.mpr ⟨hnew, h.attempts⟩)
    started := by
      intro attempt hattempt
      rcases List.mem_append.mp hattempt with hold | hsame
      · obtain ⟨row, hrow, hid, hrowThread, hstatus⟩ := h.started attempt hold
        refine ⟨row, mem_setJobStatus.mpr ⟨row, hrow, if_neg fun heq => ?_⟩, hid, hrowThread,
          hstatus⟩
        exact hnew (List.mem_map.mpr ⟨attempt, hold, hid.symm.trans heq⟩)
      · obtain rfl := List.mem_singleton.mp hsame
        exact ⟨_, mem_setJobStatus.mpr ⟨job, hjob, if_pos rfl⟩, rfl, rfl, rfl⟩
    active := by
      intro row' hrow' hstatus
      rw [show (q.attempt i job).running = q.running ++ [⟨i, ⟨job.runId, job.threadId⟩, none⟩]
        from rfl, List.map_append, List.mem_append]
      rcases hactive row' hrow' hstatus with rfl | ⟨hold, -⟩
      · exact .inr (List.mem_singleton.mpr rfl)
      · exact .inl (h.active row' hold hstatus)
    threads := by
      intro a ha b hb hastatus hbstatus hsame
      rcases hactive a ha hastatus with rfl | ⟨haold, -⟩ <;>
        rcases hactive b hb hbstatus with rfl | ⟨hbold, -⟩
      · rfl
      · exact absurd hsame.symm (hthread b hbold hbstatus)
      · exact absurd hsame (hthread a haold hastatus)
      · exact h.threads a haold b hbold hastatus hbstatus hsame }

/-- The claimed row comes first among the due rows of its thread. -/
theorem Sound.claim_first (h : q.Sound) {now : Timestamp} {job : RunJob}
    (hclaim : q.claim now = some job) {other : RunJob} (hother : other ∈ q.jobs)
    (hwaiting : other.status = .waiting) (hthread : other.threadId = job.threadId)
    (hdue : other.dueAt ≤ now) : job.sequence ≤ other.sequence := by
  obtain ⟨-, hclaimable, -⟩ := claim_eq_some hclaim
  obtain ⟨-, hactive, hdeferred⟩ := claimable_iff.mp hclaimable
  have hothers : q.claimable other = true :=
    claimable_iff.mpr ⟨hwaiting, hthread ▸ hactive, hthread ▸ hdeferred⟩
  obtain ⟨-, before, after, hsplit, hbefore⟩ := List.find?_eq_some_iff_append.mp hclaim
  have hsorted := h.sequences
  rw [hsplit] at hsorted hother
  obtain ⟨-, hcons, -⟩ := List.pairwise_append.mp hsorted
  rcases List.mem_append.mp hother with hin | hin
  · have hnot := hbefore other hin
    simp [hothers, hdue] at hnot
  · rcases List.mem_cons.mp hin with rfl | hafter
    · exact Nat.le_refl _
    · exact Nat.le_of_lt ((List.pairwise_cons.mp hcons).1 other hafter)

end SqliteQueue

/-- The columns of a row that no step writes. -/
def RunJob.identity (job : RunJob) : ℕ × RunId × ThreadId × Timestamp :=
  (job.sequence, job.runId, job.threadId, job.dueAt)

namespace SqliteQueue
variable {J : Type*} {q q' : SqliteQueue J}

/-- What the loop of a turn of consumer `i` does to the queue. -/
structure Claimed (i : ℕ) (now : Timestamp) (q r : SqliteQueue J) : Prop where
  consumers : r.consumers = q.consumers
  deferred : r.deferred = q.deferred
  disposed : r.disposed = q.disposed
  identities : r.jobs.map RunJob.identity = q.jobs.map RunJob.identity
  rows : ∀ row' ∈ r.jobs, row' ∈ q.jobs ∨ ∃ row ∈ q.jobs, q.claimable row = true ∧
    row' = { row with status := .active } ∧ ∀ other ∈ q.jobs, other.status = .waiting →
      other.threadId = row.threadId → other.dueAt ≤ now → row.sequence ≤ other.sequence
  claimable : ∀ row' ∈ r.jobs, r.claimable row' = true → row' ∈ q.jobs ∧ q.claimable row' = true
  sizes : ∀ j, j ≠ i → r.runningSize j = q.runningSize j

theorem Claimed.refl (i : ℕ) (now : Timestamp) (q : SqliteQueue J) : Claimed i now q q where
  consumers := rfl
  deferred := rfl
  disposed := rfl
  identities := rfl
  rows := fun _ h => .inl h
  claimable := fun _ h h' => ⟨h, h'⟩
  sizes := fun _ _ => rfl

theorem mem_attempt {i : ℕ} {job row' : RunJob} :
    row' ∈ (q.attempt i job).jobs ↔ ∃ row ∈ q.jobs,
      (if row.runId = job.runId then { row with status := .active } else row) = row' :=
  mem_setJobStatus

/-- After a claim the thread of the claimed row is active, and no row has become claimable. -/
theorem attempt_claimable {i : ℕ} {job row' : RunJob} (hjob : job ∈ q.jobs)
    (hrow' : row' ∈ (q.attempt i job).jobs) (h : (q.attempt i job).claimable row' = true) :
    row' ∈ q.jobs ∧ q.claimable row' = true ∧ row'.threadId ≠ job.threadId := by
  obtain ⟨hwaiting, hactive, hdeferred⟩ := claimable_iff.mp h
  obtain ⟨row, hrow, rfl⟩ := mem_attempt.mp hrow'
  by_cases hid : row.runId = job.runId
  · rw [if_pos hid] at hwaiting
    exact absurd hwaiting (by simp)
  · rw [if_neg hid] at hwaiting hactive hdeferred ⊢
    refine ⟨hrow, claimable_iff.mpr ⟨hwaiting, fun other hother hstatus => ?_, hdeferred⟩, ?_⟩
    · refine hactive other (mem_attempt.mpr ⟨other, hother, ?_⟩) hstatus
      split_ifs
      · rw [← hstatus]
      · rfl
    · exact (hactive { job with status := .active }
        (mem_attempt.mpr ⟨job, hjob, if_pos rfl⟩) rfl).symm

theorem runningSize_attempt (i j : ℕ) (job : RunJob) :
    (q.attempt i job).runningSize j = q.runningSize j + if i = j then 1 else 0 := by
  simp only [runningSize, SqliteQueue.attempt, setJobStatus, List.countP_append,
    List.countP_singleton, decide_eq_true_eq]

/-- One more claim at the head of the loop. -/
theorem Claimed.cons {i : ℕ} {now : Timestamp} {job : RunJob} {r : SqliteQueue J} (hq : q.Sound)
    (hclaim : q.claim now = some job) (h : Claimed i now (q.attempt i job) r) :
    Claimed i now q r := by
  obtain ⟨hjob, hclaimable, -⟩ := claim_eq_some hclaim
  exact {
    consumers := h.consumers
    deferred := h.deferred
    disposed := h.disposed
    identities := h.identities.trans (q.setJobStatus_map _ _ _ fun _ => rfl)
    rows := by
      intro row' hrow'
      rcases h.rows row' hrow' with hold | ⟨row, hrow, hstatus, rfl, hfirst⟩
      · obtain ⟨row, hrow, rfl⟩ := mem_attempt.mp hold
        split_ifs with hid
        · obtain rfl := hq.eq_of_runId hrow hjob hid
          exact .inr ⟨row, hrow, hclaimable, rfl, fun other hother hstatus hthread hdue =>
            hq.claim_first hclaim hother hstatus hthread hdue⟩
        · exact .inl hrow
      · obtain ⟨hold, hthere, hne⟩ := attempt_claimable hjob hrow hstatus
        refine .inr ⟨row, hold, hthere, rfl, fun other hother hwaits hthread hdue => ?_⟩
        have hsame : other.runId ≠ job.runId := by
          intro hid
          obtain rfl := hq.eq_of_runId hother hjob hid
          exact hne hthread.symm
        exact hfirst other (mem_attempt.mpr ⟨other, hother, if_neg hsame⟩) hwaits hthread hdue
    claimable := by
      intro row' hrow' hrest
      obtain ⟨hmem, hthere⟩ := h.claimable row' hrow' hrest
      obtain ⟨hold, hclaims, -⟩ := attempt_claimable hjob hmem hthere
      exact ⟨hold, hclaims⟩
    sizes := by
      intro j hj
      rw [h.sizes j hj, runningSize_attempt, if_neg (Ne.symm hj), Nat.add_zero] }

/-- The loop ends for want of room or for want of a job. -/
theorem claimAll_claimed (i : ℕ) (now : Timestamp) (room : ℕ) (hq : q.Sound) :
    (claimAll i now room q).Sound ∧ Claimed i now q (claimAll i now room q) ∧
      ((claimAll i now room q).runningSize i = q.runningSize i + room ∨
        (claimAll i now room q).claim now = none) := by
  induction room generalizing q with
  | zero => exact ⟨hq, .refl i now q, .inl rfl⟩
  | succ room ih =>
    rw [claimAll]
    split
    next hnone =>
      exact ⟨hq, .refl i now q, .inr hnone⟩
    next job hclaim =>
      obtain ⟨hsound, hclaimed, hend⟩ := ih (hq.attempt hclaim i)
      refine ⟨hsound, hclaimed.cons hq hclaim, hend.imp_left fun hsize => ?_⟩
      rw [hsize, runningSize_attempt, if_pos rfl, Nat.add_assoc, Nat.add_comm 1]

/-- Consumers and deferrals have no part in the table. -/
theorem Sound.congr (h : q.Sound) (hjobs : q'.jobs = q.jobs) (hsequence : q'.sequence = q.sequence)
    (hrunning : q'.running = q.running) : q'.Sound where
  ids := hjobs ▸ h.ids
  sequences := hjobs ▸ h.sequences
  last := by
    rw [hjobs, hsequence]
    exact h.last
  attempts := hrunning ▸ h.attempts
  started := by
    rw [hjobs, hrunning]
    exact h.started
  active := by
    rw [hjobs, hrunning]
    exact h.active
  threads := hjobs ▸ h.threads

/-- A turn of a consumer: it is closed, or it claims until it has no room or finds no job. -/
theorem tick_cases {i : ℕ} {now : Timestamp} (hq : q.Sound) (h : q.tick i now = some q') :
    ∃ consumer, q.consumers[i]? = some consumer ∧ consumer.scheduled = true ∧
      (((consumer.closed || q.disposed) = true ∧
          q' = q.setConsumer i { consumer with scheduled := false }) ∨
        (consumer.closed = false ∧ q.disposed = false ∧
          ∃ r, r.Sound ∧
            Claimed i now (q.setConsumer i { consumer with scheduled := false, timer := none }) r ∧
            ((consumer.concurrency ≤ r.runningSize i ∧ q' = r) ∨
              (r.claim now = none ∧ q' = r.setConsumer i { consumer with
                scheduled := false
                timer := r.nextDue.map fun due => now + timerDelay due now })))) := by
  unfold tick at h
  split at h
  · cases h
  next consumer hconsumer =>
    have hstart : (q.setConsumer i
        { consumer with scheduled := false, timer := none }).Sound := hq.congr rfl rfl rfl
    obtain ⟨hsound, hclaimed, hend⟩ :=
      claimAll_claimed i now (consumer.concurrency - q.runningSize i) hstart
    dsimp only at h
    split_ifs at h with hscheduled hclosed hfull <;> cases h
    · exact ⟨consumer, hconsumer, hscheduled, .inl ⟨hclosed, rfl⟩⟩
    all_goals
      rw [Bool.or_eq_true, not_or] at hclosed
      have hopen := Bool.eq_false_iff.mpr hclosed.1
      have hthere := Bool.eq_false_iff.mpr hclosed.2
    · exact ⟨consumer, hconsumer, hscheduled, .inr ⟨hopen, hthere, _, hsound, hclaimed,
        .inl ⟨hfull, rfl⟩⟩⟩
    · refine ⟨consumer, hconsumer, hscheduled, .inr ⟨hopen, hthere, _, hsound, hclaimed,
        .inr ⟨hend.resolve_left fun hsize => hfull ?_, rfl⟩⟩⟩
      rw [hsize]
      exact Nat.sub_le_iff_le_add'.mp (Nat.le_refl _)

/-- Inserting the job of a run: nothing if there is one, else a waiting row at the end. -/
theorem insertJob_cases (q : SqliteQueue J) (run : QueuedRun) (dueAt : Timestamp) :
    (run.runId ∈ q.jobs.map RunJob.runId ∧ q.insertJob run dueAt = q) ∨
    (run.runId ∉ q.jobs.map RunJob.runId ∧ q.insertJob run dueAt = { q with
      sequence := q.sequence + 1
      jobs := q.jobs ++ [⟨q.sequence + 1, run.runId, run.threadId, dueAt, .waiting⟩] }) := by
  have hany : (q.jobs.any fun job => job.runId = run.runId) = true ↔
      run.runId ∈ q.jobs.map RunJob.runId := by
    simp [List.any_eq_true, List.mem_map]
  unfold insertJob
  split_ifs with hthere
  · exact .inl ⟨hany.mp hthere, rfl⟩
  · exact .inr ⟨fun hmem => hthere (hany.mpr hmem), rfl⟩

theorem Sound.insertJob (h : q.Sound) (run : QueuedRun) (dueAt : Timestamp) :
    (q.insertJob run dueAt).Sound := by
  rcases q.insertJob_cases run dueAt with ⟨-, hsame⟩ | ⟨hnew, hinsert⟩
  · rw [hsame]
    exact h
  · rw [hinsert]
    exact {
      ids := by
        rw [List.map_append]
        exact (List.perm_append_singleton _ _).nodup_iff.mpr (List.nodup_cons.mpr ⟨hnew, h.ids⟩)
      sequences := by
        refine List.pairwise_append.mpr ⟨h.sequences, List.pairwise_singleton _ _, ?_⟩
        intro row hrow row' hrow'
        obtain rfl := List.mem_singleton.mp hrow'
        exact Nat.lt_succ_of_le (h.last row hrow)
      last := by
        intro row hrow
        rcases List.mem_append.mp hrow with hold | hlast
        · exact Nat.le_succ_of_le (h.last row hold)
        · obtain rfl := List.mem_singleton.mp hlast
          exact Nat.le_refl _
      attempts := h.attempts
      started := by
        intro attempt hattempt
        obtain ⟨row, hrow, hrest⟩ := h.started attempt hattempt
        exact ⟨row, List.mem_append_left _ hrow, hrest⟩
      active := by
        intro row hrow hstatus
        rcases List.mem_append.mp hrow with hold | hlast
        · exact h.active row hold hstatus
        · obtain rfl := List.mem_singleton.mp hlast
          cases hstatus
      threads := by
        have hold : ∀ row ∈ q.jobs ++
            [⟨q.sequence + 1, run.runId, run.threadId, dueAt, .waiting⟩],
            row.status = .active → row ∈ q.jobs := by
          intro row hrow hstatus
          rcases List.mem_append.mp hrow with hin | hlast
          · exact hin
          · obtain rfl := List.mem_singleton.mp hlast
            cases hstatus
        exact fun a ha b hb hastatus hbstatus =>
          h.threads a (hold a ha hastatus) b (hold b hb hbstatus) hastatus hbstatus }

/-- An answer is noted on its attempt, and nothing of the table changes. -/
theorem answer_cases {i : ℕ} {outcome : JobOutcome J} {now : Timestamp}
    (h : q.answer i outcome now = some q') :
    ∃ consumer run, q.running[i]? = some ⟨consumer, run, none⟩ ∧
      q'.running = q.running.set i ⟨consumer, run, some outcome⟩ ∧ q'.jobs = q.jobs ∧
      q'.sequence = q.sequence ∧ q'.consumers = q.consumers ∧ q'.disposed = q.disposed ∧
      q.deferred ⊆ q'.deferred ∧ (outcome = .thrown none → q'.runs = q.runs) ∧
      ∀ error, outcome = .thrown (some error) → ∀ row, q'.runs.get? run.runId = some row →
        row.status.isTerminal = true := by
  unfold SqliteQueue.answer at h
  split at h
  next consumer run hattempt =>
    dsimp only at h
    split at h
    · cases h
      exact ⟨consumer, run, hattempt, rfl, rfl, rfl, rfl, rfl, List.Subset.refl _, fun _ => rfl,
        fun error herror => (by cases herror)⟩
    · cases h
      exact ⟨consumer, run, hattempt, rfl, rfl, rfl, rfl, rfl,
        fun t ht => List.mem_insert_of_mem ht, nofun, fun error herror => (by cases herror)⟩
    · cases h
      exact ⟨consumer, run, hattempt, rfl, rfl, rfl, rfl, rfl, List.Subset.refl _, fun _ => rfl,
        fun error herror => (by cases herror)⟩
    next error =>
      cases h
      unfold failRun
      dsimp only
      cases hrow : q.runs.get? run.runId with
      | none =>
        refine ⟨consumer, run, hattempt, rfl, rfl, rfl, rfl, rfl, List.Subset.refl _, nofun, ?_⟩
        intro _ _ row hsome
        exact absurd (hrow.symm.trans hsome) (by simp)
      | some found =>
        dsimp only
        split_ifs with hactive
        · refine ⟨consumer, run, hattempt, rfl, rfl, rfl, rfl, rfl, List.Subset.refl _, nofun, ?_⟩
          intro _ _ row hsome
          rw [Table.get?_write, if_pos (Table.key_of_get? hrow)] at hsome
          cases hsome
          rfl
        · refine ⟨consumer, run, hattempt, rfl, rfl, rfl, rfl, rfl, List.Subset.refl _, nofun, ?_⟩
          intro _ _ row hsome
          obtain rfl := Option.some.inj (hrow.symm.trans hsome)
          cases hstatus : found.status <;> simp_all [RunStatus.isTerminal]
  · cases h

theorem Sound.answer (h : q.Sound) {i : ℕ} {outcome : JobOutcome J} {now : Timestamp}
    (hanswer : q.answer i outcome now = some q') : q'.Sound := by
  obtain ⟨consumer, run, hattempt, hrunning, hjobs, hsequence, -⟩ := answer_cases hanswer
  obtain ⟨before, after, hsplit, -, hset⟩ := MemoryRunQueue.exists_split hattempt
  rw [hset] at hrunning
  have hids : q'.running.map JobAttempt.runId = q.running.map JobAttempt.runId := by
    rw [hrunning, hsplit]
    simp [JobAttempt.runId]
  exact {
    ids := hjobs ▸ h.ids
    sequences := hjobs ▸ h.sequences
    last := by
      rw [hjobs, hsequence]
      exact h.last
    attempts := hids ▸ h.attempts
    started := by
      intro attempt hmem
      rw [hjobs]
      rw [hrunning] at hmem
      rcases List.mem_append.mp hmem with hin | hin
      · exact h.started attempt (hsplit ▸ List.mem_append_left _ hin)
      · rcases List.mem_cons.mp hin with rfl | hafter
        · exact h.started ⟨consumer, run, none⟩
            (hsplit ▸ List.mem_append_right _ List.mem_cons_self)
        · exact h.started attempt
            (hsplit ▸ List.mem_append_right _ (List.mem_cons_of_mem _ hafter))
    active := by
      rw [hjobs, hids]
      exact h.active
    threads := hjobs ▸ h.threads }

/-- The `finally` of an attempt writes its row and gives up its place. -/
theorem settle_cases {i : ℕ} (h : q.settle i = some q') :
    ∃ consumer run outcome, q.running[i]? = some ⟨consumer, run, some outcome⟩ ∧
      q' = { q.setJobStatus run.runId (if outcome.isHandled then .done else .waiting) with
        running := q.running.eraseIdx i }.wake := by
  unfold settle at h
  split at h
  next consumer run outcome hattempt =>
    cases h
    exact ⟨consumer, run, outcome, hattempt, rfl⟩
  · cases h

theorem Sound.settle (h : q.Sound) {i : ℕ} (hsettle : q.settle i = some q') : q'.Sound := by
  obtain ⟨consumer, run, outcome, hattempt, rfl⟩ := settle_cases hsettle
  obtain ⟨before, after, hsplit, herase, -⟩ := MemoryRunQueue.exists_split hattempt
  have hleft : ∀ status : JobStatus, status ≠ .active →
      ({ q.setJobStatus run.runId status with running := q.running.eraseIdx i }).Sound := by
    intro status hstatus
    have hattempts := h.attempts
    rw [hsplit, List.map_append, List.map_cons] at hattempts
    have hperm := List.nodup_cons.mp (List.perm_middle.nodup_iff.mp hattempts)
    have hother : ∀ attempt ∈ before ++ after, attempt.runId ≠ run.runId := by
      intro attempt hmem hid
      refine hperm.1 ?_
      rw [← List.map_append]
      exact List.mem_map.mpr ⟨attempt, hmem, hid⟩
    have hmember : ∀ attempt ∈ before ++ after, attempt ∈ q.running := by
      intro attempt hmem
      rw [hsplit]
      rcases List.mem_append.mp hmem with hin | hin
      · exact List.mem_append_left _ hin
      · exact List.mem_append_right _ (List.mem_cons_of_mem _ hin)
    have hactive : ∀ row' ∈ (q.setJobStatus run.runId status).jobs, row'.status = .active →
        row' ∈ q.jobs ∧ row'.runId ≠ run.runId := by
      intro row' hrow' hrowStatus
      obtain ⟨row, hrow, rfl⟩ := mem_setJobStatus.mp hrow'
      split_ifs at hrowStatus ⊢ with hid
      · exact absurd hrowStatus hstatus
      · exact ⟨hrow, hid⟩
    rw [herase]
    exact {
      ids := setJobStatus_ids h.ids _ _
      sequences := setJobStatus_sequences h.sequences _ _
      last := by
        intro row' hrow'
        obtain ⟨row, hrow, rfl⟩ := mem_setJobStatus.mp hrow'
        split_ifs <;> exact h.last row hrow
      attempts := by
        rw [List.map_append]
        exact hperm.2
      started := by
        intro attempt hmem
        obtain ⟨row, hrow, hid, hrest⟩ := h.started attempt (hmember attempt hmem)
        exact ⟨row, mem_setJobStatus.mpr ⟨row, hrow, if_neg (hid ▸ hother attempt hmem)⟩, hid,
          hrest⟩
      active := by
        intro row hrow hrowStatus
        obtain ⟨hin, hne⟩ := hactive row hrow hrowStatus
        obtain ⟨attempt, hmem, hid⟩ := List.mem_map.mp (h.active row hin hrowStatus)
        refine List.mem_map.mpr ⟨attempt, ?_, hid⟩
        rw [hsplit] at hmem
        rcases List.mem_append.mp hmem with hbefore | hrest
        · exact List.mem_append_left _ hbefore
        · rcases List.mem_cons.mp hrest with rfl | hafter
          · exact absurd hid.symm hne
          · exact List.mem_append_right _ hafter
      threads := fun a ha b hb hastatus hbstatus =>
        h.threads a (hactive a ha hastatus).1 b (hactive b hb hbstatus).1 hastatus hbstatus }
  have hstatus : (if outcome.isHandled then JobStatus.done else .waiting) ≠ .active := by
    split_ifs <;> simp
  exact (hleft _ hstatus).congr rfl rfl rfl

theorem step_sound (h : q.Sound) {e : SqliteQueueEvent J}
    (hstep : (sqliteQueue J).step q e = some q') : q'.Sound := by
  cases e with
  | enqueue run delayMs now =>
    simp only [sqliteQueue, enqueue] at hstep
    split_ifs at hstep
    cases hstep
    exact (h.insertJob run (now + delayMs)).congr rfl rfl rfl
  | consumePartitioned concurrency =>
    simp only [sqliteQueue, consumePartitioned] at hstep
    split_ifs at hstep
    cases hstep
    exact h.congr rfl rfl rfl
  | tick i now =>
    obtain ⟨consumer, -, -, ⟨-, rfl⟩ | ⟨-, -, r, hr, -, ⟨-, rfl⟩ | ⟨-, rfl⟩⟩⟩ := tick_cases h hstep
    · exact h.congr rfl rfl rfl
    · exact hr
    · exact hr.congr rfl rfl rfl
  | fire i now =>
    simp only [sqliteQueue, fire] at hstep
    split at hstep
    · cases hstep
    · split at hstep
      · cases hstep
      · split_ifs at hstep
        cases hstep
        exact h.congr rfl rfl rfl
  | answer i outcome now => exact h.answer hstep
  | settle i => exact h.settle hstep
  | retry threadId =>
    simp only [sqliteQueue, retry] at hstep
    split_ifs at hstep
    cases hstep
    exact h.congr rfl rfl rfl
  | close i force =>
    simp only [sqliteQueue, close] at hstep
    split at hstep
    · cases hstep
    · cases hstep
      exact h.congr rfl rfl rfl
  | dispose =>
    cases hstep
    unfold dispose
    split_ifs
    · exact h
    · exact h.congr rfl rfl rfl
  | runs runs =>
    cases hstep
    exact h.congr rfl rfl rfl

end SqliteQueue
end Skein
