import Mathlib.Data.List.MinMax
import Mathlib.Tactic.SplitIfs
import Skein.RunErrors
import Skein.SqliteQueueRows

/-!
# What the SQLite queue promises

Beside the rows, nobody misses a job: an open consumer with room has its microtask pending, or
its timer set for no later than every job it may claim is due. With the rows this is the
contract of the queue, over all its runs from a table that was reconciled on opening.
-/
namespace Skein.SqliteQueue
variable {J : Type*} {q q' : SqliteQueue J}

/-- Whoever is open and has room will look in time. -/
structure Armed (q : SqliteQueue J) : Prop where
  closed : q.disposed = true → ∀ consumer ∈ q.consumers, consumer.closed = true
  wakes : ∀ (i : ℕ) consumer, q.consumers[i]? = some consumer → consumer.closed = false →
    consumer.scheduled = true ∨ consumer.concurrency ≤ q.runningSize i ∨
      ∀ job ∈ q.jobs, q.claimable job = true → ∃ at' ∈ consumer.timer, at' ≤ job.dueAt

theorem notify_closed (disposed : Bool) (consumer : SqliteConsumer) :
    (notify disposed consumer).closed = consumer.closed := by
  unfold notify
  split_ifs <;> rfl

theorem notify_scheduled {consumer : SqliteConsumer} (hopen : consumer.closed = false) :
    (notify false consumer).scheduled = true := by
  unfold notify
  split_ifs with h
  · simpa [hopen] using h
  · rfl

/-- After a wake-up every open consumer has its microtask pending. -/
theorem armed_wake (h : q.disposed = true → ∀ consumer ∈ q.consumers, consumer.closed = true) :
    q.wake.Armed where
  closed := by
    intro hdisposed consumer hconsumer
    obtain ⟨old, hold, rfl⟩ := List.mem_map.mp hconsumer
    rw [notify_closed]
    exact h hdisposed old hold
  wakes := by
    intro i consumer hconsumer hopen
    simp only [wake, List.getElem?_map, Option.map_eq_some_iff] at hconsumer
    obtain ⟨old, hold, rfl⟩ := hconsumer
    rw [notify_closed] at hopen
    refine .inl ?_
    cases hdisposed : q.disposed with
    | false => exact notify_scheduled hopen
    | true =>
      have hclosed := h hdisposed old (List.mem_of_getElem? hold)
      rw [hopen] at hclosed
      cases hclosed

/-- A step that leaves the other consumers as they are, and gives them no new job to claim. -/
theorem Armed.of_quiet (h : q.Armed) (hdisposed : q'.disposed = q.disposed)
    (hconsumers : ∀ (i : ℕ) consumer, q'.consumers[i]? = some consumer → consumer.closed = false →
      q.consumers[i]? = some consumer)
    (hclosed : ∀ consumer ∈ q'.consumers, consumer.closed = true ∨ consumer ∈ q.consumers)
    (hsizes : ∀ i, q'.runningSize i = q.runningSize i)
    (hclaimable : ∀ job ∈ q'.jobs, q'.claimable job = true → job ∈ q.jobs ∧ q.claimable job = true) :
    q'.Armed where
  closed := by
    intro hgone consumer hconsumer
    rcases hclosed consumer hconsumer with hdone | hold
    · exact hdone
    · exact h.closed (hdisposed ▸ hgone) consumer hold
  wakes := by
    intro i consumer hconsumer hopen
    rw [hsizes i]
    refine (h.wakes i consumer (hconsumers i consumer hconsumer hopen) hopen).imp_right
      (Or.imp_right fun hjobs job hjob hthere => ?_)
    obtain ⟨hold, hclaims⟩ := hclaimable job hjob hthere
    exact hjobs job hold hclaims

theorem timerDelay_le {due now : ℕ} (h : now < due) : now + timerDelay due now ≤ due := by
  have hdue : now + 1 ≤ due := h
  unfold timerDelay
  omega

/-- The timer of a turn is set for no later than any job it leaves is due. -/
theorem nextDue_timer {now : Timestamp} {job : RunJob} (hnone : q.claim now = none)
    (hjob : job ∈ q.jobs) (hclaimable : q.claimable job = true) :
    ∃ at' ∈ q.nextDue.map fun due => now + timerDelay due now, at' ≤ job.dueAt := by
  have hmem : ∀ other ∈ q.jobs, q.claimable other = true →
      other.dueAt ∈ (q.jobs.filter q.claimable).map RunJob.dueAt := fun other hother hthere =>
    List.mem_map.mpr ⟨other, List.mem_filter.mpr ⟨hother, hthere⟩, rfl⟩
  have hlater : ∀ due ∈ (q.jobs.filter q.claimable).map RunJob.dueAt, now < due := by
    intro due hdue
    obtain ⟨other, hother, rfl⟩ := List.mem_map.mp hdue
    obtain ⟨hin, hthere⟩ := List.mem_filter.mp hother
    have hnot := List.find?_eq_none.mp hnone other hin
    simpa [hthere] using hnot
  obtain ⟨due, hdue⟩ := Option.ne_none_iff_exists'.mp
    (mt List.min?_eq_none_iff.mp (List.ne_nil_of_mem (hmem job hjob hclaimable)))
  obtain ⟨hin, hleast⟩ := List.min?_eq_some_iff.mp hdue
  refine ⟨now + timerDelay due now, ?_, ?_⟩
  · rw [nextDue, hdue]
    rfl
  · exact Nat.le_trans (timerDelay_le (hlater due hin)) (hleast _ (hmem job hjob hclaimable))

/-- Writing one consumer leaves the others. -/
theorem setConsumer_get? {i : ℕ} {consumer : SqliteConsumer} {j : ℕ} {found : SqliteConsumer}
    (h : (q.setConsumer i consumer).consumers[j]? = some found) :
    (j = i ∧ found = consumer) ∨ (j ≠ i ∧ q.consumers[j]? = some found) := by
  simp only [setConsumer, List.getElem?_set] at h
  split_ifs at h with hij hlt
  · exact .inl ⟨hij.symm, (Option.some.inj h).symm⟩
  · exact .inr ⟨Ne.symm hij, h⟩

/-- Writing one consumer that is closed, has its microtask pending or is as it was. -/
theorem Armed.setConsumer (h : q.Armed) {i : ℕ} {consumer : SqliteConsumer}
    (hclosed : q.disposed = true → consumer.closed = true)
    (hwakes : consumer.closed = false → consumer.scheduled = true) :
    (q.setConsumer i consumer).Armed where
  closed := by
    intro hdisposed found hfound
    rcases List.mem_or_eq_of_mem_set hfound with hold | rfl
    · exact h.closed hdisposed found hold
    · exact hclosed hdisposed
  wakes := by
    intro j found hfound hopen
    rcases setConsumer_get? hfound with ⟨rfl, rfl⟩ | ⟨-, hold⟩
    · exact .inl (hwakes hopen)
    · exact h.wakes j found hold hopen

theorem Armed.tick (h : q.Armed) (hq : q.Sound) {i : ℕ} {now : Timestamp}
    (htick : q.tick i now = some q') : q'.Armed := by
  obtain ⟨consumer, hconsumer, -, ⟨hclosed, rfl⟩ | ⟨hopen, hthere, r, -, hclaimed, hend⟩⟩ :=
    tick_cases hq htick
  · have hdone : consumer.closed = true := by
      rcases Bool.or_eq_true_iff.mp hclosed with hclosed | hdisposed
      · exact hclosed
      · exact h.closed hdisposed consumer (List.mem_of_getElem? hconsumer)
    refine h.setConsumer (fun _ => hdone) fun hopen => ?_
    rw [show consumer.closed = false from hopen] at hdone
    cases hdone
  · have hgone : r.disposed = false := hclaimed.disposed.trans hthere
    have hothers : ∀ (j : ℕ) found, j ≠ i → r.consumers[j]? = some found → found.closed = false →
        found.scheduled = true ∨ found.concurrency ≤ r.runningSize j ∨
          ∀ job ∈ r.jobs, r.claimable job = true → ∃ at' ∈ found.timer, at' ≤ job.dueAt := by
      intro j found hj hfound hfoundOpen
      rw [hclaimed.consumers] at hfound
      rcases setConsumer_get? hfound with ⟨hji, -⟩ | ⟨-, hold⟩
      · exact absurd hji hj
      · rw [hclaimed.sizes j hj]
        refine (h.wakes j found hold hfoundOpen).imp_right
          (Or.imp_right fun hjobs job hjob hthere => ?_)
        obtain ⟨hin, hclaims⟩ := hclaimed.claimable job hjob hthere
        exact hjobs job hin hclaims
    rcases hend with ⟨hfull, rfl⟩ | ⟨hnone, rfl⟩
    · refine ⟨fun hdisposed => absurd hdisposed (by simp [hgone]), fun j found hfound hfoundOpen => ?_⟩
      by_cases hj : j = i
      · subst hj
        have hsame := hfound
        rw [hclaimed.consumers] at hsame
        rcases setConsumer_get? hsame with ⟨-, rfl⟩ | ⟨hne, -⟩
        · exact .inr (.inl hfull)
        · exact absurd rfl hne
      · exact hothers j found hj hfound hfoundOpen
    · refine ⟨fun hdisposed => absurd hdisposed (by simp [SqliteQueue.setConsumer, hgone]),
        fun j found hfound hfoundOpen => ?_⟩
      rcases setConsumer_get? hfound with ⟨rfl, rfl⟩ | ⟨hj, hold⟩
      · exact .inr (.inr fun job hjob hclaimable => nextDue_timer hnone hjob hclaimable)
      · exact hothers j found hj hold hfoundOpen

theorem Armed.fire (h : q.Armed) {i : ℕ} {now : Timestamp} (hfire : q.fire i now = some q') :
    q'.Armed := by
  unfold SqliteQueue.fire at hfire
  split at hfire
  · cases hfire
  next consumer hconsumer =>
    split at hfire
    · cases hfire
    · split_ifs at hfire
      cases hfire
      have hclosed : q.disposed = true → consumer.closed = true := fun hdisposed =>
        h.closed hdisposed consumer (List.mem_of_getElem? hconsumer)
      refine h.setConsumer (fun hdisposed => ?_) fun hopen => ?_
      · rw [notify_closed]
        exact hclosed hdisposed
      · rw [notify_closed] at hopen
        cases hdisposed : q.disposed with
        | false => exact notify_scheduled hopen
        | true =>
          have hdone := hclosed hdisposed
          rw [show consumer.closed = false from hopen] at hdone
          cases hdone

theorem Armed.answer (h : q.Armed) {i : ℕ} {outcome : JobOutcome J} {now : Timestamp}
    (hanswer : q.answer i outcome now = some q') : q'.Armed := by
  obtain ⟨consumer, run, hattempt, hrunning, hjobs, -, hconsumers, hdisposed, hdeferred, -⟩ :=
    answer_cases hanswer
  obtain ⟨before, after, hsplit, -, hset⟩ := MemoryRunQueue.exists_split hattempt
  refine h.of_quiet hdisposed (fun j found hfound _ => hconsumers ▸ hfound)
    (fun found hfound => .inr (hconsumers ▸ hfound)) (fun j => ?_) fun job hjob hclaimable => ?_
  · unfold runningSize
    rw [hrunning, hset, hsplit]
    simp [List.countP_append, List.countP_cons]
  · obtain ⟨hwaiting, hactive, hfree⟩ := claimable_iff.mp hclaimable
    rw [hjobs] at hjob hactive
    exact ⟨hjob, claimable_iff.mpr ⟨hwaiting, hactive, fun hmem => hfree (hdeferred hmem)⟩⟩

theorem step_armed (h : q.Armed) (hq : q.Sound) {e : SqliteQueueEvent J}
    (hstep : (sqliteQueue J).step q e = some q') : q'.Armed := by
  cases e with
  | enqueue run delayMs now =>
    simp only [sqliteQueue, enqueue] at hstep
    split_ifs at hstep
    cases hstep
    refine armed_wake ?_
    rcases q.insertJob_cases run (now + delayMs) with ⟨-, hsame⟩ | ⟨-, hinsert⟩
    · rw [hsame]
      exact h.closed
    · rw [hinsert]
      exact h.closed
  | consumePartitioned concurrency =>
    simp only [sqliteQueue, consumePartitioned] at hstep
    split_ifs at hstep with hrefused
    cases hstep
    have hthere : q.disposed = false := Bool.eq_false_iff.mpr fun hdisposed =>
      hrefused (.inr hdisposed)
    refine ⟨fun hdisposed => absurd hdisposed (by simp [hthere]), fun i found hfound hopen => ?_⟩
    rcases Nat.lt_or_ge i q.consumers.length with hi | hi
    · rw [List.getElem?_append_left hi] at hfound
      exact h.wakes i found hfound hopen
    · rw [List.getElem?_append_right hi] at hfound
      obtain rfl := List.mem_singleton.mp (List.mem_of_getElem? hfound)
      rw [hthere]
      exact .inl (notify_scheduled rfl)
  | tick i now => exact h.tick hq hstep
  | fire i now => exact h.fire hstep
  | answer i outcome now => exact h.answer hstep
  | settle i =>
    obtain ⟨consumer, run, outcome, -, rfl⟩ := settle_cases hstep
    exact armed_wake h.closed
  | retry threadId =>
    simp only [sqliteQueue, retry] at hstep
    split_ifs at hstep
    cases hstep
    exact armed_wake h.closed
  | close i force =>
    simp only [sqliteQueue, close] at hstep
    split at hstep
    · cases hstep
    · cases hstep
      exact h.setConsumer (fun _ => rfl) fun hopen => (by cases hopen)
  | dispose =>
    cases hstep
    unfold dispose
    split_ifs
    · exact h
    · refine ⟨fun _ found hfound => ?_, fun i found hfound hopen => ?_⟩
      · obtain ⟨old, -, rfl⟩ := List.mem_map.mp hfound
        rfl
      · obtain ⟨old, -, rfl⟩ := List.mem_map.mp (List.mem_of_getElem? hfound)
        cases hopen
  | runs runs =>
    cases hstep
    exact ⟨h.closed, h.wakes⟩

/-- Where a row of the next table comes from. -/
inductive RowChange (q : SqliteQueue J) : SqliteQueueEvent J → RunJob → Prop
  | same {e : SqliteQueueEvent J} {job : RunJob} (hjob : job ∈ q.jobs) : RowChange q e job
  | inserted {run : QueuedRun} {delayMs : ℕ} {now : Timestamp} {job : RunJob}
      (hnew : job.runId ∉ q.jobs.map RunJob.runId) (hwaiting : job.status = .waiting) :
      RowChange q (.enqueue run delayMs now) job
  | claimed {i : ℕ} {now : Timestamp} {job : RunJob} (hjob : job ∈ q.jobs)
      (hclaimable : q.claimable job = true)
      (hfirst : ∀ other ∈ q.jobs, other.status = .waiting → other.threadId = job.threadId →
        other.dueAt ≤ now → job.sequence ≤ other.sequence) :
      RowChange q (.tick i now) { job with status := .active }
  | settled {i : ℕ} {attempt : JobAttempt J} {outcome : JobOutcome J} {job : RunJob}
      (hattempt : q.running[i]? = some attempt) (houtcome : attempt.outcome = some outcome)
      (hjob : job ∈ q.jobs) (hid : job.runId = attempt.runId) :
      RowChange q (.settle i)
        { job with status := if outcome.isHandled then .done else .waiting }

theorem enqueue_cases {run : QueuedRun} {delayMs : ℕ} {now : Timestamp}
    (h : q.enqueue run delayMs now = some q') :
    q'.running = q.running ∧
      ((run.runId ∈ q.jobs.map RunJob.runId ∧ q'.jobs = q.jobs) ∨
        (run.runId ∉ q.jobs.map RunJob.runId ∧ q'.jobs = q.jobs ++
          [⟨q.sequence + 1, run.runId, run.threadId, now + delayMs, .waiting⟩])) := by
  simp only [enqueue] at h
  split_ifs at h
  cases h
  rcases q.insertJob_cases run (now + delayMs) with ⟨hthere, hsame⟩ | ⟨hnew, hinsert⟩
  · rw [hsame]
    exact ⟨rfl, .inl ⟨hthere, rfl⟩⟩
  · rw [hinsert]
    exact ⟨rfl, .inr ⟨hnew, rfl⟩⟩

theorem step_rows (hq : q.Sound) {e : SqliteQueueEvent J}
    (hstep : (sqliteQueue J).step q e = some q') :
    (∀ job' ∈ q'.jobs, RowChange q e job') ∧
      q.jobs.map RunJob.identity <+: q'.jobs.map RunJob.identity := by
  have hquiet : ∀ {e : SqliteQueueEvent J}, q'.jobs = q.jobs →
      (∀ job' ∈ q'.jobs, RowChange q e job') ∧
        q.jobs.map RunJob.identity <+: q'.jobs.map RunJob.identity := by
    intro e hjobs
    rw [hjobs]
    exact ⟨fun job' hjob' => .same hjob', List.prefix_refl _⟩
  cases e with
  | enqueue run delayMs now =>
    obtain ⟨-, ⟨-, hsame⟩ | ⟨hnew, hjobs⟩⟩ := enqueue_cases hstep
    · exact hquiet hsame
    · rw [hjobs]
      refine ⟨fun job' hjob' => ?_, ?_⟩
      · rcases List.mem_append.mp hjob' with hold | hlast
        · exact .same hold
        · obtain rfl := List.mem_singleton.mp hlast
          exact .inserted hnew rfl
      · exact List.map_append ▸ List.prefix_append _ _
  | consumePartitioned concurrency =>
    simp only [sqliteQueue, consumePartitioned] at hstep
    split_ifs at hstep
    cases hstep
    exact hquiet rfl
  | tick i now =>
    obtain ⟨consumer, -, -, ⟨-, rfl⟩ | ⟨-, -, r, -, hclaimed, hend⟩⟩ := tick_cases hq hstep
    · exact hquiet rfl
    · have hjobs : q'.jobs = r.jobs := by
        rcases hend with ⟨-, rfl⟩ | ⟨-, rfl⟩ <;> rfl
      rw [hjobs, hclaimed.identities]
      refine ⟨fun job' hjob' => ?_, List.prefix_refl _⟩
      rcases hclaimed.rows job' hjob' with hold | ⟨row, hrow, hclaimable, rfl, hfirst⟩
      · exact .same hold
      · exact .claimed hrow hclaimable hfirst
  | fire i now =>
    simp only [sqliteQueue, fire] at hstep
    split at hstep
    · cases hstep
    · split at hstep
      · cases hstep
      · split_ifs at hstep
        cases hstep
        exact hquiet rfl
  | answer i outcome now =>
    obtain ⟨consumer, run, -, -, hjobs, -⟩ := answer_cases hstep
    exact hquiet hjobs
  | settle i =>
    obtain ⟨consumer, run, outcome, hattempt, rfl⟩ := settle_cases hstep
    refine ⟨fun job' hjob' => ?_, ?_⟩
    · obtain ⟨job, hjob, rfl⟩ := mem_setJobStatus.mp hjob'
      split_ifs with hid hhandled
      · have hchange := RowChange.settled hattempt rfl hjob hid
        rwa [if_pos hhandled] at hchange
      · have hchange := RowChange.settled hattempt rfl hjob hid
        rwa [if_neg hhandled] at hchange
      · exact .same hjob
    · have hsame := q.setJobStatus_map run.runId (if outcome.isHandled then .done else .waiting)
        RunJob.identity fun _ => rfl
      exact hsame ▸ List.prefix_refl _
  | retry threadId =>
    simp only [sqliteQueue, retry] at hstep
    split_ifs at hstep
    cases hstep
    exact hquiet rfl
  | close i force =>
    simp only [sqliteQueue, close] at hstep
    split at hstep
    · cases hstep
    · cases hstep
      exact hquiet rfl
  | dispose =>
    cases hstep
    refine hquiet ?_
    unfold dispose
    split_ifs <;> rfl
  | runs runs =>
    cases hstep
    exact hquiet rfl

/-- The consumer has no room, or nothing that is due may be claimed. -/
def Satisfied (q : SqliteQueue J) (i : ℕ) (consumer : SqliteConsumer) (now : Timestamp) : Prop :=
  consumer.concurrency ≤ q.runningSize i ∨
    ∀ job ∈ q.jobs, q.claimable job = true → now < job.dueAt

/-- What holds in every state: a job row for a run, active exactly while its one attempt is in
progress, no two of them active on a thread; and an open consumer with room for a due job gets
to it by its microtask, or by its timer and its microtask. -/
structure Contract (q : SqliteQueue J) : Prop where
  jobs : (q.jobs.map RunJob.runId).Nodup
  attempts : (q.running.map JobAttempt.runId).Nodup
  active : ∀ job ∈ q.jobs, job.status = .active ↔ job.runId ∈ q.running.map JobAttempt.runId
  rows : ∀ attempt ∈ q.running, attempt.runId ∈ q.jobs.map RunJob.runId
  threads : ∀ a ∈ q.jobs, ∀ b ∈ q.jobs, a.status = .active → b.status = .active →
    a.threadId = b.threadId → a = b
  /-- Until it is disposed the queue takes every run in. -/
  accepts : q.disposed = false → ∀ run delayMs now, ∃ q',
    (sqliteQueue J).step q (.enqueue run delayMs now) = some q'
  served : ∀ (i : ℕ) consumer now, q.consumers[i]? = some consumer → consumer.closed = false →
    Satisfied q i consumer now ∨ ∃ events q', (events = [.tick i now] ∨
      events = [.fire i now, .tick i now]) ∧ (sqliteQueue J).run q events = some q' ∧
      Satisfied q' i consumer now

/-- What every step keeps to. -/
structure StepContract (q q' : SqliteQueue J) (e : SqliteQueueEvent J) : Prop where
  /-- A row keeps its sequence and the other columns, and a job that is done stays done. -/
  kept : ∀ job ∈ q.jobs, ∃ job' ∈ q'.jobs, job'.identity = job.identity ∧
    (job.status = .done → job'.status = .done)
  /-- A job becomes done by an attempt on it that was not answered `false`. -/
  finished : ∀ job ∈ q.jobs, job.status ≠ .done → ∀ job' ∈ q'.jobs, job'.runId = job.runId →
    job'.status = .done → ∃ i attempt outcome, e = .settle i ∧ q.running[i]? = some attempt ∧
      attempt.runId = job.runId ∧ attempt.outcome = some outcome ∧ outcome ≠ .busy
  /-- A job that was answered `false` is waiting again. -/
  returned : ∀ i attempt, e = .settle i → q.running[i]? = some attempt →
    attempt.outcome = some .busy → ∀ job' ∈ q'.jobs, job'.runId = attempt.runId →
      job'.status = .waiting
  /-- An exception leaves the row of the run terminal. -/
  thrown : ∀ i error now attempt, e = .answer i (.thrown error) now →
    q.running[i]? = some attempt → ∀ row, q'.runs.get? attempt.runId = some row →
      row.status.isTerminal = true
  /-- A job starts before the later due ones of its thread. -/
  ordered : ∀ job ∈ q.jobs, job.status = .waiting → ∀ job' ∈ q'.jobs, job'.runId = job.runId →
    job'.status = .active → ∃ i now, e = .tick i now ∧ ∀ other ∈ q.jobs,
      other.status = .waiting → other.threadId = job.threadId → other.dueAt ≤ now →
        job.sequence ≤ other.sequence
  /-- Enqueuing a new run leaves a waiting job for it, the last of the sequence, -/
  inserted : ∀ run delayMs now, e = .enqueue run delayMs now →
    run.runId ∉ q.jobs.map RunJob.runId → q'.running = q.running ∧ ∃ job : RunJob,
      job.runId = run.runId ∧ job.threadId = run.threadId ∧ job.dueAt = now + delayMs ∧
      job.status = .waiting ∧ (∀ other ∈ q.jobs, other.sequence < job.sequence) ∧
      q'.jobs = q.jobs ++ [job]
  /-- and enqueuing a run again changes neither the jobs nor the attempts. -/
  again : ∀ run delayMs now, e = .enqueue run delayMs now →
    run.runId ∈ q.jobs.map RunJob.runId → q'.jobs = q.jobs ∧ q'.running = q.running

/-- An exception that `toRunError` throws on ends an attempt only where the row of the run is
terminal already, or gone. -/
def Described (q : SqliteQueue J) (e : SqliteQueueEvent J) : Prop :=
  ∀ i now attempt, e = .answer i (.thrown none) now → q.running[i]? = some attempt →
    attempt.outcome = none → ∀ row, q.runs.get? attempt.runId = some row →
      row.status.isTerminal = true

/-- What becomes of a row that was there: it stays, it is claimed, or its attempt settles. -/
theorem RowChange.of_job (hq : q.Sound) {e : SqliteQueueEvent J} {job job' : RunJob}
    (h : RowChange q e job') (hjob : job ∈ q.jobs) (hid : job'.runId = job.runId) :
    job' = job ∨
    (∃ i now, e = .tick i now ∧ job.status = .waiting ∧ job' = { job with status := .active } ∧
      ∀ other ∈ q.jobs, other.status = .waiting → other.threadId = job.threadId →
        other.dueAt ≤ now → job.sequence ≤ other.sequence) ∨
    (∃ i attempt outcome, e = .settle i ∧ q.running[i]? = some attempt ∧
      attempt.runId = job.runId ∧ attempt.outcome = some outcome ∧ job.status = .active ∧
      job' = { job with status := if outcome.isHandled then .done else .waiting }) := by
  cases h with
  | same hold => exact .inl (hq.eq_of_runId hold hjob hid)
  | inserted hnew hwaiting => exact absurd (List.mem_map.mpr ⟨job, hjob, hid.symm⟩) hnew
  | claimed hrow hclaimable hfirst =>
    obtain rfl := hq.eq_of_runId hrow hjob hid
    exact .inr (.inl ⟨_, _, rfl, (claimable_iff.mp hclaimable).1, rfl, hfirst⟩)
  | settled hattempt houtcome hrow hrowId =>
    obtain rfl := hq.eq_of_runId hrow hjob hid
    obtain ⟨row, hstarted, hstartedId, -, hactive⟩ :=
      hq.started _ (List.mem_of_getElem? hattempt)
    rw [hq.eq_of_runId hstarted hrow (hstartedId.trans hrowId.symm)] at hactive
    exact .inr (.inr ⟨_, _, _, rfl, hattempt, hrowId.symm, houtcome, hactive, rfl⟩)

theorem step_contract (hq : q.Sound) {e : SqliteQueueEvent J} (hdescribed : q.Described e)
    (hstep : (sqliteQueue J).step q e = some q') : StepContract q q' e := by
  obtain ⟨hchange, hids⟩ := step_rows hq hstep
  exact {
    kept := by
      intro job hjob
      obtain ⟨job', hjob', hsame⟩ := List.mem_map.mp
        (hids.subset (List.mem_map.mpr ⟨job, hjob, rfl⟩))
      refine ⟨job', hjob', hsame, fun hdone => ?_⟩
      have hid : job'.runId = job.runId := congrArg (fun row => row.2.1) hsame
      rcases (hchange job' hjob').of_job hq hjob hid with rfl | ⟨_, _, -, hwaiting, -⟩ |
        ⟨_, _, _, -, -, -, -, hactive, -⟩
      · exact hdone
      · rw [hwaiting] at hdone
        cases hdone
      · rw [hactive] at hdone
        cases hdone
    finished := by
      intro job hjob hundone job' hjob' hid hdone
      rcases (hchange job' hjob').of_job hq hjob hid with rfl | ⟨_, _, -, -, rfl, -⟩ |
        ⟨i, attempt, outcome, he, hattempt, hattemptId, houtcome, -, rfl⟩
      · exact absurd hdone hundone
      · cases hdone
      · refine ⟨i, attempt, outcome, he, hattempt, hattemptId, houtcome, ?_⟩
        rintro rfl
        cases hdone
    returned := by
      rintro i attempt rfl hattempt houtcome job' hjob' hid
      obtain ⟨consumer, run, outcome, hfound, rfl⟩ := settle_cases hstep
      obtain rfl := Option.some.inj (hattempt.symm.trans hfound)
      cases houtcome
      obtain ⟨job, hjob, rfl⟩ := mem_setJobStatus.mp hjob'
      by_cases hsame : job.runId = run.runId
      · rw [if_pos hsame]
        rfl
      · rw [if_neg hsame] at hid
        exact absurd hid hsame
    thrown := by
      rintro i error now attempt rfl hattempt row hrow
      have hanswer : q.answer i (.thrown error) now = some q' := hstep
      obtain ⟨consumer, run, hfound, -, -, -, -, -, -, hkept, hthrown⟩ := answer_cases hanswer
      obtain rfl := Option.some.inj (hattempt.symm.trans hfound)
      cases error with
      | none => exact hdescribed i now _ rfl hfound rfl row (hkept rfl ▸ hrow)
      | some error => exact hthrown error rfl row hrow
    ordered := by
      intro job hjob hwaiting job' hjob' hid hstatus
      rcases (hchange job' hjob').of_job hq hjob hid with rfl | ⟨i, now, he, -, -, hfirst⟩ |
        ⟨_, _, _, -, -, -, -, hactive, -⟩
      · rw [hwaiting] at hstatus
        cases hstatus
      · exact ⟨i, now, he, hfirst⟩
      · rw [hwaiting] at hactive
        cases hactive
    inserted := by
      rintro run delayMs now rfl hnew
      obtain ⟨hrunning, ⟨hthere, -⟩ | ⟨-, hjobs⟩⟩ := enqueue_cases hstep
      · exact absurd hthere hnew
      · refine ⟨hrunning, _, rfl, rfl, rfl, rfl, fun other hother => ?_, hjobs⟩
        exact Nat.lt_succ_of_le (hq.last other hother)
    again := by
      rintro run delayMs now rfl hthere
      obtain ⟨hrunning, ⟨-, hjobs⟩ | ⟨hnew, -⟩⟩ := enqueue_cases hstep
      · exact ⟨hjobs, hrunning⟩
      · exact absurd hthere hnew }

/-- After its turn an open consumer is satisfied. -/
theorem tick_satisfied (hq : q.Sound) (harmed : q.Armed) {i : ℕ} {consumer : SqliteConsumer}
    (now : Timestamp) (hconsumer : q.consumers[i]? = some consumer)
    (hopen : consumer.closed = false) (hscheduled : consumer.scheduled = true) :
    ∃ q', q.tick i now = some q' ∧ Satisfied q' i consumer now := by
  have hthere : q.disposed = false := Bool.eq_false_iff.mpr fun hdisposed => by
    have hclosed := harmed.closed hdisposed consumer (List.mem_of_getElem? hconsumer)
    rw [hopen] at hclosed
    cases hclosed
  obtain ⟨q', htick⟩ : ∃ q', q.tick i now = some q' := by
    unfold tick
    simp only [hconsumer, hscheduled, if_true]
    split_ifs <;> exact ⟨_, rfl⟩
  refine ⟨q', htick, ?_⟩
  obtain ⟨found, hfound, -, ⟨hclosed, -⟩ | ⟨-, -, r, -, -, hend⟩⟩ := tick_cases hq htick
  · obtain rfl := Option.some.inj (hconsumer.symm.trans hfound)
    simp [hopen, hthere] at hclosed
  · obtain rfl := Option.some.inj (hconsumer.symm.trans hfound)
    rcases hend with ⟨hfull, rfl⟩ | ⟨hnone, rfl⟩
    · exact .inl hfull
    · refine .inr fun job hjob hclaimable => ?_
      have hnot := List.find?_eq_none.mp hnone job hjob
      have hclaims : r.claimable job = true := hclaimable
      simpa [hclaims] using hnot

theorem contract_of_invariants (hq : q.Sound) (harmed : q.Armed) : q.Contract where
  jobs := hq.ids
  attempts := hq.attempts
  active := by
    intro job hjob
    refine ⟨hq.active job hjob, fun hmem => ?_⟩
    obtain ⟨attempt, hattempt, hid⟩ := List.mem_map.mp hmem
    obtain ⟨row, hrow, hrowId, -, hstatus⟩ := hq.started attempt hattempt
    rwa [hq.eq_of_runId hrow hjob (hrowId.trans hid)] at hstatus
  rows := by
    intro attempt hattempt
    obtain ⟨row, hrow, hid, -⟩ := hq.started attempt hattempt
    exact List.mem_map.mpr ⟨row, hrow, hid⟩
  threads := hq.threads
  accepts := by
    intro hthere run delayMs now
    exact ⟨_, by simp only [sqliteQueue, enqueue, hthere]; rfl⟩
  served := by
    intro i consumer now hconsumer hopen
    rcases harmed.wakes i consumer hconsumer hopen with hscheduled | hfull | htimer
    · obtain ⟨q', htick, hsatisfied⟩ := tick_satisfied hq harmed now hconsumer hopen
        hscheduled
      exact .inr ⟨[.tick i now], q', .inl rfl, by simp [Machine.run, sqliteQueue, htick],
        hsatisfied⟩
    · exact .inl (.inl hfull)
    · by_cases hnothing : ∀ job ∈ q.jobs, q.claimable job = true → now < job.dueAt
      · exact .inl (.inr hnothing)
      · obtain ⟨job, hjob, hclaimable, hdue⟩ : ∃ job ∈ q.jobs, q.claimable job = true ∧
            job.dueAt ≤ now := by
          by_contra hnone
          refine hnothing fun job hjob hclaimable => Nat.lt_of_not_le fun hdue => ?_
          exact hnone ⟨job, hjob, hclaimable, hdue⟩
        obtain ⟨at', htimer, hat⟩ := htimer job hjob hclaimable
        have hthere : q.disposed = false := Bool.eq_false_iff.mpr fun hdisposed => by
          have hclosed := harmed.closed hdisposed consumer (List.mem_of_getElem? hconsumer)
          rw [hopen] at hclosed
          cases hclosed
        have hfire : q.fire i now = some (q.setConsumer i
            (notify q.disposed { consumer with timer := none })) := by
          unfold fire
          rw [hconsumer]
          simp only [Option.mem_def.mp htimer, if_pos (Nat.le_trans hat hdue)]
        have hsound : (q.setConsumer i
            (notify q.disposed { consumer with timer := none })).Sound := hq.congr rfl rfl rfl
        have hlt : i < q.consumers.length := (List.getElem?_eq_some_iff.mp hconsumer).1
        have hwoken : (q.setConsumer i
            (notify q.disposed { consumer with timer := none })).consumers[i]? =
              some (notify q.disposed { consumer with timer := none }) := by
          simp [SqliteQueue.setConsumer, hlt]
        obtain ⟨q', htick, hsatisfied⟩ := tick_satisfied hsound (harmed.fire hfire) now
          hwoken (by rw [notify_closed]; exact hopen)
          (by rw [hthere]; exact notify_scheduled hopen)
        refine .inr ⟨[.fire i now, .tick i now], q', .inr rfl, ?_, ?_⟩
        · simp [Machine.run, sqliteQueue, hfire, htick]
        · have hsame : (notify q.disposed { consumer with timer := none }).concurrency =
              consumer.concurrency := by
            unfold notify
            split_ifs <;> rfl
          unfold Satisfied at hsatisfied ⊢
          rwa [hsame] at hsatisfied

/-- A step that misses the condition leaves the row of its run active. -/
theorem not_stepContract {e : SqliteQueueEvent J} (h : ¬ q.Described e) :
    ∃ q', (sqliteQueue J).step q e = some q' ∧ ¬ StepContract q q' e := by
  simp only [Described, not_forall] at h
  obtain ⟨i, now, attempt, rfl, hattempt, hopen, row, hrow, hactive⟩ := h
  obtain ⟨consumer, run, outcome⟩ := attempt
  obtain rfl : outcome = none := hopen
  have hanswer : q.answer i (.thrown none) now =
      some { q with running := q.running.set i ⟨consumer, run, some (.thrown none)⟩ } := by
    simp only [SqliteQueue.answer, hattempt]
  exact ⟨_, hanswer, fun hcontract => hactive (hcontract.thrown i none now _ rfl hattempt row hrow)⟩

theorem opened_invariants {q : SqliteQueue J} (hopened : q.Opened) : q.Sound ∧ q.Armed := by
  obtain ⟨hids, hsequences, hlast, hidle, hconsumers, hrunning, -, -⟩ := hopened
  refine ⟨⟨hids, hsequences, hlast, ?_, ?_, ?_, ?_⟩, ?_, ?_⟩
  · simp [hrunning]
  · simp [hrunning]
  · exact fun job hjob hactive => absurd hactive (hidle job hjob)
  · exact fun job hjob _ _ hactive => absurd hactive (hidle job hjob)
  · simp [hconsumers]
  · simp [hconsumers]

/-- The state and the step at hand keep to the contract. -/
def KeepsContract (q : SqliteQueue J) (e : SqliteQueueEvent J) : Prop :=
  q.Contract ∧ ∀ q', (sqliteQueue J).step q e = some q' → StepContract q q' e

/-- A run of a busy thread is put back, tried again and ended by an exception. -/
def retriedEvents : List (SqliteQueueEvent ℕ) :=
  [.consumePartitioned 1, .enqueue ⟨.of "run", .of "t"⟩ 5 0, .tick 0 0, .fire 0 5, .tick 0 5,
    .answer 0 .busy 6, .settle 0, .tick 0 6, .retry (.of "t"), .tick 0 56,
    .answer 0 (.thrown (some 7)) 60, .settle 0]

def retriedQueue : SqliteQueue ℕ := ((sqliteQueue ℕ).run {} retriedEvents).getD {}

theorem opened_empty : (({} : SqliteQueue J)).Opened := by
  constructor <;> simp

/-- The run that is queued, pending. -/
def pendingRun : Run RunError where
  runId := .of "run"
  threadId := .of "t"
  assistantId := .of "agent"
  createdAt := 0
  updatedAt := 0
  status := .pending
  metadata := .plain "nothing"
  multitaskStrategy := none

/-- Its attempt throws an error whose `name` is a getter that throws. -/
def hostileEvents : List (SqliteQueueEvent RunError) :=
  [.runs ((∅ : Table RunId (Run RunError) Run.runId).write pendingRun), .consumePartitioned 1,
    .enqueue ⟨.of "run", .of "t"⟩ 0 0, .tick 0 0,
    .answer 0 (.thrown (ThrownValues.toRunError ThrownValues.hostile true false)) 6, .settle 0]

/-- The queue as it is when the attempt throws. -/
def claimedQueue : SqliteQueue RunError :=
  ((sqliteQueue RunError).run {} (hostileEvents.take 4)).getD {}

end Skein.SqliteQueue
