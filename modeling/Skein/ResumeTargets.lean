import Skein.CopiedThreads
import Skein.RunRows
import Skein.ThreadShownBusy

/-!
# Whether a resume still owns its target

`verifyResumeTarget` is asked when a resume is admitted and again before its graph is
invoked. Between the two the thread's runs may change in any way. A thread's other runs are
compared by their creation, so a run that only waits behind the resume counts like one that
has executed.
-/
namespace Skein

/-- What a resume expects; of the checkpoint its namespace and identifier. -/
structure ResumeTarget where
  expectedRunId : Option RunId := none
  checkpointNs : Option String := none
  checkpointId : Option String := none
  interruptIds : List String := []

/-- The store, the newest checkpoint of each thread and namespace, and what has been created
and executed since the history began. -/
structure ResumeWorld (J : Type*) where
  store : MemorySkeinStore J
  tips : ThreadId → String → Option String
  created : List (RunId × Timestamp) := []
  executed : List ThreadId := []

/-- What three reads of `verifyResumeTarget` find, each at its own instant. -/
structure ResumeReads (J : Type*) where
  listed : ResumeWorld J
  tip : ResumeWorld J
  shown : ResumeWorld J

section Verify
variable {J : Type*} (pendingIds : J → List String) (threadId : ThreadId)

def staleTarget : Thrown :=
  .http (.conflict "The resume target no longer owns the interrupted checkpoint."
    (some "stale_resume"))

def staleInterrupt : Thrown :=
  .http (.conflict "The expected interrupt is no longer pending." (some "stale_resume"))

/-- The order of the check: the newer run first, the larger identifier among equally new
ones. -/
def Run.notOlder (a b : Run J) : Prop :=
  b.createdAt < a.createdAt ∨ (a.createdAt = b.createdAt ∧ ¬a.runId.value < b.runId.value)

instance : DecidableRel (Run.notOlder (J := J)) := fun _ _ => inferInstanceAs (Decidable (_ ∨ _))

/-- The thread's runs but `runId`, the newest first. -/
def newestFirst (store : MemorySkeinStore J) (runId : String) : List (Run J) :=
  ((store.runsListByThread threadId).filter fun run => run.runId.value ≠ runId).insertionSort
    Run.notOlder

/-- `verifyResumeTarget`; `runId` is empty where the resume is yet to be admitted. -/
def verifyResumeTarget (runId : String) (target : ResumeTarget) (reads : ResumeReads J) :
    Except Thrown Unit :=
  match target.expectedRunId with
  | none => .ok ()
  | some expected =>
    let head := (newestFirst threadId reads.listed.store runId).head?
    let current := reads.tip.tips threadId (target.checkpointNs.getD "")
    if (head.all fun run => run.runId ≠ expected ∨ run.status ≠ .interrupted) ∨
        (target.checkpointId.all fun id => id = "" ∨ current ≠ some id) then
      .error staleTarget
    else
      let pending := ((reads.shown.store.threads.get? threadId).map Thread.interrupts).elim []
        pendingIds
      if target.interruptIds.any fun id => id ∉ pending then .error staleInterrupt
      else .ok ()

end Verify

/-- A store call, or an execution on a thread. -/
inductive ResumeAction (J : Type*)
  /-- A run creation without an operation key. -/
  | insert (create : RunCreate J) (requireNoActiveRun : Bool)
    (ifThreadStatus : Option (List ThreadStatus)) (uuid : RunId) (now : Timestamp)
  /-- A run creation with one. -/
  | admitRun (input : RunAdmission J) (draws : AdmissionDraws)
  | setStatus (runId : RunId) (status : RunStatus) (error : Option J) (now : Timestamp)
  | delete (runId : RunId)
  /-- A patch of a thread row outside an execution, its busy mirror for one. -/
  | patch (threadId : ThreadId) (patch : MemorySkeinStore.ThreadUpdate J) (now : Timestamp)
  /-- A run executes: it writes checkpoints, and its mirror patches the row. -/
  | execute (threadId : ThreadId) (tips : String → Option String)
    (patch : MemorySkeinStore.ThreadUpdate J) (now : Timestamp)

section Steps
variable {J : Type*} [WireJson J]

/-- No creation displaces a run, and only an execution changes the interrupts. -/
def resumeStep (w : ResumeWorld J) : ResumeAction J → Option (ResumeWorld J)
  | .insert create requireNoActiveRun ifThreadStatus uuid now =>
    some { w with
      store := (w.store.guardedInsert create requireNoActiveRun ifThreadStatus uuid now).2
      created := w.created ++ [(create.runId.getD uuid, now)] }
  | .admitRun input draws =>
    if input.displacements ≠ [] then none
    else some { w with
      store := (w.store.admitRun input draws).2
      created := w.created ++ [(input.run.runId.getD draws.runUuid, draws.now)] }
  | .setStatus runId status error now =>
    some { w with store := (w.store.runsSetStatus runId status error now).2 }
  | .delete runId => some { w with store := w.store.runsDelete runId }
  | .patch threadId patch now =>
    if patch.interrupts.isSome then none
    else some { w with store := (w.store.threadsUpdate threadId patch now).2 }
  | .execute threadId tips patch now =>
    some { w with
      store := (w.store.threadsUpdate threadId patch now).2
      tips := Function.update w.tips threadId tips
      executed := w.executed ++ [threadId] }

def resumes : Machine (ResumeWorld J) (ResumeAction J) where
  step := resumeStep

end Steps

section Newest
variable {J : Type*} {store : MemorySkeinStore J} {threadId : ThreadId} {runId : String}

theorem mem_runsListByThread {run : Run J} :
    run ∈ store.runsListByThread threadId ↔
      store.runs.get? run.runId = some run ∧ run.threadId = threadId := by
  simp [MemorySkeinStore.runsListByThread, Table.mem_values_iff]

theorem mem_newestFirst {run : Run J} :
    run ∈ newestFirst threadId store runId ↔
      store.runs.get? run.runId = some run ∧ run.threadId = threadId ∧
        run.runId.value ≠ runId := by
  simp [newestFirst, List.mem_insertionSort, mem_runsListByThread, and_assoc]

theorem notOlder_iff {a b : Run J} : a.notOlder b ↔ b.recency ≤ a.recency := by
  rw [Run.notOlder, ← not_lt, recency_lt_iff, not_or, not_and]
  constructor
  · rintro (hlt | ⟨heq, hname⟩)
    · exact ⟨not_lt.mpr hlt.le, fun h => absurd h hlt.ne'⟩
    · exact ⟨not_lt.mpr heq.ge, fun _ => hname⟩
  · rintro ⟨hle, hname⟩
    rcases (not_lt.mp hle).lt_or_eq with hlt | heq
    · exact .inl hlt
    · exact .inr ⟨heq.symm, hname heq.symm⟩

instance : Std.Total (Run.notOlder (J := J)) :=
  ⟨fun a b => by simpa [notOlder_iff] using le_total b.recency a.recency⟩

instance : IsTrans (Run J) Run.notOlder :=
  ⟨fun _ _ _ hab hbc => notOlder_iff.mpr
    ((notOlder_iff.mp hbc).trans (notOlder_iff.mp hab))⟩

/-- The first of the list is a run that none is newer than. -/
theorem recency_le_of_head {head run : Run J}
    (h : (newestFirst threadId store runId).head? = some head)
    (hrun : run ∈ newestFirst threadId store runId) : run.recency ≤ head.recency := by
  have hsorted : (newestFirst threadId store runId).Pairwise Run.notOlder :=
    List.pairwise_insertionSort _ _
  obtain ⟨rest, hlist⟩ := List.head?_eq_some_iff.mp h
  rw [hlist] at hsorted hrun
  rcases List.mem_cons.mp hrun with rfl | hrest
  · exact le_rfl
  · exact notOlder_iff.mp (List.rel_of_pairwise_cons hsorted hrest)

/-- A run is first exactly where it is listed and no other is newer. -/
theorem head_newestFirst_iff {row : Run J} :
    (newestFirst threadId store runId).head? = some row ↔
      row ∈ newestFirst threadId store runId ∧
        ∀ run ∈ newestFirst threadId store runId, run.recency ≤ row.recency := by
  constructor
  · intro h
    exact ⟨List.mem_of_mem_head? h, fun run hrun => recency_le_of_head h hrun⟩
  · rintro ⟨hmem, hall⟩
    cases hhead : (newestFirst threadId store runId).head? with
    | none =>
      rw [List.head?_eq_none_iff.mp hhead] at hmem
      cases hmem
    | some head =>
      have hsame : head.recency = row.recency :=
        le_antisymm (hall head (List.mem_of_mem_head? hhead)) (recency_le_of_head hhead hmem)
      have hid : head.runId = row.runId := by
        have hname := congrArg (fun r : ℕ ×ₗ String => (ofLex r).2) hsame
        exact Id.eq_of_value hname
      have hrow := (mem_newestFirst.mp hmem).1
      rw [← hid, (mem_newestFirst.mp (List.mem_of_mem_head? hhead)).1] at hrow
      exact congrArg some (Option.some.inj hrow)

end Newest

section Spec
variable {J : Type*} {pendingIds : J → List String} {threadId : ThreadId}

/-- The interrupts of the thread's row. -/
def pendingInterrupts (pendingIds : J → List String) (threadId : ThreadId)
    (store : MemorySkeinStore J) : List String :=
  ((store.threads.get? threadId).map Thread.interrupts).elim [] pendingIds

/-- The target's checkpoint is the newest of its namespace. -/
def ResumeTarget.Current (target : ResumeTarget) (threadId : ThreadId) (w : ResumeWorld J) : Prop :=
  ∃ id, id ≠ "" ∧ target.checkpointId = some id ∧
    w.tips threadId (target.checkpointNs.getD "") = some id

/-- The check passes where the expected run is the newest of the others and interrupted, its
checkpoint is current, and its interrupts are pending. -/
theorem verifyResumeTarget_ok {runId : String} {target : ResumeTarget} {expected : RunId}
    (htarget : target.expectedRunId = some expected) (reads : ResumeReads J) :
    verifyResumeTarget pendingIds threadId runId target reads = .ok () ↔
      (∃ row, (newestFirst threadId reads.listed.store runId).head? = some row ∧
        row.runId = expected ∧ row.status = .interrupted) ∧
      target.Current threadId reads.tip ∧
      ∀ id ∈ target.interruptIds, id ∈ pendingInterrupts pendingIds threadId reads.shown.store := by
  have howns : ¬((newestFirst threadId reads.listed.store runId).head?.all fun run =>
      run.runId ≠ expected ∨ run.status ≠ .interrupted) = true ↔
      ∃ row, (newestFirst threadId reads.listed.store runId).head? = some row ∧
        row.runId = expected ∧ row.status = .interrupted := by
    cases (newestFirst threadId reads.listed.store runId).head? with
    | none => simp
    | some row => simp [not_or]
  have hcurrent : ¬(target.checkpointId.all fun id =>
      id = "" ∨ reads.tip.tips threadId (target.checkpointNs.getD "") ≠ some id) = true ↔
      target.Current threadId reads.tip := by
    unfold ResumeTarget.Current
    cases target.checkpointId with
    | none => simp
    | some id => simp [not_or]
  rw [← howns, ← hcurrent, ← and_assoc, ← not_or]
  simp only [verifyResumeTarget, htarget]
  split_ifs with hstale hmissing
  · exact iff_of_false (fun h => by cases h) fun h => h.1 hstale
  · refine iff_of_false (fun h => by cases h) fun h => ?_
    obtain ⟨id, hid, hnot⟩ := List.any_eq_true.mp hmissing
    exact (of_decide_eq_true hnot) (h.2 id hid)
  · refine iff_of_true rfl ⟨hstale, fun id hid => ?_⟩
    by_contra hnot
    exact hmissing (List.any_eq_true.mpr ⟨id, hid, decide_eq_true hnot⟩)

end Spec

section Kept
variable {J : Type*} {w₀ w w' : ResumeWorld J} {threadId : ThreadId}

/-- Every run was there at the start, with its thread and its creation, or was created since. -/
def RowsSince (w₀ w : ResumeWorld J) : Prop :=
  ∀ k run', w.store.runs.get? k = some run' →
    (∃ run, w₀.store.runs.get? k = some run ∧ run'.createdAt = run.createdAt ∧
      run'.threadId = run.threadId) ∨ (k, run'.createdAt) ∈ w.created

/-- A run has executed on the thread, or the interrupts of its row are those of the start. -/
def InterruptsSince (threadId : ThreadId) (w₀ w : ResumeWorld J) : Prop :=
  threadId ∈ w.executed ∨ (w.store.threads.get? threadId).map Thread.interrupts =
    (w₀.store.threads.get? threadId).map Thread.interrupts

theorem RowsSince.of_rowsMove {created : RunId × Timestamp} (h : RowsSince w₀ w)
    (hmove : MemorySkeinStore.RowsMove w.store w'.store (some created))
    (hcreated : w'.created = w.created ++ [created]) : RowsSince w₀ w' := by
  intro k run' hrun'
  rw [hcreated, List.mem_append, List.mem_singleton]
  rcases hmove k run' hrun' with ⟨run, hrun, hkept⟩ | ⟨-, hnew⟩
  · rw [hkept.createdAt, hkept.threadId]
    exact (h k run hrun).imp_right .inl
  · exact .inr (.inr (Option.some.inj hnew).symm)

theorem RowsSince.of_get? (h : RowsSince w₀ w) (hcreated : w'.created = w.created)
    (hrows : ∀ k run', w'.store.runs.get? k = some run' → ∃ run, w.store.runs.get? k = some run ∧
      run'.createdAt = run.createdAt ∧ run'.threadId = run.threadId) : RowsSince w₀ w' := by
  intro k run' hrun'
  obtain ⟨run, hrun, hcreatedAt, hthread⟩ := hrows k run' hrun'
  rw [hcreated, hcreatedAt, hthread]
  exact h k run hrun

theorem statusRow_origin (store : MemorySkeinStore J) (runId : RunId) (status : RunStatus)
    (error : Option J) (now : Timestamp) (run : Run J) :
    (store.statusRow runId status error now run).createdAt = run.createdAt ∧
      (store.statusRow runId status error now run).threadId = run.threadId := by
  unfold MemorySkeinStore.statusRow
  split_ifs <;> exact ⟨rfl, rfl⟩

theorem threadsUpdate_runs (store : MemorySkeinStore J) (threadId : ThreadId)
    (patch : MemorySkeinStore.ThreadUpdate J) (now : Timestamp) :
    (store.threadsUpdate threadId patch now).2.runs = store.runs := by
  unfold MemorySkeinStore.threadsUpdate
  split <;> rfl

variable [WireJson J]

theorem resumeStep_rowsSince {action : ResumeAction J} (hstep : resumeStep w action = some w')
    (h : RowsSince w₀ w) : RowsSince w₀ w' := by
  cases action with
  | insert create requireNoActiveRun ifThreadStatus uuid now =>
    cases hstep
    exact h.of_rowsMove (w.store.guardedInsert_rowsMove create _ _ uuid now) rfl
  | admitRun input draws =>
    simp only [resumeStep] at hstep
    split_ifs at hstep
    cases hstep
    exact h.of_rowsMove (w.store.admitRun_rowsMove input draws) rfl
  | setStatus runId status error now =>
    cases hstep
    refine h.of_get? rfl fun k run' hrun' => ?_
    rw [MemorySkeinStore.runsSetStatus_get?, Option.map_eq_some_iff] at hrun'
    obtain ⟨run, hrun, rfl⟩ := hrun'
    exact ⟨run, hrun, statusRow_origin ..⟩
  | delete runId =>
    cases hstep
    refine h.of_get? rfl fun k run' hrun' => ?_
    rcases w.store.runsDelete_rowsMove runId k run' hrun' with ⟨run, hrun, hkept⟩ | ⟨-, hnone⟩
    · exact ⟨run, hrun, hkept.createdAt, hkept.threadId⟩
    · cases hnone
  | patch threadId patch now =>
    simp only [resumeStep] at hstep
    split_ifs at hstep
    cases hstep
    exact h.of_get? rfl fun k run' hrun' =>
      ⟨run', (threadsUpdate_runs w.store threadId patch now) ▸ hrun', rfl, rfl⟩
  | execute threadId tips patch now =>
    cases hstep
    exact h.of_get? rfl fun k run' hrun' =>
      ⟨run', (threadsUpdate_runs w.store threadId patch now) ▸ hrun', rfl, rfl⟩

theorem guardedInsert_threads (store : MemorySkeinStore J) (create : RunCreate J)
    (requireNoActiveRun : Bool) (ifThreadStatus : Option (List ThreadStatus)) (uuid : RunId)
    (now : Timestamp) :
    (store.guardedInsert create requireNoActiveRun ifThreadStatus uuid now).2.threads =
      store.threads := by
  have hcreate := store.createRun_threads create uuid now
  have hmatches : ∀ guard,
      (store.runsCreateIfThreadMatches create guard uuid now).2.threads = store.threads := by
    intro guard
    unfold MemorySkeinStore.runsCreateIfThreadMatches
    split
    · rfl
    · split_ifs
      · rfl
      · rfl
      · exact hcreate
  unfold MemorySkeinStore.guardedInsert
  split
  · split_ifs
    · unfold MemorySkeinStore.runsCreateIfThreadIdle
      split_ifs
      · rfl
      · exact hcreate
    · exact hcreate
  · have hdone := hmatches { requireNoActiveRun, threadStatusIn := some ‹_› }
    split <;> rename_i heq <;> rw [heq] at hdone <;> exact hdone

theorem displaceAll_threads (action : CancelAction) (draws : AdmissionDraws)
    (displaced : List (Displacement J)) (store : MemorySkeinStore J) :
    (MemorySkeinStore.displaceAll action draws displaced store).2.threads = store.threads := by
  induction displaced generalizing store with
  | nil => rfl
  | cons item rest ih =>
    have hsettle := store.runsSettle_threads item.runId item.settlement
      (draws.deliveryUuid item.runId) draws.now
    rw [MemorySkeinStore.displaceAll]
    split
    next hmid =>
      rw [hmid] at hsettle
      exact hsettle
    next settled mid hmid =>
      rw [hmid] at hsettle
      rw [ih, ← hsettle]
      unfold MemorySkeinStore.dispatchSettled
      cases settled.run <;> rfl

theorem admitRun_threads (store : MemorySkeinStore J) (input : RunAdmission J)
    (draws : AdmissionDraws) : (store.admitRun input draws).2.threads = store.threads := by
  have hcommit : ∀ (prepared : RunCreate J) displaced (mid : MemorySkeinStore J),
      (mid.commitAdmission input prepared displaced draws).2.threads = mid.threads := by
    intro prepared displaced mid
    have hdisplaced := displaceAll_threads
      (MemorySkeinStore.displacementAction prepared.multitaskStrategy) draws displaced mid
    unfold MemorySkeinStore.commitAdmission
    split <;> rename_i after hafter <;> rw [hafter] at hdisplaced
    · exact hdisplaced
    · have hcreate := after.createRun_threads prepared draws.runUuid draws.now
      split <;> rename_i created hcreated <;> rw [hcreated] at hcreate
      · exact hcreate.trans hdisplaced
      · refine Eq.trans ?_ (hcreate.trans hdisplaced)
        cases input.expectedRunId <;> rfl
  unfold MemorySkeinStore.admitRun
  split_ifs
  · rfl
  split
  · rfl
  · rfl
  split
  · rfl
  next prepared displaced hguards =>
    have hguard : (store.resumeGuard input.expectedRunId prepared.threadId).2.threads =
        store.threads := by
      rw [MemorySkeinStore.resumeGuard_frame]
    split <;> rename_i guarded hresume <;> rw [hresume] at hguard
    · exact hguard
    split_ifs
    · exact hguard
    · exact (hcommit prepared displaced guarded).trans hguard

omit [WireJson J] in
/-- A patch without interrupts keeps those of every row. -/
theorem threadsUpdate_interrupts (store : MemorySkeinStore J) (patched : ThreadId)
    {patch : MemorySkeinStore.ThreadUpdate J} (now : Timestamp) (k : ThreadId)
    (h : patched ≠ k ∨ patch.interrupts = none) :
    ((store.threadsUpdate patched patch now).2.threads.get? k).map Thread.interrupts =
      (store.threads.get? k).map Thread.interrupts := by
  rw [MemorySkeinStore.threadsUpdate_get?]
  split_ifs with hk
  · have hnone := h.resolve_left (not_not.mpr hk.symm)
    cases store.threads.get? k with
    | none => rfl
    | some thread => simp [MemorySkeinStore.patchedThread, hnone]
  · rfl

theorem resumeStep_interruptsSince {action : ResumeAction J}
    (hstep : resumeStep w action = some w') (h : InterruptsSince threadId w₀ w) :
    InterruptsSince threadId w₀ w' := by
  have hkeep : ∀ {next : ResumeWorld J}, w.executed ⊆ next.executed →
      (next.store.threads.get? threadId).map Thread.interrupts =
        (w.store.threads.get? threadId).map Thread.interrupts →
      InterruptsSince threadId w₀ next := by
    intro next hexecuted hinterrupts
    rw [InterruptsSince, hinterrupts]
    exact h.imp_left fun hmem => hexecuted hmem
  cases action with
  | insert create requireNoActiveRun ifThreadStatus uuid now =>
    cases hstep
    exact hkeep (List.Subset.refl _) (by simp only [guardedInsert_threads])
  | admitRun input draws =>
    simp only [resumeStep] at hstep
    split_ifs at hstep
    cases hstep
    exact hkeep (List.Subset.refl _) (by simp only [admitRun_threads])
  | setStatus runId status error now =>
    cases hstep
    exact hkeep (List.Subset.refl _) (by simp only [MemorySkeinStore.runsSetStatus_threads])
  | delete runId =>
    cases hstep
    exact hkeep (List.Subset.refl _) rfl
  | patch patched patch now =>
    simp only [resumeStep] at hstep
    split_ifs at hstep with hinterrupts
    cases hstep
    refine hkeep (List.Subset.refl _) (threadsUpdate_interrupts _ _ now threadId (.inr ?_))
    simpa using hinterrupts
  | execute executed tips patch now =>
    cases hstep
    by_cases hsame : executed = threadId
    · exact .inl (List.mem_append_right _ (by simp [hsame]))
    · exact hkeep (List.subset_append_left _ _)
        (threadsUpdate_interrupts _ _ now threadId (.inl hsame))

end Kept

section Resume
variable {J : Type*} [WireJson J]

/-- A resume that was verified when it was admitted, and is verified again later. The history
starts where its admission lists the runs; the resume's own run is created after that. -/
structure ResumeHistory (pendingIds : J → List String) (threadId : ThreadId)
    (target : ResumeTarget) (own : RunId) (admission execution : ResumeReads J) : Prop where
  admitted : verifyResumeTarget pendingIds threadId "" target admission = .ok ()
  own : admission.listed.store.runs.get? own = none
  created : admission.listed.created = []
  executed : admission.listed.executed = []
  admissionTip : resumes.Reachable admission.listed admission.tip
  admissionShown : resumes.Reachable admission.tip admission.shown
  gap : resumes.Reachable admission.shown execution.listed
  executionTip : resumes.Reachable execution.listed execution.tip
  executionShown : resumes.Reachable execution.tip execution.shown

/-- What the resume relies on is as it was: the expected run is there and interrupted, the
checkpoint is current, and no run of the thread has executed. -/
structure TargetStands (threadId : ThreadId) (target : ResumeTarget) (expected : Run J)
    (admission execution : ResumeReads J) : Prop where
  expects : target.expectedRunId = some expected.runId
  there : ∃ run, admission.listed.store.runs.get? expected.runId = some run ∧
    run.createdAt = expected.createdAt
  still : execution.listed.store.runs.get? expected.runId = some expected
  thread : expected.threadId = threadId
  interrupted : expected.status = .interrupted
  current : target.Current threadId execution.tip
  unexecuted : threadId ∉ execution.shown.executed

/-- Another run of the thread, created since the admission, is newer than `expected`. -/
def CreatedNewer (threadId : ThreadId) (own : RunId) (expected : Run J) (w : ResumeWorld J) :
    Prop :=
  ∃ run, w.store.runs.get? run.runId = some run ∧ run.threadId = threadId ∧ run.runId ≠ own ∧
    (run.runId, run.createdAt) ∈ w.created ∧ expected.recency < run.recency

variable {pendingIds : J → List String} {threadId : ThreadId} {target : ResumeTarget}
  {own : RunId} {admission execution : ResumeReads J} {expected : Run J}

/-- The expected run is the newest of those that were there at the admission. -/
theorem ResumeHistory.recency_le
    (h : ResumeHistory pendingIds threadId target own admission execution)
    (hstands : TargetStands threadId target expected admission execution) {run : Run J}
    (hrun : admission.listed.store.runs.get? run.runId = some run)
    (hthread : run.threadId = threadId) : run.recency ≤ expected.recency := by
  obtain ⟨⟨row, hhead, hid, -⟩, -, -⟩ := (verifyResumeTarget_ok hstands.expects _).mp h.admitted
  obtain ⟨old, hold, hcreatedAt⟩ := hstands.there
  have hrow := (mem_newestFirst.mp (List.mem_of_mem_head? hhead)).1
  rw [hid, hold] at hrow
  obtain rfl := Option.some.inj hrow
  have hsame : old.recency = expected.recency := by rw [Run.recency, Run.recency, hcreatedAt, hid]
  rw [← hsame]
  exact recency_le_of_head hhead (mem_newestFirst.mpr ⟨hrun, hthread, run.runId.nonempty⟩)

/-- A resume whose target stands is refused exactly where a run that has been created since
its admission is newer than the one it resumes. -/
theorem standingResume_verified_iff
    (h : ResumeHistory pendingIds threadId target own admission execution)
    (hstands : TargetStands threadId target expected admission execution) :
    verifyResumeTarget pendingIds threadId own.value target execution = .ok () ↔
      ¬CreatedNewer threadId own expected execution.listed := by
  have hrows : RowsSince admission.listed execution.listed :=
    Machine.Reachable.invariant (I := fun w => RowsSince admission.listed w)
      (fun _ _ _ hs hstep => resumeStep_rowsSince hstep hs)
      (fun k run hrun => .inl ⟨run, hrun, rfl, rfl⟩)
      ((h.admissionTip.trans h.admissionShown).trans h.gap)
  have hinterrupts : InterruptsSince threadId admission.shown execution.shown :=
    Machine.Reachable.invariant (I := fun w => InterruptsSince threadId admission.shown w)
      (fun _ _ _ hs hstep => resumeStep_interruptsSince hstep hs) (.inr rfl)
      ((h.gap.trans h.executionTip).trans h.executionShown)
  have hownExpected : expected.runId ≠ own := by
    rintro rfl
    obtain ⟨old, hold, -⟩ := hstands.there
    rw [h.own] at hold
    cases hold
  obtain ⟨-, -, hpending⟩ := (verifyResumeTarget_ok hstands.expects _).mp h.admitted
  rw [verifyResumeTarget_ok hstands.expects]
  constructor
  · rintro ⟨⟨row, hhead, hid, -⟩, -, -⟩ ⟨run, hrun, hthread, hother, -, hnewer⟩
    have hrow := (mem_newestFirst.mp (List.mem_of_mem_head? hhead)).1
    rw [hid, hstands.still] at hrow
    obtain rfl := Option.some.inj hrow
    refine absurd (recency_le_of_head hhead (mem_newestFirst.mpr ⟨hrun, hthread, ?_⟩))
      (not_le.mpr hnewer)
    exact fun hvalue => hother (Id.eq_of_value hvalue)
  · intro hnothing
    refine ⟨⟨expected, head_newestFirst_iff.mpr ⟨?_, fun run hrun => ?_⟩, rfl,
      hstands.interrupted⟩, hstands.current, fun id hid => ?_⟩
    · exact mem_newestFirst.mpr ⟨hstands.still, hstands.thread,
        fun hvalue => hownExpected (Id.eq_of_value hvalue)⟩
    · obtain ⟨hget, hthread, hother⟩ := mem_newestFirst.mp hrun
      rcases hrows run.runId run hget with ⟨old, hold, hcreatedAt, holdThread⟩ | hcreated
      · have hid := Table.key_of_get? hold
        have hsame : run.recency = old.recency := by
          rw [Run.recency, Run.recency, hcreatedAt, ← hid]
        rw [hsame]
        exact h.recency_le hstands ((show old.runId = run.runId from hid).symm ▸ hold)
          (holdThread.symm.trans hthread)
      · by_contra hnewer
        exact hnothing ⟨run, hget, hthread, fun heq => hother (congrArg Id.value heq), hcreated,
          not_le.mp hnewer⟩
    · have hkept := hinterrupts.resolve_left hstands.unexecuted
      rw [pendingInterrupts, hkept]
      exact hpending id hid

end Resume

namespace ResumeWorld

def askedRun : Run ℕ where
  runId := .of "asked"
  threadId := .of "t"
  assistantId := .of "a"
  createdAt := 0
  updatedAt := 0
  status := .interrupted
  metadata := 0
  multitaskStrategy := none

def askedThread : Thread ℕ where
  threadId := .of "t"
  createdAt := 0
  updatedAt := 0
  stateUpdatedAt := 0
  metadata := 0
  status := .interrupted
  values := 0
  interrupts := 7

/-- A thread whose one run is interrupted. -/
def askedWorld : ResumeWorld ℕ where
  store := {
    threads := (∅ : Table ThreadId (Thread ℕ) Thread.threadId).write askedThread
    runs := (∅ : Table RunId (Run ℕ) Run.runId).write askedRun }
  tips := fun _ _ => some "checkpoint"

def askedTarget : ResumeTarget where
  expectedRunId := some (.of "asked")
  checkpointId := some "checkpoint"
  interruptIds := ["interrupt"]

/-- The resume, and a run that is queued behind it. -/
def createResume : ResumeAction ℕ :=
  .insert { threadId := .of "t", assistantId := .of "a" } true (some [.interrupted])
    (.of "resume") 1

def createQueued : ResumeAction ℕ :=
  .insert { threadId := .of "t", assistantId := .of "a", multitaskStrategy := some .enqueue }
    false none (.of "queued") 2

def resumedWorld : ResumeWorld ℕ := (resumes.run askedWorld [createResume]).getD askedWorld

def queuedWorld : ResumeWorld ℕ := (resumes.run resumedWorld [createQueued]).getD askedWorld

/-- All three reads at one instant. -/
def readsAt (w : ResumeWorld ℕ) : ResumeReads ℕ := ⟨w, w, w⟩

def interruptNames (interrupts : ℕ) : List String := if interrupts = 7 then ["interrupt"] else []

theorem askedHistory {w : ResumeWorld ℕ} (h : resumes.Reachable askedWorld w) :
    ResumeHistory interruptNames (.of "t") askedTarget (.of "resume") (readsAt askedWorld)
      (readsAt w) where
  admitted := rfl
  own := rfl
  created := rfl
  executed := rfl
  admissionTip := .refl _ _
  admissionShown := .refl _ _
  gap := h
  executionTip := .refl _ _
  executionShown := .refl _ _

/-- The interrupted run has its row, and nothing has been executed on its thread. -/
theorem asked_stands {w : ResumeWorld ℕ} (hrow : w.store.runs.get? (.of "asked") = some askedRun)
    (htips : w.tips = askedWorld.tips) (hexecuted : w.executed = askedWorld.executed) :
    TargetStands (.of "t") askedTarget askedRun (readsAt askedWorld) (readsAt w) where
  expects := rfl
  there := ⟨askedRun, rfl, rfl⟩
  still := hrow
  thread := rfl
  interrupted := rfl
  current := ⟨"checkpoint", by decide, rfl, by
    show w.tips (.of "t") _ = _
    rw [htips]
    rfl⟩
  unexecuted := by
    show (.of "t" : ThreadId) ∉ w.executed
    rw [hexecuted]
    decide

/-- The resume alone is verified, and it is not once a run has been queued behind it. -/
theorem resumed_verified :
    ¬CreatedNewer (.of "t") (.of "resume") askedRun resumedWorld ∧
      CreatedNewer (.of "t") (.of "resume") askedRun queuedWorld := by
  have hresumed := standingResume_verified_iff (askedHistory ⟨[createResume], rfl⟩)
    (asked_stands rfl rfl rfl)
  have hqueued := standingResume_verified_iff (askedHistory ⟨[createResume, createQueued], rfl⟩)
    (asked_stands rfl rfl rfl)
  refine ⟨hresumed.mp rfl, not_not.mp fun hnone => ?_⟩
  have hverified : verifyResumeTarget interruptNames (.of "t") "resume" askedTarget
    (readsAt queuedWorld) = .ok () := hqueued.mpr hnone
  cases hverified

/-- The queued run has not executed, and the resume is refused. -/
theorem queued_refused :
    ¬∀ (threadId : ThreadId) (target : ResumeTarget) (own : RunId)
      (admission execution : ResumeReads ℕ) (expected : Run ℕ),
      ResumeHistory interruptNames threadId target own admission execution →
      TargetStands threadId target expected admission execution →
      verifyResumeTarget interruptNames threadId own.value target execution = .ok () := by
  intro hall
  have hverified := hall _ _ _ _ _ _ (askedHistory ⟨[createResume, createQueued], rfl⟩)
    (asked_stands rfl rfl rfl)
  have hrefused : verifyResumeTarget interruptNames (.of "t") "resume" askedTarget
      (readsAt queuedWorld) = .error staleTarget := rfl
  exact absurd (hrefused.symm.trans hverified) (by simp)

end ResumeWorld
end Skein
