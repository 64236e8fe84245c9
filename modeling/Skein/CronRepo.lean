import Mathlib.Data.List.Sort
import Skein.MemoryStore

/-!
# The cron repo

`MemorySkeinStore.crons`. Beside each row the store keeps an occurrence sequence that
every write of the row bumps; a claim names the sequence it read and loses when the
row has moved on. What any repo call can do to one cron is said once, as
`CronAdvances`: rows are never revived, the sequence never goes back, and while it
stands still so does the row.
-/
namespace Skein

/-- Fields accepted when creating a cron. -/
structure CronCreate (J : Type*) where
  assistantId : AssistantId
  schedule : String
  cronId : Option CronId := none
  threadId : Option ThreadId := none
  timezone : Option String := none
  endTime : Option Timestamp := none
  nextRunDate : Option Timestamp := none
  enabled : Option Bool := none
  onRunCompleted : Option String := none
  payload : Option J := none
  metadata : Option J := none
  userId : Option String := none
  auth : Option J := none

/-- A partial update. In a nullable field `some none` is an explicit `null`. -/
structure CronUpdate (J : Type*) where
  schedule : Option String := none
  timezone : Option (Option String) := none
  endTime : Option (Option Timestamp) := none
  nextRunDate : Option (Option Timestamp) := none
  enabled : Option Bool := none
  onRunCompleted : Option String := none
  payload : Option J := none
  metadata : Option J := none

/-- A due row with the sequence it was read at. -/
structure DueCron (J : Type*) where
  cron : Cron J
  occurrenceSeq : ℕ
  deriving DecidableEq, Repr

structure CronClaim where
  expectedSeq : ℕ
  nextRunDate : Option Timestamp
  deriving DecidableEq, Repr

structure ClaimedCronRun (J : Type*) where
  cron : Cron J
  run : Run J

namespace Cron
variable {J : Type*}

/-- Due rows sort soonest first, ties broken on the identifier; `localeCompare` is the
order of the characters on generated identifiers. -/
def dueBefore (a b : Cron J) : Prop :=
  if a.nextRunDate = b.nextRunDate then a.cronId.value ≤ b.cronId.value
  else a.nextRunDate.getD 0 ≤ b.nextRunDate.getD 0

instance (a b : Cron J) : Decidable (dueBefore a b) := by
  unfold dueBefore
  infer_instance

/-- The row a claim leaves. -/
def advanced (cron : Cron J) (nextRunDate : Option Timestamp) (now : Timestamp) : Cron J :=
  { cron with nextRunDate, updatedAt := now }

@[simp] theorem advanced_cronId (cron : Cron J) (nextRunDate : Option Timestamp)
    (now : Timestamp) : (cron.advanced nextRunDate now).cronId = cron.cronId := rfl

/-- The row a patch leaves: metadata merges, the payload is replaced. -/
def patched [WireJson J] (cron : Cron J) (patch : CronUpdate J) (now : Timestamp) : Cron J :=
  { cron with
    schedule := patch.schedule.getD cron.schedule
    timezone := patch.timezone.getD cron.timezone
    endTime := patch.endTime.getD cron.endTime
    nextRunDate := patch.nextRunDate.getD cron.nextRunDate
    enabled := patch.enabled.getD cron.enabled
    payload := patch.payload.getD cron.payload
    metadata := patch.metadata.elim cron.metadata (WireJson.spread cron.metadata)
    updatedAt := now
    onRunCompleted := patch.onRunCompleted.or cron.onRunCompleted }

end Cron

namespace MemorySkeinStore
variable {J : Type*}

def cronsGet (store : MemorySkeinStore J) (cronId : CronId) : Option (Cron J) :=
  store.crons.get? cronId

/-- `this.#cronSeq.get(cronId) ?? 0`. -/
def cronSeqOf (store : MemorySkeinStore J) (cronId : CronId) : ℕ :=
  (store.cronSeq.get? cronId).getD 0

theorem cronSeqOf_congr {store store' : MemorySkeinStore J} (h : store'.cronSeq = store.cronSeq)
    (cronId : CronId) : store'.cronSeqOf cronId = store.cronSeqOf cronId := by
  simp only [cronSeqOf, h]

/-- `#bumpCronSeq`. -/
def bumpCronSeq (store : MemorySkeinStore J) (cronId : CronId) : MemorySkeinStore J :=
  { store with cronSeq := store.cronSeq.set cronId (store.cronSeqOf cronId + 1) }

/-- `#claimCron`, that is `crons.claimNextRun`: `none` for every loser. -/
def claimCron (store : MemorySkeinStore J) (cronId : CronId) (claim : CronClaim)
    (now : Timestamp) : Option (Cron J) × MemorySkeinStore J :=
  match store.crons.get? cronId with
  | none => (none, store)
  | some existing =>
    if existing.enabled = false then (none, store)
    else if store.cronSeqOf cronId ≠ claim.expectedSeq then (none, store)
    else
      let advanced := existing.advanced claim.nextRunDate now
      (some advanced, { store.bumpCronSeq cronId with crons := store.crons.write advanced })

/-- `crons.claimAndCreateRun`. A claim stays committed when the insert throws. -/
def cronsClaimAndCreateRun [EmptyCollection J] (store : MemorySkeinStore J) (cronId : CronId)
    (claim : CronClaim) (runInput : RunCreate J) (uuid : RunId) (now : Timestamp) :
    Completion J (Option (ClaimedCronRun J)) :=
  match store.claimCron cronId claim now with
  | (none, store) => (.ok none, store)
  | (some advanced, store) =>
    match store.createRun runInput uuid now with
    | (.error e, store) => (.error e, store)
    | (.ok run, store) => (.ok (some ⟨advanced, run⟩), store)

/-- `crons.create`; `uuid` is what `randomUUID` would produce. -/
def cronsCreate [EmptyCollection J] (store : MemorySkeinStore J) (input : CronCreate J)
    (uuid : CronId) (now : Timestamp) : Completion J (Cron J) :=
  let cronId := input.cronId.getD uuid
  if store.crons.contains cronId then
    (.error (.http (.conflict ("Cron \"" ++ cronId.value ++ "\" already exists."))), store)
  else
    let cron : Cron J := {
      cronId
      assistantId := input.assistantId
      threadId := input.threadId
      schedule := input.schedule
      timezone := input.timezone
      endTime := input.endTime
      nextRunDate := input.nextRunDate
      enabled := input.enabled.getD true
      payload := input.payload.getD ∅
      metadata := input.metadata.getD ∅
      userId := input.userId
      createdAt := now
      updatedAt := now
      onRunCompleted := input.onRunCompleted }
    (.ok cron, { store with
      cronAuth := input.auth.elim store.cronAuth (store.cronAuth.set cronId)
      cronSeq := store.cronSeq.set cronId 0
      crons := store.crons.write cron })

/-- `crons.update`. -/
def cronsUpdate [WireJson J] (store : MemorySkeinStore J) (cronId : CronId)
    (patch : CronUpdate J) (now : Timestamp) : Completion J (Cron J) :=
  match store.crons.get? cronId with
  | none =>
    (.error (.http (.notFound ("Cron \"" ++ cronId.value ++ "\" not found."))), store)
  | some existing =>
    let updated := existing.patched patch now
    (.ok updated, { store.bumpCronSeq cronId with crons := store.crons.write updated })

/-- `crons.delete`. -/
def cronsDelete (store : MemorySkeinStore J) (cronId : CronId) : MemorySkeinStore J :=
  { store with
    crons := store.crons.erase cronId
    cronAuth := store.cronAuth.erase cronId
    cronSeq := store.cronSeq.erase cronId }

/-- `crons.listDue`. -/
def cronsListDue (store : MemorySkeinStore J) (dueAt : Timestamp) (limit : Option ℕ) :
    List (DueCron J) :=
  let due := store.crons.values.filter fun cron => cron.enabled && cron.nextRunDate.any (· ≤ dueAt)
  ((due.insertionSort Cron.dueBefore).take (store.pageLimit limit)).map fun cron =>
    ⟨cron, store.cronSeqOf cron.cronId⟩

/-- `crons.getAuth`. -/
def cronsGetAuth (store : MemorySkeinStore J) (cronId : CronId) : Option J :=
  store.cronAuth.get? cronId

/-- One repo call as seen by one cron that has had a row before. -/
def CronAdvances (store store' : MemorySkeinStore J) (cronId : CronId) : Prop :=
  ∀ row', store'.crons.get? cronId = some row' → ∃ row, store.crons.get? cronId = some row ∧
    store.cronSeqOf cronId ≤ store'.cronSeqOf cronId ∧
    (store'.cronSeqOf cronId = store.cronSeqOf cronId → row' = row)

theorem CronAdvances.of_eq {store store' : MemorySkeinStore J} {cronId : CronId}
    (hrow : store'.crons.get? cronId = store.crons.get? cronId)
    (hseq : store'.cronSeqOf cronId = store.cronSeqOf cronId) :
    CronAdvances store store' cronId := by
  intro row' hrow'
  exact ⟨row', hrow ▸ hrow', le_of_eq hseq.symm, fun _ => rfl⟩

theorem CronAdvances.of_frame {store store' : MemorySkeinStore J}
    (hcrons : store'.crons = store.crons) (hseq : store'.cronSeq = store.cronSeq)
    (cronId : CronId) : CronAdvances store store' cronId :=
  .of_eq (by rw [hcrons]) (cronSeqOf_congr hseq cronId)

/-- A row that is gone stays gone. -/
theorem CronAdvances.of_gone {store store' : MemorySkeinStore J} {cronId : CronId}
    (h : store'.crons.get? cronId = none) : CronAdvances store store' cronId := by
  intro row' hrow'
  simp [h] at hrow'

theorem cronSeqOf_bumpCronSeq (store : MemorySkeinStore J) (cronId k : CronId) :
    (store.bumpCronSeq cronId).cronSeqOf k =
      if cronId = k then store.cronSeqOf k + 1 else store.cronSeqOf k := by
  by_cases hk : cronId = k
  · simp [bumpCronSeq, cronSeqOf, hk]
  · simp [bumpCronSeq, cronSeqOf, OrderedMap.get?_set, hk]

/-- A write of a cron's row that bumps its sequence is an advance of that cron, and
nothing happens to the others. -/
theorem CronAdvances.of_write {store : MemorySkeinStore J} {existing : Cron J} (row : Cron J)
    (hexisting : store.crons.get? row.cronId = some existing) (k : CronId) :
    CronAdvances store { store.bumpCronSeq row.cronId with crons := store.crons.write row } k := by
  by_cases hk : row.cronId = k
  · subst hk
    intro row' _
    have hseq := store.cronSeqOf_bumpCronSeq row.cronId row.cronId
    rw [if_pos rfl] at hseq
    refine ⟨existing, hexisting, ?_, fun h => ?_⟩
    · show _ ≤ (store.bumpCronSeq row.cronId).cronSeqOf row.cronId
      omega
    · have hsame : (store.bumpCronSeq row.cronId).cronSeqOf row.cronId =
          store.cronSeqOf row.cronId := h
      omega
  · refine .of_eq ?_ ?_
    · show (store.crons.write row).get? k = _
      rw [Table.get?_write, if_neg hk]
    · show (store.bumpCronSeq row.cronId).cronSeqOf k = _
      rw [cronSeqOf_bumpCronSeq, if_neg hk]

/-- A claim is lost without effect, or it advances the row it found at the sequence it
names. -/
theorem claimCron_cases (store : MemorySkeinStore J) (cronId : CronId) (claim : CronClaim)
    (now : Timestamp) :
    store.claimCron cronId claim now = (none, store) ∨
    ∃ existing, store.crons.get? cronId = some existing ∧ existing.enabled = true ∧
      store.cronSeqOf cronId = claim.expectedSeq ∧
      store.claimCron cronId claim now = (some (existing.advanced claim.nextRunDate now),
        { store.bumpCronSeq cronId with
          crons := store.crons.write (existing.advanced claim.nextRunDate now) }) := by
  unfold claimCron
  cases hrow : store.crons.get? cronId with
  | none => exact .inl rfl
  | some existing =>
    by_cases henabled : existing.enabled = false
    · exact .inl (by simp [henabled])
    · by_cases hseq : store.cronSeqOf cronId = claim.expectedSeq
      · refine .inr ⟨existing, rfl, Bool.not_eq_false _ ▸ henabled, hseq, ?_⟩
        simp [henabled, hseq]
      · exact .inl (by simp [hseq])

/-- A claim that names another sequence than the row's is lost. -/
theorem claimCron_of_stale {store : MemorySkeinStore J} {cronId : CronId} {claim : CronClaim}
    (h : ∀ row, store.crons.get? cronId = some row → store.cronSeqOf cronId ≠ claim.expectedSeq)
    (now : Timestamp) : store.claimCron cronId claim now = (none, store) := by
  rcases store.claimCron_cases cronId claim now with hlost | ⟨existing, hrow, -, hseq, -⟩
  · exact hlost
  · exact absurd hseq (h existing hrow)

theorem claimCron_advances (store : MemorySkeinStore J) (cronId : CronId) (claim : CronClaim)
    (now : Timestamp) (k : CronId) :
    CronAdvances store (store.claimCron cronId claim now).2 k := by
  rcases store.claimCron_cases cronId claim now with hlost | ⟨existing, hrow, -, -, hwon⟩
  · rw [hlost]
    exact .of_frame rfl rfl k
  · have hid : existing.cronId = cronId := Table.key_of_get? hrow
    subst hid
    rw [hwon]
    exact CronAdvances.of_write (existing.advanced claim.nextRunDate now) hrow k

section
variable [EmptyCollection J]

/-- The insert of a run leaves the cron tables alone. -/
theorem createRun_crons (store : MemorySkeinStore J) (input : RunCreate J) (uuid : RunId)
    (now : Timestamp) : (store.createRun input uuid now).2.crons = store.crons ∧
      (store.createRun input uuid now).2.cronSeq = store.cronSeq := by
  unfold createRun
  dsimp only
  split_ifs <;> exact ⟨rfl, rfl⟩

/-- A fire does to the cron tables what its claim does, whether or not the insert of the
run throws; a run is returned only by a won claim. -/
theorem cronsClaimAndCreateRun_claim (store : MemorySkeinStore J) (cronId : CronId)
    (claim : CronClaim) (runInput : RunCreate J) (uuid : RunId) (now : Timestamp) :
    ∃ result store', store.cronsClaimAndCreateRun cronId claim runInput uuid now =
        (result, store') ∧
      store'.crons = (store.claimCron cronId claim now).2.crons ∧
      (∀ k, store'.cronSeqOf k = (store.claimCron cronId claim now).2.cronSeqOf k) ∧
      ((store.claimCron cronId claim now).1 = none → result = .ok none) := by
  unfold cronsClaimAndCreateRun
  rcases hclaim : store.claimCron cronId claim now with ⟨_ | advanced, claimed⟩
  · exact ⟨_, _, rfl, rfl, fun _ => rfl, fun _ => rfl⟩
  · have hframe := claimed.createRun_crons runInput uuid now
    dsimp only
    rcases hcreate : claimed.createRun runInput uuid now with ⟨e | run, store'⟩
    · rw [hcreate] at hframe
      exact ⟨_, _, rfl, hframe.1, cronSeqOf_congr hframe.2, by simp⟩
    · rw [hcreate] at hframe
      exact ⟨_, _, rfl, hframe.1, cronSeqOf_congr hframe.2, by simp⟩

theorem threadsCreate_crons (store : MemorySkeinStore J) (input : ThreadCreate J)
    (uuid : ThreadId) (now : Timestamp) :
    (store.threadsCreate input uuid now).2.crons = store.crons ∧
      (store.threadsCreate input uuid now).2.cronSeq = store.cronSeq := by
  unfold threadsCreate
  dsimp only
  split_ifs <;> exact ⟨rfl, rfl⟩

/-- A new cron takes the first sequence; the others are left alone. -/
theorem cronsCreate_get? (store : MemorySkeinStore J) (input : CronCreate J) (uuid : CronId)
    (now : Timestamp) {k : CronId} (hk : input.cronId.getD uuid ≠ k) :
    (store.cronsCreate input uuid now).2.crons.get? k = store.crons.get? k ∧
      (store.cronsCreate input uuid now).2.cronSeqOf k = store.cronSeqOf k := by
  unfold cronsCreate
  dsimp only
  split_ifs
  · exact ⟨rfl, rfl⟩
  · refine ⟨?_, ?_⟩
    · rw [Table.get?_write, if_neg hk]
    · simp [cronSeqOf, OrderedMap.get?_set, hk]

end

theorem cronsUpdate_advances [WireJson J] (store : MemorySkeinStore J) (cronId : CronId)
    (patch : CronUpdate J) (now : Timestamp) (k : CronId) :
    CronAdvances store (store.cronsUpdate cronId patch now).2 k := by
  unfold cronsUpdate
  cases hrow : store.crons.get? cronId with
  | none => exact .of_frame rfl rfl k
  | some existing =>
    have hid : existing.cronId = cronId := Table.key_of_get? hrow
    subst hid
    exact CronAdvances.of_write (existing.patched patch now) hrow k

theorem cronsDelete_advances (store : MemorySkeinStore J) (cronId k : CronId) :
    CronAdvances store (store.cronsDelete cronId) k := by
  by_cases hk : cronId = k
  · exact .of_gone (by simp [cronsDelete, Table.get?_erase, hk])
  · refine .of_eq (by simp [cronsDelete, Table.get?_erase, hk]) ?_
    simp [cronsDelete, cronSeqOf, OrderedMap.get?_erase, hk]

theorem threadsDelete_crons (store : MemorySkeinStore J) (threadId : ThreadId) :
    (store.threadsDelete threadId).crons =
        store.crons.filter (fun cron => cron.threadId ≠ some threadId) ∧
      (store.threadsDelete threadId).cronSeq = store.cronSeq := by
  have hframe : ∀ (owned : List (Run J)) (s : MemorySkeinStore J),
      (owned.foldl (fun s run => s.runsDelete run.runId) s).crons = s.crons ∧
        (owned.foldl (fun s run => s.runsDelete run.runId) s).cronSeq = s.cronSeq := by
    intro owned
    induction owned with
    | nil => exact fun _ => ⟨rfl, rfl⟩
    | cons run owned ih => exact fun s => ih (s.runsDelete run.runId)
  simp only [threadsDelete, hframe, and_self]

theorem threadsDelete_advances (store : MemorySkeinStore J) (threadId : ThreadId) (k : CronId) :
    CronAdvances store (store.threadsDelete threadId) k := by
  obtain ⟨hcrons, hseq⟩ := store.threadsDelete_crons threadId
  intro row' hrow'
  rw [hcrons, Table.get?_filter, Option.filter_eq_some_iff] at hrow'
  exact ⟨row', hrow'.1, (cronSeqOf_congr hseq k).ge, fun _ => rfl⟩

/-- A due row is the row in the store, read together with its sequence. -/
theorem mem_cronsListDue {store : MemorySkeinStore J} {dueAt : Timestamp} {limit : Option ℕ}
    {due : DueCron J} (h : due ∈ store.cronsListDue dueAt limit) :
    store.crons.get? due.cron.cronId = some due.cron ∧ due.cron.enabled = true ∧
      (∃ date, due.cron.nextRunDate = some date ∧ date ≤ dueAt) ∧
      due.occurrenceSeq = store.cronSeqOf due.cron.cronId := by
  simp only [cronsListDue, List.mem_map] at h
  obtain ⟨cron, hcron, rfl⟩ := h
  have hmem := (List.mem_insertionSort _).mp (List.mem_of_mem_take hcron)
  rw [List.mem_filter, Table.mem_values_iff, Bool.and_eq_true] at hmem
  exact ⟨hmem.1, hmem.2.1, by simpa [Option.any_eq_true] using hmem.2.2, rfl⟩

end MemorySkeinStore
end Skein
