import Skein.PostgresSimulation

/-!
# Deletions, acknowledgements and claims in both drivers

Deleting a run cascades in Postgres and is spelled out in memory. A claim leases the same
intents in both drivers when its page holds them all; memory also drops the intents that no
claim returns any more.
-/
namespace Skein

namespace MemorySkeinStore
variable {J : Type*}

/-- What is left once the runs that are `gone` have been deleted. -/
structure Deleted (gone : RunId → Bool) (mem mem' : MemorySkeinStore J) : Prop where
  threads : mem'.threads = mem.threads
  runs : ∀ id, mem'.runs.get? id = if gone id then none else mem.runs.get? id
  results : ∀ id, mem'.runResults.get? id = if gone id then none else mem.runResults.get? id
  kwargs : ∀ id, mem'.runKwargs.get? id = if gone id then none else mem.runKwargs.get? id
  dispatches : ∀ id, mem'.dispatches.get? id = if gone id then none else mem.dispatches.get? id
  reservations : ∀ id, mem'.resumeReservations.get? id =
    if gone id then none else (mem.resumeReservations.get? id).filter (!gone ·)
  deliveries : mem'.deliveries = mem.deliveries
  idempotency : mem'.idempotency = mem.idempotency
  maxPageSize : mem'.maxPageSize = mem.maxPageSize

theorem runsDelete_deleted (mem : MemorySkeinStore J) (runId : RunId) :
    Deleted (fun id => decide (id = runId)) mem (mem.runsDelete runId) where
  threads := rfl
  runs id := by simp [runsDelete, forgetAdmission, Table.get?_erase, eq_comm]
  results id := by simp [runsDelete, forgetAdmission, OrderedMap.get?_erase, eq_comm]
  kwargs id := by simp [runsDelete, forgetAdmission, OrderedMap.get?_erase, eq_comm]
  dispatches id := by simp [runsDelete, forgetAdmission, Table.get?_erase, eq_comm]
  reservations id := by
    simp only [runsDelete, forgetAdmission, OrderedMap.get?_filter]
    by_cases hid : id = runId <;> simp [hid]
  deliveries := rfl
  idempotency := rfl
  maxPageSize := rfl

theorem Deleted.trans {gone gone' : RunId → Bool} {mem mid mem' : MemorySkeinStore J}
    (h : Deleted gone mem mid) (h' : Deleted gone' mid mem') :
    Deleted (fun id => gone id || gone' id) mem mem' where
  threads := h'.threads.trans h.threads
  runs id := by
    rw [h'.runs, h.runs]
    cases gone id <;> cases gone' id <;> rfl
  results id := by
    rw [h'.results, h.results]
    cases gone id <;> cases gone' id <;> rfl
  kwargs id := by
    rw [h'.kwargs, h.kwargs]
    cases gone id <;> cases gone' id <;> rfl
  dispatches id := by
    rw [h'.dispatches, h.dispatches]
    cases gone id <;> cases gone' id <;> rfl
  reservations id := by
    rw [h'.reservations, h.reservations]
    cases gone id <;> cases gone' id <;> simp
  deliveries := h'.deliveries.trans h.deliveries
  idempotency := h'.idempotency.trans h.idempotency
  maxPageSize := h'.maxPageSize.trans h.maxPageSize

theorem foldl_runsDelete_deleted (runs : List (Run J)) (mem : MemorySkeinStore J) :
    Deleted (fun id => runs.any (·.runId = id)) mem
      (runs.foldl (fun s run => s.runsDelete run.runId) mem) := by
  induction runs generalizing mem with
  | nil =>
    refine ⟨rfl, ?_, ?_, ?_, ?_, ?_, rfl, rfl, rfl⟩ <;> intro id
    · rfl
    · rfl
    · rfl
    · rfl
    · simp only [List.foldl_nil, List.any_nil, Bool.not_false]
      cases mem.resumeReservations.get? id <;> rfl
  | cons run runs ih =>
    have h := (mem.runsDelete_deleted run.runId).trans (ih (mem.runsDelete run.runId))
    simpa [eq_comm] using h

/-- Deleting a thread deletes its runs. -/
theorem threadsDelete_deleted (mem : MemorySkeinStore J) (threadId : ThreadId) :
    Deleted (fun id => (mem.runs.get? id).any (·.threadId = threadId))
      { mem with threads := mem.threads.erase threadId } (mem.threadsDelete threadId) := by
  have h := foldl_runsDelete_deleted (mem.runs.values.filter fun run => run.threadId = threadId)
    { mem with threads := mem.threads.erase threadId }
  have hgone : (fun id => (mem.runs.values.filter fun run => run.threadId = threadId).any
      (·.runId = id)) = fun id => (mem.runs.get? id).any (·.threadId = threadId) := by
    funext id
    rw [Bool.eq_iff_iff, List.any_eq_true]
    constructor
    · rintro ⟨run, hrun, hid⟩
      obtain ⟨hrow, hthread⟩ := List.mem_filter.mp hrun
      rw [Table.mem_values_iff, of_decide_eq_true hid] at hrow
      rw [hrow]
      exact hthread
    · intro hany
      obtain ⟨run, hrow, hthread⟩ := (Option.any_eq_true _ _).mp hany
      have hid : run.runId = id := Table.key_of_get? hrow
      refine ⟨run, List.mem_filter.mpr ⟨?_, hthread⟩, decide_eq_true hid⟩
      rw [Table.mem_values_iff, hid]
      exact hrow
  rw [hgone] at h
  exact ⟨h.threads, h.runs, h.results, h.kwargs, h.dispatches, h.reservations, h.deliveries,
    h.idempotency, h.maxPageSize⟩

end MemorySkeinStore

namespace PostgresStore
variable {J : Type*}

theorem deleteRuns_runs_get? (pg : PostgresStore J) (p : RunRow J → Bool) (id : RunId) :
    (pg.deleteRuns p).runs.get? id =
      if (pg.runs.get? id).any p then none else pg.runs.get? id := by
  unfold deleteRuns
  rw [Table.get?_filter]
  cases pg.runs.get? id with
  | none => rfl
  | some row => cases hp : p row <;> simp [hp]

theorem deleteRuns_threadOf (pg : PostgresStore J) (p : RunRow J → Bool) (id : RunId) :
    (pg.deleteRuns p).threadOf id =
      if (pg.runs.get? id).any p then none else pg.threadOf id := by
  unfold threadOf
  rw [deleteRuns_runs_get?]
  split_ifs <;> rfl

theorem Sound.deleteRuns {pg : PostgresStore J} (h : pg.Sound) (p : RunRow J → Bool) :
    (pg.deleteRuns p).Sound where
  runs id threadId hid := by
    rw [deleteRuns_threadOf] at hid
    split_ifs at hid
    exact h.runs id threadId hid
  dispatches id row hrow := by
    have hrow' : (pg.nativeDispatches.filter fun row => !(pg.runs.get? row.runId).any p).get? id =
        some row := hrow
    rw [Table.get?_filter, Option.filter_eq_some_iff] at hrow'
    have hid : row.runId = id := Table.key_of_get? hrow'.1
    rw [deleteRuns_threadOf, if_neg (by simpa [hid] using hrow'.2)]
    exact h.dispatches id row hrow'.1
  reservations id row hrow := by
    have hrow' : (pg.nativeResumeReservations.filter fun row =>
        !((pg.runs.get? row.expectedRunId).any p || (pg.runs.get? row.runId).any p)).get? id =
        some row := hrow
    rw [Table.get?_filter, Option.filter_eq_some_iff] at hrow'
    have hkept := hrow'.2
    rw [Bool.not_eq_true', Bool.or_eq_false_iff] at hkept
    rw [deleteRuns_threadOf, deleteRuns_threadOf, hkept.1, hkept.2]
    exact h.reservations id row hrow'.1

namespace Simulates
variable {pg : PostgresStore J} {mem mem' : MemorySkeinStore J}

theorem deleteRuns_dispatches_get? (pg : PostgresStore J) (p : RunRow J → Bool) (id : RunId) :
    (pg.deleteRuns p).nativeDispatches.get? id =
      if (pg.runs.get? id).any p then none else pg.nativeDispatches.get? id := by
  unfold PostgresStore.deleteRuns
  rw [Table.get?_filter]
  cases hrow : pg.nativeDispatches.get? id with
  | none => split_ifs <;> rfl
  | some row =>
    have hid : row.runId = id := Table.key_of_get? hrow
    rw [Option.filter_some, hid]
    split_ifs <;> simp_all

theorem intent_none (h : Simulates pg mem) {id : RunId} (hrow : pg.runs.get? id = none) :
    pg.nativeDispatches.get? id = none ∧ mem.dispatches.get? id = none := by
  have hnone : pg.nativeDispatches.get? id = none := by
    cases hintent : pg.nativeDispatches.get? id with
    | none => rfl
    | some intent =>
      have hthread := h.sound.dispatches id intent hintent
      rw [PostgresStore.threadOf, hrow] at hthread
      cases hthread
  have hagree := h.intents id
  rw [hnone] at hagree
  exact ⟨hnone, hagree.elim (fun hsame => hsame) And.left⟩

/-- The cascade against the deletions of memory. -/
theorem deleteRuns (h : Simulates pg mem) {p : RunRow J → Bool} {gone : RunId → Bool}
    (hmem : MemorySkeinStore.Deleted gone mem mem')
    (hgone : ∀ id row, pg.runs.get? id = some row → p row = gone id) :
    Simulates (pg.deleteRuns p) mem' := by
  have hany : ∀ id, (pg.runs.get? id).isSome → (pg.runs.get? id).any p = gone id := by
    intro id hsome
    obtain ⟨row, hrow⟩ := Option.isSome_iff_exists.mp hsome
    rw [hrow]
    exact hgone id row hrow
  have hrunNone : ∀ id, pg.runs.get? id = none → mem.runs.get? id = none := by
    intro id hnone
    rw [← h.runs, hnone]
    rfl
  exact {
    threads := fun id => by rw [hmem.threads]; exact h.threads id
    runs := by
      intro id
      rw [deleteRuns_runs_get?, hmem.runs]
      cases hrow : pg.runs.get? id with
      | none => simp [hrunNone id hrow]
      | some row =>
        rw [← h.runs, hrow, Option.any_some, hgone id row hrow]
        split_ifs <;> rfl
    results := by
      intro id
      rw [deleteRuns_runs_get?, hmem.results, ← h.results]
      cases hrow : pg.runs.get? id with
      | none => simp
      | some row =>
        rw [Option.any_some, hgone id row hrow]
        split_ifs <;> rfl
    kwargs := by
      intro id
      rw [deleteRuns_runs_get?, hmem.kwargs, ← h.kwargs]
      cases hrow : pg.runs.get? id with
      | none => simp
      | some row =>
        rw [Option.any_some, hgone id row hrow]
        split_ifs <;> rfl
    deliveries := fun id => by rw [hmem.deliveries]; exact h.deliveries id
    reservations := by
      intro id
      rw [hmem.reservations, ← h.reservations]
      simp only [PostgresStore.deleteRuns, Table.get?_filter]
      cases hrow : pg.nativeResumeReservations.get? id with
      | none => simp
      | some row =>
        have hid : row.expectedRunId = id := Table.key_of_get? hrow
        have hboth := h.sound.reservations id row hrow
        simp only [PostgresStore.threadOf, Option.isSome_map] at hboth
        rw [hid] at hboth
        simp only [Option.filter_some, Option.map_some, hid, hany _ hboth.1, hany _ hboth.2]
        cases gone id <;> cases gone row.runId <;> rfl
    records := fun coordinate => by rw [hmem.idempotency]; exact h.records coordinate
    maxPageSize := by rw [hmem.maxPageSize]; exact h.maxPageSize
    sound := h.sound.deleteRuns p
    intents := by
      intro id
      rw [deleteRuns_dispatches_get?, hmem.dispatches]
      cases hrow : pg.runs.get? id with
      | none =>
        obtain ⟨hpg, hintent⟩ := h.intent_none hrow
        rw [hpg, hintent]
        exact .inl (by simp)
      | some row =>
        rw [Option.any_some, hgone id row hrow]
        split_ifs with hdeleted
        · exact .inl rfl
        · have hterminal : mem'.terminal? id = mem.terminal? id := by
            unfold MemorySkeinStore.terminal?
            rw [hmem.runs, if_neg hdeleted]
          rw [hterminal]
          exact h.intents id }

theorem runsDelete (h : Simulates pg mem) (runId : RunId) :
    Simulates (pg.runsDelete runId) (mem.runsDelete runId) := by
  refine h.deleteRuns (mem.runsDelete_deleted runId) fun id row hrow => ?_
  rw [Table.key_of_get? hrow]

/-- Nothing was deleted. -/
theorem of_kept (h : Simulates pg mem) {gone : RunId → Bool}
    (hmem : MemorySkeinStore.Deleted gone mem mem') (hkept : ∀ id, gone id = false) :
    Simulates pg mem' where
  threads id := by rw [hmem.threads]; exact h.threads id
  runs id := by rw [hmem.runs, hkept]; exact h.runs id
  results id := by rw [hmem.results, hkept]; exact h.results id
  kwargs id := by rw [hmem.kwargs, hkept]; exact h.kwargs id
  deliveries id := by rw [hmem.deliveries]; exact h.deliveries id
  reservations id := by
    rw [hmem.reservations, hkept, h.reservations]
    simp only [hkept, Bool.not_false]
    cases mem.resumeReservations.get? id <;> rfl
  records coordinate := by rw [hmem.idempotency]; exact h.records coordinate
  maxPageSize := by rw [hmem.maxPageSize]; exact h.maxPageSize
  sound := h.sound
  intents id := by
    have hterminal : mem'.terminal? id = mem.terminal? id := by
      unfold MemorySkeinStore.terminal?
      rw [hmem.runs, hkept]
      rfl
    rw [hterminal, hmem.dispatches, hkept]
    exact h.intents id

/-- A thread without runs can go from both drivers. -/
theorem eraseThread (h : Simulates pg mem) {threadId : ThreadId}
    (hnone : ∀ id, pg.threadOf id ≠ some threadId) :
    Simulates { pg with threads := pg.threads.erase threadId }
      { mem with threads := mem.threads.erase threadId } where
  threads id := by
    dsimp only
    rw [Table.get?_erase, Table.get?_erase, h.threads]
  runs := h.runs
  results := h.results
  kwargs := h.kwargs
  deliveries := h.deliveries
  reservations := h.reservations
  records := h.records
  maxPageSize := h.maxPageSize
  sound := by
    refine ⟨fun id owner hid => ?_, h.sound.dispatches, h.sound.reservations⟩
    have howner : threadId ≠ owner := by
      rintro rfl
      exact hnone id hid
    dsimp only
    rw [OrderedMap.contains, Table.get?_erase, if_neg howner]
    exact h.sound.runs id owner hid
  intents := h.intents

theorem threadsDelete (h : Simulates pg mem) (threadId : ThreadId) :
    Simulates (pg.threadsDelete threadId) (mem.threadsDelete threadId) := by
  have hmem := mem.threadsDelete_deleted threadId
  have hgone : ∀ id row, pg.runs.get? id = some row →
      decide (row.run.threadId = threadId) = (mem.runs.get? id).any (·.threadId = threadId) := by
    intro id row hrow
    rw [← h.runs, hrow]
    rfl
  have herased : mem.threadsDelete threadId =
      { { mem.threadsDelete threadId with threads := mem.threads } with
        threads := mem.threads.erase threadId } := by
    have hthreads : mem.threads.erase threadId = (mem.threadsDelete threadId).threads :=
      hmem.threads.symm
    rw [hthreads]
  have hruns : MemorySkeinStore.Deleted (fun id => (mem.runs.get? id).any (·.threadId = threadId))
      mem { mem.threadsDelete threadId with threads := mem.threads } :=
    ⟨rfl, hmem.runs, hmem.results, hmem.kwargs, hmem.dispatches, hmem.reservations,
      hmem.deliveries, hmem.idempotency, hmem.maxPageSize⟩
  rw [herased]
  unfold PostgresStore.threadsDelete
  split_ifs with hthere
  · refine (h.deleteRuns hruns hgone).eraseThread fun id => ?_
    rw [deleteRuns_threadOf]
    split_ifs with hdeleted
    · intro howner
      cases howner
    · intro howner
      obtain ⟨row, hrow, hthread⟩ := Option.map_eq_some_iff.mp howner
      rw [hrow] at hdeleted
      simp [hthread] at hdeleted
  · rw [Bool.not_eq_true] at hthere
    have hkept := h.of_kept hruns fun id => by
      rw [← h.runs]
      cases hrow : pg.runs.get? id with
      | none => rfl
      | some row =>
        have hother : row.run.threadId ≠ threadId := by
          rintro rfl
          have hcontains := h.sound.runs id row.run.threadId (by
            rw [PostgresStore.threadOf, hrow]
            rfl)
          rw [hthere] at hcontains
          cases hcontains
        simpa using hother
    exact {
      threads := by
        intro id
        dsimp only
        rw [Table.get?_erase]
        split_ifs with hid
        · rw [← hid]
          exact (OrderedMap.contains_eq_false_iff _ _).mp hthere
        · exact h.threads id
      runs := hkept.runs
      results := hkept.results
      kwargs := hkept.kwargs
      deliveries := hkept.deliveries
      reservations := hkept.reservations
      records := hkept.records
      maxPageSize := hkept.maxPageSize
      sound := hkept.sound
      intents := hkept.intents }

end Simulates
end PostgresStore

theorem MemorySkeinStore.markDispatched_get? {J : Type*} (mem : MemorySkeinStore J)
    (runId : RunId) (token : String) (k : RunId) :
    (mem.markDispatched runId token).dispatches.get? k =
      if runId = k then (mem.dispatches.get? k).map fun intent =>
        if intent.token = token then { intent with dispatched := true } else intent
      else mem.dispatches.get? k := by
  unfold MemorySkeinStore.markDispatched
  cases hintent : mem.dispatches.get? runId with
  | none =>
    split_ifs with hk
    · rw [← hk, hintent]
      rfl
    · rfl
  | some intent =>
    have hid : intent.runId = runId := Table.key_of_get? hintent
    by_cases hk : runId = k
    · rw [if_pos hk, ← hk, hintent, Option.map_some]
      dsimp only
      split_ifs
      · rw [Table.get?_write, if_pos hid]
      · exact hintent
    · rw [if_neg hk]
      dsimp only
      split_ifs
      · rw [Table.get?_write, if_neg (by rw [hid]; exact hk)]
      · rfl

namespace PostgresStore
variable {J : Type*}

theorem markDispatched_get? (pg : PostgresStore J) (runId : RunId) (token : String) (k : RunId) :
    (pg.markDispatched runId token).nativeDispatches.get? k =
      if runId = k then (pg.nativeDispatches.get? k).map fun row =>
        if row.token = some token then { row with dispatched := true } else row
      else pg.nativeDispatches.get? k :=
  Table.get?_update (fun row => by split_ifs <;> rfl) _ _ _

/-- An update that keeps the threads of the intents. -/
theorem Sound.updateIntents {pg : PostgresStore J} (h : pg.Sound)
    {rows : Table RunId NativeDispatch NativeDispatch.runId}
    (hrows : ∀ id row, rows.get? id = some row →
      ∃ row', pg.nativeDispatches.get? id = some row' ∧ row'.threadId = row.threadId) :
    Sound { pg with nativeDispatches := rows } where
  runs := h.runs
  dispatches id row hrow := by
    obtain ⟨row', hrow', hthread⟩ := hrows id row hrow
    rw [← hthread]
    exact h.dispatches id row' hrow'
  reservations := h.reservations

namespace Simulates
variable {pg : PostgresStore J} {mem mem' : MemorySkeinStore J}

/-- Other intents on both sides. -/
theorem withIntents (h : Simulates pg mem)
    {rows : Table RunId NativeDispatch NativeDispatch.runId}
    {intents : Table RunId DispatchIntent DispatchIntent.runId}
    (hrows : ∀ id row, rows.get? id = some row →
      ∃ row', pg.nativeDispatches.get? id = some row' ∧ row'.threadId = row.threadId)
    (hintents : ∀ id, IntentsAgree (mem.terminal? id) (rows.get? id) (intents.get? id)) :
    Simulates { pg with nativeDispatches := rows } { mem with dispatches := intents } where
  threads := h.threads
  runs := h.runs
  results := h.results
  kwargs := h.kwargs
  deliveries := h.deliveries
  reservations := h.reservations
  records := h.records
  maxPageSize := h.maxPageSize
  sound := h.sound.updateIntents hrows
  intents := hintents

/-- Acknowledging with a token, which is never the empty one of an unleased intent. -/
theorem markDispatched (h : Simulates pg mem) (runId : RunId) {token : String}
    (htoken : token ≠ "") :
    Simulates (pg.markDispatched runId token) (mem.markDispatched runId token) := by
  have hpg := markDispatched_get? pg runId token
  have hmem := mem.markDispatched_get? runId token
  have hframe : mem.markDispatched runId token =
      { mem with dispatches := (mem.markDispatched runId token).dispatches } := by
    unfold MemorySkeinStore.markDispatched
    split
    · rfl
    · split_ifs <;> rfl
  rw [hframe]
  refine h.withIntents (fun id row hrow => ?_) fun id => ?_
  · have hrow' : (pg.markDispatched runId token).nativeDispatches.get? id = some row := hrow
    rw [hpg] at hrow'
    split_ifs at hrow'
    · obtain ⟨before, hbefore, rfl⟩ := Option.map_eq_some_iff.mp hrow'
      exact ⟨before, hbefore, by split_ifs <;> rfl⟩
    · exact ⟨row, hrow', rfl⟩
  · have hgoal : IntentsAgree (mem.terminal? id)
        ((pg.markDispatched runId token).nativeDispatches.get? id)
        ((mem.markDispatched runId token).dispatches.get? id) := by
      rw [hpg, hmem]
      split_ifs
      · rcases h.intents id with hsame | ⟨hnone, dead, hdead, hdone⟩
        · refine .inl ?_
          rw [hsame]
          cases pg.nativeDispatches.get? id with
          | none => rfl
          | some row =>
            have hiff : row.intent.token = token ↔ row.token = some token := by
              unfold NativeDispatch.intent
              cases row.token with
              | none => simpa using fun h : "" = token => htoken h.symm
              | some held => simp
            by_cases hheld : row.token = some token
            · simp [hheld, NativeDispatch.intent]
            · simp [hiff, hheld]
        · refine .inr ⟨by rw [hnone]; rfl, ?_⟩
          rw [Option.mem_def.mp hdead, Option.map_some]
          by_cases hheld : dead.token = some token
          · rw [if_pos hheld]
            refine ⟨_, rfl, ?_⟩
            rcases hdone with hdone | hdone | hdone
            · exact .inl hdone
            · exact .inr (.inl hdone)
            · exact .inr (.inr ⟨hdone.1, rfl⟩)
          · rw [if_neg hheld]
            exact ⟨dead, rfl, hdone⟩
      · exact h.intents id
    exact hgoal

end Simulates
end PostgresStore
end Skein
