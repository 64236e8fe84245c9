import Skein.AdmissionHistory
import Skein.RunTermination

/-!
# What a call does to the run rows

Every call of the run repository and of the admission leaves the creation time and the thread
of a run row alone, keeps a terminal row terminal, and adds at most one row, created now.
Only `runs.setStatus(_, "running")` makes a terminal row active again.
-/
namespace Skein

/-- The row is still that of the same run, and terminal if it was. -/
structure Run.Kept {J : Type*} (run run' : Run J) : Prop where
  createdAt : run'.createdAt = run.createdAt
  threadId : run'.threadId = run.threadId
  terminal : run.status.isTerminal = true → run'.status.isTerminal = true

namespace Run.Kept
variable {J : Type*} {run run' run'' : Run J}

theorem refl (run : Run J) : run.Kept run := ⟨rfl, rfl, id⟩

theorem trans (h : run.Kept run') (h' : run'.Kept run'') : run.Kept run'' where
  createdAt := h'.createdAt.trans h.createdAt
  threadId := h'.threadId.trans h.threadId
  terminal := fun hterm => h'.terminal (h.terminal hterm)

end Run.Kept

namespace MemorySkeinStore
variable {J : Type*}

/-- Rows are kept, removed, or added as `created` says. -/
def RowsMove (store store' : MemorySkeinStore J) (created : Option (RunId × Timestamp)) : Prop :=
  ∀ k run', store'.runs.get? k = some run' →
    (∃ run, store.runs.get? k = some run ∧ run.Kept run') ∨
      (store.runs.get? k = none ∧ created = some (k, run'.createdAt))

namespace RowsMove
variable {store mid store' : MemorySkeinStore J} {created : Option (RunId × Timestamp)}

/-- A write of anything but the runs. -/
theorem of_runs (h : store'.runs = store.runs) : RowsMove store store' created := by
  intro k run' hrun'
  rw [h] at hrun'
  exact .inl ⟨run', hrun', .refl run'⟩

theorem refl (store : MemorySkeinStore J) : RowsMove store store created := of_runs rfl

/-- A call that creates nothing may be said to create a run. -/
theorem weaken (h : RowsMove store store' none) : RowsMove store store' created := by
  intro k run' hrun'
  rcases h k run' hrun' with hkept | ⟨-, hnone⟩
  · exact .inl hkept
  · cases hnone

/-- Moves that add nothing, and then one that may add a row. -/
theorem trans (h : RowsMove store mid none) (hrows : ∀ k, mid.runs.get? k = none →
    store.runs.get? k = none) (h' : RowsMove mid store' created) :
    RowsMove store store' created := by
  intro k run' hrun'
  rcases h' k run' hrun' with ⟨run, hrun, hkept⟩ | ⟨hnone, hcreated⟩
  · rcases h k run hrun with ⟨old, hold, hkept'⟩ | ⟨-, hnone⟩
    · exact .inl ⟨old, hold, hkept'.trans hkept⟩
    · cases hnone
  · exact .inr ⟨hrows k hnone, hcreated⟩

theorem congr (h : RowsMove store mid created) (hruns : store'.runs = mid.runs) :
    RowsMove store store' created := by
  intro k run' hrun'
  rw [hruns] at hrun'
  exact h k run' hrun'

end RowsMove

/-- A settlement changes no identity, and no status back from terminal. -/
theorem settledRun_kept (run : Run J) (final : RunSettlement J) (now : Timestamp) :
    run.Kept (settledRun run final now) where
  createdAt := by
    unfold settledRun
    split <;> rfl
  threadId := settledRun_threadId run final now
  terminal := fun _ => settledRun_isTerminal run final now

theorem settleFinal_rowsMove (store : MemorySkeinStore J) (runId : RunId)
    (final : RunSettlement J) (uuid : DeliveryId) (now : Timestamp) :
    RowsMove store (store.settleFinal runId final uuid now).2 none := by
  intro k run' hrun'
  rw [settleFinal_get?] at hrun'
  split_ifs at hrun' with hk
  · obtain ⟨run, hrun, rfl⟩ := Option.map_eq_some_iff.mp hrun'
    exact .inl ⟨run, hrun, settledRun_kept run final now⟩
  · exact .inl ⟨run', hrun', .refl run'⟩

/-- A settlement adds no row. -/
theorem settleFinal_get?_eq_none {store : MemorySkeinStore J} {runId k : RunId}
    {final : RunSettlement J} {uuid : DeliveryId} {now : Timestamp}
    (h : (store.settleFinal runId final uuid now).2.runs.get? k = none) :
    store.runs.get? k = none := by
  rw [settleFinal_get?] at h
  split_ifs at h
  · exact Option.map_eq_none_iff.mp h
  · exact h

theorem runsSettle_rowsMove [WireJson J] (store : MemorySkeinStore J) (runId : RunId)
    (input : RunSettlement J) (uuid : DeliveryId) (now : Timestamp) :
    RowsMove store (store.runsSettle runId input uuid now).2 none := by
  unfold runsSettle
  split
  · exact .refl store
  · exact store.settleFinal_rowsMove runId _ uuid now

theorem runsDelete_rowsMove (store : MemorySkeinStore J) (runId : RunId) :
    RowsMove store (store.runsDelete runId) none := by
  intro k run' hrun'
  simp only [runsDelete, forgetAdmission, Table.get?_erase] at hrun'
  split_ifs at hrun'
  exact .inl ⟨run', hrun', .refl run'⟩

/-- A creation adds one row, under the identifier named or drawn. -/
theorem createRun_rowsMove [EmptyCollection J] (store : MemorySkeinStore J) (input : RunCreate J)
    (uuid : RunId) (now : Timestamp) :
    RowsMove store (store.createRun input uuid now).2 (some (input.runId.getD uuid, now)) := by
  unfold createRun
  dsimp only
  split_ifs with hused
  · exact .refl store
  · intro k run' hrun'
    rw [Table.get?_write] at hrun'
    split_ifs at hrun' with hk
    · cases hrun'
      refine .inr ⟨?_, by rw [← hk]⟩
      rw [← hk]
      exact (OrderedMap.contains_eq_false_iff _ _).mp (Bool.eq_false_iff.mpr hused)
    · exact .inl ⟨run', hrun', .refl run'⟩

theorem guardedInsert_rowsMove [EmptyCollection J] (store : MemorySkeinStore J)
    (create : RunCreate J) (requireNoActiveRun : Bool) (ifThreadStatus : Option (List ThreadStatus))
    (uuid : RunId) (now : Timestamp) :
    RowsMove store (store.guardedInsert create requireNoActiveRun ifThreadStatus uuid now).2
      (some (create.runId.getD uuid, now)) := by
  have hcreate := store.createRun_rowsMove create uuid now
  unfold guardedInsert
  split
  · split_ifs
    · unfold runsCreateIfThreadIdle
      split_ifs
      · exact .refl store
      · exact hcreate
    · exact hcreate
  · have hmatches : ∀ guard, RowsMove store
        (store.runsCreateIfThreadMatches create guard uuid now).2
        (some (create.runId.getD uuid, now)) := by
      intro guard
      unfold runsCreateIfThreadMatches
      split
      · exact .refl store
      · split_ifs
        · exact .refl store
        · exact .refl store
        · exact hcreate
    have hdone := hmatches { requireNoActiveRun, threadStatusIn := some ‹_› }
    split <;> rename_i heq <;> rw [heq] at hdone <;> exact hdone

section Admission
variable [WireJson J]

/-- Displacing settles rows, one after the other, and adds none. -/
theorem displaceAll_rowsMove (action : CancelAction) (draws : AdmissionDraws)
    (displaced : List (Displacement J)) (store : MemorySkeinStore J) :
    RowsMove store (displaceAll action draws displaced store).2 none ∧
      ∀ k, (displaceAll action draws displaced store).2.runs.get? k = none →
        store.runs.get? k = none := by
  induction displaced generalizing store with
  | nil => exact ⟨.refl store, fun _ h => h⟩
  | cons item rest ih =>
    rw [displaceAll]
    have hsettle := store.runsSettle_rowsMove item.runId item.settlement
      (draws.deliveryUuid item.runId) draws.now
    split
    next e mid hmid =>
      rw [runsSettle_error hmid]
      exact ⟨.refl store, fun _ h => h⟩
    next settled mid hmid =>
      rw [hmid] at hsettle
      obtain ⟨hrest, hnone⟩ := ih (mid.dispatchSettled settled (some action) draws.now)
      obtain ⟨final, -, rfl, rfl⟩ := runsSettle_ok hmid
      have hkept : ∀ k, ((store.settleFinal item.runId final (draws.deliveryUuid item.runId)
          draws.now).2.dispatchSettled (store.settleFinal item.runId final
            (draws.deliveryUuid item.runId) draws.now).1 (some action) draws.now).runs.get? k = none →
          store.runs.get? k = none := by
        intro k h
        rw [dispatchSettled_runs] at h
        exact settleFinal_get?_eq_none h
      refine ⟨(hsettle.congr (dispatchSettled_runs ..)).trans hkept hrest, fun k h => ?_⟩
      exact hkept k (hnone k h)

/-- What an admission commits adds the admitted run and no other. -/
theorem commitAdmission_rowsMove (store : MemorySkeinStore J) (input : RunAdmission J)
    (prepared : RunCreate J) (displaced : List (Displacement J)) (draws : AdmissionDraws) :
    RowsMove store (store.commitAdmission input prepared displaced draws).2
      (some (prepared.runId.getD draws.runUuid, draws.now)) := by
  obtain ⟨hdisplaced, hnone⟩ := displaceAll_rowsMove
    (displacementAction prepared.multitaskStrategy) draws displaced store
  unfold commitAdmission
  split
  next mid hmid =>
    rw [hmid] at hdisplaced
    exact hdisplaced.weaken
  next mid hmid =>
    rw [hmid] at hdisplaced hnone
    have hcreate := mid.createRun_rowsMove prepared draws.runUuid draws.now
    split <;> rename_i created hcreated <;> rw [hcreated] at hcreate
    · exact hdisplaced.trans hnone hcreate
    · exact hdisplaced.trans hnone (hcreate.congr (by simp))

/-- An admission adds at most the run it names, created now. -/
theorem admitRun_rowsMove (store : MemorySkeinStore J) (input : RunAdmission J)
    (draws : AdmissionDraws) :
    RowsMove store (store.admitRun input draws).2
      (some (input.run.runId.getD draws.runUuid, draws.now)) := by
  unfold admitRun
  split_ifs
  · exact .refl store
  split
  · exact .refl store
  · exact .refl store
  split
  · exact .refl store
  rename_i prepared displaced hguards
  have hid := (RunCreate.roundTrip_eq_some (admissionGuards_ok hguards).serialized).2.2.1
  have hguard := store.resumeGuard_runs input.expectedRunId prepared.threadId
  split <;> rename_i guarded hresume <;> rw [hresume] at hguard
  · exact .of_runs hguard
  split_ifs
  · exact .of_runs hguard
  · have hcommit := guarded.commitAdmission_rowsMove input prepared displaced draws
    intro k run' hrun'
    rw [← hguard, ← hid]
    exact hcommit k run' hrun'

end Admission
end MemorySkeinStore
end Skein
