import Skein.AdmissionLaws
import Skein.TenantView

/-!
# Tenant isolation

Callers share one driver, each behind the filters of its own request. What others write leaves
the rows of a tenant as they are, and with them every read of the tenant, as long as no row can
belong to both and the tenant's runs and crons sit on its own threads.
-/
namespace Skein
open MemorySkeinStore

namespace Table
variable {κ α : Type*} {key : α → κ} [DecidableEq κ]

/-- Writing an entry that is not seen over one that is not seen. -/
theorem filter_setEntry {k : κ} {v : α} {p : α → Bool} (hv : p v = false) (l : List (κ × α))
    (hold : ∀ e ∈ l, e.1 = k → p e.2 = false) :
    (OrderedMap.setEntry k v l).filter (fun e => p e.2) = l.filter fun e => p e.2 := by
  induction l with
  | nil => simp [OrderedMap.setEntry, hv]
  | cons e rest ih =>
    by_cases hk : e.1 = k
    · have he := hold e (by simp) hk
      simp [OrderedMap.setEntry, hk, hv, he]
    · have hrest := ih fun e' he' => hold e' (by simp [he'])
      simp [OrderedMap.setEntry, hk, List.filter_cons, hrest]

/-- A write over a hidden row, or of a new one, that stays hidden. -/
theorem filter_write {t : Table κ α key} {v : α} {p : α → Bool} (hv : p v = false)
    (hold : ∀ u, t.get? (key v) = some u → p u = false) : (t.write v).filter p = t.filter p := by
  refine ext_entries (filter_setEntry hv t.entries fun e he hk => hold e.2 ?_)
  exact hk ▸ (OrderedMap.mem_entries_iff _ _ _).mp he

theorem filter_filter_of_imp {t : Table κ α key} {p q : α → Bool}
    (h : ∀ v, t.get? (key v) = some v → p v = true → q v = true) :
    (t.filter q).filter p = t.filter p := by
  refine ext_entries ?_
  simp only [filter, OrderedMap.filter, List.filter_filter]
  refine List.filter_congr fun e he => ?_
  have hget : t.get? (key e.2) = some e.2 := by
    rw [t.keyed e he]
    exact (OrderedMap.mem_entries_iff _ _ _).mp he
  cases hp : p e.2 with
  | false => simp
  | true => simp [h e.2 hget hp]

/-- Erasing an entry that is not seen. -/
theorem filter_erase {t : Table κ α key} {k : κ} {p : α → Bool}
    (hold : ∀ u, t.get? k = some u → p u = false) : (t.erase k).filter p = t.filter p := by
  have herase : t.erase k = t.filter fun v => key v ≠ k := by
    refine ext_entries (List.filter_congr fun e he => ?_)
    simp [t.keyed e he]
  rw [herase]
  refine filter_filter_of_imp fun v hv hp => ?_
  simp only [decide_eq_true_eq]
  intro hk
  rw [hold v (hk ▸ hv)] at hp
  cases hp

end Table

/-- A tenant's rows, and the results of its runs, are those they were. -/
structure SameOwned (owns : Json → Bool) (store store' : MemorySkeinStore Json) : Prop where
  threads : store'.threads.filter (fun thread => owns thread.metadata) =
    store.threads.filter fun thread => owns thread.metadata
  runs : store'.runs.filter (fun run => owns run.metadata) =
    store.runs.filter fun run => owns run.metadata
  crons : store'.crons.filter (fun cron => owns cron.metadata) =
    store.crons.filter fun cron => owns cron.metadata
  results : ∀ k run, store.runs.get? k = some run → owns run.metadata = true →
    store'.runResults.get? k = store.runResults.get? k
  maxPageSize : store'.maxPageSize = store.maxPageSize

/-- The tenant's runs and crons sit on the tenant's threads. -/
structure Housed (owns : Json → Bool) (store : MemorySkeinStore Json) : Prop where
  runs : ∀ k run, store.runs.get? k = some run → owns run.metadata = true →
    ∃ thread, store.threads.get? run.threadId = some thread ∧ owns thread.metadata = true
  crons : ∀ k cron, store.crons.get? k = some cron → owns cron.metadata = true →
    ∀ threadId, cron.threadId = some threadId →
      ∃ thread, store.threads.get? threadId = some thread ∧ owns thread.metadata = true

namespace SameOwned
variable {owns : Json → Bool} {store mid store' : MemorySkeinStore Json}

theorem refl (store : MemorySkeinStore Json) : SameOwned owns store store :=
  ⟨rfl, rfl, rfl, fun _ _ _ _ => rfl, rfl⟩

theorem thread_iff (h : SameOwned owns store store') (k : ThreadId) (thread : Thread Json) :
    (store'.threads.get? k = some thread ∧ owns thread.metadata = true) ↔
      (store.threads.get? k = some thread ∧ owns thread.metadata = true) := by
  have hget := congrArg (fun t => t.get? k = some thread) h.threads
  simpa only [Table.get?_filter, Option.filter_eq_some_iff, eq_iff_iff] using hget

theorem run_iff (h : SameOwned owns store store') (k : RunId) (run : Run Json) :
    (store'.runs.get? k = some run ∧ owns run.metadata = true) ↔
      (store.runs.get? k = some run ∧ owns run.metadata = true) := by
  have hget := congrArg (fun t => t.get? k = some run) h.runs
  simpa only [Table.get?_filter, Option.filter_eq_some_iff, eq_iff_iff] using hget

theorem cron_iff (h : SameOwned owns store store') (k : CronId) (cron : Cron Json) :
    (store'.crons.get? k = some cron ∧ owns cron.metadata = true) ↔
      (store.crons.get? k = some cron ∧ owns cron.metadata = true) := by
  have hget := congrArg (fun t => t.get? k = some cron) h.crons
  simpa only [Table.get?_filter, Option.filter_eq_some_iff, eq_iff_iff] using hget

theorem trans (h : SameOwned owns store mid) (h' : SameOwned owns mid store') :
    SameOwned owns store store' where
  threads := h'.threads.trans h.threads
  runs := h'.runs.trans h.runs
  crons := h'.crons.trans h.crons
  results := fun k run hrun howned => by
    have hmid := (h.run_iff k run).mpr ⟨hrun, howned⟩
    rw [h'.results k run hmid.1 hmid.2, h.results k run hrun howned]
  maxPageSize := h'.maxPageSize.trans h.maxPageSize

/-- A tenant's rows that are housed stay so where its rows are the same. -/
theorem housed (h : SameOwned owns store store') (hh : Housed owns store) : Housed owns store' where
  runs := fun k run hrun howned => by
    have hbefore := (h.run_iff k run).mp ⟨hrun, howned⟩
    obtain ⟨thread, hthread⟩ := hh.runs k run hbefore.1 hbefore.2
    exact ⟨thread, (h.thread_iff _ _).mpr hthread⟩
  crons := fun k cron hcron howned threadId hid => by
    have hbefore := (h.cron_iff k cron).mp ⟨hcron, howned⟩
    obtain ⟨thread, hthread⟩ := hh.crons k cron hbefore.1 hbefore.2 threadId hid
    exact ⟨thread, (h.thread_iff _ _).mpr hthread⟩

/-- What writes none of the tables read. -/
theorem of_eq (hthreads : store'.threads = store.threads) (hruns : store'.runs = store.runs)
    (hcrons : store'.crons = store.crons) (hresults : store'.runResults = store.runResults)
    (hsize : store'.maxPageSize = store.maxPageSize) : SameOwned owns store store' where
  threads := by rw [hthreads]
  runs := by rw [hruns]
  crons := by rw [hcrons]
  results := fun _ _ _ _ => by rw [hresults]
  maxPageSize := hsize

end SameOwned

/-- The run under `k`, if there is one, is not the tenant's. -/
def HiddenRun (owns : Json → Bool) (store : MemorySkeinStore Json) (k : RunId) : Prop :=
  ∀ run, store.runs.get? k = some run → owns run.metadata = false

/-- A run that is not the tenant's stays none. -/
theorem SameOwned.hiddenRun {owns : Json → Bool} {store store' : MemorySkeinStore Json}
    (h : SameOwned owns store store') {k : RunId} (hk : HiddenRun owns store k) :
    HiddenRun owns store' k := by
  intro run hrun
  by_contra howned
  rw [Bool.not_eq_false] at howned
  have hbefore := (h.run_iff k run).mp ⟨hrun, howned⟩
  rw [hk run hbefore.1] at hbefore
  exact Bool.false_ne_true hbefore.2

section Runs
variable {owns : Json → Bool} {store : MemorySkeinStore Json}

/-- A run of somebody else is written over nothing or over a run of somebody else. -/
theorem writeRun_same (run : Run Json) (hrun : owns run.metadata = false)
    (hold : HiddenRun owns store run.runId) (kwargs : OrderedMap RunId (RunKwargs Json)) :
    SameOwned owns store { store with runs := store.runs.write run, runKwargs := kwargs } where
  threads := rfl
  runs := Table.filter_write hrun hold
  crons := rfl
  results := fun _ _ _ _ => rfl
  maxPageSize := rfl

theorem writeStatus_same {run : Run Json} {k : RunId} (hk : HiddenRun owns store k)
    (hrun : store.runs.get? k = some run) (status : RunStatus) (error : Option Json)
    (now : Timestamp) : SameOwned owns store (store.writeStatus run status error now) := by
  have hid : run.runId = k := Table.key_of_get? hrun
  exact writeRun_same { run with status, error, updatedAt := now } (hk run hrun) (hid ▸ hk) _

/-- Each write to a hidden run leaves the tenant's rows as they are. -/
theorem runsSetStatus_same {runId : RunId} (hk : HiddenRun owns store runId) (status : RunStatus)
    (error : Option Json) (now : Timestamp) :
    SameOwned owns store (store.runsSetStatus runId status error now).2 := by
  unfold runsSetStatus
  split
  · exact .refl store
  next existing hexisting =>
    split_ifs
    · exact .refl store
    · exact writeStatus_same hk hexisting status error now

theorem setResult_same {runId : RunId} (hk : HiddenRun owns store runId) (result : Json) :
    SameOwned owns store { store with runResults := store.runResults.set runId result } where
  threads := rfl
  runs := rfl
  crons := rfl
  results := fun k run hrun howned => by
    have hne : runId ≠ k := by
      intro heq
      rw [hk run (heq ▸ hrun)] at howned
      exact Bool.false_ne_true howned
    exact OrderedMap.get?_set_of_ne _ _ hne
  maxPageSize := rfl

theorem runsRecordResult_same {runId : RunId} (hk : HiddenRun owns store runId) (result : Json) :
    SameOwned owns store (store.runsRecordResult runId result).2 := by
  unfold runsRecordResult
  split_ifs
  · split
    · exact .refl store
    · exact setResult_same hk _
  · exact .refl store

/-- A settlement writes the run, its result and its delivery. -/
theorem settleFinal_same {runId : RunId} (hk : HiddenRun owns store runId)
    (final : RunSettlement Json) (uuid : DeliveryId) (now : Timestamp) :
    SameOwned owns store (store.settleFinal runId final uuid now).2 := by
  have hrow : SameOwned owns store (store.settleRow runId final now) := by
    unfold settleRow
    split
    · exact .refl store
    next run hrun =>
      split_ifs
      · exact .refl store
      · exact writeStatus_same hk hrun _ _ now
  have hresult : SameOwned owns (store.settleRow runId final now)
      ((store.settleRow runId final now).settleResult runId final) := by
    unfold settleResult
    split
    · split_ifs
      · exact setResult_same (hrow.hiddenRun hk) _
      · exact .refl _
    · exact .refl _
  refine (hrow.trans hresult).trans ?_
  rw [settleFinal, settleDelivery_frame]
  exact .of_eq rfl rfl rfl rfl rfl

theorem runsSettle_same {runId : RunId} (hk : HiddenRun owns store runId)
    (input : RunSettlement Json) (uuid : DeliveryId) (now : Timestamp) :
    SameOwned owns store (store.runsSettle runId input uuid now).2 := by
  unfold runsSettle
  split
  · exact .refl store
  · exact settleFinal_same hk _ uuid now

theorem insertClaimed_same (runId : RunId) (runStatus : RunStatus) (input : DeliveryCreate Json)
    (uuid : DeliveryId) (now : Timestamp) :
    SameOwned owns store (store.insertClaimed runId runStatus input uuid now).2 := by
  unfold insertClaimed
  split_ifs
  · exact .of_eq rfl rfl rfl rfl rfl
  · exact .refl store

/-- As for a settlement, whatever its delivery throws. -/
theorem runsFinalizeWithDelivery_same {runId : RunId} (hk : HiddenRun owns store runId)
    (final : RunFinalization Json) (uuid : DeliveryId) (now : Timestamp) :
    SameOwned owns store (store.runsFinalizeWithDelivery runId final uuid now).2 := by
  unfold runsFinalizeWithDelivery
  split
  · exact insertClaimed_same _ _ _ uuid now
  next existing hexisting =>
    split_ifs
    · exact insertClaimed_same _ _ _ uuid now
    · exact (writeStatus_same hk hexisting _ _ now).trans (insertClaimed_same _ _ _ uuid now)

theorem runsDelete_same {runId : RunId} (hk : HiddenRun owns store runId) :
    SameOwned owns store (store.runsDelete runId) where
  threads := rfl
  runs := Table.filter_erase hk
  crons := rfl
  results := fun k run hrun howned => by
    have hne : runId ≠ k := by
      intro heq
      rw [hk run (heq ▸ hrun)] at howned
      exact Bool.false_ne_true howned
    exact (OrderedMap.get?_erase _ _ _).trans (if_neg hne)
  maxPageSize := rfl

/-- A new run that is not the tenant's. -/
theorem createRun_same {input : RunCreate Json} {metadata : Json}
    (hmetadata : input.metadata = some metadata) (hforeign : owns metadata = false) (uuid : RunId)
    (now : Timestamp) : SameOwned owns store (store.createRun input uuid now).2 := by
  simp only [createRun]
  split_ifs with hused
  · exact .refl store
  · refine writeRun_same _ (by simpa [hmetadata] using hforeign) ?_ _
    intro run hrun
    rw [OrderedMap.contains, hrun] at hused
    exact absurd rfl hused

theorem runsCreateIfThreadIdle_same {input : RunCreate Json} {metadata : Json}
    (hmetadata : input.metadata = some metadata) (hforeign : owns metadata = false) (uuid : RunId)
    (now : Timestamp) : SameOwned owns store (store.runsCreateIfThreadIdle input uuid now).2 := by
  unfold runsCreateIfThreadIdle
  split_ifs
  · exact .refl store
  · exact createRun_same hmetadata hforeign uuid now

theorem runsCreateIfThreadMatches_same {input : RunCreate Json} {metadata : Json}
    (hmetadata : input.metadata = some metadata) (hforeign : owns metadata = false)
    (guard : RunCreateGuard) (uuid : RunId) (now : Timestamp) :
    SameOwned owns store (store.runsCreateIfThreadMatches input guard uuid now).2 := by
  unfold runsCreateIfThreadMatches
  split
  · exact .refl store
  · split_ifs
    · exact .refl store
    · exact .refl store
    · exact createRun_same hmetadata hforeign uuid now

theorem dispatchSettled_same (settled : SettledRun Json) (action : Option CancelAction)
    (now : Timestamp) : SameOwned owns store (store.dispatchSettled settled action now) := by
  unfold dispatchSettled
  cases settled.run with
  | none => exact .refl store
  | some run => exact .of_eq rfl rfl rfl rfl rfl

/-- Displaced runs are those of the thread, which is somebody else's. -/
theorem displaceAll_same (action : CancelAction) (draws : AdmissionDraws)
    (displaced : List (Displacement Json)) (store : MemorySkeinStore Json)
    (hhidden : ∀ item ∈ displaced, HiddenRun owns store item.runId) :
    SameOwned owns store (displaceAll action draws displaced store).2 := by
  induction displaced generalizing store with
  | nil => exact .refl store
  | cons item rest ih =>
    have hsettle := runsSettle_same (hhidden item (by simp)) item.settlement
      (draws.deliveryUuid item.runId) draws.now
    rw [displaceAll]
    split
    next e settled heq => rwa [heq] at hsettle
    next settled next heq =>
      rw [heq] at hsettle
      have hstep := hsettle.trans (dispatchSettled_same settled (some action) draws.now)
      refine hstep.trans (ih _ fun other hother => hstep.hiddenRun ?_)
      exact hhidden other (by simp [hother])

/-- As many displaced runs as active ones, and each active one among them. -/
theorem displaced_active {active : List (Run Json)} {displaced : List (Displacement Json)}
    (hnodup : (active.map Run.runId).Nodup) (hlength : active.length = displaced.length)
    (hall : ∀ run ∈ active, ∃ item ∈ displaced, item.runId = run.runId) :
    ∀ item ∈ displaced, ∃ run ∈ active, run.runId = item.runId := by
  have hsubset : active.map Run.runId ⊆ displaced.map Displacement.runId := by
    intro k hk
    obtain ⟨run, hrun, rfl⟩ := List.mem_map.mp hk
    obtain ⟨item, hitem, heq⟩ := hall run hrun
    exact List.mem_map.mpr ⟨item, hitem, heq⟩
  have hperm : (active.map Run.runId).Perm (displaced.map Displacement.runId) :=
    (List.subperm_of_subset hnodup hsubset).perm_of_length_le (by simp [hlength])
  intro item hitem
  have hmem : item.runId ∈ active.map Run.runId :=
    hperm.mem_iff.mpr (List.mem_map.mpr ⟨item, hitem, rfl⟩)
  exact List.mem_map.mp hmem

/-- What passes the guards displaces active runs of the thread it is for. -/
theorem admissionGuards_displaced {input : RunAdmission Json} {prepared : RunCreate Json}
    {displaced : List (Displacement Json)}
    (h : store.admissionGuards input = .ok (prepared, displaced)) :
    ∀ item ∈ displaced, ∃ run ∈ store.activeRuns prepared.threadId, run.runId = item.runId := by
  unfold admissionGuards at h
  split at h
  · cases h
  next prepared' hprepared =>
    split_ifs at h
    split at h
    · cases h
    next thread hthread =>
      split_ifs at h
      split at h
      · cases h
      next displaced' hdisplaced =>
        have hid : thread.threadId = prepared'.threadId := Table.key_of_get? hthread
        dsimp only at h
        split_ifs at h with hobserved hidle
        cases h
        rw [hid] at hobserved
        intro item hitem
        have hne : displaced ≠ [] := List.ne_nil_of_mem hitem
        have hlength : (store.activeRuns prepared.threadId).length = displaced.length := by
          by_contra hlength
          exact hobserved ⟨hne, .inl hlength⟩
        refine displaced_active ?_ hlength (fun run hrun => ?_) item hitem
        · exact store.runs.nodup_map_key.sublist (List.filter_sublist.map _)
        · by_contra hmissing
          exact hobserved ⟨hne, .inr ⟨run, hrun, fun item hitem heq =>
            hmissing ⟨item, hitem, heq⟩⟩⟩

/-- What an admission reads back of the run it was given. -/
theorem roundTrip_stamped {input prepared : RunCreate Json} {metadata : Json}
    (hmetadata : input.metadata = some metadata) (h : input.roundTrip = some prepared) :
    prepared.metadata = some metadata ∧ prepared.threadId = input.threadId := by
  have hparse : WireJson.roundTrip metadata = some metadata := Json.parse_stringify metadata
  rw [RunCreate.roundTrip, hmetadata] at h
  obtain ⟨read, hread, hrest⟩ := Option.bind_eq_some_iff.mp h
  obtain ⟨kwargs, -, hprepared⟩ := Option.bind_eq_some_iff.mp hrest
  cases hprepared
  exact ⟨by simpa [roundTripOption, hparse] using hread.symm, rfl⟩

/-- An admission on somebody else's thread, stamped with somebody else. -/
theorem admitRun_same {input : RunAdmission Json} {metadata : Json}
    (hmetadata : input.run.metadata = some metadata) (hforeign : owns metadata = false)
    (hthread : ∀ run ∈ store.activeRuns input.run.threadId, owns run.metadata = false)
    (draws : AdmissionDraws) : SameOwned owns store (store.admitRun input draws).2 := by
  unfold admitRun
  split_ifs
  · exact .refl store
  split
  · exact .refl store
  · exact .refl store
  split
  · exact .refl store
  next prepared displaced hguards =>
    have hprepared := roundTrip_stamped hmetadata (admissionGuards_ok hguards).serialized
    have hguard : SameOwned owns store
        (store.resumeGuard input.expectedRunId prepared.threadId).2 := by
      rw [resumeGuard_frame]
      exact .of_eq rfl rfl rfl rfl rfl
    have hhidden : ∀ item ∈ displaced, HiddenRun owns store item.runId := by
      intro item hitem run hrun
      obtain ⟨active, hactive, hid⟩ := admissionGuards_displaced hguards item hitem
      rw [← hid, (mem_activeRuns.mp hactive).1] at hrun
      exact Option.some.inj hrun ▸ hthread active (hprepared.2 ▸ hactive)
    split
    next e guarded hresume => rwa [hresume] at hguard
    next guarded hresume =>
      rw [hresume] at hguard
      split_ifs
      · exact hguard
      have hdisplaced := displaceAll_same (displacementAction prepared.multitaskStrategy) draws
        displaced guarded fun item hitem => hguard.hiddenRun (hhidden item hitem)
      refine hguard.trans ?_
      unfold commitAdmission
      split
      next e settled heq => rwa [heq] at hdisplaced
      next settled heq =>
        rw [heq] at hdisplaced
        have hcreated : SameOwned owns settled
            (settled.createRun prepared draws.runUuid draws.now).2 :=
          createRun_same hprepared.1 hforeign draws.runUuid draws.now
        refine hdisplaced.trans ?_
        split
        next e created hcreate => rwa [hcreate] at hcreated
        next run created hcreate =>
          rw [hcreate] at hcreated
          refine hcreated.trans ?_
          cases input.expectedRunId <;> exact .of_eq rfl rfl rfl rfl rfl

theorem admitCancel_same {input : CancelAdmission Json} (hk : HiddenRun owns store input.runId)
    (draws : AdmissionDraws) : SameOwned owns store (store.admitCancel input draws).2 := by
  unfold admitCancel
  split
  · exact .refl store
  · exact .refl store
  split
  · exact .refl store
  split
  · exact .refl store
  dsimp only
  split_ifs
  · exact .of_eq rfl rfl rfl rfl rfl
  have hsettle := runsSettle_same hk { status := ⟨.cancelled, rfl⟩, delivery := input.delivery }
    (draws.deliveryUuid input.runId) draws.now
  split
  next e settled heq => rwa [heq] at hsettle
  next settled next heq =>
    rw [heq] at hsettle
    have hstep := hsettle.trans (dispatchSettled_same settled input.action draws.now)
    exact hstep.trans (.of_eq rfl rfl rfl rfl rfl)

end Runs

section Rows
variable {owns : Json → Bool} {store : MemorySkeinStore Json}

theorem writeThread_same {thread : Thread Json} (hthread : owns thread.metadata = false)
    (hold : ∀ u, store.threads.get? thread.threadId = some u → owns u.metadata = false) :
    SameOwned owns store { store with threads := store.threads.write thread } where
  threads := Table.filter_write hthread hold
  runs := rfl
  crons := rfl
  results := fun _ _ _ _ => rfl
  maxPageSize := rfl

theorem threadsCreate_same {input : ThreadCreate Json} {metadata : Json}
    (hmetadata : input.metadata = some metadata) (hforeign : owns metadata = false)
    (uuid : ThreadId) (now : Timestamp) :
    SameOwned owns store (store.threadsCreate input uuid now).2 := by
  simp only [threadsCreate]
  split_ifs with hused
  · exact .refl store
  · refine writeThread_same (by simpa [hmetadata] using hforeign) fun u hu => ?_
    rw [OrderedMap.contains, hu] at hused
    exact absurd rfl hused

/-- A patch that gives nothing to the tenant. -/
theorem threadsUpdate_same {threadId : ThreadId} {patch : ThreadUpdate Json}
    (hk : ∀ u, store.threads.get? threadId = some u → owns u.metadata = false)
    (hpatch : ∀ metadata, patch.metadata = some metadata → owns metadata = false)
    (now : Timestamp) : SameOwned owns store (store.threadsUpdate threadId patch now).2 := by
  unfold threadsUpdate
  split
  · exact .refl store
  next existing hexisting =>
    have hid : existing.threadId = threadId := Table.key_of_get? hexisting
    refine writeThread_same ?_ fun u hu => hk u (hid ▸ hu)
    cases hmetadata : patch.metadata with
    | none => simpa [patchedThread, hmetadata] using hk existing hexisting
    | some metadata => simpa [patchedThread, hmetadata] using hpatch metadata hmetadata

theorem threadsCopy_same {threadId uuid : ThreadId}
    (hk : ∀ u, store.threads.get? threadId = some u → owns u.metadata = false)
    (hfresh : store.threads.contains uuid = false) (now : Timestamp) :
    SameOwned owns store (store.threadsCopy threadId uuid now).2 := by
  unfold threadsCopy
  split
  · exact .refl store
  next existing hexisting =>
    refine writeThread_same (hk existing hexisting) fun u hu => ?_
    rw [OrderedMap.contains, show store.threads.get? uuid = some u from hu] at hfresh
    cases hfresh

/-- Deleting a thread deletes its runs one after the other. -/
theorem foldl_runsDelete_same (runs : List (Run Json)) (store : MemorySkeinStore Json)
    (h : ∀ run ∈ runs, HiddenRun owns store run.runId) :
    SameOwned owns store (runs.foldl (fun s run => s.runsDelete run.runId) store) := by
  induction runs generalizing store with
  | nil => exact .refl store
  | cons run rest ih =>
    have hstep := runsDelete_same (h run (by simp))
    exact hstep.trans (ih _ fun other hother => hstep.hiddenRun (h other (by simp [hother])))

/-- The cascade takes no run and no cron of a tenant that is housed. -/
theorem threadsDelete_same {threadId : ThreadId} (hh : Housed owns store)
    (hk : ∀ u, store.threads.get? threadId = some u → owns u.metadata = false) :
    SameOwned owns store (store.threadsDelete threadId) := by
  have herase : SameOwned owns store
      { store with threads := store.threads.erase threadId } :=
    ⟨Table.filter_erase hk, rfl, rfl, fun _ _ _ _ => rfl, rfl⟩
  have hruns : ∀ run ∈ store.runs.values.filter fun run => run.threadId = threadId,
      HiddenRun owns store run.runId := by
    intro run hrun found hfound
    rw [List.mem_filter, Table.mem_values_iff, decide_eq_true_eq] at hrun
    rw [hrun.1] at hfound
    by_contra howned
    rw [Bool.not_eq_false, ← Option.some.inj hfound] at howned
    obtain ⟨thread, hthread, hthread'⟩ := hh.runs _ run hrun.1 howned
    rw [hk thread (hrun.2 ▸ hthread)] at hthread'
    cases hthread'
  have hcascade := herase.trans (foldl_runsDelete_same _ _ fun run hrun =>
    herase.hiddenRun (hruns run hrun))
  have hhoused := hcascade.housed hh
  refine hcascade.trans ⟨rfl, rfl, Table.filter_filter_of_imp ?_, fun _ _ _ _ => rfl, rfl⟩
  intro cron hcron howned
  simp only [ne_eq, decide_not, Bool.not_eq_true', decide_eq_false_iff_not]
  intro hid
  obtain ⟨thread, hthread⟩ := hhoused.crons _ cron hcron howned threadId hid
  have hbefore := (hcascade.thread_iff _ _).mp hthread
  rw [hk thread hbefore.1] at hbefore
  exact Bool.false_ne_true hbefore.2

theorem writeCron_same (cron : Cron Json) (hcron : owns cron.metadata = false)
    (hold : ∀ u, store.crons.get? cron.cronId = some u → owns u.metadata = false)
    (cronAuth : OrderedMap CronId Json) (cronSeq : OrderedMap CronId ℕ) :
    SameOwned owns store
      { store with crons := store.crons.write cron, cronAuth := cronAuth, cronSeq := cronSeq } where
  threads := rfl
  runs := rfl
  crons := Table.filter_write hcron hold
  results := fun _ _ _ _ => rfl
  maxPageSize := rfl

theorem cronsCreate_same {input : CronCreate Json} {metadata : Json}
    (hmetadata : input.metadata = some metadata) (hforeign : owns metadata = false)
    (uuid : CronId) (now : Timestamp) :
    SameOwned owns store (store.cronsCreate input uuid now).2 := by
  simp only [cronsCreate]
  split_ifs with hused
  · exact .refl store
  · refine writeCron_same _ (by simpa [hmetadata] using hforeign) (fun u hu => ?_) _ _
    rw [OrderedMap.contains, hu] at hused
    exact absurd rfl hused

/-- The metadata of the patch is merged over that of the row. -/
theorem cronsUpdate_same {cronId : CronId} {patch : CronUpdate Json}
    (hk : ∀ u, store.crons.get? cronId = some u → owns u.metadata = false)
    (hpatch : ∀ u, owns u = false →
      owns (patch.metadata.elim u (WireJson.spread u)) = false)
    (now : Timestamp) : SameOwned owns store (store.cronsUpdate cronId patch now).2 := by
  unfold cronsUpdate
  split
  · exact .refl store
  next existing hexisting =>
    have hid : existing.cronId = cronId := Table.key_of_get? hexisting
    exact writeCron_same (existing.patched patch now) (hpatch _ (hk existing hexisting))
      (fun u hu => hk u (hid ▸ hu)) _ _

theorem cronsDelete_same {cronId : CronId}
    (hk : ∀ u, store.crons.get? cronId = some u → owns u.metadata = false) :
    SameOwned owns store (store.cronsDelete cronId) :=
  ⟨rfl, rfl, Table.filter_erase hk, fun _ _ _ _ => rfl, rfl⟩

end Rows

/-- What the wrapper does not see to itself: `randomUUID` draws an identifier that no thread has,
and a caller finalizes no run but its own. -/
def ScopedWrite.Proper (matchesFilters : Json → AuthFilters → Bool) (filters : AuthFilters)
    (store : MemorySkeinStore Json) : ScopedWrite → Prop
  | threadsCopy _ uuid _ => store.threads.contains uuid = false
  | runsFinalizeWithDelivery runId _ _ _ =>
    ∀ run, store.runs.get? runId = some run → matchesFilters run.metadata filters = true
  | _ => True

section Others
variable {matchesFilters : Json → AuthFilters → Bool} {owns : Json → Bool}
  {filters : AuthFilters} {store : MemorySkeinStore Json}

/-- No row belongs to the tenant and to the caller. -/
structure Foreign (owns : Json → Bool) (filters : AuthFilters) : Prop where
  stampable : filters.isStampable = true
  disjoint : ∀ metadata, filters.asks metadata = true → owns metadata = false

/-- A stamped row is not the tenant's. -/
theorem Foreign.stamp (hforeign : Foreign owns filters) (metadata : Option Json) :
    owns (stampFromFilters metadata filters) = false :=
  hforeign.disjoint _ ((asks_stampFromFilters filters metadata).trans hforeign.stampable)

theorem Foreign.spread (hforeign : Foreign owns filters) (existing : Json)
    (metadata : Option Json) :
    owns (WireJson.spread existing (stampFromFilters metadata filters)) = false :=
  hforeign.disjoint _
    ((asks_spread_stampFromFilters filters metadata existing).trans hforeign.stampable)

variable (hengine : MirrorsClauses matchesFilters) (hforeign : Foreign owns filters)
include hengine hforeign

/-- What a foreign caller sees is not the tenant's. -/
theorem disjoint_engine {metadata : Json} (h : matchesFilters metadata filters = true) :
    owns metadata = false :=
  hforeign.disjoint metadata (by rwa [hengine] at h)

/-- Behind the guard only rows that the caller sees are written. -/
theorem guardThread_same {α : Type} {threadId : ThreadId} {call : Completion Json α}
    (h : (∀ u, store.threads.get? threadId = some u → owns u.metadata = false) →
      SameOwned owns store call.2) :
    SameOwned owns store (guardThread matchesFilters filters store threadId call).2 := by
  unfold guardThread
  split_ifs with hfound
  · refine h fun u hu => ?_
    exact disjoint_engine hengine hforeign (by simpa [scopedThreadsGet, threadsGet, hu] using hfound)
  · exact .refl store

theorem guardRun_same {α : Type} {runId : RunId} {call : Completion Json α}
    (h : HiddenRun owns store runId → SameOwned owns store call.2) :
    SameOwned owns store (guardRun matchesFilters filters store runId call).2 := by
  unfold guardRun
  split_ifs with hfound
  · refine h fun u hu => ?_
    exact disjoint_engine hengine hforeign (by simpa [scopedRunsGet, runsGet, hu] using hfound)
  · exact .refl store

theorem guardCron_same {α : Type} {cronId : CronId} {call : Completion Json α}
    (h : (∀ u, store.crons.get? cronId = some u → owns u.metadata = false) →
      SameOwned owns store call.2) :
    SameOwned owns store (guardCron matchesFilters filters store cronId call).2 := by
  unfold guardCron
  split_ifs with hfound
  · refine h fun u hu => ?_
    exact disjoint_engine hengine hforeign (by simpa [scopedCronsGet, cronsGet, hu] using hfound)
  · exact .refl store

omit hengine in
theorem scopedThreadsCreate_same (input : ThreadCreate Json) (uuid : ThreadId) (now : Timestamp) :
    SameOwned owns store (scopedThreadsCreate matchesFilters filters store input uuid now).2 := by
  have hcreate : SameOwned owns store (store.threadsCreate
      { input with metadata := some (stampFromFilters input.metadata filters) } uuid now).2 :=
    threadsCreate_same rfl (hforeign.stamp input.metadata) uuid now
  unfold scopedThreadsCreate
  split
  · split_ifs
    · exact hcreate
    · exact .refl store
  · exact hcreate

/-- Each write of another caller leaves the tenant's rows alone. -/
theorem scopedWrite_same (hh : Housed owns store) (write : ScopedWrite)
    (hproper : write.Proper matchesFilters filters store) :
    SameOwned owns store (scopedWrite matchesFilters filters store write) := by
  cases write with
  | threadsCreate input uuid now => exact scopedThreadsCreate_same hforeign input uuid now
  | threadsUpdate threadId patch now =>
    refine guardThread_same hengine hforeign fun hk => threadsUpdate_same hk ?_ now
    intro metadata hmetadata
    obtain ⟨given, -, rfl⟩ := Option.map_eq_some_iff.mp hmetadata
    exact hforeign.stamp (some given)
  | threadsCopy threadId uuid now =>
    exact guardThread_same hengine hforeign fun hk => threadsCopy_same hk hproper now
  | threadsDelete threadId =>
    exact guardThread_same hengine hforeign fun hk => threadsDelete_same hh hk
  | runsCreate input uuid now => exact createRun_same rfl (hforeign.stamp input.metadata) uuid now
  | runsCreateIfThreadIdle input uuid now =>
    exact runsCreateIfThreadIdle_same rfl (hforeign.stamp input.metadata) uuid now
  | runsCreateIfThreadMatches input guard uuid now =>
    exact runsCreateIfThreadMatches_same rfl (hforeign.stamp input.metadata) guard uuid now
  | runsSetStatus runId status error now =>
    exact guardRun_same hengine hforeign fun hk => runsSetStatus_same hk status error now
  | runsSettle runId final uuid now =>
    exact guardRun_same hengine hforeign fun hk => runsSettle_same hk final uuid now
  | runsRecordResult runId result =>
    exact guardRun_same hengine hforeign fun hk => runsRecordResult_same hk result
  | runsFinalizeWithDelivery runId final uuid now =>
    exact runsFinalizeWithDelivery_same
      (fun run hrun => disjoint_engine hengine hforeign (hproper run hrun)) final uuid now
  | runsDelete runId => exact guardRun_same hengine hforeign fun hk => runsDelete_same hk
  | admitRun input draws =>
    refine guardThread_same hengine hforeign fun hk =>
      admitRun_same rfl (hforeign.stamp input.run.metadata) ?_ draws
    intro run hrun
    obtain ⟨hget, hid, -⟩ := mem_activeRuns.mp hrun
    by_contra howned
    rw [Bool.not_eq_false] at howned
    obtain ⟨thread, hthread, hthread'⟩ := hh.runs _ run hget howned
    rw [hk thread (hid ▸ hthread)] at hthread'
    cases hthread'
  | admitCancel input draws =>
    exact guardRun_same hengine hforeign fun hk => admitCancel_same hk draws
  | cronsCreate input uuid now =>
    exact cronsCreate_same rfl (hforeign.stamp input.metadata) uuid now
  | cronsUpdate cronId patch now =>
    refine guardCron_same hengine hforeign fun hk => cronsUpdate_same hk ?_ now
    intro u hu
    cases hmetadata : patch.metadata with
    | none => simpa [hmetadata] using hu
    | some given => simpa [hmetadata] using hforeign.spread u (some given)
  | cronsDelete cronId => exact guardCron_same hengine hforeign fun hk => cronsDelete_same hk

end Others

section Calls
variable (matchesFilters : Json → AuthFilters → Bool)

/-- Writes of several callers, in the order they happen. -/
def scopedWrites (calls : List (AuthFilters × ScopedWrite)) (store : MemorySkeinStore Json) :
    MemorySkeinStore Json :=
  calls.foldl (fun store call => scopedWrite matchesFilters call.1 store call.2) store

/-- Every copy draws an identifier that no thread has, and every finalized run is its caller's. -/
def ProperWrites : List (AuthFilters × ScopedWrite) → MemorySkeinStore Json → Prop
  | [], _ => True
  | call :: rest, store => call.2.Proper matchesFilters call.1 store ∧
      ProperWrites rest (scopedWrite matchesFilters call.1 store call.2)

variable {matchesFilters}

/-- Any number of writes by any number of foreign callers. -/
theorem scopedWrites_same (hengine : MirrorsClauses matchesFilters) {owns : Json → Bool}
    (calls : List (AuthFilters × ScopedWrite)) (hforeign : ∀ call ∈ calls, Foreign owns call.1)
    (store : MemorySkeinStore Json) (hh : Housed owns store)
    (hproper : ProperWrites matchesFilters calls store) :
    SameOwned owns store (scopedWrites matchesFilters calls store) := by
  induction calls generalizing store with
  | nil => exact .refl store
  | cons call rest ih =>
    have hstep := scopedWrite_same hengine (hforeign call (by simp)) hh call.2 hproper.1
    exact hstep.trans (ih (fun other hother => hforeign other (by simp [hother])) _
      (hstep.housed hh) hproper.2)

/-- The rows a tenant reads, and the answers with them. -/
theorem SameOwned.plainRead {tenant : AuthFilters} {store store' : MemorySkeinStore Json}
    (h : SameOwned (fun metadata => matchesFilters metadata tenant) store store')
    (read : ScopedRead) :
    Skein.plainRead (ownedStore matchesFilters tenant store') read =
      Skein.plainRead (ownedStore matchesFilters tenant store) read := by
  have hthreads : (ownedStore matchesFilters tenant store').threads =
      (ownedStore matchesFilters tenant store).threads := h.threads
  have hruns : (ownedStore matchesFilters tenant store').runs =
      (ownedStore matchesFilters tenant store).runs := h.runs
  have hcrons : (ownedStore matchesFilters tenant store').crons =
      (ownedStore matchesFilters tenant store).crons := h.crons
  have hsize : (ownedStore matchesFilters tenant store').maxPageSize =
      (ownedStore matchesFilters tenant store).maxPageSize := h.maxPageSize
  cases read with
  | threadsGet threadId => simp only [Skein.plainRead, threadsGet, hthreads]
  | threadsSearch query =>
    simp only [Skein.plainRead, threadsSearch, matchingThreads, pageLimit, hthreads, hsize]
  | threadsList => simp only [Skein.plainRead, threadsList, pageLimit, hthreads, hsize]
  | threadsCount query => simp only [Skein.plainRead, threadsCount, matchingThreads, hthreads]
  | runsGet runId => simp only [Skein.plainRead, runsGet, hruns]
  | runsSearch query => simp only [Skein.plainRead, runsSearch, pageLimit, hruns, hsize]
  | runsGetResult runId =>
    simp only [Skein.plainRead, runsGetResult, hruns]
    split_ifs with hfound
    · obtain ⟨run, hrun⟩ := Option.isSome_iff_exists.mp hfound
      rw [ownedStore, Table.get?_filter, Option.filter_eq_some_iff] at hrun
      exact congrArg ScopedAnswer.result (h.results runId run hrun.1 hrun.2)
    · rfl
  | runsListByThread threadId query =>
    simp only [Skein.plainRead, runsListPage, runsListByThread, hruns]
  | cronsGet cronId => simp only [Skein.plainRead, cronsGet, hcrons]
  | cronsSearch query =>
    simp only [Skein.plainRead, cronsSearch, matchingCrons, pageLimit, hcrons, hsize]
  | cronsCount query => simp only [Skein.plainRead, cronsCount, matchingCrons, hcrons]

/-- Whatever other callers write, and in whatever order, a tenant reads what it read before. -/
theorem scopedReads_isolated (hengine : MirrorsClauses matchesFilters) (tenant : AuthFilters)
    (calls : List (AuthFilters × ScopedWrite)) (store : MemorySkeinStore Json)
    (hh : Housed (fun metadata => matchesFilters metadata tenant) store)
    (hforeign : ∀ call ∈ calls,
      Foreign (fun metadata => matchesFilters metadata tenant) call.1)
    (hproper : ProperWrites matchesFilters calls store) (read : ScopedRead) :
    scopedRead matchesFilters tenant (scopedWrites matchesFilters calls store) read =
      scopedRead matchesFilters tenant store read := by
  have hsame := scopedWrites_same hengine calls hforeign store hh hproper
  rw [scopedRead_owned hengine, scopedRead_owned hengine, hsame.plainRead]

end Calls

/-- What Bob finalizes his run with. -/
def bobFinal : RunFinalization Json where
  status := .success
  delivery := {
    threadId := .of "t2", url := "/hook", payload := none, nextAttemptAt := 6, expiresAt := 9 }

/-- Bob takes the names of Ann's rows, and finalizes and deletes what he made. -/
def bobCalls : List (AuthFilters × ScopedWrite) :=
  [.threadsCreate { threadId := some (.of "t1") } (.of "t2") 3, .threadsCreate {} (.of "t2") 3,
    .runsSetStatus (.of "r1") .cancelled none 4, .runsDelete (.of "r1"),
    .runsCreate { threadId := .of "t2", assistantId := .of "a1" } (.of "r2") 5,
    .runsFinalizeWithDelivery (.of "r2") bobFinal (.of "d1") 6,
    .threadsDelete (.of "t1"), .threadsDelete (.of "t2")].map (ownerFilter "bob", ·)

theorem bob_foreign :
    Foreign (fun metadata => plainEngine metadata (ownerFilter "ann")) (ownerFilter "bob") where
  stampable := rfl
  disjoint := fun metadata h => by
    simp only [ownerFilter, AuthFilters.asks, plainEngine, List.all_cons, List.all_nil,
      AuthFilterValue.asks, Bool.and_true] at h ⊢
    cases hmember : metadata.member? "owner" with
    | none => simp
    | some v =>
      rw [hmember] at h
      cases v <;> simp_all [isText]

/-- The one run of the store is on the one thread, and both are Ann's. -/
theorem annStore_housed :
    Housed (fun metadata => plainEngine metadata (ownerFilter "ann")) annStore where
  runs := fun k run hrun _ => by
    rw [annStore, Table.get?_write] at hrun
    split_ifs at hrun
    · exact ⟨annThread, by rw [← Option.some.inj hrun]; rfl, rfl⟩
    · cases hrun
  crons := fun k cron hcron => by cases hcron

theorem bobCalls_proper : ProperWrites plainEngine bobCalls annStore := by
  refine ⟨trivial, trivial, trivial, trivial, trivial, fun run hrun => ?_, trivial, trivial,
    trivial⟩
  obtain rfl := Option.some.inj hrun
  rfl

theorem annReads_isolated :
    scopedRead plainEngine (ownerFilter "ann") (scopedWrites plainEngine bobCalls annStore)
        (.runsGet (.of "r1")) = .ok (.runs [annRun]) :=
  (scopedReads_isolated (fun _ _ => rfl) (ownerFilter "ann") bobCalls annStore annStore_housed
    (fun call hcall => by
      obtain ⟨write, -, rfl⟩ := List.mem_map.mp hcall
      exact bob_foreign)
    bobCalls_proper (.runsGet (.of "r1"))).trans rfl

end Skein
