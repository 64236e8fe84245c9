import Skein.Admission

/-!
# One admission call

What `admitRun` and `admitCancel` can do, said once: a call replays a receipt,
throws before it writes, or commits. The later results about histories of calls
and about the active runs of a thread use these cases and never the definitions.
-/
namespace Skein
namespace MemorySkeinStore
variable {J : Type*}

@[simp] theorem dispatch_runs (store : MemorySkeinStore J) (run : Run J) (kind : DispatchKind)
    (action : Option CancelAction) (now : Timestamp) :
    (store.dispatch run kind action now).runs = store.runs := rfl

@[simp] theorem dispatch_idempotency (store : MemorySkeinStore J) (run : Run J)
    (kind : DispatchKind) (action : Option CancelAction) (now : Timestamp) :
    (store.dispatch run kind action now).idempotency = store.idempotency := rfl

@[simp] theorem dispatch_resumeReservations (store : MemorySkeinStore J) (run : Run J)
    (kind : DispatchKind) (action : Option CancelAction) (now : Timestamp) :
    (store.dispatch run kind action now).resumeReservations = store.resumeReservations := rfl

@[simp] theorem recordAdmission_runs (store : MemorySkeinStore J) (input : AdmissionKey)
    (run : Run J) (claimUuid : String) :
    (store.recordAdmission input run claimUuid).2.runs = store.runs := rfl

@[simp] theorem recordAdmission_resumeReservations (store : MemorySkeinStore J)
    (input : AdmissionKey) (run : Run J) (claimUuid : String) :
    (store.recordAdmission input run claimUuid).2.resumeReservations =
      store.resumeReservations := rfl

theorem recordAdmission_get? (store : MemorySkeinStore J) (input : AdmissionKey) (run : Run J)
    (claimUuid : String) (k : String × String) :
    (store.recordAdmission input run claimUuid).2.idempotency.get? k =
      if input.coordinate = k then some (admissionRecord input run claimUuid)
      else store.idempotency.get? k :=
  Table.get?_write _ _ _

@[simp] theorem reserveResume_runs (store : MemorySkeinStore J) (expectedRunId : Option RunId)
    (runId : RunId) : (store.reserveResume expectedRunId runId).runs = store.runs := by
  cases expectedRunId <;> rfl

@[simp] theorem reserveResume_idempotency (store : MemorySkeinStore J)
    (expectedRunId : Option RunId) (runId : RunId) :
    (store.reserveResume expectedRunId runId).idempotency = store.idempotency := by
  cases expectedRunId <;> rfl

@[simp] theorem dispatchSettled_runs (store : MemorySkeinStore J) (settled : SettledRun J)
    (action : Option CancelAction) (now : Timestamp) :
    (store.dispatchSettled settled action now).runs = store.runs := by
  unfold dispatchSettled
  cases settled.run <;> rfl

@[simp] theorem dispatchSettled_idempotency (store : MemorySkeinStore J) (settled : SettledRun J)
    (action : Option CancelAction) (now : Timestamp) :
    (store.dispatchSettled settled action now).idempotency = store.idempotency := by
  unfold dispatchSettled
  cases settled.run <;> rfl

@[simp] theorem dispatchSettled_resumeReservations (store : MemorySkeinStore J)
    (settled : SettledRun J) (action : Option CancelAction) (now : Timestamp) :
    (store.dispatchSettled settled action now).resumeReservations =
      store.resumeReservations := by
  unfold dispatchSettled
  cases settled.run <;> rfl

@[simp] theorem settleFinal_idempotency (store : MemorySkeinStore J) (runId : RunId)
    (final : RunSettlement J) (uuid : DeliveryId) (now : Timestamp) :
    (store.settleFinal runId final uuid now).2.idempotency = store.idempotency := by
  rw [settleFinal_frame]

@[simp] theorem settleFinal_resumeReservations (store : MemorySkeinStore J) (runId : RunId)
    (final : RunSettlement J) (uuid : DeliveryId) (now : Timestamp) :
    (store.settleFinal runId final uuid now).2.resumeReservations =
      store.resumeReservations := by
  rw [settleFinal_frame]

theorem dispatchSettled_settleFinal_get? (store : MemorySkeinStore J) (runId : RunId)
    (final : RunSettlement J) (uuid : DeliveryId) (now : Timestamp)
    (action : Option CancelAction) (k : RunId) :
    ((store.settleFinal runId final uuid now).2.dispatchSettled
      (store.settleFinal runId final uuid now).1 action now).runs.get? k =
      if k = runId then (store.runs.get? k).map fun run => settledRun run final now
      else store.runs.get? k := by
  rw [dispatchSettled_runs, settleFinal_get?]

/-- What settling the runs `ids` does to the rest of the store: rows are neither
added nor removed, the named ones are terminal afterwards, all others are kept. -/
structure Displaced (ids : List RunId) (store store' : MemorySkeinStore J) : Prop where
  idempotency : store'.idempotency = store.idempotency
  resumeReservations : store'.resumeReservations = store.resumeReservations
  contains : ∀ k, store'.runs.contains k = store.runs.contains k
  kept : ∀ k, k ∉ ids → store'.runs.get? k = store.runs.get? k
  frozen : ∀ k run, store.runs.get? k = some run → run.status.isTerminal = true →
    store'.runs.get? k = some run
  settled : ∀ k, k ∈ ids → ∀ run, store'.runs.get? k = some run → run.status.isTerminal = true

namespace Displaced
variable {ids : List RunId} {store store' : MemorySkeinStore J}

theorem refl (store : MemorySkeinStore J) : Displaced [] store store where
  idempotency := rfl
  resumeReservations := rfl
  contains := fun _ => rfl
  kept := fun _ _ => rfl
  frozen := fun _ _ h _ => h
  settled := by simp

/-- A terminal run is left as it is. -/
theorem of_isTerminal {runId : RunId} {run : Run J} (hrun : store.runs.get? runId = some run)
    (hterm : run.status.isTerminal = true) : Displaced [runId] store store where
  idempotency := rfl
  resumeReservations := rfl
  contains := fun _ => rfl
  kept := fun _ _ => rfl
  frozen := fun _ _ h _ => h
  settled := by
    rintro k hk run' hrun'
    rw [List.mem_singleton.mp hk, hrun] at hrun'
    exact Option.some.inj hrun' ▸ hterm

/-- One more settled run in front of a batch. -/
theorem cons {runId : RunId} {final : RunSettlement J} {uuid : DeliveryId} {now : Timestamp}
    {action : Option CancelAction}
    (h : Displaced ids ((store.settleFinal runId final uuid now).2.dispatchSettled
      (store.settleFinal runId final uuid now).1 action now) store') :
    Displaced (runId :: ids) store store' where
  idempotency := h.idempotency.trans (by simp)
  resumeReservations := h.resumeReservations.trans (by simp)
  contains := by
    intro k
    rw [h.contains k]
    simp only [OrderedMap.contains, dispatchSettled_settleFinal_get?]
    split_ifs <;> simp
  kept := by
    intro k hk
    simp only [List.mem_cons, not_or] at hk
    rw [h.kept k hk.2, dispatchSettled_settleFinal_get?, if_neg hk.1]
  frozen := by
    intro k run hrun hterm
    refine h.frozen k run ?_ hterm
    rw [dispatchSettled_settleFinal_get?, hrun, Option.map_some,
      settledRun_of_isTerminal hterm, ite_self]
  settled := by
    intro k hk run hrun
    by_cases hki : k ∈ ids
    · exact h.settled k hki run hrun
    · have hkr : k = runId := (List.mem_cons.mp hk).resolve_right hki
      rw [h.kept k hki, dispatchSettled_settleFinal_get?, if_pos hkr] at hrun
      obtain ⟨old, -, rfl⟩ := Option.map_eq_some_iff.mp hrun
      exact settledRun_isTerminal old final now

end Displaced

theorem clearStaleReservation_frame (store : MemorySkeinStore J) (expected : RunId) :
    store.clearStaleReservation expected = { store with
      resumeReservations := (store.clearStaleReservation expected).resumeReservations } := by
  unfold clearStaleReservation
  split
  · rfl
  · split_ifs <;> rfl

/-- The reservation guard writes nothing but a stale reservation. -/
theorem resumeGuard_frame (store : MemorySkeinStore J) (expectedRunId : Option RunId)
    (threadId : ThreadId) :
    (store.resumeGuard expectedRunId threadId).2 = { store with
      resumeReservations := (store.resumeGuard expectedRunId threadId).2.resumeReservations } := by
  cases expectedRunId with
  | none => rfl
  | some expected =>
    have hcleared := store.clearStaleReservation_frame expected
    simp only [resumeGuard]
    split_ifs <;> exact hcleared

theorem resumeGuard_runs (store : MemorySkeinStore J) (expectedRunId : Option RunId)
    (threadId : ThreadId) : (store.resumeGuard expectedRunId threadId).2.runs = store.runs := by
  rw [resumeGuard_frame]

theorem resumeGuard_idempotency (store : MemorySkeinStore J) (expectedRunId : Option RunId)
    (threadId : ThreadId) :
    (store.resumeGuard expectedRunId threadId).2.idempotency = store.idempotency := by
  rw [resumeGuard_frame]

/-- Every reservation is held by a run that still exists. -/
def ReservationsLive (store : MemorySkeinStore J) : Prop :=
  ∀ expected admitted, store.resumeReservations.get? expected = some admitted →
    store.runs.contains admitted = true

theorem clearStaleReservation_of_live {store : MemorySkeinStore J}
    (hlive : store.ReservationsLive) (expected : RunId) :
    store.clearStaleReservation expected = store := by
  unfold clearStaleReservation
  cases hres : store.resumeReservations.get? expected with
  | none => rfl
  | some reservation => exact if_pos (hlive expected reservation hres)

/-- With no stale reservation to clear, the guard only reads. -/
theorem resumeGuard_of_live {store guarded : MemorySkeinStore J} {expectedRunId : Option RunId}
    {threadId : ThreadId} {result : Except Thrown Unit} (hlive : store.ReservationsLive)
    (h : store.resumeGuard expectedRunId threadId = (result, guarded)) :
    guarded = store ∧ (result = .ok () → ∀ expected, expectedRunId = some expected →
      store.resumeReservations.get? expected = none) := by
  cases expectedRunId with
  | none =>
    cases h
    exact ⟨rfl, by simp⟩
  | some expected =>
    simp only [resumeGuard] at h
    rw [clearStaleReservation_of_live hlive] at h
    split_ifs at h with hstale
    · cases h
      exact ⟨rfl, by simp⟩
    · cases h
      refine ⟨rfl, fun _ x hx => ?_⟩
      cases hx
      rw [not_or] at hstale
      exact (OrderedMap.contains_eq_false_iff _ _).mp (by simpa using hstale.2)

variable [WireJson J]

theorem displaceAll_displaced (action : CancelAction) (draws : AdmissionDraws)
    (displaced : List (Displacement J))
    (hparsed : ∀ item ∈ displaced, item.settlement.roundTrip = some item.settlement)
    (store : MemorySkeinStore J) :
    ∃ store', displaceAll action draws displaced store = (.ok (), store') ∧
      Displaced (displaced.map Displacement.runId) store store' := by
  induction displaced generalizing store with
  | nil => exact ⟨store, rfl, .refl store⟩
  | cons item rest ih =>
    obtain ⟨hitem, hrest⟩ := List.forall_mem_cons.mp hparsed
    simp only [displaceAll, runsSettle_of_roundTrip hitem]
    obtain ⟨store', hdone, hdisplaced⟩ := ih hrest
      ((store.settleFinal item.runId item.settlement (draws.deliveryUuid item.runId)
        draws.now).2.dispatchSettled (store.settleFinal item.runId item.settlement
          (draws.deliveryUuid item.runId) draws.now).1 (some action) draws.now)
    exact ⟨store', hdone, hdisplaced.cons⟩

theorem roundTripDisplacements_parsed {displacements displaced : List (Displacement J)}
    (h : roundTripDisplacements displacements = some displaced) :
    displaced.length = displacements.length ∧
      ∀ item ∈ displaced, item.settlement.roundTrip = some item.settlement := by
  induction displacements generalizing displaced with
  | nil =>
    cases h
    exact ⟨rfl, by simp⟩
  | cons item rest ih =>
    simp only [roundTripDisplacements, List.mapM_cons, Option.bind_eq_bind,
      Option.bind_eq_some_iff, Option.map_eq_some_iff] at h
    obtain ⟨first, ⟨final, hfinal, rfl⟩, others, hothers, h⟩ := h
    cases h
    obtain ⟨hlength, hparsed⟩ := ih hothers
    refine ⟨by simp [hlength], ?_⟩
    rintro other hother
    rcases List.mem_cons.mp hother with rfl | hother
    · exact RunSettlement.roundTrip_parsed _ _ hfinal
    · exact hparsed other hother

/-- What the reading guards of `admitRun` establish. -/
structure GuardsPassed (store : MemorySkeinStore J) (input : RunAdmission J)
    (prepared : RunCreate J) (displaced : List (Displacement J)) : Prop where
  serialized : input.run.roundTrip = some prepared
  unused : prepared.runId.any store.runs.contains = false
  thread : store.threads.contains prepared.threadId = true
  displacements : roundTripDisplacements input.displacements = some displaced
  observed : displaced ≠ [] → ∀ run ∈ store.activeRuns prepared.threadId,
    run.runId ∈ displaced.map Displacement.runId
  idle : input.guard.requireNoActiveRun = true → store.activeRuns prepared.threadId = []

theorem admissionGuards_ok {store : MemorySkeinStore J} {input : RunAdmission J}
    {prepared : RunCreate J} {displaced : List (Displacement J)}
    (h : store.admissionGuards input = .ok (prepared, displaced)) :
    GuardsPassed store input prepared displaced := by
  unfold admissionGuards at h
  split at h
  · cases h
  next prepared' hprepared =>
    split_ifs at h with hunused
    split at h
    · cases h
    next thread hthread =>
      have hid : thread.threadId = prepared'.threadId := Table.key_of_get? hthread
      split_ifs at h with hstatus
      split at h
      · cases h
      next displaced' hdisplaced =>
        dsimp only at h
        split_ifs at h with hobserved hidle
        cases h
        rw [hid] at hobserved hidle
        exact {
          serialized := hprepared
          unused := by simpa using hunused
          thread := by simp [OrderedMap.contains, hthread]
          displacements := hdisplaced
          observed := by
            intro hne run hrun
            by_contra hmem
            refine hobserved ⟨hne, .inr ⟨run, hrun, fun item hitem heq => hmem ?_⟩⟩
            exact List.mem_map.mpr ⟨item, hitem, heq⟩
          idle := fun hrequire => by
            by_contra hactive
            exact hidle ⟨hrequire, hactive⟩ }

/-- Inserting a run under an unused identifier writes one row and its payload. -/
theorem createRun_unused {store : MemorySkeinStore J} {input : RunCreate J} {uuid : RunId}
    (now : Timestamp) (h : store.runs.contains (input.runId.getD uuid) = false) :
    ∃ run created, store.createRun input uuid now = (.ok run, created) ∧
      (∃ runKwargs, created = { store with runs := store.runs.write run, runKwargs }) ∧
      run.runId = input.runId.getD uuid ∧ run.threadId = input.threadId ∧
      run.status = input.status.getD .pending := by
  unfold createRun
  rw [if_neg (by simpa using h)]
  exact ⟨_, _, rfl, ⟨_, rfl⟩, rfl, rfl, rfl⟩

theorem createRun_used {store : MemorySkeinStore J} {input : RunCreate J} {uuid : RunId}
    (now : Timestamp) (h : store.runs.contains (input.runId.getD uuid) = true) :
    ∃ e, store.createRun input uuid now = (.error e, store) := by
  unfold createRun
  rw [if_pos (by simpa using h)]
  exact ⟨_, rfl⟩

/-- A committed admission: the displaced runs are settled, then one fresh run is
inserted, reserved and recorded under the caller's key. -/
structure Committed (store store' : MemorySkeinStore J) (input : RunAdmission J)
    (prepared : RunCreate J) (ids : List RunId) (receipt : AdmissionReceipt) (mid : MemorySkeinStore J)
    (run : Run J) (claimUuid : String) : Prop where
  displaced : Displaced ids store mid
  unused : store.runs.contains run.runId = false
  threadId : run.threadId = prepared.threadId
  status : run.status = prepared.status.getD .pending
  runs : store'.runs = mid.runs.write run
  receipt : receipt = ⟨input.key, run.runId, run.threadId⟩
  resumeReservations : store'.resumeReservations =
    (store.reserveResume input.expectedRunId run.runId).resumeReservations
  idempotency : store'.idempotency =
    (store.recordAdmission input.toAdmissionKey run claimUuid).2.idempotency

theorem commitAdmission_committed {store : MemorySkeinStore J} (input : RunAdmission J)
    {prepared : RunCreate J} {displaced : List (Displacement J)} {draws : AdmissionDraws}
    (hparsed : ∀ item ∈ displaced, item.settlement.roundTrip = some item.settlement)
    (hunused : store.runs.contains (prepared.runId.getD draws.runUuid) = false) :
    ∃ receipt store' mid run,
      store.commitAdmission input prepared displaced draws = (.ok receipt, store') ∧
        Committed store store' input prepared (displaced.map Displacement.runId) receipt mid run
          draws.claimUuid := by
  obtain ⟨mid, hmid, hdisplaced⟩ := displaceAll_displaced
    (displacementAction prepared.multitaskStrategy) draws displaced hparsed store
  obtain ⟨run, created, hcreate, ⟨runKwargs, rfl⟩, hid, hthread, hstatus⟩ :=
    createRun_unused draws.now ((hdisplaced.contains _).trans hunused)
  refine ⟨_, _, mid, run, by simp only [commitAdmission, hmid, hcreate]; rfl, ?_⟩
  exact {
    displaced := hdisplaced
    unused := hid ▸ hunused
    threadId := hthread
    status := hstatus
    runs := by simp
    receipt := rfl
    resumeReservations := by
      rw [recordAdmission_resumeReservations, dispatch_resumeReservations]
      cases input.expectedRunId with
      | none => exact hdisplaced.resumeReservations
      | some expected => simp [reserveResume, hdisplaced.resumeReservations]
    idempotency := by
      simp [recordAdmission, hdisplaced.idempotency] }

/-- The only way a commit can fail is a collision of the inserted identifier. -/
theorem commitAdmission_used {store : MemorySkeinStore J} (input : RunAdmission J)
    {prepared : RunCreate J} {displaced : List (Displacement J)} {draws : AdmissionDraws}
    (hparsed : ∀ item ∈ displaced, item.settlement.roundTrip = some item.settlement)
    (hused : store.runs.contains (prepared.runId.getD draws.runUuid) = true) :
    ∃ e store', store.commitAdmission input prepared displaced draws = (.error e, store') := by
  obtain ⟨mid, hmid, hdisplaced⟩ := displaceAll_displaced
    (displacementAction prepared.multitaskStrategy) draws displaced hparsed store
  obtain ⟨e, hcreate⟩ := createRun_used draws.now ((hdisplaced.contains _).trans hused)
  refine ⟨e, mid, ?_⟩
  simp only [commitAdmission, hmid, hcreate]

/-- What a commit that fails has left of the idempotency records: all of them. -/
theorem commitAdmission_error_idempotency {store store' : MemorySkeinStore J}
    {input : RunAdmission J} {prepared : RunCreate J} {displaced : List (Displacement J)}
    {draws : AdmissionDraws} {e : Thrown}
    (hparsed : ∀ item ∈ displaced, item.settlement.roundTrip = some item.settlement)
    (h : store.commitAdmission input prepared displaced draws = (.error e, store')) :
    store'.idempotency = store.idempotency := by
  cases hused : store.runs.contains (prepared.runId.getD draws.runUuid) with
  | false =>
    obtain ⟨receipt, committed, mid, run, hok, -⟩ := commitAdmission_committed input hparsed hused
    rw [hok] at h
    cases h
  | true =>
    obtain ⟨mid, hmid, hdisplaced⟩ := displaceAll_displaced
      (displacementAction prepared.multitaskStrategy) draws displaced hparsed store
    obtain ⟨e', hcreate⟩ := createRun_used draws.now ((hdisplaced.contains _).trans hused)
    simp only [commitAdmission, hmid, hcreate] at h
    cases h
    exact hdisplaced.idempotency

theorem admitRun_ok {store store' : MemorySkeinStore J} {input : RunAdmission J}
    {draws : AdmissionDraws} {receipt : AdmissionReceipt}
    (h : store.admitRun input draws = (.ok receipt, store')) :
    (store.replayAdmission input.toAdmissionKey = .ok (some receipt) ∧ store' = store) ∨
    (store.replayAdmission input.toAdmissionKey = .ok none ∧
      ∃ prepared displaced guarded mid run, GuardsPassed store input prepared displaced ∧
        store.resumeGuard input.expectedRunId prepared.threadId = (.ok (), guarded) ∧
        Committed guarded store' input prepared (displaced.map Displacement.runId) receipt mid run
          draws.claimUuid) := by
  unfold admitRun at h
  split_ifs at h with haborted
  · cases h
  split at h
  · cases h
  next receipt' hreplay =>
    cases h
    exact .inl ⟨hreplay, rfl⟩
  next hreplay =>
    refine .inr ⟨hreplay, ?_⟩
    split at h
    · cases h
    next prepared displaced hguards =>
      have hpassed := admissionGuards_ok hguards
      have hparsed := (roundTripDisplacements_parsed hpassed.displacements).2
      split at h
      · cases h
      next guarded hresume =>
        split_ifs at h with hserialize
        · cases h
        have hunused : guarded.runs.contains (prepared.runId.getD draws.runUuid) = false := by
          by_contra hused
          obtain ⟨e, store'', hcommit⟩ :=
            commitAdmission_used input hparsed (by simpa using hused)
          rw [hcommit] at h
          cases h
        obtain ⟨receipt', store'', mid, run, hok, hcommitted⟩ :=
          commitAdmission_committed input hparsed hunused
        rw [hok] at h
        cases h
        exact ⟨prepared, displaced, guarded, mid, run, hpassed, hresume, hcommitted⟩

/-- A call that throws leaves the store as it was, when no reservation is stale and
the drawn identifier is fresh. -/
theorem admitRun_error {store store' : MemorySkeinStore J} {input : RunAdmission J}
    {draws : AdmissionDraws} {e : Thrown} (hlive : store.ReservationsLive)
    (hfresh : store.runs.contains draws.runUuid = false)
    (h : store.admitRun input draws = (.error e, store')) : store' = store := by
  unfold admitRun at h
  split_ifs at h with haborted
  · cases h
    rfl
  split at h
  · cases h
    rfl
  · cases h
  · split at h
    · cases h
      rfl
    next prepared displaced hguards =>
      have hpassed := admissionGuards_ok hguards
      have hparsed := (roundTripDisplacements_parsed hpassed.displacements).2
      split at h
      next hresume =>
        cases h
        exact (resumeGuard_of_live hlive hresume).1
      next guarded hresume =>
        obtain ⟨rfl, -⟩ := resumeGuard_of_live hlive hresume
        split_ifs at h with hserialize
        · cases h
          rfl
        have hunused : guarded.runs.contains (prepared.runId.getD draws.runUuid) = false := by
          cases hid : prepared.runId with
          | none => exact hfresh
          | some id => simpa [hid] using hpassed.unused
        obtain ⟨receipt, store'', mid, run, hok, -⟩ :=
          commitAdmission_committed input hparsed hunused
        rw [hok] at h
        cases h

/-- A call that throws leaves every idempotency record as it was, whatever else it did. -/
theorem admitRun_error_idempotency {store store' : MemorySkeinStore J} {input : RunAdmission J}
    {draws : AdmissionDraws} {e : Thrown}
    (h : store.admitRun input draws = (.error e, store')) :
    store'.idempotency = store.idempotency := by
  unfold admitRun at h
  split_ifs at h with haborted
  · cases h
    rfl
  split at h
  · cases h
    rfl
  · cases h
  · split at h
    · cases h
      rfl
    next prepared displaced hguards =>
      have hparsed := (roundTripDisplacements_parsed (admissionGuards_ok hguards).displacements).2
      have hguard := store.resumeGuard_idempotency input.expectedRunId prepared.threadId
      split at h <;> rename_i guarded hresume <;> rw [hresume] at hguard
      · cases h
        exact hguard
      · split_ifs at h with hserialize
        · cases h
          exact hguard
        · exact (commitAdmission_error_idempotency hparsed h).trans hguard

/-- A committed cancellation: the run is terminal, and the receipt names it. -/
structure Cancelled (store store' : MemorySkeinStore J) (input : CancelAdmission J)
    (receipt : AdmissionReceipt) (mid : MemorySkeinStore J) (run : Run J) (claimUuid : String) :
    Prop where
  displaced : Displaced [input.runId] store mid
  row : mid.runs.get? input.runId = some run
  receipt : receipt = ⟨input.key, run.runId, run.threadId⟩
  recorded : store' = (mid.recordAdmission input.toAdmissionKey run claimUuid).2

theorem admitCancel_ok {store store' : MemorySkeinStore J} {input : CancelAdmission J}
    {draws : AdmissionDraws} {receipt : AdmissionReceipt}
    (h : store.admitCancel input draws = (.ok receipt, store')) :
    (store.replayAdmission input.toAdmissionKey = .ok (some receipt) ∧ store' = store) ∨
    (store.replayAdmission input.toAdmissionKey = .ok none ∧
      ∃ mid run, Cancelled store store' input receipt mid run draws.claimUuid) := by
  unfold admitCancel at h
  split at h
  · cases h
  next receipt' hreplay =>
    cases h
    exact .inl ⟨hreplay, rfl⟩
  next hreplay =>
    refine .inr ⟨hreplay, ?_⟩
    split at h
    · cases h
    next existing hexisting =>
      split at h
      · cases h
      · dsimp only at h
        split_ifs at h with hterm
        · cases h
          exact ⟨store, existing, .of_isTerminal hexisting hterm, hexisting,
            by simp [hexisting, recordAdmission], by simp [hexisting]⟩
        · split at h
          · cases h
          next settled store'' hsettle =>
            cases h
            obtain ⟨final, -, rfl, rfl⟩ := runsSettle_ok hsettle
            have hrow := store.dispatchSettled_settleFinal_get? input.runId final
              (draws.deliveryUuid input.runId) draws.now input.action input.runId
            rw [if_pos rfl, hexisting, Option.map_some] at hrow
            exact ⟨_, _, (Displaced.refl _).cons, hrow, by rw [hrow]; rfl, by rw [hrow]; rfl⟩

theorem admitCancel_error {store store' : MemorySkeinStore J} {input : CancelAdmission J}
    {draws : AdmissionDraws} {e : Thrown}
    (h : store.admitCancel input draws = (.error e, store')) : store' = store := by
  unfold admitCancel at h
  split at h
  · cases h
    rfl
  · cases h
  · split at h
    · cases h
      rfl
    · split at h
      · cases h
        rfl
      · dsimp only at h
        split_ifs at h with hterm
        · cases h
        · split at h
          next hsettle =>
            cases h
            unfold runsSettle at hsettle
            split at hsettle
            · cases hsettle
              rfl
            · cases hsettle
          · cases h

end MemorySkeinStore
end Skein
