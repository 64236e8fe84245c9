import Skein.AdmissionLaws
import Skein.Machine

/-!
# Histories of admissions

Every sequence of admissions, settlements, status writes, creations and deletions
over one store. Along it a receipt is stable while its record is unexpired, a call
that throws changes nothing, and an interrupted run is consumed at most once. The
invariant that carries all three is that a reservation is held by a run that exists,
so the guard never has a stale one to clear.
-/
namespace Skein

inductive AdmissionCall (J : Type*)
  | run (input : RunAdmission J)
  | cancel (input : CancelAdmission J)

namespace AdmissionCall
variable {J : Type*}

def key : AdmissionCall J → AdmissionKey
  | .run input => input.toAdmissionKey
  | .cancel input => input.toAdmissionKey

/-- Only `admitRun` takes an abort signal. -/
def aborted : AdmissionCall J → Bool
  | .run input => input.aborted
  | .cancel _ => false

/-- The interrupted run a call resumes. -/
def expectedRunId : AdmissionCall J → Option RunId
  | .run input => input.expectedRunId
  | .cancel _ => none

/-- What a call that is not a replay leaves when it returns a receipt. -/
structure Accepted (call : AdmissionCall J) (store store' : MemorySkeinStore J)
    (receipt : AdmissionReceipt) (run : Run J) (claimUuid : String) : Prop where
  fresh : store.replayAdmission call.key = .ok none
  names : receipt = ⟨call.key.key, run.runId, run.threadId⟩
  idempotency : store'.idempotency = (store.recordAdmission call.key run claimUuid).2.idempotency
  grows : ∀ k, store.runs.contains k = true → store'.runs.contains k = true
  exists_run : store'.runs.contains receipt.runId = true
  unreserved : ∀ expected, call.expectedRunId = some expected →
    store.resumeReservations.get? expected = none
  resumeReservations : store'.resumeReservations =
    (store.reserveResume call.expectedRunId receipt.runId).resumeReservations

theorem accepted_of_committed {input : RunAdmission J} {store store' mid : MemorySkeinStore J}
    {prepared : RunCreate J} {ids : List RunId} {receipt : AdmissionReceipt} {run : Run J}
    {claimUuid : String} (hnew : store.replayAdmission input.toAdmissionKey = .ok none)
    (hunreserved : ∀ expected, input.expectedRunId = some expected →
      store.resumeReservations.get? expected = none)
    (h : store.Committed store' input prepared ids receipt mid run claimUuid) :
    (AdmissionCall.run input).Accepted store store' receipt run claimUuid where
  fresh := hnew
  names := h.receipt
  idempotency := h.idempotency
  grows := by
    intro k hk
    rw [h.runs]
    simp only [OrderedMap.contains, Table.get?_write]
    split_ifs
    · rfl
    · exact (h.displaced.contains k).trans hk
  exists_run := by
    rw [h.runs, h.receipt]
    simp [OrderedMap.contains, Table.get?_write]
  unreserved := hunreserved
  resumeReservations := by
    rw [h.resumeReservations, h.receipt]
    rfl

theorem accepted_of_cancelled {input : CancelAdmission J} {store store' mid : MemorySkeinStore J}
    {receipt : AdmissionReceipt} {run : Run J} {claimUuid : String}
    (hnew : store.replayAdmission input.toAdmissionKey = .ok none)
    (h : store.Cancelled store' input receipt mid run claimUuid) :
    (AdmissionCall.cancel input).Accepted store store' receipt run claimUuid where
  fresh := hnew
  names := h.receipt
  idempotency := by
    rw [h.recorded]
    simp [MemorySkeinStore.recordAdmission, h.displaced.idempotency, key]
  grows := by
    intro k hk
    rw [h.recorded]
    exact (h.displaced.contains k).trans hk
  exists_run := by
    rw [h.recorded, h.receipt, Table.key_of_get? h.row]
    simp [OrderedMap.contains, h.row]
  unreserved := by simp [expectedRunId]
  resumeReservations := by
    rw [h.recorded]
    exact h.displaced.resumeReservations

variable [WireJson J]

def perform (store : MemorySkeinStore J) (draws : AdmissionDraws) :
    AdmissionCall J → Completion J AdmissionReceipt
  | .run input => store.admitRun input draws
  | .cancel input => store.admitCancel input draws

/-- A call throws and changes nothing, replays and changes nothing, or is accepted. -/
theorem perform_cases (call : AdmissionCall J) {store : MemorySkeinStore J}
    {draws : AdmissionDraws} (hlive : store.ReservationsLive)
    (hfresh : store.runs.contains draws.runUuid = false) :
    (∃ e, call.perform store draws = (.error e, store)) ∨
    (∃ receipt, store.replayAdmission call.key = .ok (some receipt) ∧
      call.perform store draws = (.ok receipt, store)) ∨
    (∃ receipt store' run, call.perform store draws = (.ok receipt, store') ∧
      call.Accepted store store' receipt run draws.claimUuid) := by
  cases hdone : call.perform store draws with
  | mk result store' =>
    cases call with
    | run input =>
      cases result with
      | error e => exact .inl ⟨e, by rw [MemorySkeinStore.admitRun_error hlive hfresh hdone]⟩
      | ok receipt =>
        rcases MemorySkeinStore.admitRun_ok hdone with ⟨hreplay, rfl⟩ |
          ⟨hnew, prepared, displaced, guarded, mid, run, -, hresume, hcommitted⟩
        · exact .inr (.inl ⟨receipt, hreplay, rfl⟩)
        · obtain ⟨rfl, hunreserved⟩ := MemorySkeinStore.resumeGuard_of_live hlive hresume
          exact .inr (.inr ⟨receipt, store', run, rfl,
            accepted_of_committed hnew (hunreserved rfl) hcommitted⟩)
    | cancel input =>
      cases result with
      | error e => exact .inl ⟨e, by rw [MemorySkeinStore.admitCancel_error hdone]⟩
      | ok receipt =>
        rcases MemorySkeinStore.admitCancel_ok hdone with ⟨hreplay, rfl⟩ |
          ⟨hnew, mid, run, hcancelled⟩
        · exact .inr (.inl ⟨receipt, hreplay, rfl⟩)
        · exact .inr (.inr ⟨receipt, store', run, rfl, accepted_of_cancelled hnew hcancelled⟩)

/-- The predecessor and the admitted run of a call that just consumed one. -/
def consumes (call : AdmissionCall J) (store : MemorySkeinStore J)
    (result : Except Thrown AdmissionReceipt) : Option (RunId × RunId) :=
  match store.replayAdmission call.key, result with
  | .ok none, .ok receipt => call.expectedRunId.map (·, receipt.runId)
  | _, _ => none

end AdmissionCall

namespace MemorySkeinStore
variable {J : Type*}

/-- What settlements, status writes and creations do as far as admissions can see. -/
structure Extends (store store' : MemorySkeinStore J) : Prop where
  grows : ∀ k, store.runs.contains k = true → store'.runs.contains k = true
  resumeReservations : store'.resumeReservations = store.resumeReservations
  idempotency : store'.idempotency = store.idempotency

/-- What deletions do: a reservation goes exactly when one of its two runs goes. -/
structure Forgets (store store' : MemorySkeinStore J) : Prop where
  shrinks : ∀ k, store'.runs.contains k = true → store.runs.contains k = true
  sound : ∀ expected admitted, store'.resumeReservations.get? expected = some admitted →
    store.resumeReservations.get? expected = some admitted
  survives : ∀ expected admitted, store'.resumeReservations.get? expected = some admitted →
    store.runs.contains admitted = true → store'.runs.contains admitted = true
  kept : ∀ expected admitted, store.resumeReservations.get? expected = some admitted →
    store'.runs.contains expected = true → store'.runs.contains admitted = true →
    store'.resumeReservations.get? expected = some admitted
  idempotency : store'.idempotency = store.idempotency

theorem Forgets.refl (store : MemorySkeinStore J) : Forgets store store where
  shrinks := fun _ h => h
  sound := fun _ _ h => h
  survives := fun _ _ _ h => h
  kept := fun _ _ h _ _ => h
  idempotency := rfl

theorem Forgets.trans {s t u : MemorySkeinStore J} (h : Forgets s t) (h' : Forgets t u) :
    Forgets s u where
  shrinks := fun k hk => h.shrinks k (h'.shrinks k hk)
  sound := fun x r hr => h.sound x r (h'.sound x r hr)
  survives := fun x r hr hlive => h'.survives x r hr (h.survives x r (h'.sound x r hr) hlive)
  kept := fun x r hr hx hlive =>
    h'.kept x r (h.kept x r hr (h'.shrinks x hx) (h'.shrinks r hlive)) hx hlive
  idempotency := h'.idempotency.trans h.idempotency

theorem runsDelete_forgets (store : MemorySkeinStore J) (runId : RunId) :
    Forgets store (store.runsDelete runId) := by
  have hcontains : ∀ k, (store.runsDelete runId).runs.contains k = true ↔
      runId ≠ k ∧ store.runs.contains k = true := by
    intro k
    simp only [runsDelete, forgetAdmission, OrderedMap.contains, Table.get?_erase]
    split_ifs with hk <;> simp [hk]
  have hget : ∀ x r, (store.runsDelete runId).resumeReservations.get? x = some r ↔
      store.resumeReservations.get? x = some r ∧ x ≠ runId ∧ r ≠ runId := by
    intro x r
    simp [runsDelete, forgetAdmission, OrderedMap.get?_filter, Option.filter_eq_some_iff]
  exact {
    shrinks := fun k hk => ((hcontains k).mp hk).2
    sound := fun x r hr => ((hget x r).mp hr).1
    survives := fun x r hr hlive => (hcontains r).mpr ⟨((hget x r).mp hr).2.2.symm, hlive⟩
    kept := fun x r hr hx hlive => (hget x r).mpr
      ⟨hr, ((hcontains x).mp hx).1.symm, ((hcontains r).mp hlive).1.symm⟩
    idempotency := rfl }

theorem foldl_runsDelete_forgets (runs : List (Run J)) (store : MemorySkeinStore J) :
    Forgets store (runs.foldl (fun s run => s.runsDelete run.runId) store) := by
  induction runs generalizing store with
  | nil => exact .refl store
  | cons run runs ih => exact (store.runsDelete_forgets run.runId).trans (ih _)

theorem threadsDelete_forgets (store : MemorySkeinStore J) (threadId : ThreadId) :
    Forgets store (store.threadsDelete threadId) := by
  have h := foldl_runsDelete_forgets
    (store.runs.values.filter fun run => run.threadId = threadId)
    { store with threads := store.threads.erase threadId }
  exact ⟨h.shrinks, h.sound, h.survives, h.kept, h.idempotency⟩

theorem writeStatus_extends (store : MemorySkeinStore J) (run : Run J) (status : RunStatus)
    (error : Option J) (now : Timestamp) : Extends store (store.writeStatus run status error now) where
  grows := by
    intro k hk
    simp only [writeStatus, OrderedMap.contains, Table.get?_write]
    split_ifs
    · rfl
    · exact hk
  resumeReservations := rfl
  idempotency := rfl

theorem runsSetStatus_extends (store : MemorySkeinStore J) (runId : RunId) (status : RunStatus)
    (error : Option J) (now : Timestamp) :
    Extends store (store.runsSetStatus runId status error now).2 := by
  unfold runsSetStatus
  split
  · exact ⟨fun _ h => h, rfl, rfl⟩
  next existing _ =>
    split_ifs
    · exact ⟨fun _ h => h, rfl, rfl⟩
    · exact store.writeStatus_extends existing status error now

theorem createRun_extends [EmptyCollection J] (store : MemorySkeinStore J) (input : RunCreate J)
    (uuid : RunId) (now : Timestamp) : Extends store (store.createRun input uuid now).2 := by
  unfold createRun
  dsimp only
  split_ifs
  · exact ⟨fun _ h => h, rfl, rfl⟩
  · refine ⟨fun k hk => ?_, rfl, rfl⟩
    simp only [OrderedMap.contains, Table.get?_write]
    split_ifs
    · rfl
    · exact hk

theorem runsSettle_extends [WireJson J] (store : MemorySkeinStore J) (runId : RunId)
    (input : RunSettlement J) (uuid : DeliveryId) (now : Timestamp) :
    Extends store (store.runsSettle runId input uuid now).2 := by
  unfold runsSettle
  split
  · exact ⟨fun _ h => h, rfl, rfl⟩
  · refine ⟨fun k hk => ?_, by simp, by simp⟩
    simp only [OrderedMap.contains, settleFinal_get?]
    split_ifs
    · simpa [OrderedMap.contains] using hk
    · exact hk

end MemorySkeinStore

/-- The store and, as history, which admitted run consumed which interrupted one.
A pair is dropped when one of its two runs is deleted. -/
structure AdmissionWorld (J : Type*) where
  store : MemorySkeinStore J
  consumed : List (RunId × RunId) := []

inductive HistoryAction (J : Type*)
  | admission (call : AdmissionCall J) (draws : AdmissionDraws)
  | settle (runId : RunId) (final : RunSettlement J) (uuid : DeliveryId) (now : Timestamp)
  | setStatus (runId : RunId) (status : RunStatus) (error : Option J) (now : Timestamp)
  | create (input : RunCreate J) (uuid : RunId) (now : Timestamp)
  | deleteRun (runId : RunId)
  | deleteThread (threadId : ThreadId)

namespace AdmissionWorld
variable {J : Type*}

def advance (w : AdmissionWorld J) (store : MemorySkeinStore J)
    (consumed : Option (RunId × RunId)) : AdmissionWorld J :=
  ⟨store, (consumed.toList ++ w.consumed).filter fun pair =>
    store.runs.contains pair.1 && store.runs.contains pair.2⟩

/-- No reservation is stale, and every consumption is still reserved. -/
structure Inv (w : AdmissionWorld J) : Prop where
  live : w.store.ReservationsLive
  reserved : ∀ pair ∈ w.consumed, w.store.resumeReservations.get? pair.1 = some pair.2

theorem Inv.extends {w : AdmissionWorld J} {store' : MemorySkeinStore J} (hw : w.Inv)
    (h : w.store.Extends store') : (w.advance store' none).Inv where
  live := by
    intro x r hr
    exact h.grows r (hw.live x r (h.resumeReservations ▸ hr))
  reserved := by
    intro pair hpair
    have hold : pair ∈ w.consumed := by simpa [advance] using List.mem_of_mem_filter hpair
    exact h.resumeReservations ▸ hw.reserved pair hold

theorem Inv.forgets {w : AdmissionWorld J} {store' : MemorySkeinStore J} (hw : w.Inv)
    (h : w.store.Forgets store') : (w.advance store' none).Inv where
  live := fun x r hr => h.survives x r hr (hw.live x r (h.sound x r hr))
  reserved := by
    intro pair hpair
    obtain ⟨hmem, hexist⟩ := List.mem_filter.mp hpair
    rw [Bool.and_eq_true] at hexist
    exact h.kept _ _ (hw.reserved pair (by simpa using hmem)) hexist.1 hexist.2

theorem Inv.accepted {w : AdmissionWorld J} {call : AdmissionCall J} {store' : MemorySkeinStore J}
    {receipt : AdmissionReceipt} {run : Run J} {claimUuid : String} (hw : w.Inv)
    (h : call.Accepted w.store store' receipt run claimUuid) :
    (w.advance store' (call.expectedRunId.map (·, receipt.runId))).Inv := by
  cases hexpected : call.expectedRunId with
  | none =>
    have hres := h.resumeReservations
    rw [hexpected] at hres
    exact {
      live := fun x r hr => h.grows r (hw.live x r (hres ▸ hr))
      reserved := by
        intro pair hpair
        have hold : pair ∈ w.consumed := by simpa [advance] using List.mem_of_mem_filter hpair
        exact hres ▸ hw.reserved pair hold }
  | some expected =>
    have hres : store'.resumeReservations =
        w.store.resumeReservations.set expected receipt.runId := by
      rw [h.resumeReservations, hexpected]
      rfl
    have hnone := h.unreserved expected hexpected
    exact {
      live := by
        intro x r hr
        rw [advance, hres, OrderedMap.get?_set] at hr
        split_ifs at hr with hx
        · cases hr
          exact h.exists_run
        · exact h.grows r (hw.live x r hr)
      reserved := by
        intro pair hpair
        have hmem : pair = (expected, receipt.runId) ∨ pair ∈ w.consumed := by
          simpa [advance] using List.mem_of_mem_filter hpair
        rw [advance, hres, OrderedMap.get?_set]
        rcases hmem with rfl | hold
        · simp
        · have hkeep := hw.reserved pair hold
          split_ifs with hx
          · rw [← hx, hnone] at hkeep
            cases hkeep
          · exact hkeep }

variable [WireJson J]

/-- One call. `randomUUID` never returns the identifier of an existing run. -/
def step (w : AdmissionWorld J) : HistoryAction J → Option (AdmissionWorld J)
  | .admission call draws =>
    if w.store.runs.contains draws.runUuid then none
    else
      let done := call.perform w.store draws
      some (w.advance done.2 (call.consumes w.store done.1))
  | .settle runId final uuid now =>
    some (w.advance (w.store.runsSettle runId final uuid now).2 none)
  | .setStatus runId status error now =>
    some (w.advance (w.store.runsSetStatus runId status error now).2 none)
  | .create input uuid now => some (w.advance (w.store.createRun input uuid now).2 none)
  | .deleteRun runId => some (w.advance (w.store.runsDelete runId) none)
  | .deleteThread threadId => some (w.advance (w.store.threadsDelete threadId) none)

/-- Everything a step can do, said once. -/
theorem step_cases {w w' : AdmissionWorld J} {a : HistoryAction J} (hlive : w.store.ReservationsLive)
    (h : w.step a = some w') :
    (∃ call draws receipt store' run, a = .admission call draws ∧
      call.Accepted w.store store' receipt run draws.claimUuid ∧
      w' = w.advance store' (call.expectedRunId.map (·, receipt.runId))) ∨
    (∃ store', w' = w.advance store' none ∧
      (w.store.Extends store' ∨ w.store.Forgets store')) := by
  cases a with
  | admission call draws =>
    simp only [step] at h
    split_ifs at h with hfresh
    cases h
    rcases call.perform_cases hlive (by simpa using hfresh) with ⟨e, hdone⟩ |
      ⟨receipt, hreplay, hdone⟩ | ⟨receipt, store', run, hdone, haccepted⟩
    · exact .inr ⟨w.store, by simp [hdone, AdmissionCall.consumes], .inr (.refl _)⟩
    · exact .inr ⟨w.store, by simp [hdone, AdmissionCall.consumes, hreplay], .inr (.refl _)⟩
    · exact .inl ⟨call, draws, receipt, store', run, rfl, haccepted,
        by simp [hdone, AdmissionCall.consumes, haccepted.fresh]⟩
  | settle runId final uuid now =>
    cases h
    exact .inr ⟨_, rfl, .inl (w.store.runsSettle_extends runId final uuid now)⟩
  | setStatus runId status error now =>
    cases h
    exact .inr ⟨_, rfl, .inl (w.store.runsSetStatus_extends runId status error now)⟩
  | create input uuid now =>
    cases h
    exact .inr ⟨_, rfl, .inl (w.store.createRun_extends input uuid now)⟩
  | deleteRun runId =>
    cases h
    exact .inr ⟨_, rfl, .inr (w.store.runsDelete_forgets runId)⟩
  | deleteThread threadId =>
    cases h
    exact .inr ⟨_, rfl, .inr (w.store.threadsDelete_forgets threadId)⟩

theorem Inv.step {w w' : AdmissionWorld J} {a : HistoryAction J} (hw : w.Inv)
    (h : w.step a = some w') : w'.Inv := by
  rcases step_cases hw.live h with ⟨call, draws, receipt, store', run, -, haccepted, rfl⟩ |
    ⟨store', rfl, hextends | hforgets⟩
  · exact hw.accepted haccepted
  · exact hw.extends hextends
  · exact hw.forgets hforgets

end AdmissionWorld

/-- The record of an accepted call: what its repetitions are answered from. -/
structure Recorded {J : Type*} (store : MemorySkeinStore J) (key : AdmissionKey)
    (receipt : AdmissionReceipt) (record : IdempotencyRecord J) : Prop where
  stored : store.idempotency.get? key.coordinate = some record
  fingerprint : record.fingerprint = key.fingerprint
  runId : record.runId = some receipt.runId
  threadId : record.threadId = some receipt.threadId
  names : receipt.idempotencyKey = key.key

namespace Recorded
variable {J : Type*} {store : MemorySkeinStore J} {key again : AdmissionKey}
  {receipt : AdmissionReceipt} {record : IdempotencyRecord J}

theorem of_replay (h : store.replayAdmission key = .ok (some receipt)) :
    ∃ record, Recorded store key receipt record := by
  unfold MemorySkeinStore.replayAdmission at h
  split at h
  · cases h
  next record hrecord =>
    split_ifs at h with hexpired hfingerprint
    · cases h
    · split at h
      next runId threadId hrun hthread =>
        cases h
        exact ⟨record, hrecord, not_not.mp hfingerprint, hrun, hthread, rfl⟩
      · cases h

/-- The key part of a coordinate is the caller's key. -/
theorem key_eq (h : again.coordinate = key.coordinate) : again.key = key.key :=
  congrArg Prod.snd h

theorem replay_same (h : Recorded store key receipt record)
    (hkey : again.coordinate = key.coordinate) (hnow : again.now < record.expiresAt)
    (hfingerprint : again.fingerprint = key.fingerprint) :
    store.replayAdmission again = .ok (some receipt) := by
  have hreceipt : receipt = ⟨again.key, receipt.runId, receipt.threadId⟩ := by
    rw [key_eq hkey, ← h.names]
  unfold MemorySkeinStore.replayAdmission
  rw [hkey, h.stored]
  simp only [Nat.not_le.mpr hnow, h.fingerprint, hfingerprint, h.runId, h.threadId]
  simpa using hreceipt.symm

theorem replay_other (h : Recorded store key receipt record)
    (hkey : again.coordinate = key.coordinate) (hnow : again.now < record.expiresAt)
    (hfingerprint : again.fingerprint ≠ key.fingerprint) :
    ∃ e, store.replayAdmission again = .error e := by
  unfold MemorySkeinStore.replayAdmission
  rw [hkey, h.stored]
  simp [Nat.not_le.mpr hnow, h.fingerprint, Ne.symm hfingerprint]

theorem of_idempotency {store' : MemorySkeinStore J}
    (h : Recorded store key receipt record)
    (heq : store'.idempotency = store.idempotency) :
    Recorded store' key receipt record :=
  { h with stored := by rw [heq, h.stored] }

end Recorded

namespace AdmissionCall
variable {J : Type*}

theorem Accepted.recorded {call : AdmissionCall J} {store store' : MemorySkeinStore J}
    {receipt : AdmissionReceipt} {run : Run J} {claimUuid : String}
    (h : call.Accepted store store' receipt run claimUuid) :
    ∃ record, record.expiresAt = call.key.expiresAt ∧ Recorded store' call.key receipt record := by
  obtain ⟨hrun, hthread, hkey⟩ : receipt.runId = run.runId ∧ receipt.threadId = run.threadId ∧
      receipt.idempotencyKey = call.key.key := by simp [h.names]
  refine ⟨MemorySkeinStore.admissionRecord call.key run claimUuid, rfl, ?_, rfl,
    congrArg some hrun.symm, congrArg some hthread.symm, hkey⟩
  rw [h.idempotency, MemorySkeinStore.recordAdmission_get?, if_pos rfl]

variable [WireJson J]

theorem perform_of_replay {call : AdmissionCall J} {store : MemorySkeinStore J}
    {receipt : AdmissionReceipt} (haborted : call.aborted = false)
    (h : store.replayAdmission call.key = .ok (some receipt)) (draws : AdmissionDraws) :
    call.perform store draws = (.ok receipt, store) := by
  cases call with
  | run input =>
    have haborted' : input.aborted = false := haborted
    have h' : store.replayAdmission input.toAdmissionKey = .ok (some receipt) := h
    simp [perform, MemorySkeinStore.admitRun, haborted', h']
  | cancel input =>
    have h' : store.replayAdmission input.toAdmissionKey = .ok (some receipt) := h
    simp [perform, MemorySkeinStore.admitCancel, h']

theorem perform_of_conflict {call : AdmissionCall J} {store : MemorySkeinStore J} {e : Thrown}
    (h : store.replayAdmission call.key = .error e) (draws : AdmissionDraws) :
    ∃ e', call.perform store draws = (.error e', store) := by
  cases call with
  | run input =>
    have h' : store.replayAdmission input.toAdmissionKey = .error e := h
    simp only [perform, MemorySkeinStore.admitRun, h']
    split_ifs <;> exact ⟨_, rfl⟩
  | cancel input =>
    have h' : store.replayAdmission input.toAdmissionKey = .error e := h
    exact ⟨e, by simp [perform, MemorySkeinStore.admitCancel, h']⟩

end AdmissionCall

variable {J : Type*} [WireJson J]

/-- Every history of calls over one store. -/
def admissionHistory : Machine (AdmissionWorld J) (HistoryAction J) := ⟨AdmissionWorld.step⟩

/-- The steps that use a key again do so before its record expires. -/
def Unexpired (key : AdmissionKey) (expiresAt : Timestamp) (_ : AdmissionWorld J) :
    HistoryAction J → Prop
  | .admission call _ => call.key.coordinate = key.coordinate → call.key.now < expiresAt
  | _ => True

theorem Recorded.step {w w' : AdmissionWorld J} {a : HistoryAction J} {key : AdmissionKey}
    {receipt : AdmissionReceipt} {record : IdempotencyRecord J}
    (hw : w.Inv) (hrecorded : Recorded w.store key receipt record)
    (ha : Unexpired key record.expiresAt w a) (h : w.step a = some w') :
    Recorded w'.store key receipt record := by
  rcases AdmissionWorld.step_cases hw.live h with ⟨call, draws, receipt', store', run, rfl,
    haccepted, rfl⟩ | ⟨store', rfl, hextends | hforgets⟩
  · refine { hrecorded with stored := ?_ }
    by_cases hkey : call.key.coordinate = key.coordinate
    · have hfresh := haccepted.fresh
      by_cases hfingerprint : call.key.fingerprint = key.fingerprint
      · rw [hrecorded.replay_same hkey (ha hkey) hfingerprint] at hfresh
        cases hfresh
      · obtain ⟨e, he⟩ := hrecorded.replay_other hkey (ha hkey) hfingerprint
        rw [he] at hfresh
        cases hfresh
    · rw [AdmissionWorld.advance, haccepted.idempotency,
        MemorySkeinStore.recordAdmission_get?, if_neg hkey, hrecorded.stored]
  · exact hrecorded.of_idempotency hextends.idempotency
  · exact hrecorded.of_idempotency hforgets.idempotency

/-- Every repetition of `key` before `expiresAt` is answered by `receipt`, or is
refused when it carries other input, and changes nothing either way. -/
def Answers (store : MemorySkeinStore J) (key : AdmissionKey) (receipt : AdmissionReceipt)
    (expiresAt : Timestamp) : Prop :=
  ∀ (again : AdmissionCall J) draws, again.key.coordinate = key.coordinate →
    again.key.now < expiresAt →
    (again.key.fingerprint = key.fingerprint → again.aborted = false →
      again.perform store draws = (.ok receipt, store)) ∧
    (again.key.fingerprint ≠ key.fingerprint →
      ∃ e, again.perform store draws = (.error e, store))

theorem Recorded.answers {store : MemorySkeinStore J} {key : AdmissionKey}
    {receipt : AdmissionReceipt} {record : IdempotencyRecord J}
    (h : Recorded store key receipt record) : Answers store key receipt record.expiresAt := by
  intro again draws hkey hnow
  constructor
  · intro hfingerprint haborted
    exact AdmissionCall.perform_of_replay haborted
      (h.replay_same hkey hnow hfingerprint) draws
  · intro hfingerprint
    obtain ⟨e, he⟩ := h.replay_other hkey hnow hfingerprint
    exact AdmissionCall.perform_of_conflict he draws

/-- The receipt of a call is stable: its record answers every repetition of the key,
after any continuation in which the key is used before the record expires only. -/
theorem receipt_stable {w w₁ : AdmissionWorld J} {call : AdmissionCall J}
    {draws : AdmissionDraws} {receipt : AdmissionReceipt} (hw : w.Inv)
    (hstep : w.step (.admission call draws) = some w₁)
    (hok : (call.perform w.store draws).1 = .ok receipt) :
    ∃ record, w₁.store.idempotency.get? call.key.coordinate = some record ∧
      (w.store.replayAdmission call.key = .ok none →
        record.expiresAt = call.key.expiresAt) ∧
      ∀ later w₂, admissionHistory.Along (Unexpired call.key record.expiresAt) w₁ later →
        admissionHistory.run w₁ later = some w₂ →
        Answers w₂.store call.key receipt record.expiresAt := by
  have hrecorded : ∃ record, (w.store.replayAdmission call.key = .ok none →
      record.expiresAt = call.key.expiresAt) ∧ Recorded w₁.store call.key receipt record := by
    simp only [AdmissionWorld.step] at hstep
    split_ifs at hstep with hfresh
    cases hstep
    rcases call.perform_cases hw.live (by simpa using hfresh) with ⟨e, hdone⟩ |
      ⟨receipt', hreplay, hdone⟩ | ⟨receipt', store', run, hdone, haccepted⟩
    · rw [hdone] at hok
      cases hok
    · rw [hdone] at hok
      cases hok
      obtain ⟨record, hrecorded⟩ := Recorded.of_replay hreplay
      exact ⟨record, by simp [hreplay], by rw [hdone]; exact hrecorded⟩
    · rw [hdone] at hok
      cases hok
      obtain ⟨record, hexpires, hrecorded⟩ := haccepted.recorded
      exact ⟨record, fun _ => hexpires, by rw [hdone]; exact hrecorded⟩
  obtain ⟨record, hexpires, hrecorded⟩ := hrecorded
  refine ⟨record, hrecorded.stored, hexpires, fun later w₂ hlater hrun => ?_⟩
  have hinv := Machine.run_invariant_along
    (I := fun v : AdmissionWorld J => v.Inv ∧ Recorded v.store call.key receipt record)
    (fun v a v' hv ha hv' => ⟨hv.1.step hv', hv.2.step hv.1 ha hv'⟩)
    ⟨hw.step hstep, hrecorded⟩ hlater hrun
  exact hinv.2.answers

/-- A call that throws changes nothing at all. -/
theorem perform_error {w : AdmissionWorld J} {call : AdmissionCall J} {draws : AdmissionDraws}
    {e : Thrown} (hw : w.Inv) (hfresh : w.store.runs.contains draws.runUuid = false)
    (h : (call.perform w.store draws).1 = .error e) :
    (call.perform w.store draws).2 = w.store := by
  rcases call.perform_cases hw.live hfresh with ⟨e, hdone⟩ | ⟨receipt, -, hdone⟩ |
    ⟨receipt, store', run, hdone, -⟩
  · rw [hdone]
  · rw [hdone]
  · rw [hdone] at h
    cases h

/-- Admission is exactly-once and all-or-nothing over every history that starts
without reservations. -/
theorem admission_exactly_once {w w' : AdmissionWorld J} {history : List (HistoryAction J)}
    (hreservations : w.store.resumeReservations = ∅) (hconsumed : w.consumed = [])
    (hrun : admissionHistory.run w history = some w') :
    (∀ call draws receipt w₁, w'.step (.admission call draws) = some w₁ →
      (call.perform w'.store draws).1 = .ok receipt →
      ∃ record, w₁.store.idempotency.get? call.key.coordinate = some record ∧
        (w'.store.replayAdmission call.key = .ok none →
          record.expiresAt = call.key.expiresAt) ∧
        ∀ later w₂, admissionHistory.Along (Unexpired call.key record.expiresAt) w₁ later →
          admissionHistory.run w₁ later = some w₂ →
          Answers w₂.store call.key receipt record.expiresAt) ∧
    (∀ (call : AdmissionCall J) draws e, w'.store.runs.contains draws.runUuid = false →
      (call.perform w'.store draws).1 = .error e →
      (call.perform w'.store draws).2 = w'.store) ∧
    (∀ pair ∈ w'.consumed, ∀ other ∈ w'.consumed, pair.1 = other.1 → pair = other) := by
  have hstart : w.Inv := ⟨by simp [MemorySkeinStore.ReservationsLive, hreservations],
    by simp [hconsumed]⟩
  have hw' : w'.Inv :=
    Machine.run_invariant (fun v _ v' (hv : v.Inv) hv' => hv.step hv') hstart hrun
  refine ⟨fun call draws receipt w₁ hstep hok => receipt_stable hw' hstep hok,
    fun call draws e hfresh herror => perform_error hw' hfresh herror, ?_⟩
  intro pair hpair other hother heq
  have hpair' := hw'.reserved pair hpair
  rw [heq, hw'.reserved other hother] at hpair'
  exact Prod.ext heq (Option.some.inj hpair').symm

def interruptedWorld : AdmissionWorld ℕ where
  store := {
    threads := (∅ : Table ThreadId (Thread ℕ) Thread.threadId).write {
      threadId := .of "t", createdAt := 0, updatedAt := 0, stateUpdatedAt := 0, metadata := ∅
      status := .interrupted, values := ∅, interrupts := ∅ }
    runs := (∅ : Table RunId (Run ℕ) Run.runId).write {
      runId := .of "old", threadId := .of "t", assistantId := .of "a", createdAt := 0
      updatedAt := 0, status := .interrupted, metadata := ∅, multitaskStrategy := none } }

/-- A resume of the interrupted run, under the operation key `key`. -/
def resumeCall (key : String) : AdmissionCall ℕ := .run {
  scope := "s", key, fingerprint := "f", now := 0, expiresAt := 10
  run := { threadId := .of "t", assistantId := .of "a" }
  expectedRunId := some (.of "old") }

def resumeDraws (runUuid : RunId) : AdmissionDraws := ⟨runUuid, "claim", fun _ => .of "d", 0⟩

/-- Two commands race to resume the same run; the second is refused. -/
def resumedWorld : AdmissionWorld ℕ :=
  ((admissionHistory (J := ℕ)).run interruptedWorld
    [.admission (resumeCall "k") (resumeDraws (.of "new")),
      .admission (resumeCall "late") (resumeDraws (.of "other"))]).getD interruptedWorld

theorem resumedWorld_exactly_once :
    resumedWorld.consumed = [(.of "old", .of "new")] ∧
      ∀ pair ∈ resumedWorld.consumed, ∀ other ∈ resumedWorld.consumed,
        pair.1 = other.1 → pair = other := by
  have hrun : (admissionHistory (J := ℕ)).run interruptedWorld
      [.admission (resumeCall "k") (resumeDraws (.of "new")),
        .admission (resumeCall "late") (resumeDraws (.of "other"))] = some resumedWorld := rfl
  exact ⟨by decide, (admission_exactly_once rfl rfl hrun).2.2⟩

end Skein
