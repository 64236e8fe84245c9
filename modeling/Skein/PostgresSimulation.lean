import Skein.PostgresAdmission

/-!
# The simulation between the drivers

`Simulates` holds between the Postgres tables and the in-memory store where they answer
alike. The intents are compared up to the rows a claim can never return: Postgres keeps
them until their run is deleted, and memory drops them at its next claim. Everything else
is equal, read through the keys.
-/
namespace Skein

theorem DispatchIntent.Done.mono {intent : DispatchIntent} {terminal terminal' : Option Bool}
    (h : intent.Done terminal) (hnone : terminal = none → terminal' = none)
    (htrue : terminal = some true → terminal' = some true) : intent.Done terminal' := by
  rcases h with h | ⟨hkind, h⟩ | h
  · exact .inl (hnone h)
  · exact .inr (.inl ⟨hkind, htrue h⟩)
  · exact .inr (.inr h)

/-- The database takes the texts of a key. -/
def AdmissionKey.storable (key : AdmissionKey) : Bool :=
  storableText key.scope && storableText key.key && storableText key.fingerprint

def DeliveryCreate.storable {J : Type*} [JsonbColumn J] (delivery : DeliveryCreate J) : Bool :=
  delivery.deliveryId.all Id.storable && delivery.threadId.storable &&
    storableText delivery.url && delivery.payload.all JsonbColumn.storable

def RunSettlement.storable {J : Type*} [JsonbColumn J] (final : RunSettlement J) : Bool :=
  final.error.all JsonbColumn.storable && final.result.all JsonbColumn.storable &&
    final.delivery.all DeliveryCreate.storable

/-- A settlement serializes to one the database takes, and `JSON.stringify` writes its error and
its payload as `serializeWireJson` does. -/
structure RunSettlement.Stores {J : Type*} [JsonbColumn J] (input final : RunSettlement J) : Prop where
  serializes : input.roundTrip = some final
  error : roundTripOption JsonbColumn.stringify input.error = some final.error
  payload : ∀ created ∈ input.delivery, ∀ prepared ∈ final.delivery,
    roundTripOption JsonbColumn.stringify created.payload = some prepared.payload
  storable : final.storable = true

/-- The intent a row stands for. An unleased one has the empty token in memory. -/
def NativeDispatch.intent (row : NativeDispatch) : DispatchIntent where
  runId := row.runId
  threadId := row.threadId
  token := row.token.getD ""
  kind := row.kind
  notBefore := row.notBefore
  action := row.action
  leaseUntil := row.leaseUntil
  dispatched := row.dispatched

/-- A record without the two stamps: Postgres takes them from a clock of its own, and keeps
the first one of a record it overwrites. -/
def IdempotencyRecord.unstamped {J : Type*} (record : IdempotencyRecord J) :
    IdempotencyRecord J :=
  { record with createdAt := 0, updatedAt := 0 }

/-- The same intent in both drivers, or a row that no claim returns any more. -/
def IntentsAgree (terminal : Option Bool) (row : Option NativeDispatch)
    (intent : Option DispatchIntent) : Prop :=
  intent = row.map NativeDispatch.intent ∨
    intent = none ∧ ∃ dead ∈ row, dead.intent.Done terminal

theorem IntentsAgree.mono {terminal terminal' : Option Bool} {row : Option NativeDispatch}
    {intent : Option DispatchIntent} (h : IntentsAgree terminal row intent)
    (hnone : terminal = none → terminal' = none)
    (htrue : terminal = some true → terminal' = some true) :
    IntentsAgree terminal' row intent := by
  rcases h with h | ⟨hintent, dead, hdead, hdone⟩
  · exact .inl h
  · exact .inr ⟨hintent, dead, hdead, hdone.mono hnone htrue⟩

namespace PostgresStore
variable {J : Type*}

/-- The thread of a run, where it has a row. -/
def threadOf (pg : PostgresStore J) (runId : RunId) : Option ThreadId :=
  (pg.runs.get? runId).map fun row => row.run.threadId

/-- The foreign keys hold, and an intent names the thread of its run. -/
structure Sound (pg : PostgresStore J) : Prop where
  runs : ∀ id threadId, pg.threadOf id = some threadId → pg.threads.contains threadId = true
  dispatches : ∀ id row, pg.nativeDispatches.get? id = some row →
    pg.threadOf id = some row.threadId
  reservations : ∀ id row, pg.nativeResumeReservations.get? id = some row →
    (pg.threadOf row.expectedRunId).isSome ∧ (pg.threadOf row.runId).isSome

theorem Sound.congr {pg pg' : PostgresStore J} (h : pg.Sound)
    (hthreadOf : ∀ id, pg'.threadOf id = pg.threadOf id) (hthreads : pg'.threads = pg.threads)
    (hdispatches : pg'.nativeDispatches = pg.nativeDispatches)
    (hreservations : pg'.nativeResumeReservations = pg.nativeResumeReservations) : pg'.Sound where
  runs id threadId hid := by
    rw [hthreads]
    exact h.runs id threadId ((hthreadOf id).symm.trans hid)
  dispatches id row hrow := by
    rw [hthreadOf]
    exact h.dispatches id row (hdispatches ▸ hrow)
  reservations id row hrow := by
    rw [hthreadOf, hthreadOf]
    exact h.reservations id row (hreservations ▸ hrow)

/-- What both drivers hold the same way: all but the intents. -/
structure SameTables (pg : PostgresStore J) (mem : MemorySkeinStore J) : Prop where
  threads : ∀ id, pg.threads.get? id = mem.threads.get? id
  runs : ∀ id, (pg.runs.get? id).map RunRow.run = mem.runs.get? id
  results : ∀ id, (pg.runs.get? id).bind RunRow.result = mem.runResults.get? id
  kwargs : ∀ id, (pg.runs.get? id).bind RunRow.kwargs = mem.runKwargs.get? id
  deliveries : ∀ id, pg.deliveries.get? id = mem.deliveries.get? id
  reservations : ∀ id, (pg.nativeResumeReservations.get? id).map NativeReservation.runId =
    mem.resumeReservations.get? id
  records : ∀ coordinate,
    (pg.idempotencyRecords.get? coordinate).map IdempotencyRecord.unstamped =
      (mem.idempotency.get? coordinate).map IdempotencyRecord.unstamped
  maxPageSize : pg.maxPageSize = mem.maxPageSize

structure Simulates (pg : PostgresStore J) (mem : MemorySkeinStore J) : Prop
    extends SameTables pg mem where
  sound : pg.Sound
  intents : ∀ id,
    IntentsAgree (mem.terminal? id) (pg.nativeDispatches.get? id) (mem.dispatches.get? id)

namespace Simulates
variable {pg : PostgresStore J} {mem : MemorySkeinStore J}

theorem threadOf (h : Simulates pg mem) (id : RunId) :
    pg.threadOf id = (mem.runs.get? id).map Run.threadId := by
  rw [← h.runs, Option.map_map]
  rfl

theorem row (h : Simulates pg mem) {id : RunId} {run : Run J}
    (hrun : mem.runs.get? id = some run) : ∃ row, pg.runs.get? id = some row ∧ row.run = run :=
  Option.map_eq_some_iff.mp ((h.runs id).trans hrun)

theorem contains_runs (h : Simulates pg mem) (id : RunId) :
    pg.runs.contains id = mem.runs.contains id := by
  rw [OrderedMap.contains, OrderedMap.contains, ← h.runs, Option.isSome_map]

theorem contains_reservations (h : Simulates pg mem) (id : RunId) :
    pg.nativeResumeReservations.contains id = mem.resumeReservations.contains id := by
  rw [OrderedMap.contains, OrderedMap.contains, ← h.reservations, Option.isSome_map]

/-- Memory has no reservation of a deleted run to clear. -/
theorem reservationsLive (h : Simulates pg mem) : mem.ReservationsLive := by
  intro expected admitted hreserved
  obtain ⟨row, hrow, rfl⟩ := Option.map_eq_some_iff.mp ((h.reservations expected).trans hreserved)
  have hlive := (h.sound.reservations expected row hrow).2
  rwa [h.threadOf, Option.isSome_map] at hlive

theorem replay_eq (h : Simulates pg mem) {key : AdmissionKey} (hstorable : key.storable = true) :
    pg.replay key = (mem.replayAdmission key).mapError .thrown := by
  have hrecords := h.records key.coordinate
  rw [AdmissionKey.storable, Bool.and_eq_true] at hstorable
  unfold replay MemorySkeinStore.replayAdmission
  rw [hstorable.1, Bool.not_true, if_neg Bool.false_ne_true]
  cases hmem : mem.idempotency.get? key.coordinate with
  | none =>
    rw [hmem, Option.map_none, Option.map_eq_none_iff] at hrecords
    rw [hrecords]
    rfl
  | some record =>
    rw [hmem, Option.map_some] at hrecords
    obtain ⟨row, hrow, hsame⟩ := Option.map_eq_some_iff.mp hrecords
    simp only [IdempotencyRecord.unstamped, IdempotencyRecord.mk.injEq] at hsame
    obtain ⟨-, -, hfingerprint, -, -, -, hrun, hthread, -, -, hexpires⟩ := hsame
    rw [hrow]
    dsimp only
    rw [hfingerprint, hrun, hthread, hexpires]
    split_ifs
    · rfl
    · rfl
    · cases record.runId <;> cases record.threadId <;> rfl

theorem record (h : Simulates pg mem) {key : AdmissionKey} (hstorable : key.storable = true)
    {run run' : Run J} (hrunId : run.runId = run'.runId) (hthreadId : run.threadId = run'.threadId)
    (claimUuid : String) (now : Timestamp) :
    ∃ pg', pg.record key run claimUuid now = .ok ((mem.recordAdmission key run' claimUuid).1, pg') ∧
      Simulates pg' (mem.recordAdmission key run' claimUuid).2 := by
  rw [AdmissionKey.storable, Bool.and_eq_true] at hstorable
  unfold PostgresStore.record
  rw [hstorable.2, Bool.not_true, if_neg Bool.false_ne_true]
  rw [hrunId, hthreadId]
  refine ⟨_, rfl,
    { threads := h.threads
      runs := h.runs
      results := h.results
      kwargs := h.kwargs
      deliveries := h.deliveries
      reservations := h.reservations
      records := ?_
      maxPageSize := h.maxPageSize
      sound := ⟨h.sound.runs, h.sound.dispatches, h.sound.reservations⟩
      intents := h.intents }⟩
  intro coordinate
  simp only [MemorySkeinStore.recordAdmission, Table.get?_write]
  have hcoordinate : (MemorySkeinStore.admissionRecord key run' claimUuid).coordinate =
      key.coordinate := rfl
  rw [hcoordinate]
  by_cases hkey : key.coordinate = coordinate
  · have hkey' : (key.scope, key.key) = coordinate := hkey
    simp [IdempotencyRecord.coordinate, hkey', hkey, IdempotencyRecord.unstamped,
      MemorySkeinStore.admissionRecord]
  · have hkey' : (key.scope, key.key) ≠ coordinate := hkey
    simp [IdempotencyRecord.coordinate, hkey', hkey, h.records]

end Simulates

/-- What a settlement leaves of a row. -/
def settledRow (row : RunRow J) (final : RunSettlement J) (now : Timestamp) : RunRow J :=
  { row with
    run := MemorySkeinStore.settledRun row.run final now
    result :=
      if (MemorySkeinStore.settledRun row.run final now).status = final.status.val then
        row.result.or final.result
      else row.result }

theorem updateStatus_get? (pg : PostgresStore J) (runId : RunId) (final : RunSettlement J)
    (now : Timestamp) (k : RunId) :
    (pg.updateStatus runId final now).runs.get? k =
      if runId = k then (pg.runs.get? k).map fun row =>
        { row with run := MemorySkeinStore.settledRun row.run final now }
      else pg.runs.get? k := by
  unfold updateStatus MemorySkeinStore.settledRun
  rw [Table.get?_update]
  · congr 2
    funext row
    split_ifs <;> rfl
  · intro row
    split_ifs <;> rfl

theorem updateResult_get? (pg : PostgresStore J) (runId : RunId) (result : J) (k : RunId) :
    (pg.updateResult runId result).runs.get? k =
      if runId = k then (pg.runs.get? k).map fun row =>
        { row with result := row.result.or (some result) }
      else pg.runs.get? k := by
  unfold updateResult
  rw [Table.get?_update]
  · congr 2
    funext row
    cases row with
    | mk run kwargs recorded => cases recorded <;> rfl
  · intro row
    split_ifs <;> rfl

/-- The result of a settlement, in a database that takes it. -/
def resulted (store : PostgresStore J) (runId : RunId) (run : Option (Run J))
    (final : RunSettlement J) : PostgresStore J :=
  match final.result with
  | none => store
  | some result =>
    if run.map Run.status = some final.status.val then store.updateResult runId result else store

theorem settleResult_eq [JsonbColumn J] (store : PostgresStore J) (runId : RunId) (run : Option (Run J))
    {final : RunSettlement J} (h : final.result.all JsonbColumn.storable = true) :
    store.settleResult runId run final = .ok (store.resulted runId run final) := by
  unfold settleResult resulted
  cases hresult : final.result with
  | none => rfl
  | some result =>
    rw [hresult, Option.all_some] at h
    dsimp only
    split_ifs
    · simp_all
    · rfl
    · rfl

/-- The two updates of a settlement, read from the table they leave. -/
theorem settledRuns_get? (pg : PostgresStore J) (runId : RunId) (final : RunSettlement J)
    (now : Timestamp) (k : RunId) :
    ((pg.updateStatus runId final now).resulted runId
        (((pg.updateStatus runId final now).runs.get? runId).map RunRow.run) final).runs.get? k =
      if runId = k then (pg.runs.get? k).map (settledRow · final now)
      else pg.runs.get? k := by
  have hupdated := updateStatus_get? pg runId final now
  unfold resulted
  cases hresult : final.result with
  | none =>
    simp only [hupdated, settledRow, hresult, Option.or_none, ite_self]
  | some result =>
    by_cases hk : runId = k
    · subst hk
      cases hrow : pg.runs.get? runId with
      | none =>
        simp only [hupdated, hrow, Option.map_none, if_true]
        simp [hupdated, hrow]
      | some row =>
        simp only [hupdated, hrow, Option.map_some, if_true, Option.some.injEq]
        split_ifs with hstatus
        · rw [updateResult_get?, if_pos rfl, hupdated, if_pos rfl, hrow]
          simp [settledRow, hresult, hstatus]
        · rw [hupdated, if_pos rfl, hrow]
          simp [settledRow, hstatus]
    · simp only [if_neg hk]
      split_ifs
      · rw [updateResult_get?, if_neg hk, hupdated, if_neg hk]
      · rw [hupdated, if_neg hk]

/-- The result a settlement leaves in memory. -/
theorem settledResults_get? (mem : MemorySkeinStore J) (runId : RunId) (final : RunSettlement J)
    (now : Timestamp) (k : RunId) :
    ((mem.settleRow runId final now).settleResult runId final).runResults.get? k =
      if runId = k then (mem.runs.get? k).elim (mem.runResults.get? k) fun run =>
        if (MemorySkeinStore.settledRun run final now).status = final.status.val then
          (mem.runResults.get? k).or final.result
        else mem.runResults.get? k
      else mem.runResults.get? k := by
  have hrow : (mem.settleRow runId final now).runs.get? runId =
      (mem.runs.get? runId).map fun run => MemorySkeinStore.settledRun run final now := by
    rw [MemorySkeinStore.settleRow_get?, if_pos rfl]
  have hresults : (mem.settleRow runId final now).runResults = mem.runResults := by
    rw [MemorySkeinStore.settleRow_frame]
  unfold MemorySkeinStore.settleResult
  rw [hrow, hresults]
  by_cases hk : runId = k
  · subst hk
    cases mem.runs.get? runId with
    | none => simp [hresults]
    | some run =>
      cases hfinal : final.result with
      | none => simp [hresults]
      | some result =>
        by_cases hstatus : (MemorySkeinStore.settledRun run final now).status = final.status.val
        · cases hrecorded : mem.runResults.get? runId <;>
            simp [OrderedMap.contains, hrecorded, hresults, hstatus]
        · simp [hstatus, hresults]
  · rw [if_neg hk]
    split
    · split_ifs
      · exact OrderedMap.get?_set_of_ne _ _ hk
      · rw [hresults]
    · rw [hresults]

theorem settledRuns_frame (pg : PostgresStore J) (runId : RunId) (final : RunSettlement J)
    (now : Timestamp) (run : Option (Run J)) :
    (pg.updateStatus runId final now).resulted runId run final =
      { pg with
        runs := ((pg.updateStatus runId final now).resulted runId run final).runs } := by
  unfold resulted
  split
  · rfl
  · split_ifs <;> rfl

theorem settledTables_frame (mem : MemorySkeinStore J) (runId : RunId)
    (final : RunSettlement J) (now : Timestamp) :
    (mem.settleRow runId final now).settleResult runId final =
      { mem with
        runs := ((mem.settleRow runId final now).settleResult runId final).runs
        runResults := ((mem.settleRow runId final now).settleResult runId final).runResults } := by
  rw [MemorySkeinStore.settleResult_frame, MemorySkeinStore.settleRow_frame]

namespace Simulates
variable {pg : PostgresStore J} {mem : MemorySkeinStore J}

/-- The rows and results of a settlement. -/
theorem settledRuns (h : Simulates pg mem) (runId : RunId) (final : RunSettlement J)
    (now : Timestamp) :
    Simulates
      ((pg.updateStatus runId final now).resulted runId
        (((pg.updateStatus runId final now).runs.get? runId).map RunRow.run) final)
      ((mem.settleRow runId final now).settleResult runId final) := by
  have hpg := settledRuns_get? pg runId final now
  have hpgFrame := settledRuns_frame pg runId final now
    (((pg.updateStatus runId final now).runs.get? runId).map RunRow.run)
  have hmem : ∀ k, ((mem.settleRow runId final now).settleResult runId final).runs.get? k =
      if k = runId then (mem.runs.get? k).map fun run => MemorySkeinStore.settledRun run final now
      else mem.runs.get? k := by
    simpa using MemorySkeinStore.settleRow_get? mem runId final now
  have hmemFrame := settledTables_frame mem runId final now
  have hresults := settledResults_get? mem runId final now
  generalize (pg.updateStatus runId final now).resulted runId
    (((pg.updateStatus runId final now).runs.get? runId).map RunRow.run) final = pg' at *
  generalize (mem.settleRow runId final now).settleResult runId final = mem' at *
  have hrow : ∀ id, (pg'.runs.get? id).map RunRow.run = mem'.runs.get? id := by
    intro id
    rw [hpg, hmem]
    by_cases hk : runId = id
    · rw [if_pos hk, if_pos hk.symm, ← h.runs, Option.map_map, Option.map_map]
      rfl
    · rw [if_neg hk, if_neg (Ne.symm hk), h.runs]
  have hthreadOf : ∀ id, pg'.threadOf id = pg.threadOf id := by
    intro id
    unfold PostgresStore.threadOf
    rw [hpg]
    split_ifs
    · rw [Option.map_map]
      congr 1
      funext row
      exact MemorySkeinStore.settledRun_threadId _ _ _
    · rfl
  have hterminal : ∀ id, mem'.terminal? id =
      if id = runId then (mem.terminal? id).map fun _ => true else mem.terminal? id := by
    intro id
    unfold MemorySkeinStore.terminal?
    rw [hmem]
    split_ifs
    · simp [Function.comp_def, MemorySkeinStore.settledRun_isTerminal]
    · rfl
  exact {
    threads := fun id => by rw [hpgFrame, hmemFrame]; exact h.threads id
    runs := hrow
    results := by
      intro id
      rw [hpg, hresults]
      by_cases hk : runId = id
      · rw [if_pos hk, if_pos hk, ← h.runs, ← h.results]
        cases pg.runs.get? id with
        | none => rfl
        | some row => simp [settledRow]
      · rw [if_neg hk, if_neg hk, h.results]
    kwargs := by
      intro id
      have hkwargs : mem'.runKwargs = mem.runKwargs := by rw [hmemFrame]
      rw [hpg, hkwargs, ← h.kwargs]
      split_ifs
      · cases pg.runs.get? id <;> rfl
      · rfl
    deliveries := fun id => by rw [hpgFrame, hmemFrame]; exact h.deliveries id
    reservations := fun id => by rw [hpgFrame, hmemFrame]; exact h.reservations id
    records := fun coordinate => by rw [hpgFrame, hmemFrame]; exact h.records coordinate
    maxPageSize := by rw [hpgFrame, hmemFrame]; exact h.maxPageSize
    sound := by
      refine h.sound.congr hthreadOf ?_ ?_ ?_ <;> rw [hpgFrame]
    intents := by
      intro id
      have hdispatches : pg'.nativeDispatches = pg.nativeDispatches := by rw [hpgFrame]
      have hintents : mem'.dispatches = mem.dispatches := by rw [hmemFrame]
      rw [hdispatches, hintents]
      refine (h.intents id).mono (fun hnone => ?_) (fun htrue => ?_) <;> rw [hterminal]
      · rw [hnone]
        simp
      · rw [htrue]
        simp }

/-- The delivery of a settlement; a drawn identifier is not in use. -/
theorem settleDelivery [JsonbColumn J] (h : Simulates pg mem) (runId : RunId)
    {input final : RunSettlement J} (hstores : input.Stores final) {uuid : DeliveryId}
    (now : Timestamp) (huuid : mem.deliveries.get? uuid = none) (hdrawn : uuid.storable = true) :
    ∃ pg', pg.settleDelivery runId (mem.runs.get? runId)
        { input with error := final.error, result := final.result } uuid now =
        .ok ((mem.settleDelivery runId final uuid now).1, pg') ∧
      Simulates pg' (mem.settleDelivery runId final uuid now).2 := by
  have hget : pg.deliveries.get? = mem.deliveries.get? := funext h.deliveries
  obtain ⟨error, result, delivery', -, -, hprepared, rfl⟩ :=
    RunSettlement.roundTrip_eq_some.mp hstores.serializes
  unfold PostgresStore.settleDelivery MemorySkeinStore.settleDelivery
  cases hdelivery : input.delivery with
  | none =>
    rw [hdelivery] at hprepared
    cases hprepared
    exact ⟨pg, rfl, h⟩
  | some delivery =>
    rw [hdelivery] at hprepared
    obtain ⟨prepared, hparsed, rfl⟩ := Option.map_eq_some_iff.mp hprepared
    obtain ⟨payload, -, rfl⟩ := Option.map_eq_some_iff.mp hparsed
    have hpayload := hstores.payload delivery hdelivery _ rfl
    have hstorable := hstores.storable
    simp only [RunSettlement.storable, DeliveryCreate.storable, Option.all_some,
      Bool.and_eq_true] at hstorable
    obtain ⟨-, ⟨⟨hnamed, hthreadId⟩, hurl⟩, htexts⟩ := hstorable
    dsimp only
    rw [hget]
    cases hread : delivery.deliveryId.bind mem.deliveries.get? with
    | some existing => exact ⟨pg, rfl, h⟩
    | none =>
      have hunused : pg.deliveries.contains (delivery.deliveryId.getD uuid) = false := by
        rw [OrderedMap.contains_eq_false_iff, h.deliveries]
        cases hid : delivery.deliveryId with
        | none => exact huuid
        | some id =>
          rw [hid] at hread
          exact hread
      have hidStorable : (delivery.deliveryId.getD uuid).storable = true := by
        cases hid : delivery.deliveryId with
        | none => exact hdrawn
        | some id =>
          rw [hid] at hnamed
          exact hnamed
      simp only [PostgresStore.insertDelivery, hpayload, hidStorable, hthreadId, hurl, htexts,
        serialized_some, bound_true, Bool.and_true, bind, Except.bind, hunused,
        MemorySkeinStore.insertDelivery]
      refine ⟨_, rfl, {
        threads := h.threads
        runs := h.runs
        results := h.results
        kwargs := h.kwargs
        deliveries := ?_
        reservations := h.reservations
        records := h.records
        maxPageSize := h.maxPageSize
        sound := h.sound.congr (fun _ => rfl) rfl rfl rfl
        intents := h.intents }⟩
      intro id
      simp only [Table.get?_write, h.deliveries]
      rfl

/-- The writes of a settlement that the database takes. -/
theorem settle_eq [JsonbColumn J] {runId : RunId} (hrunId : runId.storable = true)
    {input final : RunSettlement J} (hstores : input.Stores final) {uuid : DeliveryId}
    {now : Timestamp} :
    pg.settle runId input uuid now = (do
      let run := ((pg.updateStatus runId final now).runs.get? runId).map RunRow.run
      let delivered ← ((pg.updateStatus runId final now).resulted runId run final).settleDelivery
        runId run { input with error := final.error, result := final.result } uuid now
      return (⟨run, delivered.1⟩, delivered.2)) := by
  have herror := hstores.error
  have hstorable := hstores.storable
  simp only [RunSettlement.storable, Bool.and_eq_true] at hstorable
  obtain ⟨error, result, delivery, -, hresult, hdelivery, rfl⟩ :=
    RunSettlement.roundTrip_eq_some.mp hstores.serializes
  simp only [PostgresStore.settle, hresult, hdelivery, herror, hrunId, hstorable, serialized_some,
    bound_true, bind, Except.bind, settleResult_eq, pure, Except.pure]
  rfl

/-- `settlePostgresRun` against `#settle`. -/
theorem settle [JsonbColumn J] (h : Simulates pg mem) {runId : RunId} (hrunId : runId.storable = true)
    {input final : RunSettlement J} (hstores : input.Stores final) {uuid : DeliveryId}
    (now : Timestamp) (huuid : mem.deliveries.get? uuid = none) (hdrawn : uuid.storable = true) :
    ∃ pg', pg.settle runId input uuid now =
        .ok ((mem.settleFinal runId final uuid now).1, pg') ∧
      Simulates pg' (mem.settleFinal runId final uuid now).2 := by
  have hsettled := h.settledRuns runId final now
  have hdeliveries : ((mem.settleRow runId final now).settleResult runId final).deliveries =
      mem.deliveries := by
    rw [settledTables_frame]
  have hread : ((pg.updateStatus runId final now).runs.get? runId).map RunRow.run =
      ((mem.settleRow runId final now).settleResult runId final).runs.get? runId := by
    rw [← hsettled.runs, settledRuns_get?, updateStatus_get?, if_pos rfl, if_pos rfl,
      Option.map_map, Option.map_map]
    rfl
  obtain ⟨pg', hdelivered, hsim⟩ := hsettled.settleDelivery runId hstores now
    (hdeliveries ▸ huuid) hdrawn
  refine ⟨pg', ?_, hsim⟩
  rw [hread] at hdelivered
  rw [settle_eq hrunId hstores, hread]
  dsimp only
  rw [hdelivered]
  rfl

theorem dispatch (h : Simulates pg mem) {run : Run J}
    (hrun : mem.runs.get? run.runId = some run) (kind : DispatchKind)
    (action : Option CancelAction) (now : Timestamp) :
    Simulates (pg.dispatch run kind action now) (mem.dispatch run kind action now) := by
  obtain ⟨row, hrow, rfl⟩ := h.row hrun
  have hthreadOf : pg.threadOf row.run.runId = some row.run.threadId := by
    rw [PostgresStore.threadOf, hrow]
    rfl
  have hkept : ((pg.nativeDispatches.get? row.runId).map NativeDispatch.threadId).getD
      row.run.threadId = row.run.threadId := by
    cases hreplaced : pg.nativeDispatches.get? row.runId with
    | none => rfl
    | some replaced =>
      have hthread := h.sound.dispatches _ _ hreplaced
      exact (Option.some.inj (hthreadOf.symm.trans hthread)).symm
  have hkwargs : row.kwargs = mem.runKwargs.get? row.run.runId := by
    rw [← h.kwargs, hrow]
    rfl
  unfold PostgresStore.dispatch MemorySkeinStore.dispatch
  rw [hrow]
  dsimp only
  rw [hkept, hkwargs]
  exact {
    threads := h.threads
    runs := h.runs
    results := h.results
    kwargs := h.kwargs
    deliveries := h.deliveries
    reservations := h.reservations
    records := h.records
    maxPageSize := h.maxPageSize
    sound := by
      refine ⟨h.sound.runs, fun id intent hintent => ?_, h.sound.reservations⟩
      rw [Table.get?_write] at hintent
      split_ifs at hintent with hid
      · cases hintent
        exact hid ▸ hthreadOf
      · exact h.sound.dispatches id intent hintent
    intents := by
      intro id
      rw [Table.get?_write, Table.get?_write]
      by_cases hid : row.run.runId = id
      · refine .inl ?_
        have hid' : row.runId = id := hid
        rw [if_pos hid, if_pos hid']
        rfl
      · have hid' : row.runId ≠ id := hid
        rw [if_neg hid, if_neg hid']
        exact h.intents id }

theorem dispatchSettled (h : Simulates pg mem) {settled : SettledRun J}
    (hrun : ∀ run ∈ settled.run, mem.runs.get? run.runId = some run)
    (action : Option CancelAction) (now : Timestamp) :
    Simulates (pg.dispatchSettled settled action now) (mem.dispatchSettled settled action now) := by
  unfold PostgresStore.dispatchSettled MemorySkeinStore.dispatchSettled
  cases hsettled : settled.run with
  | none => exact h
  | some run => exact h.dispatch (hrun run hsettled) .cancel action now

/-- Both drivers write the same new row. -/
theorem insertRun_eq [JsonbColumn J] {input : RunCreate J} {uuid : RunId}
    (hid : (input.runId.getD uuid).storable = true) (hstorable : input.storable = true)
    (hpg : pg.runs.contains (input.runId.getD uuid) = false)
    (hthread : pg.threads.contains input.threadId = true)
    (hmem : mem.runs.contains (input.runId.getD uuid) = false) (now : Timestamp) :
    ∃ run : Run J, run.runId = input.runId.getD uuid ∧ run.threadId = input.threadId ∧
      pg.insertRun input uuid now =
        .ok (run, { pg with runs := pg.runs.write { run, kwargs := input.kwargs } }) ∧
      mem.createRun input uuid now = (.ok run, { mem with
        runs := mem.runs.write run
        runKwargs := input.kwargs.elim mem.runKwargs (mem.runKwargs.set run.runId) }) := by
  refine ⟨{
    runId := input.runId.getD uuid
    threadId := input.threadId
    assistantId := input.assistantId
    createdAt := now
    updatedAt := now
    status := input.status.getD .pending
    metadata := input.metadata.getD ∅
    multitaskStrategy := input.multitaskStrategy }, rfl, rfl, ?_, ?_⟩
  · unfold PostgresStore.insertRun
    rw [if_neg (by simp [hid, hstorable]), if_neg (by simpa using hpg),
      if_neg (by simpa using hthread)]
  · unfold MemorySkeinStore.createRun
    rw [if_neg (by simpa using hmem)]
    cases input.kwargs <;> rfl

/-- Both drivers hold the new row, its kwargs and nothing else that is new. -/
theorem sameTables_writeRun (h : Simulates pg mem) {run : Run J}
    (hunused : pg.runs.get? run.runId = none) (kwargs : Option (RunKwargs J)) :
    SameTables { pg with runs := pg.runs.write { run, kwargs } }
      { mem with
        runs := mem.runs.write run
        runKwargs := kwargs.elim mem.runKwargs (mem.runKwargs.set run.runId) } := by
  have hget : ∀ id, ((pg.runs.write { run, kwargs }).get? id) =
      if run.runId = id then some { run, kwargs } else pg.runs.get? id :=
    fun id => Table.get?_write _ _ _
  exact {
    threads := h.threads
    runs := by
      intro id
      dsimp only
      rw [hget, Table.get?_write]
      split_ifs
      · rfl
      · exact h.runs id
    results := by
      intro id
      dsimp only
      rw [hget, ← h.results]
      split_ifs with hid
      · rw [← hid, hunused]
        rfl
      · rfl
    kwargs := by
      intro id
      dsimp only
      rw [hget]
      split_ifs with hid
      · have hnone : mem.runKwargs.get? id = none := by
          rw [← h.kwargs, ← hid, hunused]
          rfl
        cases kwargs with
        | none => exact hnone.symm
        | some kwargs =>
          rw [hid]
          exact (OrderedMap.get?_set_self _ _ _).symm
      · rw [h.kwargs]
        cases kwargs with
        | none => rfl
        | some kwargs => exact (OrderedMap.get?_set_of_ne _ _ hid).symm
    deliveries := h.deliveries
    reservations := h.reservations
    records := h.records
    maxPageSize := h.maxPageSize }

/-- No intent is for a run that is not there. -/
theorem noIntent (h : Simulates pg mem) {id : RunId} (hunused : pg.runs.get? id = none) :
    pg.nativeDispatches.get? id = none := by
  cases hintent : pg.nativeDispatches.get? id with
  | none => rfl
  | some intent =>
    have hrow := h.sound.dispatches _ _ hintent
    rw [PostgresStore.threadOf, hunused] at hrow
    cases hrow

/-- The foreign keys hold of a new row whose thread is there. -/
theorem sound_writeRun (h : Simulates pg mem) {run : Run J}
    (hunused : pg.runs.get? run.runId = none) (hthread : pg.threads.contains run.threadId = true)
    (kwargs : Option (RunKwargs J)) :
    PostgresStore.Sound { pg with runs := pg.runs.write { run, kwargs } } := by
  have hthreadOf : ∀ id, PostgresStore.threadOf { pg with runs := pg.runs.write { run, kwargs } } id =
      if run.runId = id then some run.threadId else pg.threadOf id := by
    intro id
    have hget : ((pg.runs.write { run, kwargs }).get? id) =
        if run.runId = id then some { run, kwargs } else pg.runs.get? id := Table.get?_write _ _ _
    unfold PostgresStore.threadOf
    dsimp only
    rw [hget]
    split_ifs <;> rfl
  exact {
    runs := by
      intro id threadId hid
      rw [hthreadOf] at hid
      split_ifs at hid
      · cases hid
        exact hthread
      · exact h.sound.runs id threadId hid
    dispatches := by
      intro id intent hintent
      rw [hthreadOf]
      split_ifs with hid
      · rw [← hid] at hintent
        rw [h.noIntent hunused] at hintent
        cases hintent
      · exact h.sound.dispatches id intent hintent
    reservations := by
      intro id row hrow
      have hboth := h.sound.reservations id row hrow
      rw [hthreadOf, hthreadOf]
      split_ifs <;> simp [hboth] }

/-- A row under an unused identifier, on a thread that is there. -/
theorem writeRun (h : Simulates pg mem) {run : Run J} (hunused : pg.runs.get? run.runId = none)
    (hthread : pg.threads.contains run.threadId = true) (kwargs : Option (RunKwargs J)) :
    Simulates { pg with runs := pg.runs.write { run, kwargs } }
      { mem with
        runs := mem.runs.write run
        runKwargs := kwargs.elim mem.runKwargs (mem.runKwargs.set run.runId) } where
  toSameTables := h.sameTables_writeRun hunused kwargs
  sound := h.sound_writeRun hunused hthread kwargs
  intents id := by
    by_cases hid : run.runId = id
    · have hmem := h.intents id
      have hnone := h.noIntent hunused
      rw [hid] at hnone
      rw [hnone] at hmem ⊢
      refine .inl ?_
      rcases hmem with hnone | ⟨hnone, -⟩ <;> exact hnone
    · have hterminal : MemorySkeinStore.terminal? { mem with
          runs := mem.runs.write run
          runKwargs := kwargs.elim mem.runKwargs (mem.runKwargs.set run.runId) } id =
          mem.terminal? id := by
        unfold MemorySkeinStore.terminal?
        dsimp only
        rw [Table.get?_write, if_neg hid]
      rw [hterminal]
      exact h.intents id

/-- `insertRun` against `#createRun`, for an unused identifier. -/
theorem insertRun [JsonbColumn J] (h : Simulates pg mem) {input : RunCreate J} {uuid : RunId}
    (hnamed : (input.runId.getD uuid).storable = true) (hstorable : input.storable = true)
    (hfresh : mem.runs.contains (input.runId.getD uuid) = false)
    (hthread : mem.threads.contains input.threadId = true) (now : Timestamp) :
    ∃ run pg' mem', pg.insertRun input uuid now = .ok (run, pg') ∧
      mem.createRun input uuid now = (.ok run, mem') ∧
      mem'.runs.get? run.runId = some run ∧ mem'.resumeReservations = mem.resumeReservations ∧
      (∀ id, mem.runs.contains id = true → mem'.runs.contains id = true) ∧
      Simulates pg' mem' := by
  have hfresh' := h.contains_runs (input.runId.getD uuid)
  have hthread' : pg.threads.contains input.threadId = true := by
    rw [OrderedMap.contains, h.threads]
    exact hthread
  rw [hfresh] at hfresh'
  obtain ⟨run, hid, hthreadId, hpg, hmem⟩ := insertRun_eq hnamed hstorable hfresh' hthread' hfresh now
  refine ⟨run, _, _, hpg, hmem, ?_, rfl, fun id hid => ?_,
    h.writeRun ?_ (hthreadId ▸ hthread') input.kwargs⟩
  · rw [Table.get?_write, if_pos rfl]
  · simp only [OrderedMap.contains, Table.get?_write]
    split_ifs
    · rfl
    · exact hid
  · rw [hid]
    exact (OrderedMap.contains_eq_false_iff _ _).mp hfresh'

/-- The reservation of a target that is there and that nothing has reserved. -/
theorem insertReservation (h : Simulates pg mem) {expectedRunId : Option RunId} {run : Run J}
    (hrun : mem.runs.get? run.runId = some run)
    (hexpected : ∀ expected ∈ expectedRunId, mem.runs.contains expected = true ∧
      mem.resumeReservations.get? expected = none) :
    ∃ pg', pg.insertReservation expectedRunId run.runId = .ok pg' ∧
      Simulates pg' (mem.reserveResume expectedRunId run.runId) := by
  cases expectedRunId with
  | none => exact ⟨pg, rfl, h⟩
  | some expected =>
    obtain ⟨hthere, hfree⟩ := hexpected expected rfl
    have hfree' : pg.nativeResumeReservations.contains expected = false := by
      rw [h.contains_reservations, OrderedMap.contains_eq_false_iff]
      exact hfree
    have hexpectedRow : pg.runs.contains expected = true := by
      rw [h.contains_runs]
      exact hthere
    have hrunRow : pg.runs.contains run.runId = true := by
      rw [h.contains_runs, OrderedMap.contains, hrun]
      rfl
    have hinsert : pg.insertReservation (some expected) run.runId = .ok { pg with
        nativeResumeReservations := pg.nativeResumeReservations.write ⟨expected, run.runId⟩ } := by
      simp [PostgresStore.insertReservation, hfree', hexpectedRow, hrunRow]
    refine ⟨_, hinsert, {
      threads := h.threads
      runs := h.runs
      results := h.results
      kwargs := h.kwargs
      deliveries := h.deliveries
      reservations := ?_
      records := h.records
      maxPageSize := h.maxPageSize
      sound := ⟨h.sound.runs, h.sound.dispatches, ?_⟩
      intents := h.intents }⟩
    · intro id
      simp only [MemorySkeinStore.reserveResume, Table.get?_write, OrderedMap.get?_set]
      split_ifs
      · rfl
      · exact h.reservations id
    · intro id row hrow
      simp only [Table.get?_write] at hrow
      split_ifs at hrow
      · cases hrow
        simp only [PostgresStore.threadOf, Option.isSome_map]
        exact ⟨hexpectedRow, hrunRow⟩
      · exact h.sound.reservations id row hrow

end Simulates
end PostgresStore
end Skein
