import Skein.ThreadMirror

/-!
# How an execution settles its run

`executeRun` by itself: no cancel, timeout or deletion interferes, and the calls that can
fail are the writes of the thread row, the graph and the serialization of payloads. The
outcome it returns, the row it leaves, the frames it publishes and the delivery it records
are compared at the end.
-/
namespace Skein

/-- What `toRunError` makes of a thrown value: plain data, so it can be serialized. -/
structure WireError (J : Type*) [WireJson J] where
  value : J
  message : String
  serializes : (WireJson.roundTrip value).isSome = true

/-- `RunResult`. -/
structure RunResult (J : Type*) where
  values : J
  checkpoint : Option J := none
  interrupts : Option J := none
  reply : Option J := none

structure RunOutcome (J : Type*) where
  status : RunStatus
  result : RunResult J
  error : Option J := none

/-- How the engine puts its payloads together. -/
structure RunPayloads (J : Type*) [WireJson J] where
  toRunError : Thrown → WireError J
  resultJson : RunResult J → J
  /-- The empty result, of a run that did not get to one. -/
  resultJson_empty : (WireJson.roundTrip (resultJson { values := ∅ })).isSome = true
  /-- `buildDeliveryPayload`: the payload and whether it was truncated, `none` where
  `JSON.stringify` throws. -/
  buildDeliveryPayload : RunResult J → Option J → Option (J × Bool)
  /-- Without a reply it is the run row and a message. -/
  buildDeliveryPayload_clones : ∀ error, ∀ payload ∈ buildDeliveryPayload { values := ∅ } error,
    WireJson.clones payload.1 = true
  /-- The payload of `nativeDelivery`, from the settled status, error and stored result. -/
  nativePayload : TerminalStatus → Option J → Option J → J × Bool
  /-- Its parts were parsed from JSON. -/
  nativePayload_serializes : ∀ status error result,
    (WireJson.roundTrip (nativePayload status error result).1).isSome = true

/-- What `settleNativeRun` reads of a native origin. -/
structure NativeOutcome where
  deliveryId : DeliveryId
  outcomeTarget : Option String

/-- What `settleRun` reads of the kwargs. -/
structure RunCallbacks where
  native : Option NativeOutcome := none
  a2a : Bool := false
  webhook : Option String := none

/-- The clock and the generated identifier of one settlement. -/
structure SettleInput where
  now : Timestamp := 0
  uuid : DeliveryId := .of "uuid"
  nextAttemptAt : Timestamp := 0
  expiresAt : Timestamp := 0

inductive RunFrameEvent (J : Type*)
  | chunk (data : J)
  | error (data : J)
  deriving DecidableEq, Repr

/-- The final snapshot of a graph, with the reply it declared. -/
structure FinalSnapshot (J : Type*) where
  values : J
  checkpoint : Option J
  interrupts : J
  /-- Its `next` is not empty. -/
  paused : Bool
  reply : Option J

/-- What happens to an execution: the frames and the end of its graph, and how each write of
the thread row fails, if it does. -/
structure RunCalls (J : Type*) [WireJson J] where
  frames : List J
  graph : Except (WireError J) (FinalSnapshot J)
  busyRejection : Option Thrown := none
  mirrorRejection : Option Thrown := none
  errorRejection : Option Thrown := none
  startedAt : Timestamp := 0
  mirroredAt : Timestamp := 0
  settling : SettleInput := {}
  caught : SettleInput := {}

/-- The variables of `executeRun` that outlive its `try` block, and the store. -/
structure EngineState (J : Type*) where
  store : MemorySkeinStore J
  started : Bool := false
  recordedDelivery : Option (Delivery J) := none
  published : List (RunFrameEvent J) := []

/-- The end of `executeRun`; it has thrown if there is no outcome. -/
structure Executed (J : Type*) extends EngineState J where
  outcome : Option (RunOutcome J)

namespace MemorySkeinStore
variable {J : Type*}

/-- `finalizeRun`. -/
def finalizeRun (store : MemorySkeinStore J) (runId : RunId) (status : RunStatus)
    (error : Option J) (now : Timestamp) : Completion J RunStatus :=
  match store.runsGet runId with
  | none => (.ok status, store)
  | some fresh =>
    if fresh.status.isTerminal then (.ok fresh.status, store)
    else
      match store.runsSetStatus runId status error now with
      | (.error e, store) => (.error e, store)
      | (.ok _, store) => (.ok status, store)

/-- `mirrorThread` and `mirrorThreadError`; `rejection` is how the write fails. -/
def mirrorThread [EngineJson J] (store : MemorySkeinStore J) (threadId : ThreadId)
    (mirror : ThreadMirror J) (rejection : Option Thrown) (now : Timestamp) :
    Completion J Unit :=
  match store.threadsGet threadId with
  | none => (.ok (), store)
  | some thread =>
    match rejection with
    | some e => (.error e, store)
    | none =>
      match store.threadsUpdate threadId (mirror.update thread) now with
      | (.error e, store) => (.error e, store)
      | (.ok _, store) => (.ok (), store)

end MemorySkeinStore

/-- The run an engine executes, with what its kwargs ask for. -/
structure RunExecution (J : Type*) [WireJson J] where
  runId : RunId
  threadId : ThreadId
  callbacks : RunCallbacks
  payloads : RunPayloads J

namespace RunExecution
variable {J : Type*} [WireJson J] [EngineJson J]

/-- `settleNativeRun`. -/
def settleNativeRun (exec : RunExecution J) (native : NativeOutcome) (status : TerminalStatus)
    (settled : RunResult J) (error : Option J) (x : SettleInput) (s : EngineState J) :
    Except Thrown RunStatus × EngineState J :=
  let result := WireJson.roundTrip (exec.payloads.resultJson settled)
  let payload := exec.payloads.nativePayload status error result
  let delivery : Option (DeliveryCreate J) := native.outcomeTarget.map fun url => {
    deliveryId := some native.deliveryId
    threadId := exec.threadId
    url
    payload := some payload.1
    payloadTruncated := some payload.2
    nextAttemptAt := x.now
    expiresAt := x.expiresAt }
  match s.store.runsSettle exec.runId ⟨status, error, result, delivery⟩ x.uuid x.now with
  | (.error e, store) => (.error e, { s with store })
  | (.ok row, store) => (.ok (row.run.elim status.val Run.status), { s with store })

/-- The end of `settleRun` without an outbox. -/
def finalize (exec : RunExecution J) (status : TerminalStatus) (error : Option J)
    (x : SettleInput) (s : EngineState J) : Except Thrown RunStatus × EngineState J :=
  match s.store.finalizeRun exec.runId status error x.now with
  | (final, store) => (final, { s with store })

/-- The end of `settleRun`: a started run that owes a callback gets it recorded, once. -/
def settleWithDelivery (exec : RunExecution J) (status : TerminalStatus) (settled : RunResult J)
    (error : Option J) (x : SettleInput) (s : EngineState J) :
    Except Thrown RunStatus × EngineState J :=
  match exec.callbacks.webhook, s.started, s.recordedDelivery with
  | some url, true, none =>
    match exec.payloads.buildDeliveryPayload settled error with
    | none => exec.finalize status error x s
    | some (payload, truncated) =>
      match s.store.runsFinalizeWithDelivery exec.runId ⟨status, error, {
          threadId := exec.threadId
          url
          payload := some payload
          payloadTruncated := some truncated
          nextAttemptAt := x.nextAttemptAt
          expiresAt := x.expiresAt }⟩ x.uuid x.now with
      | (.error e, store) => (.error e, { s with store })
      | (.ok row, store) =>
        (.ok row.delivery.runStatus, { s with store, recordedDelivery := some row.delivery })
  | _, _, _ => exec.finalize status error x s

/-- `settleRun`. -/
def settleRun (exec : RunExecution J) (status : TerminalStatus) (settled : RunResult J)
    (error : Option J) (x : SettleInput) (s : EngineState J) :
    Except Thrown RunStatus × EngineState J :=
  match exec.callbacks.native with
  | some native => exec.settleNativeRun native status settled error x s
  | none =>
    if exec.callbacks.a2a then
      match s.store.runsRecordResult exec.runId (exec.payloads.resultJson settled) with
      | (.error e, store) => (.error e, { s with store })
      | (.ok _, store) => exec.settleWithDelivery status settled error x { s with store }
    else exec.settleWithDelivery status settled error x s

/-- The status of a final snapshot. -/
def snapshotStatus (snapshot : FinalSnapshot J) : TerminalStatus :=
  (RunEnding.completed snapshot.values snapshot.interrupts snapshot.paused).status

def snapshotResult (snapshot : FinalSnapshot J) : RunResult J where
  values := snapshot.values
  checkpoint := snapshot.checkpoint
  interrupts := some snapshot.interrupts
  reply := snapshot.reply

/-- The mirror of a settled snapshot. -/
def mirrorSettled (exec : RunExecution J) (snapshot : FinalSnapshot J) (final : RunStatus)
    (calls : RunCalls J) (store : MemorySkeinStore J) : Completion J Unit :=
  match (RunEnding.completed snapshot.values snapshot.interrupts snapshot.paused).mirror final with
  | none => (.ok (), store)
  | some mirror => store.mirrorThread exec.threadId mirror calls.mirrorRejection calls.mirroredAt

/-- The `try` block from the start of the run on. -/
def attempt (exec : RunExecution J) (calls : RunCalls J) (s : EngineState J) :
    Except (WireError J) (RunOutcome J) × EngineState J :=
  match s.store.mirrorThread exec.threadId (.patch { status := some .busy }) calls.busyRejection
      calls.startedAt with
  | (.error e, store) => (.error (exec.payloads.toRunError e), { s with store })
  | (.ok _, store) =>
    let s := { s with store, published := s.published ++ calls.frames.map .chunk }
    match calls.graph with
    | .error e => (.error e, s)
    | .ok snapshot =>
      match exec.settleRun (snapshotStatus snapshot) (snapshotResult snapshot) none calls.settling
          s with
      | (.error e, s) => (.error (exec.payloads.toRunError e), s)
      | (.ok final, s) =>
        match exec.mirrorSettled snapshot final calls s.store with
        | (.error e, store) => (.error (exec.payloads.toRunError e), { s with store })
        | (.ok _, store) => (.ok ⟨final, snapshotResult snapshot, none⟩, { s with store })

/-- The `catch` block, where no signal was aborted. -/
def catchError (exec : RunExecution J) (calls : RunCalls J) (error : WireError J)
    (s : EngineState J) : Executed J :=
  let s := { s with published := s.published ++ [.error error.value] }
  match exec.settleRun ⟨.error, RunStatus.isTerminal_error⟩ { values := ∅ } (some error.value)
      calls.caught s with
  | (.error _, s) => ⟨s, none⟩
  | (.ok final, s) =>
    let outcome : RunOutcome J := ⟨final, { values := ∅ }, some error.value⟩
    if final = .error then
      match s.store.mirrorThread exec.threadId (.error error.message) calls.errorRejection
          calls.mirroredAt with
      | (.error _, store) => ⟨{ s with store }, none⟩
      | (.ok _, store) => ⟨{ s with store }, some outcome⟩
    else ⟨s, some outcome⟩

/-- An outcome that says the run had already ended. -/
def alreadyEnded (s : EngineState J) (run : Run J) : Executed J :=
  ⟨s, some ⟨run.status, { values := ∅ }, none⟩⟩

/-- `executeRun`. -/
def executeRun (exec : RunExecution J) (calls : RunCalls J) (store : MemorySkeinStore J) :
    Executed J :=
  match (store.runsGet exec.runId).filter fun current => current.status.isTerminal with
  | some current => alreadyEnded { store } current
  | none =>
    match store.runsSetStatus exec.runId .running none calls.startedAt with
    | (.error e, store) => exec.catchError calls (exec.payloads.toRunError e) { store }
    | (.ok running, store) =>
      if running.status.isTerminal then alreadyEnded { store } running
      else
        match exec.attempt calls { store, started := true } with
        | (.error error, s) => exec.catchError calls error s
        | (.ok outcome, s) => ⟨s, some outcome⟩

end RunExecution

namespace RunExecution
variable {J : Type*} [WireJson J]

/-- The delivery `d` is the one this settlement writes down. -/
def Records (exec : RunExecution J) (s s' : EngineState J) (d : Delivery J) : Prop :=
  match exec.callbacks.native with
  | none => s.recordedDelivery = none ∧ s'.recordedDelivery = some d
  | some native =>
    d.deliveryId = native.deliveryId ∧ s.store.deliveries.get? native.deliveryId = none

/-- A settlement of a run whose row is `run`, as `final`. -/
structure Settles (exec : RunExecution J) (run : Run J) (status : TerminalStatus)
    (final : RunStatus) (s s' : EngineState J) : Prop where
  row : ∃ run', s'.store.runs.get? exec.runId = some run' ∧ run'.status = final
  final_eq : final = if run.status.isTerminal then run.status else status.val
  threads : s'.store.threads = s.store.threads
  results : exec.callbacks.a2a = true → exec.callbacks.native = none →
    s'.store.runResults.contains exec.runId = true
  published : s'.published = s.published
  deliveries :
    (s'.store.deliveries = s.store.deliveries ∧ s'.recordedDelivery = s.recordedDelivery) ∨
    ∃ d, s'.store.deliveries = s.store.deliveries.write d ∧ d.runStatus = final ∧
      exec.Records s s' d

/-- The result can be stored, if this kind of run stores it before it settles. -/
def Stores (exec : RunExecution J) (settled : RunResult J) (store : MemorySkeinStore J) : Prop :=
  exec.callbacks.native = none → exec.callbacks.a2a = true →
    store.runResults.contains exec.runId = false →
    (WireJson.roundTrip (exec.payloads.resultJson settled)).isSome = true

/-- The callback that this kind of run records when it settles can be cloned. -/
def Clones (exec : RunExecution J) (settled : RunResult J) (error : Option J) : Prop :=
  exec.callbacks.native = none → exec.callbacks.webhook.isSome = true →
    ∀ payload ∈ exec.payloads.buildDeliveryPayload settled error, WireJson.clones payload.1 = true

variable {exec : RunExecution J} {run : Run J} {status : TerminalStatus} {settled : RunResult J}
  {error : Option J} {x : SettleInput} {s : EngineState J}

omit [WireJson J] in
theorem finalizeRun_row {store : MemorySkeinStore J} {runId : RunId}
    (hrun : store.runs.get? runId = some run) (status : TerminalStatus) (error : Option J)
    (now : Timestamp) :
    ∃ final store', store.finalizeRun runId status error now = (.ok final, store') ∧
      (∃ run', store'.runs.get? runId = some run' ∧ run'.status = final) ∧
      final = (if run.status.isTerminal then run.status else status.val) ∧
      store' = { store with runs := store'.runs } := by
  have hid : run.runId = runId := Table.key_of_get? hrun
  simp only [MemorySkeinStore.finalizeRun, MemorySkeinStore.runsGet, hrun]
  by_cases hterm : run.status.isTerminal = true
  · rw [if_pos hterm, if_pos hterm]
    exact ⟨_, _, rfl, ⟨run, hrun, rfl⟩, rfl, rfl⟩
  · rw [if_neg hterm, if_neg hterm]
    simp only [MemorySkeinStore.runsSetStatus, hrun, hterm, and_false, if_false, Bool.false_eq_true]
    refine ⟨_, _, rfl, ⟨{ run with status := status.val, error, updatedAt := now }, ?_, rfl⟩, rfl,
      rfl⟩
    simp only [MemorySkeinStore.writeStatus]
    rw [Table.get?_write, if_pos hid]

theorem finalize_settles (hrun : s.store.runs.get? exec.runId = some run)
    (hstored : exec.callbacks.a2a = true → exec.callbacks.native = none →
      s.store.runResults.contains exec.runId = true) (status : TerminalStatus) (error : Option J)
    (x : SettleInput) : ∃ final s', exec.finalize status error x s = (.ok final, s') ∧
      exec.Settles run status final s s' := by
  obtain ⟨final, store', hfinal, hrow, heq, hframe⟩ := finalizeRun_row hrun status error x.now
  refine ⟨final, { s with store := store' }, by rw [finalize, hfinal], hrow, heq, ?_, ?_, rfl, ?_⟩
  · rw [hframe]
  · rw [hframe]
    exact hstored
  · rw [hframe]
    exact .inl ⟨rfl, rfl⟩

/-- The settlement of a native run can be serialized; its delivery keeps its identity. -/
theorem native_roundTrip (native : NativeOutcome) (status : TerminalStatus)
    (result : Option J) (hresult : ∀ v ∈ result, WireJson.roundTrip v = some v)
    (herror : ∀ v ∈ error, (WireJson.roundTrip v).isSome = true)
    (delivery : Option (DeliveryCreate J)) (hdelivery : ∀ d ∈ delivery,
      d.deliveryId = some native.deliveryId ∧
        ∀ v ∈ d.payload, (WireJson.roundTrip v).isSome = true) :
    ∃ final : RunSettlement J,
      RunSettlement.roundTrip ⟨status, error, result, delivery⟩ = some final ∧
        final.status = status ∧ ∀ d ∈ final.delivery, d.deliveryId = some native.deliveryId := by
  obtain ⟨error', herror'⟩ : ∃ error', roundTripOption WireJson.roundTrip error = some error' := by
    cases error with
    | none => exact ⟨none, rfl⟩
    | some v =>
      obtain ⟨w, hw⟩ := Option.isSome_iff_exists.mp (herror v rfl)
      exact ⟨some w, by simp [roundTripOption, hw]⟩
  obtain ⟨result', hresult'⟩ :
      ∃ result', roundTripOption WireJson.roundTrip result = some result' := by
    cases result with
    | none => exact ⟨none, rfl⟩
    | some v => exact ⟨some v, by simp [roundTripOption, hresult v rfl]⟩
  obtain ⟨delivery', hdelivery', hid⟩ : ∃ delivery',
      roundTripOption DeliveryCreate.roundTrip delivery = some delivery' ∧
        ∀ d ∈ delivery', d.deliveryId = some native.deliveryId := by
    cases delivery with
    | none => exact ⟨none, rfl, fun d hd => by cases hd⟩
    | some d =>
      obtain ⟨hid, hpayload⟩ := hdelivery d rfl
      obtain ⟨payload, hparsed⟩ : ∃ payload,
          roundTripOption WireJson.roundTrip d.payload = some payload := by
        cases hd : d.payload with
        | none => exact ⟨none, rfl⟩
        | some v =>
          obtain ⟨w, hw⟩ := Option.isSome_iff_exists.mp (hpayload v hd)
          exact ⟨some w, by simp [roundTripOption, hw]⟩
      refine ⟨some { d with payload }, ?_, ?_⟩
      · rw [roundTripOption, DeliveryCreate.roundTrip, hparsed]
        rfl
      · rintro _ ⟨⟩
        exact hid
  exact ⟨⟨status, error', result', delivery'⟩, RunSettlement.roundTrip_eq_some.mpr
    ⟨error', result', delivery', herror', hresult', hdelivery', rfl⟩, rfl, hid⟩

omit [WireJson J] in
/-- The delivery of a settlement, by its identifier. -/
theorem settleDelivery_records {store : MemorySkeinStore J} {runId : RunId}
    {final : RunSettlement J} {native : NativeOutcome}
    (hid : ∀ d ∈ final.delivery, d.deliveryId = some native.deliveryId)
    (hrun : store.runs.get? runId = some run) (uuid : DeliveryId) (now : Timestamp) :
    (store.settleDelivery runId final uuid now).2.deliveries = store.deliveries ∨
      ∃ d, (store.settleDelivery runId final uuid now).2.deliveries = store.deliveries.write d ∧
        d.runStatus = run.status ∧ d.deliveryId = native.deliveryId ∧
        store.deliveries.get? native.deliveryId = none := by
  unfold MemorySkeinStore.settleDelivery
  cases hdelivery : final.delivery with
  | none => exact .inl rfl
  | some prepared =>
    have hprepared := hid prepared hdelivery
    dsimp only
    rw [hprepared, Option.bind_some]
    cases hold : store.deliveries.get? native.deliveryId with
    | some existing => exact .inl rfl
    | none =>
      refine .inr ⟨_, rfl, ?_, ?_, rfl⟩
      · simp [hrun]
      · simp [hprepared]

theorem settleNativeRun_settles {native : NativeOutcome}
    (hnative : exec.callbacks.native = some native)
    (hrun : s.store.runs.get? exec.runId = some run)
    (herror : ∀ v ∈ error, (WireJson.roundTrip v).isSome = true) (status : TerminalStatus)
    (settled : RunResult J) (x : SettleInput) :
    ∃ final s', exec.settleNativeRun native status settled error x s = (.ok final, s') ∧
      exec.Settles run status final s s' := by
  obtain ⟨delivery, hdelivery⟩ : ∃ delivery : Option (DeliveryCreate J),
      delivery = native.outcomeTarget.map fun url => {
        deliveryId := some native.deliveryId
        threadId := exec.threadId
        url
        payload := some (exec.payloads.nativePayload status error
          (WireJson.roundTrip (exec.payloads.resultJson settled))).1
        payloadTruncated := some (exec.payloads.nativePayload status error
          (WireJson.roundTrip (exec.payloads.resultJson settled))).2
        nextAttemptAt := x.now
        expiresAt := x.expiresAt } := ⟨_, rfl⟩
  obtain ⟨final, hfinal, hstatus, hid⟩ := native_roundTrip native status
    (WireJson.roundTrip (exec.payloads.resultJson settled))
    (fun v hv => WireJson.roundTrip_parsed _ v hv) herror delivery (by
      intro d hd
      rw [hdelivery] at hd
      obtain ⟨url, -, rfl⟩ := Option.map_eq_some_iff.mp hd
      refine ⟨rfl, ?_⟩
      rintro _ ⟨⟩
      exact exec.payloads.nativePayload_serializes _ _ _)
  have hrow : (s.store.settleFinal exec.runId final x.uuid x.now).2.runs.get? exec.runId =
      some (MemorySkeinStore.settledRun run final x.now) := by
    rw [MemorySkeinStore.settleFinal_get?, if_pos rfl, hrun]
    rfl
  have hturn : exec.settleNativeRun native status settled error x s =
      (.ok (MemorySkeinStore.settledRun run final x.now).status,
        { s with store := (s.store.settleFinal exec.runId final x.uuid x.now).2 }) := by
    simp only [settleNativeRun, ← hdelivery, MemorySkeinStore.runsSettle_of_roundTrip hfinal,
      MemorySkeinStore.settleFinal_run, hrow]
    rfl
  have hframe := s.store.settleFinal_frame exec.runId final x.uuid x.now
  refine ⟨_, _, hturn, ⟨_, hrow, rfl⟩, ?_, ?_, ?_, rfl, ?_⟩
  · rw [MemorySkeinStore.settledRun]
    split_ifs
    · rfl
    · rw [← hstatus]
  · rw [hframe]
  · intro _ hnone
    rw [hnative] at hnone
    cases hnone
  · have hmid : ((s.store.settleRow exec.runId final x.now).settleResult exec.runId
        final).runs.get? exec.runId = some (MemorySkeinStore.settledRun run final x.now) := by
      rw [MemorySkeinStore.settleResult_runs, MemorySkeinStore.settleRow_get?, if_pos rfl, hrun]
      rfl
    have hrecords := settleDelivery_records hid hmid x.uuid x.now
    have hkept : ((s.store.settleRow exec.runId final x.now).settleResult exec.runId
        final).deliveries = s.store.deliveries := by
      rw [MemorySkeinStore.settleResult_frame, MemorySkeinStore.settleRow_frame]
    rw [hkept] at hrecords
    rcases hrecords with hsame | ⟨d, hwritten, hrunStatus, hdid, hfresh⟩
    · exact .inl ⟨hsame, rfl⟩
    · refine .inr ⟨d, hwritten, hrunStatus, ?_⟩
      rw [Records, hnative]
      exact ⟨hdid, hfresh⟩

/-- The writes of `finalizeWithDelivery`, which throws between them on a payload that cannot be
cloned. -/
theorem runsFinalizeWithDelivery_row {store : MemorySkeinStore J} {runId : RunId}
    (hrun : store.runs.get? runId = some run) (status : TerminalStatus) (error : Option J)
    (delivery : DeliveryCreate J) (uuid : DeliveryId) (now : Timestamp) :
    ∃ written : MemorySkeinStore J, written = { store with runs := written.runs } ∧
      (∃ run', written.runs.get? runId = some run' ∧
        run'.status = if run.status.isTerminal then run.status else status.val) ∧
      (delivery.clones = true → ∃ (row : FinalizedRun J) (d : Delivery J), row.delivery = d ∧
        d.runStatus = (if run.status.isTerminal then run.status else status.val) ∧
        store.runsFinalizeWithDelivery runId ⟨status, error, delivery⟩ uuid now =
          (.ok row, { written with deliveries := store.deliveries.write d })) ∧
      (delivery.clones = false →
        store.runsFinalizeWithDelivery runId ⟨status, error, delivery⟩ uuid now =
          (.error .unserializable, written)) := by
  have hid : run.runId = runId := Table.key_of_get? hrun
  simp only [MemorySkeinStore.runsFinalizeWithDelivery, hrun, MemorySkeinStore.insertClaimed]
  by_cases hterm : run.status.isTerminal = true
  · simp only [if_pos hterm]
    refine ⟨store, rfl, ⟨run, hrun, rfl⟩, fun hclones => ?_, fun hclones => ?_⟩
    · rw [if_pos hclones]
      exact ⟨_, _, rfl, rfl, rfl⟩
    · rw [if_neg (by simp [hclones])]
      rfl
  · simp only [if_neg hterm]
    refine ⟨store.writeStatus run status error now, rfl,
      ⟨{ run with status := status.val, error, updatedAt := now }, ?_, rfl⟩, fun hclones => ?_,
      fun hclones => ?_⟩
    · rw [MemorySkeinStore.writeStatus, Table.get?_write, if_pos hid]
    · rw [if_pos hclones]
      exact ⟨_, _, rfl, rfl, rfl⟩
    · rw [if_neg (by simp [hclones])]
      rfl

theorem settleWithDelivery_settles (hnative : exec.callbacks.native = none)
    (hrun : s.store.runs.get? exec.runId = some run)
    (hstored : exec.callbacks.a2a = true → exec.callbacks.native = none →
      s.store.runResults.contains exec.runId = true)
    (hclones : exec.Clones settled error) (status : TerminalStatus) (x : SettleInput) :
    ∃ final s', exec.settleWithDelivery status settled error x s = (.ok final, s') ∧
      exec.Settles run status final s s' := by
  unfold settleWithDelivery
  split
  next url hurl hstarted hrecorded =>
    split
    · exact finalize_settles hrun hstored status error x
    next payload truncated hpayload =>
      have hcloned := hclones hnative (by rw [hurl]; rfl) _ hpayload
      obtain ⟨written, hframe, hrow, hinserted, -⟩ := runsFinalizeWithDelivery_row hrun status error
        { threadId := exec.threadId
          url
          payload := some payload
          payloadTruncated := some truncated
          nextAttemptAt := x.nextAttemptAt
          expiresAt := x.expiresAt } x.uuid x.now
      obtain ⟨row, d, rfl, hstatus, hfinalize⟩ := hinserted hcloned
      rw [hfinalize]
      refine ⟨_, _, rfl, ?_, hstatus, ?_, ?_, rfl, .inr ⟨row.delivery, rfl, rfl, ?_⟩⟩
      · rw [hstatus]
        exact hrow
      · rw [hframe]
      · rw [hframe]
        exact hstored
      · rw [Records, hnative]
        exact ⟨hrecorded, rfl⟩
  · exact finalize_settles hrun hstored status error x

/-- The row is settled, and the callback then is not recorded. -/
theorem settleWithDelivery_throws (hrun : s.store.runs.get? exec.runId = some run)
    (hstored : exec.callbacks.a2a = true → exec.callbacks.native = none →
      s.store.runResults.contains exec.runId = true)
    (hstarted : s.started = true) (hrecorded : s.recordedDelivery = none)
    (hclones : ¬ exec.Clones settled error) (status : TerminalStatus) (x : SettleInput) :
    ∃ e final s', exec.settleWithDelivery status settled error x s = (.error e, s') ∧
      exec.Settles run status final s s' := by
  simp only [Clones, not_forall] at hclones
  obtain ⟨-, hwebhook, payload, hpayload, hcloned⟩ := hclones
  obtain ⟨url, hurl⟩ := Option.isSome_iff_exists.mp hwebhook
  obtain ⟨written, hframe, hrow, -, hthrown⟩ := runsFinalizeWithDelivery_row hrun status error
    { threadId := exec.threadId
      url
      payload := some payload.1
      payloadTruncated := some payload.2
      nextAttemptAt := x.nextAttemptAt
      expiresAt := x.expiresAt } x.uuid x.now
  refine ⟨.unserializable, _, { s with store := written }, ?_, hrow, rfl, ?_, ?_, rfl,
    .inl ⟨?_, rfl⟩⟩
  · unfold settleWithDelivery
    simp only [hurl, hstarted, hrecorded, Option.mem_def.mp hpayload]
    rw [hthrown (by simpa [DeliveryCreate.clones] using hcloned)]
  · rw [hframe]
  · rw [hframe]
    exact hstored
  · rw [hframe]

/-- What `settleRun` of a run that is not native does before it settles the row. -/
theorem settleRun_eq (exec : RunExecution J) (settled : RunResult J) (error : Option J)
    (hnative : exec.callbacks.native = none) (hrun : s.store.runs.get? exec.runId = some run)
    (hstores : exec.Stores settled s.store) (status : TerminalStatus) (x : SettleInput) :
    ∃ store, exec.settleRun status settled error x s =
        exec.settleWithDelivery status settled error x { s with store } ∧
      store.runs = s.store.runs ∧ store.threads = s.store.threads ∧
      store.deliveries = s.store.deliveries ∧
      (exec.callbacks.a2a = true → exec.callbacks.native = none →
        store.runResults.contains exec.runId = true) := by
  unfold settleRun
  rw [hnative]
  dsimp only
  by_cases ha2a : exec.callbacks.a2a = true
  · rw [if_pos ha2a]
    unfold MemorySkeinStore.runsRecordResult
    have hcontains : s.store.runs.contains exec.runId = true :=
      Option.isSome_iff_exists.mpr ⟨run, hrun⟩
    by_cases hfresh : s.store.runResults.contains exec.runId = false
    · obtain ⟨w, hw⟩ := Option.isSome_iff_exists.mp (hstores hnative ha2a hfresh)
      rw [if_pos ⟨hcontains, hfresh⟩, hw]
      exact ⟨_, rfl, rfl, rfl, rfl, fun _ _ => by simp⟩
    · rw [if_neg fun h => hfresh h.2]
      exact ⟨s.store, rfl, rfl, rfl, rfl, fun _ _ => by simpa using hfresh⟩
  · rw [if_neg ha2a]
    exact ⟨s.store, rfl, rfl, rfl, rfl, fun h => absurd h ha2a⟩

/-- A settlement from a store that differs in its results only. -/
theorem Settles.of_store {store : MemorySkeinStore J} {final : RunStatus} {s' : EngineState J}
    (h : exec.Settles run status final { s with store } s')
    (hnative : exec.callbacks.native = none) (hthreads : store.threads = s.store.threads)
    (hdeliveries : store.deliveries = s.store.deliveries) : exec.Settles run status final s s' := by
  refine ⟨h.row, h.final_eq, h.threads.trans hthreads, h.results, h.published, ?_⟩
  rcases h.deliveries with ⟨hsame, hrecorded⟩ | ⟨d, hwritten, hstatus, hrecords⟩
  · exact .inl ⟨hsame.trans hdeliveries, hrecorded⟩
  · refine .inr ⟨d, hwritten.trans (by rw [hdeliveries]), hstatus, ?_⟩
    simpa [Records, hnative] using hrecords

/-- A settlement goes through unless the result has to be stored first and cannot be, or the
callback cannot be cloned. -/
theorem settleRun_settles (exec : RunExecution J) (settled : RunResult J) (error : Option J)
    (hrun : s.store.runs.get? exec.runId = some run)
    (herror : ∀ v ∈ error, (WireJson.roundTrip v).isSome = true)
    (hstores : exec.Stores settled s.store) (hclones : exec.Clones settled error)
    (status : TerminalStatus) (x : SettleInput) :
    ∃ final s', exec.settleRun status settled error x s = (.ok final, s') ∧
      exec.Settles run status final s s' := by
  cases hnative : exec.callbacks.native with
  | some native =>
    unfold settleRun
    rw [hnative]
    exact settleNativeRun_settles hnative hrun herror status settled x
  | none =>
    obtain ⟨store, hsettle, hruns, hthreads, hdeliveries, hstored⟩ :=
      exec.settleRun_eq settled error hnative hrun hstores status x
    obtain ⟨final, s', hend, hsettles⟩ := settleWithDelivery_settles (s := { s with store })
      hnative (by rw [hruns]; exact hrun) hstored hclones status x
    exact ⟨final, s', hsettle.trans hend, hsettles.of_store hnative hthreads hdeliveries⟩

/-- A first settlement whose callback cannot be cloned settles the row, and throws. -/
theorem settleRun_throws (exec : RunExecution J) (settled : RunResult J) (error : Option J)
    (hrun : s.store.runs.get? exec.runId = some run) (hstores : exec.Stores settled s.store)
    (hstarted : s.started = true) (hrecorded : s.recordedDelivery = none)
    (hclones : ¬ exec.Clones settled error) (status : TerminalStatus) (x : SettleInput) :
    ∃ e final s', exec.settleRun status settled error x s = (.error e, s') ∧
      exec.Settles run status final s s' := by
  have hnative : exec.callbacks.native = none := by
    simp only [Clones, Classical.not_imp] at hclones
    exact hclones.1
  obtain ⟨store, hsettle, hruns, hthreads, hdeliveries, hstored⟩ :=
    exec.settleRun_eq settled error hnative hrun hstores status x
  obtain ⟨e, final, s', hend, hsettles⟩ := settleWithDelivery_throws (s := { s with store })
    (by rw [hruns]; exact hrun) hstored hstarted hrecorded hclones status x
  exact ⟨e, final, s', hsettle.trans hend, hsettles.of_store hnative hthreads hdeliveries⟩

theorem settleRun_fails (hrun : s.store.runs.get? exec.runId = some run)
    (hstores : ¬ exec.Stores settled s.store) (status : TerminalStatus) (error : Option J)
    (x : SettleInput) : exec.settleRun status settled error x s = (.error .unserializable, s) := by
  simp only [Stores, Classical.not_imp] at hstores
  obtain ⟨hnative, ha2a, hfresh, hnone⟩ := hstores
  have hcontains : s.store.runs.contains exec.runId = true :=
    Option.isSome_iff_exists.mpr ⟨run, hrun⟩
  have hunserializable : WireJson.roundTrip (exec.payloads.resultJson settled) = none := by
    simpa using hnone
  simp [settleRun, hnative, ha2a, MemorySkeinStore.runsRecordResult, hcontains, hfresh,
    hunserializable]

end RunExecution
end Skein
