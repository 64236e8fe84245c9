import Skein.DeliveryRepo
import Skein.Machine

/-!
# Settlements, finalizations and results

`runs.settle`, `finalizeWithDelivery` and `recordResult` in any order, over any runs. Rows,
errors and results are written once, and a delivery is stamped with the status its run has.
Deliveries are inserted once as long as no finalization names one that is there already:
`settle` looks for the identifier first, `finalizeWithDelivery` does not. Beside the store
the history keeps the identifiers deliveries were inserted under.
-/
namespace Skein

inductive SettlementCall (J : Type*)
  | settle (runId : RunId) (input : RunSettlement J) (uuid : DeliveryId) (now : Timestamp)
  | finalizeWithDelivery (runId : RunId) (final : RunFinalization J) (uuid : DeliveryId)
    (now : Timestamp)
  | recordResult (runId : RunId) (result : J)

structure SettlementWorld (J : Type*) where
  store : MemorySkeinStore J
  inserted : List DeliveryId

/-- A store with the deliveries it starts with. -/
def SettlementWorld.ofStore {J : Type*} (store : MemorySkeinStore J) : SettlementWorld J :=
  ⟨store, store.deliveries.keys⟩

namespace SettlementCall
variable {J : Type*} [WireJson J]

/-- The store a call leaves. -/
def perform (store : MemorySkeinStore J) : SettlementCall J → MemorySkeinStore J
  | .settle runId input uuid now => (store.runsSettle runId input uuid now).2
  | .finalizeWithDelivery runId final uuid now =>
    (store.runsFinalizeWithDelivery runId final uuid now).2
  | .recordResult runId result => (store.runsRecordResult runId result).2

/-- The identifier a call inserts a delivery under, if it inserts one. -/
def inserts (store : MemorySkeinStore J) : SettlementCall J → Option DeliveryId
  | .settle _ input uuid _ =>
    (input.roundTrip.bind RunSettlement.delivery).bind fun prepared =>
      if (prepared.deliveryId.bind store.deliveries.get?).isSome then none
      else some (prepared.deliveryId.getD uuid)
  | .finalizeWithDelivery _ final uuid _ =>
    if final.delivery.clones then some (final.delivery.deliveryId.getD uuid) else none
  | .recordResult .. => none

/-- Generated identifiers have never been used. -/
def FreshUuid (store : MemorySkeinStore J) : SettlementCall J → Bool
  | .settle _ _ uuid _ | .finalizeWithDelivery _ _ uuid _ => !store.deliveries.contains uuid
  | .recordResult .. => true

end SettlementCall

section
variable {J : Type*} [WireJson J]

/-- One call. -/
def settlements : Machine (SettlementWorld J) (SettlementCall J) where
  step w call :=
    if call.FreshUuid w.store then
      some ⟨call.perform w.store, w.inserted ++ (call.inserts w.store).toList⟩
    else none

/-- A finalization whose payload can be cloned names no delivery that is there already. -/
def InsertsFresh (w : SettlementWorld J) : SettlementCall J → Prop
  | .finalizeWithDelivery _ final _ _ => final.delivery.clones = true →
    ∀ id ∈ final.delivery.deliveryId, w.store.deliveries.contains id = false
  | _ => True

instance (w : SettlementWorld J) : ∀ call, Decidable (InsertsFresh w call)
  | .settle .. | .recordResult .. => isTrue trivial
  | .finalizeWithDelivery _ final _ _ =>
    inferInstanceAs (Decidable (_ → ∀ id ∈ final.delivery.deliveryId, _))

end

/-- What a call does to the three tables. -/
structure SettlementCall.Writes {J : Type*} [WireJson J] (call : SettlementCall J)
    (store store' : MemorySkeinStore J) : Prop where
  terminal : ∀ k run, store.runs.get? k = some run → run.status.isTerminal = true →
    store'.runs.get? k = some run
  results : ∀ k result, store.runResults.get? k = some result →
    store'.runResults.get? k = some result
  settled : ∀ runId input uuid now, call = .settle runId input uuid now → ∀ k result,
    store.runResults.get? k = none → store'.runResults.get? k = some result →
    ∃ run, store'.runs.get? k = some run ∧ run.status = input.status
  deliveries : (∀ id, store'.deliveries.contains id = true ↔
      store.deliveries.contains id = true ∨ call.inserts store = some id) ∧
    ∀ id, call.inserts store = some id → ∃ delivery,
      store'.deliveries.get? id = some delivery ∧ ∀ run,
        store'.runs.get? delivery.runId = some run → delivery.runStatus = run.status

namespace MemorySkeinStore
variable {J : Type*}

/-- An inserted delivery is there, under its identifier. -/
theorem insertDelivery_contains (store : MemorySkeinStore J) (runId : RunId)
    (runStatus : RunStatus) (input : DeliveryCreate J) (claimed : Bool) (uuid : DeliveryId)
    (now : Timestamp) (id : DeliveryId) :
    (store.insertDelivery runId runStatus input claimed uuid now).2.deliveries.contains id = true ↔
      store.deliveries.contains id = true ∨ input.deliveryId.getD uuid = id := by
  unfold OrderedMap.contains
  rw [insertDelivery_get?]
  by_cases hid : input.deliveryId.getD uuid = id
  · simp [hid]
  · rw [if_neg hid]
    exact ⟨.inl, fun h => h.resolve_right hid⟩

/-- Rows and results are written before the delivery is looked up. -/
theorem settleResult_settleRow_deliveries (store : MemorySkeinStore J) (runId : RunId)
    (final : RunSettlement J) (now : Timestamp) :
    ((store.settleRow runId final now).settleResult runId final).deliveries =
      store.deliveries := by
  rw [settleResult_frame, settleRow_frame]

/-- The results after a settlement: at most its own was added, to a run it settled. -/
theorem settleFinal_runResults (store : MemorySkeinStore J) (runId : RunId)
    (final : RunSettlement J) (uuid : DeliveryId) (now : Timestamp) (k : RunId) :
    (store.settleFinal runId final uuid now).2.runResults.get? k = store.runResults.get? k ∨
      (store.runResults.get? k = none ∧ ∃ run,
        (store.settleFinal runId final uuid now).2.runs.get? k = some run ∧
          run.status = final.status) := by
  have hrow : (store.settleRow runId final now).runResults = store.runResults := by
    rw [settleRow_frame]
  have hdelivery : (store.settleFinal runId final uuid now).2.runResults =
      ((store.settleRow runId final now).settleResult runId final).runResults := by
    rw [settleFinal, settleDelivery_frame]
  have hruns : (store.settleFinal runId final uuid now).2.runs =
      (store.settleRow runId final now).runs := by
    simp [settleFinal]
  rw [hdelivery, hruns, ← hrow]
  unfold settleResult
  split
  next run normalized hrun _ =>
    split_ifs with hwon
    · by_cases hk : runId = k
      · subst hk
        refine .inr ⟨(OrderedMap.contains_eq_false_iff _ _).mp hwon.2, run, hrun, hwon.1⟩
      · exact .inl (OrderedMap.get?_set_of_ne _ _ hk)
    · exact .inl rfl
  · exact .inl rfl

end MemorySkeinStore

namespace SettlementCall
variable {J : Type*} [WireJson J] (store : MemorySkeinStore J)

theorem settle_writes (runId : RunId) (input : RunSettlement J) (uuid : DeliveryId)
    (now : Timestamp) : Writes (.settle runId input uuid now) store
      (perform store (.settle runId input uuid now)) := by
  cases hinput : input.roundTrip with
  | none =>
    have hperform : perform store (.settle runId input uuid now) = store := by
      simp [perform, MemorySkeinStore.runsSettle, hinput]
    rw [hperform]
    refine ⟨fun _ _ h _ => h, fun _ _ h => h, fun _ _ _ _ _ k result hnone hsome => ?_, ?_⟩
    · rw [hnone] at hsome
      cases hsome
    · simp [inserts, hinput]
  | some final =>
    have hperform : perform store (.settle runId input uuid now) =
        (store.settleFinal runId final uuid now).2 := by
      simp [perform, MemorySkeinStore.runsSettle, hinput]
    have hget := store.settleFinal_get? runId final uuid now
    have hresults := store.settleFinal_runResults runId final uuid now
    rw [hperform]
    refine ⟨?_, ?_, ?_, ?_⟩
    · intro k run hrun hterm
      rw [hget]
      split_ifs with hk
      · rw [hrun, Option.map_some, MemorySkeinStore.settledRun_of_isTerminal hterm]
      · exact hrun
    · intro k result hresult
      rcases hresults k with hsame | ⟨hnone, -⟩
      · rw [hsame, hresult]
      · rw [hresult] at hnone
        cases hnone
    · rintro _ _ _ _ ⟨⟩ k result hnone hsome
      rcases hresults k with hsame | ⟨-, run, hrun, hstatus⟩
      · rw [hsame, hnone] at hsome
        cases hsome
      · exact ⟨run, hrun, hstatus.trans (congrArg _ (RunSettlement.roundTrip_status hinput))⟩
    · obtain ⟨settled, hsettled⟩ : ∃ settled, settled =
        (store.settleRow runId final now).settleResult runId final := ⟨_, rfl⟩
      have hdeliveries : settled.deliveries = store.deliveries := by
        rw [hsettled, MemorySkeinStore.settleResult_settleRow_deliveries]
      have hfinal : (store.settleFinal runId final uuid now).2 =
          (settled.settleDelivery runId final uuid now).2 := by
        rw [hsettled]
        rfl
      rw [hfinal]
      have hinserts : inserts store (.settle runId input uuid now) =
          final.delivery.bind fun prepared =>
            if (prepared.deliveryId.bind settled.deliveries.get?).isSome then none
            else some (prepared.deliveryId.getD uuid) := by
        simp [inserts, hinput, hdeliveries]
      rw [hinserts, ← hdeliveries]
      unfold MemorySkeinStore.settleDelivery
      cases final.delivery with
      | none => simp
      | some prepared =>
        cases hexisting : prepared.deliveryId.bind settled.deliveries.get? with
        | some existing => simp [hexisting]
        | none =>
          simp only [Option.bind_some, hexisting, Option.isSome_none, Bool.false_eq_true,
            if_false, Option.some.injEq]
          refine ⟨settled.insertDelivery_contains _ _ _ _ _ _, ?_⟩
          rintro id rfl
          refine ⟨_, by rw [MemorySkeinStore.insertDelivery_get?, if_pos rfl], fun run hrun => ?_⟩
          have hrun : settled.runs.get? runId = some run := hrun
          simp [MemorySkeinStore.insertDelivery, hrun]

theorem finalizeWithDelivery_writes (runId : RunId) (final : RunFinalization J)
    (uuid : DeliveryId) (now : Timestamp) : Writes (.finalizeWithDelivery runId final uuid now)
      store (perform store (.finalizeWithDelivery runId final uuid now)) := by
  obtain ⟨written, runStatus, hperform, hdeliveries, hresults, hterminal, hstatus⟩ :
      ∃ (written : MemorySkeinStore J) (runStatus : RunStatus),
        perform store (.finalizeWithDelivery runId final uuid now) =
          (written.insertClaimed runId runStatus final.delivery uuid now).2 ∧
        written.deliveries = store.deliveries ∧ written.runResults = store.runResults ∧
        (∀ k run, store.runs.get? k = some run → run.status.isTerminal = true →
          written.runs.get? k = some run) ∧
        ∀ run, written.runs.get? runId = some run → runStatus = run.status := by
    simp only [perform, MemorySkeinStore.runsFinalizeWithDelivery]
    cases hrun : store.runs.get? runId with
    | none =>
      refine ⟨store, final.status, rfl, rfl, rfl, fun _ _ h _ => h, fun run h => ?_⟩
      rw [hrun] at h
      cases h
    | some existing =>
      have hid : existing.runId = runId := Table.key_of_get? hrun
      dsimp only
      by_cases hterm : existing.status.isTerminal = true
      · rw [if_pos hterm]
        refine ⟨store, existing.status, rfl, rfl, rfl, fun _ _ h _ => h, fun run h => ?_⟩
        rw [hrun] at h
        exact congrArg Run.status (Option.some.inj h)
      · rw [if_neg hterm]
        refine ⟨store.writeStatus existing final.status final.error now, final.status, rfl, rfl,
          rfl, fun k run h hrunTerm => ?_, fun run h => ?_⟩
        · rw [MemorySkeinStore.writeStatus, Table.get?_write, if_neg]
          · exact h
          · rintro rfl
            rw [hid, hrun] at h
            exact hterm (Option.some.inj h ▸ hrunTerm)
        · rw [MemorySkeinStore.writeStatus, Table.get?_write, if_pos hid] at h
          exact congrArg Run.status (Option.some.inj h)
  rw [hperform, MemorySkeinStore.insertClaimed]
  by_cases hclones : final.delivery.clones = true
  · rw [if_pos hclones]
    refine ⟨hterminal, fun k result h => ?_, fun _ _ _ _ h => (by cases h), fun id => ?_, ?_⟩
    · show written.runResults.get? k = some result
      rw [hresults, h]
    · rw [written.insertDelivery_contains, hdeliveries]
      simp [inserts, hclones]
    · intro id hid
      rw [inserts, if_pos hclones] at hid
      cases hid
      refine ⟨_, by rw [MemorySkeinStore.insertDelivery_get?, if_pos rfl], fun run hrun => ?_⟩
      exact hstatus run hrun
  · rw [if_neg hclones]
    refine ⟨hterminal, fun k result h => by rw [hresults, h], fun _ _ _ _ h => (by cases h),
      fun id => ?_, fun id hid => ?_⟩
    · rw [hdeliveries]
      simp [inserts, hclones]
    · rw [inserts, if_neg hclones] at hid
      cases hid

theorem recordResult_writes (runId : RunId) (result : J) :
    Writes (.recordResult runId result) store (perform store (.recordResult runId result)) := by
  have hframe : (perform store (.recordResult runId result)).runs = store.runs ∧
      (perform store (.recordResult runId result)).deliveries = store.deliveries ∧
      ∀ k old, store.runResults.get? k = some old →
        (perform store (.recordResult runId result)).runResults.get? k = some old := by
    simp only [perform, MemorySkeinStore.runsRecordResult]
    split_ifs with hfirst
    · cases WireJson.roundTrip result with
      | none => exact ⟨rfl, rfl, fun _ _ h => h⟩
      | some normalized =>
        refine ⟨rfl, rfl, fun k old h => ?_⟩
        have hne : runId ≠ k := by
          rintro rfl
          rw [(OrderedMap.contains_eq_false_iff _ _).mp hfirst.2] at h
          cases h
        exact (OrderedMap.get?_set_of_ne _ _ hne).trans h
    · exact ⟨rfl, rfl, fun _ _ h => h⟩
  obtain ⟨hruns, hdeliveries, hresults⟩ := hframe
  refine ⟨fun k run h _ => hruns ▸ h, hresults, fun _ _ _ _ h => (by cases h),
    fun id => ?_, fun _ h => (by cases h)⟩
  rw [hdeliveries]
  simp [inserts]

theorem perform_writes (call : SettlementCall J) : call.Writes store (call.perform store) := by
  cases call with
  | settle runId input uuid now => exact settle_writes store runId input uuid now
  | finalizeWithDelivery runId final uuid now =>
    exact finalizeWithDelivery_writes store runId final uuid now
  | recordResult runId result => exact recordResult_writes store runId result

end SettlementCall

namespace SettlementWorld
variable {J : Type*} [WireJson J]

/-- The identifiers of the deliveries that are there are those something was inserted
under. -/
def Recorded (w : SettlementWorld J) : Prop :=
  ∀ id, id ∈ w.inserted ↔ w.store.deliveries.contains id = true

/-- Terminal rows and results of `w` are still there in `w'`, as they were. -/
structure Kept (w w' : SettlementWorld J) : Prop where
  terminal : ∀ k run, w.store.runs.get? k = some run → run.status.isTerminal = true →
    w'.store.runs.get? k = some run
  results : ∀ k result, w.store.runResults.get? k = some result →
    w'.store.runResults.get? k = some result

theorem step_eq {w w' : SettlementWorld J} {call : SettlementCall J}
    (h : settlements.step w call = some w') : call.FreshUuid w.store = true ∧
      w' = ⟨call.perform w.store, w.inserted ++ (call.inserts w.store).toList⟩ := by
  simp only [settlements] at h
  split_ifs at h with hfresh
  exact ⟨hfresh, (Option.some.inj h).symm⟩

theorem step_kept {w w' : SettlementWorld J} {call : SettlementCall J}
    (h : settlements.step w call = some w') : Kept w w' := by
  obtain ⟨-, rfl⟩ := step_eq h
  have hwrites := SettlementCall.perform_writes w.store call
  exact ⟨hwrites.terminal, hwrites.results⟩

/-- What was committed by some call stays, whatever calls follow. -/
theorem run_kept {w w' : SettlementWorld J} {calls : List (SettlementCall J)}
    (h : settlements.run w calls = some w') : Kept w w' :=
  Machine.run_relation (I := fun _ => True) (R := Kept) (fun _ _ _ _ _ => trivial)
    (fun _ => ⟨fun _ _ h _ => h, fun _ _ h => h⟩)
    (fun _ _ _ h h' => ⟨fun k run hrun hterm => h'.terminal k run (h.terminal k run hrun hterm) hterm,
      fun k result hresult => h'.results k result (h.results k result hresult)⟩)
    (fun _ _ _ _ hstep => step_kept hstep) trivial h

theorem step_recorded {w w' : SettlementWorld J} {call : SettlementCall J} (hw : w.Recorded)
    (h : settlements.step w call = some w') : w'.Recorded := by
  obtain ⟨-, rfl⟩ := step_eq h
  intro id
  have hdeliveries := (SettlementCall.perform_writes w.store call).deliveries.1 id
  show id ∈ w.inserted ++ (call.inserts w.store).toList ↔ _
  rw [hdeliveries, List.mem_append, hw id, Option.mem_toList]

/-- A call inserts under an identifier of its own unless it finalizes with one that is
there. -/
theorem insertsFresh_iff {w w' : SettlementWorld J} {call : SettlementCall J}
    (h : settlements.step w call = some w') : InsertsFresh w call ↔
      ∀ id, call.inserts w.store = some id → w.store.deliveries.contains id = false := by
  obtain ⟨hfresh, -⟩ := step_eq h
  cases call with
  | settle runId input uuid now =>
    have huuid : w.store.deliveries.contains uuid = false := by
      simpa [SettlementCall.FreshUuid] using hfresh
    refine ⟨fun _ id hid => ?_, fun _ => trivial⟩
    obtain ⟨prepared, -, hinserts⟩ := Option.bind_eq_some_iff.mp hid
    split_ifs at hinserts with hthere
    cases hinserts
    cases hnamed : prepared.deliveryId with
    | none => exact huuid
    | some named => simpa [hnamed, OrderedMap.contains] using hthere
  | finalizeWithDelivery runId final uuid now =>
    have huuid : w.store.deliveries.contains uuid = false := by
      simpa [SettlementCall.FreshUuid] using hfresh
    simp only [InsertsFresh, SettlementCall.inserts, Option.mem_def]
    split_ifs with hclones
    · cases final.delivery.deliveryId with
      | none => simpa [hclones] using huuid
      | some named => simp [hclones]
    · simp [hclones]
  | recordResult runId result => exact ⟨fun _ _ h => (by cases h), fun _ => trivial⟩

/-- The insertions of a run are distinct exactly if every call inserted under an identifier
of its own. -/
theorem nodup_inserted_iff {w w' : SettlementWorld J} {calls : List (SettlementCall J)}
    (hw : w.Recorded) (hnodup : w.inserted.Nodup) (h : settlements.run w calls = some w') :
    w'.inserted.Nodup ↔ settlements.Along InsertsFresh w calls := by
  induction calls generalizing w with
  | nil =>
    cases h
    exact ⟨fun _ => trivial, fun _ => hnodup⟩
  | cons call calls ih =>
    obtain ⟨u, hu, hrun⟩ := (settlements.run_cons_eq_some).mp h
    have hrecorded := step_recorded hw hu
    have hinserted : u.inserted = w.inserted ++ (call.inserts w.store).toList := by
      rw [(step_eq hu).2]
    have hstep : u.inserted.Nodup ↔ InsertsFresh w call := by
      rw [insertsFresh_iff hu, hinserted, List.nodup_append]
      have hmember : ∀ id, w.store.deliveries.contains id = false ↔ id ∉ w.inserted := fun id => by
        rw [hw id, Bool.not_eq_true]
      simp only [hmember]
      cases call.inserts w.store with
      | none => simp [hnodup]
      | some id =>
        simp only [hnodup, Option.toList_some, List.nodup_singleton, List.mem_singleton,
          Option.some.injEq, forall_eq', forall_eq, ne_eq, true_and]
        exact ⟨fun h hid => h id hid rfl, fun h other hother heq => h (heq ▸ hother)⟩
    have hgrows : u.inserted <+: w'.inserted :=
      Machine.run_relation (I := fun _ => True)
        (R := fun s t : SettlementWorld J => s.inserted <+: t.inserted)
        (fun _ _ _ _ _ => trivial) (fun _ => List.prefix_refl _) (fun _ _ _ => List.IsPrefix.trans)
        (fun s _ t _ hst => by
          rw [(step_eq hst).2]
          exact List.prefix_append _ _) trivial hrun
    constructor
    · intro hfinal
      have hbefore := hfinal.sublist hgrows.sublist
      simpa [Machine.Along, hu] using ⟨hstep.mp hbefore, (ih hrecorded hbefore hrun).mp hfinal⟩
    · intro halong
      obtain ⟨hfresh, hrest⟩ := Machine.along_cons halong hu
      exact (ih hrecorded (hstep.mpr hfresh) hrun).mpr hrest

end SettlementWorld

/-- The settlement contract of a sequence of calls. -/
structure WriteOnce {J : Type*} [WireJson J] (start : SettlementWorld J)
    (calls : List (SettlementCall J)) : Prop where
  /-- The first terminal status of a run and its error stay. -/
  status : ∀ before after u v, calls = before ++ after → settlements.run start before = some u →
    settlements.run u after = some v → ∀ k run, u.store.runs.get? k = some run →
    run.status.isTerminal = true → ∃ run', v.store.runs.get? k = some run' ∧
      run'.status = run.status ∧ run'.error = run.error
  /-- A stored result is never replaced. -/
  result : ∀ before after u v, calls = before ++ after → settlements.run start before = some u →
    settlements.run u after = some v → ∀ k result, u.store.runResults.get? k = some result →
    v.store.runResults.get? k = some result
  /-- A settlement stores a result only if its status is the row's. -/
  settled : ∀ before runId input uuid now after u v,
    calls = before ++ .settle runId input uuid now :: after →
    settlements.run start before = some u →
    settlements.step u (.settle runId input uuid now) = some v → ∀ k result,
    u.store.runResults.get? k = none → v.store.runResults.get? k = some result →
    ∃ run, v.store.runs.get? k = some run ∧ run.status = input.status
  /-- No two deliveries are inserted under one identifier. -/
  inserted : ∀ w, settlements.run start calls = some w → w.inserted.Nodup
  /-- A delivery is inserted with the status of its run after the call. -/
  stamped : ∀ before call after u v, calls = before ++ call :: after →
    settlements.run start before = some u → settlements.step u call = some v → ∀ id,
    call.inserts u.store = some id → ∃ delivery, v.store.deliveries.get? id = some delivery ∧
      ∀ run, v.store.runs.get? delivery.runId = some run → delivery.runStatus = run.status

/-- A sequence of calls keeps the settlement contract exactly if no finalization names a
delivery that is there already. -/
theorem writeOnce_iff_insertsFresh {J : Type*} [WireJson J] {store : MemorySkeinStore J}
    {calls : List (SettlementCall J)} {w : SettlementWorld J}
    (h : settlements.run (.ofStore store) calls = some w) :
    WriteOnce (.ofStore store) calls ↔
      settlements.Along InsertsFresh (.ofStore store) calls := by
  have hrecorded : (SettlementWorld.ofStore store).Recorded := fun id =>
    OrderedMap.mem_keys_iff _ _
  have hnodup : (SettlementWorld.ofStore store).inserted.Nodup := store.deliveries.nodup
  have hiff := SettlementWorld.nodup_inserted_iff hrecorded hnodup h
  refine ⟨fun hcontract => hiff.mp (hcontract.inserted w h), fun halong => ?_⟩
  refine ⟨?_, ?_, ?_, ?_, ?_⟩
  · intro before after u v _ _ hv k run hrun hterm
    exact ⟨run, (SettlementWorld.run_kept hv).terminal k run hrun hterm, rfl, rfl⟩
  · intro before after u v _ _ hv k result hresult
    exact (SettlementWorld.run_kept hv).results k result hresult
  · intro before runId input uuid now after u v _ _ hstep k result hnone hsome
    obtain ⟨-, rfl⟩ := SettlementWorld.step_eq hstep
    exact (SettlementCall.perform_writes u.store _).settled runId input uuid now rfl k result
      hnone hsome
  · intro w' hw'
    obtain rfl : w = w' := Option.some.inj (h.symm.trans hw')
    exact hiff.mpr halong
  · intro before call after u v _ _ hstep id hid
    obtain ⟨-, rfl⟩ := SettlementWorld.step_eq hstep
    exact (SettlementCall.perform_writes u.store call).deliveries.2 id hid

namespace SettlementWorld

/-- A run that is executing. -/
def executingRun : Run ℕ where
  runId := .of "run"
  threadId := .of "thread"
  assistantId := .of "agent"
  createdAt := 0
  updatedAt := 0
  status := .running
  metadata := 0
  multitaskStrategy := none

def executing : MemorySkeinStore ℕ :=
  { runs := (∅ : Table RunId (Run ℕ) Run.runId).write executingRun }

/-- The callback of that run. -/
def callback (deliveryId : Option DeliveryId) : DeliveryCreate ℕ where
  deliveryId
  threadId := .of "thread"
  url := "https://hooks.example.com"
  payload := some 1
  nextAttemptAt := 9
  expiresAt := 99

/-- A failure, with an identified callback. -/
def failed : RunSettlement ℕ where
  status := ⟨.error, rfl⟩
  result := some 5
  delivery := some (callback (some (.of "callback")))

/-- The engine finishes the run that was settled as failed, with `deliveryId` for its own
callback, and records its result. -/
def raced (deliveryId : Option DeliveryId) : List (SettlementCall ℕ) :=
  [.settle (.of "run") failed (.of "d0") 1,
    .finalizeWithDelivery (.of "run") ⟨.success, none, callback deliveryId⟩ (.of "d1") 2,
    .recordResult (.of "run") 7]

/-- The world after some calls. -/
def after (calls : List (SettlementCall ℕ)) : SettlementWorld ℕ :=
  (settlements.run (.ofStore executing) calls).getD (.ofStore executing)

/-- With a generated identifier both callbacks are there, under the status that won. -/
theorem raced_writeOnce :
    WriteOnce (.ofStore executing) (raced none) ∧
      (after (raced none)).store.deliveries.values.map (fun d => (d.deliveryId, d.runStatus)) =
        [(.of "callback", .error), (.of "d1", .error)] ∧
      (after (raced none)).store.runResults.get? (.of "run") = some 5 :=
  ⟨(writeOnce_iff_insertsFresh (show settlements.run (.ofStore executing) (raced none) =
    some (after (raced none)) from rfl)).mpr (by decide), by decide, by decide⟩

/-- Under the identifier of the first callback the second one replaces it. -/
theorem raced_reinserts : ¬ WriteOnce (.ofStore executing) (raced (some (.of "callback"))) := by
  intro hcontract
  have hnodup := hcontract.inserted (after (raced (some (.of "callback")))) rfl
  exact absurd hnodup (by decide)

end SettlementWorld
end Skein
