import Skein.DispatchDrain

/-!
# Claims and displacements in both drivers

A claim whose page holds every intent leases the same ones in the two drivers, and the loops
over the displaced runs of an admission run alike. Both drivers draw the same identifiers,
tokens and clock readings.
-/
namespace Skein

/-- The in-memory driver. -/
def memorySource (J : Type*) : DispatchSource (MemorySkeinStore J) where
  slot := MemorySkeinStore.slot
  claim := fun mem query tokens => (mem.claims query tokens, (mem.claimDispatches query tokens).2)
  Valid := fun _ => True
  valid_claim := fun _ _ _ _ => trivial
  law := fun mem query tokens _ => mem.claimLaw query tokens
  progress := fun mem query tokens _ _ => mem.claims_progress query tokens
  finite := by
    intro mem
    refine ⟨mem.dispatches.keys.toFinset, fun id hid => ?_⟩
    rw [List.mem_toFinset, OrderedMap.mem_keys_iff]
    exact Option.isSome_iff_ne_none.mpr hid

namespace PostgresStore
variable {J : Type*} {pg : PostgresStore J} {mem : MemorySkeinStore J}

theorem Sound.claimDispatches (h : pg.Sound) (query : DispatchQuery) (tokens : RunId → String) :
    (pg.claimDispatches query tokens).2.Sound := by
  rw [PostgresStore.claimDispatches, leaseAll_frame]
  refine h.updateIntents fun id row hrow => ?_
  rw [leaseAll_get?] at hrow
  split_ifs at hrow
  · obtain ⟨before, hbefore, rfl⟩ := Option.map_eq_some_iff.mp hrow
    exact ⟨before, hbefore, rfl⟩
  · exact ⟨row, hrow, rfl⟩

end PostgresStore

/-- The Postgres driver. -/
def postgresSource (J : Type*) : DispatchSource (PostgresStore J) where
  slot := PostgresStore.slot
  claim := PostgresStore.claimDispatches
  Valid := PostgresStore.Sound
  valid_claim := fun _ query tokens h => h.claimDispatches query tokens
  law := fun _ query tokens h => PostgresStore.claimLaw h query tokens
  progress := fun _ query tokens _ h => PostgresStore.claims_progress h query tokens
  finite := by
    intro pg
    refine ⟨pg.nativeDispatches.keys.toFinset, fun id hid => ?_⟩
    rw [List.mem_toFinset, OrderedMap.mem_keys_iff]
    exact Option.isSome_iff_ne_none.mpr fun hnone => hid (by simp [PostgresStore.slot, hnone])

namespace PostgresStore
variable {J : Type*}

namespace Simulates
variable {pg : PostgresStore J} {mem : MemorySkeinStore J}

theorem terminal_eq (h : Simulates pg mem) (id : RunId) : pg.terminal? id = mem.terminal? id := by
  rw [MemorySkeinStore.terminal?, ← h.runs, Option.map_map]
  rfl

theorem intentsAgree_iff (terminal : Option Bool) (row : Option NativeDispatch)
    (intent : Option DispatchIntent) :
    IntentsAgree terminal row intent ↔ intent = row.map NativeDispatch.intent ∨
      intent = none ∧ ∃ dead, row.map NativeDispatch.intent = some dead ∧ dead.Done terminal := by
  unfold IntentsAgree
  cases row <;> simp

/-- The slots of the two drivers. -/
theorem slot_cases (h : Simulates pg mem) (id : RunId) :
    mem.slot id = pg.slot id ∨ (mem.slot id).intent = none ∧
      ∃ dead, (pg.slot id).intent = some dead ∧ dead.Done (pg.slot id).terminal := by
  rcases h.intents id with hsame | ⟨hnone, dead, hdead, hdone⟩
  · refine .inl ?_
    rw [MemorySkeinStore.slot, PostgresStore.slot, h.terminal_eq, hsame]
  · refine .inr ⟨hnone, dead.intent, ?_, ?_⟩
    · rw [PostgresStore.slot, Option.mem_def.mp hdead]
      rfl
    · rw [PostgresStore.slot, h.terminal_eq]
      exact hdone

theorem live_eq (h : Simulates pg mem) (id : RunId) :
    (pg.slot id).live? = (mem.slot id).live? := by
  rcases h.slot_cases id with hsame | ⟨hnone, dead, hdead, hdone⟩
  · rw [hsame]
  · rw [DispatchSlot.live?, DispatchSlot.live?, hdead, hnone]
    exact if_pos hdone

theorem due_iff (h : Simulates pg mem) (id : RunId) (now : Timestamp) :
    (pg.slot id).Due now ↔ (mem.slot id).Due now := by
  rcases h.slot_cases id with hsame | ⟨hnone, dead, hdead, hdone⟩
  · rw [hsame]
  · constructor
    · rintro ⟨intent, hintent, hlive, -⟩
      rw [hdead] at hintent
      cases hintent
      exact absurd hdone hlive
    · rintro ⟨intent, hintent, -⟩
      rw [hnone] at hintent
      cases hintent

/-- Both drivers could still return the same intents. -/
theorem couldClaim_iff (h : Simulates pg mem) (claim : DispatchClaim) :
    (postgresSource J).CouldClaim pg claim ↔ (memorySource J).CouldClaim mem claim := by
  have hpg : (postgresSource J).CouldClaim pg claim ↔ _ :=
    DispatchSource.couldClaim_iff h.sound claim
  have hmem : (memorySource J).CouldClaim mem claim ↔ _ :=
    DispatchSource.couldClaim_iff trivial claim
  rw [hpg, hmem]
  exact iff_of_eq (congrArg (· = some claim) (h.live_eq claim.runId))

/-- A page that holds the intents of memory holds the rows Postgres chooses from. -/
theorem due_length_le (h : Simulates pg mem) (now : Timestamp) :
    (pg.dueCancels now ++ pg.dueRuns now).length ≤ mem.dispatches.size := by
  have hkeys : (pg.dueCancels now ++ pg.dueRuns now).map NativeDispatch.runId ⊆
      mem.dispatches.keys := by
    intro id hid
    obtain ⟨row, hrow, rfl⟩ := List.mem_map.mp hid
    have hdue := (h.due_iff row.runId now).mp
      ((PostgresStore.due_iff h.sound row.runId now).mpr ⟨row, hrow, rfl⟩)
    obtain ⟨intent, hintent, -⟩ := hdue
    rw [OrderedMap.mem_keys_iff]
    exact Option.isSome_iff_exists.mpr ⟨intent, hintent⟩
  calc (pg.dueCancels now ++ pg.dueRuns now).length
      = ((pg.dueCancels now ++ pg.dueRuns now).map NativeDispatch.runId).length :=
        (List.length_map _).symm
    _ ≤ mem.dispatches.keys.length := (List.subperm_of_subset (pg.nodup_due now) hkeys).length_le
    _ = mem.dispatches.size := List.length_map _

/-- An intent that is due in Postgres is the one in memory. -/
theorem intent_of_due (h : Simulates pg mem) {id : RunId} {now : Timestamp}
    {intent : DispatchIntent} (hdue : (pg.slot id).Due now)
    (hintent : (pg.slot id).intent = some intent) : (mem.slot id).intent = some intent := by
  rcases h.slot_cases id with hslot | ⟨-, dead, hdead, hdone⟩
  · rw [hslot, hintent]
  · obtain ⟨due, hdueIntent, hlive, -⟩ := hdue
    rw [hdead] at hdueIntent
    cases hdueIntent
    exact absurd hdone hlive

section Claims
variable {query : DispatchQuery} {limit : ℕ}

/-- A page that holds every intent returns the due ones of memory. -/
theorem claims_iff (hroom : mem.dispatches.size ≤ mem.claimLimit query) (tokens : RunId → String)
    (id : RunId) :
    id ∈ (mem.claims query tokens).map DispatchClaim.runId ↔ (mem.slot id).Due query.now := by
  refine ⟨fun hid => ?_, mem.claims_complete query tokens hroom⟩
  obtain ⟨claim, hclaim, rfl⟩ := List.mem_map.mp hid
  obtain ⟨intent, -, hdue, -⟩ := (mem.claimLaw query tokens).returned claim hclaim
  exact hdue

/-- And those of Postgres. -/
theorem claimDispatches_iff (h : Simulates pg mem) (hlimit : query.limit = some limit)
    (hroom : mem.dispatches.size ≤ mem.claimLimit query) (tokens : RunId → String) (id : RunId) :
    id ∈ (pg.claimDispatches query tokens).1.map DispatchClaim.runId ↔
      (pg.slot id).Due query.now := by
  have hpage : pg.claimLimit query = mem.claimLimit query := by
    rw [PostgresStore.claimLimit, MemorySkeinStore.claimLimit, PostgresStore.pageLimit,
      MemorySkeinStore.pageLimit, hlimit, h.maxPageSize]
    rfl
  have hpgRoom : (pg.dueCancels query.now ++ pg.dueRuns query.now).length ≤
      pg.claimLimit query := by
    rw [hpage]
    exact (h.due_length_le query.now).trans hroom
  refine ⟨fun hid => ?_, PostgresStore.claims_complete h.sound query tokens hpgRoom⟩
  obtain ⟨claim, hclaim, rfl⟩ := List.mem_map.mp hid
  obtain ⟨intent, -, hdue, -⟩ := (PostgresStore.claimLaw h.sound query tokens).returned claim hclaim
  exact hdue

/-- A due intent is returned by both drivers, and leased by both in the same way. -/
theorem claimed_by_both (h : Simulates pg mem) (hlimit : query.limit = some limit)
    (hroom : mem.dispatches.size ≤ mem.claimLimit query) (tokens : RunId → String) {id : RunId}
    (hdue : (pg.slot id).Due query.now) :
    ∃ intent : DispatchIntent, intent.runId = id ∧
      intent.claim (tokens id) ∈ (pg.claimDispatches query tokens).1 ∧
      intent.claim (tokens id) ∈ mem.claims query tokens ∧
      ((pg.claimDispatches query tokens).2.slot id).intent =
        some (intent.lease (tokens id) query.leaseUntil) ∧
      ((mem.claimDispatches query tokens).2.slot id).intent =
        some (intent.lease (tokens id) query.leaseUntil) := by
  obtain ⟨claim, hclaim, rfl⟩ :=
    List.mem_map.mp ((h.claimDispatches_iff hlimit hroom tokens id).mpr hdue)
  obtain ⟨intent, hintent, -, heq, hslot⟩ :=
    (PostgresStore.claimLaw h.sound query tokens).returned claim hclaim
  obtain ⟨claim', hclaim', hid⟩ :=
    List.mem_map.mp ((claims_iff hroom tokens claim.runId).mpr ((h.due_iff _ _).mp hdue))
  obtain ⟨intent', hintent', -, heq', hslot'⟩ := (mem.claimLaw query tokens).returned claim' hclaim'
  rw [hid] at hintent' heq' hslot'
  have hsameIntent : intent' = intent :=
    Option.some.inj (hintent'.symm.trans (h.intent_of_due hdue hintent))
  subst hsameIntent
  exact ⟨intent', (congrArg DispatchClaim.runId heq).symm, heq ▸ hclaim, heq' ▸ hclaim',
    by rw [hslot], by rw [hslot']⟩

theorem claims_perm (h : Simulates pg mem) (hlimit : query.limit = some limit)
    (hroom : mem.dispatches.size ≤ mem.claimLimit query) (tokens : RunId → String) :
    (pg.claimDispatches query tokens).1.Perm (mem.claims query tokens) := by
  have hpgNodup := (PostgresStore.claimLaw h.sound query tokens).nodup
  have hmemNodup := (mem.claimLaw query tokens).nodup
  refine (List.perm_ext_iff_of_nodup hpgNodup.of_map hmemNodup.of_map).mpr fun claim => ?_
  constructor
  · intro hclaim
    obtain ⟨intent, hid, hpgClaim, hmemClaim, -⟩ := h.claimed_by_both hlimit hroom tokens
      ((h.claimDispatches_iff hlimit hroom tokens _).mp (List.mem_map_of_mem hclaim))
    rwa [List.inj_on_of_nodup_map hpgNodup hclaim hpgClaim hid.symm]
  · intro hclaim
    have hdue := (claims_iff hroom tokens _).mp (List.mem_map_of_mem hclaim)
    obtain ⟨intent, hid, hpgClaim, hmemClaim, -⟩ :=
      h.claimed_by_both hlimit hroom tokens ((h.due_iff _ _).mpr hdue)
    rwa [List.inj_on_of_nodup_map hmemNodup hclaim hmemClaim hid.symm]

/-- An intent that is not due stays in both drivers, or is dropped by memory alone. -/
theorem intentsAgree_claims (h : Simulates pg mem) (hlimit : query.limit = some limit)
    (hroom : mem.dispatches.size ≤ mem.claimLimit query) (tokens : RunId → String) (id : RunId) :
    IntentsAgree (mem.terminal? id)
      ((pg.claimDispatches query tokens).2.nativeDispatches.get? id)
      ((mem.claimDispatches query tokens).2.dispatches.get? id) := by
  rw [intentsAgree_iff]
  by_cases hdue : (pg.slot id).Due query.now
  · obtain ⟨intent, -, -, -, hpgLeased, hmemLeased⟩ := h.claimed_by_both hlimit hroom tokens hdue
    rw [MemorySkeinStore.intent_slot] at hmemLeased
    rw [PostgresStore.intent_slot] at hpgLeased
    exact .inl (hmemLeased.trans hpgLeased.symm)
  · have hpgIntent : ((pg.claimDispatches query tokens).2.nativeDispatches.get? id).map
        NativeDispatch.intent = (pg.nativeDispatches.get? id).map NativeDispatch.intent := by
      rw [← PostgresStore.intent_slot, ← PostgresStore.intent_slot, pg.claims_others query tokens
        (mt (h.claimDispatches_iff hlimit hroom tokens id).mp hdue)]
    rw [hpgIntent]
    have hmemDue : ¬(mem.slot id).Due query.now := mt (h.due_iff id query.now).mpr hdue
    rcases (mem.claimLaw query tokens).others id (mt (claims_iff hroom tokens id).mp hmemDue) with
      hkept | ⟨dead, hdead, hdone, hslot⟩
    · have hmemIntent : (mem.claimDispatches query tokens).2.dispatches.get? id =
          mem.dispatches.get? id := by
        rw [← MemorySkeinStore.intent_slot, ← MemorySkeinStore.intent_slot, hkept]
      rw [hmemIntent]
      exact (intentsAgree_iff _ _ _).mp (h.intents id)
    · have hmemIntent : (mem.claimDispatches query tokens).2.dispatches.get? id = none := by
        rw [← MemorySkeinStore.intent_slot, hslot]
      refine .inr ⟨hmemIntent, dead, ?_, hdone⟩
      rcases (intentsAgree_iff _ _ _).mp (h.intents id) with hsameIntent | ⟨hnone, -⟩
      · exact hsameIntent.symm.trans hdead
      · have hcontra : mem.dispatches.get? id = some dead := hdead
        rw [hnone] at hcontra
        cases hcontra

/-- A claim whose page holds every intent. -/
theorem claimDispatches (h : Simulates pg mem) (hlimit : query.limit = some limit)
    (hroom : mem.dispatches.size ≤ mem.claimLimit query) (tokens : RunId → String) :
    (pg.claimDispatches query tokens).1.Perm (mem.claims query tokens) ∧
      Simulates (pg.claimDispatches query tokens).2 (mem.claimDispatches query tokens).2 := by
  refine ⟨h.claims_perm hlimit hroom tokens, ?_⟩
  have hrows : ∀ id row, (pg.claimDispatches query tokens).2.nativeDispatches.get? id = some row →
      ∃ row', pg.nativeDispatches.get? id = some row' ∧ row'.threadId = row.threadId := by
    intro id row hrow
    rw [PostgresStore.claimDispatches, leaseAll_get?] at hrow
    split_ifs at hrow
    · obtain ⟨before, hbefore, rfl⟩ := Option.map_eq_some_iff.mp hrow
      exact ⟨before, hbefore, rfl⟩
    · exact ⟨row, hrow, rfl⟩
  have hstep := h.withIntents hrows (h.intentsAgree_claims hlimit hroom tokens)
  have hpgFrame := leaseAll_frame query tokens (pg.claimed query) pg
  have hmemFrame := MemorySkeinStore.claimEntries_frame query tokens mem.dispatches.values [] mem
  rw [PostgresStore.claimDispatches, MemorySkeinStore.claimDispatches] at hstep ⊢
  rw [hpgFrame, hmemFrame]
  exact hstep

end Claims

end Simulates
end PostgresStore

namespace MemorySkeinStore
variable {J : Type*}

/-- A settlement inserts under the identifier of its delivery or the drawn one. -/
theorem settleFinal_deliveries_of_ne (mem : MemorySkeinStore J) (runId : RunId)
    (final : RunSettlement J) (uuid : DeliveryId) (now : Timestamp) (id : DeliveryId)
    (hid : ∀ delivery ∈ final.delivery, delivery.deliveryId.getD uuid ≠ id) :
    (mem.settleFinal runId final uuid now).2.deliveries.get? id = mem.deliveries.get? id := by
  have hkept : ((mem.settleRow runId final now).settleResult runId final).deliveries =
      mem.deliveries := by
    rw [settleResult_frame, settleRow_frame]
  unfold settleFinal settleDelivery
  cases hdelivery : final.delivery with
  | none => exact congrArg (fun deliveries => deliveries.get? id) hkept
  | some delivery =>
    dsimp only
    cases delivery.deliveryId.bind
        ((mem.settleRow runId final now).settleResult runId final).deliveries.get? with
    | some existing => exact congrArg (fun deliveries => deliveries.get? id) hkept
    | none =>
      simp only [insertDelivery, Table.get?_write, hkept]
      exact if_neg (hid delivery hdelivery)

theorem dispatchSettled_deliveries (mem : MemorySkeinStore J) (settled : SettledRun J)
    (action : Option CancelAction) (now : Timestamp) :
    (mem.dispatchSettled settled action now).deliveries = mem.deliveries := by
  unfold dispatchSettled
  cases settled.run <;> rfl

end MemorySkeinStore

/-- The delivery identifier a settlement names. -/
def Displacement.named {J : Type*} (item : Displacement J) : Option DeliveryId :=
  item.settlement.delivery.bind DeliveryCreate.deliveryId

/-- The identifiers drawn for the deliveries of displaced runs are unused, named by none of
them, and different. -/
structure AdmissionDraws.Fresh {J : Type*} (draws : AdmissionDraws) (mem : MemorySkeinStore J)
    (items : List (Displacement J)) : Prop where
  unused : ∀ item ∈ items, mem.deliveries.get? (draws.deliveryUuid item.runId) = none
  unnamed : ∀ item ∈ items, ∀ other ∈ items,
    other.named ≠ some (draws.deliveryUuid item.runId)
  distinct : ∀ item ∈ items, ∀ other ∈ items,
    draws.deliveryUuid item.runId = draws.deliveryUuid other.runId → item.runId = other.runId

/-- A displacement and its serialized form. -/
def Displacement.Serializes {J : Type*} [WireJson J] (item prepared : Displacement J) : Prop :=
  prepared.runId = item.runId ∧ item.settlement.roundTrip = some prepared.settlement

/-- The database takes a displacement. -/
def Displacement.Stores {J : Type*} [JsonbColumn J] (item prepared : Displacement J) : Prop :=
  item.runId.storable = true ∧ item.settlement.Stores prepared.settlement

theorem Displacement.Serializes.named {J : Type*} [WireJson J] {item prepared : Displacement J}
    (h : item.Serializes prepared) : prepared.named = item.named := by
  obtain ⟨error, result, delivery, -, -, hdelivery, heq⟩ :=
    RunSettlement.roundTrip_eq_some.mp h.2
  unfold Displacement.named
  rw [heq]
  cases hitem : item.settlement.delivery with
  | none =>
    rw [hitem] at hdelivery
    cases hdelivery
    rfl
  | some created =>
    rw [hitem] at hdelivery
    obtain ⟨created', hcreated, rfl⟩ := Option.map_eq_some_iff.mp hdelivery
    obtain ⟨payload, -, rfl⟩ := Option.map_eq_some_iff.mp hcreated
    rfl

theorem roundTripDisplacements_forall₂ {J : Type*} [WireJson J]
    {items displaced : List (Displacement J)}
    (h : MemorySkeinStore.roundTripDisplacements items = some displaced) :
    List.Forall₂ Displacement.Serializes items displaced := by
  induction items generalizing displaced with
  | nil =>
    cases h
    exact .nil
  | cons item rest ih =>
    simp only [MemorySkeinStore.roundTripDisplacements, List.mapM_cons, Option.bind_eq_bind,
      Option.bind_eq_some_iff, Option.map_eq_some_iff] at h
    obtain ⟨first, ⟨final, hfinal, rfl⟩, others, hothers, h⟩ := h
    cases h
    exact .cons ⟨rfl, hfinal⟩ (ih hothers)

namespace PostgresStore
variable {J : Type*} [JsonbColumn J]

namespace Simulates
variable {pg : PostgresStore J} {mem : MemorySkeinStore J}

/-- The loops of the two drivers over the displaced runs. -/
theorem displaceAll (h : Simulates pg mem) (action : CancelAction) (draws : AdmissionDraws)
    {items displaced : List (Displacement J)}
    (hserialized : List.Forall₂ Displacement.Serializes items displaced)
    (hstores : ∀ item ∈ items, ∀ prepared, item.Serializes prepared → item.Stores prepared)
    (hnodup : (displaced.map Displacement.runId).Nodup) (hfresh : draws.Fresh mem displaced)
    (hdrawn : ∀ runId, (draws.deliveryUuid runId).storable = true) :
    ∃ pg' mem', PostgresStore.displaceAll action draws items pg = .ok pg' ∧
      MemorySkeinStore.displaceAll action draws displaced mem = (.ok (), mem') ∧
      Simulates pg' mem' ∧ mem'.threads = mem.threads := by
  induction hserialized generalizing pg mem with
  | nil => exact ⟨pg, mem, rfl, rfl, h, rfl⟩
  | @cons item prepared rest displaced hitem hrest ih =>
    obtain ⟨hid, hfinal⟩ := hitem
    have hparsed := RunSettlement.roundTrip_parsed _ _ hfinal
    obtain ⟨hrunId, hstored⟩ := hstores item List.mem_cons_self prepared ⟨hid, hfinal⟩
    obtain ⟨settled, hsettled, hsim⟩ := h.settle (hid ▸ hrunId) hstored draws.now
      (hfresh.unused prepared List.mem_cons_self) (hdrawn prepared.runId)
    have hrun := mem.settleFinal_run prepared.runId prepared.settlement
      (draws.deliveryUuid prepared.runId) draws.now
    have hothers := mem.settleFinal_deliveries_of_ne prepared.runId prepared.settlement
      (draws.deliveryUuid prepared.runId) draws.now
    have hthreads : (mem.settleFinal prepared.runId prepared.settlement
        (draws.deliveryUuid prepared.runId) draws.now).2.threads = mem.threads := by
      rw [MemorySkeinStore.settleFinal_frame]
    have hmem : MemorySkeinStore.displaceAll action draws (prepared :: displaced) mem =
        MemorySkeinStore.displaceAll action draws displaced
          ((mem.settleFinal prepared.runId prepared.settlement
            (draws.deliveryUuid prepared.runId) draws.now).2.dispatchSettled
              (mem.settleFinal prepared.runId prepared.settlement
                (draws.deliveryUuid prepared.runId) draws.now).1 (some action) draws.now) := by
      rw [MemorySkeinStore.displaceAll, MemorySkeinStore.runsSettle_of_roundTrip hparsed]
    have hpg : PostgresStore.displaceAll action draws (item :: rest) pg =
        PostgresStore.displaceAll action draws rest (settled.dispatchSettled
          (mem.settleFinal prepared.runId prepared.settlement
            (draws.deliveryUuid prepared.runId) draws.now).1 (some action) draws.now) := by
      rw [PostgresStore.displaceAll, ← hid, hsettled]
      rfl
    generalize mem.settleFinal prepared.runId prepared.settlement
      (draws.deliveryUuid prepared.runId) draws.now = result at *
    have hdispatched := hsim.dispatchSettled (fun run hrow => by
      have hget := hrun.symm.trans (Option.mem_def.mp hrow)
      rwa [Table.key_of_get? hget]) (some action) draws.now
    rw [List.map_cons, List.nodup_cons] at hnodup
    have hfreshRest : draws.Fresh (result.2.dispatchSettled result.1 (some action) draws.now)
        displaced := by
      refine ⟨fun other hother => ?_, fun other hother last hlast =>
        hfresh.unnamed other (List.mem_cons_of_mem _ hother) last (List.mem_cons_of_mem _ hlast),
        fun other hother last hlast => hfresh.distinct other (List.mem_cons_of_mem _ hother) last
          (List.mem_cons_of_mem _ hlast)⟩
      rw [MemorySkeinStore.dispatchSettled_deliveries, hothers]
      · exact hfresh.unused other (List.mem_cons_of_mem _ hother)
      · intro delivery hdelivery
        cases hdeliveryId : delivery.deliveryId with
        | none =>
          intro hsame
          have heq := hfresh.distinct prepared List.mem_cons_self other
            (List.mem_cons_of_mem _ hother) hsame
          exact hnodup.1 (heq ▸ List.mem_map_of_mem hother)
        | some id =>
          rintro rfl
          refine hfresh.unnamed other (List.mem_cons_of_mem _ hother) prepared List.mem_cons_self ?_
          rw [Displacement.named, Option.mem_def.mp hdelivery]
          exact hdeliveryId
    obtain ⟨pg', mem', hpgRest, hmemRest, hsimRest, hthreadsRest⟩ :=
      ih hdispatched (fun other hother => hstores other (List.mem_cons_of_mem _ hother)) hnodup.2
        hfreshRest
    refine ⟨pg', mem', hpg.trans hpgRest, hmem.trans hmemRest, hsimRest, ?_⟩
    rw [hthreadsRest, ← hthreads]
    unfold MemorySkeinStore.dispatchSettled
    cases result.1.run <;> rfl

end Simulates
end PostgresStore
end Skein
