import Mathlib.Data.List.Sort
import Skein.MemoryStore

/-!
# The delivery outbox

`MemorySkeinStore.deliveries`. A claim chooses the due rows and writes them in one
turn; an outcome is recorded whether or not its recorder still holds the lease; a
replay is refused once the payload was cleared. What any of these can do to a row is
said once, as `Delivery.Moves`.
-/
namespace Skein

/-- How one attempt ended; a given `attempt` overwrites the row's count. -/
inductive DeliveryAttemptResult
  | delivered (attempt : Option ℕ := none)
  | retrying (nextAttemptAt : Timestamp) (error : String) (attempt : Option ℕ := none)
  | dead (error : String) (attempt : Option ℕ := none)
  deriving DecidableEq, Repr

structure DueDeliveriesQuery where
  now : Timestamp
  leaseUntil : Timestamp
  limit : Option ℕ := none
  deriving DecidableEq, Repr

namespace Delivery
variable {J : Type*}

/-- Still to be sent. -/
def isLive (delivery : Delivery J) : Bool :=
  delivery.status = .pending || delivery.status = .delivering

/-- Soonest first, ties broken on the identifier; `localeCompare` is the order of the
characters on generated identifiers. -/
def dueBefore (a b : Delivery J) : Prop :=
  if a.nextAttemptAt = b.nextAttemptAt then a.deliveryId.value ≤ b.deliveryId.value
  else a.nextAttemptAt ≤ b.nextAttemptAt

instance (a b : Delivery J) : Decidable (dueBefore a b) := by
  unfold dueBefore
  infer_instance

/-- The row a claim leaves: leased, with one more attempt started. -/
def claimed (delivery : Delivery J) (leaseUntil now : Timestamp) : Delivery J :=
  { delivery with
    status := .delivering
    attempt := delivery.attempt + 1
    nextAttemptAt := leaseUntil
    updatedAt := now }

/-- The row an outcome leaves: a success drops the payload, the others keep it. -/
def attempted (delivery : Delivery J) (result : DeliveryAttemptResult) (now : Timestamp) :
    Delivery J :=
  match result with
  | .delivered attempt =>
    { delivery with
      status := .delivered
      payload := none
      lastError := none
      attempt := attempt.getD delivery.attempt
      updatedAt := now }
  | .dead error attempt =>
    { delivery with
      status := .dead
      lastError := some error
      attempt := attempt.getD delivery.attempt
      updatedAt := now }
  | .retrying nextAttemptAt error attempt =>
    { delivery with
      status := .pending
      lastError := some error
      nextAttemptAt
      attempt := attempt.getD delivery.attempt
      updatedAt := now }

/-- The row a replay leaves. -/
def replayed (delivery : Delivery J) (nextAttemptAt now : Timestamp) : Delivery J :=
  { delivery with status := .pending, nextAttemptAt, updatedAt := now }

@[simp] theorem claimed_deliveryId (delivery : Delivery J) (leaseUntil now : Timestamp) :
    (delivery.claimed leaseUntil now).deliveryId = delivery.deliveryId := rfl

@[simp] theorem attempted_deliveryId (delivery : Delivery J) (result : DeliveryAttemptResult)
    (now : Timestamp) : (delivery.attempted result now).deliveryId = delivery.deliveryId := by
  cases result <;> rfl

@[simp] theorem replayed_deliveryId (delivery : Delivery J) (nextAttemptAt now : Timestamp) :
    (delivery.replayed nextAttemptAt now).deliveryId = delivery.deliveryId := rfl

end Delivery

namespace MemorySkeinStore
variable {J : Type*}

/-- `#dueDeliveries`. A leased row whose lease has passed is due again. -/
def dueDeliveries (store : MemorySkeinStore J) (now : Timestamp) : List (Delivery J) :=
  (store.deliveries.values.filter fun delivery =>
    delivery.isLive && delivery.nextAttemptAt ≤ now).insertionSort Delivery.dueBefore

/-- `deliveries.claimDue`. -/
def deliveriesClaimDue (store : MemorySkeinStore J) (query : DueDeliveriesQuery)
    (now : Timestamp) : List (Delivery J) × MemorySkeinStore J :=
  let claimed := ((store.dueDeliveries query.now).take (store.pageLimit query.limit)).map
    fun delivery => delivery.claimed query.leaseUntil now
  (claimed, { store with deliveries := claimed.foldl Table.write store.deliveries })

/-- `deliveries.recordAttempt`. -/
def deliveriesRecordAttempt (store : MemorySkeinStore J) (deliveryId : DeliveryId)
    (result : DeliveryAttemptResult) (now : Timestamp) :
    Option (Delivery J) × MemorySkeinStore J :=
  match store.deliveries.get? deliveryId with
  | none => (none, store)
  | some existing =>
    let settled := existing.attempted result now
    (some settled, { store with deliveries := store.deliveries.write settled })

/-- `deliveries.retryNow`. -/
def deliveriesRetryNow (store : MemorySkeinStore J) (deliveryId : DeliveryId)
    (nextAttemptAt now : Timestamp) : Option (Delivery J) × MemorySkeinStore J :=
  match store.deliveries.get? deliveryId with
  | none => (none, store)
  | some existing =>
    if existing.payload.isNone then (none, store)
    else
      let replayed := existing.replayed nextAttemptAt now
      (some replayed, { store with deliveries := store.deliveries.write replayed })

/-- `deliveries.sweepExpired`. -/
def deliveriesSweepExpired (store : MemorySkeinStore J) (now : Timestamp) : MemorySkeinStore J :=
  { store with deliveries := store.deliveries.filter fun delivery =>
      delivery.isLive || now < delivery.expiresAt }

end MemorySkeinStore

/-- One repo call as seen by one row. A failure that is due again asks for the payload
it would resend: that is the only premise no repo call checks. -/
inductive Delivery.Moves {J : Type*} : Delivery J → Delivery J → Prop
  | keep (delivery : Delivery J) : Moves delivery delivery
  | claim {delivery : Delivery J} (leaseUntil now : Timestamp) (live : delivery.isLive = true) :
    Moves delivery (delivery.claimed leaseUntil now)
  | outcome {delivery : Delivery J} (result : DeliveryAttemptResult) (now : Timestamp)
    (resend : ∀ nextAttemptAt error attempt, result = .retrying nextAttemptAt error attempt →
      delivery.payload.isSome = true) : Moves delivery (delivery.attempted result now)
  | replay {delivery : Delivery J} (nextAttemptAt now : Timestamp)
    (payload : delivery.payload.isSome = true) :
    Moves delivery (delivery.replayed nextAttemptAt now)

/-- A row that is still to be sent has its payload, and a delivered one has not. -/
structure Delivery.WellFormed {J : Type*} (delivery : Delivery J) : Prop where
  live : delivery.isLive = true → delivery.payload.isSome = true
  delivered : delivery.status = .delivered → delivery.payload = none

namespace Delivery.Moves
variable {J : Type*} {d d' : Delivery J}

theorem wellFormed (h : Moves d d') (hd : d.WellFormed) : d'.WellFormed := by
  cases h with
  | keep => exact hd
  | claim leaseUntil now live => exact ⟨fun _ => hd.live live, by simp [claimed]⟩
  | outcome result now resend =>
    cases result with
    | delivered attempt => exact ⟨by simp [attempted, isLive], by simp [attempted]⟩
    | dead error attempt => exact ⟨by simp [attempted, isLive], by simp [attempted]⟩
    | retrying nextAttemptAt error attempt =>
      exact ⟨fun _ => resend nextAttemptAt error attempt rfl, by simp [attempted]⟩
  | replay nextAttemptAt now payload => exact ⟨fun _ => payload, by simp [replayed]⟩

/-- A cleared payload stays cleared. -/
theorem payload_none (h : Moves d d') (hd : d.payload = none) : d'.payload = none := by
  cases h with
  | keep => exact hd
  | claim leaseUntil now live => exact hd
  | outcome result now resend => cases result <;> first | rfl | exact hd
  | replay nextAttemptAt now payload => exact hd

end Delivery.Moves

namespace MemorySkeinStore
variable {J : Type*}

/-- Every row of `store'` is a row of `store` that one repo call moved. -/
def DeliveriesMove (store store' : MemorySkeinStore J) : Prop :=
  ∀ k d', store'.deliveries.get? k = some d' →
    ∃ d, store.deliveries.get? k = some d ∧ d.Moves d'

theorem DeliveriesMove.refl (store : MemorySkeinStore J) : DeliveriesMove store store :=
  fun _ d' h => ⟨d', h, .keep d'⟩

/-- Writing moved copies of stored rows moves them and keeps the others. -/
theorem get?_foldl_write (rows : List (Delivery J))
    (table : Table DeliveryId (Delivery J) Delivery.deliveryId) {k : DeliveryId} {d : Delivery J}
    (h : (rows.foldl Table.write table).get? k = some d) :
    d ∈ rows ∨ table.get? k = some d := by
  induction rows generalizing table with
  | nil => exact .inr h
  | cons row rows ih =>
    rcases ih _ h with hmem | hget
    · exact .inl (List.mem_cons_of_mem _ hmem)
    · rw [Table.get?_write] at hget
      split_ifs at hget with hk
      · exact .inl (Option.some.inj hget ▸ List.mem_cons_self)
      · exact .inr hget

theorem mem_dueDeliveries {store : MemorySkeinStore J} {now : Timestamp} {d : Delivery J}
    (h : d ∈ store.dueDeliveries now) :
    store.deliveries.get? d.deliveryId = some d ∧ d.isLive = true := by
  rw [dueDeliveries, List.mem_insertionSort, List.mem_filter, Table.mem_values_iff,
    Bool.and_eq_true] at h
  exact ⟨h.1, h.2.1⟩

/-- A claimed snapshot is the claimed copy of a live row. -/
theorem mem_deliveriesClaimDue {store : MemorySkeinStore J} {query : DueDeliveriesQuery}
    {now : Timestamp} {d' : Delivery J} (h : d' ∈ (store.deliveriesClaimDue query now).1) :
    ∃ d, store.deliveries.get? d.deliveryId = some d ∧ d.isLive = true ∧
      d' = d.claimed query.leaseUntil now := by
  obtain ⟨d, hd, rfl⟩ := List.mem_map.mp h
  obtain ⟨hget, hlive⟩ := mem_dueDeliveries (List.mem_of_mem_take hd)
  exact ⟨d, hget, hlive, rfl⟩

theorem deliveriesClaimDue_moves (store : MemorySkeinStore J) (query : DueDeliveriesQuery)
    (now : Timestamp) : DeliveriesMove store (store.deliveriesClaimDue query now).2 := by
  intro k d' hget
  have hkey : d'.deliveryId = k := Table.key_of_get? hget
  rcases get?_foldl_write _ _ hget with hmem | hold
  · obtain ⟨d, hd, hlive, rfl⟩ := mem_deliveriesClaimDue hmem
    have hid : d.deliveryId = k := hkey
    exact ⟨d, hid ▸ hd, .claim query.leaseUntil now hlive⟩
  · exact ⟨d', hold, .keep d'⟩

/-- The one write of a repo call that names a row. -/
theorem deliveriesMove_write {store : MemorySkeinStore J} {k : DeliveryId} {d d' : Delivery J}
    (hget : store.deliveries.get? k = some d) (hid : d'.deliveryId = d.deliveryId)
    (hmove : d.Moves d') :
    DeliveriesMove store { store with deliveries := store.deliveries.write d' } := by
  intro j row hrow
  rw [Table.get?_write] at hrow
  split_ifs at hrow with hj
  · have hk : k = j := by rw [← Table.key_of_get? hget, ← hid, hj]
    exact ⟨d, hk ▸ hget, Option.some.inj hrow ▸ hmove⟩
  · exact ⟨row, hrow, .keep row⟩

/-- Recording an outcome moves its row, provided a row due again still has its payload. -/
theorem deliveriesRecordAttempt_moves {store : MemorySkeinStore J} {deliveryId : DeliveryId}
    {result : DeliveryAttemptResult} (now : Timestamp)
    (hresend : ∀ nextAttemptAt error attempt, result = .retrying nextAttemptAt error attempt →
      ∀ d, store.deliveries.get? deliveryId = some d → d.payload.isSome = true) :
    DeliveriesMove store (store.deliveriesRecordAttempt deliveryId result now).2 := by
  unfold deliveriesRecordAttempt
  split
  · exact .refl store
  next existing hexisting =>
    exact deliveriesMove_write hexisting (Delivery.attempted_deliveryId _ _ _)
      (.outcome result now fun nextAttemptAt error attempt heq =>
        hresend nextAttemptAt error attempt heq existing hexisting)

theorem deliveriesRetryNow_moves (store : MemorySkeinStore J) (deliveryId : DeliveryId)
    (nextAttemptAt now : Timestamp) :
    DeliveriesMove store (store.deliveriesRetryNow deliveryId nextAttemptAt now).2 := by
  unfold deliveriesRetryNow
  split
  · exact .refl store
  next existing hexisting =>
    split_ifs with hpayload
    · exact .refl store
    · have hsome : existing.payload.isSome = true := by
        simpa [Option.isSome_iff_ne_none] using hpayload
      exact deliveriesMove_write hexisting (Delivery.replayed_deliveryId _ _ _)
        (.replay nextAttemptAt now hsome)

/-- A new row under the caller's identifier, or else under the generated one. -/
theorem insertDelivery_get? (store : MemorySkeinStore J) (runId : RunId) (runStatus : RunStatus)
    (input : DeliveryCreate J) (claimed : Bool) (uuid : DeliveryId) (now : Timestamp)
    (k : DeliveryId) :
    (store.insertDelivery runId runStatus input claimed uuid now).2.deliveries.get? k =
      if input.deliveryId.getD uuid = k then
        some (store.insertDelivery runId runStatus input claimed uuid now).1
      else store.deliveries.get? k :=
  Table.get?_write _ _ _

theorem deliveriesSweepExpired_moves (store : MemorySkeinStore J) (now : Timestamp) :
    DeliveriesMove store (store.deliveriesSweepExpired now) := by
  intro k d hget
  rw [deliveriesSweepExpired, Table.get?_filter, Option.filter_eq_some_iff] at hget
  exact ⟨d, hget.1, .keep d⟩

end MemorySkeinStore
end Skein
