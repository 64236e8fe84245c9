import Mathlib.Data.List.Sort
import Mathlib.Data.Rat.Defs
import Mathlib.Algebra.Order.Ring.Rat
import Skein.ThreadCopy

/-!
# How long a thread is kept

The retention and the expiry of a thread stand beside its row in the memory store. Whatever
sets them goes through `setThreadExpiry`, which starts the clock of the thread again.
-/
namespace Skein

inductive TtlStrategy
  | delete | keepLatest
  deriving DecidableEq, Repr

/-- A number of minutes, `none` for `null`. -/
abbrev Ttl := Option ℚ

/-- `ttl = none` is an absent key. -/
structure Retention where
  ttl : Option Ttl := none
  strategy : TtlStrategy
  deriving DecidableEq, Repr

structure ThreadTtlConfig where
  defaultTtl : Option ℚ := none
  strategy : Option TtlStrategy := none

structure RetainedCreate (J : Type*) extends MemorySkeinStore.ThreadCreate J where
  ttl : Option Ttl := none
  ttlStrategy : Option TtlStrategy := none

structure RetainedUpdate (J : Type*) extends MemorySkeinStore.ThreadUpdate J where
  ttl : Option Ttl := none
  ttlStrategy : Option TtlStrategy := none

/-- The memory store with `#threadRetention` and `#threadExpiry`. -/
structure RetainingStore (J : Type*) where
  rows : MemorySkeinStore J
  retention : OrderedMap ThreadId Retention := ∅
  expiry : OrderedMap ThreadId ℚ := ∅
  threadTtl : Option ThreadTtlConfig := none

namespace RetainingStore
variable {J : Type*} (store : RetainingStore J)

/-- `this.#threadTtl?.defaultTtl` -/
def defaultTtl : Option ℚ := store.threadTtl.bind ThreadTtlConfig.defaultTtl
def defaultStrategy : Option TtlStrategy := store.threadTtl.bind ThreadTtlConfig.strategy

/-- `threads.getTtl` -/
def getTtl (threadId : ThreadId) : Retention :=
  (store.retention.get? threadId).getD
    { ttl := store.defaultTtl.map some, strategy := store.defaultStrategy.getD .delete }

/-- The minutes of `#setThreadExpiry`. -/
def minutes (threadId : ThreadId) (ttl : Option Ttl) : Option Ttl :=
  match ttl with
  | some ttl => some ttl
  | none =>
    match store.retention.get? threadId with
    | some current => current.ttl
    | none => store.defaultTtl.map some

/-- The strategy of `#setThreadExpiry`. -/
def nextStrategy (threadId : ThreadId) (strategy : Option TtlStrategy) : TtlStrategy :=
  (strategy.or (((store.retention.get? threadId).map Retention.strategy).or
    store.defaultStrategy)).getD .delete

def expiresAt (now : Timestamp) (minutes : ℚ) : ℚ := now + minutes * 60000

def setThreadExpiry (threadId : ThreadId) (ttl : Option Ttl) (strategy : Option TtlStrategy)
    (now : Timestamp) : RetainingStore J :=
  { store with
    retention := store.retention.set threadId
      { ttl := store.minutes threadId ttl, strategy := store.nextStrategy threadId strategy }
    expiry :=
      match store.minutes threadId ttl with
      | some (some minutes) => store.expiry.set threadId (expiresAt now minutes)
      | _ => store.expiry.erase threadId }

/-- `threads.create` -/
def threadsCreate [EmptyCollection J] (input : RetainedCreate J) (uuid : ThreadId)
    (now : Timestamp) : RetainingStore J :=
  let threadId := input.threadId.getD uuid
  if store.rows.threads.contains threadId then store
  else
    { store.setThreadExpiry threadId input.ttl input.ttlStrategy now with
      rows := (store.rows.threadsCreate input.toThreadCreate uuid now).2 }

/-- `this.#threadRetention.get(threadId)?.strategy ?? this.#threadTtl?.strategy` -/
def currentStrategy (threadId : ThreadId) : Option TtlStrategy :=
  ((store.retention.get? threadId).map Retention.strategy).or store.defaultStrategy

/-- Whether a patch starts the clock of the thread again. -/
def rearms (threadId : ThreadId) (patch : RetainedUpdate J) : Bool :=
  patch.ttl.isSome || patch.ttlStrategy.isSome ||
    (patch.values.isSome && store.currentStrategy threadId = some .keepLatest)

/-- `threads.update` -/
def threadsUpdate (threadId : ThreadId) (patch : RetainedUpdate J) (now : Timestamp) :
    RetainingStore J :=
  if store.rows.threads.contains threadId then
    let rearmed :=
      if store.rearms threadId patch then
        store.setThreadExpiry threadId patch.ttl patch.ttlStrategy now
      else store
    { rearmed with rows := (store.rows.threadsUpdate threadId patch.toThreadUpdate now).2 }
  else store

/-- `threads.copy` -/
def threadsCopy (threadId uuid : ThreadId) (now : Timestamp) : RetainingStore J :=
  if store.rows.threads.contains threadId then
    { store.setThreadExpiry uuid none none now with
      rows := (store.rows.threadsCopy threadId uuid now).2 }
  else store

/-- `threads.delete` -/
def threadsDelete (threadId : ThreadId) : RetainingStore J :=
  { store with
    rows := store.rows.threadsDelete threadId
    retention := store.retention.erase threadId
    expiry := store.expiry.erase threadId }

/-- `runs.hasActiveRun` -/
def hasActiveRun (threadId : ThreadId) : Bool := !(store.rows.activeRuns threadId).isEmpty

/-- The condition of `threads.listExpired`. -/
def isExpired (cutoff : Timestamp) (threadId : ThreadId) (expires : ℚ) : Bool :=
  expires ≤ cutoff && store.rows.threads.contains threadId &&
    ((store.retention.get? threadId).map Retention.strategy ≠ some .keepLatest ||
      !store.hasActiveRun threadId)

/-- `threads.listExpired` -/
def listExpired (cutoff : Timestamp) (limit : ℕ) : List ThreadId :=
  (((store.expiry.filter (store.isExpired cutoff)).entries.insertionSort fun a b =>
    a.2 ≤ b.2).take (min limit store.rows.maxPageSize)).map Prod.fst

/-- The thread is to be deleted, and its time had run out by `cutoff`. -/
def IsDue (cutoff : Timestamp) (threadId : ThreadId) : Prop :=
  (∃ expires, store.expiry.get? threadId = some expires ∧ expires ≤ cutoff) ∧
    (store.getTtl threadId).strategy = .delete

variable {store}

theorem listExpired_nodup (cutoff : Timestamp) (limit : ℕ) :
    (store.listExpired cutoff limit).Nodup := by
  unfold listExpired
  have hnodup := (store.expiry.filter (store.isExpired cutoff)).nodup
  have hsorted : (((store.expiry.filter (store.isExpired cutoff)).entries.insertionSort fun a b =>
      a.2 ≤ b.2).map Prod.fst).Nodup :=
    ((List.perm_insertionSort _ _).map _).nodup_iff.mpr hnodup
  exact hsorted.sublist ((List.take_sublist _ _).map _)

theorem mem_listExpired {cutoff : Timestamp} {limit : ℕ} {threadId : ThreadId}
    (h : threadId ∈ store.listExpired cutoff limit) :
    store.rows.threads.contains threadId = true ∧
      ∃ expires, store.expiry.get? threadId = some expires ∧ expires ≤ cutoff := by
  obtain ⟨⟨id, expires⟩, hentry, rfl⟩ := List.mem_map.mp h
  have hmem := (List.perm_insertionSort _ _).subset (List.mem_of_mem_take hentry)
  rw [OrderedMap.mem_entries_iff, OrderedMap.get?_filter, Option.filter_eq_some_iff] at hmem
  obtain ⟨hget, hexpired⟩ := hmem
  unfold isExpired at hexpired
  rw [Bool.and_eq_true, Bool.and_eq_true] at hexpired
  exact ⟨hexpired.1.2, expires, hget, of_decide_eq_true hexpired.1.1⟩

section SetThreadExpiry
variable (store) (threadId : ThreadId) (ttl : Option Ttl) (strategy : Option TtlStrategy)
  (now : Timestamp)

@[simp] theorem setThreadExpiry_rows :
    (store.setThreadExpiry threadId ttl strategy now).rows = store.rows := rfl

theorem setThreadExpiry_getTtl (k : ThreadId) :
    (store.setThreadExpiry threadId ttl strategy now).getTtl k =
      if threadId = k then
        { ttl := store.minutes threadId ttl, strategy := store.nextStrategy threadId strategy }
      else store.getTtl k := by
  unfold setThreadExpiry getTtl
  dsimp only
  rw [OrderedMap.get?_set]
  split_ifs <;> rfl

theorem setThreadExpiry_expiry (k : ThreadId) :
    (store.setThreadExpiry threadId ttl strategy now).expiry.get? k =
      if threadId = k then (store.minutes threadId ttl).join.map (expiresAt now)
      else store.expiry.get? k := by
  unfold setThreadExpiry
  dsimp only
  split
  next minutes hminutes =>
    rw [OrderedMap.get?_set, hminutes]
    rfl
  next hnone =>
    rw [OrderedMap.get?_erase]
    congr 1
    cases hminutes : store.minutes threadId ttl with
    | none => rfl
    | some minutes =>
      cases minutes with
      | none => rfl
      | some minutes => exact absurd hminutes (hnone minutes)

end SetThreadExpiry

end RetainingStore
end Skein
