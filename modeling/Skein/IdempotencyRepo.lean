import Skein.MemoryStore

/-!
# The idempotency repo

`MemorySkeinStore.idempotency`: one record for each scope and key. A claim takes an absent
or expired record over under a claim token of its own; recording and releasing are
conditional on that token, and do nothing once somebody else holds the key.
-/
namespace Skein

structure IdempotencyClaim where
  key : String
  scope : String
  fingerprint : String
  claimId : String
  now : Timestamp
  expiresAt : Timestamp
  deriving DecidableEq, Repr

def IdempotencyClaim.coordinate (claim : IdempotencyClaim) : String × String :=
  (claim.scope, claim.key)

/-- What is recorded of a response beside itself. -/
structure RecordedRequest (J : Type*) where
  response : RecordedResponse (RecordedBody J)
  runId : Option RunId := none
  threadId : Option ThreadId := none
  expiresAt : Timestamp

/-- Whether the key was claimed, and the record that holds it now. -/
structure IdempotencyClaimResult (J : Type*) where
  claimed : Bool
  record : IdempotencyRecord J

namespace MemorySkeinStore
variable {J : Type*}

/-- The record a granted claim writes over whatever expired before it. -/
def claimedRecord (existing : Option (IdempotencyRecord J)) (claim : IdempotencyClaim)
    (now : Timestamp) : IdempotencyRecord J where
  key := claim.key
  scope := claim.scope
  fingerprint := claim.fingerprint
  claimId := claim.claimId
  status := .inFlight
  createdAt := existing.elim now IdempotencyRecord.createdAt
  updatedAt := now
  expiresAt := claim.expiresAt

/-- `idempotency.claim`. -/
def idempotencyClaim (store : MemorySkeinStore J) (claim : IdempotencyClaim) (now : Timestamp) :
    IdempotencyClaimResult J × MemorySkeinStore J :=
  let existing := store.idempotency.get? claim.coordinate
  match existing.filter fun record => claim.now < record.expiresAt with
  | some record => (⟨false, record⟩, store)
  | none =>
    let record := claimedRecord existing claim now
    (⟨true, record⟩, { store with idempotency := store.idempotency.write record })

/-- The record a response leaves; absent identifiers keep what was there. -/
def recordedRecord (existing : IdempotencyRecord J) (recorded : RecordedRequest J)
    (now : Timestamp) : IdempotencyRecord J :=
  { existing with
    status := .done
    response := some recorded.response
    runId := recorded.runId.or existing.runId
    threadId := recorded.threadId.or existing.threadId
    updatedAt := now
    expiresAt := recorded.expiresAt }

/-- `idempotency.record`, a no-op under a claim token that no longer holds the key. -/
def idempotencyRecord (store : MemorySkeinStore J) (scope key claimId : String)
    (recorded : RecordedRequest J) (now : Timestamp) : MemorySkeinStore J :=
  match store.idempotency.get? (scope, key) with
  | none => store
  | some existing =>
    if existing.claimId = claimId then
      { store with idempotency := store.idempotency.write (recordedRecord existing recorded now) }
    else store

/-- `idempotency.release`, a no-op under a claim token that no longer holds the key. -/
def idempotencyRelease (store : MemorySkeinStore J) (scope key claimId : String) :
    MemorySkeinStore J :=
  match store.idempotency.get? (scope, key) with
  | none => store
  | some existing =>
    if existing.claimId = claimId then
      { store with idempotency := store.idempotency.erase (scope, key) }
    else store

/-- `idempotency.get`, which does not look at the expiry. -/
def idempotencyGet (store : MemorySkeinStore J) (scope key : String) :
    Option (IdempotencyRecord J) := store.idempotency.get? (scope, key)

/-- `idempotency.deleteByThread`. -/
def idempotencyDeleteByThread (store : MemorySkeinStore J) (threadId : ThreadId) :
    MemorySkeinStore J :=
  { store with idempotency := store.idempotency.filter fun record =>
      record.threadId ≠ some threadId }

/-- `idempotency.deleteByRun`. -/
def idempotencyDeleteByRun (store : MemorySkeinStore J) (runId : RunId) : MemorySkeinStore J :=
  { store with idempotency := store.idempotency.filter fun record => record.runId ≠ some runId }

/-- `idempotency.sweepExpired`. -/
def idempotencySweepExpired (store : MemorySkeinStore J) (now : Timestamp) :
    MemorySkeinStore J :=
  { store with idempotency := store.idempotency.filter fun record => now < record.expiresAt }

/-- A claim is refused by a live record, or it takes the key over from nothing or from a
record that has expired. -/
theorem idempotencyClaim_cases (store : MemorySkeinStore J) (claim : IdempotencyClaim)
    (now : Timestamp) :
    (∃ record, store.idempotency.get? claim.coordinate = some record ∧
      claim.now < record.expiresAt ∧
      store.idempotencyClaim claim now = (⟨false, record⟩, store)) ∨
    (∃ record, (∀ existing, store.idempotency.get? claim.coordinate = some existing →
        existing.expiresAt ≤ claim.now) ∧
      record = claimedRecord (store.idempotency.get? claim.coordinate) claim now ∧
      store.idempotencyClaim claim now =
        (⟨true, record⟩, { store with idempotency := store.idempotency.write record })) := by
  unfold idempotencyClaim
  cases hexisting : store.idempotency.get? claim.coordinate with
  | none => exact .inr ⟨_, by simp, rfl, by simp⟩
  | some existing =>
    by_cases hlive : claim.now < existing.expiresAt
    · exact .inl ⟨existing, rfl, hlive, by simp [Option.filter_some, hlive]⟩
    · refine .inr ⟨_, ?_, rfl, by simp [Option.filter_some, hlive]⟩
      rintro found ⟨⟩
      exact Nat.not_lt.mp hlive

/-- What `idempotency.record` does: nothing, unless the token still holds the key. -/
theorem idempotencyRecord_cases (store : MemorySkeinStore J) (scope key claimId : String)
    (recorded : RecordedRequest J) (now : Timestamp) :
    ((∀ existing, store.idempotency.get? (scope, key) = some existing →
        existing.claimId ≠ claimId) ∧
      store.idempotencyRecord scope key claimId recorded now = store) ∨
    ∃ existing, store.idempotency.get? (scope, key) = some existing ∧
      existing.claimId = claimId ∧
      store.idempotencyRecord scope key claimId recorded now =
        { store with
          idempotency := store.idempotency.write (recordedRecord existing recorded now) } := by
  unfold idempotencyRecord
  cases hexisting : store.idempotency.get? (scope, key) with
  | none => exact .inl ⟨by simp, rfl⟩
  | some existing =>
    by_cases hown : existing.claimId = claimId
    · exact .inr ⟨existing, rfl, hown, by simp [hown]⟩
    · refine .inl ⟨?_, by simp [hown]⟩
      rintro found ⟨⟩
      exact hown

/-- Under a token that holds the key the response is what the key holds. -/
theorem idempotencyRecord_get? {store : MemorySkeinStore J} {scope key : String}
    {existing : IdempotencyRecord J} (recorded : RecordedRequest J) (now : Timestamp)
    (h : store.idempotency.get? (scope, key) = some existing) :
    (store.idempotencyRecord scope key existing.claimId recorded now).idempotency.get?
      (scope, key) = some (recordedRecord existing recorded now) := by
  have hkey : existing.coordinate = (scope, key) := Table.key_of_get? h
  have hsame : (recordedRecord existing recorded now).coordinate = (scope, key) := hkey
  simp [idempotencyRecord, h, Table.get?_write, hsame]

/-- After a release nothing under the token is left at its key, and a record of somebody
else is untouched. -/
theorem idempotencyRelease_get? (store : MemorySkeinStore J) (scope key claimId : String) :
    (store.idempotencyRelease scope key claimId).idempotency.get? (scope, key) =
      (store.idempotency.get? (scope, key)).filter (·.claimId ≠ claimId) := by
  unfold idempotencyRelease
  cases hexisting : store.idempotency.get? (scope, key) with
  | none => simp [hexisting]
  | some existing =>
    by_cases hown : existing.claimId = claimId
    · simp [hown, Table.get?_erase, Option.filter_some]
    · simp [hown, hexisting, Option.filter_some]

end MemorySkeinStore
end Skein
