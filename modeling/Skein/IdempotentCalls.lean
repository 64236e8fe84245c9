import Mathlib.Data.Nat.Basic
import Skein.IdempotentHandlers

/-!
# One execution per idempotency key

Claim tokens are never reused, so the record of a key belongs to one request, and every
write to it is by that request, by a claim that found it expired, or by a deletion. The
assertion of a request that was granted its claim is that its record is still there
unless one of the last two happened; everything claimed of the wrapper follows from it.
-/
namespace Skein

namespace IdempotentCall
variable {J : Type*}

def request : IdempotentCall J → KeyedRequest
  | .claiming req | .replaying req _ | .executing req _ | .checking req _ _
  | .reauthorizing req _ _ _ | .rereading req _ _ _ | .recording req _ _ | .releasing req _ _
  | .replayed req _ | .recorded req _ _ _ | .superseded req _ _ | .released req _ _
  | .refused req _ | .abandoned req _ _ => req

/-- The claim a request was granted, also after it gave it up. -/
def claim : IdempotentCall J → Option HeldClaim
  | .executing _ claim | .checking _ claim _ | .reauthorizing _ claim _ _
  | .rereading _ claim _ _ | .recording _ claim _ | .releasing _ claim _
  | .recorded _ claim _ _ | .superseded _ claim _ | .released _ claim _
  | .abandoned _ claim _ => some claim
  | .claiming _ | .replaying _ _ | .replayed _ _ | .refused _ _ => none

/-- The claim of a request whose response is not recorded yet. -/
def pending : IdempotentCall J → Option HeldClaim
  | .executing _ claim | .checking _ claim _ | .reauthorizing _ claim _ _
  | .rereading _ claim _ _ | .recording _ claim _ | .releasing _ claim _
  | .abandoned _ claim _ => some claim
  | _ => none

/-- The claim a recorded response stands under, with its present expiry. -/
def standing : IdempotentCall J → Option HeldClaim
  | .recorded _ claim expiresAt _ => some { claim with expiresAt }
  | _ => none

def freed : IdempotentCall J → Option HeldClaim
  | .released _ claim _ => some claim
  | _ => none

/-- The recorded response a request is about to replay. -/
def source : IdempotentCall J → Option (JsonResponse J)
  | .replaying _ response => some response
  | _ => none

def answer : IdempotentCall J → Option (JsonResponse J)
  | .replayed _ response => some response
  | _ => none

end IdempotentCall

namespace IdempotencyWorld
variable {J : Type*}

/-- The record of the key at hand. -/
def record? (world : IdempotencyWorld J) (coordinate : String × String) :
    Option (IdempotencyRecord J) := world.store.idempotency.get? coordinate

/-- The history is that of the store: the record belongs to a granted claim, and a response
in it was recorded under that claim. -/
structure Safe (coordinate : String × String) (world : IdempotencyWorld J) : Prop where
  owners : (world.owners.map Prod.fst).Nodup
  owned : ∀ record, world.record? coordinate = some record →
    record.claimId ∈ world.owners.map Prod.fst
  sourced : ∀ record response, world.record? coordinate = some record →
    record.response = some response → ∃ recording ∈ world.recordings,
      recording.fingerprint = record.fingerprint ∧ recording.response = response

/-- One turn of anybody, as far as the key is concerned. `actor` is the token under which
the one who moves holds the key. -/
structure Moves (coordinate : String × String) (actor : Option String)
    (world world' : IdempotencyWorld J) : Prop where
  latest : world.latest ≤ world'.latest
  owners : world.owners ⊆ world'.owners
  recordings : world.recordings ⊆ world'.recordings
  erased : world.erased ⊆ world'.erased
  kept : ∀ record, world.record? coordinate = some record →
    world'.record? coordinate = some record ∨ record.expiresAt ≤ world'.latest ∨
      some record.claimId = actor ∨
      (record.claimId ∈ world'.erased ∧ (record.runId ≠ none ∨ record.threadId ≠ none))
  written : ∀ record', world'.record? coordinate = some record' →
    world.record? coordinate = some record' ∨ some record'.claimId = actor

theorem Moves.refl (coordinate : String × String) (actor : Option String)
    (world : IdempotencyWorld J) : Moves coordinate actor world world where
  latest := le_refl _
  owners := List.Subset.refl _
  recordings := List.Subset.refl _
  erased := List.Subset.refl _
  kept := fun _ hrecord => .inl hrecord
  written := fun _ hrecord => .inl hrecord

/-- A token was granted once. -/
theorem Safe.owner_unique {coordinate : String × String} {world : IdempotencyWorld J}
    (h : world.Safe coordinate) {claimId : String} {i j : ℕ} (hi : (claimId, i) ∈ world.owners)
    (hj : (claimId, j) ∈ world.owners) : i = j := by
  have hsame : ((claimId, i) : String × ℕ) = (claimId, j) :=
    List.inj_on_of_nodup_map h.owners hi hj rfl
  exact (Prod.mk.inj hsame).2

/-- What a turn that grants nothing and records nothing leaves true of the history. -/
theorem Safe.moves {coordinate : String × String} {world world' : IdempotencyWorld J}
    (h : world.Safe coordinate) (hm : Moves coordinate none world world')
    (howners : world'.owners = world.owners) : world'.Safe coordinate where
  owners := howners ▸ h.owners
  owned := by
    intro record hrecord
    rcases hm.written record hrecord with hold | hactor
    · exact howners ▸ h.owned record hold
    · cases hactor
  sourced := by
    intro record response hrecord hresponse
    rcases hm.written record hrecord with hold | hactor
    · obtain ⟨recording, hmem, hrest⟩ := h.sourced record response hold hresponse
      exact ⟨recording, hm.recordings hmem, hrest⟩
    · cases hactor

/-- A deletion by thread or by run erases nothing that is still in flight. -/
theorem moves_filter {coordinate : String × String} {world : IdempotencyWorld J}
    {p : IdempotencyRecord J → Bool} {store' : MemorySkeinStore J}
    (hstore : store'.idempotency = world.store.idempotency.filter p)
    (hp : ∀ record, p record = false → record.runId ≠ none ∨ record.threadId ≠ none) :
    Moves coordinate none world { world with
      store := store', erased := erasing world.store store' coordinate ++ world.erased } where
  latest := le_refl _
  owners := List.Subset.refl _
  recordings := List.Subset.refl _
  erased := List.subset_append_right _ _
  kept := by
    intro record hrecord
    have hget : store'.idempotency.get? coordinate = (some record).filter p := by
      rw [hstore, Table.get?_filter]
      exact congrArg _ hrecord
    rw [Option.filter_some] at hget
    cases hpr : p record with
    | true => exact .inl (hget.trans (if_pos hpr))
    | false =>
      have hgone : store'.idempotency.contains coordinate = false := by
        simp [OrderedMap.contains, hget, hpr]
      have hrecord : world.store.idempotency.get? coordinate = some record := hrecord
      refine .inr (.inr (.inr ⟨List.mem_append_left _ ?_, hp record hpr⟩))
      simp [erasing, hrecord, hgone]
  written := by
    intro record' hrecord'
    have hget : world.store.idempotency.get? coordinate = some record' ∧ p record' = true := by
      have hfiltered : store'.idempotency.get? coordinate = some record' := hrecord'
      rwa [hstore, Table.get?_filter, Option.filter_eq_some_iff] at hfiltered
    exact .inl hget.1

/-- What the rest of the server does to the key. -/
theorem step_moves {coordinate : String × String} {world world' : IdempotencyWorld J}
    {e : IdempotencyEvent J} (h : step coordinate world e = some world') :
    Moves coordinate none world world' ∧ world'.owners = world.owners := by
  cases e with
  | sweepExpired now =>
    cases h
    refine ⟨⟨le_max_left _ _, List.Subset.refl _, List.Subset.refl _, List.Subset.refl _, ?_, ?_⟩,
      rfl⟩
    · intro record hrecord
      by_cases hlive : now < record.expiresAt
      · refine .inl ?_
        show (world.store.idempotency.filter _).get? coordinate = some record
        rw [Table.get?_filter, Option.filter_eq_some_iff]
        exact ⟨hrecord, by simpa using hlive⟩
      · exact .inr (.inl (Nat.le_trans (Nat.not_lt.mp hlive) (le_max_right _ _)))
    · intro record' hrecord'
      have hget : (world.store.idempotency.filter _).get? coordinate = some record' := hrecord'
      rw [Table.get?_filter, Option.filter_eq_some_iff] at hget
      exact .inl hget.1
  | deleteByThread threadId =>
    cases h
    exact ⟨moves_filter rfl fun record hp => .inr (by
      have hthread : record.threadId = some threadId := by simpa using hp
      simp [hthread]), rfl⟩
  | deleteByRun runId =>
    cases h
    exact ⟨moves_filter rfl fun record hp => .inl (by
      have hrun : record.runId = some runId := by simpa using hp
      simp [hrun]), rfl⟩
  | elsewhere store =>
    cases h
    have hget : (keeping world.store store coordinate).get? coordinate =
        world.store.idempotency.get? coordinate := by
      unfold keeping
      split
      next hnone =>
        simp [Table.get?_erase, hnone]
      next record hrecord =>
        rw [Table.get?_write, if_pos (Table.key_of_get? hrecord), hrecord]
    refine ⟨⟨le_refl _, List.Subset.refl _, List.Subset.refl _, List.Subset.refl _, ?_, ?_⟩, rfl⟩
    · exact fun record hrecord => .inl (hget.trans hrecord)
    · exact fun record' hrecord' => .inl (hget.symm.trans hrecord')

end IdempotencyWorld

namespace IdempotentCall
variable {J : Type*}

/-- What holds of a request between its turns. -/
structure Agrees (coordinate : String × String) (world : IdempotencyWorld J) (i : ℕ)
    (p : IdempotentCall J) : Prop where
  keyed : p.request.coordinate = coordinate
  owned : ∀ claim, p.claim = some claim → (claim.claimId, i) ∈ world.owners
  own : ∀ claim record, p.claim = some claim → world.record? coordinate = some record →
    record.claimId = claim.claimId → record.fingerprint = p.request.fingerprint
  pending : ∀ claim, p.pending = some claim → claim.expiresAt ≤ world.latest ∨
    ∃ record, world.record? coordinate = some record ∧ record.claimId = claim.claimId ∧
      record.expiresAt = claim.expiresAt ∧ record.runId = none ∧ record.threadId = none
  standing : ∀ claim, p.standing = some claim → claim.expiresAt ≤ world.latest ∨
    claim.claimId ∈ world.erased ∨
    ∃ record, world.record? coordinate = some record ∧ record.claimId = claim.claimId ∧
      record.expiresAt = claim.expiresAt
  freed : ∀ claim record, p.freed = some claim → world.record? coordinate = some record →
    record.claimId ≠ claim.claimId
  source : ∀ response, p.source = some response → ∃ recording ∈ world.recordings,
    recording.fingerprint = p.request.fingerprint ∧ recording.response = response
  answer : ∀ response, p.answer = some response → ∃ recording ∈ world.recordings,
    recording.fingerprint = p.request.fingerprint ∧ response = replayOf recording.response

theorem pending_claim {p : IdempotentCall J} {claim : HeldClaim} (h : p.pending = some claim) :
    p.claim = some claim := by
  cases p <;> first | exact h | cases h

theorem freed_claim {p : IdempotentCall J} {claim : HeldClaim} (h : p.freed = some claim) :
    p.claim = some claim := by
  cases p <;> first | exact h | cases h

theorem standing_claim {p : IdempotentCall J} {claim : HeldClaim} (h : p.standing = some claim) :
    ∃ granted, p.claim = some granted ∧ granted.claimId = claim.claimId := by
  cases p <;> cases h
  exact ⟨_, rfl, rfl⟩

/-- A turn under another token leaves a request's assertion true. -/
theorem Agrees.moves {coordinate : String × String} {world world' : IdempotencyWorld J} {i : ℕ}
    {p : IdempotentCall J} {actor : Option String} (h : p.Agrees coordinate world i)
    (hm : world.Moves coordinate actor world')
    (hactor : ∀ claim, p.claim = some claim → some claim.claimId ≠ actor) :
    p.Agrees coordinate world' i where
  keyed := h.keyed
  owned := fun claim hclaim => hm.owners (h.owned claim hclaim)
  own := by
    intro claim record hclaim hrecord hid
    rcases hm.written record hrecord with hold | hwrote
    · exact h.own claim record hclaim hold hid
    · exact absurd (hid ▸ hwrote) (hactor claim hclaim)
  pending := by
    intro claim hpending
    rcases h.pending claim hpending with hpast | ⟨record, hrecord, hid, hexp, hrun, hthread⟩
    · exact .inl (Nat.le_trans hpast hm.latest)
    · rcases hm.kept record hrecord with hsame | hpast | hacted | ⟨-, hnamed⟩
      · exact .inr ⟨record, hsame, hid, hexp, hrun, hthread⟩
      · exact .inl (hexp ▸ hpast)
      · exact absurd (hid ▸ hacted) (hactor claim (pending_claim hpending))
      · exact absurd hnamed (by simp [hrun, hthread])
  standing := by
    intro claim hstanding
    rcases h.standing claim hstanding with hpast | herased | ⟨record, hrecord, hid, hexp⟩
    · exact .inl (Nat.le_trans hpast hm.latest)
    · exact .inr (.inl (hm.erased herased))
    · rcases hm.kept record hrecord with hsame | hpast | hacted | ⟨herased, -⟩
      · exact .inr (.inr ⟨record, hsame, hid, hexp⟩)
      · exact .inl (hexp ▸ hpast)
      · obtain ⟨granted, hgranted, hgid⟩ := standing_claim hstanding
        exact absurd (hgid ▸ hid ▸ hacted) (hactor granted hgranted)
      · exact .inr (.inl (hid ▸ herased))
  freed := by
    intro claim record hfreed hrecord hid
    rcases hm.written record hrecord with hold | hwrote
    · exact h.freed claim record hfreed hold hid
    · exact absurd (hid ▸ hwrote) (hactor claim (freed_claim hfreed))
  source := by
    intro response hsource
    obtain ⟨recording, hmem, hrest⟩ := h.source response hsource
    exact ⟨recording, hm.recordings hmem, hrest⟩
  answer := by
    intro response hanswer
    obtain ⟨recording, hmem, hrest⟩ := h.answer response hanswer
    exact ⟨recording, hm.recordings hmem, hrest⟩

/-- A turn that only moves the request on, without a record to account for. -/
theorem Agrees.quiet {coordinate : String × String} {world : IdempotencyWorld J} {i : ℕ}
    {p p' : IdempotentCall J} (h : p.Agrees coordinate world i) (hreq : p'.request = p.request)
    (hclaim : ∀ claim, p'.claim = some claim → p.claim = some claim)
    (hpending : ∀ claim, p'.pending = some claim → p.pending = some claim)
    (hstanding : p'.standing = none) (hfreed : p'.freed = none) (hsource : p'.source = none)
    (hanswer : p'.answer = none) : p'.Agrees coordinate world i where
  keyed := hreq ▸ h.keyed
  owned := fun claim hc => h.owned claim (hclaim claim hc)
  own := fun claim record hc => hreq ▸ h.own claim record (hclaim claim hc)
  pending := fun claim hc => h.pending claim (hpending claim hc)
  standing := by simp [hstanding]
  freed := by simp [hfreed]
  source := by simp [hsource]
  answer := by simp [hanswer]

/-- A request that holds no claim asserts only where its answer is from. -/
theorem agrees_of_unclaimed {coordinate : String × String} {world : IdempotencyWorld J} {i : ℕ}
    {p : IdempotentCall J} (hkey : p.request.coordinate = coordinate) (hclaim : p.claim = none)
    (hsource : ∀ response, p.source = some response → ∃ recording ∈ world.recordings,
      recording.fingerprint = p.request.fingerprint ∧ recording.response = response)
    (hanswer : ∀ response, p.answer = some response → ∃ recording ∈ world.recordings,
      recording.fingerprint = p.request.fingerprint ∧ response = replayOf recording.response) :
    p.Agrees coordinate world i := by
  have hunclaimed : ∀ claim, p.claim ≠ some claim := by simp [hclaim]
  refine ⟨hkey, ?_, ?_, ?_, ?_, ?_, hsource, hanswer⟩
  · exact fun claim hc => absurd hc (hunclaimed claim)
  · exact fun claim _ hc => absurd hc (hunclaimed claim)
  · exact fun claim hc => absurd (pending_claim hc) (hunclaimed claim)
  · intro claim hc
    obtain ⟨granted, hgranted, -⟩ := standing_claim hc
    exact absurd hgranted (hunclaimed granted)
  · exact fun claim _ hc => absurd (freed_claim hc) (hunclaimed claim)

/-- A request that never was granted a claim. -/
theorem agrees_of_refused {coordinate : String × String} {world : IdempotencyWorld J} {i : ℕ}
    {req : KeyedRequest} (hkey : req.coordinate = coordinate) (error : Thrown) :
    (IdempotentCall.refused req error : IdempotentCall J).Agrees coordinate world i :=
  agrees_of_unclaimed hkey rfl (by simp [IdempotentCall.source]) (by simp [IdempotentCall.answer])

/-- What a turn keeps: the history stays truthful, the request's assertion holds again, and
only the token of the request itself was written under. -/
structure Turn (coordinate : String × String) (world : IdempotencyWorld J) (i : ℕ)
    (world' : IdempotencyWorld J) (p' : IdempotentCall J) : Prop where
  safe : world'.Safe coordinate
  agrees : p'.Agrees coordinate world' i
  moves : world.Moves coordinate (p'.claim.map HeldClaim.claimId) world'

theorem Turn.quiet {coordinate : String × String} {world : IdempotencyWorld J} {i : ℕ}
    {p' : IdempotentCall J} (hs : world.Safe coordinate) (h : p'.Agrees coordinate world i) :
    Turn coordinate world i world p' := ⟨hs, h, .refl _ _ _⟩

section OwnTurns
variable {options : IdempotencyOptions J} {world world' : IdempotencyWorld J} {i : ℕ}
  {req : KeyedRequest} {claim : HeldClaim} {x : CallInput J} {p' : IdempotentCall J}

/-- The claim of a key: refused by a live record, or granted over an expired one. -/
theorem claimTurn_cases
    (h : claimTurn options world i req x = some (world', p')) :
    (validIdempotencyKey req.key = false ∧ world' = world ∧ p' = .refused req invalidKey) ∨
    (validIdempotencyKey req.key = true ∧ x.claimId ∉ world.owners.map Prod.fst ∧
      ((∃ record, world.record? req.coordinate = some record ∧ x.clock < record.expiresAt ∧
        world' = { world with latest := max world.latest x.clock } ∧
        ((record.fingerprint ≠ req.fingerprint ∧ p' = .refused req (keyReused req.key)) ∨
          (record.fingerprint = req.fingerprint ∧ p' = .refused req (keyInFlight req.key)) ∨
          (record.fingerprint = req.fingerprint ∧
            ∃ response, record.response = some response ∧ p' = .replaying req response))) ∨
      ((∀ existing, world.record? req.coordinate = some existing →
          existing.expiresAt ≤ x.clock) ∧
        p' = .executing req ⟨x.claimId, x.clock, x.clock + options.inFlightMs⟩ ∧
        ∃ record, record = MemorySkeinStore.claimedRecord (world.record? req.coordinate)
            ⟨req.key, req.scope, req.fingerprint, x.claimId, x.clock,
              x.clock + options.inFlightMs⟩ x.now ∧
          world' = { world with
            store := { world.store with idempotency := world.store.idempotency.write record }
            latest := max world.latest x.clock
            owners := (x.claimId, i) :: world.owners }))) := by
  unfold claimTurn at h
  split_ifs at h with hvalid hused
  · cases h
    exact .inl ⟨hvalid, rfl, rfl⟩
  · refine .inr ⟨by simpa using hvalid, hused, ?_⟩
    dsimp only at h
    rcases world.store.idempotencyClaim_cases ⟨req.key, req.scope, req.fingerprint, x.claimId,
        x.clock, x.clock + options.inFlightMs⟩ x.now with
      ⟨record, hrecord, hlive, hcall⟩ | ⟨record, hexpired, hnew, hcall⟩
    · rw [hcall] at h
      refine .inl ⟨record, hrecord, hlive, ?_⟩
      dsimp only at h
      by_cases hprint : record.fingerprint = req.fingerprint
      · rw [if_neg (by simp [hprint])] at h
        split at h
        next response _ hresponse =>
          cases h
          exact ⟨rfl, .inr (.inr ⟨hprint, _, hresponse, rfl⟩)⟩
        · cases h
          exact ⟨rfl, .inr (.inl ⟨hprint, rfl⟩)⟩
      · rw [if_pos hprint] at h
        cases h
        exact ⟨rfl, .inl ⟨hprint, rfl⟩⟩
    · rw [hcall] at h
      cases h
      exact .inr ⟨hexpired, rfl, record, hnew, rfl⟩

/-- A later clock reading alone changes nothing about the key. -/
theorem moves_latest (coordinate : String × String) (actor : Option String)
    (world : IdempotencyWorld J) (now : Timestamp) :
    world.Moves coordinate actor { world with latest := max world.latest now } where
  latest := le_max_left _ _
  owners := List.Subset.refl _
  recordings := List.Subset.refl _
  erased := List.Subset.refl _
  kept := fun _ hrecord => .inl hrecord
  written := fun _ hrecord => .inl hrecord

theorem claimTurn_turn (hs : world.Safe req.coordinate)
    (h : claimTurn options world i req x = some (world', p')) :
    Turn req.coordinate world i world' p' := by
  rcases claimTurn_cases h with ⟨-, rfl, rfl⟩ | ⟨-, hfresh,
    ⟨record, hrecord, -, rfl, hp'⟩ | ⟨hexpired, rfl, record, hnew, rfl⟩⟩
  · exact .quiet hs (agrees_of_refused rfl _)
  · have hsafe := hs.moves (IdempotentCall.moves_latest req.coordinate none world x.clock) rfl
    rcases hp' with ⟨-, rfl⟩ | ⟨-, rfl⟩ | ⟨hprint, response, hresponse, rfl⟩
    · exact ⟨hsafe, agrees_of_refused rfl _, moves_latest _ _ _ _⟩
    · exact ⟨hsafe, agrees_of_refused rfl _, moves_latest _ _ _ _⟩
    · refine ⟨hsafe, agrees_of_unclaimed rfl rfl ?_ (by simp [IdempotentCall.answer]),
        moves_latest _ _ _ _⟩
      rintro _ ⟨⟩
      obtain ⟨recording, hmem, hsame, hfound⟩ := hs.sourced record response hrecord hresponse
      exact ⟨recording, hmem, hsame.trans hprint, hfound⟩
  · have hget : (world.store.idempotency.write record).get? req.coordinate = some record := by
      rw [Table.get?_write, if_pos]
      rw [hnew]
      rfl
    have hid : record.claimId = x.claimId := by rw [hnew]; rfl
    refine ⟨⟨?_, ?_, ?_⟩, ⟨rfl, ?_, ?_, ?_, by simp [IdempotentCall.standing],
        by simp [IdempotentCall.freed], by simp [IdempotentCall.source],
        by simp [IdempotentCall.answer]⟩,
      ⟨le_max_left _ _, List.subset_cons_self _ _, List.Subset.refl _, List.Subset.refl _, ?_, ?_⟩⟩
    · exact List.nodup_cons.mpr ⟨hfresh, hs.owners⟩
    · intro found hfound
      cases hget.symm.trans hfound
      exact hid ▸ List.mem_cons_self
    · intro found response hfound hresponse
      cases hget.symm.trans hfound
      rw [hnew] at hresponse
      cases hresponse
    · rintro _ ⟨⟩
      exact List.mem_cons_self
    · rintro _ found ⟨⟩ hfound _
      cases hget.symm.trans hfound
      rw [hnew]
      rfl
    · rintro _ ⟨⟩
      exact .inr ⟨record, hget, hid, by rw [hnew]; rfl, by rw [hnew]; rfl, by rw [hnew]; rfl⟩
    · intro found hfound
      exact .inr (.inl (Nat.le_trans (hexpired found hfound) (le_max_right _ _)))
    · intro found hfound
      cases hget.symm.trans hfound
      exact .inr (congrArg some hid)

theorem recordTurn_turn {response : JsonResponse J} (hs : world.Safe req.coordinate)
    (hp : (IdempotentCall.recording req claim response).Agrees req.coordinate world i)
    (h : recordTurn options world i req claim response x = (world', p')) :
    Turn req.coordinate world i world' p' := by
  unfold recordTurn at h
  by_cases hfails : x.recordFails = true
  · rw [if_pos hfails] at h
    cases h
    exact .quiet hs (hp.quiet rfl (fun _ h => h) (fun _ h => h) rfl rfl rfl rfl)
  · rw [if_neg hfails] at h
    dsimp only at h
    rcases world.store.idempotencyRecord_cases req.scope req.key claim.claimId
        { response, expiresAt := x.clock + options.retentionMs
          runId := options.runIdOf response.body, threadId := threadIdOf response } x.now with
      ⟨hlost, hcall⟩ | ⟨existing, hexisting, hown, hcall⟩
    · have hnot : ¬ ((world.store.idempotency.get? req.coordinate).any
          (·.claimId = claim.claimId)) = true := by
        rw [Option.any_eq_true]
        rintro ⟨record, hrecord, hown⟩
        exact hlost record hrecord (by simpa using hown)
      rw [hcall, if_neg hnot] at h
      cases h
      exact .quiet hs (hp.quiet rfl (fun _ h => h) (by simp [IdempotentCall.pending]) rfl rfl
        rfl rfl)
    · have hheld : ((world.store.idempotency.get? req.coordinate).any
          (·.claimId = claim.claimId)) = true := by
        show (world.store.idempotency.get? (req.scope, req.key)).any _ = true
        rw [hexisting]
        simpa using hown
      rw [hcall, if_pos hheld] at h
      cases h
      have hcoord : existing.coordinate = req.coordinate := Table.key_of_get? hexisting
      have hprint : existing.fingerprint = req.fingerprint := hp.own claim existing rfl hexisting hown
      have howner : (claim.claimId, i) ∈ world.owners := hp.owned claim rfl
      obtain ⟨record, hrecord⟩ : ∃ record, record = MemorySkeinStore.recordedRecord existing
        { response, expiresAt := x.clock + options.retentionMs
          runId := options.runIdOf response.body, threadId := threadIdOf response } x.now := ⟨_, rfl⟩
      rw [← hrecord]
      have hid : record.claimId = claim.claimId := by rw [hrecord]; exact hown
      have hget : (world.store.idempotency.write record).get? req.coordinate = some record := by
        rw [Table.get?_write, if_pos]
        rw [hrecord]
        exact hcoord
      refine ⟨⟨hs.owners, ?_, ?_⟩, ⟨rfl, ?_, ?_, by simp [IdempotentCall.pending], ?_,
          by simp [IdempotentCall.freed], by simp [IdempotentCall.source],
          by simp [IdempotentCall.answer]⟩,
        ⟨le_refl _, List.Subset.refl _, List.subset_cons_self _ _, List.Subset.refl _, ?_, ?_⟩⟩
      · intro found hfound
        cases hget.symm.trans hfound
        exact List.mem_map.mpr ⟨_, howner, hid.symm⟩
      · intro found answered hfound hanswered
        cases hget.symm.trans hfound
        rw [hrecord] at hanswered ⊢
        cases hanswered
        exact ⟨_, List.mem_cons_self, hprint.symm, rfl⟩
      · rintro _ ⟨⟩
        exact howner
      · rintro _ found ⟨⟩ hfound _
        cases hget.symm.trans hfound
        rw [hrecord]
        exact hprint
      · rintro _ ⟨⟩
        exact .inr (.inr ⟨record, hget, hid, by rw [hrecord]; rfl⟩)
      · intro found hfound
        cases hexisting.symm.trans hfound
        exact .inr (.inr (.inl (congrArg some hown)))
      · intro found hfound
        cases hget.symm.trans hfound
        exact .inr (congrArg some hid)

theorem release_turn {outcome : Except Thrown (ProtocolResponse J)}
    (hs : world.Safe req.coordinate)
    (hp : (IdempotentCall.releasing req claim outcome).Agrees req.coordinate world i) :
    Turn req.coordinate world i
      { world with store := world.store.idempotencyRelease req.scope req.key claim.claimId }
      (.released req claim outcome) := by
  have hget := world.store.idempotencyRelease_get? req.scope req.key claim.claimId
  have hback : ∀ record, (world.store.idempotencyRelease req.scope req.key
      claim.claimId).idempotency.get? (req.scope, req.key) = some record →
      world.record? req.coordinate = some record ∧ record.claimId ≠ claim.claimId := by
    intro record hrecord
    rw [hget, Option.filter_eq_some_iff] at hrecord
    exact ⟨hrecord.1, by simpa using hrecord.2⟩
  refine ⟨⟨hs.owners, ?_, ?_⟩, ⟨rfl, ?_, ?_, by simp [IdempotentCall.pending],
      by simp [IdempotentCall.standing], ?_, by simp [IdempotentCall.source],
      by simp [IdempotentCall.answer]⟩,
    ⟨le_refl _, List.Subset.refl _, List.Subset.refl _, List.Subset.refl _, ?_, ?_⟩⟩
  · exact fun record hrecord => hs.owned record (hback record hrecord).1
  · exact fun record response hrecord => hs.sourced record response (hback record hrecord).1
  · rintro _ ⟨⟩
    exact hp.owned claim rfl
  · rintro _ record ⟨⟩ hrecord
    exact hp.own claim record rfl (hback record hrecord).1
  · rintro _ record ⟨⟩ hrecord
    exact (hback record hrecord).2
  · intro record hrecord
    by_cases hown : record.claimId = claim.claimId
    · exact .inr (.inr (.inl (congrArg some hown)))
    · refine .inl (hget.trans ?_)
      rw [Option.filter_eq_some_iff]
      exact ⟨hrecord, by simpa using hown⟩
  · exact fun record hrecord => .inl (hback record hrecord).1

theorem respond_turn {response : ProtocolResponse J} {p : IdempotentCall J}
    (hs : world.Safe req.coordinate) (hp : p.Agrees req.coordinate world i)
    (hreq : p.request = req) (hclaim : p.claim = some claim) (hpending : p.pending = some claim) :
    Turn req.coordinate world i world (respond req claim response) := by
  apply Turn.quiet hs
  cases response with
  | sse =>
    show Agrees req.coordinate world i (.releasing req claim (.ok .sse))
    exact hp.quiet hreq.symm (fun _ h => hclaim.trans h) (fun _ h => hpending.trans h) rfl rfl
      rfl rfl
  | json response =>
    unfold respond
    dsimp only
    split_ifs <;> exact hp.quiet hreq.symm (fun _ h => hclaim.trans h)
      (fun _ h => hpending.trans h) rfl rfl rfl rfl

end OwnTurns

theorem resume_turn {options : IdempotencyOptions J} {coordinate : String × String}
    {world world' : IdempotencyWorld J} {i : ℕ} {p p' : IdempotentCall J} {x : CallInput J}
    (hs : world.Safe coordinate) (hp : p.Agrees coordinate world i)
    (h : resume options world i p x = some (world', p')) : Turn coordinate world i world' p' := by
  obtain rfl := hp.keyed
  cases p with
  | claiming req => exact claimTurn_turn hs h
  | replaying req response =>
    simp only [resume] at h
    split at h <;> cases h
    · exact .quiet hs (agrees_of_refused rfl _)
    · refine .quiet hs (agrees_of_unclaimed rfl rfl (by simp [IdempotentCall.source]) ?_)
      rintro _ ⟨⟩
      obtain ⟨recording, hmem, hprint, hresponse⟩ := hp.source response rfl
      exact ⟨recording, hmem, hprint, hresponse ▸ rfl⟩
  | executing req claim =>
    simp only [resume] at h
    split at h
    · cases h
      exact respond_turn hs hp rfl rfl rfl
    · split_ifs at h <;> cases h <;>
        exact .quiet hs (hp.quiet rfl (fun _ h => h) (fun _ h => h) rfl rfl rfl rfl)
  | checking req claim error =>
    simp only [resume] at h
    split at h <;> cases h <;>
      exact .quiet hs (hp.quiet rfl (fun _ h => h) (fun _ h => h) rfl rfl rfl rfl)
  | reauthorizing req claim error runId =>
    simp only [resume] at h
    split at h <;> cases h <;>
      exact .quiet hs (hp.quiet rfl (fun _ h => h) (fun _ h => h) rfl rfl rfl rfl)
  | rereading req claim error runId =>
    simp only [resume] at h
    split at h <;> cases h
    · exact .quiet hs (hp.quiet rfl (fun _ h => h) (fun _ h => h) rfl rfl rfl rfl)
    · exact respond_turn hs hp rfl rfl rfl
  | recording req claim response => exact recordTurn_turn hs hp (Option.some.inj h)
  | releasing req claim outcome =>
    cases h
    exact release_turn hs hp
  | replayed | recorded | superseded | released | refused | abandoned => cases h

/-- Requests and the rest of the server never invalidate each other's assertions. -/
theorem interferenceFree (options : IdempotencyOptions J) (coordinate : String × String) :
    InterferenceFree (program options coordinate) (IdempotencyWorld.Safe coordinate)
      (Agrees coordinate) (fun _ _ => True) where
  env := by
    intro w e world' hw _ he
    obtain ⟨hm, howners⟩ := IdempotencyWorld.step_moves he
    exact ⟨hw.1.moves hm howners, fun j q hq => (hw.2 j q hq).moves hm (by simp)⟩
  start := by
    intro w p world' hw _ hstart
    cases p with
    | claiming req =>
      simp only [program, start] at hstart
      split_ifs at hstart with hkey
      cases hstart
      exact ⟨hw.1, agrees_of_unclaimed hkey.1 rfl (by simp [IdempotentCall.source])
        (by simp [IdempotentCall.answer]), hw.2⟩
    | _ => cases hstart
  resume := by
    intro w i x p world' p' hw _ hp hr
    obtain ⟨hsafe, hagrees, hmoves⟩ := resume_turn hw.1 (hw.local hp) hr
    refine ⟨hsafe, hagrees, fun j q hji hq => (hw.2 j q hq).moves hmoves fun claim hclaim hsame => ?_⟩
    obtain ⟨own, hown, hid⟩ := Option.map_eq_some_iff.mp hsame.symm
    have hj : (claim.claimId, j) ∈ world'.owners := hmoves.owners ((hw.2 j q hq).owned claim hclaim)
    have hi : (claim.claimId, i) ∈ world'.owners := hid ▸ hagrees.owned own hown
    exact hji (hsafe.owner_unique hj hi)

end IdempotentCall
end Skein
