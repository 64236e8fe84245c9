import Skein.AdmissionLaws
import Skein.IdempotentCalls

/-!
# What an idempotency key promises

The promises of the wrapper for one scope and key, in every state that any interleaving of
requests with the rest of the server reaches. A failed request frees its key, with one
designed exception: a background create that threw after its admission was accepted
answers with the accepted run, and its key is done.
-/
namespace Skein

/-- The handler threw, or answered something that is not recorded. -/
def HandlerFailed {J : Type*} : Except Thrown (ProtocolResponse J) → Prop
  | .error _ => True
  | .ok .sse => True
  | .ok (.json response) => 300 ≤ response.status

namespace IdempotentCall
variable {J : Type*}

/-- The request executed under this claim, its claim was neither released nor erased with
the thread or run of its response, and no clock reading has passed its expiry. -/
def LiveClaim (world : IdempotencyWorld J) (p : IdempotentCall J) (claim : HeldClaim) : Prop :=
  (p.pending = some claim ∨ p.standing = some claim ∧ claim.claimId ∉ world.erased) ∧
    world.latest < claim.expiresAt

theorem Agrees.live {coordinate : String × String} {world : IdempotencyWorld J} {i : ℕ}
    {p : IdempotentCall J} (h : p.Agrees coordinate world i) {claim : HeldClaim}
    (hlive : LiveClaim world p claim) :
    (claim.claimId, i) ∈ world.owners ∧
    ∃ record, world.record? coordinate = some record ∧ record.claimId = claim.claimId ∧
      record.expiresAt = claim.expiresAt := by
  obtain ⟨hpending | ⟨hstanding, herased⟩, hlatest⟩ := hlive
  · refine ⟨h.owned claim (pending_claim hpending), ?_⟩
    rcases h.pending claim hpending with hpast | ⟨record, hrecord, hid, hexp, -⟩
    · exact absurd hpast (Nat.not_le.mpr hlatest)
    · exact ⟨record, hrecord, hid, hexp⟩
  · obtain ⟨granted, hgranted, hid⟩ := standing_claim hstanding
    refine ⟨hid ▸ h.owned granted hgranted, ?_⟩
    rcases h.standing claim hstanding with hpast | hgone | hrecord
    · exact absurd hpast (Nat.not_le.mpr hlatest)
    · exact absurd hgone herased
    · exact hrecord

/-- A recording is made by the turn that ends its request as recorded. -/
theorem resume_recordings {options : IdempotencyOptions J} {world world' : IdempotencyWorld J}
    {i : ℕ} {p p' : IdempotentCall J} {x : CallInput J}
    (h : resume options world i p x = some (world', p')) :
    world'.recordings = world.recordings ∨
    ∃ req claim expiresAt response, p' = .recorded req claim expiresAt response ∧
      world'.recordings = ⟨i, claim.claimId, req.fingerprint, response⟩ :: world.recordings := by
  cases p with
  | claiming req =>
    rcases claimTurn_cases h with ⟨-, rfl, -⟩ | ⟨-, -, ⟨_, -, -, rfl, -⟩ | ⟨-, -, _, -, rfl⟩⟩
    · exact .inl rfl
    · exact .inl rfl
    · exact .inl rfl
  | recording req claim response =>
    have hturn := Option.some.inj h
    unfold recordTurn at hturn
    dsimp only at hturn
    split_ifs at hturn
    · cases hturn
      exact .inl rfl
    · cases hturn
      exact .inr ⟨_, _, _, _, rfl, rfl⟩
    · cases hturn
      exact .inl rfl
  | replaying req response =>
    simp only [resume] at h
    split at h <;> cases h <;> exact .inl rfl
  | executing req claim =>
    simp only [resume] at h
    split at h
    · cases h
      exact .inl rfl
    · split_ifs at h <;> cases h <;> exact .inl rfl
  | checking req claim error =>
    simp only [resume] at h
    split at h <;> cases h <;> exact .inl rfl
  | reauthorizing req claim error runId =>
    simp only [resume] at h
    split at h <;> cases h <;> exact .inl rfl
  | rereading req claim error runId =>
    simp only [resume] at h
    split at h <;> cases h <;> exact .inl rfl
  | releasing req claim outcome =>
    cases h
    exact .inl rfl
  | replayed | recorded | superseded | released | refused | abandoned => cases h

/-- A request past its claim leaves a record under another token alone. -/
theorem resume_other {options : IdempotencyOptions J} {world world' : IdempotencyWorld J}
    {i : ℕ} {p p' : IdempotentCall J} {x : CallInput J} {claim : HeldClaim}
    {record : IdempotencyRecord J} (hclaim : p.claim = some claim)
    (hrecord : world.record? p.request.coordinate = some record)
    (hother : record.claimId ≠ claim.claimId)
    (h : resume options world i p x = some (world', p')) :
    world'.record? p.request.coordinate = some record := by
  cases p with
  | claiming | replaying | replayed | refused => cases hclaim
  | recorded | superseded | released | abandoned => cases h
  | recording req held response =>
    obtain rfl : held = claim := Option.some.inj hclaim
    have hturn := Option.some.inj h
    have hkept : ∀ recorded, (world.store.idempotencyRecord req.scope req.key held.claimId
        recorded x.now) = world.store := by
      intro recorded
      rcases world.store.idempotencyRecord_cases req.scope req.key held.claimId recorded x.now with
        ⟨-, hsame⟩ | ⟨existing, hexisting, hown, -⟩
      · exact hsame
      · cases hrecord.symm.trans hexisting
        exact absurd hown hother
    unfold recordTurn at hturn
    simp only [hkept] at hturn
    split_ifs at hturn <;> cases hturn <;> exact hrecord
  | executing req held =>
    simp only [resume] at h
    split at h
    · cases h
      exact hrecord
    · split_ifs at h <;> cases h <;> exact hrecord
  | checking req held error =>
    simp only [resume] at h
    split at h <;> cases h <;> exact hrecord
  | reauthorizing req held error runId =>
    simp only [resume] at h
    split at h <;> cases h <;> exact hrecord
  | rereading req held error runId =>
    simp only [resume] at h
    split at h <;> cases h <;> exact hrecord
  | releasing req held outcome =>
    obtain rfl : held = claim := Option.some.inj hclaim
    cases h
    have hrecord : world.store.idempotency.get? (req.scope, req.key) = some record := hrecord
    show (world.store.idempotencyRelease req.scope req.key held.claimId).idempotency.get?
      (req.scope, req.key) = some record
    rw [MemorySkeinStore.idempotencyRelease_get?, hrecord, Option.filter_eq_some_iff]
    exact ⟨rfl, by simpa using hother⟩

/-- Every recording is the response its request answered. -/
def Answered (w : Pool (IdempotencyWorld J) (IdempotentCall J)) : Prop :=
  ∀ recording ∈ w.shared.recordings, ∃ req claim expiresAt,
    w.procs[recording.owner]? = some (.recorded req claim expiresAt recording.response) ∧
      claim.claimId = recording.claimId ∧ req.fingerprint = recording.fingerprint

theorem Answered.step {options : IdempotencyOptions J} {coordinate : String × String}
    {w w' : Pool (IdempotencyWorld J) (IdempotentCall J)}
    {a : Action (IdempotencyEvent J) (IdempotentCall J) (CallInput J)} (hw : Answered w)
    (h : (program options coordinate).step w a = some w') : Answered w' := by
  rcases (program options coordinate).step_cases h with ⟨e, s, rfl, hs, rfl⟩ |
    ⟨p, s, rfl, hs, rfl⟩ | ⟨i, x, p, s, p', rfl, hp, hs, rfl⟩
  · intro recording hrecording
    cases e <;> cases hs <;> exact hw recording hrecording
  · intro recording hrecording
    have hsame : s = w.shared := by
      cases p with
      | claiming req =>
        simp only [program, start] at hs
        split_ifs at hs
        cases hs
        rfl
      | _ => cases hs
    obtain ⟨req, claim, expiresAt, hproc, hrest⟩ := hw recording (hsame ▸ hrecording)
    have hlt : recording.owner < w.procs.length := (List.getElem?_eq_some_iff.mp hproc).1
    exact ⟨req, claim, expiresAt, by rw [List.getElem?_append_left hlt]; exact hproc, hrest⟩
  · have hlt : i < w.procs.length := (List.getElem?_eq_some_iff.mp hp).1
    have hold : ∀ recording ∈ w.shared.recordings, ∃ req claim expiresAt,
        (w.procs.set i p')[recording.owner]? =
            some (.recorded req claim expiresAt recording.response) ∧
          claim.claimId = recording.claimId ∧ req.fingerprint = recording.fingerprint := by
      intro recording hrecording
      obtain ⟨req, claim, expiresAt, hproc, hrest⟩ := hw recording hrecording
      have hne : i ≠ recording.owner := by
        rintro rfl
        rw [hp] at hproc
        cases hproc
        cases hs
      exact ⟨req, claim, expiresAt, by rw [List.getElem?_set_ne hne]; exact hproc, hrest⟩
    intro recording hrecording
    rcases resume_recordings hs with hsame | ⟨req, claim, expiresAt, response, rfl, hadded⟩
    · exact hold recording (hsame ▸ hrecording)
    · rw [show (⟨s, w.procs.set i _⟩ : Pool (IdempotencyWorld J) (IdempotentCall J)).shared.recordings
        = _ from hadded] at hrecording
      rcases List.mem_cons.mp hrecording with rfl | hmem
      · exact ⟨req, claim, expiresAt, by simp [hlt], rfl, rfl⟩
      · exact hold recording hmem

end IdempotentCall

open IdempotentCall

/-- The success response that an accepted run is turned into. -/
def runResponse {J : Type*} (options : IdempotencyOptions J) (run : Run J) : JsonResponse J where
  status := 200
  body := options.runBody run
  headers := some [("content-location",
    "/threads/" ++ run.threadId.value ++ "/runs/" ++ run.runId.value)]

/-- The promises of an idempotency key. -/
structure RunsOnce {J : Type*} (options : IdempotencyOptions J) (coordinate : String × String)
    (w : Pool (IdempotencyWorld J) (IdempotentCall J)) : Prop where
  /-- Only one request at a time has executed under a live claim. -/
  atMostOnce : ∀ (i j : ℕ) p q claim claim', w.procs[i]? = some p → w.procs[j]? = some q →
    LiveClaim w.shared p claim → LiveClaim w.shared q claim' → i = j
  /-- Before the expiry of a live claim no other request gets to execute. -/
  exclusive : ∀ (i j : ℕ) p claim req x world' claim', w.procs[i]? = some p →
    LiveClaim w.shared p claim → w.procs[j]? = some (.claiming req) →
    resume options w.shared j (.claiming req) x = some (world', .executing req claim') →
    claim.expiresAt ≤ x.clock
  /-- A request with another fingerprint than the live record's is refused and changes
  nothing. -/
  mismatched : ∀ (i : ℕ) req record x world' p', w.procs[i]? = some (.claiming req) →
    w.shared.store.idempotency.get? coordinate = some record → x.clock < record.expiresAt →
    record.fingerprint ≠ req.fingerprint →
    resume options w.shared i (.claiming req) x = some (world', p') →
    world'.store = w.shared.store ∧ ∃ error, p' = .refused req error ∧
      (validIdempotencyKey req.key = true → error = keyReused req.key)
  /-- A replay is what a request with the same fingerprint answered and recorded under its
  own claim, plus the marker. -/
  replays : ∀ (i : ℕ) req response, w.procs[i]? = some (.replayed req response) →
    ∃ (k : ℕ) (owner : KeyedRequest) (claim : HeldClaim) (expiresAt : Timestamp)
      (original : JsonResponse J),
      w.procs[k]? = some (.recorded owner claim expiresAt original) ∧
      owner.fingerprint = req.fingerprint ∧ response.status = original.status ∧
      response.body = original.body ∧ response.headers = some (replayHeaders original.headers)
  /-- The record of another request's claim is never overwritten or deleted. -/
  takenOver : ∀ (i j : ℕ) p claim record x world' p', w.procs[i]? = some p →
    p.claim = some claim → i ≠ j → (record.claimId, j) ∈ w.shared.owners →
    w.shared.store.idempotency.get? coordinate = some record →
    resume options w.shared i p x = some (world', p') →
    world'.store.idempotency.get? coordinate = some record
  /-- A failed handler leads to the release of the claim, at once where it returned and in
  every create that has no admission of its own to look at. -/
  failed : ∀ (i : ℕ) req claim x, w.procs[i]? = some (.executing req claim) →
    HandlerFailed x.handler →
    (∀ error, x.handler = .error error →
      ¬ (req.name = .createBackgroundRun ∧ options.admission = true)) →
    ∃ outcome, resume options w.shared i (.executing req claim) x =
      some (w.shared, .releasing req claim outcome)
  /-- So it does where a background create finds no accepted run of its own. -/
  unaccepted : ∀ (i : ℕ) req claim error x, w.procs[i]? = some (.checking req claim error) →
    (∀ record, w.shared.store.idempotencyGet ("admission " ++ req.scope) req.key = some record →
      record.runId = none) →
    resume options w.shared i (.checking req claim error) x =
      some (w.shared, .releasing req claim (.error error))
  vanished : ∀ (i : ℕ) req claim error runId x,
    w.procs[i]? = some (.rereading req claim error runId) → w.shared.store.runsGet runId = none →
    resume options w.shared i (.rereading req claim error runId) x =
      some (w.shared, .releasing req claim (.error error))
  /-- The exception, one await after the other: where a background create threw, its own
  admission is read, -/
  checked : ∀ (i : ℕ) req claim error x, w.procs[i]? = some (.executing req claim) →
    x.handler = .error error → req.name = .createBackgroundRun → options.admission = true →
    resume options w.shared i (.executing req claim) x =
      some (w.shared, .checking req claim error)
  /-- the run it had recorded is looked for, for a caller who may see it, -/
  accepted : ∀ (i : ℕ) req claim error record runId x,
    w.procs[i]? = some (.checking req claim error) →
    w.shared.store.idempotencyGet ("admission " ++ req.scope) req.key = some record →
    record.runId = some runId →
    resume options w.shared i (.checking req claim error) x =
      some (w.shared, .reauthorizing req claim error runId)
  reauthorized : ∀ (i : ℕ) req claim error runId x,
    w.procs[i]? = some (.reauthorizing req claim error runId) → x.denied = none →
    resume options w.shared i (.reauthorizing req claim error runId) x =
      some (w.shared, .rereading req claim error runId)
  /-- and where it still exists the answer is 200 with that run, -/
  rescued : ∀ (i : ℕ) req claim error runId run x,
    w.procs[i]? = some (.rereading req claim error runId) →
    w.shared.store.runsGet runId = some run →
    resume options w.shared i (.rereading req claim error runId) x =
      some (w.shared, .recording req claim (runResponse options run))
  /-- which is recorded and keeps the key, as every other success does, unless the write is
  rejected or the key was taken over. -/
  kept : ∀ (i : ℕ) req claim response record x,
    w.procs[i]? = some (.recording req claim response) → x.recordFails = false →
    w.shared.store.idempotency.get? coordinate = some record → record.claimId = claim.claimId →
    ∃ world' record',
      resume options w.shared i (.recording req claim response) x =
        some (world', .recorded req claim (x.clock + options.retentionMs) response) ∧
      world'.store.idempotency.get? coordinate = some record' ∧
      record'.claimId = claim.claimId ∧ record'.fingerprint = record.fingerprint ∧
      record'.status = .done ∧ record'.response = some response ∧
      record'.expiresAt = x.clock + options.retentionMs
  /-- A release frees the key unless somebody else has taken it over, -/
  releases : ∀ (i : ℕ) req claim outcome x, w.procs[i]? = some (.releasing req claim outcome) →
    ∃ world', resume options w.shared i (.releasing req claim outcome) x =
        some (world', .released req claim outcome) ∧
      ∀ record, world'.store.idempotency.get? coordinate = some record →
        record.claimId ≠ claim.claimId ∧
        w.shared.store.idempotency.get? coordinate = some record
  /-- it stays free of the released claim, -/
  freed : ∀ (i : ℕ) req claim outcome record, w.procs[i]? = some (.released req claim outcome) →
    w.shared.store.idempotency.get? coordinate = some record → record.claimId ≠ claim.claimId
  /-- and a free key is granted to whoever claims it next. -/
  claimable : ∀ (i : ℕ) req x, w.procs[i]? = some (.claiming req) →
    w.shared.store.idempotency.get? coordinate = none → validIdempotencyKey req.key = true →
    x.claimId ∉ w.shared.owners.map Prod.fst →
    ∃ world', resume options w.shared i (.claiming req) x =
      some (world', .executing req ⟨x.claimId, x.clock, x.clock + options.inFlightMs⟩)

namespace IdempotentHandlers
variable {J : Type*}

/-- A failed handler whose admission is not looked at leads to the release of its claim. -/
theorem failed_releases {options : IdempotencyOptions J} {world : IdempotencyWorld J} {i : ℕ}
    {req : KeyedRequest} {claim : HeldClaim} {x : CallInput J} (hfailed : HandlerFailed x.handler)
    (hrescue : ∀ error, x.handler = .error error →
      ¬ (req.name = .createBackgroundRun ∧ options.admission = true)) :
    ∃ outcome, resume options world i (.executing req claim) x =
      some (world, .releasing req claim outcome) := by
  rcases hend : x.handler with error | response | response
  · simp only [resume, hend, if_neg (hrescue error hend)]
    exact ⟨_, rfl⟩
  · rw [hend] at hfailed
    have hstatus : 300 ≤ response.status := hfailed
    simp only [resume, hend, respond, if_pos hstatus]
    exact ⟨_, rfl⟩
  · simp only [resume, hend, respond]
    exact ⟨_, rfl⟩

section Assembly
variable {options : IdempotencyOptions J} {coordinate : String × String}
  {w : Pool (IdempotencyWorld J) (IdempotentCall J)}
  (hw : w.Holds (IdempotencyWorld.Safe coordinate) (Agrees coordinate))
include hw

theorem live_unique {i j : ℕ} {p q : IdempotentCall J} {claim claim' : HeldClaim}
    (hp : w.procs[i]? = some p) (hq : w.procs[j]? = some q) (hlive : LiveClaim w.shared p claim)
    (hlive' : LiveClaim w.shared q claim') : i = j := by
  obtain ⟨hi, record, hrecord, hid, -⟩ := (hw.local hp).live hlive
  obtain ⟨hj, record', hrecord', hid', -⟩ := (hw.local hq).live hlive'
  cases hrecord.symm.trans hrecord'
  exact hw.1.owner_unique hi (hid ▸ hid' ▸ hj)

theorem live_exclusive {i j : ℕ} {p : IdempotentCall J} {claim claim' : HeldClaim}
    {req : KeyedRequest} {x : CallInput J} {world' : IdempotencyWorld J}
    (hp : w.procs[i]? = some p) (hlive : LiveClaim w.shared p claim)
    (hq : w.procs[j]? = some (.claiming req))
    (h : resume options w.shared j (.claiming req) x = some (world', .executing req claim')) :
    claim.expiresAt ≤ x.clock := by
  obtain ⟨-, record, hrecord, -, hexp⟩ := (hw.local hp).live hlive
  have hkey : req.coordinate = coordinate := (hw.local hq).keyed
  rcases claimTurn_cases h with ⟨-, -, hrefused⟩ | ⟨-, -,
    ⟨_, -, -, -, ⟨-, hrefused⟩ | ⟨-, hrefused⟩ | ⟨-, _, -, hrefused⟩⟩ | ⟨hexpired, -⟩⟩
  · cases hrefused
  · cases hrefused
  · cases hrefused
  · cases hrefused
  · exact hexp ▸ hexpired record (hkey ▸ hrecord)

theorem mismatch_refused {i : ℕ} {req : KeyedRequest} {record : IdempotencyRecord J}
    {x : CallInput J} {world' : IdempotencyWorld J} {p' : IdempotentCall J}
    (hq : w.procs[i]? = some (.claiming req))
    (hrecord : w.shared.store.idempotency.get? coordinate = some record)
    (hlive : x.clock < record.expiresAt) (hprint : record.fingerprint ≠ req.fingerprint)
    (h : resume options w.shared i (.claiming req) x = some (world', p')) :
    world'.store = w.shared.store ∧ ∃ error, p' = .refused req error ∧
      (validIdempotencyKey req.key = true → error = keyReused req.key) := by
  obtain rfl : req.coordinate = coordinate := (hw.local hq).keyed
  rcases claimTurn_cases h with ⟨hinvalid, rfl, rfl⟩ | ⟨-, -, ⟨found, hfound, -, rfl, hp'⟩ |
    ⟨hexpired, -⟩⟩
  · exact ⟨rfl, _, rfl, fun hvalid => by simp [hinvalid] at hvalid⟩
  · cases hrecord.symm.trans hfound
    rcases hp' with ⟨-, rfl⟩ | ⟨hsame, -⟩ | ⟨hsame, -⟩
    · exact ⟨rfl, _, rfl, fun _ => rfl⟩
    · exact absurd hsame hprint
    · exact absurd hsame hprint
  · exact absurd (hexpired record hrecord) (Nat.not_le.mpr hlive)

theorem replay_answered (hanswered : Answered w) {i : ℕ} {req : KeyedRequest}
    {response : JsonResponse J} (hp : w.procs[i]? = some (.replayed req response)) :
    ∃ (k : ℕ) (owner : KeyedRequest) (claim : HeldClaim) (expiresAt : Timestamp)
      (original : JsonResponse J),
      w.procs[k]? = some (.recorded owner claim expiresAt original) ∧
      owner.fingerprint = req.fingerprint ∧ response.status = original.status ∧
      response.body = original.body ∧
      response.headers = some (replayHeaders original.headers) := by
  obtain ⟨recording, hmem, hprint, rfl⟩ := (hw.local hp).answer response rfl
  obtain ⟨owner, claim, expiresAt, hproc, -, hsame⟩ := hanswered recording hmem
  exact ⟨recording.owner, owner, claim, expiresAt, recording.response, hproc,
    hsame.trans hprint, rfl, rfl, rfl⟩

theorem other_kept {i j : ℕ} {p p' : IdempotentCall J} {claim : HeldClaim}
    {record : IdempotencyRecord J} {x : CallInput J} {world' : IdempotencyWorld J}
    (hp : w.procs[i]? = some p) (hclaim : p.claim = some claim) (hij : i ≠ j)
    (howner : (record.claimId, j) ∈ w.shared.owners)
    (hrecord : w.shared.store.idempotency.get? coordinate = some record)
    (h : resume options w.shared i p x = some (world', p')) :
    world'.store.idempotency.get? coordinate = some record := by
  obtain rfl : p.request.coordinate = coordinate := (hw.local hp).keyed
  refine resume_other hclaim hrecord (fun hsame => hij ?_) h
  exact hw.1.owner_unique ((hw.local hp).owned claim hclaim) (hsame ▸ howner)

/-- A response is recorded under the claim that still holds the key. -/
theorem response_recorded {i : ℕ} {req : KeyedRequest} {claim : HeldClaim}
    {response : JsonResponse J} {record : IdempotencyRecord J} {x : CallInput J}
    (hp : w.procs[i]? = some (.recording req claim response)) (hwritten : x.recordFails = false)
    (hrecord : w.shared.store.idempotency.get? coordinate = some record)
    (hheld : record.claimId = claim.claimId) :
    ∃ world' record',
      resume options w.shared i (.recording req claim response) x =
        some (world', .recorded req claim (x.clock + options.retentionMs) response) ∧
      world'.store.idempotency.get? coordinate = some record' ∧
      record'.claimId = claim.claimId ∧ record'.fingerprint = record.fingerprint ∧
      record'.status = .done ∧ record'.response = some response ∧
      record'.expiresAt = x.clock + options.retentionMs := by
  obtain rfl : req.coordinate = coordinate := (hw.local hp).keyed
  have hown : (w.shared.store.idempotency.get? req.coordinate).any
      (·.claimId = claim.claimId) = true := by simp [hrecord, hheld]
  have hfound : w.shared.store.idempotency.get? (req.scope, req.key) = some record := hrecord
  have hget := MemorySkeinStore.idempotencyRecord_get?
    ⟨response, options.runIdOf response.body, threadIdOf response,
      x.clock + options.retentionMs⟩ x.now hfound
  rw [hheld] at hget
  simp only [resume, recordTurn, hwritten, hown, Bool.false_eq_true, ↓reduceIte]
  exact ⟨_, _, rfl, hget, hheld, rfl, rfl, rfl, rfl⟩

theorem release_frees {i : ℕ} {req : KeyedRequest} {claim : HeldClaim}
    {outcome : Except Thrown (ProtocolResponse J)} (x : CallInput J)
    (hp : w.procs[i]? = some (.releasing req claim outcome)) :
    ∃ world', resume options w.shared i (.releasing req claim outcome) x =
        some (world', .released req claim outcome) ∧
      ∀ record, world'.store.idempotency.get? coordinate = some record →
        record.claimId ≠ claim.claimId ∧
        w.shared.store.idempotency.get? coordinate = some record := by
  obtain rfl : req.coordinate = coordinate := (hw.local hp).keyed
  refine ⟨_, rfl, fun record hrecord => ?_⟩
  have hfound := (w.shared.store.idempotencyRelease_get? req.scope req.key claim.claimId).symm.trans
    hrecord
  rw [Option.filter_eq_some_iff] at hfound
  exact ⟨by simpa using hfound.2, hfound.1⟩

theorem free_claimable {i : ℕ} {req : KeyedRequest} {x : CallInput J}
    (hp : w.procs[i]? = some (.claiming req))
    (hfree : w.shared.store.idempotency.get? coordinate = none)
    (hvalid : validIdempotencyKey req.key = true)
    (hfresh : x.claimId ∉ w.shared.owners.map Prod.fst) :
    ∃ world', resume options w.shared i (.claiming req) x =
      some (world', .executing req ⟨x.claimId, x.clock, x.clock + options.inFlightMs⟩) := by
  obtain rfl : req.coordinate = coordinate := (hw.local hp).keyed
  rcases w.shared.store.idempotencyClaim_cases ⟨req.key, req.scope, req.fingerprint, x.claimId,
      x.clock, x.clock + options.inFlightMs⟩ x.now with ⟨record, hrecord, -⟩ | ⟨record, -, -, hcall⟩
  · cases hfree.symm.trans hrecord
  · simp only [resume, claimTurn, hvalid, if_neg hfresh, hcall]
    exact ⟨_, rfl⟩

end Assembly

/-- Along every interleaving of the requests for one scope and key with the rest of the
server, the key keeps its promises. -/
theorem runs_once (options : IdempotencyOptions J) (coordinate : String × String)
    {store : MemorySkeinStore J} (hstore : store.idempotency.get? coordinate = none)
    {w : Pool (IdempotencyWorld J) (IdempotentCall J)}
    {as : List (Action (IdempotencyEvent J) (IdempotentCall J) (CallInput J))}
    (h : (program options coordinate).machine.run ⟨{ store }, []⟩ as = some w) :
    RunsOnce options coordinate w := by
  have hstart : IdempotencyWorld.Safe coordinate ({ store } : IdempotencyWorld J) :=
    { owners := List.nodup_nil
      owned := fun record hrecord => by cases hstore.symm.trans hrecord
      sourced := fun record _ hrecord => by cases hstore.symm.trans hrecord }
  have hall : (program options coordinate).machine.Along (fun _ _ => True) ⟨{ store }, []⟩ as :=
    Machine.along_of_steps h fun _ _ _ _ _ _ _ => trivial
  have hw := (interferenceFree options coordinate).run (Pool.holds_empty hstart) hall h
  have hanswered : Answered w :=
    Machine.run_invariant (fun _ _ _ hs ht => hs.step ht) (s := ⟨{ store }, []⟩) nofun h
  refine ⟨?_, ?_, ?_, ?_, ?_, ?_, ?_, ?_, ?_, ?_, ?_, ?_, ?_, ?_, ?_, ?_⟩
  · exact fun i j p q claim claim' hp hq => live_unique hw hp hq
  · exact fun i j p claim req x world' claim' hp hlive hq => live_exclusive hw hp hlive hq
  · exact fun i req record x world' p' hq => mismatch_refused hw hq
  · exact fun i req response hp => replay_answered hw hanswered hp
  · exact fun i j p claim record x world' p' hp => other_kept hw hp
  · exact fun i req claim x _ hfailed hrescue => failed_releases hfailed hrescue
  · intro i req claim error x _ hnone
    have hrun : (w.shared.store.idempotencyGet ("admission " ++ req.scope) req.key).bind
        IdempotencyRecord.runId = none := Option.bind_eq_none_iff.mpr hnone
    simp only [resume, hrun]
  · intro i req claim error runId x _ hgone
    simp only [resume, hgone]
  · intro i req claim error x _ hthrown hname hadmission
    simp only [resume, hthrown, hname, hadmission, and_self, ↓reduceIte]
  · intro i req claim error record runId x _ hrecord hrun
    simp only [resume, hrecord, Option.bind_some, hrun]
  · intro i req claim error runId x _ hallowed
    simp only [resume, hallowed]
  · intro i req claim error runId run x _ hrun
    simp only [resume, hrun, respond, runResponse]
    rfl
  · exact fun i req claim response record x hp => response_recorded hw hp
  · exact fun i req claim outcome x hp => release_frees hw x hp
  · exact fun i req claim outcome record hp => (hw.local hp).freed claim record rfl
  · exact fun i req x hp => free_claimable hw hp

/-- Bodies are numbers, and a run's body is 7. -/
def options : IdempotencyOptions ℕ where
  retentionMs := 1000
  inFlightMs := 100
  runIdOf := fun _ => none
  runBody := fun _ => .json 7

def waitRequest : KeyedRequest :=
  ⟨.createWaitRun, "POST /runs/wait alice", "key", "fingerprint"⟩

/-- The first request answers 5, its retry is authorized, and the key comes again with
another body. -/
def retried : List (Action (IdempotencyEvent ℕ) (IdempotentCall ℕ) (CallInput ℕ)) :=
  [.spawn (.claiming waitRequest), .resume 0 { clock := 1, now := 1, claimId := "c0" },
    .resume 0 { clock := 2, now := 2, handler := .ok (.json { status := 200, body := .json 5 }) },
    .resume 0 { clock := 3, now := 3 }, .spawn (.claiming waitRequest),
    .resume 1 { clock := 200, now := 200, claimId := "c1" }, .resume 1 { clock := 201, now := 201 },
    .spawn (.claiming { waitRequest with fingerprint := "other" }),
    .resume 2 { clock := 300, now := 300, claimId := "c2" }]

/-- The world after that schedule. -/
def retriedPool : Pool (IdempotencyWorld ℕ) (IdempotentCall ℕ) :=
  ((program options waitRequest.coordinate).machine.run ⟨{ store := {} }, []⟩ retried).getD
    ⟨{ store := {} }, []⟩

theorem retried_runs_once :
    RunsOnce options waitRequest.coordinate retriedPool ∧
      retriedPool.procs = [
        .recorded waitRequest ⟨"c0", 1, 101⟩ 1003 { status := 200, body := .json 5 },
        .replayed waitRequest
          { status := 200, body := .json 5, headers := some [("idempotent-replay", "true")] },
        .refused { waitRequest with fingerprint := "other" } (keyReused "key")] :=
  ⟨runs_once options waitRequest.coordinate rfl
    (show (program options waitRequest.coordinate).machine.run ⟨{ store := {} }, []⟩ retried =
      some retriedPool from rfl), rfl⟩

/-- The last promise without its exception: once a request whose handler failed has ended,
its claim no longer holds the key. -/
def FailureFreesKey (options : IdempotencyOptions J) (coordinate : String × String) : Prop :=
  ∀ (store : MemorySkeinStore J) (w w' : Pool (IdempotencyWorld J) (IdempotentCall J))
    (as later : List (Action (IdempotencyEvent J) (IdempotentCall J) (CallInput J)))
    (i : ℕ) (req : KeyedRequest) (claim : HeldClaim) (x : CallInput J),
    store.idempotency.get? coordinate = none →
    (program options coordinate).machine.run ⟨{ store }, []⟩ as = some w →
    w.procs[i]? = some (.executing req claim) → HandlerFailed x.handler →
    (program options coordinate).machine.run w (.resume i x :: later) = some w' →
    (∀ q y, w'.procs[i]? = some q → resume options w'.shared i q y = none) →
    ∀ record, w'.shared.store.idempotency.get? coordinate = some record →
      record.claimId ≠ claim.claimId

def backgroundRequest : KeyedRequest :=
  ⟨.createBackgroundRun, "POST /threads/t/runs alice", "key", "fingerprint"⟩

/-- One idle thread. -/
def threadStore : MemorySkeinStore ℕ :=
  (({} : MemorySkeinStore ℕ).threadsCreate { threadId := some (.of "t") } (.of "t") 0).2

/-- The handler's own admission of its run, under the operation's key. -/
def admitted : MemorySkeinStore ℕ :=
  (threadStore.admitRun
    { scope := "admission POST /threads/t/runs alice", key := "key", fingerprint := "fingerprint"
      now := 2, expiresAt := 1002
      run := { threadId := .of "t", assistantId := .of "agent", runId := some (.of "run") } }
    ⟨.of "run", "uuid", fun _ => .of "delivery", 2⟩).2

/-- The request claims its key, and its handler gets its run admitted. -/
def admits : List (Action (IdempotencyEvent ℕ) (IdempotentCall ℕ) (CallInput ℕ)) :=
  [.spawn (.claiming backgroundRequest), .resume 0 { clock := 1, now := 1, claimId := "c0" },
    .env (.elsewhere admitted)]

/-- The handler then throws, for the queue is away. -/
def queueAway : CallInput ℕ :=
  { clock := 3, now := 3, handler := .error (.http ⟨503, "queue unavailable", none⟩) }

/-- The accepted run is found, authorized, read and recorded. -/
def rescued : List (Action (IdempotencyEvent ℕ) (IdempotentCall ℕ) (CallInput ℕ)) :=
  [.resume 0 { clock := 4, now := 4 }, .resume 0 { clock := 5, now := 5 },
    .resume 0 { clock := 6, now := 6 }, .resume 0 { clock := 7, now := 7 }]

/-- The world after a schedule. -/
def after (w : Pool (IdempotencyWorld ℕ) (IdempotentCall ℕ))
    (turns : List (Action (IdempotencyEvent ℕ) (IdempotentCall ℕ) (CallInput ℕ))) :
    Pool (IdempotencyWorld ℕ) (IdempotentCall ℕ) :=
  ((program options backgroundRequest.coordinate).machine.run w turns).getD w

/-- The record of the failed request still holds its key. -/
theorem acceptedRun_keeps_key : ¬ FailureFreesKey options backgroundRequest.coordinate := by
  intro hfrees
  have hbefore : (program options backgroundRequest.coordinate).machine.run
      ⟨{ store := threadStore }, []⟩ admits = some (after ⟨{ store := threadStore }, []⟩ admits) :=
    rfl
  have hafter : (program options backgroundRequest.coordinate).machine.run
      (after ⟨{ store := threadStore }, []⟩ admits) (.resume 0 queueAway :: rescued) =
        some (after (after ⟨{ store := threadStore }, []⟩ admits) (.resume 0 queueAway :: rescued)) :=
    rfl
  refine hfrees threadStore _ _ admits rescued 0 backgroundRequest ⟨"c0", 1, 101⟩ queueAway rfl
    hbefore rfl trivial hafter ?_ _ rfl rfl
  rintro q y ⟨⟩
  rfl

end IdempotentHandlers
end Skein
