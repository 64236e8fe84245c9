import Mathlib.Data.Nat.Basic
import Mathlib.Logic.Equiv.Basic
import Mathlib.Algebra.Group.End
import Mathlib.Tactic.SplitIfs
import Skein.AdmissionHistory
import Skein.InboundEvents

/-!
# One run for an event

The claim token is a digest of the event, so all attempts to handle one event share it, and
a stalled attempt that comes back after its claim was taken over settles the claim of the
attempt that took over. What the pipeline promises holds along the runs in which that does
not happen. The assertion about an attempt is that the record of the key is its own as long
as it was granted the claim last, and that its claim has expired otherwise; the admission
key keeps the runs apart.
-/
namespace Skein

namespace IdempotencyWorld
variable {J : Type*}

theorem keeping_get? (store other : MemorySkeinStore J) (coordinate c : String × String) :
    (keeping store other coordinate).get? c =
      if coordinate = c then store.idempotency.get? coordinate else other.idempotency.get? c := by
  unfold keeping
  split
  next hnone =>
    rw [Table.get?_erase, hnone]
  next record hrecord =>
    rw [Table.get?_write, hrecord, Table.key_of_get? hrecord]

end IdempotencyWorld

namespace InboundAttempt
variable {J : Type*}

def rawBody : InboundAttempt J → String
  | .claiming rawBody | .ensuring rawBody _ | .planning rawBody _ _ | .creating rawBody _ _
  | .recording rawBody _ _ | .releasing rawBody _ _ | .acknowledged rawBody _ _ _
  | .released rawBody _ _ | .abandoned rawBody _ _ | .replayed rawBody _
  | .refused rawBody _ => rawBody

/-- When the claim of an attempt that has neither recorded nor released it was granted. -/
def unsettled : InboundAttempt J → Option Timestamp
  | .ensuring _ claimedAt | .planning _ claimedAt _ | .creating _ claimedAt _
  | .recording _ claimedAt _ | .releasing _ claimedAt _ | .abandoned _ claimedAt _ =>
    some claimedAt
  | _ => none

/-- The next turn settles the claim. -/
def settling : InboundAttempt J → Bool
  | .recording .. | .releasing .. => true
  | _ => false

/-- The run an attempt has been told of. -/
def run : InboundAttempt J → Option RunId
  | .recording _ _ runId | .acknowledged _ _ runId _ => some runId
  | _ => none

/-- What an attempt answers with success. -/
def answer (p : InboundPipeline J) : InboundAttempt J → Option (JsonResponse J)
  | .acknowledged _ _ runId _ => some (p.response runId)
  | .replayed _ response => some response
  | _ => none

end InboundAttempt

namespace InboundWorld
variable {J : Type*}

/-- The attempt that was granted the claim last. -/
def Latest (world : InboundWorld J) (i : ℕ) : Prop := world.granted.head? = some i

/-- The claim of an attempt was taken over by a later one. -/
def Superseded (world : InboundWorld J) (i : ℕ) : Prop := i ∈ world.granted ∧ ¬ world.Latest i

instance (world : InboundWorld J) (i : ℕ) : Decidable (world.Latest i) :=
  inferInstanceAs (Decidable (world.granted.head? = some i))

theorem latest_unique {world : InboundWorld J} {i j : ℕ} (hi : world.Latest i)
    (hj : world.Latest j) : i = j := Option.some.inj (hi.symm.trans hj)

end InboundWorld

namespace InboundPipeline
variable {J : Type*} (p : InboundPipeline J)

/-- The record of the event key. -/
def record (world : InboundWorld J) : Option (IdempotencyRecord J) :=
  world.store.idempotency.get? (p.scope, p.key)

/-- The record of the admission key inside it. -/
def receipt (world : InboundWorld J) : Option (IdempotencyRecord J) :=
  world.store.idempotency.get? (p.admissionScope, p.key)

/-- The record a claim granted at `claimedAt` writes, as far as it is compared. -/
structure Granted (rawBody : String) (claimedAt : Timestamp) (record : IdempotencyRecord J) :
    Prop where
  status : record.status = .inFlight
  claimId : record.claimId = p.claimId rawBody
  fingerprint : record.fingerprint = p.fingerprintOf rawBody
  expiresAt : record.expiresAt = claimedAt + p.inFlightMs

/-- An attempt is past its claim and unsettled, and the claim has not expired. -/
def Holds (world : InboundWorld J) (attempt : InboundAttempt J) : Prop :=
  ∃ claimedAt, attempt.unsettled = some claimedAt ∧ world.clock < claimedAt + p.inFlightMs

/-- What is promised of every state: one attempt at a time holds the claim, the claim granted
last stands as it was granted, a run is created after the retention of every earlier one, and
whoever is answered with success is answered with a run of its own bytes. -/
structure HandledOnce (w : Pool (InboundWorld J) (InboundAttempt J)) : Prop where
  exclusive : ∀ (i j : ℕ) a b, w.procs[i]? = some a → w.procs[j]? = some b →
    p.Holds w.shared a → p.Holds w.shared b → i = j
  stands : ∀ (i : ℕ) a claimedAt, w.procs[i]? = some a → a.unsettled = some claimedAt →
    w.shared.Latest i → w.shared.clock < claimedAt + p.inFlightMs →
    ∃ record, p.record w.shared = some record ∧ p.Granted a.rawBody claimedAt record
  single : w.shared.created.Pairwise fun later earlier => earlier.expiresAt ≤ later.createdAt
  named : ∀ a ∈ w.procs, ∀ response, a.answer p = some response →
    ∃ run ∈ w.shared.created, run.rawBody = a.rawBody ∧ response = p.response run.runId

/-- What is promised of every turn: an unsettled attempt whose claim was taken over leaves the
record alone. -/
def Fenced (w w' : Pool (InboundWorld J) (InboundAttempt J)) :
    Action (InboundSurroundings J) (InboundAttempt J) (InboundInput J) → Prop
  | .resume i _ => ∀ a claimedAt, w.procs[i]? = some a → a.unsettled = some claimedAt →
      w.shared.Superseded i → p.record w'.shared = p.record w.shared
  | _ => True

/-- No attempt whose claim was taken over comes to settle it while the key is held under the
token of its event. -/
def Unhindered (w : Pool (InboundWorld J) (InboundAttempt J)) :
    Action (InboundSurroundings J) (InboundAttempt J) (InboundInput J) → Prop
  | .resume i _ => w.shared.Superseded i → ∀ a, w.procs[i]? = some a → a.settling = true →
      ∀ record, p.record w.shared = some record → record.claimId ≠ p.claimId a.rawBody
  | _ => True

/-- The runs created so far and the two records. -/
structure Inv (world : InboundWorld J) : Prop where
  single : world.created.Pairwise fun later earlier => earlier.expiresAt ≤ later.createdAt
  past : ∀ run ∈ world.created, run.createdAt ≤ world.clock
  covered : ∀ run ∈ world.created, run.expiresAt ≤ world.clock ∨
    ∃ record, p.receipt world = some record ∧ record.expiresAt = run.expiresAt
  receipts : ∀ record, p.receipt world = some record → ∃ run ∈ world.created,
    record.runId = some run.runId ∧ record.fingerprint = p.fingerprintOf run.rawBody
  sourced : ∀ record response, p.record world = some record → record.response = some response →
    ∃ run ∈ world.created, record.fingerprint = p.fingerprintOf run.rawBody ∧
      response = p.response run.runId

/-- What an attempt relies on. -/
structure Local (world : InboundWorld J) (i : ℕ) (a : InboundAttempt J) : Prop where
  granted : ∀ claimedAt, a.unsettled = some claimedAt → i ∈ world.granted
  past : ∀ claimedAt, a.unsettled = some claimedAt → claimedAt ≤ world.clock
  holding : ∀ claimedAt, a.unsettled = some claimedAt → world.Latest i →
    ∀ record, p.record world = some record → p.Granted a.rawBody claimedAt record
  expired : ∀ claimedAt, a.unsettled = some claimedAt →
    (world.Latest i → p.record world = none) → claimedAt + p.inFlightMs ≤ world.clock
  named : ∀ runId, a.run = some runId → ∃ run ∈ world.created,
    p.fingerprintOf run.rawBody = p.fingerprintOf a.rawBody ∧ run.runId = runId
  answered : ∀ response, a.answer p = some response → ∃ run ∈ world.created,
    p.fingerprintOf run.rawBody = p.fingerprintOf a.rawBody ∧ response = p.response run.runId

end InboundPipeline

namespace MemorySkeinStore
variable {J : Type*} [WireJson J]

/-- An admission throws, is answered from its receipt, or inserts a run and records it. -/
theorem admitRun_keyed (store : MemorySkeinStore J) (input : RunAdmission J)
    (draws : AdmissionDraws) :
    (∃ e store', store.admitRun input draws = (.error e, store') ∧
      store'.idempotency = store.idempotency) ∨
    (∃ receipt, store.replayAdmission input.toAdmissionKey = .ok (some receipt) ∧
      store.admitRun input draws = (.ok receipt, store)) ∨
    (∃ receipt store' run, store.replayAdmission input.toAdmissionKey = .ok none ∧
      store.admitRun input draws = (.ok receipt, store') ∧ receipt.runId = run.runId ∧
      store.runs.contains run.runId = false ∧ store'.runs.contains run.runId = true ∧
      store'.idempotency =
        store.idempotency.write (admissionRecord input.toAdmissionKey run draws.claimUuid)) := by
  cases hdone : store.admitRun input draws with
  | mk result store' =>
    cases result with
    | error e => exact .inl ⟨e, store', rfl, admitRun_error_idempotency hdone⟩
    | ok receipt =>
      rcases admitRun_ok hdone with ⟨hreplay, rfl⟩ |
        ⟨hnew, prepared, displaced, guarded, mid, run, -, hresume, hcommitted⟩
      · exact .inr (.inl ⟨receipt, hreplay, rfl⟩)
      · have hruns : guarded.runs = store.runs := by
          rw [← store.resumeGuard_runs input.expectedRunId prepared.threadId, hresume]
        have hidempotency : guarded.idempotency = store.idempotency := by
          rw [← store.resumeGuard_idempotency input.expectedRunId prepared.threadId, hresume]
        refine .inr (.inr ⟨receipt, store', run, hnew, rfl, by rw [hcommitted.receipt], ?_, ?_, ?_⟩)
        · rw [← hruns]
          exact hcommitted.unused
        · rw [hcommitted.runs]
          simp [OrderedMap.contains, Table.get?_write]
        · rw [hcommitted.idempotency]
          simp [recordAdmission, hidempotency]

omit [WireJson J] in
/-- A fresh admission finds no receipt, or one that has expired. -/
theorem replayAdmission_none {store : MemorySkeinStore J} {input : AdmissionKey}
    (h : store.replayAdmission input = .ok none) {record : IdempotencyRecord J}
    (hrecord : store.idempotency.get? input.coordinate = some record) :
    record.expiresAt ≤ input.now := by
  unfold replayAdmission at h
  rw [hrecord] at h
  dsimp only at h
  split_ifs at h with hexpired
  · exact hexpired
  · split at h <;> cases h

end MemorySkeinStore

namespace InboundPipeline
variable {J : Type*} (p : InboundPipeline J)

/-- The two records of an event key are different ones. -/
theorem admissionScope_ne : (p.admissionScope, p.key) ≠ (p.scope, p.key) := by
  intro h
  have hscope : p.admissionScope = p.scope := congrArg Prod.fst h
  have hlength := congrArg String.length hscope
  unfold admissionScope at hlength
  rw [String.length_append] at hlength
  have hprefix : "admission ".length = 10 := rfl
  omega

variable {p} {world world' : InboundWorld J}

/-- What a turn of the surroundings or of another attempt leaves to attempt `j`. -/
structure Beside (p : InboundPipeline J) (world world' : InboundWorld J) (j : ℕ) : Prop where
  clock : world.clock ≤ world'.clock
  granted : world.granted ⊆ world'.granted
  created : world.created ⊆ world'.created
  kept : world'.Latest j → world.Latest j ∧
    ∀ record, p.record world' = some record → p.record world = some record
  lost : (world'.Latest j → p.record world' = none) → world.Latest j →
    ∀ record, p.record world = some record → record.expiresAt ≤ world'.clock

/-- A turn that leaves claims and record alone. -/
theorem Beside.of_record (j : ℕ) (hclock : world.clock ≤ world'.clock)
    (hgranted : world'.granted = world.granted) (hcreated : world.created ⊆ world'.created)
    (hrecord : p.record world' = p.record world) : p.Beside world world' j where
  clock := hclock
  granted := hgranted ▸ List.Subset.refl _
  created := hcreated
  kept := by
    intro hlatest
    rw [InboundWorld.Latest, hgranted] at hlatest
    exact ⟨hlatest, fun record h => hrecord ▸ h⟩
  lost := by
    intro hnone hlatest record hsome
    rw [InboundWorld.Latest, hgranted, hrecord] at hnone
    rw [hnone hlatest] at hsome
    cases hsome

theorem Local.beside {j : ℕ} {a : InboundAttempt J} (h : p.Local world j a)
    (hb : p.Beside world world' j) : p.Local world' j a where
  granted := fun claimedAt ha => hb.granted (h.granted claimedAt ha)
  past := fun claimedAt ha => Nat.le_trans (h.past claimedAt ha) hb.clock
  holding := by
    intro claimedAt ha hlatest record hrecord
    obtain ⟨hold, hsame⟩ := hb.kept hlatest
    exact h.holding claimedAt ha hold record (hsame record hrecord)
  expired := by
    intro claimedAt ha hnone
    by_cases hstanding : world.Latest j → p.record world = none
    · exact Nat.le_trans (h.expired claimedAt ha hstanding) hb.clock
    · obtain ⟨hlatest, hsome⟩ := Classical.not_imp.mp hstanding
      obtain ⟨record, hrecord⟩ := Option.ne_none_iff_exists'.mp hsome
      rw [← (h.holding claimedAt ha hlatest record hrecord).expiresAt]
      exact hb.lost hnone hlatest record hrecord
  named := by
    intro runId ha
    obtain ⟨run, hrun, hnamed⟩ := h.named runId ha
    exact ⟨run, hb.created hrun, hnamed⟩
  answered := by
    intro response ha
    obtain ⟨run, hrun, hanswered⟩ := h.answered response ha
    exact ⟨run, hb.created hrun, hanswered⟩

/-- An attempt moves on under the claim it has. -/
theorem Local.advance {i : ℕ} {a a' : InboundAttempt J} (h : p.Local world i a)
    (hbody : a'.rawBody = a.rawBody)
    (hunsettled : ∀ claimedAt, a'.unsettled = some claimedAt → a.unsettled = some claimedAt)
    (hnamed : ∀ runId, a'.run = some runId → ∃ run ∈ world.created,
      p.fingerprintOf run.rawBody = p.fingerprintOf a.rawBody ∧ run.runId = runId)
    (hanswered : ∀ response, a'.answer p = some response → ∃ run ∈ world.created,
      p.fingerprintOf run.rawBody = p.fingerprintOf a.rawBody ∧
        response = p.response run.runId) : p.Local world i a' where
  granted := fun claimedAt ha => h.granted claimedAt (hunsettled claimedAt ha)
  past := fun claimedAt ha => h.past claimedAt (hunsettled claimedAt ha)
  holding := fun claimedAt ha => hbody ▸ h.holding claimedAt (hunsettled claimedAt ha)
  expired := fun claimedAt ha => h.expired claimedAt (hunsettled claimedAt ha)
  named := hbody ▸ hnamed
  answered := hbody ▸ hanswered

/-- A turn that creates no run and at most lets records expire. -/
theorem Inv.lapse (h : p.Inv world) (hclock : world.clock ≤ world'.clock)
    (hcreated : world'.created = world.created)
    (hrecord : ∀ record, p.record world' = some record → p.record world = some record)
    (hreceipt : ∀ record, p.receipt world' = some record → p.receipt world = some record)
    (hkept : ∀ record, p.receipt world = some record →
      p.receipt world' = some record ∨ record.expiresAt ≤ world'.clock) : p.Inv world' where
  single := hcreated ▸ h.single
  past := by
    intro run hrun
    exact Nat.le_trans (h.past run (hcreated ▸ hrun)) hclock
  covered := by
    intro run hrun
    rcases h.covered run (hcreated ▸ hrun) with hpast | ⟨record, hstored, hexpires⟩
    · exact .inl (Nat.le_trans hpast hclock)
    · rcases hkept record hstored with hkept | hexpired
      · exact .inr ⟨record, hkept, hexpires⟩
      · exact .inl (hexpires ▸ hexpired)
  receipts := fun record hstored => hcreated ▸ h.receipts record (hreceipt record hstored)
  sourced := fun record response hstored =>
    hcreated ▸ h.sourced record response (hrecord record hstored)

/-- The surroundings let records expire and leave them alone otherwise. -/
theorem surroundings_cases {e : InboundSurroundings J} (h : p.surroundings world e = some world') :
    world.clock ≤ world'.clock ∧ world'.granted = world.granted ∧
      world'.created = world.created ∧
      ((p.record world' = p.record world ∧ p.receipt world' = p.receipt world) ∨
        (p.record world' = (p.record world).filter (world'.clock < ·.expiresAt) ∧
          p.receipt world' = (p.receipt world).filter (world'.clock < ·.expiresAt))) := by
  cases e with
  | elapse ms =>
    cases h
    exact ⟨Nat.le_add_right _ _, rfl, rfl, .inl ⟨rfl, rfl⟩⟩
  | sweepExpired =>
    cases h
    exact ⟨Nat.le_refl _, rfl, rfl, .inr ⟨Table.get?_filter _ _ _, Table.get?_filter _ _ _⟩⟩
  | elsewhere store =>
    cases h
    refine ⟨Nat.le_refl _, rfl, rfl, .inl ⟨?_, ?_⟩⟩
    · unfold record
      simp [IdempotencyWorld.keeping_get?, p.admissionScope_ne]
    · unfold receipt
      simp [IdempotencyWorld.keeping_get?]

/-- What one turn of attempt `i` keeps, as `a` becomes `a'`. -/
structure Turn (p : InboundPipeline J) (world world' : InboundWorld J) (i : ℕ)
    (a a' : InboundAttempt J) : Prop where
  inv : p.Inv world'
  mine : p.Local world' i a'
  others : ∀ j, j ≠ i → p.Beside world world' j
  fenced : ∀ claimedAt, a.unsettled = some claimedAt → world.Superseded i →
    p.record world' = p.record world

/-- A turn that only moves the attempt on. -/
theorem Turn.of_advance {i : ℕ} {a a' : InboundAttempt J} (hinv : p.Inv world)
    (h : p.Local world i a) (hbody : a'.rawBody = a.rawBody)
    (hunsettled : ∀ claimedAt, a'.unsettled = some claimedAt → a.unsettled = some claimedAt)
    (hrun : a'.run = none) (hanswer : a'.answer p = none) : p.Turn world world i a a' where
  inv := hinv
  mine := h.advance hbody hunsettled (by simp [hrun]) (by simp [hanswer])
  others := fun j _ => .of_record j (Nat.le_refl _) rfl (List.Subset.refl _) rfl
  fenced := fun _ _ _ => rfl

/-- A claim is granted over nothing or an expired record, or it is answered from the live one. -/
theorem claimTurn_cases (p : InboundPipeline J) (world : InboundWorld J) (i : ℕ)
    (rawBody : String) (now : Timestamp) :
    (∃ record store, p.claimTurn world i rawBody now =
        ({ world with store, granted := i :: world.granted }, .ensuring rawBody world.clock) ∧
      store.idempotency = world.store.idempotency.write record ∧
      record.coordinate = (p.scope, p.key) ∧ p.Granted rawBody world.clock record ∧
      record.response = none ∧
      ∀ old, p.record world = some old → old.expiresAt ≤ world.clock) ∨
    (∃ error, p.claimTurn world i rawBody now = (world, .refused rawBody error)) ∨
    (∃ record response, p.record world = some record ∧
      record.fingerprint = p.fingerprintOf rawBody ∧ record.response = some response ∧
      p.claimTurn world i rawBody now =
        (world, .replayed rawBody { status := response.status, body := response.body })) := by
  unfold claimTurn
  rcases world.store.idempotencyClaim_cases (p.eventClaim rawBody world.clock) now with
    ⟨record, hstored, -, hrefused⟩ | ⟨record, hold, hrecord, hgranted⟩
  · rw [hrefused]
    dsimp only
    by_cases hfingerprint : record.fingerprint = p.fingerprintOf rawBody
    · rw [if_neg (by simpa using hfingerprint)]
      split
      next response _ hresponse =>
        exact .inr (.inr ⟨record, response, hstored, hfingerprint, hresponse, rfl⟩)
      · exact .inr (.inl ⟨_, rfl⟩)
    · rw [if_pos hfingerprint]
      exact .inr (.inl ⟨_, rfl⟩)
  · rw [hgranted]
    refine .inl ⟨record, _, rfl, rfl, ?_, ?_, ?_, hold⟩ <;> subst hrecord
    · rfl
    · exact ⟨rfl, rfl, rfl, rfl⟩
    · rfl

theorem claimTurn_turn {i : ℕ} {rawBody : String} (hinv : p.Inv world)
    (h : p.Local world i (.claiming rawBody)) (now : Timestamp) :
    p.Turn world (p.claimTurn world i rawBody now).1 i (.claiming rawBody)
      (p.claimTurn world i rawBody now).2 := by
  rcases p.claimTurn_cases world i rawBody now with
    ⟨record, store, hturn, hwrite, hcoordinate, hgranted, hresponse, hold⟩ |
    ⟨error, hturn⟩ | ⟨record, response, hstored, hfingerprint, hresponse, hturn⟩
  · rw [hturn]
    dsimp only
    have hrecord : p.record { world with store, granted := i :: world.granted } = some record := by
      unfold InboundPipeline.record
      rw [hwrite, Table.get?_write, if_pos hcoordinate]
    have hreceipt : p.receipt { world with store, granted := i :: world.granted } =
        p.receipt world := by
      unfold receipt
      rw [hwrite, Table.get?_write, if_neg]
      rw [hcoordinate]
      exact p.admissionScope_ne.symm
    exact {
      inv := {
        single := hinv.single
        past := hinv.past
        covered := by
          rw [hreceipt]
          exact hinv.covered
        receipts := by
          rw [hreceipt]
          exact hinv.receipts
        sourced := by
          intro found response hfound hsome
          rw [hrecord] at hfound
          cases hfound
          rw [hresponse] at hsome
          cases hsome }
      mine := {
        granted := fun _ _ => List.mem_cons_self
        past := fun _ hclaimed => Nat.le_of_eq (Option.some.inj hclaimed).symm
        holding := by
          intro claimedAt hclaimed _ found hfound
          rw [hrecord] at hfound
          cases hfound
          cases hclaimed
          exact hgranted
        expired := by
          intro claimedAt _ hnone
          rw [hnone rfl] at hrecord
          cases hrecord
        named := fun _ hrun => (by cases hrun)
        answered := fun _ hanswer => (by cases hanswer) }
      others := fun j hj => {
        clock := Nat.le_refl _
        granted := List.subset_cons_self _ _
        created := List.Subset.refl _
        kept := fun hlatest => absurd (Option.some.inj hlatest).symm hj
        lost := fun _ _ => hold }
      fenced := fun _ hclaimed => (by cases hclaimed) }
  · rw [hturn]
    exact .of_advance hinv h rfl (fun _ h => (by cases h)) rfl rfl
  · rw [hturn]
    exact {
      inv := hinv
      mine := h.advance rfl (fun _ h => (by cases h)) (fun _ h => (by cases h)) (by
        rintro answer hanswer
        cases hanswer
        obtain ⟨run, hrun, hsource, rfl⟩ := hinv.sourced record response hstored hresponse
        exact ⟨run, hrun, hsource.symm.trans hfingerprint, rfl⟩)
      others := fun j _ => .of_record j (Nat.le_refl _) rfl (List.Subset.refl _) rfl
      fenced := fun _ _ _ => rfl }

/-- A turn under which an attempt settles what is its own, or settles nothing. -/
theorem Turn.of_settle {i : ℕ} {a a' : InboundAttempt J} {store : MemorySkeinStore J}
    (hinv : p.Inv world) (h : p.Local world i a) {claimedAt : Timestamp}
    (hclaimed : a.unsettled = some claimedAt) (hbody : a'.rawBody = a.rawBody)
    (hsettled : a'.unsettled = none) (hrun : ∀ runId, a'.run = some runId → a.run = some runId)
    (hanswer : ∀ response, a'.answer p = some response →
      ∃ runId, a.run = some runId ∧ response = p.response runId)
    (hreceipt : p.receipt { world with store } = p.receipt world)
    (hfenced : world.Superseded i → p.record { world with store } = p.record world)
    (hsourced : world.Latest i → ∀ record response,
      p.record { world with store } = some record → record.response = some response →
      ∃ run ∈ world.created, record.fingerprint = p.fingerprintOf run.rawBody ∧
        response = p.response run.runId) :
    p.Turn world { world with store } i a a' := by
  have hmember := h.granted claimedAt hclaimed
  exact {
    inv := {
      single := hinv.single
      past := hinv.past
      covered := by
        rw [hreceipt]
        exact hinv.covered
      receipts := by
        rw [hreceipt]
        exact hinv.receipts
      sourced := by
        intro record response hrecord hresponse
        by_cases hlatest : world.Latest i
        · exact hsourced hlatest record response hrecord hresponse
        · rw [hfenced ⟨hmember, hlatest⟩] at hrecord
          exact hinv.sourced record response hrecord hresponse }
    mine := {
      granted := fun _ ha => (by rw [hsettled] at ha; cases ha)
      past := fun _ ha => (by rw [hsettled] at ha; cases ha)
      holding := fun _ ha => (by rw [hsettled] at ha; cases ha)
      expired := fun _ ha => (by rw [hsettled] at ha; cases ha)
      named := fun runId ha => hbody ▸ h.named runId (hrun runId ha)
      answered := by
        intro response ha
        obtain ⟨runId, hrunId, rfl⟩ := hanswer response ha
        obtain ⟨run, hcreated, hsource, rfl⟩ := h.named runId hrunId
        exact ⟨run, hcreated, hbody ▸ hsource, rfl⟩ }
    others := by
      intro j hj
      by_cases hlatest : world.Latest i
      · have hnot : ¬ world.Latest j := fun hj' => hj (InboundWorld.latest_unique hj' hlatest)
        exact {
          clock := Nat.le_refl _
          granted := List.Subset.refl _
          created := List.Subset.refl _
          kept := fun h => absurd h hnot
          lost := fun _ h => absurd h hnot }
      · exact .of_record j (Nat.le_refl _) rfl (List.Subset.refl _) (hfenced ⟨hmember, hlatest⟩)
    fenced := fun _ _ => hfenced }

theorem recordTurn_turn {i : ℕ} {rawBody : String} {claimedAt : Timestamp} {runId : RunId}
    (hinv : p.Inv world) (h : p.Local world i (.recording rawBody claimedAt runId))
    (hfree : world.Superseded i → ∀ record, p.record world = some record →
      record.claimId ≠ p.claimId rawBody) (now : Timestamp) :
    p.Turn world (p.recordTurn world rawBody claimedAt runId now).1 i
      (.recording rawBody claimedAt runId)
      (p.recordTurn world rawBody claimedAt runId now).2 := by
  unfold recordTurn
  dsimp only
  rcases world.store.idempotencyRecord_cases p.scope p.key (p.claimId rawBody)
    { response := p.response runId
      runId := some runId
      threadId := some (p.resolveThread rawBody)
      expiresAt := world.clock + p.retentionMs } now with
    ⟨-, hnothing⟩ | ⟨existing, hexisting, hown, hdone⟩
  · rw [hnothing]
    exact .of_settle hinv h rfl rfl rfl (fun _ ha => ha)
      (fun _ ha => ⟨runId, rfl, (Option.some.inj ha).symm⟩) rfl (fun _ => rfl)
      (fun _ => hinv.sourced)
  · rw [hdone]
    have hkey := Table.key_of_get? hexisting
    refine .of_settle hinv h rfl rfl rfl (fun _ ha => ha)
      (fun _ ha => ⟨runId, rfl, (Option.some.inj ha).symm⟩) ?_
      (fun hover => absurd hown (hfree hover existing hexisting)) ?_
    · unfold receipt
      dsimp only
      rw [Table.get?_write, if_neg]
      intro heq
      exact p.admissionScope_ne (heq.symm.trans hkey)
    · intro hlatest record response hrecord hresponse
      have hwritten : (world.store.idempotency.write
          (MemorySkeinStore.recordedRecord existing _ now)).get? (p.scope, p.key) =
            some record := hrecord
      rw [Table.get?_write, if_pos (by exact hkey)] at hwritten
      cases hwritten
      cases hresponse
      obtain ⟨run, hrun, hsource, rfl⟩ := h.named runId rfl
      have hfingerprint := (h.holding claimedAt rfl hlatest existing hexisting).fingerprint
      exact ⟨run, hrun, hfingerprint.trans hsource.symm, rfl⟩

theorem releaseTurn_turn {i : ℕ} {rawBody : String} {claimedAt : Timestamp} {error : Thrown}
    (hinv : p.Inv world) (h : p.Local world i (.releasing rawBody claimedAt error))
    (hfree : world.Superseded i → ∀ record, p.record world = some record →
      record.claimId ≠ p.claimId rawBody) :
    p.Turn world (p.releaseTurn world rawBody claimedAt error).1 i
      (.releasing rawBody claimedAt error)
      (p.releaseTurn world rawBody claimedAt error).2 := by
  unfold releaseTurn
  dsimp only
  have hget := world.store.idempotencyRelease_get? p.scope p.key (p.claimId rawBody)
  refine .of_settle hinv h rfl rfl rfl (fun _ ha => (by cases ha)) (fun _ ha => (by cases ha))
    ?_ ?_ ?_
  · unfold receipt MemorySkeinStore.idempotencyRelease
    dsimp only
    split
    · rfl
    · split_ifs
      · rw [Table.get?_erase, if_neg p.admissionScope_ne.symm]
      · rfl
  · intro hover
    unfold InboundPipeline.record
    rw [hget]
    cases hrecord : world.store.idempotency.get? (p.scope, p.key) with
    | none => rfl
    | some record => simp [Option.filter_some, hfree hover record hrecord]
  · intro _ record response hrecord hresponse
    unfold InboundPipeline.record at hrecord
    rw [hget, Option.filter_eq_some_iff] at hrecord
    exact hinv.sourced record response hrecord.1 hresponse

theorem afterRefusal_turn {i : ℕ} {a : InboundAttempt J} (rawBody : String)
    (claimedAt : Timestamp) (again : Bool) (error : Thrown)
    (hmoves : ∀ a', a'.rawBody = rawBody → a'.unsettled = some claimedAt → a'.run = none →
      a'.answer p = none → p.Turn world world' i a a') :
    p.Turn world world' i a (afterRefusal rawBody claimedAt again error) := by
  unfold afterRefusal
  split_ifs
  · exact hmoves _ rfl rfl rfl rfl
  · exact hmoves _ rfl rfl rfl rfl

/-- A turn of the create that inserts no run. -/
theorem Turn.of_unchanged {i : ℕ} {a a' : InboundAttempt J} {store : MemorySkeinStore J}
    (hinv : p.Inv world) (h : p.Local world i a)
    (hidempotency : store.idempotency = world.store.idempotency)
    (hbody : a'.rawBody = a.rawBody)
    (hunsettled : ∀ claimedAt, a'.unsettled = some claimedAt → a.unsettled = some claimedAt)
    (hnamed : ∀ runId, a'.run = some runId → ∃ run ∈ world.created,
      p.fingerprintOf run.rawBody = p.fingerprintOf a.rawBody ∧ run.runId = runId)
    (hanswer : a'.answer p = none) : p.Turn world { world with store } i a a' := by
  have hget : ∀ c, store.idempotency.get? c = world.store.idempotency.get? c := by
    intro c
    rw [hidempotency]
  have hbeside : ∀ j, p.Beside world { world with store } j := fun j =>
    .of_record j (Nat.le_refl _) rfl (List.Subset.refl _) (hget _)
  have hrecord : p.record { world with store } = p.record world := hget _
  have hreceipt : p.receipt { world with store } = p.receipt world := hget _
  exact {
    inv := hinv.lapse (Nat.le_refl _) rfl (fun record h => hrecord ▸ h)
      (fun record h => hreceipt ▸ h) (fun record h => .inl (hreceipt.trans h))
    mine := (h.beside (hbeside i)).advance hbody hunsettled hnamed (by simp [hanswer])
    others := fun j _ => hbeside j
    fenced := fun _ _ _ => hget _ }

/-- A run is inserted only after the receipt of every earlier one has run out. -/
theorem Turn.of_inserted {i : ℕ} {rawBody : String} {claimedAt : Timestamp} {again : Bool}
    {a' : InboundAttempt J} {store : MemorySkeinStore J} {row : Run J} {uuid : String}
    (hinv : p.Inv world) (h : p.Local world i (.creating rawBody claimedAt again))
    (hfresh : ∀ record, p.receipt world = some record → record.expiresAt ≤ claimedAt)
    (hidempotency : store.idempotency = world.store.idempotency.write
      (MemorySkeinStore.admissionRecord (p.admission rawBody claimedAt) row uuid))
    (hbody : a'.rawBody = rawBody)
    (hunsettled : a'.unsettled = some claimedAt)
    (hnamed : ∀ runId, a'.run = some runId → row.runId = runId)
    (hanswer : a'.answer p = none) :
    p.Turn world { world with
      store
      created := ⟨rawBody, row.runId, world.clock, claimedAt + p.retentionMs⟩ :: world.created }
      i (.creating rawBody claimedAt again) a' := by
  generalize hworld' : ({ world with
      store
      created := ⟨rawBody, row.runId, world.clock, claimedAt + p.retentionMs⟩ ::
        world.created } : InboundWorld J) = world'
  have hclock : world'.clock = world.clock := by rw [← hworld']
  have hgranted : world'.granted = world.granted := by rw [← hworld']
  have hcreated : world'.created =
      ⟨rawBody, row.runId, world.clock, claimedAt + p.retentionMs⟩ :: world.created := by
    rw [← hworld']
  have hrecord : p.record world' = p.record world := by
    rw [← hworld']
    unfold InboundPipeline.record
    rw [hidempotency, Table.get?_write, if_neg (by exact p.admissionScope_ne)]
  have hreceipt : p.receipt world' = some
      (MemorySkeinStore.admissionRecord (p.admission rawBody claimedAt) row uuid) := by
    rw [← hworld']
    unfold receipt
    rw [hidempotency, Table.get?_write, if_pos (by rfl)]
  have hover : ∀ run ∈ world.created, run.expiresAt ≤ world.clock := by
    intro run hrun
    rcases hinv.covered run hrun with hpast | ⟨record, hstored, hexpires⟩
    · exact hpast
    · rw [← hexpires]
      exact Nat.le_trans (hfresh record hstored) (h.past claimedAt rfl)
  have hbeside : ∀ j, p.Beside world world' j := fun j =>
    .of_record j (Nat.le_of_eq hclock.symm) hgranted
      (hcreated ▸ List.subset_cons_self _ _) hrecord
  exact {
    inv := {
      single := hcreated ▸ List.pairwise_cons.mpr ⟨hover, hinv.single⟩
      past := by
        rw [hcreated, hclock]
        exact List.forall_mem_cons.mpr ⟨Nat.le_refl _, hinv.past⟩
      covered := by
        rw [hcreated, hclock]
        exact List.forall_mem_cons.mpr
          ⟨.inr ⟨_, hreceipt, rfl⟩, fun run hrun => .inl (hover run hrun)⟩
      receipts := by
        intro record hstored
        rw [hreceipt] at hstored
        cases hstored
        exact ⟨_, hcreated ▸ List.mem_cons_self, rfl, rfl⟩
      sourced := by
        intro record response hstored hresponse
        rw [hrecord] at hstored
        obtain ⟨run, hrun, hsource⟩ := hinv.sourced record response hstored hresponse
        exact ⟨run, hcreated ▸ List.mem_cons_of_mem _ hrun, hsource⟩ }
    mine := (h.beside (hbeside i)).advance hbody
      (fun at' ha => (hunsettled.symm.trans ha : some claimedAt = some at'))
      (fun runId ha => ⟨_, hcreated ▸ List.mem_cons_self, rfl, hnamed runId ha⟩)
      (by simp [hanswer])
    others := fun j _ => hbeside j
    fenced := fun _ _ _ => hrecord }

/-- Whatever comes of a create, the attempt moves on under the claim it has. -/
theorem createTurn_turn [WireJson J] {i : ℕ} {rawBody : String} {claimedAt : Timestamp}
    {again : Bool} {x : InboundInput J} {a' : InboundAttempt J} (hinv : p.Inv world)
    (h : p.Local world i (.creating rawBody claimedAt again))
    (hturn : p.createTurn world rawBody claimedAt again x = some (world', a')) :
    p.Turn world world' i (.creating rawBody claimedAt again) a' := by
  unfold createTurn at hturn
  split at hturn
  · obtain ⟨error, -, hmoved⟩ := Option.map_eq_some_iff.mp hturn
    cases hmoved
    exact afterRefusal_turn rawBody claimedAt again error fun a' hbody hunsettled hrun hanswer =>
      .of_advance hinv h hbody (fun _ ha => hunsettled.symm.trans ha) hrun hanswer
  next input draws _ =>
    dsimp only at hturn
    rcases world.store.admitRun_keyed
      { input with toAdmissionKey := p.admission rawBody claimedAt } draws with
      ⟨e, store, hdone, hidempotency⟩ | ⟨receipt, hreplay, hdone⟩ |
      ⟨receipt, store, row, hfresh, hdone, hid, hunused, hinserted, hidempotency⟩
    · rw [hdone] at hturn
      cases hturn
      exact afterRefusal_turn rawBody claimedAt again e fun a' hbody hunsettled hrun hanswer =>
        .of_unchanged hinv h hidempotency hbody (fun _ ha => hunsettled.symm.trans ha)
          (by simp [hrun]) hanswer
    · rw [hdone] at hturn
      dsimp only at hturn
      have hcreated : (if world.store.runs.contains receipt.runId = true then world.created
          else if world.store.runs.contains receipt.runId = true then
            ⟨rawBody, receipt.runId, world.clock, (p.admission rawBody claimedAt).expiresAt⟩ ::
              world.created
          else world.created) = world.created := by
        split_ifs <;> rfl
      rw [hcreated] at hturn
      have hrefused : ∀ error, p.Turn world world i (.creating rawBody claimedAt again)
          (afterRefusal rawBody claimedAt again error) := fun error =>
        afterRefusal_turn rawBody claimedAt again error fun a' hbody hunsettled hrun hanswer =>
          .of_advance hinv h hbody (fun _ ha => hunsettled.symm.trans ha) hrun hanswer
      split at hturn
      · cases hturn
        exact hrefused _
      · split_ifs at hturn
        · cases hturn
          refine .of_unchanged hinv h rfl rfl (fun _ ha => ha) ?_ rfl
          rintro runId hrunId
          cases hrunId
          obtain ⟨record, hrecorded⟩ := Recorded.of_replay hreplay
          obtain ⟨run, hrun, hnames, hsource⟩ := hinv.receipts record hrecorded.stored
          have hsame := hnames.symm.trans hrecorded.runId
          exact ⟨run, hrun, hsource.symm.trans hrecorded.fingerprint, Option.some.inj hsame⟩
        · cases hturn
          exact hrefused _
    · rw [hdone] at hturn
      dsimp only at hturn
      rw [hid] at hturn
      simp only [hunused, hinserted, Bool.false_eq_true, if_false, if_true] at hturn
      have hexpired : ∀ record, p.receipt world = some record → record.expiresAt ≤ claimedAt :=
        fun record hstored => MemorySkeinStore.replayAdmission_none hfresh hstored
      split at hturn
      · cases hturn
        exact afterRefusal_turn rawBody claimedAt again _ fun a' hbody hunsettled hrun hanswer =>
          .of_inserted hinv h hexpired hidempotency hbody hunsettled (by simp [hrun]) hanswer
      · cases hturn
        exact .of_inserted hinv h hexpired hidempotency rfl rfl
          (fun runId ha => Option.some.inj ha) rfl

theorem resume_turn [WireJson J] {i : ℕ} {a a' : InboundAttempt J} {x : InboundInput J} (hinv : p.Inv world)
    (h : p.Local world i a)
    (hfree : a.settling = true → world.Superseded i → ∀ record, p.record world = some record →
      record.claimId ≠ p.claimId a.rawBody)
    (hturn : p.resume world i a x = some (world', a')) : p.Turn world world' i a a' := by
  unfold resume at hturn
  split at hturn
  case h_1 rawBody _ =>
    have hclaim := claimTurn_turn hinv h x.now
    rw [Option.some.inj hturn] at hclaim
    exact hclaim
  case h_2 => cases hturn
  case h_3 | h_4 | h_5 | h_9 | h_11 =>
    cases hturn
    exact .of_advance hinv h rfl (fun _ ha => ha) rfl rfl
  case h_6 rawBody claimedAt again error _ =>
    cases hturn
    exact afterRefusal_turn rawBody claimedAt again error fun a' hbody hunsettled hrun hanswer =>
      .of_advance hinv h hbody (fun _ ha => hunsettled.symm.trans ha) hrun hanswer
  case h_7 => exact createTurn_turn hinv h hturn
  case h_8 =>
    cases hturn
    exact recordTurn_turn hinv h (hfree rfl) x.now
  case h_10 =>
    cases hturn
    exact releaseTurn_turn hinv h (hfree rfl)
  all_goals cases hturn

theorem surroundings_inv {e : InboundSurroundings J} (hinv : p.Inv world)
    (h : p.surroundings world e = some world') :
    p.Inv world' ∧ ∀ j, p.Beside world world' j := by
  obtain ⟨hclock, hgranted, hcreated, ⟨hrecord, hreceipt⟩ | ⟨hrecord, hreceipt⟩⟩ :=
    surroundings_cases h
  · exact ⟨hinv.lapse hclock hcreated (fun record h => hrecord ▸ h)
      (fun record h => hreceipt ▸ h) (fun record h => .inl (hreceipt.trans h)),
      fun j => .of_record j hclock hgranted (hcreated ▸ List.Subset.refl _) hrecord⟩
  · have hkept : ∀ record, p.record world' = some record → p.record world = some record := by
      intro record hsome
      rw [hrecord, Option.filter_eq_some_iff] at hsome
      exact hsome.1
    refine ⟨hinv.lapse hclock hcreated hkept ?_ ?_, fun j => ?_⟩
    · intro record hsome
      rw [hreceipt, Option.filter_eq_some_iff] at hsome
      exact hsome.1
    · intro record hsome
      by_cases hlive : world'.clock < record.expiresAt
      · exact .inl (by rw [hreceipt, hsome, Option.filter_some, if_pos (by simpa using hlive)])
      · exact .inr (Nat.not_lt.mp hlive)
    · exact {
        clock := hclock
        granted := hgranted ▸ List.Subset.refl _
        created := hcreated ▸ List.Subset.refl _
        kept := by
          intro hlatest
          rw [InboundWorld.Latest, hgranted] at hlatest
          exact ⟨hlatest, hkept⟩
        lost := by
          intro hnone hlatest record hsome
          rw [InboundWorld.Latest, hgranted] at hnone
          have hgone := hnone hlatest
          rw [hrecord, hsome, Option.filter_some] at hgone
          by_contra hlive
          rw [if_pos (by simpa using hlive)] at hgone
          cases hgone }

section
variable [WireJson J]

theorem interferenceFree (p : InboundPipeline J) :
    InterferenceFree p.program p.Inv p.Local p.Unhindered where
  env := by
    intro w e world' hw _ h
    obtain ⟨hinv, hbeside⟩ := surroundings_inv hw.1 h
    exact ⟨hinv, fun j b hb => (hw.local hb).beside (hbeside j)⟩
  start := by
    intro w a world' hw _ h
    cases a <;> cases h
    refine ⟨hw.1, ?_, hw.2⟩
    constructor <;> intro _ ha <;> cases ha
  resume := by
    intro w i x a world' a' hw hc ha h
    have hturn := resume_turn hw.1 (hw.local ha) (fun hsettling hover => hc hover a ha hsettling) h
    exact ⟨hturn.inv, hturn.mine, fun j b hj hb => (hw.local hb).beside (hturn.others j hj)⟩

omit [WireJson J] in
/-- An unexpired claim belongs to the attempt that was granted it last. -/
theorem latest_of_holds {i : ℕ} {a : InboundAttempt J} (h : p.Local world i a)
    (hholds : p.Holds world a) : world.Latest i := by
  obtain ⟨claimedAt, hclaimed, hlive⟩ := hholds
  by_contra hnot
  have hexpired := h.expired claimedAt hclaimed fun hlatest => absurd hlatest hnot
  exact Nat.not_lt.mpr hexpired hlive

omit [WireJson J] in
theorem handledOnce_of_holds (hsha256 : Function.Injective p.sha256)
    {w : Pool (InboundWorld J) (InboundAttempt J)} (hw : w.Holds p.Inv p.Local) :
    p.HandledOnce w where
  exclusive := by
    intro i j a b ha hb hholds hholds'
    exact InboundWorld.latest_unique (latest_of_holds (hw.local ha) hholds)
      (latest_of_holds (hw.local hb) hholds')
  stands := by
    intro i a claimedAt ha hclaimed hlatest hlive
    have hlocal := hw.local ha
    cases hrecord : p.record w.shared with
    | none =>
      have hexpired := hlocal.expired claimedAt hclaimed fun _ => hrecord
      exact absurd hlive (Nat.not_lt.mpr hexpired)
    | some record => exact ⟨record, rfl, hlocal.holding claimedAt hclaimed hlatest record hrecord⟩
  single := hw.1.single
  named := by
    intro a ha response hresponse
    obtain ⟨i, hi⟩ := List.mem_iff_getElem?.mp ha
    obtain ⟨run, hrun, hbody, hnamed⟩ := (hw.local hi).answered response hresponse
    exact ⟨run, hrun, hsha256 hbody, hnamed⟩

/-- Before the first delivery under an event key. -/
def untouched (store : MemorySkeinStore J) (clock : Timestamp) :
    Pool (InboundWorld J) (InboundAttempt J) := ⟨{ store, clock }, []⟩

/-- An event is handled once in every run in which no attempt settles the claim of another. -/
theorem handledOnce_of_unhindered (p : InboundPipeline J)
    (hsha256 : Function.Injective p.sha256) {store : MemorySkeinStore J} {clock : Timestamp}
    (hrecord : store.idempotency.get? (p.scope, p.key) = none)
    (hreceipt : store.idempotency.get? (p.admissionScope, p.key) = none)
    {actions : List (Action (InboundSurroundings J) (InboundAttempt J) (InboundInput J))}
    {w : Pool (InboundWorld J) (InboundAttempt J)}
    (hactions : p.program.machine.Along p.Unhindered (untouched store clock) actions)
    (hrun : p.program.machine.run (untouched store clock) actions = some w) :
    p.HandledOnce w ∧
      ∀ action w', p.Unhindered w action → p.program.step w action = some w' →
        p.Fenced w w' action := by
  have hrecord' : p.record (untouched store clock).shared = none := hrecord
  have hreceipt' : p.receipt (untouched store clock).shared = none := hreceipt
  have hstart : (untouched store clock).Holds p.Inv p.Local := by
    refine Pool.holds_empty ⟨List.Pairwise.nil, ?_, ?_, ?_, ?_⟩
    · exact fun run hrun => absurd hrun List.not_mem_nil
    · exact fun run hrun => absurd hrun List.not_mem_nil
    · exact fun record hstored => (by cases hreceipt'.symm.trans hstored)
    · exact fun record _ hstored => (by cases hrecord'.symm.trans hstored)
  have hw := p.interferenceFree.run hstart hactions hrun
  refine ⟨handledOnce_of_holds hsha256 hw, ?_⟩
  intro action w' hcondition hstep
  rcases p.program.step_cases hstep with ⟨e, s, rfl, -, -⟩ | ⟨a, s, rfl, -, -⟩ |
    ⟨i, x, a, s, a', rfl, ha, hturn, rfl⟩
  · exact trivial
  · exact trivial
  · intro b claimedAt hb hclaimed hover
    have hsame : a = b := Option.some.inj (ha.symm.trans hb)
    subst hsame
    exact (resume_turn hw.1 (hw.local ha)
      (fun hsettling hover => hcondition hover a ha hsettling) hturn).fenced claimedAt hclaimed hover

end

/-- A digest that answers two inputs as SHA-256 does. -/
def exampleSha256 : Equiv.Perm String :=
  Equiv.swap "POST /channels/sms acme:evt:hello"
      "4b2a84b85ac6209832e8072731a431708e14dde6d209b6e877e7fac4f7a5623a" *
    Equiv.swap "hello" "2cf24dba5fb0a30e26e83b2ac5b9e29e1b161e5c1fa7425e73043362938b9824"

def smsPipeline : InboundPipeline ℕ where
  channelName := "sms"
  identity := "acme"
  key := "evt"
  sha256 := exampleSha256
  resolveThread := fun _ => .of "t"
  acknowledgement := fun _ => 0

/-- An attempt stalls past its claim, is taken over, and then fails before its create: its
release gives the key to a third attempt while the second is at work. -/
def stalledActions :
    List (Action (InboundSurroundings ℕ) (InboundAttempt ℕ) (InboundInput ℕ)) :=
  [.spawn (.claiming "hello"), .spawn (.claiming "hello"), .spawn (.claiming "hello"),
    .resume 0 { now := 0 }, .env (.elapse 900000), .resume 1 { now := 0 },
    .resume 0 { now := 0, rejected := some .aborted }, .resume 0 { now := 0 },
    .resume 2 { now := 0 }]

theorem stalledActions_not_handledOnce :
    ¬ ∀ actions w, smsPipeline.program.machine.run (untouched {} 0) actions = some w →
      smsPipeline.HandledOnce w := by
  intro h
  have hsame := (h stalledActions _ rfl).exclusive 1 2 _ _ rfl rfl ⟨900000, rfl, by decide⟩
    ⟨900000, rfl, by decide⟩
  exact absurd hsame (by decide)

/-- The thread the event speaks on. -/
def threadStore : MemorySkeinStore ℕ where
  threads := (∅ : Table ThreadId (Thread ℕ) Thread.threadId).write {
    threadId := .of "t", createdAt := 0, updatedAt := 0, stateUpdatedAt := 0, metadata := ∅
    status := .idle, values := ∅, interrupts := ∅ }

/-- A delivery is handled; its repetition is answered from the record, and other bytes under
its key are refused. -/
def deliveredActions :
    List (Action (InboundSurroundings ℕ) (InboundAttempt ℕ) (InboundInput ℕ)) :=
  [.spawn (.claiming "hello"), .spawn (.claiming "hello"), .spawn (.claiming "other"),
    .resume 0 { now := 0 }, .resume 0 { now := 0 }, .resume 0 { now := 0 },
    .resume 0 {
      now := 0
      admission := some ({
        scope := "", key := "", fingerprint := "", now := 0, expiresAt := 0
        run := { threadId := .of "t", assistantId := .of "a" } },
        ⟨.of "run", "claim", fun _ => .of "d", 0⟩) },
    .resume 0 { now := 0 }, .resume 1 { now := 0 }, .resume 2 { now := 0 }]

def deliveredWorld : Pool (InboundWorld ℕ) (InboundAttempt ℕ) :=
  (smsPipeline.program.machine.run (untouched threadStore 0) deliveredActions).getD
    (untouched {} 0)

theorem deliveredWorld_handledOnce :
    deliveredWorld.shared.created = [⟨"hello", .of "run", 0, 86400000⟩] ∧
      smsPipeline.HandledOnce deliveredWorld := by
  have hrun : smsPipeline.program.machine.run (untouched threadStore 0) deliveredActions =
      some deliveredWorld := rfl
  have hactions : smsPipeline.program.machine.Along smsPipeline.Unhindered
      (untouched threadStore 0) deliveredActions :=
    ⟨trivial, trivial, trivial, fun hover => (by cases hover.1), fun hover => absurd rfl hover.2,
      fun hover => absurd rfl hover.2, fun hover => absurd rfl hover.2,
      fun hover => absurd rfl hover.2,
      fun hover => absurd (List.mem_singleton.mp hover.1) (by decide),
      fun hover => absurd (List.mem_singleton.mp hover.1) (by decide), trivial⟩
  exact ⟨rfl, (handledOnce_of_unhindered smsPipeline exampleSha256.injective rfl rfl hactions
    hrun).1⟩

end InboundPipeline
end Skein
