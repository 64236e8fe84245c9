import Skein.AdmissionHistory
import Skein.DispatchClaims
import Skein.DispatchMoves

/-!
# Native starts and resumes

`NativeClient.start` and `resume` from their first lookup to their receipt. Every await may
fail, a store call before its effect or after it, and the admission signal may abort at every
check; meanwhile anything else may happen to the store. Only one call in the middle, the
admission, commits; after a failure the key is looked up again.
-/
namespace Skein

/-- What a call awaits before its admission. -/
inductive NativeStep
  /-- Of a resume: its target's run, the execution claim and the check of the target. -/
  | ownedTarget | allowTarget | claimExecution | verifyTarget
  /-- Before the `try`. -/
  | allowAssistant | findAssistant | authorize
  /-- Inside it. -/
  | createThread | requireAssistant | resolveThread | readDisplaced
  deriving DecidableEq, Repr

/-- A failure inside the `try` looks the key up again. -/
def NativeStep.guarded : NativeStep → Bool
  | ownedTarget | allowTarget | claimExecution | verifyTarget => false
  | allowAssistant | findAssistant | authorize => false
  | createThread | requireAssistant | resolveThread | readDisplaced => true

/-- The awaits of a start; `displaced` of them read the runs that it displaces. -/
def startSteps (createsThread : Bool) (displaced : ℕ) : List NativeStep :=
  [.allowAssistant, .findAssistant, .authorize] ++
    (if createsThread then [.createThread] else []) ++
    [.requireAssistant, .resolveThread] ++ List.replicate displaced .readDisplaced

/-- The awaits of a resume, which creates no thread and displaces nothing. -/
def resumeSteps : List NativeStep :=
  [.ownedTarget, .allowTarget, .claimExecution, .verifyTarget] ++ startSteps false 0

/-- A call: its admission key, and what it awaits before the admission. -/
structure NativeCall where
  key : AdmissionKey
  steps : List NativeStep

/-- What a call awaits after its admission: the outcomes of the displaced runs, the graph's
name on the thread, the run's kwargs and the queue. -/
inductive NativeFollowUp
  | scheduleOutcome | stampGraph | readKwargs | enqueue
  deriving DecidableEq, Repr

/-- Best-effort: a stamp that fails is logged, and the call goes on. -/
def NativeFollowUp.logged : NativeFollowUp → Bool
  | stampGraph => true
  | scheduleOutcome | readKwargs | enqueue => false

def NativeFollowUp.afterAdmission (outcomes : ℕ) : List NativeFollowUp :=
  List.replicate outcomes .scheduleOutcome ++ [.stampGraph, .readKwargs, .enqueue]

/-- Where a call is; on the error path it carries the error. -/
inductive NativeStage
  | lookup (error : Option Thrown)
  | owned (error : Option Thrown) (receipt : AdmissionReceipt)
  | preparing (steps : List NativeStep)
  | rereading (receipt : AdmissionReceipt) (fresh : Bool) (outcomes : ℕ)
  | following (receipt : AdmissionReceipt) (steps : List NativeFollowUp)
  | done (result : Except Thrown AdmissionReceipt)

/-- How an awaited call ends. -/
inductive CallEnding
  | completes
  | failsBefore (e : Thrown)
  | failsAfter (e : Thrown)

def CallEnding.error : CallEnding → Option Thrown
  | completes => none
  | failsBefore e | failsAfter e => some e

/-- What the environment decides in one turn; `aborted` is the admission signal. -/
structure NativeInput (J : Type*) where
  now : Timestamp
  ending : CallEnding := .completes
  aborted : Bool := false
  /-- What the admission is asked, but for its key and the status. -/
  admission : RunAdmission J
  draws : AdmissionDraws
  thread : MemorySkeinStore.ThreadCreate J := {}
  threadUuid : ThreadId := .of "thread"
  patch : MemorySkeinStore.ThreadUpdate J := {}

/-- What others do to the store. -/
inductive NativeEvent (J : Type*)
  | history (a : HistoryAction J)
  | claim (query : DispatchQuery) (tokens : RunId → String)
  | acknowledge (runId : RunId) (token : String)
  | createThread (input : MemorySkeinStore.ThreadCreate J) (uuid : ThreadId) (now : Timestamp)
  | updateThread (threadId : ThreadId) (patch : MemorySkeinStore.ThreadUpdate J) (now : Timestamp)

inductive NativeAction (J : Type*)
  | turn (x : NativeInput J)
  | event (e : NativeEvent J)

/-- The store, where the call is, and the receipt of the admission that it committed. -/
structure NativeWorld (J : Type*) where
  base : AdmissionWorld J
  stage : NativeStage := .lookup none
  admitted : Option AdmissionReceipt := none

def keyReusedError : Thrown :=
  .http (.conflict "The operation key was already used for different input."
    (some "idempotency_key_reused"))

def keyInFlight : Thrown :=
  .http (.conflict "Admission is in progress." (some "idempotency_key_in_flight"))

def acceptedDeleted : Thrown := .http (.notFound "Accepted run was deleted.")

def ownedNotFound : Thrown := .http (.notFound "Run not found.")

section Turns
variable {J : Type*}

/-- `lookup` up to its `ownedRun`. -/
def lookupTurn (call : NativeCall) (store : MemorySkeinStore J) (error : Option Thrown)
    (now : Timestamp) : NativeStage :=
  let missing := error.elim (.preparing call.steps) fun e => .done (.error e)
  match store.idempotency.get? call.key.coordinate with
  | none => missing
  | some record =>
    if record.expiresAt ≤ now then missing
    else if record.fingerprint ≠ call.key.fingerprint then .done (.error keyReusedError)
    else match record.runId, record.threadId with
      | some runId, some threadId => .owned error ⟨call.key.key, runId, threadId⟩
      | _, _ => .done (.error keyInFlight)

variable [WireJson J]

/-- The admission that `guardedInsert` asks for. -/
def NativeCall.admission (call : NativeCall) (x : NativeInput J) : RunAdmission J :=
  { x.admission with
    toAdmissionKey := call.key
    run := { x.admission.run with status := some .pending } }

/-- The receipt of an admission that is no replay. -/
def committedReceipt (store : MemorySkeinStore J) (key : AdmissionKey)
    (result : Except Thrown AdmissionReceipt) : Option AdmissionReceipt :=
  match store.replayAdmission key, result with
  | .ok none, .ok receipt => some receipt
  | _, _ => none

/-- Where a call is after its admission, which asked for `runId`. -/
def admittedStage (result : Except Thrown AdmissionReceipt) (failed : Option Thrown)
    (runId : RunId) (outcomes : ℕ) : NativeStage :=
  match result, failed with
  | .ok receipt, none => .rereading receipt (receipt.runId = runId) outcomes
  | .ok _, some e => .lookup (some e)
  | .error e, _ => .lookup (some e)

/-- One turn of a call. -/
def NativeCall.turn (call : NativeCall) (w : NativeWorld J) (x : NativeInput J) :
    Option (NativeWorld J) :=
  match w.stage with
  | .lookup error =>
    some { w with
      stage := x.ending.error.elim (lookupTurn call w.base.store error x.now)
        fun e => .done (.error e) }
  | .owned _ receipt =>
    some { w with
      stage := x.ending.error.elim
        (if w.base.store.runs.contains receipt.runId then .done (.ok receipt)
          else .done (.error ownedNotFound))
        fun e => .done (.error e) }
  | .preparing (step :: rest) =>
    let stage := x.ending.error.elim (.preparing rest)
      fun e => if step.guarded then .lookup (some e) else .done (.error e)
    match step, x.ending with
    | .createThread, .completes | .createThread, .failsAfter _ =>
      some { w with
        base := w.base.advance (w.base.store.threadsCreate x.thread x.threadUuid x.now).2 none
        stage }
    | _, _ => some { w with stage }
  | .preparing [] =>
    if x.aborted then some { w with stage := .lookup (some .aborted) }
    else match x.ending with
    | .failsBefore e => some { w with stage := .lookup (some e) }
    | ending =>
      let input := call.admission x
      (w.base.step (.admission (.run input) x.draws)).map fun base =>
        let result := (w.base.store.admitRun input x.draws).1
        let outcomes := input.displacements.countP fun item => item.settlement.delivery.isSome
        { base
          admitted := committedReceipt w.base.store call.key result
          stage := admittedStage result ending.error (input.run.runId.getD x.draws.runUuid)
            outcomes }
  | .rereading receipt fresh outcomes =>
    some { w with
      stage := if x.aborted then .lookup (some .aborted)
        else x.ending.error.elim
          (match w.base.store.runs.get? receipt.runId with
          | none => .lookup (some acceptedDeleted)
          | some run =>
            let named : AdmissionReceipt := ⟨call.key.key, run.runId, run.threadId⟩
            if fresh then .following named (NativeFollowUp.afterAdmission outcomes)
            else .done (.ok named))
          fun e => .lookup (some e) }
  | .following receipt (step :: rest) =>
    let stage := x.ending.error.elim (.following receipt rest)
      fun e => if step.logged then .following receipt rest else .lookup (some e)
    match step, x.ending with
    | .stampGraph, .completes | .stampGraph, .failsAfter _ =>
      some { w with
        base := w.base.advance (w.base.store.threadsUpdate receipt.threadId x.patch x.now).2 none
        stage }
    | _, _ => some { w with stage }
  | .following receipt [] => some { w with stage := .done (.ok receipt) }
  | .done _ => none

/-- One call of another party. -/
def nativeEvent (base : AdmissionWorld J) : NativeEvent J → Option (AdmissionWorld J)
  | .history a => base.step a
  | .claim query tokens => some (base.advance (base.store.claimDispatches query tokens).2 none)
  | .acknowledge runId token => some (base.advance (base.store.markDispatched runId token) none)
  | .createThread input uuid now =>
    some (base.advance (base.store.threadsCreate input uuid now).2 none)
  | .updateThread threadId patch now =>
    some (base.advance (base.store.threadsUpdate threadId patch now).2 none)

def NativeCall.machine (call : NativeCall) : Machine (NativeWorld J) (NativeAction J) where
  step w
    | .turn x => call.turn w x
    | .event e => (nativeEvent w.base e).map fun base => { w with base }

end Turns

section Events
variable {J : Type*} {base base' : AdmissionWorld J} {key : AdmissionKey}
  {receipt : AdmissionReceipt} {record : IdempotencyRecord J}

/-- A record under the key names the run of the receipt, for the same input. -/
def NamesRun (store : MemorySkeinStore J) (key : AdmissionKey) (receipt : AdmissionReceipt)
    (record : IdempotencyRecord J) : Prop :=
  ∃ threadId, Recorded store key { receipt with threadId } record

theorem NamesRun.of_idempotency {store store' : MemorySkeinStore J}
    (h : NamesRun store key receipt record) (heq : store'.idempotency = store.idempotency) :
    NamesRun store' key receipt record :=
  h.imp fun _ hrecorded => hrecorded.of_idempotency heq

theorem threadsCreate_extends [EmptyCollection J] (store : MemorySkeinStore J)
    (input : MemorySkeinStore.ThreadCreate J) (uuid : ThreadId) (now : Timestamp) :
    store.Extends (store.threadsCreate input uuid now).2 := by
  unfold MemorySkeinStore.threadsCreate
  dsimp only
  split_ifs <;> exact ⟨fun _ h => h, rfl, rfl⟩

theorem threadsUpdate_extends (store : MemorySkeinStore J) (threadId : ThreadId)
    (patch : MemorySkeinStore.ThreadUpdate J) (now : Timestamp) :
    store.Extends (store.threadsUpdate threadId patch now).2 := by
  unfold MemorySkeinStore.threadsUpdate
  split <;> exact ⟨fun _ h => h, rfl, rfl⟩

theorem threadsUpdate_slot (store : MemorySkeinStore J) (threadId : ThreadId)
    (patch : MemorySkeinStore.ThreadUpdate J) (now : Timestamp) (k : RunId) :
    (store.threadsUpdate threadId patch now).2.slot k = store.slot k := by
  unfold MemorySkeinStore.threadsUpdate
  split <;> rfl

theorem claimDispatches_extends (store : MemorySkeinStore J) (query : DispatchQuery)
    (tokens : RunId → String) : store.Extends (store.claimDispatches query tokens).2 := by
  rw [MemorySkeinStore.claimDispatches, MemorySkeinStore.claimEntries_frame]
  exact ⟨fun _ h => h, rfl, rfl⟩

theorem markDispatched_extends (store : MemorySkeinStore J) (runId : RunId) (token : String) :
    store.Extends (store.markDispatched runId token) := by
  unfold MemorySkeinStore.markDispatched
  split
  · exact ⟨fun _ h => h, rfl, rfl⟩
  · split_ifs <;> exact ⟨fun _ h => h, rfl, rfl⟩

variable [WireJson J]

/-- Another party's call is a step of the store's history, or touches neither records nor
reservations nor the presence of a run. -/
theorem nativeEvent_cases {e : NativeEvent J} (h : nativeEvent base e = some base') :
    (∃ a, e = .history a ∧ base.step a = some base') ∨
      ∃ store, base' = base.advance store none ∧ base.store.Extends store := by
  cases e with
  | history a => exact .inl ⟨a, rfl, h⟩
  | claim query tokens =>
    cases h
    exact .inr ⟨_, rfl, claimDispatches_extends ..⟩
  | acknowledge runId token =>
    cases h
    exact .inr ⟨_, rfl, markDispatched_extends ..⟩
  | createThread input uuid now =>
    cases h
    exact .inr ⟨_, rfl, threadsCreate_extends ..⟩
  | updateThread threadId patch now =>
    cases h
    exact .inr ⟨_, rfl, threadsUpdate_extends ..⟩

theorem nativeEvent_inv {e : NativeEvent J} (hbase : base.Inv)
    (h : nativeEvent base e = some base') : base'.Inv := by
  rcases nativeEvent_cases h with ⟨a, -, hstep⟩ | ⟨store, rfl, hextends⟩
  · exact hbase.step hstep
  · exact hbase.extends hextends

/-- The record of the key is not used again once it is over, which is not checked where no
record matters yet. -/
def Retains (key : AdmissionKey) (base : AdmissionWorld J) : NativeEvent J → Prop
  | .history a => ∀ record, base.store.idempotency.get? key.coordinate = some record →
      Unexpired key record.expiresAt base a
  | _ => True

theorem NamesRun.event {e : NativeEvent J} (hbase : base.Inv)
    (hnames : NamesRun base.store key receipt record) (hretains : Retains key base e)
    (h : nativeEvent base e = some base') : NamesRun base'.store key receipt record := by
  rcases nativeEvent_cases h with ⟨a, rfl, hstep⟩ | ⟨store, rfl, hextends⟩
  · exact hnames.imp fun _ hrecorded =>
      hrecorded.step hbase (hretains record hrecorded.stored) hstep
  · exact hnames.of_idempotency hextends.idempotency

end Events

section Along
variable {J : Type*}

/-- The receipt a call has been told of. -/
def NativeStage.receipt? : NativeStage → Option AdmissionReceipt
  | .owned _ receipt | .rereading receipt _ _ | .following receipt _ | .done (.ok receipt) =>
    some receipt
  | _ => none

/-- Where a call can be once it has committed the admission of `runId`. -/
def NativeStage.Accepts (runId : RunId) : NativeStage → Prop
  | .lookup (some _) => True
  | .owned (some _) receipt | .rereading receipt _ _ | .following receipt _ | .done (.ok receipt) =>
    receipt.runId = runId
  | _ => False

theorem NativeStage.Accepts.runId_eq {stage : NativeStage} {runId : RunId}
    (h : stage.Accepts runId) {receipt : AdmissionReceipt}
    (hreceipt : stage.receipt? = some receipt) :
    receipt.runId = runId := by
  unfold NativeStage.receipt? at hreceipt
  split at hreceipt
  next error _ =>
    cases hreceipt
    cases error with
    | none => exact h.elim
    | some e => exact h
  all_goals first | (cases hreceipt; exact h) | cases hreceipt

/-- The receipt of the run that the call is about, if there is one yet. -/
def NativeWorld.held (w : NativeWorld J) : Option AdmissionReceipt := w.stage.receipt?.or w.admitted

structure NativeWorld.Inv (call : NativeCall) (w : NativeWorld J) : Prop where
  base : w.base.Inv
  named : ∀ receipt ∈ w.stage.receipt?, ∃ record, NamesRun w.base.store call.key receipt record
  admitted : ∀ receipt ∈ w.admitted, w.stage.Accepts receipt.runId ∧
    w.base.store.runs.contains receipt.runId = true ∧
    ∃ record, NamesRun w.base.store call.key receipt record

variable [WireJson J]

omit [WireJson J] in
/-- The lookup on the error path succeeds, before the record of an admitted run is over. -/
def NativeCall.OrdinaryTurn (call : NativeCall) (w : NativeWorld J) (x : NativeInput J) : Prop :=
  match w.stage with
  | .lookup (some _) => x.ending.error = none ∧ (w.admitted.isSome →
      ∀ record ∈ w.base.store.idempotency.get? call.key.coordinate, x.now < record.expiresAt)
  | .owned (some _) _ => x.ending.error = none
  | _ => True

instance (call : NativeCall) (w : NativeWorld J) (x : NativeInput J) :
    Decidable (call.OrdinaryTurn w x) := by
  unfold NativeCall.OrdinaryTurn
  split <;> infer_instance

/-- The record of the run is not yet over when it is used, and the run is not deleted. -/
def NativeCall.Ordinary (call : NativeCall) (w : NativeWorld J) : NativeAction J → Prop
  | .turn x => call.OrdinaryTurn w x
  | .event e => ∀ receipt ∈ w.held, Retains call.key w.base e ∧
      ∀ base', nativeEvent w.base e = some base' →
        w.base.store.runs.contains receipt.runId = true →
          base'.store.runs.contains receipt.runId = true

section Lookup
variable {call : NativeCall} {store : MemorySkeinStore J} {error : Option Thrown}
  {now : Timestamp} {receipt : AdmissionReceipt} {record : IdempotencyRecord J}

omit [WireJson J] in
/-- A lookup finds the record that names a run. -/
theorem lookupTurn_of_names (error : Option Thrown) (h : NamesRun store call.key receipt record)
    (hnow : now < record.expiresAt) :
    ∃ threadId, lookupTurn call store error now =
      .owned error ⟨call.key.key, receipt.runId, threadId⟩ := by
  obtain ⟨threadId, hrecorded⟩ := h
  refine ⟨threadId, ?_⟩
  simp [lookupTurn, hrecorded.stored, Nat.not_le.mpr hnow, hrecorded.fingerprint, hrecorded.runId,
    hrecorded.threadId]

omit [WireJson J] in
/-- What a lookup tells a call is named by a record. -/
theorem lookupTurn_cases (call : NativeCall) (store : MemorySkeinStore J) (error : Option Thrown)
    (now : Timestamp) :
    (∃ receipt record, lookupTurn call store error now = .owned error receipt ∧
      NamesRun store call.key receipt record) ∨
      (lookupTurn call store error now).receipt? = none := by
  unfold lookupTurn
  have hmissing : (error.elim (.preparing call.steps) fun e =>
      .done (.error e) : NativeStage).receipt? = none := by
    cases error <;> rfl
  cases hrecord : store.idempotency.get? call.key.coordinate with
  | none => exact .inr hmissing
  | some record =>
    dsimp only
    split_ifs with hexpired hfingerprint
    · exact .inr hmissing
    · exact .inr rfl
    · cases hrun : record.runId with
      | none => exact .inr rfl
      | some runId =>
        cases hthread : record.threadId with
        | none => exact .inr rfl
        | some threadId =>
          exact .inl ⟨_, record, rfl, threadId, hrecord, not_not.mp hfingerprint, hrun, hthread,
            rfl⟩

end Lookup

namespace NativeWorld
variable {call : NativeCall} {w w' : NativeWorld J}

omit [WireJson J] in
/-- Before its admission a call has committed none. -/
theorem Inv.admitted_none (h : w.Inv call) (hstage : ∀ runId, ¬w.stage.Accepts runId) :
    w.admitted = none := by
  cases hadmitted : w.admitted with
  | none => rfl
  | some receipt => exact absurd (h.admitted receipt hadmitted).1 (hstage _)

omit [WireJson J] in
/-- A turn that changes only where the call is. -/
theorem Inv.move (h : w.Inv call) {stage : NativeStage}
    (hnamed : ∀ receipt ∈ stage.receipt?, ∃ record,
      NamesRun w.base.store call.key receipt record)
    (haccepts : ∀ receipt ∈ w.admitted, stage.Accepts receipt.runId) :
    Inv call { w with stage } where
  base := h.base
  named := hnamed
  admitted receipt hreceipt := ⟨haccepts receipt hreceipt, (h.admitted receipt hreceipt).2⟩

omit [WireJson J] in
/-- A write of a thread row changes nothing that matters. -/
theorem Inv.extends (h : w.Inv call) {store : MemorySkeinStore J}
    (hextends : w.base.store.Extends store) :
    Inv call { w with base := w.base.advance store none } where
  base := h.base.extends hextends
  named receipt hreceipt := (h.named receipt hreceipt).imp fun _ hnames =>
    hnames.of_idempotency hextends.idempotency
  admitted receipt hreceipt := by
    obtain ⟨haccepts, hcontains, hnamed⟩ := h.admitted receipt hreceipt
    exact ⟨haccepts, hextends.grows _ hcontains, hnamed.imp fun _ hnames =>
      hnames.of_idempotency hextends.idempotency⟩

theorem Inv.event (h : w.Inv call) {e : NativeEvent J} (hordinary : call.Ordinary w (.event e))
    {base' : AdmissionWorld J} (hstep : nativeEvent w.base e = some base') :
    Inv call { w with base := base' } where
  base := nativeEvent_inv h.base hstep
  named receipt hreceipt := by
    have hheld : receipt ∈ w.held := by
      rw [held, Option.mem_def, Option.mem_def.mp hreceipt]
      rfl
    exact (h.named receipt hreceipt).imp fun _ hnames =>
      hnames.event h.base (hordinary receipt hheld).1 hstep
  admitted receipt hreceipt := by
    obtain ⟨haccepts, hcontains, hnamed⟩ := h.admitted receipt hreceipt
    obtain ⟨other, hother, hid⟩ : ∃ other ∈ w.held, other.runId = receipt.runId := by
      cases hstage : w.stage.receipt? with
      | none => exact ⟨receipt, by simpa [held, hstage] using hreceipt, rfl⟩
      | some other =>
        exact ⟨other, by simp [held, hstage], haccepts.runId_eq hstage⟩
    obtain ⟨hretains, hkept⟩ := hordinary other hother
    refine ⟨haccepts, ?_, hnamed.imp fun _ hnames => hnames.event h.base hretains hstep⟩
    exact hid ▸ hkept base' hstep (hid ▸ hcontains)

omit [WireJson J] in
theorem admittedStage_receipt? {result : Except Thrown AdmissionReceipt} {failed : Option Thrown}
    {runId : RunId} {outcomes : ℕ} {receipt : AdmissionReceipt}
    (h : (admittedStage result failed runId outcomes).receipt? = some receipt) :
    result = .ok receipt := by
  unfold admittedStage at h
  split at h
  · cases h
    rfl
  · cases h
  · cases h

omit [WireJson J] in
theorem admittedStage_accepts (receipt : AdmissionReceipt) (failed : Option Thrown)
    (runId : RunId) (outcomes : ℕ) :
    (admittedStage (.ok receipt) failed runId outcomes).Accepts receipt.runId := by
  cases failed with
  | none => exact rfl
  | some e => exact trivial

/-- What the turn of the admission leaves: nothing committed and perhaps a receipt of before, or
the receipt of the run that it has committed. -/
theorem admission_cases (h : w.Inv call) {x : NativeInput J} {base : AdmissionWorld J}
    (hstep : w.base.step (.admission (.run (call.admission x)) x.draws) = some base) :
    (committedReceipt w.base.store call.key (w.base.store.admitRun (call.admission x) x.draws).1 =
        none ∧
      ∀ receipt, (w.base.store.admitRun (call.admission x) x.draws).1 = .ok receipt →
        ∃ record, Recorded base.store call.key receipt record) ∨
    ∃ receipt record, (w.base.store.admitRun (call.admission x) x.draws).1 = .ok receipt ∧
      committedReceipt w.base.store call.key
        (w.base.store.admitRun (call.admission x) x.draws).1 = some receipt ∧
      w.base.store.replayAdmission call.key = .ok none ∧
      base.store.runs.contains receipt.runId = true ∧
      Recorded base.store call.key receipt record := by
  simp only [AdmissionWorld.step] at hstep
  split_ifs at hstep with hused
  cases hstep
  have hperform : (AdmissionCall.run (call.admission x)).perform w.base.store x.draws =
      w.base.store.admitRun (call.admission x) x.draws := rfl
  rcases (AdmissionCall.run (call.admission x)).perform_cases h.base.live (by simpa using hused)
    with ⟨e, hdone⟩ | ⟨receipt, hreplay, hdone⟩ | ⟨receipt, store', run, hdone, haccepted⟩
  · refine .inl ⟨?_, fun receipt hok => ?_⟩
    · rw [← hperform, hdone]
      unfold committedReceipt
      split <;> simp_all
    · rw [← hperform, hdone] at hok
      cases hok
  · have hreplay' : w.base.store.replayAdmission call.key = .ok (some receipt) := hreplay
    refine .inl ⟨?_, fun other hok => ?_⟩
    · simp [committedReceipt, hreplay']
    · rw [← hperform, hdone] at hok
      cases hok
      rw [hdone]
      exact Recorded.of_replay hreplay
  · have hfresh : w.base.store.replayAdmission call.key = .ok none := haccepted.fresh
    obtain ⟨record, -, hrecorded⟩ := haccepted.recorded
    refine .inr ⟨receipt, record, by rw [← hperform, hdone], ?_, hfresh, ?_, ?_⟩
    · rw [← hperform, hdone]
      simp [committedReceipt, hfresh]
    · rw [hdone]
      exact haccepted.exists_run
    · rw [hdone]
      exact hrecorded

/-- The turn of the admission. -/
theorem Inv.admits (h : w.Inv call) {x : NativeInput J} {failed : Option Thrown}
    {runId : RunId} {outcomes : ℕ} {base : AdmissionWorld J}
    (hstep : w.base.step (.admission (.run (call.admission x)) x.draws) = some base) :
    Inv call {
      base
      admitted := committedReceipt w.base.store call.key
        (w.base.store.admitRun (call.admission x) x.draws).1
      stage := admittedStage (w.base.store.admitRun (call.admission x) x.draws).1 failed runId
        outcomes } := by
  have hbase := h.base.step hstep
  rcases admission_cases h hstep with ⟨hnone, hrecorded⟩ |
    ⟨receipt, record, hok, hcommitted, -, hcontains, hrecorded⟩
  · refine ⟨hbase, fun receipt hreceipt => ?_, fun receipt hreceipt => ?_⟩
    · obtain ⟨record, hrecord⟩ := hrecorded receipt (admittedStage_receipt? hreceipt)
      exact ⟨record, receipt.threadId, hrecord⟩
    · rw [hnone] at hreceipt
      cases hreceipt
  · refine ⟨hbase, fun other hother => ?_, fun other hother => ?_⟩
    · have hsame := admittedStage_receipt? hother
      rw [hok] at hsame
      cases hsame
      exact ⟨record, receipt.threadId, hrecorded⟩
    · rw [hcommitted] at hother
      cases hother
      refine ⟨?_, hcontains, record, receipt.threadId, hrecorded⟩
      rw [hok]
      exact admittedStage_accepts ..

omit [WireJson J] in
/-- What a call that has committed an admission shows in its stage. -/
theorem Inv.accepts (h : w.Inv call) {stage : NativeStage} (hstage : w.stage = stage) :
    ∀ receipt ∈ w.admitted, stage.Accepts receipt.runId :=
  fun receipt hreceipt => hstage ▸ (h.admitted receipt hreceipt).1

omit [WireJson J] in
/-- The error path is open to every call. -/
theorem Inv.failed (h : w.Inv call) (e : Thrown) :
    Inv call { w with stage := .lookup (some e) } :=
  h.move (fun _ hreceipt => by cases hreceipt) fun _ _ => trivial

omit [WireJson J] in
/-- The turn of the lookup. -/
theorem Inv.looks (h : w.Inv call) {x : NativeInput J} {error : Option Thrown}
    (hstage : w.stage = .lookup error) (hordinary : call.OrdinaryTurn w x) :
    Inv call { w with
      stage := x.ending.error.elim (lookupTurn call w.base.store error x.now)
        fun e => .done (.error e) } := by
  have haccepts := h.accepts hstage
  unfold NativeCall.OrdinaryTurn at hordinary
  rw [hstage] at hordinary
  cases hfailed : x.ending.error with
  | some e =>
    refine h.move (fun _ hreceipt => by cases hreceipt) fun receipt hreceipt => ?_
    cases error with
    | none => exact (haccepts receipt hreceipt).elim
    | some e' =>
      rw [hordinary.1] at hfailed
      cases hfailed
  | none =>
    rw [Option.elim_none]
    refine h.move (fun receipt hreceipt => ?_) fun receipt hreceipt => ?_
    · rcases lookupTurn_cases call w.base.store error x.now with
        ⟨found, record, howned, hnames⟩ | hnone
      · rw [howned] at hreceipt
        cases hreceipt
        exact ⟨record, hnames⟩
      · rw [hnone] at hreceipt
        cases hreceipt
    · obtain ⟨-, -, record, hnames⟩ := h.admitted receipt hreceipt
      cases error with
      | none => exact (haccepts receipt hreceipt).elim
      | some e =>
        have hnow := hordinary.2 (Option.isSome_iff_exists.mpr ⟨receipt, hreceipt⟩) record
          hnames.choose_spec.stored
        obtain ⟨threadId, howned⟩ := lookupTurn_of_names (some e) hnames hnow
        rw [howned]
        exact rfl

omit [WireJson J] in
/-- The turn that reads the run of a record. -/
theorem Inv.owns (h : w.Inv call) {x : NativeInput J} {error : Option Thrown}
    {receipt : AdmissionReceipt} (hstage : w.stage = .owned error receipt)
    (hordinary : call.OrdinaryTurn w x) :
    Inv call { w with
      stage := x.ending.error.elim
        (if w.base.store.runs.contains receipt.runId then .done (.ok receipt)
          else .done (.error ownedNotFound))
        fun e => .done (.error e) } := by
  have haccepts := h.accepts hstage
  unfold NativeCall.OrdinaryTurn at hordinary
  rw [hstage] at hordinary
  cases error with
  | none =>
    have hnone : ∀ admitted, admitted ∉ w.admitted := fun admitted hmem => haccepts admitted hmem
    cases x.ending.error with
    | some e => exact h.move (fun _ hother => by cases hother) fun _ hmem => (hnone _ hmem).elim
    | none =>
      rw [Option.elim_none]
      split_ifs
      · exact h.move (fun other hother => h.named other (by rw [hstage]; exact hother))
          fun _ hmem => (hnone _ hmem).elim
      · exact h.move (fun _ hother => by cases hother) fun _ hmem => (hnone _ hmem).elim
  | some e =>
    have hcompletes : x.ending.error = none := hordinary
    rw [hcompletes, Option.elim_none]
    split_ifs with hcontains
    · exact h.move (fun other hother => h.named other (by rw [hstage]; exact hother)) haccepts
    · refine h.move (fun _ hother => by cases hother) fun admitted hmem => ?_
      have hsame : receipt.runId = admitted.runId := haccepts admitted hmem
      rw [hsame] at hcontains
      exact absurd (h.admitted admitted hmem).2.1 hcontains

omit [WireJson J] in
/-- The turns before the admission, over a world that nothing is committed in. -/
theorem Inv.prepares (h : w.Inv call) (hnone : w.admitted = none) (failed : Option Thrown)
    (step : NativeStep) (rest : List NativeStep) :
    Inv call { w with
      stage := failed.elim (.preparing rest) fun e =>
        if step.guarded then .lookup (some e) else .done (.error e) } := by
  have hstage : (failed.elim (.preparing rest) fun e =>
      if step.guarded then .lookup (some e) else .done (.error e) : NativeStage).receipt? =
        none := by
    cases failed with
    | none => rfl
    | some e =>
      rw [Option.elim_some]
      split_ifs <;> rfl
  refine h.move (fun receipt hreceipt => ?_) fun receipt hreceipt => ?_
  · rw [hstage] at hreceipt
    cases hreceipt
  · rw [hnone] at hreceipt
    cases hreceipt

omit [WireJson J] in
/-- The turn that reads the admitted run again. -/
theorem Inv.rereads (h : w.Inv call) {receipt : AdmissionReceipt} {fresh : Bool} {outcomes : ℕ}
    (hstage : w.stage = .rereading receipt fresh outcomes) {run : Run J}
    (hrow : w.base.store.runs.get? receipt.runId = some run) :
    Inv call { w with
      stage :=
        let named : AdmissionReceipt := ⟨call.key.key, run.runId, run.threadId⟩
        if fresh then .following named (NativeFollowUp.afterAdmission outcomes)
        else .done (.ok named) } := by
  have hid : run.runId = receipt.runId := Table.key_of_get? hrow
  obtain ⟨record, threadId, hrecorded⟩ := h.named receipt (by rw [hstage]; rfl)
  have hnames : NamesRun w.base.store call.key ⟨call.key.key, run.runId, run.threadId⟩ record :=
    ⟨threadId, { hrecorded with
      runId := by rw [hrecorded.runId, hid]
      names := rfl }⟩
  have haccepts : ∀ admitted ∈ w.admitted, run.runId = admitted.runId :=
    fun admitted hmem => hid.trans (h.accepts hstage admitted hmem)
  cases fresh with
  | true => exact h.move (fun _ hother => Option.some.inj hother ▸ ⟨record, hnames⟩) haccepts
  | false => exact h.move (fun _ hother => Option.some.inj hother ▸ ⟨record, hnames⟩) haccepts

omit [WireJson J] in
/-- The turns after the admission. -/
theorem Inv.follows (h : w.Inv call) {receipt : AdmissionReceipt} {step : NativeFollowUp}
    {rest : List NativeFollowUp} (hstage : w.stage = .following receipt (step :: rest))
    (failed : Option Thrown) :
    Inv call { w with
      stage := failed.elim (.following receipt rest) fun e =>
        if step.logged then .following receipt rest else .lookup (some e) } := by
  have hgoes : Inv call { w with stage := .following receipt rest } :=
    h.move (fun other hother => h.named other (by rw [hstage]; exact hother))
      fun admitted hmem => h.accepts hstage admitted hmem
  cases failed with
  | none => exact hgoes
  | some e =>
    rw [Option.elim_some]
    split_ifs
    · exact hgoes
    · exact h.failed e

/-- One turn of the call. -/
theorem Inv.turn (h : w.Inv call) {x : NativeInput J} (hordinary : call.Ordinary w (.turn x))
    (hturn : call.turn w x = some w') : w'.Inv call := by
  unfold NativeCall.turn at hturn
  split at hturn
  next error hstage =>
    cases hturn
    exact h.looks hstage hordinary
  next error receipt hstage =>
    cases hturn
    exact h.owns hstage hordinary
  next step rest hstage =>
    have hnone := h.admitted_none fun runId haccepts => by
      rw [hstage] at haccepts
      exact haccepts
    dsimp only at hturn
    split at hturn
    · cases hturn
      exact (h.extends (threadsCreate_extends ..)).prepares hnone ..
    · cases hturn
      exact (h.extends (threadsCreate_extends ..)).prepares hnone ..
    · cases hturn
      exact h.prepares hnone ..
  next hstage =>
    split_ifs at hturn with haborted
    · cases hturn
      exact h.failed _
    · split at hturn
      · cases hturn
        exact h.failed _
      · obtain ⟨base, hstep, rfl⟩ := Option.map_eq_some_iff.mp hturn
        exact h.admits hstep
  next receipt fresh outcomes hstage =>
    cases hturn
    by_cases haborted : x.aborted = true
    · rw [if_pos haborted]
      exact h.failed _
    · rw [if_neg haborted]
      cases x.ending.error with
      | some e => exact h.failed e
      | none =>
        rw [Option.elim_none]
        cases hrow : w.base.store.runs.get? receipt.runId with
        | none => exact h.failed _
        | some run => exact h.rereads hstage hrow
  next receipt step rest hstage =>
    dsimp only at hturn
    split at hturn
    · cases hturn
      exact (h.extends (threadsUpdate_extends ..)).follows hstage _
    · cases hturn
      exact (h.extends (threadsUpdate_extends ..)).follows hstage _
    · cases hturn
      exact h.follows hstage _
  next receipt hstage =>
    cases hturn
    exact h.move (fun other hother => h.named other (by rw [hstage]; exact hother))
      fun admitted hmem => h.accepts hstage admitted hmem
  next => cases hturn

/-- The intent of the admitted run is as the admission wrote it, and the run is active. -/
def Intact (w : NativeWorld J) : Prop :=
  ∀ receipt ∈ w.admitted, ∃ intent,
    w.base.store.slot receipt.runId = ⟨some false, some intent⟩ ∧ intent.Issued .run

omit [WireJson J] in
theorem Intact.due (h : w.Intact) {receipt : AdmissionReceipt} (hreceipt : receipt ∈ w.admitted)
    (now : Timestamp) : (w.base.store.slot receipt.runId).Due now := by
  obtain ⟨intent, hslot, hissued⟩ := h receipt hreceipt
  rw [hslot]
  refine ⟨intent, rfl, ?_, ?_⟩
  · simp [DispatchIntent.Done, hissued.kind]
  · simp [hissued.leaseUntil]

omit [WireJson J] in
theorem Intact.congr (h : w.Intact) (hadmitted : w'.admitted = w.admitted)
    (hslot : ∀ receipt ∈ w.admitted,
      w'.base.store.slot receipt.runId = w.base.store.slot receipt.runId) : w'.Intact := by
  intro receipt hreceipt
  rw [hadmitted] at hreceipt
  rw [hslot receipt hreceipt]
  exact h receipt hreceipt

/-- The slot of a run just admitted. -/
theorem admission_slot {x : NativeInput J} {receipt : AdmissionReceipt}
    (hok : (w.base.store.admitRun (call.admission x) x.draws).1 = .ok receipt)
    (hfresh : w.base.store.replayAdmission call.key = .ok none) :
    ∃ intent, (w.base.store.admitRun (call.admission x) x.draws).2.slot receipt.runId =
        ⟨some false, some intent⟩ ∧ intent.Issued .run := by
  obtain ⟨ids, inserted, hmoves, hnamed⟩ :=
    w.base.store.admitRun_moves (call.admission x) x.draws
  obtain ⟨-, rfl⟩ := hnamed receipt hfresh hok
  have hterminal : (w.base.store.admitRun (call.admission x) x.draws).2.terminal? receipt.runId =
      some false := by
    rcases MemorySkeinStore.admitRun_ok (Prod.ext hok rfl) with ⟨hreplay, -⟩ |
      ⟨-, prepared, displaced, guarded, mid, run, hguards, -, hcommitted⟩
    · rw [show w.base.store.replayAdmission (call.admission x).toAdmissionKey = .ok none
        from hfresh] at hreplay
      cases hreplay
    · have hstatus : run.status = .pending := by
        rw [hcommitted.status, (RunCreate.roundTrip_eq_some hguards.serialized).2.2.2.1]
        rfl
      rw [MemorySkeinStore.terminal?, hcommitted.runs, hcommitted.receipt, Table.get?_write,
        if_pos rfl, Option.map_some, hstatus]
      rfl
  have hmove := hmoves.admitted receipt.runId rfl
  generalize hbefore : w.base.store.slot receipt.runId = before at hmove
  generalize hafter : (w.base.store.admitRun (call.admission x) x.draws).2.slot receipt.runId =
    after at hmove
  have hactive : after.terminal = some false := by
    rw [← hafter]
    exact hterminal
  cases hmove with
  | admitted old terminal hissued =>
    obtain rfl : terminal = false := Option.some.inj hactive
    exact ⟨_, rfl, hissued⟩

/-- The turns of the call leave the intent alone. -/
theorem Intact.turn (hw : w.Inv call) (h : w.Intact) {x : NativeInput J}
    (hturn : call.turn w x = some w') : w'.Intact := by
  have hnone : ∀ {next : NativeWorld J}, next.admitted = none → next.Intact := by
    intro next hnext receipt hreceipt
    rw [hnext] at hreceipt
    cases hreceipt
  unfold NativeCall.turn at hturn
  split at hturn
  · cases hturn
    exact h
  · cases hturn
    exact h
  next step rest hstage =>
    have hadmitted := hw.admitted_none fun runId haccepts => by
      rw [hstage] at haccepts
      exact haccepts
    dsimp only at hturn
    split at hturn <;> cases hturn <;> exact hnone hadmitted
  next hstage =>
    have hadmitted := hw.admitted_none fun runId haccepts => by
      rw [hstage] at haccepts
      exact haccepts
    split_ifs at hturn
    · cases hturn
      exact hnone hadmitted
    · split at hturn
      · cases hturn
        exact hnone hadmitted
      · obtain ⟨base, hstep, rfl⟩ := Option.map_eq_some_iff.mp hturn
        rcases admission_cases hw hstep with ⟨hnothing, -⟩ |
          ⟨receipt, record, hok, hcommitted, hfresh, -⟩
        · exact hnone hnothing
        · intro other hother
          obtain rfl : receipt = other := Option.some.inj (hcommitted.symm.trans hother)
          simp only [AdmissionWorld.step] at hstep
          split_ifs at hstep
          cases hstep
          exact admission_slot hok hfresh
  · cases hturn
    exact h
  · dsimp only at hturn
    split at hturn
    · cases hturn
      exact h.congr rfl fun receipt _ => threadsUpdate_slot ..
    · cases hturn
      exact h.congr rfl fun receipt _ => threadsUpdate_slot ..
    · cases hturn
      exact h
  · cases hturn
    exact h
  · cases hturn

/-- The call knows of the run of `receipt` and of no other, and has committed nothing. -/
structure Repeating (call : NativeCall) (receipt : AdmissionReceipt) (w : NativeWorld J) :
    Prop where
  base : w.base.Inv
  named : ∃ record, NamesRun w.base.store call.key receipt record
  contains : w.base.store.runs.contains receipt.runId = true
  admitted : w.admitted = none
  stage : w.stage = .lookup none ∨
    ∃ found, found.runId = receipt.runId ∧
      (w.stage = .owned none found ∨ w.stage = .done (.ok found))

/-- The call's one lookup succeeds, before the record is over; the record is not used again
after that, and the run is not deleted. -/
def Repeats (call : NativeCall) (receipt : AdmissionReceipt) (w : NativeWorld J) :
    NativeAction J → Prop
  | .turn x => x.ending.error = none ∧
      ∀ record, w.base.store.idempotency.get? call.key.coordinate = some record →
        x.now < record.expiresAt
  | .event e => Retains call.key w.base e ∧ ∀ base', nativeEvent w.base e = some base' →
      base'.store.runs.contains receipt.runId = true

theorem Repeating.step {receipt : AdmissionReceipt} (h : w.Repeating call receipt)
    {a : NativeAction J} (ha : Repeats call receipt w a) (hstep : call.machine.step w a = some w') :
    w'.Repeating call receipt := by
  cases a with
  | event e =>
    obtain ⟨base, hevent, rfl⟩ := Option.map_eq_some_iff.mp hstep
    exact {
      base := nativeEvent_inv h.base hevent
      named := h.named.imp fun _ hnames => hnames.event h.base ha.1 hevent
      contains := ha.2 base hevent
      admitted := h.admitted
      stage := h.stage }
  | turn x =>
    have hturn : call.turn w x = some w' := hstep
    rcases h.stage with hstage | ⟨found, hfound, hstage | hstage⟩
    · obtain ⟨record, hnames⟩ := h.named
      obtain ⟨threadId, howned⟩ := lookupTurn_of_names none hnames
        (ha.2 record hnames.choose_spec.stored)
      simp only [NativeCall.turn, hstage, ha.1, Option.elim_none, howned] at hturn
      cases hturn
      exact ⟨h.base, ⟨record, hnames⟩, h.contains, h.admitted,
        .inr ⟨⟨call.key.key, receipt.runId, threadId⟩, rfl, .inl rfl⟩⟩
    · simp only [NativeCall.turn, hstage, ha.1, Option.elim_none, hfound, h.contains,
        if_true] at hturn
      cases hturn
      exact ⟨h.base, h.named, h.contains, h.admitted, .inr ⟨found, hfound, .inr rfl⟩⟩
    · simp [NativeCall.turn, hstage] at hturn

end NativeWorld

end Along

section Calls
variable {J : Type*} [WireJson J]

/-- No other party touches the admitted run or its intent. -/
def NativeWorld.Undisturbed (w : NativeWorld J) : NativeAction J → Prop
  | .turn _ => True
  | .event e => ∀ receipt ∈ w.admitted, ∀ base', nativeEvent w.base e = some base' →
      base'.store.slot receipt.runId = w.base.store.slot receipt.runId

/-- What the end of a native call says. -/
structure NativeCall.Kept (call : NativeCall) (w : NativeWorld J) : Prop where
  /-- A call that throws has admitted nothing. -/
  thrown : ∀ e, w.stage = .done (.error e) → w.admitted = none
  /-- A receipt names the run that is recorded under the key for this input, which is the one
  that the call has admitted if it has admitted one. -/
  returned : ∀ receipt, w.stage = .done (.ok receipt) →
    (∃ record, NamesRun w.base.store call.key receipt record) ∧
      ∀ admitted ∈ w.admitted, receipt.runId = admitted.runId
  /-- The same call again returns the same run and admits nothing. -/
  again : ∀ receipt, w.stage = .done (.ok receipt) →
    w.base.store.runs.contains receipt.runId = true →
    ∀ repetition : NativeCall, repetition.key.coordinate = call.key.coordinate →
      repetition.key.fingerprint = call.key.fingerprint → ∀ actions w',
      repetition.machine.run { base := w.base } actions = some w' →
      repetition.machine.Along (NativeWorld.Repeats repetition receipt) { base := w.base } actions →
      w'.admitted = none ∧ ∀ result, w'.stage = .done result →
        ∃ found, result = .ok found ∧ found.runId = receipt.runId

omit [WireJson J] in
theorem NamesRun.rekey {store : MemorySkeinStore J} {key again : AdmissionKey}
    {receipt : AdmissionReceipt} {record : IdempotencyRecord J}
    (h : NamesRun store key receipt record) (hkey : again.coordinate = key.coordinate)
    (hfingerprint : again.fingerprint = key.fingerprint) :
    NamesRun store again receipt record := by
  obtain ⟨threadId, hrecorded⟩ := h
  exact ⟨threadId, by rw [hkey]; exact hrecorded.stored,
    hrecorded.fingerprint.trans hfingerprint.symm, hrecorded.runId, hrecorded.threadId, hrecorded.names.trans (Recorded.key_eq hkey).symm⟩

theorem NativeWorld.Inv.kept {call : NativeCall} {w : NativeWorld J} (h : w.Inv call) :
    call.Kept w where
  thrown e hstage := h.admitted_none fun runId haccepts => by
    rw [hstage] at haccepts
    exact haccepts
  returned receipt hstage := by
    refine ⟨h.named receipt (by rw [hstage]; rfl), fun admitted hadmitted => ?_⟩
    have haccepts := (h.admitted admitted hadmitted).1
    rw [hstage] at haccepts
    exact haccepts
  again receipt hstage hcontains repetition hkey hfingerprint actions w' hrun halong := by
    have hnamed := (h.named receipt (by rw [hstage]; rfl)).imp fun _ hnames =>
      hnames.rekey hkey hfingerprint
    have hstart : NativeWorld.Repeating repetition receipt ({ base := w.base } : NativeWorld J) :=
      ⟨h.base, hnamed, hcontains, rfl, .inl rfl⟩
    have hend := Machine.run_invariant_along
      (I := fun v : NativeWorld J => v.Repeating repetition receipt)
      (fun _ _ _ hs hc hstep => hs.step hc hstep) hstart halong hrun
    refine ⟨hend.admitted, fun result hresult => ?_⟩
    rcases hend.stage with hlookup | ⟨found, hfound, howned | hdone⟩
    · rw [hlookup] at hresult
      cases hresult
    · rw [howned] at hresult
      cases hresult
    · rw [hdone] at hresult
      cases hresult
      exact ⟨found, rfl, hfound⟩

/-- Wherever a native start or resume fails, whatever others do meanwhile: a call that throws
has admitted nothing, a receipt names the run admitted under the key for this input, the same
call again returns it and admits nothing, and the intent of an admitted run stays due until
another party takes it or settles the run. -/
theorem nativeCall_keeps_admission {call : NativeCall} {base : AdmissionWorld J}
    (hbase : base.Inv) {actions : List (NativeAction J)} {w : NativeWorld J}
    (h : call.machine.run { base } actions = some w)
    (hordinary : call.machine.Along call.Ordinary { base } actions) :
    call.Kept w ∧ (call.machine.Along NativeWorld.Undisturbed { base } actions →
      ∀ receipt ∈ w.admitted, ∀ now, (w.base.store.slot receipt.runId).Due now) := by
  have hstart : NativeWorld.Inv call { base } := {
    base := hbase
    named := fun receipt hreceipt => by cases hreceipt
    admitted := fun receipt hreceipt => by cases hreceipt }
  have hstep : ∀ (v : NativeWorld J) a v', v.Inv call → call.Ordinary v a →
      call.machine.step v a = some v' → v'.Inv call := by
    intro v a v' hv ha hv'
    cases a with
    | turn x => exact hv.turn ha hv'
    | event e =>
      obtain ⟨base', hevent, rfl⟩ := Option.map_eq_some_iff.mp hv'
      exact hv.event ha hevent
  refine ⟨(Machine.run_invariant_along (I := fun v : NativeWorld J => v.Inv call)
    hstep hstart hordinary h).kept, fun hundisturbed receipt hreceipt now => ?_⟩
  have hend := Machine.run_invariant_along
    (I := fun v : NativeWorld J => v.Inv call ∧ v.Intact)
    (fun v a v' hv ha hv' => ⟨hstep v a v' hv.1 ha.1 hv', by
      cases a with
      | turn x => exact hv.2.turn hv.1 hv'
      | event e =>
        obtain ⟨base', hevent, rfl⟩ := Option.map_eq_some_iff.mp hv'
        exact hv.2.congr rfl fun receipt hmem => ha.2 receipt hmem base' hevent⟩)
    ⟨hstart, fun receipt hmem => by cases hmem⟩ (Machine.along_and hordinary hundisturbed) h
  exact hend.2.due hreceipt now

end Calls

namespace NativeCall

def startCall : NativeCall where
  key := { scope := "native", key := "k", fingerprint := "f", now := 0, expiresAt := 1000 }
  steps := startSteps true 0

def startInput : NativeInput ℕ where
  now := 0
  admission := {
    scope := ""
    key := ""
    fingerprint := ""
    now := 0
    expiresAt := 0
    run := { threadId := .of "t", assistantId := .of "a" } }
  draws := ⟨.of "run", "claim", fun _ => .of "d", 0⟩
  thread := { threadId := some (.of "t") }

/-- The queue takes the run, or does not say that it has. -/
def enqueueFails : NativeInput ℕ := { startInput with ending := .failsAfter .aborted }

/-- The execution claim of a resume is not granted. -/
def claimFails : NativeInput ℕ := { startInput with ending := .failsBefore .aborted }

def resumeCall : NativeCall := { startCall with steps := resumeSteps }

/-- A resume ends outside its `try`. -/
def failedClaim : List (NativeAction ℕ) :=
  List.replicate 3 (.turn startInput) ++ [.turn claimFails]

/-- Seven turns up to the admission, the admission and its reread, what follows them up to the
enqueue that fails, and the lookup. -/
def failedEnqueue : List (NativeAction ℕ) :=
  List.replicate 11 (.turn startInput) ++ [.turn enqueueFails, .turn startInput, .turn startInput]

/-- An ordinary turn of a call that nobody else is about. -/
def AloneTurn (call : NativeCall) (w : NativeWorld ℕ) : NativeAction ℕ → Prop
  | .turn x => call.OrdinaryTurn w x
  | .event _ => False

instance (call : NativeCall) : ∀ w a, Decidable (call.AloneTurn w a)
  | w, .turn x => inferInstanceAs (Decidable (call.OrdinaryTurn w x))
  | _, .event _ => isFalse id

theorem failedEnqueue_kept :
    (∃ w, startCall.machine.run { base := { store := {} } } failedEnqueue = some w ∧
      w.stage = .done (.ok ⟨"k", .of "run", .of "t"⟩) ∧ startCall.Kept w) ∧
    ∃ w, resumeCall.machine.run { base := { store := {} } } failedClaim = some w ∧
      w.stage = .done (.error .aborted) ∧ resumeCall.Kept w := by
  have hinv : AdmissionWorld.Inv ({ store := {} } : AdmissionWorld ℕ) := {
    live := fun expected admitted h => by cases h
    reserved := fun pair h => by cases h }
  have hordinary : ∀ (call : NativeCall) (w : NativeWorld ℕ) a, call.AloneTurn w a →
      call.Ordinary w a := fun call w a h => by
    cases a with
    | turn x => exact h
    | event e => exact h.elim
  have hstart : startCall.machine.Along startCall.AloneTurn { base := { store := {} } }
      failedEnqueue := by decide +kernel
  have hresume : resumeCall.machine.Along resumeCall.AloneTurn { base := { store := {} } }
      failedClaim := by decide +kernel
  exact ⟨⟨_, rfl, rfl, (nativeCall_keeps_admission hinv rfl (hstart.mono (hordinary _))).1⟩,
    _, rfl, rfl, (nativeCall_keeps_admission hinv rfl (hresume.mono (hordinary _))).1⟩

end NativeCall
end Skein
