import Mathlib.Data.List.Nodup
import Skein.ChannelAttempts
import Skein.ThreadShownBusy

/-!
# A pending question is answered

The first run created after an interrupt is a resume of it, in every interleaving of the
execution that parks and of any number of events, exactly when no fresh turn lands between
the write of the run row and that of the thread row: the guard of a fresh turn looks at the
thread row only, which still reads busy then.
-/
namespace Skein

/-- The mirror of a run that parked on its question. -/
def ThreadMirror.Asks {J : Type*} : ThreadMirror J → Prop
  | .patch wanted => wanted.status = some .interrupted
  | .error _ => False

namespace ChannelPipeline
variable {ι J : Type*} (p : ChannelPipeline ι J)

/-- The asking run has not settled yet. -/
def Running (store : MemorySkeinStore J) : Prop :=
  ∃ run, store.runs.get? p.asking = some run ∧ run.status.isTerminal = false

def ThreadShows (store : MemorySkeinStore J) (status : ThreadStatus) : Prop :=
  ∃ thread, store.threads.get? p.threadId = some thread ∧ thread.status = status

/-- What the two rows read at each stage of the execution. -/
def StageAt (store : MemorySkeinStore J) : ExecutionStage J → Prop
  | .executing _ => p.Running store ∧ p.ThreadShows store .busy
  | .finalizing ending => p.Running store ∧ p.ThreadShows store .busy ∧
      ∃ values interrupts, ending = .completed values interrupts true
  | .mirroring mirror _ | .mirroringWrite mirror _ _ =>
    p.asked store = true ∧ p.ThreadShows store .busy ∧ mirror.Asks
  | .finishing => p.asked store = true ∧ p.ThreadShows store .interrupted
  | _ => False

def EngineAt (store : MemorySkeinStore J) : MirrorProcess J → Prop
  | .execution runId threadId _ stage =>
    runId = p.asking ∧ threadId = p.threadId ∧ p.StageAt store stage
  | .done => p.asked store = true ∧ p.ThreadShows store .interrupted
  | _ => False

/-- A turn of the engine leaves the rows of other runs alone. -/
structure EngineFrame (store store' : MemorySkeinStore J) : Prop where
  rows : ∀ k, k ≠ p.asking → store'.runs.get? k = store.runs.get? k
  asked : p.asked store = true → p.asked store' = true
  shown : p.ThreadShows store .interrupted → p.ThreadShows store' .interrupted

variable {p}

theorem not_asked_of_running {store : MemorySkeinStore J} (h : p.Running store) :
    p.asked store = false := by
  obtain ⟨run, hrun, hactive⟩ := h
  unfold asked
  rw [hrun, Option.any_some, decide_eq_false_iff_not]
  intro hstatus
  rw [hstatus] at hactive
  cases hactive

theorem EngineFrame.refl (store : MemorySkeinStore J) : p.EngineFrame store store :=
  ⟨fun _ _ => rfl, id, id⟩

theorem ThreadShows.congr {store store' : MemorySkeinStore J} {status : ThreadStatus}
    (h : p.ThreadShows store status) (hthreads : store'.threads = store.threads) :
    p.ThreadShows store' status := by
  unfold ThreadShows
  rw [hthreads]
  exact h

/-- A write of the asking run's row that settles it as interrupted. -/
theorem engineFrame_of_settled {store store' : MemorySkeinStore J} (h : p.Running store)
    (hrows : ∀ k, k ≠ p.asking → store'.runs.get? k = store.runs.get? k)
    {run : Run J} (hrun : store'.runs.get? p.asking = some run) (hstatus : run.status = .interrupted)
    (hthreads : store'.threads = store.threads) :
    p.asked store' = true ∧ p.EngineFrame store store' := by
  refine ⟨by simp [asked, hrun, hstatus], hrows, fun hasked => ?_, fun h => h.congr hthreads⟩
  rw [not_asked_of_running h] at hasked
  cases hasked

theorem settled_writeStatus {store : MemorySkeinStore J} {run : Run J}
    (hrun : store.runs.get? p.asking = some run) (hactive : run.status.isTerminal = false)
    (now : Timestamp) :
    p.asked (store.writeStatus run .interrupted none now) = true ∧
      p.EngineFrame store (store.writeStatus run .interrupted none now) := by
  have hid : run.runId = p.asking := Table.key_of_get? hrun
  have hrows : ∀ k, (store.writeStatus run .interrupted none now).runs.get? k =
      if p.asking = k then some { run with status := .interrupted, error := none, updatedAt := now }
      else store.runs.get? k := by
    intro k
    rw [MemorySkeinStore.writeStatus, Table.get?_write]
    dsimp only
    rw [hid]
  exact engineFrame_of_settled ⟨run, hrun, hactive⟩ (fun k hk => by rw [hrows, if_neg (Ne.symm hk)])
    (by rw [hrows, if_pos rfl]) rfl rfl

section Engine
variable [WireJson J] [EngineJson J]

/-- `settleRun` of the parked run, in each of its ways. -/
theorem settleRun_engineAt {store : MemorySkeinStore J} (hrunning : p.Running store)
    (hbusy : p.ThreadShows store .busy) {x : MirrorInput J} (hclones : x.way.clones = true)
    {values interrupts : J} :
    p.StageAt (ExecutionStage.settleRun store p.asking (.completed values interrupts true) x).1
        (ExecutionStage.settleRun store p.asking (.completed values interrupts true) x).2 ∧
      p.EngineFrame store
        (ExecutionStage.settleRun store p.asking (.completed values interrupts true) x).1 := by
  obtain ⟨run, hrun, hactive⟩ := hrunning
  unfold ExecutionStage.settleRun
  cases hway : x.way with
  | finalizeRun =>
    dsimp only [MemorySkeinStore.runsGet]
    rw [hrun]
    simp only [hactive, Bool.false_eq_true, if_false]
    exact ⟨⟨⟨run, hrun, hactive⟩, hbusy, _, _, rfl⟩, .refl store⟩
  | settleNativeRun result delivery =>
    dsimp only
    have hthreads := store.runsSettle_threads p.asking
      ⟨RunEnding.status (.completed values interrupts true),
        RunEnding.error (.completed values interrupts true), result, delivery⟩ x.uuid x.now
    split
    next e store' hsettle =>
      rw [MemorySkeinStore.runsSettle_error hsettle]
      exact ⟨⟨⟨run, hrun, hactive⟩, hbusy⟩, .refl store⟩
    next row store' hsettle =>
      rw [hsettle] at hthreads
      obtain ⟨final, hfinal, rfl, rfl⟩ := MemorySkeinStore.runsSettle_ok hsettle
      have hrow := store.settleFinal_get? p.asking final x.uuid x.now p.asking
      rw [if_pos rfl, hrun, Option.map_some] at hrow
      have hstatus : (MemorySkeinStore.settledRun run final x.now).status = .interrupted := by
        rw [MemorySkeinStore.settledRun, hactive]
        exact congrArg Subtype.val (RunSettlement.roundTrip_status hfinal)
      have hframe := engineFrame_of_settled ⟨run, hrun, hactive⟩
        (fun k hk => by rw [MemorySkeinStore.settleFinal_get?, if_neg hk]) hrow hstatus hthreads
      refine ⟨?_, hframe.2⟩
      simp only [MemorySkeinStore.settleFinal_run, hrow, Option.elim_some, hstatus]
      exact ⟨hframe.1, hbusy.congr hthreads, rfl⟩
  | recordDelivery delivery =>
    dsimp only
    have hthreads := store.runsFinalizeWithDelivery_threads p.asking
      ⟨RunEnding.status (.completed values interrupts true),
        RunEnding.error (.completed values interrupts true), delivery⟩ x.uuid x.now
    rw [hway] at hclones
    have hcloned : delivery.clones = true := hclones
    unfold MemorySkeinStore.runsFinalizeWithDelivery MemorySkeinStore.insertClaimed at hthreads ⊢
    simp only [hrun, hactive, hcloned, Bool.false_eq_true, if_false, if_true] at hthreads ⊢
    have hframe := settled_writeStatus hrun hactive x.now
    exact ⟨⟨hframe.1, hbusy.congr hthreads, rfl⟩, ⟨hframe.2.rows, hframe.2.asked, hframe.2.shown⟩⟩

omit [WireJson J] in
theorem mirror_update_status {mirror : ThreadMirror J} (h : mirror.Asks) (thread : Thread J) :
    (mirror.update thread).status = some .interrupted := by
  cases mirror with
  | error message => exact h.elim
  | patch wanted =>
    have hstatus : wanted.status = some .interrupted := h
    simp [ThreadMirror.update, hstatus]

/-- A turn of the engine moves its stage on, and touches no row but its two. -/
theorem engine_step {exec exec' : ExecutionState J} {engine engine' : MirrorProcess J}
    {x : MirrorInput J} {values interrupts : J} (hat : p.EngineAt exec.store engine)
    (hending : x.ending = .completed values interrupts true) (hthrows : x.throws = false)
    (hclones : x.way.clones = true)
    (h : MirrorProcess.resume exec 0 engine x = some (exec', engine')) :
    p.EngineAt exec'.store engine' ∧ p.EngineFrame exec.store exec'.store := by
  cases engine with
  | done => cases h
  | cancelRun => exact hat.elim
  | cancelling => exact hat.elim
  | checkingLatest => exact hat.elim
  | freeing => exact hat.elim
  | execution runId threadId shown stage =>
    obtain ⟨rfl, rfl, hstage⟩ := hat
    cases stage with
    | waiting => exact hstage.elim
    | claimed => exact hstage.elim
    | entered => exact hstage.elim
    | starting => exact hstage.elim
    | showing => exact hstage.elim
    | showingWrite => exact hstage.elim
    | executing caught =>
      simp only [MirrorProcess.resume, MirrorProcess.resumeExecution, hending] at h
      split_ifs at h
      cases h
      obtain ⟨hnext, hframe⟩ := settleRun_engineAt hstage.1 hstage.2 hclones
      exact ⟨⟨rfl, rfl, hnext⟩, hframe⟩
    | finalizing ending =>
      obtain ⟨⟨run, hrun, hactive⟩, hbusy, v, i, rfl⟩ := hstage
      have hset : exec.store.runsSetStatus p.asking .interrupted none x.now =
          (.ok { run with status := .interrupted, error := none, updatedAt := x.now },
            exec.store.writeStatus run .interrupted none x.now) := by
        simp [MemorySkeinStore.runsSetStatus, hrun]
      simp only [MirrorProcess.resume, MirrorProcess.resumeExecution, RunEnding.status,
        RunEnding.error, hset] at h
      cases h
      have hframe := settled_writeStatus hrun hactive x.now
      exact ⟨⟨rfl, rfl, hframe.1, hbusy.congr rfl, rfl⟩, hframe.2⟩
    | mirroring mirror caught =>
      obtain ⟨hasked, ⟨thread, hthread, hbusy⟩, hasks⟩ := hstage
      simp only [MirrorProcess.resume, MirrorProcess.resumeExecution,
        MemorySkeinStore.threadsGet, hthread] at h
      cases h
      exact ⟨⟨rfl, rfl, hasked, ⟨thread, hthread, hbusy⟩, hasks⟩, .refl _⟩
    | mirroringWrite mirror thread caught =>
      obtain ⟨hasked, ⟨existing, hexisting, hbusy⟩, hasks⟩ := hstage
      have hid : existing.threadId = p.threadId := Table.key_of_get? hexisting
      simp only [MirrorProcess.resume, MirrorProcess.resumeExecution,
        MemorySkeinStore.threadsUpdate, hexisting, hthrows, Bool.false_eq_true, if_false] at h
      cases h
      have hshown : p.ThreadShows
          { exec.store with
            threads := exec.store.threads.write
              (MemorySkeinStore.patchedThread existing (mirror.update thread) x.now) }
          .interrupted := by
        refine ⟨_, (Table.get?_write _ _ _).trans (if_pos hid), ?_⟩
        simp [MemorySkeinStore.patchedThread, mirror_update_status hasks]
      exact ⟨⟨rfl, rfl, hasked, hshown⟩, ⟨fun _ _ => rfl, id, fun _ => hshown⟩⟩
    | finishing =>
      cases h
      exact ⟨hstage, .refl _⟩

end Engine

/-- The plan resumes the run that parked with the event's answer, and starts nothing. -/
def Answers (event : InboundEvent J) (plan : RunPlan J) : Prop :=
  plan.resume = some (event.resumeWith.getD event.input) ∧ plan.input = none

/-- The two plans of the default policy. -/
inductive DefaultPlan (event : InboundEvent J) (plan : RunPlan J) : Prop
  | answer (hanswers : Answers event plan) (hguard : plan.ifThreadStatus = some [.interrupted])
      (hstrategy : plan.multitaskStrategy = none)
  | turn (hresume : plan.resume = none)
      (hguard : plan.ifThreadStatus = some [.idle, .error, .busy])
      (hstrategy : plan.multitaskStrategy = some .enqueue)

theorem resolveRunPlan_default {event : InboundEvent J} (h : event.onExisting = none)
    (status : Option ThreadStatus) : DefaultPlan event (resolveRunPlan event status) := by
  unfold resolveRunPlan
  rw [h]
  dsimp only [Option.getD_none]
  split_ifs
  · exact .answer ⟨rfl, rfl⟩ rfl rfl
  · exact .turn rfl rfl rfl

variable (p) in
/-- What holds of the store, the events and the log in every interleaving. -/
structure Inv [DecidableEq ι] (w₀ w : ChannelWorld ι J) : Prop where
  engine : p.EngineAt w.exec.store w.engine
  plans : ∀ i plan again, w.events i = .creating plan again → DefaultPlan (p.event i) plan
  created : ∀ c ∈ w.created, DefaultPlan (p.event c.event) c.plan ∧ c.runId ≠ p.asking ∧
    w.events c.event = .created c.runId ∧ ∃ run, w.exec.store.runs.get? c.runId = some run ∧
      run.threadId = p.threadId ∧ run.status.isTerminal = false
  nodup : (w.created.map Creation.event).Nodup
  once : (w.created.filter fun c => c.plan.resume.isSome).length ≤ 1
  window : ∀ c ∈ w.created, c.asked = true → p.asked w.exec.store = true ∧
    (¬p.ThreadShows w.exec.store .interrupted → c.plan.resume = none)
  rows : ∀ k, w.exec.store.runs.contains k = true ↔
    w₀.exec.store.runs.contains k = true ∨ ∃ c ∈ w.created, c.runId = k

/-- The execution has shown its thread busy, and no event has been handled yet. -/
structure Ready [DecidableEq ι] (p : ChannelPipeline ι J) (w : ChannelWorld ι J) : Prop where
  engine : w.engine = .execution p.asking p.threadId true (.executing false)
  running : p.Running w.exec.store
  busy : p.ThreadShows w.exec.store .busy
  events : ∀ i, w.events i = .resolving false
  created : w.created = []

theorem Ready.inv [DecidableEq ι] {w : ChannelWorld ι J} (h : Ready p w) : p.Inv w w where
  engine := by
    rw [h.engine]
    exact ⟨rfl, rfl, h.running, h.busy⟩
  plans i plan again hplan := by
    rw [h.events i] at hplan
    cases hplan
  created := by simp [h.created]
  nodup := by simp [h.created]
  once := by simp [h.created]
  window := by simp [h.created]
  rows := by simp [h.created]

theorem asked_contains {store : MemorySkeinStore J} (h : p.asked store = true) :
    store.runs.contains p.asking = true := by
  unfold asked at h
  cases hrun : store.runs.get? p.asking with
  | none => simp [hrun] at h
  | some run => simp [OrderedMap.contains, hrun]

theorem EngineAt.contains {store : MemorySkeinStore J} {engine : MirrorProcess J}
    (h : p.EngineAt store engine) : store.runs.contains p.asking = true := by
  have hrunning : p.Running store → store.runs.contains p.asking = true := by
    rintro ⟨run, hrun, -⟩
    simp [OrderedMap.contains, hrun]
  cases engine with
  | done => exact asked_contains h.1
  | cancelRun => exact h.elim
  | cancelling => exact h.elim
  | checkingLatest => exact h.elim
  | freeing => exact h.elim
  | execution runId threadId shown stage =>
    obtain ⟨-, -, hstage⟩ := h
    cases stage with
    | executing => exact hrunning hstage.1
    | finalizing => exact hrunning hstage.1
    | mirroring => exact asked_contains hstage.1
    | mirroringWrite => exact asked_contains hstage.1
    | finishing => exact asked_contains hstage.1
    | waiting => exact hstage.elim
    | claimed => exact hstage.elim
    | entered => exact hstage.elim
    | starting => exact hstage.elim
    | showing => exact hstage.elim
    | showingWrite => exact hstage.elim

/-- A stage depends on the row of its run and on the thread rows only. -/
theorem EngineAt.congr {store store' : MemorySkeinStore J} {engine : MirrorProcess J}
    (h : p.EngineAt store engine)
    (hrow : store'.runs.get? p.asking = store.runs.get? p.asking)
    (hthreads : store'.threads = store.threads) : p.EngineAt store' engine := by
  have hshows : ∀ status, p.ThreadShows store' status ↔ p.ThreadShows store status := by
    intro status
    rw [ThreadShows, ThreadShows, hthreads]
  have hstage : ∀ stage, p.StageAt store' stage ↔ p.StageAt store stage := by
    intro stage
    cases stage <;> simp only [StageAt, Running, asked, hrow, hshows]
  cases engine with
  | done => exact ⟨by rw [asked, hrow]; exact h.1, (hshows _).mpr h.2⟩
  | execution => exact ⟨h.1, h.2.1, (hstage _).mpr h.2.2⟩
  | cancelRun => exact h.elim
  | cancelling => exact h.elim
  | checkingLatest => exact h.elim
  | freeing => exact h.elim

/-- An attempt that inserted a run. -/
structure Inserts [WireJson J] (p : ChannelPipeline ι J) (store store' : MemorySkeinStore J) (i : ι)
    (plan : RunPlan J) (now : Timestamp) (run : Run J) : Prop where
  unused : store.runs.contains run.runId = false
  threadId : run.threadId = p.threadId
  active : run.status.isTerminal = false
  runs : store'.runs = store.runs.write run
  threads : store'.threads = store.threads
  guard : ∀ statuses ∈ plan.ifThreadStatus, ∃ status ∈ statuses, p.ThreadShows store status
  idle : plan.multitaskStrategy = none → store.activeRuns p.threadId = []
  lands : store.Lands (p.admission i) (p.runCreate i plan now)

variable [DecidableEq ι] [WireJson J] {w₀ w w' : ChannelWorld ι J}

/-- Everything an attempt can do to the world. -/
theorem create_cases {i : ι} {draws : AdmissionDraws} (hw : p.Inv w₀ w)
    (h : p.create w i draws = some w') :
    ∃ plan again, w.events i = .creating plan again ∧
      ((∃ stage, (∀ runId, stage ≠ .created runId) ∧
          (∀ plan again, stage ≠ .creating plan again) ∧
          w' = { w with events := Function.update w.events i stage }) ∨
        (∃ runId, w' = { w with events := Function.update w.events i (.created runId) }) ∨
        ∃ run store', Inserts p w.exec.store store' i plan draws.now run ∧
          w' = { w with
            exec := { w.exec with store := store' }
            events := Function.update w.events i (.created run.runId)
            created := w.created ++ [⟨i, run.runId, plan, p.asked w.exec.store⟩] }) := by
  unfold create at h
  split at h
  next plan again hstage =>
    refine ⟨plan, again, hstage, ?_⟩
    split_ifs at h with hguard
    rw [not_or] at hguard
    have hstatuses : ∃ statuses, plan.ifThreadStatus = some statuses := by
      cases hw.plans i plan again hstage with
      | answer _ hguard _ => exact ⟨_, hguard⟩
      | turn _ hguard _ => exact ⟨_, hguard⟩
    obtain ⟨statuses, hstatuses⟩ := hstatuses
    have houtcome := w.exec.store.createPendingRun_outcome (p.admission i)
      (p.runCreate i plan draws.now) rfl statuses draws (by simpa using hguard.1)
    dsimp only at h
    rw [hstatuses] at h
    generalize w.exec.store.createPendingRun (p.admission i) (p.runCreate i plan draws.now)
      (some statuses) draws = done at h houtcome
    cases houtcome with
    | refused e =>
      cases h
      refine .inl ⟨_, ?_, ?_, rfl⟩
      · intro runId
        split_ifs <;> simp
      · intro plan again
        split_ifs <;> simp
    | replayed runId hrow =>
      simp only [hrow, if_true] at h
      cases h
      exact .inr (.inl ⟨runId, rfl⟩)
    | @inserted run thread store' hunused hthreadId hstatus hruns hthreads hthread hallowed hidle
        hlands =>
      simp only [hunused, Bool.false_eq_true, if_false] at h
      cases h
      refine .inr (.inr ⟨run, store', ?_, rfl⟩)
      exact {
        unused := hunused
        threadId := hthreadId
        active := by rw [hstatus]; rfl
        runs := hruns
        threads := hthreads
        guard := by
          intro other hother
          rw [hstatuses] at hother
          cases hother
          exact ⟨thread.status, hallowed, thread, hthread, rfl⟩
        idle := by
          intro hnone
          refine hidle ?_
          simp [runCreate, hnone]
        lands := hlands }
  · cases h

omit [WireJson J] in
/-- An event that moves on without inserting a run. -/
theorem Inv.move (hw : p.Inv w₀ w) {i : ι} {stage : EventStage J}
    (hopen : ∀ runId, w.events i ≠ .created runId)
    (hplan : ∀ plan again, stage = .creating plan again → DefaultPlan (p.event i) plan) :
    p.Inv w₀ { w with events := Function.update w.events i stage } where
  engine := hw.engine
  plans j plan again hj := by
    by_cases hji : j = i
    · subst hji
      exact hplan plan again (by simpa using hj)
    · exact hw.plans j plan again (by simpa [hji] using hj)
  created c hc := by
    obtain ⟨hdefault, hother, hevent, hrow⟩ := hw.created c hc
    have hne : c.event ≠ i := by
      rintro rfl
      exact hopen _ hevent
    exact ⟨hdefault, hother, by simpa [hne] using hevent, hrow⟩
  nodup := hw.nodup
  once := hw.once
  window := hw.window
  rows := hw.rows

/-- A turn of the engine. -/
theorem Inv.engine_step [EngineJson J] (hw : p.Inv w₀ w) {x : MirrorInput J} {values interrupts : J}
    {exec : ExecutionState J} {engine : MirrorProcess J}
    (hending : x.ending = .completed values interrupts true) (hthrows : x.throws = false)
    (hclones : x.way.clones = true)
    (h : MirrorProcess.resume w.exec 0 w.engine x = some (exec, engine)) :
    p.Inv w₀ { w with exec, engine } := by
  obtain ⟨hat, hframe⟩ := ChannelPipeline.engine_step hw.engine hending hthrows hclones h
  exact {
    engine := hat
    plans := hw.plans
    created := by
      intro c hc
      obtain ⟨hdefault, hother, hevent, run, hrun, hactive⟩ := hw.created c hc
      exact ⟨hdefault, hother, hevent, run, by rw [hframe.rows _ hother]; exact hrun, hactive⟩
    nodup := hw.nodup
    once := hw.once
    window := by
      intro c hc hasked
      obtain ⟨hbefore, hturn⟩ := hw.window c hc hasked
      exact ⟨hframe.asked hbefore, fun hnot => hturn fun hshown => hnot (hframe.shown hshown)⟩
    rows := by
      intro k
      rw [← hw.rows k]
      by_cases hk : k = p.asking
      · rw [hk]
        exact ⟨fun _ => hw.engine.contains, fun _ => hat.contains⟩
      · rw [OrderedMap.contains, OrderedMap.contains, hframe.rows k hk] }

section Insertion
variable {i : ι} {plan : RunPlan J} {again : Bool} {now : Timestamp} {run : Run J}
  {store' : MemorySkeinStore J}

theorem Inserts.ne_asking (h : Inserts p w.exec.store store' i plan now run) (hw : p.Inv w₀ w) :
    run.runId ≠ p.asking := by
  intro heq
  have hrow := hw.engine.contains
  rw [← heq, h.unused] at hrow
  cases hrow

/-- The interrupted run keeps its row. -/
theorem Inserts.get?_asking (h : Inserts p w.exec.store store' i plan now run)
    (hw : p.Inv w₀ w) : store'.runs.get? p.asking = w.exec.store.runs.get? p.asking := by
  rw [h.runs, Table.get?_write, if_neg (h.ne_asking hw)]

theorem Inserts.asked_eq (h : Inserts p w.exec.store store' i plan now run) (hw : p.Inv w₀ w) :
    p.asked store' = p.asked w.exec.store := by
  rw [asked, h.get?_asking hw]
  rfl

omit [DecidableEq ι] in
theorem Inserts.shows_iff (h : Inserts p w.exec.store store' i plan now run)
    (status : ThreadStatus) : p.ThreadShows store' status ↔ p.ThreadShows w.exec.store status := by
  rw [ThreadShows, ThreadShows, h.threads]

omit [WireJson J] in
/-- An event that is still creating has created nothing. -/
theorem Inv.event_ne (hw : p.Inv w₀ w) (hstage : w.events i = .creating plan again) :
    ∀ c ∈ w.created, c.event ≠ i := by
  rintro c hc rfl
  rw [(hw.created c hc).2.2.1] at hstage
  cases hstage

omit [WireJson J] in
/-- A run created before is still active, so nothing was created on an idle thread. -/
theorem Inv.created_nil (hw : p.Inv w₀ w) (hidle : w.exec.store.activeRuns p.threadId = []) :
    w.created = [] := by
  apply List.eq_nil_iff_forall_not_mem.mpr
  intro c hc
  obtain ⟨-, -, -, other, hother, hthread, hactive⟩ := hw.created c hc
  have hmem : other ∈ w.exec.store.activeRuns p.threadId :=
    MemorySkeinStore.mem_activeRuns.mpr ⟨by rwa [Table.key_of_get? hother], hthread, hactive⟩
  rw [hidle] at hmem
  cases hmem

/-- The runs created stand in their rows, the new one with them. -/
theorem Inv.created_insert (hw : p.Inv w₀ w) (hstage : w.events i = .creating plan again)
    (h : Inserts p w.exec.store store' i plan now run) :
    ∀ c ∈ w.created ++ [⟨i, run.runId, plan, p.asked w.exec.store⟩],
      DefaultPlan (p.event c.event) c.plan ∧ c.runId ≠ p.asking ∧
        Function.update w.events i (.created run.runId) c.event = .created c.runId ∧
        ∃ run, store'.runs.get? c.runId = some run ∧ run.threadId = p.threadId ∧
          run.status.isTerminal = false := by
  intro c hc
  rcases List.mem_append.mp hc with hc | hc
  · obtain ⟨hdefault, hother, hevent, old, hold, hactive⟩ := hw.created c hc
    refine ⟨hdefault, hother, by simpa [hw.event_ne hstage c hc] using hevent, old, ?_, hactive⟩
    rw [h.runs, Table.get?_write, if_neg]
    · exact hold
    · intro heq
      have hunused := h.unused
      rw [heq, OrderedMap.contains_eq_false_iff, hold] at hunused
      cases hunused
  · rw [List.mem_singleton.mp hc]
    refine ⟨hw.plans i plan again hstage, h.ne_asking hw, by simp, run, ?_, h.threadId, h.active⟩
    rw [h.runs, Table.get?_write, if_pos rfl]

/-- A second resume would need an idle thread, on which nothing has been created. -/
theorem Inv.once_insert (hw : p.Inv w₀ w) (hstage : w.events i = .creating plan again)
    (h : Inserts p w.exec.store store' i plan now run) :
    ((w.created ++ [⟨i, run.runId, plan, p.asked w.exec.store⟩] : List (Creation ι J)).filter
      fun c => c.plan.resume.isSome).length ≤ 1 := by
  rw [List.filter_append]
  cases hw.plans i plan again hstage with
  | answer hanswers hguard hstrategy =>
    rw [hw.created_nil (h.idle hstrategy)]
    exact (List.length_filter_le _ _)
  | turn hresume =>
    simpa [hresume] using hw.once

/-- After the interrupt no turn is created while the thread shows it. -/
theorem Inv.window_insert (hw : p.Inv w₀ w) (hstage : w.events i = .creating plan again)
    (h : Inserts p w.exec.store store' i plan now run) :
    ∀ c ∈ w.created ++ [⟨i, run.runId, plan, p.asked w.exec.store⟩], c.asked = true →
      p.asked store' = true ∧ (¬p.ThreadShows store' .interrupted → c.plan.resume = none) := by
  intro c hc hc'
  rcases List.mem_append.mp hc with hc | hc
  · obtain ⟨hbefore, hturn⟩ := hw.window c hc hc'
    exact ⟨(h.asked_eq hw).trans hbefore,
      fun hnot => hturn (fun hshown => hnot ((h.shows_iff _).mpr hshown))⟩
  · rw [List.mem_singleton.mp hc] at hc' ⊢
    refine ⟨(h.asked_eq hw).trans hc', fun hnot => ?_⟩
    cases hw.plans i plan again hstage with
    | turn hresume => exact hresume
    | answer hanswers hguard hstrategy =>
      obtain ⟨status, hstatus, hshown⟩ := h.guard _ hguard
      rw [List.mem_singleton.mp hstatus] at hshown
      exact absurd ((h.shows_iff _).mpr hshown) hnot

/-- The rows are those of the start and of the runs created. -/
theorem Inv.rows_insert (hw : p.Inv w₀ w) (h : Inserts p w.exec.store store' i plan now run)
    (k : RunId) :
    store'.runs.contains k = true ↔ w₀.exec.store.runs.contains k = true ∨
      ∃ c ∈ w.created ++ [⟨i, run.runId, plan, p.asked w.exec.store⟩], c.runId = k := by
  have hcontains : store'.runs.contains k = true ↔
      run.runId = k ∨ w.exec.store.runs.contains k = true := by
    rw [OrderedMap.contains, OrderedMap.contains, h.runs, Table.get?_write]
    split_ifs with hk <;> simp [hk]
  rw [hcontains, hw.rows k]
  simp only [List.mem_append, List.mem_singleton]
  constructor
  · rintro (hk | hk | ⟨c, hc, hk⟩)
    · exact .inr ⟨_, .inr rfl, hk⟩
    · exact .inl hk
    · exact .inr ⟨c, .inl hc, hk⟩
  · rintro (hk | ⟨c, hc | hc, hk⟩)
    · exact .inr (.inl hk)
    · exact .inr (.inr ⟨c, hc, hk⟩)
    · exact .inl (by rw [← hk, hc])

/-- An insertion. -/
theorem Inv.insert (hw : p.Inv w₀ w) (hstage : w.events i = .creating plan again)
    (h : Inserts p w.exec.store store' i plan now run) :
    p.Inv w₀ { w with
      exec := { w.exec with store := store' }
      events := Function.update w.events i (.created run.runId)
      created := w.created ++ [⟨i, run.runId, plan, p.asked w.exec.store⟩] } where
  engine := hw.engine.congr (h.get?_asking hw) h.threads
  plans j other again' hj := by
    by_cases hji : j = i
    · rw [hji] at hj
      simp at hj
    · exact hw.plans j other again' (by simpa [hji] using hj)
  created := hw.created_insert hstage h
  nodup := by
    rw [List.map_append, List.nodup_append]
    refine ⟨hw.nodup, by simp, ?_⟩
    intro j hj k hk hjk
    obtain ⟨c, hc, rfl⟩ := List.mem_map.mp hj
    rw [List.map_singleton, List.mem_singleton] at hk
    exact hw.event_ne hstage c hc (hjk.trans hk)
  once := hw.once_insert hstage h
  window := hw.window_insert hstage h
  rows := hw.rows_insert h

end Insertion

/-- The first run created while the interrupted run is the latest one to have settled. -/
def firstSince (w : ChannelWorld ι J) : Option (Creation ι J) := w.created.find? Creation.asked

variable (p) in
/-- A pending question is answered. -/
structure QuestionKept [EngineJson J] (w₀ w : ChannelWorld ι J) : Prop where
  /-- The first run created since the interrupt is a resume of it. -/
  answered : ∀ c, firstSince w = some c → Answers (p.event c.event) c.plan
  /-- At most one event creates a run that resumes. -/
  once : (w.created.filter fun c => c.plan.resume.isSome).length ≤ 1
  /-- An attempt that is refused, or throws, creates nothing. -/
  refused : ∀ i draws w', p.step w (.create i draws) = some w' →
    (∀ runId, w'.events i ≠ .created runId) → w'.exec.store = w.exec.store
  /-- Each event creates at most one run. -/
  single : (w.created.map Creation.event).Nodup
  /-- The runs of the store are those it started with, and those of the events. -/
  logged : ∀ k, w.exec.store.runs.contains k = true ↔
    w₀.exec.store.runs.contains k = true ∨ ∃ c ∈ w.created, c.runId = k

variable (p) in
/-- A fresh turn does not land between the two writes of the engine. -/
def LandsMirrored (w : ChannelWorld ι J) : ChannelStep ι J → Prop
  | .create i draws => ∀ plan again, w.events i = .creating plan again → plan.resume = none →
      p.asked w.exec.store = true →
      w.exec.store.Lands (p.admission i) (p.runCreate i plan draws.now) →
      p.ThreadShows w.exec.store .interrupted
  | _ => True

omit [DecidableEq ι] [WireJson J] in
theorem firstSince_append (w : ChannelWorld ι J) (c : Creation ι J) :
    firstSince { w with created := w.created ++ [c] } =
      (firstSince w).or (if c.asked then some c else none) := by
  simp only [firstSince, List.find?_append, List.find?_singleton]

variable [EngineJson J]

theorem Inv.step (hdefault : ∀ i, (p.event i).onExisting = none) (hw : p.Inv w₀ w)
    {a : ChannelStep ι J} (h : p.step w a = some w') : p.Inv w₀ w' := by
  cases a with
  | engine x =>
    simp only [ChannelPipeline.step] at h
    split at h
    next values interrupts hending =>
      split_ifs at h with hfails
      rw [Bool.or_eq_true, not_or] at hfails
      obtain ⟨⟨exec, engine⟩, hresume, rfl⟩ := Option.map_eq_some_iff.mp h
      exact hw.engine_step hending (by simpa using hfails.1) (by simpa using hfails.2) hresume
    · cases h
  | read i answered =>
    simp only [ChannelPipeline.step, read] at h
    split at h
    next again hstage =>
      cases h
      refine hw.move (by simp [hstage]) ?_
      intro plan again' hplan
      cases hplan
      exact resolveRunPlan_default (hdefault i) _
    · cases h
  | create i draws =>
    obtain ⟨plan, again, hstage, ⟨stage, hopen, hplan, rfl⟩ | ⟨runId, rfl⟩ |
      ⟨run, store', hinserts, rfl⟩⟩ := create_cases hw h
    · exact hw.move (by simp [hstage]) fun plan again heq => absurd heq (hplan plan again)
    · exact hw.move (by simp [hstage]) (by simp)
    · exact hw.insert hstage hinserts

/-- The first creation since the interrupt stays the first one. -/
theorem firstSince_step (hw : p.Inv w₀ w) {a : ChannelStep ι J} (h : p.step w a = some w')
    {c : Creation ι J} (hfirst : firstSince w = some c) : firstSince w' = some c := by
  cases a with
  | engine x =>
    simp only [ChannelPipeline.step] at h
    split at h
    · split_ifs at h
      obtain ⟨⟨exec, engine⟩, -, rfl⟩ := Option.map_eq_some_iff.mp h
      exact hfirst
    · cases h
  | read i answered =>
    simp only [ChannelPipeline.step, read] at h
    split at h
    · cases h
      exact hfirst
    · cases h
  | create i draws =>
    obtain ⟨plan, again, -, ⟨stage, -, -, rfl⟩ | ⟨runId, rfl⟩ | ⟨run, store', -, rfl⟩⟩ :=
      create_cases hw h
    · exact hfirst
    · exact hfirst
    · have happend := firstSince_append w ⟨i, run.runId, plan, p.asked w.exec.store⟩
      rw [hfirst, Option.some_or] at happend
      exact happend

/-- Where no fresh turn lands between the two writes, the first creation is a resume. -/
theorem answered_step (hw : p.Inv w₀ w)
    (hanswered : ∀ c, firstSince w = some c → Answers (p.event c.event) c.plan)
    {a : ChannelStep ι J} (hc : p.LandsMirrored w a) (h : p.step w a = some w') :
    ∀ c, firstSince w' = some c → Answers (p.event c.event) c.plan := by
  cases a with
  | engine x =>
    simp only [ChannelPipeline.step] at h
    split at h
    · split_ifs at h
      obtain ⟨⟨exec, engine⟩, -, rfl⟩ := Option.map_eq_some_iff.mp h
      exact hanswered
    · cases h
  | read i answered =>
    simp only [ChannelPipeline.step, read] at h
    split at h
    · cases h
      exact hanswered
    · cases h
  | create i draws =>
    obtain ⟨plan, again, hstage, ⟨stage, -, -, rfl⟩ | ⟨runId, rfl⟩ |
      ⟨run, store', hinserts, rfl⟩⟩ := create_cases hw h
    · exact hanswered
    · exact hanswered
    · intro c hfirst
      have happend := firstSince_append w ⟨i, run.runId, plan, p.asked w.exec.store⟩
      cases hbefore : firstSince w with
      | some first =>
        rw [hbefore, Option.some_or] at happend
        have heq : c = first := Option.some.inj (hfirst.symm.trans happend)
        exact heq ▸ hanswered first hbefore
      | none =>
        rw [hbefore, Option.none_or] at happend
        have hsome : (if p.asked w.exec.store = true then
            some (⟨i, run.runId, plan, p.asked w.exec.store⟩ : Creation ι J) else none) = some c :=
          happend.symm.trans hfirst
        split_ifs at hsome with hasked
        cases hsome
        cases hw.plans i plan again hstage with
        | answer hanswers => exact hanswers
        | turn hresume hguard =>
          obtain ⟨thread, hthread, hshown⟩ :=
            hc plan again hstage hresume hasked hinserts.lands
          obtain ⟨status, hstatus, other, hother, hallowed⟩ := hinserts.guard _ hguard
          have heq : other = thread := Option.some.inj (hother.symm.trans hthread)
          rw [← hallowed, heq, hshown] at hstatus
          simp at hstatus

omit [DecidableEq ι] [WireJson J] [EngineJson J] in
theorem EngineAt.shows {store : MemorySkeinStore J} {engine : MirrorProcess J}
    (h : p.EngineAt store engine) : p.ThreadShows store .busy ∨ p.ThreadShows store .interrupted := by
  cases engine with
  | done => exact .inr h.2
  | cancelRun => exact h.elim
  | cancelling => exact h.elim
  | checkingLatest => exact h.elim
  | freeing => exact h.elim
  | execution runId threadId shown stage =>
    obtain ⟨-, -, hstage⟩ := h
    cases stage with
    | executing => exact .inl hstage.2
    | finalizing => exact .inl hstage.2.1
    | mirroring => exact .inl hstage.2.1
    | mirroringWrite => exact .inl hstage.2.1
    | finishing => exact .inr hstage.2
    | waiting => exact hstage.elim
    | claimed => exact hstage.elim
    | entered => exact hstage.elim
    | starting => exact hstage.elim
    | showing => exact hstage.elim
    | showingWrite => exact hstage.elim

/-- A fresh turn that lands between the two writes stays unanswered. -/
theorem landsMirrored_of_answered (hw : p.Inv w₀ w) {a : ChannelStep ι J}
    (h : p.step w a = some w')
    (hanswered : ∀ c, firstSince w' = some c → Answers (p.event c.event) c.plan) :
    p.LandsMirrored w a := by
  cases a with
  | engine => trivial
  | read => trivial
  | create i draws =>
    intro plan again hstage hresume hasked hlands
    by_contra hnot
    obtain ⟨thread, hthread, hbusy⟩ := hw.engine.shows.resolve_right hnot
    obtain ⟨hguard, hstrategy⟩ : plan.ifThreadStatus = some [.idle, .error, .busy] ∧
        plan.multitaskStrategy = some .enqueue := by
      cases hw.plans i plan again hstage with
      | answer hanswers =>
        rw [hanswers.1] at hresume
        cases hresume
      | turn _ hguard hstrategy => exact ⟨hguard, hstrategy⟩
    have hlog : ∃ runId, w'.created = w.created ++ [⟨i, runId, plan, true⟩] := by
      simp only [ChannelPipeline.step, create, hstage] at h
      split_ifs at h with hfresh
      rw [not_or] at hfresh
      obtain ⟨runId, hdone, hunused⟩ := MemorySkeinStore.createPendingRun_lands
        (p.runCreate i plan draws.now) rfl draws (by simpa using hfresh.1) hlands (by simp [runCreate, hstrategy]) hthread
        (show thread.status ∈ [.idle, .error, .busy] by simp [hbusy])
      rw [← hguard] at hdone
      simp only [hdone, hunused, Bool.false_eq_true, if_false, hasked] at h
      cases h
      exact ⟨runId, rfl⟩
    obtain ⟨runId, hlog⟩ := hlog
    have hfirst : firstSince w' = (firstSince w).or (some ⟨i, runId, plan, true⟩) := by
      simp [firstSince, hlog]
    cases hbefore : firstSince w with
    | none =>
      rw [hbefore, Option.none_or] at hfirst
      have hresumed := (hanswered _ hfirst).1
      rw [hresume] at hresumed
      cases hresumed
    | some first =>
      rw [hbefore, Option.some_or] at hfirst
      have hmem := List.mem_of_find?_eq_some hbefore
      have hsince := List.find?_some hbefore
      have hresumed := (hanswered _ hfirst).1
      rw [(hw.window first hmem hsince).2 hnot] at hresumed
      cases hresumed

/-- A refused attempt leaves the store as it was. -/
theorem refused_store (hw : p.Inv w₀ w) {i : ι} {draws : AdmissionDraws}
    (h : p.step w (.create i draws) = some w')
    (hopen : ∀ runId, w'.events i ≠ .created runId) : w'.exec.store = w.exec.store := by
  obtain ⟨plan, again, -, ⟨stage, -, -, rfl⟩ | ⟨runId, rfl⟩ | ⟨run, store', -, rfl⟩⟩ :=
    create_cases hw h
  · rfl
  · rfl
  · exact absurd (by simp) (hopen run.runId)

/-- A pending question is answered in just those interleavings in which no fresh turn lands
between the write of the run row and that of the thread row. -/
theorem question_kept_iff (hdefault : ∀ i, (p.event i).onExisting = none) (h0 : Ready p w₀)
    {history : List (ChannelStep ι J)} (h : p.machine.run w₀ history = some w) :
    p.QuestionKept w₀ w ↔ p.machine.Along p.LandsMirrored w₀ history := by
  have hstep : ∀ u a v, p.Inv w₀ u → p.machine.step u a = some v → p.Inv w₀ v :=
    fun u a v hu hv => hu.step hdefault hv
  have hw : p.Inv w₀ w := Machine.run_invariant hstep h0.inv h
  constructor
  · intro hkept
    refine Machine.along_of_steps h fun before a u v hprefix hu hv => ?_
    have hinv : p.Inv w₀ u := Machine.run_invariant hstep h0.inv hu
    obtain ⟨after, rfl⟩ := hprefix
    have hrest : p.machine.run v after = some w := by
      have hsplit := h
      rw [List.append_assoc, Machine.run_append, hu, Option.bind_some] at hsplit
      obtain ⟨v', hv', hrun⟩ := (p.machine.run_cons_eq_some).mp hsplit
      rw [hv] at hv'
      cases hv'
      exact hrun
    refine landsMirrored_of_answered hinv hv fun c hfirst => hkept.answered c ?_
    have hlast := Machine.run_invariant
      (I := fun x => p.Inv w₀ x ∧ firstSince x = some c)
      (fun x b y hx hy => ⟨hstep x b y hx.1 hy, firstSince_step hx.1 hy hx.2⟩)
      ⟨hstep u a v hinv hv, hfirst⟩ hrest
    exact hlast.2
  · intro halong
    have hanswered := Machine.run_invariant_along
      (I := fun x => p.Inv w₀ x ∧ ∀ c, firstSince x = some c → Answers (p.event c.event) c.plan)
      (fun x b y hx hb hy => ⟨hstep x b y hx.1 hy, answered_step hx.1 hx.2 hb hy⟩)
      ⟨h0.inv, by simp [firstSince, h0.created]⟩ halong h
    exact ⟨hanswered.2, hw.once, fun i draws w' h' => refused_store hw h', hw.nodup, hw.rows⟩

/-- One event without an admission key, on a thread whose run is about to park. -/
def parkingPipeline : ChannelPipeline Unit ℕ where
  threadId := .of "t"
  assistantId := .of "a"
  asking := .of "asking"
  event := fun _ => { input := 7 }
  admission := fun _ => none
  toKwargs := fun _ plan => plan.input.getD 0

def parkingStore : MemorySkeinStore ℕ where
  threads := (∅ : Table ThreadId (Thread ℕ) Thread.threadId).write
    { threadId := .of "t", createdAt := 0, updatedAt := 0, stateUpdatedAt := 0, metadata := 0
      status := .busy, values := 0, interrupts := 0 }
  runs := (∅ : Table RunId (Run ℕ) Run.runId).write
    { runId := .of "asking", threadId := .of "t", assistantId := .of "a", createdAt := 0
      updatedAt := 0, status := .running, metadata := 0, multitaskStrategy := none }

def parkingWorld : ChannelWorld Unit ℕ where
  exec := { store := parkingStore }
  engine := .execution (.of "asking") (.of "t") true (.executing false)
  events := fun _ => .resolving false

def parkingInput : MirrorInput ℕ := { now := 1, ending := .completed 0 0 true }

/-- The row of the run is settled, and the event is handled before the thread row is. -/
def tramplingHistory : List (ChannelStep Unit ℕ) :=
  [.engine parkingInput, .engine parkingInput, .read () true,
    .create () ⟨.of "fresh", "claim", fun _ => .of "d", 2⟩]

theorem trampled_not_kept :
    ∃ w, parkingPipeline.machine.run parkingWorld tramplingHistory = some w ∧
      ¬ parkingPipeline.QuestionKept parkingWorld w := by
  refine ⟨_, rfl, fun hkept => ?_⟩
  have hresumed := (hkept.answered ⟨(), .of "fresh", _, true⟩ rfl).1
  cases hresumed

theorem parkingWorld_ready : Ready parkingPipeline parkingWorld where
  engine := rfl
  running := ⟨_, rfl, rfl⟩
  busy := ⟨_, rfl, rfl⟩
  events _ := rfl
  created := rfl

/-- The thread row is written first. -/
def answeringHistory : List (ChannelStep Unit ℕ) :=
  [.engine parkingInput, .engine parkingInput, .engine parkingInput, .engine parkingInput,
    .read () true, .create () ⟨.of "resuming", "claim", fun _ => .of "d", 2⟩]

def answeredWorld : ChannelWorld Unit ℕ :=
  (parkingPipeline.machine.run parkingWorld answeringHistory).getD parkingWorld

theorem answeredWorld_kept :
    parkingPipeline.QuestionKept parkingWorld answeredWorld := by
  have hmirrored : parkingPipeline.machine.Along parkingPipeline.LandsMirrored parkingWorld
      answeringHistory := by
    refine ⟨trivial, trivial, trivial, trivial, trivial, ?_, trivial⟩
    intro plan again hplan hturn
    cases hplan
    cases hturn
  exact (question_kept_iff (fun _ => rfl) parkingWorld_ready
    (show parkingPipeline.machine.run parkingWorld answeringHistory = some answeredWorld
      from rfl)).mpr hmirrored

end ChannelPipeline
end Skein
