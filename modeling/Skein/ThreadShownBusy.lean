import Skein.ThreadMirror

/-!
# A thread with an executing run is shown busy

From the busy mirror of an execution to the mirror of its settlement the thread row stays
busy, in every interleaving in which no cancel request frees the thread in between, and
only in those. The execution claim keeps the mirrors of other executions out of that
window; nothing keeps out the write of `cancelRun`, which does not look at what else
executes on the thread.
-/
namespace Skein

namespace MemorySkeinStore
variable {J : Type*}

theorem runsSetStatus_threads (store : MemorySkeinStore J) (runId : RunId) (status : RunStatus)
    (error : Option J) (now : Timestamp) :
    (store.runsSetStatus runId status error now).2.threads = store.threads := by
  unfold runsSetStatus
  split
  · rfl
  · split_ifs <;> rfl

theorem createRun_threads [EmptyCollection J] (store : MemorySkeinStore J) (input : RunCreate J)
    (uuid : RunId) (now : Timestamp) :
    (store.createRun input uuid now).2.threads = store.threads := by
  unfold createRun
  dsimp only
  split_ifs <;> rfl

theorem settleFinal_threads (store : MemorySkeinStore J) (runId : RunId) (final : RunSettlement J)
    (uuid : DeliveryId) (now : Timestamp) :
    (store.settleFinal runId final uuid now).2.threads = store.threads := by
  rw [settleFinal_frame]

theorem runsSettle_threads [WireJson J] (store : MemorySkeinStore J) (runId : RunId)
    (input : RunSettlement J) (uuid : DeliveryId) (now : Timestamp) :
    (store.runsSettle runId input uuid now).2.threads = store.threads := by
  unfold runsSettle
  split
  · rfl
  · exact store.settleFinal_threads runId _ uuid now

theorem insertClaimed_threads [WireJson J] (store : MemorySkeinStore J) (runId : RunId)
    (runStatus : RunStatus) (input : DeliveryCreate J) (uuid : DeliveryId) (now : Timestamp) :
    (store.insertClaimed runId runStatus input uuid now).2.threads = store.threads := by
  unfold insertClaimed
  split_ifs <;> rfl

theorem runsFinalizeWithDelivery_threads [WireJson J] (store : MemorySkeinStore J) (runId : RunId)
    (final : RunFinalization J) (uuid : DeliveryId) (now : Timestamp) :
    (store.runsFinalizeWithDelivery runId final uuid now).2.threads = store.threads := by
  unfold runsFinalizeWithDelivery
  split
  · exact store.insertClaimed_threads _ _ _ _ _
  · split_ifs
    · exact store.insertClaimed_threads _ _ _ _ _
    · exact (store.writeStatus _ _ _ _).insertClaimed_threads _ _ _ _ _

/-- The thread row reads `busy`. -/
def ShowsBusy (store : MemorySkeinStore J) (threadId : ThreadId) : Prop :=
  (store.threads.get? threadId).any (·.status = .busy) = true

instance (store : MemorySkeinStore J) (threadId : ThreadId) :
    Decidable (store.ShowsBusy threadId) := by
  unfold ShowsBusy
  infer_instance

theorem ShowsBusy.congr {store store' : MemorySkeinStore J} {threadId : ThreadId}
    (h : store.ShowsBusy threadId) (hthreads : store'.threads = store.threads) :
    store'.ShowsBusy threadId := by
  unfold ShowsBusy
  rw [hthreads]
  exact h

theorem ShowsBusy.of_ne {store : MemorySkeinStore J} {threadId k : ThreadId}
    (h : store.ShowsBusy k) (hne : k ≠ threadId) (patch : ThreadUpdate J) (now : Timestamp) :
    (store.threadsUpdate threadId patch now).2.ShowsBusy k := by
  unfold ShowsBusy
  rw [threadsUpdate_get?, if_neg hne]
  exact h

/-- A successful update shows the status it was given. -/
theorem showsBusy_of_update {store store' : MemorySkeinStore J} {threadId : ThreadId}
    {patch : ThreadUpdate J} {now : Timestamp} {thread : Thread J}
    (h : store.threadsUpdate threadId patch now = (.ok thread, store'))
    (hstatus : patch.status = some .busy) : store'.ShowsBusy threadId := by
  have hget := store.threadsUpdate_get? threadId patch now threadId
  unfold threadsUpdate at h hget
  cases hthread : store.threads.get? threadId with
  | none =>
    simp [hthread] at h
  | some existing =>
    simp only [hthread, Prod.mk.injEq] at h hget
    unfold ShowsBusy
    rw [← h.2, hget]
    simp [patchedThread, hstatus]

/-- Freeing a thread that is shown busy shows it idle. -/
theorem not_showsBusy_of_idle (store : MemorySkeinStore J) (threadId : ThreadId)
    (now : Timestamp) :
    ¬ (store.threadsUpdate threadId { status := some .idle } now).2.ShowsBusy threadId := by
  unfold ShowsBusy
  rw [threadsUpdate_get?, if_pos rfl]
  cases store.threads.get? threadId with
  | none => simp
  | some thread => simp [patchedThread]

end MemorySkeinStore

@[simp] theorem ThreadMirror.update_busy {J : Type*} [EngineJson J] (thread : Thread J) :
    ((ThreadMirror.patch { status := some .busy }).update thread).status = some .busy := by
  simp [ThreadMirror.update]

namespace MirrorProcess
variable {J : Type*}

/-- The thread whose execution claim a party holds. -/
def claim : MirrorProcess J → Option ThreadId
  | .execution _ _ _ .waiting => none
  | .execution _ threadId _ _ => some threadId
  | _ => none

/-- The thread a party has shown as busy, until it mirrors its settlement or returns
without doing so. -/
def window : MirrorProcess J → Option ThreadId
  | .execution _ _ _ .waiting | .execution _ _ _ .finishing => none
  | .execution _ threadId true _ => some threadId
  | _ => none

/-- The thread a party is about to set idle. -/
def frees : MirrorProcess J → Option ThreadId
  | .freeing run => some run.threadId
  | _ => none

theorem claim_of_window {p : MirrorProcess J} {threadId : ThreadId}
    (h : p.window = some threadId) : p.claim = some threadId := by
  unfold window at h
  split at h
  · cases h
  · cases h
  next runId t stage hwaiting hfinishing =>
    cases h
    cases stage with
    | waiting => exact (hwaiting rfl).elim
    | _ => rfl
  · cases h

/-- Every thread in the window of an execution is shown busy. -/
def ShownBusy (w : Pool (ExecutionState J) (MirrorProcess J)) : Prop :=
  ∀ p ∈ w.procs, ∀ threadId ∈ p.window, w.shared.store.ShowsBusy threadId

instance (w : Pool (ExecutionState J) (MirrorProcess J)) : Decidable (ShownBusy w) := by
  unfold ShownBusy
  infer_instance

/-- A cancel request writes its thread row while an execution of the thread is in its
window. -/
def Intrudes (w : Pool (ExecutionState J) (MirrorProcess J)) :
    Action (RunsEvent J) (MirrorProcess J) (MirrorInput J) → Prop
  | .resume i _ => ∃ p ∈ w.procs, ∃ threadId ∈ p.window, w.procs[i]?.bind frees = some threadId
  | _ => False

/-- What one turn of process `i` does to the claims and the thread rows. -/
inductive Turn (i : ℕ) (s s' : ExecutionState J) (p p' : MirrorProcess J) : Prop
  | keeps (threads : s'.store.threads = s.store.threads) (holders : s'.holders = s.holders)
    (claim : p'.claim = p.claim) (window : p'.window = p.window ∨ p'.window = none)
  | claims (threadId : ThreadId) (free : s.holders.get? threadId = none)
    (store : s'.store = s.store) (holders : s'.holders = s.holders.set threadId i)
    (claim : p'.claim = some threadId) (window : p'.window = none)
  | releases (threadId : ThreadId) (held : p.claim = some threadId) (store : s'.store = s.store)
    (holders : s'.holders = s.holders.erase threadId) (left : p' = .done)
  | mirrors (threadId : ThreadId) (patch : MemorySkeinStore.ThreadUpdate J) (now : Timestamp)
    (held : p.claim = some threadId)
    (written : s'.store = (s.store.threadsUpdate threadId patch now).2)
    (holders : s'.holders = s.holders) (claim : p'.claim = some threadId)
    (window : p'.window = none ∨
      p'.window = some threadId ∧ s'.store.ShowsBusy threadId)
  | frees (threadId : ThreadId) (now : Timestamp) (freed : p.frees = some threadId)
    (written : s'.store = (s.store.threadsUpdate threadId { status := some .idle } now).2)
    (holders : s'.holders = s.holders) (left : p' = .done)

variable {i : ℕ} {s s' : ExecutionState J} {p p' : MirrorProcess J}

/-- A turn of an execution that writes no thread row and keeps its claim. -/
theorem Turn.of_goto {runId : RunId} {threadId : ThreadId} {shown : Bool}
    {stage stage' : ExecutionStage J} {store : MemorySkeinStore J} (hwaiting : stage ≠ .waiting)
    (hfinishing : stage ≠ .finishing) (hstage' : stage' ≠ .waiting)
    (hthreads : store.threads = s.store.threads) :
    Turn i s { s with store } (.execution runId threadId shown stage)
      (.execution runId threadId shown stage') := by
  refine Turn.keeps hthreads rfl ?_ ?_
  · cases stage <;> cases stage' <;> simp_all [MirrorProcess.claim]
  · cases shown <;> cases stage <;> cases stage' <;> simp_all [MirrorProcess.window]

theorem Turn.of_idle {store : MemorySkeinStore J} (hthreads : store.threads = s.store.threads)
    (hclaim : p.claim = none) (hclaim' : p'.claim = none) : Turn i s { s with store } p p' := by
  refine Turn.keeps hthreads rfl (hclaim'.trans hclaim.symm) (.inr ?_)
  cases hwindow : p'.window with
  | none => rfl
  | some threadId =>
    rw [claim_of_window hwindow] at hclaim'
    cases hclaim'

theorem rejected_ne_waiting (caught : Bool) :
    ExecutionStage.rejected caught ≠ (.waiting : ExecutionStage J) := by
  cases caught <;> simp [ExecutionStage.rejected]

theorem settled_ne_waiting (ending : RunEnding J) (final : RunStatus) :
    ExecutionStage.settled ending final ≠ .waiting := by
  unfold ExecutionStage.settled
  split <;> simp

theorem env_threads [EmptyCollection J] (s : ExecutionState J) (e : RunsEvent J) :
    (env s e).store.threads = s.store.threads := by
  cases e with
  | create input uuid now => exact s.store.createRun_threads _ uuid now
  | displace runId reason now => exact s.store.runsSetStatus_threads runId _ none now
  | delete runId => rfl

theorem env_holders [EmptyCollection J] (s : ExecutionState J) (e : RunsEvent J) :
    (env s e).holders = s.holders := by
  cases e <;> rfl

variable [WireJson J] [EngineJson J]

theorem settleRun_ne_waiting (store : MemorySkeinStore J) (runId : RunId) (ending : RunEnding J)
    (x : MirrorInput J) : (ExecutionStage.settleRun store runId ending x).2 ≠ .waiting := by
  unfold ExecutionStage.settleRun
  split
  · split
    · exact settled_ne_waiting _ _
    · split_ifs
      · exact settled_ne_waiting _ _
      · simp
  · split
    · exact rejected_ne_waiting _
    · exact settled_ne_waiting _ _
  · split
    · exact rejected_ne_waiting _
    · exact settled_ne_waiting _ _

theorem settleRun_threads (store : MemorySkeinStore J) (runId : RunId) (ending : RunEnding J)
    (x : MirrorInput J) :
    (ExecutionStage.settleRun store runId ending x).1.threads = store.threads := by
  unfold ExecutionStage.settleRun
  split
  · split
    · rfl
    · split_ifs <;> rfl
  next result delivery _ =>
    have hthreads := store.runsSettle_threads runId
      ⟨ending.status, ending.error, result, delivery⟩ x.uuid x.now
    split <;> rename_i hsettle <;> rw [hsettle] at hthreads <;> exact hthreads
  next delivery _ =>
    have hthreads := store.runsFinalizeWithDelivery_threads runId
      ⟨ending.status, ending.error, delivery⟩ x.uuid x.now
    split <;> rename_i hsettle <;> rw [hsettle] at hthreads <;> exact hthreads

theorem resumeExecution_turn {runId : RunId} {threadId : ThreadId} {shown : Bool}
    {stage : ExecutionStage J} {x : MirrorInput J}
    (h : resumeExecution s i runId threadId shown stage x = some (s', p')) :
    Turn i s s' (.execution runId threadId shown stage) p' := by
  cases stage with
  | waiting =>
    simp only [resumeExecution] at h
    split_ifs at h with hheld
    cases h
    have hfree : s.holders.get? threadId = none :=
      (OrderedMap.contains_eq_false_iff _ _).mp (by simpa using hheld)
    exact .claims threadId hfree rfl rfl rfl rfl
  | claimed =>
    simp only [resumeExecution] at h
    split_ifs at h <;> cases h <;> exact .of_goto (by simp) (by simp) (by simp) rfl
  | entered =>
    simp only [resumeExecution] at h
    split_ifs at h <;> cases h <;> exact .of_goto (by simp) (by simp) (by simp) rfl
  | starting =>
    have hthreads := s.store.runsSetStatus_threads runId .running none x.now
    simp only [resumeExecution] at h
    split at h
    next hset =>
      cases h
      rw [hset] at hthreads
      exact .of_goto (by simp) (by simp) (rejected_ne_waiting _) hthreads
    next hset =>
      rw [hset] at hthreads
      split_ifs at h <;> cases h <;> exact .of_goto (by simp) (by simp) (by simp) hthreads
  | showing =>
    simp only [resumeExecution] at h
    split at h <;> cases h <;> exact .of_goto (by simp) (by simp) (by simp) rfl
  | showingWrite thread =>
    simp only [resumeExecution] at h
    split at h
    next hupdate =>
      cases h
      apply Turn.of_goto (by simp) (by simp) (rejected_ne_waiting _)
      unfold MemorySkeinStore.threadsUpdate at hupdate
      split at hupdate <;> cases hupdate
      rfl
    next hupdate =>
      cases h
      exact .mirrors threadId _ x.now rfl (by rw [hupdate]) rfl rfl
        (.inr ⟨rfl, MemorySkeinStore.showsBusy_of_update hupdate (ThreadMirror.update_busy thread)⟩)
  | executing caught =>
    simp only [resumeExecution] at h
    split_ifs at h
    cases h
    exact .of_goto (by simp) (by simp) (settleRun_ne_waiting _ _ _ _) (settleRun_threads _ _ _ _)
  | finalizing ending =>
    have hthreads := s.store.runsSetStatus_threads runId ending.status ending.error x.now
    simp only [resumeExecution] at h
    split at h <;> rename_i hset <;> cases h <;> rw [hset] at hthreads
    · exact .of_goto (by simp) (by simp) (rejected_ne_waiting _) hthreads
    · exact .of_goto (by simp) (by simp) (settled_ne_waiting _ _) hthreads
  | mirroring mirror caught =>
    simp only [resumeExecution] at h
    split at h <;> cases h <;> exact .of_goto (by simp) (by simp) (by simp) rfl
  | mirroringWrite mirror thread caught =>
    simp only [resumeExecution] at h
    split at h
    next hupdate =>
      cases h
      apply Turn.of_goto (by simp) (by simp) (rejected_ne_waiting _)
      unfold MemorySkeinStore.threadsUpdate at hupdate
      split at hupdate <;> cases hupdate
      rfl
    next hupdate =>
      split_ifs at h <;> cases h
      · refine .mirrors threadId _ x.now rfl (by rw [hupdate]) rfl ?_ (.inl ?_)
        · cases caught <;> rfl
        · cases caught <;> rfl
      · exact .mirrors threadId _ x.now rfl (by rw [hupdate]) rfl rfl (.inl rfl)
  | finishing =>
    cases h
    exact .releases threadId rfl rfl rfl rfl

theorem resume_turn {x : MirrorInput J} (h : resume s i p x = some (s', p')) :
    Turn i s s' p p' := by
  cases p with
  | execution runId threadId shown stage => exact resumeExecution_turn h
  | cancelRun runId recovering =>
    simp only [resume] at h
    split at h
    · cases h
      exact .of_idle rfl rfl rfl
    · split_ifs at h <;> cases h <;> exact .of_idle rfl rfl rfl
  | cancelling run recovering =>
    have hnext : (if recovering then MirrorProcess.checkingLatest run
        else .freeing run).claim = none := by
      cases recovering <;> rfl
    simp only [resume] at h
    generalize (if recovering then MirrorProcess.checkingLatest run else .freeing run) = next
      at h hnext
    split at h
    next result delivery _ =>
      have hthreads := s.store.runsSettle_threads run.runId
        { status := ⟨.cancelled, RunStatus.isTerminal_cancelled⟩, delivery } x.uuid x.now
      split at h <;> rename_i hsettle <;> cases h <;> rw [hsettle] at hthreads
      · exact .of_idle hthreads rfl rfl
      · exact .of_idle hthreads rfl hnext
    all_goals
      have hthreads := s.store.runsSetStatus_threads run.runId .cancelled none x.now
      split_ifs at h
      · cases h
        exact .of_idle rfl rfl hnext
      · split at h <;> rename_i hset <;> cases h <;> rw [hset] at hthreads
        · exact .of_idle hthreads rfl rfl
        · exact .of_idle hthreads rfl hnext
  | checkingLatest run =>
    simp only [resume] at h
    split_ifs at h <;> cases h <;> exact .of_idle rfl rfl rfl
  | freeing run =>
    cases h
    exact .frees run.threadId x.now rfl rfl rfl rfl
  | done => cases h

/-- A party holds the claim it has taken, and the thread in its window is shown busy. -/
structure Keeps (s : ExecutionState J) (i : ℕ) (p : MirrorProcess J) : Prop where
  held : ∀ threadId ∈ p.claim, s.holders.get? threadId = some i
  busy : ∀ threadId ∈ p.window, s.store.ShowsBusy threadId

omit [WireJson J] [EngineJson J] in
theorem keeps_done (s : ExecutionState J) (i : ℕ) : Keeps s i .done :=
  ⟨by simp [claim], by simp [window]⟩

omit [WireJson J] [EngineJson J] in
/-- What a turn that leaves the thread rows alone keeps. -/
theorem Keeps.frame {j : ℕ} {q : MirrorProcess J} (hq : Keeps s j q)
    (hthreads : s'.store.threads = s.store.threads)
    (hheld : ∀ threadId ∈ q.claim, s'.holders.get? threadId = s.holders.get? threadId) :
    Keeps s' j q where
  held := fun threadId hclaim => (hheld threadId hclaim).trans (hq.held threadId hclaim)
  busy := fun threadId hwindow => (hq.busy threadId hwindow).congr hthreads

omit [WireJson J] [EngineJson J] in
/-- The party that moves keeps its own assertion. -/
theorem Turn.own (h : Turn i s s' p p') (hp : Keeps s i p) : Keeps s' i p' := by
  cases h with
  | keeps threads holders claim window =>
    constructor
    · intro threadId hclaim
      rw [holders]
      exact hp.held threadId (claim ▸ hclaim)
    · intro threadId hwindow
      rcases window with hsame | hnone
      · exact (hp.busy threadId (hsame ▸ hwindow)).congr threads
      · simp [hnone] at hwindow
  | claims threadId free store holders claim window =>
    constructor
    · intro t hclaim
      rw [claim, Option.mem_some_iff] at hclaim
      rw [holders, hclaim]
      exact OrderedMap.get?_set_self _ _ _
    · simp [window]
  | releases threadId held store holders left => exact left ▸ keeps_done s' i
  | mirrors threadId patch now held written holders claim window =>
    constructor
    · intro t hclaim
      rw [claim, Option.mem_some_iff] at hclaim
      rw [holders]
      exact hp.held t (hclaim ▸ held)
    · intro t hwindow
      rcases window with hnone | ⟨hsome, hbusy⟩
      · simp [hnone] at hwindow
      · rw [hsome, Option.mem_some_iff] at hwindow
        exact hwindow ▸ hbusy
  | frees threadId now freed written holders left => exact left ▸ keeps_done s' i

omit [WireJson J] [EngineJson J] in
/-- Another party's assertion survives, unless its thread is freed under its hands. -/
theorem Turn.other (h : Turn i s s' p p') (hp : Keeps s i p) {j : ℕ} {q : MirrorProcess J}
    (hji : j ≠ i) (hq : Keeps s j q) (hclear : ∀ threadId ∈ q.window, p.frees ≠ some threadId) :
    Keeps s' j q := by
  cases h with
  | keeps threads holders claim window => exact hq.frame threads fun _ _ => by rw [holders]
  | claims threadId free store holders claim window =>
    refine hq.frame (by rw [store]) fun t ht => ?_
    have hne : threadId ≠ t := by
      rintro rfl
      rw [hq.held _ ht] at free
      cases free
    rw [holders, OrderedMap.get?_set_of_ne _ _ hne]
  | releases threadId held store holders left =>
    refine hq.frame (by rw [store]) fun t ht => ?_
    have hne : threadId ≠ t := by
      rintro rfl
      have heq := (hq.held _ ht).symm.trans (hp.held _ held)
      exact hji (Option.some.inj heq)
    rw [holders, OrderedMap.get?_erase, if_neg hne]
  | mirrors threadId patch now held written holders claim window =>
    constructor
    · intro t ht
      rw [holders]
      exact hq.held t ht
    · intro t ht
      -- Two parties with a claim on one thread would be one party.
      have hne : t ≠ threadId := by
        rintro rfl
        have heq := (hq.held _ (claim_of_window ht)).symm.trans (hp.held _ held)
        exact hji (Option.some.inj heq)
      rw [written]
      exact (hq.busy t ht).of_ne hne patch now
  | frees threadId now freed written holders left =>
    constructor
    · intro t ht
      rw [holders]
      exact hq.held t ht
    · intro t ht
      have hne : t ≠ threadId := by
        rintro rfl
        exact hclear _ ht freed
      rw [written]
      exact (hq.busy t ht).of_ne hne _ now

theorem interferenceFree :
    InterferenceFree (program (J := J)) (fun _ => True) Keeps (fun w a => ¬ Intrudes w a) where
  env w e s hw _ hs := by
    cases hs
    refine ⟨trivial, fun j q hq => (hw.local hq).frame (env_threads _ _) fun _ _ => ?_⟩
    rw [env_holders]
  start w p s hw _ hs := by
    have hsame : s = w.shared ∧ p.claim = none := by
      simp only [program, start] at hs
      split at hs <;> cases hs <;> exact ⟨rfl, rfl⟩
    obtain ⟨rfl, hclaim⟩ := hsame
    refine ⟨trivial, ⟨by simp [hclaim], fun t ht => ?_⟩, fun j q hq => hw.local hq⟩
    rw [claim_of_window ht] at hclaim
    cases hclaim
  resume w i x p s p' hw hclear hp hs := by
    have hturn : Turn i w.shared s p p' := resume_turn hs
    refine ⟨trivial, hturn.own (hw.local hp), fun j q hji hq => ?_⟩
    refine hturn.other (hw.local hp) hji (hw.local hq) fun t ht hfrees => hclear ?_
    exact ⟨q, List.mem_of_getElem? hq, t, ht, by simp [hp, hfrees]⟩

/-- The write of an intruding cancel shows the thread idle. -/
theorem not_shownBusy_of_intrudes {u v : Pool (ExecutionState J) (MirrorProcess J)}
    {a : Action (RunsEvent J) (MirrorProcess J) (MirrorInput J)}
    (h : program.machine.step u a = some v) (hintrudes : Intrudes u a) : ¬ ShownBusy v := by
  cases a with
  | env e => exact hintrudes.elim
  | spawn p => exact hintrudes.elim
  | resume i x =>
    obtain ⟨q, hq, threadId, hwindow, hfrees⟩ := hintrudes
    obtain ⟨p, hp, hfreed⟩ := Option.bind_eq_some_iff.mp hfrees
    obtain ⟨j, hj⟩ := List.mem_iff_getElem?.mp hq
    cases p with
    | freeing run =>
      cases hfreed
      have hji : i ≠ j := by
        rintro rfl
        cases hp.symm.trans hj
        cases hwindow
      rw [program.step_resume hp rfl] at h
      cases h
      intro hbusy
      have hq' : q ∈ u.procs.set i .done :=
        List.mem_of_getElem? ((List.getElem?_set_ne hji).trans hj)
      exact MemorySkeinStore.not_showsBusy_of_idle _ _ _ (hbusy q hq' run.threadId hwindow)
    | _ => cases hfreed

/-- A thread is shown busy throughout the window of every execution, in every state of a
run, exactly if no cancel request frees the thread of an execution in its window. -/
theorem shownBusy_iff (store : MemorySkeinStore J)
    {as : List (Action (RunsEvent J) (MirrorProcess J) (MirrorInput J))}
    {w : Pool (ExecutionState J) (MirrorProcess J)}
    (h : program.machine.run ⟨⟨store, ∅⟩, []⟩ as = some w) :
    (∀ before u, before <+: as → program.machine.run ⟨⟨store, ∅⟩, []⟩ before = some u →
      ShownBusy u) ↔
    program.machine.Along (fun u a => ¬ Intrudes u a) ⟨⟨store, ∅⟩, []⟩ as := by
  constructor
  · intro hbusy
    apply Machine.along_of_steps h
    intro before a u v hprefix hu hv hintrudes
    have hstep : program.machine.run ⟨⟨store, ∅⟩, []⟩ (before ++ [a]) = some v :=
      program.machine.run_append_of_run hu (by simp [Machine.run, hv])
    exact not_shownBusy_of_intrudes hv hintrudes (hbusy _ v hprefix hstep)
  · intro hclear before u hprefix hu
    obtain ⟨rest, rfl⟩ := hprefix
    have hholds : u.Holds (fun _ => True) Keeps :=
      interferenceFree.run (Pool.holds_empty trivial) (Machine.along_append hclear hu).1 hu
    intro p hp t ht
    obtain ⟨i, hi⟩ := List.mem_iff_getElem?.mp hp
    exact (hholds.local hi).busy t ht

/-- One idle thread. -/
def oneThread : MemorySkeinStore ℕ where
  threads := (∅ : Table ThreadId (Thread ℕ) Thread.threadId).write
    { threadId := .of "thread", createdAt := 0, updatedAt := 0, stateUpdatedAt := 0, metadata := 0,
      status := .idle, values := 0, interrupts := 0 }

def turn (i : ℕ) : Action (RunsEvent ℕ) (MirrorProcess ℕ) (MirrorInput ℕ) :=
  .resume i { now := 1, ending := .completed 1 0 false }

def creation (runId : RunId) : Action (RunsEvent ℕ) (MirrorProcess ℕ) (MirrorInput ℕ) :=
  .env (.create { threadId := .of "thread", assistantId := .of "agent", runId := some runId } runId
    0)

/-- The run `first` executes and shows its thread busy; `second` is enqueued behind it. -/
def firstExecutes : List (Action (RunsEvent ℕ) (MirrorProcess ℕ) (MirrorInput ℕ)) :=
  [creation (.of "first"), .spawn (.execution (.of "first") (.of "thread") false .waiting)] ++
    List.replicate 6 (turn 0) ++ [creation (.of "second")]

/-- The request that cancels `second`. -/
def cancelSecond : List (Action (RunsEvent ℕ) (MirrorProcess ℕ) (MirrorInput ℕ)) :=
  .spawn (.cancelRun (.of "second") false) :: List.replicate 3 (turn 1)

instance (w : Pool (ExecutionState ℕ) (MirrorProcess ℕ)) : ∀ a, Decidable (Intrudes w a)
  | .resume i _ => inferInstanceAs (Decidable (∃ p ∈ w.procs, ∃ threadId ∈ p.window,
      w.procs[i]?.bind frees = some threadId))
  | .env _ => isFalse id
  | .spawn _ => isFalse id

/-- Cancelled after `first` has settled, `second` frees a thread nobody shows as busy. -/
theorem settledThread_shownBusy :
    program.machine.Along (fun u a => ¬ Intrudes u a) ⟨⟨oneThread, ∅⟩, []⟩
      (firstExecutes ++ List.replicate 5 (turn 0) ++ cancelSecond) ∧
    ∀ before u, before <+: firstExecutes ++ List.replicate 5 (turn 0) ++ cancelSecond →
      program.machine.run ⟨⟨oneThread, ∅⟩, []⟩ before = some u → ShownBusy u := by
  have hclear : program.machine.Along (fun u a => ¬ Intrudes u a) ⟨⟨oneThread, ∅⟩, []⟩
      (firstExecutes ++ List.replicate 5 (turn 0) ++ cancelSecond) := by decide +kernel
  exact ⟨hclear, (shownBusy_iff oneThread rfl).mpr hclear⟩

/-- Cancelled while `first` executes, `second` has its thread shown idle. -/
theorem pendingCancel_showsIdle :
    ¬ ∀ (store : MemorySkeinStore ℕ)
      (as : List (Action (RunsEvent ℕ) (MirrorProcess ℕ) (MirrorInput ℕ)))
      (w : Pool (ExecutionState ℕ) (MirrorProcess ℕ)),
      program.machine.run ⟨⟨store, ∅⟩, []⟩ as = some w → ShownBusy w := by
  intro hall
  have hbusy := hall oneThread (firstExecutes ++ cancelSecond) _ rfl
  revert hbusy
  decide

end MirrorProcess
end Skein
