import Skein.OwedRollbacks
import Skein.TableCheckpointer

/-!
# What a cancel with rollback may remove

The base of a cancelled run is read before the abort and applied behind every waiter. A
checkpoint of a run that was not withdrawn survives the rollback of another run, provided that
no run begins while a rollback is owed to another one, and that every run starts on a history
whose checkpoints lie behind its tip. A run that was waiting when the cancel arrived does begin,
and its checkpoints are removed.
-/
namespace Skein
namespace ThreadRuns
variable {T : CheckpointedThread}

/-- No rollback of another run is owed when a run begins, and every run starts on a history
in which the rollback to its tip would keep what other runs wrote. -/
def Orderly (s : ThreadRuns T) : ThreadRunsAction T → Prop
  | .advanceExecution _ =>
    match s.claim with
    | some (.execution runId .claimed) =>
      s.isLive runId = true → ∀ other, s.Owed other → other = runId
    | some (.execution runId .started) => s.KeepsForeign runId s.tip
    | _ => True
  | _ => True

theorem Sound.reread {s : ThreadRuns T} (hs : s.Sound) {runId : RunId}
    (hclaim : s.claim = some (.execution runId .claimed))
    (hcond : s.isLive runId = true → ∀ other, s.Owed other → other = runId) :
    ({ s with claim := s.afterReread runId }).Sound := by
  have hgraph : ∀ other, ¬ s.InGraph other := by
    intro other hgraph
    rw [InGraph, hclaim] at hgraph
    cases hgraph
  unfold afterReread
  split_ifs with hlive
  swap
  · exact hs.of_quiet (hs.quiet_release hgraph)
  have hunrecorded : ∀ base, ¬ s.Recorded runId base := fun base hrecorded =>
    hgraph runId (hs.executing runId base hrecorded hlive)
  have hbegins : ∀ phase, phase ≠ .graph →
      ({ s with claim := some (.execution runId phase) }).Sound := by
    intro phase hphase
    constructor
    · exact hs.unborn
    · intro other phase' h
      cases h
      exact hs.held runId .claimed hclaim
    · exact hs.noted
    · exact hs.unique
    · exact hs.read
    · exact fun other base hrecorded hother => absurd (hs.executing other base hrecorded hother)
        (hgraph other)
    · rintro other base ⟨phase', h, -⟩
      cases h
      exact hunrecorded base
    · rintro other other' ⟨phase', h, -⟩ howed
      cases h
      exact hcond hlive other' howed
    · exact hs.single
    · rintro other base hrecorded (hother | howed)
      · cases hother
        exact absurd rfl hphase
      · exact hs.kept other base hrecorded (.inr howed)
  split
  · exact hbegins _ (by simp)
  · exact hbegins _ (by simp)

/-- The planned rollback of a displacing run finds nothing owed to anyone. -/
theorem Sound.applyPlan {s : ThreadRuns T} (hs : s.Sound) {runId : RunId} {plan : RollbackPlan}
    (hclaim : s.claim = some (.execution runId (.reverting plan))) (store : T.saver.Store) :
    ({ s with
      claim := some (.execution runId (.deleting plan.displacedRunIds))
      store := store }).Sound := by
  have hstarting : s.Starting runId := ⟨_, hclaim, by simp, by simp⟩
  have hmoved : ({ s with
      claim := some (.execution runId (.deleting plan.displacedRunIds)) }).Sound :=
    hs.of_quiet (hs.quiet_phase hclaim ⟨by simp, by simp⟩ (by simp))
  constructor
  · exact hmoved.unborn
  · exact hmoved.held
  · exact hmoved.noted
  · exact hmoved.unique
  · exact hmoved.read
  · exact hmoved.executing
  · exact hmoved.starting
  · exact hmoved.alone
  · exact hmoved.single
  · rintro other base hrecorded (hgraph | howed)
    · cases hgraph
    · have hbefore : s.Owed other := howed
      rw [hs.alone runId other ⟨_, hclaim, by simp⟩ hbefore] at hrecorded
      exact absurd hrecorded (hs.starting runId base hstarting)

/-- Recording the base of a run that starts in order. -/
theorem Sound.recordBase {s : ThreadRuns T} (hs : s.Sound) {runId : RunId}
    (hclaim : s.claim = some (.execution runId .started)) (hcond : s.KeepsForeign runId s.tip) :
    ({ s with
      claim := some (.execution runId .graph)
      runBaseCheckpoints := Function.update s.runBaseCheckpoints runId (some s.tip)
      unsaved := Function.update s.unsaved runId (some s.tip) }).Sound := by
  have hbegun : s.Begun runId := ⟨_, hclaim, by simp⟩
  have hunrecorded := fun base => hs.starting runId base ⟨_, hclaim, by simp, by simp⟩
  set t : ThreadRuns T := { s with
    claim := some (.execution runId .graph)
    runBaseCheckpoints := Function.update s.runBaseCheckpoints runId (some s.tip)
    unsaved := Function.update s.unsaved runId (some s.tip) } with ht
  have hrecorded : ∀ other base, t.Recorded other base ↔
      s.Recorded other base ∨ (other = runId ∧ base = s.tip) := by
    intro other base
    by_cases heq : other = runId
    · subst heq
      constructor
      · rintro (hunsaved | hrow)
        · refine .inr ⟨rfl, ?_⟩
          simpa [ht, eq_comm] using hunsaved
        · exact absurd (.inr hrow) (hunrecorded base)
      · rintro (hbefore | ⟨-, rfl⟩)
        · exact absurd hbefore (hunrecorded base)
        · exact .inl (by simp [ht])
    · simp [Recorded, ht, heq]
  have howed : ∀ other, t.Owed other → other = runId := by
    rintro other ⟨houtstanding, base, hbase⟩
    rcases (hrecorded other base).mp hbase with hbefore | ⟨rfl, -⟩
    · exact hs.alone runId other hbegun ⟨houtstanding, base, hbefore⟩
    · rfl
  have honly : ∀ base, t.Recorded runId base → base = s.tip := by
    intro base hbase
    rcases (hrecorded runId base).mp hbase with hbefore | ⟨-, rfl⟩
    · exact absurd hbefore (hunrecorded base)
    · rfl
  constructor
  · intro other hnone
    have hne : other ≠ runId := by
      rintro rfl
      exact hs.held other .started hclaim hnone
    simpa [ht, hne] using hs.unborn other hnone
  · intro other phase h
    cases h
    exact hs.held runId .started hclaim
  · intro other base hnote
    by_cases heq : other = runId
    · subst heq
      exact .inl (by simpa [ht] using hnote)
    · exact (hrecorded other base).mpr (.inl (hs.noted other base (by simpa [ht, heq] using hnote)))
  · intro other base base' hbase hbase'
    by_cases heq : other = runId
    · subst heq
      rw [honly base hbase, honly base' hbase']
    · refine hs.unique other base base' ?_ ?_
      · simpa [heq] using (hrecorded other base).mp hbase
      · simpa [heq] using (hrecorded other base').mp hbase'
  · intro k request hrequest base hbase
    exact (hrecorded request.runId base).mpr (.inl (hs.read k request hrequest base hbase))
  · intro other base hbase hlive
    rcases (hrecorded other base).mp hbase with hbefore | ⟨rfl, -⟩
    · have hgraph := hs.executing other base hbefore hlive
      rw [InGraph, hclaim] at hgraph
      cases hgraph
    · rfl
  · rintro other base ⟨phase, h, -, hphase⟩
    cases h
    exact absurd rfl hphase
  · rintro other other' ⟨phase, h, -⟩ howed'
    cases h
    exact howed other' howed'
  · intro other other' h h'
    rw [howed other h, howed other' h']
  · intro other base hbase hheld
    obtain rfl : other = runId := by
      rcases hheld with hgraph | h
      · cases hgraph
        rfl
      · exact howed other h
    rw [honly base hbase]
    exact hcond

theorem Sound.advanceExecution {s t : ThreadRuns T} (hs : s.Sound) {uuids : List String}
    (hcond : s.Orderly (.advanceExecution uuids)) (h : s.advanceExecution uuids = some t) :
    t.Sound := by
  unfold ThreadRuns.advanceExecution at h
  split at h
  · next runId hclaim =>
    cases h
    apply hs.reread hclaim
    simpa [Orderly, hclaim] using hcond
  · next runId plan hclaim =>
    dsimp only at h
    split at h
    · cases h
      exact hs.applyPlan hclaim s.store
    · obtain ⟨store, -, rfl⟩ := Option.map_eq_some_iff.mp h
      exact hs.applyPlan hclaim store
  · next runId displacedId rest hclaim =>
    cases h
    have hdeleted := hs.of_quiet (hs.quiet_delete displacedId)
    exact hdeleted.of_quiet (hdeleted.quiet_phase hclaim ⟨by simp, by simp⟩
      (by simp))
  · next runId hclaim =>
    cases h
    exact hs.of_quiet (hs.quiet_phase hclaim ⟨by simp, by simp⟩ (by simp))
  · next runId hclaim =>
    have hgraph : ∀ other, ¬ s.InGraph other := by
      intro other hgraph
      rw [InGraph, hclaim] at hgraph
      cases hgraph
    split_ifs at h with hterminal
    · cases h
      exact hs.of_quiet (hs.quiet_release hgraph)
    · cases h
      exact hs.of_quiet (hs.quiet_phase hclaim ⟨by simp, by simp⟩ (by simp))
  · next runId hclaim =>
    have hgraph : ∀ other, ¬ s.InGraph other := by
      intro other hgraph
      rw [InGraph, hclaim] at hgraph
      cases hgraph
    split_ifs at h with hterminal
    · cases h
      exact hs.of_quiet (hs.quiet_release hgraph)
    · cases h
      have hset := hs.of_quiet (hs.quiet_markRunning ⟨.marking, hclaim, by simp, by simp⟩)
      exact hset.of_quiet (hset.quiet_phase hclaim ⟨by simp, by simp⟩ (by simp))
  · next runId hclaim =>
    cases h
    apply hs.recordBase hclaim
    simpa [Orderly, hclaim] using hcond
  · cases h

theorem Sound.step {s t : ThreadRuns T} {a : ThreadRunsAction T} (hs : s.Sound)
    (hcond : s.Orderly a) (h : s.step a = some t) : t.Sound := by
  cases a with
  | create k strategy =>
    simp only [ThreadRuns.step] at h
    split at h
    · cases h
    · cases h
      exact hs.of_quiet { hs.quiet_refl with }
  | advanceCreation k sameInstance => exact hs.advanceCreation h
  | insert k runId admitted => exact hs.insertRun h
  | takeClaim runId => exact hs.takeClaim h
  | advanceExecution uuids => exact hs.advanceExecution hcond h
  | graphWrite w => exact hs.graphWrite h
  | settle status => exact hs.settle h
  | saveBase runId => exact hs.saveBase h
  | dropNote runId =>
    simp only [ThreadRuns.step] at h
    split at h
    · split_ifs at h
      cases h
      exact hs.dropNote runId
    · cases h
      exact hs.dropNote runId
  | cancel k runId => exact hs.requestCancel h
  | advanceCancel k sameInstance => exact hs.advanceCancel h
  | rollback k uuids => exact hs.rollbackCancelled h
  | deleteCancelled k => exact hs.deleteCancelled h

/-- Of the checkpoints that another run wrote, those of withdrawn runs only are missing
in `t`. -/
def RemovesOnlyOwn (s t : ThreadRuns T) (runId : RunId) : Prop :=
  ∀ c ∈ s.coordinates, s.Foreign runId c → c ∈ t.coordinates

/-- In an orderly run no rollback of a cancelled run removes a checkpoint of another run
that was neither displaced nor itself cancelled with rollback. -/
theorem rollback_removesOnlyOwn (store : T.saver.Store) (actions : List (ThreadRunsAction T))
    (s : ThreadRuns T) (hrun : (threadRunsMachine T).run (fresh T store) actions = some s)
    (horderly : (threadRunsMachine T).Along Orderly (fresh T store) actions) (k : ℕ)
    (uuids : List String) (t : ThreadRuns T)
    (hstep : (threadRunsMachine T).step s (.rollback k uuids) = some t) :
    ∃ request, s.cancels k = some request ∧ s.RemovesOnlyOwn t request.runId := by
  have hs : s.Sound := Machine.run_invariant_along (I := fun u : ThreadRuns T => u.Sound)
    (fun _ _ _ hu hcond h => hu.step hcond h) (fresh_sound store) horderly hrun
  have hrollback : s.rollbackCancelled k uuids = some t := hstep
  unfold ThreadRuns.rollbackCancelled at hrollback
  split at hrollback
  · next k' runId base hclaim hrequest =>
    split_ifs at hrollback with hk
    obtain ⟨store', hrevert, rfl⟩ := Option.map_eq_some_iff.mp hrollback
    refine ⟨_, hrequest, fun c hc hforeign => ?_⟩
    obtain ⟨x, hx, rfl⟩ := List.mem_map.mp hc
    have hrecorded := hs.read k _ hrequest base rfl
    have hkept := hs.kept runId base hrecorded
      (.inr ⟨⟨k, _, hrequest, rfl, rfl⟩, base, hrecorded⟩)
    obtain ⟨y, hy, hcoordinate⟩ := hkept.survives hrevert hx hforeign
    exact List.mem_map.mpr ⟨y, hy, hcoordinate⟩
  · cases hrollback

def tableThread : CheckpointedThread where
  saver := tableCheckpointer
  lawful := tableCheckpointer_lawful
  cloneCheckpoint := id
  clone_eq := fun _ => rfl
  threadId := "t"

/-- A root checkpoint under its parent. -/
def rootTuple (id : CheckpointId) (parentId : Option CheckpointId) : CheckpointTuple where
  checkpoint := { id := id }
  parentId := parentId

def rootWrite (id parentId : CheckpointId) : GraphWrite tableThread.saver tableThread.threadId :=
  .put tableCheckpointer_lawful "t" (rootTuple id (some parentId))

/-- The thread holds the checkpoint "0". -/
def startedStore : tableThread.saver.Store :=
  TableCheckpointer.setTable (fun _ => ∅) "t" (Table.write ∅ (rootTuple "0" none))

def firstRun : RunId := Id.of "a"

def secondRun : RunId := Id.of "b"

/-- The first run is cancelled with rollback while it executes and the second waits. -/
def cancelledActions : List (ThreadRunsAction tableThread) :=
  [.create 0 .enqueue, .insert 0 firstRun false, .takeClaim firstRun, .advanceExecution [],
    .advanceExecution [], .advanceExecution [], .advanceExecution [],
    .graphWrite (rootWrite "1" "0"),
    .create 0 .enqueue, .insert 0 secondRun false, .cancel 0 firstRun, .advanceCancel 0 true,
    .advanceCancel 0 true, .settle ⟨.cancelled, RunStatus.isTerminal_cancelled⟩]

/-- The second run was waiting before the cancel arrived, and so it executes first. -/
def waitingActions : List (ThreadRunsAction tableThread) :=
  cancelledActions ++ [.takeClaim secondRun, .advanceExecution [], .advanceExecution [],
    .advanceExecution [], .advanceExecution [], .graphWrite (rootWrite "2" "1"), .settle ⟨.success, RunStatus.isTerminal_success⟩,
    .advanceCancel 0 true]

/-- The rollback of the first run removes the checkpoint of the second. -/
theorem waitingActions_removesOther : ∃ s t request,
    (threadRunsMachine tableThread).run (fresh tableThread startedStore) waitingActions = some s ∧
    (threadRunsMachine tableThread).step s (.rollback 0 ["u"]) = some t ∧
    s.cancels 0 = some request ∧ ¬ s.RemovesOnlyOwn t request.runId := by
  have houtcome : ((threadRunsMachine tableThread).run (fresh tableThread startedStore)
      waitingActions).any (fun s =>
        ((threadRunsMachine tableThread).step s (.rollback 0 ["u"])).any fun t =>
          s.cancels 0 = some ⟨firstRun, .waiting (some "0")⟩ ∧ ⟨"", "2"⟩ ∈ s.coordinates ∧
            s.writer ⟨"", "2"⟩ = some secondRun ∧ secondRun ∉ s.withdrawn ∧
            secondRun ≠ firstRun ∧ (⟨"", "2"⟩ : Coordinate) ∉ t.coordinates) = true := by
    decide +kernel
  obtain ⟨s, hs, houtcome⟩ := (Option.any_eq_true _ _).mp houtcome
  obtain ⟨t, ht, houtcome⟩ := (Option.any_eq_true _ _).mp houtcome
  obtain ⟨hrequest, hlisted, hwriter, hstands, hother, hgone⟩ := of_decide_eq_true houtcome
  refine ⟨s, t, _, hs, ht, hrequest, fun honly => hgone (honly _ hlisted ⟨?_, ?_⟩)⟩
  · rw [hwriter]
    exact fun h => hother (Option.some.inj h)
  · intro writer hwrote
    rw [hwriter] at hwrote
    exact Option.some.inj hwrote ▸ hstands

theorem cancelledActions_orderly : (threadRunsMachine tableThread).Along Orderly
    (fresh tableThread startedStore) (cancelledActions ++ [.advanceCancel 0 true]) := by
  have hfree : ∀ s, (threadRunsMachine tableThread).Along Orderly s
      (cancelledActions.drop 7 ++ [.advanceCancel 0 true]) := by
    intro s
    apply Machine.along_of_forall
    intro a ha u
    simp only [cancelledActions, List.drop, List.cons_append, List.nil_append, List.mem_cons,
      List.not_mem_nil, or_false] at ha
    rcases ha with rfl | rfl | rfl | rfl | rfl | rfl | rfl | rfl <;> trivial
  refine ⟨trivial, trivial, trivial, ?_, trivial, trivial, ?_, hfree _⟩
  · rintro - other ⟨⟨k, request, h, -⟩, -⟩
    cases h
  · intro x hx _
    obtain rfl : x = rootTuple "0" none := List.mem_singleton.mp hx
    exact ⟨"0", rootTuple "0" none, rfl, rfl, List.mem_singleton_self _⟩

/-- Where the second run keeps waiting, the rollback of the first removes its own only. -/
theorem cancelledActions_removesOnlyOwn : ∃ s t request,
    (threadRunsMachine tableThread).run (fresh tableThread startedStore)
      (cancelledActions ++ [.advanceCancel 0 true]) = some s ∧
    (threadRunsMachine tableThread).step s (.rollback 0 ["u"]) = some t ∧
    s.cancels 0 = some request ∧ s.RemovesOnlyOwn t request.runId := by
  have houtcome : ((threadRunsMachine tableThread).run (fresh tableThread startedStore)
      (cancelledActions ++ [.advanceCancel 0 true])).any (fun s =>
        ((threadRunsMachine tableThread).step s (.rollback 0 ["u"])).isSome) = true := by
    decide +kernel
  obtain ⟨s, hs, houtcome⟩ := (Option.any_eq_true _ _).mp houtcome
  obtain ⟨t, ht⟩ := Option.isSome_iff_exists.mp houtcome
  obtain ⟨request, hrequest, honly⟩ := rollback_removesOnlyOwn startedStore _ s hs
    cancelledActions_orderly 0 ["u"] t ht
  exact ⟨s, t, request, hs, ht, hrequest, honly⟩

end ThreadRuns
end Skein
