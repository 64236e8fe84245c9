import Skein.AdmissionLaws
import Skein.CronScheduler

/-!
# The sweep of unqueued cron runs

A whole tick: the fires of `tickOnce`, then `sweepUnqueuedRuns`. The sweep reads one page of
the active runs of all threads and passes the stale pending cron runs of that page to the
queue. A run lost before the tick is found exactly when it stands on that page, behind fewer
other active runs than the page holds.
-/
namespace Skein

/-- What the sweep is configured with besides; `carriesCronId` is
`metadata?.["cron_id"] !== undefined`. -/
structure SweepDeps (J : Type*) extends CronDeps J where
  unqueuedRunGraceMs : ℕ := 300000
  carriesCronId : J → Bool

/-- Where a tick with its sweep stands. -/
inductive SweepStage (J : Type*)
  | firing (tick : CronTick J)
  /-- The active runs of the page that have still to be looked at. -/
  | sweeping (left : List (Run J))
  /-- The queue refused a run of the sweep. -/
  | rejected
  | done

/-- A tick under way: its `now`, what it has passed to `queue.enqueue`, and the runs whose
fire returned. -/
structure SweptTick (J : Type*) where
  world : CronWorld J
  now : Timestamp
  enqueued : List RunId := []
  justEnqueued : List RunId := []
  stage : SweepStage J := .firing .tickOnce

namespace SweepDeps
variable {J : Type*} (deps : SweepDeps J)

/-- The filter of `sweepUnqueuedRuns` on the row. -/
def isStale (now : Timestamp) (run : Run J) : Bool :=
  run.status = .pending && deps.carriesCronId run.metadata &&
    run.createdAt + deps.unqueuedRunGraceMs ≤ now

/-- A cron run that has been pending for longer than the grace. -/
def IsLost (now : Timestamp) (run : Run J) : Prop :=
  run.status = .pending ∧ deps.carriesCronId run.metadata = true ∧
    run.createdAt + deps.unqueuedRunGraceMs < now

theorem IsLost.isStale {now : Timestamp} {run : Run J} (h : deps.IsLost now run) :
    deps.isStale now run = true := by
  simp [SweepDeps.isStale, h.1, h.2.1, h.2.2.le]

end SweepDeps

namespace SweptTick
variable {J : Type*} [WireJson J]

/-- The input of one turn; `listDue` is asked for the instant the tick began at. -/
def inputAt (s : SweptTick J) (tick : CronTick J) (x : CronInput J) : CronInput J :=
  match tick with
  | .tickOnce => { x with clock := s.now }
  | _ => x

/-- One turn of the tick. Generated thread identifiers are new. -/
def step (deps : SweepDeps J) (s : SweptTick J) (x : CronInput J) : Option (SweptTick J) :=
  match s.stage with
  | .firing .done =>
    some { s with stage := .sweeping (s.world.store.runsListActiveRuns none) }
  | .firing tick =>
    if s.world.store.runs.values.any fun run => run.threadId = x.threadUuid then none
    else
      (CronTick.resume deps.toCronDeps s.world tick (s.inputAt tick x)).map fun turn =>
        match tick with
        | .enqueueing _ runId =>
          { s with
            world := turn.1
            enqueued := runId :: s.enqueued
            justEnqueued := if x.throws then s.justEnqueued else runId :: s.justEnqueued
            stage := .firing turn.2 }
        | _ => { s with world := turn.1, stage := .firing turn.2 }
  | .sweeping [] => some { s with stage := .done }
  | .sweeping (run :: left) =>
    if deps.isStale s.now run && !s.justEnqueued.contains run.runId then
      some { s with
        enqueued := run.runId :: s.enqueued
        stage := if x.throws then .rejected else .sweeping left }
    else some { s with stage := .sweeping left }
  | .rejected | .done => none

/-- A tick that nothing else interrupts, for every course its fires can take. -/
def machine (deps : SweepDeps J) : Machine (SweptTick J) (CronInput J) := ⟨step deps⟩

/-- A tick about to begin. -/
def begin (store : MemorySkeinStore J) (now : Timestamp) : SweptTick J where
  world := .ofStore store
  now := now

end SweptTick

namespace MemorySkeinStore
variable {J : Type*}

/-- The rows of `start`, in their order, and then newer ones. -/
def RunsExtend (start store : MemorySkeinStore J) : Prop :=
  start.runs.values <+: store.runs.values ∧ store.maxPageSize = start.maxPageSize

theorem RunsExtend.refl (store : MemorySkeinStore J) : RunsExtend store store :=
  ⟨List.prefix_rfl, rfl⟩

theorem RunsExtend.congr {start store store' : MemorySkeinStore J} (h : RunsExtend start store)
    (hruns : store'.runs = store.runs) (hpage : store'.maxPageSize = store.maxPageSize) :
    RunsExtend start store' := by
  rw [RunsExtend, hruns, hpage]
  exact h

theorem RunsExtend.createRun [EmptyCollection J] {start store : MemorySkeinStore J}
    (h : RunsExtend start store) (input : RunCreate J) (uuid : RunId) (now : Timestamp) :
    RunsExtend start (store.createRun input uuid now).2 := by
  unfold MemorySkeinStore.createRun
  dsimp only
  split_ifs with hused
  · exact h
  · refine ⟨?_, h.2⟩
    rw [Table.values_write_new (Bool.eq_false_iff.mpr hused)]
    exact h.1.trans (List.prefix_append _ _)

/-- Deleting rows of another thread than those of `start`. -/
theorem RunsExtend.runsDelete {start store : MemorySkeinStore J} (h : RunsExtend start store)
    {runId : RunId} (hother : ∀ run ∈ start.runs.values, run.runId ≠ runId) :
    RunsExtend start (store.runsDelete runId) := by
  refine ⟨?_, h.2⟩
  obtain ⟨added, hadded⟩ := h.1
  have herased : (store.runsDelete runId).runs.values =
      store.runs.values.filter fun run => run.runId ≠ runId := by
    simp only [MemorySkeinStore.runsDelete, forgetAdmission, Table.erase, OrderedMap.erase,
      OrderedMap.values, OrderedMap.filter, List.filter_map]
    congr 1
    apply List.filter_congr
    intro e he
    simp [store.runs.keyed e he]
  rw [herased, ← hadded, List.filter_append]
  have hall : start.runs.values.filter (fun run => run.runId ≠ runId) = start.runs.values :=
    List.filter_eq_self.mpr fun run hrun => by simpa using hother run hrun
  rw [hall]
  exact List.prefix_append _ _

theorem RunsExtend.threadsDelete {start store : MemorySkeinStore J} (h : RunsExtend start store)
    {threadId : ThreadId} (hother : ∀ run ∈ start.runs.values, run.threadId ≠ threadId) :
    RunsExtend start (store.threadsDelete threadId) := by
  have hfold : ∀ (owned : List (Run J)) (s : MemorySkeinStore J), RunsExtend start s →
      (∀ run ∈ owned, ∀ old ∈ start.runs.values, old.runId ≠ run.runId) →
      RunsExtend start (owned.foldl (fun s run => s.runsDelete run.runId) s) := by
    intro owned
    induction owned with
    | nil => exact fun s hs _ => hs
    | cons run rest ih =>
      intro s hs howned
      exact ih _ (hs.runsDelete (howned run (by simp))) fun r hr => howned r (by simp [hr])
  refine (hfold (store.runs.values.filter fun run => run.threadId = threadId) _
    (h.congr rfl rfl : RunsExtend start { store with threads := store.threads.erase threadId })
    ?_).congr rfl rfl
  intro run hrun old hold hid
  obtain ⟨hrun, hthread⟩ := List.mem_filter.mp hrun
  have hsame : old = run := by
    have hold' := (Table.mem_values_iff _ _).mp (h.1.subset hold)
    have hrun' := (Table.mem_values_iff _ _).mp hrun
    rw [hid, hrun'] at hold'
    exact (Option.some.inj hold').symm
  exact hother old hold (by simpa [hsame] using hthread)

theorem claimCron_runsExtend {start store : MemorySkeinStore J} (h : RunsExtend start store)
    (cronId : CronId) (claim : CronClaim) (now : Timestamp) :
    RunsExtend start (store.claimCron cronId claim now).2 := by
  unfold claimCron
  split
  · exact h
  · split_ifs
    · exact h
    · exact h
    · exact h.congr rfl rfl

/-- A claim creates at most one run, and under a new identifier. -/
theorem RunsExtend.claimAndCreateRun [WireJson J] {start store : MemorySkeinStore J}
    (h : RunsExtend start store) (cronId : CronId) (claim : CronClaim) (input : RunCreate J)
    (uuid : RunId) (now : Timestamp) :
    RunsExtend start (store.cronsClaimAndCreateRun cronId claim input uuid now).2 ∧
      ∀ claimed, (store.cronsClaimAndCreateRun cronId claim input uuid now).1 =
        .ok (some claimed) → ∀ run ∈ start.runs.values, run.runId ≠ claimed.run.runId := by
  have hclaim := claimCron_runsExtend h cronId claim now
  unfold cronsClaimAndCreateRun
  split <;> rename_i hdone <;> rw [hdone] at hclaim
  · exact ⟨hclaim, by simp⟩
  next advanced claimedStore =>
    have hcreate := hclaim.createRun input uuid now
    cases hused : claimedStore.runs.contains (input.runId.getD uuid) with
    | true =>
      obtain ⟨e, he⟩ := createRun_used now hused
      rw [he]
      exact ⟨hclaim, by simp⟩
    | false =>
      obtain ⟨run, created, he, -, hid, -⟩ := createRun_unused now hused
      rw [he] at hcreate ⊢
      refine ⟨hcreate, ?_⟩
      rintro claimed hclaimed old hold hsame
      cases hclaimed
      have hpresent := (Table.mem_values_iff _ _).mp (hclaim.1.subset hold)
      rw [hsame, hid, (OrderedMap.contains_eq_false_iff _ _).mp hused] at hpresent
      cases hpresent

/-- Whether an old row stands on the first page does not depend on newer rows. -/
theorem RunsExtend.mem_listActiveRuns {start store : MemorySkeinStore J}
    (h : RunsExtend start store) {run : Run J} (hrun : run ∈ start.runs.values) :
    run ∈ store.runsListActiveRuns none ↔ run ∈ start.runsListActiveRuns none := by
  obtain ⟨added, hadded⟩ := h.1
  have hnodup : store.runs.values.Nodup := List.Nodup.of_map _ store.runs.nodup_map_key
  have hnew : run ∉ added := by
    rw [← hadded] at hnodup
    exact fun hmem => (List.nodup_append.mp hnodup).2.2 run hrun run hmem rfl
  simp only [runsListActiveRuns, pageLimit, h.2, ← hadded, List.filter_append, List.take_append,
    List.mem_append, or_iff_left_iff_imp]
  intro hmem
  exact absurd (List.mem_of_mem_filter (List.mem_of_mem_take hmem)) hnew

end MemorySkeinStore

namespace SweptTick
variable {J : Type*}

/-- What a fire in progress may still do to the rows of `start`. -/
def FireApart (start : MemorySkeinStore J) : CronTick J → Prop
  | .claiming fire _ _ threadId =>
    fire.stateless = true → ∀ run ∈ start.runs.values, run.threadId ≠ threadId
  | .retracting _ threadId => ∀ run ∈ start.runs.values, run.threadId ≠ threadId
  | .enqueueing _ runId => ∀ run ∈ start.runs.values, run.runId ≠ runId
  | _ => True

/-- Of the rows of `start`, exactly the stale ones among the first `passed` of the page have
gone to the queue. -/
def SweptTo (deps : SweepDeps J) (start : MemorySkeinStore J) (s : SweptTick J)
    (passed : List (Run J)) : Prop :=
  ∀ run ∈ start.runs.values, run.runId ∈ s.enqueued ↔ run ∈ passed ∧ deps.isStale s.now run = true

/-- What is known of a tick that began on `start`. -/
structure Inv (deps : SweepDeps J) (start : MemorySkeinStore J) (now : Timestamp)
    (s : SweptTick J) : Prop where
  now_eq : s.now = now
  extend : start.RunsExtend s.world.store
  fired : ∀ run ∈ start.runs.values, run.runId ∉ s.justEnqueued
  stage : match s.stage with
    | .firing tick => FireApart start tick ∧ s.SweptTo deps start []
    | .sweeping left => ∃ passed, s.world.store.runsListActiveRuns none = passed ++ left ∧
        s.SweptTo deps start passed
    | .rejected => True
    | .done => s.SweptTo deps start (s.world.store.runsListActiveRuns none)

theorem begin_inv (deps : SweepDeps J) (store : MemorySkeinStore J) (now : Timestamp) :
    Inv deps store now (begin store now) where
  now_eq := rfl
  extend := .refl store
  fired := by simp [begin]
  stage := ⟨trivial, by simp [SweptTo, begin]⟩

theorem fireApart_next (start : MemorySkeinStore J) (now : Timestamp) (due : List (DueCron J)) :
    FireApart start (CronTick.next now due) := by
  cases due <;> trivial

variable [WireJson J]

/-- A turn of the fires only adds rows, and goes on with a thread or a run that is new. -/
theorem resume_apart {deps : CronDeps J} {start : MemorySkeinStore J} {world world' : CronWorld J}
    {tick tick' : CronTick J} {x : CronInput J} (hextend : start.RunsExtend world.store)
    (hapart : FireApart start tick)
    (hfresh : ∀ run ∈ world.store.runs.values, run.threadId ≠ x.threadUuid)
    (h : CronTick.resume deps world tick x = some (world', tick')) :
    start.RunsExtend world'.store ∧ FireApart start tick' := by
  cases tick with
  | tickOnce =>
    cases h
    exact ⟨hextend, fireApart_next _ _ _⟩
  | firing fire =>
    simp only [CronTick.resume] at h
    split at h
    · split at h
      · cases h
        exact ⟨hextend, trivial⟩
      · split at h <;> cases h <;> exact ⟨hextend, trivial⟩
    · cases h
      exact ⟨hextend, trivial⟩
  | authorizing fire auth =>
    simp only [CronTick.resume] at h
    split_ifs at h <;> cases h <;> exact ⟨hextend, trivial⟩
  | resolving fire auth filters =>
    simp only [CronTick.resume] at h
    split at h
    · split at h <;> rename_i hcreated <;> cases h <;>
        simp only [MemorySkeinStore.threadsCreate] at hcreated <;> split_ifs at hcreated <;>
        cases hcreated
      · exact ⟨hextend.congr rfl rfl, trivial⟩
      · exact ⟨hextend.congr rfl rfl, fun _ run hrun => hfresh run (hextend.1.subset hrun)⟩
    next threadId hthread =>
      split at h <;> cases h
      · exact ⟨hextend, trivial⟩
      · exact ⟨hextend, fun hstateless => by simp [CronFire.stateless, hthread] at hstateless⟩
  | claiming fire auth filters threadId =>
    simp only [CronTick.resume] at h
    obtain ⟨hclaimed, hnew⟩ := hextend.claimAndCreateRun fire.cron.cronId (fire.claim deps.croner)
      (fire.runCreate deps auth filters threadId x.clock) x.runUuid x.now
    split at h <;> rename_i hdone <;> rw [hdone] at hclaimed hnew <;> cases h
    · exact ⟨hclaimed, trivial⟩
    · refine ⟨hclaimed, ?_⟩
      split_ifs with hstateless
      · exact hapart hstateless
      · exact fireApart_next _ _ _
    · exact ⟨hclaimed, hnew _ rfl⟩
  | retracting fire threadId =>
    cases h
    refine ⟨?_, fireApart_next _ _ _⟩
    split_ifs
    · exact hextend
    · exact hextend.threadsDelete hapart
  | enqueueing fire runId =>
    simp only [CronTick.resume] at h
    split_ifs at h <;> cases h
    · exact ⟨hextend, trivial⟩
    · exact ⟨hextend, fireApart_next _ _ _⟩
  | catching fire =>
    cases h
    exact ⟨MemorySkeinStore.claimCron_runsExtend hextend _ _ _, fireApart_next _ _ _⟩
  | done => cases h

/-- One turn of the fires, with what it passes to the queue. -/
theorem Inv.fire {deps : SweepDeps J} {start : MemorySkeinStore J} {now : Timestamp}
    {s s' : SweptTick J} {tick : CronTick J} {x : CronInput J} (hinv : Inv deps start now s)
    (hstage : s.stage = .firing tick) (hne : tick ≠ .done) (h : step deps s x = some s') :
    Inv deps start now s' := by
  obtain ⟨hapart, hswept⟩ : FireApart start tick ∧ s.SweptTo deps start [] := by
    simpa only [hstage] using hinv.stage
  have hturn : ∃ turn, (∀ run ∈ s.world.store.runs.values, run.threadId ≠ x.threadUuid) ∧
      CronTick.resume deps.toCronDeps s.world tick (s.inputAt tick x) = some turn ∧
      s'.world = turn.1 ∧ s'.stage = .firing turn.2 ∧ s'.now = s.now ∧
      (∀ runId ∈ s'.enqueued, runId ∈ s.enqueued ∨ ∃ fire, tick = .enqueueing fire runId) ∧
      (∀ runId ∈ s.enqueued, runId ∈ s'.enqueued) ∧
      ∀ runId ∈ s'.justEnqueued, runId ∈ s.justEnqueued ∨
        ∃ fire, tick = .enqueueing fire runId := by
    have hfresh : ¬(s.world.store.runs.values.any fun run =>
        run.threadId = x.threadUuid) = true → ∀ run ∈ s.world.store.runs.values,
          run.threadId ≠ x.threadUuid := by
      intro hunused run hrun hsame
      exact hunused (List.any_eq_true.mpr ⟨run, hrun, by simpa using hsame⟩)
    cases tick with
    | done => exact absurd rfl hne
    | enqueueing fire runId =>
      simp only [SweptTick.step, hstage] at h
      split at h
      · cases h
      · next hunused =>
        obtain ⟨turn, hresume, rfl⟩ := Option.map_eq_some_iff.mp h
        refine ⟨turn, hfresh hunused, hresume, rfl, rfl, rfl, ?_,
          fun _ hmem => List.mem_cons_of_mem _ hmem, ?_⟩
        · intro other hmem
          exact (List.mem_cons.mp hmem).symm.imp_right fun hsame => ⟨fire, by rw [hsame]⟩
        · intro other hmem
          split at hmem
          · exact .inl hmem
          · exact (List.mem_cons.mp hmem).symm.imp_right fun hsame => ⟨fire, by rw [hsame]⟩
    | _ =>
      simp only [SweptTick.step, hstage] at h
      split at h
      · cases h
      · next hunused =>
        obtain ⟨turn, hresume, rfl⟩ := Option.map_eq_some_iff.mp h
        exact ⟨turn, hfresh hunused, hresume, rfl, rfl, rfl, fun _ hmem => .inl hmem,
          fun _ hmem => hmem, fun _ hmem => .inl hmem⟩
  obtain ⟨turn, hfresh, hresume, hworld, hstage', hnow, hto, hfrom, hjust⟩ := hturn
  have huuid : (s.inputAt tick x).threadUuid = x.threadUuid := by
    unfold inputAt
    split <;> rfl
  obtain ⟨hextend, hapart'⟩ := resume_apart hinv.extend hapart (huuid ▸ hfresh) hresume
  have hnew : ∀ runId, (∃ fire, tick = .enqueueing fire runId) →
      ∀ run ∈ start.runs.values, run.runId ≠ runId := by
    rintro runId ⟨fire, rfl⟩
    exact hapart
  constructor
  · rw [hnow, hinv.now_eq]
  · rw [hworld]
    exact hextend
  · intro run hrun hmem
    rcases hjust _ hmem with hold | hfired
    · exact hinv.fired run hrun hold
    · exact hnew _ hfired run hrun rfl
  · rw [hstage']
    refine ⟨hapart', fun run hrun => ⟨fun hmem => ?_, fun hnone => by simp at hnone⟩⟩
    rcases hto _ hmem with hold | hfired
    · exact absurd ((hswept run hrun).mp hold).1 (by simp)
    · exact absurd rfl (hnew _ hfired run hrun)

omit [WireJson J] in
/-- An old row with the identifier of a listed one is that row. -/
theorem Inv.eq_of_listed {deps : SweepDeps J} {start : MemorySkeinStore J} {now : Timestamp}
    {s : SweptTick J} (hinv : Inv deps start now s) {run old : Run J}
    (hlisted : run ∈ s.world.store.runsListActiveRuns none) (hold : old ∈ start.runs.values)
    (hsame : old.runId = run.runId) : old = run := by
  have hrow := (MemorySkeinStore.mem_runsListActiveRuns hlisted).1
  have hrow' := (Table.mem_values_iff _ _).mp (hinv.extend.1.subset hold)
  rw [hsame, hrow] at hrow'
  exact (Option.some.inj hrow').symm

theorem Inv.step {deps : SweepDeps J} {start : MemorySkeinStore J} {now : Timestamp}
    {s s' : SweptTick J} {x : CronInput J} (hinv : Inv deps start now s)
    (h : step deps s x = some s') : Inv deps start now s' := by
  cases hstage : s.stage with
  | firing tick =>
    by_cases hdone : tick = .done
    · subst hdone
      have hswept : s.SweptTo deps start [] := by simpa only [hstage] using (hstage ▸ hinv.stage).2
      simp only [SweptTick.step, hstage] at h
      cases h
      exact ⟨hinv.now_eq, hinv.extend, hinv.fired, [], rfl, hswept⟩
    · exact hinv.fire hstage hdone h
  | sweeping left =>
    obtain ⟨passed, hpage, hswept⟩ : ∃ passed,
        s.world.store.runsListActiveRuns none = passed ++ left ∧ s.SweptTo deps start passed := by
      simpa only [hstage] using hinv.stage
    cases left with
    | nil =>
      simp only [SweptTick.step, hstage] at h
      cases h
      refine ⟨hinv.now_eq, hinv.extend, hinv.fired, ?_⟩
      rw [List.append_nil] at hpage
      show SweptTo deps start { s with stage := .done } (s.world.store.runsListActiveRuns none)
      rw [hpage]
      exact hswept
    | cons run left =>
      have hsplit : s.world.store.runsListActiveRuns none = (passed ++ [run]) ++ left := by
        rw [hpage, List.append_assoc]
        rfl
      have hlisted : run ∈ s.world.store.runsListActiveRuns none := by
        rw [hpage]
        simp
      simp only [SweptTick.step, hstage] at h
      split at h
      · next hstale =>
        rw [Bool.and_eq_true] at hstale
        cases h
        refine ⟨hinv.now_eq, hinv.extend, hinv.fired, ?_⟩
        have hmoved : ∀ stage, SweptTo deps start
            { s with enqueued := run.runId :: s.enqueued, stage } (passed ++ [run]) := by
          intro stage old hold
          rw [List.mem_cons, hswept old hold, List.mem_append, List.mem_singleton]
          constructor
          · rintro (hsame | ⟨hpassed, hstale'⟩)
            · obtain rfl := hinv.eq_of_listed hlisted hold hsame
              exact ⟨.inr rfl, hstale.1⟩
            · exact ⟨.inl hpassed, hstale'⟩
          · rintro ⟨hpassed | rfl, hstale'⟩
            · exact .inr ⟨hpassed, hstale'⟩
            · exact .inl rfl
        cases hthrows : x.throws with
        | true => trivial
        | false => exact ⟨passed ++ [run], hsplit, hmoved _⟩
      · next hskip =>
        cases h
        refine ⟨hinv.now_eq, hinv.extend, hinv.fired, passed ++ [run], hsplit, ?_⟩
        intro old hold
        refine (hswept old hold).trans ⟨fun hpassed => ⟨List.mem_append_left _ hpassed.1,
          hpassed.2⟩, fun ⟨hpassed, hstale⟩ => ⟨?_, hstale⟩⟩
        rcases List.mem_append.mp hpassed with hpassed | hlast
        · exact hpassed
        · obtain rfl := List.mem_singleton.mp hlast
          exact absurd (hinv.fired old hold) (by simpa [hstale] using hskip)
  | rejected =>
    simp only [SweptTick.step, hstage] at h
    cases h
  | done =>
    simp only [SweptTick.step, hstage] at h
    cases h

/-- **What the sweep finds.** A tick passes every cron run that was lost when it began to the
queue exactly when every one of them is on the page of active runs the store answers. -/
theorem lostRuns_enqueued_iff (deps : SweepDeps J) {store : MemorySkeinStore J} {now : Timestamp}
    {inputs : List (CronInput J)} {s : SweptTick J}
    (hrun : (machine deps).run (begin store now) inputs = some s) (hdone : s.stage = .done) :
    (∀ run ∈ store.runs.values, deps.IsLost now run → run.runId ∈ s.enqueued) ↔
      ∀ run ∈ store.runs.values, deps.IsLost now run → run ∈ store.runsListActiveRuns none := by
  have hinv : Inv deps store now s :=
    Machine.run_invariant (I := fun u => Inv deps store now u)
      (fun _ _ _ hu hstep => hu.step hstep) (begin_inv deps store now) hrun
  have hswept : s.SweptTo deps store (s.world.store.runsListActiveRuns none) := by
    simpa only [hdone] using hinv.stage
  have hfound : ∀ run ∈ store.runs.values, deps.IsLost now run →
      (run.runId ∈ s.enqueued ↔ run ∈ store.runsListActiveRuns none) := by
    intro run hmem hlost
    rw [hswept run hmem, hinv.extend.mem_listActiveRuns hmem, hinv.now_eq,
      hlost.isStale, and_iff_left rfl]
  exact forall_congr' fun run => forall_congr' fun hmem => forall_congr' fun hlost =>
    hfound run hmem hlost

/-- A schedule that occurs ten milliseconds after whatever it is asked about. -/
def patientNext (_ _ : String) (after : Timestamp) : Option Timestamp := some (after + 10)

theorem patientNext_later (schedule timezone : String) (after next : Timestamp)
    (h : patientNext schedule timezone after = some next) : after < next := by
  cases h
  exact Nat.lt_add_of_pos_right (Nat.succ_pos 9)

/-- Metadata `1` is that of a cron run. -/
def patientDeps : SweepDeps ℕ where
  croner := ⟨patientNext, patientNext_later⟩
  authEnabled := false
  toKwargs := fun cron _ => cron.payload
  multitaskStrategy := fun _ => none
  cronMetadata := fun _ => 1
  stamp := fun _ metadata => metadata
  ownerMetadata := fun filters => filters
  carriesCronId := fun metadata => metadata == 1

/-- A pending cron run that was never enqueued, behind a running run. -/
def lostStore (maxPageSize : ℕ) : MemorySkeinStore ℕ where
  runs := ((∅ : Table RunId (Run ℕ) Run.runId).write {
      runId := .of "busy", threadId := .of "t", assistantId := .of "agent", createdAt := 0
      updatedAt := 0, status := .running, metadata := 0, multitaskStrategy := none }).write {
    runId := .of "lost", threadId := .of "u", assistantId := .of "agent", createdAt := 0
    updatedAt := 0, status := .pending, metadata := 1, multitaskStrategy := none }
  maxPageSize := maxPageSize

/-- A quarter of an hour later no cron is due: the tick is its sweep. -/
def sweepInputs (turns : ℕ) : List (CronInput ℕ) := List.replicate turns { clock := 0, now := 0 }

/-- The tick has ended, and the lost run has not been enqueued. -/
def missesLostRun (s : SweptTick ℕ) : Bool :=
  (match s.stage with | .done => true | _ => false) && !s.enqueued.contains (.of "lost")

/-- With a page of two the tick finds it. -/
theorem lostStore_swept : ∃ s, (machine patientDeps).run (begin (lostStore 2) 900000)
    (sweepInputs 5) = some s ∧
    ∀ run ∈ (lostStore 2).runs.values, patientDeps.IsLost 900000 run → run.runId ∈ s.enqueued := by
  have hdone : ((machine patientDeps).run (begin (lostStore 2) 900000) (sweepInputs 5)).any
      (fun s => match s.stage with | .done => true | _ => false) = true := by decide +kernel
  obtain ⟨s, hrun, hstage⟩ := (Option.any_eq_true _ _).mp hdone
  refine ⟨s, hrun, (lostRuns_enqueued_iff patientDeps hrun ?_).mpr ?_⟩
  · cases h : s.stage <;> simp [h] at hstage ⊢
  · intro run hmem hlost
    have hpage : (lostStore 2).runs.values.all
        (fun run => (lostStore 2).runsListActiveRuns none |>.contains run) = true := by
      decide +kernel
    simpa using List.all_eq_true.mp hpage run hmem

/-- With a page of one it never does, although nothing else happens and no call fails. -/
theorem lostStore_missed : ∃ s, (machine patientDeps).run (begin (lostStore 1) 900000)
    (sweepInputs 4) = some s ∧ missesLostRun s = true ∧
    ∃ run ∈ (lostStore 1).runs.values, run.runId = .of "lost" ∧
      patientDeps.IsLost 900000 run := by
  have hmissed : ((machine patientDeps).run (begin (lostStore 1) 900000) (sweepInputs 4)).any
      missesLostRun = true := by decide +kernel
  obtain ⟨s, hrun, hmissed⟩ := (Option.any_eq_true _ _).mp hmissed
  refine ⟨s, hrun, hmissed, ⟨.of "lost", .of "u", .of "agent", 0, 0, .pending, 1, none, none⟩, ?_,
    rfl, ?_⟩
  · decide +kernel
  · refine ⟨rfl, rfl, ?_⟩
    decide

end SweptTick
end Skein
