import Skein.CronScheduler

/-!
# A cron occurrence fires at most once

A scanned row stays what the store holds for as long as the cron's sequence stays what
was read with it, so a claim that names this sequence advances the very row the next date
was computed from, and no later claim can name it again. Ticks, patches and deletions
only ever advance a cron; everything here follows from that.
-/
namespace Skein

/-- A claim moved its cron past the scheduler's time and past the date it left. -/
def CommittedClaim.Advances (claim : CommittedClaim) : Prop :=
  ∀ next, claim.next = some next →
    claim.now < next ∧ ∀ left, claim.left = some left → left < next

namespace CronWorld
variable {J : Type*}

/-- What the history says about the store it belongs to. -/
structure Safe (world : CronWorld J) : Prop where
  rows : ∀ cronId row, world.store.crons.get? cronId = some row → cronId ∈ world.issued
  claimed : ∀ claim ∈ world.claims, claim.cronId ∈ world.issued
  consumed : ∀ claim ∈ world.claims, ∀ row, world.store.crons.get? claim.cronId = some row →
    claim.occurrenceSeq < world.store.cronSeqOf claim.cronId
  nodup : (world.claims.map CommittedClaim.occurrence).Nodup
  advances : ∀ claim ∈ world.claims, claim.Advances

/-- The reading of a row is not ahead of the store, and current while the sequence is. -/
structure Scanned (world : CronWorld J) (due : DueCron J) : Prop where
  issued : due.cron.cronId ∈ world.issued
  current : ∀ row, world.store.crons.get? due.cron.cronId = some row →
    due.occurrenceSeq ≤ world.store.cronSeqOf due.cron.cronId ∧
      (due.occurrenceSeq = world.store.cronSeqOf due.cron.cronId → row = due.cron)

/-- One turn of anybody: every cron but one it creates advances, and nothing is forgotten. -/
structure Advances (world world' : CronWorld J) : Prop where
  issued : world.issued ⊆ world'.issued
  claims : world.claims ⊆ world'.claims
  crons : ∀ cronId, (cronId ∈ world'.issued → cronId ∈ world.issued) →
    world.store.CronAdvances world'.store cronId

theorem Scanned.advance {world world' : CronWorld J} {due : DueCron J}
    (h : world.Scanned due) (hadv : world.Advances world') : world'.Scanned due := by
  refine ⟨hadv.issued h.issued, fun row' hrow' => ?_⟩
  obtain ⟨row, hrow, hle, hsame⟩ := hadv.crons _ (fun _ => h.issued) row' hrow'
  obtain ⟨hseq, hcur⟩ := h.current row hrow
  refine ⟨hseq.trans hle, fun heq => ?_⟩
  have hstill : world'.store.cronSeqOf due.cron.cronId =
      world.store.cronSeqOf due.cron.cronId := by omega
  exact (hsame hstill).trans (hcur (heq.trans hstill))

/-- A row read by `listDue` is scanned. -/
theorem Safe.scanned {world : CronWorld J} (h : world.Safe) {dueAt : Timestamp}
    {limit : Option ℕ} {due : DueCron J} (hdue : due ∈ world.store.cronsListDue dueAt limit) :
    world.Scanned due := by
  obtain ⟨hrow, -, -, hseq⟩ := MemorySkeinStore.mem_cronsListDue hdue
  refine ⟨h.rows _ _ hrow, fun row hrow' => ⟨hseq.le, fun _ => ?_⟩⟩
  exact Option.some.inj (hrow'.symm.trans hrow)

/-- A turn that consumes no occurrence. -/
theorem Safe.advance {world world' : CronWorld J} (h : world.Safe)
    (hadv : world.Advances world') (hclaims : world'.claims = world.claims) : world'.Safe where
  rows := by
    intro cronId row' hrow'
    by_contra hnew
    obtain ⟨row, hrow, -⟩ := hadv.crons cronId (fun hin => absurd hin hnew) row' hrow'
    exact hnew (hadv.issued (h.rows cronId row hrow))
  claimed := by
    intro claim hclaim
    exact hadv.issued (h.claimed claim (hclaims ▸ hclaim))
  consumed := by
    intro claim hclaim row' hrow'
    have hmem : claim ∈ world.claims := hclaims ▸ hclaim
    obtain ⟨row, hrow, hle, -⟩ := hadv.crons _ (fun _ => h.claimed claim hmem) row' hrow'
    exact (h.consumed claim hmem row hrow).trans_le hle
  nodup := hclaims ▸ h.nodup
  advances := hclaims ▸ h.advances

section Committing
variable {world : CronWorld J} {croner : Croner} {fire : CronFire J} {x : CronInput J}
  {runId : Option RunId} {store' : MemorySkeinStore J}

/-- The completion of a claim call does to the crons what the claim does. -/
theorem committing_advances
    (hcrons : store'.crons =
      (world.store.claimCron fire.cron.cronId (fire.claim croner) x.now).2.crons)
    (hseq : ∀ k, store'.cronSeqOf k =
      (world.store.claimCron fire.cron.cronId (fire.claim croner) x.now).2.cronSeqOf k) :
    world.Advances (world.committing croner fire x runId store') where
  issued := List.Subset.refl _
  claims := by
    unfold committing
    dsimp only
    split_ifs
    · exact List.subset_cons_self _ _
    · exact List.Subset.refl _
  crons := by
    intro k _ row' hrow'
    have hadv := world.store.claimCron_advances fire.cron.cronId (fire.claim croner) x.now k
    obtain ⟨row, hrow, hle, hsame⟩ := hadv row' (hcrons ▸ hrow')
    refine ⟨row, hrow, ?_, fun heq => hsame ?_⟩
    · exact hle.trans (hseq k).ge
    · exact (hseq k).symm.trans heq

/-- A claim call keeps the history truthful: a won claim consumes a sequence nobody has
consumed, and the date it writes was computed from the row it found. -/
theorem Safe.committing (h : world.Safe) (hscan : world.Scanned fire.toDueCron)
    (hcrons : store'.crons =
      (world.store.claimCron fire.cron.cronId (fire.claim croner) x.now).2.crons)
    (hseq : ∀ k, store'.cronSeqOf k =
      (world.store.claimCron fire.cron.cronId (fire.claim croner) x.now).2.cronSeqOf k) :
    (world.committing croner fire x runId store').Safe := by
  have hadv : world.Advances (world.committing croner fire x runId store') :=
    committing_advances hcrons hseq
  rcases world.store.claimCron_cases fire.cron.cronId (fire.claim croner) x.now with
    hlost | ⟨existing, hrow, -, hcurrent, hwon⟩
  · exact h.advance hadv (by simp [CronWorld.committing, hlost])
  · have hexpected : world.store.cronSeqOf fire.cron.cronId = fire.occurrenceSeq := hcurrent
    have hsame : existing = fire.cron := (hscan.current existing hrow).2 hexpected.symm
    have hnext : (store'.crons.get? fire.cron.cronId).bind Cron.nextRunDate =
        fire.nextRunDate croner := by
      rw [hcrons, hwon]
      show ((world.store.crons.write _).get? _).bind _ = _
      have hid : existing.cronId = fire.cron.cronId := Table.key_of_get? hrow
      rw [Table.get?_write, Cron.advanced_cronId, if_pos hid]
      rfl
    have hbumped : store'.cronSeqOf fire.cron.cronId = fire.occurrenceSeq + 1 := by
      rw [hseq, hwon]
      show (world.store.bumpCronSeq fire.cron.cronId).cronSeqOf fire.cron.cronId = _
      rw [MemorySkeinStore.cronSeqOf_bumpCronSeq, if_pos rfl, hexpected]
    have hclaims : (world.committing croner fire x runId store').claims =
        ⟨fire.cron.cronId, fire.occurrenceSeq, fire.now, existing.nextRunDate,
          fire.nextRunDate croner, runId⟩ :: world.claims := by
      simp [CronWorld.committing, hwon, hnext, hrow]
    have hold : CronWorld.Safe { world.committing croner fire x runId store' with
        claims := world.claims } :=
      h.advance ⟨hadv.issued, List.Subset.refl _, hadv.crons⟩ rfl
    refine ⟨hold.rows, ?_, ?_, ?_, ?_⟩
    · rw [hclaims, List.forall_mem_cons]
      exact ⟨hscan.issued, hold.claimed⟩
    · rw [hclaims, List.forall_mem_cons]
      refine ⟨fun row _ => ?_, hold.consumed⟩
      show fire.occurrenceSeq < store'.cronSeqOf fire.cron.cronId
      omega
    · rw [hclaims, List.map_cons, List.nodup_cons]
      refine ⟨fun hmem => ?_, h.nodup⟩
      obtain ⟨claim, hclaim, hocc⟩ := List.mem_map.mp hmem
      obtain ⟨hid, hnum⟩ := Prod.mk.inj hocc
      have hlt := h.consumed claim hclaim existing (hid ▸ hrow)
      rw [hid, hnum, hexpected] at hlt
      exact lt_irrefl _ hlt
    · rw [hclaims, List.forall_mem_cons]
      refine ⟨fun next hdate => ?_, h.advances⟩
      obtain ⟨hleft, hnow⟩ := Croner.advanceCronOccurrence_later hdate
      refine ⟨hnow, fun left hwas => ?_⟩
      have hwas : fire.cron.nextRunDate = some left := hsame ▸ hwas
      simpa [hwas] using hleft

/-- A claim on a consumed occurrence changes nothing at all. -/
theorem Safe.committing_consumed (h : world.Safe)
    (hconsumed : fire.occurrence ∈ world.claims.map CommittedClaim.occurrence) :
    world.committing croner fire x runId
      (world.store.claimCron fire.cron.cronId (fire.claim croner) x.now).2 = world := by
  have hlost : world.store.claimCron fire.cron.cronId (fire.claim croner) x.now =
      (none, world.store) := by
    apply MemorySkeinStore.claimCron_of_stale
    intro row hrow
    obtain ⟨claim, hclaim, hocc⟩ := List.mem_map.mp hconsumed
    obtain ⟨hid, hnum⟩ := Prod.mk.inj hocc
    have hlt := h.consumed claim hclaim row (hid ▸ hrow)
    rw [hid, hnum] at hlt
    exact Nat.ne_of_gt hlt
  simp [CronWorld.committing, hlost]

end Committing

/-- What the rest of the server does advances every cron and consumes no occurrence. -/
theorem step_advances [WireJson J] {world world' : CronWorld J} {e : CronEvent J}
    (h : world.step e = some world') :
    world.Advances world' ∧ world'.claims = world.claims := by
  cases e with
  | create input uuid now =>
    simp only [step] at h
    split_ifs at h with hnew
    cases h
    refine ⟨⟨List.subset_cons_self _ _, List.Subset.refl _, fun k hk => ?_⟩, rfl⟩
    have hne : input.cronId.getD uuid ≠ k := by
      rw [hnew.1]
      rintro rfl
      exact hnew.2 (hk List.mem_cons_self)
    obtain ⟨hrow, hseq⟩ := world.store.cronsCreate_get? input uuid now hne
    exact .of_eq hrow hseq
  | update cronId patch now =>
    cases h
    exact ⟨⟨List.Subset.refl _, List.Subset.refl _, fun k _ =>
      world.store.cronsUpdate_advances cronId patch now k⟩, rfl⟩
  | delete cronId =>
    cases h
    exact ⟨⟨List.Subset.refl _, List.Subset.refl _, fun k _ =>
      world.store.cronsDelete_advances cronId k⟩, rfl⟩
  | threadsDelete threadId =>
    cases h
    exact ⟨⟨List.Subset.refl _, List.Subset.refl _, fun k _ =>
      world.store.threadsDelete_advances threadId k⟩, rfl⟩
  | elsewhere store =>
    cases h
    exact ⟨⟨List.Subset.refl _, List.Subset.refl _, fun k _ => .of_frame rfl rfl k⟩, rfl⟩

end CronWorld

namespace CronTick
variable {J : Type*}

/-- The scanned rows a tick still works from. -/
def scanned : CronTick J → List (DueCron J)
  | .firing fire | .authorizing fire _ | .resolving fire _ _ | .claiming fire _ _ _
  | .retracting fire _ | .enqueueing fire _ | .catching fire => fire.toDueCron :: fire.remaining
  | .tickOnce | .done => []

/-- The claim a tick knows to be committed, with the run created beside it. -/
def won : CronTick J → Option ((CronId × ℕ) × RunId)
  | .enqueueing fire runId => some (fire.occurrence, runId)
  | _ => none

/-- What holds of a tick between its turns. -/
structure Agrees (world : CronWorld J) (p : CronTick J) : Prop where
  scanned : ∀ due ∈ p.scanned, world.Scanned due
  won : ∀ occurrence runId, p.won = some (occurrence, runId) →
    ∃ claim ∈ world.claims, claim.occurrence = occurrence ∧ claim.runId = some runId

theorem Agrees.advance {world world' : CronWorld J} {p : CronTick J} (h : p.Agrees world)
    (hadv : world.Advances world') : p.Agrees world' where
  scanned := fun due hdue => (h.scanned due hdue).advance hadv
  won := by
    intro occurrence runId hwon
    obtain ⟨claim, hclaim, hrest⟩ := h.won occurrence runId hwon
    exact ⟨claim, hadv.claims hclaim, hrest⟩

theorem scanned_next (now : Timestamp) (remaining : List (DueCron J)) :
    (next now remaining).scanned = remaining := by
  cases remaining <;> rfl

@[simp] theorem won_next (now : Timestamp) (remaining : List (DueCron J)) :
    (next now remaining).won = none := by
  cases remaining <;> rfl

/-- A turn that makes no claim call: the crons advance and nothing is recorded. -/
structure Quiet (world world' : CronWorld J) (p p' : CronTick J) : Prop where
  scanned : ∀ due ∈ p'.scanned, due ∈ p.scanned ∨
    ∃ dueAt limit, due ∈ world.store.cronsListDue dueAt limit
  advances : world.Advances world'
  claims : world'.claims = world.claims
  won : p'.won = none

/-- The turn after a claim call, of either kind. -/
structure Claimed (croner : Croner) (world world' : CronWorld J) (p p' : CronTick J)
    (fire : CronFire J) (x : CronInput J) (runId : Option RunId) (store' : MemorySkeinStore J) :
    Prop where
  scanned : p'.scanned ⊆ p.scanned
  fired : fire.toDueCron ∈ p.scanned
  commits : world' = world.committing croner fire x runId store'
  crons : store'.crons =
    (world.store.claimCron fire.cron.cronId (fire.claim croner) x.now).2.crons
  cronSeq : ∀ k, store'.cronSeqOf k =
    (world.store.claimCron fire.cron.cronId (fire.claim croner) x.now).2.cronSeqOf k
  won : ∀ occurrence r, p'.won = some (occurrence, r) → occurrence = fire.occurrence ∧
    runId = some r ∧
    (world.store.claimCron fire.cron.cronId (fire.claim croner) x.now).1.isSome = true

/-- A turn that leaves the cron tables alone and goes on with the same scan is quiet. -/
theorem Quiet.of_frame {world : CronWorld J} {store : MemorySkeinStore J} {p p' : CronTick J}
    (hcrons : store.crons = world.store.crons) (hseq : store.cronSeq = world.store.cronSeq)
    (hscanned : p'.scanned ⊆ p.scanned) (hwon : p'.won = none) :
    Quiet world { world with store } p p' where
  scanned := fun _ hdue => .inl (hscanned hdue)
  advances := ⟨List.Subset.refl _, List.Subset.refl _, fun k _ => .of_frame hcrons hseq k⟩
  claims := rfl
  won := hwon

variable [WireJson J]

/-- The claim call, whether it throws, is lost or wins its run. -/
theorem claiming_turn {deps : CronDeps J} {world world' : CronWorld J} {p' : CronTick J}
    {x : CronInput J} {fire : CronFire J} {auth filters : Option J}
    {threadId : ThreadId}
    (h : resume deps world (.claiming fire auth filters threadId) x = some (world', p')) :
    ∃ runId store',
      Claimed deps.croner world world' (.claiming fire auth filters threadId) p' fire x runId
        store' := by
  obtain ⟨result, store', hcall, hcrons, hseq, hlostNone⟩ :=
    world.store.cronsClaimAndCreateRun_claim fire.cron.cronId (fire.claim deps.croner)
      (fire.runCreate deps auth filters threadId x.clock) x.runUuid x.now
  simp only [resume, hcall] at h
  rcases result with e | _ | claimed
  · cases h
    exact ⟨none, store', List.Subset.refl _, List.mem_cons_self, rfl, hcrons, hseq,
      fun _ _ hwon => by cases hwon⟩
  · cases h
    refine ⟨none, store', ?_, List.mem_cons_self, rfl, hcrons, hseq, ?_⟩
    · split_ifs
      · exact List.Subset.refl _
      · rw [scanned_next]
        exact List.subset_cons_self _ _
    · intro occurrence r hwon
      split_ifs at hwon
      · cases hwon
      · simp at hwon
  · cases h
    refine ⟨some claimed.run.runId, store', List.Subset.refl _, List.mem_cons_self, rfl, hcrons,
      hseq, ?_⟩
    intro occurrence r hwon
    cases hwon
    refine ⟨rfl, rfl, Option.isSome_iff_ne_none.mpr fun hlost => ?_⟩
    simpa using hlostNone hlost

theorem resume_turn {deps : CronDeps J} {world world' : CronWorld J} {p p' : CronTick J}
    {x : CronInput J} (h : resume deps world p x = some (world', p')) :
    Quiet world world' p p' ∨
      ∃ fire runId store', Claimed deps.croner world world' p p' fire x runId store' := by
  cases p with
  | tickOnce =>
    cases h
    refine .inl ⟨fun due hdue => ?_, ?_, rfl, won_next _ _⟩
    · rw [scanned_next] at hdue
      exact .inr ⟨_, _, hdue⟩
    · exact ⟨List.Subset.refl _, List.Subset.refl _, fun k _ => .of_frame rfl rfl k⟩
  | firing fire =>
    refine .inl ?_
    simp only [resume] at h
    split at h
    · split at h
      · cases h
        exact .of_frame rfl rfl (List.Subset.refl _) rfl
      · split_ifs at h <;> cases h <;> exact .of_frame rfl rfl (List.Subset.refl _) rfl
    · cases h
      exact .of_frame rfl rfl (List.Subset.refl _) rfl
  | authorizing fire auth =>
    refine .inl ?_
    simp only [resume] at h
    split_ifs at h <;> cases h <;> exact .of_frame rfl rfl (List.Subset.refl _) rfl
  | resolving fire auth filters =>
    refine .inl ?_
    simp only [resume] at h
    split at h
    · have hframe := world.store.threadsCreate_crons
        { metadata := some (filters.elim id deps.stamp (deps.cronMetadata fire.cron.cronId)) }
        x.threadUuid x.now
      split at h <;> rename_i hcreate <;> rw [hcreate] at hframe <;> cases h <;>
        exact .of_frame hframe.1 hframe.2 (List.Subset.refl _) rfl
    · split at h <;> cases h <;> exact .of_frame rfl rfl (List.Subset.refl _) rfl
  | claiming fire auth filters threadId => exact .inr ⟨fire, claiming_turn h⟩
  | retracting fire threadId =>
    refine .inl ?_
    cases h
    refine ⟨fun due hdue => .inl ?_, ?_, rfl, won_next _ _⟩
    · rw [scanned_next] at hdue
      exact List.mem_cons_of_mem _ hdue
    · refine ⟨List.Subset.refl _, List.Subset.refl _, fun k _ => ?_⟩
      show world.store.CronAdvances (if x.throws then world.store else _) k
      split_ifs
      · exact .of_frame rfl rfl k
      · exact world.store.threadsDelete_advances threadId k
  | enqueueing fire runId =>
    refine .inl ?_
    simp only [resume] at h
    split_ifs at h <;> cases h
    · exact .of_frame rfl rfl (List.Subset.refl _) rfl
    · refine .of_frame rfl rfl ?_ (won_next _ _)
      rw [scanned_next]
      exact List.subset_cons_self _ _
  | catching fire =>
    cases h
    refine .inr ⟨fire, none, _, ?_, List.mem_cons_self, rfl, rfl, fun _ => rfl, ?_⟩
    · rw [scanned_next]
      exact List.subset_cons_self _ _
    · intro occurrence r hwon
      simp at hwon
  | done => cases h

/-- A turn keeps the history truthful, advances every cron and keeps the tick's own
assertion. -/
theorem resume_agrees {deps : CronDeps J} {world world' : CronWorld J} {p p' : CronTick J}
    {x : CronInput J} (hsafe : world.Safe) (hp : p.Agrees world)
    (h : resume deps world p x = some (world', p')) :
    world'.Safe ∧ world.Advances world' ∧ p'.Agrees world' := by
  rcases resume_turn h with hquiet | ⟨fire, runId, store', hclaimed⟩
  · refine ⟨hsafe.advance hquiet.advances hquiet.claims, hquiet.advances, ⟨fun due hdue => ?_, ?_⟩⟩
    · rcases hquiet.scanned due hdue with hold | ⟨dueAt, limit, hlisted⟩
      · exact (hp.scanned due hold).advance hquiet.advances
      · exact (hsafe.scanned hlisted).advance hquiet.advances
    · intro occurrence r hwon
      rw [hquiet.won] at hwon
      cases hwon
  · obtain ⟨hscanned, hfired, rfl, hcrons, hseq, hwon⟩ := hclaimed
    have hadv : world.Advances (world.committing deps.croner fire x runId store') :=
      CronWorld.committing_advances hcrons hseq
    refine ⟨hsafe.committing (hp.scanned _ hfired) hcrons hseq, hadv, ⟨fun due hdue => ?_, ?_⟩⟩
    · exact (hp.scanned due (hscanned hdue)).advance hadv
    · intro occurrence r hr
      obtain ⟨rfl, rfl, hisSome⟩ := hwon occurrence r hr
      simp only [CronWorld.committing, if_pos hisSome]
      exact ⟨_, List.mem_cons_self, rfl, rfl⟩

/-- Ticks, and whatever else the server does, never invalidate what a tick relies on. -/
theorem interferenceFree (deps : CronDeps J) :
    InterferenceFree (program deps) CronWorld.Safe (fun world _ p => Agrees world p)
      (fun _ _ => True) where
  env := by
    intro w e world' hw _ he
    obtain ⟨hadv, hclaims⟩ := CronWorld.step_advances he
    exact ⟨hw.1.advance hadv hclaims, fun j q hq => (hw.2 j q hq).advance hadv⟩
  start := by
    intro w p world' hw _ hs
    cases p with
    | tickOnce =>
      cases hs
      exact ⟨hw.1, ⟨fun _ hdue => (by cases hdue), fun _ _ hwon => (by cases hwon)⟩, hw.2⟩
    | _ => cases hs
  resume := by
    intro w i x p world' p' hw _ hp hr
    obtain ⟨hsafe, hadv, hagrees⟩ := resume_agrees hw.1 (hw.local hp) hr
    exact ⟨hsafe, hagrees, fun j q _ hq => (hw.2 j q hq).advance hadv⟩

end CronTick

/-- At most one claim consumes each value of a cron's occurrence sequence, so at most one
run goes with it; a fire that reached the queue has its claim and its run on record; the
catch path of a fire whose occurrence is consumed only moves on to the next cron; and
every claim moved its cron to the future. -/
structure FiresOnce {J : Type*} [WireJson J] (deps : CronDeps J)
    (w : Pool (CronWorld J) (CronTick J)) : Prop where
  consumedOnce : (w.shared.claims.map CommittedClaim.occurrence).Nodup
  runOnce : ∀ occurrence, ((w.shared.claims.filter (·.occurrence = occurrence)).filterMap
    CommittedClaim.runId).length ≤ 1
  enqueued : ∀ (i : ℕ) fire runId, w.procs[i]? = some (.enqueueing fire runId) →
    ∃ claim ∈ w.shared.claims, claim.occurrence = fire.occurrence ∧ claim.runId = some runId
  caught : ∀ (i : ℕ) fire x, w.procs[i]? = some (.catching fire) →
    fire.occurrence ∈ w.shared.claims.map CommittedClaim.occurrence →
    CronTick.resume deps w.shared (.catching fire) x =
      some (w.shared, .next fire.now fire.remaining)
  advances : ∀ claim ∈ w.shared.claims, ∀ next, claim.next = some next →
    claim.now < next ∧ ∀ left, claim.left = some left → left < next

/-- The rows of distinct occurrences: one claim at most for each of them. -/
theorem length_filter_occurrence_le {claims : List CommittedClaim}
    (h : (claims.map CommittedClaim.occurrence).Nodup) (occurrence : CronId × ℕ) :
    (claims.filter (·.occurrence = occurrence)).length ≤ 1 := by
  have hcount := List.nodup_iff_count_le_one.mp h occurrence
  rw [List.count, List.countP_map, List.countP_eq_length_filter] at hcount
  simpa only [Function.comp_def, beq_eq_decide] using hcount

namespace CronScheduler
variable {J : Type*} [WireJson J]

/-- Along every interleaving of any number of ticks with each other and with the rest of
the server, a cron occurrence fires at most once. -/
theorem fires_at_most_once (deps : CronDeps J) {store : MemorySkeinStore J}
    {w : Pool (CronWorld J) (CronTick J)}
    {as : List (Action (CronEvent J) (CronTick J) (CronInput J))}
    (h : (CronTick.program deps).machine.run ⟨.ofStore store, []⟩ as = some w) :
    FiresOnce deps w := by
  have hstart : (CronWorld.ofStore store).Safe :=
    { rows := fun cronId row hrow =>
        (OrderedMap.mem_keys_iff _ _).mpr (Option.isSome_iff_exists.mpr ⟨row, hrow⟩)
      claimed := fun _ hclaim => by cases hclaim
      consumed := fun _ hclaim => by cases hclaim
      nodup := List.nodup_nil
      advances := fun _ hclaim => by cases hclaim }
  have hall : (CronTick.program deps).machine.Along (fun _ _ => True) ⟨.ofStore store, []⟩ as :=
    Machine.along_of_steps h fun _ _ _ _ _ _ _ => trivial
  have hw := (CronTick.interferenceFree deps).run (Pool.holds_empty hstart) hall h
  refine ⟨hw.1.nodup, fun occurrence => ?_, ?_, ?_, hw.1.advances⟩
  · exact (List.length_filterMap_le _ _).trans
      (length_filter_occurrence_le hw.1.nodup occurrence)
  · intro i fire runId hi
    exact (hw.local hi).won _ _ rfl
  · intro i fire x _ hconsumed
    simp only [CronTick.resume]
    rw [hw.1.committing_consumed hconsumed]

/-- A schedule that comes due every ten milliseconds, on a server without auth. -/
def everyTen : CronDeps ℕ where
  croner := ⟨fun _ _ after => some (after + 10), fun _ _ after _ h =>
    Option.some.inj h ▸ Nat.lt_add_of_pos_right (by decide)⟩
  authEnabled := false
  toKwargs := fun cron _ => cron.payload
  multitaskStrategy := fun _ => none
  cronMetadata := fun _ => 1
  stamp := fun _ metadata => metadata
  ownerMetadata := fun filters => filters

/-- One stateless cron, due at 5. -/
def dueStore : MemorySkeinStore ℕ :=
  (({} : MemorySkeinStore ℕ).cronsCreate
    { assistantId := .of "agent", schedule := "* * * * *", nextRunDate := some 5 }
    (.of "cron") 0).2

/-- Two ticks scan the same occurrence. The first wins it and then fails to enqueue its
run; the second loses and takes its thread back; the first goes through its catch path. -/
def lateCatch : List (Action (CronEvent ℕ) (CronTick ℕ) (CronInput ℕ)) :=
  [.spawn .tickOnce, .spawn .tickOnce, .resume 0 ⟨7, 7, none, .of "t0", .of "r0", false⟩,
    .resume 1 ⟨8, 8, none, .of "t1", .of "r1", false⟩, .resume 0 { clock := 9, now := 9 },
    .resume 1 { clock := 9, now := 9 },
    .resume 0 { clock := 9, now := 9, threadUuid := .of "t0" },
    .resume 1 { clock := 9, now := 9, threadUuid := .of "t1" },
    .resume 0 { clock := 10, now := 10, runUuid := .of "r0" },
    .resume 1 { clock := 11, now := 11, runUuid := .of "r1" },
    .resume 0 { clock := 12, now := 12, throws := true }, .resume 1 { clock := 13, now := 13 },
    .resume 0 { clock := 14, now := 14 }]

/-- The world after that schedule. -/
def caughtPool : Pool (CronWorld ℕ) (CronTick ℕ) :=
  ((CronTick.program everyTen).machine.run ⟨.ofStore dueStore, []⟩ lateCatch).getD
    ⟨.ofStore dueStore, []⟩

/-- It ends with one claim, one run and one thread. -/
theorem lateCatch_fires_once :
    FiresOnce everyTen caughtPool ∧
      caughtPool.shared.claims = [⟨.of "cron", 0, 7, some 5, some 17, some (.of "r0")⟩] ∧
      caughtPool.shared.store.runs.keys = [.of "r0"] ∧
      caughtPool.shared.store.threads.keys = [.of "t0"] :=
  ⟨fires_at_most_once everyTen (show (CronTick.program everyTen).machine.run
    ⟨.ofStore dueStore, []⟩ lateCatch = some caughtPool from rfl), by decide, by decide, by decide⟩

end CronScheduler
end Skein
