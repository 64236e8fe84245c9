import Skein.ThreadRollbacks

/-!
# The rollbacks that are owed

From the moment in which a cancel request finds a run until its rollback is performed, a
rollback to the base of that run is owed, if it has one. While all rollbacks owed are owed
to one run, what lay behind its base when that was recorded is still kept by a rollback to it:
the run's own writes only add to the history, and a rollback to the same base is idempotent.
-/
namespace Skein

/-- The request may still revert the thread. -/
def CancelStage.outstanding : CancelStage → Bool
  | .found => true
  | .read base => base.isSome
  | .waiting _ => true
  | .deleting => false

/-- The base that a rollback will be made to. -/
def CancelStage.base : CancelStage → Option (Option CheckpointId)
  | .found => none
  | .read base => base
  | .waiting base => some base
  | .deleting => none

namespace ThreadRun

theorem setStatus_baseCheckpointId (row : ThreadRun) (status : RunStatus) :
    (row.setStatus status).baseCheckpointId = row.baseCheckpointId := by
  unfold setStatus
  split_ifs <;> rfl

/-- A terminal status ends a run. -/
theorem live_setStatus_of_terminal (row : ThreadRun) {status : RunStatus}
    (hstatus : status.isTerminal = true) : (row.setStatus status).live = false := by
  unfold setStatus
  split_ifs with hrunning
  · rw [hrunning.1] at hstatus
    cases hstatus
  · simp [live, hstatus]

end ThreadRun

namespace ThreadRuns
variable {T : CheckpointedThread}

section Predicates
variable (s : ThreadRuns T) (runId : RunId)

/-- The run has a base checkpoint, persisted or about to be. -/
def Recorded (base : Option CheckpointId) : Prop :=
  s.unsaved runId = some base ∨
    ∃ row, s.rows runId = some row ∧ row.baseCheckpointId = some base

def InGraph : Prop := s.claim = some (.execution runId .graph)

/-- The run holds the claim and has found its row live. -/
def Begun : Prop := ∃ phase, s.claim = some (.execution runId phase) ∧ phase ≠ .claimed

/-- The run has begun and has not recorded its base. -/
def Starting : Prop :=
  ∃ phase, s.claim = some (.execution runId phase) ∧ phase ≠ .claimed ∧ phase ≠ .graph

/-- A cancel request for the run may still revert the thread. -/
def Outstanding : Prop :=
  ∃ k request, s.cancels k = some request ∧ request.runId = runId ∧
    request.stage.outstanding = true

/-- A rollback to the run's base is owed. -/
def Owed : Prop := s.Outstanding runId ∧ ∃ base, s.Recorded runId base

/-- The checkpoint was written by no withdrawn run, and not by this one. -/
def Foreign (c : Coordinate) : Prop :=
  s.writer c ≠ some runId ∧ ∀ writer, s.writer c = some writer → writer ∉ s.withdrawn

/-- A rollback to the base keeps what is foreign to the run. -/
def KeepsForeign (base : Option CheckpointId) : Prop :=
  ∀ x ∈ s.history, s.Foreign runId x.coordinate → ∃ id root, base = some id ∧
    rootById s.history id = some root ∧ x ∈ rollbackKeep s.history root

end Predicates

structure Sound (s : ThreadRuns T) : Prop where
  unborn : ∀ runId, s.rows runId = none → s.unsaved runId = none
  held : ∀ runId phase, s.claim = some (.execution runId phase) → s.rows runId ≠ none
  noted : ∀ runId base, s.runBaseCheckpoints runId = some base → s.Recorded runId base
  unique : ∀ runId base base', s.Recorded runId base → s.Recorded runId base' → base = base'
  read : ∀ k request, s.cancels k = some request → ∀ base, request.stage.base = some base →
    s.Recorded request.runId base
  /-- An active run with a base is executing its graph. -/
  executing : ∀ runId base, s.Recorded runId base → s.isLive runId = true → s.InGraph runId
  starting : ∀ runId base, s.Starting runId → ¬ s.Recorded runId base
  /-- Nothing is owed to another run than the one that has begun. -/
  alone : ∀ runId other, s.Begun runId → s.Owed other → other = runId
  single : ∀ runId other, s.Owed runId → s.Owed other → runId = other
  kept : ∀ runId base, s.Recorded runId base → s.InGraph runId ∨ s.Owed runId →
    s.KeepsForeign runId base

theorem fresh_sound (store : T.saver.Store) : (fresh T store).Sound where
  unborn := fun _ _ => rfl
  held := fun _ _ h => by cases h
  noted := fun _ _ h => by cases h
  unique := by
    rintro runId base base' (h | ⟨row, h, -⟩)
    · cases h
    · cases h
  read := fun _ _ h => by cases h
  executing := fun _ _ _ h => by cases h
  starting := by
    rintro runId base ⟨phase, h, -⟩
    cases h
  alone := by
    rintro runId other ⟨phase, h, -⟩
    cases h
  single := by
    rintro runId other ⟨⟨k, request, h, -⟩, -⟩
    cases h
  kept := by
    rintro runId base - (h | ⟨⟨k, request, h, -⟩, -⟩)
    · cases h
    · cases h

/-- Two states that differ in nothing the invariant depends on, or only to its benefit. -/
structure Quiet (s t : ThreadRuns T) : Prop where
  store : t.store = s.store
  writer : t.writer = s.writer
  withdrawn : s.withdrawn ⊆ t.withdrawn
  rows : ∀ runId, t.rows runId = none → s.rows runId = none
  unsaved : ∀ runId, s.unsaved runId = none → t.unsaved runId = none
  notes : ∀ runId base, t.runBaseCheckpoints runId = some base →
    s.runBaseCheckpoints runId = some base
  recorded : ∀ runId base, t.Recorded runId base ↔ s.Recorded runId base
  live : ∀ runId, t.isLive runId = true → s.isLive runId = true ∨ ∀ base, ¬ s.Recorded runId base
  read : ∀ k request, t.cancels k = some request → ∀ base, request.stage.base = some base →
    s.Recorded request.runId base
  outstanding : ∀ runId, t.Outstanding runId → s.Outstanding runId
  held : ∀ runId phase, t.claim = some (.execution runId phase) → s.rows runId ≠ none
  inGraph : ∀ runId, t.InGraph runId ↔ s.InGraph runId
  begun : ∀ runId, t.Begun runId → s.Begun runId
  starting : ∀ runId, t.Starting runId → s.Starting runId

theorem Sound.quiet_refl {s : ThreadRuns T} (h : s.Sound) : Quiet s s where
  store := rfl
  writer := rfl
  withdrawn := List.Subset.refl _
  rows := fun _ h => h
  unsaved := fun _ h => h
  notes := fun _ _ h => h
  recorded := fun _ _ => Iff.rfl
  live := fun _ h => .inl h
  read := h.read
  outstanding := fun _ h => h
  held := h.held
  inGraph := fun _ => Iff.rfl
  begun := fun _ h => h
  starting := fun _ h => h

theorem Quiet.owed {s t : ThreadRuns T} (h : Quiet s t) {runId : RunId} (howed : t.Owed runId) :
    s.Owed runId := by
  obtain ⟨houtstanding, base, hrecorded⟩ := howed
  exact ⟨h.outstanding runId houtstanding, base, (h.recorded runId base).mp hrecorded⟩

/-- More withdrawn runs leave less to keep. -/
theorem KeepsForeign.of_withdrawn {s t : ThreadRuns T} {runId : RunId} {base : Option CheckpointId}
    (h : s.KeepsForeign runId base) (hstore : t.store = s.store) (hwriter : t.writer = s.writer)
    (hwithdrawn : s.withdrawn ⊆ t.withdrawn) : t.KeepsForeign runId base := by
  have hhistory : t.history = s.history := by rw [history, history, hstore]
  intro x hx hforeign
  rw [hhistory] at hx ⊢
  apply h x hx
  rw [Foreign, hwriter] at hforeign
  exact ⟨hforeign.1, fun writer hwrote hmem => hforeign.2 writer hwrote (hwithdrawn hmem)⟩

theorem Sound.of_quiet {s t : ThreadRuns T} (hs : s.Sound) (h : Quiet s t) : t.Sound where
  unborn := fun runId hnone => h.unsaved runId (hs.unborn runId (h.rows runId hnone))
  held := fun runId phase hclaim hnone => h.held runId phase hclaim (h.rows runId hnone)
  noted := fun runId base hnote => (h.recorded runId base).mpr
    (hs.noted runId base (h.notes runId base hnote))
  unique := fun runId base base' hbase hbase' => hs.unique runId base base'
    ((h.recorded runId base).mp hbase) ((h.recorded runId base').mp hbase')
  read := fun k request hrequest base hbase =>
    (h.recorded request.runId base).mpr (h.read k request hrequest base hbase)
  executing := by
    intro runId base hrecorded hlive
    have hbefore := (h.recorded runId base).mp hrecorded
    rcases h.live runId hlive with hlive | hnone
    · exact (h.inGraph runId).mpr (hs.executing runId base hbefore hlive)
    · exact absurd hbefore (hnone base)
  starting := fun runId base hstarting hrecorded =>
    hs.starting runId base (h.starting runId hstarting) ((h.recorded runId base).mp hrecorded)
  alone := fun runId other hbegun howed => hs.alone runId other (h.begun runId hbegun) (h.owed howed)
  single := fun runId other howed howed' => hs.single runId other (h.owed howed) (h.owed howed')
  kept := by
    intro runId base hrecorded hheld
    have hkept := hs.kept runId base ((h.recorded runId base).mp hrecorded)
      (hheld.imp (h.inGraph runId).mp h.owed)
    exact hkept.of_withdrawn h.store h.writer h.withdrawn

section Rows
variable {s : ThreadRuns T} {runId : RunId} {f : ThreadRun → ThreadRun}

theorem rows_modifyRow_eq_none {other : RunId} :
    (s.modifyRow runId f).rows other = none ↔ s.rows other = none := by
  by_cases h : other = runId
  · subst h
    simp [modifyRow]
  · simp [modifyRow, h]

theorem recorded_modifyRow (hf : ∀ row, (f row).baseCheckpointId = row.baseCheckpointId)
    {other : RunId} {base : Option CheckpointId} :
    (s.modifyRow runId f).Recorded other base ↔ s.Recorded other base := by
  by_cases h : other = runId
  · subst h
    simp [Recorded, modifyRow, hf]
  · simp [Recorded, modifyRow, h]

theorem isLive_of_modifyRow (hf : ∀ row, (f row).live = true → row.live = true) {other : RunId}
    (hlive : (s.modifyRow runId f).isLive other = true) : s.isLive other = true := by
  by_cases h : other = runId
  · subst h
    have hany : ∃ row, s.rows other = some row ∧ (f row).live = true := by
      simpa [isLive, modifyRow, Option.any_eq_true] using hlive
    obtain ⟨row, hrow, hrowlive⟩ := hany
    simp [isLive, hrow, hf row hrowlive]
  · simpa [isLive, modifyRow, h] using hlive

theorem Sound.quiet_modifyRow (hs : s.Sound)
    (hbase : ∀ row, (f row).baseCheckpointId = row.baseCheckpointId)
    (hlive : ∀ row, (f row).live = true → row.live = true) : Quiet s (s.modifyRow runId f) :=
  { hs.quiet_refl with
    rows := fun _ => rows_modifyRow_eq_none.mp
    recorded := fun _ _ => recorded_modifyRow hbase
    live := fun _ h => .inl (isLive_of_modifyRow hlive h) }

end Rows

/-- After a terminal status the run is not live. -/
theorem isLive_setStatus_of_terminal (s : ThreadRuns T) (runId : RunId) {status : RunStatus}
    (hstatus : status.isTerminal = true) : (s.setStatus runId status).isLive runId = false := by
  cases hthere : s.rows runId <;>
    simp [setStatus, modifyRow, isLive, hthere, ThreadRun.live_setStatus_of_terminal _ hstatus]

theorem Sound.quiet_setStatus {s : ThreadRuns T} (hs : s.Sound) (runId : RunId)
    {status : RunStatus} (hstatus : status.isTerminal = true) : Quiet s (s.setStatus runId status) :=
  hs.quiet_modifyRow (fun row => row.setStatus_baseCheckpointId status) fun row hlive => by
    rw [row.live_setStatus_of_terminal hstatus] at hlive
    cases hlive

theorem Sound.quiet_delete {s : ThreadRuns T} (hs : s.Sound) (runId : RunId) :
    Quiet s (s.delete runId) :=
  hs.quiet_modifyRow (fun _ => rfl) fun row hlive => by simp [ThreadRun.live] at hlive

theorem Sound.quiet_withdraw {s : ThreadRuns T} (hs : s.Sound) (runId : RunId)
    (status : TerminalStatus) : Quiet s (s.withdraw runId status) :=
  { hs.quiet_setStatus runId status.2 with withdrawn := List.subset_cons_self _ _ }

/-- The run that has begun is marked as running before it has a base. -/
theorem Sound.quiet_markRunning {s : ThreadRuns T} (hs : s.Sound) {runId : RunId}
    (hstarting : s.Starting runId) : Quiet s (s.setStatus runId .running) :=
  { hs.quiet_refl with
    rows := fun _ => rows_modifyRow_eq_none.mp
    recorded := fun _ _ =>
      recorded_modifyRow fun row => row.setStatus_baseCheckpointId .running
    live := by
      intro other hlive
      by_cases heq : other = runId
      · exact .inr fun base => heq ▸ hs.starting runId base hstarting
      · exact .inl (by simpa [setStatus, modifyRow, isLive, heq] using hlive) }

/-- The claim moves between parties none of which is in its graph. -/
theorem Sound.quiet_claim {s : ThreadRuns T} (hs : s.Sound) {claim : Option Claimant}
    (hgraph : ∀ runId, ¬ s.InGraph runId)
    (hheld : ∀ runId phase, claim = some (.execution runId phase) → s.rows runId ≠ none)
    (hbegun : ∀ runId phase, claim = some (.execution runId phase) → phase ≠ .claimed →
      s.Starting runId ∧ phase ≠ .graph) : Quiet s { s with claim } :=
  { hs.quiet_refl with
    held := hheld
    inGraph := fun runId => ⟨fun h => absurd rfl (hbegun runId .graph h (by simp)).2,
      fun h => absurd h (hgraph runId)⟩
    begun := by
      rintro runId ⟨phase, hclaim, hphase⟩
      obtain ⟨phase', hclaim', hphase', -⟩ := (hbegun runId phase hclaim hphase).1
      exact ⟨phase', hclaim', hphase'⟩
    starting := by
      rintro runId ⟨phase, hclaim, hphase, -⟩
      exact (hbegun runId phase hclaim hphase).1 }

theorem Sound.quiet_release {s : ThreadRuns T} (hs : s.Sound) (hgraph : ∀ runId, ¬ s.InGraph runId) :
    Quiet s { s with claim := none } :=
  hs.quiet_claim hgraph (fun _ _ h => by cases h) fun _ _ h => by cases h

/-- A begun execution goes on to a later phase before its graph. -/
theorem Sound.quiet_phase {s : ThreadRuns T} (hs : s.Sound) {runId : RunId}
    {phase phase' : ExecutionPhase} (hclaim : s.claim = some (.execution runId phase))
    (hphase : phase ≠ .claimed ∧ phase ≠ .graph) (hphase' : phase' ≠ .graph) :
    Quiet s { s with claim := some (.execution runId phase') } := by
  apply hs.quiet_claim
  · intro other hgraph
    rw [InGraph, hclaim] at hgraph
    cases hgraph
    exact hphase.2 rfl
  · intro other phase'' h
    cases h
    exact hs.held runId phase hclaim
  · intro other phase'' h _
    cases h
    exact ⟨⟨phase, hclaim, hphase.1, hphase.2⟩, hphase'⟩

/-- A request moves to a stage that owes no more than before. -/
theorem Sound.quiet_setCancel {s : ThreadRuns T} (hs : s.Sound) (k : ℕ)
    (request : Option CancelRequest)
    (hread : ∀ r, request = some r → ∀ base, r.stage.base = some base → s.Recorded r.runId base)
    (houtstanding : ∀ r, request = some r → r.stage.outstanding = true →
      s.Outstanding r.runId) : Quiet s (s.setCancel k request) :=
  { hs.quiet_refl with
    read := by
      intro k' r hr
      by_cases hk : k' = k
      · subst hk
        exact hread r (by simpa [setCancel] using hr)
      · exact hs.read k' r (by simpa [setCancel, hk] using hr)
    outstanding := by
      rintro runId ⟨k', r, hr, rfl, hstage⟩
      by_cases hk : k' = k
      · subst hk
        exact houtstanding r (by simpa [setCancel] using hr) hstage
      · exact ⟨k', r, by simpa [setCancel, hk] using hr, rfl, hstage⟩ }

theorem Sound.recorded_of_readBaseCheckpoint {s : ThreadRuns T} (hs : s.Sound)
    {sameInstance : Bool} {runId : RunId} {base : Option CheckpointId}
    (h : s.readBaseCheckpoint sameInstance runId = some base) : s.Recorded runId base := by
  unfold readBaseCheckpoint at h
  split at h
  · next noted hnote =>
    split_ifs at hnote
    cases h
    exact hs.noted runId base hnote
  · obtain ⟨row, hrow, hbase⟩ := Option.bind_eq_some_iff.mp h
    exact .inr ⟨row, (Option.filter_eq_some_iff.mp hrow).1, hbase⟩

theorem Sound.advanceCreation {s t : ThreadRuns T} (hs : s.Sound) {k : ℕ} {sameInstance : Bool}
    (h : s.advanceCreation k sameInstance = some t) : t.Sound := by
  unfold ThreadRuns.advanceCreation at h
  split at h
  · cases h
    exact hs.of_quiet { hs.quiet_refl with }
  · cases h
    exact hs.of_quiet { hs.quiet_refl with }
  · cases h
    exact hs.of_quiet { hs.quiet_refl with }
  · split_ifs at h
    · cases h
      exact hs.of_quiet { hs.quiet_refl with }
    · cases h
      exact hs.of_quiet { hs.quiet_withdraw _ _ with }
  · cases h

theorem Sound.insertRun {s t : ThreadRuns T} (hs : s.Sound) {k : ℕ} {runId : RunId}
    {admitted : Bool} (h : s.insertRun k runId admitted = some t) : t.Sound := by
  unfold ThreadRuns.insertRun at h
  split at h
  · split_ifs at h with hbusy hthere
    · cases h
      exact hs.of_quiet { hs.quiet_refl with }
    · cases h
      have hnone : s.rows runId = none := by simpa using hthere
      have hunrecorded : ∀ base, ¬ s.Recorded runId base := by
        rintro base (hunsaved | ⟨row, hrow, -⟩)
        · rw [hs.unborn runId hnone] at hunsaved
          cases hunsaved
        · rw [hnone] at hrow
          cases hrow
      refine hs.of_quiet { hs.quiet_refl with rows := ?_, recorded := ?_, live := ?_ }
      · intro other hother
        by_cases heq : other = runId
        · exact heq ▸ hnone
        · simpa [heq] using hother
      · intro other base
        by_cases heq : other = runId
        · subst heq
          simp [Recorded, hs.unborn other hnone, hnone, setCreation]
        · simp [Recorded, heq, setCreation]
      · intro other hlive
        by_cases heq : other = runId
        · exact .inr (heq ▸ hunrecorded)
        · exact .inl (by simpa [isLive, heq] using hlive)
  · cases h

theorem Sound.saveBase {s t : ThreadRuns T} (hs : s.Sound) {runId : RunId}
    (h : s.saveBase runId = some t) : t.Sound := by
  unfold ThreadRuns.saveBase at h
  split at h
  · next base hunsaved =>
    cases h
    have hrecorded : s.Recorded runId base := .inl hunsaved
    obtain ⟨row, hrow⟩ : ∃ row, s.rows runId = some row := by
      apply Option.ne_none_iff_exists'.mp
      intro hnone
      rw [hs.unborn runId hnone] at hunsaved
      cases hunsaved
    refine hs.of_quiet { hs.quiet_refl with
      rows := fun _ => rows_modifyRow_eq_none.mp
      unsaved := ?_
      recorded := ?_
      live := ?_ }
    · intro other hother
      by_cases heq : other = runId
      · subst heq
        simp
      · simpa [heq, modifyRow] using hother
    · intro other base'
      by_cases heq : other = runId
      · subst heq
        constructor
        · rintro (hnone | ⟨row', hrow', hbase'⟩)
          · simp at hnone
          · simp only [modifyRow, Function.update_self, hrow, Option.map_some,
              Option.some.injEq] at hrow'
            subst hrow'
            cases hbase'
            exact hrecorded
        · intro hbase'
          rw [hs.unique other base' base hbase' hrecorded]
          exact .inr ⟨{ row with baseCheckpointId := some base }, by simp [modifyRow, hrow], rfl⟩
      · simp [Recorded, modifyRow, heq]
    · intro other hlive
      exact .inl (isLive_of_modifyRow (s := s) (f := fun row => { row with
        baseCheckpointId := some base }) (fun _ => id) hlive)
  · cases h

theorem Sound.dropNote {s : ThreadRuns T} (hs : s.Sound) (runId : RunId) :
    (s.dropNote runId).Sound := by
  refine hs.of_quiet { hs.quiet_refl with notes := ?_ }
  intro other base hnote
  by_cases heq : other = runId
  · subst heq
    simp [ThreadRuns.dropNote] at hnote
  · simpa [ThreadRuns.dropNote, heq] using hnote

theorem Sound.takeClaim {s t : ThreadRuns T} (hs : s.Sound) {runId : RunId}
    (h : s.takeClaim runId = some t) : t.Sound := by
  unfold ThreadRuns.takeClaim at h
  split_ifs at h with hfree
  cases h
  obtain ⟨hclaim, hthere⟩ := hfree
  apply hs.of_quiet
  apply hs.quiet_claim
  · intro other hgraph
    rw [InGraph, hclaim] at hgraph
    cases hgraph
  · intro other phase h
    cases h
    exact Option.isSome_iff_ne_none.mp hthere
  · intro other phase h hphase
    cases h
    exact absurd rfl hphase

/-- A request finds an active run; if that run has a base it is in its graph. -/
theorem Sound.requestCancel {s t : ThreadRuns T} (hs : s.Sound) {k : ℕ} {runId : RunId}
    (h : s.requestCancel k runId = some t) : t.Sound := by
  unfold ThreadRuns.requestCancel at h
  split at h
  · cases h
  split_ifs at h with hlive
  swap
  · cases h
    exact hs
  cases h
  have howed : ∀ other, (s.setCancel k (some ⟨runId, .found⟩)).Owed other →
      s.Owed other ∨ (other = runId ∧ s.InGraph runId) := by
    rintro other ⟨⟨k', request, hrequest, rfl, hstage⟩, base, hrecorded⟩
    by_cases hk : k' = k
    · subst hk
      obtain rfl : ⟨runId, .found⟩ = request := by simpa [setCancel] using hrequest
      exact .inr ⟨rfl, hs.executing runId base hrecorded hlive⟩
    · exact .inl ⟨⟨k', request, by simpa [setCancel, hk] using hrequest, rfl, hstage⟩, base,
        hrecorded⟩
  have hbegun : s.InGraph runId → s.Begun runId := fun hgraph => ⟨.graph, hgraph, by simp⟩
  constructor
  · exact hs.unborn
  · exact hs.held
  · exact hs.noted
  · exact hs.unique
  · intro k' request hrequest base hbase
    by_cases hk : k' = k
    · subst hk
      obtain rfl : ⟨runId, .found⟩ = request := by simpa [setCancel] using hrequest
      cases hbase
    · exact hs.read k' request (by simpa [setCancel, hk] using hrequest) base hbase
  · exact hs.executing
  · exact hs.starting
  · intro other other' hother hother'
    rcases howed other' hother' with hbefore | ⟨rfl, hgraph⟩
    · exact hs.alone other other' hother hbefore
    · obtain ⟨phase, hclaim, -⟩ := hother
      have hsame : s.claim = some (.execution other phase) := hclaim
      rw [hgraph] at hsame
      cases hsame
      rfl
  · intro other other' hother hother'
    rcases howed other hother with hbefore | ⟨rfl, hgraph⟩
    · rcases howed other' hother' with hbefore' | ⟨rfl, hgraph'⟩
      · exact hs.single other other' hbefore hbefore'
      · exact hs.alone other' other (hbegun hgraph') hbefore
    · rcases howed other' hother' with hbefore' | ⟨rfl, -⟩
      · exact (hs.alone other other' (hbegun hgraph) hbefore').symm
      · rfl
  · intro other base hrecorded hheld
    apply hs.kept other base hrecorded
    rcases hheld with hgraph | hother
    · exact .inl hgraph
    · rcases howed other hother with hbefore | ⟨rfl, hgraph⟩
      · exact .inr hbefore
      · exact .inl hgraph

theorem Sound.advanceCancel {s t : ThreadRuns T} (hs : s.Sound) {k : ℕ} {sameInstance : Bool}
    (h : s.advanceCancel k sameInstance = some t) : t.Sound := by
  unfold ThreadRuns.advanceCancel at h
  split at h
  · next runId hrequest =>
    cases h
    apply hs.of_quiet
    apply hs.quiet_setCancel
    · intro r hr base hbase
      cases hr
      exact hs.recorded_of_readBaseCheckpoint hbase
    · intro r hr _
      cases hr
      exact ⟨k, _, hrequest, rfl, rfl⟩
  · next runId base hrequest =>
    split_ifs at h
    · cases h
      exact hs.of_quiet (hs.quiet_setCancel _ _ (fun _ h => by cases h) fun _ h => by cases h)
    cases h
    have hquiet := hs.quiet_withdraw runId ⟨.cancelled, RunStatus.isTerminal_cancelled⟩
    have hw := hs.of_quiet hquiet
    apply hw.of_quiet
    apply hw.quiet_setCancel
    · intro r hr base' hbase'
      obtain ⟨found, hfound, rfl⟩ := Option.map_eq_some_iff.mp hr
      cases hbase'
      exact (hquiet.recorded runId base').mpr (hs.read k _ hrequest base' hfound)
    · intro r hr _
      obtain ⟨found, hfound, rfl⟩ := Option.map_eq_some_iff.mp hr
      exact ⟨k, ⟨runId, .read base⟩, hrequest, rfl, by simp [CancelStage.outstanding, hfound]⟩
  · split_ifs at h with hfree
    cases h
    apply hs.of_quiet
    apply hs.quiet_claim
    · intro other hgraph
      rw [InGraph, hfree] at hgraph
      cases hgraph
    · intro other phase h
      cases h
    · intro other phase h
      cases h
  · cases h

theorem Sound.deleteCancelled {s t : ThreadRuns T} (hs : s.Sound) {k : ℕ}
    (h : s.deleteCancelled k = some t) : t.Sound := by
  unfold ThreadRuns.deleteCancelled at h
  split at h
  · next k' runId hclaim hrequest =>
    split_ifs at h with hk
    cases h
    have hdeleted := hs.of_quiet (hs.quiet_delete runId)
    have hdropped := hdeleted.of_quiet (hdeleted.quiet_setCancel k none
      (fun _ h => by cases h) fun _ h => by cases h)
    refine hdropped.of_quiet (hdropped.quiet_release ?_)
    intro other hgraph
    have hsame : s.InGraph other := hgraph
    rw [InGraph, hclaim] at hsame
    cases hsame
  · cases h

/-- What `revertTo` leaves: nothing, the same where the base is gone, or what the rollback
to the base keeps. -/
theorem revertTo_eq_some {s : ThreadRuns T} {base : Option CheckpointId} {uuids : List String}
    {store : T.saver.Store} (h : s.revertTo base uuids = some store) :
    match base with
    | none => T.saver.list store T.threadId = []
    | some id => (rootById s.history id).elim (store = s.store) fun root =>
        Holds T.saver store T.threadId (rollbackKeep s.history root) := by
  unfold revertTo at h
  split at h
  · next result after hrun =>
    cases h
    cases base with
    | none =>
      have hdelete : rollbackThreadCheckpointsTo T.saver T.cloneCheckpoint T.threadId none uuids
          ⟨s.store, []⟩ = (.ok (), ⟨T.saver.deleteThread s.store T.threadId, []⟩) := rfl
      rw [hdelete] at hrun
      cases hrun
      exact T.lawful.list_deleteThread s.store T.threadId
    | some id =>
      have hspec := (rollbackThreadCheckpointsTo_ensures T.threadId T.lawful T.clone_eq s.store
        uuids id).of_ok rfl hrun
      dsimp only
      rw [history]
      cases hroot : rootById (T.saver.list s.store T.threadId) id with
      | none =>
        rw [hroot] at hspec
        exact hspec
      | some root =>
        rw [hroot] at hspec
        exact hspec.1
  · cases h

/-- A rollback to a base that keeps what is foreign to a run removes none of it. -/
theorem KeepsForeign.survives {s : ThreadRuns T} {runId : RunId} {base : Option CheckpointId}
    (hkept : s.KeepsForeign runId base) {uuids : List String} {store : T.saver.Store}
    (h : s.revertTo base uuids = some store) {x : CheckpointTuple} (hx : x ∈ s.history)
    (hforeign : s.Foreign runId x.coordinate) :
    ∃ y ∈ T.saver.list store T.threadId, y.coordinate = x.coordinate := by
  obtain ⟨id, root, rfl, hroot, hkeep⟩ := hkept x hx hforeign
  have hspec := revertTo_eq_some h
  dsimp only at hspec
  rw [hroot] at hspec
  obtain ⟨y, hy, hcopy⟩ := hspec.complete x hkeep
  exact ⟨y, hy, hcopy.coordinate⟩

/-- A second rollback to the same base would keep it as well. -/
theorem KeepsForeign.revert {s t : ThreadRuns T} {runId : RunId} {base : Option CheckpointId}
    (hkept : s.KeepsForeign runId base) {uuids : List String}
    (h : s.revertTo base uuids = some t.store) (hwriter : t.writer = s.writer)
    (hwithdrawn : t.withdrawn = s.withdrawn) : t.KeepsForeign runId base := by
  intro y hy hforeign
  have hspec := revertTo_eq_some h
  rw [Foreign, hwriter, hwithdrawn] at hforeign
  cases base with
  | none =>
    rw [history, hspec] at hy
    cases hy
  | some id =>
    dsimp only at hspec
    cases hroot : rootById s.history id with
    | none =>
      rw [hroot] at hspec
      have hsame : t.history = s.history := congrArg (T.saver.list · T.threadId) hspec
      obtain ⟨id', root, hid, hroot', -⟩ := hkept y (hsame ▸ hy) hforeign
      cases hid
      rw [hroot] at hroot'
      cases hroot'
    | some root =>
      rw [hroot] at hspec
      have hholds : Holds T.saver t.store T.threadId (rollbackKeep s.history root) := hspec
      obtain ⟨hmem, hns, rfl⟩ := (rootById_eq_some_iff
        (T.lawful.nodup_coordinates s.store T.threadId)).mp hroot
      have hseed := (mem_rollbackSeeds_iff (T.lawful.nodup_coordinates s.store T.threadId)
        hmem hns).mpr (.inl .refl)
      obtain ⟨root', hroot', hcopy⟩ := copy_of_seed T.lawful hmem hns hholds hseed
      refine ⟨_, root', rfl, ?_, ?_⟩
      · apply (rootById_eq_some_iff (T.lawful.nodup_coordinates t.store T.threadId)).mpr
        exact ⟨hroot', hcopy.ns.trans hns, congrArg Checkpoint.id hcopy.checkpoint⟩
      · have hall := rollbackKeep_of_holds T.lawful hmem hns hholds hroot' hcopy
        rw [history, hall]
        exact List.mem_reverse.mpr hy

/-- What the executing graph writes is its own, and it removes nothing. -/
theorem KeepsForeign.graphWrite {s : ThreadRuns T} {runId : RunId} {base : Option CheckpointId}
    (hkept : s.KeepsForeign runId base) (hgraph : s.InGraph runId)
    {w : GraphWrite T.saver T.threadId} {t : ThreadRuns T} (h : s.graphWrite w = some t) :
    t.KeepsForeign runId base := by
  unfold ThreadRuns.graphWrite at h
  rw [hgraph] at h
  cases h
  intro y hy hforeign
  have hbefore := T.lawful.nodup_coordinates s.store T.threadId
  have hafter := T.lawful.nodup_coordinates (w.write s.store) T.threadId
  have hold : y.coordinate ∈ s.coordinates := by
    by_contra hnew
    apply hforeign.1
    exact if_pos ⟨List.mem_map.mpr ⟨y, hy, rfl⟩, hnew⟩
  have hsame : ∀ c ∈ s.coordinates, (if c ∈ ({ s with store := w.write s.store }).coordinates ∧
      c ∉ s.coordinates then some runId else s.writer c) = s.writer c :=
    fun c hc => if_neg fun h => h.2 hc
  obtain ⟨x, hx, hcoordinate⟩ := List.mem_map.mp hold
  have hforeignBefore : s.Foreign runId x.coordinate := by
    rw [hcoordinate, Foreign, ← hsame _ hold]
    exact hforeign
  obtain ⟨id, root, rfl, hroot, hkeep⟩ := hkept x hx hforeignBefore
  obtain ⟨root', hroot', hgrown⟩ := (w.adds s.store).rootById hbefore hafter hroot
  obtain ⟨hmem, hns, -⟩ := (rootById_eq_some_iff hbefore).mp hroot
  obtain ⟨hmem', -, -⟩ := (rootById_eq_some_iff hafter).mp hroot'
  exact ⟨id, root', rfl, hroot', (w.adds s.store).mem_rollbackKeep hbefore hafter hmem hmem' hgrown
    hns hkeep hy hcoordinate.symm⟩

theorem Sound.graphWrite {s t : ThreadRuns T} (hs : s.Sound) {w : GraphWrite T.saver T.threadId}
    (h : s.graphWrite w = some t) : t.Sound := by
  have hwrite := h
  unfold ThreadRuns.graphWrite at h
  split at h
  · next runId hclaim =>
    cases h
    constructor
    · exact hs.unborn
    · exact hs.held
    · exact hs.noted
    · exact hs.unique
    · exact hs.read
    · exact hs.executing
    · exact hs.starting
    · exact hs.alone
    · exact hs.single
    · intro other base hrecorded hheld
      have hbefore : s.InGraph other ∨ s.Owed other := hheld
      obtain rfl : other = runId := by
        rcases hbefore with hgraph | howed
        · rw [InGraph, hclaim] at hgraph
          cases hgraph
          rfl
        · exact hs.alone runId other ⟨.graph, hclaim, by simp⟩ howed
      exact (hs.kept other base hrecorded hbefore).graphWrite hclaim hwrite
  · cases h

/-- Once its row is terminal, the run in its graph may let the claim go. -/
theorem Sound.leaveGraph {s : ThreadRuns T} (hs : s.Sound) {runId : RunId} (hgraph : s.InGraph runId)
    (hdead : s.isLive runId = false) : ({ s with claim := none }).Sound := by
  constructor
  · exact hs.unborn
  · intro other phase h
    cases h
  · exact hs.noted
  · exact hs.unique
  · exact hs.read
  · intro other base hrecorded hlive
    have hother : s.InGraph other := hs.executing other base hrecorded hlive
    rw [InGraph, hgraph] at hother
    cases hother
    have hlive' : s.isLive runId = true := hlive
    rw [hdead] at hlive'
    cases hlive'
  · rintro other base ⟨phase, h, -⟩
    cases h
  · rintro other other' ⟨phase, h, -⟩
    cases h
  · exact hs.single
  · rintro other base hrecorded (hother | howed)
    · cases hother
    · exact hs.kept other base hrecorded (.inr howed)

theorem Sound.settle {s t : ThreadRuns T} (hs : s.Sound) {status : TerminalStatus}
    (h : s.settle status = some t) : t.Sound := by
  unfold ThreadRuns.settle at h
  split at h
  · next runId hclaim =>
    split_ifs at h with hlive
    · cases h
      exact (hs.of_quiet (hs.quiet_setStatus runId status.2)).leaveGraph hclaim
        (s.isLive_setStatus_of_terminal runId status.2)
    · cases h
      exact hs.leaveGraph hclaim (Bool.eq_false_iff.mpr hlive)
  · cases h

theorem Sound.rollbackCancelled {s t : ThreadRuns T} (hs : s.Sound) {k : ℕ} {uuids : List String}
    (h : s.rollbackCancelled k uuids = some t) : t.Sound := by
  unfold ThreadRuns.rollbackCancelled at h
  split at h
  · next k' runId base hclaim hrequest =>
    split_ifs at h with hk
    obtain ⟨store, hrevert, rfl⟩ := Option.map_eq_some_iff.mp h
    have hrecorded := hs.read k _ hrequest base rfl
    have howed : s.Owed runId := ⟨⟨k, _, hrequest, rfl, rfl⟩, base, hrecorded⟩
    have hsource := hs.of_quiet (hs.quiet_setCancel k
      (some ⟨runId, .deleting⟩) (fun _ hr _ hbase => by cases hr; cases hbase)
      fun _ hr hstage => by cases hr; cases hstage)
    constructor
    · exact hsource.unborn
    · exact hsource.held
    · exact hsource.noted
    · exact hsource.unique
    · exact hsource.read
    · exact hsource.executing
    · exact hsource.starting
    · exact hsource.alone
    · exact hsource.single
    · rintro other base' hrecorded' (hgraph | howed')
      · have hsame : s.InGraph other := hgraph
        rw [InGraph, hclaim] at hsame
        cases hsame
      · have hbefore : s.Owed other := (hs.quiet_setCancel k
          (some ⟨runId, .deleting⟩) (fun _ hr _ hbase => by cases hr; cases hbase)
          fun _ hr hstage => by cases hr; cases hstage).owed howed'
        obtain rfl := hs.single runId other howed hbefore
        obtain rfl := hs.unique runId base base' hrecorded hrecorded'
        exact (hs.kept runId base hrecorded (.inr howed)).revert hrevert rfl rfl
  · cases h

end ThreadRuns
end Skein
