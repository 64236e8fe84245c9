import Skein.AdmissionLaws

/-!
# What a displacing admission leaves active

The caller reads the active runs of a thread, prepares one settlement for each and
passes them to `admitRun`, which compares them with the runs active at that moment.
The comparison is skipped when the caller observed no run at all.
-/
namespace Skein
namespace MemorySkeinStore
variable {J : Type*}

/-- The admitted run is the one and only non-terminal run of its thread. -/
def OnlyActive (store : MemorySkeinStore J) (receipt : AdmissionReceipt) : Prop :=
  ∃ run, run.runId = receipt.runId ∧
    ∀ other, other ∈ store.activeRuns receipt.threadId ↔ other = run

/-- The runs active before a new run is written over a settled batch either stay
active, or belong to the batch. -/
theorem Displaced.mem_activeRuns {ids : List RunId} {store mid : MemorySkeinStore J}
    (h : Displaced ids store mid) {threadId : ThreadId} {run : Run J}
    (hrun : run ∈ mid.activeRuns threadId) :
    run ∈ store.activeRuns threadId ∧ run.runId ∉ ids := by
  obtain ⟨hget, hthread, hactive⟩ := MemorySkeinStore.mem_activeRuns.mp hrun
  have hid : run.runId ∉ ids := fun hmem => by
    rw [h.settled _ hmem run hget] at hactive
    cases hactive
  rw [h.kept _ hid] at hget
  exact ⟨MemorySkeinStore.mem_activeRuns.mpr ⟨hget, hthread, hactive⟩, hid⟩

/-- After a write of a run under an unused identifier, the thread's active runs are
the earlier ones and, unless it is terminal, the new one. -/
theorem mem_activeRuns_write {store mid : MemorySkeinStore J} {run : Run J}
    (hruns : store.runs = mid.runs.write run) (hunused : mid.runs.contains run.runId = false)
    (threadId : ThreadId) (other : Run J) :
    other ∈ store.activeRuns threadId ↔
      (other = run ∧ run.threadId = threadId ∧ run.status.isTerminal = false) ∨
        other ∈ mid.activeRuns threadId := by
  have habsent := (OrderedMap.contains_eq_false_iff _ _).mp hunused
  simp only [mem_activeRuns, hruns, Table.get?_write]
  by_cases hid : run.runId = other.runId
  · rw [if_pos hid, ← hid, habsent]
    constructor
    · rintro ⟨heq, hrest⟩
      cases heq
      exact .inl ⟨rfl, hrest⟩
    · rintro (⟨rfl, hrest⟩ | ⟨hnone, -⟩)
      · exact ⟨rfl, hrest⟩
      · cases hnone
  · rw [if_neg hid]
    constructor
    · exact .inr
    · rintro (⟨rfl, -⟩ | hrest)
      · exact absurd rfl hid
      · exact hrest

variable [WireJson J]

/-- Exactly when a fresh admission leaves its run alone on the thread: the caller
observed at least one active run, or there is none to displace, and the run is not
created with a terminal status. -/
theorem admitRun_onlyActive_iff {store store' : MemorySkeinStore J} {input : RunAdmission J}
    {draws : AdmissionDraws} {receipt : AdmissionReceipt}
    (hnew : store.replayAdmission input.toAdmissionKey = .ok none)
    (h : store.admitRun input draws = (.ok receipt, store')) :
    store'.OnlyActive receipt ↔
      (input.displacements ≠ [] ∨ store.activeRuns input.run.threadId = []) ∧
        (input.run.status.getD .pending).isTerminal = false := by
  rcases admitRun_ok h with ⟨hreplay, -⟩ | ⟨-, prepared, displaced, guarded, mid, run, hpassed,
    hresume, hcommitted⟩
  · rw [hnew] at hreplay
    cases hreplay
  obtain ⟨hthread, -, -, hstatus, -⟩ := RunCreate.roundTrip_eq_some hpassed.serialized
  have hlength := (roundTripDisplacements_parsed hpassed.displacements).1
  have hnil : displaced = [] ↔ input.displacements = [] := by
    rw [← List.length_eq_zero_iff, hlength, List.length_eq_zero_iff]
  have hguarded : guarded.runs = store.runs := by
    have hframe := store.resumeGuard_frame input.expectedRunId prepared.threadId
    rw [hresume] at hframe
    rw [show guarded = _ from hframe]
  have hactive : ∀ t, guarded.activeRuns t = store.activeRuns t := fun t => by
    simp [activeRuns, hguarded]
  have hunused : mid.runs.contains run.runId = false :=
    (hcommitted.displaced.contains _).trans hcommitted.unused
  have hrunThread : run.threadId = receipt.threadId := by rw [hcommitted.receipt]
  have hinput : receipt.threadId = input.run.threadId := by
    rw [← hrunThread, hcommitted.threadId, hthread]
  have hrunStatus : run.status = input.run.status.getD .pending := by
    rw [hcommitted.status, hstatus]
  have hmem := fun other =>
    mem_activeRuns_write hcommitted.runs hunused receipt.threadId other
  constructor
  · rintro ⟨alone, hid, halone⟩
    have hnotmid : alone ∉ mid.activeRuns receipt.threadId := fun hold => by
      obtain ⟨hget, -⟩ := mem_activeRuns.mp hold
      rw [hid, hcommitted.receipt,
        (OrderedMap.contains_eq_false_iff _ _).mp hunused] at hget
      cases hget
    obtain ⟨rfl, -, hpending⟩ := ((hmem alone).mp ((halone alone).mpr rfl)).resolve_right hnotmid
    refine ⟨?_, hrunStatus ▸ hpending⟩
    by_contra hrival
    obtain ⟨hobserved, hrivals⟩ := not_or.mp hrival
    obtain ⟨rival, hold⟩ := List.exists_mem_of_ne_nil _ hrivals
    have hdisplaced : displaced = [] := hnil.mpr (not_not.mp hobserved)
    have hkept : rival ∈ mid.activeRuns receipt.threadId := by
      rw [← hinput, ← hactive] at hold
      rw [mem_activeRuns, hcommitted.displaced.kept _ (by simp [hdisplaced])]
      exact mem_activeRuns.mp hold
    have heq := (halone rival).mp ((hmem rival).mpr (.inr hkept))
    exact hnotmid (heq ▸ hkept)
  · rintro ⟨hobserved, hpending⟩
    refine ⟨run, by rw [hcommitted.receipt], fun other => ?_⟩
    rw [hmem, hrunStatus, hpending]
    refine ⟨?_, fun heq => .inl ⟨heq, hrunThread, rfl⟩⟩
    rintro (⟨rfl, -⟩ | hold)
    · rfl
    · obtain ⟨hbefore, hnotid⟩ := hcommitted.displaced.mem_activeRuns hold
      rw [hactive] at hbefore
      rcases hobserved with hsome | hnone
      · rw [hinput, ← hthread] at hbefore
        exact absurd (hpassed.observed (mt hnil.mp hsome) other hbefore) hnotid
      · rw [hinput, hnone] at hbefore
        cases hbefore

def rivalRun : Run ℕ := {
  runId := .of "rival", threadId := .of "t", assistantId := .of "a", createdAt := 0
  updatedAt := 0, status := .pending, metadata := ∅, multitaskStrategy := none }

/-- One thread on which a rival run was created after the caller had seen it idle. -/
def rivalStore : MemorySkeinStore ℕ := {
  threads := (∅ : Table ThreadId (Thread ℕ) Thread.threadId).write {
    threadId := .of "t", createdAt := 0, updatedAt := 0, stateUpdatedAt := 0, metadata := ∅
    status := .idle, values := ∅, interrupts := ∅ }
  runs := (∅ : Table RunId (Run ℕ) Run.runId).write rivalRun }

/-- An interrupting creation with the displacements its caller prepared. -/
def interruptAdmission (displacements : List (Displacement ℕ)) : RunAdmission ℕ := {
  scope := "s", key := "k", fingerprint := "f", now := 0, expiresAt := 1
  run := {
    threadId := .of "t", assistantId := .of "a", runId := some (.of "admitted")
    multitaskStrategy := some .interrupt }
  displacements }

def admissionDraws : AdmissionDraws := ⟨.of "uuid", "claim", fun _ => .of "delivery", 0⟩

/-- The admission that observed nothing: accepted, with the rival still pending. -/
def racedAdmission : Completion ℕ AdmissionReceipt :=
  rivalStore.admitRun (interruptAdmission []) admissionDraws

theorem racedAdmission_not_onlyActive :
    rivalStore.replayAdmission (interruptAdmission []).toAdmissionKey = .ok none ∧
      racedAdmission.1 = .ok ⟨"k", .of "admitted", .of "t"⟩ ∧
      ¬ racedAdmission.2.OnlyActive ⟨"k", .of "admitted", .of "t"⟩ := by
  refine ⟨rfl, rfl, ?_⟩
  rintro ⟨alone, hid, halone⟩
  have hrival : rivalRun = alone := (halone rivalRun).mp (by decide)
  have hne : rivalRun.runId ≠ Id.of "admitted" := by decide
  exact hne (hrival ▸ hid)

/-- The same creation with the rival observed. -/
def observedAdmission : Completion ℕ AdmissionReceipt :=
  rivalStore.admitRun (interruptAdmission [⟨.of "rival", { status := ⟨.interrupted, rfl⟩ }⟩])
    admissionDraws

theorem observedAdmission_onlyActive :
    observedAdmission.2.OnlyActive ⟨"k", .of "admitted", .of "t"⟩ := by
  have hok : rivalStore.admitRun
      (interruptAdmission [⟨.of "rival", { status := ⟨.interrupted, rfl⟩ }⟩]) admissionDraws =
      (.ok ⟨"k", .of "admitted", .of "t"⟩, observedAdmission.2) := rfl
  exact (admitRun_onlyActive_iff rfl hok).mpr ⟨.inl (by decide), by decide⟩

end MemorySkeinStore
end Skein
