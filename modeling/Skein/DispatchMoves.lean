import Mathlib.Data.List.Perm.Subperm
import Skein.Dispatches

/-!
# The moves of a slot

What each move preserves of the slot of a run, and which moves the operations of the store
make: an admission cancels the runs it displaces and issues the intent of the run it
inserts, and a settlement leaves the intent alone.
-/
namespace Skein

namespace DispatchSlot

/-- The run is there, and has its run intent as long as it is active. -/
def Dispatched (s : DispatchSlot) : Prop :=
  s.terminal ≠ none ∧
    (s.terminal = some false → ∃ intent, s.intent = some intent ∧ intent.kind = .run)

/-- The run is cancelled, and its cancel intent waits for its acknowledgement. -/
def Cancelling (s : DispatchSlot) : Prop :=
  s.terminal = some true ∧
    ∃ intent, s.intent = some intent ∧ intent.kind = .cancel ∧ intent.dispatched = false

/-- Only a terminal run has a cancel intent. -/
def CancelsTerminal (s : DispatchSlot) : Prop :=
  ∀ intent, s.intent = some intent → intent.kind = .cancel → s.terminal ≠ some false

/-- An intent of this kind that a claim could return is leased until `deadline` at least. -/
structure Held (kind : DispatchKind) (deadline : Timestamp) (s : DispatchSlot) : Prop where
  stored : s.terminal ≠ none
  terminal : kind = .cancel → s.terminal = some true
  leased : ∀ intent, s.intent = some intent → intent.kind = kind → ¬intent.Done s.terminal →
    ∃ lease ∈ intent.leaseUntil, deadline ≤ lease

/-- What an intent with this token is. Where nothing satisfies `P` the token is outdated. -/
def TokenOf (token : String) (P : DispatchKind → Prop) (s : DispatchSlot) : Prop :=
  ∀ intent, s.intent = some intent → intent.token = token → P intent.kind

end DispatchSlot

namespace SlotMove
open DispatchSlot
variable {event : SlotEvent} {s s' : DispatchSlot}

/-- A terminal row stays one until it is deleted. -/
theorem terminal_eq_true (h : SlotMove event s s') (hdeleted : event ≠ .deleted)
    (hs : s.terminal = some true) : s'.terminal = some true := by
  cases h with
  | deleted => exact absurd rfl hdeleted
  | settled => rfl
  | cancelled => rfl
  | admitted => cases hs
  | kept => exact hs
  | collected => exact hs
  | leased => exact hs
  | acknowledged => exact hs

theorem terminal_of_cancelled (h : SlotMove .cancelled s s') : s'.terminal = some true := by
  cases h
  rfl

theorem dispatched (h : SlotMove event s s') (hdeleted : event ≠ .deleted) (hs : s.Dispatched) :
    s'.Dispatched := by
  cases h with
  | deleted => exact absurd rfl hdeleted
  | kept => exact hs
  | settled => exact ⟨by simp, by simp⟩
  | cancelled => exact ⟨by simp, by simp⟩
  | admitted => exact absurd rfl hs.1
  | collected hdone =>
    refine ⟨hs.1, fun hactive => ?_⟩
    obtain ⟨intent, hintent, hkind⟩ := hs.2 hactive
    cases hintent
    simp_all [DispatchIntent.Done]
  | leased leaseUntil token hlive hfree =>
    refine ⟨hs.1, fun hactive => ?_⟩
    obtain ⟨intent, hintent, hkind⟩ := hs.2 hactive
    cases hintent
    exact ⟨_, rfl, hkind⟩
  | acknowledged =>
    refine ⟨hs.1, fun hactive => ?_⟩
    obtain ⟨intent, hintent, hkind⟩ := hs.2 hactive
    cases hintent
    exact ⟨_, rfl, hkind⟩

theorem cancelling (h : SlotMove event s s') (hdeleted : event ≠ .deleted)
    (hacknowledged : ∀ intent, s.intent = some intent → event ≠ .acknowledged intent.token)
    (hs : s.Cancelling) : s'.Cancelling := by
  obtain ⟨hterminal, intent, hintent, hkind, hwaiting⟩ := hs
  refine ⟨h.terminal_eq_true hdeleted hterminal, ?_⟩
  cases h with
  | deleted => exact absurd rfl hdeleted
  | kept => exact ⟨intent, hintent, hkind, hwaiting⟩
  | settled => cases hterminal
  | cancelled => cases hterminal
  | admitted => cases hterminal
  | collected hdone =>
    cases hintent
    simp_all [DispatchIntent.Done]
  | leased =>
    cases hintent
    exact ⟨_, rfl, hkind, hwaiting⟩
  | acknowledged =>
    cases hintent
    exact absurd rfl (hacknowledged intent rfl)

theorem cancelsTerminal (h : SlotMove event s s') (hs : s.CancelsTerminal) : s'.CancelsTerminal := by
  cases h with
  | kept => exact hs
  | settled => simp [CancelsTerminal]
  | cancelled => simp [CancelsTerminal]
  | admitted old terminal hissued => simp [CancelsTerminal, hissued.kind]
  | deleted => simp [CancelsTerminal]
  | collected => simp [CancelsTerminal]
  | leased =>
    rintro intent hintent hkind
    cases hintent
    exact hs _ rfl hkind
  | acknowledged =>
    rintro intent hintent hkind
    cases hintent
    exact hs _ rfl hkind

theorem held {kind : DispatchKind} {deadline : Timestamp} (h : SlotMove event s s')
    (hdeleted : event ≠ .deleted)
    (hclock : ∀ now leaseUntil token, event = .leased now leaseUntil token → now < leaseUntil)
    (hs : s.Held kind deadline) : s'.Held kind deadline := by
  cases h with
  | deleted => exact absurd rfl hdeleted
  | kept => exact hs
  | settled intent =>
    refine ⟨by simp, fun _ => rfl, fun intent hintent hkind hlive => ?_⟩
    refine hs.leased intent hintent hkind fun hdone => hlive ?_
    simp_all [DispatchIntent.Done]
  | cancelled old hissued =>
    refine ⟨by simp, fun _ => rfl, fun intent hintent hkind _ => ?_⟩
    cases hintent
    cases hs.terminal (hkind.symm.trans hissued.kind)
  | admitted => exact absurd rfl hs.stored
  | collected => exact ⟨hs.stored, hs.terminal, by simp⟩
  | leased leaseUntil token hlive hfree =>
    refine ⟨hs.stored, hs.terminal, fun intent hintent hkind _ => ?_⟩
    cases hintent
    obtain ⟨lease, hlease, hdeadline⟩ := hs.leased _ rfl hkind hlive
    have hnow := Nat.le_trans hdeadline (hfree lease hlease)
    exact ⟨leaseUntil, rfl, Nat.le_trans hnow (Nat.le_of_lt (hclock _ _ _ rfl))⟩
  | acknowledged intent terminal =>
    refine ⟨hs.stored, hs.terminal, fun acked hacked hkind hlive => ?_⟩
    cases hacked
    refine hs.leased intent rfl hkind fun hdone => hlive ?_
    simp_all [DispatchIntent.Done]

theorem tokenOf {token : String} {P : DispatchKind → Prop} (h : SlotMove event s s')
    (htoken : token ≠ "")
    (hfresh : ∀ now leaseUntil drawn, event = .leased now leaseUntil drawn → drawn ≠ token)
    (hs : s.TokenOf token P) : s'.TokenOf token P := by
  cases h with
  | kept => exact hs
  | settled => exact hs
  | cancelled old hissued =>
    rintro intent hintent heq
    cases hintent
    exact absurd (heq.symm.trans hissued.token) htoken
  | admitted old terminal hissued =>
    rintro intent hintent heq
    cases hintent
    exact absurd (heq.symm.trans hissued.token) htoken
  | deleted => simp [TokenOf]
  | collected => simp [TokenOf]
  | leased leaseUntil drawn =>
    rintro intent hintent heq
    cases hintent
    exact absurd heq (hfresh _ _ _ rfl)
  | acknowledged intent =>
    rintro acked hacked heq
    cases hacked
    exact hs intent rfl heq

end SlotMove

namespace MemorySkeinStore
variable {J : Type*}

theorem runsDelete_slot (store : MemorySkeinStore J) (runId k : RunId) :
    (store.runsDelete runId).slot k = if runId = k then ⟨none, none⟩ else store.slot k := by
  simp only [slot, terminal?, runsDelete, forgetAdmission, Table.get?_erase]
  split_ifs <;> rfl

theorem settleFinal_terminal? (store : MemorySkeinStore J) (runId : RunId)
    (final : RunSettlement J) (uuid : DeliveryId) (now : Timestamp) (k : RunId) :
    (store.settleFinal runId final uuid now).2.terminal? k =
      if k = runId then (store.terminal? k).map fun _ => true else store.terminal? k := by
  simp only [terminal?, settleFinal_get?]
  split_ifs
  · cases store.runs.get? k with
    | none => rfl
    | some run => simp [settledRun_isTerminal]
  · rfl

theorem settleFinal_dispatches (store : MemorySkeinStore J) (runId : RunId)
    (final : RunSettlement J) (uuid : DeliveryId) (now : Timestamp) :
    (store.settleFinal runId final uuid now).2.dispatches = store.dispatches := by
  rw [settleFinal_frame]

theorem settleFinal_slot (store : MemorySkeinStore J) (runId : RunId) (final : RunSettlement J)
    (uuid : DeliveryId) (now : Timestamp) (k : RunId) :
    ∃ event, SlotMove event (store.slot k) ((store.settleFinal runId final uuid now).2.slot k) ∧
      (event = .kept ∨ event = .settled) := by
  simp only [slot, settleFinal_terminal?, settleFinal_dispatches]
  split_ifs
  · rcases store.terminal? k with _ | _ | _
    · exact ⟨.kept, .kept _, .inl rfl⟩
    · exact ⟨.settled, .settled _, .inr rfl⟩
    · exact ⟨.kept, .kept _, .inl rfl⟩
  · exact ⟨.kept, .kept _, .inl rfl⟩

theorem dispatch_slot (store : MemorySkeinStore J) (run : Run J) (kind : DispatchKind)
    (action : Option CancelAction) (now : Timestamp) :
    ∃ intent : DispatchIntent, intent.Issued kind ∧ ∀ k,
      (store.dispatch run kind action now).slot k =
        ⟨store.terminal? k, if run.runId = k then some intent else store.dispatches.get? k⟩ := by
  have hwritten : ∃ intent : DispatchIntent, intent.Issued kind ∧ intent.runId = run.runId ∧
      (store.dispatch run kind action now).dispatches = store.dispatches.write intent :=
    ⟨_, ⟨rfl, rfl, rfl, rfl⟩, rfl, rfl⟩
  obtain ⟨intent, hissued, hid, hdispatches⟩ := hwritten
  refine ⟨intent, hissued, fun k => ?_⟩
  simp only [slot, hdispatches, Table.get?_write, hid]
  rfl

/-- Settling an active run and dispatching its cancel. -/
theorem settleFinal_cancelled (store : MemorySkeinStore J) {runId : RunId}
    (hactive : store.terminal? runId = some false) (final : RunSettlement J) (uuid : DeliveryId)
    (now : Timestamp) (action : Option CancelAction) (k : RunId) :
    (k = runId → SlotMove .cancelled (store.slot k)
      (((store.settleFinal runId final uuid now).2.dispatchSettled
        (store.settleFinal runId final uuid now).1 action now).slot k)) ∧
    (k ≠ runId → ((store.settleFinal runId final uuid now).2.dispatchSettled
      (store.settleFinal runId final uuid now).1 action now).slot k = store.slot k) := by
  obtain ⟨run, hrun, -⟩ := Option.map_eq_some_iff.mp hactive
  have hid : run.runId = runId := Table.key_of_get? hrun
  have hrow : (store.settleFinal runId final uuid now).1.run = some (settledRun run final now) := by
    rw [settleFinal_run, settleFinal_get?, if_pos rfl, hrun, Option.map_some]
  obtain ⟨intent, hissued, hslot⟩ := (store.settleFinal runId final uuid now).2.dispatch_slot
    (settledRun run final now) .cancel action now
  simp only [dispatchSettled, hrow, Option.elim_some, hslot, settledRun_runId, hid,
    settleFinal_terminal?, settleFinal_dispatches]
  constructor
  · rintro rfl
    rw [if_pos rfl, if_pos rfl, slot, hactive]
    exact .cancelled _ hissued
  · intro hk
    rw [if_neg hk, if_neg (Ne.symm hk)]
    rfl

variable [WireJson J]

/-- What displacing the runs `ids`, all of them active, does to the slots. -/
theorem displaceAll_slot (action : CancelAction) (draws : AdmissionDraws)
    {displaced : List (Displacement J)}
    (hparsed : ∀ item ∈ displaced, item.settlement.roundTrip = some item.settlement)
    (hnodup : (displaced.map Displacement.runId).Nodup) (store : MemorySkeinStore J)
    (hactive : ∀ item ∈ displaced, store.terminal? item.runId = some false) (k : RunId) :
    (k ∈ displaced.map Displacement.runId →
      SlotMove .cancelled (store.slot k) ((displaceAll action draws displaced store).2.slot k)) ∧
    (k ∉ displaced.map Displacement.runId →
      (displaceAll action draws displaced store).2.slot k = store.slot k) := by
  induction displaced generalizing store with
  | nil => simp [displaceAll]
  | cons item rest ih =>
    obtain ⟨hitem, hrest⟩ := List.forall_mem_cons.mp hparsed
    obtain ⟨hid, hnodup⟩ := List.nodup_cons.mp hnodup
    obtain ⟨hfirst, hlater⟩ := List.forall_mem_cons.mp hactive
    simp only [displaceAll, runsSettle_of_roundTrip hitem, List.map_cons, List.mem_cons]
    have hone := store.settleFinal_cancelled hfirst item.settlement
      (draws.deliveryUuid item.runId) draws.now (some action)
    have hterminal : ∀ j, j ≠ item.runId → ((store.settleFinal item.runId item.settlement
        (draws.deliveryUuid item.runId) draws.now).2.dispatchSettled (store.settleFinal item.runId
          item.settlement (draws.deliveryUuid item.runId) draws.now).1 (some action)
            draws.now).terminal? j = store.terminal? j := fun j hj =>
      congrArg DispatchSlot.terminal ((hone j).2 hj)
    have hdone := ih hrest hnodup ((store.settleFinal item.runId item.settlement
      (draws.deliveryUuid item.runId) draws.now).2.dispatchSettled (store.settleFinal item.runId
        item.settlement (draws.deliveryUuid item.runId) draws.now).1 (some action) draws.now)
      fun other hother => by
        have hne : other.runId ≠ item.runId := fun h => hid (h ▸ List.mem_map_of_mem hother)
        rw [hterminal _ hne]
        exact hlater other hother
    constructor
    · rintro (rfl | hk)
      · rw [hdone.2 hid]
        exact (hone _).1 rfl
      · have hne : k ≠ item.runId := fun h => hid (h ▸ hk)
        rw [← (hone k).2 hne]
        exact hdone.1 hk
    · intro hk
      rw [not_or] at hk
      rw [hdone.2 hk.2, (hone k).2 hk.1]

/-- What an admission does to the slots: it cancels the runs `ids` and inserts one. -/
structure AdmissionMoves (store store' : MemorySkeinStore J) (ids : List RunId)
    (inserted : Option RunId) : Prop where
  cancelled : ∀ k ∈ ids, SlotMove .cancelled (store.slot k) (store'.slot k)
  admitted : ∀ k ∈ inserted, SlotMove .admitted (store.slot k) (store'.slot k)
  kept : ∀ k, k ∉ ids → k ∉ inserted → store'.slot k = store.slot k

omit [WireJson J] in
theorem AdmissionMoves.of_slot {store store' : MemorySkeinStore J}
    (h : ∀ k, store'.slot k = store.slot k) : AdmissionMoves store store' [] none where
  cancelled := by simp
  admitted := by simp
  kept k _ _ := h k

omit [WireJson J] in
theorem AdmissionMoves.of_start {store mid store' : MemorySkeinStore J} {ids : List RunId}
    {inserted : Option RunId} (h : AdmissionMoves mid store' ids inserted)
    (hslot : ∀ k, mid.slot k = store.slot k) : AdmissionMoves store store' ids inserted where
  cancelled k hk := hslot k ▸ h.cancelled k hk
  admitted k hk := hslot k ▸ h.admitted k hk
  kept k hk hinserted := hslot k ▸ h.kept k hk hinserted

omit [WireJson J] in
/-- Inserting a run and dispatching it. -/
theorem dispatch_created_slot {store : MemorySkeinStore J} (created : MemorySkeinStore J)
    {run : Run J} (hruns : created.runs = store.runs.write run) (hdispatches : created.dispatches = store.dispatches)
    (hunused : store.runs.contains run.runId = false) (expectedRunId : Option RunId)
    (now : Timestamp) (k : RunId) :
    (k = run.runId → SlotMove .admitted (store.slot k)
      (((created.reserveResume expectedRunId run.runId).dispatch run .run none now).slot k)) ∧
    (k ≠ run.runId →
      ((created.reserveResume expectedRunId run.runId).dispatch run .run none now).slot k =
        store.slot k) := by
  have habsent := (OrderedMap.contains_eq_false_iff _ _).mp hunused
  obtain ⟨intent, hissued, hslot⟩ :=
    (created.reserveResume expectedRunId run.runId).dispatch_slot run .run none now
  have hterminal : (created.reserveResume expectedRunId run.runId).terminal? k =
      if run.runId = k then some run.status.isTerminal else store.terminal? k := by
    rw [terminal?, reserveResume_runs, hruns, Table.get?_write]
    split_ifs <;> rfl
  have hintents : (created.reserveResume expectedRunId run.runId).dispatches = store.dispatches := by
    rw [← hdispatches]
    cases expectedRunId <;> rfl
  rw [hslot, hterminal, hintents]
  constructor
  · rintro rfl
    rw [if_pos rfl, if_pos rfl, slot, terminal?, habsent]
    exact .admitted _ _ hissued
  · intro hk
    rw [if_neg (Ne.symm hk), if_neg (Ne.symm hk)]
    rfl

/-- The commit of an admission, also where the drawn identifier is taken. -/
theorem commitAdmission_moves (store : MemorySkeinStore J) (input : RunAdmission J)
    (prepared : RunCreate J) {displaced : List (Displacement J)} (draws : AdmissionDraws)
    (hparsed : ∀ item ∈ displaced, item.settlement.roundTrip = some item.settlement)
    (hnodup : (displaced.map Displacement.runId).Nodup)
    (hactive : ∀ item ∈ displaced, store.terminal? item.runId = some false) :
    AdmissionMoves store (store.commitAdmission input prepared displaced draws).2
      (displaced.map Displacement.runId)
      ((store.commitAdmission input prepared displaced draws).1.toOption.map (·.runId)) := by
  obtain ⟨mid, hmid, hdisplaced⟩ := displaceAll_displaced
    (displacementAction prepared.multitaskStrategy) draws displaced hparsed store
  have hslots := displaceAll_slot (displacementAction prepared.multitaskStrategy) draws hparsed
    hnodup store hactive
  rw [hmid] at hslots
  cases hused : mid.runs.contains (prepared.runId.getD draws.runUuid) with
  | true =>
    obtain ⟨e, hcreate⟩ := createRun_used draws.now hused
    simp only [commitAdmission, hmid, hcreate]
    exact ⟨fun k hk => (hslots k).1 hk, by simp [Except.toOption], fun k hk _ => (hslots k).2 hk⟩
  | false =>
    obtain ⟨run, created, hcreate, ⟨runKwargs, rfl⟩, hid, -, -⟩ := createRun_unused draws.now hused
    have hunused : mid.runs.contains run.runId = false := by rw [hid, hused]
    simp only [commitAdmission, hmid, hcreate]
    have hcreated := dispatch_created_slot { mid with runs := mid.runs.write run, runKwargs } rfl rfl
      hunused input.expectedRunId draws.now
    have hapart : ∀ k ∈ displaced.map Displacement.runId, k ≠ run.runId := by
      rintro k hk rfl
      obtain ⟨item, hitem, hrun⟩ := List.mem_map.mp hk
      have hrow := hactive item hitem
      rw [hdisplaced.contains, OrderedMap.contains_eq_false_iff] at hunused
      rw [hrun, terminal?, hunused] at hrow
      cases hrow
    refine ⟨fun k hk => ?_, ?_, fun k hk hinserted => ?_⟩
    · have hmove := (hslots k).1 hk
      rw [← (hcreated k).2 (hapart k hk)] at hmove
      exact hmove
    · rintro k hk
      cases hk
      have hfresh : run.runId ∉ displaced.map Displacement.runId := fun h => hapart _ h rfl
      have hmove := (hcreated run.runId).1 rfl
      rw [(hslots _).2 hfresh] at hmove
      exact hmove
    · have hk' : k ≠ run.runId := fun h => hinserted (by rw [h]; rfl)
      rw [← (hslots k).2 hk, ← (hcreated k).2 hk']
      rfl

/-- The displaced runs are just the active ones. -/
theorem admissionGuards_displaced {store : MemorySkeinStore J} {input : RunAdmission J}
    {prepared : RunCreate J} {displaced : List (Displacement J)}
    (h : store.admissionGuards input = .ok (prepared, displaced)) :
    (displaced.map Displacement.runId).Nodup ∧
      ∀ item ∈ displaced, store.terminal? item.runId = some false := by
  by_cases hempty : displaced = []
  · simp [hempty]
  have hpassed := admissionGuards_ok h
  have hlength : displaced.length ≤ (store.activeRuns prepared.threadId).length := by
    unfold admissionGuards at h
    split at h
    · cases h
    · split_ifs at h
      split at h
      · cases h
      next thread hthread =>
        have hid : thread.threadId = _ := Table.key_of_get? hthread
        split_ifs at h
        split at h
        · cases h
        · dsimp only at h
          split_ifs at h with hobserved hidle
          cases h
          rw [hid] at hobserved
          by_contra hlength
          exact hobserved ⟨hempty, .inl fun heq => hlength (Nat.le_of_eq heq.symm)⟩
  have hnodup : ((store.activeRuns prepared.threadId).map Run.runId).Nodup :=
    store.runs.nodup_map_key.sublist (List.filter_sublist.map _)
  have hsubset : (store.activeRuns prepared.threadId).map Run.runId ⊆
      displaced.map Displacement.runId := by
    intro id hid
    obtain ⟨run, hrun, rfl⟩ := List.mem_map.mp hid
    exact hpassed.observed hempty run hrun
  have hperm := (hnodup.subperm hsubset).perm_of_length_le (by simpa using hlength)
  refine ⟨hperm.nodup_iff.mp hnodup, fun item hitem => ?_⟩
  obtain ⟨run, hrun, hid⟩ := List.mem_map.mp (hperm.mem_iff.mpr (List.mem_map_of_mem hitem))
  obtain ⟨hrow, -, hactive⟩ := mem_activeRuns.mp hrun
  rw [terminal?, ← hid, hrow, Option.map_some, hactive]

theorem roundTripDisplacements_runId {displacements displaced : List (Displacement J)}
    (h : roundTripDisplacements displacements = some displaced) :
    displaced.map Displacement.runId = displacements.map Displacement.runId := by
  induction displacements generalizing displaced with
  | nil =>
    cases h
    rfl
  | cons item rest ih =>
    simp only [roundTripDisplacements, List.mapM_cons, Option.bind_eq_bind,
      Option.bind_eq_some_iff, Option.map_eq_some_iff] at h
    obtain ⟨first, ⟨final, -, rfl⟩, others, hothers, h⟩ := h
    cases h
    simp [ih hothers]

theorem admitRun_moves (store : MemorySkeinStore J) (input : RunAdmission J)
    (draws : AdmissionDraws) :
    ∃ ids inserted, AdmissionMoves store (store.admitRun input draws).2 ids inserted ∧
      ∀ receipt, store.replayAdmission input.toAdmissionKey = .ok none →
        (store.admitRun input draws).1 = .ok receipt →
        ids = input.displacements.map Displacement.runId ∧ inserted = some receipt.runId := by
  unfold admitRun
  split_ifs
  · exact ⟨[], none, .of_slot fun _ => rfl, by simp⟩
  split
  · exact ⟨[], none, .of_slot fun _ => rfl, by simp⟩
  next hreplay =>
    exact ⟨[], none, .of_slot fun _ => rfl, by simp [hreplay]⟩
  split
  · exact ⟨[], none, .of_slot fun _ => rfl, by simp⟩
  rename_i prepared displaced hguards
  have hpassed := admissionGuards_ok hguards
  have hframe := store.resumeGuard_frame input.expectedRunId prepared.threadId
  split
  next guarded hresume =>
    rw [hresume] at hframe
    dsimp only at hframe ⊢
    rw [hframe]
    exact ⟨[], none, .of_slot fun _ => rfl, by simp⟩
  next guarded hresume =>
    rw [hresume] at hframe
    dsimp only at hframe
    have hslot : ∀ k, guarded.slot k = store.slot k := by
      intro k
      rw [hframe]
      rfl
    split_ifs
    · exact ⟨[], none, .of_slot hslot, by simp⟩
    · obtain ⟨hnodup, hactive⟩ := admissionGuards_displaced hguards
      have hmoves := guarded.commitAdmission_moves input prepared draws
        (roundTripDisplacements_parsed hpassed.displacements).2 hnodup fun item hitem => by
          rw [show guarded.terminal? item.runId = store.terminal? item.runId from
            congrArg DispatchSlot.terminal (hslot _)]
          exact hactive item hitem
      refine ⟨_, _, hmoves.of_start hslot, fun receipt _ hreceipt =>
        ⟨roundTripDisplacements_runId hpassed.displacements, ?_⟩⟩
      rw [hreceipt]
      rfl

theorem admitCancel_moves (store : MemorySkeinStore J) (input : CancelAdmission J)
    (draws : AdmissionDraws) :
    ∃ ids, AdmissionMoves store (store.admitCancel input draws).2 ids none ∧
      ∀ receipt, store.replayAdmission input.toAdmissionKey = .ok none →
        (store.admitCancel input draws).1 = .ok receipt →
        (store.terminal? input.runId = some false → input.runId ∈ ids) ∧
        (store.admitCancel input draws).2.terminal? input.runId = some true := by
  unfold admitCancel
  split
  · exact ⟨[], .of_slot fun _ => rfl, by simp⟩
  next hreplay =>
    exact ⟨[], .of_slot fun _ => rfl, by simp [hreplay]⟩
  split
  · exact ⟨[], .of_slot fun _ => rfl, by simp⟩
  rename_i existing hexisting
  split
  · exact ⟨[], .of_slot fun _ => rfl, by simp⟩
  dsimp only
  split_ifs with hterminal
  · have hrow : store.terminal? input.runId = some true := by
      rw [terminal?, hexisting, Option.map_some, hterminal]
    exact ⟨[], .of_slot fun _ => rfl, fun _ _ _ => ⟨by simp [hrow], hrow⟩⟩
  · have hrow : store.terminal? input.runId = some false := by
      rw [terminal?, hexisting, Option.map_some, Bool.eq_false_iff.mpr hterminal]
    split
    next hsettle =>
      unfold runsSettle at hsettle
      split at hsettle
      · cases hsettle
        exact ⟨[], .of_slot fun _ => rfl, by simp⟩
      · cases hsettle
    next settled store' hsettle =>
      obtain ⟨final, -, rfl, rfl⟩ := runsSettle_ok hsettle
      have hone := store.settleFinal_cancelled hrow final (draws.deliveryUuid input.runId) draws.now
        input.action
      refine ⟨[input.runId], ⟨?_, by simp, ?_⟩, fun _ _ _ => ⟨by simp, ?_⟩⟩
      · intro k hk
        exact (hone k).1 (List.mem_singleton.mp hk)
      · intro k hk _
        exact (hone k).2 (fun h => hk (List.mem_singleton.mpr h))
      · exact ((hone input.runId).1 rfl).terminal_of_cancelled

end MemorySkeinStore

end Skein
