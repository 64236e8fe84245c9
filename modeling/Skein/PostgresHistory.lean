import Skein.AdmissionRefinement

/-!
# Postgres admission refines the in-memory admission

Every call of the two drivers, one at a time: an admission, a cancellation, a settlement, a
deletion, a claim and an acknowledgement keep `Simulates` and are answered alike. So do the
histories of both drivers.
-/
namespace Skein

/-- What a thrown error is recognized by: an HTTP error by its status and code. -/
def Thrown.withoutMessage : Thrown → Thrown
  | .http error => .http { error with message := "" }
  | .aborted => .aborted
  | .unserializable => .unserializable

/-- Both drivers accept, with related answers, or refuse with the same error code. -/
inductive AnswersAgree {α β : Type*} (R : α → β → Prop) :
    Except PostgresError α → Except Thrown β → Prop
  | accepted {a : α} {b : β} (h : R a b) : AnswersAgree R (.ok a) (.ok b)
  | refused {e e' : Thrown} (h : e.withoutMessage = e'.withoutMessage) :
      AnswersAgree R (.error (.thrown e)) (.error e')

inductive StoreReply (J : Type*)
  | receipt (receipt : AdmissionReceipt)
  | settled (settled : SettledRun J)
  | claims (claims : List DispatchClaim)
  | done

/-- The same reply, where claims may come in another order. -/
inductive StoreReply.Agrees {J : Type*} : StoreReply J → StoreReply J → Prop
  | same (reply : StoreReply J) : Agrees reply reply
  | claims {claims claims' : List DispatchClaim} (h : claims.Perm claims') :
      Agrees (.claims claims) (.claims claims')

/-- The same answer under another name on both sides. -/
theorem AnswersAgree.map {α J : Type*} {f : α → StoreReply J} {answer : Except PostgresError α}
    {answer' : Except Thrown α} (h : AnswersAgree Eq answer answer') :
    AnswersAgree StoreReply.Agrees (answer.map f) (answer'.map f) := by
  cases h with
  | accepted heq =>
    subst heq
    exact .accepted (.same _)
  | refused hcode => exact .refused hcode

namespace PostgresStore
variable {J : Type*}

namespace Simulates
variable {pg : PostgresStore J} {mem : MemorySkeinStore J}

theorem activeRuns_perm (h : Simulates pg mem) (threadId : ThreadId) :
    ((pg.activeRuns threadId).map RunRow.run).Perm (mem.activeRuns threadId) := by
  have hpg : ((pg.activeRuns threadId).map RunRow.run).Nodup := by
    have hids : (((pg.activeRuns threadId).map RunRow.run).map Run.runId).Nodup := by
      rw [List.map_map]
      exact pg.runs.nodup_map_key.sublist (List.filter_sublist.map _)
    exact hids.of_map
  have hmem : (mem.activeRuns threadId).Nodup :=
    (mem.runs.nodup_map_key.sublist (List.filter_sublist.map _)).of_map
  refine (List.perm_ext_iff_of_nodup hpg hmem).mpr fun run => ?_
  rw [MemorySkeinStore.mem_activeRuns, ← h.runs, List.mem_map]
  simp only [activeRuns, List.mem_filter, Table.mem_values_iff, Bool.and_eq_true,
    decide_eq_true_eq, Bool.not_eq_true', Option.map_eq_some_iff]
  constructor
  · rintro ⟨row, ⟨hrow, hthread, hactive⟩, rfl⟩
    exact ⟨⟨row, hrow, rfl⟩, hthread, hactive⟩
  · rintro ⟨⟨row, hrow, rfl⟩, hthread, hactive⟩
    exact ⟨row, ⟨hrow, hthread, hactive⟩, rfl⟩

theorem resumeGuard_eq (h : Simulates pg mem) {expectedRunId : Option RunId}
    (hstorable : expectedRunId.all Id.storable = true) (threadId : ThreadId) :
    pg.resumeGuard expectedRunId threadId =
      (mem.resumeGuard expectedRunId threadId).1.mapError .thrown ∧
      (mem.resumeGuard expectedRunId threadId).2 = mem := by
  cases expectedRunId with
  | none => exact ⟨rfl, rfl⟩
  | some expected =>
    have hrow : ((pg.runs.get? expected).all fun row =>
        row.run.threadId ≠ threadId ∨ row.run.status ≠ .interrupted) =
        (mem.runs.get? expected).all fun run =>
          run.threadId ≠ threadId ∨ run.status ≠ .interrupted := by
      rw [← h.runs, Option.all_map]
    simp only [PostgresStore.resumeGuard, MemorySkeinStore.resumeGuard,
      MemorySkeinStore.clearStaleReservation_of_live h.reservationsLive, hrow,
      h.contains_reservations]
    rw [Option.all_some] at hstorable
    rw [if_neg (by simp [hstorable])]
    split_ifs
    · exact ⟨rfl, rfl⟩
    · exact ⟨rfl, rfl⟩

/-- What passing the guard on the resumed run says. -/
theorem resumeGuard_ok (h : Simulates pg mem) {expectedRunId : Option RunId}
    {threadId : ThreadId} (hok : (mem.resumeGuard expectedRunId threadId).1 = .ok ()) :
    ∀ expected ∈ expectedRunId, mem.runs.contains expected = true ∧
      mem.resumeReservations.get? expected = none := by
  rintro expected hexpected
  cases Option.mem_def.mp hexpected
  simp only [MemorySkeinStore.resumeGuard,
    MemorySkeinStore.clearStaleReservation_of_live h.reservationsLive] at hok
  split_ifs at hok with hstale
  rw [not_or] at hstale
  refine ⟨?_, ?_⟩
  · cases hrun : mem.runs.get? expected with
    | none => simp [hrun] at hstale
    | some run => simp [OrderedMap.contains, hrun]
  · exact (OrderedMap.contains_eq_false_iff _ _).mp (by simpa using hstale.2)

variable [JsonbColumn J]

theorem serializes_ids {items displaced : List (Displacement J)}
    (h : List.Forall₂ Displacement.Serializes items displaced) (id : RunId) :
    (∀ item ∈ displaced, item.runId ≠ id) ↔ ∀ item ∈ items, item.runId ≠ id := by
  induction h with
  | nil => simp
  | cons hitem hrest ih => rw [List.forall_mem_cons, List.forall_mem_cons, hitem.1, ih]

omit [JsonbColumn J] in
/-- The displaced runs are the active ones, each named once. -/
theorem displaced_nodup {threadId : ThreadId} {displaced : List (Displacement J)}
    (h : ¬(displaced ≠ [] ∧ ((mem.activeRuns threadId).length ≠ displaced.length ∨
      ∃ run ∈ mem.activeRuns threadId, ∀ item ∈ displaced, item.runId ≠ run.runId))) :
    (displaced.map Displacement.runId).Nodup := by
  by_cases hnil : displaced = []
  · rw [hnil]
    exact List.nodup_nil
  have hobserved := not_and.mp h hnil
  rw [not_or, not_not] at hobserved
  have hactive : ((mem.activeRuns threadId).map Run.runId).Nodup :=
    mem.runs.nodup_map_key.sublist (List.filter_sublist.map _)
  have hsubset : (mem.activeRuns threadId).map Run.runId ⊆ displaced.map Displacement.runId := by
    intro id hid
    obtain ⟨run, hrun, rfl⟩ := List.mem_map.mp hid
    by_contra hmissing
    refine hobserved.2 ⟨run, hrun, fun item hitem heq => hmissing ?_⟩
    exact List.mem_map.mpr ⟨item, hitem, heq⟩
  have hperm := (List.subperm_of_subset hactive hsubset).perm_of_length_le (by
    rw [List.length_map, List.length_map, hobserved.1])
  exact hperm.nodup_iff.mp hactive

/-- The guards on the thread and on its active runs. -/
theorem threadGuard (h : Simulates pg mem) {input : RunAdmission J} {prepared : RunCreate J}
    {displaced : List (Displacement J)} (hprepared : input.run.roundTrip = some prepared)
    (hstorable : prepared.threadId.storable = true)
    (hunused : prepared.runId.any mem.runs.contains = false)
    (hdisplaced : MemorySkeinStore.roundTripDisplacements input.displacements = some displaced) :
    (∃ e e', mem.admissionGuards input = .error e' ∧
      pg.threadGuard input prepared.threadId = .error (.thrown e) ∧
        e.withoutMessage = e'.withoutMessage) ∨
    mem.admissionGuards input = .ok (prepared, displaced) ∧
      pg.threadGuard input prepared.threadId = .ok () ∧
      mem.threads.contains prepared.threadId = true ∧
      (displaced.map Displacement.runId).Nodup := by
  have hserialized := roundTripDisplacements_forall₂ hdisplaced
  have hlength : displaced.length = input.displacements.length := hserialized.length_eq.symm
  have hids := serializes_ids hserialized
  unfold MemorySkeinStore.admissionGuards PostgresStore.threadGuard
  rw [hprepared]
  dsimp only
  rw [if_neg (by simp [hunused]), if_neg (by simp [hstorable]), h.threads]
  cases hthread : mem.threads.get? prepared.threadId with
  | none => exact .inl ⟨_, _, rfl, rfl, rfl⟩
  | some thread =>
    have hid : thread.threadId = prepared.threadId := Table.key_of_get? hthread
    have hperm := h.activeRuns_perm prepared.threadId
    have hactiveLength : (pg.activeRuns prepared.threadId).length =
        (mem.activeRuns prepared.threadId).length := by
      rw [← hperm.length_eq, List.length_map]
    have hempty : pg.activeRuns prepared.threadId ≠ [] ↔
        mem.activeRuns prepared.threadId ≠ [] := by
      rw [← List.length_pos_iff, ← List.length_pos_iff, hactiveLength]
    have hother : (∃ row ∈ pg.activeRuns prepared.threadId,
        ∀ item ∈ input.displacements, item.runId ≠ row.runId) ↔
        ∃ run ∈ mem.activeRuns prepared.threadId, ∀ item ∈ displaced, item.runId ≠ run.runId := by
      simp only [← hperm.mem_iff, List.mem_map, hids]
      constructor
      · rintro ⟨row, hrow, hall⟩
        exact ⟨row.run, ⟨row, hrow, rfl⟩, hall⟩
      · rintro ⟨_, ⟨row, hrow, rfl⟩, hall⟩
        exact ⟨row, hrow, hall⟩
    have hnil : input.displacements ≠ [] ↔ displaced ≠ [] := by
      rw [← List.length_pos_iff, ← List.length_pos_iff, hlength]
    have hrefuses : (input.guard.requireNoActiveRun = true ∧
        pg.activeRuns prepared.threadId ≠ []) ∨ (input.displacements ≠ [] ∧
          ((pg.activeRuns prepared.threadId).length ≠ input.displacements.length ∨
            ∃ row ∈ pg.activeRuns prepared.threadId,
              ∀ item ∈ input.displacements, item.runId ≠ row.runId)) ↔
        (displaced ≠ [] ∧ ((mem.activeRuns prepared.threadId).length ≠ displaced.length ∨
          ∃ run ∈ mem.activeRuns prepared.threadId, ∀ item ∈ displaced, item.runId ≠ run.runId)) ∨
        (input.guard.requireNoActiveRun = true ∧ mem.activeRuns prepared.threadId ≠ []) := by
      rw [hother, hempty, hnil, hactiveLength, ← hlength, or_comm]
    dsimp only
    rw [hdisplaced, hid]
    dsimp only
    by_cases hstatus : input.guard.threadStatusIn.any fun statuses => thread.status ∉ statuses
    · rw [if_pos hstatus, if_pos hstatus]
      exact .inl ⟨_, _, rfl, rfl, rfl⟩
    rw [if_neg hstatus, if_neg hstatus]
    by_cases hmismatch : displaced ≠ [] ∧
        ((mem.activeRuns prepared.threadId).length ≠ displaced.length ∨
          ∃ run ∈ mem.activeRuns prepared.threadId, ∀ item ∈ displaced, item.runId ≠ run.runId)
    · rw [if_pos hmismatch, if_pos (hrefuses.mpr (.inl hmismatch))]
      exact .inl ⟨_, _, rfl, rfl, rfl⟩
    rw [if_neg hmismatch]
    by_cases hbusy : input.guard.requireNoActiveRun = true ∧
        mem.activeRuns prepared.threadId ≠ []
    · rw [if_pos hbusy, if_pos (hrefuses.mpr (.inr hbusy))]
      exact .inl ⟨_, _, rfl, rfl, rfl⟩
    · rw [if_neg hbusy, if_neg (mt hrefuses.mp (not_or.mpr ⟨hmismatch, hbusy⟩))]
      refine .inr ⟨rfl, rfl, ?_, displaced_nodup hmismatch⟩
      rw [OrderedMap.contains, hthread]
      rfl

end Simulates

/-- A call of both drivers: it is refused by both and changes nothing, or it commits in both
with related answers, and the simulation goes on. -/
def CallAgrees {α β : Type*} (R : α → β → Prop) (mem : MemorySkeinStore J)
    (work : Except PostgresError (α × PostgresStore J))
    (done : Except Thrown β × MemorySkeinStore J) : Prop :=
  (∃ e e', work = .error (.thrown e) ∧ done = (.error e', mem) ∧
    e.withoutMessage = e'.withoutMessage) ∨
  ∃ a b pg' mem', work = .ok (a, pg') ∧ done = (.ok b, mem') ∧ R a b ∧ Simulates pg' mem'

theorem CallAgrees.transaction {α β : Type*} {R : α → β → Prop} {pg : PostgresStore J}
    {mem : MemorySkeinStore J} (h : Simulates pg mem)
    (work : PostgresStore J → Except PostgresError (α × PostgresStore J))
    {done : Except Thrown β × MemorySkeinStore J} (hcall : CallAgrees R mem (work pg) done) :
    AnswersAgree R (pg.withTransaction work).1 done.1 ∧
      Simulates (pg.withTransaction work).2 done.2 := by
  unfold withTransaction
  rcases hcall with ⟨e, e', hwork, rfl, hcode⟩ | ⟨a, b, pg', mem', hwork, rfl, hab, hsim⟩
  · rw [hwork]
    exact ⟨.refused hcode, h⟩
  · rw [hwork]
    exact ⟨.accepted hab, hsim⟩

/-- What an admission asks of its caller: its run identifier is not in use, its payloads
serialize to what the database takes, and the identifiers it draws are fresh. -/
structure LegalAdmission [JsonbColumn J] (mem : MemorySkeinStore J) (input : RunAdmission J)
    (draws : AdmissionDraws) : Prop where
  unused : mem.runs.contains (input.run.runId.getD draws.runUuid) = false
  key : input.toAdmissionKey.storable = true
  run : ∃ prepared, input.run.roundTrip = some prepared ∧ prepared.storable = true
  runId : (input.run.runId.getD draws.runUuid).storable = true
  expectedRunId : input.expectedRunId.all Id.storable = true
  settlements : ∀ item ∈ input.displacements, item.runId.storable = true ∧
    ∃ final, item.settlement.Stores final
  deliveries : draws.Fresh mem input.displacements
  drawn : ∀ runId, (draws.deliveryUuid runId).storable = true

theorem roundTripDisplacements_isSome [JsonbColumn J] {items : List (Displacement J)}
    (h : ∀ item ∈ items, item.runId.storable = true ∧ ∃ final, item.settlement.Stores final) :
    ∃ displaced, MemorySkeinStore.roundTripDisplacements items = some displaced := by
  induction items with
  | nil => exact ⟨[], rfl⟩
  | cons item rest ih =>
    rw [List.forall_mem_cons] at h
    obtain ⟨⟨-, final, hstores⟩, hrest⟩ := h
    have hfinal := hstores.serializes
    obtain ⟨displaced, hdisplaced⟩ := ih hrest
    refine ⟨⟨item.runId, final⟩ :: displaced, ?_⟩
    rw [MemorySkeinStore.roundTripDisplacements] at hdisplaced
    simp [MemorySkeinStore.roundTripDisplacements, List.mapM_cons, hfinal, hdisplaced]

theorem Fresh.serialized [WireJson J] {mem : MemorySkeinStore J} {draws : AdmissionDraws}
    {items displaced : List (Displacement J)} (h : draws.Fresh mem items)
    (hserialized : List.Forall₂ Displacement.Serializes items displaced) :
    draws.Fresh mem displaced := by
  have hback : ∀ prepared ∈ displaced, ∃ item ∈ items, prepared.runId = item.runId ∧
      prepared.named = item.named := by
    clear h
    induction hserialized with
    | nil => exact fun prepared hprepared => absurd hprepared List.not_mem_nil
    | cons hitem hrest ih =>
      intro prepared hprepared
      rcases List.mem_cons.mp hprepared with rfl | hprepared
      · exact ⟨_, List.mem_cons_self, hitem.1, hitem.named⟩
      · obtain ⟨item, hmem, hsame⟩ := ih prepared hprepared
        exact ⟨item, List.mem_cons_of_mem _ hmem, hsame⟩
  refine ⟨fun prepared hprepared => ?_, fun prepared hprepared other hother => ?_,
    fun prepared hprepared other hother => ?_⟩
  · obtain ⟨item, hitem, hid, -⟩ := hback prepared hprepared
    rw [hid]
    exact h.unused item hitem
  · obtain ⟨item, hitem, hid, -⟩ := hback prepared hprepared
    obtain ⟨named, hnamed, -, hsame⟩ := hback other hother
    rw [hid, hsame]
    exact h.unnamed item hitem named hnamed
  · obtain ⟨item, hitem, hid, -⟩ := hback prepared hprepared
    obtain ⟨last, hlast, hidLast, -⟩ := hback other hother
    rw [hid, hidLast]
    exact h.distinct item hitem last hlast

namespace Simulates
variable {pg : PostgresStore J} {mem : MemorySkeinStore J} [JsonbColumn J]

/-- The writes of an admission whose guards have passed. -/
theorem commitAdmission (h : Simulates pg mem) {input : RunAdmission J} {prepared : RunCreate J}
    {displaced : List (Displacement J)} {draws : AdmissionDraws}
    (hlegal : LegalAdmission mem input draws) (hrunId : prepared.runId = input.run.runId)
    (hstorable : prepared.storable = true)
    (hserialized : List.Forall₂ Displacement.Serializes input.displacements displaced)
    (hparsed : ∀ item ∈ displaced, item.settlement.roundTrip = some item.settlement)
    (hnodup : (displaced.map Displacement.runId).Nodup)
    (hthread : mem.threads.contains prepared.threadId = true)
    (hexpected : ∀ expected ∈ input.expectedRunId, mem.runs.contains expected = true ∧
      mem.resumeReservations.get? expected = none) :
    CallAgrees Eq mem (pg.commitAdmission input prepared draws)
      (mem.commitAdmission input prepared displaced draws) := by
  have hstores : ∀ item ∈ input.displacements, ∀ prepared : Displacement J,
      item.Serializes prepared → item.Stores prepared := by
    intro item hitem prepared hprepared
    obtain ⟨hid, final, hfinal⟩ := hlegal.settlements item hitem
    rw [Option.some.inj (hfinal.serializes.symm.trans hprepared.2)] at hfinal
    exact ⟨hid, hfinal⟩
  have hunused : mem.runs.contains (prepared.runId.getD draws.runUuid) = false := by
    rw [hrunId]
    exact hlegal.unused
  have hnamed : (prepared.runId.getD draws.runUuid).storable = true := by
    rw [hrunId]
    exact hlegal.runId
  obtain ⟨pg₁, mem₁, hpgDisplaced, hmemDisplaced, h₁, hthreads⟩ := h.displaceAll
    (MemorySkeinStore.displacementAction prepared.multitaskStrategy) draws hserialized hstores
    hnodup (Fresh.serialized hlegal.deliveries hserialized) hlegal.drawn
  obtain ⟨mem₁', hmemDisplaced', hkept⟩ := MemorySkeinStore.displaceAll_displaced
    (MemorySkeinStore.displacementAction prepared.multitaskStrategy) draws displaced hparsed mem
  rw [hmemDisplaced] at hmemDisplaced'
  cases hmemDisplaced'
  obtain ⟨run, pg₂, mem₂, hpgRun, hmemRun, hrun, hreservations, hcontains, h₂⟩ :=
    h₁.insertRun hnamed hstorable ((hkept.contains _).trans hunused) (by rw [hthreads]; exact hthread) draws.now
  have hexpected₂ : ∀ expected ∈ input.expectedRunId, mem₂.runs.contains expected = true ∧
      mem₂.resumeReservations.get? expected = none := by
    intro expected hmem
    obtain ⟨hthere, hfree⟩ := hexpected expected hmem
    refine ⟨hcontains expected ((hkept.contains expected).trans hthere), ?_⟩
    rw [hreservations, hkept.resumeReservations]
    exact hfree
  obtain ⟨pg₃, hpgReserved, h₃⟩ := h₂.insertReservation hrun hexpected₂
  have hrun₃ : (mem₂.reserveResume input.expectedRunId run.runId).runs.get? run.runId = some run := by
    rw [MemorySkeinStore.reserveResume_runs, hrun]
  have h₄ := h₃.dispatch hrun₃ .run none draws.now
  obtain ⟨pg₄, hreceipt, h₅⟩ := h₄.record hlegal.key (rfl : run.runId = run.runId) rfl
    draws.claimUuid draws.now
  refine .inr ⟨_, _, pg₄, _, Eq.trans ?_ hreceipt, ?_, rfl, h₅⟩
  · simp only [PostgresStore.commitAdmission, hpgDisplaced, hpgRun, hpgReserved, bind, Except.bind]
  · simp only [MemorySkeinStore.commitAdmission, hmemDisplaced, hmemRun]

theorem admitRun (h : Simulates pg mem) {input : RunAdmission J} {draws : AdmissionDraws}
    (hlegal : LegalAdmission mem input draws) :
    CallAgrees Eq mem (pg.admitRun input draws) (mem.admitRun input draws) := by
  obtain ⟨prepared, hprepared, hstorable⟩ := hlegal.run
  have hthreadStorable : prepared.threadId.storable = true := by
    simp only [RunCreate.storable, Bool.and_eq_true] at hstorable
    exact hstorable.1.1.1
  obtain ⟨displaced, hdisplaced⟩ := roundTripDisplacements_isSome hlegal.settlements
  obtain ⟨hthreadId, -, hrunId, -⟩ := RunCreate.roundTrip_eq_some hprepared
  have hserialized := roundTripDisplacements_forall₂ hdisplaced
  have hparsed := (MemorySkeinStore.roundTripDisplacements_parsed hdisplaced).2
  have hunused : mem.runs.contains (prepared.runId.getD draws.runUuid) = false := by
    rw [hrunId]
    exact hlegal.unused
  have hnamed : prepared.runId.any mem.runs.contains = false := by
    cases hid : prepared.runId with
    | none => rfl
    | some id =>
      rw [hid] at hunused
      exact hunused
  have hserializes : (displaced.any fun item =>
      (roundTripOption WireJson.roundTrip item.settlement.result).isNone ||
      (roundTripOption DeliveryCreate.roundTrip item.settlement.delivery).isNone) = false := by
    rw [List.any_eq_false]
    intro item hitem
    obtain ⟨error, result, delivery, -, hresult, hdelivery, -⟩ :=
      RunSettlement.roundTrip_eq_some.mp (hparsed item hitem)
    simp [hresult, hdelivery]
  unfold PostgresStore.admitRun MemorySkeinStore.admitRun
  by_cases haborted : input.aborted = true
  · rw [if_pos haborted, if_pos haborted]
    exact .inl ⟨_, _, rfl, rfl, rfl⟩
  rw [if_neg haborted, if_neg haborted, h.replay_eq hlegal.key]
  cases hreplay : mem.replayAdmission input.toAdmissionKey with
  | error e => exact .inl ⟨e, e, rfl, rfl, rfl⟩
  | ok previous =>
    cases previous with
    | some receipt => exact .inr ⟨receipt, receipt, pg, mem, rfl, rfl, rfl, h⟩
    | none =>
      simp only [Except.mapError, hprepared]
      rcases h.threadGuard hprepared hthreadStorable hnamed hdisplaced with
        ⟨e, e', hmem, hpg, hcode⟩ | ⟨hmem, hpg, hthread, hnodup⟩
      · have hguards : pg.admissionGuards input prepared.threadId = .error (.thrown e) := by
          rw [PostgresStore.admissionGuards, hpg]
          rfl
        rw [hmem, hguards]
        exact .inl ⟨e, e', rfl, rfl, hcode⟩
      · obtain ⟨hresume, hkept⟩ := h.resumeGuard_eq hlegal.expectedRunId prepared.threadId
        have hguards : pg.admissionGuards input prepared.threadId =
            (mem.resumeGuard input.expectedRunId prepared.threadId).1.mapError .thrown := by
          rw [PostgresStore.admissionGuards, hpg, ← hresume]
          rfl
        have hexpected : (mem.resumeGuard input.expectedRunId prepared.threadId).1 = .ok () → _ :=
          h.resumeGuard_ok
        rw [hmem, hguards]
        dsimp only
        cases hguarded : mem.resumeGuard input.expectedRunId prepared.threadId with
        | mk result guarded =>
          rw [hguarded] at hkept hexpected
          dsimp only at hkept hexpected ⊢
          subst hkept
          cases result with
          | error e => exact .inl ⟨e, e, rfl, rfl, rfl⟩
          | ok _ =>
            simp only [Except.mapError, hserializes]
            exact h.commitAdmission hlegal hrunId hstorable hserialized hparsed hnodup hthread
              (hexpected rfl)

omit [JsonbColumn J] in
/-- The settlement of a cancellation. -/
def cancelledWith (delivery : Option (DeliveryCreate J)) : RunSettlement J where
  status := ⟨.cancelled, RunStatus.isTerminal_cancelled⟩
  delivery := delivery

/-- What a cancellation asks of its caller. -/
structure LegalCancel (mem : MemorySkeinStore J) (input : CancelAdmission J)
    (draws : AdmissionDraws) : Prop where
  key : input.toAdmissionKey.storable = true
  runId : input.runId.storable = true
  delivered : ∃ delivery,
    roundTripOption DeliveryCreate.roundTrip input.delivery = some delivery ∧
      (cancelledWith input.delivery).Stores (cancelledWith delivery)
  unused : mem.deliveries.get? (draws.deliveryUuid input.runId) = none
  drawn : (draws.deliveryUuid input.runId).storable = true

theorem settleCancelled (h : Simulates pg mem) {input : CancelAdmission J} {existing : Run J}
    (hrun : mem.runs.get? input.runId = some existing)
    (hactive : existing.status.isTerminal = false) (hrunId : input.runId.storable = true)
    {delivery : Option (DeliveryCreate J)}
    (hstores : (cancelledWith input.delivery).Stores (cancelledWith delivery))
    {uuid : DeliveryId} (huuid : mem.deliveries.get? uuid = none) (hdrawn : uuid.storable = true)
    (now : Timestamp) :
    ∃ settled run pg' mem',
      pg.settle input.runId (cancelledWith input.delivery) uuid now = .ok (settled, pg') ∧
      mem.runsSettle input.runId (cancelledWith input.delivery) uuid now = (.ok settled, mem') ∧
      settled.run = some run ∧ run.status = .cancelled ∧ run.runId = existing.runId ∧
      run.threadId = existing.threadId ∧ mem'.runs.get? input.runId = some run ∧
      Simulates pg' mem' := by
  have hfinal := hstores.serializes
  obtain ⟨pg', hpg, hsim⟩ := h.settle hrunId hstores now huuid hdrawn
  have hget := mem.settleFinal_get? input.runId (cancelledWith delivery) uuid now input.runId
  rw [if_pos rfl, hrun, Option.map_some] at hget
  refine ⟨_, _, pg', _, hpg, MemorySkeinStore.runsSettle_of_roundTrip hfinal, ?_, ?_,
    MemorySkeinStore.settledRun_runId _ _ _, MemorySkeinStore.settledRun_threadId _ _ _, hget, hsim⟩
  · rw [MemorySkeinStore.settleFinal_run, hget]
  · simp [MemorySkeinStore.settledRun, hactive, cancelledWith]

theorem admitCancel (h : Simulates pg mem) {input : CancelAdmission J} {draws : AdmissionDraws}
    (hlegal : LegalCancel mem input draws) :
    CallAgrees Eq mem (pg.admitCancel input draws) (mem.admitCancel input draws) := by
  obtain ⟨delivery, hdelivery, hstores⟩ := hlegal.delivered
  unfold PostgresStore.admitCancel MemorySkeinStore.admitCancel
  rw [h.replay_eq hlegal.key]
  cases hreplay : mem.replayAdmission input.toAdmissionKey with
  | error e => exact .inl ⟨e, e, rfl, rfl, rfl⟩
  | ok previous =>
    cases previous with
    | some receipt => exact .inr ⟨receipt, receipt, pg, mem, rfl, rfl, rfl, h⟩
    | none =>
      simp only [Except.mapError]
      rw [if_neg (by simp [hlegal.runId])]
      have hruns := h.runs input.runId
      cases hrow : pg.runs.get? input.runId with
      | none =>
        rw [hrow] at hruns
        rw [← hruns]
        exact .inl ⟨_, _, rfl, rfl, rfl⟩
      | some row =>
        rw [hrow] at hruns
        have hrun : mem.runs.get? input.runId = some row.run := hruns.symm
        have hid : row.runId = input.runId := Table.key_of_get? hrow
        rw [hrun, hdelivery]
        dsimp only
        rw [hid]
        cases hterminal : row.run.status.isTerminal with
        | true =>
          simp only [if_true, Option.getD_some]
          obtain ⟨pg', hreceipt, hrecorded⟩ := h.record hlegal.key
            (rfl : row.run.runId = row.run.runId) rfl draws.claimUuid draws.now
          exact .inr ⟨_, _, _, _, hreceipt, rfl, rfl, hrecorded⟩
        | false =>
          obtain ⟨settled, run, pg₁, mem₁, hpg, hmem, hsettled, hstatus, hrunId, hthreadId, hget,
            h₁⟩ := h.settleCancelled hrun hterminal hlegal.runId hstores hlegal.unused hlegal.drawn
              draws.now
          have hlisted : ∀ other ∈ settled.run, mem₁.runs.get? other.runId = some other := by
            intro other hother
            rw [hsettled] at hother
            cases Option.mem_def.mp hother
            rw [Table.key_of_get? hget]
            exact hget
          have h₂ := h₁.dispatchSettled hlisted input.action draws.now
          have hget₂ : (mem₁.dispatchSettled settled input.action draws.now).runs.get? input.runId =
              some run := by
            rw [MemorySkeinStore.dispatchSettled_runs, hget]
          obtain ⟨pg₃, hreceipt, h₃⟩ := h₂.record hlegal.key hrunId.symm hthreadId.symm
            draws.claimUuid draws.now
          refine .inr ⟨_, _, pg₃, _, Eq.trans ?_ hreceipt, ?_, rfl, h₃⟩
          · change (pg.settle input.runId (cancelledWith input.delivery)
              (draws.deliveryUuid input.runId) draws.now).bind _ = _
            rw [hpg]
            simp only [Except.bind, hsettled, Option.map_some, hstatus]
            rfl
          · unfold cancelledWith at hmem
            rw [if_neg Bool.false_ne_true, hmem]
            dsimp only
            rw [hget₂]
            rfl

end Simulates
end PostgresStore

/-- A call of a driver, with what it draws. -/
inductive StoreCall (J : Type*)
  | admitRun (input : RunAdmission J) (draws : AdmissionDraws)
  | admitCancel (input : CancelAdmission J) (draws : AdmissionDraws)
  | settle (runId : RunId) (final : RunSettlement J) (uuid : DeliveryId) (now : Timestamp)
  | deleteRun (runId : RunId)
  | deleteThread (threadId : ThreadId)
  | claimDispatches (query : DispatchQuery) (tokens : RunId → String)
  | markDispatched (runId : RunId) (token : String)

section
variable {J : Type*} [JsonbColumn J]

def MemorySkeinStore.call (mem : MemorySkeinStore J) :
    StoreCall J → Except Thrown (StoreReply J) × MemorySkeinStore J
  | .admitRun input draws =>
    ((mem.admitRun input draws).1.map .receipt, (mem.admitRun input draws).2)
  | .admitCancel input draws =>
    ((mem.admitCancel input draws).1.map .receipt, (mem.admitCancel input draws).2)
  | .settle runId final uuid now =>
    ((mem.runsSettle runId final uuid now).1.map .settled, (mem.runsSettle runId final uuid now).2)
  | .deleteRun runId => (.ok .done, mem.runsDelete runId)
  | .deleteThread threadId => (.ok .done, mem.threadsDelete threadId)
  | .claimDispatches query tokens =>
    (.ok (.claims (mem.claims query tokens)), (mem.claimDispatches query tokens).2)
  | .markDispatched runId token => (.ok .done, mem.markDispatched runId token)

def PostgresStore.call (pg : PostgresStore J) :
    StoreCall J → Except PostgresError (StoreReply J) × PostgresStore J
  | .admitRun input draws =>
    ((pg.withTransaction (·.admitRun input draws)).1.map .receipt,
      (pg.withTransaction (·.admitRun input draws)).2)
  | .admitCancel input draws =>
    ((pg.withTransaction (·.admitCancel input draws)).1.map .receipt,
      (pg.withTransaction (·.admitCancel input draws)).2)
  | .settle runId final uuid now =>
    ((pg.withTransaction (·.settle runId final uuid now)).1.map .settled,
      (pg.withTransaction (·.settle runId final uuid now)).2)
  | .deleteRun runId =>
    if runId.storable then (.ok .done, pg.runsDelete runId)
    else (.error .untranslatableCharacter, pg)
  | .deleteThread threadId =>
    if threadId.storable then (.ok .done, pg.threadsDelete threadId)
    else (.error .untranslatableCharacter, pg)
  | .claimDispatches query tokens =>
    (.ok (.claims (pg.claimDispatches query tokens).1), (pg.claimDispatches query tokens).2)
  | .markDispatched runId token =>
    if runId.storable && storableText token then (.ok .done, pg.markDispatched runId token)
    else (.error .untranslatableCharacter, pg)

/-- What a call asks of its caller: run identifiers are fresh, payloads serialize, the database
takes the texts, drawn identifiers are unused, the page of a claim holds every intent, and a
token is one a claim returned, which is never empty. -/
def StoreCall.Legal (mem : MemorySkeinStore J) : StoreCall J → Prop
  | .admitRun input draws => PostgresStore.LegalAdmission mem input draws
  | .admitCancel input draws => PostgresStore.Simulates.LegalCancel mem input draws
  | .settle runId final uuid _ => (runId.storable = true ∧ ∃ final', final.Stores final') ∧
      mem.deliveries.get? uuid = none ∧ uuid.storable = true
  | .deleteRun runId => runId.storable = true
  | .deleteThread threadId => threadId.storable = true
  | .claimDispatches query _ =>
    (∃ limit, query.limit = some limit) ∧ mem.dispatches.size ≤ mem.claimLimit query
  | .markDispatched runId token =>
    (runId.storable && storableText token) = true ∧ token ≠ ""

/-- The replies to a history and the state after it. -/
def MemorySkeinStore.history : MemorySkeinStore J → List (StoreCall J) →
    List (Except Thrown (StoreReply J)) × MemorySkeinStore J
  | mem, [] => ([], mem)
  | mem, call :: calls =>
    ((mem.call call).1 :: ((mem.call call).2.history calls).1, ((mem.call call).2.history calls).2)

def PostgresStore.history : PostgresStore J → List (StoreCall J) →
    List (Except PostgresError (StoreReply J)) × PostgresStore J
  | pg, [] => ([], pg)
  | pg, call :: calls =>
    ((pg.call call).1 :: ((pg.call call).2.history calls).1, ((pg.call call).2.history calls).2)

/-- Every call of a history is legal where it is made. -/
def LegalHistory : MemorySkeinStore J → List (StoreCall J) → Prop
  | _, [] => True
  | mem, call :: calls => call.Legal mem ∧ LegalHistory (mem.call call).2 calls

/-- Equal states: the same tables and the same intents. The constraints of the schema hold. -/
structure PostgresStore.SameAs (pg : PostgresStore J) (mem : MemorySkeinStore J) : Prop
    extends PostgresStore.SameTables pg mem where
  sound : pg.Sound
  intents : ∀ id, mem.dispatches.get? id = (pg.nativeDispatches.get? id).map NativeDispatch.intent

namespace PostgresStore.Simulates
variable {pg : PostgresStore J} {mem : MemorySkeinStore J}

omit [JsonbColumn J] in
theorem of_sameAs (h : pg.SameAs mem) : Simulates pg mem :=
  ⟨h.toSameTables, h.sound, fun id => .inl (h.intents id)⟩

/-- One call of both drivers. -/
theorem call (h : Simulates pg mem) {call : StoreCall J} (hlegal : call.Legal mem) :
    AnswersAgree StoreReply.Agrees (pg.call call).1 (mem.call call).1 ∧
      Simulates (pg.call call).2 (mem.call call).2 := by
  cases call with
  | admitRun input draws =>
    obtain ⟨hanswer, hsim⟩ := CallAgrees.transaction h (·.admitRun input draws) (h.admitRun hlegal)
    exact ⟨hanswer.map, hsim⟩
  | admitCancel input draws =>
    obtain ⟨hanswer, hsim⟩ := CallAgrees.transaction h (·.admitCancel input draws)
      (h.admitCancel hlegal)
    exact ⟨hanswer.map, hsim⟩
  | settle runId final uuid now =>
    obtain ⟨⟨hrunId, final', hstores⟩, hunused, hdrawn⟩ := hlegal
    have hfinal := hstores.serializes
    obtain ⟨pg', hpg, hstep⟩ := h.settle hrunId hstores now hunused hdrawn
    have hcall : CallAgrees Eq mem (pg.settle runId final uuid now)
        (mem.runsSettle runId final uuid now) :=
      .inr ⟨_, _, pg', _, hpg, MemorySkeinStore.runsSettle_of_roundTrip hfinal, rfl, hstep⟩
    obtain ⟨hanswer, hsim⟩ := CallAgrees.transaction h (·.settle runId final uuid now) hcall
    exact ⟨hanswer.map, hsim⟩
  | deleteRun runId =>
    have hstorable : runId.storable = true := hlegal
    rw [PostgresStore.call, if_pos hstorable]
    exact ⟨.accepted (.same _), h.runsDelete runId⟩
  | deleteThread threadId =>
    have hstorable : threadId.storable = true := hlegal
    rw [PostgresStore.call, if_pos hstorable]
    exact ⟨.accepted (.same _), h.threadsDelete threadId⟩
  | claimDispatches query tokens =>
    obtain ⟨⟨limit, hlimit⟩, hroom⟩ := hlegal
    obtain ⟨hperm, hsim⟩ := h.claimDispatches hlimit hroom tokens
    exact ⟨.accepted (.claims hperm), hsim⟩
  | markDispatched runId token =>
    rw [PostgresStore.call, if_pos hlegal.1]
    exact ⟨.accepted (.same _), h.markDispatched runId hlegal.2⟩

theorem history (h : Simulates pg mem) {calls : List (StoreCall J)}
    (hlegal : LegalHistory mem calls) :
    List.Forall₂ (AnswersAgree StoreReply.Agrees) (pg.history calls).1 (mem.history calls).1 ∧
      Simulates (pg.history calls).2 (mem.history calls).2 := by
  induction calls generalizing pg mem with
  | nil => exact ⟨.nil, h⟩
  | cons call calls ih =>
    obtain ⟨hreply, hsim⟩ := h.call hlegal.1
    obtain ⟨hreplies, hend⟩ := ih hsim hlegal.2
    exact ⟨.cons hreply hreplies, hend⟩

end PostgresStore.Simulates

/-- Two idle threads, in both drivers, under a page of `maxPageSize`. -/
def idleThreads : Table ThreadId (Thread ℕ) Thread.threadId :=
  ((∅ : Table ThreadId (Thread ℕ) Thread.threadId).write {
      threadId := .of "t", createdAt := 0, updatedAt := 0, stateUpdatedAt := 0, metadata := 0
      status := .idle, values := 0, interrupts := 0 }).write {
    threadId := .of "u", createdAt := 0, updatedAt := 0, stateUpdatedAt := 0, metadata := 0
    status := .idle, values := 0, interrupts := 0 }

def idleMemory (maxPageSize : ℕ) : MemorySkeinStore ℕ where
  threads := idleThreads
  maxPageSize := maxPageSize

def idlePostgres (maxPageSize : ℕ) : PostgresStore ℕ where
  threads := idleThreads
  maxPageSize := maxPageSize

/-- The admission of a run of its own on a thread. -/
def plainAdmission (threadId : ThreadId) (runId : RunId) : RunAdmission ℕ where
  scope := "native"
  key := runId.value
  fingerprint := "f"
  now := 0
  expiresAt := 10
  run := { threadId, assistantId := .of "agent", runId := some runId }

def plainCancel (runId : RunId) : CancelAdmission ℕ where
  scope := "native"
  key := "cancel"
  fingerprint := "f"
  now := 0
  expiresAt := 10
  runId := runId

def plainDraws : AdmissionDraws := ⟨.of "unused", "claim", fun _ => .of "delivery", 5⟩

/-- Two admitted runs, of which the second is cancelled. -/
def oneCancelled : List (StoreCall ℕ) :=
  [.admitRun (plainAdmission (.of "t") (.of "a")) plainDraws,
    .admitRun (plainAdmission (.of "u") (.of "b")) plainDraws,
    .admitCancel (plainCancel (.of "b")) plainDraws]

def pageOfFive : DispatchQuery where
  now := 20
  leaseUntil := 30
  limit := some 5

theorem idle_sameAs (maxPageSize : ℕ) : (idlePostgres maxPageSize).SameAs (idleMemory maxPageSize) where
  threads _ := rfl
  runs _ := rfl
  results _ := rfl
  kwargs _ := rfl
  deliveries _ := rfl
  reservations _ := rfl
  records _ := rfl
  maxPageSize := rfl
  sound := by
    refine ⟨fun _ _ h => ?_, fun _ _ h => ?_, fun _ _ h => ?_⟩ <;> cases h
  intents _ := rfl

theorem plainAdmission_legal {mem : MemorySkeinStore ℕ} {threadId : ThreadId} {runId : RunId}
    (h : mem.runs.contains runId = false)
    (hkey : (plainAdmission threadId runId).toAdmissionKey.storable = true)
    (hthread : (plainAdmission threadId runId).run.storable = true)
    (hrun : runId.storable = true) :
    PostgresStore.LegalAdmission mem (plainAdmission threadId runId) plainDraws where
  unused := h
  key := hkey
  run := ⟨_, rfl, hthread⟩
  runId := hrun
  expectedRunId := rfl
  settlements := by simp [plainAdmission]
  deliveries := ⟨by simp [plainAdmission], by simp [plainAdmission], by simp [plainAdmission]⟩
  drawn _ := show (Id.of "delivery").storable = true by decide

/-- A page that holds both intents. -/
theorem oneCancelled_legal : LegalHistory (idleMemory 1000)
    (oneCancelled ++ [.claimDispatches pageOfFive Id.value]) := by
  refine ⟨plainAdmission_legal rfl (by decide) (by decide) (by decide),
    plainAdmission_legal (by decide +kernel) (by decide) (by decide) (by decide), ?_,
    ⟨⟨5, rfl⟩, ?_⟩, trivial⟩
  · exact {
      key := by decide
      runId := by decide
      delivered := ⟨none, rfl, ⟨rfl, rfl, fun _ h => absurd h (by simp [plainCancel,
        PostgresStore.Simulates.cancelledWith]), rfl⟩⟩
      unused := by decide +kernel
      drawn := by decide }
  · decide +kernel

end
end Skein
