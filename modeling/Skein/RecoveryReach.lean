import Mathlib.Data.String.Basic
import Skein.AdmissionRefinement
import Skein.RecoveryTicks

/-!
# Which intents the recovery reaches

The in-memory driver claims intents in the order in which they were inserted, the Postgres
driver cancels first, by their leases, and then runs by their creation. A run intent is
claimed again once its lease is over, so ticks that outlast a lease return to the head of
the queue before they have seen its end.
-/
namespace Skein

/-- What a driver makes of the limit of a claim, given the size of its pages. -/
def claimPage (maxPageSize limit : ℕ) : ℕ := max 1 (min (min limit maxPageSize) 1000)

theorem claimPage_le {maxPageSize limit : ℕ} (h : 1 ≤ limit) :
    claimPage maxPageSize limit ≤ limit := by
  unfold claimPage
  omega

theorem Table.values_map_key {κ α : Type*} {key : α → κ} (t : Table κ α key) :
    t.values.map key = t.keys := by
  simp only [OrderedMap.values, OrderedMap.keys, List.map_map]
  exact List.map_congr_left t.keyed

namespace MemorySkeinStore
variable {J : Type*}

/-- The loop of a claim does not pass over the intent. -/
def Claimable (store : MemorySkeinStore J) (now : Timestamp) (intent : DispatchIntent) : Prop :=
  ¬intent.Done (store.terminal? intent.runId) ∧ ¬intent.leaseUntil.any (now < ·)

instance (store : MemorySkeinStore J) (now : Timestamp) :
    DecidablePred (store.Claimable now) :=
  fun _ => inferInstanceAs (Decidable (¬_ ∧ ¬_))

/-- The runs a claim at `now` chooses from, as it meets them. -/
def claimQueue (store : MemorySkeinStore J) (now : Timestamp) : List RunId :=
  (store.dispatches.values.filter (store.Claimable now)).map DispatchIntent.runId

theorem claimEntries_ids (query : DispatchQuery) (tokens : RunId → String)
    (entries claimed : List DispatchIntent) (store : MemorySkeinStore J)
    (hclaimed : claimed.length ≤ store.claimLimit query) :
    (claimEntries query tokens entries claimed store).1.map DispatchIntent.runId =
      claimed.map DispatchIntent.runId ++
        ((entries.filter (store.Claimable query.now)).map DispatchIntent.runId).take
          (store.claimLimit query - claimed.length) := by
  induction entries generalizing claimed store with
  | nil => simp [claimEntries]
  | cons intent rest ih =>
    unfold claimEntries
    split_ifs with hdone hheld hfull
    · have hnot : ¬store.Claimable query.now intent := fun h => h.1 hdone
      rw [List.filter_cons_of_neg (by simpa using hnot)]
      exact ih claimed { store with dispatches := store.dispatches.erase intent.runId } hclaimed
    · have hnot : ¬store.Claimable query.now intent := fun h => h.2 hheld
      rw [List.filter_cons_of_neg (by simpa using hnot)]
      exact ih claimed store hclaimed
    · have hlimit : store.claimLimit query - claimed.length = 0 := by
        have hle : store.claimLimit query ≤ claimed.length := hfull
        omega
      rw [hlimit, List.take_zero, List.append_nil]
    · have hroom : claimed.length < store.claimLimit query := Nat.lt_of_not_le hfull
      have hyes : store.Claimable query.now intent := ⟨hdone, hheld⟩
      rw [List.filter_cons_of_pos (by simpa using hyes), List.map_cons,
        List.take_cons (by omega)]
      have hrest := ih (claimed ++ [intent.lease (tokens intent.runId) query.leaseUntil])
        { store with dispatches :=
          store.dispatches.write (intent.lease (tokens intent.runId) query.leaseUntil) }
        (by rw [List.length_append, List.length_singleton]; exact hroom)
      rw [hrest, List.length_append, List.length_singleton, List.map_append, List.append_assoc]
      rfl

theorem claims_queue (mem : MemorySkeinStore J) (query : DispatchQuery)
    (tokens : RunId → String) :
    (mem.claims query tokens).map DispatchClaim.runId =
      (mem.claimQueue query.now).take (mem.claimLimit query) := by
  have hids := claimEntries_ids query tokens mem.dispatches.values [] mem (Nat.zero_le _)
  rw [claims, List.map_map]
  exact hids

theorem mem_claimQueue (mem : MemorySkeinStore J) (now : Timestamp) (id : RunId) :
    id ∈ mem.claimQueue now ↔ (mem.slot id).Due now := by
  have hfree : ∀ intent : DispatchIntent, ¬intent.leaseUntil.any (now < ·) ↔
      ∀ lease ∈ intent.leaseUntil, lease ≤ now := by
    intro intent
    cases intent.leaseUntil <;> simp
  constructor
  · intro hid
    obtain ⟨intent, hintent, rfl⟩ := List.mem_map.mp hid
    obtain ⟨hmem, hclaimable⟩ := List.mem_filter.mp hintent
    obtain ⟨hlive, hheld⟩ := of_decide_eq_true hclaimable
    exact ⟨intent, (Table.mem_values_iff _ _).mp hmem, hlive, (hfree intent).mp hheld⟩
  · intro hdue
    obtain ⟨intent, hmem, rfl, hlive, hlease⟩ := due_visited hdue
    exact List.mem_map_of_mem
      (List.mem_filter.mpr ⟨hmem, decide_eq_true ⟨hlive, (hfree intent).mpr hlease⟩⟩)

/-- The order in which intents are met: a claim removes some and moves none. -/
def intentOrder (mem : MemorySkeinStore J) : List RunId :=
  mem.dispatches.values.map DispatchIntent.runId

theorem claimQueue_sublist (mem : MemorySkeinStore J) (now : Timestamp) :
    (mem.claimQueue now).Sublist mem.intentOrder :=
  List.filter_sublist.map _

theorem intentOrder_erase (mem : MemorySkeinStore J) (runId : RunId) :
    ({ mem with dispatches := mem.dispatches.erase runId } : MemorySkeinStore J).intentOrder.Sublist
      mem.intentOrder :=
  (List.filter_sublist.map Prod.snd).map DispatchIntent.runId

theorem intentOrder_write {mem : MemorySkeinStore J} {before intent : DispatchIntent}
    (h : mem.dispatches.get? intent.runId = some before) :
    ({ mem with dispatches := mem.dispatches.write intent } : MemorySkeinStore J).intentOrder =
      mem.intentOrder := by
  have hmem : intent.runId ∈ mem.dispatches.keys :=
    (OrderedMap.mem_keys_iff _ _).mpr (Option.isSome_iff_exists.mpr ⟨before, h⟩)
  unfold intentOrder
  rw [Table.values_map_key, Table.values_map_key]
  exact (OrderedMap.setEntry_keys _ _ _).trans (if_pos hmem)

theorem claimEntries_order (query : DispatchQuery) (tokens : RunId → String)
    {entries : List DispatchIntent} (hnodup : (entries.map DispatchIntent.runId).Nodup)
    (claimed : List DispatchIntent) (mem : MemorySkeinStore J)
    (hstored : ∀ intent ∈ entries, mem.dispatches.get? intent.runId = some intent) :
    (claimEntries query tokens entries claimed mem).2.intentOrder.Sublist mem.intentOrder := by
  induction entries generalizing claimed mem with
  | nil => exact List.Sublist.refl _
  | cons intent rest ih =>
    obtain ⟨hid, hrest⟩ := List.nodup_cons.mp hnodup
    have hapart : ∀ later ∈ rest, intent.runId ≠ later.runId := by
      intro later hlater heq
      exact hid (heq ▸ List.mem_map_of_mem hlater)
    have hlater : ∀ later ∈ rest, mem.dispatches.get? later.runId = some later :=
      fun later h => hstored later (List.mem_cons_of_mem intent h)
    unfold claimEntries
    split_ifs
    · refine (ih hrest claimed { mem with dispatches := mem.dispatches.erase intent.runId }
        fun later h => ?_).trans (intentOrder_erase mem intent.runId)
      rw [Table.get?_erase, if_neg (hapart later h), hlater later h]
    · exact ih hrest claimed mem hlater
    · exact List.Sublist.refl _
    · have hleased : mem.dispatches.get?
          (intent.lease (tokens intent.runId) query.leaseUntil).runId = some intent :=
        hstored intent List.mem_cons_self
      rw [← intentOrder_write hleased]
      refine ih hrest _ _ fun later h => ?_
      have hother : (intent.lease (tokens intent.runId) query.leaseUntil).runId ≠ later.runId :=
        hapart later h
      rw [Table.get?_write, if_neg hother, hlater later h]

theorem claimDispatches_order (mem : MemorySkeinStore J) (query : DispatchQuery)
    (tokens : RunId → String) :
    (mem.claimDispatches query tokens).2.intentOrder.Sublist mem.intentOrder :=
  claimEntries_order query tokens mem.dispatches.nodup_map_key [] mem fun _ h =>
    (Table.mem_values_iff _ _).mp h

theorem markDispatched_order (mem : MemorySkeinStore J) (runId : RunId) (token : String) :
    (mem.markDispatched runId token).intentOrder = mem.intentOrder := by
  unfold markDispatched
  cases hintent : mem.dispatches.get? runId with
  | none => rfl
  | some intent =>
    have hid : intent.runId = runId := Table.key_of_get? hintent
    subst hid
    dsimp only
    split_ifs
    · exact intentOrder_write hintent
    · rfl

theorem markDispatched_frame (mem : MemorySkeinStore J) (runId : RunId) (token : String) :
    mem.markDispatched runId token =
      { mem with dispatches := (mem.markDispatched runId token).dispatches } := by
  unfold markDispatched
  cases mem.dispatches.get? runId with
  | none => rfl
  | some intent =>
    dsimp only
    split_ifs <;> rfl

theorem markDispatched_keeps_or_marks (mem : MemorySkeinStore J) (runId : RunId)
    (token : String) (id : RunId) :
    (mem.markDispatched runId token).slot id = mem.slot id ∨
      id = runId ∧ ∃ intent, (mem.slot id).intent = some intent ∧
        (mem.markDispatched runId token).slot id =
          ⟨(mem.slot id).terminal, some { intent with dispatched := true }⟩ := by
  have hget := mem.markDispatched_get? runId token id
  have hterminal : (mem.markDispatched runId token).terminal? id = mem.terminal? id := by
    rw [mem.markDispatched_frame runId token]
    rfl
  unfold slot
  rw [hterminal, hget]
  by_cases hid : runId = id
  · rw [if_pos hid]
    cases hintent : mem.dispatches.get? id with
    | none => exact .inl rfl
    | some intent =>
      rw [Option.map_some]
      split_ifs
      · exact .inr ⟨hid.symm, intent, rfl, rfl⟩
      · exact .inl rfl
  · rw [if_neg hid]
    exact .inl rfl

end MemorySkeinStore

/-- The in-memory driver. -/
def memoryRecovery (J : Type*) : RecoverySource (MemorySkeinStore J) where
  toDispatchSource := memorySource J
  markDispatched := MemorySkeinStore.markDispatched
  queue := MemorySkeinStore.claimQueue
  page := fun mem limit => claimPage mem.maxPageSize limit
  nodup_queue := fun mem now _ =>
    mem.dispatches.nodup_map_key.sublist (mem.claimQueue_sublist now)
  mem_queue := fun mem now id _ => mem.mem_claimQueue now id
  claim_queue := fun mem now leaseUntil limit tokens _ =>
    mem.claims_queue ⟨now, leaseUntil, some limit⟩ tokens
  page_le := fun _ _ => claimPage_le
  page_claim := fun mem query tokens limit => by
    have hframe : ((memorySource J).claim mem query tokens).2 =
        { mem with dispatches := ((memorySource J).claim mem query tokens).2.dispatches } :=
      MemorySkeinStore.claimEntries_frame query tokens mem.dispatches.values [] mem
    rw [hframe]
  page_mark := fun mem runId token limit => by rw [mem.markDispatched_frame runId token]
  valid_mark := fun _ _ _ _ => trivial
  mark_slot := MemorySkeinStore.markDispatched_keeps_or_marks

namespace PostgresStore
variable {J : Type*}

/-- The runs a claim at `now` chooses from, in the order of its two queries. -/
def claimQueue (pg : PostgresStore J) (now : Timestamp) : List RunId :=
  (pg.dueCancels now ++ pg.dueRuns now).map NativeDispatch.runId

theorem claimed_take (pg : PostgresStore J) (query : DispatchQuery) :
    pg.claimed query =
      (pg.dueCancels query.now ++ pg.dueRuns query.now).take (pg.claimLimit query) := by
  rw [claimed_unfold, List.take_append, List.length_take]
  split_ifs with hless
  · rw [min_eq_right (by omega)]
  · have hzero : pg.claimLimit query - (pg.dueCancels query.now).length = 0 := by omega
    rw [hzero, List.take_zero, List.append_nil]

theorem claims_queue (pg : PostgresStore J) (query : DispatchQuery) (tokens : RunId → String) :
    (pg.claimDispatches query tokens).1.map DispatchClaim.runId =
      (pg.claimQueue query.now).take (pg.claimLimit query) := by
  rw [claims_ids, claimed_take, List.map_take]
  rfl

theorem mem_claimQueue {pg : PostgresStore J} (hsound : pg.Sound) (now : Timestamp) (id : RunId) :
    id ∈ pg.claimQueue now ↔ (pg.slot id).Due now := by
  rw [due_iff hsound]
  exact List.mem_map

theorem markDispatched_keeps_or_marks (pg : PostgresStore J) (runId : RunId)
    (token : String) (id : RunId) :
    (pg.markDispatched runId token).slot id = pg.slot id ∨
      id = runId ∧ ∃ intent, (pg.slot id).intent = some intent ∧
        (pg.markDispatched runId token).slot id =
          ⟨(pg.slot id).terminal, some { intent with dispatched := true }⟩ := by
  unfold slot
  rw [pg.markDispatched_get? runId token id]
  by_cases hid : runId = id
  · rw [if_pos hid]
    cases hintent : pg.nativeDispatches.get? id with
    | none => exact .inl rfl
    | some row =>
      rw [Option.map_some]
      split_ifs
      · exact .inr ⟨hid.symm, row.intent, rfl, rfl⟩
      · exact .inl rfl
  · rw [if_neg hid]
    exact .inl rfl

theorem Sound.markDispatched {pg : PostgresStore J} (h : pg.Sound) (runId : RunId)
    (token : String) : (pg.markDispatched runId token).Sound := by
  refine h.updateIntents fun id row hrow => ?_
  have hget := pg.markDispatched_get? runId token id
  rw [show (pg.markDispatched runId token).nativeDispatches.get? id = some row from hrow] at hget
  split_ifs at hget
  · obtain ⟨before, hbefore, hrow⟩ := Option.map_eq_some_iff.mp hget.symm
    refine ⟨before, hbefore, ?_⟩
    rw [← hrow]
    split_ifs <;> rfl
  · exact ⟨row, hget.symm, rfl⟩

end PostgresStore

/-- The Postgres driver. -/
def postgresRecovery (J : Type*) : RecoverySource (PostgresStore J) where
  toDispatchSource := postgresSource J
  markDispatched := PostgresStore.markDispatched
  queue := PostgresStore.claimQueue
  page := fun pg limit => claimPage pg.maxPageSize limit
  nodup_queue := fun pg now _ => pg.nodup_due now
  mem_queue := fun _ now id hsound => PostgresStore.mem_claimQueue hsound now id
  claim_queue := fun pg now leaseUntil limit tokens _ =>
    pg.claims_queue ⟨now, leaseUntil, some limit⟩ tokens
  page_le := fun _ _ => claimPage_le
  page_claim := fun pg query tokens limit => by
    have hframe : ((postgresSource J).claim pg query tokens).2 = { pg with
        nativeDispatches := ((postgresSource J).claim pg query tokens).2.nativeDispatches } :=
      PostgresStore.leaseAll_frame query tokens (pg.claimed query) pg
    rw [hframe]
  page_mark := fun _ _ _ _ => rfl
  valid_mark := fun _ runId token hsound => hsound.markDispatched runId token
  mark_slot := PostgresStore.markDispatched_keeps_or_marks

/-- The last tick comes before the leases of the first end. -/
def WithinLease (clocks : List Timestamp) : Prop :=
  ∀ first ∈ clocks.head?, ∀ last ∈ clocks.getLast?, last < first + recoveryLease

instance (clocks : List Timestamp) : Decidable (WithinLease clocks) := by
  unfold WithinLease
  infer_instance

namespace RecoverySource
variable {σ : Type*} {source : RecoverySource σ} {s : σ} {limit : ℕ} {ids : Finset RunId}
  {clocks : List Timestamp}

/-- The ticks claim every one of the intents. -/
def Reaches (source : RecoverySource σ) (s : σ) (limit : ℕ) (ids : Finset RunId)
    (ts : List RecoveryTick) : Prop :=
  ∀ id ∈ ids, Served (source.rounds limit s ts) id

/-- A sweep: as many ticks as pages of the limit hold the live intents, which are those of
`ids` and due at the first tick. -/
structure Sweep (source : RecoverySource σ) (s : σ) (limit : ℕ) (ids : Finset RunId)
    (clocks : List Timestamp) : Prop where
  valid : source.Valid s
  limit_pos : 1 ≤ limit
  length : clocks.length = (ids.card + limit - 1) / limit
  sorted : clocks.Pairwise (· ≤ ·)
  due : ∀ start ∈ clocks.head?, ∀ id ∈ ids, (source.slot s id).Due start
  live : ∀ id intent, (source.slot s id).intent = some intent →
    ¬intent.Done (source.slot s id).terminal → id ∈ ids

/-- The intents are of one kind. -/
def AllOfKind (source : RecoverySource σ) (s : σ) (ids : Finset RunId) (kind : DispatchKind) :
    Prop :=
  ∀ id ∈ ids, source.LiveKind s kind id

namespace Sweep

/-- A sweep of no ticks is one over no intents. -/
theorem empty (h : source.Sweep s limit ids []) : ids = ∅ := by
  have hlength := h.length
  have hlimit := h.limit_pos
  rw [List.length_nil, eq_comm, Nat.div_eq_zero_iff] at hlength
  exact Finset.card_eq_zero.mp (by omega)

theorem start_le {start : Timestamp} (h : source.Sweep s limit ids (start :: clocks)) :
    ∀ now ∈ start :: clocks, start ≤ now := by
  intro now hnow
  rcases List.mem_cons.mp hnow with rfl | hlater
  · exact Nat.le_refl _
  · exact List.rel_of_pairwise_cons h.sorted hlater

theorem backlog {start : Timestamp} (h : source.Sweep s limit ids (start :: clocks)) :
    source.Backlog s start ids where
  waiting := h.due start rfl
  held id hid intent hintent hlive := absurd (h.live id intent hintent hlive) hid

/-- One tick fewer would not do. -/
theorem card_gt {start : Timestamp} (h : source.Sweep s limit ids (start :: clocks)) :
    clocks.length * source.page s limit < ids.card := by
  have hlength := h.length
  have hlimit := h.limit_pos
  have hpage := Nat.mul_le_mul_left clocks.length (source.page_le s limit hlimit)
  have hmul := (Nat.le_div_iff_mul_le hlimit).mp (Nat.le_of_eq hlength)
  rw [List.length_cons, Nat.add_mul, Nat.one_mul] at hmul
  omega

/-- Ticks have no more places than their pages. -/
theorem room (h : source.Sweep s limit ids clocks) {ts : List RecoveryTick}
    (hts : ts.map RecoveryTick.now = clocks) (hreach : source.Reaches s limit ids ts) :
    ids.card ≤ clocks.length * source.page s limit := by
  have hcard := card_le_of_served (rounds_page h.valid ts) hreach
  have hlength : clocks.length = ts.length := by rw [← hts, List.length_map]
  rwa [rounds_length, ← hlength] at hcard

/-- Where every tick takes from the backlog first, all of it is reached. -/
theorem reaches (h : source.Sweep s limit ids clocks) {P : σ → Prop}
    (hkeeps : ∀ s t, source.Valid s → P s → P (source.tick limit s t).2) (hP : P s)
    (hfirst : ∀ start ∈ clocks.head?, ∀ s pending t, source.Valid s → P s →
      source.Backlog s start pending → t.now ∈ clocks →
      (∃ id ∈ pending, id ∉ (source.tick limit s t).1) →
      ∀ id ∈ (source.tick limit s t).1, id ∈ pending)
    (hroom : ids.card ≤ clocks.length * source.page s limit) {ts : List RecoveryTick}
    (hts : ts.map RecoveryTick.now = clocks) : source.Reaches s limit ids ts := by
  cases clocks with
  | nil =>
    intro id hid
    rw [h.empty] at hid
    exact absurd hid (Finset.notMem_empty id)
  | cons start rest =>
    refine rounds_serve hkeeps (hfirst start rfl) h.start_le ts (fun t ht => ?_) h.valid hP
      h.backlog ?_
    · rw [← hts]
      exact List.mem_map_of_mem ht
    · have hlength : (start :: rest).length = ts.length := by rw [← hts, List.length_map]
      rw [← hlength]
      exact hroom

/-- Before a lease of the first tick ends nothing but the backlog is due. -/
theorem first_of_withinLease (hvalid : source.Valid s) {start : Timestamp}
    {pending : Finset RunId} (h : source.Backlog s start pending) {t : RecoveryTick}
    (hnow : t.now < start + recoveryLease) :
    ∀ id ∈ (source.tick limit s t).1, id ∈ pending := by
  intro id hid
  by_contra hout
  rw [tick_claims hvalid] at hid
  obtain ⟨intent, hintent, hlive, hfree⟩ :=
    (source.mem_queue s t.now id hvalid).mp (List.mem_of_mem_take hid)
  obtain ⟨lease, hlease, hheld⟩ := h.held id hout intent hintent hlive
  exact absurd hnow (not_lt.mpr (hheld.trans (hfree lease hlease)))

theorem reaches_of_withinLease (h : source.Sweep s limit ids clocks)
    (hroom : ids.card ≤ clocks.length * source.page s limit) (hwithin : WithinLease clocks)
    {ts : List RecoveryTick} (hts : ts.map RecoveryTick.now = clocks) :
    source.Reaches s limit ids ts := by
  refine h.reaches (P := fun _ => True) (fun _ _ _ _ => trivial) trivial ?_ hroom hts
  intro start hstart s pending t hvalid _ hbacklog hnow _
  apply first_of_withinLease hvalid hbacklog
  have hne : clocks ≠ [] := List.ne_nil_of_mem hnow
  have hlast := hwithin start hstart (clocks.getLast hne) (List.getLast?_eq_getLast_of_ne_nil hne)
  have hle : t.now ≤ clocks.getLast hne := by
    rcases List.mem_append.mp (List.dropLast_append_getLast hne ▸ hnow) with hbefore | hlast
    · have hsorted := h.sorted
      rw [← List.dropLast_append_getLast hne] at hsorted
      exact (List.pairwise_append.mp hsorted).2.2 _ hbefore _ (List.mem_singleton_self _)
    · rw [List.mem_singleton.mp hlast]
  exact lt_of_le_of_lt hle hlast

/-- Ticks that outlast a lease come apart into a first one, a last one and those between. -/
theorem ends_of_not_withinLease (h : source.Sweep s limit ids clocks)
    (hlong : ¬WithinLease clocks) {ts : List RecoveryTick}
    (hts : ts.map RecoveryTick.now = clocks) :
    ∃ first middle last, ts = first :: middle ++ [last] ∧
      first.now + recoveryLease ≤ last.now ∧
      (∀ id ∈ ids, source.Waiting s first.now id) ∧
      (∀ t ∈ first :: middle, first.now ≤ t.now) ∧
      (middle.length + 1) * source.page s limit < ids.card := by
  subst hts
  cases ts with
  | nil => exact absurd (fun first hfirst => by cases hfirst) hlong
  | cons first rest =>
    cases hrest : rest using List.reverseRecOn with
    | nil =>
      subst hrest
      refine absurd (fun start hstart last hlast => ?_) hlong
      simp only [List.map_cons, List.map_nil, List.head?_cons, List.getLast?_singleton,
        Option.mem_def, Option.some.injEq] at hstart hlast
      rw [← hstart, ← hlast]
      exact Nat.lt_add_of_pos_right (by decide)
    | append_singleton middle last =>
      subst hrest
      have hcount := h.card_gt
      have hstart := h.start_le
      rw [List.length_map, List.length_append, List.length_singleton] at hcount
      refine ⟨first, middle, last, rfl, ?_, h.due first.now rfl, fun t ht => ?_, hcount⟩
      · by_contra hshort
        refine hlong fun start hhead last' hlast => ?_
        simp only [List.map_cons, List.map_append, List.map_nil, List.head?_cons,
          Option.mem_def, Option.some.injEq] at hhead hlast
        rw [← List.cons_append, List.getLast?_concat, Option.some.injEq] at hlast
        rw [← hhead, ← hlast]
        exact not_le.mp hshort
      · exact hstart t.now (List.mem_map_of_mem (List.mem_append_left [last] ht))

end Sweep
end RecoverySource

namespace MemorySkeinStore
variable {J : Type*} {mem : MemorySkeinStore J} {limit : ℕ} {ids : Finset RunId}
  {clocks : List Timestamp}

theorem afterTicks_order (mem : MemorySkeinStore J) (limit : ℕ) (ts : List RecoveryTick) :
    ((memoryRecovery J).afterTicks limit mem ts).intentOrder.Sublist mem.intentOrder := by
  refine RecoverySource.afterTicks_keeps
    (P := fun mem' : MemorySkeinStore J => mem'.intentOrder.Sublist mem.intentOrder)
    (RecoverySource.tick_keeps (fun mem' query tokens _ h => ?_) fun mem' runId token h => ?_)
    trivial (List.Sublist.refl _) ts
  · exact (mem'.claimDispatches_order query tokens).trans h
  · exact (mem'.markDispatched_order runId token).symm ▸ h

/-- Ticks that reach the whole of a backlog do so within one lease: later the head of the
insertion order is claimed again. -/
theorem withinLease_of_reaches (h : (memoryRecovery J).Sweep mem limit ids clocks)
    {ts : List RecoveryTick} (hts : ts.map RecoveryTick.now = clocks)
    (hlasting : (∀ t ∈ ts, ∀ claim, t.dispatches claim = false) ∨
      (memoryRecovery J).AllOfKind mem ids .run)
    (hreach : (memoryRecovery J).Reaches mem limit ids ts) : WithinLease clocks := by
  by_contra hlong
  obtain ⟨first, middle, last, rfl, hlease, hwaiting, hstart, hcount⟩ :=
    h.ends_of_not_withinLease hlong hts
  obtain ⟨b, hb, hleft⟩ := RecoverySource.exists_left_to_last first h.valid hcount
  obtain ⟨a, hfirst, hlast⟩ := RecoverySource.queue_turns_round h.valid hwaiting
    (Nat.le_refl _) hlease hreach hcount (hlasting.imp_left fun hnone => hnone first (by simp))
    hb hleft
  exact not_pair_sublist_swap mem.dispatches.nodup_map_key
    (hfirst.trans (mem.claimQueue_sublist first.now))
    ((hlast.trans (claimQueue_sublist _ last.now)).trans (mem.afterTicks_order limit _))

end MemorySkeinStore

namespace PostgresStore
variable {J : Type*} {pg : PostgresStore J} {limit : ℕ} {ids : Finset RunId}
  {clocks : List Timestamp}

/-- The active runs by their creation. -/
def runOrder (pg : PostgresStore J) : List RunId :=
  ((pg.runs.values.filter fun row => !row.run.status.isTerminal).mergeSort
    RunRow.createdBefore).map RunRow.runId

theorem nodup_runOrder (pg : PostgresStore J) : pg.runOrder.Nodup := by
  have hperm := (List.mergeSort_perm (pg.runs.values.filter fun row =>
    !row.run.status.isTerminal) RunRow.createdBefore).map RunRow.runId
  exact hperm.nodup_iff.mpr (pg.runs.nodup_map_key.sublist (List.filter_sublist.map _))

theorem dueRuns_sublist (pg : PostgresStore J) (now : Timestamp) :
    ((pg.dueRuns now).map NativeDispatch.runId).Sublist pg.runOrder :=
  sublist_filterMap_key fun _ _ hrow => Table.key_of_get? (Option.filter_eq_some_iff.mp hrow).1

theorem afterTicks_runOrder (h : pg.Sound) (limit : ℕ) (ts : List RecoveryTick) :
    ((postgresRecovery J).afterTicks limit pg ts).runOrder = pg.runOrder := by
  have hruns : ((postgresRecovery J).afterTicks limit pg ts).runs = pg.runs := by
    refine RecoverySource.afterTicks_keeps (P := fun pg' : PostgresStore J => pg'.runs = pg.runs)
      (RecoverySource.tick_keeps (fun pg' query tokens _ h => ?_) fun _ _ _ h => h) h rfl ts
    have hframe : ((postgresRecovery J).claim pg' query tokens).2 = { pg' with
        nativeDispatches := ((postgresRecovery J).claim pg' query tokens).2.nativeDispatches } :=
      leaseAll_frame query tokens (pg'.claimed query) pg'
    rw [hframe]
    exact h
  rw [runOrder, hruns]
  rfl

/-- A row in the queue of a claim is live, of the kind it was written with. -/
theorem liveKind_of_mem_claimQueue (h : pg.Sound) {now : Timestamp} {row : NativeDispatch}
    (hrow : pg.nativeDispatches.get? row.runId = some row)
    (hqueue : row.runId ∈ pg.claimQueue now) :
    (postgresRecovery J).LiveKind pg row.kind row.runId := by
  obtain ⟨intent, hintent, hlive, -⟩ := (mem_claimQueue h now row.runId).mp hqueue
  have hsame : (pg.slot row.runId).intent = some row.intent := by simp [slot, hrow]
  rw [hsame] at hintent
  cases hintent
  exact ⟨row.intent, hsame, hlive, rfl⟩

theorem liveKind_of_dueCancels (h : pg.Sound) {now : Timestamp} {id : RunId}
    (hid : id ∈ (pg.dueCancels now).map NativeDispatch.runId) :
    (postgresRecovery J).LiveKind pg .cancel id := by
  have hqueue : id ∈ pg.claimQueue now := by
    rw [claimQueue, List.map_append]
    exact List.mem_append_left _ hid
  obtain ⟨row, hrow, rfl⟩ := List.mem_map.mp hid
  obtain ⟨hget, hkind, -⟩ := mem_dueCancels.mp hrow
  exact hkind ▸ liveKind_of_mem_claimQueue h hget hqueue

theorem liveKind_of_dueRuns (h : pg.Sound) {now : Timestamp} {id : RunId}
    (hid : id ∈ (pg.dueRuns now).map NativeDispatch.runId) :
    (postgresRecovery J).LiveKind pg .run id := by
  have hqueue : id ∈ pg.claimQueue now := by
    rw [claimQueue, List.map_append]
    exact List.mem_append_right _ hid
  obtain ⟨row, hrow, rfl⟩ := List.mem_map.mp hid
  obtain ⟨hget, hkind, -⟩ := mem_dueRuns.mp hrow
  exact hkind ▸ liveKind_of_mem_claimQueue h hget hqueue

/-- After a run only runs are claimed, in the order of their creation. -/
theorem runOrder_of_pair (h : pg.Sound) {now : Timestamp} {a b : RunId}
    (hpair : [a, b].Sublist (pg.claimQueue now))
    (ha : ¬(postgresRecovery J).LiveKind pg .cancel a) :
    [a, b].Sublist pg.runOrder ∧ (postgresRecovery J).LiveKind pg .run b := by
  rw [claimQueue, List.map_append] at hpair
  have hruns := pair_sublist_append_right hpair fun hcancel =>
    ha (liveKind_of_dueCancels h hcancel)
  exact ⟨hruns.trans (pg.dueRuns_sublist now), liveKind_of_dueRuns h (hruns.subset (by simp))⟩

/-- Ticks that reach the whole of a backlog do so within one lease, or there is no run intent
in it: later the oldest runs are claimed again before the youngest. -/
theorem withinLease_of_reaches (h : (postgresRecovery J).Sweep pg limit ids clocks)
    {ts : List RecoveryTick} (hts : ts.map RecoveryTick.now = clocks)
    (hlasting : (∀ t ∈ ts, ∀ claim, t.dispatches claim = false) ∨
      (postgresRecovery J).AllOfKind pg ids .run)
    (hreach : (postgresRecovery J).Reaches pg limit ids ts)
    (hrun : ∃ id ∈ ids, (postgresRecovery J).LiveKind pg .run id) : WithinLease clocks := by
  by_contra hlong
  obtain ⟨first, middle, last, rfl, hlease, hwaiting, hstart, hcount⟩ :=
    h.ends_of_not_withinLease hlong hts
  have hvalid : ∀ earlier, ((postgresRecovery J).afterTicks limit pg earlier).Sound :=
    fun earlier => RecoverySource.afterTicks_valid h.valid earlier
  have hnotCancel : ∀ {id} earlier, (postgresRecovery J).LiveKind pg .run id →
      ¬(postgresRecovery J).LiveKind
        ((postgresRecovery J).afterTicks limit pg earlier) .cancel id := by
    intro id earlier hrun hcancel
    cases hrun.unique (hcancel.of_afterTicks h.valid)
  -- A cancel left to the last tick would have been claimed before every run.
  obtain ⟨b, hb, hleft, hbrun⟩ : ∃ b ∈ ids,
      ¬Served ((postgresRecovery J).rounds limit pg (first :: middle)) b ∧
        (postgresRecovery J).LiveKind pg .run b := by
    obtain ⟨b, hb, hleft⟩ := RecoverySource.exists_left_to_last first h.valid hcount
    obtain ⟨run, hrunMem, hrunKind⟩ := hrun
    by_cases hserved : Served ((postgresRecovery J).rounds limit pg (first :: middle)) run
    · obtain ⟨earlier, now, hpair⟩ := RecoverySource.exists_queue_order h.valid hstart hserved
        hleft (hwaiting b hb)
      obtain ⟨-, hbrun⟩ := runOrder_of_pair (hvalid earlier) hpair (hnotCancel earlier hrunKind)
      exact ⟨b, hb, hleft, hbrun.of_afterTicks h.valid⟩
    · exact ⟨run, hrunMem, hserved, hrunKind⟩
  obtain ⟨a, hfirst, hlast⟩ := RecoverySource.queue_turns_round h.valid hwaiting
    (Nat.le_refl _) hlease hreach hcount (hlasting.imp_left fun hnone => hnone first (by simp))
    hb hleft
  obtain ⟨hlater, harun⟩ := runOrder_of_pair (hvalid (first :: middle)) hlast
    (hnotCancel (first :: middle) hbrun)
  obtain ⟨hearlier, -⟩ := runOrder_of_pair h.valid hfirst
    (hnotCancel [] (harun.of_afterTicks h.valid))
  rw [afterTicks_runOrder h.valid] at hlater
  exact not_pair_sublist_swap pg.nodup_runOrder hearlier hlater

theorem leasedBefore_total (a b : NativeDispatch) :
    (a.leasedBefore b || b.leasedBefore a) = true := by
  unfold NativeDispatch.leasedBefore
  cases a.leaseUntil with
  | none =>
    cases b.leaseUntil with
    | none => simpa using le_total a.runId.value b.runId.value
    | some lease' => rfl
  | some lease =>
    cases b.leaseUntil with
    | none => rfl
    | some lease' =>
      rcases lt_trichotomy lease lease' with hlt | rfl | hgt
      · simp [hlt]
      · simpa using le_total a.runId.value b.runId.value
      · simp [hgt]

theorem leasedBefore_trans (a b c : NativeDispatch) (hab : a.leasedBefore b = true)
    (hbc : b.leasedBefore c = true) : a.leasedBefore c = true := by
  unfold NativeDispatch.leasedBefore at *
  cases ha : a.leaseUntil <;> cases hb : b.leaseUntil <;> cases hc : c.leaseUntil <;>
    simp only [ha, hb, hc, Option.getD_some, Option.getD_none, Bool.or_eq_true, Bool.and_eq_true,
      decide_eq_true_eq, lt_irrefl, false_or, true_and, Bool.false_eq_true] at hab hbc ⊢
  · exact hab.trans hbc
  · rcases hab with hab | ⟨rfl, hab⟩
    · rcases hbc with hbc | ⟨rfl, hbc⟩
      · exact .inl (hab.trans hbc)
      · exact .inl hab
    · rcases hbc with hbc | ⟨rfl, hbc⟩
      · exact .inl hbc
      · exact .inr ⟨rfl, hab.trans hbc⟩

theorem lease_le_of_leasedBefore {a b : NativeDispatch} (h : a.leasedBefore b = true)
    {lease : Timestamp} (ha : a.leaseUntil = some lease) :
    ∃ later ∈ b.leaseUntil, lease ≤ later := by
  unfold NativeDispatch.leasedBefore at h
  cases hb : b.leaseUntil with
  | none => simp [ha, hb] at h
  | some later =>
    simp only [ha, hb, Option.getD_some, Bool.or_eq_true, Bool.and_eq_true,
      decide_eq_true_eq] at h
    exact ⟨later, rfl, h.elim Nat.le_of_lt fun heq => Nat.le_of_eq heq.1⟩

/-- Of two cancels the first one claimed has the earlier lease. -/
theorem leasedBefore_of_pair {now : Timestamp} {a b : RunId}
    (hpair : [a, b].Sublist ((pg.dueCancels now).map NativeDispatch.runId)) :
    ∃ rowA rowB, pg.nativeDispatches.get? a = some rowA ∧
      pg.nativeDispatches.get? b = some rowB ∧ rowA.leasedBefore rowB = true := by
  obtain ⟨rows, hrows, hmap⟩ := List.sublist_map_iff.mp hpair
  obtain ⟨rowA, rest, rfl, rfl, hrest⟩ := List.map_eq_cons_iff.mp hmap.symm
  obtain ⟨rowB, rest, rfl, rfl, hnil⟩ := List.map_eq_cons_iff.mp hrest
  have hsorted := List.pairwise_mergeSort leasedBefore_trans leasedBefore_total
    (pg.nativeDispatches.values.filter fun row =>
      row.kind = .cancel && !row.dispatched && row.due now)
  refine ⟨rowA, rowB, (mem_dueCancels.mp (hrows.subset (by simp))).1,
    (mem_dueCancels.mp (hrows.subset (by simp))).1, ?_⟩
  exact List.rel_of_pairwise_cons (hsorted.sublist hrows) List.mem_cons_self

/-- Cancels that wait are claimed before those that were leased since. -/
theorem first_of_cancels (h : pg.Sound) {start : Timestamp} {pending : Finset RunId}
    (hbacklog : (postgresRecovery J).Backlog pg start pending)
    (hcancels : ∀ id kind, (postgresRecovery J).LiveKind pg kind id → kind = .cancel)
    {t : RecoveryTick} (hnow : start ≤ t.now)
    (hleft : ∃ id ∈ pending, id ∉ ((postgresRecovery J).tick limit pg t).1) :
    ∀ id ∈ ((postgresRecovery J).tick limit pg t).1, id ∈ pending := by
  obtain ⟨other, hother, hnot⟩ := hleft
  intro id hid
  by_contra hout
  have hpair : [id, other].Sublist (pg.claimQueue t.now) :=
    RecoverySource.queue_order h hid hnot ((hbacklog.waiting other hother).due hnow)
  rw [claimQueue, List.map_append] at hpair
  have hfirst := pair_sublist_append_left hpair fun hrun =>
    DispatchKind.noConfusion (hcancels other .run (liveKind_of_dueRuns h hrun))
  obtain ⟨row, rowOther, hrow, hrowOther, hbefore⟩ := leasedBefore_of_pair hfirst
  obtain ⟨intent, hintent, hlive, -⟩ := liveKind_of_dueCancels h (hfirst.subset List.mem_cons_self)
  obtain ⟨lease, hlease, hheld⟩ := hbacklog.held id hout intent hintent hlive
  have hsame : (pg.slot id).intent = some row.intent := by simp [slot, hrow]
  obtain rfl : row.intent = intent := Option.some.inj (hsame.symm.trans hintent)
  obtain ⟨later, hlater, hle⟩ := lease_le_of_leasedBefore hbefore hlease
  obtain ⟨waiting, hwaiting, -, hfree⟩ := hbacklog.waiting other hother
  have hsameOther : (pg.slot other).intent = some rowOther.intent := by simp [slot, hrowOther]
  obtain rfl : rowOther.intent = waiting := Option.some.inj (hsameOther.symm.trans hwaiting)
  have hpositive : 0 < recoveryLease := by decide
  exact absurd ((hheld.trans hle).trans (hfree later hlater))
    (not_le.mpr (Nat.lt_add_of_pos_right hpositive))

/-- A backlog of cancels is reached at any clocks. -/
theorem reaches_of_cancels (h : (postgresRecovery J).Sweep pg limit ids clocks)
    (hcancels : (postgresRecovery J).AllOfKind pg ids .cancel)
    (hroom : ids.card ≤ clocks.length * claimPage pg.maxPageSize limit)
    {ts : List RecoveryTick} (hts : ts.map RecoveryTick.now = clocks) :
    (postgresRecovery J).Reaches pg limit ids ts := by
  refine h.reaches
    (P := fun pg' => ∀ id kind, (postgresRecovery J).LiveKind pg' kind id → kind = .cancel)
    (fun pg' t hvalid hP id kind hlive => hP id kind (hlive.of_tick hvalid))
    (fun id kind hlive => ?_) ?_ hroom hts
  · obtain ⟨intent, hintent, hnot, hkind⟩ := hlive
    exact RecoverySource.LiveKind.unique ⟨intent, hintent, hnot, hkind⟩
      (hcancels id (h.live id intent hintent hnot))
  · intro start hstart pg' pending t hvalid hP hbacklog hnow hleft
    refine first_of_cancels hvalid hbacklog hP ?_ hleft
    cases clocks with
    | nil => cases hnow
    | cons first rest =>
      cases hstart
      exact h.start_le t.now hnow

end PostgresStore

/-- The clocks of `n` ticks at the period of the timer. -/
def regularClocks (start : Timestamp) (n : ℕ) : List Timestamp :=
  (List.range n).map fun i => start + recoveryInterval * i

/-- A lease outlasts thirty ticks of the timer. -/
theorem withinLease_regularClocks (start : Timestamp) (n : ℕ) :
    WithinLease (regularClocks start n) ↔ n ≤ 30 := by
  cases n with
  | zero => simp [WithinLease, regularClocks]
  | succ n =>
    have hhead : (regularClocks start (n + 1)).head? = some start := by
      simp [regularClocks, List.range_succ_eq_map]
    have hlast : (regularClocks start (n + 1)).getLast? =
        some (start + recoveryInterval * n) := by
      simp [regularClocks, List.range_succ]
    simp only [WithinLease, hhead, hlast, Option.mem_def, Option.some.injEq, forall_eq',
      recoveryInterval, recoveryLease, Nat.add_lt_add_iff_left]
    omega

section Drivers
variable {J : Type*} {limit : ℕ} {ids : Finset RunId} {clocks : List Timestamp}

/-- Ticks none of which acknowledges anything. -/
def unacknowledged (clocks : List Timestamp) : List RecoveryTick :=
  clocks.map fun now => ⟨now, fun _ => "", fun _ => false⟩

theorem unacknowledged_clocks (clocks : List Timestamp) :
    (unacknowledged clocks).map RecoveryTick.now = clocks := by
  simp [unacknowledged, Function.comp_def]

theorem unacknowledged_dispatches (clocks : List Timestamp) :
    ∀ t ∈ unacknowledged clocks, ∀ claim, t.dispatches claim = false := by
  simp [unacknowledged]

theorem memory_reaches_iff {mem : MemorySkeinStore J}
    (h : (memoryRecovery J).Sweep mem limit ids clocks) {ts : List RecoveryTick}
    (hts : ts.map RecoveryTick.now = clocks)
    (hlasting : (∀ t ∈ ts, ∀ claim, t.dispatches claim = false) ∨
      (memoryRecovery J).AllOfKind mem ids .run) :
    (memoryRecovery J).Reaches mem limit ids ts ↔
      ids.card ≤ clocks.length * claimPage mem.maxPageSize limit ∧ WithinLease clocks :=
  ⟨fun hreach => ⟨h.room hts hreach, mem.withinLease_of_reaches h hts hlasting hreach⟩,
    fun hcondition => h.reaches_of_withinLease hcondition.1 hcondition.2 hts⟩

theorem postgres_reaches {pg : PostgresStore J}
    (h : (postgresRecovery J).Sweep pg limit ids clocks) {ts : List RecoveryTick}
    (hts : ts.map RecoveryTick.now = clocks)
    (hcondition : ids.card ≤ clocks.length * claimPage pg.maxPageSize limit ∧
      (WithinLease clocks ∨ (postgresRecovery J).AllOfKind pg ids .cancel)) :
    (postgresRecovery J).Reaches pg limit ids ts := by
  rcases hcondition.2 with hwithin | hcancels
  · exact h.reaches_of_withinLease hcondition.1 hwithin hts
  · exact PostgresStore.reaches_of_cancels h hcancels hcondition.1 hts

theorem postgres_reaches_iff {pg : PostgresStore J}
    (h : (postgresRecovery J).Sweep pg limit ids clocks) {ts : List RecoveryTick}
    (hts : ts.map RecoveryTick.now = clocks)
    (hlasting : (∀ t ∈ ts, ∀ claim, t.dispatches claim = false) ∨
      (postgresRecovery J).AllOfKind pg ids .run) :
    (postgresRecovery J).Reaches pg limit ids ts ↔
      ids.card ≤ clocks.length * claimPage pg.maxPageSize limit ∧
        (WithinLease clocks ∨ (postgresRecovery J).AllOfKind pg ids .cancel) := by
  refine ⟨fun hreach => ⟨h.room hts hreach, ?_⟩, postgres_reaches h hts⟩
  by_cases hrun : ∃ id ∈ ids, (postgresRecovery J).LiveKind pg .run id
  · exact .inl (PostgresStore.withinLease_of_reaches h hts hlasting hreach hrun)
  · refine .inr fun id hid => ?_
    cases clocks with
    | nil =>
      rw [h.empty] at hid
      exact absurd hid (Finset.notMem_empty id)
    | cons start rest =>
      obtain ⟨intent, hintent, hlive, -⟩ := h.due start rfl id hid
      cases hkind : intent.kind with
      | cancel => exact ⟨intent, hintent, hlive, hkind⟩
      | run => exact absurd ⟨id, hid, intent, hintent, hlive, hkind⟩ hrun

/-- `⌈n / limit⌉` ticks of the timer see no lease end where thirty pages of the limit hold all
intents. -/
theorem withinLease_iff_card (hlimit : 1 ≤ limit) (start : Timestamp) :
    WithinLease (regularClocks start ((ids.card + limit - 1) / limit)) ↔
      ids.card ≤ 30 * limit := by
  rw [withinLease_regularClocks, ← Nat.lt_succ_iff, Nat.div_lt_iff_lt_mul hlimit]
  omega

end Drivers

/-- The recovery reaches every intent of a backlog, whatever it acknowledges, if and only if the
pages of its ticks hold the backlog and no lease of the first tick ends before the last; on
Postgres also where the backlog is of cancels. Of a backlog of runs that holds for every
choice of acknowledgements. At the period of the timer no lease ends in time just if there
are at most thirty times as many intents as the limit. -/
theorem recovery_reachesAll_iff {J : Type*} {limit : ℕ} {ids : Finset RunId}
    {clocks : List Timestamp} :
    (∀ mem, (memoryRecovery J).Sweep mem limit ids clocks →
      ((∀ ts : List RecoveryTick, ts.map RecoveryTick.now = clocks →
          (memoryRecovery J).Reaches mem limit ids ts) ↔
        ids.card ≤ clocks.length * claimPage mem.maxPageSize limit ∧ WithinLease clocks) ∧
      ((memoryRecovery J).AllOfKind mem ids .run → ∀ ts : List RecoveryTick,
        ts.map RecoveryTick.now = clocks → ((memoryRecovery J).Reaches mem limit ids ts ↔
          ids.card ≤ clocks.length * claimPage mem.maxPageSize limit ∧ WithinLease clocks))) ∧
    (∀ pg, (postgresRecovery J).Sweep pg limit ids clocks →
      ((∀ ts : List RecoveryTick, ts.map RecoveryTick.now = clocks →
          (postgresRecovery J).Reaches pg limit ids ts) ↔
        ids.card ≤ clocks.length * claimPage pg.maxPageSize limit ∧
          (WithinLease clocks ∨ (postgresRecovery J).AllOfKind pg ids .cancel)) ∧
      ((postgresRecovery J).AllOfKind pg ids .run → ∀ ts : List RecoveryTick,
        ts.map RecoveryTick.now = clocks → ((postgresRecovery J).Reaches pg limit ids ts ↔
          ids.card ≤ clocks.length * claimPage pg.maxPageSize limit ∧
            (WithinLease clocks ∨ (postgresRecovery J).AllOfKind pg ids .cancel)))) ∧
    (1 ≤ limit → ∀ start, clocks = regularClocks start ((ids.card + limit - 1) / limit) →
      (WithinLease clocks ↔ ids.card ≤ 30 * limit)) := by
  refine ⟨fun mem h => ⟨⟨fun hall => ?_, fun hcondition ts hts => ?_⟩,
    fun hruns ts hts => memory_reaches_iff h hts (.inr hruns)⟩,
    fun pg h => ⟨⟨fun hall => ?_, fun hcondition ts hts => postgres_reaches h hts hcondition⟩,
      fun hruns ts hts => postgres_reaches_iff h hts (.inr hruns)⟩, ?_⟩
  · exact (memory_reaches_iff h (unacknowledged_clocks clocks)
      (.inl (unacknowledged_dispatches clocks))).mp (hall _ (unacknowledged_clocks clocks))
  · exact h.reaches_of_withinLease hcondition.1 hcondition.2 hts
  · exact (postgres_reaches_iff h (unacknowledged_clocks clocks)
      (.inl (unacknowledged_dispatches clocks))).mp (hall _ (unacknowledged_clocks clocks))
  · rintro hlimit start rfl
    exact withinLease_iff_card hlimit start

namespace QueuedRuns

/-- The `i`-th run of a queue, on a thread of its own. -/
def queuedRun (i : ℕ) : Run ℕ where
  runId := .of (toString i)
  threadId := .of (toString i)
  assistantId := .of "agent"
  createdAt := i
  updatedAt := i
  status := .pending
  metadata := 0
  multitaskStrategy := none

def queuedIntent (i : ℕ) : DispatchIntent where
  runId := .of (toString i)
  threadId := .of (toString i)
  token := ""
  kind := .run
  notBefore := 0

/-- `n` admitted runs that wait for their dispatch. -/
def queuedStore (n : ℕ) : MemorySkeinStore ℕ where
  runs := (List.range n).foldl (fun runs i => runs.write (queuedRun i)) ∅
  dispatches := (List.range n).foldl (fun intents i => intents.write (queuedIntent i)) ∅

def queuedRow (i : ℕ) : NativeDispatch where
  runId := .of (toString i)
  threadId := .of (toString i)
  kind := .run
  notBefore := 0

def queuedThread (i : ℕ) : Thread ℕ where
  threadId := .of (toString i)
  createdAt := i
  updatedAt := i
  stateUpdatedAt := i
  metadata := 0
  status := .busy
  values := 0
  interrupts := 0

/-- The same in Postgres. -/
def queuedRows (n : ℕ) : PostgresStore ℕ where
  threads := (List.range n).foldl (fun threads i => threads.write (queuedThread i)) ∅
  runs := (List.range n).foldl (fun runs i => runs.write ⟨queuedRun i, none, none⟩) ∅
  nativeDispatches := (List.range n).foldl (fun rows i => rows.write (queuedRow i)) ∅

/-- Ticks all of whose dispatches succeed. -/
def acknowledged (clocks : List Timestamp) : List RecoveryTick :=
  clocks.map fun now => ⟨now, fun _ => "token", fun _ => true⟩

/-- A store all of whose intents are due at the first tick. -/
theorem sweep_of_claimQueue {mem : MemorySkeinStore ℕ} {limit : ℕ} {clocks : List Timestamp}
    (hlimit : 1 ≤ limit)
    (hlength : clocks.length = (mem.intentOrder.toFinset.card + limit - 1) / limit)
    (hsorted : clocks.Pairwise (· ≤ ·))
    (hdue : ∀ start ∈ clocks.head?, ∀ id ∈ mem.intentOrder, id ∈ mem.claimQueue start) :
    (memoryRecovery ℕ).Sweep mem limit mem.intentOrder.toFinset clocks where
  valid := trivial
  limit_pos := hlimit
  length := hlength
  sorted := hsorted
  due start hstart id hid :=
    (mem.mem_claimQueue start id).mp (hdue start hstart id (List.mem_toFinset.mp hid))
  live id intent hintent _ := by
    have hget : mem.dispatches.get? id = some intent := hintent
    obtain rfl : intent.runId = id := Table.key_of_get? hget
    exact List.mem_toFinset.mpr (List.mem_map_of_mem ((Table.mem_values_iff _ _).mpr hget))

theorem queuedStore_sweep :
    (memoryRecovery ℕ).Sweep (queuedStore 3) 2 (queuedStore 3).intentOrder.toFinset
      (regularClocks 0 2) :=
  sweep_of_claimQueue (by decide) (by decide +kernel) (by decide) (by decide +kernel)

theorem queuedStore_sweep_long :
    (memoryRecovery ℕ).Sweep (queuedStore 31) 1 (queuedStore 31).intentOrder.toFinset
      (regularClocks 0 31) :=
  sweep_of_claimQueue (by decide) (by decide +kernel) (by decide) (by decide +kernel)

theorem queuedRows_sound : (queuedRows 3).Sound where
  runs id threadId hthread := by
    obtain ⟨row, hrow, rfl⟩ := Option.map_eq_some_iff.mp hthread
    have hrows : ∀ row ∈ (queuedRows 3).runs.values,
        (queuedRows 3).threads.contains row.run.threadId = true := by decide +kernel
    exact hrows row ((OrderedMap.mem_values_iff _ _).mpr ⟨id, hrow⟩)
  dispatches id row hrow := by
    obtain rfl : row.runId = id := Table.key_of_get? hrow
    have hrows : ∀ row ∈ (queuedRows 3).nativeDispatches.values,
        (queuedRows 3).threadOf row.runId = some row.threadId := by decide +kernel
    exact hrows row ((Table.mem_values_iff _ _).mpr hrow)
  reservations id row hrow := by cases hrow

theorem queuedRows_sweep :
    (postgresRecovery ℕ).Sweep (queuedRows 3) 2 (queuedStore 3).intentOrder.toFinset
      (regularClocks 0 2) where
  valid := queuedRows_sound
  limit_pos := by decide
  length := by decide +kernel
  sorted := by decide
  due start hstart id hid := by
    obtain rfl : 0 = start := Option.some.inj hstart
    have hslots : ∀ id ∈ (queuedStore 3).intentOrder, ∃ intent ∈ ((queuedRows 3).slot id).intent,
        ¬intent.Done ((queuedRows 3).slot id).terminal ∧
          ∀ lease ∈ intent.leaseUntil, lease ≤ 0 := by decide +kernel
    exact hslots id (List.mem_toFinset.mp hid)
  live id intent hintent _ := by
    obtain ⟨row, hrow, rfl⟩ := Option.map_eq_some_iff.mp hintent
    obtain rfl : row.runId = id := Table.key_of_get? hrow
    have hrows : ∀ row ∈ (queuedRows 3).nativeDispatches.values,
        row.runId ∈ (queuedStore 3).intentOrder := by decide +kernel
    exact List.mem_toFinset.mpr (hrows row ((Table.mem_values_iff _ _).mpr hrow))

/-- Three runs are reached in two ticks of two. -/
theorem queuedStore_reached :
    (∀ ts : List RecoveryTick, ts.map RecoveryTick.now = regularClocks 0 2 →
      (memoryRecovery ℕ).Reaches (queuedStore 3) 2 (queuedStore 3).intentOrder.toFinset ts) ∧
    ∀ ts : List RecoveryTick, ts.map RecoveryTick.now = regularClocks 0 2 →
      (postgresRecovery ℕ).Reaches (queuedRows 3) 2 (queuedStore 3).intentOrder.toFinset ts :=
  ⟨(recovery_reachesAll_iff.1 (queuedStore 3) queuedStore_sweep).1.mpr
    ⟨by decide +kernel, by decide⟩,
   (recovery_reachesAll_iff.2.1 (queuedRows 3) queuedRows_sweep).1.mpr
    ⟨by decide +kernel, .inl (by decide)⟩⟩

/-- Thirty-one runs are not reached in thirty-one ticks of one: the last tick claims the first
run again. -/
theorem lastQueued_unreached :
    ¬∀ (mem : MemorySkeinStore ℕ) (limit : ℕ) (ids : Finset RunId) (ts : List RecoveryTick),
      (memoryRecovery ℕ).Sweep mem limit ids (ts.map RecoveryTick.now) →
      ts.map RecoveryTick.now = regularClocks 0 ts.length →
      (memoryRecovery ℕ).Reaches mem limit ids ts := by
  intro hall
  have hreach := hall (queuedStore 31) 1 _ (acknowledged (regularClocks 0 31))
    queuedStore_sweep_long (by decide)
  have hrounds : (memoryRecovery ℕ).rounds 1 (queuedStore 31) (acknowledged (regularClocks 0 31)) =
      ((List.range 30).map fun i => [.of (toString i)]) ++ [[.of (toString 0)]] := by
    decide +kernel
  have hserved := hreach (.of (toString 30)) (by decide +kernel)
  rw [hrounds] at hserved
  revert hserved
  unfold Served
  decide +kernel

end QueuedRuns
end Skein
