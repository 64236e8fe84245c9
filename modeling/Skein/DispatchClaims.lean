import Skein.PostgresIntents

/-!
# What a claim returns, in both drivers

`ClaimLaw` is the contract of one `claimDispatches`: it returns due intents, each once, under
fresh leases. Both drivers meet it at any limit, return something when something is due, and
return all that is due when their page holds it. So claims repeated under long leases
return every live intent in the end, whatever the page.
-/
namespace Skein

/-- The claim of an intent. -/
def DispatchIntent.claim (intent : DispatchIntent) (token : String) : DispatchClaim :=
  ⟨intent.runId, intent.threadId, token, intent.kind, intent.notBefore, intent.action⟩

namespace DispatchSlot

/-- A claim at `now` may return the intent of the slot. -/
def Due (s : DispatchSlot) (now : Timestamp) : Prop :=
  ∃ intent ∈ s.intent, ¬intent.Done s.terminal ∧ ∀ lease ∈ intent.leaseUntil, lease ≤ now

/-- The claim an intent that is not done amounts to, without a token. -/
def live? (s : DispatchSlot) : Option DispatchClaim :=
  s.intent.bind fun intent =>
    if intent.Done s.terminal then none else some (intent.claim "")

end DispatchSlot

/-- What a claim does where the slots are `slot` before and `slot'` after. -/
structure ClaimLaw (query : DispatchQuery) (tokens : RunId → String)
    (slot slot' : RunId → DispatchSlot) (claims : List DispatchClaim) : Prop where
  nodup : (claims.map DispatchClaim.runId).Nodup
  returned : ∀ claim ∈ claims, ∃ intent, (slot claim.runId).intent = some intent ∧
    (slot claim.runId).Due query.now ∧ claim = intent.claim (tokens claim.runId) ∧
    slot' claim.runId = ⟨(slot claim.runId).terminal,
      some (intent.lease (tokens claim.runId) query.leaseUntil)⟩
  others : ∀ id, id ∉ claims.map DispatchClaim.runId → slot' id = slot id ∨
    ∃ intent, (slot id).intent = some intent ∧ intent.Done (slot id).terminal ∧
      slot' id = ⟨(slot id).terminal, none⟩

namespace MemorySkeinStore
variable {J : Type*}

/-- The number of intents a claim may return. -/
def claimLimit (store : MemorySkeinStore J) (query : DispatchQuery) : ℕ :=
  max 1 (min (store.pageLimit query.limit) 1000)

theorem claimEntries_keeps (query : DispatchQuery) (tokens : RunId → String)
    (entries claimed : List DispatchIntent) (store : MemorySkeinStore J) :
    claimed ⊆ (claimEntries query tokens entries claimed store).1 := by
  induction entries generalizing claimed store with
  | nil => exact List.Subset.refl claimed
  | cons intent rest ih =>
    unfold claimEntries
    split_ifs
    · exact ih _ _
    · exact ih _ _
    · exact List.Subset.refl claimed
    · exact fun claim h => ih _ _ (List.mem_append_left _ h)

/-- With room for what is left, every due intent is claimed. -/
theorem claimEntries_complete (query : DispatchQuery) (tokens : RunId → String)
    (entries claimed : List DispatchIntent) (store : MemorySkeinStore J)
    (hroom : claimed.length + entries.length ≤ store.claimLimit query) :
    ∀ intent ∈ entries, ¬intent.Done (store.terminal? intent.runId) →
      (∀ lease ∈ intent.leaseUntil, lease ≤ query.now) →
      ∃ claim ∈ (claimEntries query tokens entries claimed store).1,
        claim.runId = intent.runId := by
  induction entries generalizing claimed store with
  | nil => exact fun intent h => absurd h List.not_mem_nil
  | cons head rest ih =>
    intro intent hintent hlive hfree
    have hlater : claimed.length + 1 + rest.length ≤ store.claimLimit query := by
      rw [List.length_cons] at hroom
      omega
    have hrest : claimed.length + rest.length ≤ store.claimLimit query := by omega
    unfold claimEntries
    split_ifs with hdone hheld hfull
    · rcases List.mem_cons.mp hintent with rfl | hmem
      · exact absurd hdone hlive
      · exact ih claimed { store with dispatches := store.dispatches.erase head.runId } hrest intent
          hmem hlive hfree
    · rcases List.mem_cons.mp hintent with rfl | hmem
      · obtain ⟨lease, hlease, hheld⟩ := (Option.any_eq_true _ _).mp hheld
        exact absurd (of_decide_eq_true hheld) (Nat.not_lt.mpr (hfree lease hlease))
      · exact ih claimed store hrest intent hmem hlive hfree
    · have hlimit : store.claimLimit query ≤ claimed.length := hfull
      omega
    · rcases List.mem_cons.mp hintent with rfl | hmem
      · exact ⟨_, claimEntries_keeps _ _ _ _ _ (List.mem_append_right _ List.mem_cons_self), rfl⟩
      · refine ih _ _ ?_ intent hmem hlive hfree
        rw [List.length_append, List.length_singleton]
        exact hlater

/-- Where something is due, something is claimed. -/
theorem claimEntries_progress (query : DispatchQuery) (tokens : RunId → String)
    (entries : List DispatchIntent) (store : MemorySkeinStore J) {intent : DispatchIntent}
    (hintent : intent ∈ entries) (hlive : ¬intent.Done (store.terminal? intent.runId))
    (hfree : ∀ lease ∈ intent.leaseUntil, lease ≤ query.now) :
    (claimEntries query tokens entries [] store).1 ≠ [] := by
  induction entries generalizing store with
  | nil => exact absurd hintent List.not_mem_nil
  | cons head rest ih =>
    unfold claimEntries
    split_ifs with hdone hheld hfull
    · rcases List.mem_cons.mp hintent with rfl | hmem
      · exact absurd hdone hlive
      · exact ih _ hmem hlive
    · rcases List.mem_cons.mp hintent with rfl | hmem
      · obtain ⟨lease, hlease, hheld⟩ := (Option.any_eq_true _ _).mp hheld
        exact absurd (of_decide_eq_true hheld) (Nat.not_lt.mpr (hfree lease hlease))
      · exact ih _ hmem hlive
    · exact absurd hfull (Nat.not_le.mpr (Nat.lt_of_lt_of_le Nat.one_pos (Nat.le_max_left _ _)))
    · exact List.ne_nil_of_mem (claimEntries_keeps _ _ _ _ _
        (List.mem_append_right _ List.mem_cons_self))

/-- A slot a claim passes, and one it leases. -/
theorem ClaimMove.inversion {query : DispatchQuery} {token : String} {s s' : DispatchSlot}
    {mine : List DispatchIntent} (h : ClaimMove query token s s' mine) :
    (mine = [] ∧ (s' = s ∨ ∃ intent, s.intent = some intent ∧ intent.Done s.terminal ∧
      s' = ⟨s.terminal, none⟩)) ∨
    ∃ intent, s.intent = some intent ∧ s.Due query.now ∧
      mine = [intent.lease token query.leaseUntil] ∧
      s' = ⟨s.terminal, some (intent.lease token query.leaseUntil)⟩ := by
  cases h with
  | passed event hevent hmove =>
    refine .inl ⟨rfl, ?_⟩
    rcases hevent with rfl | rfl
    · cases hmove
      exact .inl rfl
    · cases hmove with
      | collected hdone => exact .inr ⟨_, rfl, hdone, rfl⟩
  | leased claim hclaim hmove =>
    cases hmove with
    | leased _ _ hlive hfree =>
      cases hclaim
      exact .inr ⟨_, rfl, ⟨_, rfl, hlive, hfree⟩, rfl, rfl⟩

/-- The claims memory returns, without the fields a lease adds to them. -/
def claims (mem : MemorySkeinStore J) (query : DispatchQuery) (tokens : RunId → String) :
    List DispatchClaim :=
  (mem.claimDispatches query tokens).1.map fun intent => intent.claim intent.token

theorem claimLaw (mem : MemorySkeinStore J) (query : DispatchQuery) (tokens : RunId → String) :
    ClaimLaw query tokens mem.slot (mem.claimDispatches query tokens).2.slot
      (mem.claims query tokens) := by
  have hspec := mem.claimDispatches_spec query tokens
  generalize hnew : (mem.claimDispatches query tokens).1 = new at hspec
  generalize (mem.claimDispatches query tokens).2 = mem' at hspec ⊢
  have hclaims : mem.claims query tokens = new.map fun intent => intent.claim intent.token := by
    rw [← hnew]
    rfl
  have hids : (mem.claims query tokens).map DispatchClaim.runId =
      new.map DispatchIntent.runId := by
    rw [hclaims, List.map_map]
    rfl
  have hmoves := fun k => (hspec.moves k).inversion
  refine ⟨?_, ?_, ?_⟩
  · rw [hids, List.nodup_iff_count_le_one]
    intro k
    have hcount : (new.map DispatchIntent.runId).count k =
        (new.filter fun claim => claim.runId = k).length := by
      rw [List.count, List.countP_map, List.countP_eq_length_filter]
      congr 1
    rw [hcount]
    rcases hmoves k with ⟨hnone, -⟩ | ⟨intent, -, -, hone, -⟩
    · simp [hnone]
    · simp [hone]
  · intro claim hclaim
    rw [hclaims] at hclaim
    obtain ⟨leased, hleased, rfl⟩ := List.mem_map.mp hclaim
    have hid : (leased.claim leased.token).runId = leased.runId := rfl
    rw [hid]
    have hmine : leased ∈ new.filter fun other => other.runId = leased.runId :=
      List.mem_filter.mpr ⟨hleased, decide_eq_true rfl⟩
    rcases hmoves leased.runId with ⟨hnone, -⟩ | ⟨intent, hintent, hdue, hone, hslot⟩
    · rw [hnone] at hmine
      exact absurd hmine List.not_mem_nil
    · rw [hone, List.mem_singleton] at hmine
      refine ⟨intent, hintent, hdue, ?_, hslot⟩
      calc leased.claim leased.token
          = (intent.lease (tokens leased.runId) query.leaseUntil).claim
              (intent.lease (tokens leased.runId) query.leaseUntil).token := by rw [← hmine]
        _ = intent.claim (tokens leased.runId) := rfl
  · intro id hid
    rw [hids] at hid
    rcases hmoves id with ⟨-, hpassed⟩ | ⟨intent, -, -, hone, -⟩
    · exact hpassed
    · have hmine : intent.lease (tokens id) query.leaseUntil ∈
          new.filter fun claim => claim.runId = id := by
        rw [hone]
        exact List.mem_singleton_self _
      obtain ⟨hleased, hsame⟩ := List.mem_filter.mp hmine
      exact absurd (List.mem_map.mpr ⟨_, hleased, of_decide_eq_true hsame⟩) hid

/-- An intent that is due is among those a claim visits. -/
theorem due_visited {mem : MemorySkeinStore J} {id : RunId} {now : Timestamp}
    (hdue : (mem.slot id).Due now) :
    ∃ intent ∈ mem.dispatches.values, intent.runId = id ∧
      ¬intent.Done (mem.terminal? intent.runId) ∧ ∀ lease ∈ intent.leaseUntil, lease ≤ now := by
  obtain ⟨intent, hintent, hlive, hfree⟩ := hdue
  have hget : mem.dispatches.get? id = some intent := hintent
  have hid : intent.runId = id := Table.key_of_get? hget
  subst hid
  exact ⟨intent, (Table.mem_values_iff _ _).mpr hget, rfl, hlive, hfree⟩

theorem claims_progress (mem : MemorySkeinStore J) (query : DispatchQuery)
    (tokens : RunId → String) {id : RunId} (hdue : (mem.slot id).Due query.now) :
    mem.claims query tokens ≠ [] := by
  obtain ⟨intent, hmem, -, hlive, hfree⟩ := due_visited hdue
  intro hnil
  exact claimEntries_progress query tokens _ mem hmem hlive hfree (List.map_eq_nil_iff.mp hnil)

theorem claims_complete (mem : MemorySkeinStore J) (query : DispatchQuery)
    (tokens : RunId → String) (hroom : mem.dispatches.size ≤ mem.claimLimit query) {id : RunId}
    (hdue : (mem.slot id).Due query.now) :
    id ∈ (mem.claims query tokens).map DispatchClaim.runId := by
  obtain ⟨intent, hmem, rfl, hlive, hfree⟩ := due_visited hdue
  have hlength : mem.dispatches.values.length = mem.dispatches.size := List.length_map _
  obtain ⟨claim, hclaim, hsame⟩ := claimEntries_complete query tokens mem.dispatches.values [] mem
    (by rw [List.length_nil, Nat.zero_add, hlength]; exact hroom) intent hmem hlive hfree
  rw [← hsame]
  exact List.mem_map.mpr ⟨_, List.mem_map_of_mem hclaim, rfl⟩

end MemorySkeinStore

/-- Rows found through their keys come in the order of the keys. -/
theorem sublist_filterMap_key {α β κ : Type*} {f : α → Option β} {key : α → κ} {key' : β → κ}
    (hf : ∀ a b, f a = some b → key' b = key a) {l : List α} :
    ((l.filterMap f).map key').Sublist (l.map key) := by
  induction l with
  | nil => exact List.Sublist.slnil
  | cons a l ih =>
    cases hfa : f a with
    | none =>
      rw [List.filterMap_cons_none hfa]
      exact ih.cons _
    | some b =>
      rw [List.filterMap_cons_some hfa, List.map_cons, List.map_cons, hf a b hfa]
      exact ih.cons_cons _

namespace PostgresStore
variable {J : Type*}

def terminal? (pg : PostgresStore J) (runId : RunId) : Option Bool :=
  (pg.runs.get? runId).map fun row => row.run.status.isTerminal

/-- What the dispatcher sees of one run. -/
def slot (pg : PostgresStore J) (runId : RunId) : DispatchSlot :=
  ⟨pg.terminal? runId, (pg.nativeDispatches.get? runId).map NativeDispatch.intent⟩

theorem intent_slot (pg : PostgresStore J) (runId : RunId) : (pg.slot runId).intent =
    (pg.nativeDispatches.get? runId).map NativeDispatch.intent := rfl

/-- The number of rows a claim may lease. -/
def claimLimit (pg : PostgresStore J) (query : DispatchQuery) : ℕ :=
  max 1 (min (pg.pageLimit (some (query.limit.getD 100))) 1000)

theorem mem_dueCancels {pg : PostgresStore J} {now : Timestamp} {row : NativeDispatch} :
    row ∈ pg.dueCancels now ↔ pg.nativeDispatches.get? row.runId = some row ∧
      row.kind = .cancel ∧ row.dispatched = false ∧ row.due now = true := by
  simp [dueCancels, Table.mem_values_iff, and_assoc]

theorem mem_dueRuns {pg : PostgresStore J} {now : Timestamp} {row : NativeDispatch} :
    row ∈ pg.dueRuns now ↔ pg.nativeDispatches.get? row.runId = some row ∧
      row.kind = .run ∧ pg.terminal? row.runId = some false ∧ row.due now = true := by
  simp only [dueRuns, List.mem_filterMap, List.mem_mergeSort, List.mem_filter,
    Table.mem_values_iff, Option.filter_eq_some_iff, Bool.and_eq_true, decide_eq_true_eq,
    Bool.not_eq_true', terminal?]
  constructor
  · rintro ⟨run, ⟨hrun, hactive⟩, hrow, hkind, hdue⟩
    have hid : row.runId = run.runId := Table.key_of_get? hrow
    rw [hid, hrun, Option.map_some, hactive]
    exact ⟨hrow, hkind, rfl, hdue⟩
  · rintro ⟨hrow, hkind, hterminal, hdue⟩
    obtain ⟨run, hrun, hactive⟩ := Option.map_eq_some_iff.mp hterminal
    have hid : run.runId = row.runId := Table.key_of_get? hrun
    exact ⟨run, ⟨hid ▸ hrun, hactive⟩, hid ▸ hrow, hkind, hdue⟩

/-- The rows a claim chooses from, each run once. -/
theorem nodup_due (pg : PostgresStore J) (now : Timestamp) :
    ((pg.dueCancels now ++ pg.dueRuns now).map NativeDispatch.runId).Nodup := by
  rw [List.map_append, List.nodup_append]
  refine ⟨?_, ?_, ?_⟩
  · have hperm := (List.mergeSort_perm (pg.nativeDispatches.values.filter fun row =>
      row.kind = .cancel && !row.dispatched && row.due now) NativeDispatch.leasedBefore).map
        NativeDispatch.runId
    exact hperm.nodup_iff.mpr
      (pg.nativeDispatches.nodup_map_key.sublist (List.filter_sublist.map _))
  · have hperm := (List.mergeSort_perm (pg.runs.values.filter fun row =>
      !row.run.status.isTerminal) RunRow.createdBefore).map RunRow.runId
    have hruns := hperm.nodup_iff.mpr (pg.runs.nodup_map_key.sublist (List.filter_sublist.map _))
    refine hruns.sublist (sublist_filterMap_key fun run row hrow => ?_)
    exact Table.key_of_get? (Option.filter_eq_some_iff.mp hrow).1
  · intro id hcancel id' hrun heq
    obtain ⟨row, hrow, rfl⟩ := List.mem_map.mp hcancel
    obtain ⟨row', hrow', rfl⟩ := List.mem_map.mp hrun
    obtain ⟨hget, hkind, -⟩ := mem_dueCancels.mp hrow
    obtain ⟨hget', hkind', -⟩ := mem_dueRuns.mp hrow'
    rw [← heq, hget] at hget'
    cases hget'
    rw [hkind] at hkind'
    cases hkind'

theorem claimed_unfold (pg : PostgresStore J) (query : DispatchQuery) :
    pg.claimed query =
      if ((pg.dueCancels query.now).take (pg.claimLimit query)).length < pg.claimLimit query then
        (pg.dueCancels query.now).take (pg.claimLimit query) ++ (pg.dueRuns query.now).take
          (pg.claimLimit query - ((pg.dueCancels query.now).take (pg.claimLimit query)).length)
      else (pg.dueCancels query.now).take (pg.claimLimit query) := rfl

theorem claimed_sublist (pg : PostgresStore J) (query : DispatchQuery) :
    (pg.claimed query).Sublist (pg.dueCancels query.now ++ pg.dueRuns query.now) := by
  rw [claimed_unfold]
  split_ifs
  · exact (List.take_sublist _ _).append (List.take_sublist _ _)
  · exact (List.take_sublist _ _).trans (List.sublist_append_left _ _)

theorem claimed_eq {pg : PostgresStore J} {query : DispatchQuery}
    (hroom : (pg.dueCancels query.now ++ pg.dueRuns query.now).length ≤ pg.claimLimit query) :
    pg.claimed query = pg.dueCancels query.now ++ pg.dueRuns query.now := by
  rw [List.length_append] at hroom
  have hcancels : (pg.dueCancels query.now).take (pg.claimLimit query) = pg.dueCancels query.now :=
    List.take_of_length_le (by omega)
  rw [claimed_unfold, hcancels]
  split_ifs with hless
  · rw [List.take_of_length_le (by omega)]
  · rw [List.length_eq_zero_iff.mp (by omega : (pg.dueRuns query.now).length = 0), List.append_nil]

/-- The rows a claim chooses from are those of the due slots. -/
theorem due_iff {pg : PostgresStore J} (hsound : pg.Sound) (id : RunId) (now : Timestamp) :
    (pg.slot id).Due now ↔ ∃ row ∈ pg.dueCancels now ++ pg.dueRuns now, row.runId = id := by
  have hfree : ∀ row : NativeDispatch,
      (∀ lease ∈ row.intent.leaseUntil, lease ≤ now) ↔ row.due now = true := by
    intro row
    change (∀ lease ∈ row.leaseUntil, lease ≤ now) ↔ row.leaseUntil.all (· ≤ now) = true
    cases row.leaseUntil <;> simp
  have hthere : ∀ row, pg.nativeDispatches.get? id = some row → pg.terminal? id ≠ none := by
    intro row hrow hnone
    have hthread := hsound.dispatches id row hrow
    rw [terminal?, Option.map_eq_none_iff] at hnone
    rw [threadOf, hnone] at hthread
    cases hthread
  simp only [List.mem_append]
  constructor
  · rintro ⟨intent, hintent, hlive, hlease⟩
    obtain ⟨row, hrow, rfl⟩ := Option.map_eq_some_iff.mp hintent
    have hid : row.runId = id := Table.key_of_get? hrow
    refine ⟨row, ?_, hid⟩
    rw [DispatchIntent.Done, not_or, not_or] at hlive
    cases hkind : row.kind with
    | cancel =>
      refine .inl (mem_dueCancels.mpr ⟨hid ▸ hrow, hkind, ?_, (hfree row).mp hlease⟩)
      cases hdispatched : row.dispatched with
      | false => rfl
      | true => exact absurd ⟨hkind, hdispatched⟩ hlive.2.2
    | run =>
      refine .inr (mem_dueRuns.mpr ⟨hid ▸ hrow, hkind, ?_, (hfree row).mp hlease⟩)
      rw [hid]
      cases hterminal : pg.terminal? id with
      | none => exact absurd hterminal (hthere row hrow)
      | some terminal =>
        cases terminal with
        | false => rfl
        | true => exact absurd ⟨hkind, hterminal⟩ hlive.2.1
  · rintro ⟨row, hrow, rfl⟩
    rcases hrow with hcancel | hrun
    · obtain ⟨hget, hkind, hpending, hdue⟩ := mem_dueCancels.mp hcancel
      refine ⟨row.intent, by simp [slot, hget], ?_, (hfree row).mpr hdue⟩
      rintro (hnone | ⟨hkind', -⟩ | ⟨-, hdispatched⟩)
      · exact hthere row hget hnone
      · rw [show row.intent.kind = row.kind from rfl, hkind] at hkind'
        cases hkind'
      · rw [show row.intent.dispatched = row.dispatched from rfl, hpending] at hdispatched
        cases hdispatched
    · obtain ⟨hget, hkind, hactive, hdue⟩ := mem_dueRuns.mp hrun
      refine ⟨row.intent, by simp [slot, hget], ?_, (hfree row).mpr hdue⟩
      rintro (hnone | ⟨-, hterminal⟩ | ⟨hkind', -⟩)
      · exact hthere row hget hnone
      · rw [show (pg.slot row.runId).terminal = pg.terminal? row.runId from rfl, hactive]
          at hterminal
        cases hterminal
      · rw [show row.intent.kind = row.kind from rfl, hkind] at hkind'
        cases hkind'

theorem leaseAll_get? (query : DispatchQuery) (tokens : RunId → String)
    (rows : List NativeDispatch) (pg : PostgresStore J) (k : RunId) :
    (leaseAll query tokens rows pg).nativeDispatches.get? k =
      if k ∈ rows.map NativeDispatch.runId then
        (pg.nativeDispatches.get? k).map (NativeDispatch.lease · (tokens k) query.leaseUntil)
      else pg.nativeDispatches.get? k := by
  unfold leaseAll
  induction rows generalizing pg with
  | nil => rfl
  | cons row rows ih =>
    have hupdate := Table.get?_update (f := (NativeDispatch.lease · (tokens row.runId)
      query.leaseUntil)) (fun _ => rfl) pg.nativeDispatches row.runId k
    rw [List.foldl_cons, ih]
    dsimp only
    rw [hupdate]
    by_cases hk : row.runId = k
    · subst hk
      rw [if_pos rfl, List.map_cons, if_pos List.mem_cons_self]
      split_ifs
      · rw [Option.map_map]
        rfl
      · rfl
    · simp only [if_neg hk, List.map_cons, List.mem_cons, Ne.symm hk, false_or]

theorem leaseAll_frame (query : DispatchQuery) (tokens : RunId → String)
    (rows : List NativeDispatch) (pg : PostgresStore J) :
    leaseAll query tokens rows pg = { pg with
      nativeDispatches := (leaseAll query tokens rows pg).nativeDispatches } := by
  unfold leaseAll
  induction rows generalizing pg with
  | nil => rfl
  | cons row rows ih =>
    rw [List.foldl_cons]
    exact ih _

theorem claims_ids (pg : PostgresStore J) (query : DispatchQuery) (tokens : RunId → String) :
    (pg.claimDispatches query tokens).1.map DispatchClaim.runId =
      (pg.claimed query).map NativeDispatch.runId := by
  simp [claimDispatches, Function.comp_def, NativeDispatch.claim]

/-- A row no claim returns stays as it is. -/
theorem claims_others (pg : PostgresStore J) (query : DispatchQuery) (tokens : RunId → String)
    {id : RunId}
    (hid : id ∉ (pg.claimDispatches query tokens).1.map DispatchClaim.runId) :
    (pg.claimDispatches query tokens).2.slot id = pg.slot id := by
  rw [claims_ids] at hid
  have hframe := leaseAll_frame query tokens (pg.claimed query) pg
  have hget := leaseAll_get? query tokens (pg.claimed query) pg id
  rw [if_neg hid] at hget
  have hruns : (pg.claimDispatches query tokens).2.runs = pg.runs := by
    rw [claimDispatches, hframe]
  unfold slot terminal?
  rw [hruns, claimDispatches, hget]

theorem claimLaw {pg : PostgresStore J} (hsound : pg.Sound) (query : DispatchQuery)
    (tokens : RunId → String) :
    ClaimLaw query tokens pg.slot (pg.claimDispatches query tokens).2.slot
      (pg.claimDispatches query tokens).1 where
  nodup := by
    rw [claims_ids]
    exact (pg.nodup_due query.now).sublist ((pg.claimed_sublist query).map _)
  returned := by
    intro claim hclaim
    obtain ⟨row, hrow, rfl⟩ := List.mem_map.mp hclaim
    have hchosen := (pg.claimed_sublist query).subset hrow
    have hget : pg.nativeDispatches.get? row.runId = some row := by
      rcases List.mem_append.mp hchosen with hcancel | hrun
      · exact (mem_dueCancels.mp hcancel).1
      · exact (mem_dueRuns.mp hrun).1
    have hid : (row.claim (tokens row.runId)).runId = row.runId := rfl
    rw [hid]
    refine ⟨row.intent, by simp [slot, hget], (due_iff hsound _ _).mpr ⟨row, hchosen, rfl⟩, rfl,
      ?_⟩
    have hleased := leaseAll_get? query tokens (pg.claimed query) pg row.runId
    rw [if_pos (List.mem_map_of_mem hrow), hget] at hleased
    have hframe := leaseAll_frame query tokens (pg.claimed query) pg
    have hruns : (pg.claimDispatches query tokens).2.runs = pg.runs := by
      rw [claimDispatches, hframe]
    unfold slot terminal?
    rw [hruns, claimDispatches, hleased]
    rfl
  others id hid := .inl (pg.claims_others query tokens hid)

theorem claims_progress {pg : PostgresStore J} (hsound : pg.Sound) (query : DispatchQuery)
    (tokens : RunId → String) {id : RunId} (hdue : (pg.slot id).Due query.now) :
    (pg.claimDispatches query tokens).1 ≠ [] := by
  obtain ⟨row, hrow, rfl⟩ := (due_iff hsound _ _).mp hdue
  have hlimit : 1 ≤ pg.claimLimit query := Nat.le_max_left _ _
  intro hnil
  have hclaimed : pg.claimed query = [] := List.map_eq_nil_iff.mp hnil
  rw [claimed_unfold] at hclaimed
  split_ifs at hclaimed with hless
  · obtain ⟨hcancels, hruns⟩ := List.append_eq_nil_iff.mp hclaimed
    rw [hcancels, List.length_nil, Nat.sub_zero, List.take_eq_nil_iff] at hruns
    rw [List.take_eq_nil_iff] at hcancels
    have hzero : pg.claimLimit query ≠ 0 := by omega
    rw [hcancels.resolve_left hzero, hruns.resolve_left hzero] at hrow
    exact absurd hrow List.not_mem_nil
  · rw [hclaimed] at hless
    exact hless hlimit

theorem claims_complete {pg : PostgresStore J} (hsound : pg.Sound) (query : DispatchQuery)
    (tokens : RunId → String)
    (hroom : (pg.dueCancels query.now ++ pg.dueRuns query.now).length ≤ pg.claimLimit query)
    {id : RunId} (hdue : (pg.slot id).Due query.now) :
    id ∈ (pg.claimDispatches query tokens).1.map DispatchClaim.runId := by
  obtain ⟨row, hrow, rfl⟩ := (due_iff hsound _ _).mp hdue
  rw [claims_ids, claimed_eq hroom]
  exact List.mem_map_of_mem hrow

end PostgresStore
end Skein
