import Skein.AdmissionLaws

/-!
# Dispatch intents

`claimDispatches` and `markDispatched`, and what every operation of the store does to
the intent of one run. `SlotMove` is the life of an intent as the dispatcher sees it: it
is issued and replaced by admissions, leased, acknowledged and collected.
-/
namespace Skein

/-- The argument of `claimDispatches`. -/
structure DispatchQuery where
  now : Timestamp
  leaseUntil : Timestamp
  limit : Option ℕ := none
  deriving DecidableEq, Repr

/-- An intent a claim removes instead of leasing it. -/
def DispatchIntent.Done (intent : DispatchIntent) (terminal : Option Bool) : Prop :=
  terminal = none ∨ (intent.kind = .run ∧ terminal = some true) ∨
    (intent.kind = .cancel ∧ intent.dispatched = true)

instance (intent : DispatchIntent) (terminal : Option Bool) : Decidable (intent.Done terminal) :=
  inferInstanceAs (Decidable (_ ∨ _ ∧ _ ∨ _ ∧ _))

/-- The lease of a claim. -/
def DispatchIntent.lease (intent : DispatchIntent) (token : String) (leaseUntil : Timestamp) :
    DispatchIntent :=
  { intent with token, leaseUntil := some leaseUntil }

namespace MemorySkeinStore
variable {J : Type*}

/-- Whether the row of a run is terminal; `none` without a row. -/
def terminal? (store : MemorySkeinStore J) (runId : RunId) : Option Bool :=
  (store.runs.get? runId).map fun run => run.status.isTerminal

/-- The loop of `claimDispatches` over the intents it has still to visit; `tokens` is what
`randomUUID` produces for each. -/
def claimEntries (query : DispatchQuery) (tokens : RunId → String) :
    List DispatchIntent → List DispatchIntent → MemorySkeinStore J →
      List DispatchIntent × MemorySkeinStore J
  | [], claimed, store => (claimed, store)
  | intent :: rest, claimed, store =>
    if intent.Done (store.terminal? intent.runId) then
      claimEntries query tokens rest claimed
        { store with dispatches := store.dispatches.erase intent.runId }
    else if intent.leaseUntil.any (query.now < ·) then claimEntries query tokens rest claimed store
    else if max 1 (min (store.pageLimit query.limit) 1000) ≤ claimed.length then (claimed, store)
    else
      let leased := intent.lease (tokens intent.runId) query.leaseUntil
      claimEntries query tokens rest (claimed ++ [leased])
        { store with dispatches := store.dispatches.write leased }

/-- `admission.claimDispatches`. -/
def claimDispatches (store : MemorySkeinStore J) (query : DispatchQuery) (tokens : RunId → String) :
    List DispatchIntent × MemorySkeinStore J :=
  claimEntries query tokens store.dispatches.values [] store

theorem claimEntries_frame (query : DispatchQuery)
    (tokens : RunId → String) (entries claimed : List DispatchIntent)
    (mem : MemorySkeinStore J) :
    (claimEntries query tokens entries claimed mem).2 = { mem with
      dispatches := (claimEntries query tokens entries claimed mem).2.dispatches } := by
  induction entries generalizing claimed mem with
  | nil => rfl
  | cons intent rest ih =>
    unfold claimEntries
    split_ifs
    · exact ih _ _
    · exact ih _ _
    · rfl
    · exact ih _ _

/-- `admission.markDispatched`. -/
def markDispatched (store : MemorySkeinStore J) (runId : RunId) (token : String) :
    MemorySkeinStore J :=
  match store.dispatches.get? runId with
  | none => store
  | some intent =>
    if intent.token = token then
      { store with dispatches := store.dispatches.write { intent with dispatched := true } }
    else store

end MemorySkeinStore

/-- What the dispatcher sees of one run. -/
structure DispatchSlot where
  terminal : Option Bool
  intent : Option DispatchIntent

/-- An intent as `#dispatch` creates it. -/
structure DispatchIntent.Issued (intent : DispatchIntent) (kind : DispatchKind) : Prop where
  kind : intent.kind = kind
  token : intent.token = ""
  leaseUntil : intent.leaseUntil = none
  dispatched : intent.dispatched = false

/-- What can happen to a slot. -/
inductive SlotEvent
  | kept | settled | cancelled | admitted | deleted | collected
  | leased (now leaseUntil : Timestamp) (token : String)
  | acknowledged (token : String)

inductive SlotMove : SlotEvent → DispatchSlot → DispatchSlot → Prop
  | kept (s : DispatchSlot) : SlotMove .kept s s
  | settled (intent : Option DispatchIntent) :
      SlotMove .settled ⟨some false, intent⟩ ⟨some true, intent⟩
  | cancelled {intent : DispatchIntent} (old : Option DispatchIntent) (h : intent.Issued .cancel) :
      SlotMove .cancelled ⟨some false, old⟩ ⟨some true, some intent⟩
  | admitted {intent : DispatchIntent} (old : Option DispatchIntent) (terminal : Bool)
      (h : intent.Issued .run) : SlotMove .admitted ⟨none, old⟩ ⟨some terminal, some intent⟩
  | deleted (s : DispatchSlot) : SlotMove .deleted s ⟨none, none⟩
  | collected {intent : DispatchIntent} {terminal : Option Bool} (h : intent.Done terminal) :
      SlotMove .collected ⟨terminal, some intent⟩ ⟨terminal, none⟩
  | leased {intent : DispatchIntent} {terminal : Option Bool} {now : Timestamp}
      (leaseUntil : Timestamp) (token : String) (hlive : ¬intent.Done terminal)
      (hfree : ∀ lease ∈ intent.leaseUntil, lease ≤ now) :
      SlotMove (.leased now leaseUntil token) ⟨terminal, some intent⟩
        ⟨terminal, some (intent.lease token leaseUntil)⟩
  | acknowledged (intent : DispatchIntent) (terminal : Option Bool) :
      SlotMove (.acknowledged intent.token) ⟨terminal, some intent⟩
        ⟨terminal, some { intent with dispatched := true }⟩

namespace MemorySkeinStore
variable {J : Type*}

def slot (store : MemorySkeinStore J) (runId : RunId) : DispatchSlot :=
  ⟨store.terminal? runId, store.dispatches.get? runId⟩

theorem intent_slot (store : MemorySkeinStore J) (runId : RunId) :
    (store.slot runId).intent = store.dispatches.get? runId := rfl

/-- What a claim does to the slot of one run, and what it returns for it. -/
inductive ClaimMove (query : DispatchQuery) (token : String) (s s' : DispatchSlot) :
    List DispatchIntent → Prop
  | passed (event : SlotEvent) (hevent : event = .kept ∨ event = .collected)
      (hmove : SlotMove event s s') : ClaimMove query token s s' []
  | leased (claim : DispatchIntent) (hclaim : s'.intent = some claim)
      (hmove : SlotMove (.leased query.now query.leaseUntil token) s s') :
      ClaimMove query token s s' [claim]

theorem slot_erase (store : MemorySkeinStore J) (runId k : RunId) :
    ({ store with dispatches := store.dispatches.erase runId } : MemorySkeinStore J).slot k =
      ⟨store.terminal? k, if runId = k then none else store.dispatches.get? k⟩ := by
  simp only [slot, Table.get?_erase]
  rfl

theorem slot_write (store : MemorySkeinStore J) (intent : DispatchIntent) (k : RunId) :
    ({ store with dispatches := store.dispatches.write intent } : MemorySkeinStore J).slot k =
      ⟨store.terminal? k, if intent.runId = k then some intent else store.dispatches.get? k⟩ := by
  simp only [slot, Table.get?_write]
  rfl

/-- What the loop of a claim does where it visits the intents of the runs `ids`. -/
structure ClaimSpec (query : DispatchQuery) (tokens : RunId → String) (ids : List RunId)
    (store : MemorySkeinStore J) (new : List DispatchIntent) (store' : MemorySkeinStore J) :
    Prop where
  runs : store'.runs = store.runs
  visited : ∀ claim ∈ new, claim.runId ∈ ids
  kept : ∀ k, k ∉ ids → store'.slot k = store.slot k
  moves : ∀ k, ClaimMove query (tokens k) (store.slot k) (store'.slot k)
    (new.filter fun claim => claim.runId = k)

namespace ClaimSpec
variable {query : DispatchQuery} {tokens : RunId → String} {ids : List RunId}
  {store mid store' : MemorySkeinStore J} {new : List DispatchIntent} {id : RunId}

theorem stop (ids : List RunId) (store : MemorySkeinStore J) :
    ClaimSpec query tokens ids store [] store where
  runs := rfl
  visited := by simp
  kept _ _ := rfl
  moves k := .passed .kept (.inl rfl) (.kept _)

/-- One more visited intent in front. -/
theorem cons (mine : List DispatchIntent) (h : ClaimSpec query tokens ids mid new store')
    (hid : id ∉ ids)
    (hruns : mid.runs = store.runs) (hother : ∀ k, k ≠ id → mid.slot k = store.slot k)
    (hmine : ∀ claim ∈ mine, claim.runId = id)
    (hmove : ClaimMove query (tokens id) (store.slot id) (mid.slot id) mine) :
    ClaimSpec query tokens (id :: ids) store (mine ++ new) store' where
  runs := h.runs.trans hruns
  visited := by
    intro claim hclaim
    rcases List.mem_append.mp hclaim with hclaim | hclaim
    · exact List.mem_cons.mpr (.inl (hmine claim hclaim))
    · exact List.mem_cons_of_mem id (h.visited claim hclaim)
  kept := by
    intro k hk
    rw [List.mem_cons, not_or] at hk
    rw [h.kept k hk.2, hother k hk.1]
  moves := by
    intro k
    rw [List.filter_append]
    by_cases hk : k = id
    · have hfirst : (mine.filter fun claim => claim.runId = k) = mine :=
        List.filter_eq_self.mpr fun claim hclaim => by simp [hk, hmine claim hclaim]
      have hrest : (new.filter fun claim => claim.runId = k) = [] := by
        apply List.filter_eq_nil_iff.mpr
        intro claim hclaim
        have hvisited := h.visited claim hclaim
        simp only [decide_eq_true_eq]
        rintro rfl
        exact hid (hk ▸ hvisited)
      rw [hfirst, hrest, List.append_nil, hk, h.kept id hid]
      exact hmove
    · have hfirst : (mine.filter fun claim => claim.runId = k) = [] := by
        apply List.filter_eq_nil_iff.mpr
        intro claim hclaim
        simpa [hmine claim hclaim] using Ne.symm hk
      rw [hfirst, List.nil_append, ← hother k hk]
      exact h.moves k

end ClaimSpec

theorem claimEntries_spec (query : DispatchQuery) (tokens : RunId → String)
    {entries : List DispatchIntent} (hnodup : (entries.map DispatchIntent.runId).Nodup)
    (claimed : List DispatchIntent) (store : MemorySkeinStore J)
    (hstored : ∀ intent ∈ entries, store.dispatches.get? intent.runId = some intent) :
    ∃ new, (claimEntries query tokens entries claimed store).1 = claimed ++ new ∧
      ClaimSpec query tokens (entries.map DispatchIntent.runId) store new
        (claimEntries query tokens entries claimed store).2 := by
  induction entries generalizing claimed store with
  | nil => exact ⟨[], by simp [claimEntries], .stop [] store⟩
  | cons intent rest ih =>
    obtain ⟨hid, hrest⟩ := List.nodup_cons.mp hnodup
    have hintent := hstored intent List.mem_cons_self
    have hslot : store.slot intent.runId = ⟨store.terminal? intent.runId, some intent⟩ := by
      rw [slot, hintent]
    have hapart : ∀ later ∈ rest, intent.runId ≠ later.runId := by
      intro later hlater heq
      exact hid (heq ▸ List.mem_map_of_mem hlater)
    have hlater : ∀ later ∈ rest, store.dispatches.get? later.runId = some later :=
      fun later h => hstored later (List.mem_cons_of_mem intent h)
    simp only [claimEntries, List.map_cons]
    split_ifs with hdone hheld hfull
    · obtain ⟨new, hnew, hspec⟩ := ih hrest claimed { store with
        dispatches := store.dispatches.erase intent.runId } fun later h => by
          rw [Table.get?_erase, if_neg (hapart later h), hlater later h]
      refine ⟨new, hnew, hspec.cons [] hid rfl ?_ (by simp) ?_⟩
      · intro k hk
        rw [slot_erase, if_neg (Ne.symm hk)]
        rfl
      · rw [slot_erase, if_pos rfl, hslot]
        exact .passed .collected (.inr rfl) (.collected hdone)
    · obtain ⟨new, hnew, hspec⟩ := ih hrest claimed store hlater
      exact ⟨new, hnew, hspec.cons [] hid rfl (fun _ _ => rfl) (by simp)
        (.passed .kept (.inl rfl) (.kept _))⟩
    · exact ⟨[], by simp, .stop _ store⟩
    · have hleased : (intent.lease (tokens intent.runId) query.leaseUntil).runId = intent.runId :=
        rfl
      obtain ⟨new, hnew, hspec⟩ := ih hrest
        (claimed ++ [intent.lease (tokens intent.runId) query.leaseUntil]) { store with
          dispatches := store.dispatches.write
            (intent.lease (tokens intent.runId) query.leaseUntil) } fun later h => by
          rw [Table.get?_write, hleased, if_neg (hapart later h), hlater later h]
      refine ⟨intent.lease (tokens intent.runId) query.leaseUntil :: new, ?_,
        hspec.cons [intent.lease (tokens intent.runId) query.leaseUntil] hid rfl ?_ ?_ ?_⟩
      · rw [hnew, List.append_assoc, List.singleton_append]
      · intro k hk
        rw [slot_write, hleased, if_neg (Ne.symm hk)]
        rfl
      · simp [hleased]
      · have hfree : ∀ lease ∈ intent.leaseUntil, lease ≤ query.now := by
          intro lease hlease
          rw [Option.mem_def.mp hlease] at hheld
          simpa using hheld
        rw [slot_write, hleased, if_pos rfl, hslot]
        exact .leased _ rfl (.leased _ _ hdone hfree)

theorem claimDispatches_spec (store : MemorySkeinStore J) (query : DispatchQuery)
    (tokens : RunId → String) :
    ClaimSpec query tokens (store.dispatches.values.map DispatchIntent.runId) store
      (store.claimDispatches query tokens).1 (store.claimDispatches query tokens).2 := by
  obtain ⟨new, hnew, hspec⟩ := claimEntries_spec query tokens store.dispatches.nodup_map_key []
    store fun intent h => (Table.mem_values_iff _ _).mp h
  have hclaims : (store.claimDispatches query tokens).1 = new := by
    rw [claimDispatches, hnew, List.nil_append]
  rw [hclaims]
  exact hspec

theorem markDispatched_slot (store : MemorySkeinStore J) (runId : RunId) (token : String)
    (k : RunId) :
    ∃ event, SlotMove event (store.slot k) ((store.markDispatched runId token).slot k) ∧
      (event = .kept ∨ event = .acknowledged token ∧ k = runId) := by
  unfold markDispatched
  cases hintent : store.dispatches.get? runId with
  | none => exact ⟨.kept, .kept _, .inl rfl⟩
  | some intent =>
    have hid : intent.runId = runId := Table.key_of_get? hintent
    dsimp only
    split_ifs with htoken
    · by_cases hk : k = runId
      · refine ⟨.acknowledged token, ?_, .inr ⟨rfl, hk⟩⟩
        have hslot : store.slot k = ⟨store.terminal? k, some intent⟩ := by
          rw [slot, hk, hintent]
        rw [slot_write, if_pos (hid.trans hk.symm), hslot, ← htoken]
        exact .acknowledged intent _
      · refine ⟨.kept, ?_, .inl rfl⟩
        rw [slot_write, if_neg (fun h => hk (h.symm.trans hid))]
        exact .kept _
    · exact ⟨.kept, .kept _, .inl rfl⟩

end MemorySkeinStore
end Skein
