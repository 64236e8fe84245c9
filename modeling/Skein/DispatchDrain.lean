import Mathlib.Data.Finset.Card
import Skein.DispatchClaims

/-!
# What later claims return

A driver whose claims meet `ClaimLaw` and return something when something is due. Claims
at one instant under leases that outlast it return every intent that is due then, however
few each of them returns; so what some later claim could return are the live intents.
-/
namespace Skein

/-- A driver as the dispatcher sees it. -/
structure DispatchSource (σ : Type*) where
  slot : σ → RunId → DispatchSlot
  claim : σ → DispatchQuery → (RunId → String) → List DispatchClaim × σ
  Valid : σ → Prop
  valid_claim : ∀ s query tokens, Valid s → Valid (claim s query tokens).2
  law : ∀ s query tokens, Valid s →
    ClaimLaw query tokens (slot s) (slot (claim s query tokens).2) (claim s query tokens).1
  progress : ∀ s query tokens id, Valid s → (slot s id).Due query.now →
    (claim s query tokens).1 ≠ []
  finite : ∀ s, ∃ ids : Finset RunId, ∀ id, (slot s id).intent ≠ none → id ∈ ids

theorem DispatchSlot.Due.live {s : DispatchSlot} {now : Timestamp} (h : s.Due now)
    {intent : DispatchIntent} (hintent : s.intent = some intent) :
    s.live? = some (intent.claim "") := by
  obtain ⟨due, hdue, hlive, -⟩ := h
  rw [hintent] at hdue
  cases hdue
  simp [live?, hintent, hlive]

namespace ClaimLaw
variable {query : DispatchQuery} {tokens : RunId → String} {slot slot' : RunId → DispatchSlot}
  {claims : List DispatchClaim}

/-- Claims leave the live intents as they are. -/
theorem live_eq (h : ClaimLaw query tokens slot slot' claims) (id : RunId) :
    (slot' id).live? = (slot id).live? := by
  by_cases hid : id ∈ claims.map DispatchClaim.runId
  · obtain ⟨claim, hclaim, rfl⟩ := List.mem_map.mp hid
    obtain ⟨intent, hintent, hdue, -, hslot⟩ := h.returned claim hclaim
    rw [hdue.live hintent, hslot]
    obtain ⟨due, hsame, hlive, -⟩ := hdue
    rw [hintent] at hsame
    cases hsame
    exact if_neg hlive
  · rcases h.others id hid with hkept | ⟨intent, hintent, hdone, hdropped⟩
    · rw [hkept]
    · rw [hdropped, DispatchSlot.live?, DispatchSlot.live?, hintent]
      exact (if_pos hdone).symm

/-- What a claim returns is live. -/
theorem live_of_mem (h : ClaimLaw query tokens slot slot' claims) {claim : DispatchClaim}
    (hclaim : claim ∈ claims) :
    (slot claim.runId).live? = some { claim with token := "" } := by
  obtain ⟨intent, hintent, hdue, heq, -⟩ := h.returned claim hclaim
  rw [hdue.live hintent]
  exact congrArg some (congrArg (fun claim => { claim with token := "" }) heq).symm

/-- Nothing becomes due, and what was returned is not due until its lease is over. -/
theorem due_after (h : ClaimLaw query tokens slot slot' claims) {id : RunId} {now : Timestamp}
    (hlease : now < query.leaseUntil) (hdue : (slot' id).Due now) :
    (slot id).Due now ∧ id ∉ claims.map DispatchClaim.runId := by
  have hid : id ∉ claims.map DispatchClaim.runId := by
    intro hid
    obtain ⟨claim, hclaim, rfl⟩ := List.mem_map.mp hid
    obtain ⟨intent, -, -, -, hslot⟩ := h.returned claim hclaim
    obtain ⟨leased, hleased, -, hfree⟩ := hdue
    rw [hslot] at hleased
    cases hleased
    exact absurd hlease (Nat.not_lt.mpr (hfree _ rfl))
  refine ⟨?_, hid⟩
  rcases h.others id hid with hkept | ⟨intent, -, -, hdropped⟩
  · exact hkept ▸ hdue
  · obtain ⟨due, hsome, -⟩ := hdue
    rw [hdropped] at hsome
    cases hsome

/-- What is due and not returned stays due. -/
theorem due_kept (h : ClaimLaw query tokens slot slot' claims) {id : RunId} {now : Timestamp}
    (hid : id ∉ claims.map DispatchClaim.runId) (hdue : (slot id).Due now) :
    (slot' id).Due now := by
  rcases h.others id hid with hkept | ⟨intent, hintent, hdone, -⟩
  · exact hkept ▸ hdue
  · obtain ⟨due, hsome, hlive, -⟩ := hdue
    rw [hintent] at hsome
    cases hsome
    exact absurd hdone hlive

end ClaimLaw

namespace DispatchSource
variable {σ : Type*} (source : DispatchSource σ)

/-- The state after a row of claims. -/
def afterClaims (s : σ) (earlier : List (DispatchQuery × (RunId → String))) : σ :=
  earlier.foldl (fun s call => (source.claim s call.1 call.2).2) s

/-- Some later claim, after others, returns this intent; `claim` is without its token. -/
def CouldClaim (s : σ) (claim : DispatchClaim) : Prop :=
  ∃ earlier query tokens,
    ∃ returned ∈ (source.claim (source.afterClaims s earlier) query tokens).1,
      claim = { returned with token := "" }

variable {source}

theorem afterClaims_valid {s : σ} (h : source.Valid s)
    (earlier : List (DispatchQuery × (RunId → String))) :
    source.Valid (source.afterClaims s earlier) := by
  unfold afterClaims
  induction earlier generalizing s with
  | nil => exact h
  | cons call rest ih => exact ih (source.valid_claim s call.1 call.2 h)

theorem afterClaims_live {s : σ} (h : source.Valid s)
    (earlier : List (DispatchQuery × (RunId → String))) (id : RunId) :
    (source.slot (source.afterClaims s earlier) id).live? = (source.slot s id).live? := by
  unfold afterClaims
  induction earlier generalizing s with
  | nil => rfl
  | cons call rest ih =>
    rw [List.foldl_cons, ih (source.valid_claim s call.1 call.2 h)]
    exact (source.law s call.1 call.2 h).live_eq id

/-- A claim at `now` whose leases outlast it. -/
def drainQuery (now : Timestamp) : DispatchQuery where
  now := now
  leaseUntil := now + 1

/-- Claims at one instant return all that is due. -/
theorem drains (ids : Finset RunId) (now : Timestamp) (n : ℕ) {s : σ} (h : source.Valid s)
    (hids : ∀ id, (source.slot s id).Due now → id ∈ ids) (hcard : ids.card ≤ n) {id : RunId}
    (hdue : (source.slot s id).Due now) :
    ∃ earlier tokens, id ∈ (source.claim (source.afterClaims s earlier) (drainQuery now)
      tokens).1.map DispatchClaim.runId := by
  induction n generalizing ids s with
  | zero =>
    rw [Finset.card_eq_zero.mp (Nat.le_zero.mp hcard)] at hids
    exact absurd (hids id hdue) (Finset.notMem_empty id)
  | succ n ih =>
    have hlaw := source.law s (drainQuery now) (fun _ => "") h
    by_cases hid : id ∈ (source.claim s (drainQuery now) fun _ => "").1.map DispatchClaim.runId
    · exact ⟨[], fun _ => "", hid⟩
    obtain ⟨claim, hclaim⟩ := List.exists_mem_of_ne_nil _
      (source.progress s (drainQuery now) (fun _ => "") id h hdue)
    obtain ⟨intent, -, hfirst, -⟩ := hlaw.returned claim hclaim
    have hlater : now < (drainQuery now).leaseUntil := Nat.lt_succ_self now
    have hrest : ∀ other, (source.slot (source.claim s (drainQuery now) fun _ => "").2 other).Due
        now → other ∈ ids.erase claim.runId := by
      intro other hother
      obtain ⟨hbefore, hnot⟩ := hlaw.due_after hlater hother
      refine Finset.mem_erase.mpr ⟨?_, hids other hbefore⟩
      rintro rfl
      exact hnot (List.mem_map_of_mem hclaim)
    have hfewer : (ids.erase claim.runId).card ≤ n := by
      rw [Finset.card_erase_of_mem (hids claim.runId hfirst)]
      omega
    obtain ⟨earlier, tokens, hreturned⟩ := ih (ids.erase claim.runId)
      (source.valid_claim s (drainQuery now) (fun _ => "") h) hrest hfewer (hlaw.due_kept hid hdue)
    exact ⟨(drainQuery now, fun _ => "") :: earlier, tokens, hreturned⟩

/-- What some later claim could return are the live intents. -/
theorem couldClaim_iff {s : σ} (h : source.Valid s) (claim : DispatchClaim) :
    source.CouldClaim s claim ↔ (source.slot s claim.runId).live? = some claim := by
  constructor
  · rintro ⟨earlier, query, tokens, returned, hreturned, rfl⟩
    have hlive := (source.law _ query tokens (afterClaims_valid h earlier)).live_of_mem hreturned
    rw [afterClaims_live h earlier] at hlive
    exact hlive
  · intro hlive
    obtain ⟨intent, hintent, hclaim⟩ := Option.bind_eq_some_iff.mp hlive
    split_ifs at hclaim with hdone
    obtain ⟨ids, hids⟩ := source.finite s
    have hdue : (source.slot s claim.runId).Due (intent.leaseUntil.getD 0) := by
      refine ⟨intent, hintent, hdone, fun lease hlease => ?_⟩
      rw [Option.mem_def.mp hlease]
      exact Nat.le_refl lease
    obtain ⟨earlier, tokens, hid⟩ := drains ids (intent.leaseUntil.getD 0) ids.card h
      (fun id hdue => hids id fun hnone => by
        obtain ⟨due, hsome, -⟩ := hdue
        rw [hnone] at hsome
        cases hsome) (Nat.le_refl _) hdue
    obtain ⟨returned, hreturned, hsame⟩ := List.mem_map.mp hid
    refine ⟨earlier, _, tokens, returned, hreturned, ?_⟩
    have hreturnedLive := (source.law _ _ tokens (afterClaims_valid h earlier)).live_of_mem
      hreturned
    rw [afterClaims_live h earlier] at hreturnedLive
    have hsameLive : (source.slot s returned.runId).live? = some claim := hsame ▸ hlive
    exact Option.some.inj (hsameLive.symm.trans hreturnedLive)

end DispatchSource
end Skein
