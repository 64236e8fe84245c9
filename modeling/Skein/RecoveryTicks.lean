import Skein.DispatchDrain
import Skein.ServiceRounds

/-!
# The ticks of the recovery

A tick of the recovery claims a page of intents under leases of half a minute, dispatches
each and acknowledges those whose dispatch went through. A driver claims the head of a
queue of its due intents; what a tick claims is held until its lease is over, and
what it leaves behind stays due.
-/
namespace Skein

/-- The lease of a recovery claim, in milliseconds. -/
def recoveryLease : ℕ := 30000

/-- The period of the recovery's timer, in milliseconds. -/
def recoveryInterval : ℕ := 1000

/-- One tick: its clock, the tokens it draws and the claims whose dispatch succeeds. -/
structure RecoveryTick where
  now : Timestamp
  tokens : RunId → String
  dispatches : DispatchClaim → Bool

/-- A driver as the recovery sees it: `queue` are the runs of its due intents in the order
in which it claims them, `page` is what it makes of a limit. -/
structure RecoverySource (σ : Type*) extends DispatchSource σ where
  markDispatched : σ → RunId → String → σ
  queue : σ → Timestamp → List RunId
  page : σ → ℕ → ℕ
  nodup_queue : ∀ s now, Valid s → (queue s now).Nodup
  mem_queue : ∀ s now id, Valid s → (id ∈ queue s now ↔ (slot s id).Due now)
  claim_queue : ∀ s now leaseUntil limit tokens, Valid s →
    (claim s ⟨now, leaseUntil, some limit⟩ tokens).1.map DispatchClaim.runId =
      (queue s now).take (page s limit)
  page_le : ∀ s limit, 1 ≤ limit → page s limit ≤ limit
  page_claim : ∀ s query tokens limit, page (claim s query tokens).2 limit = page s limit
  page_mark : ∀ s runId token limit, page (markDispatched s runId token) limit = page s limit
  valid_mark : ∀ s runId token, Valid s → Valid (markDispatched s runId token)
  mark_slot : ∀ s runId token id, slot (markDispatched s runId token) id = slot s id ∨
    id = runId ∧ ∃ intent, (slot s id).intent = some intent ∧
      slot (markDispatched s runId token) id =
        ⟨(slot s id).terminal, some { intent with dispatched := true }⟩

namespace RecoverySource
variable {σ : Type*} (source : RecoverySource σ)

/-- The loop of a tick over its claims: `markDispatched` follows a dispatch that succeeds. -/
def acknowledge (dispatches : DispatchClaim → Bool) (claims : List DispatchClaim) (s : σ) : σ :=
  claims.foldl
    (fun s claim =>
      if dispatches claim then source.markDispatched s claim.runId claim.token else s) s

/-- `tick`, with the runs it claims. -/
def tick (limit : ℕ) (s : σ) (t : RecoveryTick) : List RunId × σ :=
  let claimed := source.claim s ⟨t.now, t.now + recoveryLease, some limit⟩ t.tokens
  (claimed.1.map DispatchClaim.runId, source.acknowledge t.dispatches claimed.1 claimed.2)

/-- The runs that successive ticks claim. -/
def rounds (limit : ℕ) : σ → List RecoveryTick → List (List RunId)
  | _, [] => []
  | s, t :: ts => (source.tick limit s t).1 :: rounds limit (source.tick limit s t).2 ts

/-- The state after successive ticks. -/
def afterTicks (limit : ℕ) (s : σ) (ts : List RecoveryTick) : σ :=
  ts.foldl (fun s t => (source.tick limit s t).2) s

variable {source}

theorem acknowledge_keeps {P : σ → Prop}
    (hmark : ∀ s runId token, P s → P (source.markDispatched s runId token))
    {dispatches : DispatchClaim → Bool} {claims : List DispatchClaim} {s : σ} (h : P s) :
    P (source.acknowledge dispatches claims s) := by
  unfold acknowledge
  induction claims generalizing s with
  | nil => exact h
  | cons claim claims ih =>
    rw [List.foldl_cons]
    split_ifs
    · exact ih (hmark s claim.runId claim.token h)
    · exact ih h

theorem acknowledge_page (dispatches : DispatchClaim → Bool) (claims : List DispatchClaim)
    (s : σ) (limit : ℕ) :
    source.page (source.acknowledge dispatches claims s) limit = source.page s limit := by
  unfold acknowledge
  induction claims generalizing s with
  | nil => rfl
  | cons claim claims ih =>
    rw [List.foldl_cons, ih]
    split_ifs
    · exact source.page_mark s claim.runId claim.token limit
    · rfl

variable (source) in
/-- An acknowledgement at most ticks off the intent of a claimed run. -/
theorem acknowledge_slot (dispatches : DispatchClaim → Bool) (claims : List DispatchClaim)
    (s : σ) (id : RunId) :
    source.slot (source.acknowledge dispatches claims s) id = source.slot s id ∨
      id ∈ claims.map DispatchClaim.runId ∧ ∃ intent, (source.slot s id).intent = some intent ∧
        source.slot (source.acknowledge dispatches claims s) id =
          ⟨(source.slot s id).terminal, some { intent with dispatched := true }⟩ := by
  unfold acknowledge
  induction claims generalizing s with
  | nil => exact .inl rfl
  | cons claim claims ih =>
    rw [List.foldl_cons]
    split_ifs
    · rcases source.mark_slot s claim.runId claim.token id with
        hkept | ⟨rfl, intent, hintent, hmarked⟩
      · rcases ih (source.markDispatched s claim.runId claim.token) with hrest | ⟨hmem, hrest⟩
        · exact .inl (hrest.trans hkept)
        · rw [hkept] at hrest
          exact .inr ⟨List.mem_cons_of_mem _ hmem, hrest⟩
      · rcases ih (source.markDispatched s claim.runId claim.token) with
          hrest | ⟨-, other, hother, hrest⟩
        · exact .inr ⟨List.mem_cons_self, intent, hintent, hrest.trans hmarked⟩
        · rw [hmarked] at hother hrest
          cases hother
          exact .inr ⟨List.mem_cons_self, intent, hintent, hrest⟩
    · rcases ih s with hrest | ⟨hmem, hrest⟩
      · exact .inl hrest
      · exact .inr ⟨List.mem_cons_of_mem _ hmem, hrest⟩

variable (source) in
theorem acknowledge_nothing {dispatches : DispatchClaim → Bool} (claims : List DispatchClaim)
    (s : σ) (h : ∀ claim, dispatches claim = false) :
    source.acknowledge dispatches claims s = s := by
  unfold acknowledge
  induction claims with
  | nil => rfl
  | cons claim claims ih => simpa [h claim] using ih

theorem tick_valid {limit : ℕ} {s : σ} (h : source.Valid s) (t : RecoveryTick) :
    source.Valid (source.tick limit s t).2 :=
  acknowledge_keeps source.valid_mark (source.valid_claim s _ _ h)

/-- What claims and acknowledgements preserve, ticks preserve. -/
theorem tick_keeps {limit : ℕ} {P : σ → Prop}
    (hclaim : ∀ s query tokens, source.Valid s → P s → P (source.claim s query tokens).2)
    (hmark : ∀ s runId token, P s → P (source.markDispatched s runId token)) (s : σ)
    (t : RecoveryTick) (hvalid : source.Valid s) (h : P s) : P (source.tick limit s t).2 :=
  acknowledge_keeps hmark (hclaim s ⟨t.now, t.now + recoveryLease, some limit⟩ t.tokens hvalid h)

@[simp] theorem tick_page (limit : ℕ) (s : σ) (t : RecoveryTick) :
    source.page (source.tick limit s t).2 limit = source.page s limit := by
  unfold tick
  rw [acknowledge_page, source.page_claim]

theorem tick_claims {limit : ℕ} {s : σ} (h : source.Valid s) (t : RecoveryTick) :
    (source.tick limit s t).1 = (source.queue s t.now).take (source.page s limit) :=
  source.claim_queue s t.now _ limit t.tokens h

/-- What a tick does to the slot of a run it does not claim. -/
theorem tick_others {limit : ℕ} {s : σ} (h : source.Valid s) {t : RecoveryTick} {id : RunId}
    (hid : id ∉ (source.tick limit s t).1) :
    source.slot (source.tick limit s t).2 id = source.slot s id ∨
      ∃ intent, (source.slot s id).intent = some intent ∧
        intent.Done (source.slot s id).terminal ∧
        source.slot (source.tick limit s t).2 id = ⟨(source.slot s id).terminal, none⟩ := by
  have hack := acknowledge_slot source t.dispatches
    (source.claim s ⟨t.now, t.now + recoveryLease, some limit⟩ t.tokens).1
    (source.claim s ⟨t.now, t.now + recoveryLease, some limit⟩ t.tokens).2 id
  have hkept := hack.resolve_right fun hmarked => hid hmarked.1
  have hlaw := source.law s ⟨t.now, t.now + recoveryLease, some limit⟩ t.tokens h
  unfold tick
  rw [hkept]
  exact hlaw.others id hid

/-- A claimed intent was due and is leased, and perhaps acknowledged. -/
theorem tick_claimed {limit : ℕ} {s : σ} (h : source.Valid s) {t : RecoveryTick} {id : RunId}
    (hid : id ∈ (source.tick limit s t).1) :
    ∃ intent dispatched, (source.slot s id).intent = some intent ∧
      ¬intent.Done (source.slot s id).terminal ∧
      (dispatched = intent.dispatched ∨ (∃ claim, t.dispatches claim = true) ∧ dispatched = true) ∧
      source.slot (source.tick limit s t).2 id = ⟨(source.slot s id).terminal,
        some { intent.lease (t.tokens id) (t.now + recoveryLease) with dispatched }⟩ := by
  have hack := acknowledge_slot source t.dispatches
    (source.claim s ⟨t.now, t.now + recoveryLease, some limit⟩ t.tokens).1
    (source.claim s ⟨t.now, t.now + recoveryLease, some limit⟩ t.tokens).2 id
  have hlaw := source.law s ⟨t.now, t.now + recoveryLease, some limit⟩ t.tokens h
  obtain ⟨claim, hclaim, rfl⟩ := List.mem_map.mp hid
  obtain ⟨intent, hintent, ⟨due, hsame, hlive, -⟩, -, hslot⟩ := hlaw.returned claim hclaim
  obtain rfl : intent = due := Option.some.inj (hintent.symm.trans hsame)
  by_cases hsome : ∃ claim, t.dispatches claim = true
  · rcases hack with hkept | ⟨-, marked, hmarked, hslot'⟩
    · refine ⟨intent, intent.dispatched, hintent, hlive, .inl rfl, ?_⟩
      exact hkept.trans hslot
    · rw [hslot] at hmarked hslot'
      cases hmarked
      exact ⟨intent, true, hintent, hlive, .inr ⟨hsome, rfl⟩, hslot'⟩
  · have hnone : ∀ claim, t.dispatches claim = false := by simpa using hsome
    refine ⟨intent, intent.dispatched, hintent, hlive, .inl rfl, ?_⟩
    have hnothing := acknowledge_nothing source
      (source.claim s ⟨t.now, t.now + recoveryLease, some limit⟩ t.tokens).1
      (source.claim s ⟨t.now, t.now + recoveryLease, some limit⟩ t.tokens).2 hnone
    exact (congrArg (source.slot · claim.runId) hnothing).trans hslot

/-- The intent of a run waits: it is live, and any lease it has ends by `start`. -/
def Waiting (source : RecoverySource σ) (s : σ) (start : Timestamp) (id : RunId) : Prop :=
  (source.slot s id).Due start

/-- The intent of a run, if a claim could return it, is leased to the end of a lease taken at
`start`, or longer. -/
def HeldFrom (source : RecoverySource σ) (s : σ) (start : Timestamp) (id : RunId) : Prop :=
  ∀ intent, (source.slot s id).intent = some intent → ¬intent.Done (source.slot s id).terminal →
    ∃ lease ∈ intent.leaseUntil, start + recoveryLease ≤ lease

/-- The intents of `pending` wait since `start`; every other one is held. -/
structure Backlog (source : RecoverySource σ) (s : σ) (start : Timestamp)
    (pending : Finset RunId) : Prop where
  waiting : ∀ id ∈ pending, source.Waiting s start id
  held : ∀ id, id ∉ pending → source.HeldFrom s start id

theorem Waiting.due {s : σ} {start now : Timestamp} {id : RunId}
    (h : source.Waiting s start id) (hnow : start ≤ now) : (source.slot s id).Due now := by
  obtain ⟨intent, hintent, hlive, hfree⟩ := h
  exact ⟨intent, hintent, hlive, fun lease hlease => (hfree lease hlease).trans hnow⟩

/-- What waits goes on waiting unless a tick claims it. -/
theorem Waiting.tick {limit : ℕ} {s : σ} (hvalid : source.Valid s) {start : Timestamp}
    {id : RunId} (h : source.Waiting s start id) {t : RecoveryTick}
    (hid : id ∉ (source.tick limit s t).1) :
    source.Waiting (source.tick limit s t).2 start id := by
  unfold Waiting at h ⊢
  rcases tick_others hvalid hid with hkept | ⟨intent, hintent, hdone, -⟩
  · rw [hkept]
    exact h
  · obtain ⟨due, hdue, hlive, -⟩ := h
    rw [hintent] at hdue
    cases hdue
    exact absurd hdone hlive

/-- A tick takes what it claims out of the backlog. -/
theorem Backlog.tick {limit : ℕ} {s : σ} (hvalid : source.Valid s) {start : Timestamp}
    {pending : Finset RunId} (h : source.Backlog s start pending) {t : RecoveryTick}
    (hnow : start ≤ t.now) :
    source.Backlog (source.tick limit s t).2 start
      (pending.filter fun id => id ∉ (source.tick limit s t).1) where
  waiting := by
    intro id hid
    obtain ⟨hpending, hnot⟩ := Finset.mem_filter.mp hid
    exact (h.waiting id hpending).tick hvalid hnot
  held := by
    intro id hid intent hintent hlive
    by_cases hclaimed : id ∈ (source.tick limit s t).1
    · obtain ⟨before, dispatched, -, -, -, hslot⟩ := tick_claimed hvalid hclaimed
      rw [hslot] at hintent
      cases hintent
      exact ⟨t.now + recoveryLease, rfl, Nat.add_le_add_right hnow _⟩
    · have hout : id ∉ pending := fun hpending =>
        hid (Finset.mem_filter.mpr ⟨hpending, hclaimed⟩)
      rcases tick_others hvalid hclaimed with hkept | ⟨before, -, -, hdropped⟩
      · rw [hkept] at hintent hlive
        exact h.held id hout intent hintent hlive
      · rw [hdropped] at hintent
        cases hintent

/-- What a tick leaves of a backlog when it claims nothing else. -/
theorem card_after_tick {limit : ℕ} {s : σ} (hvalid : source.Valid s) {start : Timestamp}
    {pending : Finset RunId} (h : source.Backlog s start pending) {t : RecoveryTick}
    (hnow : start ≤ t.now)
    (hfirst : (∃ id ∈ pending, id ∉ (source.tick limit s t).1) →
      ∀ id ∈ (source.tick limit s t).1, id ∈ pending) :
    (pending.filter fun id => id ∉ (source.tick limit s t).1).card ≤
      pending.card - source.page s limit := by
  classical
  by_cases hleft : ∃ id ∈ pending, id ∉ (source.tick limit s t).1
  · obtain ⟨id, hid, hnot⟩ := hleft
    have hclaims : (source.tick limit s t).1 =
        (source.queue s t.now).take (source.page s limit) := tick_claims hvalid t
    have hqueued : id ∈ source.queue s t.now :=
      (source.mem_queue s t.now id hvalid).mpr ((h.waiting id hid).due hnow)
    have hnodup : (source.tick limit s t).1.Nodup := by
      rw [hclaims]
      exact (source.nodup_queue s t.now hvalid).sublist (List.take_sublist _ _)
    have hfull : (source.tick limit s t).1.length = source.page s limit := by
      rw [hclaims, List.length_take, min_eq_left]
      by_contra hshort
      rw [hclaims, List.take_of_length_le (by omega)] at hnot
      exact hnot hqueued
    have hsubset : (source.tick limit s t).1.toFinset ⊆ pending := fun other hother =>
      hfirst ⟨id, hid, hnot⟩ other (List.mem_toFinset.mp hother)
    have hsame : (pending.filter fun id => id ∉ (source.tick limit s t).1) =
        pending \ (source.tick limit s t).1.toFinset := by
      ext other
      simp
    rw [hsame, Finset.card_sdiff_of_subset hsubset, List.toFinset_card_of_nodup hnodup, hfull]
  · have hempty : (pending.filter fun id => id ∉ (source.tick limit s t).1) = ∅ := by
      apply Finset.filter_eq_empty_iff.mpr
      intro id hid hnot
      exact hleft ⟨id, hid, hnot⟩
    rw [hempty, Finset.card_empty]
    exact Nat.zero_le _

/-- Ticks that claim from the backlog as long as there is one claim all of it, if their pages
hold it. `P` is what the ticks preserve of the state and the order of the queue needs. -/
theorem rounds_serve {limit : ℕ} {start : Timestamp} {P : σ → Prop}
    (hkeeps : ∀ s t, source.Valid s → P s → P (source.tick limit s t).2)
    {clocks : List Timestamp}
    (hfirst : ∀ s pending t, source.Valid s → P s → source.Backlog s start pending →
      t.now ∈ clocks → (∃ id ∈ pending, id ∉ (source.tick limit s t).1) →
      ∀ id ∈ (source.tick limit s t).1, id ∈ pending)
    (hstart : ∀ now ∈ clocks, start ≤ now) (ts : List RecoveryTick)
    (hclocks : ∀ t ∈ ts, t.now ∈ clocks) {s : σ} (hvalid : source.Valid s) (hP : P s)
    {pending : Finset RunId} (h : source.Backlog s start pending)
    (hroom : pending.card ≤ ts.length * source.page s limit) :
    ∀ id ∈ pending, Served (source.rounds limit s ts) id := by
  induction ts generalizing s pending with
  | nil =>
    intro id hid
    have hcard := Finset.card_pos.mpr ⟨id, hid⟩
    simp only [List.length_nil, Nat.zero_mul] at hroom
    omega
  | cons t ts ih =>
    intro id hid
    have hnow : t.now ∈ clocks := hclocks t List.mem_cons_self
    rw [rounds, served_cons]
    by_cases hclaimed : id ∈ (source.tick limit s t).1
    · exact .inl hclaimed
    · refine .inr (ih (fun t ht => hclocks t (List.mem_cons_of_mem _ ht)) (tick_valid hvalid t)
        (hkeeps s t hvalid hP) (h.tick hvalid (hstart _ hnow)) ?_ id
        (Finset.mem_filter.mpr ⟨hid, hclaimed⟩))
      have hcard := card_after_tick hvalid h (hstart _ hnow)
        (hfirst s pending t hvalid hP h hnow)
      rw [tick_page]
      rw [List.length_cons, Nat.add_mul, Nat.one_mul] at hroom
      omega

theorem afterTicks_valid {limit : ℕ} {s : σ} (h : source.Valid s) (ts : List RecoveryTick) :
    source.Valid (source.afterTicks limit s ts) := by
  unfold afterTicks
  induction ts generalizing s with
  | nil => exact h
  | cons t ts ih => exact ih (tick_valid h t)

/-- What every tick preserves. -/
theorem afterTicks_keeps {limit : ℕ} {P : σ → Prop}
    (hkeeps : ∀ s t, source.Valid s → P s → P (source.tick limit s t).2) {s : σ}
    (hvalid : source.Valid s) (h : P s) (ts : List RecoveryTick) :
    P (source.afterTicks limit s ts) := by
  unfold afterTicks
  induction ts generalizing s with
  | nil => exact h
  | cons t ts ih => exact ih (tick_valid hvalid t) (hkeeps s t hvalid h)

theorem rounds_append (limit : ℕ) (s : σ) (ts later : List RecoveryTick) :
    source.rounds limit s (ts ++ later) =
      source.rounds limit s ts ++ source.rounds limit (source.afterTicks limit s ts) later := by
  induction ts generalizing s with
  | nil => rfl
  | cons t ts ih => simp [rounds, afterTicks, ih]

@[simp] theorem rounds_length (limit : ℕ) (s : σ) (ts : List RecoveryTick) :
    (source.rounds limit s ts).length = ts.length := by
  induction ts generalizing s with
  | nil => rfl
  | cons t ts ih => simp [rounds, ih]

theorem rounds_page {limit : ℕ} {s : σ} (hvalid : source.Valid s) (ts : List RecoveryTick) :
    ∀ round ∈ source.rounds limit s ts, round.length ≤ source.page s limit := by
  induction ts generalizing s with
  | nil => simp [rounds]
  | cons t ts ih =>
    intro round hround
    rcases List.mem_cons.mp hround with rfl | hlater
    · rw [tick_claims hvalid]
      exact List.length_take_le _ _
    · rw [← tick_page limit s t]
      exact ih (tick_valid hvalid t) round hlater

theorem Waiting.afterTicks {limit : ℕ} {s : σ} (hvalid : source.Valid s) {start : Timestamp}
    {id : RunId} (h : source.Waiting s start id) {ts : List RecoveryTick}
    (hid : ¬Served (source.rounds limit s ts) id) :
    source.Waiting (source.afterTicks limit s ts) start id := by
  unfold RecoverySource.afterTicks
  induction ts generalizing s with
  | nil => exact h
  | cons t ts ih =>
    rw [rounds, served_cons, not_or] at hid
    exact ih (tick_valid hvalid t) (h.tick hvalid hid.1) hid.2

/-- The intent of a run is one of this kind that a claim could return. -/
def LiveKind (source : RecoverySource σ) (s : σ) (kind : DispatchKind) (id : RunId) : Prop :=
  ∃ intent, (source.slot s id).intent = some intent ∧
    ¬intent.Done (source.slot s id).terminal ∧ intent.kind = kind

theorem LiveKind.unique {s : σ} {kind kind' : DispatchKind} {id : RunId}
    (h : source.LiveKind s kind id) (h' : source.LiveKind s kind' id) : kind = kind' := by
  obtain ⟨intent, hintent, -, rfl⟩ := h
  obtain ⟨other, hother, -, rfl⟩ := h'
  rw [hintent] at hother
  rw [Option.some.inj hother]

/-- A claimed intent waits for the end of its lease, unless it is done with. -/
theorem waiting_of_claimed {limit : ℕ} {s : σ} (hvalid : source.Valid s) {t : RecoveryTick}
    {id : RunId} (hid : id ∈ (source.tick limit s t).1)
    (hlasting : (∀ claim, t.dispatches claim = false) ∨ source.LiveKind s .run id) :
    source.Waiting (source.tick limit s t).2 (t.now + recoveryLease) id := by
  obtain ⟨intent, dispatched, hintent, hlive, hack, hslot⟩ := tick_claimed hvalid hid
  unfold Waiting
  rw [hslot]
  refine ⟨_, rfl, ?_, fun lease hlease => ?_⟩
  · rcases hlasting with hnone | hrun
    · rcases hack with rfl | ⟨⟨claim, hclaim⟩, -⟩
      · exact hlive
      · rw [hnone claim] at hclaim
        cases hclaim
    · have hkind : .run = intent.kind := hrun.unique ⟨intent, hintent, hlive, rfl⟩
      rw [DispatchIntent.Done, not_or, not_or] at hlive ⊢
      refine ⟨hlive.1, hlive.2.1, ?_⟩
      rintro ⟨hcancel, -⟩
      cases hkind.trans hcancel
  · cases hlease
    exact Nat.le_refl _

/-- A tick that claims `a` and leaves `b` waiting has `a` before `b` in its queue. -/
theorem queue_order {limit : ℕ} {s : σ} (hvalid : source.Valid s) {t : RecoveryTick}
    {a b : RunId} (ha : a ∈ (source.tick limit s t).1) (hb : b ∉ (source.tick limit s t).1)
    (hdue : (source.slot s b).Due t.now) : [a, b].Sublist (source.queue s t.now) := by
  rw [tick_claims hvalid] at ha hb
  exact pair_sublist_of_take ha ((source.mem_queue s t.now b hvalid).mpr hdue) hb

/-- Where `a` is claimed by some of the ticks and `b` by none of them, some queue had `a`
before `b`. -/
theorem exists_queue_order {limit : ℕ} {s : σ} (hvalid : source.Valid s) {start : Timestamp}
    {ts : List RecoveryTick} (hstart : ∀ t ∈ ts, start ≤ t.now) {a b : RunId}
    (ha : Served (source.rounds limit s ts) a) (hb : ¬Served (source.rounds limit s ts) b)
    (hwaits : source.Waiting s start b) :
    ∃ earlier now, [a, b].Sublist (source.queue (source.afterTicks limit s earlier) now) := by
  induction ts generalizing s with
  | nil => exact absurd ha (not_served_nil a)
  | cons t ts ih =>
    rw [rounds, served_cons, not_or] at hb
    rw [rounds, served_cons] at ha
    rcases ha with hclaimed | hlater
    · exact ⟨[], t.now, queue_order hvalid hclaimed hb.1
        (hwaits.due (hstart t List.mem_cons_self))⟩
    · obtain ⟨earlier, now, hpair⟩ := ih (tick_valid hvalid t)
        (fun t ht => hstart t (List.mem_cons_of_mem _ ht)) hlater hb.2 (hwaits.tick hvalid hb.1)
      exact ⟨t :: earlier, now, hpair⟩

/-- Ticks neither bring an intent back nor change its kind. -/
theorem LiveKind.of_tick {limit : ℕ} {s : σ} (hvalid : source.Valid s) {t : RecoveryTick}
    {kind : DispatchKind} {id : RunId} (h : source.LiveKind (source.tick limit s t).2 kind id) :
    source.LiveKind s kind id := by
  obtain ⟨intent, hintent, hlive, rfl⟩ := h
  by_cases hclaimed : id ∈ (source.tick limit s t).1
  · obtain ⟨before, dispatched, hbefore, hlive', -, hslot⟩ := tick_claimed hvalid hclaimed
    rw [hslot] at hintent
    cases hintent
    exact ⟨before, hbefore, hlive', rfl⟩
  · rcases tick_others hvalid hclaimed with hkept | ⟨before, -, -, hdropped⟩
    · rw [hkept] at hintent hlive
      exact ⟨intent, hintent, hlive, rfl⟩
    · rw [hdropped] at hintent
      cases hintent

theorem LiveKind.of_afterTicks {limit : ℕ} {s : σ} (hvalid : source.Valid s)
    {ts : List RecoveryTick} {kind : DispatchKind} {id : RunId}
    (h : source.LiveKind (source.afterTicks limit s ts) kind id) : source.LiveKind s kind id :=
  afterTicks_keeps (P := fun s' => source.LiveKind s' kind id → source.LiveKind s kind id)
    (fun _ _ hvalid' hback h' => hback (h'.of_tick hvalid')) hvalid (fun h' => h') ts h

section Outlasting
variable {limit : ℕ} {s : σ} {first last : RecoveryTick} {middle : List RecoveryTick}
  {ids : Finset RunId} {start : Timestamp}

variable (first) in
/-- Ticks that need the last one leave an intent to it. -/
theorem exists_left_to_last (hvalid : source.Valid s)
    (hcount : (middle.length + 1) * source.page s limit < ids.card) :
    ∃ id ∈ ids, ¬Served (source.rounds limit s (first :: middle)) id :=
  exists_not_served (rounds_page hvalid _) (by simpa using hcount)

/-- Ticks that reach every intent, though a lease of the first ends by the last: an intent
that is left to the last comes after some other at the first tick, and before it at the
last. -/
theorem queue_turns_round (hvalid : source.Valid s)
    (hwaiting : ∀ id ∈ ids, source.Waiting s start id) (hstart : start ≤ first.now)
    (hlong : first.now + recoveryLease ≤ last.now)
    (hserved : ∀ id ∈ ids, Served (source.rounds limit s (first :: middle ++ [last])) id)
    (hcount : (middle.length + 1) * source.page s limit < ids.card)
    (hlasting : (∀ claim, first.dispatches claim = false) ∨ ∀ id ∈ ids, source.LiveKind s .run id)
    {b : RunId} (hb : b ∈ ids) (hleft : ¬Served (source.rounds limit s (first :: middle)) b) :
    ∃ a, [a, b].Sublist (source.queue s first.now) ∧ [b, a].Sublist
      (source.queue (source.afterTicks limit s (first :: middle)) last.now) := by
  have hrounds : source.rounds limit s (first :: middle ++ [last]) =
      source.rounds limit s (first :: middle) ++
        source.rounds limit (source.afterTicks limit s (first :: middle)) [last] :=
    rounds_append limit s (first :: middle) [last]
  obtain ⟨a, ha, hnot⟩ := exists_not_served
    (rounds_page (tick_valid hvalid first) (middle ++ [last])) (by
      rw [rounds_length, List.length_append, List.length_singleton, tick_page]
      exact hcount)
  have hafirst : a ∈ (source.tick limit s first).1 := by
    have hsomewhere := hserved a ha
    rw [List.cons_append, rounds, served_cons] at hsomewhere
    exact hsomewhere.resolve_right hnot
  rw [rounds_append, served_append, not_or] at hnot
  rw [rounds, served_cons, not_or] at hleft
  refine ⟨a, queue_order hvalid hafirst hleft.1 ((hwaiting b hb).due hstart), ?_⟩
  have hvalid' : source.Valid (source.afterTicks limit s (first :: middle)) :=
    afterTicks_valid hvalid _
  have hblast : b ∈ (source.tick limit (source.afterTicks limit s (first :: middle)) last).1 := by
    have hsomewhere := hserved b hb
    rw [hrounds, served_append] at hsomewhere
    have hend := hsomewhere.resolve_left fun hbefore =>
      not_or.mpr hleft (served_cons.mp hbefore)
    simpa [rounds] using hend
  have halast : a ∉ (source.tick limit (source.afterTicks limit s (first :: middle)) last).1 := by
    intro hclaimed
    exact hnot.2 (served_cons.mpr (.inl hclaimed))
  have hawaits := (waiting_of_claimed hvalid hafirst
    (hlasting.imp_right fun h => h a ha)).afterTicks (tick_valid hvalid first) hnot.1
  exact queue_order hvalid' hblast halast (hawaits.due hlong)

end Outlasting

end RecoverySource
end Skein
