import Skein.AdmissionDisplacement
import Skein.AdmissionHistory
import Skein.DispatchMoves

/-!
# Leases of dispatch intents

Over a whole history of the store an active run keeps its run intent, and a cancelled one
its cancel intent until the acknowledgement; two claims never hold one intent at a time,
and an outdated acknowledgement is ignored.
-/
namespace Skein

/-- The store, and the tokens `randomUUID` has produced for claims. -/
structure DispatchWorld (J : Type*) where
  store : MemorySkeinStore J
  drawn : List String := []

inductive DispatchCall (J : Type*)
  | admission (call : AdmissionCall J) (draws : AdmissionDraws)
  | settle (runId : RunId) (final : RunSettlement J) (uuid : DeliveryId) (now : Timestamp)
  | delete (runId : RunId)
  | claim (query : DispatchQuery) (tokens : RunId → String)
  | mark (runId : RunId) (token : String)

/-- The runs a call asks to cancel. -/
def AdmissionCall.cancelledRunIds {J : Type*} : AdmissionCall J → List RunId
  | .run input => input.displacements.map Displacement.runId
  | .cancel input => [input.runId]

namespace DispatchWorld
variable {J : Type*}

/-- The intents a call of `claimDispatches` returns. -/
def claims (w : DispatchWorld J) (query : DispatchQuery) (tokens : RunId → String) :
    List DispatchIntent := (w.store.claimDispatches query tokens).1

variable [WireJson J]

/-- One call. A lease ends after the claim, and `randomUUID` repeats no token. -/
def step (w : DispatchWorld J) : DispatchCall J → Option (DispatchWorld J)
  | .admission call draws => some { w with store := (call.perform w.store draws).2 }
  | .settle runId final uuid now =>
    some { w with store := (w.store.runsSettle runId final uuid now).2 }
  | .delete runId => some { w with store := w.store.runsDelete runId }
  | .claim query tokens =>
    if query.now < query.leaseUntil ∧
        ∀ claim ∈ w.claims query tokens, claim.token ≠ "" ∧ claim.token ∉ w.drawn then
      some ⟨(w.store.claimDispatches query tokens).2,
        (w.claims query tokens).map DispatchIntent.token ++ w.drawn⟩
    else none
  | .mark runId token => some { w with store := w.store.markDispatched runId token }

/-- What a call must be to bring about an event of the slot of the run `k`. -/
def Causes (w : DispatchWorld J) (a : DispatchCall J) (k : RunId) : SlotEvent → Prop
  | .deleted => a = .delete k
  | .leased now leaseUntil token => now < leaseUntil ∧ token ≠ "" ∧ token ∉ w.drawn
  | .acknowledged token => a = .mark k token
  | _ => True

omit [WireJson J] in
/-- The move of a claimed intent. -/
theorem claimed_move {w : DispatchWorld J} {query : DispatchQuery} {tokens : RunId → String}
    {claim : DispatchIntent} (h : claim ∈ w.claims query tokens) :
    SlotMove (.leased query.now query.leaseUntil claim.token) (w.store.slot claim.runId)
        ((w.store.claimDispatches query tokens).2.slot claim.runId) ∧
      ((w.store.claimDispatches query tokens).2.slot claim.runId).intent = some claim := by
  have hmoves := (w.store.claimDispatches_spec query tokens).moves claim.runId
  have hmem : claim ∈ (w.store.claimDispatches query tokens).1.filter
      fun other => other.runId = claim.runId := List.mem_filter.mpr ⟨h, by simp⟩
  generalize tokens claim.runId = token at hmoves
  generalize hs : w.store.slot claim.runId = s at hmoves ⊢
  generalize hs' : (w.store.claimDispatches query tokens).2.slot claim.runId = s' at hmoves ⊢
  generalize (w.store.claimDispatches query tokens).1.filter
    (fun other => other.runId = claim.runId) = returned at hmoves hmem
  cases hmoves with
  | passed => cases hmem
  | leased other hother hmove =>
    obtain rfl := List.mem_singleton.mp hmem
    refine ⟨?_, hother⟩
    cases hmove with
    | leased _ _ hlive hfree =>
      cases hother
      exact .leased _ _ hlive hfree

omit [WireJson J] in
theorem claim_moves (w : DispatchWorld J) (query : DispatchQuery) (tokens : RunId → String)
    (k : RunId) :
    ∃ event, SlotMove event (w.store.slot k) ((w.store.claimDispatches query tokens).2.slot k) ∧
      (event = .kept ∨ event = .collected ∨
        ∃ claim ∈ w.claims query tokens,
          event = .leased query.now query.leaseUntil claim.token) := by
  have hmoves := (w.store.claimDispatches_spec query tokens).moves k
  cases hreturned : (w.store.claimDispatches query tokens).1.filter fun claim => claim.runId = k with
  | nil =>
    rw [hreturned] at hmoves
    cases hmoves with
    | passed event hevent hmove =>
      rcases hevent with rfl | rfl
      · exact ⟨_, hmove, .inl rfl⟩
      · exact ⟨_, hmove, .inr (.inl rfl)⟩
  | cons claim rest =>
    have hmem : claim ∈ (w.store.claimDispatches query tokens).1.filter fun c => c.runId = k := by
      rw [hreturned]
      exact List.mem_cons_self
    obtain ⟨hclaim, hid⟩ := List.mem_filter.mp hmem
    have hk : claim.runId = k := by simpa using hid
    exact ⟨_, hk ▸ (claimed_move hclaim).1, .inr (.inr ⟨claim, hclaim, rfl⟩)⟩

/-- Every step moves every slot, and what moves it is the call it should be. -/
theorem step_moves {w w' : DispatchWorld J} {a : DispatchCall J} (h : w.step a = some w')
    (k : RunId) :
    ∃ event, SlotMove event (w.store.slot k) (w'.store.slot k) ∧ w.Causes a k event := by
  cases a with
  | admission call draws =>
    cases h
    have hmoves : ∃ ids inserted, w.store.AdmissionMoves (call.perform w.store draws).2 ids
        inserted := by
      cases call with
      | run input =>
        obtain ⟨ids, inserted, hmoves, -⟩ := w.store.admitRun_moves input draws
        exact ⟨ids, inserted, hmoves⟩
      | cancel input =>
        obtain ⟨ids, hmoves, -⟩ := w.store.admitCancel_moves input draws
        exact ⟨ids, none, hmoves⟩
    obtain ⟨ids, inserted, hmoves⟩ := hmoves
    by_cases hk : k ∈ ids
    · exact ⟨.cancelled, hmoves.cancelled k hk, trivial⟩
    · by_cases hinserted : k ∈ inserted
      · exact ⟨.admitted, hmoves.admitted k hinserted, trivial⟩
      · rw [show ({ w with store := (call.perform w.store draws).2 } :
            DispatchWorld J).store.slot k = w.store.slot k from hmoves.kept k hk hinserted]
        exact ⟨.kept, .kept _, trivial⟩
  | settle runId final uuid now =>
    cases h
    unfold MemorySkeinStore.runsSettle
    split
    · exact ⟨.kept, .kept _, trivial⟩
    next settled _ =>
      obtain ⟨event, hmove, rfl | rfl⟩ := w.store.settleFinal_slot runId settled uuid now k
      · exact ⟨.kept, hmove, trivial⟩
      · exact ⟨.settled, hmove, trivial⟩
  | delete runId =>
    cases h
    dsimp only
    rw [MemorySkeinStore.runsDelete_slot]
    split_ifs with hk
    · exact ⟨.deleted, .deleted _, congrArg _ hk⟩
    · exact ⟨.kept, .kept _, trivial⟩
  | claim query tokens =>
    simp only [step] at h
    split_ifs at h with hguard
    cases h
    obtain ⟨event, hmove, rfl | rfl | ⟨claim, hclaim, rfl⟩⟩ := w.claim_moves query tokens k
    · exact ⟨.kept, hmove, trivial⟩
    · exact ⟨.collected, hmove, trivial⟩
    · exact ⟨_, hmove, hguard.1, hguard.2 claim hclaim⟩
  | mark runId token =>
    cases h
    obtain ⟨event, hmove, rfl | ⟨rfl, hk⟩⟩ := w.store.markDispatched_slot runId token k
    · exact ⟨.kept, hmove, trivial⟩
    · exact ⟨.acknowledged token, hmove, by rw [hk]; rfl⟩

end DispatchWorld

def dispatching {J : Type*} [WireJson J] : Machine (DispatchWorld J) (DispatchCall J) :=
  ⟨DispatchWorld.step⟩

namespace DispatchWorld
variable {J : Type*} [WireJson J] {w w' : DispatchWorld J} {history : List (DispatchCall J)}
  {k : RunId}

/-- What the moves of a run that is not deleted preserve holds to the end of a history. -/
theorem run_slot {I : DispatchSlot → Prop} {C : DispatchWorld J → DispatchCall J → Prop}
    (hmove : ∀ u a event s', C u a → u.Causes a k event → event ≠ .deleted →
      SlotMove event (u.store.slot k) s' → I (u.store.slot k) → I s')
    (hspared : .delete k ∉ history) (hc : dispatching.Along C w history)
    (h : dispatching.run w history = some w') (hs : I (w.store.slot k)) : I (w'.store.slot k) := by
  induction history generalizing w with
  | nil =>
    cases h
    exact hs
  | cons a history ih =>
    obtain ⟨u, hu, hrun⟩ := (dispatching.run_cons_eq_some).mp h
    obtain ⟨hca, hrest⟩ := Machine.along_cons hc hu
    rw [List.mem_cons, not_or] at hspared
    obtain ⟨event, hevent, hcause⟩ := step_moves hu k
    refine ih hspared.2 hrest hrun (hmove w a event _ hca hcause ?_ hevent hs)
    rintro rfl
    exact hspared.1 hcause.symm

theorem step_drawn {a : DispatchCall J} (h : w.step a = some w') : w.drawn ⊆ w'.drawn := by
  cases a with
  | claim query tokens =>
    simp only [step] at h
    split_ifs at h
    cases h
    exact List.subset_append_right _ _
  | admission => cases h; exact List.Subset.refl _
  | settle => cases h; exact List.Subset.refl _
  | delete => cases h; exact List.Subset.refl _
  | mark => cases h; exact List.Subset.refl _

/-- What a drawn token stands for does not change. -/
theorem run_tokenOf {token : String} {P : DispatchKind → Prop} (htoken : token ≠ "")
    (hdrawn : token ∈ w.drawn) (h : dispatching.run w history = some w')
    (hs : (w.store.slot k).TokenOf token P) :
    token ∈ w'.drawn ∧ (w'.store.slot k).TokenOf token P := by
  refine Machine.run_invariant (I := fun u => token ∈ u.drawn ∧ (u.store.slot k).TokenOf token P)
    ?_ ⟨hdrawn, hs⟩ h
  rintro u a u' ⟨hdrawn, hs⟩ hu
  obtain ⟨event, hmove, hcause⟩ := step_moves hu k
  refine ⟨step_drawn hu hdrawn, hmove.tokenOf htoken ?_ hs⟩
  rintro now leaseUntil drawn rfl rfl
  exact hcause.2.2 hdrawn

theorem reachable_cancelsTerminal {w₀ : DispatchWorld J} (h0 : w₀.store.dispatches = ∅)
    (h : dispatching.Reachable w₀ w) : (w.store.slot k).CancelsTerminal := by
  refine h.invariant (I := fun u => (u.store.slot k).CancelsTerminal) ?_ ?_
  · intro u a u' hs hu
    obtain ⟨event, hmove, -⟩ := step_moves hu k
    exact hmove.cancelsTerminal hs
  · intro intent hintent
    rw [show (w₀.store.slot k).intent = none by simp [MemorySkeinStore.slot, h0]] at hintent
    cases hintent

/-- The call is an admission that commits: it is no replay, and it does not throw. -/
def Commits (w : DispatchWorld J) (call : AdmissionCall J) (draws : AdmissionDraws)
    (receipt : AdmissionReceipt) : Prop :=
  w.store.replayAdmission call.key = .ok none ∧ (call.perform w.store draws).1 = .ok receipt

/-- A later claim of the intent, or its replacement by a cancel. -/
def Supersedes (w : DispatchWorld J) (a : DispatchCall J) (w' : DispatchWorld J)
    (claim : DispatchIntent) : Prop :=
  (∃ query tokens again, a = .claim query tokens ∧ again ∈ w.claims query tokens ∧
    again.runId = claim.runId) ∨
  (claim.kind = .run ∧ ∃ intent, w'.store.dispatches.get? claim.runId = some intent ∧
    intent.kind = .cancel)

/-- Dispatch intents are neither lost nor leased twice, in every history from `w₀`. -/
structure IntentsKept (w₀ : DispatchWorld J) : Prop where
  /-- An admitted run keeps its run intent while it is active, whatever is acknowledged. -/
  run_intent : ∀ {w w₁ w₂ input draws receipt history run}, dispatching.Reachable w₀ w →
    w.Commits (.run input) draws receipt → w.step (.admission (.run input) draws) = some w₁ →
    dispatching.run w₁ history = some w₂ → .delete receipt.runId ∉ history →
    w₂.store.runs.get? receipt.runId = some run → run.status.isTerminal = false →
    ∃ intent, w₂.store.dispatches.get? receipt.runId = some intent ∧ intent.kind = .run
  /-- A run that an admission cancelled keeps its cancel intent until it is acknowledged. -/
  cancel_intent : ∀ {w w₁ w₂ call draws receipt history k}, dispatching.Reachable w₀ w →
    w.Commits call draws receipt → k ∈ call.cancelledRunIds → w.store.terminal? k = some false →
    w.step (.admission call draws) = some w₁ → dispatching.run w₁ history = some w₂ →
    .delete k ∉ history →
    dispatching.Along (fun u a => ∀ intent, u.store.dispatches.get? k = some intent →
      a ≠ .mark k intent.token) w₁ history →
    ∃ intent, w₂.store.dispatches.get? k = some intent ∧ intent.kind = .cancel
  /-- Two leases of one intent do not overlap. -/
  leases : ∀ {w w₁ w₂ w₃ query tokens claim history again drawn claim'},
    dispatching.Reachable w₀ w → w.step (.claim query tokens) = some w₁ →
    claim ∈ w.claims query tokens → dispatching.run w₁ history = some w₂ →
    .delete claim.runId ∉ history → w₂.step (.claim again drawn) = some w₃ →
    claim' ∈ w₂.claims again drawn → claim'.runId = claim.runId → claim'.kind = claim.kind →
    query.leaseUntil ≤ again.now
  /-- The token of an earlier claim, or of an intent replaced since, acknowledges nothing. -/
  outdated : ∀ {w w₁ u u' w₂ query tokens claim before a after},
    dispatching.Reachable w₀ w → w.step (.claim query tokens) = some w₁ →
    claim ∈ w.claims query tokens → dispatching.run w₁ before = some u → u.step a = some u' →
    u.Supersedes a u' claim → dispatching.run u' after = some w₂ →
    w₂.store.markDispatched claim.runId claim.token = w₂.store
  /-- After a cancel was admitted no claim returns the run intent again. -/
  no_run_intent : ∀ {w w₁ w₂ w₃ call draws receipt history k query tokens claim},
    dispatching.Reachable w₀ w → w.Commits call draws receipt → k ∈ call.cancelledRunIds →
    w.step (.admission call draws) = some w₁ → dispatching.run w₁ history = some w₂ →
    .delete k ∉ history → w₂.step (.claim query tokens) = some w₃ →
    claim ∈ w₂.claims query tokens → claim.runId = k → claim.kind = .cancel

theorem Commits.admitted {input : RunAdmission J} {draws : AdmissionDraws}
    {receipt : AdmissionReceipt} (hcommits : w.Commits (.run input) draws receipt)
    (h : w.step (.admission (.run input) draws) = some w') :
    SlotMove .admitted (w.store.slot receipt.runId) (w'.store.slot receipt.runId) := by
  cases h
  obtain ⟨ids, inserted, hmoves, hcommit⟩ := w.store.admitRun_moves input draws
  obtain ⟨-, hinserted⟩ := hcommit receipt hcommits.1 hcommits.2
  exact hmoves.admitted _ hinserted

theorem Commits.cancelled {call : AdmissionCall J} {draws : AdmissionDraws}
    {receipt : AdmissionReceipt} (hcommits : w.Commits call draws receipt)
    (hk : k ∈ call.cancelledRunIds) (h : w.step (.admission call draws) = some w') :
    (w.store.terminal? k = some false → SlotMove .cancelled (w.store.slot k) (w'.store.slot k)) ∧
      w'.store.terminal? k = some true := by
  cases h
  cases call with
  | run input =>
    obtain ⟨ids, inserted, hmoves, hcommit⟩ := w.store.admitRun_moves input draws
    obtain ⟨hids, -⟩ := hcommit receipt hcommits.1 hcommits.2
    have hmove := hmoves.cancelled k (hids ▸ hk)
    exact ⟨fun _ => hmove, hmove.terminal_of_cancelled⟩
  | cancel input =>
    obtain rfl := List.mem_singleton.mp hk
    obtain ⟨ids, hmoves, hcommit⟩ := w.store.admitCancel_moves input draws
    obtain ⟨hactive, hterminal⟩ := hcommit receipt hcommits.1 hcommits.2
    exact ⟨fun hrow => hmoves.cancelled _ (hactive hrow), hterminal⟩

theorem run_dispatched (h : dispatching.run w history = some w') (hspared : .delete k ∉ history)
    (hs : (w.store.slot k).Dispatched) : (w'.store.slot k).Dispatched :=
  run_slot (fun _ _ _ _ _ _ hdeleted hmove hs => hmove.dispatched hdeleted hs) hspared
    (Machine.along_of_forall (fun _ _ _ => trivial) w) h hs

theorem run_terminal (h : dispatching.run w history = some w') (hspared : .delete k ∉ history)
    (hs : w.store.terminal? k = some true) : w'.store.terminal? k = some true :=
  run_slot (I := fun s => s.terminal = some true)
    (fun _ _ _ _ _ _ hdeleted hmove hs => hmove.terminal_eq_true hdeleted hs) hspared
    (Machine.along_of_forall (fun _ _ _ => trivial) w) h hs

theorem run_cancelling (h : dispatching.run w history = some w') (hspared : .delete k ∉ history)
    (hwaits : dispatching.Along (fun u a => ∀ intent, u.store.dispatches.get? k = some intent →
      a ≠ .mark k intent.token) w history)
    (hs : (w.store.slot k).Cancelling) : (w'.store.slot k).Cancelling := by
  refine run_slot ?_ hspared hwaits h hs
  intro u a event s' hwait hcause hdeleted hmove hs
  refine hmove.cancelling hdeleted (fun intent hintent => ?_) hs
  rintro rfl
  exact hwait intent hintent hcause

theorem run_held {kind : DispatchKind} {deadline : Timestamp}
    (h : dispatching.run w history = some w') (hspared : .delete k ∉ history)
    (hs : (w.store.slot k).Held kind deadline) : (w'.store.slot k).Held kind deadline := by
  refine run_slot ?_ hspared (Machine.along_of_forall (fun _ _ _ => trivial) w) h hs
  intro u a event s' _ hcause hdeleted hmove hs
  refine hmove.held hdeleted ?_ hs
  rintro now leaseUntil token rfl
  exact hcause.1

omit [WireJson J] in
/-- A claimed intent was live, free at the time of the claim, and is leased afterwards. -/
theorem claimed_slot {query : DispatchQuery} {tokens : RunId → String} {claim : DispatchIntent}
    (hclaim : claim ∈ w.claims query tokens) :
    ∃ intent, (w.store.slot claim.runId).intent = some intent ∧ intent.kind = claim.kind ∧
      ¬intent.Done (w.store.terminal? claim.runId) ∧
      (∀ lease ∈ intent.leaseUntil, lease ≤ query.now) ∧ claim.leaseUntil = some query.leaseUntil := by
  obtain ⟨hmove, hintent⟩ := claimed_move hclaim
  have hterminal : (w.store.slot claim.runId).terminal = w.store.terminal? claim.runId := rfl
  generalize w.store.slot claim.runId = s at hmove hterminal ⊢
  generalize (w.store.claimDispatches query tokens).2.slot claim.runId = s' at hmove hintent
  cases hmove with
  | leased _ _ hlive hfree =>
    have hlease := Option.some.inj hintent
    have hleased : claim.leaseUntil = some query.leaseUntil := by
      rw [← hlease]
      rfl
    refine ⟨_, rfl, ?_, hterminal ▸ hlive, hfree, hleased⟩
    rw [← hlease]
    rfl

theorem claimed_held {w₀ : DispatchWorld J} (h0 : w₀.store.dispatches = ∅)
    (hreach : dispatching.Reachable w₀ w) {query : DispatchQuery} {tokens : RunId → String}
    {claim : DispatchIntent} (h : w.step (.claim query tokens) = some w')
    (hclaim : claim ∈ w.claims query tokens) :
    (w'.store.slot claim.runId).Held claim.kind query.leaseUntil := by
  obtain ⟨intent, hintent, hkind, hlive, -, hleased⟩ := claimed_slot hclaim
  obtain ⟨-, hafter⟩ := claimed_move hclaim
  have hterminal : (w'.store.slot claim.runId).terminal = w.store.terminal? claim.runId := by
    simp only [step] at h
    split_ifs at h
    cases h
    simp only [MemorySkeinStore.slot, MemorySkeinStore.terminal?,
      (w.store.claimDispatches_spec query tokens).runs]
  have hstored : w.store.terminal? claim.runId ≠ none := fun hnone => hlive (.inl hnone)
  have hcancels := reachable_cancelsTerminal h0 hreach (k := claim.runId) intent hintent
  simp only [step] at h
  split_ifs at h
  cases h
  refine ⟨hterminal ▸ hstored, fun hcancel => ?_, fun other hother _ _ => ?_⟩
  · rw [hterminal]
    have hactive : w.store.terminal? claim.runId ≠ some false := hcancels (hkind.trans hcancel)
    rcases hrow : w.store.terminal? claim.runId with _ | _ | _
    · exact absurd hrow hstored
    · exact absurd hrow hactive
    · rfl
  · rw [hafter] at hother
    cases hother
    exact ⟨query.leaseUntil, hleased, Nat.le_refl _⟩

theorem claimed_tokenOf {query : DispatchQuery} {tokens : RunId → String} {claim : DispatchIntent}
    (h : w.step (.claim query tokens) = some w') (hclaim : claim ∈ w.claims query tokens) :
    claim.token ≠ "" ∧ claim.token ∈ w'.drawn ∧
      (w'.store.slot claim.runId).TokenOf claim.token (· = claim.kind) := by
  obtain ⟨-, hafter⟩ := claimed_move hclaim
  simp only [step] at h
  split_ifs at h with hguard
  cases h
  refine ⟨(hguard.2 claim hclaim).1, List.mem_append_left _ (List.mem_map_of_mem hclaim), ?_⟩
  intro intent hintent _
  rw [hafter] at hintent
  cases hintent
  rfl

/-- The claim after which a token is outdated draws another, and an issued cancel has none. -/
theorem superseded_outdated {a : DispatchCall J} {claim : DispatchIntent}
    (hdrawn : claim.token ∈ w.drawn) (h : w.step a = some w')
    (hkind : (w'.store.slot claim.runId).TokenOf claim.token (· = claim.kind))
    (hsupersedes : w.Supersedes a w' claim) :
    (w'.store.slot claim.runId).TokenOf claim.token fun _ => False := by
  rcases hsupersedes with ⟨query, tokens, again, rfl, hagain, hid⟩ |
    ⟨hrun, cancel, hcancel, hcancelKind⟩
  · obtain ⟨-, hafter⟩ := claimed_move hagain
    simp only [step] at h
    split_ifs at h with hguard
    cases h
    intro intent hintent htoken
    rw [← hid, hafter] at hintent
    cases hintent
    exact (hguard.2 again hagain).2 (htoken ▸ hdrawn)
  · intro intent hintent htoken
    have heq : cancel = intent := Option.some.inj (hcancel.symm.trans hintent)
    have hsame := hkind intent hintent htoken
    rw [← heq, hcancelKind, hrun] at hsame
    cases hsame

theorem dispatch_intents_kept (w₀ : DispatchWorld J) (h0 : w₀.store.dispatches = ∅) :
    w₀.IntentsKept where
  run_intent := by
    intro w w₁ w₂ input draws receipt history run _ hcommits hstep hrun hspared hrow hactive
    have hdispatched : (w₁.store.slot receipt.runId).Dispatched := by
      have hmove := hcommits.admitted hstep
      generalize w.store.slot receipt.runId = s₀ at hmove
      generalize w₁.store.slot receipt.runId = s at hmove ⊢
      cases hmove with
      | admitted old terminal hissued => exact ⟨by simp, fun _ => ⟨_, rfl, hissued.kind⟩⟩
    refine (run_dispatched hrun hspared hdispatched).2 ?_
    rw [MemorySkeinStore.slot, MemorySkeinStore.terminal?, hrow, Option.map_some, hactive]
  cancel_intent := by
    intro w w₁ w₂ call draws receipt history k _ hcommits hk hactive hstep hrun hspared hwaits
    have hcancelling : (w₁.store.slot k).Cancelling := by
      have hmove := (hcommits.cancelled hk hstep).1 hactive
      generalize w.store.slot k = s₀ at hmove
      generalize w₁.store.slot k = s at hmove ⊢
      cases hmove with
      | cancelled old hissued => exact ⟨rfl, _, rfl, hissued.kind, hissued.dispatched⟩
    obtain ⟨-, intent, hintent, hkind, -⟩ := run_cancelling hrun hspared hwaits hcancelling
    exact ⟨intent, hintent, hkind⟩
  leases := by
    intro w w₁ w₂ w₃ query tokens claim history again drawn claim' hreach hstep hclaim hrun hspared
      hagain hclaim' hid hkind
    have hheld := run_held hrun hspared (claimed_held h0 hreach hstep hclaim)
    obtain ⟨intent, hintent, hkind', hlive, hfree, -⟩ := claimed_slot hclaim'
    rw [hid] at hintent hlive
    obtain ⟨lease, hlease, hdeadline⟩ := hheld.leased intent hintent (hkind'.trans hkind) hlive
    exact Nat.le_trans hdeadline (hfree lease hlease)
  outdated := by
    intro w w₁ u u' w₂ query tokens claim before a after _ hstep hclaim hbefore hu hsupersedes hafter
    obtain ⟨htoken, hdrawn, hkind⟩ := claimed_tokenOf hstep hclaim
    have hstepped : dispatching.run u [a] = some u' :=
      (dispatching.run_cons_eq_some).mpr ⟨u', hu, rfl⟩
    obtain ⟨hdrawn', hkind'⟩ := run_tokenOf htoken hdrawn
      (dispatching.run_append_of_run hbefore hstepped) hkind
    have houtdated := superseded_outdated (run_tokenOf htoken hdrawn hbefore hkind).1 hu hkind'
      hsupersedes
    obtain ⟨-, hlater⟩ := run_tokenOf htoken hdrawn' hafter houtdated
    unfold MemorySkeinStore.markDispatched
    split
    · rfl
    next intent hintent =>
      exact if_neg fun htoken => hlater intent hintent htoken
  no_run_intent := by
    intro w w₁ w₂ w₃ call draws receipt history k query tokens claim _ hcommits hk hstep hrun hspared
      _ hclaim hid
    have hterminal := run_terminal hrun hspared (hcommits.cancelled hk hstep).2
    obtain ⟨intent, -, hkind, hlive, -⟩ := claimed_slot hclaim
    rw [hid] at hlive
    cases hcancel : claim.kind with
    | cancel => rfl
    | run => exact absurd (.inr (.inl ⟨hkind.trans hcancel, hterminal⟩)) hlive

open MemorySkeinStore in
theorem rivalStore_intents_kept : (⟨rivalStore, []⟩ : DispatchWorld ℕ).IntentsKept :=
  dispatch_intents_kept ⟨rivalStore, []⟩ rfl

end DispatchWorld
end Skein
