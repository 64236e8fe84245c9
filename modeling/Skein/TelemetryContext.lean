import Mathlib.Logic.Function.Basic
import Skein.Machine

/-!
# The run context of several telemetry sinks

`combineTelemetrySinks(...).withRunContext` wraps the body once for each sink that has a run
context, the first sink outermost. A wrapper remembers the promise that its first call inward
returned; a sink that throws before that is reported and passed over. What a sink does with the
body it is given, and when, is up to the sink; it ends by throwing, or with the result of that
body. A body may also throw before it returns a promise, which leaves nothing to remember.
-/
namespace Skein

structure TelemetrySink where
  name : String
  hasRunContext : Bool

/-- The sinks that wrap the body. -/
def contextualSinks (sinks : List (Option TelemetrySink)) : List TelemetrySink :=
  sinks.reduceOption.filter TelemetrySink.hasRunContext

/-- What one call of the body comes to. -/
inductive BodyCall (E T : Type*)
  | throws (error : E)
  | promises (outcome : Except E T)

def BodyCall.outcome {E T : Type*} : BodyCall E T → Except E T
  | throws error => .error error
  | promises outcome => outcome

/-- Where a call of a wrapper is; it awaits the promise it remembers once its sink has thrown. -/
inductive WrapperPhase (E T : Type*)
  | idle
  | inSink
  | awaiting
  | settled (outcome : Except E T)

structure Wrapper (E T : Type*) where
  phase : WrapperPhase E T := .idle
  started : Bool := false

/-- A call of `withRunContext`: its wrappers from the outermost in, how often the body was
called, what it promised, and what was reported. -/
structure ContextRun (E T : Type*) where
  wrappers : ℕ → Wrapper E T := fun _ => {}
  calls : ℕ := 0
  promised : Option (Except E T) := none
  bodySettled : Bool := false
  reported : List (E × String) := []

/-- What happens next; `i` is the wrapper it happens to. -/
inductive ContextTurn (E : Type*)
  /-- The sink calls the body it was given, also when it has ended. -/
  | sinkCalls (i : ℕ)
  /-- The sink throws, and the reporter may throw in turn. -/
  | sinkThrows (i : ℕ) (error : E) (reporterThrows : Bool)
  /-- The sink returns the result of the body it was given. -/
  | sinkReturns (i : ℕ)
  /-- The promise that the wrapper awaits settles. -/
  | adopts (i : ℕ)
  | bodySettles

section Steps
variable {E T : Type*} (body : ℕ → BodyCall E T) (sinks : List TelemetrySink)

namespace ContextRun
variable (s : ContextRun E T)

def setWrapper (i : ℕ) (w : Wrapper E T) : ContextRun E T :=
  { s with wrappers := Function.update s.wrappers i w }

/-- The call inward: of wrapper `i`, or of the body behind the last. What is thrown at once
comes back as an error. -/
def invoke (i : ℕ) : Option E × ContextRun E T :=
  if i < sinks.length then (none, s.setWrapper i { phase := .inSink })
  else match body s.calls with
    | .throws error => (some error, { s with calls := s.calls + 1 })
    | .promises outcome => (none, { s with calls := s.calls + 1, promised := some outcome })

/-- `runBody` of wrapper `i`. -/
def runBody (i : ℕ) : Option E × ContextRun E T :=
  if (s.wrappers i).started then (none, s)
  else match s.invoke body sinks (i + 1) with
    | (some error, s) => (some error, s)
    | (none, s) => (none, s.setWrapper i { s.wrappers i with started := true })

def setPhase (i : ℕ) (phase : WrapperPhase E T) : ContextRun E T :=
  s.setWrapper i { s.wrappers i with phase }

/-- What the promise of wrapper `i`, or of the body, has settled to. -/
def outcomeOf (i : ℕ) : Option (Except E T) :=
  if i < sinks.length then
    match (s.wrappers i).phase with
    | .settled outcome => some outcome
    | .idle | .inSink | .awaiting => none
  else if s.bodySettled then s.promised else none

/-- What the call of `withRunContext` has come to. -/
def result : Option (Except E T) := s.outcomeOf sinks 0

/-- The `catch` of wrapper `i`. -/
def caught (i : ℕ) (name : String) (error : E) (reporterThrows : Bool) : ContextRun E T :=
  if (s.wrappers i).started then s.setPhase i .awaiting
  else
    let reported := if reporterThrows then s.reported else s.reported ++ [(error, name)]
    match runBody body sinks { s with reported } i with
    | (none, s) => s.setPhase i .awaiting
    | (some thrown, s) => s.setPhase i (.settled (.error thrown))

end ContextRun

def contextStep (s : ContextRun E T) : ContextTurn E → Option (ContextRun E T)
  | .sinkCalls i =>
    match sinks[i]?, (s.wrappers i).phase with
    | none, _ | some _, .idle => none
    | some _, .inSink | some _, .awaiting | some _, .settled _ => some (s.runBody body sinks i).2
  | .sinkThrows i error reporterThrows =>
    match sinks[i]?, (s.wrappers i).phase with
    | some sink, .inSink => some (s.caught body sinks i sink.name error reporterThrows)
    | _, _ => none
  | .sinkReturns i =>
    match sinks[i]?, (s.wrappers i).phase, s.outcomeOf sinks (i + 1) with
    | some _, .inSink, some (.ok value) => some (s.setPhase i (.settled (.ok value)))
    | _, _, _ => none
  | .adopts i =>
    match sinks[i]?, (s.wrappers i).phase, s.outcomeOf sinks (i + 1) with
    | some _, .awaiting, some outcome => some (s.setPhase i (.settled outcome))
    | _, _, _ => none
  | .bodySettles => if s.promised.isSome then some { s with bodySettled := true } else none

def contextRuns : Machine (ContextRun E T) (ContextTurn E) where
  step := contextStep body sinks

/-- The call of the outermost wrapper. -/
def calledContext : ContextRun E T := (ContextRun.invoke body sinks {} 0).2

end Steps

namespace ContextRun
variable {E T : Type*} {body : ℕ → BodyCall E T} {sinks : List TelemetrySink}
  {s t : ContextRun E T} {i j : ℕ}

@[simp] theorem setWrapper_wrappers (w : Wrapper E T) :
    (s.setWrapper i w).wrappers = Function.update s.wrappers i w := rfl

@[simp] theorem setWrapper_calls (w : Wrapper E T) : (s.setWrapper i w).calls = s.calls := rfl

@[simp] theorem setWrapper_promised (w : Wrapper E T) :
    (s.setWrapper i w).promised = s.promised := rfl

@[simp] theorem setWrapper_bodySettled (w : Wrapper E T) :
    (s.setWrapper i w).bodySettled = s.bodySettled := rfl

/-- A wrapper that has one inside it awaits that one's promise. -/
theorem outcomeOf_of_lt (h : i < sinks.length) {outcome : Except E T} :
    s.outcomeOf sinks i = some outcome ↔ (s.wrappers i).phase = .settled outcome := by
  unfold outcomeOf
  rw [if_pos h]
  split <;> simp_all

theorem outcomeOf_body (h : ¬i < sinks.length) {outcome : Except E T} :
    s.outcomeOf sinks i = some outcome ↔ s.bodySettled = true ∧ s.promised = some outcome := by
  unfold outcomeOf
  rw [if_neg h]
  split <;> simp_all

theorem runBody_started (h : (s.wrappers i).started = true) :
    s.runBody body sinks i = (none, s) := by
  simp [runBody, h]

/-- Not the last wrapper: the next one is called. -/
theorem runBody_next (hi : i + 1 < sinks.length) (h : (s.wrappers i).started = false) :
    s.runBody body sinks i =
      (none, (s.setWrapper (i + 1) { phase := .inSink }).setWrapper i
        { s.wrappers i with started := true }) := by
  simp [runBody, h, invoke, hi]

theorem runBody_throws (hi : ¬i + 1 < sinks.length) (h : (s.wrappers i).started = false)
    {error : E} (hbody : body s.calls = .throws error) :
    s.runBody body sinks i = (some error, { s with calls := s.calls + 1 }) := by
  simp [runBody, h, invoke, hi, hbody]

theorem runBody_promises (hi : ¬i + 1 < sinks.length) (h : (s.wrappers i).started = false)
    {outcome : Except E T} (hbody : body s.calls = .promises outcome) :
    s.runBody body sinks i =
      (none, ({ s with calls := s.calls + 1, promised := some outcome } :
        ContextRun E T).setWrapper i { s.wrappers i with started := true }) := by
  simp [runBody, h, invoke, hi, hbody]

/-- Where wrapper `i` is after its sink has called inward, or after the `catch` has done so. -/
def PhaseAfterCall (turn : ContextTurn E) (i : ℕ) (before caught after : WrapperPhase E T) : Prop :=
  (turn = .sinkCalls i ∧ before ≠ .idle ∧ after = before) ∨
    (turn ≠ .sinkCalls i ∧ before = .inSink ∧ after = caught)

/-- What a turn changes. -/
inductive Effect (body : ℕ → BodyCall E T) (sinks : List TelemetrySink) (turn : ContextTurn E)
    (s t : ContextRun E T) : Prop
  | none (hwrappers : t.wrappers = s.wrappers) (hcalls : t.calls = s.calls)
    (hpromised : t.promised = s.promised)
  /-- A sink has thrown whose wrapper remembers a promise. -/
  | awaits (i : ℕ) (hi : i < sinks.length) (hphase : (s.wrappers i).phase = .inSink)
    (hstarted : (s.wrappers i).started = true)
    (ht : t = s.setPhase i .awaiting)
  /-- A wrapper takes over what the next one, or the body, has come to. -/
  | settles (i : ℕ) (hi : i < sinks.length) (outcome : Except E T)
    (hphase : (s.wrappers i).phase = .inSink ∨ (s.wrappers i).phase = .awaiting)
    (houtcome : s.outcomeOf sinks (i + 1) = some outcome)
    (ht : t = s.setPhase i (.settled outcome))
  /-- The next wrapper is called. -/
  | enters (i : ℕ) (hi : i + 1 < sinks.length) (hstarted : (s.wrappers i).started = false)
    (phase : WrapperPhase E T)
    (hphase : PhaseAfterCall turn i (s.wrappers i).phase .awaiting phase)
    (hwrappers : t.wrappers = Function.update
      (Function.update s.wrappers (i + 1) { phase := .inSink }) i { phase, started := true })
    (hcalls : t.calls = s.calls) (hpromised : t.promised = s.promised)
  /-- The body is called, and promises. -/
  | promises (i : ℕ) (hi : i + 1 = sinks.length) (hstarted : (s.wrappers i).started = false)
    (phase : WrapperPhase E T)
    (hphase : PhaseAfterCall turn i (s.wrappers i).phase .awaiting phase)
    (outcome : Except E T) (hbody : body s.calls = .promises outcome)
    (hwrappers : t.wrappers = Function.update s.wrappers i { phase, started := true })
    (hcalls : t.calls = s.calls + 1) (hpromised : t.promised = some outcome)
  /-- The body is called, and throws at once. -/
  | throws (i : ℕ) (hi : i + 1 = sinks.length) (hstarted : (s.wrappers i).started = false)
    (error : E) (phase : WrapperPhase E T)
    (hphase : PhaseAfterCall turn i (s.wrappers i).phase (.settled (.error error)) phase)
    (hbody : body s.calls = .throws error)
    (hwrappers : t.wrappers = Function.update s.wrappers i { phase, started := false })
    (hcalls : t.calls = s.calls + 1) (hpromised : t.promised = s.promised)

/-- The sink of wrapper `i` calls inward. -/
theorem effect_sinkCalls (hi : i < sinks.length) (hphase : (s.wrappers i).phase ≠ .idle) :
    Effect body sinks (.sinkCalls i) s (s.runBody body sinks i).2 := by
  have hafter : ∀ caught, PhaseAfterCall (.sinkCalls i : ContextTurn E) i (s.wrappers i).phase
      caught (s.wrappers i).phase := fun _ => .inl ⟨rfl, hphase, rfl⟩
  cases hstarted : (s.wrappers i).started with
  | true =>
    rw [runBody_started hstarted]
    exact .none rfl rfl rfl
  | false =>
    by_cases hnext : i + 1 < sinks.length
    · rw [runBody_next hnext hstarted]
      exact .enters i hnext hstarted _ (hafter _) rfl rfl rfl
    · have hlast : i + 1 = sinks.length := by omega
      cases hbody : body s.calls with
      | throws error =>
        rw [runBody_throws hnext hstarted hbody]
        refine .throws i hlast hstarted error _ (hafter _) hbody ?_ rfl rfl
        rw [← hstarted, Function.update_eq_self]
      | promises outcome =>
        rw [runBody_promises hnext hstarted hbody]
        exact .promises i hlast hstarted _ (hafter _) outcome hbody rfl rfl rfl

/-- The sink of wrapper `i` throws. -/
theorem effect_sinkThrows (hi : i < sinks.length) (hphase : (s.wrappers i).phase = .inSink)
    (name : String) (error : E) (reporterThrows : Bool) :
    Effect body sinks (.sinkThrows i error reporterThrows) s
      (s.caught body sinks i name error reporterThrows) := by
  have hafter : ∀ caught, PhaseAfterCall (.sinkThrows i error reporterThrows) i
      (s.wrappers i).phase caught caught := fun _ => .inr ⟨by simp, hphase, rfl⟩
  unfold caught
  cases hstarted : (s.wrappers i).started with
  | true =>
    rw [if_pos rfl]
    exact .awaits i hi hphase hstarted rfl
  | false =>
    rw [if_neg Bool.false_ne_true]
    dsimp only
    generalize (if reporterThrows then s.reported else s.reported ++ [(error, name)]) = reported
    by_cases hnext : i + 1 < sinks.length
    · rw [runBody_next (s := { s with reported }) hnext hstarted]
      refine .enters i hnext hstarted _ (hafter _) ?_ rfl rfl
      simp [setPhase]
    · have hlast : i + 1 = sinks.length := by omega
      cases hbody : body s.calls with
      | throws thrown =>
        rw [runBody_throws (s := { s with reported }) hnext hstarted hbody]
        refine .throws i hlast hstarted thrown _ (hafter _) hbody ?_ rfl rfl
        simp [setPhase, hstarted]
      | promises outcome =>
        rw [runBody_promises (s := { s with reported }) hnext hstarted hbody]
        refine .promises i hlast hstarted _ (hafter _) outcome hbody ?_ rfl rfl
        simp [setPhase]

/-- Everything that a turn can do. -/
theorem effect_of_step {turn : ContextTurn E} (h : contextStep body sinks s turn = some t) :
    Effect body sinks turn s t := by
  cases turn with
  | sinkCalls i =>
    simp only [contextStep] at h
    cases hsink : sinks[i]? with
    | none => simp [hsink] at h
    | some sink =>
      have hi := (List.getElem?_eq_some_iff.mp hsink).1
      cases hphase : (s.wrappers i).phase with
      | idle => simp [hsink, hphase] at h
      | inSink | awaiting | settled =>
        simp only [hsink, hphase, Option.some.injEq] at h
        rw [← h]
        exact effect_sinkCalls hi (by simp [hphase])
  | sinkThrows i error reporterThrows =>
    simp only [contextStep] at h
    split at h
    next sink hsink hphase =>
      cases h
      exact effect_sinkThrows (List.getElem?_eq_some_iff.mp hsink).1 hphase _ _ _
    · cases h
  | sinkReturns i =>
    simp only [contextStep] at h
    split at h
    next sink value hsink hphase houtcome =>
      cases h
      exact .settles i (List.getElem?_eq_some_iff.mp hsink).1 _ (.inl hphase) houtcome rfl
    · cases h
  | adopts i =>
    simp only [contextStep] at h
    split at h
    next sink outcome hsink hphase houtcome =>
      cases h
      exact .settles i (List.getElem?_eq_some_iff.mp hsink).1 _ (.inr hphase) houtcome rfl
    · cases h
  | bodySettles =>
    simp only [contextStep] at h
    split_ifs at h
    cases h
    exact .none rfl rfl rfl

/-- A wrapper remembers a promise exactly where the next one has been called, the last where
the body has promised; and what has settled has settled all the way in. -/
structure Linked (sinks : List TelemetrySink) (s : ContextRun E T) : Prop where
  called : (s.wrappers 0).phase ≠ .idle
  idle : ∀ i, (s.wrappers i).phase = .idle → (s.wrappers i).started = false
  awaiting : ∀ i, (s.wrappers i).phase = .awaiting → (s.wrappers i).started = true
  next : ∀ i, i + 1 < sinks.length →
    ((s.wrappers i).started = true ↔ (s.wrappers (i + 1)).phase ≠ .idle)
  last : ∀ i, i + 1 = sinks.length → ((s.wrappers i).started = true ↔ s.promised.isSome = true)
  settled : ∀ i outcome, i + 1 < sinks.length → (s.wrappers i).phase = .settled outcome →
    (s.wrappers (i + 1)).phase = .settled outcome

theorem PhaseAfterCall.ne_idle {turn : ContextTurn E} {before caught after : WrapperPhase E T}
    (h : PhaseAfterCall turn i before caught after) (hcaught : caught ≠ .idle) :
    before ≠ .idle ∧ after ≠ .idle := by
  obtain ⟨-, hne, rfl⟩ | ⟨-, rfl, rfl⟩ := h
  · exact ⟨hne, hne⟩
  · exact ⟨by simp, hcaught⟩

theorem Linked.step {turn : ContextTurn E} (h : Linked sinks s)
    (heffect : Effect body sinks turn s t) : Linked sinks t := by
  cases heffect with
  | none hwrappers hcalls hpromised =>
    exact ⟨by rw [hwrappers]; exact h.called, by rw [hwrappers]; exact h.idle,
      by rw [hwrappers]; exact h.awaiting, by rw [hwrappers]; exact h.next,
      by rw [hwrappers, hpromised]; exact h.last, by rw [hwrappers]; exact h.settled⟩
  | awaits i hi hphase hstarted ht =>
    subst ht
    constructor <;> simp only [setPhase, setWrapper_wrappers, setWrapper_promised,
      Function.update_apply] <;> grind [Linked]
  | settles i hi outcome hphase houtcome ht =>
    subst ht
    have hnext : i + 1 < sinks.length → (s.wrappers (i + 1)).phase = .settled outcome :=
      fun hlt => (outcomeOf_of_lt hlt).mp houtcome
    constructor <;> simp only [setPhase, setWrapper_wrappers, setWrapper_promised,
      Function.update_apply] <;> grind [Linked]
  | enters i hi hstarted phase hphase hwrappers hcalls hpromised =>
    have hidle : (s.wrappers (i + 1)).phase = .idle := by
      by_contra hne
      simp [(h.next i hi).mpr hne] at hstarted
    have hafter := hphase.ne_idle (by simp)
    constructor <;> simp only [hwrappers, hpromised, Function.update_apply] <;>
      grind [Linked, PhaseAfterCall]
  | promises i hi hstarted phase hphase outcome hbody hwrappers hcalls hpromised =>
    have hafter := hphase.ne_idle (by simp)
    constructor <;> simp only [hwrappers, hpromised, Function.update_apply] <;>
      grind [Linked, PhaseAfterCall]
  | throws i hi hstarted error phase hphase hbody hwrappers hcalls hpromised =>
    have hafter := hphase.ne_idle (by simp)
    constructor <;> simp only [hwrappers, hpromised, Function.update_apply] <;>
      grind [Linked, PhaseAfterCall]

/-- Nobody has called the body, or it ran once and the last wrapper knows of nothing else. -/
def RanOnce (body : ℕ → BodyCall E T) (last : ℕ) (s : ContextRun E T) : Prop :=
  (s.calls = 0 ∧ s.promised = none ∧ ∀ outcome, (s.wrappers last).phase ≠ .settled outcome) ∨
    s.calls = 1 ∧ (∀ outcome, body 0 = .promises outcome → s.promised = some outcome) ∧
      (∀ error, body 0 = .throws error →
        s.promised = none ∧ (s.wrappers last).phase = .settled (.error error)) ∧
      ∀ outcome, (s.wrappers last).phase = .settled outcome → outcome = (body 0).outcome

/-- The body ran, and does so again before the last wrapper settles. -/
structure RunsAgain (last : ℕ) (s : ContextRun E T) : Prop where
  ran : 1 ≤ s.calls
  promised : s.promised.isSome = true → 2 ≤ s.calls
  settled : ∀ outcome, (s.wrappers last).phase = .settled outcome → 2 ≤ s.calls

/-- The last sink does not call a body that throws at once. -/
def SparesBody (body : ℕ → BodyCall E T) (last : ℕ) (turn : ContextTurn E) : Prop :=
  ∀ error, body 0 = .throws error → turn ≠ .sinkCalls last

variable {last : ℕ} {turn : ContextTurn E}

/-- While its sink spares it, the body is only called by a wrapper that finds it not called. -/
theorem RanOnce.calls_eq_zero (hlast : last + 1 = sinks.length) (hlinked : Linked sinks s)
    (h : RanOnce body last s) (hspares : SparesBody body last turn)
    (hstarted : (s.wrappers last).started = false) {caught after : WrapperPhase E T}
    (hphase : PhaseAfterCall turn last (s.wrappers last).phase caught after) : s.calls = 0 := by
  rcases h with h | ⟨-, hpromises, hthrows, -⟩
  · exact h.1
  · cases hbody : body 0 with
    | promises outcome =>
      have hsome : s.promised.isSome = true := by simp [hpromises outcome hbody]
      rw [(hlinked.last last hlast).mpr hsome] at hstarted
      cases hstarted
    | throws error =>
      obtain ⟨hturn, -⟩ | ⟨-, hsink, -⟩ := hphase
      · exact absurd hturn (hspares error hbody)
      · rw [(hthrows error hbody).2] at hsink
        cases hsink

theorem RanOnce.step (hlast : last + 1 = sinks.length) (hlinked : Linked sinks s)
    (h : RanOnce body last s) (hspares : SparesBody body last turn)
    (heffect : Effect body sinks turn s t) : RanOnce body last t := by
  cases heffect with
  | none hwrappers hcalls hpromised =>
    simpa only [RanOnce, hwrappers, hcalls, hpromised] using h
  | awaits i hi hphase hstarted ht =>
    subst ht
    simp only [RanOnce, setPhase, setWrapper_wrappers, setWrapper_promised, setWrapper_calls,
      Function.update_apply] at h ⊢
    grind [Linked]
  | settles i hi outcome hphase houtcome ht =>
    subst ht
    by_cases hsame : i = last
    · subst hsame
      obtain ⟨-, hpromised⟩ := (outcomeOf_body (by omega)).mp houtcome
      rcases h with h | ⟨hcalls, hpromises, hthrows, -⟩
      · rw [h.2.1] at hpromised
        cases hpromised
      · cases hbody : body 0 with
        | throws error =>
          rw [(hthrows error hbody).1] at hpromised
          cases hpromised
        | promises promise =>
          have houtcome : outcome = promise := by
            rw [hpromises promise hbody] at hpromised
            exact (Option.some.inj hpromised).symm
          refine .inr ⟨hcalls, hpromises, fun error h => ?_, fun other hother => ?_⟩
          · rw [hbody] at h
            cases h
          · simp only [setPhase, setWrapper_wrappers, Function.update_self,
              WrapperPhase.settled.injEq] at hother
            rw [← hother, houtcome, hbody, BodyCall.outcome]
    · simpa only [RanOnce, setPhase, setWrapper_wrappers, setWrapper_promised, setWrapper_calls,
        Function.update_of_ne (Ne.symm hsame)] using h
  | enters i hi hstarted phase hphase hwrappers hcalls hpromised =>
    have hne : i ≠ last := by omega
    have hidle : i + 1 = last → (s.wrappers last).phase = .idle := by
      rintro rfl
      by_contra hne
      simp [(hlinked.next i hi).mpr hne] at hstarted
    simp only [RanOnce, hwrappers, hcalls, hpromised, Function.update_apply] at h ⊢
    grind
  | promises i hi hstarted phase hphase outcome hbody hwrappers hcalls hpromised =>
    obtain rfl : i = last := by omega
    have hzero := h.calls_eq_zero hlast hlinked hspares hstarted hphase
    rw [hzero] at hbody
    simp only [RanOnce, hwrappers, hcalls, hpromised, hzero, Function.update_self] at h ⊢
    grind [PhaseAfterCall]
  | throws i hi hstarted error phase hphase hbody hwrappers hcalls hpromised =>
    obtain rfl : i = last := by omega
    have hzero := h.calls_eq_zero hlast hlinked hspares hstarted hphase
    rw [hzero] at hbody
    have hcaught : phase = .settled (.error error) := by
      obtain ⟨hturn, -⟩ | ⟨-, -, hphase⟩ := hphase
      · exact absurd hturn (hspares error hbody)
      · exact hphase
    simp only [RanOnce, hwrappers, hcalls, hpromised, hzero, hcaught, Function.update_self] at h ⊢
    grind [BodyCall.outcome]

/-- A body that throws at once has been called by the last sink. -/
theorem RanOnce.again (hlast : last + 1 = sinks.length) (hlinked : Linked sinks s)
    (h : RanOnce body last s) (hcalled : ¬SparesBody body last turn)
    (hstep : contextStep body sinks s turn = some t) : RunsAgain last t := by
  have hthrows : ∃ error, body 0 = .throws error ∧ turn = .sinkCalls last := by
    simpa [SparesBody] using hcalled
  obtain ⟨error, hbody, rfl⟩ := hthrows
  have hpromised : s.promised = none := by
    rcases h with h | ⟨-, -, hthrows, -⟩
    · exact h.2.1
    · exact (hthrows error hbody).1
  have hstarted : (s.wrappers last).started = false := by
    have hnone := (hlinked.last last hlast).not
    simpa [hpromised] using hnone
  have hnot : ¬last + 1 < sinks.length := by omega
  have ht : t = (s.runBody body sinks last).2 := by
    simp only [contextStep] at hstep
    split at hstep <;> simp_all
  subst ht
  cases hnext : body s.calls with
  | throws thrown =>
    rw [runBody_throws hnot hstarted hnext]
    refine ⟨Nat.le_add_left 1 s.calls, fun h => ?_, fun outcome hphase => ?_⟩
    · simp [hpromised] at h
    · rcases h with ⟨-, -, hopen⟩ | ⟨hcalls, -⟩
      · exact absurd hphase (hopen outcome)
      · simp [hcalls]
  | promises outcome =>
    rw [runBody_promises hnot hstarted hnext]
    have hcalls : s.calls = 1 := by
      rcases h with h | h
      · rw [h.1, hbody] at hnext
        cases hnext
      · exact h.1
    constructor <;> simp [hcalls]

theorem RunsAgain.step (hlast : last + 1 = sinks.length) (h : RunsAgain last s) (heffect : Effect body sinks turn s t) : RunsAgain last t := by
  have hran := h.ran
  cases heffect with
  | none hwrappers hcalls hpromised =>
    exact ⟨by omega, by simpa [hpromised, hcalls] using h.promised,
      by simpa [hwrappers, hcalls] using h.settled⟩
  | awaits i hi hphase hstarted ht =>
    subst ht
    constructor <;> simp only [setPhase, setWrapper_wrappers, setWrapper_promised,
      setWrapper_calls, Function.update_apply] <;> grind [RunsAgain]
  | settles i hi outcome hphase houtcome ht =>
    subst ht
    have hsome : i = last → s.promised.isSome = true := by
      rintro rfl
      simp [((outcomeOf_body (by omega)).mp houtcome).2]
    constructor <;> simp only [setPhase, setWrapper_wrappers, setWrapper_promised,
      setWrapper_calls, Function.update_apply] <;> grind [RunsAgain]
  | enters i hi hstarted phase hphase hwrappers hcalls hpromised =>
    have hne : i ≠ last := by omega
    constructor <;> simp only [hwrappers, hpromised, hcalls, Function.update_apply] <;>
      grind [RunsAgain]
  | promises i hi hstarted phase hphase outcome hbody hwrappers hcalls hpromised =>
    constructor <;> intros <;> omega
  | throws i hi hstarted error phase hphase hbody hwrappers hcalls hpromised =>
    constructor <;> intros <;> omega

theorem linked_called (hsinks : sinks ≠ []) : Linked sinks (calledContext body sinks) := by
  have hlength := List.length_pos_iff.mpr hsinks
  have hcalled : calledContext body sinks = setWrapper {} 0 { phase := .inSink } := by
    simp [calledContext, invoke, hlength]
  rw [hcalled]
  constructor <;> simp only [setWrapper_wrappers, setWrapper_promised, Function.update_apply] <;>
    grind

theorem ranOnce_called (hlast : last + 1 = sinks.length) :
    RanOnce body last (calledContext body sinks) := by
  refine .inl ?_
  simp only [calledContext, invoke, show 0 < sinks.length by omega, if_true]
  refine ⟨rfl, rfl, fun outcome => ?_⟩
  simp only [setWrapper_wrappers, Function.update_apply]
  split_ifs <;> simp

/-- What the outermost wrapper has come to, the last has. -/
theorem Linked.settled_last (h : Linked sinks s) {outcome : Except E T}
    (hsettled : (s.wrappers 0).phase = .settled outcome) (hi : i < sinks.length) :
    (s.wrappers i).phase = .settled outcome := by
  induction i with
  | zero => exact hsettled
  | succ i ih => exact h.settled i outcome hi (ih (by omega))

/-- Every sink that was called has ended, and every promise has settled that can. -/
structure Quiet (body : ℕ → BodyCall E T) (sinks : List TelemetrySink) (s : ContextRun E T) :
    Prop where
  ended : ∀ i < sinks.length, (s.wrappers i).phase ≠ .inSink
  promised : s.promised.isSome = true → s.bodySettled = true
  adopted : ∀ i, contextStep body sinks s (.adopts i) = none

/-- A wrapper that was called settles once what it awaits has. -/
theorem Linked.settles (h : Linked sinks s) (hquiet : Quiet body sinks s) (hi : i < sinks.length)
    (hphase : (s.wrappers i).phase ≠ .idle)
    (hinner : (s.wrappers i).started = true →
      ∃ outcome, s.outcomeOf sinks (i + 1) = some outcome) :
    ∃ outcome, (s.wrappers i).phase = .settled outcome := by
  cases hcase : (s.wrappers i).phase with
  | idle => exact absurd hcase hphase
  | inSink => exact absurd hcase (hquiet.ended i hi)
  | settled outcome => exact ⟨outcome, rfl⟩
  | awaiting =>
    obtain ⟨outcome, houtcome⟩ := hinner (h.awaiting i hcase)
    have hadopted := hquiet.adopted i
    simp [contextStep, hcase, houtcome, List.getElem?_eq_getElem hi] at hadopted

/-- From the last wrapper out, whatever was called settles; `n` wrappers are inside of `i`. -/
theorem Linked.settled_of_quiet (h : Linked sinks s) (hquiet : Quiet body sinks s) {n : ℕ} :
    ∀ {i}, i + 1 + n = sinks.length → (s.wrappers i).phase ≠ .idle →
      ∃ outcome, (s.wrappers i).phase = .settled outcome := by
  induction n with
  | zero =>
    intro i hi hphase
    refine h.settles hquiet (by omega) hphase fun hstarted => ?_
    have hsome := (h.last i hi).mp hstarted
    obtain ⟨outcome, hpromised⟩ := Option.isSome_iff_exists.mp hsome
    exact ⟨outcome, (outcomeOf_body (by omega)).mpr ⟨hquiet.promised hsome, hpromised⟩⟩
  | succ n ih =>
    intro i hi hphase
    refine h.settles hquiet (by omega) hphase fun hstarted => ?_
    have hlt : i + 1 < sinks.length := by omega
    obtain ⟨outcome, hsettled⟩ := ih (i := i + 1) (by omega) ((h.next i hlt).mp hstarted)
    exact ⟨outcome, (outcomeOf_of_lt hlt).mpr hsettled⟩

end ContextRun

section Result
variable {E T : Type*} (body : ℕ → BodyCall E T) (sinks : List (Option TelemetrySink))

/-- Whatever the sinks and the reporter do, the call settles once they have ended and the body
has; and where it settles, the body ran once and its outcome is the result, unless the last sink
called a body that throws before it promises anything. -/
theorem combinedContext_runsOnce_iff (hsinks : contextualSinks sinks ≠ [])
    (turns : List (ContextTurn E)) (s : ContextRun E T)
    (hrun : (contextRuns body (contextualSinks sinks)).run
      (calledContext body (contextualSinks sinks)) turns = some s) :
    (∀ outcome, s.result (contextualSinks sinks) = some outcome →
      (s.calls = 1 ∧ outcome = (body 0).outcome ↔
        (contextRuns body (contextualSinks sinks)).Along
          (fun _ turn => ContextRun.SparesBody body ((contextualSinks sinks).length - 1) turn)
          (calledContext body (contextualSinks sinks)) turns)) ∧
    (ContextRun.Quiet body (contextualSinks sinks) s →
      ∃ outcome, s.result (contextualSinks sinks) = some outcome) := by
  generalize contextualSinks sinks = sinks at *
  have hlength := List.length_pos_iff.mpr hsinks
  have hlast : sinks.length - 1 + 1 = sinks.length := by omega
  have hlinked : ContextRun.Linked sinks s := Machine.run_invariant
    (I := fun r => ContextRun.Linked sinks r)
    (fun _ _ _ hs hstep => hs.step (ContextRun.effect_of_step hstep))
    (ContextRun.linked_called hsinks) hrun
  refine ⟨fun outcome hresult => ?_, fun hquiet => ?_⟩
  · have hsettled := (ContextRun.outcomeOf_of_lt hlength).mp hresult
    have hinner := hlinked.settled_last hsettled (i := sinks.length - 1) (by omega)
    have hsplit := Machine.run_along_or (M := contextRuns body sinks)
      (I := fun r => ContextRun.Linked sinks r ∧ ContextRun.RanOnce body (sinks.length - 1) r)
      (B := fun r => ContextRun.RunsAgain (sinks.length - 1) r)
      (C := fun _ turn => ContextRun.SparesBody body (sinks.length - 1) turn)
      (fun _ _ _ hs hspares hstep => ⟨hs.1.step (ContextRun.effect_of_step hstep),
        hs.2.step hlast hs.1 hspares (ContextRun.effect_of_step hstep)⟩)
      (fun _ _ _ hs hcalled hstep => hs.2.again hlast hs.1 hcalled hstep)
      (fun _ _ _ hs hstep => hs.step hlast (ContextRun.effect_of_step hstep))
      ⟨ContextRun.linked_called hsinks, ContextRun.ranOnce_called hlast⟩ hrun
    rcases hsplit with ⟨halong, -, hran⟩ | ⟨hmissed, hagain⟩
    · refine iff_of_true ?_ halong
      rcases hran with ⟨-, -, hopen⟩ | ⟨hcalls, -, -, houtcome⟩
      · exact absurd hinner (hopen outcome)
      · exact ⟨hcalls, houtcome outcome hinner⟩
    · refine iff_of_false (fun honce => ?_) hmissed
      have htwice := hagain.settled outcome hinner
      omega
  · obtain ⟨outcome, hsettled⟩ := hlinked.settled_of_quiet hquiet (n := sinks.length - 1) (i := 0)
      (by omega) hlinked.called
    exact ⟨outcome, (ContextRun.outcomeOf_of_lt hlength).mpr hsettled⟩

end Result

namespace ContextRun

def tracingSink : TelemetrySink where
  name := "otel"
  hasRunContext := true

/-- The sink calls the body and throws what the body threw. -/
def passedOn : List (ContextTurn String) := [.sinkCalls 0, .sinkThrows 0 "no invoke" false]

/-- Only the first call of the body throws; it is called again all the same, and its second
outcome is the result. -/
theorem thrownBody_runsTwice : ∃ body : ℕ → BodyCall String ℕ, ∃ s,
    (contextRuns body [tracingSink]).run (calledContext body [tracingSink])
        (passedOn ++ [.bodySettles, .adopts 0]) = some s ∧
      s.calls = 2 ∧ body 0 = .throws "no invoke" ∧ s.result [tracingSink] = some (.ok 7) ∧
        s.reported = [("no invoke", "otel")] :=
  ⟨fun call => if call = 0 then .throws "no invoke" else .promises (.ok 7), _, rfl, rfl, rfl, rfl,
    rfl⟩

def metricsSink : TelemetrySink where
  name := "metrics"
  hasRunContext := true

/-- The inner sink throws instead of calling the body, and the outer one after it has called. -/
def bothBreak : List (ContextTurn String) :=
  [.sinkCalls 0, .sinkThrows 1 "no exporter" false, .sinkThrows 0 "no invoke" false, .bodySettles,
    .adopts 1, .adopts 0]

/-- Sinks that break around a body that promises change nothing. -/
theorem brokenSink_runsOnce : ∃ s,
    (contextRuns (fun _ => .promises (.ok 7)) [tracingSink, metricsSink]).run
        (calledContext (fun _ => BodyCall.promises (.ok 7)) [tracingSink, metricsSink])
        bothBreak = some s ∧
      s.calls = 1 ∧ s.result [tracingSink, metricsSink] = some (.ok 7) ∧
        s.reported = [("no exporter", "metrics")] := by
  have hspared : ∀ turn, SparesBody (E := String) (fun _ => BodyCall.promises (.ok 7)) 1 turn := by
    intro turn error hthrows
    cases hthrows
  have hresult := (combinedContext_runsOnce_iff (fun _ => BodyCall.promises (.ok 7))
    [some tracingSink, none, some metricsSink] (by decide) bothBreak _ rfl).1 (.ok 7) rfl
  refine ⟨_, rfl, (hresult.mpr ?_).1, rfl, rfl⟩
  exact Machine.along_of_forall (fun turn _ _ => hspared turn) _

end ContextRun
end Skein
