import Mathlib.Algebra.Order.Floor.Ring
import Mathlib.Data.Rat.Floor
import Skein.DeliveryAttempts

/-!
# The retries of one delivery

With a queue the delays between the attempts are those of a queue job, which counts its own
attempts; without one they are computed from the count in the delivery's row. Both are run
here over one delivery: its first attempt, failures, lost jobs, recovery sweeps and
replays, one after the other. What is kept of a failure is the attempt and the delay
before the next one, without its jitter.
-/
namespace Skein

/-- `DeliveryRetryConfig`: both fields are positive where they are set. -/
structure DeliveryRetryConfig where
  maxAttempts : Option ℚ := none
  initialDelayMs : Option ℚ := none
  maxAttempts_pos : ∀ n ∈ maxAttempts, 0 < n := by simp
  initialDelayMs_pos : ∀ d ∈ initialDelayMs, 0 < d := by simp

namespace DeliveryRetryConfig
variable (retries : DeliveryRetryConfig)

def budget : ℚ := retries.maxAttempts.getD 12

def initial : ℚ := retries.initialDelayMs.getD 1000

/-- `MAX_ATTEMPT_DELAY_MS`. -/
def maxAttemptDelayMs : ℚ := 24 * 3600000

/-- The delay after `attempt`, without its jitter: `Math.round` rounds halves up. -/
def nominalDelayMs (attempt : ℕ) : ℚ :=
  min (⌊retries.initial * 2 ^ (attempt - 1) + 1 / 2⌋ : ℤ) maxAttemptDelayMs

/-- `nextAttemptDelayMs`. -/
def nextAttemptDelayMs (attempt : ℕ) (random : ℚ) : ℤ :=
  ⌊random * retries.nominalDelayMs attempt * (1 / 5) + retries.nominalDelayMs attempt * (1 - 1 / 5)⌋

def isFinalAttempt (attempt : ℕ) : Bool := retries.budget ≤ attempt

def remainingQueueAttempts (attempt : ℕ) : ℚ := max 1 (retries.budget - attempt)

theorem initial_pos : 0 < retries.initial := by
  unfold initial
  cases h : retries.initialDelayMs with
  | none => norm_num
  | some d => exact retries.initialDelayMs_pos d h

end DeliveryRetryConfig

/-- A job of the delivery queue. -/
structure QueueJob where
  attempts : ℚ
  attemptsMade : ℕ := 0
  /-- The `delay` of its exponential backoff. -/
  backoffDelay : ℚ
  deriving DecidableEq, Repr

namespace QueueJob

/-- The budget is over with the attempt that the job is making. -/
def isFinalAttempt (job : QueueJob) : Bool := job.attempts ≤ job.attemptsMade + 1

/-- The job after a failed attempt that is not its last. -/
def retried (job : QueueJob) : QueueJob := { job with attemptsMade := job.attemptsMade + 1 }

/-- How long the queue waits before the next attempt. -/
def waitMs (job : QueueJob) : ℚ := 2 ^ (job.attemptsMade - 1) * job.backoffDelay

end QueueJob

/-- `RedisDeliveryQueue.schedule` with a budget: an existing job is kept unless it is replaced. -/
def scheduleDelivery (retries : DeliveryRetryConfig) (job : Option QueueJob) (attempts : ℚ)
    (replace : Bool) : QueueJob :=
  ((if replace then none else job).getD
    { attempts := max 1 attempts, backoffDelay := retries.initial * 2 })

/-- A failed attempt and the delay before the next one, `none` where it was the last. -/
structure FailedAttempt where
  attempt : ℕ
  nextDelayMs : Option ℚ
  deriving DecidableEq, Repr

/-- One delivery: its row, its job, and the failures recorded so far. -/
structure DeliveryLife (J : Type*) where
  row : Option (Delivery J) := none
  job : Option QueueJob := none
  failures : List FailedAttempt := []

/-- What an attempt finds: its outcome, the clocks, the jitter, and whether the queue takes the
hand-off. -/
structure AttemptInput where
  failure : Option String
  now : Timestamp
  clock : Timestamp
  random : ℚ := 0
  handedOff : Bool := true

/-- What can happen to a delivery. -/
inductive DeliveryAction (J : Type*)
  /-- The engine settles the run and makes the first attempt, unless it crashes before. -/
  | finalize (create : Delivery J) (first : Option AttemptInput)
  /-- A run is settled without an attempt. -/
  | settle (create : Delivery J) (scheduled : Bool)
  /-- The next attempt of the driver. -/
  | attempt (x : AttemptInput)
  | loseJob
  | sweep (now : Timestamp) (scheduled : Bool)
  | replay (now : Timestamp) (scheduled : Bool)

section Steps
variable {J : Type*} (retries : DeliveryRetryConfig)

/-- `attemptDelivery`; with a queue it hands a retry over. -/
def attemptDelivery (queue : Bool) (life : DeliveryLife J) (row : Delivery J) (x : AttemptInput) :
    DeliveryLife J :=
  match x.failure with
  | none => { life with row := some (row.attempted .delivered x.now) }
  | some error =>
    if retries.isFinalAttempt row.attempt then
      { life with
        row := some (row.attempted (.dead error) x.now)
        failures := life.failures ++ [⟨row.attempt, none⟩] }
    else
      let delayMs := (retries.nextAttemptDelayMs row.attempt x.random).toNat
      let handedOff := queue && x.handedOff
      { row := some (row.attempted
          (.retrying (x.clock + if handedOff then delayMs + queueSweepMargin else delayMs) error)
          x.now)
        job := if handedOff then
            some (scheduleDelivery retries life.job (retries.remainingQueueAttempts row.attempt)
              false)
          else life.job
        failures := life.failures ++ [⟨row.attempt, some (retries.nominalDelayMs row.attempt)⟩] }

/-- `processDelivery`, as the queue runs it for a job. -/
def processDelivery (life : DeliveryLife J) (job : QueueJob) (row : Delivery J) (x : AttemptInput) :
    DeliveryLife J :=
  if row.status = .delivered ∨ row.status = .dead then { life with job := none }
  else
    let attempt := row.attempt + 1
    match x.failure with
    | none =>
      { life with row := some (row.attempted (.delivered (some attempt)) x.now), job := none }
    | some error =>
      if job.isFinalAttempt then
        { row := some (row.attempted (.dead error (some attempt)) x.now)
          job := none
          failures := life.failures ++ [⟨attempt, none⟩] }
      else
        let delayMs := (retries.nextAttemptDelayMs attempt x.random).toNat
        { row := some (row.attempted
            (.retrying (x.clock + delayMs + queueSweepMargin) error (some attempt)) x.now)
          job := some job.retried
          failures := life.failures ++ [⟨attempt, some job.retried.waitMs⟩] }

/-- A delivery as `finalizeWithDelivery` inserts it, its first attempt started. -/
def Delivery.firstClaimed (create : Delivery J) : Delivery J :=
  { create with status := .delivering, attempt := 1 }

/-- A delivery as `settle` inserts it. -/
def Delivery.enqueued (create : Delivery J) : Delivery J :=
  { create with status := .pending, attempt := 0 }

/-- `scheduleDelivery` for what a row has left. -/
def rescheduled (life : DeliveryLife J) (row : Delivery J) (replace scheduled : Bool) :
    DeliveryLife J :=
  if scheduled then
    { life with
      row := some row
      job := some (scheduleDelivery retries life.job (retries.remainingQueueAttempts row.attempt)
        replace) }
  else { life with row := some row }

/-- The driver with a queue. -/
def redisStep (life : DeliveryLife J) : DeliveryAction J → Option (DeliveryLife J)
  | .finalize create first =>
    if life.row.isSome then none
    else
      let inserted := { life with row := some create.firstClaimed }
      some (first.elim inserted (attemptDelivery retries true inserted create.firstClaimed))
  | .settle create scheduled =>
    if life.row.isSome then none
    else some (rescheduled retries life create.enqueued false scheduled)
  | .attempt x =>
    life.job.bind fun job => life.row.map fun row => processDelivery retries life job row x
  | .loseJob => some { life with job := none }
  | .sweep now scheduled =>
    (life.row.filter fun row => row.isLive && row.nextAttemptAt ≤ now).map fun row =>
      rescheduled retries life row false scheduled
  | .replay now scheduled =>
    (life.row.filter fun row => row.payload.isSome).map fun row =>
      rescheduled retries life (row.replayed now now) true scheduled

/-- The driver without: the worker claims a due row before it attempts it. -/
def polledStep (life : DeliveryLife J) : DeliveryAction J → Option (DeliveryLife J)
  | .finalize create first =>
    if life.row.isSome then none
    else
      let inserted := { life with row := some create.firstClaimed }
      some (first.elim inserted (attemptDelivery retries false inserted create.firstClaimed))
  | .settle create _ =>
    if life.row.isSome then none else some { life with row := some create.enqueued }
  | .attempt x =>
    (life.row.filter fun row => row.isLive && row.nextAttemptAt ≤ x.now).map fun row =>
      let claimed := row.claimed x.clock x.now
      attemptDelivery retries false { life with row := some claimed } claimed x
  | .loseJob => some life
  | .sweep _ _ => some life
  | .replay now _ =>
    (life.row.filter fun row => row.payload.isSome).map fun row =>
      { life with row := some (row.replayed now now) }

def redisDeliveries : Machine (DeliveryLife J) (DeliveryAction J) where
  step := redisStep retries

def polledDeliveries : Machine (DeliveryLife J) (DeliveryAction J) where
  step := polledStep retries

end Steps

/-- The policy for the failure of an attempt. -/
def FailedAttempt.Follows (retries : DeliveryRetryConfig) (failed : FailedAttempt) : Prop :=
  failed.nextDelayMs =
    if retries.isFinalAttempt failed.attempt then none
    else some (retries.nominalDelayMs failed.attempt)

instance (retries : DeliveryRetryConfig) (failed : FailedAttempt) :
    Decidable (failed.Follows retries) :=
  inferInstanceAs (Decidable (_ = _))

namespace DeliveryLife
variable {J : Type*}

/-- Every failure was followed by the delay of the policy, or by none where it was the last. -/
def FollowsPolicy (retries : DeliveryRetryConfig) (life : DeliveryLife J) : Prop :=
  ∀ failed ∈ life.failures, failed.Follows retries

/-- Every failure was the last just where the policy has it so. -/
def DiesByPolicy (retries : DeliveryRetryConfig) (life : DeliveryLife J) : Prop :=
  ∀ failed ∈ life.failures, failed.nextDelayMs = none ↔ retries.isFinalAttempt failed.attempt = true

end DeliveryLife

/-- The backoff of a queue job keeps the policy at its `made`-th attempt, the `attempt`-th of
the delivery: its delay is a whole number, and the job was added after one attempt and no delay
is clamped, or the delay is the clamp itself, or the job was added before any attempt and the
delay rounds up to one millisecond. -/
def BackoffFits (retries : DeliveryRetryConfig) (made attempt : ℕ) : Prop :=
  let delay := retries.initial * 2 ^ made
  (∃ whole : ℤ, delay = whole) ∧
    (attempt = made + 1 ∧ delay ≤ DeliveryRetryConfig.maxAttemptDelayMs ∨
      made + 1 < attempt ∧ delay = DeliveryRetryConfig.maxAttemptDelayMs ∨
      attempt = made ∧ delay = 1)

/-- A failure with attempts left meets the policy. -/
def KeepsPolicy {J : Type*} (retries : DeliveryRetryConfig) (life : DeliveryLife J) :
    DeliveryAction J → Prop
  | .attempt x =>
    ∀ job ∈ life.job, ∀ row ∈ life.row, row.status ≠ .delivered → row.status ≠ .dead →
      x.failure.isSome → ¬retries.isFinalAttempt (row.attempt + 1) →
      BackoffFits retries (job.attemptsMade + 1) (row.attempt + 1)
  | _ => True

section Attempts
variable {J : Type*} {retries : DeliveryRetryConfig} {life life' : DeliveryLife J}

/-- The delay a queue waits after the `made`-th attempt of a job. -/
theorem waitMs_retried {job : QueueJob} (hdelay : job.backoffDelay = retries.initial * 2) :
    job.retried.waitMs = retries.initial * 2 ^ (job.attemptsMade + 1) := by
  rw [QueueJob.waitMs, QueueJob.retried, Nat.add_sub_cancel, hdelay, pow_succ]
  ring

section Rounding
variable {delay base : ℚ} {clamp : ℤ}

theorem eq_round_iff (hdelay : 0 < delay) :
    delay = min ((⌊delay + 1 / 2⌋ : ℤ) : ℚ) clamp ↔
      (∃ whole : ℤ, delay = whole) ∧ delay ≤ clamp := by
  constructor
  · intro h
    refine ⟨⟨min ⌊delay + 1 / 2⌋ clamp, by rw [Int.cast_min]; exact h⟩, ?_⟩
    exact h.trans_le (min_le_right _ _)
  · rintro ⟨⟨whole, rfl⟩, hle⟩
    have hround : ⌊(whole : ℚ) + 1 / 2⌋ = whole := by
      rw [Int.floor_intCast_add]
      norm_num
    rw [hround, min_eq_left hle]

/-- A delay at least twice as long is met only by the clamp. -/
theorem eq_round_of_double (hdelay : 0 < delay) (hbase : 2 * delay ≤ base) :
    delay = min ((⌊base + 1 / 2⌋ : ℤ) : ℚ) clamp ↔
      (∃ whole : ℤ, delay = whole) ∧ delay = clamp := by
  constructor
  · intro h
    have hwhole : delay = ((min ⌊base + 1 / 2⌋ clamp : ℤ) : ℚ) := by
      rw [Int.cast_min]
      exact h
    refine ⟨⟨_, hwhole⟩, ?_⟩
    have hless : delay < ((⌊base + 1 / 2⌋ : ℤ) : ℚ) := by
      have hfloor : ((2 * min ⌊base + 1 / 2⌋ clamp : ℤ) : ℚ) ≤ ((⌊base + 1 / 2⌋ : ℤ) : ℚ) := by
        rw [Int.cast_le, Int.le_floor, Int.cast_mul, ← hwhole]
        push_cast
        linarith
      rw [Int.cast_mul, ← hwhole] at hfloor
      push_cast at hfloor
      linarith
    rcases min_choice ((⌊base + 1 / 2⌋ : ℤ) : ℚ) clamp with hleft | hright
    · rw [hleft] at h
      exact absurd h hless.ne
    · rw [hright] at h
      exact h
  · rintro ⟨-, rfl⟩
    rw [min_eq_right]
    rw [Int.cast_le, Int.le_floor]
    linarith

/-- Half the delay rounds up to it only at one millisecond. -/
theorem eq_round_of_half (hdelay : 0 < delay) (hbase : base * 2 = delay) (hclamp : 1 ≤ clamp) :
    delay = min ((⌊base + 1 / 2⌋ : ℤ) : ℚ) clamp ↔ (∃ whole : ℤ, delay = whole) ∧ delay = 1 := by
  constructor
  · intro h
    have hwhole : delay = ((min ⌊base + 1 / 2⌋ clamp : ℤ) : ℚ) := by
      rw [Int.cast_min]
      exact h
    have hle : delay ≤ base + 1 / 2 :=
      (h.trans_le (min_le_left _ _)).trans (Int.floor_le _)
    have hone : delay ≤ 1 := by linarith
    refine ⟨⟨_, hwhole⟩, le_antisymm hone ?_⟩
    rw [hwhole] at hdelay ⊢
    exact_mod_cast hdelay
  · rintro ⟨-, rfl⟩
    have hhalf : base + 1 / 2 = 1 := by linarith
    rw [hhalf, Int.floor_one, Int.cast_one, min_eq_left]
    exact_mod_cast hclamp

end Rounding

/-- The delay of the queue is that of the policy exactly where the backoff fits. -/
theorem wait_eq_nominal_iff (retries : DeliveryRetryConfig) {made attempt : ℕ} (hmade : 1 ≤ made)
    (hle : made ≤ attempt) :
    retries.initial * 2 ^ made = retries.nominalDelayMs attempt ↔
      BackoffFits retries made attempt := by
  have hpos := retries.initial_pos
  have hdelay : 0 < retries.initial * 2 ^ made := by positivity
  have hclamp : DeliveryRetryConfig.maxAttemptDelayMs = ((86400000 : ℤ) : ℚ) := by
    norm_num [DeliveryRetryConfig.maxAttemptDelayMs]
  unfold BackoffFits DeliveryRetryConfig.nominalDelayMs
  rw [hclamp]
  dsimp only
  rcases Nat.lt_trichotomy attempt (made + 1) with hearly | rfl | hlate
  · have hsame : attempt = made := by omega
    have hhalf : retries.initial * 2 ^ (attempt - 1) * 2 = retries.initial * 2 ^ made := by
      rw [hsame, mul_assoc, ← pow_succ, Nat.sub_add_cancel hmade]
    rw [eq_round_of_half hdelay hhalf (by norm_num)]
    have hnot : ¬attempt = made + 1 ∧ ¬made + 1 < attempt := by omega
    simp [hsame]
  · rw [Nat.add_sub_cancel, eq_round_iff hdelay]
    simp
  · have hdouble : 2 * (retries.initial * 2 ^ made) ≤ retries.initial * 2 ^ (attempt - 1) := by
      calc 2 * (retries.initial * 2 ^ made)
          = retries.initial * 2 ^ (made + 1) := by rw [pow_succ]; ring
        _ ≤ retries.initial * 2 ^ (attempt - 1) := by
          apply mul_le_mul_of_nonneg_left _ hpos.le
          exact pow_le_pow_right₀ (by norm_num) (by omega)
    rw [eq_round_of_double hdelay hdouble]
    have hnot : ¬attempt = made + 1 ∧ ¬attempt = made := by omega
    simp [hlate, hnot]

/-- What a job is to its row: its backoff starts from twice the first delay, and its budget is
what the policy left when it was added. -/
structure JobFits (retries : DeliveryRetryConfig) (job : QueueJob) (row : Delivery J) : Prop where
  delay : job.backoffDelay = retries.initial * 2
  made : job.attemptsMade ≤ row.attempt
  attempts : job.attempts = max 1 (retries.budget - (row.attempt - job.attemptsMade))

/-- A job's last attempt is the delivery's last. -/
theorem JobFits.isFinalAttempt_iff {job : QueueJob} {row : Delivery J}
    (h : JobFits retries job row) :
    job.isFinalAttempt = retries.isFinalAttempt (row.attempt + 1) := by
  unfold QueueJob.isFinalAttempt DeliveryRetryConfig.isFinalAttempt
  rw [decide_eq_decide, h.attempts, max_le_iff]
  have hmade : (0 : ℚ) ≤ job.attemptsMade := Nat.cast_nonneg _
  push_cast
  constructor
  · rintro ⟨-, hbudget⟩
    linarith
  · intro hbudget
    constructor <;> linarith

/-- A job that is added now. -/
theorem jobFits_scheduled (retries : DeliveryRetryConfig) (row : Delivery J) (replace : Bool) :
    JobFits retries
      (scheduleDelivery retries none (retries.remainingQueueAttempts row.attempt) replace) row := by
  have hnone : (if replace then none else (none : Option QueueJob)) = none := by
    cases replace <;> rfl
  rw [scheduleDelivery, hnone, Option.getD_none]
  exact ⟨rfl, Nat.zero_le _, by simp [DeliveryRetryConfig.remainingQueueAttempts]⟩

/-- A job belongs to a row, and fits it. -/
def JobsFit (retries : DeliveryRetryConfig) (life : DeliveryLife J) : Prop :=
  ∀ job ∈ life.job, ∃ row ∈ life.row, JobFits retries job row

/-- What a step with a queue preserves, and what it adds. -/
structure RedisStepSpec (retries : DeliveryRetryConfig) (life : DeliveryLife J)
    (action : DeliveryAction J) (life' : DeliveryLife J) : Prop where
  fits : JobsFit retries life'
  follows : life'.FollowsPolicy retries ↔
    life.FollowsPolicy retries ∧ KeepsPolicy retries life action
  dies : life.DiesByPolicy retries → life'.DiesByPolicy retries

theorem followsPolicy_append {failures : List FailedAttempt} {failed : FailedAttempt}
    (h : life'.failures = failures ++ [failed]) :
    life'.FollowsPolicy retries ↔
      (∀ other ∈ failures, other.Follows retries) ∧ failed.Follows retries := by
  rw [DeliveryLife.FollowsPolicy, h]
  simp [or_imp, forall_and]

theorem diesByPolicy_append {failures : List FailedAttempt} {failed : FailedAttempt}
    (h : life'.failures = failures ++ [failed]) :
    life'.DiesByPolicy retries ↔
      (∀ other ∈ failures, other.nextDelayMs = none ↔ retries.isFinalAttempt other.attempt = true) ∧
        (failed.nextDelayMs = none ↔ retries.isFinalAttempt failed.attempt = true) := by
  rw [DeliveryLife.DiesByPolicy, h]
  simp [or_imp, forall_and]

/-- A step that records no failure. -/
theorem RedisStepSpec.of_failures_eq {action : DeliveryAction J} (hfits : JobsFit retries life')
    (hfailures : life'.failures = life.failures) (hkeeps : KeepsPolicy retries life action) :
    RedisStepSpec retries life action life' where
  fits := hfits
  follows := by
    rw [DeliveryLife.FollowsPolicy, hfailures]
    exact ⟨fun h => ⟨h, hkeeps⟩, fun h => h.1⟩
  dies h := by
    rw [DeliveryLife.DiesByPolicy, hfailures]
    exact h

/-- A step that records a failure. -/
theorem RedisStepSpec.of_failed {action : DeliveryAction J} {failed : FailedAttempt}
    (hfits : JobsFit retries life') (hfailures : life'.failures = life.failures ++ [failed])
    (hkeeps : failed.Follows retries ↔ KeepsPolicy retries life action)
    (hdies : failed.nextDelayMs = none ↔ retries.isFinalAttempt failed.attempt = true) :
    RedisStepSpec retries life action life' where
  fits := hfits
  follows := by
    rw [followsPolicy_append hfailures, hkeeps]
    rfl
  dies h := (diesByPolicy_append hfailures).mpr ⟨h, hdies⟩

theorem rescheduled_fits (h : JobsFit retries life) {row : Delivery J} {replace scheduled : Bool}
    (hrow : ∀ old ∈ life.row, old.attempt = row.attempt) :
    JobsFit retries (rescheduled retries life row replace scheduled) := by
  have hkept : ∀ job ∈ life.job, JobFits retries job row := by
    intro job hjob
    obtain ⟨old, hold, hfits⟩ := h job hjob
    have hattempt := hrow old hold
    exact ⟨hfits.delay, hattempt ▸ hfits.made, hattempt ▸ hfits.attempts⟩
  unfold rescheduled
  cases scheduled with
  | false => exact fun job hjob => ⟨row, rfl, hkept job hjob⟩
  | true =>
    intro job hjob
    refine ⟨row, rfl, ?_⟩
    obtain rfl := Option.some.inj hjob
    cases hold : life.job with
    | none => exact jobFits_scheduled retries row replace
    | some old =>
      cases replace with
      | false => exact hkept old hold
      | true => exact jobFits_scheduled retries row true

theorem rescheduled_failures (row : Delivery J) (replace scheduled : Bool) :
    (rescheduled retries life row replace scheduled).failures = life.failures := by
  unfold rescheduled
  split_ifs <;> rfl

/-- The first attempt of the engine. -/
theorem attemptDelivery_first (hjob : life.job = none) {create : Delivery J}
    {first : Option AttemptInput} :
    RedisStepSpec retries life (.finalize create first)
      (first.elim { life with row := some create.firstClaimed }
        (attemptDelivery retries true { life with row := some create.firstClaimed }
          create.firstClaimed)) := by
  have hattempt : create.firstClaimed.attempt = 1 := rfl
  cases first with
  | none =>
    refine .of_failures_eq (fun job hmem => ?_) rfl trivial
    rw [Option.elim_none, hjob] at hmem
    cases hmem
  | some x =>
    rw [Option.elim_some, attemptDelivery]
    cases hfailure : x.failure with
    | none =>
      refine .of_failures_eq (fun job hmem => ?_) rfl trivial
      dsimp only at hmem
      rw [hjob] at hmem
      cases hmem
    | some error =>
      dsimp only
      split_ifs with hfinal hhanded
      · refine .of_failed (fun job hmem => ?_) rfl ?_ ?_
        · dsimp only at hmem
          rw [hjob] at hmem
          cases hmem
        · simp [FailedAttempt.Follows, hfinal, KeepsPolicy]
        · simp [hfinal]
      · refine .of_failed (fun job hmem => ?_) rfl ?_ ?_
        · dsimp only at hmem
          rw [hjob] at hmem
          obtain rfl := Option.some.inj hmem
          have hfits := jobFits_scheduled retries create.firstClaimed false
          exact ⟨_, rfl, hfits.delay, hfits.made, hfits.attempts⟩
        · simp [FailedAttempt.Follows, hfinal, KeepsPolicy]
        · simp [hfinal]
      · refine .of_failed (fun job hmem => ?_) rfl ?_ ?_
        · dsimp only at hmem
          rw [hjob] at hmem
          cases hmem
        · simp [FailedAttempt.Follows, hfinal, KeepsPolicy]
        · simp [hfinal]

/-- An attempt of the queue's job. -/
theorem processDelivery_spec (h : JobsFit retries life) {job : QueueJob} {row : Delivery J}
    (hjob : life.job = some job) (hrow : life.row = some row) (x : AttemptInput) :
    RedisStepSpec retries life (.attempt x) (processDelivery retries life job row x) := by
  obtain ⟨row', hrow', hfits⟩ := h job hjob
  rw [hrow] at hrow'
  cases hrow'
  have hnoJob : ∀ {next : DeliveryLife J}, next.job = none → JobsFit retries next := by
    intro next hnone job hmem
    rw [hnone] at hmem
    cases hmem
  have hkeeps : (row.status ≠ .delivered → row.status ≠ .dead → x.failure.isSome →
      ¬retries.isFinalAttempt (row.attempt + 1) →
      BackoffFits retries (job.attemptsMade + 1) (row.attempt + 1)) ↔
      KeepsPolicy retries life (.attempt x) := by
    simp [KeepsPolicy, hjob, hrow]
  unfold processDelivery
  by_cases hsettled : row.status = .delivered ∨ row.status = .dead
  · rw [if_pos hsettled]
    refine .of_failures_eq (hnoJob rfl) rfl (hkeeps.mp fun hdelivered hdead => ?_)
    exact absurd hsettled (not_or.mpr ⟨hdelivered, hdead⟩)
  · rw [if_neg hsettled]
    obtain ⟨hdelivered, hdead⟩ := not_or.mp hsettled
    cases hfailure : x.failure with
    | none =>
      refine .of_failures_eq (hnoJob rfl) rfl (hkeeps.mp fun _ _ hfailed => ?_)
      rw [hfailure] at hfailed
      cases hfailed
    | some error =>
      have hfinal := hfits.isFinalAttempt_iff
      dsimp only
      split_ifs with hlast
      · rw [hlast] at hfinal
        refine .of_failed (hnoJob rfl) rfl (iff_of_true ?_ (hkeeps.mp fun _ _ _ hnot => ?_)) ?_
        · simp [FailedAttempt.Follows, ← hfinal]
        · exact absurd hfinal.symm hnot
        · simp [← hfinal]
      · have hmore : retries.isFinalAttempt (row.attempt + 1) = false := by
          rw [← hfinal]
          simpa using hlast
        have hwait := waitMs_retried hfits.delay
        refine .of_failed (fun job' hmem => ?_) rfl ?_ ?_
        · obtain rfl := Option.some.inj hmem
          refine ⟨_, rfl, hfits.delay, Nat.succ_le_succ hfits.made, ?_⟩
          have hleft : retries.budget - (((row.attempt + 1 : ℕ) : ℚ) - (job.attemptsMade + 1 : ℕ)) =
              retries.budget - (row.attempt - job.attemptsMade) := by
            push_cast
            ring
          exact hfits.attempts.trans (congrArg (max 1) hleft.symm)
        · rw [← hkeeps]
          have hnominal := wait_eq_nominal_iff retries (Nat.le_add_left 1 job.attemptsMade)
            (Nat.succ_le_succ hfits.made)
          rw [FailedAttempt.Follows, hmore, hwait]
          simp only [Bool.false_eq_true, if_false, Option.some.injEq]
          rw [hnominal]
          simp [hdelivered, hdead, hfailure]
        · simp [hmore]

/-- A step with a queue. -/
theorem redisStep_spec (h : JobsFit retries life) {action : DeliveryAction J}
    (hstep : redisStep retries life action = some life') :
    RedisStepSpec retries life action life' := by
  have hnoJob : life.row = none → life.job = none := by
    intro hrow
    cases hjob : life.job with
    | none => rfl
    | some job =>
      obtain ⟨row, hmem, -⟩ := h job hjob
      rw [hrow] at hmem
      cases hmem
  cases action with
  | finalize create first =>
    simp only [redisStep] at hstep
    split_ifs at hstep with hrow
    have hnone : life.row = none := by simpa using hrow
    cases hstep
    exact attemptDelivery_first (hnoJob hnone)
  | settle create scheduled =>
    simp only [redisStep] at hstep
    split_ifs at hstep with hrow
    have hnone : life.row = none := by simpa using hrow
    cases hstep
    refine .of_failures_eq (rescheduled_fits h fun old hold => ?_)
      (rescheduled_failures _ _ _) trivial
    rw [hnone] at hold
    cases hold
  | attempt x =>
    simp only [redisStep, Option.bind_eq_some_iff, Option.map_eq_some_iff] at hstep
    obtain ⟨job, hjob, row, hrow, rfl⟩ := hstep
    exact processDelivery_spec h hjob hrow x
  | loseJob =>
    cases hstep
    exact .of_failures_eq (fun job hjob => by cases hjob) rfl trivial
  | sweep now scheduled =>
    simp only [redisStep, Option.map_eq_some_iff, Option.filter_eq_some_iff] at hstep
    obtain ⟨row, ⟨hrow, -⟩, rfl⟩ := hstep
    refine .of_failures_eq (rescheduled_fits h fun old hold => ?_)
      (rescheduled_failures _ _ _) trivial
    rw [hrow] at hold
    cases hold
    rfl
  | replay now scheduled =>
    simp only [redisStep, Option.map_eq_some_iff, Option.filter_eq_some_iff] at hstep
    obtain ⟨row, ⟨hrow, -⟩, rfl⟩ := hstep
    refine .of_failures_eq (rescheduled_fits h fun old hold => ?_)
      (rescheduled_failures _ _ _) trivial
    rw [hrow] at hold
    cases hold
    rfl

/-- A step without a queue follows the policy. -/
theorem polledStep_follows {action : DeliveryAction J}
    (hstep : polledStep retries life action = some life') (h : life.FollowsPolicy retries) :
    life'.FollowsPolicy retries := by
  have hattempt : ∀ (inserted : DeliveryLife J) (row : Delivery J) (x : AttemptInput),
      inserted.failures = life.failures →
      (attemptDelivery retries false inserted row x).FollowsPolicy retries := by
    intro inserted row x hsame
    rw [attemptDelivery]
    cases x.failure with
    | none =>
      rw [DeliveryLife.FollowsPolicy]
      exact hsame ▸ h
    | some error =>
      dsimp only
      rw [Bool.false_and, if_neg Bool.false_ne_true]
      by_cases hfinal : retries.isFinalAttempt row.attempt = true
      · rw [if_pos hfinal]
        refine (followsPolicy_append rfl).mpr ⟨hsame ▸ h, ?_⟩
        simp [FailedAttempt.Follows, hfinal]
      · rw [if_neg hfinal]
        refine (followsPolicy_append rfl).mpr ⟨hsame ▸ h, ?_⟩
        simp [FailedAttempt.Follows, hfinal]
  cases action with
  | finalize create first =>
    simp only [polledStep] at hstep
    split_ifs at hstep
    cases hstep
    cases first with
    | none => exact h
    | some x => exact hattempt _ _ x rfl
  | settle create scheduled =>
    simp only [polledStep] at hstep
    split_ifs at hstep
    cases hstep
    exact h
  | attempt x =>
    simp only [polledStep, Option.map_eq_some_iff] at hstep
    obtain ⟨row, -, rfl⟩ := hstep
    exact hattempt _ _ x rfl
  | loseJob =>
    cases hstep
    exact h
  | sweep now scheduled =>
    cases hstep
    exact h
  | replay now scheduled =>
    simp only [polledStep, Option.map_eq_some_iff] at hstep
    obtain ⟨row, -, rfl⟩ := hstep
    exact h

/-- The policy decides which failures are the last. -/
theorem DeliveryLife.FollowsPolicy.dies (h : life.FollowsPolicy retries) :
    life.DiesByPolicy retries := by
  intro failed hfailed
  rw [h failed hfailed]
  split_ifs with hfinal
  · simp [hfinal]
  · simp [hfinal]

/-- What every history with a queue keeps. -/
theorem redisDeliveries_run {actions : List (DeliveryAction J)}
    (h : (redisDeliveries retries).run {} actions = some life) :
    life.DiesByPolicy retries ∧
      (life.FollowsPolicy retries ↔
        (redisDeliveries retries).Along (KeepsPolicy retries) {} actions) := by
  have hstart : JobsFit retries ({} : DeliveryLife J) := fun job hjob => by cases hjob
  have hdies := Machine.run_invariant
    (I := fun life : DeliveryLife J => JobsFit retries life ∧ life.DiesByPolicy retries)
    (fun s a t hs hstep =>
      have hspec := redisStep_spec hs.1 hstep
      ⟨hspec.fits, hspec.dies hs.2⟩)
    ⟨hstart, fun failed hfailed => by cases hfailed⟩ h
  have hfollows := Machine.run_iff_along
    (I := fun life : DeliveryLife J => JobsFit retries life)
    (P := fun life : DeliveryLife J => life.FollowsPolicy retries)
    (fun s a t hs hstep => (redisStep_spec hs hstep).fits)
    (fun s a t hs hstep => (redisStep_spec hs hstep).follows) hstart h
  refine ⟨hdies.2, hfollows.trans ?_⟩
  have hnone : DeliveryLife.FollowsPolicy retries ({} : DeliveryLife J) :=
    fun failed hfailed => by cases hfailed
  exact and_iff_right hnone

/-- The driver without a queue follows the policy in every history. With one a delivery dies
by the policy in every history, and waits by it exactly in those in which each job's backoff
fits the count in the row. -/
theorem deliveries_followPolicy_iff (retries : DeliveryRetryConfig)
    (actions : List (DeliveryAction J)) :
    (∀ life, (polledDeliveries retries).run {} actions = some life →
      life.FollowsPolicy retries ∧ life.DiesByPolicy retries) ∧
    ∀ life, (redisDeliveries retries).run {} actions = some life →
      life.DiesByPolicy retries ∧
        (life.FollowsPolicy retries ↔
          (redisDeliveries retries).Along (KeepsPolicy retries) {} actions) := by
  refine ⟨fun life h => ?_, fun life h => redisDeliveries_run h⟩
  have hfollows := Machine.run_invariant
    (I := fun life : DeliveryLife J => life.FollowsPolicy retries)
    (fun s a t hs hstep => polledStep_follows hstep hs)
    (fun failed hfailed => by cases hfailed) h
  exact ⟨hfollows, hfollows.dies⟩

end Attempts

namespace DeliveryLife

/-- A delivery of a run, in the outbox for an hour. -/
def runCallback : Delivery ℕ where
  deliveryId := .of "d"
  runId := .of "r"
  threadId := .of "t"
  url := "https://callback"
  payload := some 0
  payloadTruncated := false
  runStatus := .success
  status := .pending
  attempt := 0
  nextAttemptAt := 0
  lastError := none
  createdAt := 0
  updatedAt := 0
  expiresAt := 3600000

/-- An attempt that the receiver refuses. -/
def refused (now : Timestamp) : AttemptInput where
  failure := some "HTTP 500"
  now
  clock := now

/-- Two refused attempts under the defaults, one second and two seconds waited. -/
def twoRefusals : List (DeliveryAction ℕ) :=
  [.finalize runCallback (some (refused 0)), .attempt (refused 1000)]

/-- The job is lost, and the one a sweep adds is refused too. -/
def lostJob : List (DeliveryAction ℕ) :=
  twoRefusals ++ [.loseJob, .sweep 100000 true, .attempt (refused 100000)]

theorem twoRefusals_followed :
    ∃ polled queued, (polledDeliveries {}).run {} twoRefusals = some polled ∧
      (redisDeliveries {}).run {} twoRefusals = some queued ∧ polled.FollowsPolicy {} ∧
      queued.FollowsPolicy {} := by
  have hpolledRun : ((polledDeliveries {}).run {} twoRefusals).isSome := by decide +kernel
  obtain ⟨polled, hpolled⟩ := Option.isSome_iff_exists.mp hpolledRun
  have hqueuedRun : ((redisDeliveries {}).run {} twoRefusals).isSome := by decide +kernel
  obtain ⟨queued, hqueued⟩ := Option.isSome_iff_exists.mp hqueuedRun
  have hfollows := deliveries_followPolicy_iff {} twoRefusals
  have hfits : BackoffFits {} 1 2 := ⟨⟨2000, by decide +kernel⟩, .inl ⟨rfl, by decide +kernel⟩⟩
  have hkeeps : (redisDeliveries {}).Along (KeepsPolicy {}) {} twoRefusals := by
    refine ⟨trivial, ?_, trivial⟩
    intro job hjob row hrow _ _ _ _
    cases hjob
    cases hrow
    exact hfits
  exact ⟨polled, queued, hpolled, hqueued, (hfollows.1 polled hpolled).1,
    (hfollows.2 queued hqueued).2.mpr hkeeps⟩

/-- After its third attempt the delivery waits two seconds where the policy has four. -/
theorem lostJob_waitsShort :
    ¬∀ (retries : DeliveryRetryConfig) (actions : List (DeliveryAction ℕ)) (life : DeliveryLife ℕ),
      (redisDeliveries retries).run {} actions = some life → life.FollowsPolicy retries := by
  intro hall
  have hfailures : ((redisDeliveries {}).run {} lostJob).map (·.failures) =
      some [⟨1, some 1000⟩, ⟨2, some 2000⟩, ⟨3, some 2000⟩] := by decide +kernel
  obtain ⟨life, hlife, hthree⟩ := Option.map_eq_some_iff.mp hfailures
  have hfollows := hall {} lostJob life hlife ⟨3, some 2000⟩ (by rw [hthree]; simp)
  exact absurd hfollows (by decide +kernel)

end DeliveryLife
end Skein
