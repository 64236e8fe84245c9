import Skein.CronOccurrences
import Skein.CronService

/-!
# What the next date of a cron says

A disabled cron has no next date, an enabled one has none only when its schedule is
exhausted, and a date is an occurrence of the stored schedule that its end allows. The
date is computed from the four timing members, so it is right for a row as long as these
are the members it was computed from. A claim computes it from the row it then finds
unchanged. A patch computes it from an earlier reading: the three facts survive every
interleaving in which each patch still finds what it read, or leaves the cron disabled as
it had resolved.
-/
namespace Skein

/-- The cron library enumerates the occurrences of an expression in a zone. -/
structure Croner.Enumerates (croner : Croner) (occurs : String → String → Timestamp → Prop) :
    Prop where
  first : ∀ schedule timezone after next, croner.nextRun schedule timezone after = some next →
    occurs schedule timezone next ∧ ∀ m, after < m → occurs schedule timezone m → next ≤ m
  exhausted : ∀ schedule timezone after, croner.nextRun schedule timezone after = none →
    ∀ m, after < m → ¬ occurs schedule timezone m

namespace CronTiming
variable {occurs : String → String → Timestamp → Prop} {croner : Croner} {latest after : Timestamp}
  {cron : CronTiming}

/-- What `next_run_date` says of a cron, as of the latest clock reading. -/
structure Dated (occurs : String → String → Timestamp → Prop) (latest : Timestamp)
    (cron : CronTiming) (date : Option Timestamp) : Prop where
  disabled : cron.enabled = false → date = none
  dormant : cron.enabled = true → date = none → ∀ m, latest < m →
    occurs cron.schedule (cron.timezone.getD "UTC") m → ∃ last, cron.endTime = some last ∧ last < m
  occurrence : ∀ next, date = some next → occurs cron.schedule (cron.timezone.getD "UTC") next ∧
    ∀ last, cron.endTime = some last → next ≤ last

theorem Dated.mono {date : Option Timestamp} {later : Timestamp} (h : cron.Dated occurs latest date)
    (hle : latest ≤ later) : cron.Dated occurs later date where
  disabled := h.disabled
  dormant := fun henabled hnone m hm => h.dormant henabled hnone m (hle.trans_lt hm)
  occurrence := h.occurrence

/-- The library's answer, cut off at the end, is the date of an enabled cron. -/
theorem dated_nextCronOccurrence (hcroner : croner.Enumerates occurs) (hle : after ≤ latest)
    (henabled : cron.enabled = true) :
    cron.Dated occurs latest
      (croner.nextCronOccurrence cron.schedule cron.timezone after cron.endTime) := by
  unfold Croner.nextCronOccurrence
  constructor
  · intro hdisabled
    simp [henabled] at hdisabled
  · intro _ hnone m hm hoccurs
    split at hnone
    next hexhausted =>
      exact absurd hoccurs (hcroner.exhausted _ _ _ hexhausted m (hle.trans_lt hm))
    next next hnext =>
      split_ifs at hnone with hpast
      obtain ⟨last, hlast, hlt⟩ : ∃ last, cron.endTime = some last ∧ last < next := by
        simpa [Option.any_eq_true] using hpast
      have hfirst : next ≤ m := (hcroner.first _ _ _ _ hnext).2 m (hle.trans_lt hm) hoccurs
      exact ⟨last, hlast, hlt.trans_le hfirst⟩
  · intro next hsome
    split at hsome
    · cases hsome
    next found hfound =>
      split_ifs at hsome with hpast
      cases hsome
      refine ⟨(hcroner.first _ _ _ _ hfound).1, fun last hlast => ?_⟩
      by_contra hlt
      exact hpast (by simpa [hlast] using hlt)

variable (cron) in
theorem dated_resolveNextRunDate (hcroner : croner.Enumerates occurs) (hle : after ≤ latest) :
    cron.Dated occurs latest (croner.resolveNextRunDate cron after) := by
  unfold Croner.resolveNextRunDate
  split_ifs with henabled
  · exact dated_nextCronOccurrence hcroner hle henabled
  · exact ⟨fun _ => rfl, fun h => absurd h henabled, fun _ h => (by cases h)⟩

variable (cron) in
/-- A cron that was due is advanced from a time that has passed. -/
theorem dated_advanceCronOccurrence (hcroner : croner.Enumerates occurs) {left now : Timestamp}
    (hleft : left ≤ now) (hle : now ≤ latest) (henabled : cron.enabled = true) :
    cron.Dated occurs latest
      (croner.advanceCronOccurrence cron.schedule cron.timezone cron.endTime left now) :=
  dated_nextCronOccurrence hcroner (Nat.max_le.mpr ⟨hleft.trans hle, hle⟩) henabled

/-- Two disabled crons, or the same. -/
def Agrees (read stored : CronTiming) : Prop :=
  read.enabled = stored.enabled ∧ (stored.enabled = true → read = stored)

instance (read stored : CronTiming) : Decidable (read.Agrees stored) := by
  unfold Agrees
  infer_instance

/-- The date resolved from an agreeing reading is the row's. -/
theorem Agrees.dated {read stored : CronTiming} (h : read.Agrees stored)
    (hcroner : croner.Enumerates occurs) (hle : after ≤ latest) :
    stored.Dated occurs latest (croner.resolveNextRunDate read after) := by
  cases henabled : stored.enabled with
  | true =>
    rw [h.2 henabled]
    exact dated_resolveNextRunDate stored hcroner hle
  | false =>
    have hnone : croner.resolveNextRunDate read after = none := by
      simp [Croner.resolveNextRunDate, h.1, henabled]
    rw [hnone]
    exact ⟨fun _ => rfl, fun htrue => by simp [henabled] at htrue, fun _ hsome => (by cases hsome)⟩

end CronTiming

namespace MemorySkeinStore
variable {J : Type*}

/-- Every cron is dated. -/
def CronsDated (occurs : String → String → Timestamp → Prop) (latest : Timestamp)
    (store : MemorySkeinStore J) : Prop :=
  ∀ cronId row, store.crons.get? cronId = some row →
    row.timing.Dated occurs latest row.nextRunDate

variable {occurs : String → String → Timestamp → Prop} {latest later : Timestamp}
  {store store' : MemorySkeinStore J}

/-- A turn that only removes rows. -/
theorem CronsDated.of_subset (h : store.CronsDated occurs latest) (hle : latest ≤ later)
    (hrows : ∀ k row, store'.crons.get? k = some row → store.crons.get? k = some row) :
    store'.CronsDated occurs later :=
  fun k row hrow => (h k row (hrows k row hrow)).mono hle

/-- A turn that writes one dated row. -/
theorem CronsDated.write (h : store.CronsDated occurs latest) (hle : latest ≤ later) {row : Cron J}
    (hrow : row.timing.Dated occurs later row.nextRunDate)
    (hcrons : store'.crons = store.crons.write row) : store'.CronsDated occurs later := by
  intro k row' hrow'
  rw [hcrons, Table.get?_write] at hrow'
  split_ifs at hrow' with hk
  · cases hrow'
    exact hrow
  · exact (h k row' hrow').mono hle

end MemorySkeinStore

namespace CronTick
variable {J : Type*}

/-- The cron a tick is firing. -/
def fire : CronTick J → Option (CronFire J)
  | .firing fire | .authorizing fire _ | .resolving fire _ _ | .claiming fire _ _ _
  | .retracting fire _ | .enqueueing fire _ | .catching fire => some fire
  | .tickOnce | .done => none

/-- Everything a tick has still to fire was due when it scanned, which is past. -/
def Timely (latest : Timestamp) (p : CronTick J) : Prop :=
  ∀ fire, p.fire = some fire → fire.now ≤ latest ∧
    ∀ due ∈ fire.toDueCron :: fire.remaining,
      ∃ date, due.cron.nextRunDate = some date ∧ date ≤ fire.now

theorem Timely.mono {latest later : Timestamp} {p : CronTick J} (h : p.Timely latest)
    (hle : latest ≤ later) : p.Timely later :=
  fun fire hfire => ⟨(h fire hfire).1.trans hle, (h fire hfire).2⟩

theorem Timely.of_fire {latest : Timestamp} {p p' : CronTick J} (h : p.Timely latest)
    (hfire : p'.fire = p.fire) : p'.Timely latest := fun fire hp => h fire (hfire ▸ hp)

theorem timely_next {latest now : Timestamp} {remaining : List (DueCron J)} (hle : now ≤ latest)
    (hdue : ∀ due ∈ remaining, ∃ date, due.cron.nextRunDate = some date ∧ date ≤ now) :
    (next now remaining).Timely latest := by
  intro fire hfire
  cases remaining with
  | nil => cases hfire
  | cons due remaining =>
    cases hfire
    exact ⟨hle, hdue⟩

/-- A tick goes on with the rest of its scan. -/
theorem Timely.next {latest : Timestamp} {p : CronTick J} {fire : CronFire J}
    (h : p.Timely latest) (hfire : p.fire = some fire) :
    (CronTick.next fire.now fire.remaining).Timely latest :=
  timely_next (h fire hfire).1 fun due hdue => (h fire hfire).2 due (List.mem_cons_of_mem _ hdue)

variable [WireJson J]

theorem resume_timely {deps : CronDeps J} {world world' : CronWorld J} {p p' : CronTick J}
    {x : CronInput J} {latest : Timestamp} (hp : p.Timely latest) (hle : x.clock ≤ latest)
    (h : resume deps world p x = some (world', p')) : p'.Timely latest := by
  cases p with
  | tickOnce =>
    cases h
    exact timely_next hle fun due hdue => (MemorySkeinStore.mem_cronsListDue hdue).2.2.1
  | firing fire =>
    simp only [resume] at h
    split at h
    · split at h
      · cases h
        exact hp.of_fire rfl
      · split_ifs at h <;> cases h <;> exact hp.of_fire rfl
    · cases h
      exact hp.of_fire rfl
  | authorizing fire auth =>
    simp only [resume] at h
    split_ifs at h <;> cases h <;> exact hp.of_fire rfl
  | resolving fire auth filters =>
    simp only [resume] at h
    split at h <;> split at h <;> cases h <;> exact hp.of_fire rfl
  | claiming fire auth filters threadId =>
    simp only [resume] at h
    split at h <;> cases h
    · exact hp.of_fire rfl
    · split_ifs
      · exact hp.of_fire rfl
      · exact hp.next rfl
    · exact hp.of_fire rfl
  | retracting fire threadId =>
    cases h
    exact hp.next rfl
  | enqueueing fire runId =>
    simp only [resume] at h
    split_ifs at h <;> cases h
    · exact hp.of_fire rfl
    · exact hp.next rfl
  | catching fire =>
    cases h
    exact hp.next rfl
  | done => cases h

/-- A turn removes rows at most, or makes the claim of the fire it is at. -/
theorem resume_rows {deps : CronDeps J} {world world' : CronWorld J} {p p' : CronTick J}
    {x : CronInput J} (h : resume deps world p x = some (world', p')) :
    (∀ k row, world'.store.crons.get? k = some row → world.store.crons.get? k = some row) ∨
    ∃ fire, p.fire = some fire ∧ fire.toDueCron ∈ p.scanned ∧ world'.store.crons =
      (world.store.claimCron fire.cron.cronId (fire.claim deps.croner) x.now).2.crons := by
  cases p with
  | tickOnce =>
    cases h
    exact .inl fun _ _ hrow => hrow
  | firing fire =>
    simp only [resume] at h
    split at h
    · split at h
      · cases h
        exact .inl fun _ _ hrow => hrow
      · split_ifs at h <;> cases h <;> exact .inl fun _ _ hrow => hrow
    · cases h
      exact .inl fun _ _ hrow => hrow
  | authorizing fire auth =>
    simp only [resume] at h
    split_ifs at h <;> cases h <;> exact .inl fun _ _ hrow => hrow
  | resolving fire auth filters =>
    simp only [resume] at h
    split at h
    · have hcrons := (world.store.threadsCreate_crons
        { metadata := some (filters.elim id deps.stamp (deps.cronMetadata fire.cron.cronId)) }
        x.threadUuid x.now).1
      split at h <;> rename_i hcreate <;> rw [hcreate] at hcrons <;> cases h <;>
        exact .inl fun _ _ hrow => hcrons ▸ hrow
    · split at h <;> cases h <;> exact .inl fun _ _ hrow => hrow
  | claiming fire auth filters threadId =>
    obtain ⟨result, store', hcall, hcrons, -⟩ :=
      world.store.cronsClaimAndCreateRun_claim fire.cron.cronId (fire.claim deps.croner)
        (fire.runCreate deps auth filters threadId x.clock) x.runUuid x.now
    simp only [resume, hcall] at h
    split at h <;> rename_i hsame <;> cases hsame <;> cases h <;>
      exact .inr ⟨fire, rfl, List.mem_cons_self, hcrons⟩
  | retracting fire threadId =>
    cases h
    refine .inl fun k row hrow => ?_
    dsimp only at hrow
    split_ifs at hrow
    · exact hrow
    · rw [(world.store.threadsDelete_crons threadId).1, Table.get?_filter,
        Option.filter_eq_some_iff] at hrow
      exact hrow.1
  | enqueueing fire runId =>
    simp only [resume] at h
    split_ifs at h <;> cases h <;> exact .inl fun _ _ hrow => hrow
  | catching fire =>
    cases h
    exact .inr ⟨fire, rfl, List.mem_cons_self, rfl⟩
  | done => cases h

end CronTick

namespace CronServer
variable {J : Type*}

/-- The crons are dated, and the history is truthful. -/
structure Sound (occurs : String → String → Timestamp → Prop) (s : CronServer J) : Prop where
  safe : s.world.Safe
  dated : s.world.store.CronsDated occurs s.latest

/-- A claim writes the date of the row it scanned, which is the row it finds. -/
theorem Sound.claim {occurs : String → String → Timestamp → Prop} {croner : Croner}
    {s : CronServer J} {p : CronTick J} {fire : CronFire J} {later now : Timestamp}
    {store' : MemorySkeinStore J} (h : s.Sound occurs) (hcroner : croner.Enumerates occurs)
    (hscanned : s.world.Scanned fire.toDueCron) (htimely : p.Timely later)
    (hfire : p.fire = some fire) (hle : s.latest ≤ later)
    (hcrons : store'.crons =
      (s.world.store.claimCron fire.cron.cronId (fire.claim croner) now).2.crons) :
    store'.CronsDated occurs later := by
  rcases s.world.store.claimCron_cases fire.cron.cronId (fire.claim croner) now with
    hlost | ⟨existing, hrow, henabled, hseq, hwon⟩
  · rw [hlost] at hcrons
    exact h.dated.of_subset hle fun _ _ hrow => hcrons ▸ hrow
  · have hsame : existing = fire.cron := (hscanned.current existing hrow).2 hseq.symm
    obtain ⟨hnow, hdue⟩ := htimely fire hfire
    obtain ⟨date, hdate, hpast⟩ := hdue fire.toDueCron List.mem_cons_self
    rw [hwon] at hcrons
    refine h.dated.write hle ?_ hcrons
    show existing.timing.Dated occurs later (fire.nextRunDate croner)
    rw [hsame] at henabled ⊢
    have hleft : fire.cron.nextRunDate.getD fire.now ≤ fire.now := by simpa [hdate] using hpast
    exact CronTiming.dated_advanceCronOccurrence fire.cron.timing hcroner hleft hnow henabled

variable [WireJson J] {occurs : String → String → Timestamp → Prop}

/-- What any turn does to the server, as far as the other parties rely on it. -/
structure Grows (s s' : CronServer J) : Prop where
  advances : s.world.Advances s'.world
  latest : s.latest ≤ s'.latest

omit [WireJson J] in
theorem Grows.refl (s : CronServer J) : s.Grows s :=
  ⟨⟨List.Subset.refl _, List.Subset.refl _, fun k _ => .of_frame rfl rfl k⟩, le_rfl⟩

/-- A new cron points where its own timing says. -/
theorem cronsCreate_dated {croner : Croner} (hcroner : croner.Enumerates occurs)
    {store : MemorySkeinStore J} {latest clock : Timestamp} (h : store.CronsDated occurs latest)
    (input : CreateCronInput J) (caller : Option (CronPrincipal J)) (uuid : CronId)
    (now : Timestamp) :
    (store.cronsCreate (input.cronCreate croner caller clock) uuid now).2.CronsDated occurs
      (max latest clock) := by
  unfold MemorySkeinStore.cronsCreate
  dsimp only
  split_ifs
  · exact h.of_subset (le_max_left _ _) fun _ _ hrow => hrow
  · apply h.write (le_max_left _ _) ?_ rfl
    exact CronTiming.dated_resolveNextRunDate input.timing hcroner (le_max_right _ _)

theorem step_sound {croner : Croner} (hcroner : croner.Enumerates occurs)
    {evaluate : String → String → Option String} {s s' : CronServer J} {e : CronServerEvent J}
    (hs : s.Sound occurs) (h : s.step croner evaluate e = some s') :
    s'.Sound occurs ∧ s.Grows s' := by
  cases e with
  | create input caller uuid clock now =>
    simp only [step] at h
    split at h
    · cases h
      exact ⟨hs, .refl s⟩
    · obtain ⟨world, hworld, rfl⟩ := Option.map_eq_some_iff.mp h
      obtain ⟨hadv, hclaims⟩ := CronWorld.step_advances hworld
      refine ⟨⟨hs.safe.advance hadv hclaims, ?_⟩, hadv, le_max_left _ _⟩
      simp only [CronWorld.step] at hworld
      split_ifs at hworld
      cases hworld
      exact cronsCreate_dated hcroner hs.dated input caller uuid now
  | delete cronId =>
    simp only [step] at h
    obtain ⟨world, hworld, rfl⟩ := Option.map_eq_some_iff.mp h
    obtain ⟨hadv, hclaims⟩ := CronWorld.step_advances hworld
    refine ⟨⟨hs.safe.advance hadv hclaims, ?_⟩, hadv, le_rfl⟩
    cases hworld
    refine hs.dated.of_subset le_rfl fun k row hrow => ?_
    rw [MemorySkeinStore.cronsDelete, Table.get?_erase] at hrow
    split_ifs at hrow
    exact hrow
  | threadsDelete threadId =>
    simp only [step] at h
    obtain ⟨world, hworld, rfl⟩ := Option.map_eq_some_iff.mp h
    obtain ⟨hadv, hclaims⟩ := CronWorld.step_advances hworld
    refine ⟨⟨hs.safe.advance hadv hclaims, ?_⟩, hadv, le_rfl⟩
    cases hworld
    refine hs.dated.of_subset le_rfl fun k row hrow => ?_
    rw [(s.world.store.threadsDelete_crons threadId).1, Table.get?_filter,
      Option.filter_eq_some_iff] at hrow
    exact hrow.1
  | elsewhere store =>
    simp only [step] at h
    obtain ⟨world, hworld, rfl⟩ := Option.map_eq_some_iff.mp h
    obtain ⟨hadv, hclaims⟩ := CronWorld.step_advances hworld
    refine ⟨⟨hs.safe.advance hadv hclaims, ?_⟩, hadv, le_rfl⟩
    cases hworld
    exact hs.dated.of_subset le_rfl fun _ _ hrow => hrow

/-- A patch writes a date that is right for the row it finds, if that row agrees with the
reading the date was resolved from. -/
theorem cronsUpdate_dated {croner : Croner} (hcroner : croner.Enumerates occurs)
    {store : MemorySkeinStore J} {latest clock : Timestamp} (h : store.CronsDated occurs latest)
    {cronId : CronId} {patch : UpdateCronInput J} {read : CronTiming}
    (hcurrent : ∀ row, store.crons.get? cronId = some row → patch.movesNextRun = true →
      (patch.timing read).Agrees (patch.timing row.timing)) (now : Timestamp) :
    (store.cronsUpdate cronId (patch.cronUpdate croner read clock) now).2.CronsDated occurs
      (max latest clock) := by
  unfold MemorySkeinStore.cronsUpdate
  cases hrow : store.crons.get? cronId with
  | none => exact h.of_subset (le_max_left _ _) fun _ _ hrow => hrow
  | some row =>
    apply h.write (le_max_left _ _) ?_ rfl
    rw [UpdateCronInput.timing_patched]
    cases hmoves : patch.movesNextRun with
    | true =>
      have hdate : (row.patched (patch.cronUpdate croner read clock) now).nextRunDate =
          croner.resolveNextRunDate (patch.timing read) clock := by
        simp [Cron.patched, UpdateCronInput.cronUpdate, hmoves]
      rw [hdate]
      exact (hcurrent row hrow hmoves).dated hcroner (le_max_right _ _)
    | false =>
      have hdate : (row.patched (patch.cronUpdate croner read clock) now).nextRunDate =
          row.nextRunDate := by
        simp [Cron.patched, UpdateCronInput.cronUpdate, hmoves]
      rw [hdate, UpdateCronInput.timing_of_not_moves hmoves]
      exact (h cronId row hrow).mono (le_max_left _ _)

end CronServer

namespace CronCall
variable {J : Type*}

/-- What holds of a party between its turns. -/
def Keeps (s : CronServer J) : CronCall J → Prop
  | .tick p => p.Agrees s.world ∧ p.Timely s.latest
  | _ => True

theorem Keeps.grow {s s' : CronServer J} {p : CronCall J} (h : p.Keeps s) (hs : s.Grows s') :
    p.Keeps s' := by
  cases p with
  | tick p => exact ⟨h.1.advance hs.advances, h.2.mono hs.latest⟩
  | _ => trivial

/-- A patch is about to write a date it resolved from a timing that is not the row's. -/
def overtaken (store : MemorySkeinStore J) : CronCall J → Bool
  | .updating cronId patch existing => (store.crons.get? cronId).any fun row =>
      patch.movesNextRun && !decide ((patch.timing existing.timing).Agrees (patch.timing row.timing))
  | _ => false

/-- The step is the write of an overtaken patch. -/
def Overtaken (w : Pool (CronServer J) (CronCall J)) :
    Action (CronServerEvent J) (CronCall J) (CronInput J) → Prop
  | .resume i _ => (w.procs[i]?).any (overtaken w.shared.world.store) = true
  | _ => False

instance (w : Pool (CronServer J) (CronCall J)) : ∀ a, Decidable (Overtaken w a)
  | .resume i _ => inferInstanceAs
      (Decidable ((w.procs[i]?).any (overtaken w.shared.world.store) = true))
  | .env _ => isFalse id
  | .spawn _ => isFalse id

variable [WireJson J] {occurs : String → String → Timestamp → Prop} {deps : CronDeps J}
  {evaluate : String → String → Option String} {s s' : CronServer J} {p p' : CronCall J}
  {x : CronInput J}

omit [WireJson J] in
theorem resolve_eq_ok {patch : UpdateCronInput J} {read : CronTiming} {clock : Timestamp}
    {update : CronUpdate J} (h : patch.resolve deps.croner evaluate read clock = .ok update) :
    update = patch.cronUpdate deps.croner read clock := by
  simp only [UpdateCronInput.resolve] at h
  split_ifs at h
  · cases hvalid : assertValidCronSchedule evaluate (patch.timing read).schedule
      (patch.timing read).timezone with
    | error e => simp [hvalid, Except.map] at h
    | ok u => simpa [hvalid, Except.map, eq_comm] using h
  · exact (Except.ok.inj h).symm

theorem resume_sound (hcroner : deps.croner.Enumerates occurs) (hs : s.Sound occurs)
    (hp : p.Keeps s)
    (hcurrent : ∀ cronId patch existing, p = .updating cronId patch existing →
      ∀ row, s.world.store.crons.get? cronId = some row → patch.movesNextRun = true →
        (patch.timing existing.timing).Agrees (patch.timing row.timing))
    (h : resume deps evaluate s p x = some (s', p')) :
    s'.Sound occurs ∧ s.Grows s' ∧ p'.Keeps s' := by
  cases p with
  | tick p =>
    obtain ⟨⟨world, p''⟩, htick, hdone⟩ := Option.map_eq_some_iff.mp h
    cases hdone
    obtain ⟨hsafe, hadv, hagrees⟩ := CronTick.resume_agrees hs.safe hp.1 htick
    have hle : s.latest ≤ max s.latest x.clock := le_max_left _ _
    have htimely := CronTick.resume_timely (hp.2.mono hle) (le_max_right _ _) htick
    refine ⟨⟨hsafe, ?_⟩, ⟨hadv, hle⟩, hagrees, htimely⟩
    rcases CronTick.resume_rows htick with hrows | ⟨fire, hfire, hscanned, hcrons⟩
    · exact hs.dated.of_subset hle hrows
    · exact hs.claim hcroner (hp.1.scanned _ hscanned) (hp.2.mono hle) hfire hle hcrons
  | update cronId patch =>
    simp only [resume] at h
    split at h <;> cases h <;> exact ⟨hs, .refl s, trivial⟩
  | updating cronId patch existing =>
    simp only [resume] at h
    split at h
    · cases h
      exact ⟨hs, .refl s, trivial⟩
    next update hresolve =>
      obtain ⟨world, hworld, hdone⟩ := Option.map_eq_some_iff.mp h
      cases hdone
      obtain ⟨hadv, hclaims⟩ := CronWorld.step_advances hworld
      refine ⟨⟨hs.safe.advance hadv hclaims, ?_⟩, ⟨hadv, le_max_left _ _⟩, trivial⟩
      cases hworld
      rw [resolve_eq_ok hresolve]
      exact CronServer.cronsUpdate_dated hcroner hs.dated (hcurrent _ _ _ rfl) x.now
  | done => cases h

theorem interferenceFree (hcroner : deps.croner.Enumerates occurs) :
    InterferenceFree (program deps evaluate) (CronServer.Sound occurs) (fun s _ p => Keeps s p)
      (fun w a => ¬ Overtaken w a) where
  env w e s hw _ he := by
    obtain ⟨hsound, hgrows⟩ := CronServer.step_sound hcroner hw.1 he
    exact ⟨hsound, fun j q hq => (hw.local hq).grow hgrows⟩
  start w p s hw _ hs := by
    have hsame : s = w.shared ∧ p.Keeps w.shared := by
      simp only [program, start] at hs
      split at hs <;> cases hs
      · exact ⟨rfl, ⟨fun _ hdue => (by cases hdue), fun _ _ hwon => (by cases hwon)⟩,
          fun _ hfire => (by cases hfire)⟩
      · exact ⟨rfl, trivial⟩
    obtain ⟨rfl, hkeeps⟩ := hsame
    exact ⟨hw.1, hkeeps, fun j q hq => hw.local hq⟩
  resume w i x p s p' hw hclear hp hs := by
    have hcurrent : ∀ cronId patch existing, p = .updating cronId patch existing →
        ∀ row, w.shared.world.store.crons.get? cronId = some row → patch.movesNextRun = true →
          (patch.timing existing.timing).Agrees (patch.timing row.timing) := by
      rintro cronId patch existing rfl row hrow hmoves
      by_contra hstale
      exact hclear (by simp [Overtaken, overtaken, hp, hrow, hmoves, hstale])
    obtain ⟨hsound, hgrows, hkeeps⟩ := resume_sound hcroner hw.1 (hw.local hp) hcurrent hs
    exact ⟨hsound, hkeeps, fun j q _ hq => (hw.local hq).grow hgrows⟩

/-- Along every interleaving of ticks and patches in which no patch is overtaken, what a
cron stores as its next date is right, in every state reached. -/
theorem crons_dated (hcroner : deps.croner.Enumerates occurs) (store : MemorySkeinStore J)
    {as : List (Action (CronServerEvent J) (CronCall J) (CronInput J))}
    {w : Pool (CronServer J) (CronCall J)}
    (h : (program deps evaluate).machine.run ⟨.ofStore store, []⟩ as = some w)
    (hclear : (program deps evaluate).machine.Along (fun u a => ¬ Overtaken u a)
      ⟨.ofStore store, []⟩ as) :
    w.shared.world.store.CronsDated occurs w.shared.latest := by
  have hrows : ∀ (k : CronId) (row : Cron J),
      (CronServer.ofStore store).world.store.crons.get? k ≠ some row := by
    intro k row hrow
    cases hrow
  have hstart : (CronServer.ofStore store).Sound occurs :=
    { safe :=
        { rows := fun k row hrow => absurd hrow (hrows k row)
          claimed := fun _ hclaim => (by cases hclaim)
          consumed := fun _ hclaim => (by cases hclaim)
          nodup := List.nodup_nil
          advances := fun _ hclaim => (by cases hclaim) }
      dated := fun k row hrow => absurd hrow (hrows k row) }
  exact ((interferenceFree hcroner).run (Pool.holds_empty hstart) hclear h).1.dated

/-- No patch is in progress. -/
def Settled (w : Pool (CronServer J) (CronCall J)) : Prop :=
  ∀ p ∈ w.procs, match p with
    | .tick _ | .done => True
    | .update .. | .updating .. => False

def nextTen (after : ℕ) : ℕ := (after / 10 + 1) * 10

theorem lt_nextTen (after : ℕ) : after < nextTen after := by
  unfold nextTen
  omega

theorem nextTen_le {after m : ℕ} (hm : after < m) (hten : m % 10 = 0) : nextTen after ≤ m := by
  unfold nextTen
  omega

/-- Every schedule occurs every ten milliseconds, on a server without auth. -/
def tens : CronDeps ℕ where
  croner := ⟨fun _ _ after => some (nextTen after),
    fun _ _ after _ h => Option.some.inj h ▸ lt_nextTen after⟩
  authEnabled := false
  toKwargs := fun cron _ => cron.payload
  multitaskStrategy := fun _ => none
  cronMetadata := fun _ => 1
  stamp := fun _ metadata => metadata
  ownerMetadata := fun filters => filters

theorem tens_enumerates : tens.croner.Enumerates fun _ _ m => m % 10 = 0 where
  first := by
    intro schedule timezone after next h
    cases h
    exact ⟨Nat.mul_mod_left _ _, fun m hm hten => nextTen_le hm hten⟩
  exhausted := fun _ _ _ h => (by cases h)

abbrev Trace := List (Action (CronServerEvent ℕ) (CronCall ℕ) (CronInput ℕ))

def creation (enabled : Bool) : Action (CronServerEvent ℕ) (CronCall ℕ) (CronInput ℕ) :=
  .env (.create ⟨.of "agent", "0 9 * * *", none, none, none, some enabled, none, none, 0⟩ none
    (.of "cron") 1 1)

def enabling : CronCall ℕ := .update (.of "cron") { enabled := some true }

def rescheduling : CronCall ℕ := .update (.of "cron") { schedule := some "5 9 * * *" }

/-- A cron fires, and is patched twice in a row. -/
def patchedInTurn : Trace :=
  [creation true, .spawn (.tick .tickOnce)] ++
    List.replicate 5 (.resume 0 { clock := 11, now := 11 }) ++
    [.spawn enabling, .resume 1 { clock := 12, now := 12 }, .resume 1 { clock := 13, now := 13 },
      .spawn rescheduling, .resume 2 { clock := 14, now := 14 },
      .resume 2 { clock := 15, now := 15 }]

/-- A paused cron is enabled and rescheduled by two patches that both read it paused. -/
def patchedTogether : Trace :=
  [creation false, .spawn enabling, .spawn rescheduling, .resume 0 { clock := 2, now := 2 },
    .resume 1 { clock := 2, now := 2 }, .resume 0 { clock := 3, now := 3 },
    .resume 1 { clock := 4, now := 4 }]

/-- The server after that. -/
def patchedPool : Pool (CronServer ℕ) (CronCall ℕ) :=
  ((program tens fun _ _ => none).machine.run ⟨.ofStore {}, []⟩ patchedInTurn).getD
    ⟨.ofStore {}, []⟩

/-- Fired once and patched in turn, the cron points at the next occurrence. -/
theorem patchedInTurn_dated :
    patchedPool.shared.world.store.CronsDated (fun _ _ m => m % 10 = 0)
      patchedPool.shared.latest ∧
      patchedPool.shared.world.store.crons.values.map Cron.nextRunDate = [some 20] :=
  ⟨crons_dated tens_enumerates {} (show (program tens fun _ _ => none).machine.run
    ⟨.ofStore {}, []⟩ patchedInTurn = some patchedPool from rfl) (by decide), by decide⟩

/-- The patch that reschedules a cron which another patch has enabled meanwhile leaves it
enabled and dormant, although its schedule goes on. -/
theorem patchedTogether_dormant :
    ¬ ∀ (deps : CronDeps ℕ) (evaluate : String → String → Option String)
      (occurs : String → String → Timestamp → Prop), deps.croner.Enumerates occurs →
      ∀ (store : MemorySkeinStore ℕ) (as : Trace) (w : Pool (CronServer ℕ) (CronCall ℕ)),
        (program deps evaluate).machine.run ⟨.ofStore store, []⟩ as = some w → Settled w →
        w.shared.world.store.CronsDated occurs w.shared.latest := by
  intro hall
  have hdated := hall tens (fun _ _ => none) _ tens_enumerates {} patchedTogether _ rfl
    (by
      intro p hp
      rcases List.mem_pair.mp hp with rfl | rfl <;> trivial)
  obtain ⟨last, hlast, -⟩ := (hdated (.of "cron") _ rfl).dormant rfl rfl 10 (by decide) rfl
  cases hlast

end CronCall
end Skein
