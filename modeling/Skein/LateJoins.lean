import Mathlib.Data.List.Perm.Subperm
import Skein.FinishedRuns

/-!
# Late joins

A subscriber keeps its channel in the map, and a closed channel stays closed while it is
there. So who joins a finished run, retained or remembered, never waits.
-/
namespace Skein

namespace MemoryRunEventBus
variable {J : Type*}

/-- Every reader of a channel is one of its subscribers. -/
def Staffed (bus : MemoryRunEventBus J) : Prop :=
  ∀ runId channel, bus.channels.get? runId = some channel →
    channel.readers.size ≤ channel.subscribers

/-- The subscriber reads the channel of this run. -/
def ReadBy (bus : MemoryRunEventBus J) (runId : RunId) (i : ℕ) (channel : Channel J) : Prop :=
  bus.channels.get? runId = some channel ∧ channel.readers.contains i = true

/-- A turn of `actor`: channels keep their other readers, and closed ones stay closed. Only
runs in `opening` may get an open channel that had none. -/
structure Frame (actor : Option ℕ) (opening : RunId → Prop) (bus bus' : MemoryRunEventBus J) :
    Prop where
  staffed : Staffed bus'
  attached : ∀ runId i channel, some i ≠ actor → bus.ReadBy runId i channel →
    ∃ channel', bus'.ReadBy runId i channel' ∧ (channel.closed = true → channel'.closed = true)
  opened : ∀ runId channel', bus'.channels.get? runId = some channel' → channel'.closed = false →
    opening runId ∨ ∃ channel, bus.channels.get? runId = some channel ∧ channel.closed = false

variable {actor : Option ℕ} {opening : RunId → Prop} {bus bus' : MemoryRunEventBus J}
  {runId : RunId}

theorem Frame.refl (h : Staffed bus) : Frame actor opening bus bus :=
  ⟨h, fun _ _ channel _ hread => ⟨channel, hread, id⟩, fun _ channel hget hopen =>
    .inr ⟨channel, hget, hopen⟩⟩

theorem Frame.trans {s t u : MemoryRunEventBus J} (h : Frame actor opening s t)
    (h' : Frame actor opening t u) : Frame actor opening s u where
  staffed := h'.staffed
  attached := by
    intro runId i channel hactor hread
    obtain ⟨channel', hread', hclosed⟩ := h.attached runId i channel hactor hread
    obtain ⟨channel'', hread'', hclosed'⟩ := h'.attached runId i channel' hactor hread'
    exact ⟨channel'', hread'', hclosed' ∘ hclosed⟩
  opened := by
    intro runId channel'' hget hopen
    rcases h'.opened runId channel'' hget hopen with hopening | ⟨channel', hget', hopen'⟩
    · exact .inl hopening
    · exact h.opened runId channel' hget' hopen'

theorem Staffed.channel (h : Staffed bus) (runId : RunId) :
    (bus.channel runId).readers.size ≤ (bus.channel runId).subscribers := by
  unfold MemoryRunEventBus.channel
  cases hget : bus.channels.get? runId with
  | none => exact Nat.le_refl 0
  | some channel => exact h runId channel hget

/-- Writing one channel, and then taking idle ones out. -/
theorem Frame.of_shrinks (h : Staffed bus) (channel' : Channel J)
    (hshrinks : Shrinks (bus.setChannel runId channel') bus')
    (hstaffed : channel'.readers.size ≤ channel'.subscribers)
    (hreaders : ∀ i, some i ≠ actor → (bus.channel runId).readers.contains i = true →
      channel'.readers.contains i = true)
    (hclosed : (bus.channel runId).closed = true → channel'.closed = true)
    (hopened : channel'.closed = false → opening runId ∨
      ∃ channel, bus.channels.get? runId = some channel ∧ channel.closed = false) :
    Frame actor opening bus bus' where
  staffed := by
    intro k channel hk
    have hset := hshrinks.kept k channel hk
    rw [setChannel, OrderedMap.get?_set] at hset
    split_ifs at hset
    · cases hset
      exact hstaffed
    · exact h k channel hset
  attached := by
    rintro k i channel hactor ⟨hget, hread⟩
    by_cases hk : runId = k
    · subst hk
      have hsame : bus.channel runId = channel := by simp [MemoryRunEventBus.channel, hget]
      rw [hsame] at hreaders hclosed
      have hread' := hreaders i hactor hread
      obtain ⟨cursor, hcursor⟩ := Option.isSome_iff_exists.mp hread'
      have hpos := (OrderedMap.size_pos hcursor).trans_le hstaffed
      exact ⟨channel', ⟨hshrinks.live runId channel' (by simp [setChannel]) hpos, hread'⟩, hclosed⟩
    · obtain ⟨cursor, hcursor⟩ := Option.isSome_iff_exists.mp hread
      have hpos := (OrderedMap.size_pos hcursor).trans_le (h k channel hget)
      refine ⟨channel, ⟨hshrinks.live k channel ?_ hpos, hread⟩, id⟩
      rw [setChannel, OrderedMap.get?_set_of_ne _ _ hk, hget]
  opened := by
    intro k channel hk hopen
    have hset := hshrinks.kept k channel hk
    rw [setChannel, OrderedMap.get?_set] at hset
    split_ifs at hset with heq
    · cases hset
      exact heq ▸ hopened hopen
    · exact .inr ⟨channel, hset, hopen⟩

theorem publish_frame (limits : MemoryBusLimits) (h : Staffed bus) (runId : RunId)
    (frame : RunFrame J) :
    Frame actor (· = runId) bus (bus.publish limits runId frame) := by
  obtain ⟨pushed, hpushed⟩ : ∃ pushed : Channel J, pushed = { bus.channel runId with
    frames := (bus.channel runId).frames ++ [frame] } := ⟨_, rfl⟩
  have hsame : ((pushed.trim limits.maxFramesPerRun).wake).closed = (bus.channel runId).closed ∧
      ((pushed.trim limits.maxFramesPerRun).wake).subscribers = (bus.channel runId).subscribers ∧
      ((pushed.trim limits.maxFramesPerRun).wake).readers.size =
        (bus.channel runId).readers.size ∧
      ∀ i, ((pushed.trim limits.maxFramesPerRun).wake).readers.contains i =
        (bus.channel runId).readers.contains i := by
    simp only [Channel.wake, Channel.trim, hpushed]
    split_ifs
    · simp
    · simp [OrderedMap.contains, OrderedMap.get?_mapValues]
  obtain ⟨hclosed, hsubscribers, hsize, hreaders⟩ := hsame
  have hshrinks : Shrinks (bus.setChannel runId (pushed.trim limits.maxFramesPerRun).wake)
      (bus.publish limits runId frame) := by
    rw [hpushed]
    exact .refl _
  refine Frame.of_shrinks h _ hshrinks ?_ ?_ ?_ ?_
  · rw [hsize, hsubscribers]
    exact h.channel runId
  · intro i _ hread
    rw [hreaders, hread]
  · intro hold
    rw [hclosed, hold]
  · exact fun _ => .inl rfl

theorem close_frame (limits : MemoryBusLimits) (h : Staffed bus) (runId : RunId)
    (now : Timestamp) : Frame actor opening bus (bus.close limits runId now) := by
  rcases bus.close_shrinks limits runId now with hsame | hshrinks
  · rw [hsame]
    exact .refl h
  · exact Frame.of_shrinks h _ hshrinks (h.channel runId) (fun _ _ hread => hread) (fun _ => rfl)
      (by simp)

/-- A run that was closed has no open channel. -/
theorem close_closed (limits : MemoryBusLimits) (bus : MemoryRunEventBus J) (runId : RunId)
    (now : Timestamp) {channel' : Channel J}
    (hget : (bus.close limits runId now).channels.get? runId = some channel') :
    channel'.closed = true := by
  by_cases hdone : bus.channels.contains runId = false ∧ bus.finishedRunIds.contains runId = true
  · have hnone := (OrderedMap.contains_eq_false_iff _ _).mp hdone.1
    rw [close, if_pos hdone, hnone] at hget
    cases hget
  · have hset := (close_shrinks_of_unknown limits now hdone).kept runId channel' hget
    simp only [setChannel, OrderedMap.get?_set_self, Option.some.injEq] at hset
    rw [← hset]

/-- A reader leaves. -/
theorem detach_frame (limits : MemoryBusLimits) (h : Staffed bus) {reader : ℕ}
    {channel : Channel J} (hread : bus.ReadBy runId reader channel) (now : Timestamp) :
    Frame (some reader) opening bus (bus.detach limits runId reader now) := by
  obtain ⟨hget, hpresent⟩ := hread
  have hsame : bus.channel runId = channel := by simp [MemoryRunEventBus.channel, hget]
  have hshrinks := bus.detach_shrinks limits runId reader now
  rw [hsame] at hshrinks
  refine Frame.of_shrinks h _ hshrinks ?_ ?_ ?_ ?_
  · obtain ⟨cursor, hcursor⟩ := Option.isSome_iff_exists.mp hpresent
    have hfewer := OrderedMap.size_erase_lt hcursor
    have hstaffed := h runId channel hget
    dsimp only
    omega
  · intro i hactor hold
    have hne : reader ≠ i := fun heq => hactor (congrArg some heq.symm)
    rw [hsame] at hold
    dsimp only
    rw [OrderedMap.contains, OrderedMap.get?_erase, if_neg hne]
    exact hold
  · rw [hsame]
    exact id
  · exact fun hopen => .inr ⟨channel, hget, hopen⟩

end MemoryRunEventBus

namespace RunSubscriber
open MemoryRunEventBus
variable {J : Type*} {limits : MemoryBusLimits} {world world' : RunStreamWorld J} {i : ℕ}
  {p p' : RunSubscriber J} {opening : RunId → Prop}

/-- A live subscriber holds on to its channel. -/
def Seated (bus : MemoryRunEventBus J) (i : ℕ) : RunSubscriber J → Prop
  | .yielding sub | .waiting sub => ∃ channel, bus.ReadBy sub.runId i channel
  | _ => True

/-- A subscriber that will not wait: it reads a closed channel, if any. -/
def Settled (bus : MemoryRunEventBus J) (i : ℕ) : RunSubscriber J → Prop
  | .yielding sub => ∃ channel, bus.ReadBy sub.runId i channel ∧ channel.closed = true
  | .ended .. => True
  | _ => False

theorem Seated.frame {actor : Option ℕ} {bus bus' : MemoryRunEventBus J} (h : p.Seated bus i)
    (hactor : some i ≠ actor) (hf : Frame actor opening bus bus') : p.Seated bus' i := by
  cases p with
  | yielding sub | waiting sub =>
    obtain ⟨channel, hread⟩ := h
    obtain ⟨channel', hread', -⟩ := hf.attached sub.runId i channel hactor hread
    exact ⟨channel', hread'⟩
  | _ => trivial

theorem Settled.frame {actor : Option ℕ} {bus bus' : MemoryRunEventBus J} (h : p.Settled bus i)
    (hactor : some i ≠ actor) (hf : Frame actor opening bus bus') : p.Settled bus' i := by
  cases p with
  | yielding sub =>
    obtain ⟨channel, hread, hclosed⟩ := h
    obtain ⟨channel', hread', hkeeps⟩ := hf.attached sub.runId i channel hactor hread
    exact ⟨channel', hread', hkeeps hclosed⟩
  | ended => trivial
  | _ => exact absurd h id

/-- What a turn of the loop does to the channel it reads. -/
theorem loop_frame (world : RunStreamWorld J) (opening : RunId → Prop) {sub : Subscription J} {now : Timestamp}
    {channel : Channel J} (hs : Staffed world.bus) (hread : world.bus.ReadBy sub.runId i channel)
    (h : loop limits world i sub now = some (world', p')) :
    Frame (some i) opening world.bus world'.bus ∧ p'.Seated world'.bus i ∧
      (channel.closed = true → p'.Settled world'.bus i) := by
  obtain ⟨hget, hpresent⟩ := hread
  obtain ⟨cursor, hcursor⟩ := Option.isSome_iff_exists.mp hpresent
  have hsame : world.bus.channel sub.runId = channel := by simp [MemoryRunEventBus.channel, hget]
  have hadvance : ∀ channel' : Channel J, ∀ cursor' : ℤ,
      channel'.readers = channel.readers.set i cursor' → channel'.closed = channel.closed →
      channel'.subscribers = channel.subscribers →
      Frame (some i) opening world.bus (world.bus.setChannel sub.runId channel') ∧
        (world.bus.setChannel sub.runId channel').ReadBy sub.runId i channel' := by
    intro channel' cursor' hreaders hclosed hsubscribers
    refine ⟨Frame.of_shrinks hs channel' (.refl _) ?_ ?_ ?_ ?_, ?_, ?_⟩
    · rw [hreaders, hsubscribers, OrderedMap.size_set_of_contains hpresent]
      exact hs sub.runId channel hget
    · intro j _ hold
      rw [hsame] at hold
      rw [hreaders, OrderedMap.contains_set, hold, Bool.or_true]
    · rw [hsame, hclosed]
      exact id
    · exact fun hopen => .inr ⟨channel, hget, hclosed ▸ hopen⟩
    · rw [setChannel, OrderedMap.get?_set_self]
    · simp [hreaders]
  simp only [loop, hget, hcursor, Option.bind_some] at h
  by_cases hgone : cursor < 0
  · rw [if_pos hgone] at h
    cases h
    exact ⟨detach_frame limits hs ⟨hget, hpresent⟩ now, trivial, fun _ => trivial⟩
  · rw [if_neg hgone] at h
    cases hnext : (scan sub.afterSeq (channel.frames.drop cursor.toNat)).2 with
    | some frame =>
      rw [hnext] at h
      cases h
      obtain ⟨hframe, hread'⟩ := hadvance { channel with readers := channel.readers.set i _ } _
        rfl rfl rfl
      exact ⟨hframe, ⟨_, hread'⟩, fun hclosed => ⟨_, hread', hclosed⟩⟩
    | none =>
      rw [hnext] at h
      dsimp only at h
      split_ifs at h with hdone <;> cases h
      · exact ⟨detach_frame limits hs ⟨hget, hpresent⟩ now, trivial, fun _ => trivial⟩
      · obtain ⟨hframe, hread'⟩ := hadvance { channel with
          readers := channel.readers.set i _, waiters := channel.waiters ++ [i] } _ rfl rfl rfl
        exact ⟨hframe, ⟨_, hread'⟩, fun hclosed => absurd hclosed hdone⟩

/-- The runs a subscriber may open a channel for. -/
def Opens (world : RunStreamWorld J) (runId : RunId) : Prop :=
  world.bus.channels.get? runId = none ∧ world.bus.finishedRunIds.contains runId = false

theorem resume_frame {x : SubscriberInput} (hs : Staffed world.bus) (hp : p.Seated world.bus i)
    (h : resume limits world i p x = some (world', p')) :
    Frame (some i) (Opens world) world.bus world'.bus ∧ p'.Seated world'.bus i := by
  cases p with
  | subscribe runId afterSeq =>
    simp only [resume] at h
    split_ifs at h with hdone
    · cases h
      exact ⟨.refl hs, trivial⟩
    · obtain ⟨joined, hjoined⟩ : ∃ joined : Channel J, joined = { world.bus.channel runId with
        subscribers := (world.bus.channel runId).subscribers + 1
        readers := (world.bus.channel runId).readers.set i 0 } := ⟨_, rfl⟩
      rw [← hjoined] at h
      have hjoin : Frame (some i) (Opens world) world.bus (world.bus.setChannel runId joined) := by
        refine Frame.of_shrinks hs joined (.refl _) ?_ ?_ ?_ ?_
        · rw [hjoined]
          exact (OrderedMap.size_set_le _ _ _).trans (Nat.succ_le_succ (hs.channel runId))
        · intro j _ hold
          simp [hjoined, hold]
        · rw [hjoined]
          exact id
        · intro hopen
          cases hget : world.bus.channels.get? runId with
          | none =>
            have hunknown : ¬ world.bus.finishedRunIds.contains runId = true := fun hknown =>
              hdone ⟨(OrderedMap.contains_eq_false_iff _ _).mpr hget, hknown⟩
            exact .inl ⟨hget, by simpa using hunknown⟩
          | some channel =>
            refine .inr ⟨channel, rfl, ?_⟩
            simpa [hjoined, MemoryRunEventBus.channel, hget] using hopen
      have hread : (world.bus.setChannel runId joined).ReadBy runId i joined :=
        ⟨by simp [setChannel], by simp [hjoined]⟩
      obtain ⟨hframe, hseated, -⟩ := loop_frame
        { world with bus := world.bus.setChannel runId joined } (Opens world) hjoin.staffed hread h
      exact ⟨hjoin.trans hframe, hseated⟩
  | yielding sub =>
    obtain ⟨channel, hread⟩ := hp
    simp only [resume] at h
    split_ifs at h
    · cases h
      exact ⟨detach_frame limits hs hread x.now, trivial⟩
    · obtain ⟨hframe, hseated, -⟩ := loop_frame world (Opens world) hs hread h
      exact ⟨hframe, hseated⟩
  | waiting sub =>
    obtain ⟨channel, hread⟩ := hp
    simp only [resume] at h
    split_ifs at h
    obtain ⟨hframe, hseated, -⟩ := loop_frame world (Opens world) hs hread h
    exact ⟨hframe, hseated⟩
  | ended => cases h

/-- A turn of a subscriber that will not wait. -/
theorem resume_settled {x : SubscriberInput} (hs : Staffed world.bus)
    (hp : p.Settled world.bus i) (h : resume limits world i p x = some (world', p')) :
    p'.Settled world'.bus i := by
  cases p with
  | yielding sub =>
    obtain ⟨channel, hread, hclosed⟩ := hp
    simp only [resume] at h
    split_ifs at h
    · cases h
      exact trivial
    · exact (loop_frame world (Opens world) hs hread h).2.2 hclosed
  | ended => cases h
  | _ => exact absurd hp id

/-- Joining a run whose channel is closed, or gone and remembered. -/
theorem subscribe_settled {runId : RunId} {afterSeq : ℕ} {x : SubscriberInput}
    (hs : Staffed world.bus) (hclosed : ∀ channel,
      world.bus.channels.get? runId = some channel → channel.closed = true)
    (hknown : world.bus.channels.get? runId = none →
      world.bus.finishedRunIds.contains runId = true)
    (h : resume limits world i (.subscribe runId afterSeq) x = some (world', p')) :
    p'.Settled world'.bus i := by
  simp only [resume] at h
  split_ifs at h with hdone
  · cases h
    exact trivial
  · obtain ⟨channel, hget⟩ : ∃ channel, world.bus.channels.get? runId = some channel := by
      refine Option.ne_none_iff_exists'.mp fun hnone => hdone ?_
      exact ⟨(OrderedMap.contains_eq_false_iff _ _).mpr hnone, hknown hnone⟩
    have hsame : world.bus.channel runId = channel := by
      simp [MemoryRunEventBus.channel, hget]
    rw [hsame] at h
    obtain ⟨joined, hjoined⟩ : ∃ joined : Channel J, joined = { channel with
      subscribers := channel.subscribers + 1, readers := channel.readers.set i 0 } := ⟨_, rfl⟩
    rw [← hjoined] at h
    have hjoin : Staffed (world.bus.setChannel runId joined) := by
      intro k channel' hk
      rw [setChannel, OrderedMap.get?_set] at hk
      split_ifs at hk
      · cases hk
        rw [hjoined]
        exact (OrderedMap.size_set_le _ _ _).trans (Nat.succ_le_succ (hs runId channel hget))
      · exact hs k channel' hk
    have hread : (world.bus.setChannel runId joined).ReadBy runId i joined :=
      ⟨by simp [setChannel], by simp [hjoined]⟩
    refine (loop_frame { world with bus := world.bus.setChannel runId joined } (Opens world) hjoin
      hread h).2.2 ?_
    rw [hjoined]
    exact hclosed channel hget

/-- It has ended, or its next turn is its own to take. -/
def Proceeds (limits : MemoryBusLimits) (world : RunStreamWorld J) (i : ℕ)
    (p : RunSubscriber J) : Prop :=
  (∃ sub how, p = .ended sub how) ∨
    (∀ sub, p ≠ .waiting sub) ∧ ∀ x, (resume limits world i p x).isSome = true

theorem loop_isSome (world : RunStreamWorld J) (sub : Subscription J) {channel : Channel J}
    {now : Timestamp} (hread : world.bus.ReadBy sub.runId i channel) :
    (loop limits world i sub now).isSome = true := by
  obtain ⟨hget, hpresent⟩ := hread
  obtain ⟨cursor, hcursor⟩ := Option.isSome_iff_exists.mp hpresent
  simp only [loop, hget, hcursor, Option.bind_some]
  by_cases hgone : cursor < 0
  · rw [if_pos hgone]
    rfl
  · rw [if_neg hgone]
    cases (scan sub.afterSeq (channel.frames.drop cursor.toNat)).2 with
    | some frame => rfl
    | none =>
      dsimp only
      split_ifs <;> rfl

/-- Nobody waits to join. -/
theorem subscribe_isSome (limits : MemoryBusLimits) (i : ℕ) (world : RunStreamWorld J) (runId : RunId) (afterSeq : ℕ)
    (x : SubscriberInput) :
    (resume limits world i (.subscribe runId afterSeq) x).isSome = true := by
  simp only [resume]
  split_ifs
  · rfl
  · obtain ⟨joined, hjoined⟩ : ∃ joined : Channel J, joined = { world.bus.channel runId with
      subscribers := (world.bus.channel runId).subscribers + 1
      readers := (world.bus.channel runId).readers.set i 0 } := ⟨_, rfl⟩
    rw [← hjoined]
    refine loop_isSome { world with bus := world.bus.setChannel runId joined } ⟨runId, afterSeq,
      (world.log runId).length - (world.bus.channel runId).frames.length, []⟩
      ⟨OrderedMap.get?_set_self _ runId joined, ?_⟩
    simp [hjoined]

theorem Settled.proceeds (h : p.Settled world.bus i) : p.Proceeds limits world i := by
  cases p with
  | yielding sub =>
    obtain ⟨channel, hread, -⟩ := h
    refine .inr ⟨by simp, fun x => ?_⟩
    simp only [resume]
    split_ifs
    · rfl
    · exact loop_isSome world sub hread
  | ended sub how => exact .inl ⟨sub, how, rfl⟩
  | _ => exact absurd h id

end RunSubscriber

def RunStreamWorld.apply {J : Type*} (limits : MemoryBusLimits) (world : RunStreamWorld J) :
    RunBusEvent J → RunStreamWorld J
  | .publish runId frame => {
      bus := world.bus.publish limits runId frame
      published := world.published.set runId (world.log runId ++ [frame]) }
  | .close runId now => { world with bus := world.bus.close limits runId now }

/-- The subscribers of the bus, with publications of any frames. -/
def RunSubscriber.openProgram {J : Type*} (limits : MemoryBusLimits) :
    Program (RunStreamWorld J) (RunSubscriber J) (RunBusEvent J) SubscriberInput where
  env := fun world e => some (world.apply limits e)
  start := fun world _ p => RunSubscriber.start world p
  resume := RunSubscriber.resume limits

/-- The bus with its clock, the runs released so far, and the runs that were closed and
published nothing since. -/
structure BusHistory (J : Type*) where
  pool : Pool (RunStreamWorld J) (RunSubscriber J) := ⟨{}, []⟩
  clock : Timestamp := 0
  released : List (RunId × Timestamp) := []
  quiet : List RunId := []

namespace BusHistory
variable {J : Type*}

def bus (h : BusHistory J) : MemoryRunEventBus J := h.pool.shared.bus

/-- When the turn takes place. -/
def timeOf (h : BusHistory J) : Action (RunBusEvent J) (RunSubscriber J) SubscriberInput → Timestamp
  | .env (.close _ now) => now
  | .resume _ x => x.now
  | _ => h.clock

/-- The runs that are closed when eviction begins. -/
def closedBefore (h : BusHistory J) :
    Action (RunBusEvent J) (RunSubscriber J) SubscriberInput → List RunId
  | .env (.close runId _) => h.bus.closing runId
  | _ => h.bus.closedOrder

def quietAfter (h : BusHistory J) :
    Action (RunBusEvent J) (RunSubscriber J) SubscriberInput → List RunId
  | .env (.publish runId _) => h.quiet.filter (· ≠ runId)
  | .env (.close runId _) => runId :: h.quiet
  | _ => h.quiet

def step (limits : MemoryBusLimits) (h : BusHistory J)
    (a : Action (RunBusEvent J) (RunSubscriber J) SubscriberInput) : Option (BusHistory J) :=
  if h.timeOf a < h.clock then none
  else ((RunSubscriber.openProgram limits).step h.pool a).map fun pool => {
    pool
    clock := h.timeOf a
    released := h.released ++
      (pool.shared.bus.releasedFrom (h.closedBefore a)).map fun runId => (runId, h.timeOf a)
    quiet := h.quietAfter a }

/-- Every order of publications, closes, subscriptions, resumptions and departures under a
clock that never goes back. -/
def machine (limits : MemoryBusLimits) : Machine (BusHistory J)
    (Action (RunBusEvent J) (RunSubscriber J) SubscriberInput) := ⟨step limits⟩

/-- The run was released less than the TTL ago, and is among the last released. -/
def Remembered (limits : MemoryBusLimits) (released : List (RunId × Timestamp)) (now : Timestamp)
    (runId : RunId) : Prop :=
  ∃ closedAt, Among maxFinishedRunIds (latest released) runId closedAt ∧
    now < closedAt + limits.finishedIdTtlMs

/-- The invariant of the histories. -/
structure Inv (limits : MemoryBusLimits) (h : BusHistory J) : Prop where
  bounded : h.bus.Bounded limits
  staffed : h.bus.Staffed
  seated : ∀ i p, h.pool.procs[i]? = some p → RunSubscriber.Seated h.bus i p
  keeps : Keeps maxFinishedRunIds (MemoryRunEventBus.Expired limits h.clock) (latest h.released)
    h.bus.finishedRunIds.entries
  quiet : ∀ runId ∈ h.quiet, ∀ channel, h.bus.channels.get? runId = some channel →
    channel.closed = true ∨ ¬ Remembered limits h.released h.clock runId

theorem inv_empty (limits : MemoryBusLimits) : Inv limits ({} : BusHistory J) where
  bounded := {
    tidy := ⟨nofun, nofun, nofun, List.nodup_nil⟩
    evicted := .inl (Nat.zero_le _) }
  staffed := nofun
  seated := by simp
  keeps := .refl
  quiet := by simp

variable {limits : MemoryBusLimits} {h h' : BusHistory J}
  {a : Action (RunBusEvent J) (RunSubscriber J) SubscriberInput}

/-- A remembered run is in the map of finished ids. -/
theorem Inv.known (hi : Inv limits h) {runId : RunId}
    (hr : Remembered limits h.released h.clock runId) :
    h.bus.finishedRunIds.contains runId = true := by
  obtain ⟨closedAt, hamong, hrecent⟩ := hr
  have hcurrent : ¬ MemoryRunEventBus.Expired limits h.clock closedAt := by
    exact not_lt.mpr (Nat.sub_le_iff_le_add.mpr hrecent.le)
  have hmem := hi.keeps.mem hamong hcurrent
  rw [OrderedMap.mem_entries_iff] at hmem
  exact Option.isSome_iff_exists.mpr ⟨closedAt, hmem⟩

def actorOf : Action (RunBusEvent J) (RunSubscriber J) SubscriberInput → Option ℕ
  | .resume i _ => some i
  | _ => none

/-- The runs that may get an open channel in the turn. -/
def openedBy (h : BusHistory J) :
    Action (RunBusEvent J) (RunSubscriber J) SubscriberInput → RunId → Prop
  | .env (.publish runId _) => (· = runId)
  | .resume _ _ => RunSubscriber.Opens h.pool.shared
  | _ => fun _ => False

/-- What one turn does to the bus and to its readers. -/
structure Turn (limits : MemoryBusLimits) (h : BusHistory J)
    (a : Action (RunBusEvent J) (RunSubscriber J) SubscriberInput)
    (pool : Pool (RunStreamWorld J) (RunSubscriber J)) : Prop where
  bounded : pool.shared.bus.Bounded limits
  remembers : MemoryRunEventBus.Remembers limits (h.timeOf a) (h.closedBefore a) h.bus
    pool.shared.bus
  frame : MemoryRunEventBus.Frame (actorOf a) (h.openedBy a) h.bus pool.shared.bus
  seated : ∀ i p, pool.procs[i]? = some p → RunSubscriber.Seated pool.shared.bus i p

theorem env_turn (hmax : 0 < limits.maxFramesPerRun) (hi : Inv limits h) (e : RunBusEvent J) :
    Turn limits h (.env e) ⟨h.pool.shared.apply limits e, h.pool.procs⟩ := by
  have hframe : MemoryRunEventBus.Frame none (h.openedBy (.env e)) h.bus
      (h.pool.shared.apply limits e).bus := by
    cases e with
    | publish runId frame => exact MemoryRunEventBus.publish_frame limits hi.staffed runId frame
    | close runId now => exact MemoryRunEventBus.close_frame limits hi.staffed runId now
  have hseated : ∀ i p, h.pool.procs[i]? = some p →
      RunSubscriber.Seated (h.pool.shared.apply limits e).bus i p := fun i p hp =>
    (hi.seated i p hp).frame (Option.some_ne_none i) hframe
  refine ⟨?_, ?_, hframe, hseated⟩
  · cases e with
    | publish runId frame => exact hi.bounded.publish hmax runId frame
    | close runId now => exact hi.bounded.close runId now
  · cases e with
    | publish runId frame => exact .of_same rfl rfl
    | close runId now =>
      exact MemoryRunEventBus.close_remembers hi.bounded.tidy.nodup runId now

theorem step_turn (hmax : 0 < limits.maxFramesPerRun) (hi : Inv limits h)
    {pool : Pool (RunStreamWorld J) (RunSubscriber J)}
    (hstep : (RunSubscriber.openProgram limits).step h.pool a = some pool) :
    Turn limits h a pool := by
  rcases (RunSubscriber.openProgram limits).step_cases hstep with ⟨e, s, rfl, hs, rfl⟩ |
    ⟨p, s, rfl, hs, rfl⟩ | ⟨i, x, p, s, p', rfl, hp, hs, rfl⟩
  · obtain rfl : h.pool.shared.apply limits e = s := Option.some.inj hs
    exact env_turn hmax hi e
  · cases p with
    | subscribe runId afterSeq =>
      obtain rfl : h.pool.shared = s := Option.some.inj hs
      refine ⟨hi.bounded, .of_same rfl rfl, .refl hi.staffed, fun i q hq => ?_⟩
      rcases Nat.lt_trichotomy i h.pool.procs.length with hlt | rfl | hgt
      · exact hi.seated i q (by rwa [List.getElem?_append_left hlt] at hq)
      · obtain rfl : .subscribe runId afterSeq = q := by simpa using hq
        exact trivial
      · rw [List.getElem?_append_right hgt.le] at hq
        simp [Nat.sub_ne_zero_of_lt hgt] at hq
    | _ => cases hs
  · have hs : RunSubscriber.resume limits h.pool.shared i p x = some (s, p') := hs
    obtain ⟨hframe, hseated⟩ := RunSubscriber.resume_frame hi.staffed (hi.seated i p hp) hs
    refine ⟨RunSubscriber.resume_bounded hi.bounded hs,
      RunSubscriber.resume_remembers hi.bounded hs, hframe, fun j q hq => ?_⟩
    by_cases hij : i = j
    · subst hij
      have hlt := (List.getElem?_eq_some_iff.mp hp).1
      obtain rfl : p' = q := by simpa [hlt] using hq
      exact hseated
    · rw [List.getElem?_set_ne hij] at hq
      exact (hi.seated j q hq).frame (fun heq => hij (Option.some.inj heq).symm) hframe

/-- A run that is remembered after a turn was so before, or was released in it. -/
theorem remembered_of_append {released : List (RunId × Timestamp)} {runIds : List RunId}
    {now now' : Timestamp} (hnow : now ≤ now') {runId : RunId}
    (hr : Remembered limits (released ++ runIds.map fun k => (k, now')) now' runId) :
    runId ∈ runIds ∨ Remembered limits released now runId := by
  obtain ⟨closedAt, hamong, hrecent⟩ := hr
  rw [latest_append] at hamong
  rcases hamong.of_foldl_touch (latest_keys_nodup released) with hmem | hbefore
  · left
    obtain ⟨k, hk, heq⟩ := List.mem_map.mp hmem
    cases heq
    exact hk
  · exact .inr ⟨closedAt, hbefore, hnow.trans_lt hrecent⟩

/-- A run with an open channel after a turn is not released in it. -/
theorem Turn.not_released {pool : Pool (RunStreamWorld J) (RunSubscriber J)} (hi : Inv limits h)
    (ht : Turn limits h a pool) {runId : RunId} {channel' : Channel J}
    (hget : pool.shared.bus.channels.get? runId = some channel') (hopen : channel'.closed = false)
    (hclose : ∀ now, a ≠ .env (.close runId now)) (hpublish : ∀ f, a ≠ .env (.publish runId f)) :
    runId ∉ pool.shared.bus.releasedFrom (h.closedBefore a) := by
  intro hmem
  have hbefore : runId ∈ h.bus.closedOrder := by
    have hlisted := List.mem_of_mem_filter hmem
    cases a with
    | env e =>
      cases e with
      | publish => exact hlisted
      | close k now =>
        have hne : runId ≠ k := fun heq => hclose now (heq ▸ rfl)
        simp only [closedBefore, MemoryRunEventBus.closing] at hlisted
        split_ifs at hlisted
        · exact hlisted
        · exact hlisted
        · simpa [hne] using hlisted
    | spawn => exact hlisted
    | resume => exact hlisted
  obtain ⟨channel, hold⟩ := hi.bounded.tidy.present runId hbefore
  have hclosed := (hi.bounded.tidy.tracked runId channel hold).mpr hbefore
  rcases ht.frame.opened runId channel' hget hopen with hopened | ⟨channel₁, hold₁, hopen₁⟩
  · cases a with
    | env e =>
      cases e with
      | publish k f =>
        obtain rfl : runId = k := hopened
        exact hpublish f rfl
      | close => exact hopened
    | spawn => exact hopened
    | resume =>
      cases hopened.1.symm.trans hold
  · rw [hold] at hold₁
    cases hold₁
    rw [hclosed] at hopen₁
    cases hopen₁

theorem Inv.step (hmax : 0 < limits.maxFramesPerRun) (hi : Inv limits h)
    (hstep : BusHistory.step limits h a = some h') : Inv limits h' := by
  unfold BusHistory.step at hstep
  split_ifs at hstep with hback
  have hclock : h.clock ≤ h.timeOf a := not_lt.mp hback
  obtain ⟨pool, hpool, rfl⟩ := Option.map_eq_some_iff.mp hstep
  have ht := step_turn hmax hi hpool
  refine ⟨ht.bounded, ht.frame.staffed, ht.seated, ?_, ?_⟩
  · have hlater : Keeps maxFinishedRunIds (MemoryRunEventBus.Expired limits (h.timeOf a))
        (latest h.released) h.bus.finishedRunIds.entries :=
      hi.keeps.mono fun closedAt hexpired =>
        lt_of_lt_of_le hexpired (Nat.sub_le_sub_right hclock _)
    have hkeeps := MemoryRunEventBus.foldl_remember_keeps
      (pool.shared.bus.releasedFrom (h.closedBefore a)) (latest_keys_nodup h.released) hlater
    rw [← latest_append, ← ht.remembers] at hkeeps
    exact hkeeps
  · intro runId hquiet channel' hget
    by_cases hopen : channel'.closed = true
    · exact .inl hopen
    · have hopen : channel'.closed = false := by simpa using hopen
      -- It was neither closed nor published just now, so it was quiet before.
      have hclose : ∀ now, a ≠ .env (.close runId now) := by
        rintro now rfl
        have hbus : pool.shared.bus = h.bus.close limits runId now := by
          cases hpool
          rfl
        have hclosing : (h.bus.close limits runId now).channels.get? runId = some channel' :=
          hbus ▸ hget
        rw [MemoryRunEventBus.close_closed limits h.bus runId now hclosing] at hopen
        cases hopen
      have hpublish : ∀ frame, a ≠ .env (.publish runId frame) := by
        rintro frame rfl
        simp [quietAfter] at hquiet
      have hbefore : runId ∈ h.quiet := by
        cases a with
        | env e =>
          cases e with
          | publish => exact List.mem_of_mem_filter hquiet
          | close k now =>
            rcases List.mem_cons.mp hquiet with heq | hmem
            · exact absurd (heq ▸ rfl) (hclose now)
            · exact hmem
        | spawn => exact hquiet
        | resume => exact hquiet
      have hkept := ht.not_released hi hget hopen hclose hpublish
      refine .inr fun hr => ?_
      have hold := (remembered_of_append hclock hr).resolve_left hkept
      rcases ht.frame.opened runId channel' hget hopen with hopened | ⟨channel, hold', hopen'⟩
      · cases a with
        | env e =>
          cases e with
          | publish k frame =>
            obtain rfl : runId = k := hopened
            exact hpublish frame rfl
          | close => exact hopened
        | spawn => exact hopened
        | resume =>
          have hknown := hi.known hold
          rw [show h.bus.finishedRunIds.contains runId = false from hopened.2] at hknown
          cases hknown
      · rcases hi.quiet runId hbefore channel hold' with hclosed | hforgotten
        · rw [hopen'] at hclosed
          cases hclosed
        · exact hforgotten hold

/-- What is true of the bus after every turn. -/
structure Retained (limits : MemoryBusLimits) (h : BusHistory J) : Prop where
  capped : ∀ runId channel, h.bus.channels.get? runId = some channel →
    channel.frames.length ≤ limits.maxFramesPerRun
  occupied : ∀ runId channel, h.bus.channels.get? runId = some channel →
    channel.frames ≠ [] ∨ 0 < channel.subscribers
  /-- Few closed channels are without subscribers. -/
  idle : (h.bus.channels.entries.filter fun entry =>
    entry.2.closed && entry.2.subscribers = 0).length ≤ limits.maxRetainedRuns
  tracked : ∀ runId channel, h.bus.channels.get? runId = some channel → channel.closed = true →
    runId ∈ h.bus.closedOrder
  /-- Who joins a run that is closed, and remembered if it was released, never waits. -/
  joins : ∀ i runId afterSeq x, h.pool.procs[i]? = some (.subscribe runId afterSeq) →
    runId ∈ h.quiet → Remembered limits h.released x.now runId →
    ∀ as h', (machine limits).run h (.resume i x :: as) = some h' →
    ∃ p, h'.pool.procs[i]? = some p ∧ p.Proceeds limits h'.pool.shared i
  /-- It can join, and if the channel is gone its stream ends in that turn. -/
  joined : ∀ i runId afterSeq x, h.pool.procs[i]? = some (.subscribe runId afterSeq) →
    runId ∈ h.quiet → Remembered limits h.released x.now runId → h.clock ≤ x.now →
    ∃ h', (machine limits).step h (.resume i x) = some h' ∧
      (h.bus.channels.contains runId = false → ∃ sub how,
        h'.pool.procs[i]? = some (.ended sub how) ∧ sub.yielded = [])

theorem idle_le {bus : MemoryRunEventBus J} (hb : bus.Bounded limits) :
    (bus.channels.entries.filter fun entry =>
      entry.2.closed && entry.2.subscribers = 0).length ≤ limits.maxRetainedRuns := by
  have hidle : ∀ entry ∈ bus.channels.entries.filter fun entry =>
      entry.2.closed && entry.2.subscribers = 0,
      bus.channels.get? entry.1 = some entry.2 ∧ entry.1 ∈ bus.closedOrder ∧
        entry.2.subscribers = 0 := by
    intro entry hentry
    obtain ⟨hmem, hdone⟩ := List.mem_filter.mp hentry
    simp only [Bool.and_eq_true, decide_eq_true_eq] at hdone
    have hget := (OrderedMap.mem_entries_iff _ _ _).mp hmem
    exact ⟨hget, (hb.tidy.tracked _ _ hget).mp hdone.1, hdone.2⟩
  rcases hb.evicted with hfew | hlive
  · have hnodup := bus.channels.nodup.sublist
      ((List.filter_sublist (p := fun entry : RunId × Channel J =>
        entry.2.closed && entry.2.subscribers = 0)).map Prod.fst)
    have hlisted : (bus.channels.entries.filter fun entry =>
        entry.2.closed && entry.2.subscribers = 0).map Prod.fst ⊆ bus.closedOrder := by
      intro runId hmem
      obtain ⟨entry, hentry, rfl⟩ := List.mem_map.mp hmem
      exact (hidle entry hentry).2.1
    have hlength := (List.Nodup.subperm hnodup hlisted).length_le
    rw [List.length_map] at hlength
    exact hlength.trans hfew
  · have hnone : (bus.channels.entries.filter fun entry =>
        entry.2.closed && entry.2.subscribers = 0) = [] := by
      refine List.eq_nil_iff_forall_not_mem.mpr fun entry hentry => ?_
      obtain ⟨hget, hlisted, hzero⟩ := hidle entry hentry
      have hpos := hlive entry.1 hlisted
      simp [MemoryRunEventBus.channel, hget, hzero] at hpos
    rw [hnone]
    exact Nat.zero_le _

/-- A subscriber that will not wait stays so. -/
theorem settled_step (hmax : 0 < limits.maxFramesPerRun) (hi : Inv limits h) {i : ℕ}
    (hp : ∃ p, h.pool.procs[i]? = some p ∧ p.Settled h.bus i)
    (hstep : BusHistory.step limits h a = some h') :
    ∃ p, h'.pool.procs[i]? = some p ∧ p.Settled h'.bus i := by
  obtain ⟨p, hget, hsettled⟩ := hp
  unfold BusHistory.step at hstep
  split_ifs at hstep
  obtain ⟨pool, hpool, rfl⟩ := Option.map_eq_some_iff.mp hstep
  have hframe := (step_turn hmax hi hpool).frame
  rcases (RunSubscriber.openProgram limits).step_cases hpool with ⟨e, s, rfl, hs, rfl⟩ |
    ⟨q, s, rfl, hs, rfl⟩ | ⟨j, x, q, s, q', rfl, hq, hs, rfl⟩
  · exact ⟨p, hget, hsettled.frame (Option.some_ne_none i) hframe⟩
  · have hlt := (List.getElem?_eq_some_iff.mp hget).1
    exact ⟨p, (List.getElem?_append_left hlt).trans hget,
      hsettled.frame (Option.some_ne_none i) hframe⟩
  · by_cases hij : j = i
    · subst hij
      have hlt := (List.getElem?_eq_some_iff.mp hget).1
      cases hget.symm.trans hq
      exact ⟨q', by simp [hlt], RunSubscriber.resume_settled hi.staffed hsettled hs⟩
    · exact ⟨p, (List.getElem?_set_ne hij).trans hget,
        hsettled.frame (fun heq => hij (Option.some.inj heq).symm) hframe⟩

/-- Joining a run that is closed, and remembered if it was released. -/
theorem join_settled (hi : Inv limits h) {i : ℕ} {runId : RunId} {afterSeq : ℕ}
    {x : SubscriberInput} (hget : h.pool.procs[i]? = some (.subscribe runId afterSeq))
    (hquiet : runId ∈ h.quiet) (hr : Remembered limits h.released x.now runId)
    (hstep : BusHistory.step limits h (.resume i x) = some h') :
    ∃ p, h'.pool.procs[i]? = some p ∧ p.Settled h'.bus i := by
  unfold BusHistory.step at hstep
  split_ifs at hstep with hback
  obtain ⟨pool, hpool, rfl⟩ := Option.map_eq_some_iff.mp hstep
  have hnow : Remembered limits h.released h.clock runId := by
    obtain ⟨closedAt, hamong, hrecent⟩ := hr
    exact ⟨closedAt, hamong, (not_lt.mp hback).trans_lt hrecent⟩
  have hclosed : ∀ channel, h.bus.channels.get? runId = some channel → channel.closed = true :=
    fun channel hchannel =>
      (hi.quiet runId hquiet channel hchannel).resolve_right fun hnot => hnot hnow
  obtain ⟨p, hp, hpool⟩ := Option.bind_eq_some_iff.mp hpool
  cases hget.symm.trans hp
  obtain ⟨⟨s, p'⟩, hs, rfl⟩ := Option.map_eq_some_iff.mp hpool
  have hlt := (List.getElem?_eq_some_iff.mp hget).1
  exact ⟨p', by simp [hlt],
    RunSubscriber.subscribe_settled hi.staffed hclosed (fun _ => hi.known hnow) hs⟩

theorem join_ends (hi : Inv limits h) {i : ℕ} {runId : RunId} {afterSeq : ℕ}
    {x : SubscriberInput} (hget : h.pool.procs[i]? = some (.subscribe runId afterSeq))
    (hr : Remembered limits h.released x.now runId) (hnow : h.clock ≤ x.now) :
    ∃ h', BusHistory.step limits h (.resume i x) = some h' ∧
      (h.bus.channels.contains runId = false → ∃ sub how,
        h'.pool.procs[i]? = some (.ended sub how) ∧ sub.yielded = []) := by
  have hknown : h.bus.finishedRunIds.contains runId = true := by
    obtain ⟨closedAt, hamong, hrecent⟩ := hr
    exact hi.known ⟨closedAt, hamong, hnow.trans_lt hrecent⟩
  have hlt := (List.getElem?_eq_some_iff.mp hget).1
  obtain ⟨⟨s, p'⟩, hturn⟩ := Option.isSome_iff_exists.mp
    (RunSubscriber.subscribe_isSome limits i h.pool.shared runId afterSeq x)
  have hpool : (RunSubscriber.openProgram limits).step h.pool (.resume i x) =
      some ⟨s, h.pool.procs.set i p'⟩ :=
    (RunSubscriber.openProgram limits).step_resume hget hturn
  refine ⟨_, by simp only [BusHistory.step, timeOf, not_lt.mpr hnow, if_false, hpool]; rfl, ?_⟩
  intro hgone
  have hended : some (s, p') = some (h.pool.shared, .ended ⟨runId, afterSeq, _, []⟩ (.closed _)) :=
    hturn.symm.trans (if_pos ⟨hgone, hknown⟩)
  cases hended
  exact ⟨_, _, List.getElem?_set_self hlt, rfl⟩

/-- In every order of publications, closes, subscriptions, resumptions and departures the
in-memory bus keeps to its bounds and remembers the runs that have finished. -/
theorem retained {as : List (Action (RunBusEvent J) (RunSubscriber J) SubscriberInput)}
    (hmax : 0 < limits.maxFramesPerRun) (hrun : (machine limits).run {} as = some h) :
    Retained limits h := by
  have hi : Inv limits h :=
    Machine.run_invariant (I := Inv limits) (fun _ _ _ hs hstep => hs.step hmax hstep)
      (inv_empty limits) hrun
  refine ⟨fun k c hk => (hi.bounded.tidy.useful k c hk).capped,
    fun k c hk => (hi.bounded.tidy.useful k c hk).occupied, idle_le hi.bounded,
    fun k c hk => (hi.bounded.tidy.tracked k c hk).mp, ?_,
    fun i k bound x hget _ hr hnow => join_ends hi hget hr hnow⟩
  intro i runId afterSeq x hget hquiet hr as' h' hrun'
  obtain ⟨u, hu, hrest⟩ := (Machine.run_cons_eq_some _).mp hrun'
  have hstart : Inv limits u ∧ ∃ p, u.pool.procs[i]? = some p ∧ p.Settled u.bus i :=
    ⟨hi.step hmax hu, join_settled hi hget hquiet hr hu⟩
  obtain ⟨-, p, hp, hsettled⟩ := Machine.run_invariant
    (I := fun v => Inv limits v ∧ ∃ p, v.pool.procs[i]? = some p ∧ p.Settled v.bus i)
    (fun s b t hs hstep => ⟨hs.1.step hmax hstep, settled_step hmax hs.1 hs.2 hstep⟩) hstart hrest
  exact ⟨p, hp, hsettled.proceeds⟩

/-- A bus that retains one closed run. -/
def oneRun : MemoryBusLimits := { maxRetainedRuns := 1 }

/-- The first run is evicted by the second, and joined late. -/
def lateJoin : List (Action (RunBusEvent ℕ) (RunSubscriber ℕ) SubscriberInput) :=
  [.env (.publish (.of "first") ⟨1, 10⟩), .env (.close (.of "first") 5),
    .env (.publish (.of "second") ⟨1, 20⟩), .env (.close (.of "second") 6),
    .spawn (.subscribe (.of "first") 0), .resume 0 { now := 7 }]

def lateHistory : BusHistory ℕ := ((machine oneRun).run {} lateJoin).getD {}

theorem lateHistory_retained : Retained oneRun lateHistory ∧
    lateHistory.pool.procs = [.ended ⟨.of "first", 0, 1, []⟩ (.closed 1)] :=
  ⟨retained (by decide) (show (machine oneRun).run {} lateJoin = some lateHistory from rfl),
    by decide⟩

end BusHistory
end Skein
