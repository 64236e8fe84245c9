import Mathlib.Data.Int.Order.Basic
import Mathlib.Data.List.Infix
import Skein.Consecutive
import Skein.MemoryRunEventBus

/-!
# Live streams without holes

The frames a channel retains are the end of what was published for its run, so a cursor
into them is a position in the whole log. Trimming moves the cursor and the buffer by the
same amount; nothing else moves a cursor but its own reader, and a channel with a reader
stays in the map. A reader's position therefore only ever grows by what it has passed.
-/
namespace Skein

namespace MemoryRunEventBus
variable {J : Type*}

/-- Some channels without subscribers were taken out, nothing else. -/
structure Shrinks (bus bus' : MemoryRunEventBus J) : Prop where
  kept : ∀ runId channel, bus'.channels.get? runId = some channel →
    bus.channels.get? runId = some channel
  live : ∀ runId channel, bus.channels.get? runId = some channel → 0 < channel.subscribers →
    bus'.channels.get? runId = some channel

theorem Shrinks.refl (bus : MemoryRunEventBus J) : Shrinks bus bus :=
  ⟨fun _ _ h => h, fun _ _ h _ => h⟩

theorem Shrinks.trans {s t u : MemoryRunEventBus J} (h : Shrinks s t) (h' : Shrinks t u) :
    Shrinks s u :=
  ⟨fun k c hc => h.kept k c (h'.kept k c hc), fun k c hc hpos => h'.live k c (h.live k c hc hpos) hpos⟩

/-- Taking out one channel nobody is subscribed to. -/
theorem Shrinks.of_erase {bus bus' : MemoryRunEventBus J} {runId : RunId}
    (hchannels : bus'.channels = bus.channels.erase runId)
    (hidle : ∀ channel, bus.channels.get? runId = some channel → channel.subscribers = 0) :
    Shrinks bus bus' where
  kept := by
    intro k channel hk
    rw [hchannels, OrderedMap.get?_erase] at hk
    split_ifs at hk
    exact hk
  live := by
    intro k channel hk hpos
    rw [hchannels, OrderedMap.get?_erase]
    split_ifs with heq
    · subst heq
      exact absurd (hidle channel hk) (Nat.ne_of_gt hpos)
    · exact hk

theorem evictClosed_shrinks (limits : MemoryBusLimits) (now : Timestamp) (order : List RunId)
    (bus : MemoryRunEventBus J) : Shrinks bus (evictClosed limits now order bus) := by
  induction order generalizing bus with
  | nil => exact .refl bus
  | cons runId order ih =>
    unfold evictClosed
    split_ifs with hroom hlive
    · exact .refl bus
    · exact ih bus
    · refine (Shrinks.of_erase rfl fun channel hchannel => ?_).trans (ih (bus.release limits runId now))
      simpa [hchannel] using hlive

/-- A close marks the channel as closed, and then at most takes idle channels out. -/
theorem close_shrinks_of_unknown (limits : MemoryBusLimits) {bus : MemoryRunEventBus J}
    {runId : RunId} (now : Timestamp) (h : ¬ (bus.channels.contains runId = false ∧
      bus.finishedRunIds.contains runId = true)) :
    Shrinks (bus.setChannel runId { bus.channel runId with closed := true, waiters := [] })
      (bus.close limits runId now) := by
  unfold close
  rw [if_neg h]
  dsimp only
  by_cases hempty : (bus.channel runId).frames = [] ∧ (bus.channel runId).subscribers = 0
  · rw [if_pos hempty]
    refine Shrinks.of_erase rfl fun channel hchannel => ?_
    simp only [setChannel, OrderedMap.get?_set_self, Option.some.injEq] at hchannel
    exact hchannel ▸ hempty.2
  · rw [if_neg hempty]
    have hevict := fun order => evictClosed_shrinks limits now order { bus.setChannel runId
      { bus.channel runId with closed := true, waiters := [] } with
        closedOrder := if runId ∈ bus.closedOrder then bus.closedOrder
          else bus.closedOrder ++ [runId] }
    exact ⟨(hevict _).kept, (hevict _).live⟩

/-- A run that is known to have finished is left alone. -/
theorem close_shrinks (limits : MemoryBusLimits) (bus : MemoryRunEventBus J) (runId : RunId)
    (now : Timestamp) : bus.close limits runId now = bus ∨
    Shrinks (bus.setChannel runId { bus.channel runId with closed := true, waiters := [] })
      (bus.close limits runId now) := by
  by_cases hdone : bus.channels.contains runId = false ∧ bus.finishedRunIds.contains runId = true
  · exact .inl (if_pos hdone)
  · exact .inr (close_shrinks_of_unknown limits now hdone)

/-- A subscriber that leaves takes its reader along, and then idle channels at most. -/
theorem detach_shrinks (limits : MemoryBusLimits) (bus : MemoryRunEventBus J) (runId : RunId)
    (reader : ℕ) (now : Timestamp) :
    Shrinks (bus.setChannel runId { bus.channel runId with
      subscribers := (bus.channel runId).subscribers - 1
      readers := (bus.channel runId).readers.erase reader })
      (bus.detach limits runId reader now) := by
  unfold detach
  dsimp only
  split_ifs with hidle hempty hclosed hclosed
  · refine Shrinks.of_erase rfl fun channel hchannel => ?_
    simp only [setChannel, OrderedMap.get?_set_self, Option.some.injEq] at hchannel
    exact hchannel ▸ hidle
  · refine Shrinks.of_erase rfl fun channel hchannel => ?_
    simp only [setChannel, OrderedMap.get?_set_self, Option.some.injEq] at hchannel
    exact hchannel ▸ hidle
  · exact evictClosed_shrinks limits now _ _
  · exact .refl _
  · exact .refl _

end MemoryRunEventBus

namespace RunStreamWorld
variable {J : Type*}

/-- What a channel holds is the end of the log, and every reader is a subscriber. -/
structure ChannelSafe (log : List (RunFrame J)) (channel : Channel J) : Prop where
  retained : channel.frames <:+ log
  readers : channel.readers.size ≤ channel.subscribers

structure Safe (world : RunStreamWorld J) : Prop where
  consecutive : ∀ runId, Consecutive RunFrame.seq (world.log runId)
  channels : ∀ runId channel, world.bus.channels.get? runId = some channel →
    ChannelSafe (world.log runId) channel

/-- The cursor of a reader, as a position in the log of its run. -/
def At (world : RunStreamWorld J) (runId : RunId) (reader : ℕ) (position : ℤ) : Prop :=
  ∃ channel cursor, world.bus.channels.get? runId = some channel ∧
    channel.readers.get? reader = some cursor ∧
    position = cursor + (world.log runId).length - channel.frames.length

/-- One turn: logs only grow, and the readers of everybody else stay where they are. -/
structure Moves (actor : Option ℕ) (world world' : RunStreamWorld J) : Prop where
  logs : ∀ runId, world.log runId <+: world'.log runId
  readers : ∀ runId reader position, some reader ≠ actor → world.At runId reader position →
    world'.At runId reader position

theorem Moves.refl (actor : Option ℕ) (world : RunStreamWorld J) : Moves actor world world :=
  ⟨fun _ => List.prefix_refl _, fun _ _ _ _ h => h⟩

theorem Moves.trans {actor : Option ℕ} {s t u : RunStreamWorld J} (h : Moves actor s t)
    (h' : Moves actor t u) : Moves actor s u :=
  ⟨fun k => (h.logs k).trans (h'.logs k),
    fun k reader position hactor hat => h'.readers k reader position hactor
      (h.readers k reader position hactor hat)⟩

/-- The unregistered channel of a run is as safe as a registered one. -/
theorem Safe.channel {world : RunStreamWorld J} (h : world.Safe) (runId : RunId) :
    ChannelSafe (world.log runId) (world.bus.channel runId) := by
  unfold MemoryRunEventBus.channel
  cases hget : world.bus.channels.get? runId with
  | none => exact ⟨List.nil_suffix, Nat.le_refl 0⟩
  | some channel => exact h.channels runId channel hget

section Update
variable {world world' : RunStreamWorld J} {runId : RunId} {channel' : Channel J}
  (hbus : (world.bus.setChannel runId channel').Shrinks world'.bus)
  (hlogs : ∀ k, k ≠ runId → world'.log k = world.log k)
  (hsafe' : ChannelSafe (world'.log runId) channel')
include hbus hlogs hsafe'

/-- Replacing one channel by a safe one. -/
theorem Safe.update (h : world.Safe) (hlog : Consecutive RunFrame.seq (world'.log runId)) :
    world'.Safe where
  consecutive := by
    intro k
    by_cases hk : k = runId
    · exact hk ▸ hlog
    · exact hlogs k hk ▸ h.consecutive k
  channels := by
    intro k channel hchannel
    have hset := hbus.kept k channel hchannel
    rw [MemoryRunEventBus.setChannel, OrderedMap.get?_set] at hset
    split_ifs at hset with hk
    · subst hk
      cases hset
      exact hsafe'
    · exact hlogs k (Ne.symm hk) ▸ h.channels k channel hset

/-- Replacing one channel by one in which a reader keeps its position. -/
theorem At.update (h : world.Safe) {k : RunId} {reader : ℕ} {position : ℤ}
    (hat : world.At k reader position)
    (hmove : ∀ channel cursor, world.bus.channels.get? runId = some channel →
      channel.readers.get? reader = some cursor → ∃ cursor', channel'.readers.get? reader = some cursor' ∧
        cursor' + (world'.log runId).length - channel'.frames.length =
          cursor + (world.log runId).length - channel.frames.length) :
    world'.At k reader position := by
  obtain ⟨channel, cursor, hchannel, hreader, rfl⟩ := hat
  by_cases hk : k = runId
  · subst hk
    obtain ⟨cursor', hreader', hsame⟩ := hmove channel cursor hchannel hreader
    have hpos : 0 < channel'.subscribers := (OrderedMap.size_pos hreader').trans_le hsafe'.readers
    refine ⟨channel', cursor', hbus.live k channel' ?_ hpos, hreader', hsame.symm⟩
    simp [MemoryRunEventBus.setChannel]
  · have hpos : 0 < channel.subscribers :=
      (OrderedMap.size_pos hreader).trans_le (h.channels k channel hchannel).readers
    refine ⟨channel, cursor, hbus.live k channel ?_ hpos, hreader, by rw [hlogs k hk]⟩
    simp only [MemoryRunEventBus.setChannel]
    rw [OrderedMap.get?_set_of_ne _ _ (Ne.symm hk), hchannel]

end Update

/-- Trimming keeps the end of the log and moves every cursor with it. -/
theorem ChannelSafe.trim {log : List (RunFrame J)} {channel : Channel J}
    (h : ChannelSafe log channel) (maxFramesPerRun : ℕ) :
    ChannelSafe log (channel.trim maxFramesPerRun) := by
  unfold Channel.trim
  dsimp only
  split_ifs
  · exact h
  · exact ⟨(List.drop_suffix _ _).trans h.retained, by simpa using h.readers⟩

theorem trim_cursor {channel : Channel J} {reader : ℕ} {cursor : ℤ} (maxFramesPerRun : ℕ)
    (h : channel.readers.get? reader = some cursor) :
    ∃ cursor', (channel.trim maxFramesPerRun).readers.get? reader = some cursor' ∧
      cursor' - (channel.trim maxFramesPerRun).frames.length = cursor - channel.frames.length := by
  unfold Channel.trim
  dsimp only
  split_ifs with hcap
  · exact ⟨cursor, h, rfl⟩
  · refine ⟨cursor - (channel.frames.length - maxFramesPerRun : ℕ), ?_, ?_⟩
    · rw [OrderedMap.get?_mapValues, h]
      rfl
    · rw [List.length_drop]
      omega

/-- A turn that publishes nothing and moves no reader but the actor's. -/
theorem Safe.quiet {world : RunStreamWorld J} (h : world.Safe) {runId : RunId}
    {channel' : Channel J} {bus' : MemoryRunEventBus J} {actor : Option ℕ}
    (hbus : (world.bus.setChannel runId channel').Shrinks bus')
    (hframes : channel'.frames = (world.bus.channel runId).frames)
    (hsize : channel'.readers.size ≤ channel'.subscribers)
    (hreaders : ∀ reader, some reader ≠ actor →
      channel'.readers.get? reader = (world.bus.channel runId).readers.get? reader) :
    Safe { world with bus := bus' } ∧ Moves actor world { world with bus := bus' } := by
  obtain ⟨world', hworld'⟩ : ∃ world' : RunStreamWorld J, world' = { world with bus := bus' } :=
    ⟨_, rfl⟩
  rw [← hworld']
  have hbus : (world.bus.setChannel runId channel').Shrinks world'.bus := hworld' ▸ hbus
  have hlogs : ∀ k, world'.log k = world.log k := fun k => by rw [hworld']; rfl
  have hsafe' : ChannelSafe (world'.log runId) channel' :=
    ⟨by rw [hlogs, hframes]; exact (h.channel runId).retained, hsize⟩
  refine ⟨h.update hbus (fun k _ => hlogs k) hsafe' (hlogs runId ▸ h.consecutive runId),
    ⟨fun k => by rw [hlogs], ?_⟩⟩
  intro k reader position hactor hat
  refine hat.update hbus (fun k _ => hlogs k) hsafe' h fun channel cursor hchannel hreader => ?_
  have hget : world.bus.channel runId = channel := by simp [MemoryRunEventBus.channel, hchannel]
  refine ⟨cursor, ?_, by rw [hlogs, hframes, hget]⟩
  rw [hreaders reader hactor, hget, hreader]

/-- A publication appends to its log, and trims. -/
theorem Safe.publish {world : RunStreamWorld J} (h : world.Safe) (limits : MemoryBusLimits)
    {runId : RunId} {frame : RunFrame J}
    (hseq : ∀ last ∈ (world.log runId).getLast?, frame.seq = last.seq + 1)
    {world' : RunStreamWorld J} (hworld' : world' = {
      bus := world.bus.publish limits runId frame
      published := world.published.set runId (world.log runId ++ [frame]) }) :
    world'.Safe ∧ Moves none world world' := by
  obtain ⟨pushed, hpushed⟩ : ∃ pushed : Channel J, pushed = { world.bus.channel runId with
    frames := (world.bus.channel runId).frames ++ [frame] } := ⟨_, rfl⟩
  have hbus : (world.bus.setChannel runId (pushed.trim limits.maxFramesPerRun).wake).Shrinks
      world'.bus := by
    rw [hworld', hpushed]
    exact .refl _
  have hothers : ∀ k, k ≠ runId → world'.log k = world.log k := by
    intro k hk
    simp [hworld', log, OrderedMap.get?_set, Ne.symm hk]
  have hown : world'.log runId = world.log runId ++ [frame] := by simp [hworld', log]
  have hpush : ChannelSafe (world'.log runId) pushed := by
    obtain ⟨⟨gone, hgone⟩, hreaders⟩ := h.channel runId
    rw [hown, hpushed]
    exact ⟨⟨gone, by rw [← hgone, List.append_assoc]⟩, hreaders⟩
  have hsafe' : ChannelSafe (world'.log runId) (pushed.trim limits.maxFramesPerRun).wake :=
    ⟨(hpush.trim _).retained, (hpush.trim _).readers⟩
  refine ⟨h.update hbus hothers hsafe' ?_, ⟨?_, ?_⟩⟩
  · rw [hown]
    exact (h.consecutive runId).concat hseq
  · intro k
    by_cases hk : k = runId
    · rw [hk, hown]
      exact List.prefix_append _ _
    · rw [hothers k hk]
  · intro k reader position _ hat
    refine hat.update hbus hothers hsafe' h fun channel cursor hchannel hreader => ?_
    have hget : world.bus.channel runId = channel := by simp [MemoryRunEventBus.channel, hchannel]
    obtain ⟨cursor', hreader', hsame⟩ := trim_cursor limits.maxFramesPerRun
      (show pushed.readers.get? reader = some cursor by rw [hpushed, hget]; exact hreader)
    refine ⟨cursor', hreader', ?_⟩
    have hlength : pushed.frames.length = channel.frames.length + 1 := by
      rw [hpushed, hget, List.length_append, List.length_singleton]
    show cursor' + (world'.log runId).length - (pushed.trim _).frames.length = _
    rw [hown, List.length_append, List.length_singleton]
    omega

/-- Publications and closes keep the bus safe and every reader where it is. -/
theorem step_moves {limits : MemoryBusLimits} {world world' : RunStreamWorld J}
    {e : RunBusEvent J} (hs : world.Safe) (h : step limits world e = some world') :
    world'.Safe ∧ Moves none world world' := by
  cases e with
  | publish runId frame =>
    simp only [step] at h
    split_ifs at h with hseq
    refine hs.publish limits (fun last hlast => ?_) (Option.some.inj h).symm
    rw [Option.mem_def] at hlast
    simpa [hlast] using hseq
  | close runId now =>
    cases h
    rcases world.bus.close_shrinks limits runId now with hsame | hbus
    · rw [hsame]
      exact ⟨hs, .refl _ _⟩
    · exact hs.quiet hbus rfl (hs.channel runId).readers fun _ _ => rfl

end RunStreamWorld

/-- What a subscription has received after passing `read` frames of a log. -/
def Subscription.received {J : Type*} (sub : Subscription J) (log : List (RunFrame J))
    (read : ℕ) : List (RunFrame J) :=
  ((log.drop sub.joined).take read).filter fun frame => sub.afterSeq < frame.seq

/-- What the end of a stream says about the position it was reached at. -/
def StreamEnd.Explains (how : StreamEnd) (position published : ℕ) : Prop :=
  match how with
  | .dropped gone => position < gone ∧ gone ≤ published
  | .closed total => position = total
  | .returned => True

namespace Subscription
variable {J : Type*} {sub : Subscription J} {log log' : List (RunFrame J)} {read : ℕ}

/-- What was received stays what it is while the log grows. -/
theorem received_of_prefix (h : log <+: log') (hread : sub.joined + read ≤ log.length) :
    sub.received log' read = sub.received log read := by
  obtain ⟨later, rfl⟩ := h
  unfold received
  rw [List.drop_append_of_le_length (by omega), List.take_append_of_le_length]
  rw [List.length_drop]
  omega

/-- Passing some more frames adds those of them that are above the bound. -/
theorem received_add (passed : ℕ) : sub.received log (read + passed) = sub.received log read ++
    ((log.drop (sub.joined + read)).take passed).filter fun frame => sub.afterSeq < frame.seq := by
  unfold received
  rw [List.take_add, List.filter_append, List.drop_drop]

end Subscription

namespace RunSubscriber
variable {J : Type*}

/-- The reading loop passes frames that are not above the bound, and the one it yields. -/
theorem scan_spec (afterSeq : ℕ) (frames : List (RunFrame J)) :
    (scan afterSeq frames).1 ≤ frames.length ∧
    (frames.take (scan afterSeq frames).1).filter (fun frame => afterSeq < frame.seq) =
      (scan afterSeq frames).2.toList ∧
    ((scan afterSeq frames).2 = none → (scan afterSeq frames).1 = frames.length) := by
  induction frames with
  | nil => exact ⟨Nat.le_refl 0, rfl, fun _ => rfl⟩
  | cons frame rest ih =>
    by_cases habove : afterSeq < frame.seq
    · simp [scan, habove]
    · obtain ⟨hle, hpassed, hall⟩ := ih
      simp only [scan, if_neg habove, List.length_cons, List.take_succ_cons]
      refine ⟨by omega, ?_, fun hnone => by rw [hall hnone]⟩
      rw [List.filter_cons_of_neg (by simpa using habove)]
      exact hpassed

/-- Where a live subscriber stands in the log of its run, and what it has received. -/
def Reading (world : RunStreamWorld J) (i : ℕ) (sub : Subscription J) : Prop :=
  ∃ read : ℕ, world.At sub.runId i (sub.joined + read : ℕ) ∧
    sub.joined + read ≤ (world.log sub.runId).length ∧
    sub.yielded = sub.received (world.log sub.runId) read

/-- What a stream that has ended delivered. -/
def Ended (world : RunStreamWorld J) (sub : Subscription J) (how : StreamEnd) : Prop :=
  ∃ read : ℕ, sub.joined + read ≤ (world.log sub.runId).length ∧
    sub.yielded = sub.received (world.log sub.runId) read ∧
    how.Explains (sub.joined + read) (world.log sub.runId).length

/-- What holds of a subscriber between its turns. -/
def Agrees (world : RunStreamWorld J) (i : ℕ) : RunSubscriber J → Prop
  | .subscribe .. => True
  | .yielding sub | .waiting sub => Reading world i sub
  | .ended sub how => Ended world sub how

theorem Agrees.moves {world world' : RunStreamWorld J} {i : ℕ} {p : RunSubscriber J}
    {actor : Option ℕ} (h : p.Agrees world i) (hm : RunStreamWorld.Moves actor world world')
    (hactor : some i ≠ actor) : p.Agrees world' i := by
  have hreading : ∀ sub, Reading world i sub → Reading world' i sub := by
    rintro sub ⟨read, hat, hle, hyielded⟩
    refine ⟨read, hm.readers _ _ _ hactor hat, hle.trans (hm.logs _).length_le, ?_⟩
    rw [hyielded, Subscription.received_of_prefix (hm.logs _) hle]
  cases p with
  | subscribe => trivial
  | yielding sub => exact hreading sub h
  | waiting sub => exact hreading sub h
  | ended sub how =>
    obtain ⟨read, hle, hyielded, hhow⟩ := h
    have hlonger := (hm.logs sub.runId).length_le
    refine ⟨read, hle.trans hlonger, ?_, ?_⟩
    · rw [hyielded, Subscription.received_of_prefix (hm.logs _) hle]
    · cases how with
      | dropped gone => exact ⟨hhow.1, hhow.2.trans hlonger⟩
      | closed total => exact hhow
      | returned => trivial

/-- What a turn keeps. -/
structure Turn (world : RunStreamWorld J) (i : ℕ) (world' : RunStreamWorld J)
    (p' : RunSubscriber J) : Prop where
  safe : world'.Safe
  moves : RunStreamWorld.Moves (some i) world world'
  agrees : p'.Agrees world' i

section Turns
variable {limits : MemoryBusLimits} {world world' : RunStreamWorld J} {i : ℕ}
  {sub : Subscription J} {p' : RunSubscriber J} {now : Timestamp}

/-- A subscriber that registers itself. -/
theorem join_turn (hs : world.Safe) {runId : RunId} {joined : Channel J}
    (hjoined : joined = { world.bus.channel runId with
      subscribers := (world.bus.channel runId).subscribers + 1
      readers := (world.bus.channel runId).readers.set i 0 }) :
    RunStreamWorld.Safe { world with bus := world.bus.setChannel runId joined } ∧
      RunStreamWorld.Moves (some i) world
        { world with bus := world.bus.setChannel runId joined } := by
  refine hs.quiet (.refl (world.bus.setChannel runId joined)) (by rw [hjoined]) ?_ ?_
  · rw [hjoined]
    exact (OrderedMap.size_set_le _ _ _).trans (Nat.succ_le_succ (hs.channel runId).readers)
  · intro reader hne
    rw [hjoined]
    exact OrderedMap.get?_set_of_ne _ _ fun heq => hne (congrArg some heq.symm)

/-- A subscriber that leaves at a position its end explains. -/
theorem finish_turn (hs : world.Safe) {read : ℕ} {position : ℤ}
    (hat : world.At sub.runId i position) (hle : sub.joined + read ≤ (world.log sub.runId).length)
    (hyielded : sub.yielded = sub.received (world.log sub.runId) read) {how : StreamEnd}
    (h : finish limits world i sub how now = (world', p'))
    (hhow : how.Explains (sub.joined + read) (world.log sub.runId).length) :
    Turn world i world' p' := by
  cases h
  obtain ⟨channel, cursor, hchannel, hreader, -⟩ := hat
  have hget : world.bus.channel sub.runId = channel := by
    simp [MemoryRunEventBus.channel, hchannel]
  have hsize := (hs.channels _ _ hchannel).readers
  have hfewer := OrderedMap.size_erase_lt hreader
  obtain ⟨hsafe, hmoves⟩ : RunStreamWorld.Safe _ ∧ RunStreamWorld.Moves (some i) world _ :=
    hs.quiet (world.bus.detach_shrinks limits sub.runId i now) rfl
      (by rw [hget]; dsimp only; omega) fun reader hne => by
        rw [OrderedMap.get?_erase, if_neg]
        rintro rfl
        exact hne rfl
  exact ⟨hsafe, hmoves, ⟨read, hle, hyielded, hhow⟩⟩

/-- A subscriber that passes some frames and suspends. -/
theorem advance_turn (hs : world.Safe) {channel : Channel J} (channel' : Channel J) {cursor : ℤ}
    {passed : ℕ}
    (hchannel : world.bus.channels.get? sub.runId = some channel)
    (hreader : channel.readers.get? i = some cursor)
    (hworld' : world' = { world with bus := world.bus.setChannel sub.runId channel' })
    (hframes : channel'.frames = channel.frames)
    (hreaders : channel'.readers = channel.readers.set i (cursor + passed))
    (hsubscribers : channel'.subscribers = channel.subscribers) :
    world'.Safe ∧ RunStreamWorld.Moves (some i) world world' ∧
      world'.At sub.runId i (cursor + passed + (world.log sub.runId).length -
        channel.frames.length) := by
  have hget : world.bus.channel sub.runId = channel := by
    simp [MemoryRunEventBus.channel, hchannel]
  have hpresent : channel.readers.contains i = true := Option.isSome_iff_exists.mpr ⟨_, hreader⟩
  obtain ⟨hsafe, hmoves⟩ : RunStreamWorld.Safe _ ∧ RunStreamWorld.Moves (some i) world _ :=
    hs.quiet (.refl (world.bus.setChannel sub.runId channel')) (by rw [hframes, hget]) (by
        rw [hreaders, hsubscribers, OrderedMap.size_set_of_contains hpresent]
        exact (hs.channels _ _ hchannel).readers)
      fun reader hne => by
        rw [hget, hreaders]
        exact OrderedMap.get?_set_of_ne _ _ fun heq => hne (congrArg some heq.symm)
  rw [hworld']
  exact ⟨hsafe, hmoves, channel', cursor + passed, by simp [MemoryRunEventBus.setChannel],
    by simp [hreaders], by rw [hframes]; rfl⟩

/-- The loop reads on from the subscriber's position in the log. -/
theorem loop_turn (hs : world.Safe) (hreading : Reading world i sub)
    (h : loop limits world i sub now = some (world', p')) : Turn world i world' p' := by
  obtain ⟨read, hat, hle, hyielded⟩ := hreading
  obtain ⟨channel, cursor, hchannel, hreader, hpos⟩ := hat
  have hlength := (hs.channels _ _ hchannel).retained.length_le
  simp only [loop, hchannel, hreader, Option.bind_some] at h
  by_cases hgone : cursor < 0
  · rw [if_pos hgone] at h
    refine finish_turn hs ⟨channel, cursor, hchannel, hreader, hpos⟩ hle hyielded
      (Option.some.inj h) ⟨?_, ?_⟩
    · omega
    · omega
  · rw [if_neg hgone] at h
    have hunread : channel.frames.drop cursor.toNat =
        (world.log sub.runId).drop (sub.joined + read) := by
      rw [List.suffix_iff_eq_drop.mp (hs.channels _ _ hchannel).retained, List.drop_drop]
      congr 1
      omega
    obtain ⟨hpassed, hfound, hall⟩ := scan_spec sub.afterSeq (channel.frames.drop cursor.toNat)
    obtain ⟨found, hscan⟩ : ∃ found, found = scan sub.afterSeq (channel.frames.drop cursor.toNat) :=
      ⟨_, rfl⟩
    rw [← hscan] at h hpassed hfound hall
    rw [hunread, List.length_drop] at hpassed hall
    have hreceived : sub.received (world.log sub.runId) (read + found.1) =
        sub.yielded ++ found.2.toList := by
      rw [Subscription.received_add, ← hunread, hfound, hyielded]
    have hposition : ((sub.joined + (read + found.1) : ℕ) : ℤ) =
        cursor + found.1 + (world.log sub.runId).length - channel.frames.length := by omega
    rcases hnext : found.2 with _ | frame
    · rw [hnext] at h hreceived
      have hend := hall hnext
      have hsame : sub.yielded = sub.received (world.log sub.runId) (read + found.1) := by
        rw [hreceived]
        simp
      dsimp only at h
      split_ifs at h with hclosed
      · have hreached : sub.joined + (read + found.1) = (world.log sub.runId).length := by omega
        exact finish_turn hs ⟨channel, cursor, hchannel, hreader, hpos⟩ hreached.le hsame
          (Option.some.inj h) hreached
      · cases h
        obtain ⟨hsafe, hmoves, hat⟩ := advance_turn hs { channel with
          readers := channel.readers.set i (cursor + found.1), waiters := channel.waiters ++ [i] }
          hchannel hreader rfl rfl rfl rfl
        refine ⟨hsafe, hmoves, ⟨read + found.1, ?_, ?_, hsame⟩⟩
        · exact hposition ▸ hat
        · show sub.joined + (read + found.1) ≤ (world.log sub.runId).length
          omega
    · rw [hnext] at h hreceived
      cases h
      obtain ⟨hsafe, hmoves, hat⟩ := advance_turn hs { channel with
        readers := channel.readers.set i (cursor + found.1) } hchannel hreader rfl rfl rfl rfl
      refine ⟨hsafe, hmoves, ⟨read + found.1, ?_, ?_, ?_⟩⟩
      · exact hposition ▸ hat
      · show sub.joined + (read + found.1) ≤ (world.log sub.runId).length
        omega
      · exact hreceived.symm

end Turns

theorem resume_turn {limits : MemoryBusLimits} {world world' : RunStreamWorld J} {i : ℕ}
    {p p' : RunSubscriber J} {x : SubscriberInput} (hs : world.Safe) (hp : p.Agrees world i)
    (h : resume limits world i p x = some (world', p')) : Turn world i world' p' := by
  cases p with
  | subscribe runId afterSeq =>
    simp only [resume] at h
    split_ifs at h with hdone
    · cases h
      exact ⟨hs, .refl _ _, ⟨0, Nat.le_refl _, by simp [Subscription.received], rfl⟩⟩
    · have hold := hs.channel runId
      obtain ⟨joined, hjoined⟩ : ∃ joined : Channel J, joined = { world.bus.channel runId with
        subscribers := (world.bus.channel runId).subscribers + 1
        readers := (world.bus.channel runId).readers.set i 0 } := ⟨_, rfl⟩
      rw [← hjoined] at h
      obtain ⟨hsafe, hmoves⟩ := join_turn hs hjoined
      have hlength := hold.retained.length_le
      have hturn : Turn _ i world' p' := loop_turn hsafe (by
        refine ⟨0, ⟨joined, 0, by simp [MemoryRunEventBus.setChannel], by simp [hjoined], ?_⟩, ?_,
          by simp [Subscription.received]⟩
        · show (((world.log runId).length - (world.bus.channel runId).frames.length + 0 : ℕ) : ℤ) =
            0 + (world.log runId).length - joined.frames.length
          rw [hjoined]
          dsimp only
          omega
        · show (world.log runId).length - (world.bus.channel runId).frames.length + 0 ≤
            (world.log runId).length
          omega) h
      exact ⟨hturn.safe, hmoves.trans hturn.moves, hturn.agrees⟩
  | yielding sub =>
    simp only [resume] at h
    split_ifs at h with hreturns
    · obtain ⟨read, hat, hle, hyielded⟩ := hp
      exact finish_turn hs hat hle hyielded (Option.some.inj h) trivial
    · exact loop_turn hs hp h
  | waiting sub =>
    simp only [resume] at h
    split_ifs at h
    exact loop_turn hs hp h
  | ended => cases h

/-- Publications, closes and other subscribers never invalidate a subscriber's position. -/
theorem interferenceFree (limits : MemoryBusLimits) :
    InterferenceFree (program limits) (RunStreamWorld.Safe (J := J)) Agrees
      (fun _ _ => True) where
  env := by
    intro w e world' hw _ he
    obtain ⟨hsafe, hmoves⟩ := RunStreamWorld.step_moves hw.1 he
    exact ⟨hsafe, fun j q hq => (hw.2 j q hq).moves hmoves (by simp)⟩
  start := by
    intro w p world' hw _ hstart
    cases p with
    | subscribe runId afterSeq =>
      cases hstart
      exact ⟨hw.1, trivial, hw.2⟩
    | _ => cases hstart
  resume := by
    intro w i x p world' p' hw _ hp hr
    obtain ⟨hsafe, hmoves, hagrees⟩ := resume_turn hw.1 (hw.local hp) hr
    refine ⟨hsafe, hagrees, fun j q hji hq => (hw.2 j q hq).moves hmoves ?_⟩
    exact fun heq => hji (Option.some.inj heq)

def subscription? : RunSubscriber J → Option (Subscription J)
  | .subscribe .. => none
  | .yielding sub | .waiting sub | .ended sub _ => some sub

end RunSubscriber

/-- What is true of the bus in the turn that ends a stream. -/
def StreamEnd.JustifiedBy {J : Type*} (how : StreamEnd) (world : RunStreamWorld J)
    (runId : RunId) (x : SubscriberInput) : Prop :=
  match how with
  | .dropped gone => (world.bus.channel runId).frames = (world.log runId).drop gone
  | .closed total => total = (world.log runId).length ∧
      ((world.bus.channel runId).closed = true ∨ (world.bus.channels.contains runId = false ∧
        world.bus.finishedRunIds.contains runId = true))
  | .returned => x.returns = true

namespace RunSubscriber
variable {J : Type*} {limits : MemoryBusLimits} {world world' : RunStreamWorld J} {i : ℕ}

/-- A turn of the loop adds to what was yielded, and ends the stream for a reason. -/
theorem loop_outcome {sub : Subscription J} {p' : RunSubscriber J} {now : Timestamp}
    (hs : world.Safe) (h : loop limits world i sub now = some (world', p')) :
    (∃ later, p'.subscription? = some { sub with yielded := sub.yielded ++ later }) ∧
      ∀ sub' how x, p' = .ended sub' how → sub' = sub ∧ how.JustifiedBy world sub.runId x := by
  unfold loop at h
  obtain ⟨channel, hchannel, hopen⟩ := Option.bind_eq_some_iff.mp h
  obtain ⟨cursor, hreader, hturn⟩ := Option.bind_eq_some_iff.mp hopen
  clear h hopen
  have hget : world.bus.channel sub.runId = channel := by
    simp [MemoryRunEventBus.channel, hchannel]
  by_cases hgone : cursor < 0
  · rw [if_pos hgone] at hturn
    cases hturn
    refine ⟨⟨[], by simp [subscription?]⟩, ?_⟩
    rintro _ _ _ ⟨⟩
    refine ⟨rfl, ?_⟩
    show (world.bus.channel sub.runId).frames = _
    rw [hget]
    exact List.suffix_iff_eq_drop.mp (hs.channels _ _ hchannel).retained
  · rw [if_neg hgone] at hturn
    dsimp only at hturn
    cases hnext : (scan sub.afterSeq (channel.frames.drop cursor.toNat)).2 with
    | some frame =>
      rw [hnext] at hturn
      cases hturn
      exact ⟨⟨_, rfl⟩, fun _ _ _ hended => by cases hended⟩
    | none =>
      rw [hnext] at hturn
      dsimp only at hturn
      split_ifs at hturn with hclosed
      · cases hturn
        refine ⟨⟨[], by simp [subscription?]⟩, ?_⟩
        rintro _ _ _ ⟨⟩
        exact ⟨rfl, rfl, .inl (by rw [hget]; exact hclosed)⟩
      · cases hturn
        exact ⟨⟨[], by simp [subscription?]⟩, fun _ _ _ hended => by cases hended⟩

/-- The first turn of a subscriber joins it where the retained frames begin. -/
theorem subscribe_outcome {runId : RunId} {afterSeq : ℕ} {p' : RunSubscriber J}
    {x : SubscriberInput} (hs : world.Safe)
    (h : resume limits world i (.subscribe runId afterSeq) x = some (world', p')) :
    (∃ sub, p'.subscription? = some sub ∧ sub.runId = runId ∧ sub.afterSeq = afterSeq ∧
      (world.log runId).drop sub.joined = (world.bus.channel runId).frames) ∧
      ∀ sub' how, p' = .ended sub' how → how.JustifiedBy world sub'.runId x := by
  have hold := hs.channel runId
  simp only [resume] at h
  split_ifs at h with hdone
  · cases h
    have hnone : world.bus.channels.get? runId = none :=
      (OrderedMap.contains_eq_false_iff _ _).mp hdone.1
    refine ⟨⟨_, rfl, rfl, rfl, by simp [MemoryRunEventBus.channel, hnone]⟩, ?_⟩
    rintro _ _ ⟨⟩
    exact ⟨rfl, .inr hdone⟩
  · obtain ⟨joined, hjoined⟩ : ∃ joined : Channel J, joined = { world.bus.channel runId with
      subscribers := (world.bus.channel runId).subscribers + 1
      readers := (world.bus.channel runId).readers.set i 0 } := ⟨_, rfl⟩
    rw [← hjoined] at h
    obtain ⟨hsafe, -⟩ := join_turn hs hjoined
    obtain ⟨⟨later, hlater⟩, hend⟩ := loop_outcome hsafe h
    refine ⟨⟨_, hlater, rfl, rfl, (List.suffix_iff_eq_drop.mp hold.retained).symm⟩, ?_⟩
    intro sub' how hp'
    obtain ⟨rfl, hjust⟩ := hend sub' how x hp'
    have hsame : (world.bus.setChannel runId joined).channel runId = joined := by
      simp [MemoryRunEventBus.channel, MemoryRunEventBus.setChannel]
    cases how with
    | dropped gone =>
      have hjust : ((world.bus.setChannel runId joined).channel runId).frames =
        (world.log runId).drop gone := hjust
      rw [hsame, hjoined] at hjust
      exact hjust
    | closed total =>
      have hjust : total = (world.log runId).length ∧
        (((world.bus.setChannel runId joined).channel runId).closed = true ∨
          ((world.bus.setChannel runId joined).channels.contains runId = false ∧ _)) := hjust
      rw [hsame, hjoined] at hjust
      refine ⟨hjust.1, hjust.2.imp id fun habsent => ?_⟩
      simp [MemoryRunEventBus.setChannel] at habsent
    | returned => exact hjust

/-- A turn of a live subscriber adds to what was yielded, and ends the stream for a
reason. -/
theorem resume_outcome {p p' : RunSubscriber J} {sub : Subscription J} {x : SubscriberInput}
    (hs : world.Safe) (hsub : p.subscription? = some sub)
    (h : resume limits world i p x = some (world', p')) :
    (∃ later, p'.subscription? = some { sub with yielded := sub.yielded ++ later }) ∧
      ∀ sub' how, p' = .ended sub' how → how.JustifiedBy world sub'.runId x := by
  cases p with
  | subscribe => cases hsub
  | yielding sub =>
    cases hsub
    simp only [resume] at h
    split_ifs at h with hreturns
    · cases h
      refine ⟨⟨[], by simp [subscription?]⟩, ?_⟩
      rintro _ _ ⟨⟩
      exact hreturns
    · obtain ⟨hlater, hend⟩ := loop_outcome hs h
      refine ⟨hlater, fun sub' how hp' => ?_⟩
      obtain ⟨rfl, hjust⟩ := hend sub' how x hp'
      exact hjust
  | waiting sub =>
    cases hsub
    simp only [resume] at h
    split_ifs at h
    obtain ⟨hlater, hend⟩ := loop_outcome hs h
    refine ⟨hlater, fun sub' how hp' => ?_⟩
    obtain ⟨rfl, hjust⟩ := hend sub' how x hp'
    exact hjust
  | ended => cases h

/-- What any subscriber has received is some part of the log from where it joined. -/
theorem Agrees.received {p : RunSubscriber J} {sub : Subscription J} (h : p.Agrees world i)
    (hsub : p.subscription? = some sub) :
    ∃ read, sub.yielded = sub.received (world.log sub.runId) read := by
  cases p with
  | subscribe => cases hsub
  | yielding | waiting =>
    cases hsub
    obtain ⟨read, -, -, hyielded⟩ := h
    exact ⟨read, hyielded⟩
  | ended =>
    cases hsub
    obtain ⟨read, -, hyielded, -⟩ := h
    exact ⟨read, hyielded⟩

end RunSubscriber

/-- The streams of one state of the bus. `log` is everything published for a run, and what
a subscriber yields is told as a part of it. -/
structure Unbroken {J : Type*} (limits : MemoryBusLimits)
    (w : Pool (RunStreamWorld J) (RunSubscriber J)) : Prop where
  /-- A subscriber joins where the retained frames begin. -/
  joins : ∀ (i : ℕ) runId afterSeq x world' p',
    w.procs[i]? = some (.subscribe runId afterSeq) →
    RunSubscriber.resume limits w.shared i (.subscribe runId afterSeq) x = some (world', p') →
    ∃ sub, p'.subscription? = some sub ∧ sub.runId = runId ∧ sub.afterSeq = afterSeq ∧
      (w.shared.log runId).drop sub.joined = (w.shared.bus.channel runId).frames
  /-- After that it only yields more. -/
  continues : ∀ (i : ℕ) p sub x world' p', w.procs[i]? = some p → p.subscription? = some sub →
    RunSubscriber.resume limits w.shared i p x = some (world', p') →
    ∃ later, p'.subscription? = some { sub with yielded := sub.yielded ++ later }
  /-- It yields a run of the log, from the first frame above its bound on. -/
  yields : ∀ (i : ℕ) p sub, w.procs[i]? = some p → p.subscription? = some sub →
    ∃ n, sub.yielded = (((w.shared.log sub.runId).drop sub.joined).dropWhile
      fun frame => frame.seq ≤ sub.afterSeq).take n
  consecutive : ∀ (i : ℕ) p sub, w.procs[i]? = some p → p.subscription? = some sub →
    Consecutive RunFrame.seq sub.yielded
  /-- It ends because its next frame was dropped, because the run had closed, or because
  its consumer left. -/
  ends : ∀ (i : ℕ) p x world' sub how, w.procs[i]? = some p →
    RunSubscriber.resume limits w.shared i p x = some (world', .ended sub how) →
    how.JustifiedBy w.shared sub.runId x
  dropped : ∀ (i : ℕ) sub gone, w.procs[i]? = some (.ended sub (.dropped gone)) →
    ∃ read, sub.yielded = sub.received (w.shared.log sub.runId) read ∧
      sub.joined + read < gone ∧ gone ≤ (w.shared.log sub.runId).length
  /-- A stream that ended with its run has yielded all there was. -/
  closed : ∀ (i : ℕ) sub total, w.procs[i]? = some (.ended sub (.closed total)) →
    sub.yielded = (((w.shared.log sub.runId).take total).drop sub.joined).dropWhile
      fun frame => frame.seq ≤ sub.afterSeq

/-- Along every interleaving of publications with consecutive numbers, closes and any
number of subscribers, the streams of the bus have no holes and no repeats. -/
theorem MemoryRunEventBus.streams_unbroken {J : Type*} (limits : MemoryBusLimits)
    {w : Pool (RunStreamWorld J) (RunSubscriber J)}
    {as : List (Action (RunBusEvent J) (RunSubscriber J) SubscriberInput)}
    (h : (RunSubscriber.program limits).machine.run ⟨{}, []⟩ as = some w) :
    Unbroken limits w := by
  have hstart : RunStreamWorld.Safe ({} : RunStreamWorld J) := ⟨fun _ => .nil, by simp⟩
  have hall : (RunSubscriber.program (J := J) limits).machine.Along (fun _ _ => True) ⟨{}, []⟩ as :=
    Machine.along_of_steps h fun _ _ _ _ _ _ _ => trivial
  have hw := (RunSubscriber.interferenceFree limits).run (Pool.holds_empty hstart) hall h
  have hlog : ∀ runId, Consecutive RunFrame.seq (w.shared.log runId) := hw.1.consecutive
  have hyields : ∀ (i : ℕ) p sub, w.procs[i]? = some p → p.subscription? = some sub →
      ∃ n, sub.yielded = (((w.shared.log sub.runId).drop sub.joined).dropWhile
        fun frame => frame.seq ≤ sub.afterSeq).take n := by
    intro i p sub hp hsub
    obtain ⟨read, hread⟩ := (hw.local hp).received hsub
    rw [hread]
    exact filter_above_take ((hlog sub.runId).drop sub.joined).pairwise sub.afterSeq read
  refine ⟨?_, ?_, hyields, ?_, ?_, ?_, ?_⟩
  · exact fun i runId afterSeq x world' p' _ hr => (RunSubscriber.subscribe_outcome hw.1 hr).1
  · exact fun i p sub x world' p' _ hsub hr => (RunSubscriber.resume_outcome hw.1 hsub hr).1
  · intro i p sub hp hsub
    obtain ⟨n, hn⟩ := hyields i p sub hp hsub
    rw [hn]
    exact (((hlog sub.runId).drop sub.joined).suffix (List.dropWhile_suffix _)).take n
  · intro i p x world' sub how hp hr
    cases hsub : p.subscription? with
    | none =>
      cases p with
      | subscribe runId afterSeq => exact (RunSubscriber.subscribe_outcome hw.1 hr).2 sub how rfl
      | _ => cases hsub
    | some old => exact (RunSubscriber.resume_outcome hw.1 hsub hr).2 sub how rfl
  · intro i sub gone hp
    obtain ⟨read, -, hyielded, hlt, hle⟩ := hw.local hp
    exact ⟨read, hyielded, hlt, hle⟩
  · intro i sub total hp
    obtain ⟨read, -, hyielded, htotal⟩ := hw.local hp
    have htotal : sub.joined + read = total := htotal
    rw [hyielded, ← filter_above_eq_dropWhile (((hlog sub.runId).take total).drop sub.joined).pairwise,
      List.drop_take, Subscription.received]
    congr 2
    omega

namespace MemoryRunEventBus

/-- Two subscribers of a run whose bus retains two frames. The first keeps up; the second
has read one frame when the next two are dropped. -/
def trimmedRun : List (Action (RunBusEvent ℕ) (RunSubscriber ℕ) SubscriberInput) :=
  [.spawn (.subscribe (.of "run") 1), .spawn (.subscribe (.of "run") 0),
    .env (.publish (.of "run") ⟨1, 10⟩), .env (.publish (.of "run") ⟨2, 20⟩), .resume 0 {},
    .resume 1 {}, .env (.publish (.of "run") ⟨3, 30⟩), .resume 0 {},
    .env (.publish (.of "run") ⟨4, 40⟩), .env (.publish (.of "run") ⟨5, 50⟩), .resume 1 {},
    .env (.close (.of "run") 7), .resume 0 {}, .resume 0 {}, .resume 0 {}]

/-- The world after that schedule. -/
def trimmedPool : Pool (RunStreamWorld ℕ) (RunSubscriber ℕ) :=
  ((RunSubscriber.program { maxFramesPerRun := 2 }).machine.run ⟨{}, []⟩ trimmedRun).getD ⟨{}, []⟩

/-- The first has everything above its bound, the second ends before the hole. -/
theorem trimmedPool_unbroken :
    Unbroken { maxFramesPerRun := 2 } trimmedPool ∧
      trimmedPool.procs =
        [.ended ⟨.of "run", 1, 0, [⟨2, 20⟩, ⟨3, 30⟩, ⟨4, 40⟩, ⟨5, 50⟩]⟩ (.closed 5),
          .ended ⟨.of "run", 0, 0, [⟨1, 10⟩]⟩ (.dropped 3)] :=
  ⟨streams_unbroken { maxFramesPerRun := 2 }
    (show (RunSubscriber.program { maxFramesPerRun := 2 }).machine.run ⟨{}, []⟩ trimmedRun =
      some trimmedPool from rfl), by decide⟩

end MemoryRunEventBus
end Skein
