import Skein.RunStreams

/-!
# Reconnecting after a dropped frame

A stream that the bus ended had not read a frame that was dropped. The number of frames gone
from a run never shrinks, so a later subscription from the last received number starts behind
that frame: the first frame it yields, if any, leaves the hole the first stream ended for.
-/
namespace Skein

namespace RunStreamWorld
variable {J : Type*}

/-- How many frames of a run the bus no longer holds. -/
def gone (world : RunStreamWorld J) (runId : RunId) : ℕ :=
  (world.log runId).length - (world.bus.channel runId).frames.length

/-- The frames of a channel are those of the log that are not gone. -/
theorem Safe.frames_eq {world : RunStreamWorld J} (h : world.Safe) (runId : RunId) :
    (world.bus.channel runId).frames = (world.log runId).drop (world.gone runId) :=
  List.suffix_iff_eq_drop.mp (h.channel runId).retained

end RunStreamWorld

namespace MemoryRunEventBus
variable {J : Type*}

theorem channel_setChannel (bus : MemoryRunEventBus J) (runId k : RunId) (channel' : Channel J) :
    (bus.setChannel runId channel').channel k = if runId = k then channel' else bus.channel k := by
  simp only [channel, setChannel, OrderedMap.get?_set]
  split_ifs <;> rfl

/-- Channels that were taken out hold no frames any more. -/
theorem Shrinks.frames_le {bus bus' : MemoryRunEventBus J} (h : bus.Shrinks bus') (k : RunId) :
    (bus'.channel k).frames.length ≤ (bus.channel k).frames.length := by
  unfold channel
  cases hget : bus'.channels.get? k with
  | none => exact Nat.zero_le _
  | some channel' => rw [h.kept k channel' hget]

/-- The channels of `bus'` hold no more frames than those of `bus`. -/
def FramesLe (bus' bus : MemoryRunEventBus J) : Prop :=
  ∀ k, (bus'.channel k).frames.length ≤ (bus.channel k).frames.length

theorem setChannel_framesLe {bus : MemoryRunEventBus J} {runId : RunId} {channel' : Channel J}
    (hframes : channel'.frames = (bus.channel runId).frames) :
    FramesLe (bus.setChannel runId channel') bus := by
  intro k
  rw [channel_setChannel]
  split_ifs with hk
  · rw [hframes, hk]
  · exact le_rfl

theorem FramesLe.trans {s t u : MemoryRunEventBus J} (h : FramesLe s t) (h' : FramesLe t u) :
    FramesLe s u := fun k => (h k).trans (h' k)

theorem close_framesLe (limits : MemoryBusLimits) (bus : MemoryRunEventBus J) (runId : RunId)
    (now : Timestamp) : FramesLe (bus.close limits runId now) bus := by
  rcases bus.close_shrinks limits runId now with hsame | hshrinks
  · rw [hsame]
    exact fun _ => le_rfl
  · exact FramesLe.trans (fun k => hshrinks.frames_le k) (setChannel_framesLe rfl)

theorem detach_framesLe (limits : MemoryBusLimits) (bus : MemoryRunEventBus J) (runId : RunId)
    (reader : ℕ) (now : Timestamp) : FramesLe (bus.detach limits runId reader now) bus :=
  FramesLe.trans (fun k => (bus.detach_shrinks limits runId reader now).frames_le k)
    (setChannel_framesLe rfl)

end MemoryRunEventBus

namespace RunSubscriber
variable {J : Type*} {limits : MemoryBusLimits} {world world' : RunStreamWorld J} {i : ℕ}
  {p p' : RunSubscriber J}

/-- A turn of the loop publishes nothing and adds no frames. -/
theorem loop_framesLe {sub : Subscription J} {now : Timestamp}
    (h : loop limits world i sub now = some (world', p')) :
    world'.published = world.published ∧ world'.bus.FramesLe world.bus := by
  unfold loop at h
  obtain ⟨channel, hchannel, hopen⟩ := Option.bind_eq_some_iff.mp h
  obtain ⟨cursor, -, hturn⟩ := Option.bind_eq_some_iff.mp hopen
  have hget : (world.bus.channel sub.runId).frames = channel.frames := by
    simp [MemoryRunEventBus.channel, hchannel]
  by_cases hgone : cursor < 0
  · rw [if_pos hgone] at hturn
    cases hturn
    exact ⟨rfl, world.bus.detach_framesLe limits sub.runId i now⟩
  · rw [if_neg hgone] at hturn
    dsimp only at hturn
    cases hnext : (scan sub.afterSeq (channel.frames.drop cursor.toNat)).2 with
    | some frame =>
      rw [hnext] at hturn
      cases hturn
      exact ⟨rfl, MemoryRunEventBus.setChannel_framesLe hget.symm⟩
    | none =>
      rw [hnext] at hturn
      dsimp only at hturn
      split_ifs at hturn <;> cases hturn
      · exact ⟨rfl, world.bus.detach_framesLe limits sub.runId i now⟩
      · exact ⟨rfl, MemoryRunEventBus.setChannel_framesLe hget.symm⟩

theorem resume_framesLe {x : SubscriberInput}
    (h : resume limits world i p x = some (world', p')) :
    world'.published = world.published ∧ world'.bus.FramesLe world.bus := by
  cases p with
  | subscribe runId afterSeq =>
    simp only [resume] at h
    split_ifs at h
    · cases h
      exact ⟨rfl, fun _ => le_rfl⟩
    · obtain ⟨hpublished, hframes⟩ := loop_framesLe h
      exact ⟨hpublished, hframes.trans (MemoryRunEventBus.setChannel_framesLe rfl)⟩
  | yielding sub =>
    simp only [resume] at h
    split_ifs at h
    · cases h
      exact ⟨rfl, world.bus.detach_framesLe limits sub.runId i x.now⟩
    · exact loop_framesLe h
  | waiting sub =>
    simp only [resume] at h
    split_ifs at h
    exact loop_framesLe h
  | ended => cases h

end RunSubscriber

namespace RunStreamWorld
variable {J : Type*} {limits : MemoryBusLimits} {world world' : RunStreamWorld J}

theorem gone_le_of_framesLe (hframes : world'.bus.FramesLe world.bus)
    (hpublished : world'.published = world.published) (runId : RunId) :
    world.gone runId ≤ world'.gone runId := by
  have hlog : world'.log runId = world.log runId := by rw [log, log, hpublished]
  have hle := hframes runId
  rw [gone, gone, hlog]
  omega

/-- Publishing one frame, trimmed or not, brings no frame back. -/
theorem gone_le_of_step (hs : world.Safe) {e : RunBusEvent J}
    (h : step limits world e = some world') (k : RunId) : world.gone k ≤ world'.gone k := by
  cases e with
  | close runId now =>
    cases h
    exact Nat.sub_le_sub_left (world.bus.close_framesLe limits runId now k) _
  | publish runId frame =>
    simp only [step] at h
    split_ifs at h
    cases h
    have hle := (hs.channel k).retained.length_le
    by_cases hk : runId = k
    · subst hk
      simp only [gone, log, OrderedMap.get?_set_self, Option.getD_some, MemoryRunEventBus.publish,
        MemoryRunEventBus.channel_setChannel, if_true, Channel.wake, Channel.trim] at hle ⊢
      split_ifs <;> simp only [List.length_append, List.length_singleton, List.length_drop] <;>
        omega
    · simp only [gone, log, OrderedMap.get?_set_of_ne _ _ hk, MemoryRunEventBus.publish,
        MemoryRunEventBus.channel_setChannel, if_neg hk]
      exact le_rfl

end RunStreamWorld

namespace RunSubscriber
variable {J : Type*} {limits : MemoryBusLimits}

/-- Whether the frames retained for its run hold one this subscriber has not passed. -/
def FindsFrame (world : RunStreamWorld J) (i : ℕ) : RunSubscriber J → Prop
  | .subscribe runId _ => (world.bus.channel runId).frames ≠ []
  | .waiting sub => ∃ cursor ∈ (world.bus.channel sub.runId).readers.get? i,
      0 ≤ cursor ∧ cursor < (world.bus.channel sub.runId).frames.length
  | _ => False

instance decidableFindsFrame (world : RunStreamWorld J) (i : ℕ) :
    ∀ p : RunSubscriber J, Decidable (p.FindsFrame world i)
  | .subscribe runId _ => inferInstanceAs (Decidable ((world.bus.channel runId).frames ≠ []))
  | .waiting sub => inferInstanceAs (Decidable
      (∃ cursor ∈ (world.bus.channel sub.runId).readers.get? i,
        0 ≤ cursor ∧ cursor < (world.bus.channel sub.runId).frames.length))
  | .yielding _ => isFalse id
  | .ended .. => isFalse id

/-- A subscription that has yielded something. -/
def Served (p : RunSubscriber J) : Prop := ∃ sub ∈ p.subscription?, sub.yielded ≠ []

/-- The loop yields when all that is left are frames above the bound. -/
theorem loop_served {world world' : RunStreamWorld J} {i : ℕ} {sub : Subscription J}
    {p' : RunSubscriber J} {now : Timestamp} (hnone : sub.yielded = [])
    (habove : ∀ frame ∈ (world.bus.channel sub.runId).frames, sub.afterSeq < frame.seq)
    (h : loop limits world i sub now = some (world', p')) :
    (p'.Served ↔ ∃ cursor ∈ (world.bus.channel sub.runId).readers.get? i,
        0 ≤ cursor ∧ cursor < (world.bus.channel sub.runId).frames.length) ∧
      ∀ sub' ∈ p'.subscription?, (∀ frame ∈ sub'.yielded,
        frame ∈ (world.bus.channel sub.runId).frames) ∧
        (p' = .yielding sub' → sub'.yielded ≠ []) := by
  unfold loop at h
  obtain ⟨channel, hchannel, hopen⟩ := Option.bind_eq_some_iff.mp h
  obtain ⟨cursor, hreader, hturn⟩ := Option.bind_eq_some_iff.mp hopen
  clear h hopen
  have hget : world.bus.channel sub.runId = channel := by
    simp [MemoryRunEventBus.channel, hchannel]
  rw [hget] at habove ⊢
  simp only [Option.mem_def, hreader, Option.some.injEq, exists_eq_left']
  by_cases hgone : cursor < 0
  · rw [if_pos hgone] at hturn
    cases hturn
    simp [Served, subscription?, hnone, not_le.mpr hgone]
  · rw [if_neg hgone] at hturn
    dsimp only at hturn
    cases hunread : channel.frames.drop cursor.toNat with
    | nil =>
      rw [hunread] at hturn
      have hlength := List.drop_eq_nil_iff.mp hunread
      have hend : ¬ cursor < channel.frames.length := by omega
      simp only [scan] at hturn
      split_ifs at hturn <;> cases hturn
      · simp [Served, subscription?, hnone, hend]
      · simp [Served, subscription?, hnone, hend]
    | cons frame rest =>
      have hmem : frame ∈ channel.frames := List.mem_of_mem_drop (hunread ▸ List.mem_cons_self)
      have hlt : cursor < channel.frames.length := by
        have hlength := congrArg List.length hunread
        rw [List.length_drop, List.length_cons] at hlength
        omega
      rw [hunread] at hturn
      simp only [scan, if_pos (habove frame hmem)] at hturn
      cases hturn
      simp [Served, subscription?, hnone, hlt, not_lt.mp hgone, hmem]

end RunSubscriber

/-- A frame above the bound was published and is gone. -/
def RunStreamWorld.Hole {J : Type*} (world : RunStreamWorld J) (runId : RunId) (afterSeq : ℕ) :
    Prop :=
  ∃ n, n < world.gone runId ∧ ∃ frame ∈ (world.log runId)[n]?, afterSeq < frame.seq

/-- A subscription from the bound whose first frame, if any, is not the next one. -/
structure Subscription.Trails {J : Type*} (sub : Subscription J) (runId : RunId)
    (afterSeq : ℕ) : Prop where
  runId_eq : sub.runId = runId
  afterSeq_eq : sub.afterSeq = afterSeq
  first : ∀ first ∈ sub.yielded.head?, afterSeq + 1 < first.seq

namespace RunSubscriber
variable {J : Type*} {limits : MemoryBusLimits}

/-- What holds between two turns of a subscriber that joined behind a hole. -/
def Trails (runId : RunId) (afterSeq : ℕ) : RunSubscriber J → Prop
  | .subscribe k bound => k = runId ∧ bound = afterSeq
  | .yielding sub => sub.Trails runId afterSeq ∧ sub.yielded ≠ []
  | .waiting sub | .ended sub _ => sub.Trails runId afterSeq

end RunSubscriber

namespace RunStreamWorld
variable {J : Type*} {world world' : RunStreamWorld J} {runId : RunId} {afterSeq : ℕ}

/-- Every frame still held comes after the hole. -/
theorem Hole.channel_retained (h : world.Hole runId afterSeq) (hs : world.Safe) :
    ∀ frame ∈ (world.bus.channel runId).frames, afterSeq + 1 < frame.seq := by
  obtain ⟨n, hn, lost, hlost, hbound⟩ := h
  intro frame hframe
  rw [hs.frames_eq] at hframe
  obtain ⟨m, hm, rfl⟩ := List.getElem_of_mem hframe
  obtain ⟨hlt, rfl⟩ := List.getElem?_eq_some_iff.mp hlost
  rw [List.getElem_drop]
  have hlater := List.pairwise_iff_getElem.mp (hs.consecutive runId).pairwise n
    (world.gone runId + m) hlt (by rw [List.length_drop] at hm; omega) (by omega)
  omega

theorem Hole.mono (h : world.Hole runId afterSeq)
    (hlog : world.log runId <+: world'.log runId) (hgone : world.gone runId ≤ world'.gone runId) :
    world'.Hole runId afterSeq := by
  obtain ⟨n, hn, frame, hframe, hbound⟩ := h
  obtain ⟨later, hlater⟩ := hlog
  refine ⟨n, hn.trans_le hgone, frame, ?_, hbound⟩
  rw [← hlater, List.getElem?_append_left (List.getElem?_eq_some_iff.mp hframe).1]
  exact hframe

end RunStreamWorld

namespace RunSubscriber
variable {J : Type*} {limits : MemoryBusLimits} {world world' : RunStreamWorld J} {i : ℕ}
  {p p' : RunSubscriber J} {runId : RunId} {afterSeq : ℕ}

theorem trails_iff {sub : Subscription J} (hsub : p.subscription? = some sub) :
    p.Trails runId afterSeq ↔
      sub.Trails runId afterSeq ∧ (p = .yielding sub → sub.yielded ≠ []) := by
  cases p with
  | subscribe => cases hsub
  | yielding => cases hsub; simp [Trails]
  | waiting => cases hsub; simp [Trails]
  | ended => cases hsub; simp [Trails]

theorem loop_trails {sub : Subscription J} {now : Timestamp} (hs : world.Safe)
    (hhole : world.Hole runId afterSeq) (htrails : sub.Trails runId afterSeq)
    (hnone : sub.yielded = []) (h : loop limits world i sub now = some (world', p')) :
    p'.Trails runId afterSeq ∧
      (p'.Served ↔ ∃ cursor ∈ (world.bus.channel runId).readers.get? i,
        0 ≤ cursor ∧ cursor < (world.bus.channel runId).frames.length) := by
  have hrun := htrails.runId_eq
  have hretained := hhole.channel_retained hs
  obtain ⟨hserved, hfrom⟩ := loop_served hnone (fun frame hframe => by
    rw [htrails.afterSeq_eq]
    have := hretained frame (hrun ▸ hframe)
    omega) h
  rw [hrun] at hserved hfrom
  refine ⟨?_, hserved⟩
  obtain ⟨⟨later, hlater⟩, -⟩ := loop_outcome hs h
  obtain ⟨hframes, hyielding⟩ := hfrom _ hlater
  refine (trails_iff hlater).mpr ⟨⟨hrun, htrails.afterSeq_eq, fun first hfirst => ?_⟩, hyielding⟩
  exact hretained first (hframes first (List.mem_of_mem_head? hfirst))

/-- What was yielded first stays first. -/
theorem resume_trails_of_served {x : SubscriberInput} (hs : world.Safe)
    (htrails : p.Trails runId afterSeq) (hserved : p.Served)
    (h : resume limits world i p x = some (world', p')) :
    p'.Trails runId afterSeq ∧ p'.Served := by
  obtain ⟨sub, hsub, hsome⟩ := hserved
  obtain ⟨⟨later, hlater⟩, -⟩ := resume_outcome hs hsub h
  obtain ⟨hold, -⟩ := (trails_iff hsub).mp htrails
  have hkeeps : sub.yielded ++ later ≠ [] := by simp [hsome]
  refine ⟨(trails_iff hlater).mpr ⟨⟨hold.runId_eq, hold.afterSeq_eq, ?_⟩, fun _ => hkeeps⟩,
    _, hlater, hkeeps⟩
  rw [List.head?_append_of_ne_nil _ hsome]
  exact hold.first

theorem subscribe_trails {x : SubscriberInput} (hs : world.Safe)
    (hhole : world.Hole runId afterSeq)
    (h : resume limits world i (.subscribe runId afterSeq) x = some (world', p')) :
    p'.Trails runId afterSeq ∧ (p'.Served ↔ (world.bus.channel runId).frames ≠ []) := by
  simp only [resume] at h
  split_ifs at h with hdone
  · cases h
    have hnone : world.bus.channels.get? runId = none :=
      (OrderedMap.contains_eq_false_iff _ _).mp hdone.1
    refine ⟨⟨rfl, rfl, by simp⟩, ?_⟩
    simp [Served, subscription?, MemoryRunEventBus.channel, hnone]
  · obtain ⟨joined, hjoined⟩ : ∃ joined : Channel J, joined = { world.bus.channel runId with
      subscribers := (world.bus.channel runId).subscribers + 1
      readers := (world.bus.channel runId).readers.set i 0 } := ⟨_, rfl⟩
    rw [← hjoined] at h
    have hframes : joined.frames = (world.bus.channel runId).frames := by rw [hjoined]
    have hget : (world.bus.setChannel runId joined).channel runId = joined := by
      rw [MemoryRunEventBus.channel_setChannel, if_pos rfl]
    have hjoin : RunStreamWorld.Hole { world with bus := world.bus.setChannel runId joined } runId
        afterSeq := by
      refine hhole.mono List.prefix_rfl (RunStreamWorld.gone_le_of_framesLe ?_ ?_ runId)
      · exact MemoryRunEventBus.setChannel_framesLe hframes
      · rfl
    obtain ⟨htrails, hserved⟩ := loop_trails (join_turn hs hjoined).1 hjoin ⟨rfl, rfl, by simp⟩
      rfl h
    refine ⟨htrails, hserved.trans ?_⟩
    show (∃ cursor ∈ ((world.bus.setChannel runId joined).channel runId).readers.get? i,
      0 ≤ cursor ∧ cursor < ((world.bus.setChannel runId joined).channel runId).frames.length) ↔ _
    rw [hget, hframes, hjoined]
    simp [OrderedMap.get?_set_self, List.length_pos_iff]

/-- A turn behind the hole: the first frame is yielded when there is one at hand. -/
theorem resume_trails {x : SubscriberInput} (hs : world.Safe)
    (hhole : world.Hole runId afterSeq) (htrails : p.Trails runId afterSeq)
    (h : resume limits world i p x = some (world', p')) :
    p'.Trails runId afterSeq ∧ (p'.Served ↔ p.Served ∨ p.FindsFrame world i) := by
  by_cases hserved : p.Served
  · obtain ⟨htrails', hserved'⟩ := resume_trails_of_served hs htrails hserved h
    exact ⟨htrails', by simp [hserved, hserved']⟩
  · rw [or_iff_right hserved]
    cases p with
    | subscribe k bound =>
      obtain ⟨rfl, rfl⟩ := htrails
      exact subscribe_trails hs hhole h
    | yielding sub => exact absurd ⟨sub, rfl, htrails.2⟩ hserved
    | waiting sub =>
      have hnone : sub.yielded = [] := by
        by_contra hsome
        exact hserved ⟨sub, rfl, hsome⟩
      have hrun : sub.runId = runId := htrails.runId_eq
      simp only [resume] at h
      split_ifs at h
      subst hrun
      exact loop_trails hs hhole htrails hnone h
    | ended => cases h

/-- A stream that ended at a dropped frame ended behind what is gone. -/
def EndsBehind (world : RunStreamWorld J) : RunSubscriber J → Prop
  | .ended sub (.dropped gone) => gone ≤ world.gone sub.runId
  | _ => True

theorem EndsBehind.mono (h : p.EndsBehind world)
    (hgone : ∀ k, world.gone k ≤ world'.gone k) : p.EndsBehind world' := by
  cases p with
  | ended sub how =>
    cases how with
    | dropped gone => exact le_trans h (hgone sub.runId)
    | _ => trivial
  | _ => trivial

theorem resume_gone_le {x : SubscriberInput}
    (h : resume limits world i p x = some (world', p')) (k : RunId) :
    world.gone k ≤ world'.gone k :=
  have hframes := resume_framesLe h
  RunStreamWorld.gone_le_of_framesLe hframes.2 hframes.1 k

/-- In the turn that ends a stream at a dropped frame, exactly the dropped frames are gone. -/
theorem resume_endsBehind {x : SubscriberInput} (hs : world.Safe) (hp : p.Agrees world i)
    (h : resume limits world i p x = some (world', p')) : p'.EndsBehind world' := by
  have hagrees := (resume_turn hs hp h).agrees
  have hgone := resume_gone_le h
  obtain ⟨hpublished, -⟩ := resume_framesLe h
  have hjust : ∀ sub how, p' = .ended sub how → how.JustifiedBy world sub.runId x := by
    cases hsub : p.subscription? with
    | none =>
      cases p with
      | subscribe => exact (subscribe_outcome hs h).2
      | _ => cases hsub
    | some sub => exact (resume_outcome hs hsub h).2
  cases p' with
  | ended sub how =>
    cases how with
    | dropped gone =>
      have hframes : (world.bus.channel sub.runId).frames = (world.log sub.runId).drop gone :=
        hjust sub _ rfl
      obtain ⟨read, -, -, -, hle⟩ := hagrees
      have hlog : world'.log sub.runId = world.log sub.runId := by
        rw [RunStreamWorld.log, RunStreamWorld.log, hpublished]
      rw [hlog] at hle
      have hall : world.gone sub.runId = gone := by
        rw [RunStreamWorld.gone, hframes, List.length_drop]
        omega
      exact hall ▸ hgone sub.runId
    | _ => trivial
  | _ => trivial

theorem endsBehind_interferenceFree (limits : MemoryBusLimits) :
    InterferenceFree (program limits) (RunStreamWorld.Safe (J := J))
      (fun world i p => p.Agrees world i ∧ p.EndsBehind world) (fun _ _ => True) where
  env := by
    intro w e world' hw _ he
    obtain ⟨hsafe, hmoves⟩ := RunStreamWorld.step_moves hw.1 he
    refine ⟨hsafe, fun j q hq => ⟨(hw.2 j q hq).1.moves hmoves (by simp), ?_⟩⟩
    exact (hw.2 j q hq).2.mono (RunStreamWorld.gone_le_of_step hw.1 he)
  start := by
    intro w p world' hw _ hstart
    cases p with
    | subscribe runId afterSeq =>
      cases hstart
      exact ⟨hw.1, ⟨trivial, trivial⟩, hw.2⟩
    | _ => cases hstart
  resume := by
    intro w i x p world' p' hw _ hp hr
    obtain ⟨hagrees, -⟩ := hw.local hp
    have hturn := resume_turn hw.1 hagrees hr
    refine ⟨hturn.safe, ⟨hturn.agrees, resume_endsBehind hw.1 hagrees hr⟩, fun j q hji hq => ?_⟩
    obtain ⟨hq', hbehind⟩ := hw.2 j q hq
    refine ⟨hq'.moves hturn.moves ?_, hbehind.mono (resume_gone_le hr)⟩
    exact fun heq => hji (Option.some.inj heq)

end RunSubscriber
namespace Pool
variable {J : Type*}

/-- The first frame the subscriber has yielded, if any, has this number. -/
def StartsAt (w : Pool (RunStreamWorld J) (RunSubscriber J)) (j n : ℕ) : Prop :=
  ∀ p ∈ w.procs[j]?, ∀ sub ∈ p.subscription?, ∀ first ∈ sub.yielded.head?, first.seq = n

/-- The subscriber finds no frame, if this is a turn of it. -/
def Misses (j : ℕ) (w : Pool (RunStreamWorld J) (RunSubscriber J)) :
    Action (RunBusEvent J) (RunSubscriber J) SubscriberInput → Prop
  | .resume i _ => i = j → ∀ p ∈ w.procs[j]?, ¬ p.FindsFrame w.shared j
  | _ => True

instance decidableMisses (j : ℕ) (w : Pool (RunStreamWorld J) (RunSubscriber J)) :
    ∀ a, Decidable (Misses j w a)
  | .resume i _ => inferInstanceAs (Decidable (i = j → ∀ p ∈ w.procs[j]?, ¬ p.FindsFrame w.shared j))
  | .env _ => isTrue trivial
  | .spawn _ => isTrue trivial

/-- A subscriber `j` that reads behind a hole. -/
structure Trails (w : Pool (RunStreamWorld J) (RunSubscriber J)) (j : ℕ) (runId : RunId)
    (afterSeq : ℕ) : Prop where
  holds : w.Holds RunStreamWorld.Safe fun world i p => p.Agrees world i ∧ p.EndsBehind world
  hole : w.shared.Hole runId afterSeq
  present : j < w.procs.length
  trails : ∀ p ∈ w.procs[j]?, p.Trails runId afterSeq

def Served (w : Pool (RunStreamWorld J) (RunSubscriber J)) (j : ℕ) : Prop :=
  ∃ p ∈ w.procs[j]?, p.Served

variable {limits : MemoryBusLimits} {w w' : Pool (RunStreamWorld J) (RunSubscriber J)}
  {a : Action (RunBusEvent J) (RunSubscriber J) SubscriberInput} {j : ℕ} {runId : RunId}
  {afterSeq : ℕ}

/-- Behind a hole a subscriber never yields the next frame. -/
theorem Trails.startsAt_iff (h : w.Trails j runId afterSeq) :
    w.StartsAt j (afterSeq + 1) ↔ ¬ w.Served j := by
  constructor
  · rintro hstarts ⟨p, hp, sub, hsub, hsome⟩
    obtain ⟨first, hfirst⟩ := Option.ne_none_iff_exists'.mp (mt List.head?_eq_none_iff.mp hsome)
    have hafter := ((RunSubscriber.trails_iff hsub).mp (h.trails p hp)).1.first first hfirst
    have hnext := hstarts p hp sub hsub first hfirst
    omega
  · intro hnone p hp sub hsub first hfirst
    refine absurd ⟨p, hp, sub, hsub, fun hnil => ?_⟩ hnone
    simp [hnil] at hfirst

theorem Trails.step (h : w.Trails j runId afterSeq)
    (hstep : (RunSubscriber.program limits).machine.step w a = some w') :
    w'.Trails j runId afterSeq ∧ (w'.Served j ↔ w.Served j ∨ ¬ Misses j w a) := by
  have hholds := (RunSubscriber.endsBehind_interferenceFree limits).step h.holds trivial hstep
  rcases (RunSubscriber.program limits).step_cases hstep with ⟨e, s, rfl, hs, rfl⟩ |
    ⟨p, s, rfl, hs, rfl⟩ | ⟨i, x, p, s, p', rfl, hp, hs, rfl⟩
  · have hmisses : Misses j w (.env e) := trivial
    have hmoves := (RunStreamWorld.step_moves h.holds.1 hs).2
    refine ⟨⟨hholds, h.hole.mono (hmoves.logs runId) ?_, h.present, h.trails⟩, ?_⟩
    · exact RunStreamWorld.gone_le_of_step h.holds.1 hs runId
    · simp [hmisses, Served]
  · have hmisses : Misses j w (.spawn p) := trivial
    have hsame : (w.procs ++ [p])[j]? = w.procs[j]? := List.getElem?_append_left h.present
    have hshared : s = w.shared := by
      cases p with
      | subscribe => exact (Option.some.inj hs).symm
      | _ => cases hs
    subst hshared
    refine ⟨⟨hholds, h.hole, ?_, by simpa only [hsame] using h.trails⟩, ?_⟩
    · rw [List.length_append]
      exact Nat.lt_add_right _ h.present
    · simp [hmisses, Served, hsame]
  · have hs : RunSubscriber.resume limits w.shared i p x = some (s, p') := hs
    have hagrees := (h.holds.local hp).1
    have hturn := RunSubscriber.resume_turn h.holds.1 hagrees hs
    have hhole := h.hole.mono (hturn.moves.logs runId) (RunSubscriber.resume_gone_le hs runId)
    have hpresent : j < (w.procs.set i p').length := by simpa using h.present
    by_cases hij : i = j
    · subst hij
      have hget : (w.procs.set i p')[i]? = some p' := by simp [h.present]
      obtain ⟨htrails, hserved⟩ := RunSubscriber.resume_trails h.holds.1 h.hole (h.trails p hp) hs
      have hmisses : Misses i w (.resume i x) ↔ ¬ p.FindsFrame w.shared i := by
        simp [Misses, hp]
      refine ⟨⟨hholds, hhole, hpresent, by simpa [hget] using htrails⟩, ?_⟩
      simpa [Served, hget, hp, hmisses] using hserved
    · have hget : (w.procs.set i p')[j]? = w.procs[j]? := List.getElem?_set_ne hij
      have hmisses : Misses j w (.resume i x) := fun heq => absurd heq hij
      refine ⟨⟨hholds, hhole, hpresent, by simpa only [hget] using h.trails⟩, ?_⟩
      simp [hmisses, Served, hget]

/-- Along a run the subscriber is served exactly when it finds a frame in some turn. -/
theorem Trails.run {as : List (Action (RunBusEvent J) (RunSubscriber J) SubscriberInput)}
    (h : w.Trails j runId afterSeq)
    (hrun : (RunSubscriber.program limits).machine.run w as = some w') :
    w'.Trails j runId afterSeq ∧ (w'.Served j ↔
      w.Served j ∨ ¬ (RunSubscriber.program limits).machine.Along (Misses j) w as) := by
  induction as generalizing w with
  | nil =>
    cases hrun
    exact ⟨h, by simp [Machine.Along]⟩
  | cons a as ih =>
    obtain ⟨u, hu, hrest⟩ := (Machine.run_cons_eq_some _).mp hrun
    obtain ⟨htrails, hserved⟩ := h.step hu
    obtain ⟨hend, hlater⟩ := ih htrails hrest
    refine ⟨hend, ?_⟩
    rw [hlater, hserved, or_assoc, ← not_and_or]
    simp [Machine.Along, hu]

end Pool

/-- What a stream that ended at a dropped frame received ends before a frame that is gone. -/
theorem RunSubscriber.Ended.hole {J : Type*} {world : RunStreamWorld J} {sub : Subscription J}
    {gone : ℕ} (hs : world.Safe) (h : RunSubscriber.Ended world sub (.dropped gone))
    (hgone : gone ≤ world.gone sub.runId) {last : RunFrame J}
    (hlast : sub.yielded.getLast? = some last) : world.Hole sub.runId last.seq := by
  obtain ⟨read, -, hyielded, hlt, hle⟩ := h
  have hnext : sub.joined + read < (world.log sub.runId).length := by omega
  refine ⟨_, hlt.trans_le hgone, _, List.getElem?_eq_getElem hnext, ?_⟩
  have hmem : last ∈ ((world.log sub.runId).drop sub.joined).take read := by
    rw [hyielded, Subscription.received] at hlast
    exact List.mem_of_mem_filter (List.mem_of_getLast? hlast)
  obtain ⟨n, hn, rfl⟩ := List.getElem_of_mem hmem
  rw [List.length_take, List.length_drop] at hn
  rw [List.getElem_take, List.getElem_drop]
  exact List.pairwise_iff_getElem.mp (hs.consecutive sub.runId).pairwise _ _ (by omega) hnext
    (by omega)

/-- A client whose stream ended at a dropped frame subscribes again from the last number it
received. The first frame it then receives is the next one only as long as it receives none:
in every turn of the new subscription the bus holds no frame for it. -/
theorem MemoryRunEventBus.reconnect_startsAt_iff {J : Type*} (limits : MemoryBusLimits)
    {v w : Pool (RunStreamWorld J) (RunSubscriber J)}
    {as bs : List (Action (RunBusEvent J) (RunSubscriber J) SubscriberInput)}
    (h : (RunSubscriber.program limits).machine.run ⟨{}, []⟩ as = some v)
    {i gone : ℕ} {sub : Subscription J} {last : RunFrame J}
    (hended : v.procs[i]? = some (.ended sub (.dropped gone)))
    (hlast : sub.yielded.getLast? = some last)
    (hrun : (RunSubscriber.program limits).machine.run v
      (.spawn (.subscribe sub.runId last.seq) :: bs) = some w) :
    w.StartsAt v.procs.length (last.seq + 1) ↔
      (RunSubscriber.program limits).machine.Along (Pool.Misses v.procs.length) v
        (.spawn (.subscribe sub.runId last.seq) :: bs) := by
  have hstart : RunStreamWorld.Safe ({} : RunStreamWorld J) := ⟨fun _ => .nil, by simp⟩
  have hall : (RunSubscriber.program (J := J) limits).machine.Along (fun _ _ => True) ⟨{}, []⟩ as :=
    Machine.along_of_steps h fun _ _ _ _ _ _ _ => trivial
  have hv := (RunSubscriber.endsBehind_interferenceFree limits).run (Pool.holds_empty hstart) hall h
  have hhole := RunSubscriber.Ended.hole hv.1 (hv.local hended).1 (hv.local hended).2 hlast
  obtain ⟨u, hu, hrest⟩ := (Machine.run_cons_eq_some _).mp hrun
  have hspawn : (RunSubscriber.program limits).step v
      (.spawn (.subscribe sub.runId last.seq)) = some u := hu
  have hholds := (RunSubscriber.endsBehind_interferenceFree limits).step hv trivial hspawn
  have hsame : u = ⟨v.shared, v.procs ++ [.subscribe sub.runId last.seq]⟩ :=
    (Option.some.inj hu).symm
  have hget : u.procs[v.procs.length]? = some (.subscribe sub.runId last.seq) := by
    simp [hsame]
  have htrails : u.Trails v.procs.length sub.runId last.seq := by
    refine ⟨hholds, by rw [hsame]; exact hhole, by simp [hsame], ?_⟩
    rw [hget]
    rintro _ ⟨⟩
    exact ⟨rfl, rfl⟩
  have hunserved : ¬ u.Served v.procs.length := by
    simp [Pool.Served, hget, RunSubscriber.Served, RunSubscriber.subscription?]
  obtain ⟨hend, hserved⟩ := htrails.run hrest
  rw [hend.startsAt_iff, hserved, or_iff_right hunserved, not_not]
  have hmisses : Pool.Misses v.procs.length v (.spawn (.subscribe sub.runId last.seq)) := trivial
  simp [Machine.Along, hu, hmisses]

namespace MemoryRunEventBus

/-- A bus that retains one frame of a run, and one closed run. -/
def smallBus : MemoryBusLimits := { maxRetainedRuns := 1, maxFramesPerRun := 1 }

/-- A subscriber receives the first frame; the second is dropped before it reads on. -/
def droppedRun : List (Action (RunBusEvent ℕ) (RunSubscriber ℕ) SubscriberInput) :=
  [.spawn (.subscribe (.of "run") 0), .env (.publish (.of "run") ⟨1, 10⟩), .resume 0 {},
    .env (.publish (.of "run") ⟨2, 20⟩), .env (.publish (.of "run") ⟨3, 30⟩), .resume 0 {}]

def droppedPool : Pool (RunStreamWorld ℕ) (RunSubscriber ℕ) :=
  ((RunSubscriber.program smallBus).machine.run ⟨{}, []⟩ droppedRun).getD ⟨{}, []⟩

/-- The run closes and is evicted before the client comes back. -/
def evictedRun : List (Action (RunBusEvent ℕ) (RunSubscriber ℕ) SubscriberInput) :=
  droppedRun ++ [.env (.publish (.of "other") ⟨1, 10⟩), .env (.close (.of "run") 7),
    .env (.close (.of "other") 8)]

def evictedPool : Pool (RunStreamWorld ℕ) (RunSubscriber ℕ) :=
  ((RunSubscriber.program smallBus).machine.run ⟨{}, []⟩ evictedRun).getD ⟨{}, []⟩

/-- The client subscribes again from the number it has. -/
def comesBack : List (Action (RunBusEvent ℕ) (RunSubscriber ℕ) SubscriberInput) :=
  [.spawn (.subscribe (.of "run") 1), .resume 1 {}]

def answeredPool : Pool (RunStreamWorld ℕ) (RunSubscriber ℕ) :=
  ((RunSubscriber.program smallBus).machine.run evictedPool comesBack).getD ⟨{}, []⟩

/-- To a client that comes back late the bus has nothing to say. -/
theorem answeredPool_startsAt : answeredPool.StartsAt 1 2 :=
  (reconnect_startsAt_iff smallBus
    (show (RunSubscriber.program smallBus).machine.run ⟨{}, []⟩ evictedRun = some evictedPool
      from rfl)
    (show evictedPool.procs[0]? = some (.ended ⟨.of "run", 0, 0, [⟨1, 10⟩]⟩ (.dropped 2)) from rfl)
    (show _ = some (⟨1, 10⟩ : RunFrame ℕ) from rfl)
    (show (RunSubscriber.program smallBus).machine.run evictedPool comesBack = some answeredPool
      from rfl)).mpr (by decide)

def skippedPool : Pool (RunStreamWorld ℕ) (RunSubscriber ℕ) :=
  ((RunSubscriber.program smallBus).machine.run droppedPool comesBack).getD ⟨{}, []⟩

/-- The client that comes back at once receives the third frame after the first. -/
theorem skippedPool_startsAt :
    (RunSubscriber.program smallBus).machine.run ⟨{}, []⟩ droppedRun = some droppedPool ∧
      droppedPool.procs = [.ended ⟨.of "run", 0, 0, [⟨1, 10⟩]⟩ (.dropped 2)] ∧
      (RunSubscriber.program smallBus).machine.run droppedPool comesBack = some skippedPool ∧
      skippedPool.procs[1]? = some (.yielding ⟨.of "run", 1, 2, [⟨3, 30⟩]⟩) ∧
      ¬ skippedPool.StartsAt 1 2 := by
  refine ⟨rfl, by decide, rfl, by decide, fun hstarts => ?_⟩
  have hnext := hstarts (.yielding ⟨.of "run", 1, 2, [⟨3, 30⟩]⟩) (by decide) _ rfl ⟨3, 30⟩ rfl
  cases hnext

end MemoryRunEventBus
end Skein
