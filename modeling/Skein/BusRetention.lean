import Skein.RunStreams

/-!
# What the in-memory bus retains

The channels of the bus are bounded in every dimension it configures, and a run it has
released is remembered for a while. Eviction skips channels with readers, so the bound on
closed channels is a disjunction that every departure restores.
-/
namespace Skein

namespace MemoryRunEventBus
variable {J : Type*}

/-- A channel is within its cap, and somebody has a use for it. -/
structure Useful (limits : MemoryBusLimits) (channel : Channel J) : Prop where
  capped : channel.frames.length ≤ limits.maxFramesPerRun
  occupied : channel.frames ≠ [] ∨ 0 < channel.subscribers

/-- The channels are useful, and `closedOrder` lists those that are closed. -/
structure Tidy (limits : MemoryBusLimits) (bus : MemoryRunEventBus J) : Prop where
  useful : ∀ runId channel, bus.channels.get? runId = some channel → Useful limits channel
  tracked : ∀ runId channel, bus.channels.get? runId = some channel →
    (channel.closed = true ↔ runId ∈ bus.closedOrder)
  present : ∀ runId ∈ bus.closedOrder, ∃ channel, bus.channels.get? runId = some channel
  nodup : bus.closedOrder.Nodup

/-- What eviction leaves: few closed channels, or only such as somebody still reads. -/
def Evicted (limits : MemoryBusLimits) (bus : MemoryRunEventBus J) : Prop :=
  bus.closedOrder.length ≤ limits.maxRetainedRuns ∨
    ∀ runId ∈ bus.closedOrder, 0 < (bus.channel runId).subscribers

variable {limits : MemoryBusLimits} {bus bus' : MemoryRunEventBus J} {runId : RunId}

/-- Writing a useful channel that is closed if it is listed. -/
theorem Tidy.setChannel (h : Tidy limits bus) {channel' : Channel J} (huseful : Useful limits channel')
    (hclosed : channel'.closed = true ↔ runId ∈ bus.closedOrder) :
    Tidy limits (bus.setChannel runId channel') where
  useful := by
    intro k channel hk
    rw [MemoryRunEventBus.setChannel, OrderedMap.get?_set] at hk
    split_ifs at hk with heq
    · cases hk
      exact huseful
    · exact h.useful k channel hk
  tracked := by
    intro k channel hk
    rw [MemoryRunEventBus.setChannel, OrderedMap.get?_set] at hk
    split_ifs at hk with heq
    · cases hk
      rw [← heq]
      exact hclosed
    · exact h.tracked k channel hk
  present := by
    intro k hk
    rw [MemoryRunEventBus.setChannel, OrderedMap.get?_set]
    split_ifs
    · exact ⟨channel', rfl⟩
    · exact h.present k hk
  nodup := h.nodup

/-- Taking a run out of the channels and out of the closed ones. -/
theorem Tidy.without (h : Tidy limits bus)
    (hchannels : ∀ k, bus'.channels.get? k = if k = runId then none else bus.channels.get? k)
    (horder : bus'.closedOrder = bus.closedOrder.filter (· ≠ runId)) : Tidy limits bus' where
  useful := by
    intro k channel hk
    rw [hchannels] at hk
    split_ifs at hk
    exact h.useful k channel hk
  tracked := by
    intro k channel hk
    rw [hchannels] at hk
    split_ifs at hk with heq
    rw [h.tracked k channel hk, horder]
    simp [heq]
  present := by
    intro k hk
    rw [horder, List.mem_filter] at hk
    rw [hchannels, if_neg (by simpa using hk.2)]
    exact h.present k hk.1
  nodup := horder ▸ h.nodup.filter _

theorem Evicted.without (h : Evicted limits bus)
    (hchannels : ∀ k, bus'.channels.get? k = if k = runId then none else bus.channels.get? k)
    (horder : bus'.closedOrder = bus.closedOrder.filter (· ≠ runId)) : Evicted limits bus' := by
  rcases h with hfew | hlive
  · left
    rw [horder]
    exact (List.length_filter_le _ _).trans hfew
  · right
    intro k hk
    rw [horder, List.mem_filter] at hk
    rw [channel, hchannels, if_neg (by simpa using hk.2)]
    exact hlive k hk.1

theorem release_get? (limits : MemoryBusLimits) (bus : MemoryRunEventBus J) (runId : RunId)
    (now : Timestamp) (k : RunId) : (bus.release limits runId now).channels.get? k =
      if k = runId then none else bus.channels.get? k := by
  rw [release, OrderedMap.get?_erase]
  simp only [eq_comm]

/-- The pass over the closed channels, with those it skipped so far. -/
theorem evictClosed_tidy (now : Timestamp) : ∀ (order skipped : List RunId)
    (bus : MemoryRunEventBus J), Tidy limits bus → bus.closedOrder = skipped ++ order →
    (∀ k ∈ skipped, 0 < (bus.channel k).subscribers) →
    Tidy limits (evictClosed limits now order bus) ∧
      Evicted limits (evictClosed limits now order bus)
  | [], skipped, bus, h, horder, hlive => by
    refine ⟨h, .inr ?_⟩
    rw [evictClosed, horder, List.append_nil]
    exact hlive
  | runId :: order, skipped, bus, h, horder, hlive => by
    unfold evictClosed
    split_ifs with hroom hread
    · exact ⟨h, .inl hroom⟩
    · refine evictClosed_tidy now order (skipped ++ [runId]) bus h (by simp [horder]) ?_
      intro k hk
      rcases List.mem_append.mp hk with hk | hk
      · exact hlive k hk
      · obtain rfl := List.mem_singleton.mp hk
        unfold channel
        cases hget : bus.channels.get? k <;> simp [hget] at hread ⊢
        exact hread
    · have hnodup := horder ▸ h.nodup
      have hnew : runId ∉ skipped := fun hmem =>
        (List.nodup_append.mp hnodup).2.2 runId hmem runId List.mem_cons_self rfl
      have hrest : runId ∉ order := (List.nodup_cons.mp (List.nodup_append.mp hnodup).2.1).1
      refine evictClosed_tidy now order skipped _
        (h.without (release_get? limits bus runId now) rfl) ?_ ?_
      · show bus.closedOrder.filter (· ≠ runId) = skipped ++ order
        rw [horder, List.filter_append, List.filter_cons_of_neg (by simp)]
        congr 1
        · exact List.filter_eq_self.mpr fun k hk => by
            simpa using fun heq : k = runId => hnew (heq ▸ hk)
        · exact List.filter_eq_self.mpr fun k hk => by
            simpa using fun heq : k = runId => hrest (heq ▸ hk)
      · intro k hk
        rw [channel, release_get?, if_neg fun heq : k = runId => hnew (heq ▸ hk)]
        exact hlive k hk

theorem evictClosedBeyondCap_tidy (h : Tidy limits bus) (now : Timestamp) :
    Tidy limits (bus.evictClosedBeyondCap limits now) ∧
      Evicted limits (bus.evictClosedBeyondCap limits now) :=
  evictClosed_tidy now bus.closedOrder [] bus h rfl (by simp)

/-- What holds of the bus between two turns. -/
structure Bounded (limits : MemoryBusLimits) (bus : MemoryRunEventBus J) : Prop where
  tidy : Tidy limits bus
  evicted : Evicted limits bus

theorem Tidy.channel_closed (h : Tidy limits bus) (runId : RunId) :
    (bus.channel runId).closed = true ↔ runId ∈ bus.closedOrder := by
  unfold channel
  cases hget : bus.channels.get? runId with
  | some channel => exact h.tracked runId channel hget
  | none =>
    refine iff_of_false (by simp) fun hmem => ?_
    obtain ⟨channel, hchannel⟩ := h.present runId hmem
    rw [hget] at hchannel
    cases hchannel

theorem Tidy.channel_capped (h : Tidy limits bus) (runId : RunId) :
    (bus.channel runId).frames.length ≤ limits.maxFramesPerRun := by
  unfold channel
  cases hget : bus.channels.get? runId with
  | some channel => exact (h.useful runId channel hget).capped
  | none => exact Nat.zero_le _

theorem Evicted.setChannel (h : Evicted limits bus) {channel' : Channel J}
    (hsubscribers : 0 < (bus.channel runId).subscribers → 0 < channel'.subscribers) :
    Evicted limits (bus.setChannel runId channel') := by
  refine h.imp id fun hlive k hk => ?_
  rw [channel, MemoryRunEventBus.setChannel, OrderedMap.get?_set]
  split_ifs with heq
  · exact hsubscribers (heq ▸ hlive k hk)
  · exact hlive k hk

/-- A channel that keeps its frames and its subscribers. -/
theorem Bounded.setChannel (h : Bounded limits bus) (channel' : Channel J)
    (huseful : Useful limits channel') (hclosed : channel'.closed = (bus.channel runId).closed)
    (hsubscribers : (bus.channel runId).subscribers ≤ channel'.subscribers) :
    Bounded limits (bus.setChannel runId channel') where
  tidy := h.tidy.setChannel huseful (hclosed ▸ h.tidy.channel_closed runId)
  evicted := h.evicted.setChannel fun hpos => hpos.trans_le hsubscribers

theorem Bounded.publish (hmax : 0 < limits.maxFramesPerRun) (h : Bounded limits bus)
    (runId : RunId) (frame : RunFrame J) : Bounded limits (bus.publish limits runId frame) := by
  refine h.setChannel _ ⟨?_, .inl ?_⟩ ?_ ?_
  · simp only [Channel.wake, Channel.trim]
    split_ifs with hcap
    · exact Nat.sub_eq_zero_iff_le.mp hcap
    · rw [List.length_drop]
      omega
  · refine List.ne_nil_of_length_pos ?_
    simp only [Channel.wake, Channel.trim]
    split_ifs
    · simp
    · rw [List.length_drop, List.length_append, List.length_singleton]
      omega
  · simp only [Channel.wake, Channel.trim]
    split_ifs <;> rfl
  · simp only [Channel.wake, Channel.trim]
    split_ifs <;> exact le_rfl

/-- `closedOrder` after the run was added to it. -/
theorem Tidy.closing (h : Tidy limits bus) (channel' : Channel J) (huseful : Useful limits channel')
    (hclosed : channel'.closed = true) :
    Tidy limits { bus.setChannel runId channel' with
      closedOrder := if runId ∈ bus.closedOrder then bus.closedOrder
        else bus.closedOrder ++ [runId] } where
  useful := by
    intro k channel hk
    change (bus.channels.set runId channel').get? k = some channel at hk
    rw [OrderedMap.get?_set] at hk
    split_ifs at hk
    · cases hk
      exact huseful
    · exact h.useful k channel hk
  tracked := by
    intro k channel hk
    change (bus.channels.set runId channel').get? k = some channel at hk
    rw [OrderedMap.get?_set] at hk
    split_ifs at hk with heq
    · cases hk
      subst heq
      rw [hclosed]
      dsimp only
      split_ifs with hmem <;> simp [hmem]
    · rw [h.tracked k channel hk]
      dsimp only
      split_ifs <;> simp [Ne.symm heq]
  present := by
    intro k hk
    show ∃ channel, (bus.channels.set runId channel').get? k = some channel
    rw [OrderedMap.get?_set]
    split_ifs with heq
    · exact ⟨channel', rfl⟩
    · refine h.present k ?_
      dsimp only at hk
      split_ifs at hk
      · exact hk
      · simpa [Ne.symm heq] using hk
  nodup := by
    dsimp only
    split_ifs with hmem
    · exact h.nodup
    · simpa using h.nodup.concat hmem

theorem Bounded.close (h : Bounded limits bus) (runId : RunId) (now : Timestamp) :
    Bounded limits (bus.close limits runId now) := by
  unfold MemoryRunEventBus.close
  by_cases hdone : bus.channels.contains runId = false ∧ bus.finishedRunIds.contains runId = true
  · rw [if_pos hdone]
    exact h
  · rw [if_neg hdone]
    dsimp only
    by_cases hempty : (bus.channel runId).frames = [] ∧ (bus.channel runId).subscribers = 0
    · rw [if_pos hempty]
      have hchannels : ∀ channel' : Channel J, ∀ k, ((bus.channels.set runId channel').erase
          runId).get? k = if k = runId then none else bus.channels.get? k := by
        intro channel' k
        rw [OrderedMap.get?_erase, OrderedMap.get?_set]
        simp only [eq_comm]
        split_ifs <;> rfl
      have horder : (if runId ∈ bus.closedOrder then bus.closedOrder
          else bus.closedOrder ++ [runId]).filter (· ≠ runId) =
            bus.closedOrder.filter (· ≠ runId) := by
        split_ifs
        · rfl
        · simp [List.filter_append]
      exact ⟨h.tidy.without (hchannels _) horder, h.evicted.without (hchannels _) horder⟩
    · rw [if_neg hempty]
      have hoccupied : (bus.channel runId).frames ≠ [] ∨ 0 < (bus.channel runId).subscribers := by
        rcases not_and_or.mp hempty with hframes | hsubscribers
        · exact .inl hframes
        · exact .inr (Nat.pos_of_ne_zero hsubscribers)
      obtain ⟨htidy, hevicted⟩ := evictClosedBeyondCap_tidy
        (h.tidy.closing { bus.channel runId with closed := true, waiters := [] }
          ⟨h.tidy.channel_capped runId, hoccupied⟩ rfl) now
      exact ⟨htidy, hevicted⟩

/-- A departure leaves a useful channel, releases it, or drops it. -/
theorem Bounded.detach (h : Bounded limits bus) (runId : RunId) (reader : ℕ) (now : Timestamp) :
    Bounded limits (bus.detach limits runId reader now) := by
  obtain ⟨left, hleft⟩ : ∃ left : Channel J, left = { bus.channel runId with
    subscribers := (bus.channel runId).subscribers - 1
    readers := (bus.channel runId).readers.erase reader } := ⟨_, rfl⟩
  have hframes : left.frames = (bus.channel runId).frames := by rw [hleft]
  have hclosed : left.closed = true ↔ runId ∈ bus.closedOrder := by
    rw [hleft]
    exact h.tidy.channel_closed runId
  have hcapped : left.frames.length ≤ limits.maxFramesPerRun :=
    hframes ▸ h.tidy.channel_capped runId
  have hsubscribers : left.subscribers = (bus.channel runId).subscribers - 1 := by rw [hleft]
  have herased : ∀ k, ((bus.channels.set runId left).erase runId).get? k =
      if k = runId then none else bus.channels.get? k := by
    intro k
    rw [OrderedMap.get?_erase, OrderedMap.get?_set]
    simp only [eq_comm]
    split_ifs <;> rfl
  have hdetach : bus.detach limits runId reader now =
      if left.subscribers = 0 then
        if left.frames = [] then
          if left.closed then (bus.setChannel runId left).release limits runId now
          else { bus.setChannel runId left with channels := (bus.channels.set runId left).erase runId }
        else if left.closed then (bus.setChannel runId left).evictClosedBeyondCap limits now
        else bus.setChannel runId left
      else bus.setChannel runId left := by
    rw [hleft]
    rfl
  rw [hdetach]
  split_ifs with hidle hempty hdone hdone
  · exact ⟨h.tidy.without herased rfl, h.evicted.without herased rfl⟩
  · have horder : bus.closedOrder = bus.closedOrder.filter (· ≠ runId) :=
      (List.filter_eq_self.mpr fun k hk => by
        simpa using fun heq : k = runId => hdone (hclosed.mpr (heq ▸ hk))).symm
    exact ⟨h.tidy.without herased horder, h.evicted.without herased horder⟩
  · obtain ⟨htidy, hevicted⟩ := evictClosedBeyondCap_tidy
      (h.tidy.setChannel ⟨hcapped, .inl hempty⟩ hclosed) now
    exact ⟨htidy, hevicted⟩
  · refine ⟨h.tidy.setChannel ⟨hcapped, .inl hempty⟩ hclosed, ?_⟩
    refine h.evicted.imp id fun hlive k hk => ?_
    have hne : k ≠ runId := fun heq => hdone (hclosed.mpr (heq ▸ hk))
    rw [channel, MemoryRunEventBus.setChannel, OrderedMap.get?_set_of_ne _ _ hne.symm]
    exact hlive k hk
  · have hpos : 0 < left.subscribers := Nat.pos_of_ne_zero hidle
    exact ⟨h.tidy.setChannel ⟨hcapped, .inr hpos⟩ hclosed, h.evicted.setChannel fun _ => hpos⟩

end MemoryRunEventBus

namespace RunSubscriber
open MemoryRunEventBus
variable {J : Type*} {limits : MemoryBusLimits} {world world' : RunStreamWorld J} {i : ℕ}
  {p p' : RunSubscriber J}

theorem loop_bounded {sub : Subscription J} {now : Timestamp} (hb : Bounded limits world.bus)
    (h : loop limits world i sub now = some (world', p')) : Bounded limits world'.bus := by
  unfold loop at h
  obtain ⟨channel, hchannel, hopen⟩ := Option.bind_eq_some_iff.mp h
  obtain ⟨cursor, -, hturn⟩ := Option.bind_eq_some_iff.mp hopen
  have huseful := hb.tidy.useful _ _ hchannel
  have hget : world.bus.channel sub.runId = channel := by
    simp [MemoryRunEventBus.channel, hchannel]
  by_cases hgone : cursor < 0
  · rw [if_pos hgone] at hturn
    cases hturn
    exact hb.detach _ _ _
  · rw [if_neg hgone] at hturn
    dsimp only at hturn
    cases hnext : (scan sub.afterSeq (channel.frames.drop cursor.toNat)).2 with
    | some frame =>
      rw [hnext] at hturn
      cases hturn
      exact hb.setChannel _ ⟨huseful.capped, huseful.occupied⟩ (by rw [hget]) (by rw [hget])
    | none =>
      rw [hnext] at hturn
      dsimp only at hturn
      split_ifs at hturn <;> cases hturn
      · exact hb.detach _ _ _
      · exact hb.setChannel _ ⟨huseful.capped, huseful.occupied⟩ (by rw [hget]) (by rw [hget])

theorem resume_bounded {x : SubscriberInput} (hb : Bounded limits world.bus)
    (h : resume limits world i p x = some (world', p')) : Bounded limits world'.bus := by
  cases p with
  | subscribe runId afterSeq =>
    simp only [resume] at h
    split_ifs at h
    · cases h
      exact hb
    · refine loop_bounded (hb.setChannel { world.bus.channel runId with
        subscribers := (world.bus.channel runId).subscribers + 1
        readers := (world.bus.channel runId).readers.set i 0 }
        ⟨hb.tidy.channel_capped runId, .inr (Nat.succ_pos _)⟩ rfl (Nat.le_succ _)) h
  | yielding sub =>
    simp only [resume] at h
    split_ifs at h
    · cases h
      exact hb.detach _ _ _
    · exact loop_bounded hb h
  | waiting sub =>
    simp only [resume] at h
    split_ifs at h
    exact loop_bounded hb h
  | ended => cases h

end RunSubscriber
end Skein
