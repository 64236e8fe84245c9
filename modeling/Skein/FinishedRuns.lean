import Skein.BusRetention
import Skein.Recency

/-!
# Finished runs are remembered

Every release of a run is written down in the map of finished ids, at its end; the map is
swept from the front. So what it has forgotten is older than the TTL, or many runs were
released since.
-/
namespace Skein

namespace MemoryRunEventBus
variable {J : Type*} {limits : MemoryBusLimits} {now : Timestamp}

/-- What a release does to the map. -/
def remember (limits : MemoryBusLimits) (now : Timestamp) (ids : OrderedMap RunId Timestamp)
    (runId : RunId) : OrderedMap RunId Timestamp :=
  let ids := (ids.erase runId).set runId now
  sweepFinishedIds (now - limits.finishedIdTtlMs) ids.entries ids

/-- A release that long ago is past the TTL. -/
def Expired (limits : MemoryBusLimits) (now : Timestamp) (closedAt : Timestamp) : Prop :=
  closedAt < now - limits.finishedIdTtlMs

theorem sweepFinishedIds_keeps (cutoff : Timestamp) : ∀ (entries : List (RunId × Timestamp))
    (ids : OrderedMap RunId Timestamp), ids.entries = entries →
    Keeps maxFinishedRunIds (· < cutoff) entries (sweepFinishedIds cutoff entries ids).entries
  | [], ids, h => by
    rw [sweepFinishedIds, h]
    exact .refl
  | (runId, closedAt) :: rest, ids, h => by
    have herased := OrderedMap.entries_erase_head h
    have hsize : ids.size = rest.length + 1 := by rw [OrderedMap.size, h, List.length_cons]
    have hrest := sweepFinishedIds_keeps cutoff rest (ids.erase runId) herased
    unfold sweepFinishedIds
    split_ifs with hfull hlive
    · exact Keeps.trans (Keeps.tail (.inr (by omega))) hrest
    · rw [h]
      exact .refl
    · exact Keeps.trans (Keeps.tail (.inl (not_le.mp hlive))) hrest

theorem remember_keeps {ids : OrderedMap RunId Timestamp} {entries : List (RunId × Timestamp)}
    (hnodup : (entries.map Prod.fst).Nodup)
    (h : Keeps maxFinishedRunIds (Expired limits now) entries ids.entries) (runId : RunId) :
    Keeps maxFinishedRunIds (Expired limits now) (touch entries (runId, now))
      (remember limits now ids runId).entries := by
  refine (h.touch hnodup (runId, now)).trans ?_
  rw [← OrderedMap.entries_erase_set]
  exact sweepFinishedIds_keeps _ _ _ rfl

theorem foldl_remember_keeps (released : List RunId) {ids : OrderedMap RunId Timestamp}
    {entries : List (RunId × Timestamp)} (hnodup : (entries.map Prod.fst).Nodup)
    (h : Keeps maxFinishedRunIds (Expired limits now) entries ids.entries) :
    Keeps maxFinishedRunIds (Expired limits now)
      ((released.map fun runId => (runId, now)).foldl touch entries)
      (released.foldl (remember limits now) ids).entries := by
  induction released generalizing ids entries with
  | nil => exact h
  | cons runId released ih =>
    exact ih (touch_keys_nodup hnodup _) (remember_keeps hnodup h runId)

/-- The runs of `before` that are no longer among the closed ones, in close order. -/
def releasedFrom (before : List RunId) (bus' : MemoryRunEventBus J) : List RunId :=
  before.filter fun runId => runId ∉ bus'.closedOrder

/-- The map after a turn, given the closed runs before it. -/
def Remembers (limits : MemoryBusLimits) (now : Timestamp) (before : List RunId)
    (bus bus' : MemoryRunEventBus J) : Prop :=
  bus'.finishedRunIds = (bus'.releasedFrom before).foldl (remember limits now) bus.finishedRunIds

theorem Remembers.of_same {before : List RunId} {bus bus' : MemoryRunEventBus J}
    (hids : bus'.finishedRunIds = bus.finishedRunIds) (horder : bus'.closedOrder = before) :
    Remembers limits now before bus bus' := by
  have hnone : bus'.releasedFrom before = [] := by
    rw [releasedFrom, horder]
    exact List.filter_eq_nil_iff.mpr (by simp)
  rw [Remembers, hnone, hids]
  rfl

/-- A single release. -/
theorem Remembers.of_release {before : List RunId} {bus bus' : MemoryRunEventBus J} {runId : RunId}
    (hnodup : before.Nodup) (hmem : runId ∈ before)
    (hids : bus'.finishedRunIds = remember limits now bus.finishedRunIds runId)
    (horder : bus'.closedOrder = before.filter (· ≠ runId)) :
    Remembers limits now before bus bus' := by
  have hone : bus'.releasedFrom before = [runId] := by
    have hsame : bus'.releasedFrom before = before.filter (· = runId) := by
      rw [releasedFrom, horder]
      refine List.filter_congr fun k hk => ?_
      simp [hk]
    rw [hsame, List.filter_eq]
    rw [List.count_eq_one_of_mem hnodup hmem]
    rfl
  rw [Remembers, hone, hids]
  rfl

/-- The pass keeps what it skipped, and releases the rest in order. -/
theorem evictClosed_spec (now : Timestamp) : ∀ (order skipped : List RunId)
    (bus : MemoryRunEventBus J), bus.closedOrder = skipped ++ order → bus.closedOrder.Nodup →
    ∃ kept, kept.Sublist order ∧
      (evictClosed limits now order bus).closedOrder = skipped ++ kept ∧
      (evictClosed limits now order bus).finishedRunIds =
        (order.filter (· ∉ kept)).foldl (remember limits now) bus.finishedRunIds
  | [], skipped, bus, horder, _ => ⟨[], .refl _, horder, rfl⟩
  | runId :: order, skipped, bus, horder, hnodup => by
    unfold evictClosed
    split_ifs with hroom hread
    · refine ⟨runId :: order, .refl _, horder, ?_⟩
      have hnone : (runId :: order).filter (· ∉ runId :: order) = [] :=
        List.filter_eq_nil_iff.mpr fun k hk => by
          rw [decide_eq_true_eq, not_not]
          exact hk
      rw [hnone]
      rfl
    · obtain ⟨kept, hsub, hkept, hids⟩ :=
        evictClosed_spec now order (skipped ++ [runId]) bus (by simp [horder]) hnodup
      have hfresh : runId ∉ order :=
        (List.nodup_cons.mp (List.nodup_append.mp (horder ▸ hnodup)).2.1).1
      refine ⟨runId :: kept, hsub.cons_cons runId, by simp [hkept], ?_⟩
      rw [hids, List.filter_cons_of_neg (by simp)]
      congr 1
      refine List.filter_congr fun k hk => ?_
      have hne : k ≠ runId := fun heq => hfresh (heq ▸ hk)
      simp [hne]
    · have hsplit := horder ▸ hnodup
      have hnew : runId ∉ skipped := fun hmem =>
        (List.nodup_append.mp hsplit).2.2 runId hmem runId List.mem_cons_self rfl
      have hfresh : runId ∉ order := (List.nodup_cons.mp (List.nodup_append.mp hsplit).2.1).1
      have hrest : (bus.release limits runId now).closedOrder = skipped ++ order := by
        show bus.closedOrder.filter (· ≠ runId) = skipped ++ order
        rw [horder, List.filter_append, List.filter_cons_of_neg (by simp)]
        congr 1
        · exact List.filter_eq_self.mpr fun k hk => by
            simpa using fun heq : k = runId => hnew (heq ▸ hk)
        · exact List.filter_eq_self.mpr fun k hk => by
            simpa using fun heq : k = runId => hfresh (heq ▸ hk)
      obtain ⟨kept, hsub, hkept, hids⟩ := evictClosed_spec now order skipped
        (bus.release limits runId now) hrest (hnodup.filter _)
      refine ⟨kept, hsub.cons runId, hkept, ?_⟩
      rw [hids, List.filter_cons_of_pos (by simpa using fun hmem => hfresh (hsub.subset hmem))]
      rfl

theorem evictClosedBeyondCap_remembers (bus : MemoryRunEventBus J) (hnodup : bus.closedOrder.Nodup)
    (now : Timestamp) : Remembers limits now bus.closedOrder bus
      (bus.evictClosedBeyondCap limits now) := by
  obtain ⟨kept, -, hkept, hids⟩ : ∃ kept, kept.Sublist bus.closedOrder ∧
      (evictClosed limits now bus.closedOrder bus).closedOrder = [] ++ kept ∧
      (evictClosed limits now bus.closedOrder bus).finishedRunIds =
        (bus.closedOrder.filter (· ∉ kept)).foldl (remember limits now) bus.finishedRunIds :=
    evictClosed_spec now bus.closedOrder [] bus rfl hnodup
  rw [Remembers, releasedFrom, evictClosedBeyondCap, hkept, hids]
  rfl

/-- The closed runs once `runId` was added to them, unless it is known to have finished. -/
def closing (bus : MemoryRunEventBus J) (runId : RunId) : List RunId :=
  if bus.channels.contains runId = false ∧ bus.finishedRunIds.contains runId = true then
    bus.closedOrder
  else if runId ∈ bus.closedOrder then bus.closedOrder
  else bus.closedOrder ++ [runId]

theorem close_remembers {bus : MemoryRunEventBus J} (hnodup : bus.closedOrder.Nodup)
    (runId : RunId) (now : Timestamp) :
    Remembers limits now (bus.closing runId) bus (bus.close limits runId now) := by
  unfold close closing
  by_cases hdone : bus.channels.contains runId = false ∧ bus.finishedRunIds.contains runId = true
  · rw [if_pos hdone, if_pos hdone]
    exact .of_same rfl rfl
  · rw [if_neg hdone, if_neg hdone]
    obtain ⟨order, horder⟩ : ∃ order, order = if runId ∈ bus.closedOrder then bus.closedOrder
      else bus.closedOrder ++ [runId] := ⟨_, rfl⟩
    have hmem : runId ∈ order := by
      rw [horder]
      split_ifs with hlisted
      · exact hlisted
      · simp
    have hdistinct : order.Nodup := by
      rw [horder]
      split_ifs with hlisted
      · exact hnodup
      · simpa using hnodup.concat hlisted
    rw [← horder]
    dsimp only
    split_ifs
    · exact .of_release hdistinct hmem rfl rfl
    · exact evictClosedBeyondCap_remembers { bus.setChannel runId
        { bus.channel runId with closed := true, waiters := [] } with closedOrder := order }
        hdistinct now

theorem detach_remembers {bus : MemoryRunEventBus J} (h : Tidy limits bus) (runId : RunId)
    (reader : ℕ) (now : Timestamp) :
    Remembers limits now bus.closedOrder bus (bus.detach limits runId reader now) := by
  unfold detach
  dsimp only
  split_ifs with hidle hempty hclosed hclosed
  · exact .of_release h.nodup ((h.channel_closed runId).mp hclosed) rfl rfl
  · exact .of_same rfl rfl
  · exact evictClosedBeyondCap_remembers (bus.setChannel runId { bus.channel runId with
      subscribers := (bus.channel runId).subscribers - 1
      readers := (bus.channel runId).readers.erase reader }) h.nodup now
  · exact .of_same rfl rfl
  · exact .of_same rfl rfl

end MemoryRunEventBus

namespace RunSubscriber
open MemoryRunEventBus
variable {J : Type*} {limits : MemoryBusLimits} {world world' : RunStreamWorld J} {i : ℕ}
  {p p' : RunSubscriber J}

theorem loop_remembers (world : RunStreamWorld J) {sub : Subscription J} {now : Timestamp}
    (h : Tidy limits world.bus)
    (hloop : loop limits world i sub now = some (world', p')) :
    Remembers limits now world.bus.closedOrder world.bus world'.bus := by
  unfold loop at hloop
  obtain ⟨channel, hchannel, hopen⟩ := Option.bind_eq_some_iff.mp hloop
  obtain ⟨cursor, -, hturn⟩ := Option.bind_eq_some_iff.mp hopen
  by_cases hgone : cursor < 0
  · rw [if_pos hgone] at hturn
    cases hturn
    exact detach_remembers h _ _ _
  · rw [if_neg hgone] at hturn
    dsimp only at hturn
    cases hnext : (scan sub.afterSeq (channel.frames.drop cursor.toNat)).2 with
    | some frame =>
      rw [hnext] at hturn
      cases hturn
      exact .of_same rfl rfl
    | none =>
      rw [hnext] at hturn
      dsimp only at hturn
      split_ifs at hturn <;> cases hturn
      · exact detach_remembers h _ _ _
      · exact .of_same rfl rfl

theorem resume_remembers {x : SubscriberInput} (h : Bounded limits world.bus)
    (hturn : resume limits world i p x = some (world', p')) :
    Remembers limits x.now world.bus.closedOrder world.bus world'.bus := by
  cases p with
  | subscribe runId afterSeq =>
    simp only [resume] at hturn
    split_ifs at hturn
    · cases hturn
      exact .of_same rfl rfl
    · obtain ⟨joined, hjoined⟩ : ∃ joined : Channel J, joined = { world.bus.channel runId with
        subscribers := (world.bus.channel runId).subscribers + 1
        readers := (world.bus.channel runId).readers.set i 0 } := ⟨_, rfl⟩
      rw [← hjoined] at hturn
      have hbounded : Bounded limits (world.bus.setChannel runId joined) := by
        refine h.setChannel joined ⟨?_, .inr ?_⟩ ?_ ?_ <;> rw [hjoined]
        · exact h.tidy.channel_capped runId
        · exact Nat.succ_pos _
        · exact Nat.le_succ _
      exact loop_remembers { world with bus := world.bus.setChannel runId joined } hbounded.tidy
        hturn
  | yielding sub =>
    simp only [resume] at hturn
    split_ifs at hturn
    · cases hturn
      exact detach_remembers h.tidy _ _ _
    · exact loop_remembers world h.tidy hturn
  | waiting sub =>
    simp only [resume] at hturn
    split_ifs at hturn
    exact loop_remembers world h.tidy hturn
  | ended => cases hturn

end RunSubscriber
end Skein
