import Skein.TtlSweeper

/-!
# What a tick of the sweeper relies on

A tick relies on the threads it has listed being due until it deletes them. A call of the store
that does not set the expiry of a thread keeps that; one that does may break it.
-/
namespace Skein
variable {J : Type*} [EmptyCollection J]

namespace MemorySkeinStore

omit [EmptyCollection J] in
theorem foldl_runsDelete_threads (runs : List (Run J)) (store : MemorySkeinStore J) :
    (runs.foldl (fun s run => s.runsDelete run.runId) store).threads = store.threads := by
  induction runs generalizing store with
  | nil => rfl
  | cons run runs ih => exact ih _

omit [EmptyCollection J] in
@[simp] theorem threadsDelete_threads (store : MemorySkeinStore J) (threadId : ThreadId) :
    (store.threadsDelete threadId).threads = store.threads.erase threadId :=
  foldl_runsDelete_threads _ _

end MemorySkeinStore

omit [EmptyCollection J] in
/-- An update removes no row. -/
theorem RetainingStore.threadsUpdate_there (store : RetainingStore J) (threadId : ThreadId)
    (patch : RetainedUpdate J) (now : Timestamp) {k : ThreadId}
    (h : store.rows.threads.contains k = true) :
    (store.threadsUpdate threadId patch now).rows.threads.contains k = true := by
  have hrow : (store.rows.threadsUpdate threadId patch.toThreadUpdate now).2.threads.contains k =
      true := by
    unfold OrderedMap.contains at h ⊢
    rw [MemorySkeinStore.threadsUpdate_get?]
    split_ifs
    · rw [Option.isSome_map]
      exact h
    · exact h
  unfold RetainingStore.threadsUpdate
  by_cases hthere : store.rows.threads.contains threadId = true
  · rw [if_pos hthere]
    exact hrow
  · rw [if_neg hthere]
    exact h

/-- A thread that is there afterwards was there before, with the same expiry and policy. -/
structure KeepsThread (store store' : RetainingStore J) (k : ThreadId) : Prop where
  there : store'.rows.threads.contains k = true → store.rows.threads.contains k = true
  expiry : store'.rows.threads.contains k = true → store'.expiry.get? k = store.expiry.get? k
  policy : store'.rows.threads.contains k = true → store'.getTtl k = store.getTtl k

omit [EmptyCollection J] in
theorem KeepsThread.of_eq {store store' : RetainingStore J} {k : ThreadId}
    (hthere : store'.rows.threads.get? k = store.rows.threads.get? k)
    (hexpiry : store'.expiry.get? k = store.expiry.get? k)
    (hpolicy : store'.getTtl k = store.getTtl k) : KeepsThread store store' k := by
  refine ⟨fun hthread => ?_, fun _ => hexpiry, fun _ => hpolicy⟩
  unfold OrderedMap.contains at hthread ⊢
  rw [← hthere]
  exact hthread

omit [EmptyCollection J] in
theorem KeepsThread.isDue {store store' : RetainingStore J} {k : ThreadId}
    (h : KeepsThread store store' k) (hthread : store'.rows.threads.contains k = true)
    {cutoff : Timestamp} (hdue : store.IsDue cutoff k) : store'.IsDue cutoff k := by
  unfold RetainingStore.IsDue
  rw [h.expiry hthread, h.policy hthread]
  exact hdue

/-- A call that sets the expiry of one thread. -/
structure Touches (store store' : RetainingStore J) (touch : Touch) (now : Timestamp) : Prop where
  expiry : store'.expiry.get? touch.threadId =
    (store.minutes touch.threadId touch.ttl).join.map (RetainingStore.expiresAt now)
  strategy : (store'.getTtl touch.threadId).strategy =
    store.nextStrategy touch.threadId touch.strategy

omit [EmptyCollection J] in
/-- `setThreadExpiry`, then a write of the row. -/
theorem touches_setThreadExpiry (store : RetainingStore J) (touch : Touch) (now : Timestamp)
    (rows : MemorySkeinStore J) : Touches store
      { store.setThreadExpiry touch.threadId touch.ttl touch.strategy now with rows } touch now where
  expiry := by
    have hexpiry := store.setThreadExpiry_expiry touch.threadId touch.ttl touch.strategy now
      touch.threadId
    rw [if_pos rfl] at hexpiry
    exact hexpiry
  strategy := by
    have hpolicy := store.setThreadExpiry_getTtl touch.threadId touch.ttl touch.strategy now
      touch.threadId
    rw [if_pos rfl] at hpolicy
    exact congrArg Retention.strategy hpolicy

omit [EmptyCollection J] in
theorem keepsThread_setThreadExpiry (store : RetainingStore J) (touch : Touch) (now : Timestamp)
    {rows : MemorySkeinStore J} {k : ThreadId} (hne : touch.threadId ≠ k)
    (hrows : rows.threads.get? k = store.rows.threads.get? k) : KeepsThread store
      { store.setThreadExpiry touch.threadId touch.ttl touch.strategy now with rows } k := by
  refine .of_eq hrows ?_ ?_
  · have hexpiry := store.setThreadExpiry_expiry touch.threadId touch.ttl touch.strategy now k
    rw [if_neg hne] at hexpiry
    exact hexpiry
  · have hpolicy := store.setThreadExpiry_getTtl touch.threadId touch.ttl touch.strategy now k
    rw [if_neg hne] at hpolicy
    exact hpolicy

namespace ThreadCall
variable (store : RetainingStore J) (now : Timestamp)

theorem threadsCreate_threads (rows : MemorySkeinStore J)
    (input : MemorySkeinStore.ThreadCreate J) (uuid : ThreadId) {k : ThreadId}
    (hne : input.threadId.getD uuid ≠ k) :
    (rows.threadsCreate input uuid now).2.threads.get? k = rows.threads.get? k := by
  unfold MemorySkeinStore.threadsCreate
  dsimp only
  split_ifs
  · rfl
  · dsimp only
    rw [Table.get?_write, if_neg hne]

omit [EmptyCollection J] in
theorem threadsCopy_threads (rows : MemorySkeinStore J) (threadId uuid : ThreadId) {k : ThreadId}
    (hne : uuid ≠ k) :
    (rows.threadsCopy threadId uuid now).2.threads.get? k = rows.threads.get? k := by
  unfold MemorySkeinStore.threadsCopy
  split
  · rfl
  · dsimp only
    rw [Table.get?_write]
    exact if_neg hne

/-- A call keeps every thread whose expiry it does not set. -/
theorem apply_keeps (call : ThreadCall J) {k : ThreadId}
    (h : ∀ touch, call.touch store = some touch → touch.threadId ≠ k) :
    KeepsThread store (call.apply store now) k := by
  cases call with
  | threadsCreate input uuid =>
    unfold touch at h
    unfold apply RetainingStore.threadsCreate
    dsimp only at h ⊢
    split_ifs at h ⊢ with hthere
    · exact .of_eq rfl rfl rfl
    · have hne := h _ rfl
      exact keepsThread_setThreadExpiry store _ now hne
        (threadsCreate_threads now _ input.toThreadCreate uuid hne)
  | threadsUpdate threadId patch =>
    unfold touch at h
    unfold apply RetainingStore.threadsUpdate
    dsimp only at h ⊢
    have hrows : ∀ k', threadId ≠ k' →
        (store.rows.threadsUpdate threadId patch.toThreadUpdate now).2.threads.get? k' =
          store.rows.threads.get? k' := by
      intro k' hne
      rw [MemorySkeinStore.threadsUpdate_get?, if_neg (Ne.symm hne)]
    by_cases hthere : store.rows.threads.contains threadId = true
    · rw [if_pos hthere]
      by_cases hrearms : store.rearms threadId patch = true
      · rw [hthere, hrearms] at h
        rw [if_pos hrearms]
        have hne := h _ rfl
        exact keepsThread_setThreadExpiry store _ now hne (hrows k hne)
      · rw [if_neg hrearms]
        refine ⟨fun hthread => ?_, fun _ => rfl, fun _ => rfl⟩
        by_cases hk : threadId = k
        · exact hk ▸ hthere
        · unfold OrderedMap.contains at hthread ⊢
          rw [← hrows k hk]
          exact hthread
    · rw [if_neg hthere]
      exact .of_eq rfl rfl rfl
  | threadsCopy threadId uuid =>
    unfold touch at h
    unfold apply RetainingStore.threadsCopy
    dsimp only at h ⊢
    split_ifs at h ⊢ with hthere
    · have hne := h _ rfl
      exact keepsThread_setThreadExpiry store _ now hne (threadsCopy_threads now _ _ _ hne)
    · exact .of_eq rfl rfl rfl
  | threadsDelete threadId =>
    by_cases hk : threadId = k
    · have hgone : (apply store now (.threadsDelete threadId)).rows.threads.contains k = false := by
        show (store.rows.threadsDelete threadId).threads.contains k = false
        unfold OrderedMap.contains
        rw [MemorySkeinStore.threadsDelete_threads, Table.get?_erase, if_pos hk]
        rfl
      constructor <;>
      · intro hthread
        rw [hgone] at hthread
        cases hthread
    · refine .of_eq ?_ ?_ ?_
      · show (store.rows.threadsDelete threadId).threads.get? k = _
        rw [MemorySkeinStore.threadsDelete_threads, Table.get?_erase, if_neg hk]
      · show (store.expiry.erase threadId).get? k = _
        rw [OrderedMap.get?_erase, if_neg hk]
      · unfold RetainingStore.getTtl
        show ((store.retention.erase threadId).get? k).getD _ = _
        rw [OrderedMap.get?_erase, if_neg hk]
        rfl
  | createRun input uuid =>
    refine .of_eq ?_ rfl rfl
    show (store.rows.createRun input uuid now).2.threads.get? k = _
    unfold MemorySkeinStore.createRun
    dsimp only
    split_ifs <;> rfl
  | runsSetStatus runId status =>
    refine .of_eq ?_ rfl rfl
    show (store.rows.runsSetStatus runId status none now).2.threads.get? k = _
    unfold MemorySkeinStore.runsSetStatus
    split
    · rfl
    · split_ifs <;> rfl

/-- What a call sets. -/
theorem apply_touches {call : ThreadCall J} {touch : Touch} (h : call.touch store = some touch) :
    Touches store (call.apply store now) touch now := by
  cases call with
  | threadsCreate input uuid =>
    unfold ThreadCall.touch at h
    unfold apply RetainingStore.threadsCreate
    dsimp only at h ⊢
    split_ifs at h ⊢ with hthere
    rw [← Option.some.inj h]
    exact touches_setThreadExpiry store
      ⟨input.threadId.getD uuid, input.ttl, input.ttlStrategy⟩ now _
  | threadsUpdate threadId patch =>
    unfold ThreadCall.touch at h
    unfold apply RetainingStore.threadsUpdate
    dsimp only at h ⊢
    split_ifs at h with hboth
    obtain ⟨hthere, hrearms⟩ := Bool.and_eq_true_iff.mp hboth
    rw [if_pos hthere, if_pos hrearms, ← Option.some.inj h]
    exact touches_setThreadExpiry store ⟨threadId, patch.ttl, patch.ttlStrategy⟩ now _
  | threadsCopy threadId uuid =>
    unfold ThreadCall.touch at h
    unfold apply RetainingStore.threadsCopy
    dsimp only at h ⊢
    split_ifs at h ⊢ with hthere
    rw [← Option.some.inj h]
    exact touches_setThreadExpiry store ⟨uuid, none, none⟩ now _
  | threadsDelete | createRun | runsSetStatus => cases h

end ThreadCall

/-- The stages of `threads.delete` up to the deletion. -/
def TtlStage.deletes : TtlStage → Bool
  | .requiring | .aborting | .erasing | .removing => true
  | _ => false

namespace Tick

/-- The policy of the thread has not been read yet. -/
def Awaits (tick : Tick) (threadId : ThreadId) : Prop :=
  match tick.stage with
  | .policy => threadId ∈ tick.rest
  | _ => threadId ∈ tick.rest.tail

/-- The thread is about to be deleted. -/
def Deletes (tick : Tick) (threadId : ThreadId) : Prop :=
  tick.stage.deletes = true ∧ tick.rest.head? = some threadId

theorem awaits_of_tail {tick : Tick} {k : ThreadId} (h : k ∈ tick.rest.tail) : tick.Awaits k := by
  unfold Awaits
  split
  · exact List.mem_of_mem_tail h
  · exact h

theorem awaits_goTo {tick : Tick} {stage : TtlStage} (hstage : stage ≠ .policy) {k : ThreadId} :
    (tick.goTo stage).Awaits k ↔ k ∈ tick.rest.tail := by
  unfold Awaits goTo
  dsimp only
  split
  · exact absurd rfl hstage
  · exact Iff.rfl

omit [EmptyCollection J] in
/-- A stage of the deletion follows another one, or a policy that says so. -/
theorem following_spec {deps : ThreadTtlSweeperDeps} {store : RetainingStore J}
    {threadId : ThreadId} {stage stage' : TtlStage}
    (h : following deps store threadId stage = some stage') : stage' ≠ .policy ∧
      (stage'.deletes = true → stage.deletes = true ∨
        (stage = .policy ∧ (store.getTtl threadId).strategy ≠ .keepLatest)) := by
  cases stage with
  | policy =>
    unfold following at h
    dsimp only at h
    split_ifs at h with hkeep <;> rw [← Option.some.inj h]
    · refine ⟨fun hpolicy => ?_, fun hdeletes => ?_⟩
      · cases hpolicy
      · cases hdeletes
    · refine ⟨fun hpolicy => ?_, fun _ => .inr ⟨rfl, hkeep⟩⟩
      cases hpolicy
  | requiring | aborting | erasing | removing =>
    refine ⟨?_, fun _ => .inl rfl⟩
    rintro rfl
    simp [following] at h
  | active | pruned | patching =>
    unfold following at h
    simp only [Option.ite_none_left_eq_some, Option.ite_none_right_eq_some,
      Option.some.injEq] at h
    obtain ⟨-, rfl⟩ := h
    simp [TtlStage.deletes]
  | pruning =>
    obtain rfl := Option.some.inj h
    simp [TtlStage.deletes]
  | rearming | clearing => cases h

/-- The threads that are there are as the tick takes them to be. -/
structure Sound (store : RetainingStore J) (tick : Tick) : Prop where
  nodup : tick.rest.Nodup
  awaited : ∀ k, tick.Awaits k → store.rows.threads.contains k = true →
    store.IsDue tick.cutoff k ∨ (store.getTtl k).strategy = .keepLatest
  deleted : ∀ k, tick.Deletes k → store.rows.threads.contains k = true →
    store.IsDue tick.cutoff k

end Tick

namespace Touch

/-- What the call sets is a time that had run out by `cutoff`. -/
def SetsDue (store : RetainingStore J) (now cutoff : Timestamp) (touch : Touch) : Prop :=
  (∃ minutes, store.minutes touch.threadId touch.ttl = some (some minutes) ∧
    RetainingStore.expiresAt now minutes ≤ cutoff) ∧
      store.nextStrategy touch.threadId touch.strategy = .delete

/-- What a tick needs of a call that sets the expiry of a thread. -/
def Spares (store : RetainingStore J) (now : Timestamp) (tick : Tick) (touch : Touch) : Prop :=
  (tick.Awaits touch.threadId → touch.SetsDue store now tick.cutoff ∨
    store.nextStrategy touch.threadId touch.strategy = .keepLatest) ∧
      (tick.Deletes touch.threadId → touch.SetsDue store now tick.cutoff)

end Touch

omit [EmptyCollection J] in
theorem Touches.isDue {store store' : RetainingStore J} {touch : Touch} {now cutoff : Timestamp}
    (h : Touches store store' touch now) (hdue : touch.SetsDue store now cutoff) :
    store'.IsDue cutoff touch.threadId := by
  obtain ⟨⟨minutes, hminutes, hle⟩, hdelete⟩ := hdue
  refine ⟨⟨RetainingStore.expiresAt now minutes, ?_, hle⟩, h.strategy.trans hdelete⟩
  rw [h.expiry, hminutes]
  rfl

namespace Tick

/-- A call that spares the tick leaves it sound. -/
theorem Sound.call {store : RetainingStore J} {now : Timestamp} {tick : Tick} {call : ThreadCall J}
    (h : Sound store tick)
    (hspares : ∀ touch, call.touch store = some touch → touch.Spares store now tick) :
    Sound (call.apply store now) tick := by
  have hkeeps : ∀ k, (∀ touch, call.touch store = some touch → touch.threadId ≠ k) →
      KeepsThread store (call.apply store now) k := fun k hk => call.apply_keeps store now hk
  refine ⟨h.nodup, fun k hawaits hthere => ?_, fun k hdeletes hthere => ?_⟩
  · by_cases htouched : ∃ touch, call.touch store = some touch ∧ touch.threadId = k
    · obtain ⟨touch, htouch, rfl⟩ := htouched
      have htouches := ThreadCall.apply_touches store now htouch
      rcases (hspares touch htouch).1 hawaits with hdue | hkeep
      · exact .inl (htouches.isDue hdue)
      · exact .inr (htouches.strategy.trans hkeep)
    · have hkept := hkeeps k fun touch htouch hk => htouched ⟨touch, htouch, hk⟩
      rcases h.awaited k hawaits (hkept.there hthere) with hdue | hkeep
      · exact .inl (hkept.isDue hthere hdue)
      · refine .inr ?_
        rw [hkept.policy hthere]
        exact hkeep
  · by_cases htouched : ∃ touch, call.touch store = some touch ∧ touch.threadId = k
    · obtain ⟨touch, htouch, rfl⟩ := htouched
      exact (ThreadCall.apply_touches store now htouch).isDue ((hspares touch htouch).2 hdeletes)
    · have hkept := hkeeps k fun touch htouch hk => htouched ⟨touch, htouch, hk⟩
      exact hkept.isDue hthere (h.deleted k hdeletes (hkept.there hthere))

omit [EmptyCollection J] in
theorem sound_start (store : RetainingStore J) (cutoff : Timestamp) (limit : ℕ) :
    Sound store (.start cutoff (store.listExpired cutoff limit)) where
  nodup := store.listExpired_nodup cutoff limit
  awaited k hawaits _ := by
    obtain ⟨-, hexpires⟩ := RetainingStore.mem_listExpired hawaits
    cases hstrategy : (store.getTtl k).strategy with
    | delete => exact .inl ⟨hexpires, hstrategy⟩
    | keepLatest => exact .inr rfl
  deleted _ hdeletes _ := by cases hdeletes.1

omit [EmptyCollection J] in
theorem Sound.next {store : RetainingStore J} {tick : Tick} (h : Sound store tick) :
    Sound store tick.next where
  nodup := h.nodup.sublist (List.tail_sublist _)
  awaited k hawaits hthere := h.awaited k (awaits_of_tail hawaits) hthere
  deleted _ hdeletes _ := by cases hdeletes.1

omit [EmptyCollection J] in
/-- The next call of a tick leads to a sound tick over the same store. -/
theorem Sound.nextTick {deps : ThreadTtlSweeperDeps} {store : RetainingStore J} {tick : Tick}
    {threadId : ThreadId} (h : Sound store tick) (hhead : tick.rest.head? = some threadId)
    (failed : Bool) : Sound store (SweepWorld.nextTick deps store tick threadId failed) := by
  unfold SweepWorld.nextTick
  split_ifs
  · exact h.next
  cases hstage : following deps store threadId tick.stage with
  | none => exact h.next
  | some stage =>
    obtain ⟨hpolicy, hdeletes⟩ := following_spec hstage
    refine ⟨h.nodup, fun k hk => ?_, fun k hk hthere => ?_⟩
    · exact h.awaited k (awaits_of_tail ((awaits_goTo hpolicy).mp hk))
    · have hhead' : tick.rest.head? = some k := hk.2
      rcases hdeletes hk.1 with hbefore | ⟨hread, hstrategy⟩
      · exact h.deleted k ⟨hbefore, hhead'⟩ hthere
      · rw [hhead] at hhead'
        rw [Option.some.inj hhead'] at hhead hstrategy
        have hawaits : tick.Awaits k := by
          unfold Awaits
          rw [hread]
          exact List.mem_of_mem_head? hhead
        exact (h.awaited k hawaits hthere).resolve_right hstrategy

end Tick

end Skein
