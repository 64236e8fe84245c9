import Skein.SweptThreads

/-!
# What the sweeper deletes

A tick lists a thread once and deletes it much later; of what a request may have set in between
only the strategy is read again, and that once. So the thread it deletes is still due where no
request has put its time off.
-/
namespace Skein
variable {J : Type*} [EmptyCollection J]

namespace SweepWorld
variable {deps : ThreadTtlSweeperDeps} {world world' : SweepWorld J} {action : SweepAction J}
  {now : Timestamp}

/-- No call puts off a thread that a tick still has to look at, or is deleting. -/
def Undisturbed (world : SweepWorld J) (action : SweepAction J × Timestamp) : Prop :=
  ∀ call touch, world.threadCall action.1 = some call → call.touch world.store = some touch →
    ∀ n tick, world.ticks n = some tick → touch.Spares world.store action.2 tick

def Sound (world : SweepWorld J) : Prop :=
  ∀ n tick, world.ticks n = some tick → tick.Sound world.store

/-- What a step does to the store. -/
theorem step_store (h : step deps world (action, now) = some world') :
    world'.store = ((world.threadCall action).map (·.apply world.store now)).getD world.store := by
  cases action with
  | call call => exact (congrArg SweepWorld.store (Option.some.inj h)).symm
  | list n =>
    unfold step at h
    dsimp only at h
    split at h
    · cases h
    · rw [← Option.some.inj h]
      rfl
  | advance n failed =>
    unfold step at h
    obtain ⟨tick, -, hrest⟩ := Option.bind_eq_some_iff.mp h
    obtain ⟨threadId, -, rfl⟩ := Option.map_eq_some_iff.mp hrest
    rfl

/-- Where a tick after a step comes from. -/
theorem step_tick (h : step deps world (action, now) = some world') {n : ℕ} {tick' : Tick}
    (htick' : world'.ticks n = some tick') :
    world.ticks n = some tick' ∨
      (action = .list n ∧
        tick' = .start now (world.store.listExpired now deps.scanLimit)) ∨
      ∃ failed tick threadId, action = .advance n failed ∧ world.ticks n = some tick ∧
        tick.rest.head? = some threadId ∧
          tick' = nextTick deps world.store tick threadId failed := by
  cases action with
  | call call =>
    rw [← Option.some.inj h] at htick'
    exact .inl htick'
  | list m =>
    unfold step at h
    dsimp only at h
    split at h
    · cases h
    · rw [← Option.some.inj h] at htick'
      dsimp only at htick'
      by_cases hn : n = m
      · subst hn
        rw [Function.update_self] at htick'
        exact .inr (.inl ⟨rfl, (Option.some.inj htick').symm⟩)
      · rw [Function.update_of_ne hn] at htick'
        exact .inl htick'
  | advance m failed =>
    unfold step at h
    obtain ⟨tick, htick, hrest⟩ := Option.bind_eq_some_iff.mp h
    obtain ⟨threadId, hhead, rfl⟩ := Option.map_eq_some_iff.mp hrest
    dsimp only at htick'
    by_cases hn : n = m
    · subst hn
      rw [Function.update_self] at htick'
      exact .inr (.inr ⟨failed, tick, threadId, rfl, htick, hhead,
        (Option.some.inj htick').symm⟩)
    · rw [Function.update_of_ne hn] at htick'
      exact .inl htick'

omit [EmptyCollection J] in
/-- What a tick calls that changes the store. -/
theorem threadCall_advance {n : ℕ} {failed : Bool} {call : ThreadCall J}
    (h : world.threadCall (.advance n failed) = some call) :
    ∃ tick threadId, world.ticks n = some tick ∧ tick.rest.head? = some threadId ∧
      failed = false ∧ ((∃ policy, tick.stage = .rearming policy ∧
        call = .threadsUpdate threadId { ttl := some policy.ttl.join }) ∨
          (tick.stage = .removing ∧ call = .threadsDelete threadId)) := by
  cases failed with
  | true => cases h
  | false =>
    obtain ⟨tick, htick, hrest⟩ := Option.bind_eq_some_iff.mp h
    obtain ⟨threadId, hhead, hcall⟩ := Option.bind_eq_some_iff.mp hrest
    refine ⟨tick, threadId, htick, hhead, rfl, ?_⟩
    cases hstage : tick.stage with
    | rearming policy =>
      rw [hstage] at hcall
      exact .inl ⟨policy, rfl, (Option.some.inj hcall).symm⟩
    | removing =>
      rw [hstage] at hcall
      exact .inr ⟨rfl, (Option.some.inj hcall).symm⟩
    | policy | active | pruning | pruned | patching | requiring | aborting | erasing | clearing =>
      rw [hstage] at hcall
      cases hcall

omit [EmptyCollection J] in
/-- The thread whose clock a tick starts again is behind it. -/
theorem spares_next {tick : Tick} (hnodup : tick.rest.Nodup) {threadId : ThreadId}
    (hhead : tick.rest.head? = some threadId) {store : RetainingStore J} {touch : Touch}
    (htouch : touch.threadId = threadId) : touch.Spares store now tick.next := by
  obtain ⟨rest, hrest⟩ := List.head?_eq_some_iff.mp hhead
  refine ⟨fun hawaits => ?_, fun hdeletes => ?_⟩
  · have hmem : touch.threadId ∈ tick.rest.tail := hawaits
    rw [hrest, htouch] at hmem
    rw [hrest] at hnodup
    exact absurd hmem (List.nodup_cons.mp hnodup).1
  · cases hdeletes.1

/-- A step that disturbs no tick leaves every tick sound. -/
theorem Sound.step (h : Sound world) (hundisturbed : Undisturbed world (action, now))
    (hstep : SweepWorld.step deps world (action, now) = some world') : Sound world' := by
  intro n tick' htick'
  have hstore := step_store hstep
  rcases step_tick hstep htick' with htick | ⟨rfl, rfl⟩ |
    ⟨failed, tick, threadId, rfl, htick, hhead, rfl⟩
  · rw [hstore]
    cases hcall : world.threadCall action with
    | none => exact h n tick' htick
    | some call =>
      exact (h n tick' htick).call fun touch htouch =>
        hundisturbed call touch hcall htouch n tick' htick
  · rw [hstore]
    exact Tick.sound_start world.store now deps.scanLimit
  · rw [hstore]
    have hnext : Tick.Sound world.store (nextTick deps world.store tick threadId failed) :=
      (h n tick htick).nextTick hhead failed
    cases hcall : world.threadCall (.advance n failed) with
    | none => exact hnext
    | some call =>
      obtain ⟨tick₀, threadId₀, htick₀, hhead₀, rfl, hkinds⟩ := threadCall_advance hcall
      rw [htick] at htick₀
      obtain rfl := Option.some.inj htick₀
      rw [hhead] at hhead₀
      obtain rfl := Option.some.inj hhead₀
      refine hnext.call fun touch htouch => ?_
      rcases hkinds with ⟨policy, hstage, rfl⟩ | ⟨-, rfl⟩
      · have hafter : nextTick deps world.store tick threadId false = tick.next := by
          unfold nextTick
          rw [hstage]
          rfl
        rw [hafter]
        refine spares_next (h n tick htick).nodup hhead ?_
        unfold ThreadCall.touch at htouch
        dsimp only at htouch
        split_ifs at htouch
        rw [← Option.some.inj htouch]
      · cases htouch

/-- The thread that a tick deletes is the one before it, at the deletion. -/
theorem removes_current {n : ℕ} {failed : Bool} {k : ThreadId}
    (hstep : SweepWorld.step deps world (.advance n failed, now) = some world')
    (hthere : world.store.rows.threads.contains k = true)
    (hgone : world'.store.rows.threads.contains k = false) :
    ∃ tick, world.ticks n = some tick ∧ tick.Deletes k := by
  rw [step_store hstep] at hgone
  cases hcall : world.threadCall (.advance n failed) with
  | none =>
    rw [hcall] at hgone
    exact absurd (hgone.symm.trans hthere) Bool.false_ne_true
  | some call =>
    rw [hcall] at hgone
    obtain ⟨tick, threadId, htick, hhead, -, ⟨policy, -, rfl⟩ | ⟨hstage, rfl⟩⟩ :=
      threadCall_advance hcall
    · have hkept := world.store.threadsUpdate_there threadId
        { ttl := some policy.ttl.join } now hthere
      exact absurd (hgone.symm.trans hkept) Bool.false_ne_true
    · refine ⟨tick, htick, ?_, ?_⟩
      · rw [hstage]
        rfl
      · rw [hhead]
        by_contra hne
        have hother : threadId ≠ k := fun heq => hne (congrArg some heq)
        have hkept : (world.store.threadsDelete threadId).rows.threads.contains k = true := by
          show (world.store.rows.threadsDelete threadId).threads.contains k = true
          unfold OrderedMap.contains at hthere ⊢
          rw [MemorySkeinStore.threadsDelete_threads, Table.get?_erase, if_neg hother]
          exact hthere
        exact absurd (hgone.symm.trans hkept) Bool.false_ne_true

end SweepWorld

/-- How many calls are left for the first thread of a tick, this one included. -/
def TtlStage.callsLeft : TtlStage → ℕ
  | .policy => 6
  | .active _ | .requiring => 5
  | .pruning _ | .aborting => 4
  | .pruned _ | .erasing => 3
  | .patching _ | .removing => 2
  | .rearming _ | .clearing => 1

/-- How many calls are left to a tick at most. -/
def Tick.callsLeft (tick : Tick) : ℕ :=
  match tick.rest with
  | [] => 0
  | _ :: rest => tick.stage.callsLeft + 6 * rest.length

namespace Tick
variable (deps : ThreadTtlSweeperDeps) (store : RetainingStore J)

variable {deps store} in
omit [EmptyCollection J] in
theorem following_callsLeft {threadId : ThreadId} {stage stage' : TtlStage}
    (h : following deps store threadId stage = some stage') :
    stage'.callsLeft + 1 = stage.callsLeft := by
  cases stage with
  | policy =>
    unfold following at h
    dsimp only at h
    split_ifs at h <;> rw [← Option.some.inj h] <;> rfl
  | active | pruned | patching | requiring =>
    unfold following at h
    simp only [Option.ite_none_left_eq_some, Option.ite_none_right_eq_some,
      Option.some.injEq] at h
    obtain ⟨-, rfl⟩ := h
    rfl
  | pruning | aborting | erasing | removing =>
    obtain rfl := Option.some.inj h
    rfl
  | rearming | clearing => cases h

theorem callsLeft_pos (stage : TtlStage) : 0 < stage.callsLeft := by
  cases stage <;> simp [TtlStage.callsLeft]

theorem next_callsLeft {tick : Tick} {threadId : ThreadId}
    (hhead : tick.rest.head? = some threadId) : tick.next.callsLeft < tick.callsLeft := by
  obtain ⟨rest, hrest⟩ := List.head?_eq_some_iff.mp hhead
  have hpos := callsLeft_pos tick.stage
  have hnext : tick.next.callsLeft = 6 * rest.length := by
    unfold next callsLeft
    rw [hrest]
    dsimp only
    cases rest with
    | nil => rfl
    | cons _ rest =>
      simp only [List.tail_cons, TtlStage.callsLeft, List.length_cons]
      omega
  rw [hnext]
  unfold callsLeft
  rw [hrest]
  dsimp only
  omega

omit [EmptyCollection J] in
/-- Whatever a call answers, less is left. -/
theorem nextTick_callsLeft {tick : Tick} {threadId : ThreadId}
    (hhead : tick.rest.head? = some threadId) (failed : Bool) :
    (SweepWorld.nextTick deps store tick threadId failed).callsLeft < tick.callsLeft := by
  unfold SweepWorld.nextTick
  split_ifs
  · exact next_callsLeft hhead
  cases hstage : following deps store threadId tick.stage with
  | none => exact next_callsLeft hhead
  | some stage =>
    have hless := following_callsLeft hstage
    obtain ⟨rest, hrest⟩ := List.head?_eq_some_iff.mp hhead
    show (tick.goTo stage).callsLeft < tick.callsLeft
    unfold goTo callsLeft
    rw [hrest]
    dsimp only
    omega

omit [EmptyCollection J] in
/-- A tick loses no thread that it listed. -/
theorem nextTick_listed {tick : Tick} {threadId : ThreadId}
    (hhead : tick.rest.head? = some threadId) (failed : Bool) :
    (SweepWorld.nextTick deps store tick threadId failed).handled ++
        (SweepWorld.nextTick deps store tick threadId failed).rest = tick.handled ++ tick.rest ∧
      (SweepWorld.nextTick deps store tick threadId failed).listed = tick.listed := by
  obtain ⟨rest, hrest⟩ := List.head?_eq_some_iff.mp hhead
  have hnext : tick.next.handled ++ tick.next.rest = tick.handled ++ tick.rest := by
    simp [next, hrest]
  unfold SweepWorld.nextTick
  split_ifs
  · exact ⟨hnext, rfl⟩
  · cases following deps store threadId tick.stage with
    | none => exact ⟨hnext, rfl⟩
    | some stage => exact ⟨rfl, rfl⟩

end Tick

namespace SweepWorld
variable {deps : ThreadTtlSweeperDeps} {world world' : SweepWorld J}

/-- Whether the step is one of the tick. -/
def isAdvance (n : ℕ) (action : SweepAction J × Timestamp) : Bool :=
  match action.1 with
  | .advance m _ => m = n
  | _ => false

/-- A tick goes on in its own steps only, and loses no thread. -/
theorem step_progress {action : SweepAction J × Timestamp}
    (hstep : SweepWorld.step deps world action = some world') {n : ℕ} {tick : Tick}
    (htick : world.ticks n = some tick) :
    ∃ tick', world'.ticks n = some tick' ∧ tick'.listed = tick.listed ∧
      tick'.handled ++ tick'.rest = tick.handled ++ tick.rest ∧
        tick'.callsLeft + (if isAdvance n action then 1 else 0) ≤ tick.callsLeft := by
  obtain ⟨action, now⟩ := action
  cases action with
  | call call =>
    rw [← Option.some.inj hstep]
    exact ⟨tick, htick, rfl, rfl, le_rfl⟩
  | list m =>
    unfold SweepWorld.step at hstep
    dsimp only at hstep
    split at hstep
    · cases hstep
    next hnone =>
      have hne : n ≠ m := by
        rintro rfl
        rw [hnone] at htick
        cases htick
      rw [← Option.some.inj hstep]
      refine ⟨tick, ?_, rfl, rfl, le_rfl⟩
      dsimp only
      rw [Function.update_of_ne hne]
      exact htick
  | advance m failed =>
    unfold SweepWorld.step at hstep
    obtain ⟨tick₀, htick₀, hrest⟩ := Option.bind_eq_some_iff.mp hstep
    obtain ⟨threadId, hhead, rfl⟩ := Option.map_eq_some_iff.mp hrest
    dsimp only
    by_cases hn : n = m
    · subst hn
      rw [htick] at htick₀
      obtain rfl := Option.some.inj htick₀
      obtain ⟨hlists, hlisted⟩ :=
        Tick.nextTick_listed deps world.store hhead failed
      refine ⟨_, Function.update_self .., hlisted, hlists, ?_⟩
      have hless := Tick.nextTick_callsLeft deps world.store hhead failed
      simp only [isAdvance, decide_true, if_true]
      omega
    · refine ⟨tick, ?_, rfl, rfl, ?_⟩
      · rw [Function.update_of_ne hn]
        exact htick
      · have hother : isAdvance n ((.advance m failed, now) : SweepAction J × Timestamp) = false :=
          decide_eq_false (Ne.symm hn)
        rw [hother]
        exact le_rfl

theorem run_progress {actions : List (SweepAction J × Timestamp)}
    (hrun : (machine deps).run world actions = some world') {n : ℕ} {tick : Tick}
    (htick : world.ticks n = some tick) :
    ∃ tick', world'.ticks n = some tick' ∧ tick'.listed = tick.listed ∧
      tick'.handled ++ tick'.rest = tick.handled ++ tick.rest ∧
        tick'.callsLeft + actions.countP (isAdvance n) ≤ tick.callsLeft := by
  induction actions generalizing world tick with
  | nil =>
    rw [← Option.some.inj hrun]
    exact ⟨tick, htick, rfl, rfl, le_rfl⟩
  | cons action actions ih =>
    obtain ⟨middle, hstep, hrest⟩ := (Machine.run_cons_eq_some _).mp hrun
    obtain ⟨tick₁, htick₁, hlisted₁, hlists₁, hleft₁⟩ := step_progress hstep htick
    obtain ⟨tick₂, htick₂, hlisted₂, hlists₂, hleft₂⟩ := ih hrest htick₁
    refine ⟨tick₂, htick₂, hlisted₂.trans hlisted₁, hlists₂.trans hlists₁, ?_⟩
    rw [List.countP_cons]
    omega

/-- What a tick listed is what it has handled and what is left to it. -/
def Accounted (world : SweepWorld J) : Prop :=
  ∀ n tick, world.ticks n = some tick → tick.handled ++ tick.rest = tick.listed

theorem Accounted.step {action : SweepAction J × Timestamp} (h : Accounted world)
    (hstep : SweepWorld.step deps world action = some world') : Accounted world' := by
  obtain ⟨action, now⟩ := action
  intro n tick' htick'
  rcases step_tick hstep htick' with htick | ⟨-, rfl⟩ |
    ⟨failed, tick, threadId, -, htick, hhead, rfl⟩
  · exact h n tick' htick
  · rfl
  · obtain ⟨hlists, hlisted⟩ := Tick.nextTick_listed deps world.store hhead failed
    rw [hlists, hlisted]
    exact h n tick htick

omit [EmptyCollection J] in
theorem handled_of_done {tick : Tick} (h : tick.handled ++ tick.rest = tick.listed)
    (hdone : tick.callsLeft = 0) : tick.handled = tick.listed := by
  unfold Tick.callsLeft at hdone
  split at hdone
  next hrest =>
    rw [hrest, List.append_nil] at h
    exact h
  · have hpos := Tick.callsLeft_pos tick.stage
    omega

/-- In a run that disturbs no tick, a thread that a tick deletes is due; and whatever calls fail
and whatever the requests do, a tick handles all that it listed. -/
theorem sweeper_deletesDue (deps : ThreadTtlSweeperDeps) (store : RetainingStore J)
    (actions : List (SweepAction J × Timestamp)) (world : SweepWorld J)
    (hrun : (machine deps).run (init store) actions = some world) :
    ((machine deps).Along Undisturbed (init store) actions →
      ∀ n failed now world' k, SweepWorld.step deps world (.advance n failed, now) = some world' →
        world.store.rows.threads.contains k = true →
          world'.store.rows.threads.contains k = false →
            ∃ tick, world.ticks n = some tick ∧ world.store.IsDue tick.cutoff k) ∧
      ∀ n tick, world.ticks n = some tick →
        (tick.rest ≠ [] → ∀ failed now,
          (SweepWorld.step deps world (.advance n failed, now)).isSome = true) ∧
        ∀ more world', (machine deps).run world more = some world' →
          tick.callsLeft ≤ more.countP (isAdvance n) →
            ∃ tick', world'.ticks n = some tick' ∧ tick'.handled = tick.listed := by
  refine ⟨fun hundisturbed n failed now world' k hstep hthere hgone => ?_,
    fun n tick htick => ⟨fun hrest failed now => ?_, fun more world' hmore hsteps => ?_⟩⟩
  · have hinit : Sound (init store) := by
      intro n tick htick
      cases htick
    have hsound : Sound world := Machine.run_invariant_along
      (fun _ _ _ hs hc ht => hs.step hc ht) hinit hundisturbed hrun
    obtain ⟨tick, htick, hdeletes⟩ := removes_current hstep hthere hgone
    exact ⟨tick, htick, (hsound n tick htick).deleted k hdeletes hthere⟩
  · cases hrest' : tick.rest with
    | nil => exact absurd hrest' hrest
    | cons threadId rest =>
      unfold SweepWorld.step
      dsimp only
      rw [htick, Option.bind_some, hrest']
      rfl
  · have hinit : Accounted (init store) := by
      intro n tick htick
      cases htick
    have haccounted : Accounted world :=
      Machine.run_invariant (fun _ _ _ hs ht => hs.step ht) hinit hrun
    obtain ⟨tick', htick', hlisted, hlists, hleft⟩ := run_progress hmore htick
    refine ⟨tick', htick', ?_⟩
    rw [← hlisted]
    refine handled_of_done ?_ (by omega)
    rw [hlists, hlisted]
    exact haccounted n tick htick

namespace SweptThreads

def t1 : ThreadId := .of "t1"

/-- The thread `t1`, whose time has run out at 5. -/
def store : RetainingStore Json where
  rows := (MemorySkeinStore.threadsCreate {} { threadId := some t1 } t1 0).2
  retention := (∅ : OrderedMap ThreadId Retention).set t1 { ttl := some (some 0), strategy := .delete }
  expiry := (∅ : OrderedMap ThreadId ℚ).set t1 5

def tick : List (SweepAction Json × Timestamp) :=
  [(.list 0, 10), (.advance 0 false, 10), (.advance 0 false, 10), (.advance 0 false, 10),
    (.advance 0 false, 10)]

/-- The same, where a request pins the thread after its policy has been read. -/
def pinned : List (SweepAction Json × Timestamp) :=
  [(.list 0, 10), (.advance 0 false, 10), (.call (.threadsUpdate t1 { ttl := some none }), 10),
    (.advance 0 false, 10), (.advance 0 false, 10), (.advance 0 false, 10)]

/-- The thread is deleted, though it is pinned at the deletion. -/
theorem pinned_isDeleted : ∃ world world',
    (machine {}).run (init store) pinned = some world ∧
      SweepWorld.step {} world (.advance 0 false, 10) = some world' ∧
        world.store.rows.threads.contains t1 = true ∧
          world'.store.rows.threads.contains t1 = false ∧
            world.store.expiry.get? t1 = none ∧ ∀ cutoff, ¬world.store.IsDue cutoff t1 := by
  refine ⟨_, _, rfl, rfl, rfl, rfl, rfl, fun cutoff hdue => ?_⟩
  obtain ⟨⟨expires, hexpires, -⟩, -⟩ := hdue
  cases hexpires

/-- Where no request comes between, the tick deletes the thread that is due. -/
theorem tick_deletesDue : ∃ world world' tick,
    (machine {}).run (init store) SweptThreads.tick = some world ∧
      SweepWorld.step {} world (.advance 0 false, 10) = some world' ∧
        world'.store.rows.threads.contains t1 = false ∧ world.ticks 0 = some tick ∧
          world.store.IsDue tick.cutoff t1 := by
  have hquiet : (machine {}).Along Undisturbed (init store) SweptThreads.tick := by
    refine ⟨?_, ?_, ?_, ?_, ?_, trivial⟩ <;>
    · intro call touch hcall
      cases hcall
  obtain ⟨tick, htick, hdue⟩ := (sweeper_deletesDue {} store SweptThreads.tick _ rfl).1 hquiet
    0 false 10 _ t1 rfl rfl rfl
  exact ⟨_, _, tick, rfl, rfl, rfl, htick, hdue⟩

end SweptThreads

end SweepWorld
end Skein
