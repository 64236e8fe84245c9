import Skein.MemoryRunQueue

/-!
# What a step of the queue can do

Every event of the partitioned queue is one of eleven moves, stated on lists that are taken
apart at the entry they touch. From the moves follows who owns what: the claimed threads are
those of the tasks and of the deferrals, each owned once; the active runs are those of the
tasks; and a run is in one place, except that a busy one is back in the queue before its task
has settled.
-/
namespace Skein

namespace QueueItem
def runId (item : QueueItem) : RunId := item.run.runId
def threadId (item : QueueItem) : ThreadId := item.run.threadId
end QueueItem

namespace QueueTask
def runId (task : QueueTask) : RunId := task.item.runId
def threadId (task : QueueTask) : ThreadId := task.item.threadId
def isProcessing (task : QueueTask) : Bool := decide (task.phase = .processing)
end QueueTask

namespace MemoryRunQueue

/-- The runs handed to `tryProcess` whose answer has not been looked at. -/
def processing (q : MemoryRunQueue) : List QueueItem :=
  (q.running.filter QueueTask.isProcessing).map QueueTask.item

/-- What a step can do to a queue. -/
inductive Moves (q : MemoryRunQueue) : MemoryRunQueue → Prop
  | stay : Moves q q
  | hold (held : DelayedRun) (hactive : held.run.runId ∉ q.active)
    (hdelayed : q.delayed.contains held.run.runId = false)
    (hitems : held.run.runId ∉ q.items.map QueueItem.runId) :
    Moves q { q.accept held.run with delayed := q.delayed.write held }
  | push (run : QueuedRun) (hactive : run.runId ∉ q.active)
    (hdelayed : q.delayed.contains run.runId = false)
    (hitems : run.runId ∉ q.items.map QueueItem.runId) : Moves q ((q.accept run).push run)
  | due (runId : RunId) (held : DelayedRun) (hheld : q.delayed.get? runId = some held) :
    Moves q ({ q with delayed := q.delayed.erase runId }.push held.run)
  | consume (concurrency : ℕ) :
    Moves q { q with consumers := q.consumers ++ [⟨concurrency, true⟩] }
  | take (consumer : ℕ) (item : QueueItem) (before after : List QueueItem)
    (hawake : q.awake consumer = true) (hitems : q.items = before ++ item :: after)
    (hbefore : ∀ x ∈ before, x.threadId ∈ q.claimedThreads)
    (hitem : item.threadId ∉ q.claimedThreads) :
    Moves q { q with
      items := before ++ after
      active := q.active.insert item.runId
      claimedThreads := q.claimedThreads.insert item.threadId
      running := q.running ++ [⟨consumer, item, .processing⟩]
      started := q.started ++ [item] }
  | park (consumer : ℕ) (hawake : q.awake consumer = true)
    (hnone : ∀ x ∈ q.items, x.threadId ∈ q.claimedThreads) :
    Moves q { q with waiters := q.waiters ++ [consumer] }
  | putBack (consumer : ℕ) (item : QueueItem) (before after : List QueueTask)
    (hrunning : q.running = before ++ ⟨consumer, item, .processing⟩ :: after) :
    Moves q { q with
      items := item :: q.items
      running := before ++ ⟨consumer, item, .answered true⟩ :: after }
  | leave (consumer : ℕ) (item : QueueItem) (before after : List QueueTask)
    (hrunning : q.running = before ++ ⟨consumer, item, .processing⟩ :: after) :
    Moves q { q with
      left := q.left ++ [item]
      running := before ++ ⟨consumer, item, .answered false⟩ :: after }
  | settle (consumer : ℕ) (item : QueueItem) (busy deferred : Bool)
    (before after : List QueueTask)
    (hrunning : q.running = before ++ ⟨consumer, item, .answered busy⟩ :: after) :
    Moves q { q with
      active := q.active.filter (· ≠ item.runId)
      running := before ++ after
      claimedThreads := if deferred then q.claimedThreads
        else q.claimedThreads.filter (· ≠ item.threadId)
      deferred := if deferred then q.deferred ++ [(consumer, item.threadId)]
        else q.deferred.filter (· ≠ (consumer, item.threadId))
      waiters := [] }
  | release (keep : ℕ × ThreadId → Bool) (consumers : List PartitionedConsumer)
    (hconsumers : ∀ i : ℕ, consumers[i]?.map PartitionedConsumer.concurrency =
      q.consumers[i]?.map PartitionedConsumer.concurrency) :
    Moves q { q with
      consumers
      claimedThreads := q.claimedThreads.filter fun t =>
        q.deferred.all fun d => decide (d.2 = t → keep d = true)
      deferred := q.deferred.filter keep
      waiters := [] }

/-- A list taken apart at one of its places. -/
theorem exists_split {α : Type*} {l : List α} {i : ℕ} {a : α} (h : l[i]? = some a) :
    ∃ before after, l = before ++ a :: after ∧ l.eraseIdx i = before ++ after ∧
      ∀ b, l.set i b = before ++ b :: after := by
  obtain ⟨hi, ha⟩ := List.getElem?_eq_some_iff.mp h
  refine ⟨l.take i, l.drop (i + 1), ?_, List.eraseIdx_eq_take_drop_succ l i, fun b => ?_⟩
  · rw [← ha, List.getElem_cons_drop, List.take_append_drop]
  · rw [List.set_eq_take_append_cons_drop, if_pos hi]

variable {q q' : MemoryRunQueue}

theorem enqueue_moves (q : MemoryRunQueue) (run : QueuedRun) (delayMs : ℕ) (now : Timestamp) :
    Moves q (q.enqueue run delayMs now) := by
  unfold enqueue
  split_ifs with hactive hdelayed hitems hdelay
  · exact .stay
  · exact .stay
  · exact .stay
  all_goals
    have hfresh : run.runId ∉ q.items.map QueueItem.runId := by
      intro hmem
      obtain ⟨x, hx, hxid⟩ := List.mem_map.mp hmem
      exact hitems (List.any_eq_true.mpr ⟨x, hx, decide_eq_true hxid⟩)
  · exact .hold ⟨run, now + delayMs⟩ hactive (Bool.eq_false_iff.mpr hdelayed) hfresh
  · exact .push run hactive (Bool.eq_false_iff.mpr hdelayed) hfresh

theorem due_moves {runId : RunId} {now : Timestamp} (h : q.due runId now = some q') :
    Moves q q' := by
  unfold due at h
  split at h
  · cases h
  next held hheld =>
    split_ifs at h <;> cases h
    · exact .stay
    · exact .due runId held hheld

theorem turn_moves {consumer : ℕ} (h : q.turn consumer = some q') : Moves q q' := by
  unfold turn at h
  split_ifs at h with hawake
  split at h
  next hnone =>
    cases h
    refine .park consumer hawake fun x hx => ?_
    simpa [eligible, QueueItem.threadId] using List.find?_eq_none.mp hnone x hx
  next item hfind =>
    cases h
    obtain ⟨hitem, before, after, hsplit, hbefore⟩ := List.find?_eq_some_iff_append.mp hfind
    have hclaimed : ∀ x ∈ before, x.threadId ∈ q.claimedThreads := by
      intro x hx
      simpa [eligible, QueueItem.threadId] using hbefore x hx
    have herase : q.items.eraseP q.eligible = before ++ after := by
      rw [hsplit, List.eraseP_append_right _ (fun x hx => by simpa using hbefore x hx),
        List.eraseP_cons_of_pos hitem]
    rw [herase]
    exact .take consumer item before after hawake hsplit hclaimed
      (by simpa [eligible, QueueItem.threadId] using hitem)

theorem answer_moves {task : ℕ} {answer : ProcessAnswer} (h : q.answer task answer = some q') :
    Moves q q' := by
  unfold MemoryRunQueue.answer at h
  split at h
  next consumer item htask =>
    obtain ⟨before, after, hsplit, -, hset⟩ := exists_split htask
    cases answer <;> cases h <;> rw [hset]
    · exact .leave consumer item before after hsplit
    · exact .putBack consumer item before after hsplit
    · exact .leave consumer item before after hsplit
  · cases h

theorem settle_moves {task : ℕ} (h : q.settle task = some q') : Moves q q' := by
  unfold settle at h
  split at h
  next consumer item busy htask =>
    obtain ⟨before, after, hsplit, herase, -⟩ := exists_split htask
    simp only [herase] at h
    split_ifs at h <;> cases h
    · exact .settle consumer item busy true before after hsplit
    · exact .settle consumer item busy false before after hsplit
  · cases h

theorem retry_moves {consumer : ℕ} {threadId : ThreadId} (h : q.retry consumer threadId = some q') :
    Moves q q' := by
  unfold retry at h
  split_ifs at h with hthere
  cases h
  have hclaims : q.claimedThreads.filter (fun t => decide (t ≠ threadId)) =
      q.claimedThreads.filter fun t =>
        q.deferred.all fun d => decide (d.2 = t → decide (d ≠ (consumer, threadId)) = true) := by
    refine List.filter_congr fun t _ => ?_
    rw [Bool.eq_iff_iff]
    simp only [decide_eq_true_eq, List.all_eq_true]
    constructor
    · rintro ht d - hd rfl
      exact ht hd.symm
    · rintro hall rfl
      exact hall _ hthere rfl rfl
  unfold releaseThread wake
  rw [hclaims]
  exact .release (fun d => decide (d ≠ (consumer, threadId))) q.consumers
    (fun _ => rfl)

/-- The loop of `close` over the deferrals. -/
theorem foldl_releaseThread (q : MemoryRunQueue) (consumer : ℕ) (own : List (ℕ × ThreadId)) :
    (own.foldl (fun (r : MemoryRunQueue) d => r.releaseThread consumer d.2) q).wake =
      { q with
        claimedThreads := q.claimedThreads.filter fun t => decide (t ∉ own.map Prod.snd)
        deferred := q.deferred.filter fun d => decide (¬(d.1 = consumer ∧ d.2 ∈ own.map Prod.snd))
        waiters := [] } := by
  induction own generalizing q with
  | nil => simp [wake]
  | cons d own ih =>
    rw [List.foldl_cons, ih]
    unfold releaseThread wake
    congr 1
    all_goals
      simp only [List.filter_filter, List.map_cons, List.mem_cons]
      refine List.filter_congr fun e _ => ?_
      rw [Bool.eq_iff_iff]
      simp only [Bool.and_eq_true, decide_eq_true_eq, ne_eq, not_or, Prod.ext_iff]
      tauto

theorem close_moves {consumer : ℕ} (h : q.close consumer = some q') : Moves q q' := by
  unfold close at h
  split at h
  · cases h
  next c hc =>
    simp only [foldl_releaseThread, Option.some.injEq] at h
    subst h
    have hown : ∀ t, t ∈ (q.deferred.filter fun d => decide (d.1 = consumer)).map Prod.snd ↔
        (consumer, t) ∈ q.deferred := by
      intro t
      simp
    simp only [hown]
    have hclaims : q.claimedThreads.filter (fun t => decide ((consumer, t) ∉ q.deferred)) =
        q.claimedThreads.filter fun t =>
          q.deferred.all fun d => decide (d.2 = t → decide (d.1 ≠ consumer) = true) := by
      refine List.filter_congr fun t _ => ?_
      rw [Bool.eq_iff_iff]
      simp only [decide_eq_true_eq, List.all_eq_true]
      constructor
      · rintro ht ⟨i, t⟩ hd rfl rfl
        exact ht hd
      · intro hall hmem
        exact hall _ hmem rfl rfl
    have hdeferred : (q.deferred.filter fun d =>
        decide (¬(d.1 = consumer ∧ (consumer, d.2) ∈ q.deferred))) =
        q.deferred.filter fun d => decide (d.1 ≠ consumer) := by
      refine List.filter_congr fun d hd => ?_
      rw [Bool.eq_iff_iff]
      simp only [decide_eq_true_eq]
      constructor
      · rintro hnot rfl
        exact hnot ⟨rfl, hd⟩
      · rintro hne ⟨heq, -⟩
        exact hne heq
    rw [hclaims, hdeferred]
    refine .release (fun d => decide (d.1 ≠ consumer)) _ fun i => ?_
    rw [List.getElem?_set]
    split_ifs with hi hlt
    · rw [← hi, hc]
      rfl
    · exact absurd (List.getElem?_eq_some_iff.mp hc).1 hlt
    · rfl

theorem step_moves {e : QueueEvent} (h : memoryRunQueue.step q e = some q') : Moves q q' := by
  cases e with
  | enqueue run delayMs now =>
    cases h
    exact enqueue_moves q run delayMs now
  | due runId now => exact due_moves h
  | consumePartitioned concurrency =>
    simp only [memoryRunQueue, consumePartitioned] at h
    split_ifs at h
    cases h
    exact .consume concurrency
  | turn consumer => exact turn_moves h
  | answer task answer => exact answer_moves h
  | settle task => exact settle_moves h
  | retry consumer threadId => exact retry_moves h
  | close consumer => exact close_moves h

/-- The threads of the tasks and of the retry timers. -/
def owners (q : MemoryRunQueue) : List ThreadId :=
  q.running.map QueueTask.threadId ++ q.deferred.map Prod.snd

/-- Claims, active runs and queued runs belong to whom they should. -/
structure Owned (q : MemoryRunQueue) : Prop where
  owners : q.owners.Nodup
  claimed : ∀ t, t ∈ q.claimedThreads ↔ t ∈ q.owners
  tasks : (q.running.map QueueTask.runId).Nodup
  active : ∀ r, r ∈ q.active ↔ r ∈ q.running.map QueueTask.runId
  items : (q.items.map QueueItem.runId).Nodup
  delayed : ∀ r, q.delayed.contains r = true →
    r ∉ q.items.map QueueItem.runId ∧ r ∉ q.running.map QueueTask.runId
  /-- A queued run that has a task is a busy one that was put back. -/
  putBack : ∀ task ∈ q.running, ∀ x ∈ q.items, x.runId = task.runId →
    task.phase = .answered true ∧ x = task.item

theorem Owned.push {run : QueuedRun} (hq : q.Owned) (hactive : run.runId ∉ q.active)
    (hdelayed : q.delayed.contains run.runId = false)
    (hitems : run.runId ∉ q.items.map QueueItem.runId) : (q.push run).Owned where
  owners := hq.owners
  claimed := hq.claimed
  tasks := hq.tasks
  active := hq.active
  items := by
    simp only [MemoryRunQueue.push, List.map_append, List.map_cons, List.map_nil]
    exact (List.perm_append_singleton _ _).nodup_iff.mpr (List.nodup_cons.mpr ⟨hitems, hq.items⟩)
  delayed r hr := by
    obtain ⟨hout, htask⟩ := hq.delayed r hr
    refine ⟨?_, htask⟩
    simp only [MemoryRunQueue.push, List.map_append, List.mem_append, not_or]
    refine ⟨hout, fun hmem => ?_⟩
    have hr' : r = run.runId := by simpa [QueueItem.runId] using hmem
    subst hr'
    exact Bool.eq_false_iff.mp hdelayed hr
  putBack task htask x hx hid := by
    rcases List.mem_append.mp hx with hold | hnew
    · exact hq.putBack task htask x hold hid
    · have hx' : x = ⟨run, q.visible.length⟩ := by simpa using hnew
      subst hx'
      refine absurd ((hq.active _).mpr ?_) hactive
      exact List.mem_map.mpr ⟨task, htask, hid.symm⟩

theorem Owned.take {consumer : ℕ} {item : QueueItem} {before after : List QueueItem} (hq : q.Owned)
    (hitems : q.items = before ++ item :: after) (hitem : item.threadId ∉ q.claimedThreads) :
    Owned { q with
      items := before ++ after
      active := q.active.insert item.runId
      claimedThreads := q.claimedThreads.insert item.threadId
      running := q.running ++ [⟨consumer, item, .processing⟩]
      started := q.started ++ [item] } := by
  have hmem : item ∈ q.items := by simp [hitems]
  have hsub : ∀ x ∈ before ++ after, x ∈ q.items := by
    intro x hx
    rw [hitems]
    simp only [List.mem_append, List.mem_cons] at hx ⊢
    tauto
  have hids : item.runId ∉ (before ++ after).map QueueItem.runId ∧
      ((before ++ after).map QueueItem.runId).Nodup := by
    have hperm : (q.items.map QueueItem.runId).Perm
        (item.runId :: (before ++ after).map QueueItem.runId) := by
      rw [hitems]
      exact List.perm_middle.map _
    exact List.nodup_cons.mp (hperm.nodup_iff.mp hq.items)
  have htask : item.runId ∉ q.running.map QueueTask.runId := by
    intro hrun
    obtain ⟨task, htask, hid⟩ := List.mem_map.mp hrun
    obtain ⟨-, rfl⟩ := hq.putBack task htask item hmem hid.symm
    refine hitem ((hq.claimed _).mpr (List.mem_append_left _ ?_))
    exact List.mem_map.mpr ⟨task, htask, rfl⟩
  have howner : item.threadId ∉ q.owners := fun h => hitem ((hq.claimed _).mpr h)
  have hperm : (q.running.map QueueTask.threadId ++ [item.threadId] ++ q.deferred.map Prod.snd).Perm
      (item.threadId :: q.owners) := by
    rw [List.append_assoc]
    exact List.perm_middle
  refine ⟨?_, ?_, ?_, ?_, hids.2, ?_, ?_⟩
  · simp only [MemoryRunQueue.owners, List.map_append, List.map_cons, List.map_nil]
    exact hperm.nodup_iff.mpr (List.nodup_cons.mpr ⟨howner, hq.owners⟩)
  · intro t
    simp only [MemoryRunQueue.owners, List.map_append, List.map_cons, List.map_nil]
    rw [List.mem_insert_iff, hq.claimed, ← List.mem_cons]
    exact hperm.mem_iff.symm
  · simp only [List.map_append, List.map_cons, List.map_nil]
    exact (List.perm_append_singleton _ _).nodup_iff.mpr (List.nodup_cons.mpr ⟨htask, hq.tasks⟩)
  · intro r
    simp only [List.map_append, List.map_cons, List.map_nil, List.mem_append,
      List.mem_singleton, List.mem_insert_iff, hq.active, or_comm]
    rfl
  · intro r hr
    obtain ⟨hout, hnotask⟩ := hq.delayed r hr
    have hne : r ≠ item.runId := by
      rintro rfl
      exact hout (List.mem_map.mpr ⟨item, hmem, rfl⟩)
    refine ⟨fun hin => ?_, ?_⟩
    · obtain ⟨x, hx, hxid⟩ := List.mem_map.mp hin
      exact hout (List.mem_map.mpr ⟨x, hsub x hx, hxid⟩)
    · simp only [List.map_append, List.map_cons, List.map_nil, List.mem_append,
        List.mem_singleton, not_or]
      exact ⟨hnotask, hne⟩
  · intro task hrun x hx hid
    rcases List.mem_append.mp hrun with hold | hnew
    · exact hq.putBack task hold x (hsub x hx) hid
    · obtain rfl := List.mem_singleton.mp hnew
      exact absurd (List.mem_map.mpr ⟨x, hx, hid⟩) hids.1

/-- An answer changes the phase of one task, and puts its item back if it is busy. -/
theorem Owned.answer {consumer : ℕ} {item : QueueItem} {before after : List QueueTask}
    (hq : q.Owned) (hrunning : q.running = before ++ ⟨consumer, item, .processing⟩ :: after)
    (busy : Bool) (left : List QueueItem) :
    Owned { q with
      items := if busy then item :: q.items else q.items
      left
      running := before ++ ⟨consumer, item, .answered busy⟩ :: after } := by
  have hthreads : (before ++ ⟨consumer, item, .answered busy⟩ :: after).map QueueTask.threadId =
      q.running.map QueueTask.threadId := by
    rw [hrunning]
    simp [QueueTask.threadId]
  have hruns : (before ++ ⟨consumer, item, .answered busy⟩ :: after).map QueueTask.runId =
      q.running.map QueueTask.runId := by
    rw [hrunning]
    simp [QueueTask.runId]
  have htask : (⟨consumer, item, .processing⟩ : QueueTask) ∈ q.running := by simp [hrunning]
  have hout : ∀ x ∈ q.items, x.runId ≠ item.runId := by
    intro x hx hid
    have hphase := (hq.putBack _ htask x hx hid).1
    cases hphase
  have hitems : ∀ x, x ∈ (if busy then item :: q.items else q.items) →
      (busy = true ∧ x = item) ∨ x ∈ q.items := by
    intro x hx
    cases busy
    · exact .inr hx
    · rcases List.mem_cons.mp hx with rfl | hx
      · exact .inl ⟨rfl, rfl⟩
      · exact .inr hx
  have hnodup := hq.tasks
  rw [hrunning, List.map_append, List.map_cons] at hnodup
  have hothers := List.nodup_middle.mp hnodup
  rw [← List.map_append] at hothers
  refine ⟨?_, ?_, ?_, ?_, ?_, ?_, ?_⟩
  · simpa only [MemoryRunQueue.owners, hthreads] using hq.owners
  · simpa only [MemoryRunQueue.owners, hthreads] using hq.claimed
  · simpa only [hruns] using hq.tasks
  · simpa only [hruns] using hq.active
  · cases busy
    · exact hq.items
    · refine List.nodup_cons.mpr ⟨fun hmem => ?_, hq.items⟩
      obtain ⟨x, hx, hid⟩ := List.mem_map.mp hmem
      exact hout x hx hid
  · intro r hr
    obtain ⟨hnot, hnotask⟩ := hq.delayed r hr
    refine ⟨fun hmem => ?_, by rwa [hruns]⟩
    obtain ⟨x, hx, rfl⟩ := List.mem_map.mp hmem
    rcases hitems x hx with ⟨-, rfl⟩ | hx
    · exact hnotask (List.mem_map.mpr ⟨_, htask, rfl⟩)
    · exact hnot (List.mem_map.mpr ⟨x, hx, rfl⟩)
  · intro task hmem x hx hid
    have hcases : task = ⟨consumer, item, .answered busy⟩ ∨ task ∈ before ++ after := by
      simp only [List.mem_append, List.mem_cons] at hmem ⊢
      tauto
    rcases hcases with rfl | hother
    · rcases hitems x hx with ⟨rfl, rfl⟩ | hx
      · exact ⟨rfl, rfl⟩
      · exact absurd hid (hout x hx)
    · have hold : task ∈ q.running := by
        rw [hrunning]
        simp only [List.mem_append, List.mem_cons] at hother ⊢
        tauto
      rcases hitems x hx with ⟨-, rfl⟩ | hx
      · exact absurd (List.mem_map.mpr ⟨task, hother, hid.symm⟩) (List.nodup_cons.mp hothers).1
      · exact hq.putBack task hold x hx hid

theorem Owned.settle {consumer : ℕ} {item : QueueItem} {busy deferred : Bool}
    {before after : List QueueTask} (hq : q.Owned)
    (hrunning : q.running = before ++ ⟨consumer, item, .answered busy⟩ :: after) :
    Owned { q with
      active := q.active.filter (· ≠ item.runId)
      running := before ++ after
      claimedThreads := if deferred then q.claimedThreads
        else q.claimedThreads.filter (· ≠ item.threadId)
      deferred := if deferred then q.deferred ++ [(consumer, item.threadId)]
        else q.deferred.filter (· ≠ (consumer, item.threadId))
      waiters := [] } := by
  have hsub : ∀ task ∈ before ++ after, task ∈ q.running := by
    intro task hmem
    rw [hrunning]
    simp only [List.mem_append, List.mem_cons] at hmem ⊢
    tauto
  have hperm : q.running.Perm (⟨consumer, item, .answered busy⟩ :: (before ++ after)) := by
    rw [hrunning]
    exact List.perm_middle
  have hruns : (q.running.map QueueTask.runId).Perm
      (item.runId :: (before ++ after).map QueueTask.runId) := hperm.map _
  have howners : q.owners.Perm
      (item.threadId :: ((before ++ after).map QueueTask.threadId ++ q.deferred.map Prod.snd)) :=
    (hperm.map QueueTask.threadId).append_right _
  obtain ⟨hnotask, htasks⟩ := List.nodup_cons.mp (hruns.nodup_iff.mp hq.tasks)
  obtain ⟨hnoowner, hrest⟩ := List.nodup_cons.mp (howners.nodup_iff.mp hq.owners)
  have hothers : q.deferred.filter (fun d => decide (d ≠ (consumer, item.threadId))) =
      q.deferred := by
    refine List.filter_eq_self.mpr fun d hd => decide_eq_true fun heq => hnoowner ?_
    subst heq
    exact List.mem_append_right _ (List.mem_map.mpr ⟨_, hd, rfl⟩)
  have hlast : ((before ++ after).map QueueTask.threadId ++
      (q.deferred ++ [(consumer, item.threadId)]).map Prod.snd).Perm q.owners := by
    have hmap : (q.deferred ++ [(consumer, item.threadId)]).map Prod.snd =
        q.deferred.map Prod.snd ++ [item.threadId] := by
      simp
    rw [hmap, ← List.append_assoc]
    exact (List.perm_append_singleton _ _).trans howners.symm
  refine ⟨?_, ?_, htasks, ?_, hq.items, ?_, ?_⟩
  · cases deferred
    · simpa only [MemoryRunQueue.owners, Bool.false_eq_true, if_false, hothers] using hrest
    · exact hlast.nodup_iff.mpr hq.owners
  · intro t
    cases deferred
    · simp only [Bool.false_eq_true, if_false, hothers, List.mem_filter, decide_eq_true_eq]
      rw [hq.claimed, howners.mem_iff, List.mem_cons]
      constructor
      · rintro ⟨heq | hmem, hne⟩
        · exact absurd heq hne
        · exact hmem
      · intro hmem
        refine ⟨.inr hmem, ?_⟩
        rintro rfl
        exact hnoowner hmem
    · exact (hq.claimed t).trans hlast.mem_iff.symm
  · intro r
    simp only [List.mem_filter, decide_eq_true_eq, hq.active, hruns.mem_iff, List.mem_cons]
    constructor
    · rintro ⟨heq | hmem, hne⟩
      · exact absurd heq hne
      · exact hmem
    · intro hmem
      refine ⟨.inr hmem, ?_⟩
      rintro rfl
      exact hnotask hmem
  · intro r hr
    obtain ⟨hout, hno⟩ := hq.delayed r hr
    exact ⟨hout, fun hmem => hno (hruns.mem_iff.mpr (List.mem_cons_of_mem _ hmem))⟩
  · exact fun task hmem x hx hid => hq.putBack task (hsub task hmem) x hx hid

theorem Owned.release {keep : ℕ × ThreadId → Bool} {consumers : List PartitionedConsumer}
    (hq : q.Owned) : Owned { q with
      consumers
      claimedThreads := q.claimedThreads.filter fun t =>
        q.deferred.all fun d => decide (d.2 = t → keep d = true)
      deferred := q.deferred.filter keep
      waiters := [] } := by
  obtain ⟨htasks, hdeferred, hdisjoint⟩ := List.nodup_append.mp hq.owners
  refine ⟨?_, ?_, hq.tasks, hq.active, hq.items, hq.delayed, hq.putBack⟩
  · refine hq.owners.sublist ?_
    exact (List.filter_sublist.map Prod.snd).append_left _
  · intro t
    simp only [List.mem_filter, List.all_eq_true, decide_eq_true_eq, hq.claimed,
      MemoryRunQueue.owners, List.mem_append]
    constructor
    · rintro ⟨hrun | hmem, hkept⟩
      · exact .inl hrun
      · obtain ⟨d, hd, rfl⟩ := List.mem_map.mp hmem
        exact .inr (List.mem_map.mpr ⟨d, List.mem_filter.mpr ⟨hd, hkept d hd rfl⟩, rfl⟩)
    · rintro (hrun | hmem)
      · refine ⟨.inl hrun, fun d hd heq => ?_⟩
        exact absurd heq.symm (hdisjoint t hrun d.2 (List.mem_map.mpr ⟨d, hd, rfl⟩))
      · obtain ⟨d, hd, rfl⟩ := List.mem_map.mp hmem
        obtain ⟨hd, hkeep⟩ := List.mem_filter.mp hd
        refine ⟨.inr (List.mem_map.mpr ⟨d, hd, rfl⟩), fun e he heq => ?_⟩
        obtain rfl := List.inj_on_of_nodup_map hdeferred he hd heq
        exact hkeep

theorem Moves.owned (hq : q.Owned) (h : q.Moves q') : q'.Owned := by
  cases h with
  | stay => exact hq
  | hold held hactive hdelayed hitems =>
    refine ⟨hq.owners, hq.claimed, hq.tasks, hq.active, hq.items, fun r hr => ?_, hq.putBack⟩
    have hcases : held.run.runId = r ∨ q.delayed.contains r = true := by
      simpa [Table.write] using hr
    rcases hcases with rfl | hr
    · exact ⟨hitems, fun hmem => hactive ((hq.active _).mpr hmem)⟩
    · exact hq.delayed r hr
  | push run hactive hdelayed hitems =>
    have haccepted : (q.accept run).Owned :=
      ⟨hq.owners, hq.claimed, hq.tasks, hq.active, hq.items, hq.delayed, hq.putBack⟩
    exact haccepted.push hactive hdelayed hitems
  | due runId held hheld =>
    have hid : held.run.runId = runId := Table.key_of_get? (t := q.delayed) hheld
    have hthere : q.delayed.contains runId = true := by
      simp [OrderedMap.contains, hheld]
    obtain ⟨hout, hnotask⟩ := hq.delayed runId hthere
    have herased : Owned { q with delayed := q.delayed.erase runId } := by
      refine ⟨hq.owners, hq.claimed, hq.tasks, hq.active, hq.items, fun r hr => ?_, hq.putBack⟩
      refine hq.delayed r ?_
      unfold OrderedMap.contains at hr ⊢
      rw [Table.get?_erase] at hr
      split_ifs at hr
      · cases hr
      · exact hr
    refine herased.push ?_ ?_ ?_
    · rw [hid]
      exact fun hmem => hnotask ((hq.active _).mp hmem)
    · rw [OrderedMap.contains_eq_false_iff, Table.get?_erase, if_pos hid.symm]
    · rw [hid]
      exact hout
  | consume concurrency =>
    exact ⟨hq.owners, hq.claimed, hq.tasks, hq.active, hq.items, hq.delayed, hq.putBack⟩
  | take consumer item before after hawake hitems hbefore hitem => exact hq.take hitems hitem
  | park consumer hawake hnone =>
    exact ⟨hq.owners, hq.claimed, hq.tasks, hq.active, hq.items, hq.delayed, hq.putBack⟩
  | putBack consumer item before after hrunning => exact hq.answer hrunning true q.left
  | leave consumer item before after hrunning => exact hq.answer hrunning false (q.left ++ [item])
  | settle consumer item busy deferred before after hrunning => exact hq.settle hrunning
  | release keep consumers hconsumers => exact hq.release

end MemoryRunQueue
end Skein
