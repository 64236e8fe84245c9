import Mathlib.Data.Finset.Card
import Skein.QueueMoves

/-!
# Accounts, order and wake-ups of the queue

Invariants over the moves of the queue. What an `enqueue` took in is delayed or became visible.
The account: what became visible is in the queue, in the hands of a task or has left. The order: among the runs of one thread the queue is sorted,
and nothing is ahead of a run that was started but what has left. The wake-ups: while a consumer
is parked, no more runs may be taken than there are consumers about to look for one.
-/
namespace Skein.MemoryRunQueue
variable {q q' : MemoryRunQueue}

/-- A row of a table is its other rows and one more. -/
theorem values_perm_erase {κ α : Type*} [DecidableEq κ] {key : α → κ} {t : Table κ α key} {k : κ}
    {v : α} (h : t.get? k = some v) : t.values.Perm (v :: (t.erase k).values) := by
  have hkey : key v = k := Table.key_of_get? h
  have hmem : ∀ u, u ∈ (t.erase k).values ↔ k ≠ key u ∧ u ∈ t.values := by
    intro u
    rw [Table.mem_values_iff, Table.mem_values_iff, Table.get?_erase]
    split_ifs with hu <;> simp [hu]
  refine (List.perm_ext_iff_of_nodup (t.nodup_map_key.of_map _) ?_).mpr fun u => ?_
  · refine List.nodup_cons.mpr ⟨fun hv => ((hmem v).mp hv).1 hkey.symm, ?_⟩
    exact (t.erase k).nodup_map_key.of_map _
  · rw [List.mem_cons, hmem]
    constructor
    · intro hu
      by_cases hku : k = key u
      · rw [Table.mem_values_iff, ← hku, h] at hu
        exact .inl (Option.some.inj hu).symm
      · exact .inr ⟨hku, hu⟩
    · rintro (rfl | ⟨-, hu⟩)
      · rwa [Table.mem_values_iff, hkey]
      · exact hu

/-- What was taken in waits for its time or became visible. -/
def Taken (q : MemoryRunQueue) : Prop :=
  q.accepted.Perm (q.delayed.values.map DelayedRun.run ++ q.visible)

theorem Moves.taken (hq : q.Taken) (h : q.Moves q') : q'.Taken := by
  cases h with
  | hold held hactive hdelayed hitems =>
    have hvalues : (q.delayed.write held).values = q.delayed.values ++ [held] :=
      Table.values_write_new hdelayed
    show (q.accepted ++ [held.run]).Perm
      ((q.delayed.write held).values.map DelayedRun.run ++ q.visible)
    rw [hvalues, List.map_append, List.append_assoc]
    refine (List.perm_append_singleton _ _).trans ((hq.cons _).trans ?_)
    exact List.perm_middle.symm
  | push run hactive hdelayed hitems =>
    show (q.accepted ++ [run]).Perm (q.delayed.values.map DelayedRun.run ++ (q.visible ++ [run]))
    rw [← List.append_assoc]
    exact hq.append_right [run]
  | due runId held hheld =>
    have hvalues := (values_perm_erase hheld).map DelayedRun.run
    have hrun := List.perm_append_singleton held.run
      ((q.delayed.erase runId).values.map DelayedRun.run ++ q.visible)
    show q.accepted.Perm
      ((q.delayed.erase runId).values.map DelayedRun.run ++ (q.visible ++ [held.run]))
    rw [← List.append_assoc]
    exact hq.trans ((hvalues.append_right q.visible).trans hrun.symm)
  | stay | consume | take | park | putBack | leave | settle | release => exact hq

/-- Where the runs that became visible are. -/
def entries (q : MemoryRunQueue) : List QueueItem := q.items ++ q.processing ++ q.left

structure Accounted (q : MemoryRunQueue) : Prop where
  conserved : (q.entries.map QueueItem.seq).Perm (List.range q.visible.length)
  recorded : ∀ x ∈ q.entries, q.visible[x.seq]? = some x.run
  starts : ∀ x ∈ q.started, q.visible[x.seq]? = some x.run

theorem processing_append (before after : List QueueTask) (task : QueueTask) :
    ((before ++ task :: after).filter QueueTask.isProcessing).map QueueTask.item =
      (before.filter QueueTask.isProcessing).map QueueTask.item ++
        (if task.isProcessing then [task.item] else []) ++
        (after.filter QueueTask.isProcessing).map QueueTask.item := by
  rw [List.filter_append, List.filter_cons]
  split_ifs <;> simp

/-- An account that only moved its entries around. -/
theorem Accounted.of_perm (hq : q.Accounted) (hperm : q'.entries.Perm q.entries)
    (hvisible : q'.visible = q.visible)
    (hstarted : ∀ x ∈ q'.started, x ∈ q.started ∨ x ∈ q.entries) : q'.Accounted where
  conserved := hvisible ▸ (hperm.map _).trans hq.conserved
  recorded x hx := hvisible ▸ hq.recorded x (hperm.mem_iff.mp hx)
  starts x hx := by
    rw [hvisible]
    rcases hstarted x hx with hold | hnew
    · exact hq.starts x hold
    · exact hq.recorded x hnew

theorem Accounted.push (hq : q.Accounted) (run : QueuedRun) : (q.push run).Accounted where
  conserved := by
    have hperm : ((q.push run).entries.map QueueItem.seq).Perm
        (q.visible.length :: q.entries.map QueueItem.seq) := by
      simp only [entries, processing, MemoryRunQueue.push, List.map_append, List.map_cons,
        List.append_assoc, List.singleton_append]
      exact List.perm_middle
    refine hperm.trans ?_
    simp only [MemoryRunQueue.push, List.length_append, List.length_singleton, List.range_succ]
    exact (hq.conserved.cons _).trans (List.perm_append_singleton _ _).symm
  recorded x hx := by
    have hcases : x = ⟨run, q.visible.length⟩ ∨ x ∈ q.entries := by
      simp only [entries, processing, MemoryRunQueue.push, List.mem_append,
        List.mem_singleton] at hx ⊢
      tauto
    rcases hcases with rfl | hold
    · simp [MemoryRunQueue.push]
    · have hget := hq.recorded x hold
      have hlt := (List.getElem?_eq_some_iff.mp hget).1
      rw [MemoryRunQueue.push, List.getElem?_append_left hlt]
      exact hget
  starts x hx := by
    have hget := hq.starts x hx
    have hlt := (List.getElem?_eq_some_iff.mp hget).1
    rw [MemoryRunQueue.push, List.getElem?_append_left hlt]
    exact hget

theorem Moves.accounted (hq : q.Accounted) (h : q.Moves q') : q'.Accounted := by
  cases h with
  | stay => exact hq
  | push run hactive hdelayed hitems =>
    have haccepted : (q.accept run).Accounted :=
      hq.of_perm (List.Perm.refl _) rfl fun x hx => .inl hx
    exact haccepted.push run
  | due runId held hheld =>
    have herased : Accounted { q with delayed := q.delayed.erase runId } :=
      hq.of_perm (List.Perm.refl _) rfl fun x hx => .inl hx
    exact herased.push held.run
  | hold held hactive hdelayed hitems =>
    exact hq.of_perm (List.Perm.refl _) rfl fun x hx => .inl hx
  | consume concurrency => exact hq.of_perm (List.Perm.refl _) rfl fun x hx => .inl hx
  | park consumer hawake hnone => exact hq.of_perm (List.Perm.refl _) rfl fun x hx => .inl hx
  | release keep consumers hconsumers =>
    exact hq.of_perm (List.Perm.refl _) rfl fun x hx => .inl hx
  | take consumer item before after hawake hitems hbefore hitem =>
    refine hq.of_perm ?_ rfl fun x hx => ?_
    · refine List.perm_iff_count.mpr fun x => ?_
      simp only [entries, processing, hitems, processing_append, QueueTask.isProcessing,
        List.count_append, List.count_cons, List.count_nil, List.filter_nil, List.map_nil,
        decide_true, if_true]
      omega
    · rcases List.mem_append.mp hx with hold | hnew
      · exact .inl hold
      · obtain rfl := List.mem_singleton.mp hnew
        exact .inr (by simp [entries, hitems])
  | putBack consumer item before after hrunning =>
    refine hq.of_perm (List.perm_iff_count.mpr fun x => ?_) rfl fun x hx => .inl hx
    simp only [entries, processing, hrunning, processing_append, QueueTask.isProcessing,
      List.count_append, List.count_cons, List.count_nil, decide_true, if_true, reduceCtorEq,
      decide_false, Bool.false_eq_true, if_false]
    omega
  | leave consumer item before after hrunning =>
    refine hq.of_perm (List.perm_iff_count.mpr fun x => ?_) rfl fun x hx => .inl hx
    simp only [entries, processing, hrunning, processing_append, QueueTask.isProcessing,
      List.count_append, List.count_cons, List.count_nil, decide_true, if_true, reduceCtorEq,
      decide_false, Bool.false_eq_true, if_false]
    omega
  | settle consumer item busy deferred before after hrunning =>
    refine hq.of_perm ?_ rfl fun x hx => .inl hx
    simp [entries, processing, hrunning, QueueTask.isProcessing]

structure Ordered (q : MemoryRunQueue) : Prop where
  sorted : q.items.Pairwise fun x y => x.threadId = y.threadId → x.seq < y.seq
  ahead : ∀ x ∈ q.processing, ∀ y ∈ q.items, x.threadId = y.threadId → x.seq < y.seq
  starts : q.started.Pairwise fun x y => x.threadId = y.threadId → x.seq ≤ y.seq
  started : ∀ s ∈ q.started, ∀ y ∈ q.items ++ q.processing, s.threadId = y.threadId →
    s.seq ≤ y.seq

theorem mem_processing {x : QueueItem} :
    x ∈ q.processing ↔ ∃ task ∈ q.running, task.phase = .processing ∧ task.item = x := by
  simp [processing, QueueTask.isProcessing, and_assoc]

/-- The thread of a run in the hands of a task is claimed. -/
theorem Owned.claimed_of_processing (hq : q.Owned) {x : QueueItem} (hx : x ∈ q.processing) :
    x.threadId ∈ q.claimedThreads := by
  obtain ⟨task, htask, -, rfl⟩ := mem_processing.mp hx
  exact (hq.claimed _).mpr (List.mem_append_left _ (List.mem_map.mpr ⟨task, htask, rfl⟩))

theorem Ordered.push (hq : q.Ordered) (haccount : q.Accounted) (run : QueuedRun) :
    (q.push run).Ordered := by
  have hlast : ∀ x ∈ q.entries, x.seq < q.visible.length := fun x hx =>
    (List.getElem?_eq_some_iff.mp (haccount.recorded x hx)).1
  refine ⟨?_, ?_, hq.starts, ?_⟩
  · refine List.pairwise_append.mpr ⟨hq.sorted, List.pairwise_singleton _ _, fun x hx y hy _ => ?_⟩
    obtain rfl := List.mem_singleton.mp hy
    exact hlast x (by simp [entries, hx])
  · intro x hx y hy hthread
    rcases List.mem_append.mp hy with hold | hnew
    · exact hq.ahead x hx y hold hthread
    · obtain rfl := List.mem_singleton.mp hnew
      have hx' : x ∈ q.processing := hx
      exact hlast x (by simp [entries, hx'])
  · intro s hs y hy hthread
    have hcases : y = ⟨run, q.visible.length⟩ ∨ y ∈ q.items ++ q.processing := by
      simp only [MemoryRunQueue.push, processing, List.mem_append, List.mem_singleton] at hy ⊢
      tauto
    rcases hcases with rfl | hold
    · have hlt := (List.getElem?_eq_some_iff.mp (haccount.starts s hs)).1
      exact Nat.le_of_lt hlt
    · exact hq.started s hs y hold hthread

/-- An order among fewer runs. -/
theorem Ordered.of_subset (hq : q.Ordered) (hitems : q'.items.Sublist q.items)
    (hprocessing : ∀ x ∈ q'.processing, x ∈ q.processing) (hstarted : q'.started = q.started) :
    q'.Ordered where
  sorted := hq.sorted.sublist hitems
  ahead x hx y hy := hq.ahead x (hprocessing x hx) y (hitems.subset hy)
  starts := hstarted ▸ hq.starts
  started s hs y hy := by
    refine hq.started s (hstarted ▸ hs) y ?_
    rcases List.mem_append.mp hy with hout | hin
    · exact List.mem_append_left _ (hitems.subset hout)
    · exact List.mem_append_right _ (hprocessing y hin)

theorem Ordered.take {consumer : ℕ} {item : QueueItem} {before after : List QueueItem}
    (howned : q.Owned) (hq : q.Ordered) (hitems : q.items = before ++ item :: after)
    (hbefore : ∀ x ∈ before, x.threadId ∈ q.claimedThreads)
    (hitem : item.threadId ∉ q.claimedThreads) : Ordered { q with
      items := before ++ after
      active := q.active.insert item.runId
      claimedThreads := q.claimedThreads.insert item.threadId
      running := q.running ++ [⟨consumer, item, .processing⟩]
      started := q.started ++ [item] } := by
  obtain ⟨hbeforeSorted, hcons, hcross⟩ := List.pairwise_append.mp (hitems ▸ hq.sorted)
  obtain ⟨hfirst, hafterSorted⟩ := List.pairwise_cons.mp hcons
  have hsub : ∀ y ∈ before ++ after, y ∈ q.items := by
    intro y hy
    rw [hitems]
    simp only [List.mem_append, List.mem_cons] at hy ⊢
    tauto
  have hrest : ∀ y ∈ before ++ after, item.threadId = y.threadId → item.seq < y.seq := by
    intro y hy hthread
    rcases List.mem_append.mp hy with hpassed | hlater
    · exact absurd (hthread ▸ hbefore y hpassed) hitem
    · exact hfirst y hlater hthread
  have hprocessing : ∀ x ∈ q.processing, item.threadId ≠ x.threadId := fun x hx heq =>
    hitem (heq ▸ howned.claimed_of_processing hx)
  have hnow : ∀ x, x ∈ ((q.running ++ [(⟨consumer, item, .processing⟩ : QueueTask)]).filter
      QueueTask.isProcessing).map QueueTask.item → x ∈ q.processing ∨ x = item := by
    intro x hx
    simpa [processing_append, QueueTask.isProcessing, processing] using hx
  have hitemStarted : ∀ s ∈ q.started, s.threadId = item.threadId → s.seq ≤ item.seq :=
    fun s hs => hq.started s hs item (List.mem_append_left _ (by simp [hitems]))
  refine ⟨?_, ?_, ?_, ?_⟩
  · refine List.pairwise_append.mpr ⟨hbeforeSorted, hafterSorted, fun x hx y hy => ?_⟩
    exact hcross x hx y (List.mem_cons_of_mem _ hy)
  · intro x hx y hy
    rcases hnow x hx with hold | rfl
    · exact hq.ahead x hold y (hsub y hy)
    · exact hrest y hy
  · refine List.pairwise_append.mpr ⟨hq.starts, List.pairwise_singleton _ _, fun s hs x hx => ?_⟩
    obtain rfl := List.mem_singleton.mp hx
    exact hitemStarted s hs
  · intro s hs y hy hthread
    rcases List.mem_append.mp hs with hold | hnew
    · rcases List.mem_append.mp hy with hout | hin
      · exact hq.started s hold y (List.mem_append_left _ (hsub y hout)) hthread
      · rcases hnow y hin with hin | rfl
        · exact hq.started s hold y (List.mem_append_right _ hin) hthread
        · exact hitemStarted s hold hthread
    · obtain rfl := List.mem_singleton.mp hnew
      rcases List.mem_append.mp hy with hout | hin
      · exact Nat.le_of_lt (hrest y hout hthread)
      · rcases hnow y hin with hin | rfl
        · exact absurd hthread (hprocessing y hin)
        · exact Nat.le_refl _

theorem Ordered.putBack {consumer : ℕ} {item : QueueItem} {before after : List QueueTask}
    (howned : q.Owned) (hq : q.Ordered)
    (hrunning : q.running = before ++ ⟨consumer, item, .processing⟩ :: after) : Ordered { q with
      items := item :: q.items
      running := before ++ ⟨consumer, item, .answered true⟩ :: after } := by
  have hmem : item ∈ q.processing :=
    mem_processing.mpr ⟨⟨consumer, item, .processing⟩, by simp [hrunning], rfl, rfl⟩
  have hsplit := howned.owners
  simp only [owners, hrunning, List.map_append, List.map_cons, List.append_assoc] at hsplit
  have hothers := (List.nodup_cons.mp (List.perm_middle.nodup_iff.mp hsplit)).1
  have hnow : ∀ x, x ∈ ((before ++ ⟨consumer, item, .answered true⟩ :: after).filter
      QueueTask.isProcessing).map QueueTask.item →
      x ∈ q.processing ∧ x.threadId ≠ item.threadId := by
    intro x hx
    simp only [List.mem_map, List.mem_filter, List.mem_append, List.mem_cons,
      QueueTask.isProcessing, decide_eq_true_eq] at hx
    obtain ⟨task, ⟨htask, hphase⟩, rfl⟩ := hx
    have hother : task ∈ before ∨ task ∈ after := by
      rcases htask with hin | rfl | hin
      · exact .inl hin
      · cases hphase
      · exact .inr hin
    refine ⟨mem_processing.mpr ⟨task, ?_, hphase, rfl⟩, fun heq => hothers ?_⟩
    · rw [hrunning]
      simp only [List.mem_append, List.mem_cons]
      tauto
    · have hthread : (⟨consumer, item, .processing⟩ : QueueTask).threadId = task.threadId :=
        heq.symm
      rw [hthread]
      rcases hother with hin | hin
      · exact List.mem_append_left _ (List.mem_map.mpr ⟨task, hin, rfl⟩)
      · refine List.mem_append_right _ (List.mem_append_left _ ?_)
        exact List.mem_map.mpr ⟨task, hin, rfl⟩
  refine ⟨?_, ?_, hq.starts, ?_⟩
  · exact List.pairwise_cons.mpr ⟨hq.ahead item hmem, hq.sorted⟩
  · intro x hx y hy hthread
    obtain ⟨hold, hne⟩ := hnow x hx
    rcases List.mem_cons.mp hy with rfl | hout
    · exact absurd hthread hne
    · exact hq.ahead x hold y hout hthread
  · intro s hs y hy hthread
    refine hq.started s hs y ?_ hthread
    rcases List.mem_append.mp hy with hout | hin
    · rcases List.mem_cons.mp hout with rfl | hout
      · exact List.mem_append_right _ hmem
      · exact List.mem_append_left _ hout
    · exact List.mem_append_right _ (hnow y hin).1

theorem Moves.ordered (howned : q.Owned) (haccount : q.Accounted) (hq : q.Ordered)
    (h : q.Moves q') : q'.Ordered := by
  cases h with
  | stay => exact hq
  | push run hactive hdelayed hitems =>
    have haccepted : (q.accept run).Ordered :=
      hq.of_subset (List.Sublist.refl _) (fun _ hx => hx) rfl
    have hacceptedAccount : (q.accept run).Accounted :=
      haccount.of_perm (List.Perm.refl _) rfl fun x hx => .inl hx
    exact haccepted.push hacceptedAccount run
  | due runId held hheld =>
    have herased : Ordered { q with delayed := q.delayed.erase runId } :=
      hq.of_subset (List.Sublist.refl _) (fun _ hx => hx) rfl
    have herasedAccount : Accounted { q with delayed := q.delayed.erase runId } :=
      haccount.of_perm (List.Perm.refl _) rfl fun x hx => .inl hx
    exact herased.push herasedAccount held.run
  | hold held hactive hdelayed hitems =>
    exact hq.of_subset (List.Sublist.refl _) (fun _ hx => hx) rfl
  | consume concurrency => exact hq.of_subset (List.Sublist.refl _) (fun _ hx => hx) rfl
  | park consumer hawake hnone => exact hq.of_subset (List.Sublist.refl _) (fun _ hx => hx) rfl
  | release keep consumers hconsumers =>
    exact hq.of_subset (List.Sublist.refl _) (fun _ hx => hx) rfl
  | settle consumer item busy deferred before after hrunning =>
    refine hq.of_subset (List.Sublist.refl _) (fun x hx => ?_) rfl
    obtain ⟨task, htask, hphase, rfl⟩ := mem_processing.mp hx
    refine mem_processing.mpr ⟨task, ?_, hphase, rfl⟩
    rw [hrunning]
    simp only [List.mem_append, List.mem_cons] at htask ⊢
    tauto
  | leave consumer item before after hrunning =>
    refine hq.of_subset (List.Sublist.refl _) (fun x hx => ?_) rfl
    simp only [processing, hrunning, processing_append, QueueTask.isProcessing, List.mem_append,
      reduceCtorEq, decide_false, Bool.false_eq_true, if_false] at hx ⊢
    tauto
  | take consumer item before after hawake hitems hbefore hitem =>
    exact hq.take howned hitems hbefore hitem
  | putBack consumer item before after hrunning => exact hq.putBack howned hrunning

/-- The consumers about to look for a run. -/
def awakeConsumers (q : MemoryRunQueue) : Finset ℕ :=
  (Finset.range q.consumers.length).filter fun c => q.awake c = true

/-- The queued runs that may be taken. -/
def eligibleRuns (q : MemoryRunQueue) : ℕ := q.items.countP q.eligible

/-- The tasks a consumer may have; there are none of consumers that do not exist. -/
def concurrency (q : MemoryRunQueue) (i : ℕ) : ℕ :=
  (q.consumers[i]?.map PartitionedConsumer.concurrency).getD 0

structure Attended (q : MemoryRunQueue) : Prop where
  bounded : ∀ i, q.runningSize i ≤ q.concurrency i
  parked : ∀ i ∈ q.waiters, q.hasCapacity i = true
  unique : q.waiters.Nodup
  woken : q.waiters ≠ [] → q.eligibleRuns ≤ q.awakeConsumers.card

theorem hasCapacity_iff {i : ℕ} : q.hasCapacity i = true ↔ ∃ c : PartitionedConsumer,
    q.consumers[i]? = some c ∧ c.consuming = true ∧ q.runningSize i < c.concurrency := by
  simp [hasCapacity, Option.any_eq_true]

theorem mem_awakeConsumers {i : ℕ} :
    i ∈ q.awakeConsumers ↔ q.hasCapacity i = true ∧ i ∉ q.waiters := by
  simp only [awakeConsumers, Finset.mem_filter, Finset.mem_range, awake, Bool.and_eq_true,
    decide_eq_true_eq, and_iff_right_iff_imp]
  rintro ⟨hcapacity, -⟩
  obtain ⟨c, hc, -⟩ := hasCapacity_iff.mp hcapacity
  exact (List.getElem?_eq_some_iff.mp hc).1

theorem runningSize_append (before after : List QueueTask) (task : QueueTask) (i : ℕ) :
    (before ++ task :: after).countP (fun t => decide (t.consumer = i)) =
      before.countP (fun t => decide (t.consumer = i)) +
        after.countP (fun t => decide (t.consumer = i)) + if task.consumer = i then 1 else 0 := by
  rw [List.countP_append, List.countP_cons]
  by_cases h : task.consumer = i
  · simp [h, Nat.add_assoc]
  · simp [h]

/-- A consumer that is woken is awake; the one that is parked on its own is not the last. -/
theorem Attended.push (hq : q.Attended) (run : QueuedRun) : (q.push run).Attended where
  bounded := hq.bounded
  parked i hi := hq.parked i (List.mem_of_mem_tail hi)
  unique := hq.unique.sublist (List.tail_sublist _)
  woken hne := by
    have heligible : (q.push run).eligibleRuns ≤ q.eligibleRuns + 1 := by
      show (q.items ++ [(⟨run, q.visible.length⟩ : QueueItem)]).countP q.eligible ≤ _
      rw [List.countP_append, List.countP_singleton, eligibleRuns]
      split_ifs <;> omega
    cases hwaiters : q.waiters with
    | nil => simp [MemoryRunQueue.push, hwaiters] at hne
    | cons first rest =>
      have hunique := hq.unique
      rw [hwaiters] at hunique
      have hfirst : first ∉ q.awakeConsumers := by
        rw [mem_awakeConsumers, hwaiters]
        simp
      have hsub : insert first q.awakeConsumers ⊆ (q.push run).awakeConsumers := by
        intro i hi
        refine mem_awakeConsumers.mpr ?_
        show q.hasCapacity i = true ∧ i ∉ q.waiters.tail
        rw [hwaiters, List.tail_cons]
        rcases Finset.mem_insert.mp hi with rfl | hi
        · exact ⟨hq.parked _ (by simp [hwaiters]), (List.nodup_cons.mp hunique).1⟩
        · obtain ⟨hcapacity, hout⟩ := mem_awakeConsumers.mp hi
          rw [hwaiters] at hout
          exact ⟨hcapacity, fun hmem => hout (List.mem_cons_of_mem _ hmem)⟩
      have hcard := Finset.card_le_card hsub
      rw [Finset.card_insert_of_notMem hfirst] at hcard
      have hbefore := hq.woken (by simp [hwaiters])
      omega

/-- With nobody parked the loops look for themselves. -/
theorem Attended.of_woken
    (hbounded : ∀ i, q.runningSize i ≤ q.concurrency i) (hwaiters : q.waiters = []) :
    q.Attended where
  bounded := hbounded
  parked i hi := by simp [hwaiters] at hi
  unique := hwaiters ▸ List.nodup_nil
  woken hne := absurd hwaiters hne

/-- A step at which no task comes or goes and the parked and the open consumers stay. -/
theorem Attended.of_same (hq : q.Attended) (hconsumers : q'.consumers = q.consumers)
    (hsize : ∀ i, q'.runningSize i = q.runningSize i) (hwaiters : q'.waiters = q.waiters)
    (heligible : q'.eligibleRuns = q.eligibleRuns) : q'.Attended := by
  have hcapacity : ∀ i, q'.hasCapacity i = q.hasCapacity i := by
    intro i
    rw [hasCapacity, hasCapacity, hconsumers, hsize]
  have hawake : q'.awakeConsumers = q.awakeConsumers := by
    ext i
    rw [mem_awakeConsumers, mem_awakeConsumers, hcapacity, hwaiters]
  refine ⟨fun i => ?_, fun i hi => ?_, hwaiters ▸ hq.unique, fun hne => ?_⟩
  · rw [hsize, concurrency, hconsumers]
    exact hq.bounded i
  · rw [hcapacity]
    exact hq.parked i (hwaiters ▸ hi)
  · rw [heligible, hawake]
    exact hq.woken (hwaiters ▸ hne)

theorem Attended.consume (hq : q.Attended) (n : ℕ) :
    Attended { q with consumers := q.consumers ++ [⟨n, true⟩] } := by
  have hget : ∀ (i : ℕ) (c : PartitionedConsumer), q.consumers[i]? = some c →
      (q.consumers ++ [(⟨n, true⟩ : PartitionedConsumer)])[i]? = some c := by
    intro i c hc
    rw [List.getElem?_append_left (List.getElem?_eq_some_iff.mp hc).1, hc]
  have hcapacity : ∀ i, q.hasCapacity i = true →
      hasCapacity { q with consumers := q.consumers ++ [⟨n, true⟩] } i = true := by
    intro i hi
    obtain ⟨c, hc, hrest⟩ := hasCapacity_iff.mp hi
    exact hasCapacity_iff.mpr ⟨c, hget i c hc, hrest⟩
  refine ⟨fun i => ?_, fun i hi => hcapacity i (hq.parked i hi), hq.unique, fun hne => ?_⟩
  · refine (hq.bounded i).trans ?_
    unfold concurrency
    cases hc : q.consumers[i]? with
    | none => simp
    | some c => simp only [hget i c hc, Nat.le_refl]
  · refine (hq.woken hne).trans (Finset.card_le_card fun i hi => ?_)
    obtain ⟨hi, hout⟩ := mem_awakeConsumers.mp hi
    exact mem_awakeConsumers.mpr ⟨hcapacity i hi, hout⟩

theorem Attended.take {consumer : ℕ} {item : QueueItem} {before after : List QueueItem}
    (hq : q.Attended) (hawake : q.awake consumer = true)
    (hitems : q.items = before ++ item :: after) (hitem : item.threadId ∉ q.claimedThreads)
    (hitems' : q'.items = before ++ after)
    (hclaimed' : q'.claimedThreads = q.claimedThreads.insert item.threadId)
    (hrunning' : q'.running = q.running ++ [⟨consumer, item, .processing⟩])
    (hconsumers' : q'.consumers = q.consumers) (hwaiters' : q'.waiters = q.waiters) :
    q'.Attended := by
  have hself : consumer ∈ q.awakeConsumers := by
    simpa [mem_awakeConsumers, awake] using hawake
  obtain ⟨hcapacity, hunparked⟩ := mem_awakeConsumers.mp hself
  have hsize : ∀ i, q'.runningSize i = q.runningSize i + if consumer = i then 1 else 0 := by
    intro i
    rw [runningSize, hrunning', runningSize_append, List.countP_nil, Nat.add_zero, runningSize]
  have hothers : ∀ i, i ≠ consumer → q'.hasCapacity i = q.hasCapacity i := by
    intro i hi
    rw [hasCapacity, hasCapacity, hconsumers', hsize, if_neg (Ne.symm hi), Nat.add_zero]
  refine ⟨fun i => ?_, fun i hi => ?_, hwaiters' ▸ hq.unique, fun hne => ?_⟩
  · have hbefore := hq.bounded i
    rw [hsize, concurrency, hconsumers', ← concurrency]
    split_ifs with hi
    · subst hi
      obtain ⟨c, hc, -, hlt⟩ := hasCapacity_iff.mp hcapacity
      have hconcurrency : q.concurrency consumer = c.concurrency := by simp [concurrency, hc]
      omega
    · omega
  · have hi' : i ≠ consumer := by
      rintro rfl
      exact hunparked (hwaiters' ▸ hi)
    rw [hothers i hi']
    exact hq.parked i (hwaiters' ▸ hi)
  · have hbefore := hq.woken (hwaiters' ▸ hne)
    have hfewer : q'.eligibleRuns + 1 ≤ q.eligibleRuns := by
      have hmono : ∀ x ∈ before ++ after, q'.eligible x = true → q.eligible x = true := by
        intro x _ hx
        simp only [eligible, hclaimed', decide_eq_true_eq, List.mem_insert_iff, not_or] at hx ⊢
        exact hx.2
      have hle := List.countP_mono_left hmono
      have htaken : q.eligible item = true := decide_eq_true hitem
      have hq : q.eligibleRuns = (before ++ after).countP q.eligible + 1 := by
        rw [eligibleRuns, hitems, List.countP_append, List.countP_cons_of_pos htaken,
          List.countP_append, Nat.add_assoc]
      rw [hq, eligibleRuns, hitems']
      omega
    have hcard : q.awakeConsumers.card ≤ q'.awakeConsumers.card + 1 := by
      refine (Finset.card_le_card fun i hi => ?_).trans (Finset.card_insert_le consumer _)
      by_cases heq : i = consumer
      · exact Finset.mem_insert.mpr (.inl heq)
      · obtain ⟨hi, hout⟩ := mem_awakeConsumers.mp hi
        refine Finset.mem_insert_of_mem (mem_awakeConsumers.mpr ⟨?_, hwaiters' ▸ hout⟩)
        rw [hothers i heq, hi]
    omega

theorem Moves.attended (howned : q.Owned) (hq : q.Attended) (h : q.Moves q') : q'.Attended := by
  cases h with
  | stay => exact hq
  | hold held hactive hdelayed hitems => exact hq.of_same rfl (fun _ => rfl) rfl rfl
  | push run hactive hdelayed hitems =>
    have haccepted : (q.accept run).Attended := hq.of_same rfl (fun _ => rfl) rfl rfl
    exact haccepted.push run
  | due runId held hheld =>
    have herased : Attended { q with delayed := q.delayed.erase runId } :=
      hq.of_same rfl (fun _ => rfl) rfl rfl
    exact herased.push held.run
  | consume concurrency => exact hq.consume concurrency
  | take consumer item before after hawake hitems hbefore hitem =>
    exact hq.take hawake hitems hitem rfl rfl rfl rfl rfl
  | park consumer hawake hnone =>
    have hself : consumer ∈ q.awakeConsumers := by
      simpa [mem_awakeConsumers, awake] using hawake
    obtain ⟨hcapacity, hunparked⟩ := mem_awakeConsumers.mp hself
    refine ⟨hq.bounded, fun i hi => ?_, ?_, fun _ => ?_⟩
    · rcases List.mem_append.mp hi with hold | hnew
      · exact hq.parked i hold
      · obtain rfl := List.mem_singleton.mp hnew
        exact hcapacity
    · exact (List.perm_append_singleton _ _).nodup_iff.mpr
        (List.nodup_cons.mpr ⟨hunparked, hq.unique⟩)
    · have hzero : q.eligibleRuns = 0 :=
        List.countP_eq_zero.mpr fun x hx => by
          simpa [eligible, QueueItem.threadId] using hnone x hx
      exact hzero.le.trans (Nat.zero_le _)
  | putBack consumer item before after hrunning =>
    refine hq.of_same rfl (fun i => ?_) rfl ?_
    · simp only [runningSize, hrunning, runningSize_append]
    · have hclaimed : item.threadId ∈ q.claimedThreads :=
        howned.claimed_of_processing (mem_processing.mpr ⟨⟨consumer, item, .processing⟩,
          by simp [hrunning], rfl, rfl⟩)
      show (item :: q.items).countP q.eligible = q.items.countP q.eligible
      exact List.countP_cons_of_neg (by simpa [eligible, QueueItem.threadId] using hclaimed)
  | leave consumer item before after hrunning =>
    refine hq.of_same rfl (fun i => ?_) rfl rfl
    simp only [runningSize, hrunning, runningSize_append]
  | settle consumer item busy deferred before after hrunning =>
    refine .of_woken (fun i => ?_) rfl
    have hle := hq.bounded i
    simp only [runningSize, hrunning, runningSize_append] at hle
    show (before ++ after).countP _ ≤ q.concurrency i
    rw [List.countP_append]
    omega
  | release keep consumers hconsumers =>
    refine .of_woken (fun i => ?_) rfl
    rw [concurrency, hconsumers]
    exact hq.bounded i

structure Sound (q : MemoryRunQueue) : Prop where
  taken : q.Taken
  owned : q.Owned
  accounted : q.Accounted
  ordered : q.Ordered
  attended : q.Attended

theorem Sound.step {e : QueueEvent} (hq : q.Sound) (h : memoryRunQueue.step q e = some q') :
    q'.Sound := by
  have hmoves := step_moves h
  exact ⟨hmoves.taken hq.taken, hmoves.owned hq.owned, hmoves.accounted hq.accounted,
    hmoves.ordered hq.owned hq.accounted hq.ordered, hmoves.attended hq.owned hq.attended⟩

theorem sound_empty : Sound {} where
  taken := List.Perm.refl _
  owned := by
    refine ⟨List.nodup_nil, ?_, List.nodup_nil, ?_, List.nodup_nil, ?_, ?_⟩
    · simp [owners]
    · simp
    · intro r hr
      cases hr
    · simp
  accounted := ⟨List.Perm.refl _, by simp [entries, processing], by simp⟩
  ordered := ⟨List.Pairwise.nil, by simp, List.Pairwise.nil, by simp⟩
  attended := .of_woken (fun i => Nat.zero_le _) rfl

theorem run_sound {events : List QueueEvent} (h : memoryRunQueue.run {} events = some q) :
    q.Sound :=
  Machine.run_invariant (fun _ _ _ hq hstep => hq.step hstep) sound_empty h

/-- A turn takes a run or parks the consumer. -/
theorem turn_fewer {consumer : ℕ} (h : q.turn consumer = some q') :
    q'.items.length + q'.awakeConsumers.card < q.items.length + q.awakeConsumers.card := by
  unfold turn at h
  split_ifs at h with hawake
  have hself : consumer ∈ q.awakeConsumers := by
    simpa [mem_awakeConsumers, awake] using hawake
  split at h
  · cases h
    have hsub : awakeConsumers { q with waiters := q.waiters ++ [consumer] } ⊆
        q.awakeConsumers.erase consumer := by
      intro i hi
      obtain ⟨hcapacity, hout⟩ := mem_awakeConsumers.mp hi
      simp only [List.mem_append, List.mem_singleton, not_or] at hout
      exact Finset.mem_erase.mpr ⟨hout.2, mem_awakeConsumers.mpr ⟨hcapacity, hout.1⟩⟩
    have hcard := Finset.card_le_card hsub
    have herase := Finset.card_erase_lt_of_mem hself
    show q.items.length + _ < _
    omega
  next item hfind =>
    cases h
    have hitems : (q.items.eraseP q.eligible).length < q.items.length := by
      have hmem := List.mem_of_find?_eq_some hfind
      rw [List.length_eraseP_of_mem hmem (List.find?_some hfind)]
      have hpos := List.length_pos_of_mem hmem
      omega
    refine Nat.add_lt_add_of_lt_of_le hitems (Finset.card_le_card fun i hi => ?_)
    obtain ⟨hcapacity, hout⟩ := mem_awakeConsumers.mp hi
    refine mem_awakeConsumers.mpr ⟨?_, hout⟩
    obtain ⟨c, hc, hconsuming, hlt⟩ := hasCapacity_iff.mp hcapacity
    refine hasCapacity_iff.mpr ⟨c, hc, hconsuming, Nat.lt_of_le_of_lt ?_ hlt⟩
    simp only [runningSize, List.countP_append]
    omega

theorem turns_bounded {consumers : List ℕ}
    (h : memoryRunQueue.run q (consumers.map .turn) = some q') :
    consumers.length ≤ q.items.length + q.awakeConsumers.card := by
  induction consumers generalizing q with
  | nil => exact Nat.zero_le _
  | cons c consumers ih =>
    obtain ⟨u, hu, hrun⟩ := (memoryRunQueue.run_cons_eq_some).mp h
    have hfewer := turn_fewer hu
    have hrest := ih hrun
    rw [List.length_cons]
    omega

/-- A consumer that is awake has a turn. -/
theorem turn_eq_none_iff {consumer : ℕ} : q.turn consumer = none ↔ consumer ∉ q.awakeConsumers := by
  rw [mem_awakeConsumers]
  unfold turn awake
  constructor
  · intro h
    split_ifs at h with hawake
    · split at h <;> cases h
    · simpa using hawake
  · intro h
    rw [if_neg (by simpa using h)]

/-- Who leaves the queue, leaves with an answer that is not `false`. -/
theorem step_left {e : QueueEvent} (h : memoryRunQueue.step q e = some q') :
    q'.left = q.left ∨ ∃ task consumer item answer, e = .answer task answer ∧ answer ≠ .busy ∧
      q.running[task]? = some ⟨consumer, item, .processing⟩ ∧ q'.left = q.left ++ [item] := by
  cases e with
  | answer task answer =>
    simp only [memoryRunQueue, MemoryRunQueue.answer] at h
    split at h
    next consumer item htask =>
      cases answer <;> cases h
      · exact .inr ⟨task, consumer, item, .handled, rfl, by decide, htask, rfl⟩
      · exact .inl rfl
      · exact .inr ⟨task, consumer, item, .thrown, rfl, by decide, htask, rfl⟩
    · cases h
  | enqueue run delayMs now =>
    cases h
    left
    unfold enqueue
    split_ifs <;> rfl
  | due runId now =>
    left
    simp only [memoryRunQueue, due] at h
    split at h
    · cases h
    · split_ifs at h <;> cases h <;> rfl
  | consumePartitioned concurrency =>
    left
    simp only [memoryRunQueue, consumePartitioned] at h
    split_ifs at h
    cases h
    rfl
  | turn consumer =>
    left
    simp only [memoryRunQueue, turn] at h
    split_ifs at h
    split at h <;> cases h <;> rfl
  | settle task =>
    left
    simp only [memoryRunQueue, settle] at h
    split at h
    · split_ifs at h <;> cases h <;> rfl
    · cases h
  | retry consumer threadId =>
    left
    simp only [memoryRunQueue, retry] at h
    split_ifs at h
    cases h
    rfl
  | close consumer =>
    left
    simp only [memoryRunQueue, close] at h
    split at h
    · cases h
    · simp only [foldl_releaseThread, Option.some.injEq] at h
      rw [← h]

/-- The run is delayed, queued or in the hands of a task: an `enqueue` of it is a repetition. -/
def Knows (q : MemoryRunQueue) (runId : RunId) : Prop :=
  q.delayed.contains runId = true ∨ runId ∈ q.items.map QueueItem.runId ∨
    runId ∈ q.running.map QueueTask.runId

theorem items_any_iff {runId : RunId} :
    (q.items.any fun queued => decide (queued.run.runId = runId)) = true ↔
      runId ∈ q.items.map QueueItem.runId := by
  simp [List.any_eq_true, QueueItem.runId]

theorem Owned.enqueue_known (hq : q.Owned) {run : QueuedRun} {delayMs : ℕ} {now : Timestamp}
    (h : q.Knows run.runId) : q.enqueue run delayMs now = q := by
  simp only [enqueue, items_any_iff, hq.active]
  rcases h with h | h | h <;> simp [h]

theorem Owned.enqueue_new (hq : q.Owned) {run : QueuedRun} {delayMs : ℕ} {now : Timestamp}
    (h : ¬ q.Knows run.runId) : q.enqueue run delayMs now =
      if 0 < delayMs then { q.accept run with delayed := q.delayed.write ⟨run, now + delayMs⟩ }
      else (q.accept run).push run := by
  simp only [Knows, not_or] at h
  simp only [enqueue, items_any_iff, hq.active, if_neg h.2.2, if_neg h.1, if_neg h.2.1]

theorem due_of_delayed {runId : RunId} {held : DelayedRun}
    (h : q.delayed.get? runId = some held) (now : Timestamp) :
    ∃ q', q.due runId now = some q' ∧
      (held.dueAt ≤ now → q'.visible = q.visible ++ [held.run]) := by
  simp only [due, h]
  split_ifs with hearly
  · exact ⟨_, rfl, fun hdue => absurd hearly (Nat.not_lt.mpr hdue)⟩
  · exact ⟨_, rfl, fun _ => rfl⟩

/-- A delayed run stays delayed until its own timer makes it visible. -/
theorem step_delayed {runId : RunId} {held : DelayedRun} {e : QueueEvent}
    (hheld : q.delayed.get? runId = some held) (h : memoryRunQueue.step q e = some q') :
    q'.delayed.get? runId = some held ∨ ∃ now, e = .due runId now ∧ held.dueAt ≤ now ∧
      q'.visible = q.visible ++ [held.run] := by
  cases e with
  | enqueue run delayMs now =>
    left
    obtain rfl := Option.some.inj h
    unfold enqueue
    split_ifs with hactive hdelayed hitems hdelay
    all_goals try exact hheld
    have hne : run.runId ≠ runId := by
      rintro rfl
      simp [OrderedMap.contains, hheld] at hdelayed
    show (q.delayed.write ⟨run, now + delayMs⟩).get? runId = some held
    rw [Table.get?_write, if_neg hne, hheld]
  | due other now =>
    simp only [memoryRunQueue, due] at h
    cases hother : q.delayed.get? other with
    | none => simp [hother] at h
    | some found =>
      simp only [hother] at h
      split_ifs at h with hearly <;> obtain rfl := Option.some.inj h
      · exact .inl hheld
      · by_cases heq : other = runId
        · subst heq
          obtain rfl := Option.some.inj (hother.symm.trans hheld)
          exact .inr ⟨now, rfl, Nat.not_lt.mp hearly, rfl⟩
        · left
          show (q.delayed.erase other).get? runId = some held
          rw [Table.get?_erase, if_neg heq, hheld]
  | consumePartitioned concurrency =>
    simp only [memoryRunQueue, consumePartitioned] at h
    split_ifs at h
    obtain rfl := Option.some.inj h
    exact .inl hheld
  | turn consumer =>
    simp only [memoryRunQueue, turn] at h
    split_ifs at h
    split at h <;> obtain rfl := Option.some.inj h <;> exact .inl hheld
  | answer task answer =>
    simp only [memoryRunQueue, MemoryRunQueue.answer] at h
    split at h
    · cases answer <;> obtain rfl := Option.some.inj h <;> exact .inl hheld
    · cases h
  | settle task =>
    simp only [memoryRunQueue, settle] at h
    split at h
    · split_ifs at h <;> obtain rfl := Option.some.inj h <;> exact .inl hheld
    · cases h
  | retry consumer threadId =>
    simp only [memoryRunQueue, retry] at h
    split_ifs at h
    obtain rfl := Option.some.inj h
    exact .inl hheld
  | close consumer =>
    simp only [memoryRunQueue, close] at h
    split at h
    · cases h
    · simp only [foldl_releaseThread, Option.some.injEq] at h
      rw [← h]
      exact .inl hheld

end Skein.MemoryRunQueue
namespace Skein

/-- What holds of the queue at any moment. -/
structure QueueContract (q : MemoryRunQueue) : Prop where
  /-- No run has two tasks. -/
  oneTask : ∀ (i j : ℕ) (s t : QueueTask), q.running[i]? = some s → q.running[j]? = some t →
    s.runId = t.runId → i = j
  /-- No two tasks are on one thread. -/
  oneThread : ∀ (i j : ℕ) (s t : QueueTask), q.running[i]? = some s → q.running[j]? = some t →
    s.threadId = t.threadId → i = j
  /-- An `enqueue` takes in every run the queue does not know, at once or with a delay, -/
  accepts : ∀ (run : QueuedRun) (now : Timestamp), ¬ q.Knows run.runId →
    (q.enqueue run 0 now).accepted = q.accepted ++ [run] ∧
    (q.enqueue run 0 now).visible = q.visible ++ [run] ∧
    ∀ delayMs, 0 < delayMs → (q.enqueue run delayMs now).accepted = q.accepted ++ [run] ∧
      (q.enqueue run delayMs now).delayed.get? run.runId = some ⟨run, now + delayMs⟩
  repeats : ∀ (run : QueuedRun) (delayMs : ℕ) (now : Timestamp), q.Knows run.runId →
    q.enqueue run delayMs now = q
  /-- and whatever was taken in is delayed or has become visible: -/
  taken : q.accepted.Perm (q.delayed.values.map DelayedRun.run ++ q.visible)
  /-- a delayed run has its timer, which makes it visible as soon as it fires in time, -/
  timed : ∀ (runId : RunId) (held : DelayedRun) (now : Timestamp),
    q.delayed.get? runId = some held → ∃ q', q.due runId now = some q' ∧
      (held.dueAt ≤ now → q'.visible = q.visible ++ [held.run])
  /-- and nothing but that timer ends its delay. -/
  delays : ∀ (runId : RunId) (held : DelayedRun) (e : QueueEvent) (q' : MemoryRunQueue),
    q.delayed.get? runId = some held → memoryRunQueue.step q e = some q' →
    q'.delayed.get? runId = some held ∨ ∃ now, e = .due runId now ∧ held.dueAt ≤ now ∧
      q'.visible = q.visible ++ [held.run]
  /-- Every run that became visible is queued, or in the hands of a task, or has left. -/
  conserved : (q.entries.map QueueItem.seq).Perm (List.range q.visible.length)
  named : ∀ x ∈ q.entries ++ q.started, q.visible[x.seq]? = some x.run
  /-- It leaves by an answer that is not `false`. -/
  leaves : ∀ (e : QueueEvent) (q' : MemoryRunQueue), memoryRunQueue.step q e = some q' →
    q'.left = q.left ∨ ∃ task consumer item answer, e = .answer task answer ∧ answer ≠ .busy ∧
      q.running[task]? = some ⟨consumer, item, .processing⟩ ∧ q'.left = q.left ++ [item]
  /-- The runs of a thread are started in the order they became visible; a run that was
  answered `false` is started again before any later one. -/
  starts : q.started.Pairwise fun x y => x.threadId = y.threadId → x.seq ≤ y.seq
  inTurn : ∀ x ∈ q.started, ∀ (i : ℕ) (run : QueuedRun), i < x.seq → q.visible[i]? = some run →
    run.threadId = x.threadId → ∃ y ∈ q.left, y.seq = i
  bounded : ∀ (i : ℕ) (c : PartitionedConsumer), q.consumers[i]? = some c →
    q.runningSize i ≤ c.concurrency
  /-- The turns the consumers have end, in any order. Until they have ended there are at least
  as many to come as runs that may be taken, unless nobody is parked; once they have ended, no
  open consumer below its concurrency is parked beside such a run. -/
  attended : (q.waiters ≠ [] → q.eligibleRuns ≤ q.awakeConsumers.card) ∧
    (∀ c, q.turn c ≠ none ↔ c ∈ q.awakeConsumers) ∧
    (∀ (consumers : List ℕ) (q' : MemoryRunQueue),
      memoryRunQueue.run q (consumers.map .turn) = some q' →
      consumers.length ≤ q.items.length + q.awakeConsumers.card) ∧
    ((∀ c, q.turn c = none) → ∀ i, q.hasCapacity i = true → ∀ x ∈ q.items,
      q.eligible x = false)

theorem nodup_map_getElem? {α β : Type*} {f : α → β} {l : List α} (hl : (l.map f).Nodup)
    {i j : ℕ} {a b : α} (ha : l[i]? = some a) (hb : l[j]? = some b) (hab : f a = f b) :
    i = j := by
  have hi := (List.getElem?_eq_some_iff.mp ha).1
  refine (List.getElem?_inj (by simpa using hi) hl).mp ?_
  rw [List.getElem?_map, List.getElem?_map, ha, hb, Option.map_some, Option.map_some, hab]

/-- Two runs of one thread: the first one is answered `false`, and started again before the
second one. A third run is delayed by five, and its timer fires once too early. -/
def retried : List QueueEvent :=
  [.consumePartitioned 1, .turn 0, .enqueue ⟨.of "a", .of "t"⟩ 0 0,
    .enqueue ⟨.of "b", .of "t"⟩ 0 0, .enqueue ⟨.of "c", .of "u"⟩ 5 0, .turn 0, .answer 0 .busy,
    .settle 0, .turn 0, .due (.of "c") 4, .retry 0 (.of "t"), .turn 0, .due (.of "c") 5]

end Skein
