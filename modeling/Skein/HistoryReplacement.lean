import Skein.CheckpointHistory
import Skein.TableCheckpointer

/-!
# Replacing a history never loses it

A replay into an empty thread leaves copies of exactly what it was given, and
wherever it stops it has touched no other thread. A replacement is three phases
of that kind, and in each of them one complete copy is in a thread that the phase
does not write.
-/
namespace Skein
open FaultM

/-- A task's group as pending writes. -/
def groupWrites (group : String × List (String × Value)) : List PendingWrite :=
  group.2.map fun w => ⟨group.1, w.1, w.2⟩

def CheckpointTuple.withWrites (x : CheckpointTuple) (writes : List PendingWrite) :
    CheckpointTuple :=
  { x with pendingWrites := writes }

section Holds
variable (C : ThreadCheckpointer)

/-- A copy of every tuple is listed under the thread. -/
def Complete (s : C.Store) (threadId : String) (tuples : List CheckpointTuple) : Prop :=
  ∀ x ∈ tuples, ∃ y ∈ C.list s threadId, y.Copies x

/-- The thread holds exactly the tuples. -/
structure Holds (s : C.Store) (threadId : String) (tuples : List CheckpointTuple) : Prop where
  complete : Complete C s threadId tuples
  exact : ∀ y ∈ C.list s threadId, ∃ x ∈ tuples, y.Copies x

variable {C} in
theorem Holds.congr {s s' : C.Store} {threadId : String} {tuples : List CheckpointTuple}
    (h : Holds C s threadId tuples) (hlist : C.list s' threadId = C.list s threadId) :
    Holds C s' threadId tuples := by
  refine ⟨?_, ?_⟩
  · rw [Complete, hlist]
    exact h.complete
  · rw [hlist]
    exact h.exact

/-- The threads other than `threadId` are listed as before. -/
def SameElsewhere (before after : C.Store) (threadId : String) : Prop :=
  ∀ other, other ≠ threadId → C.list after other = C.list before other

end Holds

namespace ThreadCheckpointer.Lawful
variable {C : ThreadCheckpointer} (hC : C.Lawful)
include hC

/-- A listing has one tuple at a coordinate. -/
theorem nodup_coordinates (s : C.Store) (threadId : String) :
    ((C.list s threadId).map CheckpointTuple.coordinate).Nodup := by
  apply List.pairwise_map.mpr
  apply (hC.newestFirst s threadId).imp
  intro x y hnewer hcoordinate
  have hid : x.checkpoint.id = y.checkpoint.id := congrArg Coordinate.id hcoordinate
  have hxy := hnewer (congrArg Coordinate.ns hcoordinate)
  rw [hid] at hxy
  exact hC.newer_asymm _ _ hxy hxy

theorem eq_of_coordinate {s : C.Store} {threadId : String} {x y : CheckpointTuple}
    (hx : x ∈ C.list s threadId) (hy : y ∈ C.list s threadId) (h : x.coordinate = y.coordinate) :
    x = y :=
  List.inj_on_of_nodup_map (hC.nodup_coordinates s threadId) hx hy h

/-- Two tuples of a namespace are ordered. -/
theorem newer_or_newer {s : C.Store} {threadId : String} {x y : CheckpointTuple}
    (hx : x ∈ C.list s threadId) (hy : y ∈ C.list s threadId) (hns : x.ns = y.ns) (hne : x ≠ y) :
    C.newer x.checkpoint.id y.checkpoint.id ∨ C.newer y.checkpoint.id x.checkpoint.id := by
  obtain ⟨i, hi, rfl⟩ := List.mem_iff_getElem.mp hx
  obtain ⟨j, hj, rfl⟩ := List.mem_iff_getElem.mp hy
  have hpairs := List.pairwise_iff_getElem.mp (hC.newestFirst s threadId)
  rcases Nat.lt_trichotomy i j with hij | rfl | hji
  · exact .inl (hpairs i j hi hj hij hns)
  · exact absurd rfl hne
  · exact .inr (hpairs j i hj hi hji hns.symm)

/-- Putting a tuple that the thread lacks adds a copy without writes. -/
theorem put_holds {s : C.Store} {targetId : String} {before : List CheckpointTuple}
    {x : CheckpointTuple} (h : Holds C s targetId before)
    (hfresh : x.coordinate ∉ before.map CheckpointTuple.coordinate) :
    Holds C (C.put s ⟨targetId, x.ns, x.parentId⟩ x.checkpoint x.metadata.orEmpty
      x.checkpoint.channelVersions) targetId (before ++ [x.withWrites []]) := by
  have habsent : ∀ y ∈ C.list s targetId, y.coordinate ≠ x.coordinate := by
    intro y hy hcoordinate
    obtain ⟨z, hz, hcopy⟩ := h.exact y hy
    exact hfresh (List.mem_map.mpr ⟨z, hz, hcopy.coordinate.symm.trans hcoordinate⟩)
  have hlist := hC.list_put s ⟨targetId, x.ns, x.parentId⟩ x.checkpoint x.metadata.orEmpty habsent
  have hnew : CheckpointTuple.Copies ⟨x.ns, x.checkpoint, x.metadata.orEmpty, x.parentId, []⟩
      (x.withWrites []) := ⟨rfl, rfl, rfl, rfl, fun _ _ => rfl⟩
  constructor
  · intro z hz
    rcases List.mem_append.mp hz with hz | hz
    · obtain ⟨y, hy, hcopy⟩ := h.complete z hz
      exact ⟨y, (hlist y).mpr (.inl hy), hcopy⟩
    · rw [List.mem_singleton.mp hz]
      exact ⟨_, (hlist _).mpr (.inr rfl), hnew⟩
  · intro y hy
    rcases (hlist y).mp hy with hy | rfl
    · obtain ⟨z, hz, hcopy⟩ := h.exact y hy
      exact ⟨z, List.mem_append_left _ hz, hcopy⟩
    · exact ⟨_, List.mem_append_right _ (List.mem_singleton_self _), hnew⟩

/-- Recording the writes of a further task adds them to the copy they name. -/
theorem putWrites_holds {s : C.Store} {targetId taskId : String} {before : List CheckpointTuple}
    {x : CheckpointTuple} {writes : List PendingWrite} {group : List (String × Value)}
    (h : Holds C s targetId (before ++ [x.withWrites writes]))
    (hfresh : x.coordinate ∉ before.map CheckpointTuple.coordinate)
    (htask : ∀ w ∈ writes, w.taskId ≠ taskId) :
    Holds C (C.putWrites s ⟨targetId, x.ns, some x.checkpoint.id⟩ group taskId) targetId
      (before ++
        [x.withWrites (writes ++ groupWrites (taskId, group))]) := by
  obtain ⟨y, hy, hcopy⟩ := h.complete _ (List.mem_append_right _ (List.mem_singleton_self _))
  have hycoord : y.coordinate = x.coordinate := hcopy.coordinate
  have hytask : ∀ w ∈ y.pendingWrites, w.taskId ≠ taskId := fun w hw =>
    htask w (hcopy.pendingWrites.mem hw)
  obtain ⟨recorded, hrecorded, hlist⟩ := hC.list_putWrites s
    ⟨targetId, x.ns, some x.checkpoint.id⟩ group taskId y hy hcopy.ns
    (congrArg some (congrArg Checkpoint.id hcopy.checkpoint)) hytask
  have hnew : CheckpointTuple.Copies (y.withWrites recorded)
      (x.withWrites (writes ++ groupWrites (taskId, group))) :=
    ⟨hcopy.ns, hcopy.checkpoint, hcopy.metadata, hcopy.parentId,
      hrecorded.trans (hcopy.pendingWrites.append fun _ _ => rfl)⟩
  constructor
  · intro z hz
    rcases List.mem_append.mp hz with hz | hz
    · obtain ⟨u, hu, hucopy⟩ := h.complete z (List.mem_append_left _ hz)
      have hne : u ≠ y := by
        rintro rfl
        exact hfresh (List.mem_map.mpr ⟨z, hz, hucopy.coordinate.symm.trans hycoord⟩)
      exact ⟨u, (hlist u).mpr (.inl ⟨hu, hne⟩), hucopy⟩
    · rw [List.mem_singleton.mp hz]
      exact ⟨_, (hlist _).mpr (.inr rfl), hnew⟩
  · intro u hu
    rcases (hlist u).mp hu with ⟨hu, hne⟩ | rfl
    · obtain ⟨z, hz, hucopy⟩ := h.exact u hu
      rcases List.mem_append.mp hz with hz | hz
      · exact ⟨z, List.mem_append_left _ hz, hucopy⟩
      · rw [List.mem_singleton.mp hz] at hucopy
        exact absurd (hC.eq_of_coordinate hu hy (hucopy.coordinate.trans hycoord.symm)) hne
    · exact ⟨_, List.mem_append_right _ (List.mem_singleton_self _), hnew⟩

end ThreadCheckpointer.Lawful

theorem writesOf_groupWrites_of_ne {group : String × List (String × Value)} {task : String}
    (h : group.1 ≠ task) (channel : String) :
    CheckpointTuple.writesOf task channel (groupWrites group) = [] := by
  rw [CheckpointTuple.writesOf, List.filter_eq_nil_iff.mpr, List.map_nil]
  intro w hw
  obtain ⟨entry, _, rfl⟩ := List.mem_map.mp hw
  simp [h]

/-- Other tasks' groups have no write of the task. -/
theorem writesOf_flatMap_of_notMem {groups : List (String × List (String × Value))} {task : String}
    (h : task ∉ groups.map Prod.fst) (channel : String) :
    CheckpointTuple.writesOf task channel (groups.flatMap groupWrites) = [] := by
  induction groups with
  | nil => rfl
  | cons group rest ih =>
    rw [List.map_cons, List.mem_cons, not_or] at h
    rw [List.flatMap_cons, CheckpointTuple.writesOf_append, ih h.2,
      writesOf_groupWrites_of_ne (Ne.symm h.1)]
    rfl

/-- Appending a write to its task's group is appending it to the writes. -/
theorem sameWrites_setEntry (w : PendingWrite) (groups : List (String × List (String × Value)))
    (hnodup : (groups.map Prod.fst).Nodup) :
    CheckpointTuple.SameWrites
      ((OrderedMap.setEntry w.taskId ((groups.lookup w.taskId).getD [] ++ [(w.channel, w.value)])
        groups).flatMap groupWrites)
      (groups.flatMap groupWrites ++ [w]) := by
  intro task channel
  induction groups with
  | nil => simp [OrderedMap.setEntry, groupWrites]
  | cons group rest ih =>
    rcases group with ⟨taskId, writes⟩
    obtain ⟨hnot, hrest⟩ := List.nodup_cons.mp hnodup
    rw [OrderedMap.setEntry, OrderedMap.lookup_cons_ite]
    by_cases htask : taskId = w.taskId
    · subst htask
      simp only [if_true, Option.getD_some, List.flatMap_cons, groupWrites, List.map_append,
        List.map_cons, List.map_nil, CheckpointTuple.writesOf_append, List.append_assoc]
      by_cases hkey : w.taskId = task
      · subst hkey
        rw [writesOf_flatMap_of_notMem hnot, List.append_nil, List.nil_append]
      · have hw : CheckpointTuple.writesOf task channel [w] = [] := by
          simp [CheckpointTuple.writesOf, hkey]
        rw [hw, List.append_nil, List.nil_append]
    · rw [if_neg htask, if_neg (Ne.symm htask), List.flatMap_cons, List.flatMap_cons,
        List.append_assoc, CheckpointTuple.writesOf_append,
        CheckpointTuple.writesOf_append task channel (groupWrites (taskId, writes)), ih hrest]

/-- The groups hold every write, and each task's in order. -/
theorem sameWrites_byTask (writes : List PendingWrite) :
    CheckpointTuple.SameWrites ((byTask writes).entries.flatMap groupWrites) writes := by
  have hfold : ∀ (rest : List PendingWrite) (groups : OrderedMap String (List (String × Value))),
      CheckpointTuple.SameWrites
        ((rest.foldl (fun byTask w => byTask.set w.taskId
          ((byTask.get? w.taskId).getD [] ++ [(w.channel, w.value)])) groups).entries.flatMap
            groupWrites)
        (groups.entries.flatMap groupWrites ++ rest) := by
    intro rest
    induction rest with
    | nil =>
      intro groups task channel
      rw [List.append_nil, List.foldl_nil]
    | cons w rest ih =>
      intro groups
      have hset := sameWrites_setEntry w groups.entries groups.nodup
      have hrest : CheckpointTuple.SameWrites rest rest := fun _ _ => rfl
      have happend := hset.append hrest
      rw [List.append_assoc, List.singleton_append] at happend
      exact (ih _).trans happend
  exact hfold writes ∅

section Replay
variable {C : ThreadCheckpointer} (hC : C.Lawful) {cloneCheckpoint : Checkpoint → Checkpoint}
  (hclone : ∀ checkpoint, cloneCheckpoint checkpoint = checkpoint)

theorem SameElsewhere.refl (s : C.Store) (threadId : String) : SameElsewhere C s s threadId :=
  fun _ _ => rfl

theorem SameElsewhere.trans {a b c : C.Store} {threadId : String}
    (hab : SameElsewhere C a b threadId) (hbc : SameElsewhere C b c threadId) :
    SameElsewhere C a c threadId :=
  fun other h => (hbc other h).trans (hab other h)

/-- What holds while `targetId` is being written. -/
def Replayed (C : ThreadCheckpointer) (s₀ : C.Store) (targetId : String)
    (tuples : List CheckpointTuple) (s : C.Store) : Prop :=
  Holds C s targetId tuples ∧ SameElsewhere C s₀ s targetId

include hC hclone

theorem putTuple_ensures {s₀ : C.Store} {targetId : String} {before : List CheckpointTuple}
    {x : CheckpointTuple} (hfresh : x.coordinate ∉ before.map CheckpointTuple.coordinate) :
    Ensures (Replayed C s₀ targetId before) (putTuple C cloneCheckpoint targetId x)
      (fun _ => Replayed C s₀ targetId (before ++ [x.withWrites []]))
      (fun _ s => SameElsewhere C s₀ s targetId) := by
  apply Ensures.modify
  · intro s hs
    rw [hclone]
    have hframe := hC.put_frame s ⟨targetId, x.ns, x.parentId⟩ x.checkpoint x.metadata.orEmpty
      x.checkpoint.channelVersions
    exact ⟨hC.put_holds hs.1 hfresh, hs.2.trans hframe⟩
  · exact fun s hs => hs.2

omit hclone in
theorem putGroup_ensures {s₀ : C.Store} {targetId : String} {before : List CheckpointTuple}
    {x : CheckpointTuple} {writes : List PendingWrite} {group : String × List (String × Value)}
    (hfresh : x.coordinate ∉ before.map CheckpointTuple.coordinate)
    (htask : ∀ w ∈ writes, w.taskId ≠ group.1) :
    Ensures (Replayed C s₀ targetId (before ++ [x.withWrites writes]))
      (putGroup C targetId x group)
      (fun _ => Replayed C s₀ targetId
        (before ++ [x.withWrites (writes ++ groupWrites group)]))
      (fun _ s => SameElsewhere C s₀ s targetId) := by
  apply Ensures.bind (Ensures.check fun s hs => hs.2)
  intro _
  apply Ensures.modify
  · intro s hs
    have hframe := hC.putWrites_frame s ⟨targetId, x.ns, some x.checkpoint.id⟩ group.2 group.1
    exact ⟨hC.putWrites_holds hs.1 hfresh htask, hs.2.trans hframe⟩
  · exact fun s hs => hs.2

omit hclone in
/-- The groups of a tuple, each of a task without writes so far. -/
theorem putGroups_ensures {s₀ : C.Store} {targetId : String} {before : List CheckpointTuple}
    {x : CheckpointTuple} (hfresh : x.coordinate ∉ before.map CheckpointTuple.coordinate)
    (groups : OrderedMap String (List (String × Value))) :
    Ensures (Replayed C s₀ targetId (before ++ [x.withWrites []]))
      (groups.entries.forM (putGroup C targetId x))
      (fun _ => Replayed C s₀ targetId
        (before ++ [x.withWrites (groups.entries.flatMap groupWrites)]))
      (fun _ s => SameElsewhere C s₀ s targetId) := by
  apply Ensures.forM (I := fun done => Replayed C s₀ targetId
    (before ++ [x.withWrites (done.flatMap groupWrites)]))
  intro done group rest hsplit
  have htask : ∀ w ∈ done.flatMap groupWrites, w.taskId ≠ group.1 := by
    intro w hw heq
    obtain ⟨other, hother, hwrite⟩ := List.mem_flatMap.mp hw
    obtain ⟨entry, _, rfl⟩ := List.mem_map.mp hwrite
    have hkeys := groups.nodup
    rw [hsplit, List.map_append, List.map_cons, List.nodup_append] at hkeys
    exact hkeys.2.2 _ (List.mem_map.mpr ⟨other, hother, rfl⟩) _ List.mem_cons_self heq
  rw [List.flatMap_append, List.flatMap_singleton]
  exact putGroup_ensures hC hfresh htask

omit hC hclone in
/-- Only each task's writes count for what a thread holds. -/
theorem Holds.sameWrites {s : C.Store} {threadId : String} {before : List CheckpointTuple}
    {x : CheckpointTuple} {writes : List PendingWrite}
    (h : Holds C s threadId (before ++ [x.withWrites writes]))
    (hwrites : CheckpointTuple.SameWrites writes x.pendingWrites) :
    Holds C s threadId (before ++ [x]) := by
  have hcopies : ∀ y : CheckpointTuple, y.Copies (x.withWrites writes) → y.Copies x :=
    fun y hcopy => ⟨hcopy.ns, hcopy.checkpoint, hcopy.metadata, hcopy.parentId,
      hcopy.pendingWrites.trans hwrites⟩
  constructor
  · intro z hz
    rcases List.mem_append.mp hz with hz | hz
    · exact h.complete z (List.mem_append_left _ hz)
    · obtain ⟨y, hy, hcopy⟩ := h.complete _ (List.mem_append_right _ (List.mem_singleton_self _))
      rw [List.mem_singleton.mp hz]
      exact ⟨y, hy, hcopies y hcopy⟩
  · intro y hy
    obtain ⟨z, hz, hcopy⟩ := h.exact y hy
    rcases List.mem_append.mp hz with hz | hz
    · exact ⟨z, List.mem_append_left _ hz, hcopy⟩
    · rw [List.mem_singleton.mp hz] at hcopy
      exact ⟨x, List.mem_append_right _ (List.mem_singleton_self _), hcopies y hcopy⟩

/-- One turn of the loop: the put, then the groups of writes, each adding to the copy. -/
theorem replayCheckpoint_ensures {s₀ : C.Store} {targetId : String} {before : List CheckpointTuple}
    {x : CheckpointTuple} (hfresh : x.coordinate ∉ before.map CheckpointTuple.coordinate) :
    Ensures (Replayed C s₀ targetId before) (replayCheckpoint C cloneCheckpoint targetId x)
      (fun _ => Replayed C s₀ targetId (before ++ [x]))
      (fun _ s => SameElsewhere C s₀ s targetId) := by
  apply Ensures.bind (Ensures.check fun s hs => hs.2)
  intro _
  apply Ensures.bind (putTuple_ensures hC hclone hfresh)
  intro _
  apply (putGroups_ensures hC hfresh (byTask x.pendingWrites)).weaken
  · exact fun _ hs => hs
  · exact fun _ s hs => ⟨hs.1.sameWrites (sameWrites_byTask x.pendingWrites), hs.2⟩
  · exact fun _ _ hs => hs

/-- A replay into an empty thread leaves copies of exactly the tuples, and no other
thread is touched wherever it stops. -/
theorem replayCheckpoints_ensures {s₀ : C.Store} {targetId : String} {tuples : List CheckpointTuple}
    (hempty : C.list s₀ targetId = [])
    (hnodup : (tuples.map CheckpointTuple.coordinate).Nodup) :
    Ensures (fun s => s = s₀) (replayCheckpoints C cloneCheckpoint targetId tuples)
      (fun _ => Replayed C s₀ targetId tuples) (fun _ s => SameElsewhere C s₀ s targetId) := by
  have hloop : Ensures (Replayed C s₀ targetId []) (replayCheckpoints C cloneCheckpoint targetId tuples)
      (fun _ => Replayed C s₀ targetId tuples) (fun _ s => SameElsewhere C s₀ s targetId) := by
    apply Ensures.forM (I := Replayed C s₀ targetId)
    intro done x rest hsplit
    apply replayCheckpoint_ensures hC hclone
    rw [hsplit, List.map_append, List.map_cons, List.nodup_append] at hnodup
    intro hmem
    exact hnodup.2.2 _ hmem _ List.mem_cons_self rfl
  apply hloop.weaken _ (fun _ _ hs => hs) fun _ _ hs => hs
  rintro s rfl
  refine ⟨⟨fun x hx => (by cases hx), fun y hy => ?_⟩, .refl s targetId⟩
  rw [hempty] at hy
  cases hy

end Replay

section Replacement
variable {C : ThreadCheckpointer} {operation : HistoryOperation} {threadId : String}

theorem scratchThreadId_ne (operation : HistoryOperation) (threadId uuid : String) :
    scratchThreadId operation threadId uuid ≠ threadId := by
  intro h
  have hlength := congrArg String.length h
  simp only [scratchThreadId, String.length_append] at hlength
  have hmark : "::skein-".length = 8 := rfl
  omega

/-- An error that names the backup `scratch` of the tuples, written under an id that was free. -/
def NamesBackup (C : ThreadCheckpointer) (before after : C.Store) (operation : HistoryOperation)
    (threadId : String) (tuples : List CheckpointTuple) (error : HistoryError) : Prop :=
  ∃ uuid cause, error = .replaceFailed
      (backupMessage operation threadId (scratchThreadId operation threadId uuid)) cause ∧
    C.list before (scratchThreadId operation threadId uuid) = [] ∧
    Complete C after (scratchThreadId operation threadId uuid) tuples

/-- What a failed replacement leaves. -/
def Recoverable (C : ThreadCheckpointer) (before after : C.Store) (operation : HistoryOperation)
    (threadId : String) (tuples : List CheckpointTuple) (error : HistoryError) : Prop :=
  C.list after threadId = C.list before threadId ∨ Complete C after threadId tuples ∨
    NamesBackup C before after operation threadId tuples error

/-- Every other thread that has checkpoints keeps them. -/
def OthersKept (C : ThreadCheckpointer) (before after : C.Store) (threadId : String) : Prop :=
  ∀ other, other ≠ threadId → C.list before other ≠ [] → C.list after other = C.list before other

/-- A phase that writes only a thread that was empty keeps the others. -/
theorem SameElsewhere.othersKept {before after : C.Store} {scratch : String}
    (h : SameElsewhere C before after scratch) (hempty : C.list before scratch = []) :
    OthersKept C before after threadId := by
  intro other _ hother
  apply h
  rintro rfl
  exact hother hempty

theorem drawScratchThread_ensures (s₀ : C.Store) (uuids : List String) :
    Ensures (fun s => s = s₀) (drawScratchThread C operation threadId uuids)
      (fun scratch s => s = s₀ ∧ C.list s₀ scratch = [] ∧
        ∃ uuid, scratch = scratchThreadId operation threadId uuid)
      (fun _ s => s = s₀) := by
  induction uuids with
  | nil => exact .throw fun _ hs => hs
  | cons uuid uuids ih =>
    apply Ensures.bind (Ensures.check (P := fun s => s = s₀) fun _ hs => hs)
    intro _
    apply Ensures.bind (Q := fun taken s => s = s₀ ∧
      taken = (C.list s₀ (scratchThreadId operation threadId uuid)).take 1)
    · apply Ensures.read
      · rintro s rfl
        exact ⟨rfl, rfl⟩
      · exact fun _ hs => hs
    · intro taken
      by_cases htaken : taken.length > 0
      · rw [if_pos htaken]
        exact ih.weaken (fun _ hs => hs.1) (fun _ _ hs => hs) fun _ _ hs => hs
      · rw [if_neg htaken]
        apply Ensures.pure
        rintro s ⟨hs, htake⟩
        have hempty : C.list s₀ (scratchThreadId operation threadId uuid) = [] := by
          rw [htake, List.length_take] at htaken
          apply List.length_eq_zero_iff.mp
          omega
        exact ⟨hs, hempty, uuid, rfl⟩

variable (hC : C.Lawful) {cloneCheckpoint : Checkpoint → Checkpoint}
  (hclone : ∀ checkpoint, cloneCheckpoint checkpoint = checkpoint)
include hC

theorem deleteThread_ensures (s₀ : C.Store) (E : HistoryError → C.Store → Prop)
    (herror : ∀ e, E e s₀) :
    Ensures (fun s => s = s₀) (deleteThread C threadId)
      (fun _ s => C.list s threadId = [] ∧ SameElsewhere C s₀ s threadId) E := by
  apply Ensures.modify
  · rintro s rfl
    exact ⟨hC.list_deleteThread s threadId, fun other => hC.deleteThread_frame s threadId other⟩
  · rintro s rfl
    exact herror _

include hclone

/-- Delete and replay while `scratch` holds the copy: the thread ends with the tuples,
or the copy is still there. -/
theorem replaceOriginal_ensures {s₀ : C.Store} {scratch : String} {tuples : List CheckpointTuple}
    (hscratch : scratch ≠ threadId) (hbackup : Complete C s₀ scratch tuples)
    (hnodup : (tuples.map CheckpointTuple.coordinate).Nodup) :
    Ensures (fun s => s = s₀)
      (do throwIfAborted C
          deleteThread C threadId
          replayCheckpoints C cloneCheckpoint threadId tuples)
      (fun _ s => Holds C s threadId tuples ∧ SameElsewhere C s₀ s threadId)
      (fun _ s => Complete C s scratch tuples ∧ SameElsewhere C s₀ s threadId) := by
  have hkept : ∀ s, SameElsewhere C s₀ s threadId →
      Complete C s scratch tuples ∧ SameElsewhere C s₀ s threadId := by
    intro s hs
    refine ⟨?_, hs⟩
    rw [Complete, hs scratch hscratch]
    exact hbackup
  apply Ensures.bind (Ensures.check ?_)
  · intro _
    apply Ensures.bind (deleteThread_ensures hC s₀ _ ?_)
    · intro _
      apply Ensures.of_state
      rintro s₁ ⟨hempty, hs₁⟩
      apply (replayCheckpoints_ensures hC hclone hempty hnodup).weaken fun _ hs => hs
      · exact fun _ s hs => ⟨hs.1, hs₁.trans hs.2⟩
      · exact fun _ s hs => hkept s (hs₁.trans hs)
    · exact fun _ => hkept s₀ (.refl s₀ threadId)
  · rintro s rfl
    exact hkept s (.refl s threadId)

/-- The whole replacement: the tuples on success, a recoverable history on failure. -/
theorem replaceCheckpointHistory_ensures (s₀ : C.Store) (uuids : List String)
    {tuples : List CheckpointTuple} (hnodup : (tuples.map CheckpointTuple.coordinate).Nodup) :
    Ensures (fun s => s = s₀)
      (replaceCheckpointHistory C cloneCheckpoint operation threadId uuids tuples)
      (fun _ s => Holds C s threadId tuples ∧ OthersKept C s₀ s threadId)
      (fun e s => Recoverable C s₀ s operation threadId tuples e ∧ OthersKept C s₀ s threadId) := by
  have huntouched : ∀ e, Recoverable C s₀ s₀ operation threadId tuples e ∧
      OthersKept C s₀ s₀ threadId := fun e => ⟨.inl rfl, fun _ _ _ => rfl⟩
  apply Ensures.bind ((drawScratchThread_ensures s₀ uuids).weaken (fun _ hs => hs)
    (fun _ _ hs => hs) ?_)
  · intro scratch
    apply Ensures.of_state
    rintro s ⟨rfl, hfree, uuid, rfl⟩
    have hne := scratchThreadId_ne operation threadId uuid
    apply Ensures.bind (Ensures.check ?_)
    · intro _
      apply Ensures.bind ((replayCheckpoints_ensures hC hclone hfree hnodup).weaken
        (fun _ hs => hs) (fun _ _ hs => hs) ?_)
      · intro _
        apply Ensures.of_state
        rintro s₁ ⟨hbackup, hs₁⟩
        have hkept : ∀ s₂, SameElsewhere C s₁ s₂ threadId → OthersKept C s s₂ threadId := by
          intro s₂ hs₂ other hother hlist
          rw [hs₂ other hother]
          exact hs₁.othersKept hfree other hother hlist
        apply Ensures.bind (Q := fun _ s₂ => Holds C s₂ threadId tuples ∧
          SameElsewhere C s₁ s₂ threadId)
        · apply Ensures.mapError
          apply (replaceOriginal_ensures hC hclone hne hbackup.complete hnodup).weaken
            (fun _ hs => hs) (fun _ _ hs => hs)
          intro cause s₂ hs₂
          exact ⟨.inr (.inr ⟨uuid, cause, rfl, hfree, hs₂.1⟩), hkept s₂ hs₂.2⟩
        · -- the replacement has worked: what follows only removes the backup
          intro _
          apply Ensures.bind (Ensures.check ?_)
          · intro _
            apply Ensures.of_state
            rintro s₂ ⟨hholds, hs₂⟩
            apply Ensures.ignore
            apply (deleteThread_ensures hC s₂ _ ?_).weaken (fun _ hs => hs) ?_ fun _ _ hs => hs
            · exact fun _ => ⟨hholds, hkept s₂ hs₂⟩
            · rintro _ s₃ ⟨_, hs₃⟩
              refine ⟨hholds.congr (hs₃ threadId (Ne.symm hne)), ?_⟩
              intro other hother hlist
              rw [hs₃ other fun h => hlist (h ▸ hfree)]
              exact hkept s₂ hs₂ other hother hlist
          · exact fun s₂ hs₂ => ⟨.inr (.inl hs₂.1.complete), hkept s₂ hs₂.2⟩
      · intro e s₁ hs₁
        exact ⟨.inl (hs₁ threadId (Ne.symm hne)), hs₁.othersKept hfree⟩
    · rintro s₁ rfl
      exact huntouched _
  · rintro e s rfl
    exact huntouched e

end Replacement

section Success
variable (C : ThreadCheckpointer) (cloneCheckpoint : Checkpoint → Checkpoint)
  (operation : HistoryOperation) (threadId : String)

theorem throwIfAborted_ok (s : C.Store) : throwIfAborted C ⟨s, []⟩ = (.ok (), ⟨s, []⟩) := rfl

theorem listCheckpoints_ok (s : C.Store) :
    listCheckpoints C threadId none ⟨s, []⟩ = (.ok (C.list s threadId), ⟨s, []⟩) := rfl

theorem replayCheckpoints_neverFails (targetId : String) (tuples : List CheckpointTuple) :
    NeverFails (replayCheckpoints C cloneCheckpoint targetId tuples) := by
  apply NeverFails.forM
  intro x
  apply (NeverFails.check _).bind
  intro _
  apply (NeverFails.modify _ _).bind
  intro _
  apply NeverFails.forM
  exact fun group => (NeverFails.check _).bind fun _ => .modify _ _

theorem drawScratchThread_ok {s : C.Store} {uuids : List String}
    (hfree : ∃ uuid ∈ uuids, C.list s (scratchThreadId operation threadId uuid) = []) :
    ∃ scratch, drawScratchThread C operation threadId uuids ⟨s, []⟩ = (.ok scratch, ⟨s, []⟩) := by
  induction uuids with
  | nil =>
    obtain ⟨_, hmem, _⟩ := hfree
    cases hmem
  | cons uuid uuids ih =>
    have hhead : drawScratchThread C operation threadId (uuid :: uuids) ⟨s, []⟩ =
        (if ((C.list s (scratchThreadId operation threadId uuid)).take 1).length > 0 then
          drawScratchThread C operation threadId uuids
        else pure (scratchThreadId operation threadId uuid) : HistoryM C String) ⟨s, []⟩ := rfl
    rw [hhead]
    split_ifs with htaken
    · apply ih
      obtain ⟨free, hmem, hempty⟩ := hfree
      rcases List.mem_cons.mp hmem with rfl | hmem
      · rw [hempty] at htaken
        cases htaken
      · exact ⟨free, hmem, hempty⟩
    · exact ⟨_, rfl⟩

/-- Without faults a replacement works as soon as a free id is drawn. -/
theorem replaceCheckpointHistory_ok {s : C.Store} {uuids : List String}
    (hfree : ∃ uuid ∈ uuids, C.list s (scratchThreadId operation threadId uuid) = [])
    (tuples : List CheckpointTuple) :
    ∃ s', replaceCheckpointHistory C cloneCheckpoint operation threadId uuids tuples ⟨s, []⟩ =
      (.ok (), ⟨s', []⟩) := by
  obtain ⟨scratch, hscratch⟩ := drawScratchThread_ok C operation threadId hfree
  have hrest : NeverFails (do
      throwIfAborted C
      replayCheckpoints C cloneCheckpoint scratch tuples
      FaultM.mapError (.replaceFailed (backupMessage operation threadId scratch)) do
        throwIfAborted C
        deleteThread C threadId
        replayCheckpoints C cloneCheckpoint threadId tuples
      throwIfAborted C
      FaultM.ignore (deleteThread C scratch)) := by
    apply (NeverFails.check _).bind
    intro _
    apply (replayCheckpoints_neverFails C cloneCheckpoint scratch tuples).bind
    intro _
    apply NeverFails.bind (.mapError _ _)
    · exact fun _ => (NeverFails.check _).bind fun _ => .ignore (.modify _ _)
    · apply (NeverFails.check _).bind
      intro _
      apply (NeverFails.modify _ _).bind
      exact fun _ => replayCheckpoints_neverFails C cloneCheckpoint threadId tuples
  obtain ⟨_, s', hs'⟩ := hrest s
  exact ⟨s', (bind_of_ok hscratch).trans hs'⟩

end Success

theorem referencedCheckpoints_sublist (tuples seeds : List CheckpointTuple) :
    (referencedCheckpoints tuples seeds).Sublist tuples :=
  List.filter_sublist

@[simp] theorem reroot_coordinate (coordinates : List Coordinate) (x : CheckpointTuple) :
    (reroot coordinates x).coordinate = x.coordinate := by
  unfold reroot
  split
  · split_ifs <;> rfl
  · rfl

theorem rootedKeep_nodup {tuples : List CheckpointTuple}
    (h : (tuples.map CheckpointTuple.coordinate).Nodup) :
    ((rootedKeep tuples).map CheckpointTuple.coordinate).Nodup := by
  rw [rootedKeep, List.map_reverse, List.nodup_reverse, List.map_map]
  have hsame : CheckpointTuple.coordinate ∘
      reroot ((keepLatest tuples).map CheckpointTuple.coordinate) = CheckpointTuple.coordinate :=
    funext fun x => reroot_coordinate _ x
  rw [hsame]
  exact h.sublist ((referencedCheckpoints_sublist _ _).map _)

theorem rollbackKeep_nodup {tuples : List CheckpointTuple}
    (h : (tuples.map CheckpointTuple.coordinate).Nodup) (base : CheckpointTuple) :
    ((rollbackKeep tuples base).map CheckpointTuple.coordinate).Nodup := by
  rw [rollbackKeep, List.map_reverse, List.nodup_reverse]
  exact h.sublist ((referencedCheckpoints_sublist _ _).map _)

section Callers
variable {C : ThreadCheckpointer} (threadId : String) (hC : C.Lawful)
  {cloneCheckpoint : Checkpoint → Checkpoint}
  (hclone : ∀ checkpoint, cloneCheckpoint checkpoint = checkpoint)
include hC hclone

theorem pruneThreadCheckpointsToLatest_ensures (s₀ : C.Store) (uuids : List String) :
    Ensures (fun s => s = s₀)
      (pruneThreadCheckpointsToLatest C cloneCheckpoint threadId uuids)
      (fun pruned s =>
        if pruned then
          (keepLatest (C.list s₀ threadId)).length ≠ (C.list s₀ threadId).length ∧
            Holds C s threadId (rootedKeep (C.list s₀ threadId)) ∧ OthersKept C s₀ s threadId
        else (keepLatest (C.list s₀ threadId)).length = (C.list s₀ threadId).length ∧ s = s₀)
      (fun e s => Recoverable C s₀ s .prune threadId (rootedKeep (C.list s₀ threadId)) e ∧
        OthersKept C s₀ s threadId) := by
  apply Ensures.bind (Q := fun tuples s => tuples = C.list s₀ threadId ∧ s = s₀)
  · apply Ensures.read
    · rintro s rfl
      exact ⟨rfl, rfl⟩
    · rintro s rfl
      exact ⟨.inl rfl, fun _ _ _ => rfl⟩
  · intro tuples
    by_cases hlength : (keepLatest tuples).length = tuples.length
    · rw [if_pos hlength]
      apply Ensures.pure
      rintro s ⟨rfl, rfl⟩
      exact ⟨hlength, rfl⟩
    · rw [if_neg hlength]
      apply Ensures.of_state
      rintro s ⟨rfl, rfl⟩
      have hnodup := rootedKeep_nodup (hC.nodup_coordinates s threadId)
      apply Ensures.bind (replaceCheckpointHistory_ensures hC hclone s uuids hnodup)
      intro _
      exact .pure fun _ hs => ⟨hlength, hs⟩

theorem rollbackThreadCheckpointsTo_ensures (s₀ : C.Store) (uuids : List String) (id : String) :
    Ensures (fun s => s = s₀)
      (rollbackThreadCheckpointsTo C cloneCheckpoint threadId (some id) uuids)
      (fun _ s => (rootById (C.list s₀ threadId) id).elim (s = s₀) fun base =>
        Holds C s threadId (rollbackKeep (C.list s₀ threadId) base) ∧ OthersKept C s₀ s threadId)
      (fun e s => (rootById (C.list s₀ threadId) id).elim (s = s₀) fun base =>
        Recoverable C s₀ s .rollback threadId (rollbackKeep (C.list s₀ threadId) base) e ∧
          OthersKept C s₀ s threadId) := by
  have huntouched : ∀ e, (rootById (C.list s₀ threadId) id).elim (s₀ = s₀) fun base =>
      Recoverable C s₀ s₀ .rollback threadId (rollbackKeep (C.list s₀ threadId) base) e ∧
        OthersKept C s₀ s₀ threadId := by
    intro e
    cases rootById (C.list s₀ threadId) id with
    | none => exact rfl
    | some base => exact ⟨.inl rfl, fun _ _ _ => rfl⟩
  apply Ensures.bind (Ensures.check (P := fun s => s = s₀) ?_)
  · intro _
    apply Ensures.bind (Q := fun tuples s => tuples = C.list s₀ threadId ∧ s = s₀)
    · apply Ensures.read
      · rintro s rfl
        exact ⟨rfl, rfl⟩
      · rintro s rfl
        exact huntouched _
    · intro tuples
      apply Ensures.of_state
      rintro s ⟨rfl, rfl⟩
      cases hbase : rootById (C.list s threadId) id with
      | none => exact .pure fun _ hs => hs
      | some base =>
        have hnodup := rollbackKeep_nodup (hC.nodup_coordinates s threadId) base
        exact replaceCheckpointHistory_ensures hC hclone s uuids hnodup
  · rintro s rfl
    exact huntouched _

end Callers

/-- What an outcome of a replacement leaves: the tuples on success, and on failure the
history untouched or a complete copy of them. -/
def Survives {α : Type} (C : ThreadCheckpointer) (before after : C.Store)
    (operation : HistoryOperation) (threadId : String) (tuples : List CheckpointTuple) :
    Except HistoryError α → Prop
  | .ok _ => Holds C after threadId tuples
  | .error e => Recoverable C before after operation threadId tuples e

theorem keepLatest_eq_of_length {tuples : List CheckpointTuple}
    (h : (keepLatest tuples).length = tuples.length) : keepLatest tuples = tuples :=
  (referencedCheckpoints_sublist _ _).eq_of_length h

/-- Wherever a checkpointer call fails or the signal fires, replacing a history loses
nothing that it retains. -/
theorem history_neverLost {C : ThreadCheckpointer} (hC : C.Lawful)
    {cloneCheckpoint : Checkpoint → Checkpoint}
    (hclone : ∀ checkpoint, cloneCheckpoint checkpoint = checkpoint) (threadId : String)
    (uuids : List String) (before : Faulty C.Store) :
    (∀ operation tuples, (tuples.map CheckpointTuple.coordinate).Nodup → ∀ result after,
      replaceCheckpointHistory C cloneCheckpoint operation threadId uuids tuples before =
        (result, after) →
      Survives C before.state after.state operation threadId tuples result) ∧
    (∀ result after,
      pruneThreadCheckpointsToLatest C cloneCheckpoint threadId uuids before = (result, after) →
      (result = .ok false ∧ after.state = before.state ∧
        keepLatest (C.list before.state threadId) = C.list before.state threadId) ∨
      Survives C before.state after.state .prune threadId
        (rootedKeep (C.list before.state threadId)) result) ∧
    (∀ baseCheckpointId result after,
      rollbackThreadCheckpointsTo C cloneCheckpoint threadId (some baseCheckpointId) uuids before =
        (result, after) →
      (rootById (C.list before.state threadId) baseCheckpointId = none ∧
        after.state = before.state) ∨
      ∃ base, rootById (C.list before.state threadId) baseCheckpointId = some base ∧
        Survives C before.state after.state .rollback threadId
          (rollbackKeep (C.list before.state threadId) base) result) := by
  refine ⟨?_, ?_, ?_⟩
  · intro operation tuples hnodup result after hrun
    cases result with
    | ok value =>
      exact ((replaceCheckpointHistory_ensures hC hclone _ uuids hnodup).of_ok rfl hrun).1
    | error e =>
      exact ((replaceCheckpointHistory_ensures hC hclone _ uuids hnodup).of_error rfl hrun).1
  · intro result after hrun
    have hspec := pruneThreadCheckpointsToLatest_ensures threadId hC hclone before.state uuids
    cases result with
    | ok pruned =>
      have hpost := hspec.of_ok rfl hrun
      cases pruned with
      | false => exact .inl ⟨rfl, hpost.2, keepLatest_eq_of_length hpost.1⟩
      | true => exact .inr hpost.2.1
    | error e => exact .inr (hspec.of_error rfl hrun).1
  · intro id result after hrun
    have hspec := rollbackThreadCheckpointsTo_ensures threadId hC hclone before.state uuids id
    cases hbase : rootById (C.list before.state threadId) id with
    | none =>
      rw [hbase] at hspec
      cases result with
      | ok value => exact .inl ⟨rfl, hspec.of_ok rfl hrun⟩
      | error e => exact .inl ⟨rfl, hspec.of_error rfl hrun⟩
    | some base =>
      rw [hbase] at hspec
      cases result with
      | ok value => exact .inr ⟨base, rfl, (hspec.of_ok rfl hrun).1⟩
      | error e => exact .inr ⟨base, rfl, (hspec.of_error rfl hrun).1⟩

/-- Three checkpoints in a chain, the last with the writes of two tasks. -/
def chainStore : tableCheckpointer.Store := TableCheckpointer.setTable (fun _ => ∅) "t"
  (((Table.write ∅ { checkpoint := { id := "1" } }).write
    { checkpoint := { id := "2" }, parentId := some "1" }).write
    { checkpoint := { id := "3" }, parentId := some "2",
      pendingWrites := [⟨"a", "x", .null⟩, ⟨"b", "x", .null⟩, ⟨"a", "y", .null⟩] })

/-- Pruning the chain while the replay into the thread fails. -/
def failingPrune : Except HistoryError Bool × Faulty tableCheckpointer.Store :=
  pruneThreadCheckpointsToLatest tableCheckpointer id "t" ["u"]
    ⟨chainStore, List.replicate 11 false ++ [true]⟩

theorem chainStore_neverLost :
    (failingPrune.1 = .ok false ∧ failingPrune.2.state = chainStore ∧
      keepLatest (tableCheckpointer.list chainStore "t") = tableCheckpointer.list chainStore "t") ∨
    Survives tableCheckpointer chainStore failingPrune.2.state .prune "t"
      (rootedKeep (tableCheckpointer.list chainStore "t")) failingPrune.1 :=
  (history_neverLost tableCheckpointer_lawful (fun _ => rfl) "t" ["u"]
    ⟨chainStore, List.replicate 11 false ++ [true]⟩).2.1 failingPrune.1 failingPrune.2 rfl

end Skein
