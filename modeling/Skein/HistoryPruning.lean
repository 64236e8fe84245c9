import Skein.HistoryReferences

/-!
# Pruning keeps a closed history

What a prune has to keep is said without the traversal: the newest tuple of every
namespace and whatever a needed tuple references. The operation keeps exactly
that, and a second prune finds nothing left to remove, because dropping a parent
link to a removed tuple drops no reference between kept ones.
-/
namespace Skein
open FaultM

/-- The newest tuple of its namespace, in the checkpointer's order. -/
def Newest (C : ThreadCheckpointer) (history : List CheckpointTuple) (x : CheckpointTuple) : Prop :=
  x ∈ history ∧ ∀ z ∈ history, z.ns = x.ns → z = x ∨ C.newer x.checkpoint.id z.checkpoint.id

/-- What the current state of the thread rests on. -/
inductive Needed (C : ThreadCheckpointer) (history : List CheckpointTuple) : CheckpointTuple → Prop
  | newest {x : CheckpointTuple} (h : Newest C history x) : Needed C history x
  | referenced {x y : CheckpointTuple} (hx : Needed C history x) (hy : y ∈ history)
      (href : x.References y.coordinate) : Needed C history y

theorem Needed.mem {C : ThreadCheckpointer} {history : List CheckpointTuple} {x : CheckpointTuple}
    (h : Needed C history x) : x ∈ history := by
  cases h with
  | newest h => exact h.1
  | referenced _ hy _ => exact hy

theorem latestByNamespace_get? (tuples : List CheckpointTuple) (ns : String) :
    (latestByNamespace tuples).get? ns = tuples.find? fun x => x.ns = ns := by
  have hfold : ∀ (rest : List CheckpointTuple) (latest : OrderedMap String CheckpointTuple),
      (rest.foldl (fun latest tuple =>
        if latest.contains tuple.ns then latest else latest.set tuple.ns tuple) latest).get? ns =
        (latest.get? ns).or (rest.find? fun x => x.ns = ns) := by
    intro rest
    induction rest with
    | nil => simp
    | cons x rest ih =>
      intro latest
      rw [List.foldl_cons, ih, List.find?_cons]
      by_cases hknown : latest.contains x.ns = true
      · rw [if_pos hknown]
        by_cases hns : x.ns = ns
        · obtain ⟨y, hy⟩ := Option.isSome_iff_exists.mp hknown
          rw [← hns, hy, Option.some_or, Option.some_or]
        · simp [hns]
      · rw [if_neg hknown, OrderedMap.get?_set]
        by_cases hns : x.ns = ns
        · have hnone := (OrderedMap.contains_eq_false_iff latest x.ns).mp (by simpa using hknown)
          rw [if_pos hns, ← hns, hnone]
          simp
        · simp [hns]
  exact (hfold tuples ∅).trans (by simp)

section Newest
variable {C : ThreadCheckpointer} {tuples : List CheckpointTuple}

/-- In a listing, the first tuple of a namespace is its newest. -/
theorem mem_latest_iff (hasymm : ∀ a b, C.newer a b → ¬ C.newer b a)
    (hsorted : tuples.Pairwise fun x y => x.ns = y.ns → C.newer x.checkpoint.id y.checkpoint.id)
    {x : CheckpointTuple} : x ∈ (latestByNamespace tuples).values ↔ Newest C tuples x := by
  have hfirst : ∀ {y : CheckpointTuple} {ns : String},
      (tuples.find? fun z => z.ns = ns) = some y → y.ns = ns ∧ Newest C tuples y := by
    intro y ns hfind
    obtain ⟨hns, before, rest, rfl, hbefore⟩ := List.find?_eq_some_iff_append.mp hfind
    have hns : y.ns = ns := by simpa using hns
    refine ⟨hns, by simp, fun z hz hzns => ?_⟩
    rcases List.mem_append.mp hz with hz | hz
    · have := hbefore z hz
      simp [hzns, hns] at this
    · rcases List.mem_cons.mp hz with rfl | hz
      · exact .inl rfl
      · have hpairs := (List.pairwise_append.mp hsorted).2.1
        exact .inr ((List.pairwise_cons.mp hpairs).1 z hz hzns.symm)
  rw [OrderedMap.mem_values_iff]
  simp only [latestByNamespace_get?]
  constructor
  · rintro ⟨ns, hfind⟩
    exact (hfirst hfind).2
  · rintro ⟨hx, hnewest⟩
    refine ⟨x.ns, ?_⟩
    rcases hfind : tuples.find? fun z => z.ns = x.ns with _ | y
    · have := List.find?_eq_none.mp hfind x hx
      simp at this
    · obtain ⟨hns, hy, hynewest⟩ := hfirst hfind
      rcases hnewest y hy hns with rfl | hxy
      · exact hfind
      · rcases hynewest x hx hns.symm with rfl | hyx
        · exact hfind
        · exact absurd hyx (hasymm _ _ hxy)

/-- A prune keeps what is needed. -/
theorem mem_keepLatest_iff (hasymm : ∀ a b, C.newer a b → ¬ C.newer b a)
    (hsorted : tuples.Pairwise fun x y => x.ns = y.ns → C.newer x.checkpoint.id y.checkpoint.id)
    (hdistinct : Distinct tuples) {x : CheckpointTuple} :
    x ∈ keepLatest tuples ↔ Needed C tuples x := by
  have hseeds : (latestByNamespace tuples).values ⊆ tuples := fun y hy =>
    ((mem_latest_iff hasymm hsorted).mp hy).1
  rw [keepLatest, mem_referencedCheckpoints_iff hdistinct hseeds]
  constructor
  · rintro ⟨hx, seed, hseed, hpath⟩
    have hall : ∀ {c}, Relation.ReflTransGen (Points tuples) seed.coordinate c →
        ∀ y ∈ tuples, y.coordinate = c → Needed C tuples y := by
      intro c hpath
      induction hpath with
      | refl =>
        intro y hy hc
        rw [List.inj_on_of_nodup_map hdistinct hy (hseeds hseed) hc]
        exact .newest ((mem_latest_iff hasymm hsorted).mp hseed)
      | tail _ hstep ih =>
        rintro y hy rfl
        obtain ⟨z, hz, hzc, href, _⟩ := hstep
        exact .referenced (ih z hz hzc) hy href
    exact hall hpath x hx rfl
  · intro hneeded
    refine ⟨hneeded.mem, ?_⟩
    induction hneeded with
    | newest h => exact ⟨_, (mem_latest_iff hasymm hsorted).mpr h, .refl⟩
    | @referenced x y hx hy href ih =>
      exact ih.step ⟨x, hx.mem, rfl, href, List.mem_map.mpr ⟨y, hy, rfl⟩⟩

end Newest

theorem reroot_cases (coordinates : List Coordinate) (x : CheckpointTuple) :
    (reroot coordinates x = x ∧ ∀ c, x.parentCoordinate = some c → c ∈ coordinates) ∨
      (reroot coordinates x = { x with parentId := none } ∧
        ∀ c, x.parentCoordinate = some c → c ∉ coordinates) := by
  unfold reroot
  cases hparent : x.parentCoordinate with
  | none => exact .inr ⟨rfl, fun _ h => (by cases h)⟩
  | some parent =>
    by_cases hmem : parent ∈ coordinates
    · exact .inl ⟨if_pos hmem, fun c h => Option.some.inj h ▸ hmem⟩
    · exact .inr ⟨if_neg hmem, fun c h => Option.some.inj h ▸ hmem⟩

/-- Rerooting drops no reference to a coordinate that stays. -/
theorem reroot_references {coordinates : List Coordinate} {x : CheckpointTuple} {c : Coordinate}
    (href : x.References c) (hc : c ∈ coordinates) : (reroot coordinates x).References c := by
  rcases reroot_cases coordinates x with ⟨heq, _⟩ | ⟨heq, hparent⟩
  · rwa [heq]
  · rw [heq]
    rw [CheckpointTuple.references_iff] at href ⊢
    rcases href with h | h | h | h | ⟨_, h⟩
    · exact .inl h
    · exact .inr (.inl h)
    · exact .inr (.inr (.inl h))
    · exact .inr (.inr (.inr (.inl h)))
    · exact absurd hc (hparent c h)

/-- The same checkpoint with its data and its writes. -/
structure CheckpointTuple.SameData (y x : CheckpointTuple) : Prop where
  ns : y.ns = x.ns
  checkpoint : y.checkpoint = x.checkpoint
  metadata : y.metadata.orEmpty = x.metadata.orEmpty
  pendingWrites : SameWrites y.pendingWrites x.pendingWrites

/-- `z` is the ancestor whose delta writes the state of `x` still needs. -/
def DependsOn (history : List CheckpointTuple) (x z : CheckpointTuple) : Prop :=
  x.NeedsParent ∧ x.parentCoordinate = some z.coordinate ∧ z ∈ history

/-- A history pruned to what it needs. -/
structure PrunedTo (C : ThreadCheckpointer) (before after : List CheckpointTuple) : Prop where
  kept : ∀ x, Needed C before x → ∃ y ∈ after, y.SameData x
  only : ∀ y ∈ after, ∃ x, Needed C before x ∧ y.SameData x ∧
    (y.parentId = x.parentId ∨ y.parentId = none)
  newest : ∀ x, Newest C before x → ∃ y ∈ after, y.SameData x
  referenced : ∀ y ∈ after, ∀ x ∈ before, y.SameData x → ∀ z ∈ before,
    x.References z.coordinate → ∃ u ∈ after, u.SameData z
  ancestors : ∀ y ∈ after, ∀ x ∈ before, y.SameData x → ∀ z,
    Relation.TransGen (DependsOn before) x z → ∃ u ∈ after, u.SameData z
  parents : ∀ y ∈ after, ∀ z ∈ before, y.parentCoordinate = some z.coordinate →
    ∃ u ∈ after, u.SameData z

theorem CheckpointTuple.SameData.coordinate {x y : CheckpointTuple} (h : y.SameData x) :
    y.coordinate = x.coordinate := by
  rw [CheckpointTuple.coordinate, CheckpointTuple.coordinate, h.ns, h.checkpoint]

theorem CheckpointTuple.Copies.sameData {x y : CheckpointTuple} {coordinates : List Coordinate}
    (h : y.Copies (reroot coordinates x)) : y.SameData x := by
  rcases reroot_cases coordinates x with ⟨heq, _⟩ | ⟨heq, _⟩
  all_goals
    rw [heq] at h
    exact ⟨h.ns, h.checkpoint, by rw [h.metadata, CheckpointTuple.orEmpty_orEmpty],
      h.pendingWrites⟩

/-- What is kept, what it is kept from and where parent links lead give the rest. -/
theorem PrunedTo.of_kept {C : ThreadCheckpointer} {before after : List CheckpointTuple}
    (hdistinct : Distinct before)
    (hkept : ∀ x, Needed C before x → ∃ y ∈ after, y.SameData x)
    (honly : ∀ y ∈ after, ∃ x, Needed C before x ∧ y.SameData x ∧
      (y.parentId = x.parentId ∨ y.parentId = none))
    (hparents : ∀ y ∈ after, ∀ z ∈ before, y.parentCoordinate = some z.coordinate →
      Needed C before z) : PrunedTo C before after := by
  have hneeded : ∀ y ∈ after, ∀ x ∈ before, y.SameData x → Needed C before x := by
    intro y hy x hx hsame
    obtain ⟨z, hz, hzsame, _⟩ := honly y hy
    have hxz : x.coordinate = z.coordinate := hsame.coordinate.symm.trans hzsame.coordinate
    rwa [List.inj_on_of_nodup_map hdistinct hx hz.mem hxz]
  have hstep : ∀ x z, Needed C before x → DependsOn before x z → Needed C before z := by
    rintro x z hx ⟨hneeds, hparent, hz⟩
    apply hx.referenced hz
    apply CheckpointTuple.references_iff.mpr
    exact .inr (.inr (.inr (.inr ⟨hneeds, hparent⟩)))
  constructor
  · exact hkept
  · exact honly
  · exact fun x hx => hkept x (.newest hx)
  · exact fun y hy x hx hsame z hz href => hkept z ((hneeded y hy x hx hsame).referenced hz href)
  · intro y hy x hx hsame z hpath
    apply hkept
    induction hpath with
    | single h => exact hstep _ _ (hneeded y hy x hx hsame) h
    | tail _ h ih => exact hstep _ _ ih h
  · exact fun y hy z hz hparent => hkept z (hparents y hy z hz hparent)

section Pruning
variable {C : ThreadCheckpointer} (hC : C.Lawful) {threadId : String}
include hC

theorem needed_iff (s : C.Store) {x : CheckpointTuple} :
    x ∈ keepLatest (C.list s threadId) ↔ Needed C (C.list s threadId) x :=
  mem_keepLatest_iff hC.newer_asymm (hC.newestFirst s threadId) (hC.nodup_coordinates s threadId)

theorem mem_rootedKeep {s : C.Store} {x : CheckpointTuple} :
    x ∈ rootedKeep (C.list s threadId) ↔ ∃ z, Needed C (C.list s threadId) z ∧
      reroot ((keepLatest (C.list s threadId)).map CheckpointTuple.coordinate) z = x := by
  simp only [rootedKeep, List.mem_reverse, List.mem_map, needed_iff hC]

/-- The replayed copies are the pruned history. -/
theorem prunedTo_of_holds {s s' : C.Store}
    (h : Holds C s' threadId (rootedKeep (C.list s threadId))) :
    PrunedTo C (C.list s threadId) (C.list s' threadId) := by
  apply PrunedTo.of_kept (hC.nodup_coordinates s threadId)
  · intro x hx
    obtain ⟨y, hy, hcopy⟩ := h.complete _ ((mem_rootedKeep hC).mpr ⟨x, hx, rfl⟩)
    exact ⟨y, hy, hcopy.sameData⟩
  · intro y hy
    obtain ⟨z, hz, hcopy⟩ := h.exact y hy
    obtain ⟨x, hx, rfl⟩ := (mem_rootedKeep hC).mp hz
    refine ⟨x, hx, hcopy.sameData, ?_⟩
    rw [hcopy.parentId]
    rcases reroot_cases _ x with ⟨heq, _⟩ | ⟨heq, _⟩
    · exact .inl (by rw [heq])
    · exact .inr (by rw [heq])
  · intro y hy z hz hparent
    obtain ⟨x', hx', hcopy⟩ := h.exact y hy
    obtain ⟨x, hx, rfl⟩ := (mem_rootedKeep hC).mp hx'
    rw [hcopy.parentCoordinate] at hparent
    rcases reroot_cases ((keepLatest (C.list s threadId)).map CheckpointTuple.coordinate) x with
      ⟨heq, hin⟩ | ⟨heq, _⟩
    · rw [heq] at hparent
      obtain ⟨u, hu, hucoord⟩ := List.mem_map.mp (hin _ hparent)
      have hneeded := (needed_iff hC s).mp hu
      rwa [← List.inj_on_of_nodup_map (hC.nodup_coordinates s threadId) hneeded.mem hz hucoord]
    · rw [heq] at hparent
      cases hparent

/-- Nothing is left to remove from a pruned history. -/
theorem keepLatest_of_holds {s s' : C.Store}
    (h : Holds C s' threadId (rootedKeep (C.list s threadId))) :
    keepLatest (C.list s' threadId) = C.list s' threadId := by
  have hdistinct := hC.nodup_coordinates s threadId
  have hlatest : ∀ (s : C.Store) x, x ∈ (latestByNamespace (C.list s threadId)).values ↔
      Newest C (C.list s threadId) x := fun s x =>
    mem_latest_iff hC.newer_asymm (hC.newestFirst s threadId)
  have hseeds : (latestByNamespace (C.list s threadId)).values ⊆ C.list s threadId := fun x hx =>
    ((hlatest s x).mp hx).1
  have hreached : ∀ x ∈ C.list s threadId, Needed C (C.list s threadId) x ↔
      ReachedFrom (C.list s threadId) (latestByNamespace (C.list s threadId)).values
        x.coordinate := by
    intro x hx
    rw [← needed_iff hC, keepLatest, mem_referencedCheckpoints_iff hdistinct hseeds]
    exact and_iff_right hx
  have hmirrors : Mirrors (C.list s' threadId) (C.list s threadId)
      (latestByNamespace (C.list s threadId)).values := by
    constructor
    · intro y hy
      obtain ⟨z, hz, hcopy⟩ := h.exact y hy
      obtain ⟨x, hx, rfl⟩ := (mem_rootedKeep hC).mp hz
      rw [hcopy.sameData.coordinate]
      exact (hreached x hx.mem).mp hx
    · intro x hx hreach
      have hneeded := (hreached x hx).mpr hreach
      obtain ⟨y, hy, hcopy⟩ := h.complete _ ((mem_rootedKeep hC).mpr ⟨x, hneeded, rfl⟩)
      refine ⟨y, hy, hcopy.sameData.coordinate, fun c href hc => ?_⟩
      obtain ⟨z, hz, rfl⟩ := List.mem_map.mp (hc.mem hseeds)
      have hzkept := (needed_iff hC s).mpr ((hreached z hz).mpr hc)
      exact (hcopy.references _).mpr (reroot_references href (List.mem_map.mpr ⟨z, hzkept, rfl⟩))
  apply hmirrors.referencedCheckpoints_eq (hC.nodup_coordinates s' threadId)
  · exact fun y hy => ((hlatest s' y).mp hy).1
  · intro seed hseed
    have hnewest := (hlatest s seed).mp hseed
    obtain ⟨y, hy, hcopy⟩ := h.complete _ ((mem_rootedKeep hC).mpr ⟨seed, .newest hnewest, rfl⟩)
    refine ⟨y, (hlatest s' y).mpr ⟨hy, fun z hz hns => ?_⟩, hcopy.sameData.coordinate⟩
    obtain ⟨x', hx', hzcopy⟩ := h.exact z hz
    obtain ⟨x, hx, rfl⟩ := (mem_rootedKeep hC).mp hx'
    have hsame := hzcopy.sameData
    have hxns : x.ns = seed.ns := by rw [← hsame.ns, hns, hcopy.sameData.ns]
    rcases hnewest.2 x hx.mem hxns with rfl | hnewer
    · exact .inl (hC.eq_of_coordinate hz hy (hsame.coordinate.trans hcopy.sameData.coordinate.symm))
    · rw [hcopy.sameData.checkpoint, hsame.checkpoint]
      exact .inr hnewer

omit hC in
/-- With nothing to remove a prune only reads. -/
theorem prune_noop {cloneCheckpoint : Checkpoint → Checkpoint} {s₀ : C.Store} (uuids : List String)
    (h : keepLatest (C.list s₀ threadId) = C.list s₀ threadId) :
    Ensures (fun s => s = s₀) (pruneThreadCheckpointsToLatest C cloneCheckpoint threadId uuids)
      (fun pruned s => pruned = false ∧ s = s₀) (fun _ s => s = s₀) := by
  apply Ensures.bind (Q := fun tuples s => tuples = C.list s₀ threadId ∧ s = s₀)
  · apply Ensures.read
    · rintro s rfl
      exact ⟨rfl, rfl⟩
    · exact fun _ hs => hs
  · intro tuples
    apply Ensures.of_state
    rintro s ⟨rfl, rfl⟩
    rw [if_pos (congrArg List.length h)]
    exact .pure fun _ hs => ⟨rfl, hs⟩

omit hC in
theorem prune_ok (cloneCheckpoint : Checkpoint → Checkpoint) {s : C.Store} {uuids : List String}
    (hfree : ∃ uuid ∈ uuids, C.list s (scratchThreadId .prune threadId uuid) = []) :
    ∃ pruned after, pruneThreadCheckpointsToLatest C cloneCheckpoint threadId uuids ⟨s, []⟩ =
      (.ok pruned, after) := by
  have hread : pruneThreadCheckpointsToLatest C cloneCheckpoint threadId uuids ⟨s, []⟩ = _ :=
    bind_of_ok (listCheckpoints_ok C threadId s)
  rw [hread]
  split_ifs with hlength
  · exact ⟨false, _, rfl⟩
  · obtain ⟨s', hs'⟩ := replaceCheckpointHistory_ok C cloneCheckpoint .prune threadId hfree
      (rootedKeep (C.list s threadId))
    exact ⟨true, _, bind_of_ok hs'⟩

end Pruning

/-- A prune keeps what is needed and nothing else, reports whether it removed anything,
and has nothing to do the second time. -/
theorem prune_keepsNeeded {C : ThreadCheckpointer} (hC : C.Lawful)
    {cloneCheckpoint : Checkpoint → Checkpoint}
    (hclone : ∀ checkpoint, cloneCheckpoint checkpoint = checkpoint) (threadId : String)
    (uuids : List String) (before : Faulty C.Store) :
    (before.faults = [] →
      (∃ uuid ∈ uuids, C.list before.state (scratchThreadId .prune threadId uuid) = []) →
      ∃ pruned after,
        pruneThreadCheckpointsToLatest C cloneCheckpoint threadId uuids before =
          (.ok pruned, after)) ∧
    ∀ pruned after,
      pruneThreadCheckpointsToLatest C cloneCheckpoint threadId uuids before = (.ok pruned, after) →
      PrunedTo C (C.list before.state threadId) (C.list after.state threadId) ∧
      (pruned = false ↔
        ∀ x ∈ C.list before.state threadId, Needed C (C.list before.state threadId) x) ∧
      (pruned = false → after.state = before.state) ∧
      ∀ uuids' faults result again,
        pruneThreadCheckpointsToLatest C cloneCheckpoint threadId uuids' ⟨after.state, faults⟩ =
          (result, again) →
        again.state = after.state ∧ ∀ prunedAgain, result = .ok prunedAgain → prunedAgain = false := by
  have hagain : ∀ s : C.Store, keepLatest (C.list s threadId) = C.list s threadId →
      ∀ uuids' faults result again,
        pruneThreadCheckpointsToLatest C cloneCheckpoint threadId uuids' ⟨s, faults⟩ =
          (result, again) →
        again.state = s ∧ ∀ prunedAgain, result = .ok prunedAgain → prunedAgain = false := by
    intro s hkeep uuids' faults result again hrun
    cases result with
    | ok pruned =>
      obtain ⟨hfalse, hstate⟩ := (prune_noop uuids' hkeep).of_ok rfl hrun
      exact ⟨hstate, fun _ h => Except.ok.inj h ▸ hfalse⟩
    | error e => exact ⟨(prune_noop uuids' hkeep).of_error rfl hrun, fun _ h => (by cases h)⟩
  refine ⟨?_, fun pruned after hrun => ?_⟩
  · intro hfaults hfree
    rcases before with ⟨s, faults⟩
    cases hfaults
    exact prune_ok cloneCheckpoint hfree
  · have hpost := (pruneThreadCheckpointsToLatest_ensures threadId hC hclone _ uuids).of_ok rfl hrun
    cases pruned with
    | false =>
      obtain ⟨hlength, hstate⟩ := hpost
      have hkeep := keepLatest_eq_of_length hlength
      have hall : ∀ x ∈ C.list before.state threadId,
          Needed C (C.list before.state threadId) x := by
        intro x hx
        rw [← hkeep] at hx
        exact (needed_iff hC _).mp hx
      refine ⟨?_, iff_of_true rfl hall, fun _ => hstate, ?_⟩
      · rw [hstate]
        apply PrunedTo.of_kept (hC.nodup_coordinates _ _)
        · exact fun x hx => ⟨x, hx.mem, rfl, rfl, rfl, fun _ _ => rfl⟩
        · exact fun y hy => ⟨y, hall y hy, ⟨rfl, rfl, rfl, fun _ _ => rfl⟩, .inl rfl⟩
        · exact fun _ _ z hz _ => hall z hz
      · rw [hstate]
        exact hagain _ hkeep
    | true =>
      obtain ⟨hlength, hholds, _⟩ := hpost
      refine ⟨prunedTo_of_holds hC hholds, iff_of_false (fun h => (by cases h)) ?_,
        fun h => (by cases h), hagain _ (keepLatest_of_holds hC hholds)⟩
      intro hall
      apply hlength
      congr 1
      apply (referencedCheckpoints_sublist _ _).eq_of_length_le
      apply List.Nodup.length_le_of_subset (List.Nodup.of_map _ (hC.nodup_coordinates _ _))
      exact fun x hx => (needed_iff hC _).mpr (hall x hx)

theorem chainStore_pruned : ∃ pruned after,
    pruneThreadCheckpointsToLatest tableCheckpointer id "t" ["u"] ⟨chainStore, []⟩ =
      (.ok pruned, after) ∧
    PrunedTo tableCheckpointer (tableCheckpointer.list chainStore "t")
      (tableCheckpointer.list after.state "t") := by
  have hcontract := prune_keepsNeeded tableCheckpointer_lawful (fun _ => rfl) "t" ["u"]
    ⟨chainStore, []⟩
  obtain ⟨pruned, after, hrun⟩ := hcontract.1 rfl ⟨"u", List.mem_singleton_self _, rfl⟩
  exact ⟨pruned, after, hrun, (hcontract.2 pruned after hrun).1⟩

end Skein
