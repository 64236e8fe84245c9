import Skein.HistoryReferences

/-!
# A rollback keeps the past of its base

The walk along parent links is a depth-first visit with one successor, so its
fuel covers cyclic links as well. What survives is the base with its ancestors,
the child tuples stamped no later than the base, and what these reference; the
copies answer the same questions again, so a second rollback changes nothing.
-/
namespace Skein
open FaultM

/-- `z` is the root tuple that the parent link of `x` names. -/
def RootParent (tuples : List CheckpointTuple) (x z : CheckpointTuple) : Prop :=
  z ∈ tuples ∧ z.ns = "" ∧ x.parentId = some z.checkpoint.id

/-- The base and what its parent links lead to. -/
def IsAncestor (tuples : List CheckpointTuple) : CheckpointTuple → CheckpointTuple → Prop :=
  Relation.ReflTransGen (RootParent tuples)

/-- The ids that the parent link of a root id leads to. -/
def parentIds (tuples : List CheckpointTuple) (cursor : Option String) : List String :=
  cursor.toList.filter fun id => (rootById tuples id).isSome

def nextIds (tuples : List CheckpointTuple) (id : String) : List String :=
  parentIds tuples ((rootById tuples id).bind CheckpointTuple.parentId)

theorem visit_nil {α : Type*} [DecidableEq α] (next : α → List α) (fuel : ℕ) (kept : List α) :
    Reachability.visit next fuel kept [] = kept := by
  cases fuel <;> rfl

/-- The walk is a visit whose kept ids are the ones it has seen. -/
theorem visit_nextIds (tuples : List CheckpointTuple) (fuel : ℕ) (seen : List String)
    (cursor : Option String) :
    Reachability.visit (nextIds tuples) fuel seen (parentIds tuples cursor) =
      ((ancestors tuples fuel seen cursor).map fun x => x.checkpoint.id).reverse ++ seen := by
  induction fuel generalizing seen cursor with
  | zero => rfl
  | succ fuel ih =>
    cases cursor with
    | none => rfl
    | some id =>
      rw [ancestors]
      cases hroot : rootById tuples id with
      | none => simp [parentIds, hroot, visit_nil]
      | some x =>
        have hid : x.checkpoint.id = id := by
          have hfound := List.find?_some hroot
          simp only [decide_eq_true_eq] at hfound
          exact congrArg Coordinate.id hfound
        have hone : parentIds tuples (some id) = [id] := by simp [parentIds, hroot]
        rw [hone]
        by_cases hseen : id ∈ seen
        · simp [Reachability.visit, hseen]
        · have hnext : nextIds tuples id = parentIds tuples x.parentId := by
            rw [nextIds, hroot, Option.bind_some]
          simp [Reachability.visit, hseen, hnext, ih, hid]

section Walk
variable {tuples : List CheckpointTuple} (hdistinct : Distinct tuples)
include hdistinct

theorem rootById_eq_some_iff {id : String} {x : CheckpointTuple} :
    rootById tuples id = some x ↔ x ∈ tuples ∧ x.ns = "" ∧ x.checkpoint.id = id := by
  rw [rootById, byCoordinate_eq_some_iff hdistinct, CheckpointTuple.coordinate,
    Coordinate.mk.injEq]

/-- A root tuple is told by its id. -/
theorem eq_of_root_id {x y : CheckpointTuple} (hx : x ∈ tuples) (hy : y ∈ tuples)
    (hxns : x.ns = "") (hyns : y.ns = "") (h : x.checkpoint.id = y.checkpoint.id) : x = y := by
  apply List.inj_on_of_nodup_map hdistinct hx hy
  rw [CheckpointTuple.coordinate, CheckpointTuple.coordinate, hxns, hyns, h]

theorem mem_nextIds_iff {x : CheckpointTuple} (hx : x ∈ tuples) (hns : x.ns = "") {id : String} :
    id ∈ nextIds tuples x.checkpoint.id ↔ ∃ z, RootParent tuples x z ∧ z.checkpoint.id = id := by
  rw [nextIds, (rootById_eq_some_iff hdistinct).mpr ⟨hx, hns, rfl⟩, Option.bind_some, parentIds,
    List.mem_filter, Option.mem_toList, Option.isSome_iff_exists]
  constructor
  · rintro ⟨hparent, z, hz⟩
    obtain ⟨hzmem, hzns, rfl⟩ := (rootById_eq_some_iff hdistinct).mp hz
    exact ⟨z, ⟨hzmem, hzns, hparent⟩, rfl⟩
  · rintro ⟨z, ⟨hz, hzns, hparent⟩, rfl⟩
    exact ⟨hparent, z, (rootById_eq_some_iff hdistinct).mpr ⟨hz, hzns, rfl⟩⟩

theorem mem_of_mem_ancestors {fuel : ℕ} {seen : List String} {cursor : Option String}
    {x : CheckpointTuple} (h : x ∈ ancestors tuples fuel seen cursor) :
    x ∈ tuples ∧ x.ns = "" := by
  induction fuel generalizing seen cursor with
  | zero => cases h
  | succ fuel ih =>
    cases cursor with
    | none => cases h
    | some id =>
      rw [ancestors] at h
      cases hroot : rootById tuples id with
      | none =>
        rw [hroot] at h
        cases h
      | some y =>
        simp only [hroot] at h
        split_ifs at h with hseen
        · cases h
        · rcases List.mem_cons.mp h with rfl | h
          · obtain ⟨hx, hns, _⟩ := (rootById_eq_some_iff hdistinct).mp hroot
            exact ⟨hx, hns⟩
          · exact ih h

theorem isAncestor_of_nextIds {base x : CheckpointTuple} {id : String} (hbase : base ∈ tuples)
    (hns : base.ns = "") (hpath : Relation.ReflTransGen (fun a b => b ∈ nextIds tuples a)
      base.checkpoint.id id) (hx : x ∈ tuples) (hxns : x.ns = "") (hid : x.checkpoint.id = id) :
    IsAncestor tuples base x := by
  induction hpath generalizing x with
  | refl =>
    rw [eq_of_root_id hdistinct hx hbase hxns hns hid]
    exact .refl
  | @tail id id' _ hstep ih =>
    cases hroot : rootById tuples id with
    | none =>
      rw [nextIds, hroot] at hstep
      cases hstep
    | some u =>
      obtain ⟨hu, huns, rfl⟩ := (rootById_eq_some_iff hdistinct).mp hroot
      obtain ⟨z, hz, hzid⟩ := (mem_nextIds_iff hdistinct hu huns).mp hstep
      rw [← eq_of_root_id hdistinct hz.1 hx hz.2.1 hxns (hzid.trans hid.symm)]
      exact (ih hu huns rfl).tail hz

/-- The walk keeps the base and its ancestors, also where the links form a cycle. -/
theorem mem_ancestors_iff {base x : CheckpointTuple} (hbase : base ∈ tuples) (hns : base.ns = "") :
    x ∈ ancestors tuples (tuples.length + 1) [] (some base.checkpoint.id) ↔
      IsAncestor tuples base x := by
  have hroot := (rootById_eq_some_iff hdistinct).mpr ⟨hbase, hns, rfl⟩
  have hids := visit_nextIds tuples (tuples.length + 1) [] (some base.checkpoint.id)
  have hone : parentIds tuples (some base.checkpoint.id) = [base.checkpoint.id] := by
    simp [parentIds, hroot]
  rw [hone, List.append_nil] at hids
  have hnodes : ∀ id ∈ tuples.map fun x => x.checkpoint.id,
      nextIds tuples id ⊆ tuples.map fun x => x.checkpoint.id := by
    intro id _ id' hid'
    obtain ⟨z, hz⟩ := Option.isSome_iff_exists.mp (List.mem_filter.mp hid').2
    obtain ⟨hzmem, _, rfl⟩ := (rootById_eq_some_iff hdistinct).mp hz
    exact List.mem_map.mpr ⟨z, hzmem, rfl⟩
  have hcloses := Reachability.visit_closes hnodes (tuples.length + 1) [] [base.checkpoint.id]
    (List.cons_subset.mpr ⟨List.mem_map.mpr ⟨base, hbase, rfl⟩, List.nil_subset _⟩)
    (Nat.le_trans List.countP_le_length (by simp))
  rw [hids] at hcloses
  have hmem : ∀ y ∈ tuples, y.ns = "" → (y.checkpoint.id ∈
      ((ancestors tuples (tuples.length + 1) [] (some base.checkpoint.id)).map
        fun x => x.checkpoint.id).reverse ↔
      y ∈ ancestors tuples (tuples.length + 1) [] (some base.checkpoint.id)) := by
    intro y hy hyns
    rw [List.mem_reverse, List.mem_map]
    constructor
    · rintro ⟨z, hz, hid⟩
      obtain ⟨hzmem, hzns⟩ := mem_of_mem_ancestors hdistinct hz
      rwa [← eq_of_root_id hdistinct hzmem hy hzns hyns hid]
    · exact fun h => ⟨y, h, rfl⟩
  constructor
  · intro hx
    obtain ⟨hxmem, hxns⟩ := mem_of_mem_ancestors hdistinct hx
    rcases hcloses.reached x.checkpoint.id ((hmem x hxmem hxns).mpr hx) with hnil | ⟨a, ha, hpath⟩
    · cases hnil
    · rw [List.mem_singleton.mp ha] at hpath
      exact isAncestor_of_nextIds hdistinct hbase hns hpath hxmem hxns rfl
  · intro h
    have hboth : x ∈ tuples ∧ x.ns = "" ∧
        x ∈ ancestors tuples (tuples.length + 1) [] (some base.checkpoint.id) := by
      induction h with
      | refl =>
        exact ⟨hbase, hns, (hmem base hbase hns).mp (hcloses.covers (List.mem_singleton_self _))⟩
      | @tail y z _ hstep ih =>
        refine ⟨hstep.1, hstep.2.1, (hmem z hstep.1 hstep.2.1).mp ?_⟩
        have hclosed := hcloses.closed y.checkpoint.id ((hmem y ih.1 ih.2.1).mpr ih.2.2)
        rcases hclosed with hnil | hnext
        · cases hnil
        · exact hnext ((mem_nextIds_iff hdistinct ih.1 ih.2.1).mpr ⟨z, hstep, rfl⟩)
    exact hboth.2.2

theorem IsAncestor.mem {base x : CheckpointTuple} (h : IsAncestor tuples base x)
    (hbase : base ∈ tuples) (hns : base.ns = "") : x ∈ tuples ∧ x.ns = "" :=
  mem_of_mem_ancestors hdistinct ((mem_ancestors_iff hdistinct hbase hns).mpr h)

theorem mem_rollbackSeeds_iff {base x : CheckpointTuple} (hbase : base ∈ tuples)
    (hns : base.ns = "") : x ∈ rollbackSeeds tuples base ↔
      IsAncestor tuples base x ∨ (x ∈ tuples ∧ precedesBase base x = true) := by
  rw [rollbackSeeds, List.mem_append, mem_ancestors_iff hdistinct hbase hns, List.mem_filter]

theorem rollbackSeeds_subset {base : CheckpointTuple} (hbase : base ∈ tuples)
    (hns : base.ns = "") : rollbackSeeds tuples base ⊆ tuples := by
  intro x hx
  rcases (mem_rollbackSeeds_iff hdistinct hbase hns).mp hx with h | h
  · exact (h.mem hdistinct hbase hns).1
  · exact h.1

/-- What a rollback to `base` retains. -/
theorem mem_rollbackKeep_iff {base x : CheckpointTuple} (hbase : base ∈ tuples)
    (hns : base.ns = "") : x ∈ rollbackKeep tuples base ↔
      x ∈ tuples ∧ ReachedFrom tuples (rollbackSeeds tuples base) x.coordinate := by
  rw [rollbackKeep, List.mem_reverse,
    mem_referencedCheckpoints_iff hdistinct (rollbackSeeds_subset hdistinct hbase hns)]

end Walk

/-- Another listed tuple references this one. -/
def ReferencedByOther (history : List CheckpointTuple) (y : CheckpointTuple) : Prop :=
  ∃ z ∈ history, z.coordinate ≠ y.coordinate ∧ z.References y.coordinate

/-- Parent links of roots lead to older roots. -/
def ParentsOlder (C : ThreadCheckpointer) (history : List CheckpointTuple) : Prop :=
  ∀ x ∈ history, ∀ z, x.ns = "" → RootParent history x z → C.newer x.checkpoint.id z.checkpoint.id

/-- A history rolled back to `base`. -/
structure RolledBackTo (C : ThreadCheckpointer) (before : List CheckpointTuple)
    (base : CheckpointTuple) (after : List CheckpointTuple) : Prop where
  copies : ∀ y ∈ after, ∃ x ∈ before, y.Copies x
  ancestors : ∀ x, IsAncestor before base x → ∃ y ∈ after, y.Copies x
  children : ∀ x ∈ before, precedesBase base x = true → ∃ y ∈ after, y.Copies x
  references : ∀ y ∈ after, ∀ x ∈ before, y.References x.coordinate → ∃ z ∈ after, z.Copies x
  onlyRoots : ∀ y ∈ after, y.ns = "" →
    (∃ x, IsAncestor before base x ∧ y.Copies x) ∨ ReferencedByOther after y
  onlyChildren : ∀ y ∈ after, y.ns ≠ "" → precedesBase base y = true ∨ ReferencedByOther after y
  newest : ParentsOlder C before →
    (∀ y ∈ after, y.ns = "" → C.newer y.checkpoint.id base.checkpoint.id →
      ¬ ReferencedByOther after y) →
    ∃ y ∈ after, y.Copies base ∧
      ∀ z ∈ after, z.ns = "" → z = y ∨ C.newer y.checkpoint.id z.checkpoint.id

theorem precedesBase_congr {x y : CheckpointTuple} (hcopy : y.Copies x) (base : CheckpointTuple) :
    precedesBase base y = precedesBase base x := by
  rw [precedesBase, precedesBase, hcopy.ns, hcopy.checkpoint]

section Rollback
variable {C : ThreadCheckpointer} (hC : C.Lawful) {threadId : String} {s s' : C.Store}
  {base : CheckpointTuple} (hbase : base ∈ C.list s threadId) (hns : base.ns = "")
  (h : Holds C s' threadId (rollbackKeep (C.list s threadId) base))
include hC hbase hns

theorem retained_iff {x : CheckpointTuple} :
    x ∈ rollbackKeep (C.list s threadId) base ↔ x ∈ C.list s threadId ∧
      ReachedFrom (C.list s threadId) (rollbackSeeds (C.list s threadId) base) x.coordinate :=
  mem_rollbackKeep_iff (hC.nodup_coordinates s threadId) hbase hns

/-- The base is newer than its ancestors when parents are older. -/
theorem newer_of_isAncestor (holder : ParentsOlder C (C.list s threadId)) {x : CheckpointTuple}
    (hx : IsAncestor (C.list s threadId) base x) :
    x = base ∨ C.newer base.checkpoint.id x.checkpoint.id := by
  induction hx with
  | refl => exact .inl rfl
  | @tail y z hy hstep ih =>
    obtain ⟨hymem, hyns⟩ := IsAncestor.mem (hC.nodup_coordinates s threadId) hy hbase hns
    have hyz := holder y hymem z hyns hstep
    rcases ih with rfl | hnewer
    · exact .inr hyz
    · exact .inr (hC.newer_trans _ _ _ hnewer hyz)

include h

theorem copy_of_seed {x : CheckpointTuple}
    (hx : x ∈ rollbackSeeds (C.list s threadId) base) : ∃ y ∈ C.list s' threadId, y.Copies x := by
  have hmem := rollbackSeeds_subset (hC.nodup_coordinates s threadId) hbase hns hx
  exact h.complete x ((retained_iff hC hbase hns).mpr ⟨hmem, x, hx, .refl⟩)

/-- A survivor that is no seed is referenced by another survivor. -/
theorem referenced_of_not_seed {x y : CheckpointTuple}
    (hx : x ∈ rollbackKeep (C.list s threadId) base) (hcopy : y.Copies x)
    (hseed : x ∉ rollbackSeeds (C.list s threadId) base) :
    ReferencedByOther (C.list s' threadId) y := by
  have hdistinct := hC.nodup_coordinates s threadId
  obtain ⟨hmem, seed, hseedmem, hpath⟩ := (retained_iff hC hbase hns).mp hx
  have hne : seed.coordinate ≠ x.coordinate := by
    intro hcoord
    have hseedin := rollbackSeeds_subset hdistinct hbase hns hseedmem
    exact hseed (List.inj_on_of_nodup_map hdistinct hseedin hmem hcoord ▸ hseedmem)
  obtain ⟨c, hc, hreach, z, hz, rfl, href, _⟩ := Reachability.exists_entry hpath hne
  obtain ⟨u, hu, hucopy⟩ := h.complete z ((retained_iff hC hbase hns).mpr ⟨hz, seed, hseedmem, hreach⟩)
  refine ⟨u, hu, ?_, ?_⟩
  · rw [hucopy.coordinate, hcopy.coordinate]
    exact hc
  · rw [hcopy.coordinate]
    exact (hucopy.references _).mpr href

theorem rolledBackTo_of_holds : RolledBackTo C (C.list s threadId) base (C.list s' threadId) := by
  have hdistinct := hC.nodup_coordinates s threadId
  have hretained := @retained_iff C hC threadId s base hbase hns
  have hseeds := @mem_rollbackSeeds_iff _ hdistinct base
  have honlyRoots : ∀ y ∈ C.list s' threadId, y.ns = "" →
      (∃ x, IsAncestor (C.list s threadId) base x ∧ y.Copies x) ∨
        ReferencedByOther (C.list s' threadId) y := by
    intro y hy hyns
    obtain ⟨x, hx, hcopy⟩ := h.exact y hy
    by_cases hseed : x ∈ rollbackSeeds (C.list s threadId) base
    · rcases (hseeds hbase hns).mp hseed with hancestor | ⟨_, hprecedes⟩
      · exact .inl ⟨x, hancestor, hcopy⟩
      · have hxns : x.ns = "" := hcopy.ns.symm.trans hyns
        unfold precedesBase at hprecedes
        split at hprecedes <;> simp [hxns] at hprecedes
    · exact .inr (referenced_of_not_seed hC hbase hns h hx hcopy hseed)
  constructor
  · intro y hy
    obtain ⟨x, hx, hcopy⟩ := h.exact y hy
    exact ⟨x, (hretained.mp hx).1, hcopy⟩
  · exact fun x hx => copy_of_seed hC hbase hns h ((hseeds hbase hns).mpr (.inl hx))
  · exact fun x hx hprecedes =>
      copy_of_seed hC hbase hns h ((hseeds hbase hns).mpr (.inr ⟨hx, hprecedes⟩))
  · intro y hy x hx href
    obtain ⟨z, hz, hcopy⟩ := h.exact y hy
    obtain ⟨hzmem, hreach⟩ := hretained.mp hz
    apply h.complete x
    apply hretained.mpr ⟨hx, hreach.step ⟨z, hzmem, rfl, (hcopy.references _).mp href, ?_⟩⟩
    exact List.mem_map.mpr ⟨x, hx, rfl⟩
  · exact honlyRoots
  · intro y hy hyns
    obtain ⟨x, hx, hcopy⟩ := h.exact y hy
    by_cases hseed : x ∈ rollbackSeeds (C.list s threadId) base
    · rcases (hseeds hbase hns).mp hseed with hancestor | ⟨_, hprecedes⟩
      · exact absurd (hcopy.ns.trans (hancestor.mem hdistinct hbase hns).2) hyns
      · exact .inl ((precedesBase_congr hcopy base).trans hprecedes)
    · exact .inr (referenced_of_not_seed hC hbase hns h hx hcopy hseed)
  · intro holder hnone
    obtain ⟨y, hy, hcopy⟩ := copy_of_seed hC hbase hns h ((hseeds hbase hns).mpr (.inl .refl))
    refine ⟨y, hy, hcopy, fun z hz hzns => ?_⟩
    have hyns : y.ns = "" := hcopy.ns.trans hns
    by_cases hzy : z = y
    · exact .inl hzy
    · right
      rcases honlyRoots z hz hzns with ⟨x, hx, hzcopy⟩ | hreferenced
      · rw [hcopy.checkpoint, hzcopy.checkpoint]
        rcases newer_of_isAncestor hC hbase hns holder hx with rfl | hnewer
        · exact absurd (hC.eq_of_coordinate hz hy (hzcopy.coordinate.trans hcopy.coordinate.symm)) hzy
        · exact hnewer
      · rcases hC.newer_or_newer hz hy (hzns.trans hyns.symm) hzy with hnewer | hnewer
        · rw [hcopy.checkpoint] at hnewer
          exact absurd hreferenced (hnone z hz hzns hnewer)
        · exact hnewer

/-- The copies of the base's ancestors are the ancestors of its copy. -/
theorem isAncestor_copy {base' x : CheckpointTuple} (hbase' : base' ∈ C.list s' threadId)
    (hcopy : base'.Copies base) (hx : IsAncestor (C.list s threadId) base x) :
    ∃ y ∈ C.list s' threadId, y.Copies x ∧ IsAncestor (C.list s' threadId) base' y := by
  induction hx with
  | refl => exact ⟨base', hbase', hcopy, .refl⟩
  | @tail x z hpath hstep ih =>
    obtain ⟨y, _, hycopy, hancestor⟩ := ih
    have hseed := (mem_rollbackSeeds_iff (hC.nodup_coordinates s threadId) hbase hns).mpr
      (.inl (hpath.tail hstep))
    obtain ⟨u, hu, hucopy⟩ := copy_of_seed hC hbase hns h hseed
    refine ⟨u, hu, hucopy, hancestor.tail ⟨hu, hucopy.ns.trans hstep.2.1, ?_⟩⟩
    rw [hycopy.parentId, hucopy.checkpoint]
    exact hstep.2.2

/-- A second rollback retains all of what the first one left. -/
theorem rollbackKeep_of_holds {base' : CheckpointTuple} (hbase' : base' ∈ C.list s' threadId)
    (hcopy : base'.Copies base) :
    rollbackKeep (C.list s' threadId) base' = (C.list s' threadId).reverse := by
  have hdistinct := hC.nodup_coordinates s threadId
  have hdistinct' := hC.nodup_coordinates s' threadId
  have hns' : base'.ns = "" := hcopy.ns.trans hns
  have hmirrors : Mirrors (C.list s' threadId) (C.list s threadId)
      (rollbackSeeds (C.list s threadId) base) := by
    constructor
    · intro y hy
      obtain ⟨x, hx, hycopy⟩ := h.exact y hy
      rw [hycopy.coordinate]
      exact ((retained_iff hC hbase hns).mp hx).2
    · intro x hx hreach
      obtain ⟨y, hy, hycopy⟩ := h.complete x ((retained_iff hC hbase hns).mpr ⟨hx, hreach⟩)
      exact ⟨y, hy, hycopy.coordinate, fun c href _ => (hycopy.references c).mpr href⟩
  rw [rollbackKeep, hmirrors.referencedCheckpoints_eq hdistinct'
    (rollbackSeeds_subset hdistinct' hbase' hns')]
  intro seed hseed
  rcases (mem_rollbackSeeds_iff hdistinct hbase hns).mp hseed with hancestor | ⟨_, hprecedes⟩
  · obtain ⟨y, _, hycopy, hy⟩ := isAncestor_copy hC hbase hns h hbase' hcopy hancestor
    exact ⟨y, (mem_rollbackSeeds_iff hdistinct' hbase' hns').mpr (.inl hy), hycopy.coordinate⟩
  · obtain ⟨y, hy, hycopy⟩ := copy_of_seed hC hbase hns h hseed
    have hprecedes' : precedesBase base' y = true := by
      rw [precedesBase_congr hycopy, precedesBase, hcopy.checkpoint]
      exact hprecedes
    exact ⟨y, (mem_rollbackSeeds_iff hdistinct' hbase' hns').mpr (.inr ⟨hy, hprecedes'⟩),
      hycopy.coordinate⟩

end Rollback

theorem rollback_ok (C : ThreadCheckpointer) (cloneCheckpoint : Checkpoint → Checkpoint)
    {threadId id : String} {s : C.Store} {base : CheckpointTuple} {uuids : List String}
    (hroot : rootById (C.list s threadId) id = some base)
    (hfree : ∃ uuid ∈ uuids, C.list s (scratchThreadId .rollback threadId uuid) = []) :
    ∃ after, rollbackThreadCheckpointsTo C cloneCheckpoint threadId (some id) uuids ⟨s, []⟩ =
      (.ok (), after) := by
  obtain ⟨s', hs'⟩ := replaceCheckpointHistory_ok C cloneCheckpoint .rollback threadId hfree
    (rollbackKeep (C.list s threadId) base)
  have hread : rollbackThreadCheckpointsTo C cloneCheckpoint threadId (some id) uuids ⟨s, []⟩ = _ :=
    (bind_of_ok (throwIfAborted_ok C s)).trans (bind_of_ok (listCheckpoints_ok C threadId s))
  rw [hread, hroot]
  exact ⟨_, hs'⟩

/-- A rollback leaves the history alone when the base is gone; otherwise the base and its
ancestors survive with what survivors reference, the base is the newest root unless a newer
one is referenced, and a second rollback leaves the same checkpoints. -/
theorem rollback_keepsPast {C : ThreadCheckpointer} (hC : C.Lawful)
    {cloneCheckpoint : Checkpoint → Checkpoint}
    (hclone : ∀ checkpoint, cloneCheckpoint checkpoint = checkpoint)
    (threadId baseCheckpointId : String) (uuids : List String) (before : Faulty C.Store) :
    ((∀ x ∈ C.list before.state threadId, x.ns = "" → x.checkpoint.id ≠ baseCheckpointId) →
      ∀ result after,
        rollbackThreadCheckpointsTo C cloneCheckpoint threadId (some baseCheckpointId) uuids
          before = (result, after) →
        after.state = before.state) ∧
    ∀ base ∈ C.list before.state threadId, base.ns = "" → base.checkpoint.id = baseCheckpointId →
      (before.faults = [] →
        (∃ uuid ∈ uuids, C.list before.state (scratchThreadId .rollback threadId uuid) = []) →
        ∃ after,
          rollbackThreadCheckpointsTo C cloneCheckpoint threadId (some baseCheckpointId) uuids
            before = (.ok (), after)) ∧
      ∀ after,
        rollbackThreadCheckpointsTo C cloneCheckpoint threadId (some baseCheckpointId) uuids
          before = (.ok (), after) →
        RolledBackTo C (C.list before.state threadId) base (C.list after.state threadId) ∧
        ∀ uuids' faults again,
          rollbackThreadCheckpointsTo C cloneCheckpoint threadId (some baseCheckpointId) uuids'
            ⟨after.state, faults⟩ = (.ok (), again) →
          Holds C again.state threadId (C.list after.state threadId) := by
  have hdistinct := hC.nodup_coordinates before.state threadId
  have hspec := rollbackThreadCheckpointsTo_ensures threadId hC hclone before.state uuids
    baseCheckpointId
  refine ⟨fun habsent result after hrun => ?_, fun base hbase hns hid => ⟨?_, ?_⟩⟩
  · have hnone : rootById (C.list before.state threadId) baseCheckpointId = none := by
      cases hroot : rootById (C.list before.state threadId) baseCheckpointId with
      | none => rfl
      | some x =>
        obtain ⟨hx, hxns, hxid⟩ := (rootById_eq_some_iff hdistinct).mp hroot
        exact absurd hxid (habsent x hx hxns)
    rw [hnone] at hspec
    cases result with
    | ok value => exact hspec.of_ok rfl hrun
    | error e => exact hspec.of_error rfl hrun
  · intro hfaults hfree
    rcases before with ⟨s, faults⟩
    cases hfaults
    exact rollback_ok C cloneCheckpoint ((rootById_eq_some_iff hdistinct).mpr ⟨hbase, hns, hid⟩)
      hfree
  · intro after hrun
    rw [(rootById_eq_some_iff hdistinct).mpr ⟨hbase, hns, hid⟩] at hspec
    have hholds := (hspec.of_ok rfl hrun).1
    refine ⟨rolledBackTo_of_holds hC hbase hns hholds, fun uuids' faults again hagain => ?_⟩
    have hseed := (mem_rollbackSeeds_iff hdistinct hbase hns).mpr (.inl .refl)
    obtain ⟨base', hbase', hcopy⟩ := copy_of_seed hC hbase hns hholds hseed
    have hroot' : rootById (C.list after.state threadId) baseCheckpointId = some base' := by
      apply (rootById_eq_some_iff (hC.nodup_coordinates after.state threadId)).mpr
      exact ⟨hbase', hcopy.ns.trans hns, (congrArg Checkpoint.id hcopy.checkpoint).trans hid⟩
    have hspec' := rollbackThreadCheckpointsTo_ensures threadId hC hclone after.state uuids'
      baseCheckpointId
    rw [hroot'] at hspec'
    have hagain' := (hspec'.of_ok (w := ⟨after.state, faults⟩) rfl hagain).1
    rw [rollbackKeep_of_holds hC hbase hns hholds hbase' hcopy] at hagain'
    exact ⟨fun x hx => hagain'.complete x (List.mem_reverse.mpr hx), fun y hy => by
      obtain ⟨x, hx, hycopy⟩ := hagain'.exact y hy
      exact ⟨x, List.mem_reverse.mp hx, hycopy⟩⟩

/-- A base with a pending write that points at its own child. -/
def pointingRoot : CheckpointTuple where
  checkpoint := { id := "1" }
  pendingWrites := [⟨"a", "x", .obj [("checkpoint_id", .str "2")]⟩]

def pointedRoot : CheckpointTuple where
  checkpoint := { id := "2" }
  parentId := some "1"

def pointerStore : tableCheckpointer.Store :=
  TableCheckpointer.setTable (fun _ => ∅) "t" ((Table.write ∅ pointingRoot).write pointedRoot)

/-- Rolled back to "1", the history still has "2" as its newest root. -/
theorem pointerStore_newerSurvives : ∃ after,
    rollbackThreadCheckpointsTo tableCheckpointer id "t" (some "1") ["u"] ⟨pointerStore, []⟩ =
      (.ok (), after) ∧
    ∃ y ∈ tableCheckpointer.list after.state "t", y.ns = "" ∧
      tableCheckpointer.newer y.checkpoint.id "1" := by
  have hlist : tableCheckpointer.list pointerStore "t" = [pointedRoot, pointingRoot] := rfl
  have hroot : rootById (tableCheckpointer.list pointerStore "t") "1" = some pointingRoot := rfl
  have hkeep : rollbackKeep [pointedRoot, pointingRoot] pointingRoot =
      [pointingRoot, pointedRoot] := rfl
  obtain ⟨after, hrun⟩ := rollback_ok tableCheckpointer id hroot ⟨"u", List.mem_singleton_self _, rfl⟩
  have hspec := rollbackThreadCheckpointsTo_ensures "t" tableCheckpointer_lawful
    (fun _ => rfl : ∀ checkpoint, id checkpoint = checkpoint) pointerStore ["u"] "1"
  rw [hroot, hlist] at hspec
  have hholds := (hspec.of_ok rfl hrun).1
  rw [hkeep] at hholds
  obtain ⟨y, hy, hcopy⟩ := hholds.complete pointedRoot (List.mem_cons_of_mem _ List.mem_cons_self)
  refine ⟨after, hrun, y, hy, hcopy.ns, ?_⟩
  rw [hcopy.checkpoint]
  show "1" < "2"
  decide

/-- The same history rolled back to "2". -/
theorem pointerStore_rolledBack : ∃ after,
    rollbackThreadCheckpointsTo tableCheckpointer id "t" (some "2") ["u"] ⟨pointerStore, []⟩ =
      (.ok (), after) ∧
    RolledBackTo tableCheckpointer (tableCheckpointer.list pointerStore "t") pointedRoot
      (tableCheckpointer.list after.state "t") := by
  have hcontract := (rollback_keepsPast tableCheckpointer_lawful (fun _ => rfl) "t" "2" ["u"]
    ⟨pointerStore, []⟩).2 pointedRoot List.mem_cons_self rfl rfl
  obtain ⟨after, hrun⟩ := hcontract.1 rfl ⟨"u", List.mem_singleton_self _, rfl⟩
  exact ⟨after, hrun, (hcontract.2 after hrun).1⟩

end Skein
