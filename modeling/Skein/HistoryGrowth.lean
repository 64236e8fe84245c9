import Skein.HistoryRollback

/-!
# A growing history

Graphs only add checkpoints and pending writes. What a rollback to some base keeps of a
history it also keeps of a grown one, because the ancestors of the base, the stamps of the
children and every reference are still there.
-/
namespace Skein

/-- `y` is `x` with further pending writes. -/
structure Grown (y x : CheckpointTuple) : Prop where
  ns : y.ns = x.ns
  checkpoint : y.checkpoint = x.checkpoint
  metadata : y.metadata = x.metadata
  parentId : y.parentId = x.parentId
  pendingWrites : x.pendingWrites ⊆ y.pendingWrites

namespace Grown
variable {x y : CheckpointTuple}

theorem refl (x : CheckpointTuple) : Grown x x := ⟨rfl, rfl, rfl, rfl, List.Subset.refl _⟩

theorem coordinate (h : Grown y x) : y.coordinate = x.coordinate := by
  rw [CheckpointTuple.coordinate, CheckpointTuple.coordinate, h.ns, h.checkpoint]

theorem references (h : Grown y x) {c : Coordinate} (href : x.References c) : y.References c := by
  rw [CheckpointTuple.references_iff] at href ⊢
  rcases href with hself | hdata | hmetadata | ⟨write, hwrite, hmention⟩ | ⟨hneeds, hparent⟩
  · exact .inl (hself.trans h.coordinate.symm)
  · exact .inr (.inl (h.checkpoint ▸ hdata))
  · exact .inr (.inr (.inl (h.metadata ▸ hmetadata)))
  · exact .inr (.inr (.inr (.inl ⟨write, h.pendingWrites hwrite, hmention⟩)))
  · refine .inr (.inr (.inr (.inr ⟨?_, ?_⟩)))
    · simpa [CheckpointTuple.NeedsParent, countsDeltas, CheckpointTuple.fields, List.lookup_cons,
        h.metadata] using hneeds
    · rw [← hparent, CheckpointTuple.parentCoordinate, CheckpointTuple.parentCoordinate, h.ns,
        h.parentId]

theorem precedesBase (h : Grown y x) {base base' : CheckpointTuple} (hbase : Grown base' base) :
    precedesBase base' y = precedesBase base x := by
  rw [Skein.precedesBase, Skein.precedesBase, h.ns, h.checkpoint, hbase.checkpoint]

end Grown

/-- Checkpoints and pending writes are added; nothing listed is removed or altered. -/
def Extends (before after : List CheckpointTuple) : Prop :=
  ∀ x ∈ before, ∃ y ∈ after, Grown y x

namespace Extends
variable {before after : List CheckpointTuple}

theorem mem_coordinates (h : Extends before after) {c : Coordinate}
    (hc : c ∈ before.map CheckpointTuple.coordinate) :
    c ∈ after.map CheckpointTuple.coordinate := by
  obtain ⟨x, hx, rfl⟩ := List.mem_map.mp hc
  obtain ⟨y, hy, hgrown⟩ := h x hx
  exact List.mem_map.mpr ⟨y, hy, hgrown.coordinate⟩

theorem points (h : Extends before after) {c c' : Coordinate} (hpoints : Points before c c') :
    Points after c c' := by
  obtain ⟨x, hx, hc, href, hexists⟩ := hpoints
  obtain ⟨y, hy, hgrown⟩ := h x hx
  exact ⟨y, hy, hgrown.coordinate.trans hc, hgrown.references href, h.mem_coordinates hexists⟩

theorem isAncestor (h : Extends before after) {base base' x : CheckpointTuple}
    (hbase : Grown base' base) (hx : IsAncestor before base x) :
    ∃ y, Grown y x ∧ IsAncestor after base' y := by
  induction hx with
  | refl => exact ⟨base', hbase, .refl⟩
  | @tail x z _ hstep ih =>
    obtain ⟨y, hy, hancestor⟩ := ih
    obtain ⟨u, hu, hgrown⟩ := h z hstep.1
    refine ⟨u, hgrown, hancestor.tail ⟨hu, hgrown.ns.trans hstep.2.1, ?_⟩⟩
    rw [hy.parentId, hgrown.checkpoint]
    exact hstep.2.2

/-- A tuple that a rollback keeps is kept after the history has grown. -/
theorem mem_rollbackKeep (h : Extends before after) (hbefore : Distinct before)
    (hafter : Distinct after) {base base' x y : CheckpointTuple} (hbase : base ∈ before)
    (hbase' : base' ∈ after) (hgrown : Grown base' base) (hns : base.ns = "")
    (hx : x ∈ rollbackKeep before base) (hy : y ∈ after) (hcoordinate : y.coordinate = x.coordinate) :
    y ∈ rollbackKeep after base' := by
  have hns' : base'.ns = "" := hgrown.ns.trans hns
  obtain ⟨-, seed, hseed, hpath⟩ := (mem_rollbackKeep_iff hbefore hbase hns).mp hx
  have hseed' : ∃ seed' ∈ rollbackSeeds after base', seed'.coordinate = seed.coordinate := by
    rcases (mem_rollbackSeeds_iff hbefore hbase hns).mp hseed with hancestor | ⟨hmem, hprecedes⟩
    · obtain ⟨u, hu, hancestor'⟩ := h.isAncestor hgrown hancestor
      exact ⟨u, (mem_rollbackSeeds_iff hafter hbase' hns').mpr (.inl hancestor'), hu.coordinate⟩
    · obtain ⟨u, hu, hgrows⟩ := h seed hmem
      refine ⟨u, (mem_rollbackSeeds_iff hafter hbase' hns').mpr (.inr ⟨hu, ?_⟩), hgrows.coordinate⟩
      rw [hgrows.precedesBase hgrown, hprecedes]
  obtain ⟨seed', hseed', heq⟩ := hseed'
  apply (mem_rollbackKeep_iff hafter hbase' hns').mpr
  refine ⟨hy, seed', hseed', ?_⟩
  rw [hcoordinate, heq]
  exact hpath.lift id fun _ _ hpoints => h.points hpoints

/-- The base of a rollback is found again in a grown history. -/
theorem rootById (h : Extends before after) (hbefore : Distinct before) (hafter : Distinct after)
    {id : String} {base : CheckpointTuple} (hroot : rootById before id = some base) :
    ∃ base', Skein.rootById after id = some base' ∧ Grown base' base := by
  obtain ⟨hmem, hns, rfl⟩ := (rootById_eq_some_iff hbefore).mp hroot
  obtain ⟨base', hbase', hgrown⟩ := h base hmem
  refine ⟨base', (rootById_eq_some_iff hafter).mpr ⟨hbase', hgrown.ns.trans hns, ?_⟩, hgrown⟩
  rw [hgrown.checkpoint]

end Extends

/-- A call on the saver that only adds to a thread's history. -/
structure GraphWrite (C : ThreadCheckpointer) (threadId : String) where
  write : C.Store → C.Store
  adds : ∀ store, Extends (C.list store threadId) (C.list (write store) threadId)

namespace GraphWrite
variable {C : ThreadCheckpointer} (hC : C.Lawful) (threadId : String)

/-- A new checkpoint; a call whose coordinate is taken is none of a graph's. -/
def put (tuple : CheckpointTuple) : GraphWrite C threadId where
  write := fun store =>
    if tuple.coordinate ∈ (C.list store threadId).map CheckpointTuple.coordinate then store
    else C.put store ⟨threadId, tuple.ns, tuple.parentId⟩ tuple.checkpoint tuple.metadata
      tuple.checkpoint.channelVersions
  adds := by
    intro store x hx
    split_ifs with htaken
    · exact ⟨x, hx, .refl x⟩
    · refine ⟨x, ?_, .refl x⟩
      apply (hC.list_put store ⟨threadId, tuple.ns, tuple.parentId⟩ tuple.checkpoint
        tuple.metadata ?_ x).mpr (.inl hx)
      intro z hz hcoordinate
      exact htaken (List.mem_map.mpr ⟨z, hz, hcoordinate⟩)

/-- The first writes of a task on the tuple at a coordinate. -/
def putWrites (c : Coordinate) (writes : List (String × Value)) (taskId : String) :
    GraphWrite C threadId where
  write := fun store =>
    match byCoordinate (C.list store threadId) c with
    | some y =>
      if ∀ w ∈ y.pendingWrites, w.taskId ≠ taskId then
        C.putWrites store ⟨threadId, c.ns, some c.id⟩ writes taskId
      else store
    | none => store
  adds := by
    intro store x hx
    cases hfound : byCoordinate (C.list store threadId) c with
    | none => exact ⟨x, hx, .refl x⟩
    | some y =>
      dsimp only
      split_ifs with hnew
      · obtain ⟨hy, rfl⟩ :=
          (byCoordinate_eq_some_iff (hC.nodup_coordinates store threadId)).mp hfound
        obtain ⟨recorded, hsame, hlist⟩ := hC.list_putWrites store
          ⟨threadId, y.coordinate.ns, some y.coordinate.id⟩ writes taskId y hy rfl rfl hnew
        by_cases hxy : x = y
        · refine ⟨{ y with pendingWrites := recorded }, (hlist _).mpr (.inr rfl), ?_⟩
          subst hxy
          refine ⟨rfl, rfl, rfl, rfl, fun w hw => ?_⟩
          exact CheckpointTuple.SameWrites.mem (fun task channel => (hsame task channel).symm)
            (List.mem_append_left _ hw)
        · exact ⟨x, (hlist x).mpr (.inl ⟨hx, hxy⟩), .refl x⟩
      · exact ⟨x, hx, .refl x⟩

end GraphWrite
end Skein
