import Skein.CheckpointHistory
import Skein.HistoryReplacement

/-!
# What a history keeps for its seeds

In a list with one tuple at a coordinate, `referencedCheckpoints` keeps exactly
the tuples that are reached from the seeds along references to tuples that exist.
A list of copies that lost no reference between kept tuples keeps all of itself
when it is asked again.
-/
namespace Skein

/-- Some tuple at `c` references the existing coordinate `c'`. -/
def Points (tuples : List CheckpointTuple) (c c' : Coordinate) : Prop :=
  ∃ x ∈ tuples, x.coordinate = c ∧ x.References c' ∧ c' ∈ tuples.map CheckpointTuple.coordinate

/-- Reached from a seed along references. -/
def ReachedFrom (tuples seeds : List CheckpointTuple) (c : Coordinate) : Prop :=
  ∃ seed ∈ seeds, Relation.ReflTransGen (Points tuples) seed.coordinate c

/-- The list has one tuple at each coordinate. -/
abbrev Distinct (tuples : List CheckpointTuple) : Prop :=
  (tuples.map CheckpointTuple.coordinate).Nodup

section Lookup
variable {tuples : List CheckpointTuple}

theorem byCoordinate_eq_some_iff (hdistinct : Distinct tuples) {c : Coordinate}
    {x : CheckpointTuple} : byCoordinate tuples c = some x ↔ x ∈ tuples ∧ x.coordinate = c := by
  constructor
  · intro h
    exact ⟨List.mem_reverse.mp (List.mem_of_find?_eq_some h), by simpa using List.find?_some h⟩
  · rintro ⟨hx, hc⟩
    rcases hfind : byCoordinate tuples c with _ | y
    · have hnone := List.find?_eq_none.mp hfind x (List.mem_reverse.mpr hx)
      simp [hc] at hnone
    · have hy : y ∈ tuples := List.mem_reverse.mp (List.mem_of_find?_eq_some hfind)
      have hyc : y.coordinate = c := by simpa using List.find?_some hfind
      rw [List.inj_on_of_nodup_map hdistinct hy hx (hyc.trans hc.symm)]

theorem byCoordinate_isSome_iff {c : Coordinate} :
    (byCoordinate tuples c).isSome = true ↔ c ∈ tuples.map CheckpointTuple.coordinate := by
  rw [byCoordinate, List.find?_isSome]
  simp [List.mem_map]

theorem mem_pointers_iff (hdistinct : Distinct tuples) {c c' : Coordinate} :
    c' ∈ pointers tuples c ↔ Points tuples c c' := by
  unfold pointers
  constructor
  · intro h
    split at h
    next x hx =>
      obtain ⟨hmem, hc⟩ := (byCoordinate_eq_some_iff hdistinct).mp hx
      obtain ⟨hmention, hexists⟩ := List.mem_filter.mp h
      exact ⟨x, hmem, hc, mem_coords_iff.mp hmention, byCoordinate_isSome_iff.mp hexists⟩
    · cases h
  · rintro ⟨x, hmem, hc, hreference, hexists⟩
    rw [(byCoordinate_eq_some_iff hdistinct).mpr ⟨hmem, hc⟩]
    exact List.mem_filter.mpr ⟨mem_coords_iff.mpr hreference, byCoordinate_isSome_iff.mpr hexists⟩

/-- The kept tuples are those reached from the seeds. -/
theorem mem_referencedCheckpoints_iff (hdistinct : Distinct tuples) {seeds : List CheckpointTuple}
    (hseeds : seeds ⊆ tuples) {x : CheckpointTuple} :
    x ∈ referencedCheckpoints tuples seeds ↔
      x ∈ tuples ∧ ReachedFrom tuples seeds x.coordinate := by
  have hnodes : ∀ c ∈ tuples.map CheckpointTuple.coordinate,
      pointers tuples c ⊆ tuples.map CheckpointTuple.coordinate := by
    intro c _ c' hc'
    obtain ⟨_, _, _, _, hexists⟩ := (mem_pointers_iff hdistinct).mp hc'
    exact hexists
  have hpoints : (fun c c' => c' ∈ pointers tuples c) = Points tuples :=
    funext fun c => funext fun c' => propext (mem_pointers_iff hdistinct)
  have hclosure := Reachability.mem_closure_iff hnodes (List.map_subset _ hseeds)
    (Nat.le_of_eq (List.length_map CheckpointTuple.coordinate)) x.coordinate
  rw [hpoints] at hclosure
  simp only [referencedCheckpoints, List.mem_filter, decide_eq_true_eq, hclosure, List.mem_map,
    exists_exists_and_eq_and, ReachedFrom]

theorem ReachedFrom.mem {seeds : List CheckpointTuple} (hseeds : seeds ⊆ tuples) {c : Coordinate}
    (h : ReachedFrom tuples seeds c) : c ∈ tuples.map CheckpointTuple.coordinate := by
  obtain ⟨seed, hseed, hpath⟩ := h
  cases hpath with
  | refl => exact List.mem_map.mpr ⟨seed, hseeds hseed, rfl⟩
  | tail _ hstep =>
    obtain ⟨_, _, _, _, hexists⟩ := hstep
    exact hexists

theorem ReachedFrom.step {seeds : List CheckpointTuple} {c c' : Coordinate}
    (h : ReachedFrom tuples seeds c) (hstep : Points tuples c c') : ReachedFrom tuples seeds c' := by
  obtain ⟨seed, hseed, hpath⟩ := h
  exact ⟨seed, hseed, hpath.tail hstep⟩

end Lookup

/-- A list whose tuples stand for the reached ones, with every reference between them. -/
structure Mirrors (copies tuples seeds : List CheckpointTuple) : Prop where
  reached : ∀ y ∈ copies, ReachedFrom tuples seeds y.coordinate
  stands : ∀ x ∈ tuples, ReachedFrom tuples seeds x.coordinate → ∃ y ∈ copies,
    y.coordinate = x.coordinate ∧
      ∀ c, x.References c → ReachedFrom tuples seeds c → y.References c

/-- Asked again with the same seeds, a mirror keeps all of itself. -/
theorem Mirrors.referencedCheckpoints_eq {copies tuples seeds seeds' : List CheckpointTuple}
    (h : Mirrors copies tuples seeds) (hdistinct : Distinct copies)
    (hsub : seeds' ⊆ copies)
    (hsame : ∀ seed ∈ seeds, ∃ seed' ∈ seeds', seed'.coordinate = seed.coordinate) :
    referencedCheckpoints copies seeds' = copies := by
  have hreach : ∀ {a c}, Relation.ReflTransGen (Points tuples) a c →
      (∃ seed ∈ seeds, seed.coordinate = a) → ReachedFrom copies seeds' c := by
    intro a c hpath
    rintro ⟨seed, hseed, rfl⟩
    induction hpath with
    | refl =>
      obtain ⟨seed', hseed', heq⟩ := hsame seed hseed
      exact ⟨seed', hseed', heq ▸ .refl⟩
    | @tail c c' hpath hstep ih =>
      have hc : ReachedFrom tuples seeds c := ⟨seed, hseed, hpath⟩
      have hc' := hc.step hstep
      obtain ⟨x, hx, rfl, hreference, hexists⟩ := hstep
      obtain ⟨y, hy, hyc, hkeeps⟩ := h.stands x hx hc
      obtain ⟨x', hx', rfl⟩ := List.mem_map.mp hexists
      obtain ⟨y', hy', hyc', _⟩ := h.stands x' hx' hc'
      exact ih.step ⟨y, hy, hyc, hkeeps _ hreference hc', hyc' ▸ List.mem_map.mpr ⟨y', hy', rfl⟩⟩
  apply (referencedCheckpoints_sublist copies seeds').eq_of_length_le
  apply List.Nodup.length_le_of_subset (List.Nodup.of_map _ hdistinct)
  intro y hy
  obtain ⟨seed, hseed, hpath⟩ := h.reached y hy
  exact (mem_referencedCheckpoints_iff hdistinct hsub).mpr ⟨hy, hreach hpath ⟨seed, hseed, rfl⟩⟩

end Skein
