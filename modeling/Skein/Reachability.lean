import Mathlib.Data.List.Basic
import Mathlib.Logic.Relation

/-!
# Depth-first closure of a finite graph

`visit` walks the successors of a node as soon as the node is met and keeps one
list of what it has met, so it stops on cycles. Its fuel bounds the depth only:
every level of the recursion keeps one more node of the graph. `closure`
starts from nodes that are kept from the beginning, and with fuel for the whole
graph its members are exactly the nodes reachable from them.
-/
namespace Skein
namespace Reachability
variable {α : Type*} [DecidableEq α] (next : α → List α)

/-- Meet every node of `todo` in order, and what it leads to before the next one. -/
def visit : ℕ → List α → List α → List α
  | 0, kept, _ => kept
  | fuel + 1, kept, todo => todo.foldl
      (fun kept a => if a ∈ kept then kept else visit fuel (a :: kept) (next a)) kept

def closure (fuel : ℕ) (seeds : List α) : List α :=
  visit next fuel seeds (seeds.flatMap next)

/-- What a complete visit of `todo` adds to the nodes kept before it. -/
structure Closes (kept todo result : List α) : Prop where
  keeps : kept ⊆ result
  covers : todo ⊆ result
  closed : ∀ b ∈ result, b ∈ kept ∨ next b ⊆ result
  reached : ∀ b ∈ result, b ∈ kept ∨
    ∃ a ∈ todo, Relation.ReflTransGen (fun x y => y ∈ next x) a b

variable {next}

omit [DecidableEq α] in
theorem Closes.nil (kept : List α) : Closes next kept [] kept where
  keeps := fun _ h => h
  covers := List.nil_subset kept
  closed := fun _ h => .inl h
  reached := fun _ h => .inl h

omit [DecidableEq α] in
theorem Closes.known {kept : List α} {a : α} (h : a ∈ kept) : Closes next kept [a] kept where
  keeps := fun _ h => h
  covers := List.cons_subset.mpr ⟨h, List.nil_subset kept⟩
  closed := fun _ h => .inl h
  reached := fun _ h => .inl h

omit [DecidableEq α] in
theorem Closes.enter {kept result : List α} {a : α}
    (h : Closes next (a :: kept) (next a) result) : Closes next kept [a] result where
  keeps := fun _ hb => h.keeps (List.mem_cons_of_mem a hb)
  covers := List.cons_subset.mpr ⟨h.keeps List.mem_cons_self, List.nil_subset result⟩
  closed := by
    intro b hb
    rcases h.closed b hb with hkept | hnext
    · rcases List.mem_cons.mp hkept with rfl | hkept
      · exact .inr h.covers
      · exact .inl hkept
    · exact .inr hnext
  reached := by
    intro b hb
    rcases h.reached b hb with hkept | ⟨c, hc, hcb⟩
    · rcases List.mem_cons.mp hkept with rfl | hkept
      · exact .inr ⟨b, List.mem_singleton_self b, .refl⟩
      · exact .inl hkept
    · exact .inr ⟨a, List.mem_singleton_self a, .head hc hcb⟩

omit [DecidableEq α] in
theorem Closes.cons {kept mid result rest : List α} {a : α} (hfirst : Closes next kept [a] mid)
    (hrest : Closes next mid rest result) : Closes next kept (a :: rest) result where
  keeps := fun _ hb => hrest.keeps (hfirst.keeps hb)
  covers := by
    apply List.cons_subset.mpr
    exact ⟨hrest.keeps (hfirst.covers (List.mem_singleton_self a)), hrest.covers⟩
  closed := by
    intro b hb
    rcases hrest.closed b hb with hmid | hnext
    · exact (hfirst.closed b hmid).imp_right fun h => fun _ hc => hrest.keeps (h hc)
    · exact .inr hnext
  reached := by
    intro b hb
    rcases hrest.reached b hb with hmid | ⟨c, hc, hcb⟩
    · rcases hfirst.reached b hmid with hkept | ⟨c, hc, hcb⟩
      · exact .inl hkept
      · exact .inr ⟨c, List.mem_cons.mpr (.inl (List.mem_singleton.mp hc)), hcb⟩
    · exact .inr ⟨c, List.mem_cons_of_mem a hc, hcb⟩

/-- The nodes that are still to be met. -/
def unmet (nodes kept : List α) : ℕ := nodes.countP fun a => a ∉ kept

theorem unmet_cons (b : α) (nodes kept : List α) :
    unmet (b :: nodes) kept = unmet nodes kept + if b ∈ kept then 0 else 1 := by
  by_cases h : b ∈ kept <;> simp [unmet, h]

theorem unmet_mono {nodes kept kept' : List α} (h : kept ⊆ kept') :
    unmet nodes kept' ≤ unmet nodes kept := by
  apply List.countP_mono_left
  intro a _ ha
  simp only [decide_eq_true_eq] at ha ⊢
  exact fun hk => ha (h hk)

theorem unmet_cons_lt {nodes kept : List α} {a : α} (hu : a ∈ nodes) (hk : a ∉ kept) :
    unmet nodes (a :: kept) < unmet nodes kept := by
  induction nodes with
  | nil => cases hu
  | cons b rest ih =>
    have hrest : unmet rest (a :: kept) ≤ unmet rest kept :=
      unmet_mono (List.subset_cons_self a kept)
    rw [unmet_cons, unmet_cons]
    by_cases hb : b = a
    · subst hb
      rw [if_pos List.mem_cons_self, if_neg hk]
      omega
    · have hlt := ih ((List.mem_cons.mp hu).resolve_left (Ne.symm hb))
      simp only [List.mem_cons, hb, false_or]
      omega

theorem mem_of_unmet_eq_zero {nodes kept : List α} (h : unmet nodes kept = 0) :
    nodes ⊆ kept := by
  intro a ha
  have := List.countP_eq_zero.mp h a ha
  simpa using this

/-- Fuel for the unmet part of a node list closed under `next` completes the visit. -/
theorem visit_closes {nodes : List α} (hnodes : ∀ a ∈ nodes, next a ⊆ nodes)
    (fuel : ℕ) (kept todo : List α) (htodo : todo ⊆ nodes)
    (hfuel : unmet nodes kept ≤ fuel) : Closes next kept todo (visit next fuel kept todo) := by
  induction fuel generalizing kept todo with
  | zero =>
    have hall : nodes ⊆ kept := mem_of_unmet_eq_zero (Nat.le_zero.mp hfuel)
    exact ⟨fun _ h => h, fun _ h => hall (htodo h), fun _ h => .inl h, fun _ h => .inl h⟩
  | succ fuel ih =>
    induction todo generalizing kept with
    | nil => exact .nil kept
    | cons a rest ihrest =>
      obtain ⟨ha, hrest⟩ := List.cons_subset.mp htodo
      by_cases hk : a ∈ kept
      · have htail := ihrest kept hrest hfuel
        apply Closes.cons (.known hk)
        simpa only [visit, List.foldl_cons, if_pos hk] using htail
      · have hlt := unmet_cons_lt ha hk
        have hfirst := ih (a :: kept) (next a) (hnodes a ha) (by omega)
        have hle : unmet nodes _ ≤ unmet nodes kept := unmet_mono hfirst.enter.keeps
        have htail := ihrest _ hrest (Nat.le_trans hle hfuel)
        apply Closes.cons hfirst.enter
        simpa only [visit, List.foldl_cons, if_neg hk] using htail

/-- The closure holds exactly what the seeds reach. -/
theorem mem_closure_iff {nodes seeds : List α} (hnodes : ∀ a ∈ nodes, next a ⊆ nodes)
    (hseeds : seeds ⊆ nodes) {fuel : ℕ} (hfuel : nodes.length ≤ fuel) (b : α) :
    b ∈ closure next fuel seeds ↔
      ∃ a ∈ seeds, Relation.ReflTransGen (fun x y => y ∈ next x) a b := by
  have htodo : seeds.flatMap next ⊆ nodes := by
    intro c hc
    obtain ⟨a, ha, hca⟩ := List.mem_flatMap.mp hc
    exact hnodes a (hseeds ha) hca
  have hvisit : Closes next seeds (seeds.flatMap next) (closure next fuel seeds) :=
    visit_closes hnodes fuel seeds _ htodo (Nat.le_trans List.countP_le_length hfuel)
  have hclosed : ∀ a ∈ closure next fuel seeds, next a ⊆ closure next fuel seeds := by
    intro a ha
    rcases hvisit.closed a ha with hseed | hnext
    · exact fun c hc => hvisit.covers (List.mem_flatMap.mpr ⟨a, hseed, hc⟩)
    · exact hnext
  constructor
  · intro hb
    rcases hvisit.reached b hb with hseed | ⟨c, hc, hcb⟩
    · exact ⟨b, hseed, .refl⟩
    · obtain ⟨a, ha, hca⟩ := List.mem_flatMap.mp hc
      exact ⟨a, ha, .head hca hcb⟩
  · rintro ⟨a, ha, hab⟩
    induction hab with
    | refl => exact hvisit.keeps ha
    | tail _ hstep ih => exact hclosed _ ih hstep

omit [DecidableEq α] in
/-- What is reached from somewhere else is entered from a different node. -/
theorem exists_entry {r : α → α → Prop} {a b : α} (h : Relation.ReflTransGen r a b)
    (hne : a ≠ b) : ∃ c, c ≠ b ∧ Relation.ReflTransGen r a c ∧ r c b := by
  induction h with
  | refl => exact absurd rfl hne
  | @tail c d hac hcd ih =>
    by_cases hc : c = d
    · subst hc
      exact ih hne
    · exact ⟨c, hc, hac, hcd⟩

end Reachability
end Skein
