import Mathlib.Data.List.Basic

/-!
# Labelled machines and their runs

A machine is a partial step function: `none` says that a label is not enabled.
Runs are finite label sequences, so every statement about all interleavings of a
system is a statement about all label lists. Three rules carry the proofs: an
invariant of the steps holds along a run, a preorder that every step respects
relates the two ends of a run, and both remain true when each step is only
required to respect a side condition that holds along the run.
-/
namespace Skein

/-- A labelled transition system whose labels resolve all nondeterminism. -/
structure Machine (σ α : Type*) where
  step : σ → α → Option σ

namespace Machine
variable {σ α : Type*} (M : Machine σ α)

/-- Execute a label list; `none` as soon as one label is not enabled. -/
def run : σ → List α → Option σ
  | s, [] => some s
  | s, a :: as => (M.step s a).bind fun t => run t as

@[simp] theorem run_nil (s : σ) : M.run s [] = some s := rfl

theorem run_cons_eq_some {s t : σ} {a : α} {as : List α} :
    M.run s (a :: as) = some t ↔ ∃ u, M.step s a = some u ∧ M.run u as = some t := by
  simp [run, Option.bind_eq_some_iff]

theorem run_append (s : σ) (as bs : List α) :
    M.run s (as ++ bs) = (M.run s as).bind fun t => M.run t bs := by
  induction as generalizing s with
  | nil => rfl
  | cons a as ih =>
    simp only [List.cons_append, run]
    cases M.step s a with
    | none => rfl
    | some t => exact ih t

theorem run_append_of_run {s t u : σ} {as bs : List α} (h : M.run s as = some t)
    (h' : M.run t bs = some u) : M.run s (as ++ bs) = some u := by
  rw [run_append, h]
  exact h'

/-- States reached by some run from `s`. -/
def Reachable (s t : σ) : Prop := ∃ as, M.run s as = some t

theorem Reachable.refl (s : σ) : M.Reachable s s := ⟨[], rfl⟩

variable {M}

theorem Reachable.step {s t u : σ} {a : α} (h : M.Reachable s t) (hu : M.step t a = some u) :
    M.Reachable s u := by
  obtain ⟨as, has⟩ := h
  exact ⟨as ++ [a], M.run_append_of_run has (by simp [run, hu])⟩

theorem Reachable.trans {s t u : σ} (h : M.Reachable s t) (h' : M.Reachable t u) :
    M.Reachable s u := by
  obtain ⟨as, has⟩ := h
  obtain ⟨bs, hbs⟩ := h'
  exact ⟨as ++ bs, M.run_append_of_run has hbs⟩

theorem Reachable.run {s t u : σ} {as : List α} (h : M.Reachable s t)
    (hu : M.run t as = some u) : M.Reachable s u := by
  obtain ⟨bs, hbs⟩ := h
  exact ⟨bs ++ as, M.run_append_of_run hbs hu⟩

/-- A property preserved by every step holds at the end of every run. -/
theorem run_invariant {I : σ → Prop} (hstep : ∀ s a t, I s → M.step s a = some t → I t)
    {s t : σ} {as : List α} (hs : I s) (h : M.run s as = some t) : I t := by
  induction as generalizing s with
  | nil => simpa using (Option.some.inj h) ▸ hs
  | cons a as ih =>
    obtain ⟨u, hu, hrun⟩ := (M.run_cons_eq_some).mp h
    exact ih (hstep s a u hs hu) hrun

theorem Reachable.invariant {I : σ → Prop}
    (hstep : ∀ s a t, I s → M.step s a = some t → I t) {s t : σ} (hs : I s)
    (h : M.Reachable s t) : I t := by
  obtain ⟨as, has⟩ := h
  exact run_invariant hstep hs has

/-- A preorder respected by every step from an invariant state relates the two
ends of every run: the rule behind every monotone quantity and frozen field. -/
theorem run_relation {I : σ → Prop} {R : σ → σ → Prop}
    (hinv : ∀ s a t, I s → M.step s a = some t → I t) (hrefl : ∀ s, R s s)
    (htrans : ∀ s t u, R s t → R t u → R s u)
    (hstep : ∀ s a t, I s → M.step s a = some t → R s t)
    {s t : σ} {as : List α} (hs : I s) (h : M.run s as = some t) : R s t := by
  induction as generalizing s with
  | nil => exact (Option.some.inj h) ▸ hrefl s
  | cons a as ih =>
    obtain ⟨u, hu, hrun⟩ := (M.run_cons_eq_some).mp h
    exact htrans s u t (hstep s a u hs hu) (ih (hinv s a u hs hu) hrun)

variable (M) in
/-- Every step of the label list is taken in a state where `C` allows it. -/
def Along (C : σ → α → Prop) : σ → List α → Prop
  | _, [] => True
  | s, a :: as => C s a ∧ (M.step s a).elim True fun t => Along C t as

instance decidableAlong (C : σ → α → Prop) [∀ s a, Decidable (C s a)] :
    ∀ s as, Decidable (M.Along C s as)
  | _, [] => isTrue trivial
  | s, a :: as =>
    match h : M.step s a with
    | none => decidable_of_iff (C s a) (by simp [Along, h])
    | some t =>
      have := decidableAlong C t as
      decidable_of_iff (C s a ∧ M.Along C t as) (by simp [Along, h])

theorem along_cons {C : σ → α → Prop} {s t : σ} {a : α} {as : List α}
    (h : M.Along C s (a :: as)) (ht : M.step s a = some t) : C s a ∧ M.Along C t as := by
  simpa [Along, ht] using h

/-- The side condition of a run restricts to what remains after a prefix of it. -/
theorem along_append {C : σ → α → Prop} {s t : σ} {as bs : List α}
    (h : M.Along C s (as ++ bs)) (ht : M.run s as = some t) :
    M.Along C s as ∧ M.Along C t bs := by
  induction as generalizing s with
  | nil => exact ⟨trivial, (Option.some.inj ht) ▸ h⟩
  | cons a as ih =>
    obtain ⟨u, hu, hrun⟩ := (M.run_cons_eq_some).mp ht
    obtain ⟨hc, hrest⟩ := along_cons h hu
    obtain ⟨has, hbs⟩ := ih hrest hrun
    exact ⟨by simpa [Along, hu] using ⟨hc, has⟩, hbs⟩

/-- A side condition met by every step a complete run takes holds along the run. -/
theorem along_of_steps {C : σ → α → Prop} {s t : σ} {as : List α} (h : M.run s as = some t)
    (hsteps : ∀ before a u v, before ++ [a] <+: as → M.run s before = some u →
      M.step u a = some v → C u a) : M.Along C s as := by
  induction as generalizing s with
  | nil => exact trivial
  | cons a as ih =>
    obtain ⟨u, hu, hrun⟩ := (M.run_cons_eq_some).mp h
    have hca : C s a := hsteps [] a s u ⟨as, rfl⟩ rfl hu
    have hrest : M.Along C u as := ih hrun fun before b v v' hprefix hv hv' =>
      hsteps (a :: before) b v v' (by simpa using hprefix) ((M.run_cons_eq_some).mpr ⟨u, hu, hv⟩)
        hv'
    simpa [Along, hu] using ⟨hca, hrest⟩

theorem Along.mono {C D : σ → α → Prop} (h : ∀ s a, C s a → D s a) {s : σ} {as : List α}
    (hc : M.Along C s as) : M.Along D s as := by
  induction as generalizing s with
  | nil => exact trivial
  | cons a as ih =>
    refine ⟨h s a hc.1, ?_⟩
    have hrest := hc.2
    cases hstep : M.step s a with
    | none => exact trivial
    | some t =>
      rw [hstep] at hrest
      exact ih hrest

/-- Two side conditions that hold along a run. -/
theorem along_and {C D : σ → α → Prop} {s : σ} {as : List α} (hc : M.Along C s as)
    (hd : M.Along D s as) : M.Along (fun s a => C s a ∧ D s a) s as := by
  induction as generalizing s with
  | nil => exact trivial
  | cons a as ih =>
    refine ⟨⟨hc.1, hd.1⟩, ?_⟩
    have hcrest := hc.2
    have hdrest := hd.2
    cases hstep : M.step s a with
    | none => exact trivial
    | some t =>
      rw [hstep] at hcrest hdrest
      exact ih hcrest hdrest

/-- A side condition that holds of an action in every state holds along every run. -/
theorem along_of_forall {C : σ → α → Prop} {as : List α} (h : ∀ a ∈ as, ∀ s, C s a) (s : σ) :
    M.Along C s as := by
  induction as generalizing s with
  | nil => exact trivial
  | cons a as ih =>
    refine ⟨h a List.mem_cons_self s, ?_⟩
    cases M.step s a with
    | none => exact trivial
    | some t => exact ih (fun b hb => h b (List.mem_cons_of_mem a hb)) t

/-- The invariant rule under a side condition on the steps taken. -/
theorem run_invariant_along {I : σ → Prop} {C : σ → α → Prop}
    (hstep : ∀ s a t, I s → C s a → M.step s a = some t → I t)
    {s t : σ} {as : List α} (hs : I s) (hc : M.Along C s as) (h : M.run s as = some t) :
    I t := by
  induction as generalizing s with
  | nil => exact (Option.some.inj h) ▸ hs
  | cons a as ih =>
    obtain ⟨u, hu, hrun⟩ := (M.run_cons_eq_some).mp h
    obtain ⟨hca, hrest⟩ := along_cons hc hu
    exact ih (hstep s a u hs hca hu) hrest hrun

/-- A property that a step keeps exactly under a side condition holds at the end of a run
exactly where it held at its start and the condition holds along the run. -/
theorem run_iff_along {I P : σ → Prop} {C : σ → α → Prop}
    (hinv : ∀ s a t, I s → M.step s a = some t → I t)
    (hstep : ∀ s a t, I s → M.step s a = some t → (P t ↔ P s ∧ C s a))
    {s t : σ} {as : List α} (hs : I s) (h : M.run s as = some t) :
    P t ↔ P s ∧ M.Along C s as := by
  induction as generalizing s with
  | nil =>
    obtain rfl := Option.some.inj h
    simp [Along]
  | cons a as ih =>
    obtain ⟨u, hu, hrun⟩ := (M.run_cons_eq_some).mp h
    rw [ih (hinv s a u hs hu) hrun, hstep s a u hs hu]
    simp [Along, hu, and_assoc]

/-- An invariant that lasts under a side condition, and what holds for good once the condition
was missed. -/
theorem run_along_or {I B : σ → Prop} {C : σ → α → Prop}
    (hkeep : ∀ s a t, I s → C s a → M.step s a = some t → I t)
    (hbreak : ∀ s a t, I s → ¬C s a → M.step s a = some t → B t)
    (hstay : ∀ s a t, B s → M.step s a = some t → B t)
    {s t : σ} {as : List α} (hs : I s) (h : M.run s as = some t) :
    M.Along C s as ∧ I t ∨ ¬M.Along C s as ∧ B t := by
  induction as generalizing s with
  | nil => exact .inl ⟨trivial, (Option.some.inj h) ▸ hs⟩
  | cons a as ih =>
    obtain ⟨u, hu, hrun⟩ := (M.run_cons_eq_some).mp h
    by_cases hca : C s a
    · refine (ih (hkeep s a u hs hca hu) hrun).imp (fun hrest => ⟨?_, hrest.2⟩)
        fun hrest => ⟨fun hall => hrest.1 (along_cons hall hu).2, hrest.2⟩
      simpa [Along, hu] using And.intro hca hrest.1
    · exact .inr ⟨fun hall => hca hall.1, run_invariant hstay (hbreak s a u hs hca hu) hrun⟩

/-- The preorder rule under a side condition on the steps taken. -/
theorem run_relation_along {I : σ → Prop} {R : σ → σ → Prop} {C : σ → α → Prop}
    (hinv : ∀ s a t, I s → C s a → M.step s a = some t → I t) (hrefl : ∀ s, R s s)
    (htrans : ∀ s t u, R s t → R t u → R s u)
    (hstep : ∀ s a t, I s → C s a → M.step s a = some t → R s t)
    {s t : σ} {as : List α} (hs : I s) (hc : M.Along C s as) (h : M.run s as = some t) :
    R s t := by
  induction as generalizing s with
  | nil => exact (Option.some.inj h) ▸ hrefl s
  | cons a as ih =>
    obtain ⟨u, hu, hrun⟩ := (M.run_cons_eq_some).mp h
    obtain ⟨hca, hrest⟩ := along_cons hc hu
    exact htrans s u t (hstep s a u hs hca hu) (ih (hinv s a u hs hca hu) hrest hrun)

/-- Two side conditions that an invariant makes the same. -/
theorem along_congr {I : σ → Prop} {C D : σ → α → Prop}
    (hinv : ∀ s a t, I s → M.step s a = some t → I t)
    (h : ∀ s a, I s → (C s a ↔ D s a)) {s : σ} (hs : I s) (as : List α) :
    M.Along C s as ↔ M.Along D s as := by
  induction as generalizing s with
  | nil => exact Iff.rfl
  | cons a as ih =>
    refine and_congr (h s a hs) ?_
    cases hstep : M.step s a with
    | none => exact Iff.rfl
    | some t => exact ih (hinv s a t hs hstep)

end Machine
end Skein
