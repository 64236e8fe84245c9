import Mathlib.Data.List.Basic
import Mathlib.Tactic.Basic
import Skein.Machine

/-!
# Interleaved processes over shared state

Cooperative concurrency at the granularity of suspension points. A pool holds the
shared state and the local state of every process started so far; a process is
named by its position, so names are never reused. One action runs one process up
to its next suspension point, starts a process, or lets the environment act.

Safety is proved by interference freedom: a global invariant together with an
assertion about each local state, where a step keeps both for the process that
moves and keeps the assertion of every other process.
-/
namespace Skein

/-- The code every process of a pool executes. `ι` is what the environment decides
at a suspension point: an outcome, a clock reading, a generated identifier. -/
structure Program (σ π ε ι : Type*) where
  env : σ → ε → Option σ
  start : σ → ℕ → π → Option σ
  resume : σ → ℕ → π → ι → Option (σ × π)

structure Pool (σ π : Type*) where
  shared : σ
  procs : List π
  deriving DecidableEq, Repr

/-- One scheduler decision. -/
inductive Action (ε π ι : Type*)
  | env (e : ε)
  | spawn (p : π)
  | resume (i : ℕ) (x : ι)
  deriving DecidableEq, Repr

namespace Program
variable {σ π ε ι : Type*} (P : Program σ π ε ι)

def step (w : Pool σ π) : Action ε π ι → Option (Pool σ π)
  | .env e => (P.env w.shared e).map fun s => { w with shared := s }
  | .spawn p => (P.start w.shared w.procs.length p).map fun s => ⟨s, w.procs ++ [p]⟩
  | .resume i x => w.procs[i]?.bind fun p =>
      (P.resume w.shared i p x).map fun r => ⟨r.1, w.procs.set i r.2⟩

/-- All interleavings of the program, as one machine. -/
def machine : Machine (Pool σ π) (Action ε π ι) := ⟨P.step⟩

/-- What one scheduler decision can do, with the guard it passed. -/
theorem step_cases {w w' : Pool σ π} {a : Action ε π ι} (h : P.step w a = some w') :
    (∃ e s, a = .env e ∧ P.env w.shared e = some s ∧ w' = ⟨s, w.procs⟩) ∨
    (∃ p s, a = .spawn p ∧ P.start w.shared w.procs.length p = some s ∧
      w' = ⟨s, w.procs ++ [p]⟩) ∨
    (∃ i x p s p', a = .resume i x ∧ w.procs[i]? = some p ∧
      P.resume w.shared i p x = some (s, p') ∧ w' = ⟨s, w.procs.set i p'⟩) := by
  cases a with
  | env e =>
    obtain ⟨s, hs, rfl⟩ := Option.map_eq_some_iff.mp h
    exact .inl ⟨e, s, rfl, hs, rfl⟩
  | spawn p =>
    obtain ⟨s, hs, rfl⟩ := Option.map_eq_some_iff.mp h
    exact .inr (.inl ⟨p, s, rfl, hs, rfl⟩)
  | resume i x =>
    obtain ⟨p, hp, h⟩ := Option.bind_eq_some_iff.mp h
    obtain ⟨⟨s, p'⟩, hs, rfl⟩ := Option.map_eq_some_iff.mp h
    exact .inr (.inr ⟨i, x, p, s, p', rfl, hp, hs, rfl⟩)

/-- A process that can resume takes a step of the machine. -/
theorem step_resume {w : Pool σ π} {i : ℕ} {x : ι} {p p' : π} {s : σ}
    (hp : w.procs[i]? = some p) (h : P.resume w.shared i p x = some (s, p')) :
    P.machine.step w (.resume i x) = some ⟨s, w.procs.set i p'⟩ := by
  simp [machine, step, hp, h]

end Program

namespace Pool
variable {σ π : Type*}

/-- The global invariant together with every process's own assertion. -/
def Holds (I : σ → Prop) (L : σ → ℕ → π → Prop) (w : Pool σ π) : Prop :=
  I w.shared ∧ ∀ i p, w.procs[i]? = some p → L w.shared i p

theorem Holds.local {I : σ → Prop} {L : σ → ℕ → π → Prop} {w : Pool σ π}
    (h : w.Holds I L) {i : ℕ} {p : π} (hp : w.procs[i]? = some p) : L w.shared i p := h.2 i p hp

theorem holds_empty {I : σ → Prop} {L : σ → ℕ → π → Prop} {s : σ} (hs : I s) :
    (⟨s, []⟩ : Pool σ π).Holds I L := ⟨hs, by simp⟩

end Pool

/-- Interference freedom, one obligation for each kind of scheduler decision. `C`
is the side condition a step may assume besides the invariant. -/
structure InterferenceFree {σ π ε ι : Type*} (P : Program σ π ε ι) (I : σ → Prop)
    (L : σ → ℕ → π → Prop) (C : Pool σ π → Action ε π ι → Prop) : Prop where
  env : ∀ w e s, w.Holds I L → C w (.env e) → P.env w.shared e = some s →
    I s ∧ ∀ j q, w.procs[j]? = some q → L s j q
  start : ∀ w p s, w.Holds I L → C w (.spawn p) →
    P.start w.shared w.procs.length p = some s →
    I s ∧ L s w.procs.length p ∧ ∀ j q, w.procs[j]? = some q → L s j q
  resume : ∀ w i x p s p', w.Holds I L → C w (.resume i x) → w.procs[i]? = some p →
    P.resume w.shared i p x = some (s, p') →
    I s ∧ L s i p' ∧ ∀ j q, j ≠ i → w.procs[j]? = some q → L s j q

namespace InterferenceFree
variable {σ π ε ι : Type*} {P : Program σ π ε ι} {I : σ → Prop} {L : σ → ℕ → π → Prop}
  {C : Pool σ π → Action ε π ι → Prop}

theorem step (hf : InterferenceFree P I L C) {w w' : Pool σ π} {a : Action ε π ι}
    (hw : w.Holds I L) (hc : C w a) (h : P.step w a = some w') : w'.Holds I L := by
  rcases P.step_cases h with ⟨e, s, rfl, hs, rfl⟩ | ⟨p, s, rfl, hs, rfl⟩ |
    ⟨i, x, p, s, p', rfl, hp, hs, rfl⟩
  · exact hf.env w e s hw hc hs
  · obtain ⟨hI, hL, hothers⟩ := hf.start w p s hw hc hs
    refine ⟨hI, fun j q hq => ?_⟩
    rcases Nat.lt_trichotomy j w.procs.length with hj | hj | hj
    · exact hothers j q (by rwa [List.getElem?_append_left hj] at hq)
    · subst hj
      have hqp : p = q := by simpa using hq
      exact hqp ▸ hL
    · simp [List.getElem?_append_right (Nat.le_of_lt hj), Nat.sub_ne_zero_of_lt hj] at hq
  · obtain ⟨hI, hL, hothers⟩ := hf.resume w i x p s p' hw hc hp hs
    refine ⟨hI, fun j q hq => ?_⟩
    by_cases hji : j = i
    · subst hji
      have hlt : j < w.procs.length := (List.getElem?_eq_some_iff.mp hp).1
      have hqp : p' = q := by simpa [List.getElem?_set, hlt] using hq
      exact hqp ▸ hL
    · exact hothers j q hji (by rwa [List.getElem?_set_ne (Ne.symm hji)] at hq)

/-- The assertions hold in every state of every interleaving that keeps to `C`. -/
theorem run (hf : InterferenceFree P I L C) {w w' : Pool σ π} {as : List (Action ε π ι)}
    (hw : w.Holds I L) (hc : P.machine.Along C w as) (h : P.machine.run w as = some w') :
    w'.Holds I L :=
  Machine.run_invariant_along (I := Pool.Holds I L) (fun _ _ _ hs hca ht => hf.step hs hca ht)
    hw hc h

end InterferenceFree
end Skein
