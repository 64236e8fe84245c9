import Mathlib.Data.List.Basic

/-!
# Loops that drain

`while (batch() > 0) {}`, where a batch answers with how many elements it took. A bound on what
is left makes the loop end, and what every batch keeps holds at the end, where one more batch
would take nothing.
-/
namespace Skein
variable {σ : Type*} (batch : σ → σ × ℕ)

/-- The loop, `none` where the fuel runs out. -/
def drainLoop : ℕ → σ → Option σ
  | 0, _ => none
  | fuel + 1, s => if 0 < (batch s).2 then drainLoop fuel (batch s).1 else some (batch s).1

/-- The loop comes to `t` with all fuel from some amount on. -/
def DrainsTo (s t : σ) : Prop := ∃ enough, ∀ fuel, enough ≤ fuel → drainLoop batch fuel s = some t

variable {batch}

/-- The rule of the loop: an invariant, and a measure that every batch which takes something
makes smaller. -/
theorem drainsTo_of_measure {I : σ → Prop} {left : σ → ℕ} (hkeeps : ∀ s, I s → I (batch s).1)
    (hless : ∀ s, I s → 0 < (batch s).2 → left (batch s).1 < left s)
    (hidle : ∀ s, (batch s).2 = 0 → (batch s).1 = s) {s : σ} (hs : I s) :
    ∃ t, DrainsTo batch s t ∧ I t ∧ (batch t).2 = 0 := by
  induction hleft : left s using Nat.strongRecOn generalizing s with
  | ind n ih =>
    by_cases htakes : 0 < (batch s).2
    · have hlt : left (batch s).1 < n := hleft ▸ hless s hs htakes
      obtain ⟨t, ⟨enough, hfuel⟩, ht, hempty⟩ := ih _ hlt (hkeeps s hs) rfl
      refine ⟨t, ⟨enough + 1, fun fuel hle => ?_⟩, ht, hempty⟩
      obtain ⟨fuel, rfl⟩ := Nat.exists_eq_add_of_le' hle
      rw [← Nat.add_assoc, drainLoop, if_pos htakes]
      exact hfuel _ (Nat.le_add_left _ _)
    · have hzero : (batch s).2 = 0 := Nat.eq_zero_of_not_pos htakes
      refine ⟨s, ⟨1, fun fuel hle => ?_⟩, hs, hzero⟩
      obtain ⟨fuel, rfl⟩ := Nat.exists_eq_add_of_le' hle
      rw [drainLoop, if_neg htakes, hidle s hzero]

section Batch
variable {α : Type*}

/-- What the loop over a batch may rely on: `P` holds of an element that still has to be taken
and `Q` of one that was; every element taken makes less of what is left. -/
structure Drains (step : σ → α → σ) (I : σ → Prop) (P Q : σ → α → Prop) (left : σ → ℕ) :
    Prop where
  keeps : ∀ s a, I s → P s a → I (step s a)
  counts : ∀ s a, I s → P s a → left (step s a) + 1 = left s
  others : ∀ s a b, I s → P s a → P s b → a ≠ b → P (step s b) a
  done : ∀ s a, I s → P s a → Q (step s a) a
  stays : ∀ s a b, I s → P s b → Q s a → Q (step s b) a

/-- The rule of a batch: each of its elements is taken once. -/
theorem Drains.foldl {step : σ → α → σ} {I : σ → Prop} {P Q : σ → α → Prop} {left : σ → ℕ}
    (h : Drains step I P Q left) {rows : List α} (hnodup : rows.Nodup) {s : σ} (hs : I s)
    (hrows : ∀ a ∈ rows, P s a) :
    I (rows.foldl step s) ∧ left (rows.foldl step s) + rows.length = left s ∧
      ∀ a, a ∈ rows ∨ Q s a → Q (rows.foldl step s) a := by
  induction rows generalizing s with
  | nil =>
    refine ⟨hs, rfl, fun a ha => ?_⟩
    rcases ha with ha | ha
    · cases ha
    · exact ha
  | cons b rows ih =>
    obtain ⟨hb, hrest⟩ := List.nodup_cons.mp hnodup
    have hPb := hrows b List.mem_cons_self
    have hnext : ∀ a ∈ rows, P (step s b) a := by
      intro a ha
      refine h.others s a b hs (hrows a (List.mem_cons_of_mem _ ha)) hPb ?_
      rintro rfl
      exact hb ha
    obtain ⟨hI, hleft, hQ⟩ := ih hrest (h.keeps s b hs hPb) hnext
    have hcount := h.counts s b hs hPb
    refine ⟨hI, ?_, fun a ha => ?_⟩
    · rw [List.foldl_cons, List.length_cons]
      omega
    · rw [List.foldl_cons]
      apply hQ
      rcases ha with ha | ha
      · rcases List.mem_cons.mp ha with rfl | ha
        · exact .inr (h.done s a hs hPb)
        · exact .inl ha
      · exact .inr (h.stays s a b hs hPb ha)

/-- A batch of nothing says that there is nothing. -/
theorem eq_nil_of_take {limit : ℕ} (hlimit : 0 < limit) {rows rows' : List α}
    (hperm : rows'.Perm rows) (h : (rows'.take limit).length = 0) : rows = [] := by
  have hlength := hperm.length_eq
  rw [List.length_take] at h
  apply List.eq_nil_of_length_eq_zero
  omega

end Batch

end Skein
