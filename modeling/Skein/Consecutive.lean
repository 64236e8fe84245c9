import Mathlib.Data.List.Chain

/-!
# Consecutively numbered logs

A log whose entries carry numbers that increase by one. What follows a given number in
such a log is a suffix of it, so reading on from a bound by filtering is the same as
skipping a prefix, and a reader of a part of the log sees a run without holes.
-/
namespace Skein

/-- Each entry's number is one more than its predecessor's. -/
def Consecutive {α : Type*} (num : α → ℕ) (l : List α) : Prop :=
  l.IsChain fun a b => num b = num a + 1

namespace Consecutive
variable {α : Type*} {num : α → ℕ} {l l' : List α}

theorem nil : Consecutive num [] := List.isChain_nil

theorem drop (h : Consecutive num l) (n : ℕ) : Consecutive num (l.drop n) := List.IsChain.drop h n

theorem take (h : Consecutive num l) (n : ℕ) : Consecutive num (l.take n) := List.IsChain.take h n

theorem suffix (h : Consecutive num l) (hs : l' <:+ l) : Consecutive num l' :=
  List.IsChain.suffix h hs

theorem concat (h : Consecutive num l) {b : α} (hb : ∀ a ∈ l.getLast?, num b = num a + 1) :
    Consecutive num (l ++ [b]) := by
  refine List.IsChain.append h (List.isChain_singleton b) ?_
  intro a ha c hc
  obtain rfl : b = c := by simpa using hc
  exact hb a ha

/-- The numbers strictly increase. -/
theorem pairwise (h : Consecutive num l) : l.Pairwise fun a b => num a < num b := by
  induction l with
  | nil => exact List.Pairwise.nil
  | cons a l ih =>
    obtain ⟨hhead, htail⟩ := List.isChain_cons.mp h
    have hrest := ih htail
    refine List.pairwise_cons.mpr ⟨fun b hb => ?_, hrest⟩
    cases l with
    | nil => simp at hb
    | cons c l =>
      have hc : num c = num a + 1 := hhead c (by simp)
      rcases List.mem_cons.mp hb with rfl | hb
      · omega
      · have hcb := (List.pairwise_cons.mp hrest).1 b hb
        omega

/-- The number of an entry is that of the first one plus its position. -/
theorem num_getElem (h : Consecutive num l) {a b : α} {i : ℕ} (ha : l.head? = some a)
    (hb : l[i]? = some b) : num b = num a + i := by
  induction i generalizing b with
  | zero =>
    rw [← List.head?_eq_getElem?, ha] at hb
    cases hb
    rfl
  | succ i ih =>
    obtain ⟨hlt, rfl⟩ := List.getElem?_eq_some_iff.mp hb
    have hstep := List.isChain_iff_getElem.mp h i hlt
    have hprev := ih (List.getElem?_eq_getElem (by omega))
    omega

/-- A log that begins with 1 is numbered by position. -/
theorem num_eq (h : Consecutive num l) (hone : ∀ a ∈ l.head?, num a = 1) {b : α} {i : ℕ}
    (hb : l[i]? = some b) : num b = i + 1 := by
  obtain ⟨a, ha⟩ : ∃ a, l.head? = some a := by
    cases l with
    | nil => simp at hb
    | cons a l => exact ⟨a, rfl⟩
  have hnum := h.num_getElem ha hb
  have ha1 := hone a ha
  omega

/-- In such a log, what is above a bound is what comes after that many entries. -/
theorem filter_above_drop (h : Consecutive num l) (hone : ∀ a ∈ l.head?, num a = 1)
    {gone bound : ℕ} (hle : gone ≤ bound) :
    (l.drop gone).filter (fun a => bound < num a) = l.drop bound := by
  have hsplit : l.drop gone = (l.drop gone).take (bound - gone) ++ l.drop bound := by
    have hdrop : l.drop bound = (l.drop gone).drop (bound - gone) := by
      rw [List.drop_drop, Nat.add_sub_cancel' hle]
    rw [hdrop, List.take_append_drop]
  have hbelow : ∀ a ∈ (l.drop gone).take (bound - gone), ¬ bound < num a := by
    intro a ha
    obtain ⟨i, hi, rfl⟩ := List.getElem_of_mem ha
    rw [List.length_take] at hi
    have hnum := h.num_eq hone (i := gone + i) (List.getElem?_eq_getElem (by
      rw [List.length_drop] at hi
      omega))
    rw [List.getElem_take, List.getElem_drop]
    omega
  have habove : ∀ a ∈ l.drop bound, bound < num a := by
    intro a ha
    obtain ⟨i, hi, rfl⟩ := List.getElem_of_mem ha
    rw [List.length_drop] at hi
    have hnum := h.num_eq hone (i := bound + i) (List.getElem?_eq_getElem (by omega))
    rw [List.getElem_drop]
    omega
  rw [hsplit, List.filter_append, List.filter_eq_nil_iff.mpr (by simpa using hbelow),
    List.filter_eq_self.mpr (by simpa using habove), List.nil_append]

end Consecutive

section Above
variable {α : Type*} {num : α → ℕ} {l : List α}

/-- In an increasing log, what is above a bound is what is left after a prefix. -/
theorem filter_above_eq_dropWhile (h : l.Pairwise fun a b => num a < num b) (bound : ℕ) :
    l.filter (fun a => bound < num a) = l.dropWhile fun a => num a ≤ bound := by
  induction l with
  | nil => rfl
  | cons a l ih =>
    obtain ⟨hhead, htail⟩ := List.pairwise_cons.mp h
    by_cases ha : num a ≤ bound
    · have hnot : ¬ bound < num a := by omega
      simpa [ha, hnot] using ih htail
    · have hall : ∀ b ∈ l, bound < num b := fun b hb => by
        have hab := hhead b hb
        omega
      have habove : bound < num a := by omega
      simpa [ha, habove] using hall

/-- A reader that skips what is not above its bound reads a run of what is. -/
theorem filter_above_take (h : l.Pairwise fun a b => num a < num b) (bound r : ℕ) :
    ∃ n, (l.take r).filter (fun a => bound < num a) =
      (l.dropWhile fun a => num a ≤ bound).take n := by
  induction l generalizing r with
  | nil => exact ⟨0, by simp⟩
  | cons a l ih =>
    obtain ⟨hhead, htail⟩ := List.pairwise_cons.mp h
    cases r with
    | zero => exact ⟨0, by simp⟩
    | succ r =>
      by_cases ha : num a ≤ bound
      · have hnot : ¬ bound < num a := by omega
        obtain ⟨n, hn⟩ := ih htail r
        exact ⟨n, by simpa [ha, hnot] using hn⟩
      · have hall : ∀ b ∈ l.take r, bound < num b := fun b hb => by
          have hab := hhead b (List.mem_of_mem_take hb)
          omega
        have habove : bound < num a := by omega
        refine ⟨r + 1, ?_⟩
        have hkeep : (l.take r).filter (fun b => bound < num b) = l.take r :=
          List.filter_eq_self.mpr fun b hb => by simpa using hall b hb
        simp [ha, habove, hkeep]

end Above
end Skein
