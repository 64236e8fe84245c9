import Mathlib.Algebra.Order.BigOperators.Group.List
import Mathlib.Algebra.Order.Group.Nat
import Mathlib.Data.Finset.Card
import Mathlib.Data.List.Nodup

/-!
# Rounds of service

A server works in rounds and serves a bounded number of items in each, from the head of a
queue. A round that serves `a` and leaves `b` behind had `a` before `b` in its queue; and
where all rounds but one are too few for the items, some item is served in the first
round only and another in the last round only.
-/
namespace Skein

section Pairs
variable {α : Type*} {l : List α} {a b : α}

/-- What the head of a queue holds comes before what it leaves behind. -/
theorem pair_sublist_of_take {n : ℕ} (ha : a ∈ l.take n) (hb : b ∈ l) (hleft : b ∉ l.take n) :
    [a, b].Sublist l := by
  have hdrop : b ∈ l.drop n := by
    rw [← List.take_append_drop n l, List.mem_append] at hb
    exact hb.resolve_left hleft
  rw [← List.take_append_drop n l]
  exact (List.singleton_sublist.mpr ha).append (List.singleton_sublist.mpr hdrop)

/-- Two items have one order. -/
theorem not_pair_sublist_swap (hnodup : l.Nodup) (h : [a, b].Sublist l) :
    ¬[b, a].Sublist l := by
  intro hswap
  induction l with
  | nil => simpa using h.length_le
  | cons c l ih =>
    obtain ⟨hc, hrest⟩ := List.nodup_cons.mp hnodup
    rcases List.sublist_cons_iff.mp h with hlater | ⟨r, hr, hrl⟩
    · rcases List.sublist_cons_iff.mp hswap with hlater' | ⟨r', hr', hrl'⟩
      · exact ih hrest hlater hlater'
      · obtain ⟨rfl, -⟩ := List.cons.inj hr'
        exact hc (hlater.subset (by simp))
    · obtain ⟨rfl, rfl⟩ := List.cons.inj hr
      rcases List.sublist_cons_iff.mp hswap with hlater' | ⟨r', hr', hrl'⟩
      · exact hc (hlater'.subset (by simp))
      · obtain ⟨rfl, -⟩ := List.cons.inj hr'
        exact hc (hrl.subset (by simp))

/-- A pair in two lists one after the other, the second item not in the later one. -/
theorem pair_sublist_append_left {m : List α} (h : [a, b].Sublist (l ++ m)) (hb : b ∉ m) :
    [a, b].Sublist l := by
  obtain ⟨l', m', hsplit, hl, hm⟩ := List.sublist_append_iff.mp h
  have hm' : m' = [] := by
    cases hlast : m' using List.reverseRecOn with
    | nil => rfl
    | append_singleton rest c =>
      have hc : [a, b].getLast? = some c := by simp [hsplit, hlast]
      obtain rfl : b = c := by simpa using hc
      exact absurd (hm.subset (by simp [hlast])) hb
  rw [hm', List.append_nil] at hsplit
  exact hsplit ▸ hl

/-- A pair in two lists one after the other, the first item not in the earlier one. -/
theorem pair_sublist_append_right {m : List α} (h : [a, b].Sublist (l ++ m)) (ha : a ∉ l) :
    [a, b].Sublist m := by
  obtain ⟨l', m', hsplit, hl, hm⟩ := List.sublist_append_iff.mp h
  cases l' with
  | nil => exact hsplit ▸ hm
  | cons c rest =>
    obtain ⟨rfl, -⟩ := List.cons.inj hsplit
    exact absurd (hl.subset List.mem_cons_self) ha

end Pairs

section Rounds
variable {α : Type*} {rounds : List (List α)} {items : Finset α} {size : ℕ}

/-- Some round serves the item. -/
def Served (rounds : List (List α)) (a : α) : Prop := ∃ round ∈ rounds, a ∈ round

@[simp] theorem not_served_nil (a : α) : ¬Served [] a := by simp [Served]

@[simp] theorem served_cons {round : List α} {a : α} :
    Served (round :: rounds) a ↔ a ∈ round ∨ Served rounds a := by
  simp [Served]

@[simp] theorem served_append {later : List (List α)} {a : α} :
    Served (rounds ++ later) a ↔ Served rounds a ∨ Served later a := by
  simp [Served, or_and_right, exists_or]

/-- Rounds serve at most as many items as they have places. -/
theorem card_le_of_served (hsize : ∀ round ∈ rounds, round.length ≤ size)
    (hserved : ∀ a ∈ items, Served rounds a) : items.card ≤ rounds.length * size := by
  classical
  have hsubset : items ⊆ rounds.flatten.toFinset := by
    intro a ha
    obtain ⟨round, hround, hmem⟩ := hserved a ha
    exact List.mem_toFinset.mpr (List.mem_flatten.mpr ⟨round, hround, hmem⟩)
  calc items.card
      ≤ rounds.flatten.toFinset.card := Finset.card_le_card hsubset
    _ ≤ rounds.flatten.length := List.toFinset_card_le _
    _ = (rounds.map List.length).sum := List.length_flatten
    _ ≤ (rounds.map List.length).length • size := by
        apply List.sum_le_card_nsmul
        intro n hn
        obtain ⟨round, hround, rfl⟩ := List.mem_map.mp hn
        exact hsize round hround
    _ = rounds.length * size := by simp

/-- Rounds with fewer places than items leave one out. -/
theorem exists_not_served (hsize : ∀ round ∈ rounds, round.length ≤ size)
    (hcard : rounds.length * size < items.card) : ∃ a ∈ items, ¬Served rounds a := by
  by_contra h
  push Not at h
  have hle := card_le_of_served hsize h
  omega

end Rounds
end Skein
