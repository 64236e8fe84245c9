import Mathlib.Data.List.Nodup
import Skein.OrderedMap

/-!
# Keys in the order they were last touched

A log of keyed entries, and the list of its keys at their last entries. A bounded memory of
that list forgets from the front; an entry it has forgotten is outdated, or many keys have
been touched since.
-/
namespace Skein

section Recency
variable {κ τ : Type*} [DecidableEq κ]

/-- Move a key to the end, with its new value. -/
def touch (entries : List (κ × τ)) (entry : κ × τ) : List (κ × τ) :=
  entries.filter (fun e => e.1 ≠ entry.1) ++ [entry]

/-- The keys of a log at their last entries, in that order. -/
def latest (log : List (κ × τ)) : List (κ × τ) := log.foldl touch []

theorem latest_append (log more : List (κ × τ)) :
    latest (log ++ more) = more.foldl touch (latest log) := List.foldl_append

theorem touch_keys_nodup {entries : List (κ × τ)} (h : (entries.map Prod.fst).Nodup)
    (entry : κ × τ) : ((touch entries entry).map Prod.fst).Nodup := by
  rw [touch, List.map_append, List.nodup_append]
  refine ⟨h.sublist (List.filter_sublist.map _), List.nodup_singleton _, ?_⟩
  intro a ha b hb
  obtain ⟨e, he, rfl⟩ := List.mem_map.mp ha
  obtain rfl : b = entry.1 := by simpa using hb
  simpa using (List.mem_filter.mp he).2

theorem foldl_touch_keys_nodup (more : List (κ × τ)) {entries : List (κ × τ)}
    (h : (entries.map Prod.fst).Nodup) : ((more.foldl touch entries).map Prod.fst).Nodup := by
  induction more generalizing entries with
  | nil => exact h
  | cons entry more ih => exact ih (touch_keys_nodup h entry)

theorem latest_keys_nodup (log : List (κ × τ)) : ((latest log).map Prod.fst).Nodup :=
  foldl_touch_keys_nodup log List.nodup_nil

/-- Distinct keys: at most one entry is taken out. -/
theorem length_le_touch {entries : List (κ × τ)} (h : (entries.map Prod.fst).Nodup)
    (entry : κ × τ) : entries.length ≤ (touch entries entry).length := by
  induction entries with
  | nil => exact Nat.zero_le _
  | cons e rest ih =>
    obtain ⟨hfresh, hrest⟩ := List.nodup_cons.mp h
    by_cases hkey : e.1 = entry.1
    · have hsame : rest.filter (fun e => e.1 ≠ entry.1) = rest := by
        refine List.filter_eq_self.mpr fun f hf => ?_
        have hne : f.1 ≠ entry.1 := fun heq => hfresh (hkey ▸ heq ▸ List.mem_map_of_mem hf)
        simpa using hne
      rw [touch, List.filter_cons_of_neg (by simpa using hkey), hsame]
      simp
    · have hlength := ih hrest
      simp only [touch, List.length_append, List.length_singleton] at hlength ⊢
      rw [List.filter_cons_of_pos (by simpa using hkey)]
      simpa using hlength

/-- A key is among the last `n`, with this value. -/
def Among (n : ℕ) (entries : List (κ × τ)) (k : κ) (t : τ) : Prop :=
  ∃ before after, entries = before ++ (k, t) :: after ∧ after.length < n

/-- What is kept of the entries lacks some first ones, each outdated or not among the last
`n`. -/
def Keeps (n : ℕ) (Outdated : τ → Prop) (entries kept : List (κ × τ)) : Prop :=
  ∃ gone, entries = gone ++ kept ∧
    ∀ before e after, gone = before ++ e :: after → Outdated e.2 ∨ n ≤ (after ++ kept).length

variable {n : ℕ} {Outdated Outdated' : τ → Prop} {entries kept kept' : List (κ × τ)}

omit [DecidableEq κ] in
theorem Keeps.refl : Keeps n Outdated entries entries :=
  ⟨[], rfl, fun before e after h => by simp at h⟩

omit [DecidableEq κ] in
theorem Keeps.mono (h : Keeps n Outdated entries kept) (hle : ∀ t, Outdated t → Outdated' t) :
    Keeps n Outdated' entries kept := by
  obtain ⟨gone, hsplit, hgone⟩ := h
  exact ⟨gone, hsplit, fun before e after heq => (hgone before e after heq).imp (hle _) id⟩

omit [DecidableEq κ] in
theorem Keeps.trans (h : Keeps n Outdated entries kept) (h' : Keeps n Outdated kept kept') :
    Keeps n Outdated entries kept' := by
  obtain ⟨gone, rfl, hgone⟩ := h
  obtain ⟨more, rfl, hmore⟩ := h'
  refine ⟨gone ++ more, (List.append_assoc _ _ _).symm, fun before e after heq => ?_⟩
  rcases List.append_eq_append_iff.mp heq with ⟨mid, hbefore, hsplit⟩ | ⟨mid, hsplit, hrest⟩
  · exact hmore mid e after hsplit
  · cases mid with
    | nil => exact hmore [] e after hrest.symm
    | cons e' mid =>
      obtain ⟨rfl, hafter⟩ := List.cons.inj hrest
      rw [show after = mid ++ more from hafter, List.append_assoc]
      exact hgone before e mid hsplit

/-- Touching a key brings none of the others closer to the end. -/
theorem Keeps.touch (h : Keeps n Outdated entries kept) (hnodup : (entries.map Prod.fst).Nodup)
    (entry : κ × τ) : Keeps n Outdated (touch entries entry) (touch kept entry) := by
  obtain ⟨gone, rfl, hgone⟩ := h
  refine ⟨gone.filter fun e => e.1 ≠ entry.1, ?_, fun before e after heq => ?_⟩
  · rw [Skein.touch, Skein.touch, List.filter_append, List.append_assoc]
  · obtain ⟨before', rest, hsplit, -, hrest⟩ := List.filter_eq_append_iff.mp heq
    obtain ⟨skipped, after', hsplit', -, -, hafter⟩ := List.filter_eq_cons_iff.mp hrest
    have hold := hgone (before' ++ skipped) e after' (by rw [hsplit, hsplit', List.append_assoc])
    refine hold.imp id fun hle => Nat.le_trans hle ?_
    have hsub : (after' ++ kept).Sublist (gone ++ kept) := by
      refine List.Sublist.append_right ?_ kept
      rw [hsplit, hsplit']
      exact (((List.sublist_cons_self e after').trans (List.sublist_append_right _ _)).trans
        (List.sublist_append_right _ _))
    have hlength := length_le_touch (hnodup.sublist (hsub.map _)) entry
    rwa [Skein.touch, List.filter_append, List.append_assoc, hafter] at hlength

omit [DecidableEq κ] in
/-- What is current and among the last is kept. -/
theorem Keeps.mem (h : Keeps n Outdated entries kept) {k : κ} {t : τ} (hamong : Among n entries k t)
    (hcurrent : ¬ Outdated t) : (k, t) ∈ kept := by
  obtain ⟨gone, hsplit, hgone⟩ := h
  obtain ⟨before, after, heq, hlt⟩ := hamong
  rw [hsplit] at heq
  rcases List.append_eq_append_iff.mp heq with ⟨mid, -, hkept⟩ | ⟨mid, hsplit', hrest⟩
  · rw [hkept]
    simp
  · cases mid with
    | nil =>
      rw [← show (k, t) :: after = kept from hrest]
      exact List.mem_cons_self
    | cons e mid =>
      obtain ⟨rfl, hafter⟩ := List.cons.inj hrest
      rw [show after = mid ++ kept from hafter] at hlt
      rcases hgone before _ mid hsplit' with hout | hmany
      · exact absurd hout hcurrent
      · omega

/-- A key among the last was touched, or was among the last before. -/
theorem Among.of_touch {entry : κ × τ} {k : κ} {t : τ} (h : Among n (touch entries entry) k t)
    (hnodup : (entries.map Prod.fst).Nodup) : (k, t) = entry ∨ Among n entries k t := by
  obtain ⟨before, after, heq, hlt⟩ := h
  rcases List.eq_nil_or_concat after with rfl | ⟨after', last, rfl⟩
  · left
    have hlast := congrArg List.getLast? heq
    simpa [touch] using hlast.symm
  · right
    rw [List.concat_eq_append] at heq hlt
    rw [touch, ← List.cons_append, ← List.append_assoc] at heq
    obtain ⟨hrest, -⟩ := List.append_inj' heq rfl
    obtain ⟨before', rest, rfl, -, hsplit⟩ := List.filter_eq_append_iff.mp hrest
    obtain ⟨skipped, after'', rfl, -, -, hafter⟩ := List.filter_eq_cons_iff.mp hsplit
    refine ⟨before' ++ skipped, after'', by simp, ?_⟩
    have hsub : after''.Sublist (before' ++ (skipped ++ (k, t) :: after'')) :=
      (((List.sublist_cons_self _ _).trans (List.sublist_append_right _ _)).trans
        (List.sublist_append_right _ _))
    have hlength := length_le_touch (hnodup.sublist (hsub.map _)) entry
    rw [touch, hafter] at hlength
    simp only [List.length_append, List.length_singleton] at hlength hlt
    omega

theorem Among.of_foldl_touch {more : List (κ × τ)} {k : κ} {t : τ}
    (h : Among n (more.foldl touch entries) k t) (hnodup : (entries.map Prod.fst).Nodup) :
    (k, t) ∈ more ∨ Among n entries k t := by
  induction more generalizing entries with
  | nil => exact .inr h
  | cons entry more ih =>
    rcases ih h (touch_keys_nodup hnodup entry) with hmem | hamong
    · exact .inl (List.mem_cons_of_mem _ hmem)
    · rcases hamong.of_touch hnodup with rfl | hbefore
      · exact .inl List.mem_cons_self
      · exact .inr hbefore

omit [DecidableEq κ] in
theorem Keeps.tail {e : κ × τ} (h : Outdated e.2 ∨ n ≤ kept.length) :
    Keeps n Outdated (e :: kept) kept := by
  refine ⟨[e], rfl, fun before e' after heq => ?_⟩
  cases before with
  | nil =>
    obtain ⟨rfl, rfl⟩ := List.cons.inj heq
    exact h
  | cons _ before => simp at heq

end Recency

namespace OrderedMap
variable {κ τ : Type*} [DecidableEq κ]

theorem setEntry_of_absent {k : κ} (t : τ) : ∀ {entries : List (κ × τ)},
    (∀ e ∈ entries, e.1 ≠ k) → setEntry k t entries = entries ++ [(k, t)]
  | [], _ => rfl
  | e :: rest, h => by
    obtain ⟨hne, hrest⟩ := List.forall_mem_cons.mp h
    rw [setEntry, if_neg hne, setEntry_of_absent t hrest, List.cons_append]

/-- A key that is set anew goes to the end. -/
theorem entries_erase_set (m : OrderedMap κ τ) (k : κ) (t : τ) :
    ((m.erase k).set k t).entries = touch m.entries (k, t) :=
  setEntry_of_absent t fun e he => by simpa using (List.mem_filter.mp he).2

theorem entries_erase_head {m : OrderedMap κ τ} {e : κ × τ} {rest : List (κ × τ)}
    (h : m.entries = e :: rest) : (m.erase e.1).entries = rest := by
  have hnodup := m.nodup
  rw [h, List.map_cons, List.nodup_cons] at hnodup
  show m.entries.filter (fun f => f.1 ≠ e.1) = rest
  rw [h, List.filter_cons_of_neg (by simp)]
  refine List.filter_eq_self.mpr fun f hf => ?_
  have hne : f.1 ≠ e.1 := fun heq => hnodup.1 (heq ▸ List.mem_map_of_mem hf)
  simpa using hne

end OrderedMap
end Skein
