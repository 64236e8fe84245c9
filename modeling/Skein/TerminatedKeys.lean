import Mathlib.Data.List.Lex
import Mathlib.Order.Lattice
import Mathlib.Order.Monotone.Basic

/-!
# Sorting lists of words by one key

A word is a list of letters. Writing every letter as its code and ending every word with a
stop gives one key for a list of words. Where the codes are in the order of the letters, none
a prefix of another, and the stop is below all of them, the keys are in the order of the
lists.
-/
namespace Skein

section TerminatedKeys
variable {α β : Type*} [LinearOrder α] [LinearOrder β]

/-- The key of a list of words. -/
def terminatedKey (code : α → List β) (stop : β) (words : List (List α)) : List β :=
  words.flatMap fun word => word.flatMap code ++ [stop]

/-- Whatever follows, a smaller letter is written before a larger one, and the stop before any
letter. -/
structure OrderedCode (code : α → List β) (stop : β) : Prop where
  code_lt : ∀ {a b : α}, a < b → ∀ x y, code a ++ x < code b ++ y
  stop_lt : ∀ a x y, stop :: x < code a ++ y

namespace OrderedCode
variable {code : α → List β} {stop : β}

/-- The first difference of two words decides. -/
theorem word_lt (h : OrderedCode code stop) {s t : List α} (hst : s < t) (x y : List β) :
    s.flatMap code ++ stop :: x < t.flatMap code ++ stop :: y := by
  induction s generalizing t with
  | nil =>
    cases t with
    | nil => exact absurd hst (lt_irrefl _)
    | cons b t =>
      rw [List.flatMap_nil, List.nil_append, List.flatMap_cons, List.append_assoc]
      exact h.stop_lt b x _
  | cons a s ih =>
    cases t with
    | nil => exact absurd hst (List.not_lt_nil _)
    | cons b t =>
      simp only [List.flatMap_cons, List.append_assoc]
      rcases List.cons_lt_cons_iff.mp hst with hab | ⟨rfl, htail⟩
      · exact h.code_lt hab _ _
      · exact List.append_left_lt (ih htail)

theorem terminatedKey_strictMono (h : OrderedCode code stop) :
    StrictMono (terminatedKey code stop) := by
  intro l m hlm
  induction l generalizing m with
  | nil =>
    cases m with
    | nil => exact absurd hlm (lt_irrefl _)
    | cons t m =>
      have hne : terminatedKey code stop (t :: m) ≠ [] := by simp [terminatedKey]
      obtain ⟨b, rest, hkey⟩ := List.exists_cons_of_ne_nil hne
      rw [hkey]
      exact List.nil_lt_cons b rest
  | cons s l ih =>
    cases m with
    | nil => exact absurd hlm (List.not_lt_nil _)
    | cons t m =>
      simp only [terminatedKey, List.flatMap_cons, List.append_assoc, List.singleton_append]
      rcases List.cons_lt_cons_iff.mp hlm with hst | ⟨rfl, htail⟩
      · exact h.word_lt hst _ _
      · refine List.append_left_lt ?_
        exact List.cons_lt_cons_iff.mpr (.inr ⟨rfl, ih htail⟩)

theorem terminatedKey_lt_iff (h : OrderedCode code stop) {l m : List (List α)} :
    terminatedKey code stop l < terminatedKey code stop m ↔ l < m :=
  h.terminatedKey_strictMono.lt_iff_lt

theorem terminatedKey_inj (h : OrderedCode code stop) {l m : List (List α)} :
    terminatedKey code stop l = terminatedKey code stop m ↔ l = m :=
  h.terminatedKey_strictMono.injective.eq_iff

end OrderedCode
end TerminatedKeys
end Skein
