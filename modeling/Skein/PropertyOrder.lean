import Mathlib.Data.List.Lex
import Mathlib.Data.List.Nodup
import Mathlib.Data.List.Perm.Subperm
import Mathlib.Data.String.Basic

/-!
# Entries in the order of their keys

Association lists with distinct string keys, as the own properties of a JavaScript object.
Sorting them by the UTF-16 order of their keys, or bringing the integer keys to the front,
forgets exactly their order.
-/
namespace Skein

/-- The UTF-16 code units of a character. -/
def charUnits (c : Char) : List ℕ :=
  if c.toNat < 0x10000 then [c.toNat]
  else [0xD800 + (c.toNat - 0x10000) / 0x400, 0xDC00 + (c.toNat - 0x10000) % 0x400]

def codeUnits (s : String) : List ℕ := s.toList.flatMap charUnits

theorem char_eq_of_toNat {c d : Char} (h : c.toNat = d.toNat) : c = d :=
  Char.ext (UInt32.toNat_inj.mp h)

/-- No character is a surrogate, so the first unit of a pair says that it is one. -/
theorem flatMap_charUnits_injective : ∀ {cs ds : List Char},
    cs.flatMap charUnits = ds.flatMap charUnits → cs = ds
  | [], [], _ => rfl
  | [], d :: ds, h => by
    simp only [List.flatMap_nil, List.flatMap_cons, charUnits] at h
    split_ifs at h <;> cases h
  | c :: cs, [], h => by
    simp only [List.flatMap_nil, List.flatMap_cons, charUnits] at h
    split_ifs at h <;> cases h
  | c :: cs, d :: ds, h => by
    have hc : c.toNat < 0xD800 ∨ 0xDFFF < c.toNat ∧ c.toNat < 0x110000 := c.valid
    have hd : d.toNat < 0xD800 ∨ 0xDFFF < d.toNat ∧ d.toNat < 0x110000 := d.valid
    simp only [List.flatMap_cons, charUnits] at h
    split_ifs at h <;> simp only [List.cons_append, List.nil_append, List.cons.injEq] at h
    · rw [char_eq_of_toNat h.1, flatMap_charUnits_injective h.2]
    · omega
    · omega
    · have hsame : c.toNat = d.toNat := by omega
      rw [char_eq_of_toNat hsame, flatMap_charUnits_injective h.2.2]

theorem codeUnits_injective {s t : String} (h : codeUnits s = codeUnits t) : s = t :=
  String.toList_inj.mp (flatMap_charUnits_injective h)

section Entries
variable {α β : Type*}

/-- The default order of `Array.prototype.sort` on the keys. -/
def keyLe (a b : String × α) : Bool := codeUnits a.1 ≤ codeUnits b.1

/-- The entries sorted by their keys. -/
def sortEntries (entries : List (String × α)) : List (String × α) := entries.mergeSort keyLe

/-- The number an array index spells. -/
def arrayIndex? (key : String) : Option ℕ :=
  key.toNat?.filter fun n => toString n = key && n < 4294967295

def isIndexEntry (entry : String × α) : Bool := (arrayIndex? entry.1).isSome

/-- The order an object enumerates its own properties in, when they were created in the order
of the list: array indices first, as numbers. -/
def ownOrder (entries : List (String × α)) : List (String × α) :=
  (entries.filter isIndexEntry).mergeSort (fun a b => (arrayIndex? a.1).getD 0 ≤
      (arrayIndex? b.1).getD 0) ++
    entries.filter fun entry => !isIndexEntry entry

/-- Replace the values, and keep the keys. -/
def mapEntries (f : α → β) (entries : List (String × α)) : List (String × β) :=
  entries.map fun entry => (entry.1, f entry.2)

theorem sortEntries_perm (entries : List (String × α)) : (sortEntries entries).Perm entries :=
  List.mergeSort_perm _ _

theorem ownOrder_perm (entries : List (String × α)) : (ownOrder entries).Perm entries :=
  ((List.mergeSort_perm _ _).append_right _).trans (List.filter_append_perm _ _)

theorem mapEntries_keys (f : α → β) (entries : List (String × α)) :
    (mapEntries f entries).map Prod.fst = entries.map Prod.fst := by
  simp [mapEntries, Function.comp_def]

theorem mapEntries_sortEntries (f : α → β) (entries : List (String × α)) :
    mapEntries f (sortEntries entries) = sortEntries (mapEntries f entries) :=
  List.map_mergeSort fun _ _ _ _ => rfl

theorem mapEntries_ownOrder (f : α → β) (entries : List (String × α)) :
    mapEntries f (ownOrder entries) = ownOrder (mapEntries f entries) := by
  have hindices : ((entries.filter isIndexEntry).mergeSort fun a b =>
        (arrayIndex? a.1).getD 0 ≤ (arrayIndex? b.1).getD 0).map (fun entry => (entry.1, f entry.2)) =
      ((entries.filter isIndexEntry).map fun entry => (entry.1, f entry.2)).mergeSort fun a b =>
        (arrayIndex? a.1).getD 0 ≤ (arrayIndex? b.1).getD 0 :=
    List.map_mergeSort fun _ _ _ _ => rfl
  simp only [ownOrder, mapEntries, List.map_append, hindices, List.filter_map]
  rfl

theorem keyLe_trans (a b c : String × α) (h : keyLe a b = true) (h' : keyLe b c = true) :
    keyLe a c = true := by
  simp only [keyLe, decide_eq_true_eq] at *
  exact h.trans h'

theorem keyLe_total (a b : String × α) : (keyLe a b || keyLe b a) = true := by
  simp only [keyLe, Bool.or_eq_true, decide_eq_true_eq]
  exact le_total _ _

theorem eq_of_mem_of_key {entries : List (String × α)} (h : (entries.map Prod.fst).Nodup)
    {a b : String × α} (ha : a ∈ entries) (hb : b ∈ entries) (hkey : a.1 = b.1) : a = b :=
  List.inj_on_of_nodup_map h ha hb hkey

/-- Sorting forgets the order of entries with distinct keys, and nothing else. -/
theorem sortEntries_eq_iff {left right : List (String × α)} (h : (left.map Prod.fst).Nodup) :
    sortEntries left = sortEntries right ↔ left.Perm right := by
  constructor
  · intro heq
    exact (sortEntries_perm left).symm.trans (heq ▸ sortEntries_perm right)
  · intro hperm
    have hsorted : ∀ l : List (String × α), (sortEntries l).Pairwise (keyLe · ·) :=
      fun l => List.pairwise_mergeSort keyLe_trans keyLe_total l
    refine List.Perm.eq_of_pairwise ?_ (hsorted left) (hsorted right)
      (((sortEntries_perm left).trans hperm).trans (sortEntries_perm right).symm)
    intro a b ha hb hab hba
    simp only [keyLe, decide_eq_true_eq] at hab hba
    have ha' := (sortEntries_perm left).mem_iff.mp ha
    have hb' := hperm.mem_iff.mpr ((sortEntries_perm right).mem_iff.mp hb)
    exact eq_of_mem_of_key h ha' hb' (codeUnits_injective (le_antisymm hab hba))

/-- An object whose properties were created in the order of their keys enumerates them in an
order that forgets the same. -/
theorem ownOrder_sortEntries_eq_iff {left right : List (String × α)}
    (h : (left.map Prod.fst).Nodup) :
    ownOrder (sortEntries left) = ownOrder (sortEntries right) ↔ left.Perm right := by
  constructor
  · intro heq
    have hown := fun l : List (String × α) =>
      (ownOrder_perm (sortEntries l)).trans (sortEntries_perm l)
    exact (hown left).symm.trans (heq ▸ hown right)
  · intro hperm
    rw [(sortEntries_eq_iff h).mpr hperm]

theorem mem_of_lookup {entries : List (String × α)} {key : String} {v : α}
    (h : entries.lookup key = some v) : (key, v) ∈ entries := by
  obtain ⟨before, after, hentries, -⟩ := List.lookup_eq_some_iff.mp h
  simp [hentries]

theorem lookup_eq_some_iff {entries : List (String × α)} (h : (entries.map Prod.fst).Nodup)
    {key : String} {v : α} : entries.lookup key = some v ↔ (key, v) ∈ entries := by
  induction entries with
  | nil => simp
  | cons entry rest ih =>
    obtain ⟨k, u⟩ := entry
    obtain ⟨hk, hrest⟩ := List.nodup_cons.mp h
    by_cases hkey : key = k
    · subst hkey
      have hnot : (key, v) ∉ rest := fun hmem => hk (List.mem_map.mpr ⟨_, hmem, rfl⟩)
      simp [hnot, eq_comm]
    · simp [List.lookup_cons, beq_eq_false_iff_ne.mpr hkey, hkey, ih hrest]

/-- Entries with distinct keys are the same up to order when there are as many of them and
each key has the same value. -/
theorem perm_iff_lookup {left right : List (String × α)} (hleft : (left.map Prod.fst).Nodup)
    (hright : (right.map Prod.fst).Nodup) :
    left.Perm right ↔ left.length = right.length ∧
      ∀ entry ∈ left, right.lookup entry.1 = some entry.2 := by
  constructor
  · intro hperm
    refine ⟨hperm.length_eq, fun entry hentry => ?_⟩
    rw [lookup_eq_some_iff hright]
    exact hperm.mem_iff.mp hentry
  · rintro ⟨hlength, hall⟩
    have hsubset : left ⊆ right := fun entry hentry =>
      (lookup_eq_some_iff hright).mp (hall entry hentry)
    exact (List.subperm_of_subset (List.Nodup.of_map _ hleft) hsubset).perm_of_length_le hlength.ge

end Entries
end Skein
