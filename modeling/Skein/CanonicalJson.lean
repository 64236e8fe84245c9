import Skein.Json
import Skein.PropertyOrder

/-!
# Canonical JSON

`canonicalJson` on the values `JSON.parse` yields. It forgets the order of the keys at every
depth, and one thing more: a number beyond the range of doubles is parsed to an infinity,
which `JSON.stringify` writes as `null`.
-/
namespace Skein

/-- A value from `JSON.parse`. The members of an object stand in the order they are
enumerated in. A finite number is the literal it is written as again, so that `-0`, which
equals `0`, is that number. -/
inductive ParsedJson
  | null
  | bool (b : Bool)
  | num (n : JsonNumber)
  | infinity (negative : Bool)
  | str (s : String)
  | arr (items : List ParsedJson)
  | obj (fields : List (String × ParsedJson))

namespace ParsedJson

mutual
/-- No object has two members of one name. -/
def Distinct : ParsedJson → Prop
  | arr items => DistinctItems items
  | obj fields => (fields.map Prod.fst).Nodup ∧ DistinctFields fields
  | _ => True

def DistinctItems : List ParsedJson → Prop
  | [] => True
  | v :: items => Distinct v ∧ DistinctItems items

def DistinctFields : List (String × ParsedJson) → Prop
  | [] => True
  | (_, v) :: fields => Distinct v ∧ DistinctFields fields
end

mutual
/-- `sortKeys`: the members are created anew in the order of their keys. -/
def sortKeys : ParsedJson → ParsedJson
  | arr items => arr (sortItems items)
  | obj fields => obj (ownOrder (sortEntries (sortFields fields)))
  | scalar => scalar

def sortItems : List ParsedJson → List ParsedJson
  | [] => []
  | v :: items => sortKeys v :: sortItems items

/-- The values of the members. -/
def sortFields : List (String × ParsedJson) → List (String × ParsedJson)
  | [] => []
  | (k, v) :: fields => (k, sortKeys v) :: sortFields fields
end

mutual
/-- What `JSON.stringify` writes for the value. -/
def written : ParsedJson → Json
  | null | infinity _ => .null
  | bool b => .bool b
  | num n => .num n
  | str s => .str s
  | arr items => .arr (writtenItems items)
  | obj fields => .obj (writtenFields fields)

def writtenItems : List ParsedJson → List Json
  | [] => []
  | v :: items => written v :: writtenItems items

def writtenFields : List (String × ParsedJson) → List (String × Json)
  | [] => []
  | (k, v) :: fields => (k, written v) :: writtenFields fields
end

/-- `canonicalJson(value)`. -/
def canonicalJson (v : ParsedJson) : List Char := (written (sortKeys v)).stringify

mutual
/-- Equal as JSON values up to the order of object keys at every depth. With `blank` the
numbers out of range count as `null`. -/
def SameUpTo (blank : Bool) : ParsedJson → ParsedJson → Prop
  | null, null => True
  | bool a, bool b => a = b
  | num a, num b => a = b
  | infinity a, infinity b => blank = true ∨ a = b
  | null, infinity _ | infinity _, null => blank = true
  | str a, str b => a = b
  | arr items, arr others => SameItems blank items others
  | obj fields, obj others => fields.length = others.length ∧ SameFields blank fields others
  | _, _ => False

def SameItems (blank : Bool) : List ParsedJson → List ParsedJson → Prop
  | [], [] => True
  | v :: items, w :: others => SameUpTo blank v w ∧ SameItems blank items others
  | _, _ => False

/-- Every member has its like among the others. -/
def SameFields (blank : Bool) :
    List (String × ParsedJson) → List (String × ParsedJson) → Prop
  | [], _ => True
  | (k, v) :: fields, others =>
    (∃ w, others.lookup k = some w ∧ SameUpTo blank v w) ∧ SameFields blank fields others
end

mutual
/-- At some place that both values have, one holds a number out of range and the other `null`
or the other infinity. -/
def Blurred : ParsedJson → ParsedJson → Prop
  | null, infinity _ | infinity _, null => True
  | infinity a, infinity b => a ≠ b
  | arr items, arr others => BlurredItems items others
  | obj fields, obj others => BlurredFields fields others
  | _, _ => False

def BlurredItems : List ParsedJson → List ParsedJson → Prop
  | v :: items, w :: others => Blurred v w ∨ BlurredItems items others
  | _, _ => False

def BlurredFields : List (String × ParsedJson) → List (String × ParsedJson) → Prop
  | [], _ => False
  | (k, v) :: fields, others =>
    (∃ w, others.lookup k = some w ∧ Blurred v w) ∨ BlurredFields fields others
end

mutual
theorem sameUpTo_false_iff : ∀ v w : ParsedJson,
    SameUpTo false v w ↔ SameUpTo true v w ∧ ¬ Blurred v w
  | arr items, arr others => by
    rw [SameUpTo, SameUpTo, Blurred]
    exact sameItems_false_iff items others
  | obj fields, obj others => by
    rw [SameUpTo, SameUpTo, Blurred, and_assoc]
    exact and_congr_right' (sameFields_false_iff fields others)
  | null, w => by
    cases w <;> simp [SameUpTo, Blurred]
  | bool b, w => by
    cases w <;> simp [SameUpTo, Blurred]
  | num n, w => by
    cases w <;> simp [SameUpTo, Blurred]
  | infinity n, w => by
    cases w <;> simp [SameUpTo, Blurred]
  | str s, w => by
    cases w <;> simp [SameUpTo, Blurred]
  | arr items, null | arr items, bool _ | arr items, num _ | arr items, infinity _
  | arr items, str _ | arr items, obj _ => by
    simp [SameUpTo]
  | obj fields, null | obj fields, bool _ | obj fields, num _ | obj fields, infinity _
  | obj fields, str _ | obj fields, arr _ => by
    simp [SameUpTo]

theorem sameItems_false_iff : ∀ items others : List ParsedJson,
    SameItems false items others ↔ SameItems true items others ∧ ¬ BlurredItems items others
  | [], others => by cases others <;> simp [SameItems, BlurredItems]
  | _ :: _, [] => by simp [SameItems]
  | v :: items, w :: others => by
    rw [SameItems, SameItems, BlurredItems, sameUpTo_false_iff v w,
      sameItems_false_iff items others, not_or, and_and_and_comm]

/-- A member has at most one like among the others, so the two halves speak of the same one. -/
theorem sameFields_false_iff : ∀ fields others : List (String × ParsedJson),
    SameFields false fields others ↔
      SameFields true fields others ∧ ¬ BlurredFields fields others
  | [], others => by simp [SameFields, BlurredFields]
  | (k, v) :: fields, others => by
    rw [SameFields, SameFields, BlurredFields, sameFields_false_iff fields others, not_or,
      and_and_and_comm]
    refine and_congr_left' ?_
    cases others.lookup k with
    | none => simp
    | some w => simp [sameUpTo_false_iff v w]
end

/-- The canonical form of a value. -/
def canonical (v : ParsedJson) : Json := written (sortKeys v)

theorem writtenItems_sortItems (items : List ParsedJson) :
    writtenItems (sortItems items) = items.map canonical := by
  induction items with
  | nil => rfl
  | cons v items ih => rw [sortItems, writtenItems, ih]; rfl

theorem writtenFields_eq (fields : List (String × ParsedJson)) :
    writtenFields fields = mapEntries written fields := by
  induction fields with
  | nil => rfl
  | cons entry fields ih => rw [writtenFields, ih]; rfl

theorem sortFields_eq (fields : List (String × ParsedJson)) :
    sortFields fields = mapEntries sortKeys fields := by
  induction fields with
  | nil => rfl
  | cons entry fields ih => rw [sortFields, ih]; rfl

theorem canonical_arr (items : List ParsedJson) :
    canonical (arr items) = .arr (items.map canonical) := by
  rw [canonical, sortKeys, written, writtenItems_sortItems]

theorem canonical_obj (fields : List (String × ParsedJson)) :
    canonical (obj fields) = .obj (ownOrder (sortEntries (mapEntries canonical fields))) := by
  have hmap : mapEntries written (mapEntries sortKeys fields) = mapEntries canonical fields := by
    simp [mapEntries, canonical, Function.comp_def]
  rw [canonical, sortKeys, written, writtenFields_eq, sortFields_eq, mapEntries_ownOrder,
    mapEntries_sortEntries, hmap]

theorem distinctFields_iff {fields : List (String × ParsedJson)} :
    DistinctFields fields ↔ ∀ entry ∈ fields, entry.2.Distinct := by
  induction fields with
  | nil => simp [DistinctFields]
  | cons entry fields ih => simp [DistinctFields, ih]

theorem lookup_mapEntries {α β : Type*} (f : α → β) (entries : List (String × α)) (k : String) :
    (mapEntries f entries).lookup k = (entries.lookup k).map f := by
  induction entries with
  | nil => rfl
  | cons entry rest ih =>
    obtain ⟨j, v⟩ := entry
    rw [show mapEntries f ((j, v) :: rest) = (j, f v) :: mapEntries f rest from rfl]
    by_cases hkey : k = j
    · simp [hkey]
    · simp [List.lookup_cons, beq_eq_false_iff_ne.mpr hkey, ih]

/-- The members of two objects whose values are known to compare. -/
theorem canonical_obj_eq_iff {fields others : List (String × ParsedJson)}
    (hfields : (fields.map Prod.fst).Nodup) (hothers : (others.map Prod.fst).Nodup) :
    canonical (obj fields) = canonical (obj others) ↔
      fields.length = others.length ∧
        ∀ entry ∈ fields, ∃ w, others.lookup entry.1 = some w ∧ canonical entry.2 = canonical w := by
  rw [canonical_obj, canonical_obj, Json.obj.injEq,
    ownOrder_sortEntries_eq_iff (by rwa [mapEntries_keys]),
    perm_iff_lookup (by rwa [mapEntries_keys]) (by rwa [mapEntries_keys])]
  simp only [mapEntries, List.length_map, List.forall_mem_map]
  refine and_congr_right' (forall₂_congr fun entry _ => ?_)
  have hlookup := lookup_mapEntries canonical others entry.1
  simp only [mapEntries] at hlookup
  rw [hlookup, Option.map_eq_some_iff]
  simp [eq_comm]

mutual
/-- The canonical form forgets the order of keys and the numbers out of range. -/
theorem canonical_eq_iff : ∀ {v w : ParsedJson}, v.Distinct → w.Distinct →
    (canonical v = canonical w ↔ SameUpTo true v w)
  | arr items, arr others, hv, hw => by
    rw [canonical_arr, canonical_arr, Json.arr.injEq, SameUpTo]
    exact canonicalItems_eq_iff hv hw
  | obj fields, obj others, hv, hw => by
    rw [canonical_obj_eq_iff hv.1 hw.1, SameUpTo]
    exact and_congr_right' (canonicalFields_eq_iff hv.2 hw.2)
  | null, w, _, _ => by
    cases w <;> simp [SameUpTo, canonical, sortKeys, written]
  | bool b, w, _, _ => by
    cases w <;> simp [SameUpTo, canonical, sortKeys, written]
  | num n, w, _, _ => by
    cases w <;> simp [SameUpTo, canonical, sortKeys, written]
  | infinity n, w, _, _ => by
    cases w <;> simp [SameUpTo, canonical, sortKeys, written]
  | str s, w, _, _ => by
    cases w <;> simp [SameUpTo, canonical, sortKeys, written]
  | arr items, null, _, _ | arr items, bool _, _, _ | arr items, num _, _, _
  | arr items, infinity _, _, _ | arr items, str _, _, _ | arr items, obj _, _, _ => by
    simp [SameUpTo, canonical, sortKeys, written]
  | obj fields, null, _, _ | obj fields, bool _, _, _ | obj fields, num _, _, _
  | obj fields, infinity _, _, _ | obj fields, str _, _, _ | obj fields, arr _, _, _ => by
    simp [SameUpTo, canonical, sortKeys, written]

theorem canonicalItems_eq_iff : ∀ {items others : List ParsedJson}, DistinctItems items →
    DistinctItems others →
    (items.map canonical = others.map canonical ↔ SameItems true items others)
  | [], others, _, _ => by cases others <;> simp [SameItems]
  | _ :: _, [], _, _ => by simp [SameItems]
  | v :: items, w :: others, hv, hw => by
    rw [List.map_cons, List.map_cons, List.cons.injEq, SameItems]
    exact and_congr (canonical_eq_iff hv.1 hw.1) (canonicalItems_eq_iff hv.2 hw.2)

theorem canonicalFields_eq_iff : ∀ {fields others : List (String × ParsedJson)},
    DistinctFields fields → DistinctFields others →
    ((∀ entry ∈ fields, ∃ w, others.lookup entry.1 = some w ∧ canonical entry.2 = canonical w) ↔
      SameFields true fields others)
  | [], others, _, _ => by simp [SameFields]
  | (k, v) :: fields, others, hv, hw => by
    rw [List.forall_mem_cons, SameFields, canonicalFields_eq_iff hv.2 hw]
    refine and_congr_left' (exists_congr fun w => and_congr_right fun hlookup => ?_)
    exact canonical_eq_iff hv.1 (distinctFields_iff.mp hw (k, w) (mem_of_lookup hlookup))
end

theorem canonicalJson_eq_iff {v w : ParsedJson} (hv : v.Distinct) (hw : w.Distinct) :
    canonicalJson v = canonicalJson w ↔ SameUpTo true v w := by
  rw [← canonical_eq_iff hv hw]
  constructor
  · intro h
    have hparsed := congrArg Json.parse h
    rw [canonicalJson, canonicalJson, Json.parse_stringify, Json.parse_stringify] at hparsed
    exact Option.some.inj hparsed
  · intro h
    exact congrArg Json.stringify h

end ParsedJson
end Skein
