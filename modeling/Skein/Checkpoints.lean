import Mathlib.Data.List.Basic
import Mathlib.Data.List.Pairwise
import Mathlib.Data.String.Basic

/-!
# Checkpoints and the coordinates they mention

A checkpoint tuple is what a checkpointer lists for a thread. Its payload is
opaque except for the coordinates in it, so payloads are trees of values and
`Value.coords` is the traversal that collects the coordinates, in its order.
`Mentions` says the same as a relation: where a coordinate may stand in a value.
The `thread_id` entry of a configuration is left out of the tree, since the
traversal reads no coordinate from it.
-/
namespace Skein

/-- A payload. `atom` is a number, a Boolean or an object without entries, under
the text that `String` gives it; `null` also stands for `undefined`. -/
inductive Value
  | null
  | atom (text : String)
  | str (text : String)
  | array (items : List Value)
  | obj (fields : List (String × Value))
  deriving Repr

/-- A checkpoint namespace and a checkpoint id in it. -/
structure Coordinate where
  ns : String
  id : String
  deriving DecidableEq, Repr

namespace Value

mutual
/-- `String(value)`. -/
def text : Value → String
  | null => "null"
  | atom text => text
  | str text => text
  | array items => ",".intercalate (itemTexts items)
  | obj _ => "[object Object]"

/-- An array writes nothing for `null` and `undefined` items. -/
def itemTexts : List Value → List String
  | [] => []
  | null :: rest => "" :: itemTexts rest
  | value :: rest => text value :: itemTexts rest
end

/-- `Object.entries(value)`. -/
def entries : Value → List (String × Value)
  | array items => items.zipIdx.map fun item => (toString item.2, item.1)
  | obj fields => fields
  | _ => []

end Value

/-- `String(value ?? "")`. -/
def namespaceText : Option Value → String
  | none => ""
  | some .null => ""
  | some value => value.text

/-- A string `checkpoint_id` makes the record itself a pointer. -/
def ownCoords (fields : List (String × Value)) : List Coordinate :=
  match fields.lookup "checkpoint_id" with
  | some (.str id) => [⟨namespaceText (fields.lookup "checkpoint_ns"), id⟩]
  | _ => []

def entryCoord : String × Value → Option Coordinate
  | (ns, .str id) => some ⟨ns, id⟩
  | _ => none

/-- The pointers in a `checkpoint_map` or `parents` field. -/
def mapCoords (fields : List (String × Value)) (field : String) : List Coordinate :=
  match fields.lookup field with
  | some coordinates => coordinates.entries.filterMap entryCoord
  | none => []

/-- The record's metadata counts updates since the last delta snapshot. -/
def countsDeltas (fields : List (String × Value)) : Bool :=
  match fields.lookup "metadata" with
  | some (.obj metadata) =>
    match metadata.lookup "counters_since_delta_snapshot" with
    | some counters => !counters.entries.isEmpty
    | none => false
  | _ => false

namespace Value

mutual
/-- The coordinates that `visit` offers to `add`, in its order. -/
def coords : Value → List Coordinate
  | array items => itemCoords items
  | obj fields =>
    ownCoords fields ++ mapCoords fields "checkpoint_map" ++ mapCoords fields "parents" ++
      (if countsDeltas fields then parentCoords fields else []) ++ fieldCoords fields
  | _ => []

def itemCoords : List Value → List Coordinate
  | [] => []
  | value :: rest => coords value ++ itemCoords rest

/-- `visit(record["parentConfig"])`. -/
def parentCoords : List (String × Value) → List Coordinate
  | [] => []
  | (key, value) :: rest => if key = "parentConfig" then coords value else parentCoords rest

/-- `if (key !== "parentConfig") visit(child)`. -/
def fieldCoords : List (String × Value) → List Coordinate
  | [] => []
  | (key, value) :: rest =>
    (if key = "parentConfig" then [] else coords value) ++ fieldCoords rest
end

end Value

/-- Where a value points at a checkpoint. A parent configuration counts only in a
record that still needs its ancestors' delta writes. -/
inductive Mentions : Value → Coordinate → Prop
  | own {fields : List (String × Value)} {id : String}
      (hid : fields.lookup "checkpoint_id" = some (.str id)) :
      Mentions (.obj fields) ⟨namespaceText (fields.lookup "checkpoint_ns"), id⟩
  | map {fields : List (String × Value)} {field ns id : String} {coordinates : Value}
      (hfield : field = "checkpoint_map" ∨ field = "parents")
      (hmap : fields.lookup field = some coordinates) (hentry : (ns, .str id) ∈ coordinates.entries) :
      Mentions (.obj fields) ⟨ns, id⟩
  | delta {fields : List (String × Value)} {parent : Value} {c : Coordinate}
      (hcounts : countsDeltas fields = true) (hparent : fields.lookup "parentConfig" = some parent)
      (hmention : Mentions parent c) : Mentions (.obj fields) c
  | item {items : List Value} {value : Value} {c : Coordinate} (hitem : value ∈ items)
      (hmention : Mentions value c) : Mentions (.array items) c
  | field {fields : List (String × Value)} {key : String} {value : Value} {c : Coordinate}
      (hfield : (key, value) ∈ fields) (hkey : key ≠ "parentConfig")
      (hmention : Mentions value c) : Mentions (.obj fields) c

theorem mem_ownCoords {fields : List (String × Value)} {c : Coordinate}
    (h : c ∈ ownCoords fields) : Mentions (.obj fields) c := by
  unfold ownCoords at h
  split at h
  next id hid =>
    rw [List.mem_singleton.mp h]
    exact .own hid
  · cases h

theorem mem_mapCoords {fields : List (String × Value)} {field ns id : String} :
    ⟨ns, id⟩ ∈ mapCoords fields field ↔
      ∃ coordinates, fields.lookup field = some coordinates ∧ (ns, .str id) ∈ coordinates.entries := by
  unfold mapCoords
  cases fields.lookup field with
  | none => simp
  | some coordinates =>
    have hentry : ∀ e : String × Value, entryCoord e = some ⟨ns, id⟩ ↔ e = (ns, .str id) := by
      rintro ⟨key, value⟩
      cases value <;> simp [entryCoord]
    simp [List.mem_filterMap, hentry]

theorem mentions_of_mem_mapCoords {fields : List (String × Value)} {field : String} {c : Coordinate}
    (hfield : field = "checkpoint_map" ∨ field = "parents") (h : c ∈ mapCoords fields field) :
    Mentions (.obj fields) c := by
  obtain ⟨coordinates, hmap, hentry⟩ := mem_mapCoords.mp h
  exact .map hfield hmap hentry

mutual
theorem mentions_of_mem_coords : ∀ {value : Value} {c : Coordinate},
    c ∈ value.coords → Mentions value c
  | .array items, c, h => by
    obtain ⟨value, hitem, hmention⟩ := mentions_of_mem_itemCoords (by simpa [Value.coords] using h)
    exact .item hitem hmention
  | .obj fields, c, h => by
    simp only [Value.coords, List.mem_append] at h
    rcases h with (((h | h) | h) | h) | h
    · exact mem_ownCoords h
    · exact mentions_of_mem_mapCoords (.inl rfl) h
    · exact mentions_of_mem_mapCoords (.inr rfl) h
    · by_cases hcounts : countsDeltas fields = true
      · rw [if_pos hcounts] at h
        obtain ⟨parent, hparent, hmention⟩ := mentions_of_mem_parentCoords h
        exact .delta hcounts hparent hmention
      · rw [if_neg hcounts] at h
        cases h
    · obtain ⟨key, value, hfield, hkey, hmention⟩ := mentions_of_mem_fieldCoords h
      exact .field hfield hkey hmention
  | .null, c, h => by cases h
  | .atom _, c, h => by cases h
  | .str _, c, h => by cases h

theorem mentions_of_mem_itemCoords : ∀ {items : List Value} {c : Coordinate},
    c ∈ Value.itemCoords items → ∃ value ∈ items, Mentions value c
  | [], c, h => by cases h
  | value :: rest, c, h => by
    rcases List.mem_append.mp h with h | h
    · exact ⟨value, List.mem_cons_self, mentions_of_mem_coords h⟩
    · obtain ⟨other, hitem, hmention⟩ := mentions_of_mem_itemCoords h
      exact ⟨other, List.mem_cons_of_mem value hitem, hmention⟩

theorem mentions_of_mem_parentCoords : ∀ {fields : List (String × Value)} {c : Coordinate},
    c ∈ Value.parentCoords fields →
      ∃ parent, fields.lookup "parentConfig" = some parent ∧ Mentions parent c
  | [], c, h => by cases h
  | (key, value) :: rest, c, h => by
    rw [Value.parentCoords] at h
    by_cases hkey : key = "parentConfig"
    · rw [if_pos hkey] at h
      exact ⟨value, by simp [hkey], mentions_of_mem_coords h⟩
    · rw [if_neg hkey] at h
      obtain ⟨parent, hparent, hmention⟩ := mentions_of_mem_parentCoords h
      exact ⟨parent, by simpa [List.lookup_cons, beq_eq_false_iff_ne.mpr (Ne.symm hkey)], hmention⟩

theorem mentions_of_mem_fieldCoords : ∀ {fields : List (String × Value)} {c : Coordinate},
    c ∈ Value.fieldCoords fields →
      ∃ key value, (key, value) ∈ fields ∧ key ≠ "parentConfig" ∧ Mentions value c
  | [], c, h => by cases h
  | (key, value) :: rest, c, h => by
    rw [Value.fieldCoords, List.mem_append] at h
    rcases h with h | h
    · by_cases hkey : key = "parentConfig"
      · rw [if_pos hkey] at h
        cases h
      · rw [if_neg hkey] at h
        exact ⟨key, value, List.mem_cons_self, hkey, mentions_of_mem_coords h⟩
    · obtain ⟨key', value', hfield, hkey, hmention⟩ := mentions_of_mem_fieldCoords h
      exact ⟨key', value', List.mem_cons_of_mem _ hfield, hkey, hmention⟩
end

theorem mem_itemCoords {items : List Value} {value : Value} {c : Coordinate}
    (hitem : value ∈ items) (h : c ∈ value.coords) : c ∈ Value.itemCoords items := by
  induction items with
  | nil => cases hitem
  | cons other rest ih =>
    rw [Value.itemCoords, List.mem_append]
    rcases List.mem_cons.mp hitem with rfl | hrest
    · exact .inl h
    · exact .inr (ih hrest)

theorem mem_parentCoords {fields : List (String × Value)} {parent : Value} {c : Coordinate}
    (hparent : fields.lookup "parentConfig" = some parent) (h : c ∈ parent.coords) :
    c ∈ Value.parentCoords fields := by
  induction fields with
  | nil => cases hparent
  | cons entry rest ih =>
    rcases entry with ⟨key, value⟩
    rw [Value.parentCoords]
    by_cases hkey : key = "parentConfig"
    · rw [if_pos hkey]
      simp only [hkey, List.lookup_cons_self, Option.some.injEq] at hparent
      rwa [hparent]
    · rw [if_neg hkey]
      apply ih
      simpa [List.lookup_cons, beq_eq_false_iff_ne.mpr (Ne.symm hkey)] using hparent

theorem mem_fieldCoords {fields : List (String × Value)} {key : String} {value : Value}
    {c : Coordinate} (hfield : (key, value) ∈ fields) (hkey : key ≠ "parentConfig")
    (h : c ∈ value.coords) : c ∈ Value.fieldCoords fields := by
  induction fields with
  | nil => cases hfield
  | cons entry rest ih =>
    rcases entry with ⟨key', value'⟩
    rw [Value.fieldCoords, List.mem_append]
    rcases List.mem_cons.mp hfield with heq | hrest
    · cases heq
      rw [if_neg hkey]
      exact .inl h
    · exact .inr (ih hrest)

/-- The traversal offers exactly the coordinates that the value mentions. -/
theorem mem_coords_iff {value : Value} {c : Coordinate} : c ∈ value.coords ↔ Mentions value c := by
  refine ⟨mentions_of_mem_coords, fun h => ?_⟩
  induction h with
  | own hid => simp [Value.coords, ownCoords, hid]
  | @map fields field ns id coordinates hfield hmap hentry =>
    have hmem := mem_mapCoords.mpr ⟨coordinates, hmap, hentry⟩
    rcases hfield with rfl | rfl <;> simp [Value.coords, hmem]
  | delta hcounts hparent _ ih => simp [Value.coords, hcounts, mem_parentCoords hparent ih]
  | item hitem _ ih => simpa [Value.coords] using mem_itemCoords hitem ih
  | field hfield hkey _ ih => simp [Value.coords, mem_fieldCoords hfield hkey ih]

end Skein
