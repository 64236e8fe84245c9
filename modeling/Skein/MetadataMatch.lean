import Skein.Json
import Skein.PropertyOrder

/-!
# Metadata matching

`isMetadataSubset` beside the containment of JSONB it mirrors. A row of metadata is a plain
object, so `key in row` also finds the members of `Object.prototype`, and an empty object of
the filter is matched by any value. A filter keeps to containment when it backs itself: the
values the matcher takes for it all contain it.
-/
namespace Skein

namespace Json

/-- `subject === filter` for a filter that is no object. -/
def sameScalar : Json → Json → Bool
  | null, null => true
  | bool a, bool b => a = b
  | num a, num b => a = b
  | str a, str b => a = b
  | _, _ => false

mutual
/-- JSONB `@>`, taken recursively. -/
def contains (subject : Json) : Json → Bool
  | arr wanted => match subject with
    | arr candidates => containsItems candidates wanted
    | _ => false
  | obj wanted => match subject with
    | obj fields => containsFields fields wanted
    | _ => false
  | scalar => sameScalar subject scalar

def containsItems (candidates : List Json) : List Json → Bool
  | [] => true
  | v :: wanted => candidates.any (fun candidate => contains candidate v) &&
      containsItems candidates wanted

def containsFields (fields : List (String × Json)) : List (String × Json) → Bool
  | [] => true
  | (key, v) :: wanted => (fields.lookup key).any (fun value => contains value v) &&
      containsFields fields wanted
end

mutual
/-- No object has a key twice. -/
def Distinct : Json → Prop
  | arr items => DistinctItems items
  | obj fields => (fields.map Prod.fst).Nodup ∧ DistinctFields fields
  | _ => True

def DistinctItems : List Json → Prop
  | [] => True
  | v :: items => Distinct v ∧ DistinctItems items

def DistinctFields : List (String × Json) → Prop
  | [] => True
  | (_, v) :: fields => Distinct v ∧ DistinctFields fields
end

theorem distinctItems_iff {items : List Json} :
    DistinctItems items ↔ ∀ v ∈ items, v.Distinct := by
  induction items with
  | nil => simp [DistinctItems]
  | cons v items ih => simp [DistinctItems, ih]

theorem distinctFields_iff {fields : List (String × Json)} :
    DistinctFields fields ↔ ∀ field ∈ fields, field.2.Distinct := by
  induction fields with
  | nil => simp [DistinctFields]
  | cons field fields ih => simp [DistinctFields, ih]

theorem containsItems_iff {candidates wanted : List Json} :
    containsItems candidates wanted = true ↔
      ∀ v ∈ wanted, ∃ candidate ∈ candidates, contains candidate v = true := by
  induction wanted with
  | nil => simp [containsItems]
  | cons v wanted ih => simp [containsItems, ih]

theorem containsFields_iff {fields wanted : List (String × Json)} :
    containsFields fields wanted = true ↔
      ∀ field ∈ wanted, ∃ value, fields.lookup field.1 = some value ∧
        contains value field.2 = true := by
  induction wanted with
  | nil => simp [containsFields]
  | cons field wanted ih => simp [containsFields, ih, Option.any_eq_true]

end Json

/-- What a comparison can stand at: a JSON value, a method of `Object.prototype`, or that
object itself. -/
inductive MatchSubject
  | json (v : Json)
  | method
  | objectPrototype

namespace MatchSubject

/-- The methods every plain object inherits. -/
def objectMethods : List String :=
  ["constructor", "__defineGetter__", "__defineSetter__", "hasOwnProperty", "__lookupGetter__",
    "__lookupSetter__", "isPrototypeOf", "propertyIsEnumerable", "toString", "valueOf",
    "toLocaleString"]

/-- `key in row` and `row[key]`, with whether the member is the row's own. -/
def member : MatchSubject → String → Option (MatchSubject × Bool)
  | .json (.obj fields), key =>
    match fields.lookup key with
    | some v => some (.json v, true)
    | none =>
      if key = "__proto__" then some (.objectPrototype, false)
      else if key ∈ objectMethods then some (.method, false)
      else none
  | .objectPrototype, key =>
    if key = "__proto__" then some (.json .null, false)
    else if key ∈ objectMethods then some (.method, false)
    else none
  | _, _ => none

/-- `typeof subject === "object"`, and neither `null` nor an array. -/
def isObject : MatchSubject → Bool
  | .json (.obj _) | .objectPrototype => true
  | _ => false

end MatchSubject

mutual
def jsonbContains (subject : MatchSubject) : Json → Bool
  | .arr wanted => match subject with
    | .json (.arr candidates) => jsonbContainsItems candidates wanted
    | _ => false
  | .obj [] => true
  | .obj (field :: wanted) => subject.isObject && jsonbContainsFields subject (field :: wanted)
  | scalar => match subject with
    | .json v => Json.sameScalar v scalar
    | _ => false

/-- `filter.every` of the array case. -/
def jsonbContainsItems (candidates : List Json) : List Json → Bool
  | [] => true
  | v :: wanted => candidates.any (fun candidate => jsonbContains (.json candidate) v) &&
      jsonbContainsItems candidates wanted

/-- `entries.every` of the object case. -/
def jsonbContainsFields (subject : MatchSubject) : List (String × Json) → Bool
  | [] => true
  | (key, v) :: wanted => (subject.member key).any (fun found => jsonbContains found.1 v) &&
      jsonbContainsFields subject wanted
end

/-- `none` is `undefined`. -/
def isMetadataSubset (subject : Json) : Option Json → Bool
  | none | some .null => true
  | some filter => jsonbContains (.json subject) filter

theorem jsonbContainsItems_iff {candidates wanted : List Json} :
    jsonbContainsItems candidates wanted = true ↔
      ∀ v ∈ wanted, ∃ candidate ∈ candidates, jsonbContains (.json candidate) v = true := by
  induction wanted with
  | nil => simp [jsonbContainsItems]
  | cons v wanted ih => simp [jsonbContainsItems, ih]

theorem jsonbContainsFields_iff {subject : MatchSubject} {wanted : List (String × Json)} :
    jsonbContainsFields subject wanted = true ↔
      ∀ field ∈ wanted, ∃ found, subject.member field.1 = some found ∧
        jsonbContains found.1 field.2 = true := by
  induction wanted with
  | nil => simp [jsonbContainsFields]
  | cons field wanted ih => simp [jsonbContainsFields, ih, Option.any_eq_true]

/-- An object's answer, for the empty filter too. -/
theorem jsonbContains_obj {subject : MatchSubject} (hobject : subject.isObject = true)
    (wanted : List (String × Json)) :
    jsonbContains subject (.obj wanted) = jsonbContainsFields subject wanted := by
  cases wanted <;> simp [jsonbContains, jsonbContainsFields, hobject]

namespace Json

/-- A member of a filter that `Object.prototype` satisfies. -/
def inheritedMember : String × Json → Bool
  | (key, .obj []) => key = "__proto__" || key ∈ MatchSubject.objectMethods
  | (key, .null) => key = "__proto__"
  | _ => false

/-- A filter on `key` that a row without the key satisfies by its prototype. -/
def inherited (key : String) : Json → Bool
  | obj fields => key = "__proto__" && fields.all inheritedMember
  | _ => false

mutual
/-- `v` within `backer`, as containment has it, but for two things: an empty object backs
nothing, and neither does a field that a row without it may inherit. -/
def backs (backer : Json) : Json → Bool
  | arr wanted => match backer with
    | arr items => backsItems items wanted
    | _ => false
  | obj wanted => match backer with
    | obj (field :: fields) => backsFields (field :: fields) wanted
    | _ => false
  | scalar => sameScalar backer scalar

def backsItems (items : List Json) : List Json → Bool
  | [] => true
  | v :: wanted => items.any (fun item => backs item v) && backsItems items wanted

def backsFields (fields : List (String × Json)) : List (String × Json) → Bool
  | [] => true
  | (key, v) :: wanted =>
    (fields.lookup key).any (fun value => backs value v && !inherited key value) &&
      backsFields fields wanted
end

theorem backs_empty (v : Json) : backs (obj []) v = false := by
  cases v <;> simp [backs, sameScalar]

end Json

/-- A method is matched by the empty object alone. -/
theorem jsonbContains_method (v : Json) :
    jsonbContains .method v = true ↔ v = .obj [] := by
  cases v with
  | obj fields => cases fields <;> simp [jsonbContains, MatchSubject.isObject]
  | _ => simp [jsonbContains]

theorem jsonbContains_null (v : Json) :
    jsonbContains (.json .null) v = true ↔ v = .null ∨ v = .obj [] := by
  cases v with
  | obj fields => cases fields <;> simp [jsonbContains, MatchSubject.isObject]
  | _ => simp [jsonbContains, Json.sameScalar]

theorem inheritedMember_iff (key : String) (v : Json) :
    Json.inheritedMember (key, v) = true ↔
      ∃ found, MatchSubject.objectPrototype.member key = some found ∧
        jsonbContains found.1 v = true := by
  have hmethod : "__proto__" ∉ MatchSubject.objectMethods := by decide
  by_cases hproto : key = "__proto__"
  · subst hproto
    simp only [MatchSubject.member, if_true, Option.some.injEq, exists_eq_left',
      jsonbContains_null]
    cases v with
    | obj fields => cases fields <;> simp [Json.inheritedMember]
    | _ => simp [Json.inheritedMember]
  · by_cases hkey : key ∈ MatchSubject.objectMethods
    · simp only [MatchSubject.member, hproto, hkey, if_true, if_false, Option.some.injEq,
        exists_eq_left', jsonbContains_method]
      cases v with
      | obj fields => cases fields <;> simp [Json.inheritedMember, hkey]
      | _ => simp [Json.inheritedMember, hproto]
    · cases v with
      | obj fields => cases fields <;> simp [Json.inheritedMember, MatchSubject.member, hproto, hkey]
      | _ => simp [Json.inheritedMember, MatchSubject.member, hproto, hkey]

/-- What a row without the key answers a filter on it, the empty object apart. -/
theorem inherited_iff {fields : List (String × Json)} {key : String}
    (hlookup : fields.lookup key = none) {v : Json} (hv : v ≠ .obj []) :
    Json.inherited key v = true ↔
      ∃ found, (MatchSubject.json (.obj fields)).member key = some found ∧
        jsonbContains found.1 v = true := by
  by_cases hproto : key = "__proto__"
  · subst hproto
    simp only [MatchSubject.member, hlookup, if_true, Option.some.injEq, exists_eq_left']
    cases v with
    | obj wanted =>
      have hobject : MatchSubject.objectPrototype.isObject = true := rfl
      rw [jsonbContains_obj hobject, jsonbContainsFields_iff]
      simp only [Json.inherited, decide_true, Bool.true_and, List.all_eq_true]
      exact forall₂_congr fun field _ => inheritedMember_iff field.1 field.2
    | _ => simp [Json.inherited, jsonbContains]
  · have hnot : Json.inherited key v = false := by
      cases v <;> simp [Json.inherited, hproto]
    by_cases hkey : key ∈ MatchSubject.objectMethods
    · simp [MatchSubject.member, hlookup, hproto, hkey, hnot, jsonbContains_method, hv]
    · simp [MatchSubject.member, hlookup, hproto, hkey, hnot]

mutual
/-- What the matcher takes for the backer contains all it backs. -/
theorem contains_of_backs {backer subject : Json}
    (hmatch : jsonbContains (.json subject) backer = true) :
    ∀ {v : Json}, backer.backs v = true → subject.contains v = true
  | .arr wanted, hbacks => by
    cases backer with
    | arr items =>
      cases subject with
      | arr candidates =>
        rw [jsonbContains] at hmatch
        rw [Json.backs] at hbacks
        rw [Json.contains]
        exact containsItems_of_backs hmatch hbacks
      | _ => simp [jsonbContains] at hmatch
    | _ => simp [Json.backs] at hbacks
  | .obj wanted, hbacks => by
    cases backer with
    | obj own =>
      cases own with
      | nil => simp [Json.backs_empty] at hbacks
      | cons field fields =>
        cases subject with
        | obj row =>
          rw [jsonbContains_obj rfl] at hmatch
          rw [Json.backs] at hbacks
          rw [Json.contains]
          exact containsFields_of_backs hmatch hbacks
        | _ => simp [jsonbContains, MatchSubject.isObject] at hmatch
    | _ => simp [Json.backs] at hbacks
  | .null, hbacks | .bool _, hbacks | .num _, hbacks | .str _, hbacks => by
    cases backer <;> cases subject <;>
      simp_all [Json.backs, jsonbContains, Json.contains, Json.sameScalar]

theorem containsItems_of_backs {items candidates : List Json}
    (hmatch : jsonbContainsItems candidates items = true) :
    ∀ {wanted : List Json}, Json.backsItems items wanted = true →
      Json.containsItems candidates wanted = true
  | [], _ => rfl
  | v :: wanted, hbacks => by
    rw [Json.backsItems, Bool.and_eq_true, List.any_eq_true] at hbacks
    obtain ⟨⟨item, hitem, hback⟩, hrest⟩ := hbacks
    obtain ⟨candidate, hcandidate, hfound⟩ := jsonbContainsItems_iff.mp hmatch item hitem
    have hfirst : candidate.contains v = true := contains_of_backs hfound hback
    rw [Json.containsItems, Bool.and_eq_true, List.any_eq_true]
    exact ⟨⟨candidate, hcandidate, hfirst⟩, containsItems_of_backs hmatch hrest⟩

theorem containsFields_of_backs {fields row : List (String × Json)}
    (hmatch : jsonbContainsFields (.json (.obj row)) fields = true) :
    ∀ {wanted : List (String × Json)}, Json.backsFields fields wanted = true →
      Json.containsFields row wanted = true
  | [], _ => rfl
  | (key, v) :: wanted, hbacks => by
    rw [Json.backsFields, Bool.and_eq_true, Option.any_eq_true] at hbacks
    obtain ⟨⟨value, hlookup, hvalue⟩, hrest⟩ := hbacks
    rw [Bool.and_eq_true, Bool.not_eq_true'] at hvalue
    obtain ⟨found, hmember, hfound⟩ :=
      jsonbContainsFields_iff.mp hmatch (key, value) (mem_of_lookup hlookup)
    have hfirst : (row.lookup key).any (fun own => own.contains v) = true := by
      cases hown : row.lookup key with
      | some own =>
        obtain rfl : (.json own, true) = found := by
          simpa [MatchSubject.member, hown] using hmember
        exact contains_of_backs hfound hvalue.1
      | none =>
        have hvalued : value ≠ .obj [] := by
          rintro rfl
          simp [Json.backs_empty] at hvalue
        have := (inherited_iff hown hvalued).mpr ⟨found, hmember, hfound⟩
        simp [hvalue.2] at this
    rw [Json.containsFields, Bool.and_eq_true]
    exact ⟨hfirst, containsFields_of_backs hmatch hrest⟩
end

mutual
/-- A filter with distinct keys matches itself. -/
theorem jsonbContains_self :
    ∀ {v : Json}, v.Distinct → jsonbContains (.json v) v = true
  | .arr items, hdistinct => by
    rw [jsonbContains, jsonbContainsItems_iff]
    exact fun v hv => ⟨v, hv, jsonbContains_self_items hdistinct v hv⟩
  | .obj fields, hdistinct => by
    rw [jsonbContains_obj rfl, jsonbContainsFields_iff]
    rintro ⟨key, v⟩ hfield
    have hlookup := (lookup_eq_some_iff hdistinct.1).mpr hfield
    exact ⟨(.json v, true), by simp [MatchSubject.member, hlookup],
      jsonbContains_self_fields hdistinct.2 (key, v) hfield⟩
  | .null, _ | .bool _, _ | .num _, _ | .str _, _ => by simp [jsonbContains, Json.sameScalar]

theorem jsonbContains_self_items :
    ∀ {items : List Json}, Json.DistinctItems items →
      ∀ v ∈ items, jsonbContains (.json v) v = true
  | [], _ => by simp
  | item :: items, hdistinct => by
    intro v hv
    rcases List.mem_cons.mp hv with hv | hv
    · rw [hv]
      exact jsonbContains_self hdistinct.1
    · exact jsonbContains_self_items hdistinct.2 v hv

theorem jsonbContains_self_fields :
    ∀ {fields : List (String × Json)}, Json.DistinctFields fields →
      ∀ field ∈ fields, jsonbContains (.json field.2) field.2 = true
  | [], _ => by simp
  | (key, own) :: fields, hdistinct => by
    intro field hfield
    rcases List.mem_cons.mp hfield with hfield | hfield
    · rw [hfield]
      exact jsonbContains_self hdistinct.1
    · exact jsonbContains_self_fields hdistinct.2 field hfield
end

/-- Some value is taken for `backer` and does not contain `v`. -/
def Parts (backer v : Json) : Prop :=
  ∃ subject : Json, subject.Distinct ∧ jsonbContains (.json subject) backer = true ∧
    subject.contains v = false

/-- A filter is taken for itself. -/
theorem Parts.self {backer v : Json} (hdistinct : backer.Distinct)
    (hlacks : backer.contains v = false) : Parts backer v :=
  ⟨backer, hdistinct, jsonbContains_self hdistinct, hlacks⟩

theorem Parts.items {items wanted : List Json} {v : Json} (hv : v ∈ wanted)
    (hparts : ∀ item ∈ items, Parts item v) : Parts (.arr items) (.arr wanted) := by
  choose taken hdistinct htaken hlacks using hparts
  let candidates := items.attach.map fun item => taken item.1 item.2
  have hmem : ∀ candidate ∈ candidates, ∃ item, ∃ h : item ∈ items, taken item h = candidate := by
    intro candidate hcandidate
    obtain ⟨item, -, rfl⟩ := List.mem_map.mp hcandidate
    exact ⟨item.1, item.2, rfl⟩
  refine ⟨.arr candidates, ?_, ?_, ?_⟩
  · refine Json.distinctItems_iff.mpr fun candidate hcandidate => ?_
    obtain ⟨item, hitem, rfl⟩ := hmem candidate hcandidate
    exact hdistinct item hitem
  · rw [jsonbContains, jsonbContainsItems_iff]
    intro item hitem
    have hcandidate : taken item hitem ∈ candidates :=
      List.mem_map.mpr ⟨⟨item, hitem⟩, List.mem_attach _ _, rfl⟩
    exact ⟨_, hcandidate, htaken item hitem⟩
  · rw [Json.contains, Bool.eq_false_iff, Ne, Json.containsItems_iff]
    intro hall
    obtain ⟨candidate, hcandidate, hcontains⟩ := hall v hv
    obtain ⟨item, hitem, rfl⟩ := hmem candidate hcandidate
    simp [hlacks item hitem] at hcontains

/-- A row that lacks a key contains no object with it. -/
theorem contains_of_lacks {row wanted : List (String × Json)} {key : String} {v : Json}
    (hv : (key, v) ∈ wanted) (hlacks : ∀ value, row.lookup key = some value →
      value.contains v = false) : (Json.obj row).contains (.obj wanted) = false := by
  rw [Json.contains, Bool.eq_false_iff, Ne, Json.containsFields_iff]
  intro hall
  obtain ⟨value, hlookup, hcontains⟩ := hall (key, v) hv
  simp [hlacks value hlookup] at hcontains

section Fields
variable {fields wanted : List (String × Json)} {key : String} {value v : Json}

/-- The row with another value under the key. -/
theorem Parts.field (hdistinct : (Json.obj fields).Distinct) (hv : (key, v) ∈ wanted)
    (hlookup : fields.lookup key = some value) (hparts : Parts value v) :
    Parts (.obj fields) (.obj wanted) := by
  obtain ⟨taken, htakenDistinct, htaken, hlacks⟩ := hparts
  let row := fields.map fun field => (field.1, if field.1 = key then taken else field.2)
  have hkeys : row.map Prod.fst = fields.map Prod.fst := by
    simp [row, Function.comp_def]
  have hrow : (row.map Prod.fst).Nodup := hkeys ▸ hdistinct.1
  have hvalues := Json.distinctFields_iff.mp hdistinct.2
  refine ⟨.obj row, ⟨hrow, Json.distinctFields_iff.mpr ?_⟩, ?_, contains_of_lacks hv ?_⟩
  · rintro field hfield
    obtain ⟨own, hown, rfl⟩ := List.mem_map.mp hfield
    dsimp only
    split_ifs with hkey
    · exact htakenDistinct
    · exact hvalues own hown
  · rw [jsonbContains_obj rfl, jsonbContainsFields_iff]
    rintro ⟨k, own⟩ hown
    have hin : (k, if k = key then taken else own) ∈ row := List.mem_map.mpr ⟨_, hown, rfl⟩
    have hmember := (lookup_eq_some_iff hrow).mpr hin
    refine ⟨(.json (if k = key then taken else own), true), by
      simp [MatchSubject.member, hmember], ?_⟩
    dsimp only
    split_ifs with hkey
    · have hsame := (lookup_eq_some_iff hdistinct.1).mpr hown
      rw [hkey, hlookup, Option.some.injEq] at hsame
      exact hsame ▸ htaken
    · exact jsonbContains_self (hvalues _ hown)
  · intro found hfound
    obtain ⟨own, -, heq⟩ := List.mem_map.mp (mem_of_lookup hfound)
    simp only [Prod.mk.injEq] at heq
    rw [← heq.2, if_pos heq.1]
    exact hlacks

/-- The row without the key, which then inherits it. -/
theorem Parts.inherited (hdistinct : (Json.obj fields).Distinct) (hv : (key, v) ∈ wanted)
    (hlookup : fields.lookup key = some value) (hvalue : value ≠ .obj [])
    (hinherited : Json.inherited key value = true) : Parts (.obj fields) (.obj wanted) := by
  let row := fields.filter fun field => field.1 ≠ key
  have hsub : row.Sublist fields := List.filter_sublist
  have hrow : (row.map Prod.fst).Nodup := hdistinct.1.sublist (hsub.map Prod.fst)
  have hvalues := Json.distinctFields_iff.mp hdistinct.2
  have hnone : row.lookup key = none := by
    rw [List.lookup_eq_none_iff]
    intro field hfield
    have hother : field.1 ≠ key := by simpa using (List.mem_filter.mp hfield).2
    exact bne_iff_ne.mpr hother.symm
  refine ⟨.obj row, ⟨hrow, Json.distinctFields_iff.mpr fun field hfield =>
    hvalues field (hsub.subset hfield)⟩, ?_, contains_of_lacks hv (by simp [hnone])⟩
  rw [jsonbContains_obj rfl, jsonbContainsFields_iff]
  rintro ⟨k, own⟩ hown
  by_cases hkey : k = key
  · have hsame := (lookup_eq_some_iff hdistinct.1).mpr hown
    rw [hkey, hlookup, Option.some.injEq] at hsame
    obtain ⟨found, hmember, hfound⟩ := (inherited_iff hnone hvalue).mp hinherited
    exact ⟨found, hkey ▸ hmember, hsame ▸ hfound⟩
  · have hin : (k, own) ∈ row := List.mem_filter.mpr ⟨hown, by simpa using hkey⟩
    have hmember := (lookup_eq_some_iff hrow).mpr hin
    exact ⟨(.json own, true), by simp [MatchSubject.member, hmember],
      jsonbContains_self (hvalues _ hown)⟩

end Fields

mutual
/-- What a filter does not back, some value taken for the filter does not contain. -/
theorem parts_of_not_backs {backer : Json} (hdistinct : backer.Distinct) :
    ∀ {v : Json}, backer.backs v = false → Parts backer v
  | .arr wanted, hbacks => by
    cases backer with
    | arr items =>
      obtain ⟨v, hv, hparts⟩ := exists_parting_item hdistinct hbacks
      exact Parts.items hv hparts
    | _ => exact Parts.self hdistinct (by simp [Json.contains])
  | .obj wanted, hbacks => by
    cases backer with
    | obj fields =>
      cases fields with
      | nil => exact ⟨.null, trivial, by simp [jsonbContains], by simp [Json.contains]⟩
      | cons field fields =>
        obtain ⟨key, v, hv, hlookup | ⟨value, hlookup, hparts⟩⟩ :=
          exists_parting_field hdistinct.2 hbacks
        · exact Parts.self hdistinct (contains_of_lacks hv (by simp [hlookup]))
        · rcases hparts with hparts | ⟨hvalue, hinherited⟩
          · exact Parts.field hdistinct hv hlookup hparts
          · exact Parts.inherited hdistinct hv hlookup hvalue hinherited
    | _ => exact Parts.self hdistinct (by simp [Json.contains])
  | .null, hbacks | .bool _, hbacks | .num _, hbacks | .str _, hbacks =>
    Parts.self hdistinct (by simpa [Json.contains, Json.backs] using hbacks)

theorem exists_parting_item {items : List Json} (hdistinct : Json.DistinctItems items) :
    ∀ {wanted : List Json}, Json.backsItems items wanted = false →
      ∃ v ∈ wanted, ∀ item ∈ items, Parts item v
  | [], hbacks => by simp [Json.backsItems] at hbacks
  | v :: wanted, hbacks => by
    rw [Json.backsItems, Bool.and_eq_false_iff, List.any_eq_false] at hbacks
    rcases hbacks with hfirst | hrest
    · refine ⟨v, List.mem_cons_self, fun item hitem => ?_⟩
      have hitemDistinct := Json.distinctItems_iff.mp hdistinct item hitem
      exact parts_of_not_backs hitemDistinct (by simpa using hfirst item hitem)
    · obtain ⟨w, hw, hparts⟩ := exists_parting_item hdistinct hrest
      exact ⟨w, List.mem_cons_of_mem _ hw, hparts⟩

theorem exists_parting_field {fields : List (String × Json)}
    (hdistinct : Json.DistinctFields fields) :
    ∀ {wanted : List (String × Json)}, Json.backsFields fields wanted = false →
      ∃ key v, (key, v) ∈ wanted ∧ (fields.lookup key = none ∨
        ∃ value, fields.lookup key = some value ∧
          (Parts value v ∨ value ≠ .obj [] ∧ Json.inherited key value = true))
  | [], hbacks => by simp [Json.backsFields] at hbacks
  | (key, v) :: wanted, hbacks => by
    rw [Json.backsFields, Bool.and_eq_false_iff] at hbacks
    rcases hbacks with hfirst | hrest
    · refine ⟨key, v, List.mem_cons_self, ?_⟩
      cases hlookup : fields.lookup key with
      | none => exact .inl rfl
      | some value =>
        have hvalueDistinct : value.Distinct :=
          Json.distinctFields_iff.mp hdistinct (key, value) (mem_of_lookup hlookup)
        refine .inr ⟨value, rfl, ?_⟩
        cases hbacksValue : value.backs v with
        | false => exact .inl (parts_of_not_backs hvalueDistinct hbacksValue)
        | true =>
          have hvalue : value ≠ .obj [] := by
            rintro rfl
            simp [Json.backs_empty] at hbacksValue
          exact .inr ⟨hvalue, by simpa [hlookup, hbacksValue] using hfirst⟩
    · obtain ⟨k, w, hw, hparts⟩ := exists_parting_field hdistinct hrest
      exact ⟨k, w, List.mem_cons_of_mem _ hw, hparts⟩
end

theorem isMetadataSubset_some {filter : Json} (hfilter : filter ≠ .null) (subject : Json) :
    isMetadataSubset subject (some filter) = jsonbContains (.json subject) filter := by
  cases filter <;> first | rfl | exact absurd rfl hfilter

mutual
/-- Containment asks for all the matcher asks for. -/
theorem jsonbContains_of_contains {subject : Json} :
    ∀ {v : Json}, subject.contains v = true → jsonbContains (.json subject) v = true
  | .arr wanted, hcontains => by
    cases subject with
    | arr candidates =>
      rw [Json.contains] at hcontains
      rw [jsonbContains]
      exact jsonbContainsItems_of_contains hcontains
    | _ => simp [Json.contains] at hcontains
  | .obj wanted, hcontains => by
    cases subject with
    | obj fields =>
      rw [Json.contains] at hcontains
      rw [jsonbContains_obj rfl]
      exact jsonbContainsFields_of_contains hcontains
    | _ => simp [Json.contains] at hcontains
  | .null, hcontains | .bool _, hcontains | .num _, hcontains | .str _, hcontains => by
    simpa [Json.contains, jsonbContains] using hcontains

theorem jsonbContainsItems_of_contains {candidates : List Json} :
    ∀ {wanted : List Json}, Json.containsItems candidates wanted = true →
      jsonbContainsItems candidates wanted = true
  | [], _ => rfl
  | v :: wanted, hcontains => by
    rw [Json.containsItems, Bool.and_eq_true, List.any_eq_true] at hcontains
    obtain ⟨⟨candidate, hcandidate, hfirst⟩, hrest⟩ := hcontains
    rw [jsonbContainsItems, Bool.and_eq_true, List.any_eq_true]
    exact ⟨⟨candidate, hcandidate, jsonbContains_of_contains hfirst⟩,
      jsonbContainsItems_of_contains hrest⟩

theorem jsonbContainsFields_of_contains {fields : List (String × Json)} :
    ∀ {wanted : List (String × Json)}, Json.containsFields fields wanted = true →
      jsonbContainsFields (.json (.obj fields)) wanted = true
  | [], _ => rfl
  | (key, v) :: wanted, hcontains => by
    rw [Json.containsFields, Bool.and_eq_true, Option.any_eq_true] at hcontains
    obtain ⟨⟨value, hlookup, hfirst⟩, hrest⟩ := hcontains
    rw [jsonbContainsFields, Bool.and_eq_true, Option.any_eq_true]
    exact ⟨⟨(.json value, true), by simp [MatchSubject.member, hlookup],
      jsonbContains_of_contains hfirst⟩, jsonbContainsFields_of_contains hrest⟩
end

/-- **Where the matcher is containment.** A filter is matched by the values that contain it,
and no others, exactly when it backs itself: no empty object stands in it, unless inside an
array item that another item backs, and no field asks for what a row without the field
inherits. -/
theorem isMetadataSubset_eq_contains_iff {filter : Json} (hfilter : filter ≠ .null)
    (hdistinct : filter.Distinct) :
    (∀ subject : Json, subject.Distinct →
      isMetadataSubset subject (some filter) = subject.contains filter) ↔
    filter.backs filter = true := by
  constructor
  · intro hexact
    by_contra hbacks
    obtain ⟨subject, hsubject, hmatch, hlacks⟩ :=
      parts_of_not_backs hdistinct (Bool.eq_false_iff.mpr hbacks)
    have := hexact subject hsubject
    rw [isMetadataSubset_some hfilter, hmatch, hlacks] at this
    cases this
  · intro hbacks subject _
    rw [isMetadataSubset_some hfilter, Bool.eq_iff_iff]
    exact ⟨fun hmatch => contains_of_backs hmatch hbacks, jsonbContains_of_contains⟩

/-- A filter on an array field keeps to containment, with an empty object among the items when
another item is an object; a filter by an empty object alone does not. -/
theorem backedFilter_matches :
    (∀ subject : Json, subject.Distinct →
      isMetadataSubset subject
          (some (.obj [("tags", .arr [.obj [], .obj [("name", .str "a")]])])) =
        subject.contains (.obj [("tags", .arr [.obj [], .obj [("name", .str "a")]])])) ∧
    ¬∀ subject : Json, subject.Distinct →
      isMetadataSubset subject (some (.obj [("tags", .obj [])])) =
        subject.contains (.obj [("tags", .obj [])]) :=
  ⟨(isMetadataSubset_eq_contains_iff (by simp)
      (by simp [Json.Distinct, Json.DistinctFields, Json.DistinctItems])).mpr (by decide),
    fun hexact => absurd ((isMetadataSubset_eq_contains_iff (by simp)
      (by simp [Json.Distinct, Json.DistinctFields])).mp hexact) (by decide)⟩

/-- An empty object in the filter matches a string, and an inherited key one that is absent. -/
theorem looseRows_match :
    isMetadataSubset (.obj [("owner", .str "ada")]) (some (.obj [("owner", .obj [])])) = true ∧
    (Json.obj [("owner", .str "ada")]).contains (.obj [("owner", .obj [])]) = false ∧
    isMetadataSubset (.obj []) (some (.obj [("toString", .obj [])])) = true ∧
    (Json.obj []).contains (.obj [("toString", .obj [])]) = false := by
  decide

end Skein
