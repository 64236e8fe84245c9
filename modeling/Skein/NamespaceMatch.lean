import Skein.JsStrings
import Skein.OrderedMap

/-!
# Namespaces of the long-term store

Positional matching with a wildcard, truncation to a depth and the order of namespaces.
-/
namespace Skein

/-- A namespace, or a path to match one with. -/
abbrev Namespace := List JsString

/-- `"*"`. -/
def namespaceWildcard : JsString := [42]

/-- What `listNamespaces` restricts and pages by. -/
structure StoreNamespaceQuery where
  prefixPath : Option Namespace := none
  suffixPath : Option Namespace := none
  maxDepth : Option ℤ := none
  limit : Option ℕ := none
  offset : Option ℕ := none
  deriving DecidableEq, Repr

def hasNamespaceWildcard (path : Namespace) : Bool := path.any (· = namespaceWildcard)

/-- Does `path` match the segments beside it? -/
def matchesSegments (path segments : Namespace) : Bool :=
  (path.zip segments).all fun pair => pair.1 = namespaceWildcard || pair.2 = pair.1

def matchesNamespacePrefix (segments path : Namespace) : Bool :=
  path.length ≤ segments.length && matchesSegments path segments

def matchesNamespaceSuffix (segments path : Namespace) : Bool :=
  path.length ≤ segments.length &&
    matchesSegments path (segments.drop (segments.length - path.length))

/-- An absent or empty path is not a condition. -/
def matchesNamespaceQuery (segments : Namespace) (query : StoreNamespaceQuery) : Bool :=
  query.prefixPath.all (fun path => path.isEmpty || matchesNamespacePrefix segments path) &&
    query.suffixPath.all fun path => path.isEmpty || matchesNamespaceSuffix segments path

/-- `segments.slice(0, depth)`. -/
def sliceDepth (depth : ℤ) (segments : Namespace) : Namespace :=
  if 0 ≤ depth then segments.take depth.toNat
  else segments.take (segments.length - depth.natAbs)

/-- The values of the map in which each namespace is set under its text. -/
def distinctNamespaces (namespaces : List Namespace) : List Namespace :=
  (namespaces.foldl (fun seen segments => seen.set (JsString.stringifyStrings segments) segments)
    (∅ : OrderedMap JsString Namespace)).values

def truncateNamespaceDepth (namespaces : List Namespace) (maxDepth : ℤ) : List Namespace :=
  distinctNamespaces (namespaces.map (sliceDepth maxDepth))

/-- Element-wise, the shorter first on a shared prefix; negative for less. -/
def compareNamespaces : Namespace → Namespace → ℤ
  | left :: a, right :: b =>
    if left ≠ right then (if left < right then -1 else 1) else compareNamespaces a b
  | a, b => a.length - b.length

theorem compareNamespaces_self (a : Namespace) : compareNamespaces a a = 0 := by
  induction a with
  | nil => rfl
  | cons left a ih => simp [compareNamespaces, ih]

theorem compareNamespaces_of_lt {a b : Namespace} (h : a < b) : compareNamespaces a b < 0 := by
  induction a generalizing b with
  | nil =>
    cases b with
    | nil => exact absurd h (lt_irrefl _)
    | cons right b =>
      simp only [compareNamespaces, List.length_nil, List.length_cons]
      omega
  | cons left a ih =>
    cases b with
    | nil => exact absurd h (List.not_lt_nil _)
    | cons right b =>
      rcases List.cons_lt_cons_iff.mp h with hlt | ⟨rfl, hlt⟩
      · simp [compareNamespaces, hlt, hlt.ne]
      · simpa [compareNamespaces] using ih hlt

theorem compareNamespaces_of_gt {a b : Namespace} (h : b < a) : 0 < compareNamespaces a b := by
  induction a generalizing b with
  | nil => exact absurd h (List.not_lt_nil _)
  | cons left a ih =>
    cases b with
    | nil =>
      simp only [compareNamespaces, List.length_nil, List.length_cons]
      omega
    | cons right b =>
      rcases List.cons_lt_cons_iff.mp h with hlt | ⟨rfl, hlt⟩
      · simp [compareNamespaces, hlt.not_gt, hlt.ne']
      · simpa [compareNamespaces] using ih hlt

/-- The comparator is the lexicographic order. -/
theorem compareNamespaces_neg_iff (a b : Namespace) : compareNamespaces a b < 0 ↔ a < b := by
  constructor
  · intro h
    rcases lt_trichotomy a b with hlt | rfl | hgt
    · exact hlt
    · rw [compareNamespaces_self] at h
      omega
    · have := compareNamespaces_of_gt hgt
      omega
  · exact compareNamespaces_of_lt

theorem compareNamespaces_nonpos_iff (a b : Namespace) : compareNamespaces a b ≤ 0 ↔ a ≤ b := by
  rw [← not_lt, ← not_lt, not_iff_not]
  constructor
  · intro h
    rcases lt_trichotomy a b with hlt | rfl | hgt
    · have := compareNamespaces_of_lt hlt
      omega
    · rw [compareNamespaces_self] at h
      omega
    · exact hgt
  · exact compareNamespaces_of_gt

theorem stringifyStrings_injective : Function.Injective JsString.stringifyStrings := by
  intro a b h
  have hparse := congrArg JsString.parseStrings h
  simpa only [JsString.parseStrings_stringifyStrings, Option.some.injEq] using hparse

/-- Every entry of the map holds its namespace under its own text. -/
theorem distinct_foldl (namespaces : List Namespace) (seen : OrderedMap JsString Namespace)
    (hseen : ∀ k v, seen.get? k = some v → k = JsString.stringifyStrings v) :
    (∀ k v, (namespaces.foldl (fun seen segments =>
        seen.set (JsString.stringifyStrings segments) segments) seen).get? k = some v ↔
      k = JsString.stringifyStrings v ∧ (v ∈ namespaces ∨ seen.get? k = some v)) := by
  induction namespaces generalizing seen with
  | nil =>
    intro k v
    simp only [List.foldl_nil, List.not_mem_nil, false_or]
    exact ⟨fun h => ⟨hseen k v h, h⟩, And.right⟩
  | cons segments rest ih =>
    intro k v
    rw [List.foldl_cons, ih]
    · simp only [OrderedMap.get?_set, List.mem_cons]
      constructor
      · rintro ⟨rfl, hmem | hget⟩
        · exact ⟨rfl, .inl (.inr hmem)⟩
        · split_ifs at hget with hkey
          · cases hget
            exact ⟨rfl, .inl (.inl rfl)⟩
          · exact ⟨rfl, .inr hget⟩
      · rintro ⟨rfl, (rfl | hmem) | hget⟩
        · exact ⟨rfl, .inr (if_pos rfl)⟩
        · exact ⟨rfl, .inl hmem⟩
        · refine ⟨rfl, .inr ?_⟩
          split_ifs with hkey
          · rw [stringifyStrings_injective hkey]
          · exact hget
    · intro j u h
      rw [OrderedMap.get?_set] at h
      split_ifs at h with hkey
      · cases h
        exact hkey.symm
      · exact hseen j u h

theorem mem_distinctNamespaces {namespaces : List Namespace} {segments : Namespace} :
    segments ∈ distinctNamespaces namespaces ↔ segments ∈ namespaces := by
  have hempty : ∀ k v, (∅ : OrderedMap JsString Namespace).get? k = some v →
      k = JsString.stringifyStrings v := by simp
  rw [distinctNamespaces, OrderedMap.mem_values_iff]
  simp [distinct_foldl namespaces ∅ hempty]

theorem nodup_distinctNamespaces (namespaces : List Namespace) :
    (distinctNamespaces namespaces).Nodup := by
  have hempty : ∀ k v, (∅ : OrderedMap JsString Namespace).get? k = some v →
      k = JsString.stringifyStrings v := by simp
  have hentries := distinct_foldl namespaces ∅ hempty
  unfold distinctNamespaces OrderedMap.values
  refine List.Nodup.map_on ?_ (List.Nodup.of_map _ (OrderedMap.nodup _))
  rintro ⟨k, v⟩ hv ⟨j, u⟩ hu (rfl : v = u)
  rw [OrderedMap.mem_entries_iff, hentries] at hv hu
  rw [hv.1, hu.1]

end Skein
