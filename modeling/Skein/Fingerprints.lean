import Skein.CanonicalJson

/-!
# Request fingerprints

What an idempotency key is checked against: two requests are taken for one when the canonical
JSON of method, path, query and body is the same text.
-/
namespace Skein

/-- The value of a query parameter. -/
inductive QueryValue
  | one (value : String)
  | many (values : List String)
  deriving DecidableEq, Repr

def QueryValue.toJson : QueryValue → ParsedJson
  | .one value => .str value
  | .many values => .arr (values.map .str)

/-- `ProtocolRequest`, as far as its fingerprint reads it. A parameter can be present and
undefined. -/
structure ProtocolRequest where
  method : String
  url : String
  query : List (String × Option QueryValue)
  queryDistinct : (query.map Prod.fst).Nodup
  body : Option ParsedJson
  bodyDistinct : ∀ v ∈ body, v.Distinct

namespace ProtocolRequest

/-- The parameters that are not undefined. -/
def definedQuery (r : ProtocolRequest) : List (String × QueryValue) :=
  r.query.filterMap fun entry => entry.2.map fun v => (entry.1, v)

def sortedQuery (r : ProtocolRequest) : List (String × QueryValue) := sortEntries r.definedQuery

section Fingerprint
variable (sha256Hex : String → String) (pathname : String → Option String)

/-- `pathOf`. `pathname` is that of `new URL(url, "http://skein.invalid")`, where it does not
throw. -/
def pathOf (r : ProtocolRequest) : String := (pathname r.url).getD r.url

/-- `req.body ?? null`. -/
def bodyOrNull (r : ProtocolRequest) : ParsedJson := r.body.getD .null

/-- The array whose canonical JSON is hashed. -/
def fingerprinted (r : ProtocolRequest) : ParsedJson :=
  .arr [.str r.method.toUpper, .str (r.pathOf pathname),
    .arr (r.sortedQuery.map fun entry => .arr [.str entry.1, QueryValue.toJson entry.2]),
    r.bodyOrNull]

def requestFingerprint (r : ProtocolRequest) : String :=
  sha256Hex (String.ofList (r.fingerprinted pathname).canonicalJson)

/-- The same method up to case, the same path, the same defined parameters in any order, and
bodies that are the same up to the order of keys; with `blank`, numbers out of range count
as `null`. -/
def SameUpTo (blank : Bool) (r s : ProtocolRequest) : Prop :=
  r.method.toUpper = s.method.toUpper ∧ r.pathOf pathname = s.pathOf pathname ∧
    r.definedQuery.Perm s.definedQuery ∧ r.bodyOrNull.SameUpTo blank s.bodyOrNull

end Fingerprint

theorem bodyOrNull_distinct (r : ProtocolRequest) : r.bodyOrNull.Distinct := by
  rw [bodyOrNull]
  cases hbody : r.body with
  | none => exact trivial
  | some v => exact r.bodyDistinct v hbody

theorem definedQuery_distinct (r : ProtocolRequest) : (r.definedQuery.map Prod.fst).Nodup := by
  have hsub : (r.definedQuery.map Prod.fst).Sublist (r.query.map Prod.fst) := by
    rw [definedQuery]
    induction r.query with
    | nil => simp
    | cons entry rest ih =>
      cases hvalue : entry.2 with
      | none => simpa [hvalue] using ih.cons entry.1
      | some v => simpa [hvalue] using ih
  exact hsub.nodup r.queryDistinct

end ProtocolRequest

open ParsedJson

theorem sameItems_map_str : ∀ {values others : List String},
    SameItems true (values.map .str) (others.map .str) ↔ values = others
  | [], others => by cases others <;> simp [SameItems]
  | _ :: _, [] => by simp [SameItems]
  | value :: values, other :: others => by
    simp [SameItems, ParsedJson.SameUpTo, sameItems_map_str]

theorem distinctItems_map_str (values : List String) : DistinctItems (values.map .str) := by
  induction values with
  | nil => exact trivial
  | cons value values ih => exact ⟨trivial, ih⟩

theorem sameUpTo_queryValue {v w : QueryValue} :
    ParsedJson.SameUpTo true v.toJson w.toJson ↔ v = w := by
  cases v <;> cases w <;>
    simp [QueryValue.toJson, ParsedJson.SameUpTo, sameItems_map_str]

theorem QueryValue.toJson_distinct (v : QueryValue) : v.toJson.Distinct := by
  cases v with
  | one value => exact trivial
  | many values => exact distinctItems_map_str values

/-- The written pairs of a query. -/
theorem sameItems_map_pair : ∀ {pairs others : List (String × QueryValue)},
    SameItems true (pairs.map fun entry => .arr [.str entry.1, entry.2.toJson])
        (others.map fun entry => .arr [.str entry.1, entry.2.toJson]) ↔ pairs = others
  | [], others => by cases others <;> simp [SameItems]
  | _ :: _, [] => by simp [SameItems]
  | (k, v) :: pairs, (j, w) :: others => by
    have hrest : SameItems true (pairs.map fun entry => .arr [.str entry.1, entry.2.toJson])
        (others.map fun entry => .arr [.str entry.1, entry.2.toJson]) ↔ pairs = others :=
      sameItems_map_pair
    simp [SameItems, ParsedJson.SameUpTo, sameUpTo_queryValue, hrest]

theorem distinctItems_map_pair (pairs : List (String × QueryValue)) :
    DistinctItems (pairs.map fun entry => .arr [.str entry.1, entry.2.toJson]) := by
  induction pairs with
  | nil => exact trivial
  | cons entry pairs ih => exact ⟨⟨trivial, entry.2.toJson_distinct, trivial⟩, ih⟩

namespace ProtocolRequest

section Identity
variable {sha256Hex : String → String} (pathname : String → Option String)

theorem fingerprinted_distinct (r : ProtocolRequest) : (r.fingerprinted pathname).Distinct :=
  ⟨trivial, trivial, distinctItems_map_pair _, r.bodyOrNull_distinct, trivial⟩

theorem fingerprinted_sameUpTo_iff (r s : ProtocolRequest) :
    (r.fingerprinted pathname).SameUpTo true (s.fingerprinted pathname) ↔
      r.SameUpTo pathname true s := by
  simp only [fingerprinted, ParsedJson.SameUpTo, SameItems, sameItems_map_pair, sortedQuery,
    sortEntries_eq_iff r.definedQuery_distinct, ProtocolRequest.SameUpTo, and_true]

theorem requestFingerprint_eq_iff (hsha : Function.Injective sha256Hex) (r s : ProtocolRequest) :
    r.requestFingerprint sha256Hex pathname = s.requestFingerprint sha256Hex pathname ↔
      r.SameUpTo pathname true s := by
  rw [requestFingerprint, requestFingerprint, hsha.eq_iff, String.ofList_inj,
    canonicalJson_eq_iff (r.fingerprinted_distinct pathname) (s.fingerprinted_distinct pathname),
    fingerprinted_sameUpTo_iff]

/-- A fingerprint identifies requests up to the order of keys, except for requests that agree
in all but numbers out of range. -/
theorem requestFingerprint_identifies_iff (hsha : Function.Injective sha256Hex)
    (r s : ProtocolRequest) :
    (r.requestFingerprint sha256Hex pathname = s.requestFingerprint sha256Hex pathname ↔
        r.SameUpTo pathname false s) ↔
      ¬ (r.SameUpTo pathname true s ∧ r.bodyOrNull.Blurred s.bodyOrNull) := by
  have hbody := sameUpTo_false_iff r.bodyOrNull s.bodyOrNull
  rw [requestFingerprint_eq_iff pathname hsha]
  simp only [ProtocolRequest.SameUpTo, hbody]
  tauto

end Identity

/-- A post to `/runs` with this body. -/
def posted (body : ParsedJson) (h : body.Distinct) : ProtocolRequest where
  method := "POST"
  url := "/runs"
  query := []
  queryDistinct := List.nodup_nil
  body := some body
  bodyDistinct := by simpa using h

/-- What is hashed for the two posts below that differ in the order of keys. -/
def orderedText : String := "[\"POST\",\"/runs\",[],\x7b\"a\":null,\"b\":true\x7d]"

/-- An injective digest that agrees with SHA-256 on that text. -/
def sampleDigest (text : String) : String :=
  if text = orderedText then "41e7a18582b50927b0f90078722305109dddd764a0a5c7af5181309551839657"
  else "-" ++ text

theorem sampleDigest_injective : Function.Injective sampleDigest := by
  have hhead (text : String) : ("-" ++ text).toList.head? = some '-' := by simp
  intro s t h
  simp only [sampleDigest] at h
  split_ifs at h with hs ht ht
  · rw [hs, ht]
  · have hdash := hhead t
    rw [← h] at hdash
    simp at hdash
  · have hdash := hhead s
    rw [h] at hdash
    simp at hdash
  · simpa using h

def orderedPost : ProtocolRequest :=
  posted (.obj [("a", .null), ("b", .bool true)]) (by simp [Distinct, DistinctFields])

def reorderedPost : ProtocolRequest :=
  posted (.obj [("b", .bool true), ("a", .null)]) (by simp [Distinct, DistinctFields])

theorem reorderedPost_sameUpTo (blank : Bool) :
    reorderedPost.SameUpTo some blank orderedPost := by
  have hfields : SameFields blank [("b", .bool true), ("a", .null)]
      [("a", .null), ("b", .bool true)] :=
    ⟨⟨.bool true, rfl, rfl⟩, ⟨.null, rfl, trivial⟩, trivial⟩
  exact ⟨rfl, rfl, List.Perm.refl _, rfl, hfields⟩

theorem reorderedPost_not_blurred :
    ¬ reorderedPost.bodyOrNull.Blurred orderedPost.bodyOrNull := by
  rintro (⟨w, hlookup, hw⟩ | ⟨w, hlookup, hw⟩ | hrest)
  · cases hlookup
    exact hw
  · cases hlookup
    exact hw
  · exact hrest

theorem reorderedPost_identified :
    reorderedPost.requestFingerprint sampleDigest some =
      orderedPost.requestFingerprint sampleDigest some := by
  have hidentifies := (requestFingerprint_identifies_iff some sampleDigest_injective reorderedPost
    orderedPost).mpr fun h => reorderedPost_not_blurred h.2
  exact hidentifies.mpr (reorderedPost_sameUpTo false)

/-- The body was read from `\x7b"budget":1e400\x7d`. -/
def overflowPost : ProtocolRequest :=
  posted (.obj [("budget", .infinity false)]) (by simp [Distinct, DistinctFields])

def nullPost : ProtocolRequest :=
  posted (.obj [("budget", .null)]) (by simp [Distinct, DistinctFields])

theorem overflowPost_mistaken :
    Function.Injective sampleDigest ∧
      overflowPost.requestFingerprint sampleDigest some =
        nullPost.requestFingerprint sampleDigest some ∧
      ¬ overflowPost.SameUpTo some false nullPost := by
  refine ⟨sampleDigest_injective, ?_, ?_⟩
  · rw [requestFingerprint_eq_iff some sampleDigest_injective]
    exact ⟨rfl, rfl, List.Perm.refl _, rfl, ⟨.null, rfl, rfl⟩, trivial⟩
  · rintro ⟨-, -, -, -, ⟨w, hlookup, hw⟩, -⟩
    cases hlookup
    cases hw

end ProtocolRequest
end Skein
