import Skein.PostgresFilters
import Skein.SqliteNamespaces

/-!
# Namespace paths as SQL

`namespacePathSql` turns a path into a predicate over the `namespace` column: slices of it where
the path has no wildcard, subscripts where it has one. Either is the positional match, and so
Postgres lists the namespaces that the memory driver lists.
-/
namespace Skein

section arrays
variable {α : Type*}

/-- `a[i]`, counted from one; NULL out of range. -/
def sqlSubscript (a : List α) (i : ℤ) : Option α := if 1 ≤ i then a[(i - 1).toNat]? else none

/-- `a[first:last]` -/
def sqlSlice (a : List α) (first last : ℤ) : List α := (a.take last.toNat).drop (first - 1).toNat

/-- `generate_subscripts(a, 1)` -/
def generateSubscripts (a : List α) : List ℤ := (List.range a.length).map fun i => (i : ℤ) + 1

theorem sqlSubscript_succ (a : List α) (i : ℕ) : sqlSubscript a ((i : ℤ) + 1) = a[i]? := by
  have hone : (1 : ℤ) ≤ i + 1 := by omega
  have hindex : ((i : ℤ) + 1 - 1).toNat = i := by omega
  rw [sqlSubscript, if_pos hone, hindex]

theorem sqlSlice_leading (a : List α) (n : ℕ) : sqlSlice a 1 n = a.take n := by
  simp [sqlSlice]

theorem sqlSlice_trailing (a : List α) {n : ℕ} (h : n ≤ a.length) :
    sqlSlice a ((a.length : ℤ) - n + 1) a.length = a.drop (a.length - n) := by
  have hfirst : ((a.length : ℤ) - n + 1 - 1).toNat = a.length - n := by omega
  rw [sqlSlice, hfirst, Int.toNat_natCast, List.take_length]

end arrays

inductive PathAnchor
  | atPrefix | atSuffix

/-- What `namespacePathSql` returns; `bound` is the `n` of the `$n::text[]`. -/
inductive PathPredicate
  | slice (anchor : PathAnchor) (bound : ℕ)
  | subscripts (anchor : PathAnchor) (bound : ℕ)

def namespacePathSql (path : Namespace) (anchor : PathAnchor) (params : List SqlParam) :
    PathPredicate × List SqlParam :=
  let bound := params ++ [.texts path]
  if !hasNamespaceWildcard path then (.slice anchor bound.length, bound)
  else (.subscripts anchor bound.length, bound)

/-- `namespace[i]`, or `namespace[cardinality(namespace) - cardinality($n) + i]` -/
def PathAnchor.segment (segments path : Namespace) (i : ℤ) : PathAnchor → Option JsString
  | atPrefix => sqlSubscript segments i
  | atSuffix => sqlSubscript segments ((segments.length : ℤ) - path.length + i)

def PathPredicate.holds (segments path : Namespace) : PathPredicate → Bool
  | slice .atPrefix _ => sqlSlice segments 1 path.length = path
  | slice .atSuffix _ => path.length ≤ segments.length &&
      sqlSlice segments ((segments.length : ℤ) - path.length + 1) segments.length = path
  | subscripts anchor _ => path.length ≤ segments.length && !(generateSubscripts path).any fun i =>
      -- `<>` of a NULL is not true; `IS DISTINCT FROM` tells a NULL from a text.
      (sqlSubscript path i).any (· ≠ namespaceWildcard) &&
        decide (anchor.segment segments path i ≠ sqlSubscript path i)

def PathPredicate.bound : PathPredicate → ℕ
  | slice _ bound => bound
  | subscripts _ bound => bound

/-- The predicate on a row; `none` is an error. -/
def PathPredicate.eval (params : List SqlParam) (segments : Namespace) (p : PathPredicate) :
    Option Bool :=
  ((param? params p.bound).bind SqlParam.toTexts).map fun path => p.holds segments path

/-- `matchesNamespacePrefix` or `matchesNamespaceSuffix` -/
def PathAnchor.accepts (segments path : Namespace) : PathAnchor → Bool
  | atPrefix => matchesNamespacePrefix segments path
  | atSuffix => matchesNamespaceSuffix segments path

/-- Without a wildcard the segments beside a path are the path. -/
theorem matchesSegments_eq {path segments : Namespace} (hwild : hasNamespaceWildcard path = false)
    (hlength : path.length ≤ segments.length) :
    matchesSegments path segments = decide (segments.take path.length = path) := by
  induction path generalizing segments with
  | nil => simp [matchesSegments]
  | cons head path ih =>
    cases segments with
    | nil => simp at hlength
    | cons segment segments =>
      simp only [hasNamespaceWildcard, List.any_cons, Bool.or_eq_false_iff,
        decide_eq_false_iff_not] at hwild
      simp only [List.length_cons, Nat.add_le_add_iff_right] at hlength
      have hrest := ih (by simpa [hasNamespaceWildcard] using hwild.2) hlength
      simp only [matchesSegments] at hrest
      simp [matchesSegments, hwild.1, hrest]

/-- A wildcard path is compared one subscript after another. -/
theorem all_subscripts {path segments : Namespace} (hlength : path.length ≤ segments.length) :
    ((List.range path.length).all fun i =>
        !((path[i]?).any (· ≠ namespaceWildcard) && decide (segments[i]? ≠ path[i]?))) =
      matchesSegments path segments := by
  induction path generalizing segments with
  | nil => simp [matchesSegments]
  | cons head path ih =>
    cases segments with
    | nil => simp at hlength
    | cons segment segments =>
      simp only [List.length_cons, Nat.add_le_add_iff_right] at hlength
      have hrest := ih hlength
      simp only [matchesSegments] at hrest
      simp only [matchesSegments, List.length_cons, List.range_succ_eq_map, List.all_cons,
        List.all_map, List.zip_cons_cons, ← hrest]
      congr 1
      by_cases hhead : head = namespaceWildcard <;> simp [hhead]

theorem not_any_generateSubscripts {path : Namespace} (p : ℤ → Bool) :
    (!(generateSubscripts path).any p) =
      (List.range path.length).all fun i => !p ((i : ℤ) + 1) := by
  simp [generateSubscripts, List.any_map, List.not_any_eq_all_not, Function.comp_def]

theorem holds_slice {path segments : Namespace} (hwild : hasNamespaceWildcard path = false)
    (anchor : PathAnchor) (bound : ℕ) :
    (PathPredicate.slice anchor bound).holds segments path = anchor.accepts segments path := by
  cases anchor with
  | atPrefix =>
    simp only [PathPredicate.holds, PathAnchor.accepts, matchesNamespacePrefix, sqlSlice_leading]
    by_cases hlength : path.length ≤ segments.length
    · simp [hlength, matchesSegments_eq hwild hlength]
    · have hne : segments.take path.length ≠ path := by
        intro heq
        have := congrArg List.length heq
        simp only [List.length_take] at this
        omega
      simp [hlength, hne]
  | atSuffix =>
    simp only [PathPredicate.holds, PathAnchor.accepts, matchesNamespaceSuffix]
    by_cases hlength : path.length ≤ segments.length
    · have hdrop : (segments.drop (segments.length - path.length)).length = path.length := by
        rw [List.length_drop]
        omega
      have htake : (segments.drop (segments.length - path.length)).take path.length =
          segments.drop (segments.length - path.length) := List.take_of_length_le (by omega)
      simp [hlength, sqlSlice_trailing segments hlength,
        matchesSegments_eq hwild (le_of_eq hdrop.symm), htake]
    · simp [hlength]

theorem holds_subscripts (path segments : Namespace) (anchor : PathAnchor) (bound : ℕ) :
    (PathPredicate.subscripts anchor bound).holds segments path =
      anchor.accepts segments path := by
  simp only [PathPredicate.holds, not_any_generateSubscripts, sqlSubscript_succ]
  by_cases hlength : path.length ≤ segments.length
  · simp only [hlength, decide_true, Bool.true_and]
    cases anchor with
    | atPrefix =>
      simp only [PathAnchor.segment, sqlSubscript_succ, PathAnchor.accepts, matchesNamespacePrefix,
        hlength, decide_true, Bool.true_and, ← all_subscripts hlength]
    | atSuffix =>
      set last := segments.drop (segments.length - path.length) with hlast
      have hdrop : path.length ≤ last.length := by
        rw [hlast, List.length_drop]
        omega
      have hsegment : ∀ i : ℕ, sqlSubscript segments
          ((segments.length : ℤ) - path.length + ((i : ℤ) + 1)) = last[i]? := by
        intro i
        have hindex : (segments.length : ℤ) - path.length + ((i : ℤ) + 1) =
            ((segments.length - path.length + i : ℕ) : ℤ) + 1 := by omega
        rw [hindex, sqlSubscript_succ, hlast, List.getElem?_drop]
      simp only [PathAnchor.segment, hsegment, PathAnchor.accepts, matchesNamespaceSuffix,
        hlength, decide_true, Bool.true_and, ← hlast, ← all_subscripts hdrop]
  · cases anchor <;>
      simp [hlength, PathAnchor.accepts, matchesNamespacePrefix, matchesNamespaceSuffix]

/-- The predicate is the positional match, whatever is bound after it. -/
theorem eval_namespacePathSql {path : Namespace} (hstorable : path.all JsString.isStorable = true)
    (segments : Namespace) (anchor : PathAnchor) (params more : List SqlParam) :
    (namespacePathSql path anchor params).1.eval ((namespacePathSql path anchor params).2 ++ more)
      segments = some (anchor.accepts segments path) := by
  have hbound := param?_append more (param?_last params (.texts path))
  cases hwild : hasNamespaceWildcard path <;>
    simp [namespacePathSql, hwild, PathPredicate.eval, PathPredicate.bound, SqlParam.toTexts,
      hstorable, holds_slice, holds_subscripts, param?, -List.all_eq_true]

/-- `SELECT … WHERE p`; an error on any row is one of the statement. -/
def selectRows {α : Type*} (p : α → Option Bool) : List α → Option (List α)
  | [] => some []
  | row :: rest => (p row).bind fun kept =>
      (selectRows p rest).map fun rows => if kept then row :: rows else rows

theorem selectRows_eq {α : Type*} {p : α → Option Bool} {q : α → Bool} (rows : List α)
    (h : ∀ row ∈ rows, p row = some (q row)) : selectRows p rows = some (rows.filter q) := by
  induction rows with
  | nil => simp [selectRows]
  | cons row rest ih =>
    have hrest := ih fun row hrow => h row (by simp [hrow])
    cases hq : q row <;> simp [selectRows, h row (by simp), hrest, hq]

/-- The conditions on the path, where there is one. -/
def pathConditions (path : Option Namespace) (anchor : PathAnchor) (params : List SqlParam) :
    List PathPredicate × List SqlParam :=
  match path with
  | none | some [] => ([], params)
  | some (head :: rest) =>
    let condition := namespacePathSql (head :: rest) anchor params
    ([condition.1], condition.2)

/-- The conditions of `listNamespaces` besides `NOT_EXPIRED`. -/
def namespaceConditions (query : StoreNamespaceQuery) : List PathPredicate × List SqlParam :=
  let leading := pathConditions query.prefixPath .atPrefix []
  let trailing := pathConditions query.suffixPath .atSuffix leading.2
  (leading.1 ++ trailing.1, trailing.2)

def evalPaths (params : List SqlParam) (segments : Namespace) (conditions : List PathPredicate) :
    Option Bool :=
  (conditions.mapM (PathPredicate.eval params segments)).map fun results => results.all id

/-- `MAX_NAMESPACE_DEPTH` -/
def maxNamespaceDepth : ℤ := 1000

def isValidNamespaceDepth (depth : ℤ) : Bool := 1 ≤ depth && depth ≤ maxNamespaceDepth

/-- `namespace`, or `namespace[1:$n]` -/
def namespaceProjection (query : StoreNamespaceQuery) (segments : Namespace) : Namespace :=
  query.maxDepth.elim segments fun maxDepth => sqlSlice segments 1 maxDepth

/-- `store.listNamespaces` over the rows of the table, ordered by the database's collation. -/
def postgresListNamespaces {J : Type*} (collate : Namespace → Namespace → Bool)
    (rows : List (StoreItem J)) (now maxPageSize : ℕ) (query : StoreNamespaceQuery) :
    Option (List Namespace) :=
  let conditions := namespaceConditions query
  (selectRows (fun row : StoreItem J =>
    (evalPaths conditions.2 row.segments conditions.1).map (row.isLive now && ·)) rows).map
      fun matched =>
        let distinct := (matched.map fun row => namespaceProjection query row.segments).dedup
        ((distinct.mergeSort collate).drop (query.offset.getD 0)).take
          (min (query.limit.getD maxPageSize) maxPageSize)

/-- The path of a condition is one that the database can be given. -/
def StoreNamespaceQuery.isStorable (query : StoreNamespaceQuery) : Bool :=
  query.prefixPath.all (·.all JsString.isStorable) &&
    query.suffixPath.all (·.all JsString.isStorable)

theorem evalPaths_append (params : List SqlParam) (segments : Namespace)
    (a b : List PathPredicate) : evalPaths params segments (a ++ b) =
      (evalPaths params segments a).bind fun x => (evalPaths params segments b).map (x && ·) := by
  simp only [evalPaths, List.mapM_append]
  cases a.mapM (PathPredicate.eval params segments) <;>
    cases b.mapM (PathPredicate.eval params segments) <;> simp

theorem eval_pathConditions {path : Option Namespace}
    (hstorable : path.all (·.all JsString.isStorable) = true) (segments : Namespace)
    (anchor : PathAnchor) (params : List SqlParam) :
    ∃ extra, (pathConditions path anchor params).2 = params ++ extra ∧ ∀ more,
      evalPaths (params ++ extra ++ more) segments (pathConditions path anchor params).1 =
        some (path.all fun path => path.isEmpty || anchor.accepts segments path) := by
  cases path with
  | none => exact ⟨[], by simp [pathConditions], by simp [pathConditions, evalPaths]⟩
  | some path =>
    cases path with
    | nil => exact ⟨[], by simp [pathConditions], by simp [pathConditions, evalPaths]⟩
    | cons head rest =>
      have hbound : (namespacePathSql (head :: rest) anchor params).2 =
          params ++ [.texts (head :: rest)] := by
        simp only [namespacePathSql]
        split <;> rfl
      refine ⟨[.texts (head :: rest)], hbound, fun more => ?_⟩
      have hpath : (head :: rest).all JsString.isStorable = true := by simpa using hstorable
      have heval := eval_namespacePathSql hpath segments anchor params more
      rw [hbound, List.append_assoc, List.singleton_append] at heval
      simp [pathConditions, evalPaths, heval]

theorem evalPaths_namespaceConditions {query : StoreNamespaceQuery}
    (hstorable : query.isStorable = true) (segments : Namespace) :
    evalPaths (namespaceConditions query).2 segments (namespaceConditions query).1 =
      some (matchesNamespaceQuery segments query) := by
  simp only [StoreNamespaceQuery.isStorable, Bool.and_eq_true] at hstorable
  set leading := pathConditions query.prefixPath .atPrefix [] with hdef
  set trailing := pathConditions query.suffixPath .atSuffix leading.2 with htrail
  obtain ⟨first, hfirst, hprefix⟩ := eval_pathConditions hstorable.1 segments .atPrefix []
  obtain ⟨second, hsecond, hsuffix⟩ := eval_pathConditions hstorable.2 segments .atSuffix leading.2
  rw [← hdef] at hfirst hprefix
  rw [← htrail] at hsecond hsuffix
  have hleading : evalPaths trailing.2 segments leading.1 = some (query.prefixPath.all fun path =>
      path.isEmpty || PathAnchor.atPrefix.accepts segments path) := by
    rw [hsecond, hfirst]
    exact hprefix second
  have htrailing : evalPaths trailing.2 segments trailing.1 = some (query.suffixPath.all fun path =>
      path.isEmpty || PathAnchor.atSuffix.accepts segments path) := by
    rw [hsecond]
    simpa using hsuffix []
  have happend := evalPaths_append trailing.2 segments leading.1 trailing.1
  rw [hleading, htrailing] at happend
  exact happend

theorem namespaceProjection_eq {query : StoreNamespaceQuery}
    (hdepth : query.maxDepth.all isValidNamespaceDepth = true) (segments : Namespace) :
    namespaceProjection query segments =
      query.maxDepth.elim segments fun maxDepth => sliceDepth maxDepth segments := by
  cases hmax : query.maxDepth with
  | none => simp [namespaceProjection, hmax]
  | some maxDepth =>
    have hpos : 0 ≤ maxDepth := by
      simp only [hmax, Option.all_some, isValidNamespaceDepth, Bool.and_eq_true,
        decide_eq_true_eq] at hdepth
      omega
    simp [namespaceProjection, hmax, sqlSlice, sliceDepth, hpos]

/-- What Postgres lists is what is listed of the rows, paged in the order of its collation. -/
theorem postgresListNamespaces_eq {J : Type*} (collate : Namespace → Namespace → Bool)
    (rows : List (StoreItem J)) (now maxPageSize : ℕ) {query : StoreNamespaceQuery}
    (hstorable : query.isStorable = true)
    (hdepth : query.maxDepth.all isValidNamespaceDepth = true) :
    postgresListNamespaces collate rows now maxPageSize query =
      some ((((listedNamespaces rows now query).dedup.mergeSort collate).drop
        (query.offset.getD 0)).take (min (query.limit.getD maxPageSize) maxPageSize)) := by
  have heval : ∀ row ∈ rows, (evalPaths (namespaceConditions query).2 row.segments
      (namespaceConditions query).1).map (row.isLive now && ·) =
        some (row.isLive now && matchesNamespaceQuery row.segments query) := by
    simp [evalPaths_namespaceConditions hstorable]
  have hselect := selectRows_eq rows heval
  simp [postgresListNamespaces, hselect, listedNamespaces, namespaceProjection_eq hdepth]

/-- Whatever the collation, Postgres pages one listing of the namespaces that the memory driver
lists, each of them once; where it collates as `compareNamespaces` does, the pages are the same. -/
theorem postgres_namespaces_agree {J : Type*} (collate : Namespace → Namespace → Bool)
    {items rows : List (StoreItem J)} {now : ℕ}
    (hrows : ∀ item, item ∈ items.filter (·.isLive now) ↔ item ∈ rows.filter (·.isLive now))
    (maxPageSize : ℕ) {query : StoreNamespaceQuery} (hstorable : query.isStorable = true)
    (hdepth : query.maxDepth.all isValidNamespaceDepth = true) :
    (∃ listing : List Namespace, listing.Nodup ∧
      listing.Perm (sortNamespaces (listedNamespaces items now query).dedup) ∧
      ∀ offset limit, postgresListNamespaces collate rows now maxPageSize
          { query with offset := some offset, limit := some limit } =
        some ((listing.drop offset).take (min limit maxPageSize))) ∧
    ((∀ a b, collate a b = decide (compareNamespaces a b ≤ 0)) →
      postgresListNamespaces collate rows now maxPageSize query =
        some (memoryListNamespaces items now maxPageSize query)) := by
  have hmem : ∀ segments, segments ∈ (listedNamespaces rows now query).dedup ↔
      segments ∈ (listedNamespaces items now query).dedup := by
    intro segments
    simp only [List.mem_filter] at hrows
    simp only [List.mem_dedup, listedNamespaces, List.mem_map, List.mem_filter, Bool.and_eq_true,
      ← and_assoc, hrows]
  have hperm : (listedNamespaces rows now query).dedup.Perm
      (listedNamespaces items now query).dedup :=
    (List.perm_ext_iff_of_nodup (List.nodup_dedup _) (List.nodup_dedup _)).mpr hmem
  constructor
  · have hsorted := List.mergeSort_perm (listedNamespaces rows now query).dedup collate
    refine ⟨(listedNamespaces rows now query).dedup.mergeSort collate,
      hsorted.nodup_iff.mpr (List.nodup_dedup _),
      (hsorted.trans hperm).trans (List.mergeSort_perm _ _).symm, fun offset limit => ?_⟩
    exact postgresListNamespaces_eq collate rows now maxPageSize hstorable hdepth
  · intro hcollate
    have horder : collate = fun a b => decide (a ≤ b) := by
      ext a b
      simp [hcollate, compareNamespaces_nonpos_iff]
    have hsame := sortNamespaces_congr (List.nodup_dedup _) (List.nodup_dedup _) hmem
    simp only [sortNamespaces] at hsame
    rw [postgresListNamespaces_eq collate rows now maxPageSize hstorable hdepth,
      memoryListNamespaces_eq, horder, sortNamespaces, hsame]

/-- `["users", "*"]` at the start and `["facts"]` at the end, two segments deep. -/
def factsQuery : StoreNamespaceQuery :=
  { prefixPath := some [[117], namespaceWildcard], suffixPath := some [[102]], maxDepth := some 2 }

def userFacts : StoreItem ℕ := { segments := [[117], [49], [102]], key := [107], value := 0 }
def otherFacts : StoreItem ℕ := { segments := [[117], [48], [102]], key := [107], value := 0 }

theorem facts_agree :
    postgresListNamespaces (fun a b => decide (compareNamespaces a b ≤ 0)) [userFacts, otherFacts]
        0 10 factsQuery =
      some (memoryListNamespaces [otherFacts, userFacts] 0 10 factsQuery) := by
  have hrows : ∀ item, item ∈ [otherFacts, userFacts].filter (·.isLive 0) ↔
      item ∈ [userFacts, otherFacts].filter (·.isLive 0) := by
    simp [or_comm, userFacts, otherFacts]
  exact (postgres_namespaces_agree _ hrows 10 (by decide) (by decide)).2 fun _ _ => rfl

end Skein
