import Mathlib.Data.List.Sort
import Skein.ItemFilter
import Skein.NamespaceMatch

/-!
# A `BaseStore` behind the store's own interface

`fromBaseStore` reads pages of an arbitrary source until it has enough rows, and matches and
pages them itself. The source may change with every call; each loop takes fuel.
-/
namespace Skein
open JsData (Fields)

/-- A search hit. -/
structure SearchItem where
  segments : Namespace
  key : JsString
  value : Fields
  createdAt : ℕ
  updatedAt : ℕ
  score : Option ℚ := none

/-- What the adapter calls of a source whose state is a `σ`. -/
structure BaseStoreLike (σ : Type*) where
  search : Namespace → (limit offset : ℕ) → σ → List SearchItem × σ
  listNamespaces : (limit offset : ℕ) → σ → List Namespace × σ

/-- A search without a text. -/
structure StoreSearchQuery where
  prefixPath : Option Namespace := none
  filter : Option Fields := none
  limit : Option ℕ := none
  offset : Option ℕ := none

structure FromBaseStoreOptions where
  maxPageSize : ℕ := 1000
  scanLimit : Option ℕ := none

/-- `SCAN_ROWS_PER_RESULT` -/
def scanRowsPerResult : ℕ := 10

def defaultAdapterScanLimit (maxPageSize : ℕ) : ℕ := maxPageSize * scanRowsPerResult

/-- `SOURCE_PAGE_SIZE` -/
def sourcePageSize : ℕ := 200

namespace FromBaseStoreOptions
variable (options : FromBaseStoreOptions)

def scanBound : ℕ := options.scanLimit.getD (defaultAdapterScanLimit options.maxPageSize)

def pageLimit (limit : Option ℕ) : ℕ :=
  min (limit.getD options.maxPageSize) options.maxPageSize

end FromBaseStoreOptions

/-- The longest leading run of literal segments. -/
def pushablePrefix (path : Option Namespace) : Namespace :=
  (path.getD []).takeWhile (· ≠ namespaceWildcard)

/-- `JSON.stringify([namespace, key])` -/
def itemIdentity (item : SearchItem) : JsString :=
  91 :: (JsString.stringifyStrings item.segments ++ 44 :: (JsString.quote item.key ++ [93]))

namespace FromBaseStore
variable {σ : Type*} (source : BaseStoreLike σ) (options : FromBaseStoreOptions)

/-- The loop of `drainNamespaces`. -/
def drainNamespacesFrom (offset : ℕ) (namespaces : List Namespace) (s : σ) :
    ℕ → Option (List Namespace × σ)
  | 0 => none
  | fuel + 1 =>
    if namespaces.length < options.scanBound then
      let page := source.listNamespaces sourcePageSize offset s
      if page.1.length < sourcePageSize then some (namespaces ++ page.1, page.2)
      else
        drainNamespacesFrom (offset + sourcePageSize) (namespaces ++ page.1) page.2 fuel
    else some (namespaces, s)

def drainNamespaces (s : σ) (fuel : ℕ) : Option (List Namespace × σ) :=
  drainNamespacesFrom source options 0 [] s fuel

def sourcePrefixes (path : Option Namespace) (s : σ) (fuel : ℕ) : Option (List Namespace × σ) :=
  if 0 < (pushablePrefix path).length then some ([pushablePrefix path], s)
  else drainNamespaces source options s fuel

/-- What a drain has kept so far. -/
structure Drained where
  kept : List SearchItem := []
  seen : List JsString := []
  sourceScored : Bool := false

variable (keep : SearchItem → Bool) (enough : Option (ℕ → Bool))

/-- The body of the loop over a page. -/
def takeRow (drained : Drained) (item : SearchItem) : Drained :=
  let scored := { drained with sourceScored := drained.sourceScored || item.score.isSome }
  if itemIdentity item ∈ scored.seen then scored
  else
    let seen := { scored with seen := scored.seen ++ [itemIdentity item] }
    if keep item then { seen with kept := seen.kept ++ [item] } else seen

/-- `done`, where so many rows have been scanned. -/
def isDone (drained : Drained) (scanned : ℕ) : Bool :=
  options.scanBound ≤ scanned || enough.any fun enough => enough drained.kept.length

/-- The loop over the pages of a prefix. -/
def drainPrefix (path : Namespace) (offset : ℕ) (drained : Drained) (scanned : ℕ) (s : σ) :
    ℕ → Option (Drained × ℕ × σ)
  | 0 => none
  | fuel + 1 =>
    if isDone options enough drained scanned then some (drained, scanned, s)
    else
      let page := source.search path sourcePageSize offset s
      let next := page.1.foldl (takeRow keep) drained
      if page.1.length < sourcePageSize then some (next, scanned + page.1.length, page.2)
      else
        drainPrefix path (offset + sourcePageSize) next (scanned + page.1.length) page.2 fuel

/-- `drainSearch`, from what has been drained so far. -/
def drainSearch (fuel : ℕ) :
    List Namespace → Drained → ℕ → σ → Option (Drained × ℕ × σ)
  | [], drained, scanned, s => some (drained, scanned, s)
  | path :: paths, drained, scanned, s =>
    if isDone options enough drained scanned then some (drained, scanned, s)
    else
      (drainPrefix source options keep enough path 0 drained scanned s fuel).bind fun found =>
        drainSearch fuel paths found.1 found.2.1 found.2.2

/-- `matches` -/
def matchesQuery (query : StoreSearchQuery) (item : SearchItem) : Bool :=
  query.prefixPath.all (fun path => path.isEmpty || matchesNamespacePrefix item.segments path) &&
    matchesItemFilter item.value query.filter

/-- `kept.sort((a, b) => (b.score ?? 0) - (a.score ?? 0))`, where the source scored. -/
def ranked (drained : Drained) : List SearchItem :=
  if drained.sourceScored then
    drained.kept.insertionSort fun a b => b.score.getD 0 ≤ a.score.getD 0
  else drained.kept

/-- `search`, with `enough` as what ends the drain early. -/
def searchUntil (query : StoreSearchQuery) (s : σ) (fuel : ℕ) : Option (List SearchItem × σ) :=
  (sourcePrefixes source options query.prefixPath s fuel).bind fun prefixes =>
    (drainSearch source options (matchesQuery query) enough fuel prefixes.1 {} 0 prefixes.2).map
      fun found =>
        (((ranked found.1).drop (query.offset.getD 0)).take (options.pageLimit query.limit),
          found.2.2)

/-- The predicate that `search` passes where there is no text. -/
def pageIsFull (query : StoreSearchQuery) (count : ℕ) : Bool :=
  query.offset.getD 0 + options.pageLimit query.limit ≤ count

/-- `search` -/
def search (query : StoreSearchQuery) (s : σ) (fuel : ℕ) : Option (List SearchItem × σ) :=
  searchUntil source options (some (pageIsFull options query)) query s fuel

end FromBaseStore
end Skein
