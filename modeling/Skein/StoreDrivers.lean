import Skein.FromBaseStore
import Skein.PostgresNamespaces

/-!
# The long-term store in memory and in Postgres

The memory driver keeps its items in a map, their expiries in another, and drops an expired item
when it is read. Postgres keeps rows, which only the sweep removes. Every call reads one clock.
-/
namespace Skein
open JsData (Fields)

/-- What an item is kept under, a pair for its JSON text. -/
abbrev ItemId := Namespace × JsString

/-- An item, its value as a driver holds it. -/
structure StoredItem (V : Type*) where
  segments : Namespace
  key : JsString
  value : V
  createdAt : ℚ
  updatedAt : ℚ
  ttl : Option ℚ := none
  expiresAt : Option ℚ := none

def StoredItem.id {V : Type*} (item : StoredItem V) : ItemId := (item.segments, item.key)

structure StoreTtlConfig where
  defaultTtl : Option ℚ := none
  refreshOnRead : Option Bool := none

structure StoreConfig where
  ttl : Option StoreTtlConfig := none
  maxPageSize : ℕ := 1000

namespace StoreConfig
variable (config : StoreConfig)

def pageLimit (limit : Option ℕ) : ℕ := min (limit.getD config.maxPageSize) config.maxPageSize

/-- Does a read refresh? -/
def refreshes (refreshTtl : Option Bool) : Bool :=
  refreshTtl.getD (config.ttl.any fun ttl => decide (ttl.refreshOnRead ≠ some false))

/-- The minutes of a write, from its own `ttl`, which may be absent or `null`. -/
def ttlMinutes (ttl : Option (Option ℚ)) : Option ℚ :=
  ttl.getD (config.ttl.bind StoreTtlConfig.defaultTtl)

end StoreConfig

/-- So many minutes from now. -/
def expiryAt (now minutes : ℚ) : ℚ := now + minutes * 60000

inductive ItemCall
  | put (segments : Namespace) (key : JsString) (value : Fields) (ttl : Option (Option ℚ))
  | get (segments : Namespace) (key : JsString) (refreshTtl : Option Bool)
  | delete (segments : Namespace) (key : JsString)
  | search (query : StoreSearchQuery) (refreshTtl : Option Bool)
  | sweepExpired

inductive ItemAnswer (V : Type*)
  | item (found : Option (StoredItem V))
  | page (items : List (StoredItem V))
  | done
  | swept (removed : ℕ)

structure ItemExpiry where
  expiresAt : ℚ
  ttlMinutes : ℚ

/-- `#items` and `#itemExpiry` -/
structure MemoryItems where
  items : Table ItemId (StoredItem Fields) StoredItem.id := ∅
  expiry : OrderedMap ItemId ItemExpiry := ∅

namespace MemoryItems
variable (config : StoreConfig) (now : ℚ) (m : MemoryItems)

def isExpired (id : ItemId) : Bool := (m.expiry.get? id).any fun entry => entry.expiresAt ≤ now

def setExpiry (id : ItemId) : Option ℚ → MemoryItems
  | none => { m with expiry := m.expiry.erase id }
  | some minutes => { m with expiry := m.expiry.set id ⟨expiryAt now minutes, minutes⟩ }

def refreshed (entry : ItemExpiry) : ItemExpiry :=
  { entry with expiresAt := expiryAt now entry.ttlMinutes }

def maybeRefresh (refreshTtl : Option Bool) (id : ItemId) : MemoryItems :=
  if config.refreshes refreshTtl then
    (m.expiry.get? id).elim m fun entry =>
      { m with expiry := m.expiry.set id (refreshed now entry) }
  else m

def projectItem (item : StoredItem Fields) : StoredItem Fields :=
  { item with
    ttl := (m.expiry.get? item.id).map ItemExpiry.ttlMinutes
    expiresAt := (m.expiry.get? item.id).map ItemExpiry.expiresAt }

def drop (id : ItemId) : MemoryItems := { items := m.items.erase id, expiry := m.expiry.erase id }

def putWithOptions (segments : Namespace) (key : JsString) (value : Fields)
    (ttl : Option (Option ℚ)) : ItemAnswer Fields × MemoryItems :=
  let createdAt := ((m.items.get? (segments, key)).map StoredItem.createdAt).getD now
  let item : StoredItem Fields := { segments, key, value, createdAt, updatedAt := now }
  let stored : MemoryItems := { m with items := m.items.write item }
  let written := stored.setExpiry now (segments, key) (config.ttlMinutes ttl)
  (.item (some (written.projectItem item)), written)

def get (segments : Namespace) (key : JsString) (refreshTtl : Option Bool) :
    ItemAnswer Fields × MemoryItems :=
  match m.items.get? (segments, key) with
  | none => (.item none, m)
  | some found =>
    -- An expired item reads as absent before the sweep deletes it.
    if m.isExpired now (segments, key) then (.item none, m.drop (segments, key))
    else
      let read := m.maybeRefresh config now refreshTtl (segments, key)
      (.item (some (read.projectItem found)), read)

/-- `hasPrefix` and `matchesItemFilter` -/
def isMatch (query : StoreSearchQuery) (item : StoredItem Fields) : Bool :=
  query.prefixPath.all (fun path => path.isEmpty || matchesNamespacePrefix item.segments path) &&
    matchesItemFilter item.value query.filter

def matching (query : StoreSearchQuery) : List (StoredItem Fields) :=
  m.items.values.filter fun item => !m.isExpired now item.id && isMatch query item

def search (query : StoreSearchQuery) (refreshTtl : Option Bool) :
    ItemAnswer Fields × MemoryItems :=
  let page := ((m.matching now query).drop (query.offset.getD 0)).take
    (config.pageLimit query.limit)
  let read := page.foldl (fun m item => m.maybeRefresh config now refreshTtl item.id) m
  (.page (page.map read.projectItem), read)

/-- The loop over the expiries, and how many it deletes: what it deletes for one it does not ask
of another. -/
def sweepExpired : ItemAnswer Fields × MemoryItems :=
  (.swept (m.expiry.keys.countP fun id => m.isExpired now id),
    { items := m.items.filter fun item => !m.isExpired now item.id
      expiry := m.expiry.filter fun _ entry => !decide (entry.expiresAt ≤ now) })

def step : ItemCall → ItemAnswer Fields × MemoryItems
  | .put segments key value ttl => m.putWithOptions config now segments key value ttl
  | .get segments key refreshTtl => m.get config now segments key refreshTtl
  | .delete segments key => (.done, m.drop (segments, key))
  | .search query refreshTtl => m.search config now query refreshTtl
  | .sweepExpired => m.sweepExpired now

end MemoryItems

/-- `store_items`, under its primary key. -/
abbrev PostgresItems := Table ItemId (StoredItem Jsonb) StoredItem.id

/-- A collation that puts every two texts in an order. -/
structure Collation where
  le : JsString → JsString → Bool
  trans : ∀ a b c, le a b = true → le b c = true → le a c = true
  total : ∀ a b, (le a b || le b a) = true

/-- The order in which a statement comes upon the rows. -/
structure ScanOrder where
  order : List (StoredItem Jsonb) → List (StoredItem Jsonb)
  perm : ∀ rows, (order rows).Perm rows

namespace StoredItem

/-- `NOT_EXPIRED` -/
def isLive {V : Type*} (now : ℚ) (row : StoredItem V) : Bool := row.expiresAt.all (now < ·)

/-- `expires_at = now() + ttl_minutes * interval '1 minute'`, of a live row with a TTL. -/
def refresh {V : Type*} (now : ℚ) (row : StoredItem V) : StoredItem V :=
  if row.ttl.isSome && row.isLive now then { row with expiresAt := row.ttl.map (expiryAt now) }
  else row

/-- `ORDER BY created_at, key` -/
def before (collation : Collation) (a b : StoredItem Jsonb) : Bool :=
  a.createdAt < b.createdAt || (a.createdAt = b.createdAt && collation.le a.key b.key)

end StoredItem

namespace PostgresItems
variable (config : StoreConfig) (now : ℚ) (t : PostgresItems)

/-- Can the namespace and the key be bound? -/
def isBindableId (id : ItemId) : Bool := id.1.all JsString.isStorable && id.2.isStorable

/-- `INSERT … ON CONFLICT … DO UPDATE` -/
def putWithOptions (segments : Namespace) (key : JsString) (value : Fields)
    (ttl : Option (Option ℚ)) : Option (ItemAnswer Jsonb × PostgresItems) :=
  if isBindableId (segments, key) then
    (JsData.object value).toJsonb.map fun value =>
      let minutes := config.ttlMinutes ttl
      let inserted : StoredItem Jsonb :=
        { segments, key, value, createdAt := now, updatedAt := now, ttl := minutes
          expiresAt := minutes.map (expiryAt now) }
      let row := (t.get? (segments, key)).elim inserted fun row =>
        { inserted with createdAt := row.createdAt }
      (.item (some row), t.write row)
  else none

def get (segments : Namespace) (key : JsString) (refreshTtl : Option Bool) :
    Option (ItemAnswer Jsonb × PostgresItems) :=
  if isBindableId (segments, key) then
    let found := (t.get? (segments, key)).filter (·.isLive now)
    if config.refreshes refreshTtl then
      some (.item (found.map (·.refresh now)), t.update (segments, key) (·.refresh now))
    else some (.item found, t)
  else none

def delete (segments : Namespace) (key : JsString) : Option (ItemAnswer Jsonb × PostgresItems) :=
  if isBindableId (segments, key) then some (.done, t.erase (segments, key)) else none

/-- The `WHERE` of a search. -/
def searchCondition (query : StoreSearchQuery) (row : StoredItem Jsonb) : Option Bool :=
  let path := pathConditions query.prefixPath .atPrefix []
  let filter := itemFilterSql (query.filter.getD []) path.2
  (evalPaths filter.2 row.segments path.1).bind fun inPath =>
    (evalAll filter.2 row.value filter.1).map fun matched => row.isLive now && (inPath && matched)

/-- The rows of a search that has no text, in their order. -/
def searchRows (collation : Collation) (scan : ScanOrder) (query : StoreSearchQuery) :
    Option (List (StoredItem Jsonb)) :=
  (selectRows (searchCondition now query) (scan.order t.values)).map fun rows =>
    rows.mergeSort (StoredItem.before collation)

def searchPage (collation : Collation) (scan : ScanOrder) (query : StoreSearchQuery) :
    Option (List (StoredItem Jsonb)) :=
  (t.searchRows now collation scan query).map fun rows =>
    (rows.drop (query.offset.getD 0)).take (config.pageLimit query.limit)

def search (collation : Collation) (scan : ScanOrder) (query : StoreSearchQuery)
    (refreshTtl : Option Bool) : Option (ItemAnswer Jsonb × PostgresItems) :=
  (t.searchPage config now collation scan query).map fun page =>
    if config.refreshes refreshTtl then
      -- `RETURNING` holds the rows that have been refreshed; the others keep their expiry.
      (.page (page.map (·.refresh now)),
        page.foldl (fun t row => t.update row.id (·.refresh now)) t)
    else (.page page, t)

/-- The batches together: every row that has expired, and how many. -/
def sweepExpired : ItemAnswer Jsonb × PostgresItems :=
  (.swept (t.values.countP fun row => !row.isLive now), t.filter (·.isLive now))

def step (collation : Collation) (scan : ScanOrder) :
    ItemCall → Option (ItemAnswer Jsonb × PostgresItems)
  | .put segments key value ttl => t.putWithOptions config now segments key value ttl
  | .get segments key refreshTtl => t.get config now segments key refreshTtl
  | .delete segments key => t.delete segments key
  | .search query refreshTtl => t.search config now collation scan query refreshTtl
  | .sweepExpired => some (t.sweepExpired now)

end PostgresItems

/-- A call, the time it is made at and the order its statement scans in. -/
structure TimedCall where
  now : ℚ
  call : ItemCall
  scan : ScanOrder

/-- The answers of the memory driver. -/
def memoryAnswers (config : StoreConfig) : MemoryItems → List TimedCall → List (ItemAnswer Fields)
  | _, [] => []
  | m, timed :: rest =>
    let answered := m.step config timed.now timed.call
    answered.1 :: memoryAnswers config answered.2 rest

/-- The answers of the Postgres driver; `none` where a statement fails. -/
def postgresAnswers (config : StoreConfig) (collation : Collation) :
    PostgresItems → List TimedCall → Option (List (ItemAnswer Jsonb))
  | _, [] => some []
  | t, timed :: rest =>
    (t.step config timed.now collation timed.scan timed.call).bind fun answered =>
      (postgresAnswers config collation answered.2 rest).map (answered.1 :: ·)

end Skein
