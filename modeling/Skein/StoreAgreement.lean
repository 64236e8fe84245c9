import Skein.StoreDrivers

/-!
# The drivers of the long-term store agree

Postgres may still hold expired rows that the memory driver has dropped; the live ones are the
same. A call keeps the two so, and answers the same.
-/
namespace Skein
open JsData (Fields)

namespace StoredItem

/-- What Postgres holds of an item. -/
def stored (item : StoredItem Fields) : StoredItem Jsonb where
  segments := item.segments
  key := item.key
  value := (JsData.object item.value).toJsonb.getD .null
  createdAt := item.createdAt
  updatedAt := item.updatedAt
  ttl := item.ttl
  expiresAt := item.expiresAt

@[simp] theorem stored_id (item : StoredItem Fields) : item.stored.id = item.id := rfl
@[simp] theorem stored_segments (item : StoredItem Fields) : item.stored.segments = item.segments :=
  rfl
@[simp] theorem stored_createdAt (item : StoredItem Fields) :
    item.stored.createdAt = item.createdAt := rfl
@[simp] theorem stored_isLive (item : StoredItem Fields) (now : ℚ) :
    item.stored.isLive now = item.isLive now := rfl

@[simp] theorem refresh_id {V : Type*} (now : ℚ) (row : StoredItem V) :
    (row.refresh now).id = row.id := by
  unfold refresh
  split <;> rfl

theorem refresh_refresh {V : Type*} (now : ℚ) (row : StoredItem V) :
    (row.refresh now).refresh now = row.refresh now := by
  by_cases h : (row.ttl.isSome && row.isLive now) = true <;> simp [refresh, h]

theorem refresh_stored (now : ℚ) (item : StoredItem Fields) :
    item.stored.refresh now = (item.refresh now).stored := by
  simp only [refresh, stored_isLive, apply_ite stored]
  rfl

end StoredItem

/-- What Postgres answers for an answer of the memory driver. -/
def ItemAnswer.stored : ItemAnswer Fields → ItemAnswer Jsonb
  | .item found => .item (found.map StoredItem.stored)
  | .page items => .page (items.map StoredItem.stored)
  | .done => .done
  | .swept removed => .swept removed

/-- What Postgres answers a call that the memory driver answers so: the same, but for the number
of rows swept, among which are those that the memory driver has dropped on reading them. -/
def ItemAnswer.Agrees : ItemAnswer Fields → ItemAnswer Jsonb → Prop
  | .swept removed, answer => ∃ dropped, answer = .swept (removed + dropped)
  | answer, found => found = answer.stored

namespace MemoryItems
variable {config : StoreConfig} {now : ℚ} {refreshTtl : Option Bool}

@[simp] theorem items_maybeRefresh (m : MemoryItems) (id : ItemId) :
    (m.maybeRefresh config now refreshTtl id).items = m.items := by
  unfold maybeRefresh
  split
  · cases m.expiry.get? id <;> rfl
  · rfl

theorem maybeRefresh_of_not (hflag : config.refreshes refreshTtl = false) (m : MemoryItems)
    (id : ItemId) : m.maybeRefresh config now refreshTtl id = m := by
  simp [maybeRefresh, hflag]

theorem foldl_of_not (hflag : config.refreshes refreshTtl = false) (page : List (StoredItem Fields))
    (m : MemoryItems) :
    page.foldl (fun m item => m.maybeRefresh config now refreshTtl item.id) m = m := by
  induction page generalizing m with
  | nil => rfl
  | cons item page ih => simp [maybeRefresh_of_not hflag]

theorem refreshed_refreshed (entry : ItemExpiry) :
    refreshed now (refreshed now entry) = refreshed now entry := rfl

theorem expiry_maybeRefresh (hflag : config.refreshes refreshTtl = true) (m : MemoryItems)
    (id j : ItemId) : (m.maybeRefresh config now refreshTtl id).expiry.get? j =
      if id = j then (m.expiry.get? j).map (refreshed now) else m.expiry.get? j := by
  simp only [maybeRefresh, hflag, if_true]
  cases hid : m.expiry.get? id with
  | none =>
    split_ifs with heq
    · simp [← heq, hid]
    · simp
  | some entry =>
    simp only [Option.elim_some, OrderedMap.get?_set]
    split_ifs with heq
    · simp [← heq, hid]
    · rfl

theorem items_foldl (page : List (StoredItem Fields)) (m : MemoryItems) :
    (page.foldl (fun m item => m.maybeRefresh config now refreshTtl item.id) m).items =
      m.items := by
  induction page generalizing m with
  | nil => rfl
  | cons item page ih => simp [ih]

theorem expiry_foldl (now : ℚ) (hflag : config.refreshes refreshTtl = true) (page : List (StoredItem Fields))
    (m : MemoryItems) (j : ItemId) :
    (page.foldl (fun m item => m.maybeRefresh config now refreshTtl item.id) m).expiry.get? j =
      if j ∈ page.map StoredItem.id then (m.expiry.get? j).map (refreshed now)
      else m.expiry.get? j := by
  induction page generalizing m with
  | nil => simp
  | cons item page ih =>
    simp only [List.foldl_cons, ih, expiry_maybeRefresh hflag, List.map_cons, List.mem_cons,
      eq_comm (a := j)]
    by_cases hitem : item.id = j <;> by_cases hrest : j ∈ page.map StoredItem.id <;>
      simp [hitem, hrest, Function.comp_def, refreshed_refreshed]

end MemoryItems

theorem get?_foldl_update (now : ℚ) (page : List (StoredItem Jsonb)) (t : PostgresItems)
    (j : ItemId) :
    (page.foldl (fun t row => t.update row.id (·.refresh now)) t).get? j =
      if j ∈ page.map StoredItem.id then (t.get? j).map (·.refresh now) else t.get? j := by
  induction page generalizing t with
  | nil => simp
  | cons row page ih =>
    simp only [List.foldl_cons, ih, Table.get?_update (StoredItem.refresh_id now), List.map_cons,
      List.mem_cons, eq_comm (a := j)]
    by_cases hrow : row.id = j <;> by_cases hrest : j ∈ page.map StoredItem.id <;>
      simp [hrow, hrest, Function.comp_def, StoredItem.refresh_refresh]

/-- A row that is there is rewritten where it stands. -/
theorem Table.values_write_old {κ α : Type*} {key : α → κ} [DecidableEq κ] {t : Table κ α key}
    {v : α} (h : t.contains (key v) = true) :
    (t.write v).values = t.values.map fun u => if key u = key v then v else u := by
  have hmem : key v ∈ t.entries.map Prod.fst := (OrderedMap.mem_keys_iff _ _).mpr h
  simp only [Table.write, OrderedMap.values, OrderedMap.set,
    OrderedMap.setEntry_of_mem v t.nodup hmem, List.map_map]
  refine List.map_congr_left fun e he => ?_
  simp only [Function.comp_apply, t.keyed e he, apply_ite Prod.snd]

theorem MemoryItems.items_setExpiry (now : ℚ) (m : MemoryItems) (id : ItemId)
    (minutes : Option ℚ) : (m.setExpiry now id minutes).items = m.items := by
  cases minutes <;> rfl

theorem MemoryItems.expiry_setExpiry (now : ℚ) (m : MemoryItems) (id j : ItemId)
    (minutes : Option ℚ) : (m.setExpiry now id minutes).expiry.get? j =
      if id = j then minutes.map fun x => ⟨expiryAt now x, x⟩ else m.expiry.get? j := by
  cases minutes <;> simp [setExpiry, OrderedMap.get?_erase, OrderedMap.get?_set]

/-- Items whose values Postgres can hold, in the order of their creation. -/
structure Timeline (now : ℚ) (items : List (StoredItem Fields)) : Prop where
  valued : ∀ item ∈ items, ∃ row, RowOf item.value row
  ordered : items.Pairwise fun a b => a.createdAt < b.createdAt
  past : ∀ item ∈ items, item.createdAt ≤ now

namespace Timeline
variable {now last : ℚ} {items kept : List (StoredItem Fields)}

theorem mono (h : Timeline last items) (hle : last ≤ now) : Timeline now items where
  valued := h.valued
  ordered := h.ordered
  past := fun item hitem => (h.past item hitem).trans hle

theorem sublist (h : Timeline now items) (hkept : kept.Sublist items) : Timeline now kept where
  valued := fun item hitem => h.valued item (hkept.subset hitem)
  ordered := h.ordered.sublist hkept
  past := fun item hitem => h.past item (hkept.subset hitem)

theorem append (h : Timeline last items) (hlt : last < now) {item : StoredItem Fields}
    (hvalued : ∃ row, RowOf item.value row) (hnow : item.createdAt = now) :
    Timeline now (items ++ [item]) where
  valued := by
    intro other hother
    obtain hold | rfl : other ∈ items ∨ other = item := by simpa using hother
    · exact h.valued other hold
    · exact hvalued
  ordered := by
    refine List.pairwise_append.mpr ⟨h.ordered, List.pairwise_singleton _ _, ?_⟩
    intro old hold other hother
    obtain rfl := List.mem_singleton.mp hother
    have := h.past old hold
    linarith
  past := by
    intro other hother
    obtain hold | rfl : other ∈ items ∨ other = item := by simpa using hother
    · exact ((h.past other hold).trans_lt hlt).le
    · exact hnow.le

theorem map (h : Timeline now items) {f : StoredItem Fields → StoredItem Fields}
    (hvalued : ∀ item ∈ items, ∃ row, RowOf (f item).value row)
    (hcreated : ∀ item ∈ items, (f item).createdAt = item.createdAt) :
    Timeline now (items.map f) where
  valued := by simpa using hvalued
  ordered := by
    refine List.pairwise_map.mpr (h.ordered.imp_of_mem fun ha hb hlt => ?_)
    rwa [hcreated _ ha, hcreated _ hb]
  past := by
    intro item hitem
    obtain ⟨old, hold, rfl⟩ := List.mem_map.mp hitem
    exact hcreated old hold ▸ h.past old hold

end Timeline

/-- The table holds what the map holds, and besides it only what has expired. -/
structure Reflects (now : ℚ) (m : MemoryItems) (t : PostgresItems) : Prop where
  reflected : ∀ id item, m.items.get? id = some item → t.get? id = some (m.projectItem item).stored
  lagging : ∀ id row, t.get? id = some row → m.items.get? id = none → row.isLive now = false
  readable : ∀ id row, t.get? id = some row → ∃ value, RowOf value row.value
  expiring : ∀ id, (m.expiry.get? id).isSome = true → (m.items.get? id).isSome = true
  timeline : Timeline now m.items.values

theorem reflects_empty (now : ℚ) : Reflects now {} ∅ where
  reflected := by simp
  lagging := by simp
  readable := by simp
  expiring := by simp
  timeline := ⟨by simp [EmptyCollection.emptyCollection, OrderedMap.empty, OrderedMap.values],
    List.Pairwise.nil, by simp [EmptyCollection.emptyCollection, OrderedMap.empty, OrderedMap.values]⟩

theorem isLive_projectItem (now : ℚ) (m : MemoryItems) (item : StoredItem Fields) :
    (m.projectItem item).isLive now = !m.isExpired now item.id := by
  cases h : m.expiry.get? item.id <;>
    simp [StoredItem.isLive, MemoryItems.projectItem, MemoryItems.isExpired, h, ← decide_not]

@[simp] theorem MemoryItems.projectItem_id (m : MemoryItems) (item : StoredItem Fields) :
    (m.projectItem item).id = item.id := rfl

theorem isLive_stored (now : ℚ) {m : MemoryItems} {id : ItemId} {item : StoredItem Fields}
    (hitem : m.items.get? id = some item) :
    (m.projectItem item).stored.isLive now = !m.isExpired now id := by
  rw [StoredItem.stored_isLive, isLive_projectItem, Table.key_of_get? hitem]

theorem stored_value {item : StoredItem Fields} {row : Jsonb} (h : RowOf item.value row) :
    item.stored.value = row := by
  simp [StoredItem.stored, h.stored]

/-- A live item that is refreshed is refreshed in the map of expiries. -/
theorem projectItem_refresh {now : ℚ} {m read : MemoryItems} {item : StoredItem Fields}
    (hlive : m.isExpired now item.id = false)
    (hread : read.expiry.get? item.id = (m.expiry.get? item.id).map (MemoryItems.refreshed now)) :
    read.projectItem item = (m.projectItem item).refresh now := by
  have hprojected := isLive_projectItem now m item
  rw [hlive] at hprojected
  simp only [StoredItem.refresh, hprojected]
  cases hentry : m.expiry.get? item.id <;>
    simp [MemoryItems.projectItem, MemoryItems.refreshed, hread, hentry]

namespace Reflects
variable {config : StoreConfig} {now last : ℚ} {m : MemoryItems} {t : PostgresItems}

theorem mono (h : Reflects last m t) (hle : last ≤ now) : Reflects now m t where
  reflected := h.reflected
  lagging := by
    intro id row hrow hnone
    have hdead := h.lagging id row hrow hnone
    cases hexpires : row.expiresAt with
    | none => simp [StoredItem.isLive, hexpires] at hdead
    | some expiresAt =>
      simp only [StoredItem.isLive, hexpires, Option.all_some, decide_eq_false_iff_not,
        not_lt] at hdead ⊢
      exact hdead.trans hle
  readable := h.readable
  expiring := h.expiring
  timeline := h.timeline.mono hle

/-- A row that is live is that of an item that has not expired. -/
theorem get?_of_live (h : Reflects now m t) {id : ItemId} {row : StoredItem Jsonb}
    (hrow : t.get? id = some row) (hlive : row.isLive now = true) :
    ∃ item, m.items.get? id = some item ∧ (m.projectItem item).stored = row ∧
      m.isExpired now id = false := by
  cases hitem : m.items.get? id with
  | none => simp [h.lagging id row hrow hitem] at hlive
  | some item =>
    have hsame := Option.some.inj ((h.reflected id item hitem).symm.trans hrow)
    refine ⟨item, rfl, hsame, ?_⟩
    rw [← hsame, StoredItem.stored_isLive, isLive_projectItem, Table.key_of_get? hitem] at hlive
    simpa using hlive

/-- What is refreshed of the items read, in both. -/
theorem refreshPage (h : Reflects now m t) {refreshTtl : Option Bool}
    (hflag : config.refreshes refreshTtl = true) {page : List (StoredItem Fields)}
    (hpage : ∀ item ∈ page, m.items.get? item.id = some item ∧ m.isExpired now item.id = false) :
    let read := page.foldl (fun m item => m.maybeRefresh config now refreshTtl item.id) m
    Reflects now read ((page.map fun item => (m.projectItem item).stored).foldl
        (fun t row => t.update row.id (·.refresh now)) t) ∧
      ∀ item ∈ page, (read.projectItem item).stored =
        (m.projectItem item).stored.refresh now := by
  intro read
  have hitems : read.items = m.items := MemoryItems.items_foldl page m
  have hexpiry := MemoryItems.expiry_foldl now hflag page m
  have hids : ((page.map fun item => (m.projectItem item).stored).map StoredItem.id) =
      page.map StoredItem.id := by
    simp only [List.map_map]
    rfl
  have htable := get?_foldl_update now (page.map fun item => (m.projectItem item).stored) t
  simp only [hids] at htable
  have hrefreshed : ∀ item ∈ page, read.projectItem item = (m.projectItem item).refresh now := by
    intro item hitem
    refine projectItem_refresh (hpage item hitem).2 ?_
    rw [hexpiry, if_pos (List.mem_map_of_mem hitem)]
  have hthere : ∀ id ∈ page.map StoredItem.id, ∃ item ∈ page, m.items.get? id = some item := by
    intro id hid
    obtain ⟨item, hitem, rfl⟩ := List.mem_map.mp hid
    exact ⟨item, hitem, (hpage item hitem).1⟩
  refine ⟨?_, fun item hitem => by rw [hrefreshed item hitem, StoredItem.refresh_stored]⟩
  constructor
  case timeline => exact hitems ▸ h.timeline
  case expiring =>
    intro id hid
    rw [hexpiry] at hid
    rw [hitems]
    split_ifs at hid <;> exact h.expiring id (by simpa using hid)
  case reflected =>
    intro id item hitem
    rw [hitems] at hitem
    have hid : item.id = id := Table.key_of_get? hitem
    rw [htable, h.reflected id item hitem]
    split_ifs with hmem
    · obtain ⟨other, hother, hsame⟩ := hthere id hmem
      obtain rfl := Option.some.inj (hitem.symm.trans hsame)
      rw [hrefreshed _ hother, Option.map_some, StoredItem.refresh_stored]
    · have hkept : read.expiry.get? item.id = m.expiry.get? item.id := by
        rw [hexpiry, if_neg (hid ▸ hmem)]
      simp only [MemoryItems.projectItem, hkept]
  case lagging =>
    intro id row hrow hnone
    rw [hitems] at hnone
    rw [htable, if_neg] at hrow
    · exact h.lagging id row hrow hnone
    · intro hmem
      obtain ⟨item, -, hitem⟩ := hthere id hmem
      simp [hnone] at hitem
  case readable =>
    intro id row hrow
    rw [htable] at hrow
    split_ifs at hrow with hmem
    · obtain ⟨old, hold, rfl⟩ := Option.map_eq_some_iff.mp hrow
      obtain ⟨value, hvalue⟩ := h.readable id old hold
      refine ⟨value, ?_⟩
      have hsame : (old.refresh now).value = old.value := by
        unfold StoredItem.refresh
        split <;> rfl
      rwa [hsame]
    · exact h.readable id row hrow

theorem expiring_drop (h : Reflects now m t) (id j : ItemId)
    (hj : ((m.drop id).expiry.get? j).isSome = true) :
    ((m.drop id).items.get? j).isSome = true := by
  simp only [MemoryItems.drop, OrderedMap.get?_erase, Table.get?_erase] at hj ⊢
  split_ifs at hj ⊢
  · simp at hj
  · exact h.expiring j hj

theorem drop (h : Reflects now m t) (id : ItemId) : Reflects now (m.drop id) (t.erase id) where
  reflected := by
    intro j item hitem
    simp only [MemoryItems.drop, Table.get?_erase, Option.ite_none_left_eq_some] at hitem
    have hj : item.id = j := Table.key_of_get? hitem.2
    rw [Table.get?_erase, if_neg hitem.1, h.reflected j item hitem.2]
    simp [MemoryItems.projectItem, MemoryItems.drop, OrderedMap.get?_erase, hj, hitem.1]
  lagging := by
    intro j row hrow hnone
    simp only [Table.get?_erase, Option.ite_none_left_eq_some] at hrow
    simp only [MemoryItems.drop, Table.get?_erase, if_neg hrow.1] at hnone
    exact h.lagging j row hrow.2 hnone
  readable := by
    intro j row hrow
    simp only [Table.get?_erase, Option.ite_none_left_eq_some] at hrow
    exact h.readable j row hrow.2
  expiring := h.expiring_drop id
  timeline := h.timeline.sublist (List.filter_sublist.map _)

/-- The sweep of the table deletes what that of the map deletes, and perhaps more. -/
theorem countP_isExpired_le (h : Reflects now m t) :
    m.expiry.keys.countP (fun id => m.isExpired now id) ≤
      t.values.countP fun row => !row.isLive now := by
  have hdead : m.expiry.keys.filter (fun id => m.isExpired now id) ⊆
      (t.values.filter fun row => !row.isLive now).map StoredItem.id := by
    intro id hid
    obtain ⟨hkey, hexpired⟩ := List.mem_filter.mp hid
    obtain ⟨item, hitem⟩ := Option.isSome_iff_exists.mp
      (h.expiring id ((OrderedMap.mem_keys_iff _ _).mp hkey))
    have hrow := h.reflected id item hitem
    have hlive := isLive_stored now hitem
    rw [hexpired] at hlive
    have hitemid : item.id = id := Table.key_of_get? hitem
    have hrowid : (m.projectItem item).stored.id = id := hitemid
    exact List.mem_map.mpr ⟨_, List.mem_filter.mpr ⟨(Table.mem_values_iff _ _).mpr
      (hrowid.symm ▸ hrow), by simp [hlive]⟩, hrowid⟩
  have hnodup : (m.expiry.keys.filter fun id => m.isExpired now id).Nodup :=
    m.expiry.nodup.sublist List.filter_sublist
  have hlength := (hnodup.subperm hdead).length_le
  rwa [List.length_map, ← List.countP_eq_length_filter, ← List.countP_eq_length_filter] at hlength

theorem sweep (h : Reflects now m t) :
    Reflects now (m.sweepExpired now).2 (PostgresItems.sweepExpired now t).2 where
  reflected := by
    intro id item hitem
    simp only [MemoryItems.sweepExpired, Table.get?_filter, Option.filter_eq_some_iff,
      Bool.not_eq_true'] at hitem
    have hid : item.id = id := Table.key_of_get? hitem.1
    have hrow := h.reflected id item hitem.1
    have hlive := isLive_stored now hitem.1
    rw [← hid, hitem.2] at hlive
    have hentry : (m.sweepExpired now).2.expiry.get? item.id = m.expiry.get? item.id := by
      have hkept := hitem.2
      simp only [MemoryItems.isExpired] at hkept
      cases he : m.expiry.get? item.id <;>
        simp_all [MemoryItems.sweepExpired, OrderedMap.get?_filter]
    simp only [MemoryItems.projectItem, hentry]
    simp only [MemoryItems.projectItem] at hrow hlive
    simp [PostgresItems.sweepExpired, Table.get?_filter, hrow, hlive]
  lagging := by
    intro id row hrow hnone
    simp only [PostgresItems.sweepExpired, Table.get?_filter, Option.filter_eq_some_iff] at hrow
    obtain ⟨item, hitem, -, hkept⟩ := h.get?_of_live hrow.1 hrow.2
    have hid : item.id = id := Table.key_of_get? hitem
    simp [MemoryItems.sweepExpired, Table.get?_filter, hitem, hid, hkept] at hnone
  readable := by
    intro id row hrow
    simp only [PostgresItems.sweepExpired, Table.get?_filter, Option.filter_eq_some_iff] at hrow
    exact h.readable id row hrow.1
  expiring := by
    intro id hid
    obtain ⟨entry, hentry⟩ := Option.isSome_iff_exists.mp hid
    simp only [MemoryItems.sweepExpired, OrderedMap.get?_filter, Option.filter_eq_some_iff]
      at hentry
    obtain ⟨item, hitem⟩ := Option.isSome_iff_exists.mp (h.expiring id (by simp [hentry.1]))
    have hitemid : item.id = id := Table.key_of_get? hitem
    have hkept : m.isExpired now item.id = false := by
      simpa [MemoryItems.isExpired, hitemid, hentry.1] using hentry.2
    simp [MemoryItems.sweepExpired, Table.get?_filter, hitem, hkept]
  timeline := h.timeline.sublist (List.filter_sublist.map _)

/-- An item as it reads once its expiry has been set. -/
theorem projectItem_setExpiry (now : ℚ) (m : MemoryItems) (item : StoredItem Fields)
    (minutes : Option ℚ) : (m.setExpiry now item.id minutes).projectItem item =
      { item with ttl := minutes, expiresAt := minutes.map (expiryAt now) } := by
  simp [MemoryItems.projectItem, MemoryItems.expiry_setExpiry, Function.comp_def]

/-- An item that is written, with its expiry, beside the row that holds the same. -/
theorem write (h : Reflects last m t) (hlt : last < now) {item : StoredItem Fields} {json : Jsonb}
    (hjson : RowOf item.value json)
    (hcreated : item.createdAt = ((m.items.get? item.id).map StoredItem.createdAt).getD now)
    (minutes : Option ℚ) {written : MemoryItems}
    (hwritten : written =
      MemoryItems.setExpiry now { m with items := m.items.write item } item.id minutes) :
    Reflects now written (t.write (written.projectItem item).stored) := by
  have hnow := h.mono hlt.le
  have hitems : written.items = m.items.write item := by
    rw [hwritten, MemoryItems.items_setExpiry]
  have hexpiry : ∀ j, item.id ≠ j → written.expiry.get? j = m.expiry.get? j := by
    intro j hj
    rw [hwritten, MemoryItems.expiry_setExpiry, if_neg hj]
  have hrowid : (written.projectItem item).stored.id = item.id := rfl
  constructor
  case reflected =>
    intro j other hother
    rw [hitems, Table.get?_write] at hother
    rw [Table.get?_write, hrowid]
    split_ifs at hother ⊢ with hj
    · rw [← Option.some.inj hother]
    · have hotherid : other.id = j := Table.key_of_get? hother
      rw [h.reflected j other hother]
      simp [MemoryItems.projectItem, hotherid, hexpiry j hj]
  case lagging =>
    intro j other hother hnone
    rw [hitems, Table.get?_write] at hnone
    rw [Table.get?_write, hrowid] at hother
    split_ifs at hother hnone with hj
    exact hnow.lagging j other hother hnone
  case readable =>
    intro j other hother
    rw [Table.get?_write] at hother
    split_ifs at hother with hj
    · obtain rfl := Option.some.inj hother
      have hprojected : RowOf (written.projectItem item).value json := hjson
      exact ⟨item.value, stored_value hprojected ▸ hjson⟩
    · exact h.readable j other hother
  case expiring =>
    intro j hj
    rw [hitems, Table.get?_write]
    split_ifs with hsame
    · rfl
    · exact h.expiring j (hexpiry j hsame ▸ hj)
  case timeline =>
    rw [hitems]
    cases hcase : m.items.get? item.id with
    | none =>
      have hnew : m.items.contains item.id = false :=
        (OrderedMap.contains_eq_false_iff _ _).mpr hcase
      rw [Table.values_write_new hnew]
      exact h.timeline.append hlt ⟨json, hjson⟩ (by simp [hcreated, hcase])
    | some before =>
      have hold : m.items.contains item.id = true := by simp [OrderedMap.contains, hcase]
      rw [Table.values_write_old hold]
      refine hnow.timeline.map (fun other hother => ?_) fun other hother => ?_
      · split_ifs
        · exact ⟨json, hjson⟩
        · exact h.timeline.valued other hother
      · split_ifs with heq
        · have hget := (Table.mem_values_iff _ _).mp hother
          rw [heq, hcase] at hget
          simp [hcreated, hcase, Option.some.inj hget]
        · rfl

/-- Where no expired row is in the way, both write one row and answer it. -/
theorem put (h : Reflects last m t) (hlt : last < now) {segments : Namespace} {key : JsString}
    {value : Fields} {json : Jsonb} (hid : PostgresItems.isBindableId (segments, key) = true)
    (hjson : RowOf value json)
    (hlive : ∀ row, t.get? (segments, key) = some row → row.isLive now = true)
    (ttl : Option (Option ℚ)) :
    ∃ t', PostgresItems.putWithOptions config now t segments key value ttl =
        some ((m.putWithOptions config now segments key value ttl).1.stored, t') ∧
      Reflects now (m.putWithOptions config now segments key value ttl).2 t' := by
  have hnow := h.mono hlt.le
  set item : StoredItem Fields :=
    { segments, key, value, createdAt := ((m.items.get? (segments, key)).map
        StoredItem.createdAt).getD now
      updatedAt := now } with hitem
  set written := MemoryItems.setExpiry now { m with items := m.items.write item } item.id
    (config.ttlMinutes ttl) with hwritten
  have hprojected : written.projectItem item = { item with
      ttl := config.ttlMinutes ttl, expiresAt := (config.ttlMinutes ttl).map (expiryAt now) } :=
    projectItem_setExpiry now _ item _
  have hcreated : (t.get? (segments, key)).map StoredItem.createdAt =
      (m.items.get? (segments, key)).map StoredItem.createdAt := by
    cases hfound : t.get? (segments, key) with
    | none =>
      cases hcase : m.items.get? (segments, key) with
      | none => rfl
      | some old => simp [h.reflected _ old hcase] at hfound
    | some row =>
      obtain ⟨old, hold, rfl, -⟩ := hnow.get?_of_live hfound (hlive row hfound)
      simp [hold, MemoryItems.projectItem]
  refine ⟨t.write (written.projectItem item).stored, ?_, h.write hlt hjson rfl _ hwritten⟩
  have hanswer : (m.putWithOptions config now segments key value ttl).1 =
      .item (some (written.projectItem item)) := rfl
  rw [hanswer, PostgresItems.putWithOptions, if_pos hid]
  simp only [hjson.stored, Option.map_some, ItemAnswer.stored, hprojected]
  cases hfound : t.get? (segments, key) with
  | none =>
    rw [hfound] at hcreated
    simp [StoredItem.stored, hitem, ← hcreated, hjson.stored]
  | some row =>
    rw [hfound] at hcreated
    simp [StoredItem.stored, hitem, ← hcreated, hjson.stored]

theorem congr (h : Reflects now m t) {t' : PostgresItems}
    (hsame : ∀ id, t'.get? id = t.get? id) : Reflects now m t' where
  reflected := fun id item hitem => (hsame id).trans (h.reflected id item hitem)
  lagging := fun id row hrow => h.lagging id row ((hsame id).symm.trans hrow)
  readable := fun id row hrow => h.readable id row ((hsame id).symm.trans hrow)
  expiring := h.expiring
  timeline := h.timeline

/-- Refreshing an expired row leaves the table as it is. -/
theorem update_dead (h : Reflects now m t) {id : ItemId}
    (hdead : ∀ row, t.get? id = some row → row.isLive now = false) :
    Reflects now m (t.update id (·.refresh now)) := by
  refine h.congr fun j => ?_
  rw [Table.get?_update (StoredItem.refresh_id now)]
  split_ifs with hj
  · cases hrow : t.get? j with
    | none => rfl
    | some row => simp [StoredItem.refresh, hdead row (hj ▸ hrow)]
  · rfl

/-- An expired item that the memory driver drops stays in the table. -/
theorem dropExpired (h : Reflects now m t) {id : ItemId} (hexpired : m.isExpired now id = true) :
    Reflects now (m.drop id) t where
  reflected := by
    intro j item hitem
    simp only [MemoryItems.drop, Table.get?_erase, Option.ite_none_left_eq_some] at hitem
    have hj : item.id = j := Table.key_of_get? hitem.2
    rw [h.reflected j item hitem.2]
    simp [MemoryItems.projectItem, MemoryItems.drop, OrderedMap.get?_erase, hj, hitem.1]
  lagging := by
    intro j row hrow hnone
    simp only [MemoryItems.drop, Table.get?_erase, ite_eq_left_iff] at hnone
    by_cases hj : id = j
    · by_contra hlive
      obtain ⟨-, -, -, hkept⟩ := h.get?_of_live hrow (by simpa using hlive)
      simp [← hj, hexpired] at hkept
    · exact h.lagging j row hrow (hnone hj)
  readable := h.readable
  expiring := h.expiring_drop id
  timeline := h.timeline.sublist (List.filter_sublist.map _)

/-- Nothing is read where neither driver has a live item. -/
theorem get_absent {left : MemoryItems} (h : Reflects now left t) {segments : Namespace}
    {key : JsString} (hid : PostgresItems.isBindableId (segments, key) = true)
    (hdead : ∀ row, t.get? (segments, key) = some row → row.isLive now = false)
    (refreshTtl : Option Bool) :
    ∃ t', PostgresItems.get config now t segments key refreshTtl = some (.item none, t') ∧
      Reflects now left t' := by
  have hnone : (t.get? (segments, key)).filter (·.isLive now) = none := by
    cases hrow : t.get? (segments, key) with
    | none => rfl
    | some row => simp [hdead row hrow]
  simp only [PostgresItems.get, hid, if_true, hnone, Option.map_none]
  split
  · exact ⟨_, rfl, h.update_dead hdead⟩
  · exact ⟨_, rfl, h⟩

theorem get (h : Reflects now m t) {segments : Namespace} {key : JsString}
    (hid : PostgresItems.isBindableId (segments, key) = true) (refreshTtl : Option Bool) :
    ∃ t', PostgresItems.get config now t segments key refreshTtl =
        some ((m.get config now segments key refreshTtl).1.stored, t') ∧
      Reflects now (m.get config now segments key refreshTtl).2 t' := by
  cases hitem : m.items.get? (segments, key) with
  | none =>
    have hread : m.get config now segments key refreshTtl = (.item none, m) := by
      simp [MemoryItems.get, hitem]
    rw [hread]
    exact h.get_absent hid (fun row hrow => h.lagging _ row hrow hitem) refreshTtl
  | some item =>
    have hrow := h.reflected _ item hitem
    have hlive := isLive_stored now hitem
    cases hexpired : m.isExpired now (segments, key) with
    | true =>
      have hread : m.get config now segments key refreshTtl =
          (.item none, m.drop (segments, key)) := by
        simp [MemoryItems.get, hitem, hexpired]
      rw [hread]
      refine (h.dropExpired hexpired).get_absent hid (fun row hsame => ?_) refreshTtl
      obtain rfl := Option.some.inj (hrow.symm.trans hsame)
      simpa [hexpired] using hlive
    | false =>
      have hread : m.get config now segments key refreshTtl =
          (.item (some ((m.maybeRefresh config now refreshTtl (segments, key)).projectItem item)),
            m.maybeRefresh config now refreshTtl (segments, key)) := by
        simp [MemoryItems.get, hitem, hexpired]
      have hitemid : item.id = (segments, key) := Table.key_of_get? hitem
      rw [hexpired] at hlive
      rw [hread]
      simp only [PostgresItems.get, hid, if_true, hrow, Option.filter, hlive, Bool.not_false]
      cases hflag : config.refreshes refreshTtl with
      | true =>
        have hpage : ∀ other ∈ [item], m.items.get? other.id = some other ∧
            m.isExpired now other.id = false := by
          simp [hitemid, hitem, hexpired]
        obtain ⟨hreflects, hrefreshed⟩ := h.refreshPage hflag hpage
        have hsame := hrefreshed item (List.mem_singleton_self item)
        simp only [List.foldl_cons, List.foldl_nil, hitemid] at hsame
        refine ⟨t.update (segments, key) (·.refresh now), by simp [ItemAnswer.stored, hsame], ?_⟩
        simpa [hitemid] using hreflects
      | false =>
        rw [MemoryItems.maybeRefresh_of_not hflag]
        exact ⟨t, rfl, h⟩

end Reflects

/-- What a search may ask of Postgres. -/
def StoreSearchQuery.isStorable (query : StoreSearchQuery) : Bool :=
  query.prefixPath.all (·.all JsString.isStorable) &&
    (storeItemFilterProblem (.object (query.filter.getD []))).isNone &&
    isBindable (query.filter.getD [])

/-- The condition of a search never fails, and matches as the memory driver does. -/
theorem searchCondition_eq {query : StoreSearchQuery} (hquery : query.isStorable = true) (now : ℚ)
    {row : StoredItem Jsonb} {value : Fields} (hvalue : RowOf value row.value) :
    PostgresItems.searchCondition now query row = some (row.isLive now &&
      (query.prefixPath.all (fun path => path.isEmpty || matchesNamespacePrefix row.segments path) &&
        matchesItemFilter value query.filter)) := by
  simp only [StoreSearchQuery.isStorable, Bool.and_eq_true, Option.isNone_iff_eq_none] at hquery
  obtain ⟨⟨hpath, haccepted⟩, hbindable⟩ := hquery
  obtain ⟨first, hfirst, hprefix⟩ := eval_pathConditions hpath row.segments .atPrefix []
  obtain ⟨second, hsecond, hfilter⟩ := hvalue.eval_itemFilterSql (query.filter.getD [])
    (fun entry hentry => List.findSome?_eq_none_iff.mp haccepted entry hentry) hbindable
    (pathConditions query.prefixPath .atPrefix []).2
  have hin := hprefix second
  have hmatched := hfilter []
  rw [← hfirst, ← hsecond] at hin
  rw [List.append_nil, ← hsecond] at hmatched
  have hsame : matchesItemFilter value (some (query.filter.getD [])) =
      matchesItemFilter value query.filter := by
    cases query.filter <;> simp [matchesItemFilter]
  simp [PostgresItems.searchCondition, hin, hmatched, hsame, PathAnchor.accepts]

theorem nodup_values {V : Type*} (t : Table ItemId (StoredItem V) StoredItem.id) :
    t.values.Nodup := List.Nodup.of_map _ t.nodup_map_key

theorem before_trans (collation : Collation) (a b c : StoredItem Jsonb)
    (hab : StoredItem.before collation a b = true) (hbc : StoredItem.before collation b c = true) :
    StoredItem.before collation a c = true := by
  simp only [StoredItem.before, Bool.or_eq_true, decide_eq_true_eq, Bool.and_eq_true] at *
  obtain hab | ⟨hab, hkeys⟩ := hab <;> obtain hbc | ⟨hbc, hkeys'⟩ := hbc
  · exact .inl (hab.trans hbc)
  · exact .inl (hbc ▸ hab)
  · exact .inl (hab ▸ hbc)
  · exact .inr ⟨hab.trans hbc, collation.trans _ _ _ hkeys hkeys'⟩

theorem before_total (collation : Collation) (a b : StoredItem Jsonb) :
    (StoredItem.before collation a b || StoredItem.before collation b a) = true := by
  have hkeys := collation.total a.key b.key
  simp only [StoredItem.before, Bool.or_eq_true, decide_eq_true_eq, Bool.and_eq_true] at *
  obtain hlt | heq | hgt := lt_trichotomy a.createdAt b.createdAt <;> grind

/-- Rows that were created one after another have one order. -/
theorem mergeSort_before (collation : Collation) {rows sorted : List (StoredItem Jsonb)}
    (hperm : rows.Perm sorted) (hsorted : sorted.Pairwise fun a b => a.createdAt < b.createdAt) :
    rows.mergeSort (StoredItem.before collation) = sorted := by
  have hstrict : sorted.Pairwise fun a b => StoredItem.before collation a b = true :=
    hsorted.imp fun h => by simp [StoredItem.before, h]
  have hcreated : (sorted.map StoredItem.createdAt).Nodup :=
    List.pairwise_map.mpr (hsorted.imp fun h => h.ne)
  have hall := (List.mergeSort_perm rows (StoredItem.before collation)).trans hperm
  refine List.Perm.eq_of_pairwise ?_ (List.pairwise_mergeSort (before_trans collation)
    (before_total collation) rows) hstrict hall
  intro a b ha hb hab hba
  simp only [StoredItem.before, Bool.or_eq_true, decide_eq_true_eq, Bool.and_eq_true] at hab hba
  have htie : a.createdAt = b.createdAt := by
    obtain hab | hab := hab <;> obtain hba | hba := hba <;> linarith
  exact List.inj_on_of_nodup_map hcreated (hall.subset ha) hb htie

namespace Reflects
variable {config : StoreConfig} {now last : ℚ} {m : MemoryItems} {t : PostgresItems}

/-- Postgres finds the rows of what the memory driver finds, in the same order. -/
theorem searchRows_eq (h : Reflects now m t) {query : StoreSearchQuery}
    (hquery : query.isStorable = true) (collation : Collation) (scan : ScanOrder) :
    t.searchRows now collation scan query =
      some ((m.matching now query).map fun item => (m.projectItem item).stored) := by
  set found := fun row => (PostgresItems.searchCondition now query row).getD false with hfound
  have hscanned := scan.perm t.values
  have hselect := selectRows_eq (p := PostgresItems.searchCondition now query) (q := found)
    (scan.order t.values) (fun row hrow => by
      obtain ⟨value, hvalue⟩ := h.readable _ row ((Table.mem_values_iff t row).mp
        (hscanned.subset hrow))
      simp [hfound, searchCondition_eq hquery now hvalue])
  have hmatch : ∀ item, m.items.get? item.id = some item →
      found (m.projectItem item).stored =
        (!m.isExpired now item.id && MemoryItems.isMatch query item) := by
    intro item hitem
    obtain ⟨json, hjson⟩ := h.timeline.valued item ((Table.mem_values_iff _ _).mpr hitem)
    have hprojected : RowOf (m.projectItem item).value json := hjson
    have hvalue : RowOf item.value (m.projectItem item).stored.value :=
      (stored_value hprojected).symm ▸ hjson
    have hlive := isLive_stored now hitem
    simp only [hfound, searchCondition_eq hquery now hvalue, hlive]
    rfl
  have hperm : ((scan.order t.values).filter found).Perm
      ((m.matching now query).map fun item => (m.projectItem item).stored) := by
    refine (hscanned.filter found).trans ((List.perm_ext_iff_of_nodup
      ((nodup_values t).filter _) ?_).mpr fun row => ?_)
    · refine List.Nodup.of_map StoredItem.id ?_
      simp only [List.map_map]
      exact (Table.nodup_map_key m.items).sublist (List.filter_sublist.map _)
    · simp only [List.mem_filter, Table.mem_values_iff, List.mem_map, MemoryItems.matching,
        Bool.and_eq_true]
      constructor
      · rintro ⟨hrow, hmatched⟩
        obtain ⟨value, hvalue⟩ := h.readable _ row hrow
        have hlive : row.isLive now = true := by
          simp only [hfound, searchCondition_eq hquery now hvalue, Option.getD_some,
            Bool.and_eq_true] at hmatched
          exact hmatched.1
        obtain ⟨item, hitem, rfl, -⟩ := h.get?_of_live hrow hlive
        have hkey : m.items.get? item.id = some item := hitem
        rw [hmatch item hkey, Bool.and_eq_true] at hmatched
        exact ⟨item, ⟨hkey, hmatched⟩, rfl⟩
      · rintro ⟨item, ⟨hitem, hmatched⟩, rfl⟩
        refine ⟨h.reflected _ item hitem, ?_⟩
        rw [hmatch item hitem, Bool.and_eq_true]
        exact hmatched
  have hsorted : ((m.matching now query).map fun item =>
      (m.projectItem item).stored).Pairwise fun a b => a.createdAt < b.createdAt :=
    List.pairwise_map.mpr (h.timeline.ordered.sublist List.filter_sublist)
  simp only [PostgresItems.searchRows, hselect, Option.map_some,
    mergeSort_before collation hperm hsorted]

theorem search (h : Reflects now m t) {query : StoreSearchQuery}
    (hquery : query.isStorable = true) (collation : Collation) (scan : ScanOrder)
    (refreshTtl : Option Bool) :
    ∃ t', PostgresItems.search config now t collation scan query refreshTtl =
        some ((m.search config now query refreshTtl).1.stored, t') ∧
      Reflects now (m.search config now query refreshTtl).2 t' := by
  set page := ((m.matching now query).drop (query.offset.getD 0)).take
    (config.pageLimit query.limit) with hpagedef
  have hrows : PostgresItems.searchPage config now t collation scan query =
      some (page.map fun item => (m.projectItem item).stored) := by
    simp [PostgresItems.searchPage, h.searchRows_eq hquery, hpagedef, List.map_take, List.map_drop]
  have hpage : ∀ item ∈ page, m.items.get? item.id = some item ∧
      m.isExpired now item.id = false := by
    intro item hitem
    have hmatched := List.mem_of_mem_drop (List.mem_of_mem_take hitem)
    simp only [MemoryItems.matching, List.mem_filter, Table.mem_values_iff, Bool.and_eq_true,
      Bool.not_eq_true'] at hmatched
    exact ⟨hmatched.1, hmatched.2.1⟩
  simp only [PostgresItems.search, hrows, Option.map_some, MemoryItems.search, ← hpagedef]
  cases hflag : config.refreshes refreshTtl with
  | true =>
    obtain ⟨hreflects, hrefreshed⟩ := h.refreshPage hflag hpage
    refine ⟨_, ?_, hreflects⟩
    have hanswers : page.map (fun item => (m.projectItem item).stored.refresh now) =
        page.map fun item => ((page.foldl (fun m item =>
          m.maybeRefresh config now refreshTtl item.id) m).projectItem item).stored :=
      List.map_congr_left fun item hitem => (hrefreshed item hitem).symm
    simp only [ItemAnswer.stored, List.map_map, if_true, Function.comp_def, hanswers]
  | false =>
    rw [MemoryItems.foldl_of_not hflag]
    exact ⟨t, by simp [ItemAnswer.stored, Function.comp_def], h⟩

end Reflects

namespace ItemCall

/-- Texts that Postgres can hold, and for a search a filter that is accepted. -/
def isStorable : ItemCall → Bool
  | put segments key value _ => PostgresItems.isBindableId (segments, key) &&
      (JsData.object value).toJsonb.isSome && decide (value.map Prod.fst).Nodup &&
      value.all fun entry => entry.2.isFiniteEntry
  | get segments key _ | delete segments key => PostgresItems.isBindableId (segments, key)
  | search query _ => query.isStorable
  | sweepExpired => true

/-- Does the call write over a row that has expired and has not been swept? -/
def writesOverExpired (now : ℚ) (t : PostgresItems) : ItemCall → Bool
  | put segments key _ _ => (t.get? (segments, key)).any fun row => !row.isLive now
  | _ => false

end ItemCall

/-- One call of both drivers. -/
theorem Reflects.step {now last : ℚ} {m : MemoryItems} {t : PostgresItems} (h : Reflects last m t)
    (config : StoreConfig) (hlt : last < now) {call : ItemCall} (hstorable : call.isStorable = true)
    (hwrites : call.writesOverExpired now t = false) (collation : Collation) (scan : ScanOrder) :
    ∃ answer t', PostgresItems.step config now t collation scan call = some (answer, t') ∧
      (m.step config now call).1.Agrees answer ∧ Reflects now (m.step config now call).2 t' := by
  have hnow := h.mono hlt.le
  cases call with
  | put segments key value ttl =>
    simp only [ItemCall.isStorable, Bool.and_eq_true, decide_eq_true_eq, List.all_eq_true]
      at hstorable
    obtain ⟨⟨⟨hid, hjson⟩, hkeys⟩, hfinite⟩ := hstorable
    obtain ⟨json, hjson⟩ := Option.isSome_iff_exists.mp hjson
    obtain ⟨t', hstep, hreflects⟩ := h.put hlt hid ⟨hjson, hkeys, hfinite⟩
      (fun row hrow => by simpa [ItemCall.writesOverExpired, hrow] using hwrites) ttl
    exact ⟨_, t', hstep, rfl, hreflects⟩
  | get segments key refreshTtl =>
    obtain ⟨t', hstep, hreflects⟩ := hnow.get hstorable refreshTtl
    have hagrees : (m.get config now segments key refreshTtl).1.Agrees
        (m.get config now segments key refreshTtl).1.stored := by
      unfold MemoryItems.get
      split
      · rfl
      · split <;> rfl
    exact ⟨_, t', hstep, hagrees, hreflects⟩
  | delete segments key =>
    have hid : PostgresItems.isBindableId (segments, key) = true := hstorable
    refine ⟨.done, t.erase (segments, key), ?_, rfl, hnow.drop (segments, key)⟩
    simp [PostgresItems.step, PostgresItems.delete, hid]
  | search query refreshTtl =>
    obtain ⟨t', hstep, hreflects⟩ := hnow.search hstorable collation scan refreshTtl
    exact ⟨_, t', hstep, rfl, hreflects⟩
  | sweepExpired =>
    obtain ⟨dropped, hdropped⟩ := Nat.exists_eq_add_of_le hnow.countP_isExpired_le
    exact ⟨_, _, rfl, ⟨dropped, congrArg ItemAnswer.swept hdropped⟩, hnow.sweep⟩

/-- In a run of the Postgres driver no call writes over an expired row. -/
def neverOverExpired (config : StoreConfig) (collation : Collation) :
    PostgresItems → List TimedCall → Bool
  | _, [] => true
  | t, timed :: rest => !timed.call.writesOverExpired timed.now t &&
      (t.step config timed.now collation timed.scan timed.call).all fun answered =>
        neverOverExpired config collation answered.2 rest

theorem Reflects.answers {config : StoreConfig} {collation : Collation} {last : ℚ}
    {m : MemoryItems} {t : PostgresItems} (h : Reflects last m t) (calls : List TimedCall)
    (hclock : calls.Pairwise fun a b => a.now < b.now) (hlast : ∀ timed ∈ calls, last < timed.now)
    (hstorable : ∀ timed ∈ calls, timed.call.isStorable = true)
    (hswept : neverOverExpired config collation t calls = true) :
    ∃ answers, postgresAnswers config collation t calls = some answers ∧
      List.Forall₂ ItemAnswer.Agrees (memoryAnswers config m calls) answers := by
  induction calls generalizing last m t with
  | nil => exact ⟨[], rfl, .nil⟩
  | cons timed rest ih =>
    obtain ⟨hfirst, hrest⟩ := List.pairwise_cons.mp hclock
    simp only [neverOverExpired, Bool.and_eq_true, Bool.not_eq_true'] at hswept
    obtain ⟨answer, t', hstep, hagrees, hreflects⟩ := h.step config (hlast timed (by simp))
      (hstorable timed (by simp)) hswept.1 collation timed.scan
    have hnext := hswept.2
    rw [hstep, Option.all_some] at hnext
    obtain ⟨answers, hlater, hall⟩ := ih hreflects hrest hfirst
      (fun other hother => hstorable other (by simp [hother])) hnext
    exact ⟨answer :: answers, by simp [postgresAnswers, hstep, hlater], .cons hagrees hall⟩

def byCodeUnits : Collation where
  le a b := a ≤ b
  trans a b c hab hbc := by
    simp only [decide_eq_true_eq] at *
    exact hab.trans hbc
  total a b := by simp [le_total]

def backwards : ScanOrder := ⟨List.reverse, List.reverse_perm⟩

/-- Two writes, one of them for a minute; a search; a read after the minute; a sweep; a write. -/
def sampleCalls : List TimedCall :=
  [⟨0, .put [[117]] [107] sampleValue (some (some 1)), backwards⟩,
    ⟨1, .put [[117], [49]] [107] sampleValue none, backwards⟩,
    ⟨2, .search { prefixPath := some [namespaceWildcard], filter := some sampleFilter
                  limit := some 1 } none, backwards⟩,
    ⟨60001, .get [[117]] [107] (some true), backwards⟩,
    ⟨60002, .sweepExpired, backwards⟩,
    ⟨60003, .put [[117]] [107] sampleValue none, backwards⟩]

end Skein
