import Skein.ServiceRounds
import Skein.StoreAgreement

/-!
# Pages of a search

A caller reads pages until one is short. Each page is a query of its own, which orders rows that
tie as it comes upon them: the pages hold every row once exactly where no two rows tie.
-/
namespace Skein

section tile
variable {α : Type*} {page : ℕ → Option (List α)} {n : ℕ}

/-- Pages of `n` from the `i`-th on, until one is short. -/
def tile (page : ℕ → Option (List α)) (n : ℕ) : ℕ → ℕ → Option (List α)
  | 0, _ => none
  | fuel + 1, i => (page i).bind fun rows =>
      if rows.length < n then some rows else (tile page n fuel (i + 1)).map (rows ++ ·)

/-- The pages of one listing are the listing. -/
theorem tile_eq {listing : List α} (hn : 0 < n)
    (hpage : ∀ i, page i = some ((listing.drop (i * n)).take n)) (fuel i : ℕ)
    (hfuel : listing.length < (i + fuel + 1) * n) :
    tile page n (fuel + 1) i = some (listing.drop (i * n)) := by
  induction fuel generalizing i with
  | zero =>
    have hlength : (listing.drop (i * n)).length < n := by
      have hsplit : (i + 0 + 1) * n = i * n + n := by ring
      rw [List.length_drop]
      omega
    simp only [tile, hpage, Option.bind_some, List.take_of_length_le hlength.le, if_pos hlength]
  | succ fuel ih =>
    rw [tile, hpage, Option.bind_some]
    split_ifs with hshort
    · rw [List.length_take] at hshort
      rw [List.take_of_length_le (by omega)]
    · have hnext : (i + 1) * n = i * n + n := by ring
      rw [ih (i + 1) (by convert hfuel using 1; ring), Option.map_some, hnext, ← List.drop_drop,
        List.take_append_drop]

/-- Pages of one row, each from a listing of its own. -/
theorem getElem?_tile (listing : ℕ → List α) {count : ℕ}
    (hpage : ∀ i, page i = some (((listing i).drop i).take 1))
    (hcount : ∀ i, (listing i).length = count) (fuel i : ℕ) {rows : List α}
    (hrows : tile page 1 fuel i = some rows) (j : ℕ) : rows[j]? = (listing (i + j))[i + j]? := by
  induction fuel generalizing i rows j with
  | zero => simp [tile] at hrows
  | succ fuel ih =>
    rw [tile, hpage, Option.bind_some] at hrows
    split_ifs at hrows with hshort
    · obtain rfl := Option.some.inj hrows
      rw [List.length_take, List.length_drop, hcount] at hshort
      have hover : count ≤ i := by omega
      rw [List.getElem?_eq_none (by rw [List.length_take, List.length_drop, hcount]; omega),
        List.getElem?_eq_none (by rw [hcount]; omega)]
    · obtain ⟨later, hlater, rfl⟩ := Option.map_eq_some_iff.mp hrows
      rw [List.length_take, List.length_drop, hcount] at hshort
      have hlt : i < (listing i).length := by
        rw [hcount]
        omega
      have hhead : ((listing i).drop i).take 1 = [(listing i)[i]] := by
        rw [List.take_one, List.head?_drop, List.getElem?_eq_getElem hlt, Option.toList_some]
      rw [hhead]
      cases j with
      | zero => simp
      | succ j =>
        have hrest := ih (i + 1) hlater j
        rw [List.singleton_append, List.getElem?_cons_succ, hrest]
        have hindex : i + 1 + j = i + (j + 1) := by omega
        rw [hindex]

end tile

section search
variable (config : StoreConfig) (now : ℚ) (t : PostgresItems) (collation : Collation)
  (query : StoreSearchQuery)

def isFound (row : StoredItem Jsonb) : Bool :=
  (PostgresItems.searchCondition now query row).getD false

/-- The rows that a query is about. -/
def matchingRows : List (StoredItem Jsonb) := t.values.filter (isFound now query)

/-- Those rows as a statement sorts them that comes upon them in the order `scan`. -/
def orderedRows (scan : ScanOrder) : List (StoredItem Jsonb) :=
  ((scan.order t.values).filter (isFound now query)).mergeSort (StoredItem.before collation)

/-- All pages of `n` rows, the `i`-th of them read in the order of `scans i`. -/
def searchPages (scans : ℕ → ScanOrder) (n fuel : ℕ) : Option (List (StoredItem Jsonb)) :=
  tile (fun i => t.searchPage config now collation (scans i)
    { query with offset := some (i * n), limit := some n }) n fuel 0

/-- Two rows that `ORDER BY created_at, key` does not tell apart. -/
def Ties (a b : StoredItem Jsonb) : Prop :=
  StoredItem.before collation a b = true ∧ StoredItem.before collation b a = true

variable {config now t collation query}

theorem orderedRows_perm (scan : ScanOrder) :
    (orderedRows now t collation query scan).Perm (matchingRows now t query) :=
  (List.mergeSort_perm _ _).trans ((scan.perm t.values).filter _)

theorem nodup_matchingRows : (matchingRows now t query).Nodup := (nodup_values t).filter _

/-- A query of rows that hold values does not fail. -/
theorem searchPage_eq (hquery : query.isStorable = true)
    (hreadable : ∀ row ∈ t.values, ∃ value, RowOf value row.value) (scan : ScanOrder)
    {n : ℕ} (hmax : n ≤ config.maxPageSize) (i : ℕ) :
    t.searchPage config now collation scan
        { query with offset := some (i * n), limit := some n } =
      some (((orderedRows now t collation query scan).drop (i * n)).take n) := by
  have hselect := selectRows_eq (p := PostgresItems.searchCondition now query)
    (q := isFound now query) (scan.order t.values) (fun row hrow => by
      obtain ⟨value, hvalue⟩ := hreadable row ((scan.perm t.values).subset hrow)
      simp [isFound, searchCondition_eq hquery now hvalue])
  have hcondition : PostgresItems.searchCondition now
      { query with offset := some (i * n), limit := some n } =
        PostgresItems.searchCondition now query := rfl
  simp [PostgresItems.searchPage, PostgresItems.searchRows, hcondition, hselect, orderedRows,
    StoreConfig.pageLimit, min_eq_left hmax]

/-- Without ties there is one order. -/
theorem orderedRows_eq (hties : (matchingRows now t query).Pairwise fun a b => ¬Ties collation a b)
    (scan scan' : ScanOrder) : orderedRows now t collation query scan =
      orderedRows now t collation query scan' := by
  have hsymm : Std.Symm fun a b => ¬Ties collation a b := ⟨fun a b h htie => h htie.symm⟩
  refine List.Perm.eq_of_pairwise ?_ (List.pairwise_mergeSort (before_trans collation)
    (before_total collation) _) (List.pairwise_mergeSort (before_trans collation)
    (before_total collation) _) ((orderedRows_perm scan).trans (orderedRows_perm scan').symm)
  intro a b ha hb hab hba
  by_contra hne
  exact hties.forall ((orderedRows_perm scan).subset ha)
    ((orderedRows_perm scan').subset hb) hne ⟨hab, hba⟩

/-- An order in which a statement may come upon the rows. -/
theorem exists_scan {rows : List (StoredItem Jsonb)} (h : t.values.Perm rows) :
    ∃ scan : ScanOrder, scan.order t.values = rows := by
  classical
  refine ⟨⟨fun given => if given.Perm rows then rows else given, fun given => ?_⟩, if_pos h⟩
  split_ifs with hgiven
  · exact hgiven.symm
  · exact List.Perm.refl _

/-- Of two rows that tie, either may come first. -/
theorem exists_pair_sublist {a b : StoredItem Jsonb} (ha : a ∈ matchingRows now t query)
    (hb : b ∈ matchingRows now t query) (hne : a ≠ b)
    (hab : StoredItem.before collation a b = true) :
    ∃ scan, [a, b].Sublist (orderedRows now t collation query scan) := by
  simp only [matchingRows, List.mem_filter] at ha hb
  have hpair : List.Subperm [a, b] t.values :=
    List.subperm_of_subset (by simp [hne]) (by simp [ha.1, hb.1])
  obtain ⟨pair, hperm, hsublist⟩ := hpair
  obtain ⟨rest, hrest⟩ := hsublist.exists_perm_append
  obtain ⟨scan, hscan⟩ := exists_scan (hrest.trans (hperm.append_right rest))
  refine ⟨scan, List.pair_sublist_mergeSort (before_trans collation) (before_total collation) hab ?_⟩
  rw [hscan]
  simp [ha.2, hb.2]

end search

/-- An item of a restored store, under the same key in a namespace of its own. -/
def restoredItem (segments : Namespace) : StoredItem Jsonb :=
  { segments, key := [107], value := .object [], createdAt := 0, updatedAt := 0 }

def restoredItems : PostgresItems :=
  ((∅ : PostgresItems).write (restoredItem [[97]])).write (restoredItem [[98]])

end Skein
