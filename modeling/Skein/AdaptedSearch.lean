import Skein.FromBaseStore

/-!
# Searching an adapted store

However a source answers, the drain loops end. Where it pages a list that stays the same, a
search returns a page of the matching items, each once and in the order of the source; that the
drain may end early changes nothing.
-/
namespace Skein

section KeepFirst
variable {α κ : Type*} [DecidableEq κ] (key : α → κ)

/-- Of the elements with one key, the first. -/
def keepFirst : List α → List α
  | [] => []
  | a :: as => a :: (keepFirst as).filter fun b => key b ≠ key a

variable {key}

theorem keepFirst_sublist (as : List α) : (keepFirst key as).Sublist as := by
  induction as with
  | nil => exact .slnil
  | cons a as ih => exact (List.filter_sublist.trans ih).cons_cons a

theorem nodup_keepFirst (as : List α) : ((keepFirst key as).map key).Nodup := by
  induction as with
  | nil => exact List.nodup_nil
  | cons a as ih =>
    rw [keepFirst, List.map_cons, List.nodup_cons]
    refine ⟨fun hmem => ?_, ih.sublist (List.filter_sublist.map _)⟩
    obtain ⟨b, hb, hkey⟩ := List.mem_map.mp hmem
    exact of_decide_eq_true (List.mem_filter.mp hb).2 hkey

variable (key) in
/-- Every key is kept. -/
theorem exists_keepFirst {as : List α} {a : α} (h : a ∈ as) :
    ∃ b ∈ keepFirst key as, key b = key a := by
  induction as with
  | nil => cases h
  | cons c as ih =>
    by_cases hkey : key c = key a
    · exact ⟨c, List.mem_cons_self, hkey⟩
    · rcases List.mem_cons.mp h with rfl | h
      · exact absurd rfl hkey
      · obtain ⟨b, hb, hba⟩ := ih h
        refine ⟨b, List.mem_cons_of_mem _ (List.mem_filter.mpr ⟨hb, decide_eq_true ?_⟩), hba⟩
        rw [hba]
        exact Ne.symm hkey

variable (key) in
/-- Leaving out some keys first. -/
theorem keepFirst_filter (p : κ → Bool) (as : List α) :
    keepFirst key (as.filter fun a => p (key a)) = (keepFirst key as).filter fun a => p (key a) := by
  induction as with
  | nil => rfl
  | cons a as ih =>
    rw [keepFirst, List.filter_cons, List.filter_cons]
    split_ifs with hp
    · rw [keepFirst, ih, List.filter_filter, List.filter_filter]
      simp only [Bool.and_comm]
    · rw [ih, List.filter_filter]
      refine List.filter_congr fun b _ => ?_
      by_cases hkey : key b = key a
      · simp [hkey, hp]
      · simp [hkey]

end KeepFirst

theorem quote_append_inj {s t rest rest' : JsString}
    (h : JsString.quote s ++ rest = JsString.quote t ++ rest') : s = t ∧ rest = rest' := by
  unfold JsString.quote at h
  simp only [List.cons_append, List.append_assoc, List.nil_append, List.cons.injEq,
    true_and] at h
  have hparse := congrArg JsString.parseUnits h
  rw [JsString.parseUnits_quoteUnits, JsString.parseUnits_quoteUnits] at hparse
  exact ⟨congrArg Prod.fst (Option.some.inj hparse), congrArg Prod.snd (Option.some.inj hparse)⟩

theorem moreStrings_append_inj {a b : List JsString} {rest rest' : JsString}
    (h : JsString.moreStrings a ++ rest = JsString.moreStrings b ++ rest') :
    a = b ∧ rest = rest' := by
  induction a generalizing b with
  | nil =>
    cases b with
    | nil => simpa [JsString.moreStrings] using h
    | cons t b => simp [JsString.moreStrings] at h
  | cons s a ih =>
    cases b with
    | nil => simp [JsString.moreStrings] at h
    | cons t b =>
      simp only [JsString.moreStrings, List.cons_append, List.append_assoc, List.cons.injEq,
        true_and] at h
      obtain ⟨rfl, hmore⟩ := quote_append_inj h
      obtain ⟨rfl, hrest⟩ := ih hmore
      exact ⟨rfl, hrest⟩

theorem stringifyStrings_append_inj {a b : List JsString} {rest rest' : JsString}
    (h : JsString.stringifyStrings a ++ rest = JsString.stringifyStrings b ++ rest') :
    a = b ∧ rest = rest' := by
  cases a with
  | nil =>
    cases b with
    | nil => simpa [JsString.stringifyStrings] using h
    | cons t b => simp [JsString.stringifyStrings, JsString.quote] at h
  | cons s a =>
    cases b with
    | nil => simp [JsString.stringifyStrings, JsString.quote] at h
    | cons t b =>
      simp only [JsString.stringifyStrings, List.cons_append, List.append_assoc, List.cons.injEq,
        true_and] at h
      obtain ⟨rfl, hmore⟩ := quote_append_inj h
      obtain ⟨rfl, hrest⟩ := moreStrings_append_inj hmore
      exact ⟨rfl, hrest⟩

/-- The identity of an item is its namespace with its key. -/
theorem itemIdentity_eq_iff (a b : SearchItem) :
    itemIdentity a = itemIdentity b ↔ a.segments = b.segments ∧ a.key = b.key := by
  constructor
  · intro h
    unfold itemIdentity at h
    obtain ⟨hsegments, hrest⟩ := stringifyStrings_append_inj (List.cons.inj h).2
    obtain ⟨hkey, -⟩ := quote_append_inj (List.cons.inj hrest).2
    exact ⟨hsegments, hkey⟩
  · rintro ⟨hsegments, hkey⟩
    unfold itemIdentity
    rw [hsegments, hkey]

namespace FromBaseStore
variable {σ : Type*} {source : BaseStoreLike σ} {options : FromBaseStoreOptions}
  {keep : SearchItem → Bool} {enough : Option (ℕ → Bool)}

/-- A page that is not short brings the scan bound nearer. -/
theorem drainNamespacesFrom_ends (offset : ℕ) (namespaces : List Namespace) (s : σ) {fuel : ℕ}
    (h : options.scanBound + 1 - namespaces.length < fuel) :
    (drainNamespacesFrom source options offset namespaces s fuel).isSome = true := by
  induction fuel generalizing offset namespaces s with
  | zero => omega
  | succ fuel ih =>
    unfold drainNamespacesFrom
    dsimp only
    split_ifs with hbound hshort
    · rfl
    · have hpage : 0 < sourcePageSize := by decide
      refine ih _ _ _ ?_
      rw [List.length_append]
      omega
    · rfl

variable (source options keep enough) in
theorem drainPrefix_ends (path : Namespace) (offset : ℕ) (drained : Drained) (scanned : ℕ) (s : σ)
    {fuel : ℕ} (h : options.scanBound + 1 - scanned < fuel) :
    (drainPrefix source options keep enough path offset drained scanned s fuel).isSome = true := by
  induction fuel generalizing offset drained scanned s with
  | zero => omega
  | succ fuel ih =>
    unfold drainPrefix
    by_cases hdone : isDone options enough drained scanned = true
    · rw [if_pos hdone]
      rfl
    · rw [if_neg hdone]
      dsimp only
      split_ifs with hshort
      · rfl
      · refine ih _ _ _ _ ?_
        have hbelow : ¬options.scanBound ≤ scanned := fun hle =>
          hdone (Bool.or_eq_true_iff.mpr (.inl (decide_eq_true hle)))
        have hpage : 0 < sourcePageSize := by decide
        omega

theorem drainSearch_ends (paths : List Namespace) (drained : Drained) (scanned : ℕ) (s : σ)
    {fuel : ℕ} (h : options.scanBound + 1 < fuel) :
    (drainSearch source options keep enough fuel paths drained scanned s).isSome = true := by
  induction paths generalizing drained scanned s with
  | nil => rfl
  | cons path paths ih =>
    unfold drainSearch
    split_ifs
    · rfl
    · have hfuel : options.scanBound + 1 - scanned < fuel := by omega
      have hprefix := drainPrefix_ends source options keep enough path 0 drained scanned s hfuel
      obtain ⟨found, hfound⟩ := Option.isSome_iff_exists.mp hprefix
      rw [hfound]
      exact ih _ _ _

variable (source enough) in
/-- A search ends, whatever its source answers. -/
theorem searchUntil_ends (query : StoreSearchQuery) (s : σ) {fuel : ℕ}
    (h : options.scanBound + 1 < fuel) :
    (searchUntil source options enough query s fuel).isSome = true := by
  have hprefixes : (sourcePrefixes source options query.prefixPath s fuel).isSome = true := by
    unfold sourcePrefixes
    split_ifs
    · rfl
    · refine drainNamespacesFrom_ends 0 [] s ?_
      rw [List.length_nil]
      omega
  obtain ⟨prefixes, hfound⟩ := Option.isSome_iff_exists.mp hprefixes
  unfold searchUntil
  rw [hfound, Option.bind_some, Option.isSome_map]
  exact drainSearch_ends _ _ _ _ h

variable (keep) in
theorem takeRow_of_seen {drained : Drained} {item : SearchItem}
    (h : itemIdentity item ∈ drained.seen) :
    (takeRow keep drained item).kept = drained.kept ∧
      (takeRow keep drained item).seen = drained.seen := by
  unfold takeRow
  dsimp only
  rw [if_pos h]
  exact ⟨rfl, rfl⟩

variable (keep) in
theorem takeRow_of_new {drained : Drained} {item : SearchItem}
    (h : itemIdentity item ∉ drained.seen) :
    (takeRow keep drained item).kept = drained.kept ++ [item].filter keep ∧
      (takeRow keep drained item).seen = drained.seen ++ [itemIdentity item] := by
  unfold takeRow
  dsimp only
  rw [if_neg h]
  split_ifs with hkeep
  · simp [hkeep]
  · simp [hkeep]

/-- What the rows keep, one after the other. -/
theorem foldl_takeRow (rows : List SearchItem) (drained : Drained) :
    (rows.foldl (takeRow keep) drained).kept = drained.kept ++
      (keepFirst itemIdentity (rows.filter fun item => itemIdentity item ∉ drained.seen)).filter
        keep := by
  induction rows generalizing drained with
  | nil => simp [keepFirst]
  | cons item rows ih =>
    rw [List.foldl_cons, ih]
    by_cases hseen : itemIdentity item ∈ drained.seen
    · obtain ⟨hkept, hsame⟩ := takeRow_of_seen keep hseen
      rw [hkept, hsame, List.filter_cons_of_neg (by simpa using hseen)]
    · obtain ⟨hkept, hmore⟩ := takeRow_of_new keep hseen
      have hrest : (rows.filter fun other =>
          itemIdentity other ∉ drained.seen ++ [itemIdentity item]) =
            (rows.filter fun other => itemIdentity other ∉ drained.seen).filter fun other =>
              itemIdentity other ≠ itemIdentity item := by
        rw [List.filter_filter]
        refine List.filter_congr fun other _ => ?_
        simp [and_comm, not_or]
      have hfirst := keepFirst_filter itemIdentity
        (fun identity => decide (identity ≠ itemIdentity item))
        (rows.filter fun other => itemIdentity other ∉ drained.seen)
      have hhead : ((item :: rows).filter fun other => itemIdentity other ∉ drained.seen) =
          item :: rows.filter fun other => itemIdentity other ∉ drained.seen :=
        List.filter_cons_of_pos (by simpa using hseen)
      rw [hkept, hmore, hrest, hfirst, hhead, keepFirst, List.append_assoc, ← List.filter_append]
      rfl

theorem foldl_takeRow_scored (rows : List SearchItem) (drained : Drained)
    (hscores : ∀ item ∈ rows, item.score = none) :
    (rows.foldl (takeRow keep) drained).sourceScored = drained.sourceScored := by
  induction rows generalizing drained with
  | nil => rfl
  | cons item rows ih =>
    rw [List.foldl_cons, ih _ fun other hother => hscores other (List.mem_cons_of_mem _ hother)]
    unfold takeRow
    rw [hscores item List.mem_cons_self]
    dsimp only
    split_ifs <;> simp

end FromBaseStore

/-- A source with a list for every prefix, in which every item under it stands. -/
structure StableSource where
  stored : List SearchItem
  rows : Namespace → List SearchItem
  namespaces : List Namespace
  /-- An item is stored under its namespace and key. -/
  keyed : ∀ a ∈ stored, ∀ b ∈ stored, a.segments = b.segments → a.key = b.key → a = b
  rows_stored : ∀ path, ∀ item ∈ rows path, item ∈ stored
  complete : ∀ path, ∀ item ∈ stored, path <+: item.segments → item ∈ rows path
  scoreFree : ∀ path, ∀ item ∈ rows path, item.score = none
  namespaces_nodup : namespaces.Nodup
  mem_namespaces : ∀ path, path ∈ namespaces ↔ ∃ item ∈ stored, item.segments = path

namespace StableSource
variable (src : StableSource)

/-- It answers with pages of its lists. -/
def toBaseStore : BaseStoreLike Unit where
  search path limit offset s := (((src.rows path).drop offset).take limit, s)
  listNamespaces limit offset s := ((src.namespaces.drop offset).take limit, s)

/-- The prefixes that a search has to drain. -/
def prefixes (path : Option Namespace) : List Namespace :=
  if 0 < (pushablePrefix path).length then [pushablePrefix path] else src.namespaces

/-- The rows under the prefixes of a search, in the order of the source. -/
def candidates (path : Option Namespace) : List SearchItem := (src.prefixes path).flatMap src.rows

/-- The items that match, each once. -/
def matching (query : StoreSearchQuery) : List SearchItem :=
  (keepFirst itemIdentity (src.candidates query.prefixPath)).filter
    (FromBaseStore.matchesQuery query)

open FromBaseStore
variable {options : FromBaseStoreOptions} {keep : SearchItem → Bool}
  {enough : Option (ℕ → Bool)}

/-- The pages of a prefix are a beginning of its rows: all of them, or the drain is done. -/
theorem drainPrefix_reads {path : Namespace} {offset : ℕ} {drained drained' : Drained}
    {scanned scanned' fuel : ℕ} {s s' : Unit}
    (h : drainPrefix src.toBaseStore options keep enough path offset drained scanned s fuel =
      some (drained', scanned', s')) :
    ∃ m, drained' = (((src.rows path).drop offset).take m).foldl (takeRow keep) drained ∧
      scanned' = scanned + (((src.rows path).drop offset).take m).length ∧
        (((src.rows path).drop offset).length ≤ m ∨
          isDone options enough drained' scanned' = true) := by
  induction fuel generalizing offset drained scanned with
  | zero => cases h
  | succ fuel ih =>
    unfold drainPrefix at h
    by_cases hdone : isDone options enough drained scanned = true
    · rw [if_pos hdone] at h
      obtain ⟨rfl, rfl, -⟩ := Option.some.inj h
      exact ⟨0, rfl, rfl, .inr hdone⟩
    · rw [if_neg hdone] at h
      dsimp only [toBaseStore] at h
      split_ifs at h with hshort
      · obtain ⟨rfl, rfl, -⟩ := Option.some.inj h
        refine ⟨sourcePageSize, rfl, rfl, .inl ?_⟩
        rw [List.length_take] at hshort
        omega
      · obtain ⟨m, rfl, rfl, hend⟩ := ih h
        rw [← List.drop_drop] at hend ⊢
        refine ⟨sourcePageSize + m, ?_, ?_, ?_⟩
        · rw [List.take_add, List.foldl_append]
        · rw [List.take_add, List.length_append, Nat.add_assoc]
        · refine hend.imp_left fun hle => ?_
          rw [List.length_drop] at hle
          omega

theorem drainSearch_of_done {paths : List Namespace} {drained : Drained} {scanned fuel : ℕ}
    (h : isDone options enough drained scanned = true) (s : Unit) :
    drainSearch src.toBaseStore options keep enough fuel paths drained scanned s =
      some (drained, scanned, s) := by
  cases paths with
  | nil => rfl
  | cons path paths =>
    unfold drainSearch
    rw [if_pos h]

/-- What a drain reads is a beginning of the rows under its prefixes. -/
theorem drainSearch_reads {paths : List Namespace} {drained drained' : Drained}
    {scanned scanned' fuel : ℕ} {s s' : Unit}
    (h : drainSearch src.toBaseStore options keep enough fuel paths drained scanned s =
      some (drained', scanned', s')) :
    ∃ m, drained' = ((paths.flatMap src.rows).take m).foldl (takeRow keep) drained ∧
      scanned' = scanned + ((paths.flatMap src.rows).take m).length ∧
        ((paths.flatMap src.rows).length ≤ m ∨
          isDone options enough drained' scanned' = true) := by
  induction paths generalizing drained scanned s with
  | nil =>
    obtain ⟨rfl, rfl, -⟩ := Option.some.inj h
    exact ⟨0, rfl, rfl, .inl (Nat.zero_le _)⟩
  | cons path paths ih =>
    by_cases hdone : isDone options enough drained scanned = true
    · rw [src.drainSearch_of_done hdone] at h
      obtain ⟨rfl, rfl, -⟩ := Option.some.inj h
      exact ⟨0, rfl, rfl, .inr hdone⟩
    · unfold drainSearch at h
      rw [if_neg hdone] at h
      obtain ⟨⟨drained₁, scanned₁, s₁⟩, hprefix, hrest⟩ := Option.bind_eq_some_iff.mp h
      obtain ⟨m₁, rfl, rfl, hend₁⟩ := src.drainPrefix_reads hprefix
      rw [List.drop_zero] at hrest hend₁
      rw [List.flatMap_cons]
      by_cases hall : (src.rows path).length ≤ m₁
      · rw [List.take_of_length_le hall] at hrest
        obtain ⟨m₂, rfl, rfl, hend₂⟩ := ih hrest
        refine ⟨(src.rows path).length + m₂, ?_, ?_, ?_⟩
        · rw [List.take_length_add_append, List.foldl_append]
        · rw [List.take_length_add_append, List.length_append, Nat.add_assoc]
        · refine hend₂.imp_left fun hle => ?_
          rw [List.length_append]
          omega
      · have hdone₁ := hend₁.resolve_left hall
        rw [src.drainSearch_of_done hdone₁] at hrest
        obtain ⟨rfl, rfl, -⟩ := Option.some.inj hrest
        refine ⟨m₁, ?_, ?_, .inr hdone₁⟩
        · rw [List.take_append_of_le_length (by omega)]
        · rw [List.take_append_of_le_length (by omega)]

/-- Within the scan bound every namespace is listed. -/
theorem drainNamespacesFrom_reads {offset fuel : ℕ} {s s' : Unit} {namespaces : List Namespace}
    (hbound : src.namespaces.length ≤ options.scanBound)
    (h : drainNamespacesFrom src.toBaseStore options offset (src.namespaces.take offset) s fuel =
      some (namespaces, s')) : namespaces = src.namespaces := by
  induction fuel generalizing offset s with
  | zero => cases h
  | succ fuel ih =>
    unfold drainNamespacesFrom at h
    dsimp only [toBaseStore] at h
    rw [← List.take_add] at h
    split_ifs at h with hmore hshort
    · obtain ⟨rfl, -⟩ := Option.some.inj h
      rw [List.length_take, List.length_drop] at hshort
      exact List.take_of_length_le (by omega)
    · exact ih h
    · obtain ⟨rfl, -⟩ := Option.some.inj h
      rw [List.length_take] at hmore
      exact List.take_of_length_le (by omega)

theorem length_le_length_flatMap {α β : Type*} {f : α → List β} {as : List α}
    (h : ∀ a ∈ as, f a ≠ []) : as.length ≤ (as.flatMap f).length := by
  induction as with
  | nil => exact Nat.zero_le _
  | cons a as ih =>
    have hrest := ih fun b hb => h b (List.mem_cons_of_mem a hb)
    have hpos := List.length_pos_iff.mpr (h a List.mem_cons_self)
    rw [List.flatMap_cons, List.length_append, List.length_cons]
    omega

theorem rows_ne_nil {path : Namespace} (h : path ∈ src.namespaces) : src.rows path ≠ [] := by
  obtain ⟨item, hitem, rfl⟩ := (src.mem_namespaces path).mp h
  exact List.ne_nil_of_mem (src.complete _ item hitem (List.prefix_refl _))

theorem candidates_stored {path : Option Namespace} {item : SearchItem}
    (h : item ∈ src.candidates path) : item ∈ src.stored := by
  obtain ⟨prefixPath, -, hrow⟩ := List.mem_flatMap.mp h
  exact src.rows_stored prefixPath item hrow

/-- The literal head of a path that matches is a prefix of the namespace. -/
theorem pushable_isPrefix {path segments : Namespace}
    (h : matchesNamespacePrefix segments path = true) :
    path.takeWhile (· ≠ namespaceWildcard) <+: segments := by
  induction path generalizing segments with
  | nil => exact List.nil_prefix
  | cons segment path ih =>
    rw [List.takeWhile_cons]
    split_ifs with hliteral
    · cases segments with
      | nil => simp [matchesNamespacePrefix] at h
      | cons first segments =>
        have hlit : segment ≠ namespaceWildcard := of_decide_eq_true hliteral
        simp only [matchesNamespacePrefix, matchesSegments, List.length_cons, List.zip_cons_cons,
          List.all_cons, Bool.and_eq_true, decide_eq_true_eq, Bool.or_eq_true] at h
        obtain ⟨hlength, hfirst, hrest⟩ := h
        obtain rfl := hfirst.resolve_left hlit
        refine (List.prefix_cons_inj _).mpr (ih ?_)
        simp only [matchesNamespacePrefix, matchesSegments, Bool.and_eq_true, decide_eq_true_eq]
        exact ⟨by omega, hrest⟩
    · exact List.nil_prefix

theorem mem_candidates {query : StoreSearchQuery} {item : SearchItem} (hitem : item ∈ src.stored)
    (hmatches : matchesQuery query item = true) : item ∈ src.candidates query.prefixPath := by
  unfold candidates prefixes
  rw [List.mem_flatMap]
  split_ifs with hpush
  · refine ⟨_, List.mem_singleton_self _, src.complete _ item hitem ?_⟩
    unfold pushablePrefix at hpush ⊢
    unfold matchesQuery at hmatches
    cases hpath : query.prefixPath with
    | none =>
      rw [hpath] at hpush
      exact absurd hpush (lt_irrefl 0)
    | some path =>
      rw [hpath] at hmatches hpush
      have hprefix := (Bool.and_eq_true_iff.mp hmatches).1
      rw [Option.all_some, Bool.or_eq_true] at hprefix
      rcases hprefix with hempty | hprefix
      · rw [List.isEmpty_iff.mp hempty] at hpush
        exact absurd hpush (lt_irrefl 0)
      · exact pushable_isPrefix hprefix
  · exact ⟨item.segments, (src.mem_namespaces _).mpr ⟨item, hitem, rfl⟩,
      src.complete _ item hitem (List.prefix_refl _)⟩

/-- The matching items, none left out and none added. -/
theorem mem_matching {query : StoreSearchQuery} {item : SearchItem} :
    item ∈ src.matching query ↔ item ∈ src.stored ∧ matchesQuery query item = true := by
  unfold matching
  rw [List.mem_filter]
  constructor
  · rintro ⟨hmem, hmatches⟩
    exact ⟨src.candidates_stored ((keepFirst_sublist _).subset hmem), hmatches⟩
  · rintro ⟨hitem, hmatches⟩
    obtain ⟨other, hother, hidentity⟩ :=
      exists_keepFirst itemIdentity (src.mem_candidates hitem hmatches)
    obtain ⟨hsegments, hkey⟩ := (itemIdentity_eq_iff other item).mp hidentity
    have hstored := src.candidates_stored ((keepFirst_sublist _).subset hother)
    rw [src.keyed other hstored item hitem hsegments hkey] at hother
    exact ⟨hother, hmatches⟩

theorem nodup_matching (query : StoreSearchQuery) : (src.matching query).Nodup :=
  (List.Nodup.of_map _ (nodup_keepFirst _)).filter _

/-- A drain that read a beginning of the rows has the page, where it ends late enough. -/
theorem page_of_reads {rows : List SearchItem} {offset limit m : ℕ}
    (h : rows.length ≤ m ∨
      offset + limit ≤ ((rows.take m).foldl (takeRow keep) {}).kept.length) :
    (((rows.take m).foldl (takeRow keep) {}).kept.drop offset).take limit =
      (((keepFirst itemIdentity rows).filter keep).drop offset).take limit := by
  have hall : ∀ rows' : List SearchItem, (rows'.foldl (takeRow keep) {}).kept =
      (keepFirst itemIdentity rows').filter keep := by
    intro rows'
    rw [foldl_takeRow]
    simp
  rcases h with hlong | hfull
  · rw [List.take_of_length_le hlong, hall]
  · have hmore : (keepFirst itemIdentity rows).filter keep =
        ((rows.take m).foldl (takeRow keep) {}).kept ++
          (keepFirst itemIdentity ((rows.drop m).filter fun item =>
            itemIdentity item ∉ ((rows.take m).foldl (takeRow keep) {}).seen)).filter keep := by
      rw [← foldl_takeRow, ← List.foldl_append, List.take_append_drop, hall]
    rw [hmore, List.drop_append_of_le_length (by omega),
      List.take_append_of_le_length (by rw [List.length_drop]; omega)]

/-- Whatever predicate ends the drain early, if it does so no earlier than the page is full. -/
theorem searchUntil_page {query : StoreSearchQuery}
    (hbound : (src.candidates query.prefixPath).length ≤ options.scanBound)
    (henough : ∀ early ∈ enough, ∀ count, early count = true →
      query.offset.getD 0 + options.pageLimit query.limit ≤ count) {fuel : ℕ}
    (hfuel : options.scanBound + 1 < fuel) :
    searchUntil src.toBaseStore options enough query () fuel =
      some (((src.matching query).drop (query.offset.getD 0)).take
        (options.pageLimit query.limit), ()) := by
  have hends := searchUntil_ends src.toBaseStore enough query () hfuel
  obtain ⟨⟨page, s'⟩, hpage⟩ := Option.isSome_iff_exists.mp hends
  rw [hpage]
  unfold searchUntil at hpage
  obtain ⟨⟨paths, s⟩, hpaths, hrest⟩ := Option.bind_eq_some_iff.mp hpage
  obtain ⟨⟨drained, scanned, s''⟩, hdrained, hresult⟩ := Option.map_eq_some_iff.mp hrest
  have hprefixes : paths = src.prefixes query.prefixPath := by
    unfold sourcePrefixes at hpaths
    unfold prefixes
    split_ifs at hpaths ⊢ with hpush
    · exact (congrArg Prod.fst (Option.some.inj hpaths)).symm
    · refine src.drainNamespacesFrom_reads ?_ hpaths
      refine le_trans ?_ hbound
      unfold candidates prefixes
      rw [if_neg hpush]
      exact length_le_length_flatMap fun path hpath => src.rows_ne_nil hpath
  subst hprefixes
  obtain ⟨m, rfl, rfl, hend⟩ := src.drainSearch_reads hdrained
  have hscored : ((((src.prefixes query.prefixPath).flatMap src.rows).take m).foldl
      (takeRow (matchesQuery query)) {}).sourceScored = false := by
    refine foldl_takeRow_scored _ _ fun item hitem => ?_
    obtain ⟨path, -, hrow⟩ := List.mem_flatMap.mp (List.mem_of_mem_take hitem)
    exact src.scoreFree path item hrow
  obtain ⟨rfl, rfl⟩ := Prod.mk.inj hresult
  unfold ranked
  rw [hscored, if_neg Bool.false_ne_true]
  refine congrArg some (Prod.ext (page_of_reads ?_) rfl)
  rcases hend with hall | hdone
  · exact .inl hall
  unfold isDone at hdone
  rcases Bool.or_eq_true_iff.mp hdone with hscanned | hfull
  · have hlength := of_decide_eq_true hscanned
    rw [Nat.zero_add, List.length_take] at hlength
    dsimp only at hlength
    unfold candidates at hbound
    refine .inl (show ((src.prefixes query.prefixPath).flatMap src.rows).length ≤ m from ?_)
    omega
  · cases enough with
    | none => cases hfull
    | some early => exact .inr (henough early rfl _ hfull)

end StableSource

open FromBaseStore in
/-- A search of a store behind the adapter: the page of the matching items, whether the drain may
end early or not, where the rows under the prefixes are within the scan bound; and every search
ends, whatever its source answers. -/
theorem adaptedSearch_pagesMatching (src : StableSource) (options : FromBaseStoreOptions)
    (query : StoreSearchQuery)
    (hbound : (src.candidates query.prefixPath).length ≤ options.scanBound) :
    (∃ enough, ∀ fuel, enough ≤ fuel →
      search src.toBaseStore options query () fuel =
          some (((src.matching query).drop (query.offset.getD 0)).take
            (options.pageLimit query.limit), ()) ∧
        searchUntil src.toBaseStore options none query () fuel =
          search src.toBaseStore options query () fuel) ∧
      (src.matching query).Sublist (src.candidates query.prefixPath) ∧
        (src.matching query).Nodup ∧
          (∀ item, item ∈ src.matching query ↔
            item ∈ src.stored ∧ matchesQuery query item = true) ∧
            ∀ (σ : Type) (source : BaseStoreLike σ) (s : σ), ∃ enough, ∀ fuel, enough ≤ fuel →
              (search source options query s fuel).isSome = true := by
  refine ⟨⟨options.scanBound + 2, fun fuel hfuel => ?_⟩,
    List.filter_sublist.trans (keepFirst_sublist _), src.nodup_matching query,
    fun item => src.mem_matching, fun σ source s => ⟨options.scanBound + 2, fun fuel hfuel =>
      searchUntil_ends source _ query s (by omega)⟩⟩
  have hsearch : search src.toBaseStore options query () fuel =
      some (((src.matching query).drop (query.offset.getD 0)).take
        (options.pageLimit query.limit), ()) := by
    refine src.searchUntil_page hbound ?_ (by omega)
    rintro early hearly count hcount
    rw [← Option.some.inj hearly] at hcount
    exact of_decide_eq_true hcount
  refine ⟨hsearch, ?_⟩
  rw [hsearch]
  refine src.searchUntil_page hbound ?_ (by omega)
  rintro early ⟨⟩

namespace AdaptedSearch

/-- An item under the user `"1"`. -/
def one : SearchItem :=
  { segments := [.ofText "users", .ofText "1"], key := .ofText "a", value := [], createdAt := 0,
    updatedAt := 0 }

/-- The sibling `"10"`, whose name begins as that of the user `"1"`. -/
def ten : SearchItem :=
  { segments := [.ofText "users", .ofText "10"], key := .ofText "a", value := [], createdAt := 0,
    updatedAt := 0 }

/-- A source that lists both under every prefix. -/
def src : StableSource where
  stored := [one, ten]
  rows _ := [one, ten]
  namespaces := [one.segments, ten.segments]
  keyed := by
    intro a ha b hb hsegments _
    simp only [List.mem_cons, List.not_mem_nil, or_false] at ha hb
    rcases ha with rfl | rfl <;> rcases hb with rfl | rfl
    · rfl
    · exact absurd hsegments (by decide)
    · exact absurd hsegments (by decide)
    · rfl
  rows_stored _ _ hitem := hitem
  complete _ _ hitem _ := hitem
  scoreFree _ item hitem := by
    simp only [List.mem_cons, List.not_mem_nil, or_false] at hitem
    rcases hitem with rfl | rfl <;> rfl
  namespaces_nodup := by decide
  mem_namespaces path := by simp [eq_comm]

/-- The sibling is not found under the user, and the user is found once in a search of all. -/
theorem sibling_notFound : ∃ enough, ∀ fuel, enough ≤ fuel →
    FromBaseStore.search src.toBaseStore {} { prefixPath := some one.segments } () fuel =
      some ([one], ()) := by
  obtain ⟨⟨enough, hfuel⟩, -⟩ :=
    adaptedSearch_pagesMatching src {} { prefixPath := some one.segments } (by decide)
  exact ⟨enough, fun fuel hle => (hfuel fuel hle).1⟩

end AdaptedSearch
end Skein
