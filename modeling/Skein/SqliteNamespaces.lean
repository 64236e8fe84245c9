import Mathlib.Data.Char
import Mathlib.Data.List.Dedup
import Mathlib.Data.List.Perm.Basic
import Skein.NamespaceMatch
import Skein.TerminatedKeys

/-!
# The namespaces of the SQLite and memory drivers

SQLite sorts namespaces by a text in which every code unit is four digits and every segment
ends with `!`; the memory driver sorts them with `compareNamespaces`. The text embeds that
order, so both drivers list the same pages.
-/
namespace Skein

/-- A row of the long-term store. -/
structure StoreItem (J : Type*) where
  segments : Namespace
  key : JsString
  value : J
  expiresAt : Option ℕ := none
  deriving DecidableEq, Repr

/-- Not expired at `now`. -/
def StoreItem.isLive {J : Type*} (item : StoreItem J) (now : ℕ) : Bool :=
  item.expiresAt.all (now < ·)

/-- `store.listNamespaces` over the items of the map, in their order. -/
def memoryListNamespaces {J : Type*} (items : List (StoreItem J)) (now maxPageSize : ℕ)
    (query : StoreNamespaceQuery) : List Namespace :=
  let matched := (items.filter fun item =>
    item.isLive now && matchesNamespaceQuery item.segments query).map StoreItem.segments
  let distinct := distinctNamespaces matched
  -- Truncated before sorting and paging, so a depth of one pages roots.
  let namespaces := query.maxDepth.elim distinct (truncateNamespaceDepth distinct)
  let sorted := namespaces.mergeSort fun a b => compareNamespaces a b ≤ 0
  (sorted.drop (query.offset.getD 0)).take (min (query.limit.getD maxPageSize) maxPageSize)

/-- `charCodeAt(0).toString(16).padStart(4, "0")`. -/
def hexDigits (u : CodeUnit) : List Char := (Nat.toDigits 16 u.val).leftpad 4 '0'

/-- The text `skein_namespace_order` returns; it is ASCII, so its bytes are its characters. -/
def namespaceOrderKey (segments : Namespace) : List Char := terminatedKey hexDigits '!' segments

/-- `skein_namespace_order(text)`. -/
def skeinNamespaceOrder (text : JsString) : Option (List Char) :=
  (JsString.parseStrings text).map namespaceOrderKey

/-- `skein_namespace(body, query)`; `none` is NULL. -/
def skeinNamespace {J : Type*} (query : StoreNamespaceQuery) (row : StoreItem J) :
    Option JsString :=
  if matchesNamespaceQuery row.segments query then
    some (JsString.stringifyStrings (query.maxDepth.elim row.segments fun maxDepth =>
      sliceDepth maxDepth row.segments))
  else none

/-- `store.listNamespaces` over the rows of the table; `none` where the statement fails. -/
def sqliteListNamespaces {J : Type*} (rows : List (StoreItem J)) (now maxPageSize : ℕ)
    (query : StoreNamespaceQuery) : Option (List Namespace) := do
  let distinct := ((rows.filter (·.isLive now)).filterMap (skeinNamespace query)).dedup
  let keyed ← distinct.mapM fun text => (skeinNamespaceOrder text).map fun key => (key, text)
  let sorted := keyed.mergeSort fun a b => a.1 ≤ b.1
  let page := (sorted.drop (query.offset.getD 0)).take
    (min (query.limit.getD maxPageSize) maxPageSize)
  page.mapM fun row => JsString.parseStrings row.2

theorem toDigits_sixteen {n : ℕ} (h : 16 ≤ n) :
    Nat.toDigits 16 n = Nat.toDigits 16 (n / 16) ++ [Nat.digitChar (n % 16)] :=
  Nat.toDigits_of_base_le (by decide) h

theorem toDigits_lt_sixteen {n : ℕ} (h : n < 16) : Nat.toDigits 16 n = [Nat.digitChar n] :=
  Nat.toDigits_of_lt_base h

theorem hexDigits_eq (u : CodeUnit) :
    hexDigits u = [Nat.digitChar (u.val / 4096), Nat.digitChar (u.val / 256 % 16),
      Nat.digitChar (u.val / 16 % 16), Nat.digitChar (u.val % 16)] := by
  have hu := u.isLt
  have hzero : Nat.digitChar 0 = '0' := rfl
  unfold hexDigits List.leftpad
  by_cases h₁ : u.val < 16
  · have hhigh : u.val / 4096 = 0 ∧ u.val / 256 % 16 = 0 ∧ u.val / 16 % 16 = 0 ∧
        u.val % 16 = u.val := by omega
    rw [toDigits_lt_sixteen h₁, hhigh.1, hhigh.2.1, hhigh.2.2.1, hhigh.2.2.2, hzero]
    rfl
  rw [toDigits_sixteen (by omega)]
  by_cases h₂ : u.val / 16 < 16
  · have hhigh : u.val / 4096 = 0 ∧ u.val / 256 % 16 = 0 ∧ u.val / 16 % 16 = u.val / 16 := by
      omega
    rw [toDigits_lt_sixteen h₂, hhigh.1, hhigh.2.1, hhigh.2.2, hzero]
    rfl
  rw [toDigits_sixteen (by omega)]
  by_cases h₃ : u.val / 16 / 16 < 16
  · have hhigh : u.val / 4096 = 0 ∧ u.val / 256 % 16 = u.val / 16 / 16 := by omega
    rw [toDigits_lt_sixteen h₃, hhigh.1, hhigh.2, hzero]
    rfl
  rw [toDigits_sixteen (by omega), toDigits_lt_sixteen (by omega)]
  have hdigits : u.val / 16 / 16 / 16 = u.val / 4096 ∧
      u.val / 16 / 16 % 16 = u.val / 256 % 16 := by omega
  rw [hdigits.1, hdigits.2]
  rfl

theorem digitChar_lt : ∀ b, b < 16 → ∀ a, a < b → Nat.digitChar a < Nat.digitChar b := by decide

theorem bang_lt_digitChar : ∀ a, a < 16 → '!' < Nat.digitChar a := by decide

/-- Hexadecimal digits of a fixed number sort as the number does, and above `!`. -/
theorem orderedCode_hexDigits : OrderedCode hexDigits '!' where
  code_lt := by
    intro a b hab x y
    have ha := a.isLt
    have hb := b.isLt
    have hlt : a.val < b.val := hab
    rw [hexDigits_eq, hexDigits_eq]
    simp only [List.cons_append, List.nil_append, List.cons_lt_cons_iff]
    by_cases h₁ : a.val / 4096 < b.val / 4096
    · exact .inl (digitChar_lt _ (by omega) _ h₁)
    have e₁ : a.val / 4096 = b.val / 4096 := by omega
    rw [e₁]
    refine .inr ⟨rfl, ?_⟩
    by_cases h₂ : a.val / 256 % 16 < b.val / 256 % 16
    · exact .inl (digitChar_lt _ (by omega) _ h₂)
    have e₂ : a.val / 256 % 16 = b.val / 256 % 16 := by omega
    rw [e₂]
    refine .inr ⟨rfl, ?_⟩
    by_cases h₃ : a.val / 16 % 16 < b.val / 16 % 16
    · exact .inl (digitChar_lt _ (by omega) _ h₃)
    have e₃ : a.val / 16 % 16 = b.val / 16 % 16 := by omega
    rw [e₃]
    exact .inr ⟨rfl, .inl (digitChar_lt _ (by omega) _ (by omega))⟩
  stop_lt := by
    intro a x y
    have ha := a.isLt
    rw [hexDigits_eq]
    exact List.cons_lt_cons_iff.mpr (.inl (bang_lt_digitChar _ (by omega)))

theorem namespaceOrderKey_lt_iff (a b : Namespace) :
    namespaceOrderKey a < namespaceOrderKey b ↔ a < b := orderedCode_hexDigits.terminatedKey_lt_iff

theorem namespaceOrderKey_inj (a b : Namespace) :
    namespaceOrderKey a = namespaceOrderKey b ↔ a = b := orderedCode_hexDigits.terminatedKey_inj

theorem namespaceOrderKey_le_iff (a b : Namespace) :
    namespaceOrderKey a ≤ namespaceOrderKey b ↔ a ≤ b :=
  orderedCode_hexDigits.terminatedKey_strictMono.le_iff_le

/-- Both drivers sort what they list in the order of namespaces. -/
def sortNamespaces (namespaces : List Namespace) : List Namespace :=
  namespaces.mergeSort fun a b => a ≤ b

theorem sortNamespaces_congr {a b : List Namespace} (ha : a.Nodup) (hb : b.Nodup)
    (h : ∀ segments, segments ∈ a ↔ segments ∈ b) : sortNamespaces a = sortNamespaces b := by
  have hsorted : ∀ l : List Namespace,
      (sortNamespaces l).Pairwise fun x y => (decide (x ≤ y) : Bool) = true := by
    refine List.pairwise_mergeSort ?_ ?_
    · intro x y z hxy hyz
      simp only [decide_eq_true_eq] at *
      exact hxy.trans hyz
    · intro x y
      simp [le_total x y]
  refine List.Perm.eq_of_pairwise ?_ (hsorted a) (hsorted b) ?_
  · intro x y _ _ hxy hyx
    simp only [decide_eq_true_eq] at *
    exact le_antisymm hxy hyx
  · exact ((List.mergeSort_perm a _).trans ((List.perm_ext_iff_of_nodup ha hb).mpr h)).trans
      (List.mergeSort_perm b _).symm

/-- The namespaces a query is about, truncated. -/
def listedNamespaces {J : Type*} (items : List (StoreItem J)) (now : ℕ)
    (query : StoreNamespaceQuery) : List Namespace :=
  (items.filter fun item => item.isLive now && matchesNamespaceQuery item.segments query).map
    fun item => query.maxDepth.elim item.segments fun maxDepth => sliceDepth maxDepth item.segments

theorem memoryListNamespaces_eq {J : Type*} (items : List (StoreItem J)) (now maxPageSize : ℕ)
    (query : StoreNamespaceQuery) :
    memoryListNamespaces items now maxPageSize query =
      ((sortNamespaces (listedNamespaces items now query).dedup).drop
        (query.offset.getD 0)).take (min (query.limit.getD maxPageSize) maxPageSize) := by
  have hsort : ∀ l : List Namespace,
      (l.mergeSort fun a b => decide (compareNamespaces a b ≤ 0)) = sortNamespaces l := by
    intro l
    simp only [compareNamespaces_nonpos_iff]
    rfl
  unfold memoryListNamespaces
  simp only [hsort]
  have hperm : sortNamespaces (query.maxDepth.elim
      (distinctNamespaces ((items.filter fun item =>
        item.isLive now && matchesNamespaceQuery item.segments query).map StoreItem.segments))
      (truncateNamespaceDepth (distinctNamespaces ((items.filter fun item =>
        item.isLive now && matchesNamespaceQuery item.segments query).map StoreItem.segments)))) =
      sortNamespaces (listedNamespaces items now query).dedup := by
    refine sortNamespaces_congr ?_ (List.nodup_dedup _) ?_
    · cases query.maxDepth <;> exact nodup_distinctNamespaces _
    · intro segments
      rw [List.mem_dedup]
      cases hdepth : query.maxDepth <;>
        simp [mem_distinctNamespaces, truncateNamespaceDepth, listedNamespaces, hdepth]
  rw [hperm]

theorem mapM_map_some {α β γ : Type*} {f : α → β} {g : β → Option γ} {h : α → γ}
    (hg : ∀ a, g (f a) = some (h a)) (l : List α) : (l.map f).mapM g = some (l.map h) := by
  induction l with
  | nil => rfl
  | cons a l ih => simp [hg, ih]

theorem sqliteListNamespaces_eq {J : Type*} (rows : List (StoreItem J)) (now maxPageSize : ℕ)
    (query : StoreNamespaceQuery) :
    sqliteListNamespaces rows now maxPageSize query =
      some (((sortNamespaces (listedNamespaces rows now query).dedup).drop
        (query.offset.getD 0)).take (min (query.limit.getD maxPageSize) maxPageSize)) := by
  have htexts : (rows.filter (·.isLive now)).filterMap (skeinNamespace query) =
      (listedNamespaces rows now query).map JsString.stringifyStrings := by
    induction rows with
    | nil => rfl
    | cons row rows ih =>
      simp only [listedNamespaces] at ih ⊢
      cases hlive : row.isLive now with
      | false => simp [hlive, ih]
      | true =>
        cases hmatches : matchesNamespaceQuery row.segments query with
        | false => simp [hlive, hmatches, skeinNamespace, ih]
        | true => simp [hlive, hmatches, skeinNamespace, ih]
  have hkeyed : ∀ l : List Namespace, ((l.map JsString.stringifyStrings).mapM fun text =>
      (skeinNamespaceOrder text).map fun key => (key, text)) =
        some (l.map fun segments =>
          (namespaceOrderKey segments, JsString.stringifyStrings segments)) :=
    mapM_map_some fun segments => by
      simp [skeinNamespaceOrder, JsString.parseStrings_stringifyStrings]
  have hsorted : ∀ l : List Namespace, ((l.map fun segments =>
      (namespaceOrderKey segments, JsString.stringifyStrings segments)).mergeSort fun a b =>
        decide (a.1 ≤ b.1)) = (sortNamespaces l).map fun segments =>
          (namespaceOrderKey segments, JsString.stringifyStrings segments) := by
    intro l
    refine (List.map_mergeSort fun a _ b _ => ?_).symm
    simp only [namespaceOrderKey_le_iff]
  unfold sqliteListNamespaces
  rw [htexts, List.dedup_map_of_injective stringifyStrings_injective]
  dsimp only
  rw [hkeyed]
  simp only [Option.bind_eq_bind, Option.bind_some, hsorted, ← List.map_drop, ← List.map_take]
  refine (mapM_map_some (h := id) (fun segments => ?_) _).trans (by rw [List.map_id])
  exact JsString.parseStrings_stringifyStrings segments

/-- SQLite orders namespaces like the reference, and lists the same pages. -/
theorem sqlite_namespaces_agree {J : Type*} :
    (∀ a b : Namespace, namespaceOrderKey a < namespaceOrderKey b ↔ compareNamespaces a b < 0) ∧
    (∀ a b : Namespace, namespaceOrderKey a = namespaceOrderKey b ↔ a = b) ∧
    ∀ (items rows : List (StoreItem J)) (now maxPageSize : ℕ) (query : StoreNamespaceQuery),
      (∀ item, item ∈ items.filter (·.isLive now) ↔ item ∈ rows.filter (·.isLive now)) →
      sqliteListNamespaces rows now maxPageSize query =
        some (memoryListNamespaces items now maxPageSize query) := by
  refine ⟨?_, namespaceOrderKey_inj, ?_⟩
  · intro a b
    rw [namespaceOrderKey_lt_iff, compareNamespaces_neg_iff]
  · intro items rows now maxPageSize query h
    have hlisted : sortNamespaces (listedNamespaces items now query).dedup =
        sortNamespaces (listedNamespaces rows now query).dedup := by
      refine sortNamespaces_congr (List.nodup_dedup _) (List.nodup_dedup _) ?_
      intro segments
      simp only [List.mem_filter] at h
      simp only [List.mem_dedup, listedNamespaces, List.mem_map, List.mem_filter,
        Bool.and_eq_true, ← and_assoc, h]
    rw [sqliteListNamespaces_eq, memoryListNamespaces_eq, hlisted]

/-- An item of an empty segment and one that goes on after it. -/
def emptySegment : StoreItem ℕ := { segments := [[]], key := [107], value := 0 }
def nestedSegment : StoreItem ℕ := { segments := [[], [97]], key := [107], value := 0 }

theorem segments_agree :
    sqliteListNamespaces [nestedSegment, emptySegment] 0 10 {} =
      some (memoryListNamespaces [emptySegment, nestedSegment] 0 10 {}) := by
  refine sqlite_namespaces_agree.2.2 _ _ _ _ _ ?_
  intro item
  simp [or_comm, emptySegment, nestedSegment]

end Skein
