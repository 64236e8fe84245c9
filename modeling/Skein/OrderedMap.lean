import Mathlib.Data.List.Nodup

/-!
# Insertion-ordered maps

A finite map that iterates in insertion order. Writing an existing key keeps its
position and writing a new key appends it, so the order is part of the value:
the association lists of Mathlib move a rewritten key to the front. Distinctness
of the keys is a field, so lookups and membership always agree.
-/
namespace Skein

structure OrderedMap (κ α : Type*) where
  entries : List (κ × α)
  nodup : (entries.map Prod.fst).Nodup
  deriving DecidableEq

namespace OrderedMap
variable {κ α : Type*}

instance [Repr κ] [Repr α] : Repr (OrderedMap κ α) := ⟨fun m => reprPrec m.entries⟩

def empty : OrderedMap κ α := ⟨[], List.nodup_nil⟩

instance : EmptyCollection (OrderedMap κ α) := ⟨empty⟩
instance : Inhabited (OrderedMap κ α) := ⟨empty⟩

def keys (m : OrderedMap κ α) : List κ := m.entries.map Prod.fst
def values (m : OrderedMap κ α) : List α := m.entries.map Prod.snd

/-- Keep the entries that satisfy `p`, in order. -/
def filter (m : OrderedMap κ α) (p : κ → α → Bool) : OrderedMap κ α :=
  ⟨m.entries.filter fun e => p e.1 e.2, m.nodup.sublist (List.filter_sublist.map _)⟩

/-- Change every value in place. -/
def mapValues {β : Type*} (m : OrderedMap κ α) (f : α → β) : OrderedMap κ β where
  entries := m.entries.map fun e => (e.1, f e.2)
  nodup := by simpa only [List.map_map, Function.comp_def] using m.nodup

/-- `Map.size`. -/
def size (m : OrderedMap κ α) : ℕ := m.entries.length

@[simp] theorem size_mapValues {β : Type*} (m : OrderedMap κ α) (f : α → β) :
    (m.mapValues f).size = m.size := List.length_map _

variable [DecidableEq κ]

def get? (m : OrderedMap κ α) (k : κ) : Option α := m.entries.lookup k

/-- `Map.has`. -/
def contains (m : OrderedMap κ α) (k : κ) : Bool := (m.get? k).isSome

def erase (m : OrderedMap κ α) (k : κ) : OrderedMap κ α := m.filter fun j _ => j ≠ k

/-- Overwrite in place, or append a new key. -/
def setEntry (k : κ) (v : α) : List (κ × α) → List (κ × α)
  | [] => [(k, v)]
  | (j, u) :: rest => if j = k then (j, v) :: rest else (j, u) :: setEntry k v rest

theorem setEntry_keys (k : κ) (v : α) (l : List (κ × α)) :
    (setEntry k v l).map Prod.fst =
      if k ∈ l.map Prod.fst then l.map Prod.fst else l.map Prod.fst ++ [k] := by
  induction l with
  | nil => simp [setEntry]
  | cons e rest ih =>
    rcases e with ⟨j, u⟩
    by_cases h : j = k
    · simp [setEntry, h]
    · simp only [setEntry, if_neg h, List.map_cons, ih, List.mem_cons, Ne.symm h, false_or]
      split_ifs <;> simp

theorem setEntry_of_notMem {k : κ} (v : α) :
    ∀ {l : List (κ × α)}, k ∉ l.map Prod.fst → setEntry k v l = l ++ [(k, v)]
  | [], _ => rfl
  | (j, u) :: rest, h => by
    rw [List.map_cons, List.mem_cons, not_or] at h
    rw [setEntry, if_neg (Ne.symm h.1), setEntry_of_notMem v h.2, List.cons_append]

/-- Under a key that is there, the one entry is replaced. -/
theorem setEntry_of_mem {k : κ} (v : α) {l : List (κ × α)} (hnodup : (l.map Prod.fst).Nodup)
    (h : k ∈ l.map Prod.fst) :
    setEntry k v l = l.map fun e => if e.1 = k then (k, v) else e := by
  induction l with
  | nil => cases h
  | cons e l ih =>
    rw [List.map_cons, List.nodup_cons] at hnodup
    by_cases hk : e.1 = k
    · have hrest : ∀ e' ∈ l, (if e'.1 = k then (k, v) else e') = e' := by
        intro e' he'
        refine if_neg fun heq => hnodup.1 ?_
        rw [hk, ← heq]
        exact List.mem_map_of_mem he'
      simp only [setEntry, hk, if_true, List.map_cons, List.map_congr_left hrest, List.map_id']
    · have hmem : k ∈ l.map Prod.fst := by
        rw [List.map_cons, List.mem_cons] at h
        exact h.resolve_left (Ne.symm hk)
      simp only [setEntry, hk, if_false, List.map_cons, ih hnodup.2 hmem]

/-- A key that is there is overwritten in place, whatever is appended. -/
theorem setEntry_comm {k j : κ} (hne : k ≠ j) (v u : α) :
    ∀ {l : List (κ × α)}, k ∈ l.map Prod.fst →
      setEntry k v (setEntry j u l) = setEntry j u (setEntry k v l)
  | [], h => by simp at h
  | (i, w) :: rest, h => by
    by_cases hk : i = k
    · subst hk
      simp [setEntry, hne]
    · by_cases hj : i = j
      · subst hj
        simp [setEntry, hk]
      · have hrest : k ∈ rest.map Prod.fst := by
          rcases List.mem_cons.mp h with heq | hmem
          · exact absurd heq.symm hk
          · exact hmem
        simp [setEntry, hk, hj, setEntry_comm hne v u hrest]

def set (m : OrderedMap κ α) (k : κ) (v : α) : OrderedMap κ α where
  entries := setEntry k v m.entries
  nodup := by
    rw [setEntry_keys]
    split_ifs with h
    · exact m.nodup
    · exact List.nodup_append.mpr ⟨m.nodup, List.nodup_singleton k, by
        rintro a ha b hb rfl
        exact h (List.mem_singleton.mp hb ▸ ha)⟩

theorem lookup_cons_ite (k j : κ) (u : α) (l : List (κ × α)) :
    ((j, u) :: l).lookup k = if k = j then some u else l.lookup k := by
  by_cases h : k = j
  · simp [h]
  · simp [List.lookup_cons, beq_eq_false_iff_ne.mpr h, h]

theorem lookup_setEntry (k j : κ) (v : α) (l : List (κ × α)) :
    (setEntry k v l).lookup j = if k = j then some v else l.lookup j := by
  induction l with
  | nil => simp only [setEntry, lookup_cons_ite, eq_comm]
  | cons e rest ih =>
    rcases e with ⟨i, u⟩
    by_cases hik : i = k
    · subst hik
      simp only [setEntry, if_pos, lookup_cons_ite, eq_comm]
      split_ifs <;> rfl
    · simp only [setEntry, if_neg hik, lookup_cons_ite, ih]
      by_cases hij : j = i
      · subst hij
        simp [Ne.symm hik]
      · simp [hij]

@[simp] theorem get?_empty (k : κ) : (∅ : OrderedMap κ α).get? k = none := rfl

theorem get?_set (m : OrderedMap κ α) (k j : κ) (v : α) :
    (m.set k v).get? j = if k = j then some v else m.get? j :=
  lookup_setEntry k j v m.entries

@[simp] theorem get?_set_self (m : OrderedMap κ α) (k : κ) (v : α) :
    (m.set k v).get? k = some v := by simp [get?_set]

theorem get?_set_of_ne (m : OrderedMap κ α) {k j : κ} (v : α) (h : k ≠ j) :
    (m.set k v).get? j = m.get? j := by simp [get?_set, h]

/-- Lookups and membership agree because the keys are distinct. -/
theorem mem_entries_iff (m : OrderedMap κ α) (k : κ) (v : α) :
    (k, v) ∈ m.entries ↔ m.get? k = some v := by
  rcases m with ⟨l, hl⟩
  simp only [get?]
  induction l with
  | nil => simp
  | cons e rest ih =>
    rcases e with ⟨j, u⟩
    obtain ⟨hj, hrest⟩ := List.nodup_cons.mp hl
    by_cases h : k = j
    · subst h
      have hnot : (k, v) ∉ rest := fun hmem => hj (List.mem_map.mpr ⟨_, hmem, rfl⟩)
      simp [hnot, eq_comm]
    · simp [lookup_cons_ite, h, ih hrest]

theorem mem_values_iff (m : OrderedMap κ α) (v : α) :
    v ∈ m.values ↔ ∃ k, m.get? k = some v := by
  simp [values, ← mem_entries_iff]

theorem mem_keys_iff (m : OrderedMap κ α) (k : κ) : k ∈ m.keys ↔ m.contains k = true := by
  simp [keys, contains, Option.isSome_iff_exists, ← mem_entries_iff]

theorem get?_filter (m : OrderedMap κ α) (p : κ → α → Bool) (k : κ) :
    (m.filter p).get? k = (m.get? k).filter (p k) := by
  apply Option.ext
  intro v
  rw [← mem_entries_iff, Option.filter_eq_some_iff, ← mem_entries_iff]
  simp [filter]

theorem get?_erase (m : OrderedMap κ α) (k j : κ) :
    (m.erase k).get? j = if k = j then none else m.get? j := by
  rw [erase, get?_filter]
  by_cases h : k = j
  · cases m.get? j <;> simp [h]
  · cases m.get? j <;> simp [h, Ne.symm h]

@[simp] theorem get?_erase_self (m : OrderedMap κ α) (k : κ) : (m.erase k).get? k = none := by
  simp [get?_erase]

@[simp] theorem contains_set (m : OrderedMap κ α) (k j : κ) (v : α) :
    (m.set k v).contains j = (k = j || m.contains j) := by
  by_cases h : k = j <;> simp [contains, get?_set, h]

theorem contains_eq_false_iff (m : OrderedMap κ α) (k : κ) :
    m.contains k = false ↔ m.get? k = none := by
  simp [contains]

theorem mem_entries_set {m : OrderedMap κ α} {k : κ} {v : α} {e : κ × α}
    (h : e ∈ (m.set k v).entries) : e = (k, v) ∨ e ∈ m.entries := by
  rcases e with ⟨j, u⟩
  rw [mem_entries_iff, get?_set] at h
  split_ifs at h with hkj
  · exact .inl (by rw [hkj, Option.some.inj h])
  · exact .inr ((mem_entries_iff m j u).mpr h)

theorem get?_mapValues {β : Type*} (m : OrderedMap κ α) (f : α → β) (k : κ) :
    (m.mapValues f).get? k = (m.get? k).map f := by
  rcases m with ⟨l, hl⟩
  simp only [get?, mapValues]
  clear hl
  induction l with
  | nil => rfl
  | cons e rest ih =>
    rw [List.map_cons, lookup_cons_ite, ih]
    rcases e with ⟨j, u⟩
    rw [lookup_cons_ite]
    split_ifs <;> rfl

theorem size_set_le (m : OrderedMap κ α) (k : κ) (v : α) : (m.set k v).size ≤ m.size + 1 := by
  have hkeys := congrArg List.length (setEntry_keys k v m.entries)
  rw [List.length_map] at hkeys
  show (setEntry k v m.entries).length ≤ m.entries.length + 1
  rw [hkeys]
  split_ifs <;> simp

theorem size_set_of_contains {m : OrderedMap κ α} {k : κ} (h : m.contains k = true) (v : α) :
    (m.set k v).size = m.size := by
  have hmem : k ∈ m.entries.map Prod.fst := (mem_keys_iff m k).mpr h
  have hkeys := congrArg List.length (setEntry_keys k v m.entries)
  rw [List.length_map, if_pos hmem, List.length_map] at hkeys
  exact hkeys

theorem size_pos {m : OrderedMap κ α} {k : κ} {v : α} (h : m.get? k = some v) : 0 < m.size :=
  List.length_pos_of_mem ((mem_entries_iff m k v).mpr h)

theorem size_erase_lt {m : OrderedMap κ α} {k : κ} {v : α} (h : m.get? k = some v) :
    (m.erase k).size < m.size :=
  List.length_filter_lt_length_iff_exists.mpr ⟨_, (mem_entries_iff m k v).mpr h, by simp⟩

/-- A new key is appended. -/
theorem entries_set_new {m : OrderedMap κ α} {k : κ} (h : m.contains k = false) (v : α) :
    (m.set k v).entries = m.entries ++ [(k, v)] := by
  refine setEntry_of_notMem v fun hmem => ?_
  rw [(mem_keys_iff m k).mp hmem] at h
  cases h

omit [DecidableEq κ] in
theorem ext_entries {m m' : OrderedMap κ α} (h : m.entries = m'.entries) : m = m' := by
  cases m
  cases m'
  cases h
  rfl

theorem set_comm {m : OrderedMap κ α} {k j : κ} (hk : m.contains k = true) (hne : k ≠ j)
    (v u : α) : (m.set j u).set k v = (m.set k v).set j u :=
  ext_entries (setEntry_comm hne v u ((mem_keys_iff m k).mpr hk))

/-- `...(value !== undefined ? { [field]: value } : {})`. -/
def spread (m : OrderedMap κ α) (field : κ) : Option α → OrderedMap κ α
  | none => m
  | some value => m.set field value

@[simp] theorem get?_spread (m : OrderedMap κ α) (field k : κ) (value : Option α) :
    (m.spread field value).get? k =
      if field = k then value.or (m.get? k) else m.get? k := by
  cases value with
  | none => simp [spread]
  | some v =>
    rw [spread, get?_set]
    split_ifs <;> simp_all

theorem contains_spread {m : OrderedMap κ α} {k : κ} (h : m.contains k = true) (field : κ)
    (value : Option α) : (m.spread field value).contains k = true := by
  cases value with
  | none => exact h
  | some v => simp [spread, h]

theorem spread_set {m : OrderedMap κ α} {k field : κ} (hk : m.contains k = true)
    (hne : k ≠ field) (v : α) (value : Option α) :
    (m.spread field value).set k v = (m.set k v).spread field value := by
  cases value with
  | none => rfl
  | some u => exact set_comm hk hne v u

end OrderedMap

/-- An insertion-ordered map whose values carry their own key. -/
structure Table (κ α : Type*) (key : α → κ) extends OrderedMap κ α where
  keyed : ∀ e ∈ entries, key e.2 = e.1
  deriving DecidableEq

namespace Table
variable {κ α : Type*} {key : α → κ}

instance [Repr κ] [Repr α] : Repr (Table κ α key) := ⟨fun t => reprPrec t.entries⟩
instance : EmptyCollection (Table κ α key) := ⟨⟨∅, by simp [EmptyCollection.emptyCollection, OrderedMap.empty]⟩⟩

def filter (t : Table κ α key) (p : α → Bool) : Table κ α key where
  toOrderedMap := t.toOrderedMap.filter fun _ v => p v
  keyed := fun e he => t.keyed e (List.mem_of_mem_filter he)

variable [DecidableEq κ]

def erase (t : Table κ α key) (k : κ) : Table κ α key where
  toOrderedMap := t.toOrderedMap.erase k
  keyed := fun e he => t.keyed e (List.mem_of_mem_filter he)

/-- Store a row under its own key. -/
def write (t : Table κ α key) (v : α) : Table κ α key where
  toOrderedMap := t.set (key v) v
  keyed := fun e he => by
    rcases OrderedMap.mem_entries_set he with rfl | he
    · rfl
    · exact t.keyed e he

theorem key_of_get? {t : Table κ α key} {k : κ} {v : α} (h : t.get? k = some v) : key v = k :=
  t.keyed _ ((OrderedMap.mem_entries_iff _ _ _).mpr h)

omit [DecidableEq κ] in
/-- Different rows have different keys. -/
theorem nodup_map_key (t : Table κ α key) : (t.values.map key).Nodup := by
  have hkeys : t.values.map key = t.keys := by
    simp only [OrderedMap.values, OrderedMap.keys, List.map_map]
    exact List.map_congr_left t.keyed
  rw [hkeys]
  exact t.nodup

@[simp] theorem get?_empty (k : κ) : (∅ : Table κ α key).get? k = none := rfl

theorem get?_write (t : Table κ α key) (v : α) (k : κ) :
    (t.write v).get? k = if key v = k then some v else t.get? k :=
  OrderedMap.get?_set _ _ _ _

theorem get?_erase (t : Table κ α key) (k j : κ) :
    (t.erase k).get? j = if k = j then none else t.get? j :=
  OrderedMap.get?_erase _ _ _

theorem get?_filter (t : Table κ α key) (p : α → Bool) (k : κ) :
    (t.filter p).get? k = (t.get? k).filter p :=
  OrderedMap.get?_filter _ _ _

/-- A new row is appended. -/
theorem values_write_new {t : Table κ α key} {v : α} (h : t.contains (key v) = false) :
    (t.write v).values = t.values ++ [v] := by
  have hentries := OrderedMap.entries_set_new h v
  simp only [OrderedMap.values, write, hentries, List.map_append, List.map_cons, List.map_nil]

/-- Rewrite the row under `k`, if there is one. -/
def update (t : Table κ α key) (k : κ) (f : α → α) : Table κ α key :=
  (t.get? k).elim t fun v => t.write (f v)

/-- An update that keeps the keys changes one row. -/
theorem get?_update {f : α → α} (hf : ∀ v, key (f v) = key v) (t : Table κ α key) (k j : κ) :
    (t.update k f).get? j = if k = j then (t.get? j).map f else t.get? j := by
  unfold update
  cases hv : t.get? k with
  | none =>
    split_ifs with hk
    · rw [Option.elim_none, ← hk, hv, Option.map_none]
    · rfl
  | some v =>
    rw [Option.elim_some, get?_write, hf, key_of_get? hv]
    split_ifs with hk
    · rw [← hk, hv, Option.map_some]
    · rfl

theorem mem_values_iff (t : Table κ α key) (v : α) :
    v ∈ t.values ↔ t.get? (key v) = some v := by
  rw [OrderedMap.mem_values_iff]
  refine ⟨?_, fun h => ⟨_, h⟩⟩
  rintro ⟨k, hk⟩
  rwa [key_of_get? hk]

theorem values_update {f : α → α} (hf : ∀ v, key (f v) = key v) (t : Table κ α key) (k : κ) :
    (t.update k f).values = t.values.map fun v => if key v = k then f v else v := by
  unfold update
  cases hv : t.get? k with
  | none =>
    have hkeys : ∀ v ∈ t.values, (if key v = k then f v else v) = v := by
      intro v hmem
      refine if_neg fun hkey => ?_
      rw [mem_values_iff, hkey, hv] at hmem
      cases hmem
    rw [Option.elim_none, List.map_congr_left hkeys, List.map_id']
  | some v =>
    have hkey : key v = k := key_of_get? hv
    have hmem : key (f v) ∈ t.entries.map Prod.fst := by
      rw [hf, hkey]
      exact List.mem_map.mpr ⟨(k, v), (OrderedMap.mem_entries_iff _ _ _).mpr hv, rfl⟩
    rw [Option.elim_some]
    simp only [write, OrderedMap.values, OrderedMap.set,
      OrderedMap.setEntry_of_mem (f v) t.nodup hmem, List.map_map]
    apply List.map_congr_left
    intro e he
    have hkeyed := t.keyed e he
    rw [Function.comp_apply, Function.comp_apply, hkeyed, hf, hkey]
    by_cases hek : e.1 = k
    · rw [if_pos hek, if_pos hek]
      have hsame : t.get? k = some e.2 := (OrderedMap.mem_entries_iff _ _ _).mp (hek ▸ he)
      rw [hv] at hsame
      rw [Option.some.inj hsame]
    · rw [if_neg hek, if_neg hek]

/-- An update that takes a row out of what is counted. -/
theorem countP_update {f : α → α} (hf : ∀ v, key (f v) = key v) {t : Table κ α key} {k : κ} {v : α}
    {p : α → Bool} (hv : t.get? k = some v) (hp : p v = true) (hq : p (f v) = false) :
    (t.update k f).values.countP p + 1 = t.values.countP p := by
  have hmem : v ∈ t.values := (mem_values_iff t v).mpr (by rwa [key_of_get? hv])
  have hkey := key_of_get? hv
  rw [values_update hf]
  have hnodup := t.nodup_map_key
  generalize t.values = l at hmem hnodup
  induction l with
  | nil => cases hmem
  | cons a l ih =>
    rw [List.map_cons, List.nodup_cons] at hnodup
    rcases List.mem_cons.mp hmem with rfl | hmem
    · have hrest : ∀ b ∈ l, (if key b = k then f b else b) = b := by
        intro b hb
        refine if_neg fun heq => hnodup.1 ?_
        rw [hkey, ← heq]
        exact List.mem_map_of_mem hb
      rw [List.map_cons, if_pos hkey, List.map_congr_left hrest, List.map_id',
        List.countP_cons_of_neg (by simpa using hq), List.countP_cons_of_pos hp]
    · have hak : key a ≠ k := by
        intro heq
        apply hnodup.1
        rw [heq, ← hkey]
        exact List.mem_map_of_mem hmem
      have hcount := ih hmem hnodup.2
      rw [List.map_cons, if_neg hak, List.countP_cons, List.countP_cons]
      omega

/-- There is one row under a key that is there. -/
theorem existsUnique_of_contains {t : Table κ α key} {k : κ} (h : t.contains k = true) :
    ∃! v, v ∈ t.values ∧ key v = k := by
  obtain ⟨v, hv⟩ := Option.isSome_iff_exists.mp h
  refine ⟨v, ⟨(mem_values_iff t v).mpr (by rwa [key_of_get? hv]), key_of_get? hv⟩, ?_⟩
  rintro u ⟨hu, hkey⟩
  rw [mem_values_iff, hkey, hv] at hu
  exact (Option.some.inj hu).symm

end Table
end Skein
