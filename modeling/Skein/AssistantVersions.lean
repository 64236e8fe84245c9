import Skein.AssistantRepos

/-!
# The live row and its versions

On both drivers a call mints a version, restores one, removes an assistant or does nothing. A
snapshot stays until its assistant is removed, a new version is one above the highest, and the
live row equals the snapshot it names. The SQLite driver restores by spreading the snapshot over
the live row, which keeps a description the snapshot does not have; it meets the contract exactly
if no such restore happens.
-/
namespace Skein
namespace AssistantTables
variable {J : Type*} {t t' : AssistantTables J}

theorem highest_spec (id : AssistantId) (l : List (AssistantVersion J)) (start : ℕ) :
    let highest := l.foldl (fun highest v =>
      if v.assistantId = id ∧ highest < v.version then v.version else highest) start
    start ≤ highest ∧ (∀ v ∈ l, v.assistantId = id → v.version ≤ highest) ∧
      (highest = start ∨ ∃ v ∈ l, v.assistantId = id ∧ v.version = highest) := by
  induction l generalizing start with
  | nil => simp
  | cons v l ih =>
    simp only [List.foldl_cons]
    obtain ⟨hstart, hall, hsome⟩ := ih
      (if v.assistantId = id ∧ start < v.version then v.version else start)
    refine ⟨?_, ?_, ?_⟩
    · split_ifs at hstart ⊢ with h
      · omega
      · exact hstart
    · intro u hu huid
      rcases List.mem_cons.mp hu with rfl | hu
      · split_ifs at hstart ⊢ with h
        · exact hstart
        · have hle : ¬start < u.version := fun hlt => h ⟨huid, hlt⟩
          omega
      · exact hall u hu huid
    · rcases hsome with hsame | ⟨u, hu, huid, hueq⟩
      · rw [hsame]
        split_ifs with h
        · exact .inr ⟨v, List.mem_cons_self, h.1, rfl⟩
        · exact .inl rfl
      · exact .inr ⟨u, List.mem_cons_of_mem _ hu, huid, hueq⟩

/-- The tables are keyed by what their rows say, and the live row equals its snapshot. -/
structure Versioned (t : AssistantTables J) : Prop where
  keyed : ∀ k (s : AssistantVersion J), t.versions.get? k = some s →
    s.assistantId = k.1 ∧ s.version = k.2
  owned : ∀ k (s : AssistantVersion J), t.versions.get? k = some s →
    t.assistants.contains k.1 = true
  named : ∀ id (a : Assistant J), t.assistants.get? id = some a → a.assistantId = id
  live : ∀ id (a : Assistant J), t.assistants.get? id = some a → ∃ s : AssistantVersion J,
    t.versions.get? (id, a.version) = some s ∧ a.toAssistantFields = s.toAssistantFields

theorem maxVersionOf_spec (ht : t.Versioned) (id : AssistantId) :
    (∀ n, t.versions.contains (id, n) = true → n ≤ t.maxVersionOf id) ∧
      (t.maxVersionOf id = 0 ∨ t.versions.contains (id, t.maxVersionOf id) = true) := by
  obtain ⟨-, hall, hsome⟩ := highest_spec id t.versions.values 0
  constructor
  · intro n hn
    obtain ⟨s, hs⟩ := Option.isSome_iff_exists.mp hn
    obtain ⟨hid, hversion⟩ := ht.keyed _ s hs
    rw [← show s.version = n from hversion]
    exact hall s ((OrderedMap.mem_values_iff _ _).mpr ⟨_, hs⟩) hid
  · rcases hsome with hzero | ⟨s, hs, hid, hversion⟩
    · exact .inl hzero
    · right
      obtain ⟨k, hk⟩ := (OrderedMap.mem_values_iff _ _).mp hs
      obtain ⟨hid', hversion'⟩ := ht.keyed k s hk
      have hkey : k = (id, t.maxVersionOf id) :=
        Prod.ext (hid'.symm.trans hid) (hversion'.symm.trans hversion)
      rw [OrderedMap.contains, ← hkey, hk]
      rfl

/-- What a call can do to the tables. -/
inductive Moves (t : AssistantTables J) : AssistantCall J → AssistantTables J → Prop
  | stay {call : AssistantCall J}
    (hrefused : ∀ id n now, call = .setLatest id n now →
      t.assistants.get? id = none ∨ t.versions.get? (id, n) = none) : Moves t call t
  /-- A new version: the first one of a new assistant, or the one above the highest. -/
  | mint {call : AssistantCall J} (id : AssistantId) (row : Assistant J)
    (snapshot : AssistantVersion J)
    (hcall : ((∃ input uuid now, call = .create input uuid now) ∧
        t.assistants.get? id = none ∧ row.version = 1) ∨
      ((∃ patch now, call = .update id patch now) ∧
        t.assistants.contains id = true ∧ row.version = t.maxVersionOf id + 1))
    (hid : row.assistantId = id) (hsnapshot : snapshot.assistantId = id)
    (hsame : snapshot.version = row.version)
    (hfields : row.toAssistantFields = snapshot.toAssistantFields) :
    Moves t call (t.writeBoth id row snapshot)
  | restore (id : AssistantId) (n : ℕ) (now : Timestamp) (row : Assistant J)
    (snapshot : AssistantVersion J) (hlive : t.assistants.contains id = true)
    (hget : t.versions.get? (id, n) = some snapshot) (hid : row.assistantId = id)
    (hversion : row.version = snapshot.version)
    (hfields : row.toAssistantFields = snapshot.toAssistantFields) :
    Moves t (.setLatest id n now) { t with assistants := t.assistants.set id row }
  | remove (id : AssistantId) : Moves t (.delete id) (t.remove id)

/-- The version a call mints was not there. -/
theorem Versioned.fresh (ht : t.Versioned) {id : AssistantId} {n : ℕ}
    (hversion : t.assistants.get? id = none ∨ n = t.maxVersionOf id + 1) :
    t.versions.get? (id, n) = none := by
  by_contra hsome
  obtain ⟨s, hs⟩ := Option.ne_none_iff_exists'.mp hsome
  rcases hversion with hnone | rfl
  · have hlive := ht.owned _ s hs
    simp [OrderedMap.contains, hnone] at hlive
  · have hle := (maxVersionOf_spec ht id).1 _ (by rw [OrderedMap.contains, hs]; rfl)
    omega

theorem Moves.versioned {call : AssistantCall J} (ht : t.Versioned) (h : t.Moves call t') :
    t'.Versioned := by
  cases h with
  | stay hrefused => exact ht
  | mint id row snapshot hcall hid hsnapshot hsame hfields =>
    refine ⟨?_, ?_, ?_, ?_⟩
    · intro k s hs
      simp only [writeBoth, OrderedMap.get?_set] at hs
      split_ifs at hs with hk
      · cases hs
        exact ⟨hsnapshot.trans (congrArg Prod.fst hk), hsame.trans (congrArg Prod.snd hk)⟩
      · exact ht.keyed k s hs
    · intro k s hs
      simp only [writeBoth, OrderedMap.get?_set, OrderedMap.contains_set] at hs ⊢
      split_ifs at hs with hk
      · simp [← hk]
      · simp [ht.owned k s hs]
    · intro j a ha
      simp only [writeBoth, OrderedMap.get?_set] at ha
      split_ifs at ha with hj
      · cases ha
        exact hid.trans hj
      · exact ht.named j a ha
    · intro j a ha
      simp only [writeBoth, OrderedMap.get?_set] at ha ⊢
      split_ifs at ha with hj
      · cases ha
        exact ⟨snapshot, by simp [hj], hfields⟩
      · obtain ⟨s, hs, hsf⟩ := ht.live j a ha
        exact ⟨s, by rw [if_neg (fun heq => hj (congrArg Prod.fst heq)), hs], hsf⟩
  | restore id n now row snapshot hlive hget hid hversion hfields =>
    refine ⟨ht.keyed, fun k s hs => ?_, ?_, ?_⟩
    · simp [ht.owned k s hs]
    · intro j a ha
      simp only [OrderedMap.get?_set] at ha
      split_ifs at ha with hj
      · cases ha
        exact hid.trans hj
      · exact ht.named j a ha
    · intro j a ha
      simp only [OrderedMap.get?_set] at ha
      split_ifs at ha with hj
      · cases ha
        refine ⟨snapshot, ?_, hfields⟩
        rw [hversion, (ht.keyed _ snapshot hget).2, ← hj]
        exact hget
      · exact ht.live j a ha
  | remove id =>
    have hkept : ∀ k (s : AssistantVersion J), (t.remove id).versions.get? k = some s →
        t.versions.get? k = some s ∧ k.1 ≠ id := by
      intro k s hs
      rw [AssistantTables.remove, OrderedMap.get?_filter, Option.filter_eq_some_iff] at hs
      obtain ⟨hget, hne⟩ := hs
      exact ⟨hget, by simpa [(ht.keyed k s hget).1] using hne⟩
    refine ⟨fun k s hs => ht.keyed k s (hkept k s hs).1, fun k s hs => ?_, ?_, ?_⟩
    · obtain ⟨hget, hne⟩ := hkept k s hs
      have hlive := ht.owned k s hget
      simpa [AssistantTables.remove, OrderedMap.contains, OrderedMap.get?_erase, Ne.symm hne]
        using hlive
    · intro j a ha
      simp only [AssistantTables.remove, OrderedMap.get?_erase] at ha
      split_ifs at ha with hj
      exact ht.named j a ha
    · intro j a ha
      simp only [AssistantTables.remove, OrderedMap.get?_erase] at ha
      split_ifs at ha with hj
      obtain ⟨s, hs, hsf⟩ := ht.live j a ha
      refine ⟨s, ?_, hsf⟩
      rw [AssistantTables.remove, OrderedMap.get?_filter, hs, Option.filter_some, if_pos]
      simpa [(ht.keyed _ s hs).1] using Ne.symm hj

/-- A snapshot stays as it was written until its assistant is deleted. -/
theorem Moves.immutable {call : AssistantCall J} (ht : t.Versioned) (h : t.Moves call t')
    {k : AssistantId × ℕ} {s : AssistantVersion J} (hs : t.versions.get? k = some s) :
    t'.versions.get? k = some s ∨ (call = .delete k.1 ∧ t'.versions.get? k = none) := by
  cases h with
  | stay hrefused => exact .inl hs
  | mint id row snapshot hcall hid hsnapshot hsame hfields =>
    left
    have hfresh : t.versions.get? (id, row.version) = none := by
      refine ht.fresh ?_
      rcases hcall with ⟨-, hnone, -⟩ | ⟨-, -, hversion⟩
      · exact .inl hnone
      · exact .inr hversion
    simp only [writeBoth, OrderedMap.get?_set]
    rw [if_neg]
    · exact hs
    · rintro rfl
      rw [hfresh] at hs
      cases hs
  | restore id n now row snapshot hlive hget hid hversion hfields => exact .inl hs
  | remove id =>
    rw [AssistantTables.remove, OrderedMap.get?_filter, hs]
    by_cases hk : k.1 = id
    · right
      simp [(ht.keyed k s hs).1, hk]
    · left
      simp [(ht.keyed k s hs).1, hk]

/-- An update that is made gets the number above the highest. -/
theorem Moves.successor {id : AssistantId} {patch : AssistantUpdate J} {now : Timestamp}
    (ht : t.Versioned) (h : t.Moves (.update id patch now) t') : t' = t ∨
      ∃ (a : Assistant J) (m : ℕ), t'.assistants.get? id = some a ∧ a.version = m + 1 ∧
        t.versions.contains (id, m) = true ∧
        ∀ n, t.versions.contains (id, n) = true → n ≤ m := by
  cases h with
  | stay hrefused => exact .inl rfl
  | mint id' row snapshot hcall hid hsnapshot hsame hfields =>
    right
    rcases hcall with ⟨⟨_, _, _, heq⟩, -⟩ | ⟨⟨_, _, heq⟩, hlive, hversion⟩
    · cases heq
    · cases heq
      obtain ⟨hhighest, hthere⟩ := maxVersionOf_spec ht id
      refine ⟨row, t.maxVersionOf id, by simp [writeBoth], hversion, ?_, hhighest⟩
      rcases hthere with hzero | hthere
      · obtain ⟨a, ha⟩ := Option.isSome_iff_exists.mp hlive
        obtain ⟨s, hs, -⟩ := ht.live id a ha
        have hcontains : t.versions.contains (id, a.version) = true := by
          rw [OrderedMap.contains, hs]
          rfl
        have hle := hhighest _ hcontains
        have hversion₀ : a.version = t.maxVersionOf id := by omega
        rw [← hversion₀]
        exact hcontains
      · exact hthere

theorem Moves.restored {id : AssistantId} {n : ℕ} {now : Timestamp} (ht : t.Versioned)
    (h : t.Moves (.setLatest id n now) t') {a : Assistant J} {s : AssistantVersion J}
    (ha : t.assistants.get? id = some a) (hs : t.versions.get? (id, n) = some s) :
    ∃ a' : Assistant J, t'.assistants.get? id = some a' ∧ a'.version = n ∧
      a'.toAssistantFields = s.toAssistantFields := by
  cases h with
  | stay hrefused =>
    rcases hrefused id n now rfl with hnone | hnone
    · rw [ha] at hnone
      cases hnone
    · rw [hs] at hnone
      cases hnone
  | mint id' row snapshot hcall =>
    rcases hcall with ⟨⟨_, _, _, heq⟩, -⟩ | ⟨⟨_, _, heq⟩, -⟩ <;> cases heq
  | restore id n now row snapshot hlive hget hid hversion hfields =>
    rw [hs] at hget
    cases hget
    exact ⟨row, by simp, hversion.trans (ht.keyed _ s hs).2, hfields⟩

theorem versioned_empty : Versioned ({} : AssistantTables J) where
  keyed _ _ h := by cases h
  owned _ _ h := by cases h
  named _ _ h := by cases h
  live _ _ h := by cases h

end AssistantTables

section
variable {J : Type*} [WireJson J] {t t' : AssistantTables J}
open AssistantTables

theorem memory_moves (ht : t.Versioned) {call : AssistantCall J}
    (h : memoryAssistants.step t call = some t') : t.Moves call t' := by
  cases call with
  | create input uuid now =>
    simp only [memoryAssistants, MemoryAssistants.create] at h
    split_ifs at h with hthere <;> cases h
    · exact .stay fun _ _ _ heq => by cases heq
    · have hnone := (OrderedMap.contains_eq_false_iff _ _).mp (Bool.eq_false_iff.mpr hthere)
      exact .mint _ _ _ (.inl ⟨⟨input, uuid, now, rfl⟩, hnone, rfl⟩) rfl rfl rfl rfl
  | update id patch now =>
    simp only [memoryAssistants, MemoryAssistants.update] at h
    split at h
    · cases h
      exact .stay fun _ _ _ heq => by cases heq
    next existing hget =>
      cases h
      have hid := ht.named id existing hget
      have hlive : t.assistants.contains id = true := by simp [OrderedMap.contains, hget]
      exact .mint _ _ _ (.inr ⟨⟨patch, now, rfl⟩, hlive, rfl⟩) hid hid rfl rfl
  | setLatest id version now =>
    simp only [memoryAssistants, MemoryAssistants.setLatest] at h
    split at h
    next hnone =>
      cases h
      refine .stay fun _ _ _ heq => ?_
      cases heq
      exact .inl hnone
    next existing hget =>
      split at h
      next hnone =>
        cases h
        refine .stay fun _ _ _ heq => ?_
        cases heq
        exact .inr hnone
      next target htarget =>
        cases h
        have hlive : t.assistants.contains id = true := by simp [OrderedMap.contains, hget]
        exact .restore id version now _ target hlive htarget (ht.named id existing hget) rfl rfl
  | delete id =>
    cases h
    exact .remove id

theorem AssistantFields.roundTrip_eq_some {f g : AssistantFields J} :
    f.roundTrip = some g ↔ WireJson.roundTrip f.config = some g.config ∧
      WireJson.roundTrip f.context = some g.context ∧
      WireJson.roundTrip f.metadata = some g.metadata ∧
      g = { f with config := g.config, context := g.context, metadata := g.metadata } := by
  simp only [AssistantFields.roundTrip, Option.bind_eq_bind, Option.bind_eq_some_iff,
    Option.pure_def, Option.some.injEq]
  constructor
  · rintro ⟨config, hconfig, context, hcontext, metadata, hmetadata, rfl⟩
    exact ⟨hconfig, hcontext, hmetadata, rfl⟩
  · rintro ⟨hconfig, hcontext, hmetadata, hg⟩
    exact ⟨_, hconfig, _, hcontext, _, hmetadata, hg.symm⟩

theorem AssistantFields.roundTrip_parsed {f g : AssistantFields J} (h : f.roundTrip = some g) :
    g.roundTrip = some g := by
  obtain ⟨hconfig, hcontext, hmetadata, -⟩ := AssistantFields.roundTrip_eq_some.mp h
  exact AssistantFields.roundTrip_eq_some.mpr ⟨WireJson.roundTrip_parsed _ _ hconfig,
    WireJson.roundTrip_parsed _ _ hcontext, WireJson.roundTrip_parsed _ _ hmetadata, rfl⟩

/-- What is stored was parsed from text. -/
structure Parsed (t : AssistantTables J) : Prop where
  rows : ∀ id (a : Assistant J), t.assistants.get? id = some a →
    a.toAssistantFields.roundTrip = some a.toAssistantFields
  snapshots : ∀ k (s : AssistantVersion J), t.versions.get? k = some s →
    s.toAssistantFields.roundTrip = some s.toAssistantFields

theorem Parsed.set (ht : Parsed t) (id : AssistantId) {row : Assistant J}
    (hrow : row.toAssistantFields.roundTrip = some row.toAssistantFields) :
    Parsed { t with assistants := t.assistants.set id row } where
  rows j a ha := by
    simp only [OrderedMap.get?_set] at ha
    split_ifs at ha
    · cases ha
      exact hrow
    · exact ht.rows j a ha
  snapshots := ht.snapshots

theorem Parsed.writeBoth (ht : Parsed t) (id : AssistantId) {row : Assistant J}
    {snapshot : AssistantVersion J}
    (hrow : row.toAssistantFields.roundTrip = some row.toAssistantFields)
    (hfields : row.toAssistantFields = snapshot.toAssistantFields) :
    Parsed (t.writeBoth id row snapshot) where
  rows := (ht.set id hrow).rows
  snapshots k s hs := by
    simp only [AssistantTables.writeBoth, OrderedMap.get?_set] at hs
    split_ifs at hs
    · cases hs
      rw [← hfields, hrow]
    · exact ht.snapshots k s hs

/-- The two writes of a transaction agree, or neither is made. -/
theorem writeVersion_spec (t : AssistantTables J) (id : AssistantId) (row : Assistant J)
    (createdAt : Assistant J → Timestamp) :
    (SqliteAssistants.writeVersion t id row createdAt).2 = t ∨
      ∃ (written : Assistant J) (snapshot : AssistantVersion J),
        (SqliteAssistants.writeVersion t id row createdAt).2 = t.writeBoth id written snapshot ∧
        written.toAssistantFields.roundTrip = some written.toAssistantFields ∧
        written.toAssistantFields = snapshot.toAssistantFields ∧
        written.assistantId = row.assistantId ∧ written.version = row.version ∧
        snapshot.assistantId = row.assistantId ∧ snapshot.version = row.version := by
  unfold SqliteAssistants.writeVersion
  cases hrow : row.roundTrip with
  | none => exact .inl rfl
  | some written =>
    obtain ⟨fields, hfields, rfl⟩ := Option.map_eq_some_iff.mp hrow
    have hparsed := AssistantFields.roundTrip_parsed hfields
    dsimp only
    cases hsnapshot : (Assistant.toVersion { row with toAssistantFields := fields }
        (createdAt { row with toAssistantFields := fields })).roundTrip with
    | none => exact .inl rfl
    | some snapshot =>
      obtain ⟨again, hagain, rfl⟩ := Option.map_eq_some_iff.mp hsnapshot
      have hsame : again = fields := by
        have hagain : fields.roundTrip = some again := hagain
        exact Option.some.inj (hagain.symm.trans hparsed)
      exact .inr ⟨_, _, rfl, hparsed, hsame.symm, rfl, rfl, rfl, rfl⟩

theorem restored_roundTrip (ht : Parsed t) {k : AssistantId × ℕ} {selected : AssistantVersion J}
    (hselected : t.versions.get? k = some selected) (existing : Assistant J) (now : Timestamp) :
    (SqliteAssistants.restored existing selected now).toAssistantFields.roundTrip =
      some (SqliteAssistants.restored existing selected now).toAssistantFields := by
  obtain ⟨hconfig, hcontext, hmetadata, -⟩ :=
    AssistantFields.roundTrip_eq_some.mp (ht.snapshots _ selected hselected)
  exact AssistantFields.roundTrip_eq_some.mpr ⟨hconfig, hcontext, hmetadata, rfl⟩

/-- Rows that were parsed can be written again. -/
theorem sqlite_setLatest (ht : Parsed t) {id : AssistantId} {version : ℕ} {now : Timestamp}
    {existing : Assistant J} {selected : AssistantVersion J}
    (hget : t.assistants.get? id = some existing)
    (hselected : t.versions.get? (id, version) = some selected) :
    (SqliteAssistants.setLatest t id version now).2 = { t with
      assistants := t.assistants.set id (SqliteAssistants.restored existing selected now) } := by
  have hstable := restored_roundTrip ht hselected existing now
  simp only [SqliteAssistants.setLatest, hget, hselected, Assistant.roundTrip, hstable,
    Option.map_some]

/-- A restored snapshot has a description, or the live row has none. -/
def RestoresDescription (t : AssistantTables J) : AssistantCall J → Prop
  | .setLatest id version _ =>
    ∀ existing ∈ t.assistants.get? id, ∀ selected ∈ t.versions.get? (id, version),
      selected.description = none → existing.description = none
  | _ => True

theorem sqlite_moves (ht : t.Versioned) (hparsed : Parsed t) {call : AssistantCall J}
    (hcall : RestoresDescription t call) (h : sqliteAssistants.step t call = some t') :
    t.Moves call t' := by
  cases call with
  | create input uuid now =>
    simp only [sqliteAssistants, SqliteAssistants.create] at h
    split_ifs at h with hthere <;> cases h
    · exact .stay fun _ _ _ heq => by cases heq
    · have hnone := (OrderedMap.contains_eq_false_iff _ _).mp (Bool.eq_false_iff.mpr hthere)
      rcases writeVersion_spec t (input.assistantId.getD uuid)
          (input.row (input.assistantId.getD uuid) now) Assistant.createdAt with
        hstay | ⟨written, snapshot, hwrite, -, hfields, hid, hversion, hsid, hsversion⟩
      · rw [hstay]
        exact .stay fun _ _ _ heq => by cases heq
      · rw [hwrite]
        exact .mint _ _ _ (.inl ⟨⟨input, uuid, now, rfl⟩, hnone, hversion⟩) hid hsid (hsversion.trans hversion.symm) hfields
  | update id patch now =>
    simp only [sqliteAssistants, SqliteAssistants.update] at h
    split at h
    · cases h
      exact .stay fun _ _ _ heq => by cases heq
    next existing hget =>
      cases h
      have hlive : t.assistants.contains id = true := by simp [OrderedMap.contains, hget]
      have hname := ht.named id existing hget
      rcases writeVersion_spec t id (patch.row existing (t.maxVersionOf id + 1) now)
          Assistant.updatedAt with
        hstay | ⟨written, snapshot, hwrite, -, hfields, hid, hversion, hsid, hsversion⟩
      · rw [hstay]
        exact .stay fun _ _ _ heq => by cases heq
      · rw [hwrite]
        exact .mint _ _ _ (.inr ⟨⟨patch, now, rfl⟩, hlive, hversion⟩) (hid.trans hname) (hsid.trans hname)
          (hsversion.trans hversion.symm) hfields
  | setLatest id version now =>
    cases hget : t.assistants.get? id with
    | none =>
      simp only [sqliteAssistants, SqliteAssistants.setLatest, hget] at h
      cases h
      refine .stay fun _ _ _ heq => ?_
      cases heq
      exact .inl hget
    | some existing =>
      cases hselected : t.versions.get? (id, version) with
      | none =>
        simp only [sqliteAssistants, SqliteAssistants.setLatest, hget, hselected] at h
        cases h
        refine .stay fun _ _ _ heq => ?_
        cases heq
        exact .inr hselected
      | some selected =>
        simp only [sqliteAssistants, sqlite_setLatest hparsed hget hselected] at h
        cases h
        have hlive : t.assistants.contains id = true := by simp [OrderedMap.contains, hget]
        refine .restore id version now (SqliteAssistants.restored existing selected now) selected
          hlive hselected (ht.keyed _ selected hselected).1 rfl ?_
        have hdescription : selected.description.or existing.description =
            selected.description := by
          cases hd : selected.description with
          | none => rw [hcall existing hget selected hselected hd, Option.or_none]
          | some d => rfl
        rw [SqliteAssistants.restored, hdescription]
  | delete id =>
    cases h
    exact .remove id

theorem sqlite_parsed (hparsed : Parsed t) {call : AssistantCall J}
    (h : sqliteAssistants.step t call = some t') : Parsed t' := by
  have hwrite : ∀ id row createdAt,
      Parsed (SqliteAssistants.writeVersion t id row createdAt).2 := by
    intro id row createdAt
    rcases writeVersion_spec t id row createdAt with
      hstay | ⟨written, snapshot, hboth, hrow, hfields, -⟩
    · rw [hstay]
      exact hparsed
    · rw [hboth]
      exact hparsed.writeBoth id hrow hfields
  cases call with
  | create input uuid now =>
    simp only [sqliteAssistants, SqliteAssistants.create] at h
    split_ifs at h with hthere <;> cases h
    · exact hparsed
    · exact hwrite _ _ _
  | update id patch now =>
    simp only [sqliteAssistants, SqliteAssistants.update] at h
    split at h <;> cases h
    · exact hparsed
    · exact hwrite _ _ _
  | setLatest id version now =>
    cases hget : t.assistants.get? id with
    | none =>
      simp only [sqliteAssistants, SqliteAssistants.setLatest, hget] at h
      cases h
      exact hparsed
    | some existing =>
      cases hselected : t.versions.get? (id, version) with
      | none =>
        simp only [sqliteAssistants, SqliteAssistants.setLatest, hget, hselected] at h
        cases h
        exact hparsed
      | some selected =>
        simp only [sqliteAssistants, sqlite_setLatest hparsed hget hselected] at h
        cases h
        exact hparsed.set id (restored_roundTrip hparsed hselected existing now)
  | delete id =>
    cases h
    refine ⟨fun j a ha => ?_, fun k s hs => ?_⟩
    · simp only [AssistantTables.remove, OrderedMap.get?_erase] at ha
      split_ifs at ha
      exact hparsed.rows j a ha
    · rw [AssistantTables.remove, OrderedMap.get?_filter, Option.filter_eq_some_iff] at hs
      exact hparsed.snapshots k s hs.1

theorem parsed_empty : Parsed ({} : AssistantTables J) where
  rows _ _ h := by cases h
  snapshots _ _ h := by cases h

/-- The contract of a sequence of calls to a driver whose tables start empty. -/
structure VersionContract (M : Machine (AssistantTables J) (AssistantCall J))
    (calls : List (AssistantCall J)) : Prop where
  /-- The live row equals the snapshot of the version it carries. -/
  live : ∀ before after u, calls = before ++ after → M.run {} before = some u →
    ∀ id (a : Assistant J), u.assistants.get? id = some a → ∃ s : AssistantVersion J,
      u.versions.get? (id, a.version) = some s ∧ s.assistantId = id ∧ s.version = a.version ∧
      a.toAssistantFields = s.toAssistantFields
  /-- The versions of an assistant are distinct. -/
  distinct : ∀ before after u, calls = before ++ after → M.run {} before = some u →
    ∀ k k' (s s' : AssistantVersion J), u.versions.get? k = some s → u.versions.get? k' = some s' →
    s.assistantId = s'.assistantId → s.version = s'.version → k = k'
  /-- A snapshot stays as it was written until its assistant is deleted. -/
  immutable : ∀ before call after u v, calls = before ++ call :: after →
    M.run {} before = some u → M.step u call = some v → ∀ k (s : AssistantVersion J),
    u.versions.get? k = some s →
    v.versions.get? k = some s ∨ (call = .delete k.1 ∧ v.versions.get? k = none)
  /-- An update that is made gets the number above the highest. -/
  successor : ∀ before id patch now after u v, calls = before ++ .update id patch now :: after →
    M.run {} before = some u → M.step u (.update id patch now) = some v → v = u ∨
      ∃ (a : Assistant J) (m : ℕ), v.assistants.get? id = some a ∧ a.version = m + 1 ∧
        u.versions.contains (id, m) = true ∧ ∀ n, u.versions.contains (id, n) = true → n ≤ m
  /-- `setLatest` restores the snapshot, absent fields included. -/
  restored : ∀ before id n now after u v, calls = before ++ .setLatest id n now :: after →
    M.run {} before = some u → M.step u (.setLatest id n now) = some v →
    ∀ (a : Assistant J) (s : AssistantVersion J), u.assistants.get? id = some a →
    u.versions.get? (id, n) = some s → ∃ a' : Assistant J, v.assistants.get? id = some a' ∧
      a'.version = n ∧ a'.toAssistantFields = s.toAssistantFields

omit [WireJson J] in
/-- A driver meets the contract if its calls only make the moves. -/
theorem versionContract_of_moves {M : Machine (AssistantTables J) (AssistantCall J)}
    {calls : List (AssistantCall J)}
    (hversioned : ∀ before after u, calls = before ++ after → M.run {} before = some u →
      u.Versioned)
    (hmoves : ∀ before call after u v, calls = before ++ call :: after →
      M.run {} before = some u → M.step u call = some v → u.Moves call v) :
    VersionContract M calls where
  live before after u hcalls hu id a ha := by
    have hv := hversioned before after u hcalls hu
    obtain ⟨s, hs, hfields⟩ := hv.live id a ha
    exact ⟨s, hs, (hv.keyed _ s hs).1, (hv.keyed _ s hs).2, hfields⟩
  distinct before after u hcalls hu k k' s s' hs hs' hid hversion := by
    have hv := hversioned before after u hcalls hu
    obtain ⟨hk, hn⟩ := hv.keyed k s hs
    obtain ⟨hk', hn'⟩ := hv.keyed k' s' hs'
    exact Prod.ext (hk.symm.trans (hid.trans hk')) (hn.symm.trans (hversion.trans hn'))
  immutable before call after u v hcalls hu hv k s hs :=
    (hmoves before call after u v hcalls hu hv).immutable
      (hversioned before (call :: after) u hcalls hu) hs
  successor before id patch now after u v hcalls hu hv :=
    (hmoves before _ after u v hcalls hu hv).successor
      (hversioned before (_ :: after) u hcalls hu)
  restored before id n now after u v hcalls hu hv a s ha hs :=
    (hmoves before _ after u v hcalls hu hv).restored
      (hversioned before (_ :: after) u hcalls hu) ha hs

theorem memory_versionContract (calls : List (AssistantCall J)) :
    VersionContract memoryAssistants calls := by
  have hversioned : ∀ before u, memoryAssistants.run {} before = some u → u.Versioned :=
    fun before u hu => Machine.run_invariant (I := fun t : AssistantTables J => t.Versioned)
      (fun _ _ _ ht hstep => (memory_moves ht hstep).versioned ht) versioned_empty hu
  exact versionContract_of_moves (fun before after u _ hu => hversioned before u hu)
    (fun before call after u v _ hu hv => memory_moves (hversioned before u hu) hv)

theorem sqlite_run_parsed {before : List (AssistantCall J)} {u : AssistantTables J}
    (hu : sqliteAssistants.run {} before = some u) : Parsed u :=
  Machine.run_invariant (fun _ _ _ ht hstep => sqlite_parsed ht hstep) parsed_empty hu

theorem sqlite_run_some (t : AssistantTables J) (calls : List (AssistantCall J)) :
    ∃ u, sqliteAssistants.run t calls = some u := by
  induction calls generalizing t with
  | nil => exact ⟨t, rfl⟩
  | cons call calls ih =>
    obtain ⟨v, hv⟩ : ∃ v, sqliteAssistants.step t call = some v := by
      cases call <;> exact ⟨_, rfl⟩
    obtain ⟨u, hu⟩ := ih v
    exact ⟨u, (sqliteAssistants.run_cons_eq_some).mpr ⟨v, hv, hu⟩⟩

theorem sqlite_versionContract {calls : List (AssistantCall J)}
    (halong : sqliteAssistants.Along RestoresDescription {} calls) :
    VersionContract sqliteAssistants calls := by
  have hversioned : ∀ before after u, calls = before ++ after →
      sqliteAssistants.run {} before = some u → u.Versioned := by
    intro before after u hcalls hu
    have hbefore := (Machine.along_append (hcalls ▸ halong) hu).1
    have hboth : u.Versioned ∧ Parsed u := by
      refine Machine.run_invariant_along (I := fun t : AssistantTables J => t.Versioned ∧ Parsed t)
        (fun t call t' ht hcall hstep => ?_) ⟨versioned_empty, parsed_empty⟩ hbefore hu
      exact ⟨(sqlite_moves ht.1 ht.2 hcall hstep).versioned ht.1, sqlite_parsed ht.2 hstep⟩
    exact hboth.1
  refine versionContract_of_moves hversioned fun before call after u v hcalls hu hv => ?_
  have hafter := (Machine.along_append (hcalls ▸ halong) hu).2
  exact sqlite_moves (hversioned before _ u hcalls hu) (sqlite_run_parsed hu)
    (Machine.along_cons hafter hv).1 hv

/-- The memory driver keeps the contract; the SQLite driver keeps it exactly if no restored
snapshot leaves a description behind. -/
theorem assistants_versionContract (calls : List (AssistantCall J)) :
    VersionContract memoryAssistants calls ∧
      (VersionContract sqliteAssistants calls ↔
        sqliteAssistants.Along RestoresDescription {} calls) := by
  refine ⟨memory_versionContract calls, fun hcontract => ?_, sqlite_versionContract⟩
  obtain ⟨w, hw⟩ := sqlite_run_some {} calls
  refine Machine.along_of_steps hw fun before call u v hbefore hu hv => ?_
  obtain ⟨after, hafter⟩ := hbefore
  cases call with
  | create | update | delete => trivial
  | setLatest id n now =>
    intro existing hexisting selected hselected hnone
    have hcalls : calls = before ++ .setLatest id n now :: after := by
      rw [← hafter, List.append_assoc, List.singleton_append]
    obtain ⟨a', ha', -, hfields⟩ := hcontract.restored before id n now after u v hcalls hu hv
      existing selected hexisting hselected
    have hparsed := sqlite_run_parsed hu
    simp only [sqliteAssistants, sqlite_setLatest hparsed hexisting hselected] at hv
    cases hv
    rw [OrderedMap.get?_set_self] at ha'
    cases ha'
    have hdescription := congrArg AssistantFields.description hfields
    simpa [SqliteAssistants.restored, hnone] using hdescription

/-- A description is added to an assistant without one, and the first version is restored. -/
def describedThenRestored : List (AssistantCall ℕ) :=
  [.create { graphId := "graph", assistantId := some (.of "a") } (.of "u") 1,
    .update (.of "a") { description := some "second" } 2,
    .setLatest (.of "a") 1 3]

/-- On SQLite the description stays. -/
theorem describedThenRestored_keeps :
    ¬ VersionContract sqliteAssistants describedThenRestored := by
  intro hcontract
  obtain ⟨u, hu⟩ : ∃ u, sqliteAssistants.run {} describedThenRestored = some u := ⟨_, rfl⟩
  obtain ⟨a, ha⟩ : ∃ a, u.assistants.get? (.of "a") = some a := by
    cases hu
    exact ⟨_, rfl⟩
  obtain ⟨s, hs, -, -, hfields⟩ := hcontract.live _ [] u (List.append_nil _).symm hu _ a ha
  have hdescription : a.version = 1 ∧ a.description = some "second" := by
    cases hu
    cases ha
    exact ⟨rfl, rfl⟩
  have hsnapshot : s.description = none := by
    rw [hdescription.1] at hs
    cases hu
    cases hs
    rfl
  have hsame := congrArg AssistantFields.description hfields
  rw [hdescription.2, hsnapshot] at hsame
  cases hsame

end
end Skein
