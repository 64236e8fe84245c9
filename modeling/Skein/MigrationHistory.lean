import Skein.Migrations

/-!
# What a migrated database has been through

`Landed` is the log of effects of a list of migrations that are recorded, `Leftover` what failed
attempts at the next one left. A ledger that is the beginning of a history makes
`selectPendingMigrations` accept every build of that history.
-/
namespace Skein

/-- What failed attempts at a migration of statements left behind: each ran some of its
statements from the first on, and the last of them may have failed. -/
inductive Leftover (next : Option SkeinMigration) : List SchemaEffect → Prop
  | nil : Leftover next []
  | cut {tail : List SchemaEffect} {migration : SkeinMigration} {statements done : List String} :
    Leftover next tail → next = some migration → migration.statements = some statements →
    done <+: statements → Leftover next (tail ++ done.map .ran)
  | broke {tail : List SchemaEffect} {migration : SkeinMigration} {statements done : List String}
    {statement : String} :
    Leftover next tail → next = some migration → migration.statements = some statements →
    done ++ [statement] <+: statements →
    Leftover next (tail ++ (done.map .ran ++ [.broke statement]))

/-- The effects of migrations that were applied one after another: a body once, and a list of
statements once in full after the attempts at it that failed. -/
inductive Landed : List SkeinMigration → List SchemaEffect → Prop
  | nil : Landed [] []
  | up {migrations : List SkeinMigration} {migration : SkeinMigration} {log : List SchemaEffect} :
    Landed migrations log → migration.statements = none →
    Landed (migrations ++ [migration]) (log ++ [.ran migration.up])
  | statements {migrations : List SkeinMigration} {migration : SkeinMigration}
    {statements : List String} {log tail : List SchemaEffect} :
    Landed migrations log → migration.statements = some statements →
    Leftover (some migration) tail →
    Landed (migrations ++ [migration]) (log ++ (tail ++ statements.map .ran))

/-- A migration that runs in a transaction leaves nothing behind when it fails. -/
theorem Leftover.eq_nil {migration : SkeinMigration} {tail : List SchemaEffect}
    (h : Leftover (some migration) tail) (hup : migration.statements = none) : tail = [] := by
  cases h with
  | nil => simp
  | cut _ hnext hstatements _ => simp_all
  | broke _ hnext hstatements _ => simp_all

/-- The first migrations of `all` are recorded, and the log holds them, what failed attempts at
the next one left, and the statements `done` of the attempt that is going on. -/
def Underway (all : List SkeinMigration) (tables : MigrationTables) (done : List String) : Prop :=
  ∃ log tail, Landed (all.take tables.rows.length) log ∧
    Leftover all[tables.rows.length]? tail ∧ tables.log = log ++ tail ++ done.map .ran

/-- The ledger read in its order is the beginning of `all`, and the log agrees with it. -/
structure TablesSound (all : List SkeinMigration) (clock nextId : ℕ) (tables : MigrationTables) :
    Prop where
  names : tables.rows.map LedgerRow.name =
    (all.take tables.rows.length).map SkeinMigration.name
  ordered : tables.rows.Pairwise LedgerRow.le
  bounded : ∀ row ∈ tables.rows, row.runOn ≤ clock ∧ row.id < nextId
  underway : Underway all tables []

theorem insertionSort_rows {rows : List LedgerRow} (h : rows.Pairwise LedgerRow.le) :
    rows.insertionSort LedgerRow.le = rows := h.insertionSort_eq

section tables
variable {all : List SkeinMigration} {clock nextId : ℕ} {tables : MigrationTables}

theorem TablesSound.names_eq (h : TablesSound all clock nextId tables) :
    tables.names = (all.take tables.rows.length).map SkeinMigration.name := by
  rw [MigrationTables.names, insertionSort_rows h.ordered, h.names]

theorem TablesSound.length_le (h : TablesSound all clock nextId tables) :
    tables.rows.length ≤ all.length := by
  have hlength := congrArg List.length h.names
  simp only [List.length_map, List.length_take] at hlength
  omega

theorem TablesSound.mono {clock' nextId' : ℕ} (h : TablesSound all clock nextId tables)
    (hclock : clock ≤ clock') (hnext : nextId ≤ nextId') :
    TablesSound all clock' nextId' tables where
  names := h.names
  ordered := h.ordered
  bounded row hrow := by
    have := h.bounded row hrow
    omega
  underway := h.underway

/-- An attempt that ends with `done` leaves these statements behind. -/
theorem Underway.stop {done statements : List String} {migration : SkeinMigration}
    (h : Underway all tables done) (hnext : all[tables.rows.length]? = some migration)
    (hstatements : migration.statements = some statements) (hdone : done <+: statements) :
    Underway all tables [] := by
  obtain ⟨log, tail, hlanded, hleft, hlog⟩ := h
  exact ⟨log, tail ++ done.map .ran, hlanded, hleft.cut hnext hstatements hdone, by simp [hlog]⟩

/-- The next statement of an attempt succeeds. -/
theorem Underway.ran {done : List String} {statement : String} (h : Underway all tables done) :
    Underway all (tables.effect (.ran statement)) (done ++ [statement]) := by
  obtain ⟨log, tail, hlanded, hleft, hlog⟩ := h
  exact ⟨log, tail, hlanded, hleft, by simp [MigrationTables.effect, hlog]⟩

/-- The next statement of an attempt fails. -/
theorem Underway.broke {done todo : List String} {statement : String} {migration : SkeinMigration}
    (h : Underway all tables done) (hnext : all[tables.rows.length]? = some migration)
    (hstatements : migration.statements = some (done ++ statement :: todo)) :
    Underway all (tables.effect (.broke statement)) [] := by
  obtain ⟨log, tail, hlanded, hleft, hlog⟩ := h
  have hbroke : Leftover all[tables.rows.length]?
      (tail ++ (done.map .ran ++ [.broke statement])) :=
    hleft.broke hnext hstatements (by simp)
  exact ⟨log, _, hlanded, hbroke, by simp [MigrationTables.effect, hlog]⟩

theorem take_succ_of_getElem? {k : ℕ} {migration : SkeinMigration}
    (h : all[k]? = some migration) : all.take (k + 1) = all.take k ++ [migration] := by
  simp [List.take_add_one, h]

/-- The row of a migration whose effects are complete. -/
theorem TablesSound.record {migration : SkeinMigration} {since : ℕ} {id : ℕ}
    (h : TablesSound all clock nextId tables) (copy : MigrationTables)
    (hnext : all[tables.rows.length]? = some migration)
    (hrows : copy.rows = tables.rows)
    (hlanded : Landed (all.take (tables.rows.length + 1)) copy.log)
    (hsince : since ≤ clock) (hruns : ∀ row ∈ tables.rows, row.runOn ≤ since)
    (hids : ∀ row ∈ tables.rows, row.id < id) (hid : id < nextId) :
    TablesSound all clock nextId (copy.record ⟨id, migration.name, since⟩) where
  names := by
    simp only [MigrationTables.record, hrows, List.map_append, List.length_append,
      List.length_singleton, take_succ_of_getElem? hnext, h.names, List.map_cons, List.map_nil]
  ordered := by
    simp only [MigrationTables.record, hrows]
    refine List.pairwise_append.mpr ⟨h.ordered, by simp, fun row hrow other hother => ?_⟩
    have hrun := hruns row hrow
    have hlt := hids row hrow
    obtain rfl := List.mem_singleton.mp hother
    simp only [LedgerRow.le]
    omega
  bounded row hrow := by
    simp only [MigrationTables.record, hrows, List.mem_append, List.mem_singleton] at hrow
    obtain hold | rfl := hrow
    · exact h.bounded row hold
    · exact ⟨hsince, hid⟩
  underway := ⟨copy.log, [], by simpa [MigrationTables.record, hrows] using hlanded, .nil,
    by simp [MigrationTables.record]⟩

end tables

/-- The ledger and the build begin with the same migrations: no position disagrees. -/
theorem checkOrder_take (all : List SkeinMigration) (n k index : ℕ) :
    checkOrder index (all.take n) ((all.take k).map SkeinMigration.name) = none := by
  induction all generalizing n k index with
  | nil => simp [checkOrder]
  | cons migration all ih =>
    cases n with
    | zero => simp [checkOrder]
    | succ n =>
      cases k with
      | zero => simp [checkOrder]
      | succ k => simpa [checkOrder] using ih n k (index + 1)

/-- What is pending is what the build declares after the ledger's last. -/
theorem filter_not_applied {all : List SkeinMigration}
    (hnames : (all.map SkeinMigration.name).Nodup) (n k : ℕ) :
    (all.take n).filter (fun migration =>
      !((all.take k).map SkeinMigration.name).contains migration.name) = (all.take n).drop k := by
  induction all generalizing n k with
  | nil => simp
  | cons migration all ih =>
    simp only [List.map_cons, List.nodup_cons] at hnames
    cases n with
    | zero => simp
    | succ n =>
      cases k with
      | zero => simp
      | succ k =>
        have hrest : ∀ other ∈ all.take n, (other.name == migration.name) = false := by
          intro other hother
          have hmem := List.mem_map_of_mem (f := SkeinMigration.name) (List.mem_of_mem_take hother)
          grind
        have hfilter := ih hnames.2 n k
        simp only [List.take_succ_cons, List.map_cons, List.contains_cons, List.drop_succ_cons,
          List.filter_cons, beq_self_eq_true, Bool.true_or, Bool.not_true, Bool.false_eq_true,
          ↓reduceIte, ← hfilter]
        exact List.filter_congr fun other hother => by simp [hrest other hother]

theorem selectPendingMigrations_eq {all migrations : List SkeinMigration}
    (hnames : (all.map SkeinMigration.name).Nodup) (hbuild : migrations <+: all) (k : ℕ) :
    selectPendingMigrations migrations ((all.take k).map SkeinMigration.name) =
      .ok (migrations.drop k) := by
  rw [List.prefix_iff_eq_take.mp hbuild, selectPendingMigrations, checkOrder_take]
  simp only [filter_not_applied hnames]

end Skein
