import Skein.MigrationHistory

/-!
# The calls of the migrations

The lock makes one session at a time the writer. What the server must find when it takes up the
query of an await is read off the await (`Before`), and every query that is served, and every
query that fails, comes to a state in which the call can go on (`serves`).
-/
namespace Skein

/-- What a session's steps read: `held` says that the session holds the lock. -/
structure MigrationView where
  clock : ℕ
  nextId : ℕ
  tables : MigrationTables
  held : Bool
  txn : MigrationTxn
  timeoutLifted : Bool

/-- What the client of a session can rely on. -/
def MigrationSystem.view (s : MigrationSystem) (sid : ℕ) : MigrationView :=
  ⟨s.clock, s.nextId, s.tables, s.lock == some sid, (s.sessions sid).txn,
    (s.sessions sid).timeoutLifted⟩

/-- A result that a call may settle with when the ledger has `k` rows. -/
def Fits (migrations : List SkeinMigration) (k : ℕ) : MigrationResult → Prop
  | .ok _ => migrations.length ≤ k
  | .error error => ∀ appliedName declaredName position,
    error ≠ .orderMismatch appliedName declaredName position

/-- The await stands at the migration that follows the ledger's `k` rows. -/
def MigrationPoint.Facing (migrations : List SkeinMigration) (k : ℕ) : MigrationPoint → Prop
  | beginning migration rest | applying migration rest | inserting migration rest
  | committing migration rest =>
    migrations.drop k = migration :: rest ∧ migration.statements = none
  | running migration statement todo rest =>
    migrations.drop k = migration :: rest ∧
      ∃ done, migration.statements = some (done ++ statement :: todo)
  | recording migration rest =>
    migrations.drop k = migration :: rest ∧ migration.statements.isSome
  | unlocking result => Fits migrations k result
  | _ => True

/-- The session's state as the server must find it when it takes up the query of an await. -/
def MigrationPoint.Seated (all : List SkeinMigration) (v : MigrationView) : MigrationPoint → Prop
  | setting => v.held = false ∧ v.txn = .idle ∧ v.timeoutLifted = false
  | probing | sleeping => v.held = false ∧ v.txn = .idle
  | creating | reading | beginning _ _ | unlocking _ => v.held = true ∧ v.txn = .idle
  | applying _ _ => v.held = true ∧ ∃ since, v.txn = .started since v.tables ∧ since ≤ v.clock ∧
      ∀ row ∈ v.tables.rows, row.runOn ≤ since
  | inserting migration _ => v.held = true ∧ ∃ since,
      v.txn = .started since (v.tables.effect (.ran migration.up)) ∧ since ≤ v.clock ∧
      ∀ row ∈ v.tables.rows, row.runOn ≤ since
  | committing migration _ => v.held = true ∧ ∃ since id,
      v.txn = .started since
        ((v.tables.effect (.ran migration.up)).record ⟨id, migration.name, since⟩) ∧
      since ≤ v.clock ∧ (∀ row ∈ v.tables.rows, row.runOn ≤ since) ∧
      (∀ row ∈ v.tables.rows, row.id < id) ∧ id < v.nextId
  | rollingBack _ _ => v.held = true
  | running migration statement todo _ => v.held = true ∧ v.txn = .idle ∧
      ∃ done, migration.statements = some (done ++ statement :: todo) ∧
        Underway all v.tables done
  | recording migration _ => v.held = true ∧ v.txn = .idle ∧
      ∃ statements, migration.statements = some statements ∧ Underway all v.tables statements

/-- A call whose await the server may serve. -/
structure Before (all : List SkeinMigration) (v : MigrationView) (call : MigrationCall) : Prop where
  build : call.migrations <+: all
  discard : call.discardClient = false → call.point = .setting
  facing : call.point.Facing call.migrations v.tables.rows.length
  seated : call.point.Seated all v

/-- A session that the pool may hand out. -/
structure Clean (v : MigrationView) : Prop where
  held : v.held = false
  txn : v.txn = .idle
  timeoutLifted : v.timeoutLifted = false

/-- The move leaves a call that the server may serve, or a result that fits and a clean client. -/
def MigrationMove.Lands (all : List SkeinMigration) (v : MigrationView)
    (migrations : List SkeinMigration) : MigrationMove → Prop
  | goOn call => call.migrations = migrations ∧ Before all v call
  | settle discardClient result =>
    Fits migrations v.tables.rows.length result ∧ (discardClient = false → Clean v)

/-- What the client alone knows, however its session fares: the ledger once had `j` rows. -/
def MigrationMove.Tells (migrations : List SkeinMigration) (k : ℕ) : MigrationMove → Prop
  | goOn call => call.migrations = migrations ∧ ∃ j ≤ k, call.point.Facing migrations j
  | settle _ result => Fits migrations k result

/-- What other sessions may change meanwhile: not the tables while this one holds the lock. -/
structure MigrationView.Later (v w : MigrationView) : Prop where
  clock : v.clock ≤ w.clock
  nextId : v.nextId ≤ w.nextId
  held : w.held = v.held
  txn : w.txn = v.txn
  timeoutLifted : w.timeoutLifted = v.timeoutLifted
  rows : v.tables.rows.length ≤ w.tables.rows.length
  tables : v.held = true → w.tables = v.tables

section calls
variable {all migrations : List SkeinMigration} {v w : MigrationView} {call : MigrationCall}

/-- The ledger only grows, so that what a result says of it stays true. -/
theorem Fits.mono {j k : ℕ} {result : MigrationResult} (h : Fits migrations j result)
    (hjk : j ≤ k) : Fits migrations k result := by
  cases result with
  | ok names =>
    simp only [Fits] at h ⊢
    omega
  | error error => exact h

theorem MigrationMove.Tells.mono {j k : ℕ} {move : MigrationMove}
    (h : move.Tells migrations j) (hjk : j ≤ k) : move.Tells migrations k := by
  cases move with
  | goOn call =>
    obtain ⟨hsame, i, hi, hfacing⟩ := h
    exact ⟨hsame, i, by omega, hfacing⟩
  | settle discardClient result => exact Fits.mono h hjk

/-- A move that lands tells nothing that the ledger does not bear out. -/
theorem MigrationMove.Lands.tells {move : MigrationMove} (h : move.Lands all v migrations) :
    move.Tells migrations v.tables.rows.length := by
  cases move with
  | goOn call =>
    obtain ⟨rfl, hbefore⟩ := h
    exact ⟨rfl, _, le_refl _, hbefore.facing⟩
  | settle discardClient result => exact h.1

/-- Where a session stands is its own affair. -/
theorem MigrationPoint.Seated.later {point : MigrationPoint} (h : point.Seated all v)
    (hlater : v.Later w) : point.Seated all w := by
  obtain ⟨hclock, hnext, hheld, htxn, hlifted, -, htables⟩ := hlater
  have hmono : ∀ since, since ≤ v.clock → since ≤ w.clock := fun since => by omega
  cases point <;> simp only [Seated, hheld, htxn, hlifted] at h ⊢ <;> try exact h
  all_goals
    have hsame := htables h.1
    simp only [hsame]
    grind

theorem MigrationPoint.Facing.later {point : MigrationPoint}
    (h : point.Facing migrations v.tables.rows.length) (hseated : point.Seated all v)
    (hlater : v.Later w) : point.Facing migrations w.tables.rows.length := by
  have htables := hlater.tables
  cases point <;> simp only [Facing, Seated] at h hseated ⊢ <;>
    · rw [htables hseated.1]
      exact h

/-- A call that waits is not disturbed by what others do. -/
theorem Before.later (h : Before all v call) (hlater : v.Later w) : Before all w call :=
  ⟨h.build, h.discard, h.facing.later h.seated hlater, h.seated.later hlater⟩

theorem Clean.later (h : Clean v) (hlater : v.Later w) : Clean w :=
  ⟨hlater.held ▸ h.held, hlater.txn ▸ h.txn, hlater.timeoutLifted ▸ h.timeoutLifted⟩

theorem Before.discards (h : Before all v call) (hpoint : call.point ≠ .setting) :
    call.discardClient = true := by
  cases hdiscard : call.discardClient with
  | false => exact absurd (h.discard hdiscard) hpoint
  | true => simp

/-- Nor is one that has just moved. -/
theorem MigrationMove.Lands.later {move : MigrationMove} (h : move.Lands all v migrations)
    (hlater : v.Later w) : move.Lands all w migrations := by
  cases move with
  | goOn call => exact ⟨h.1, h.2.later hlater⟩
  | settle discardClient result =>
    exact ⟨h.1.mono hlater.rows, fun hdiscard => (h.2 hdiscard).later hlater⟩

/-- Without a session that answers, a call can only come to a failure, or keep the result that
it was about to settle with. -/
theorem MigrationCall.tells_failed {j k : ℕ} (hfacing : call.point.Facing call.migrations j)
    (hjk : j ≤ k) (expired : Bool) (cause : String) :
    (call.resume expired (.failed cause)).Tells call.migrations k := by
  obtain ⟨migrations, pending, discard, point⟩ := call
  cases point <;>
    simp only [MigrationCall.resume, MigrationCall.fail, MigrationCall.goTo,
      MigrationMove.Tells, MigrationPoint.Facing, Fits, and_true, true_and, ne_eq,
      reduceCtorEq, not_false_eq_true, implies_true] at hfacing ⊢
  all_goals first | exact ⟨j, hjk⟩ | exact Fits.mono hfacing hjk

/-- A move to a point that the ledger allows. -/
theorem lands_goTo {point : MigrationPoint} (hbuild : call.migrations <+: all)
    (hdiscard : call.discardClient = true)
    (hfacing : point.Facing call.migrations v.tables.rows.length) (hseated : point.Seated all v) :
    (call.goTo point).Lands all v call.migrations :=
  ⟨rfl, hbuild, by simp [hdiscard], hfacing, hseated⟩

/-- A failure that is no order mismatch leaves through the unlock. -/
theorem lands_fail {error : MigrationError} (hbuild : call.migrations <+: all)
    (hdiscard : call.discardClient = true) (hheld : v.held = true) (hidle : v.txn = .idle)
    (herror : ∀ appliedName declaredName position,
      error ≠ .orderMismatch appliedName declaredName position) :
    (call.fail error).Lands all v call.migrations :=
  lands_goTo hbuild hdiscard herror ⟨hheld, hidle⟩

/-- The next statement of a migration outside a transaction, or its row. -/
theorem lands_nextStatement {migration : SkeinMigration} {rest : List SkeinMigration}
    {done todo : List String} (hbuild : call.migrations <+: all)
    (hdiscard : call.discardClient = true) (hheld : v.held = true) (hidle : v.txn = .idle)
    (hdrop : call.migrations.drop v.tables.rows.length = migration :: rest)
    (hstatements : migration.statements = some (done ++ todo))
    (hunderway : Underway all v.tables done) :
    (call.goTo (nextStatement migration rest todo)).Lands all v call.migrations := by
  cases todo with
  | nil =>
    exact lands_goTo hbuild hdiscard ⟨hdrop, by simp [hstatements]⟩
      ⟨hheld, hidle, done, by simpa using hstatements, hunderway⟩
  | cons statement todo =>
    exact lands_goTo hbuild hdiscard ⟨hdrop, done, hstatements⟩
      ⟨hheld, hidle, done, hstatements, hunderway⟩

/-- The next migration, or the unlock after the last. -/
theorem lands_nextMigration {names : List String} {rest : List SkeinMigration}
    (hbuild : call.migrations <+: all)
    (hdiscard : call.discardClient = true) (hheld : v.held = true) (hidle : v.txn = .idle)
    (hdrop : call.migrations.drop v.tables.rows.length = rest)
    (hunderway : Underway all v.tables []) :
    (call.goTo (nextMigration names rest)).Lands all v call.migrations := by
  cases rest with
  | nil => exact lands_goTo hbuild hdiscard (List.drop_eq_nil_iff.mp hdrop) ⟨hheld, hidle⟩
  | cons migration rest =>
    simp only [nextMigration]
    cases hstatements : migration.statements with
    | none => exact lands_goTo hbuild hdiscard ⟨hdrop, hstatements⟩ ⟨hheld, hidle⟩
    | some statements =>
      have hall : migration.statements = some ([] ++ statements) := hstatements
      exact lands_nextStatement hbuild hdiscard hheld hidle hdrop hall hunderway

/-- The migration after the ledger's last of a build is that of the whole history. -/
theorem next_of_drop {migration : SkeinMigration} {rest : List SkeinMigration} {k : ℕ}
    (hbuild : migrations <+: all) (hdrop : migrations.drop k = migration :: rest) :
    all[k]? = some migration ∧ migrations.drop (k + 1) = rest := by
  obtain ⟨others, rfl⟩ := hbuild
  have hget : migrations[k]? = some migration := by
    rw [← Nat.add_zero k, ← List.getElem?_drop, hdrop]
    simp
  have hlt := (List.getElem?_eq_some_iff.mp hget).1
  refine ⟨by rw [List.getElem?_append_left hlt, hget], ?_⟩
  rw [← List.drop_drop, hdrop]
  simp

end calls

namespace MigrationSystem
variable {all : List SkeinMigration} {s t : MigrationSystem} {sid : ℕ}

@[simp] theorem setSession_self (s : MigrationSystem) (sid : ℕ) (session : MigrationSession) :
    (s.setSession sid session).sessions sid = session := by simp [setSession]

@[simp] theorem lock_setSession (s : MigrationSystem) (sid : ℕ) (session : MigrationSession) :
    (s.setSession sid session).lock = s.lock := rfl

@[simp] theorem clock_setSession (s : MigrationSystem) (sid : ℕ) (session : MigrationSession) :
    (s.setSession sid session).clock = s.clock := rfl

@[simp] theorem nextId_setSession (s : MigrationSystem) (sid : ℕ) (session : MigrationSession) :
    (s.setSession sid session).nextId = s.nextId := rfl

@[simp] theorem tables_setSession (s : MigrationSystem) (sid : ℕ) (session : MigrationSession) :
    (s.setSession sid session).tables = s.tables := rfl

@[simp] theorem settled_setSession (s : MigrationSystem) (sid : ℕ) (session : MigrationSession) :
    (s.setSession sid session).settled = s.settled := rfl

@[simp] theorem view_setSession (s : MigrationSystem) (sid : ℕ) (session : MigrationSession) :
    (s.setSession sid session).view sid =
      { s.view sid with txn := session.txn, timeoutLifted := session.timeoutLifted } := by
  simp [view]

/-- A session is nothing to the others. -/
theorem setSession_other {other : ℕ} (h : other ≠ sid) (session : MigrationSession) :
    (s.setSession sid session).sessions other = s.sessions other := by simp [setSession, h]

/-- What a step of the server for one session leaves as it was. -/
structure Beside (s t : MigrationSystem) (sid : ℕ) : Prop where
  others : ∀ other ≠ sid, t.sessions other = s.sessions other
  client : (t.sessions sid).client = (s.sessions sid).client
  connected : (t.sessions sid).connected = (s.sessions sid).connected
  alive : (t.sessions sid).alive = (s.sessions sid).alive
  clock : t.clock = s.clock
  nextId : s.nextId ≤ t.nextId
  locks : ∀ other ≠ sid, t.lock = some other ↔ s.lock = some other
  settled : t.settled = s.settled

theorem Beside.refl (s : MigrationSystem) (sid : ℕ) : s.Beside s sid :=
  ⟨by simp, rfl, rfl, rfl, rfl, le_refl _, by simp, rfl⟩

theorem setTxn_beside (s : MigrationSystem) (sid : ℕ) (txn : MigrationTxn) :
    s.Beside (s.setTxn sid txn) sid := by
  constructor <;> simp +contextual [setTxn, setSession]

theorem write_beside (s : MigrationSystem) (sid : ℕ)
    (f : ℕ → MigrationTables → MigrationTables) : s.Beside (s.write sid f).1 sid := by
  unfold write
  split
  · constructor <;> simp
  · exact setTxn_beside ..
  · exact Beside.refl ..

/-- A query changes nothing of the other sessions but the tables. -/
theorem perform_beside (s : MigrationSystem) (sid : ℕ) (query : MigrationQuery) :
    s.Beside (s.perform sid query).1 sid := by
  cases query with
  | setTimeout => constructor <;> simp +contextual [perform, setSession]
  | tryLock =>
    simp only [perform]
    split
    next hfree =>
      constructor <;> simp
      grind
    · exact Beside.refl ..
  | createLedger => constructor <;> simp [perform]
  | readLedger =>
    simp only [perform]
    split <;> exact Beside.refl ..
  | begin =>
    simp only [perform]
    split
    · exact setTxn_beside ..
    · exact Beside.refl ..
  | sql text => exact write_beside ..
  | insert name =>
    simp only [perform]
    split
    · obtain ⟨ho, hc, hn, ha, hk, hi, hl, hs⟩ := write_beside { s with nextId := s.nextId + 1 } sid
        fun now tables => tables.record ⟨s.nextId, name, now⟩
      exact ⟨ho, hc, hn, ha, hk, by simp only at hi; omega, hl, hs⟩
    · exact Beside.refl ..
  | commit =>
    simp only [perform]
    split
    · constructor <;> simp +contextual [setTxn, setSession]
    · exact setTxn_beside ..
  | rollback => exact setTxn_beside ..
  | unlock =>
    simp only [perform]
    split
    next hheld =>
      constructor <;> simp
      grind
    · exact Beside.refl ..

theorem refuse_beside (s : MigrationSystem) (sid : ℕ) (query : MigrationQuery) :
    s.Beside (s.refuse sid query) sid := by
  unfold refuse
  split
  · exact setTxn_beside ..
  · exact setTxn_beside ..
  · split
    · constructor <;> simp
    · exact setTxn_beside ..
  · split
    · exact Beside.refl ..
    · exact setTxn_beside ..

/-- Nor does one that is refused. -/
theorem outcome_beside (s : MigrationSystem) (sid : ℕ) (query : MigrationQuery)
    (verdict : Option String) : s.Beside (s.outcome sid query verdict).1 sid := by
  cases verdict with
  | none => exact perform_beside ..
  | some cause => exact refuse_beside ..

/-- What serving the query of an await comes to. -/
structure Serves (all : List SkeinMigration) (s : MigrationSystem) (sid : ℕ)
    (call : MigrationCall) (o : MigrationSystem × MigrationReply) : Prop where
  sound : TablesSound all o.1.clock o.1.nextId o.1.tables
  rows : s.tables.rows.length ≤ o.1.tables.rows.length
  tables : s.lock = some sid ∨ o.1.tables = s.tables
  lands : ∀ expired, (call.resume expired o.2).Lands all (o.1.view sid) call.migrations

@[simp] theorem view_setTxn (s : MigrationSystem) (sid : ℕ) (txn : MigrationTxn) :
    (s.setTxn sid txn).view sid = { s.view sid with txn } := by simp [view, setTxn, setSession]

@[simp] theorem tables_setTxn (s : MigrationSystem) (sid : ℕ) (txn : MigrationTxn) :
    (s.setTxn sid txn).tables = s.tables := rfl

@[simp] theorem clock_setTxn (s : MigrationSystem) (sid : ℕ) (txn : MigrationTxn) :
    (s.setTxn sid txn).clock = s.clock := rfl

@[simp] theorem nextId_setTxn (s : MigrationSystem) (sid : ℕ) (txn : MigrationTxn) :
    (s.setTxn sid txn).nextId = s.nextId := rfl

section serves
variable {call : MigrationCall} {verdict : Option String} {migration : SkeinMigration}
  {rest : List SkeinMigration}

/-- A step of the server that leaves the tables as they are. -/
theorem Serves.still {o : MigrationSystem × MigrationReply}
    (hsound : TablesSound all s.clock s.nextId s.tables) (htables : o.1.tables = s.tables)
    (hclock : s.clock ≤ o.1.clock) (hnext : s.nextId ≤ o.1.nextId)
    (hlands : ∀ expired, (call.resume expired o.2).Lands all (o.1.view sid) call.migrations) :
    Serves all s sid call o :=
  ⟨htables ▸ hsound.mono hclock hnext, by rw [htables], .inr htables, hlands⟩

theorem lock_of_held (h : (s.view sid).held = true) : s.lock = some sid := by
  simpa [view] using h

theorem serves_setting (hsound : TablesSound all s.clock s.nextId s.tables)
    (h : Before all (s.view sid) call) (hpoint : call.point = .setting) :
    Serves all s sid call (s.outcome sid .setTimeout verdict) := by
  have hseated := h.seated
  rw [hpoint] at hseated
  obtain ⟨hheld, hidle, hlifted⟩ := hseated
  have htxn : (s.sessions sid).txn = .idle := hidle
  cases verdict with
  | some cause =>
    refine .still hsound ?_ ?_ ?_ ?_ <;> simp only [outcome, refuse, htxn, le_refl]
    intro expired
    simp only [MigrationCall.resume, hpoint]
    exact ⟨by simp [Fits], fun _ => ⟨hheld, hidle, hlifted⟩⟩
  | none =>
    refine .still hsound rfl (le_refl _) (le_refl _) fun expired => ?_
    simp only [outcome, perform, MigrationCall.resume, hpoint]
    refine ⟨rfl, h.build, by simp, trivial, ?_⟩
    simpa [MigrationPoint.Seated, view] using And.intro hheld hidle

/-- The probe takes the lock where it is free, and a session that finds it taken waits. -/
theorem serves_probing (hsound : TablesSound all s.clock s.nextId s.tables)
    (h : Before all (s.view sid) call) (hpoint : call.point = .probing) :
    Serves all s sid call (s.outcome sid .tryLock verdict) := by
  have hdiscard := h.discards (by simp [hpoint])
  have hseated := h.seated
  rw [hpoint] at hseated
  obtain ⟨hheld, hidle⟩ := hseated
  have htxn : (s.sessions sid).txn = .idle := hidle
  have hwait : ∀ reply, reply ≠ .locked true →
      ∀ expired, (call.resume expired reply).Lands all (s.view sid) call.migrations := by
    intro reply hreply expired
    cases expired <;> cases reply <;> simp only [MigrationCall.resume, hpoint] <;>
      grind [lands_goTo, MigrationPoint.Facing, MigrationPoint.Seated, MigrationMove.Lands, Fits,
        h.build]
  cases verdict with
  | some cause =>
    refine .still hsound ?_ ?_ ?_ ?_ <;> simp only [outcome, refuse, htxn, le_refl]
    exact hwait _ (by simp)
  | none =>
    simp only [outcome, perform]
    split_ifs with hfree
    · refine .still hsound rfl (le_refl _) (le_refl _) fun expired => ?_
      simp only [MigrationCall.resume, hpoint]
      exact lands_goTo h.build hdiscard trivial ⟨by simp [view], hidle⟩
    · exact .still hsound rfl (le_refl _) (le_refl _) (hwait _ (by simp))

/-- A query that changes nothing its session reads. -/
theorem Serves.quiet {o : MigrationSystem × MigrationReply}
    (hsound : TablesSound all s.clock s.nextId s.tables) (hview : o.1.view sid = s.view sid)
    (hlands : ∀ expired, (call.resume expired o.2).Lands all (s.view sid) call.migrations) :
    Serves all s sid call o :=
  .still hsound (congrArg MigrationView.tables hview)
    (le_of_eq (congrArg MigrationView.clock hview).symm)
    (le_of_eq (congrArg MigrationView.nextId hview).symm) fun expired => hview ▸ hlands expired

theorem serves_creating (hsound : TablesSound all s.clock s.nextId s.tables)
    (h : Before all (s.view sid) call) (hpoint : call.point = .creating) :
    Serves all s sid call (s.outcome sid .createLedger verdict) := by
  have hdiscard := h.discards (by simp [hpoint])
  have hseated := h.seated
  rw [hpoint] at hseated
  obtain ⟨hheld, hidle⟩ := hseated
  have htxn : (s.sessions sid).txn = .idle := hidle
  cases verdict with
  | some cause =>
    refine .quiet hsound (by simp [outcome, refuse, htxn]) fun expired => ?_
    simp only [outcome, MigrationCall.resume, hpoint]
    exact lands_fail h.build hdiscard hheld hidle (by simp)
  | none =>
    refine .quiet hsound (by simp [outcome, perform, view]) fun expired => ?_
    simp only [outcome, perform, MigrationCall.resume, hpoint]
    exact lands_goTo h.build hdiscard trivial ⟨hheld, hidle⟩

/-- What is pending after the read is what the build has beyond the rows of the ledger. -/
theorem serves_reading (hnames : (all.map SkeinMigration.name).Nodup)
    (hsound : TablesSound all s.clock s.nextId s.tables)
    (h : Before all (s.view sid) call) (hpoint : call.point = .reading) :
    Serves all s sid call (s.outcome sid .readLedger verdict) := by
  have hdiscard := h.discards (by simp [hpoint])
  have hseated := h.seated
  rw [hpoint] at hseated
  obtain ⟨hheld, hidle⟩ := hseated
  have htxn : (s.sessions sid).txn = .idle := hidle
  have hfail : ∀ cause expired,
      (call.resume expired (.failed cause)).Lands all (s.view sid) call.migrations := by
    intro cause expired
    simp only [MigrationCall.resume, hpoint]
    exact lands_fail h.build hdiscard hheld hidle (by simp)
  cases verdict with
  | some cause => exact .quiet hsound (by simp [outcome, refuse, htxn]) (hfail cause)
  | none =>
    simp only [outcome, perform]
    split_ifs
    · refine .quiet hsound rfl fun expired => ?_
      simp only [MigrationCall.resume, hpoint, hsound.names_eq,
        selectPendingMigrations_eq hnames h.build]
      have hcall : Before all (s.view sid)
          { call with pending := call.migrations.drop s.tables.rows.length } :=
        ⟨h.build, h.discard, h.facing, h.seated⟩
      exact lands_nextMigration hcall.build hdiscard hheld hidle rfl hsound.underway
    · exact .quiet hsound rfl (hfail _)

/-- A transaction starts from the tables that all sessions see. -/
theorem serves_beginning (hsound : TablesSound all s.clock s.nextId s.tables)
    (h : Before all (s.view sid) call) (hpoint : call.point = .beginning migration rest) :
    Serves all s sid call (s.outcome sid .begin verdict) := by
  have hdiscard := h.discards (by simp [hpoint])
  have hseated := h.seated
  have hfacing := h.facing
  rw [hpoint] at hseated hfacing
  obtain ⟨hheld, hidle⟩ := hseated
  have htxn : (s.sessions sid).txn = .idle := hidle
  cases verdict with
  | some cause =>
    refine .quiet hsound (by simp [outcome, refuse, htxn]) fun expired => ?_
    simp only [outcome, MigrationCall.resume, hpoint]
    exact lands_fail h.build hdiscard hheld hidle (by simp)
  | none =>
    simp only [outcome, perform, htxn]
    refine .still hsound rfl (le_refl _) (le_refl _) fun expired => ?_
    simp only [MigrationCall.resume, hpoint, view_setTxn]
    exact lands_goTo h.build hdiscard hfacing ⟨hheld, s.clock, rfl, le_refl _,
      fun row hrow => (hsound.bounded row hrow).1⟩

/-- A query in the transaction of a migration fails: the transaction is aborted, or over. -/
theorem serves_refused {query : MigrationQuery} {cause : String}
    (migration : SkeinMigration) (txn : MigrationTxn)
    (hsound : TablesSound all s.clock s.nextId s.tables)
    (h : Before all (s.view sid) call) (hdiscard : call.discardClient = true)
    (hheld : (s.view sid).held = true) (hrefuse : s.refuse sid query = s.setTxn sid txn)
    (hresume : ∀ expired,
      call.resume expired (.failed cause) = call.goTo (.rollingBack migration cause)) :
    Serves all s sid call (s.outcome sid query (some cause)) := by
  simp only [outcome, hrefuse]
  refine .still hsound rfl (le_refl _) (le_refl _) fun expired => ?_
  rw [hresume, view_setTxn]
  exact lands_goTo h.build hdiscard trivial hheld

theorem serves_applying (hsound : TablesSound all s.clock s.nextId s.tables)
    (h : Before all (s.view sid) call) (hpoint : call.point = .applying migration rest) :
    Serves all s sid call (s.outcome sid (.sql migration.up) verdict) := by
  have hdiscard := h.discards (by simp [hpoint])
  have hseated := h.seated
  have hfacing := h.facing
  rw [hpoint] at hseated hfacing
  obtain ⟨hheld, since, hstarted, hsince, hruns⟩ := hseated
  have htxn : (s.sessions sid).txn = .started since s.tables := hstarted
  cases verdict with
  | some cause =>
    exact serves_refused migration .aborted hsound h hdiscard hheld
      (by simp only [refuse, htxn])
      fun _ => by simp only [MigrationCall.resume, hpoint]
  | none =>
    simp only [outcome, perform, write, htxn]
    refine .still hsound rfl (le_refl _) (le_refl _) fun expired => ?_
    simp only [MigrationCall.resume, hpoint, view_setTxn]
    exact lands_goTo h.build hdiscard hfacing ⟨hheld, since, rfl, hsince, hruns⟩

theorem serves_inserting (hsound : TablesSound all s.clock s.nextId s.tables)
    (h : Before all (s.view sid) call) (hpoint : call.point = .inserting migration rest) :
    Serves all s sid call (s.outcome sid (.insert migration.name) verdict) := by
  have hdiscard := h.discards (by simp [hpoint])
  have hseated := h.seated
  have hfacing := h.facing
  rw [hpoint] at hseated hfacing
  obtain ⟨hheld, since, hstarted, hsince, hruns⟩ := hseated
  have htxn : (s.sessions sid).txn =
    .started since (s.tables.effect (.ran migration.up)) := hstarted
  cases verdict with
  | some cause =>
    exact serves_refused migration .aborted hsound h hdiscard hheld
      (by simp only [refuse, htxn])
      fun _ => by simp only [MigrationCall.resume, hpoint]
  | none =>
    simp only [outcome, perform]
    split_ifs
    · simp only [write, htxn]
      refine .still hsound rfl (le_refl _) (Nat.le_succ _) fun expired => ?_
      simp only [MigrationCall.resume, hpoint, view_setTxn]
      exact lands_goTo h.build hdiscard hfacing ⟨hheld, since, s.nextId, rfl, hsince, hruns,
        fun row hrow => (hsound.bounded row hrow).2, Nat.lt_succ_self _⟩
    · refine .quiet hsound rfl fun expired => ?_
      simp only [MigrationCall.resume, hpoint]
      exact lands_goTo h.build hdiscard trivial hheld

/-- With the commit the body and the row become visible together. -/
theorem serves_committing (hsound : TablesSound all s.clock s.nextId s.tables)
    (h : Before all (s.view sid) call) (hpoint : call.point = .committing migration rest) :
    Serves all s sid call (s.outcome sid .commit verdict) := by
  have hdiscard := h.discards (by simp [hpoint])
  have hseated := h.seated
  have hfacing := h.facing
  rw [hpoint] at hseated hfacing
  obtain ⟨hheld, since, id, hstarted, hsince, hruns, hids, hid⟩ := hseated
  obtain ⟨hdrop, hup⟩ := hfacing
  obtain ⟨hnext, hrest⟩ : all[s.tables.rows.length]? = some migration ∧
    call.migrations.drop (s.tables.rows.length + 1) = rest := next_of_drop h.build hdrop
  have htxn : (s.sessions sid).txn = .started since
    ((s.tables.effect (.ran migration.up)).record ⟨id, migration.name, since⟩) := hstarted
  cases verdict with
  | some cause =>
    exact serves_refused migration .idle hsound h hdiscard hheld rfl
      fun _ => by simp only [MigrationCall.resume, hpoint]
  | none =>
    have hlanded : Landed (all.take (s.tables.rows.length + 1))
        (s.tables.effect (.ran migration.up)).log := by
      obtain ⟨log, tail, hlog, hleft, heq⟩ := hsound.underway
      obtain rfl := (hnext ▸ hleft : Leftover (some migration) tail).eq_nil hup
      rw [take_succ_of_getElem? hnext]
      simpa [MigrationTables.effect, heq] using hlog.up hup
    have hcommitted := hsound.record (s.tables.effect (.ran migration.up)) hnext rfl hlanded
      hsince hruns hids hid
    simp only [outcome, perform, htxn]
    refine ⟨hcommitted, by simp [MigrationTables.record, MigrationTables.effect],
      .inl (lock_of_held hheld), fun expired => ?_⟩
    simp only [MigrationCall.resume, hpoint, view_setTxn]
    refine lands_nextMigration h.build hdiscard hheld rfl ?_ hcommitted.underway
    simpa [view, MigrationTables.record, MigrationTables.effect] using hrest

/-- After the rollback nothing of the migration is left. -/
theorem serves_rollingBack {cause : String} (hsound : TablesSound all s.clock s.nextId s.tables)
    (h : Before all (s.view sid) call) (hpoint : call.point = .rollingBack migration cause) :
    Serves all s sid call (s.outcome sid .rollback verdict) := by
  have hdiscard := h.discards (by simp [hpoint])
  have hheld := h.seated
  rw [hpoint] at hheld
  cases verdict with
  | some cause =>
    refine .still hsound rfl (le_refl _) (le_refl _) fun expired => ?_
    simp only [outcome, refuse, MigrationCall.resume, hpoint, view_setTxn]
    exact ⟨rfl, h.build, by simp, by simp [MigrationPoint.Facing, Fits], hheld, rfl⟩
  | none =>
    refine .still hsound rfl (le_refl _) (le_refl _) fun expired => ?_
    simp only [outcome, perform, MigrationCall.resume, hpoint, view_setTxn]
    exact lands_fail h.build hdiscard hheld rfl (by simp)

/-- A statement outside a transaction is visible at once. -/
theorem serves_running {statement : String} {todo : List String}
    (hsound : TablesSound all s.clock s.nextId s.tables) (h : Before all (s.view sid) call)
    (hpoint : call.point = .running migration statement todo rest) :
    Serves all s sid call (s.outcome sid (.sql statement) verdict) := by
  have hdiscard := h.discards (by simp [hpoint])
  have hseated := h.seated
  have hfacing := h.facing
  rw [hpoint] at hseated hfacing
  obtain ⟨hheld, hidle, done, hstatements, hunderway⟩ := hseated
  have hnext := (next_of_drop h.build hfacing.1).1
  have htxn : (s.sessions sid).txn = .idle := hidle
  have hsound' : ∀ e, Underway all (s.tables.effect e) [] →
      TablesSound all s.clock s.nextId (s.tables.effect e) := fun e he =>
    ⟨hsound.names, hsound.ordered, hsound.bounded, he⟩
  cases verdict with
  | some cause =>
    simp only [outcome, refuse, htxn]
    refine ⟨hsound' _ (hunderway.broke hnext hstatements), le_refl _, .inl (lock_of_held hheld),
      fun expired => ?_⟩
    simp only [MigrationCall.resume, hpoint]
    exact lands_fail h.build hdiscard hheld hidle (by simp)
  | none =>
    have hran : Underway all (s.tables.effect (.ran statement)) (done ++ [statement]) :=
      hunderway.ran
    have hstatements' : migration.statements = some (done ++ [statement] ++ todo) := by
      simpa using hstatements
    simp only [outcome, perform, write, htxn]
    refine ⟨hsound' _ (hran.stop hnext hstatements' (List.prefix_append _ _)), le_refl _,
      .inl (lock_of_held hheld), fun expired => ?_⟩
    simp only [MigrationCall.resume, hpoint]
    exact lands_nextStatement h.build hdiscard hheld hidle hfacing.1 hstatements' hran

theorem serves_recording (hsound : TablesSound all s.clock s.nextId s.tables)
    (h : Before all (s.view sid) call) (hpoint : call.point = .recording migration rest) :
    Serves all s sid call (s.outcome sid (.insert migration.name) verdict) := by
  have hdiscard := h.discards (by simp [hpoint])
  have hseated := h.seated
  have hfacing := h.facing
  rw [hpoint] at hseated hfacing
  obtain ⟨hheld, hidle, statements, hstatements, hunderway⟩ := hseated
  obtain ⟨hnext, hrest⟩ : all[s.tables.rows.length]? = some migration ∧
    call.migrations.drop (s.tables.rows.length + 1) = rest := next_of_drop h.build hfacing.1
  have htxn : (s.sessions sid).txn = .idle := hidle
  have hfail : ∀ cause expired,
      (call.resume expired (.failed cause)).Lands all (s.view sid) call.migrations := by
    intro cause expired
    simp only [MigrationCall.resume, hpoint]
    exact lands_fail h.build hdiscard hheld hidle (by simp)
  cases verdict with
  | some cause => exact .quiet hsound (by simp [outcome, refuse, htxn]) (hfail cause)
  | none =>
    have hlanded : Landed (all.take (s.tables.rows.length + 1)) s.tables.log := by
      obtain ⟨log, tail, hlog, hleft, heq⟩ : Underway all s.tables statements := hunderway
      rw [take_succ_of_getElem? hnext, heq, List.append_assoc]
      exact hlog.statements hstatements (hnext ▸ hleft)
    have hrecorded := (hsound.mono (le_refl _) (Nat.le_succ _)).record s.tables hnext rfl hlanded
      (le_refl s.clock) (fun row hrow => (hsound.bounded row hrow).1)
      (fun row hrow => (hsound.bounded row hrow).2) (Nat.lt_succ_self _)
    simp only [outcome, perform]
    split_ifs
    · simp only [write, htxn]
      refine ⟨hrecorded, by simp [MigrationTables.record], .inl (lock_of_held hheld),
        fun expired => ?_⟩
      simp only [MigrationCall.resume, hpoint]
      refine lands_nextMigration h.build hdiscard hheld hidle ?_ hrecorded.underway
      simpa [view, MigrationTables.record] using hrest
    · exact .quiet hsound rfl (hfail _)

/-- The lock is given back, or the client is discarded with it. -/
theorem serves_unlocking {result : MigrationResult}
    (hsound : TablesSound all s.clock s.nextId s.tables) (h : Before all (s.view sid) call)
    (hpoint : call.point = .unlocking result) :
    Serves all s sid call (s.outcome sid .unlock verdict) := by
  have hdiscard := h.discards (by simp [hpoint])
  have hseated := h.seated
  have hfits := h.facing
  rw [hpoint] at hseated hfits
  obtain ⟨hheld, hidle⟩ := hseated
  have htxn : (s.sessions sid).txn = .idle := hidle
  cases verdict with
  | some cause =>
    refine .quiet hsound (by simp [outcome, refuse, htxn]) fun expired => ?_
    simp only [outcome, MigrationCall.resume, hpoint]
    exact ⟨hfits, by simp⟩
  | none =>
    simp only [outcome, perform, lock_of_held hheld, ↓reduceIte]
    refine .still hsound rfl (le_refl _) (le_refl _) fun expired => ?_
    simp only [MigrationCall.resume, hpoint]
    exact ⟨hfits, by simp [hdiscard]⟩

/-- Every query of a call comes to a state in which the call can go on. -/
theorem serves (hnames : (all.map SkeinMigration.name).Nodup)
    (hsound : TablesSound all s.clock s.nextId s.tables) (h : Before all (s.view sid) call)
    {query : MigrationQuery} (hquery : call.point.query = some query)
    (verdict : Option String) : Serves all s sid call (s.outcome sid query verdict) := by
  cases hpoint : call.point <;> simp only [hpoint, MigrationPoint.query, reduceCtorEq,
    Option.some.injEq] at hquery <;> subst hquery
  · exact serves_setting hsound h hpoint
  · exact serves_probing hsound h hpoint
  · exact serves_creating hsound h hpoint
  · exact serves_reading hnames hsound h hpoint
  · exact serves_beginning hsound h hpoint
  · exact serves_applying hsound h hpoint
  · exact serves_inserting hsound h hpoint
  · exact serves_committing hsound h hpoint
  · exact serves_rollingBack hsound h hpoint
  · exact serves_running hsound h hpoint
  · exact serves_recording hsound h hpoint
  · exact serves_unlocking hsound h hpoint

end serves

end MigrationSystem

end Skein
