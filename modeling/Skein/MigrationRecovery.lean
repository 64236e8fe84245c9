import Skein.MigrationRuns

/-!
# A boot after failures

Whatever failed or died before, a boot that meets no failure itself comes to its end once the
server has ended the session that still has the lock. Each await is one exchange with the server,
and what is left to apply gets shorter.
-/
namespace Skein
namespace MigrationSystem
variable {all : List SkeinMigration} {s t : MigrationSystem} {sid : ℕ} {call next : MigrationCall}

/-- A call that waits for the server. -/
structure Waiting (all : List SkeinMigration) (s : MigrationSystem) (sid : ℕ)
    (call : MigrationCall) : Prop where
  alive : (s.sessions sid).alive = true
  connected : (s.sessions sid).connected = true
  client : (s.sessions sid).client = .calling call
  sent : (s.sessions sid).sent = call.point.query
  sound : TablesSound all s.clock s.nextId s.tables
  before : Before all (s.view sid) call

/-- The reply to the query of an await when nothing fails. -/
def expected (tables : MigrationTables) : MigrationPoint → MigrationReply
  | .probing => .locked true
  | .reading => .names tables.names
  | .unlocking _ => .released true
  | _ => .done

theorem perform_expected (h : Before all (s.view sid) call) {query : MigrationQuery}
    (hquery : call.point.query = some query)
    (hfree : call.point = .probing → s.lock = none)
    (hledger : call.point = .setting ∨ call.point = .probing ∨ call.point = .creating ∨
      s.ledger = true) :
    (s.perform sid query).2 = expected s.tables call.point := by
  have hseated := h.seated
  cases hpoint : call.point <;>
    simp only [hpoint, MigrationPoint.query, reduceCtorEq, Option.some.injEq, false_or, true_implies, MigrationPoint.Seated, view] at hquery hfree hledger hseated <;>
    subst hquery
  case setting | rollingBack | creating => simp [perform, expected]
  case probing => simp [perform, expected, hfree]
  case reading => simp [perform, expected, hledger]
  case beginning => simp [perform, expected, hseated.2]
  case applying =>
    obtain ⟨-, since, htxn, -⟩ := hseated
    simp [perform, expected, write, htxn]
  case inserting =>
    obtain ⟨-, since, htxn, -⟩ := hseated
    simp [perform, expected, write, htxn, hledger]
  case committing =>
    obtain ⟨-, since, id, htxn, -⟩ := hseated
    simp [perform, expected, htxn]
  case running => simp [perform, expected, write, hseated.2.1]
  case recording => simp [perform, expected, write, hseated.2.1, hledger]
  case unlocking =>
    have hlock : s.lock = some sid := by simpa using hseated.1
    simp [perform, expected, hlock]

theorem perform_ledger (h : s.ledger = true) (query : MigrationQuery) :
    (s.perform sid query).1.ledger = true := by
  cases query <;> simp only [perform, write, setTxn, setSession] <;> (repeat' split) <;> simp [h]

/-- What the call must know for its next query to succeed: the lock is free when it first asks
for it, and the ledger is there from `creating` on. -/
structure Unhindered (s : MigrationSystem) (call : MigrationCall) : Prop where
  free : call.point = .setting ∨ call.point = .probing → s.lock = none
  ledger : call.point = .setting ∨ call.point = .probing ∨ call.point = .creating ∨
    s.ledger = true

section exchange
variable (hwaiting : Waiting all s sid call) (hunhindered : Unhindered s call)
  {query : MigrationQuery} (hquery : call.point.query = some query)
include hwaiting hunhindered hquery

theorem perform_waiting : (s.perform sid query).2 = expected s.tables call.point :=
  perform_expected hwaiting.before hquery (fun h => hunhindered.free (.inr h)) hunhindered.ledger

/-- The server carries the query out and the call takes the reply. -/
theorem run_exchange : migrationMachine.run s [.serve sid none, .receive sid false] =
    some (((s.perform sid query).1.answer sid (s.perform sid query).2).follow sid call.migrations
      (call.resume false (expected s.tables call.point))) := by
  have hb := s.perform_beside sid query
  have hpoint : call.point ≠ .sleeping := by
    intro h
    simp [h, MigrationPoint.query] at hquery
  have hserve : s.serve sid none =
      some ((s.perform sid query).1.answer sid (s.perform sid query).2) := by
    simp [serve, outcome, hwaiting.alive, hwaiting.sent, hquery]
  have hreply := perform_waiting hwaiting hunhindered hquery
  simp only [Machine.run, migrationMachine, hserve, Option.bind_some, receive, answer,
    setSession_self, hb.client, hwaiting.client, hb.connected, hwaiting.connected, ↓reduceIte,
    Option.bind_fun_some, hreply]

theorem exchange_goOn (hnames : (all.map SkeinMigration.name).Nodup)
    (hresume : call.resume false (expected s.tables call.point) = .goOn next) :
    ∃ t, migrationMachine.run s [.serve sid none, .receive sid false] = some t ∧
      Waiting all t sid next ∧ t.settled = s.settled ∧
      t.tables = (s.perform sid query).1.tables ∧ t.lock = (s.perform sid query).1.lock ∧
      t.ledger = (s.perform sid query).1.ledger := by
  have hserves := serves hnames hwaiting.sound hwaiting.before hquery none
  have hb := s.perform_beside sid query
  have hrun := run_exchange hwaiting hunhindered hquery
  rw [hresume] at hrun
  have hlands := hserves.lands false
  simp only [outcome] at hserves hlands
  rw [perform_waiting hwaiting hunhindered hquery, hresume] at hlands
  refine ⟨_, hrun, ?_, hb.settled, rfl, rfl, rfl⟩
  constructor <;>
    simp only [follow, send, answer, setSession_self, view_setSession, tables_setSession,
      clock_setSession, nextId_setSession, hb.alive, hb.connected, hwaiting.alive,
      hwaiting.connected, ↓reduceIte]
  · exact hserves.sound
  · exact hlands.2

theorem exchange_settle {discard : Bool} {result : MigrationResult}
    (hresume : call.resume false (expected s.tables call.point) = .settle discard result) :
    ∃ t, migrationMachine.run s [.serve sid none, .receive sid false] = some t ∧
      t.settled = s.settled ++ [(call.migrations, result)] ∧
      t.tables = (s.perform sid query).1.tables := by
  have hrun := run_exchange hwaiting hunhindered hquery
  rw [hresume] at hrun
  exact ⟨_, hrun, by simp [follow, answer, (s.perform_beside sid query).settled], rfl⟩

end exchange

/-- The call comes to its end with this result when nothing fails, and the tables are then such
that `Ends`. -/
def Settles (s : MigrationSystem) (sid : ℕ) (entry : List SkeinMigration × MigrationResult)
    (Ends : MigrationTables → Prop) : Prop :=
  ∃ n t, migrationMachine.run s (exchanges sid n) = some t ∧
    t.settled = s.settled ++ [entry] ∧ Ends t.tables

theorem exchanges_succ (sid n : ℕ) :
    exchanges sid (n + 1) = [.serve sid none, .receive sid false] ++ exchanges sid n := by
  simp [exchanges, List.replicate_succ]

theorem Settles.after {entry : List SkeinMigration × MigrationResult}
    {Ends : MigrationTables → Prop}
    (hrun : migrationMachine.run s [.serve sid none, .receive sid false] = some t)
    (hsettled : t.settled = s.settled) (h : Settles t sid entry Ends) :
    Settles s sid entry Ends := by
  obtain ⟨n, u, hu, hentry, hends⟩ := h
  exact ⟨n + 1, u, by rw [exchanges_succ, Machine.run_append, hrun]; exact hu,
    by rw [hentry, hsettled], hends⟩

/-- One await of the migrations' loops is over, and so is the rest by what is known of it. -/
theorem Settles.step (hnames : (all.map SkeinMigration.name).Nodup)
    (hwaiting : Waiting all s sid call) (hledger : s.ledger = true)
    (hpoint : call.point ≠ .setting ∧ call.point ≠ .probing) {query : MigrationQuery}
    (hquery : call.point.query = some query)
    (hresume : call.resume false (expected s.tables call.point) = .goOn next)
    {entry : List SkeinMigration × MigrationResult} {Ends : MigrationTables → Prop}
    (h : ∀ t, Waiting all t sid next → t.ledger = true →
      t.tables = (s.perform sid query).1.tables → Settles t sid entry Ends) :
    Settles s sid entry Ends := by
  have hunhindered : Unhindered s call := ⟨by simp [hpoint], by simp [hledger]⟩
  obtain ⟨t, hrun, hnext, hsettled, htables, -, hkept⟩ :=
    exchange_goOn hwaiting hunhindered hquery hnames hresume
  exact .after hrun hsettled (h t hnext (hkept ▸ perform_ledger hledger query) htables)

theorem settles_unlocking {result : MigrationResult}
    (hwaiting : Waiting all s sid { call with point := .unlocking result })
    (hledger : s.ledger = true) {Ends : MigrationTables → Prop} (hends : Ends s.tables) :
    Settles s sid (call.migrations, result) Ends := by
  have hunhindered : Unhindered s { call with point := .unlocking result } :=
    ⟨by simp, by simp [hledger]⟩
  obtain ⟨t, hrun, hsettled, htables⟩ := exchange_settle hwaiting hunhindered rfl rfl
  have hsame : t.tables = s.tables := by
    rw [htables]
    simp only [perform]
    split_ifs <;> rfl
  exact ⟨1, t, by simpa [exchanges] using hrun, hsettled, hsame ▸ hends⟩

/-- The tables after each of the migrations was run once and recorded: one row for each, in their
order, and the effects of each, once, and nothing else. -/
structure Applied (before : MigrationTables) (migrations : List SkeinMigration)
    (after : MigrationTables) : Prop where
  rows : ∃ added, after.rows = before.rows ++ added ∧
    added.map LedgerRow.name = migrations.map SkeinMigration.name
  log : after.log = before.log ++ migrations.flatMap SkeinMigration.applied

theorem Applied.refl (tables : MigrationTables) : Applied tables [] tables :=
  ⟨⟨[], by simp⟩, by simp⟩

theorem Applied.cons {before between after : MigrationTables} {migration : SkeinMigration}
    {rest : List SkeinMigration} (hfirst : Applied before [migration] between)
    (hrest : Applied between rest after) : Applied before (migration :: rest) after := by
  obtain ⟨⟨added, hrows, hnames⟩, hlog⟩ := hfirst
  obtain ⟨⟨others, hrows', hnames'⟩, hlog'⟩ := hrest
  exact ⟨⟨added ++ others, by simp [hrows', hrows], by simp [hnames, hnames']⟩,
    by simp [hlog', hlog]⟩

theorem Settles.imp {entry : List SkeinMigration × MigrationResult}
    {Ends Ends' : MigrationTables → Prop} (h : Settles s sid entry Ends)
    (himp : ∀ tables, Ends tables → Ends' tables) : Settles s sid entry Ends' := by
  obtain ⟨n, t, hrun, hsettled, hends⟩ := h
  exact ⟨n, t, hrun, hsettled, himp _ hends⟩

section loops
variable {migration : SkeinMigration} {rest : List SkeinMigration}
  {entry : List SkeinMigration × MigrationResult} {Ends : MigrationTables → Prop}

/-- The statements that are left, the row, and then the rest. -/
theorem settles_nextStatement (hnames : (all.map SkeinMigration.name).Nodup)
    (todo : List String)
    (hrest : ∀ t, t.ledger = true →
      Waiting all t sid
        { call with point := nextMigration (call.pending.map (·.name)) rest } →
      (∃ row : LedgerRow, row.name = migration.name ∧ t.tables.rows = s.tables.rows ++ [row]) →
      t.tables.log = s.tables.log ++ todo.map .ran → Settles t sid entry Ends)
    (hledger : s.ledger = true)
    (hwaiting : Waiting all s sid { call with point := nextStatement migration rest todo }) :
    Settles s sid entry Ends := by
  induction todo generalizing s with
  | nil =>
    have hidle : (s.sessions sid).txn = .idle := hwaiting.before.seated.2.1
    refine .step hnames hwaiting hledger (by simp [nextStatement]) rfl rfl
      fun t ht hkept htables => hrest t hkept ht ⟨⟨s.nextId, migration.name, s.clock⟩, rfl, ?_⟩ ?_
    · simp [htables, perform, hledger, write, hidle, MigrationTables.record]
    · simp [htables, perform, hledger, write, hidle, MigrationTables.record]
  | cons statement todo ih =>
    have hidle : (s.sessions sid).txn = .idle := hwaiting.before.seated.2.1
    refine .step hnames hwaiting hledger (by simp [nextStatement]) rfl rfl
      fun t ht hkept htables => ih (fun u hu hwaits hrow hlog => ?_) hkept ht
    have hran : t.tables = s.tables.effect (.ran statement) := by
      simp [htables, perform, write, hidle]
    refine hrest u hu hwaits (by simpa [hran, MigrationTables.effect] using hrow) ?_
    simpa [hran, MigrationTables.effect] using hlog

/-- A body and its row, which the commit makes visible together, and then the rest. -/
theorem settles_transaction (hnames : (all.map SkeinMigration.name).Nodup)
    (hrest : ∀ t, t.ledger = true →
      Waiting all t sid
        { call with point := nextMigration (call.pending.map (·.name)) rest } →
      (∃ id since, t.tables =
        (s.tables.effect (.ran migration.up)).record ⟨id, migration.name, since⟩) →
      Settles t sid entry Ends)
    (hledger : s.ledger = true)
    (hwaiting : Waiting all s sid { call with point := .beginning migration rest }) :
    Settles s sid entry Ends := by
  have hidle : (s.sessions sid).txn = .idle := hwaiting.before.seated.2
  refine .step hnames hwaiting hledger (by simp) rfl rfl fun t ht hkept hbegun => ?_
  obtain ⟨-, since, hstarted, -⟩ := ht.before.seated
  have hstarted : (t.sessions sid).txn = .started since t.tables := hstarted
  refine .step hnames ht hkept (by simp) rfl rfl fun u hu hkept hran => ?_
  obtain ⟨-, since, hrun, -⟩ := hu.before.seated
  have hrun : (u.sessions sid).txn = .started since (u.tables.effect (.ran migration.up)) := hrun
  refine .step hnames hu hkept (by simp) rfl rfl fun v hv hkept hinserted => ?_
  obtain ⟨-, since, id, hcopy, -⟩ := hv.before.seated
  have hcopy : (v.sessions sid).txn = .started since
    ((v.tables.effect (.ran migration.up)).record ⟨id, migration.name, since⟩) := hcopy
  refine .step hnames hv hkept (by simp) rfl rfl fun w hw hkept hcommitted => ?_
  have hsame : v.tables = s.tables := by
    simp only [perform, write, hidle, hstarted, hrun, tables_setTxn] at hbegun hran hinserted
    rw [hinserted]
    split_ifs <;> simp [hran, hbegun]
  refine hrest w hkept hw ⟨id, since, ?_⟩
  simp only [hcommitted, perform, hcopy, tables_setTxn, hsame]

/-- The migrations that are left, and then the lock. -/
theorem settles_nextMigration (call : MigrationCall) (hnames : (all.map SkeinMigration.name).Nodup)
    (rest : List SkeinMigration) (hledger : s.ledger = true)
    (hwaiting : Waiting all s sid
      { call with point := nextMigration (call.pending.map (·.name)) rest }) :
    Settles s sid (call.migrations, .ok (call.pending.map (·.name))) (Applied s.tables rest) := by
  induction rest generalizing s with
  | nil => exact settles_unlocking hwaiting hledger (.refl _)
  | cons migration rest ih =>
    cases hstatements : migration.statements with
    | some statements =>
      simp only [nextMigration, hstatements] at hwaiting
      refine settles_nextStatement hnames statements (fun t hkept ht hrow hlog => ?_) hledger
        hwaiting
      obtain ⟨row, hname, hrows⟩ := hrow
      have hfirst : Applied s.tables [migration] t.tables :=
        ⟨⟨[row], hrows, by simp [hname]⟩, by simp [hlog, SkeinMigration.applied, hstatements]⟩
      exact (ih hkept ht).imp fun _ => hfirst.cons
    | none =>
      simp only [nextMigration, hstatements] at hwaiting
      refine settles_transaction hnames (fun t hkept ht hcommitted => ?_) hledger hwaiting
      obtain ⟨id, since, htables⟩ := hcommitted
      have hfirst : Applied s.tables [migration] t.tables := by
        rw [htables]
        exact ⟨⟨[⟨id, migration.name, since⟩], rfl, rfl⟩,
          by simp [MigrationTables.record, MigrationTables.effect, SkeinMigration.applied,
            hstatements]⟩
      exact (ih hkept ht).imp fun _ => hfirst.cons

end loops

/-- The call has the lock to itself: it applies what the ledger lacks and returns those names. -/
theorem settles_start (hnames : (all.map SkeinMigration.name).Nodup) (hfree : s.lock = none)
    (hwaiting : Waiting all s sid (.start all)) :
    Settles s sid (all, .ok ((all.drop s.tables.rows.length).map (·.name)))
      (Applied s.tables (all.drop s.tables.rows.length)) := by
  obtain ⟨t, hrun, ht, hsettled, htables, hlock, -⟩ :=
    exchange_goOn hwaiting ⟨fun _ => hfree, .inl rfl⟩ rfl hnames rfl
  refine .after hrun hsettled ?_
  obtain ⟨u, hrun', hu, hsettled', htables', -⟩ :=
    exchange_goOn ht ⟨fun _ => by rw [hlock]; exact hfree, .inr (.inl rfl)⟩ rfl hnames rfl
  refine .after hrun' hsettled' ?_
  obtain ⟨v, hrun'', hv, hsettled'', htables'', -, hledger⟩ :=
    exchange_goOn hu ⟨by simp, .inr (.inr (.inl rfl))⟩ rfl hnames rfl
  refine .after hrun'' hsettled'' ?_
  have hsame : v.tables = s.tables := by
    simp only [perform] at htables htables' htables''
    rw [htables'', htables', apply_ite Prod.fst, apply_ite tables, ite_self, htables,
      tables_setSession]
  have hread : v.tables.names = (all.take s.tables.rows.length).map (·.name) := by
    rw [hsame]
    exact (hsame ▸ hv.sound).names_eq
  set pending := all.drop s.tables.rows.length
  let last : MigrationCall := ⟨all, pending, true, nextMigration (pending.map (·.name)) pending⟩
  have hresume : MigrationCall.resume ⟨all, [], true, .reading⟩ false (.names v.tables.names) =
      .goOn last := by
    simp only [MigrationCall.resume, hread, selectPendingMigrations_eq hnames (List.prefix_refl _)]
    rfl
  have hrest : ∀ w : MigrationSystem, Waiting all w sid last → w.ledger = true →
      w.tables = (v.perform sid .readLedger).1.tables →
      Settles w sid (all, .ok (pending.map (·.name))) (Applied s.tables pending) := by
    intro w hw hkept htables
    have hunread : w.tables = s.tables := by
      rw [htables, ← hsame]
      simp only [perform]
      split_ifs <;> rfl
    exact hunread ▸ settles_nextMigration last hnames pending hkept hw
  exact .step hnames hv (hledger.trans rfl) (by simp) rfl hresume hrest

/-- The state in which the server has ended the session that had the lock. -/
theorem run_reapHolder (h : MigrationSound all s) (hfresh : (s.sessions sid).client = .unopened) :
    ∃ t, migrationMachine.run s (s.lock.map .reap).toList = some t ∧ MigrationSound all t ∧
      t.lock = none ∧ t.tables = s.tables ∧ t.settled = s.settled ∧
      (t.sessions sid).client = .unopened := by
  cases hlock : s.lock with
  | none => exact ⟨s, rfl, h, hlock, rfl, rfl, hfresh⟩
  | some holder =>
    have hother : sid ≠ holder := by
      rintro rfl
      have hheld := ((h.sessions sid).dead ((h.sessions sid).unopened hfresh)).held
      simp [view, hlock] at hheld
    have hsame := setSession_other (s := s) hother
    refine ⟨s.reap holder, rfl, h.reap, ?_, rfl, rfl, ?_⟩
    · simp [reap, hlock]
    · simp only [reap, hsame]
      exact hfresh

theorem waiting_connect (h : MigrationSound all s)
    (hfresh : (s.sessions sid).client = .unopened) :
    ∃ t, s.connect sid all = some t ∧ Waiting all t sid (.start all) ∧ t.lock = s.lock ∧
      t.tables = s.tables ∧ t.settled = s.settled := by
  have hheld := ((h.sessions sid).dead ((h.sessions sid).unopened hfresh)).held
  have hstep : s.connect sid all = some
      ((s.setSession sid { MigrationSession.unopened with connected := true, alive := true }).send
        sid (.start all)) := by simp only [connect, hfresh]
  refine ⟨_, hstep, ?_, rfl, rfl, rfl⟩
  constructor <;> simp only [send, setSession_self, view_setSession, tables_setSession,
    clock_setSession, nextId_setSession, MigrationSession.unopened, ↓reduceIte]
  · exact h.tables
  · exact ⟨List.prefix_refl _, fun _ => rfl, trivial, hheld, rfl, rfl⟩

end MigrationSystem

/-- The instance dies while it has the lock, with a body that is not committed. -/
def crashedBoot : List MigrationAction :=
  .connect 0 tableAndIndex :: exchanges 0 6 ++ [.crash 0]

end Skein
