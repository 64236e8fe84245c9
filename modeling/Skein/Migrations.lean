import Mathlib.Data.List.Sort
import Mathlib.Logic.Function.Basic
import Skein.Machine

/-!
# Schema migrations of the Postgres store

`applySkeinMigrations`: any number of calls, each on a session of its own, take one advisory
lock, read the ledger and apply what it lacks. A call may lose its connection or die with its
process at any await; the server then still carries out the statement it was sent, and ends the
session when it notices. Every query is two steps, the server's and the client's, so that the
steps of all sessions come in any order.
-/
namespace Skein

/-- `SkeinMigration`: `statements` is present where `up` must run outside a transaction. -/
structure SkeinMigration where
  name : String
  up : String
  statements : Option (List String)
  deriving DecidableEq

/-- What a call throws, with the values its text carries; `database` is what the server or the
driver rejected a query with. -/
inductive MigrationError
  | lockTimeout
  | orderMismatch (appliedName declaredName : String) (position : ℕ)
  | rolledBack (migration cause : String)
  | notRolledBack (migration statement cause : String)
  | database (cause : String)
  deriving DecidableEq

abbrev MigrationResult := Except MigrationError (List String)

/-- The loop over the positions that the ledger and the build both have. -/
def checkOrder : ℕ → List SkeinMigration → List String → Option MigrationError
  | index, migration :: migrations, appliedName :: appliedNames =>
    if appliedName = migration.name then checkOrder (index + 1) migrations appliedNames
    else some (.orderMismatch appliedName migration.name (index + 1))
  | _, _, _ => none

def selectPendingMigrations (migrations : List SkeinMigration) (appliedNames : List String) :
    Except MigrationError (List SkeinMigration) :=
  match checkOrder 0 migrations appliedNames with
  | some error => .error error
  | none => .ok (migrations.filter fun migration => !appliedNames.contains migration.name)

structure LedgerRow where
  id : ℕ
  name : String
  runOn : ℕ
  deriving DecidableEq

/-- `ORDER BY run_on, id`. -/
def LedgerRow.le (a b : LedgerRow) : Prop := a.runOn < b.runOn ∨ a.runOn = b.runOn ∧ a.id ≤ b.id

instance : DecidableRel LedgerRow.le := fun a b => by unfold LedgerRow.le; infer_instance

/-- What running a text of SQL leaves behind. A text that fails outside a transaction may leave
something too: an index build that was cut short leaves an invalid index. -/
inductive SchemaEffect
  | ran (sql : String)
  | broke (sql : String)
  deriving DecidableEq

/-- What a transaction reads and writes: the ledger's rows as inserted, and every effect on the
schema, oldest first. -/
structure MigrationTables where
  rows : List LedgerRow
  log : List SchemaEffect

namespace MigrationTables

/-- `SELECT name … ORDER BY run_on, id`. -/
def names (tables : MigrationTables) : List String :=
  (tables.rows.insertionSort LedgerRow.le).map LedgerRow.name

def record (tables : MigrationTables) (row : LedgerRow) : MigrationTables :=
  { tables with rows := tables.rows ++ [row] }

def effect (tables : MigrationTables) (e : SchemaEffect) : MigrationTables :=
  { tables with log := tables.log ++ [e] }

end MigrationTables

/-- A session's transaction: `since` is what `NOW()` reads in it, `copy` what it would commit. -/
inductive MigrationTxn
  | idle
  | started (since : ℕ) (copy : MigrationTables)
  | aborted

/-- The queries of a call, in the order in which it makes them. -/
inductive MigrationQuery
  | setTimeout
  | tryLock
  | createLedger
  | readLedger
  | begin
  | sql (text : String)
  | insert (name : String)
  | commit
  | rollback
  | unlock
  deriving DecidableEq

inductive MigrationReply
  | done
  | locked (locked : Bool)
  | names (rows : List String)
  | released (released : Bool)
  | failed (cause : String)
  deriving DecidableEq

/-- The awaits of a call. `rest` is what is pending after the migration at hand. -/
inductive MigrationPoint
  | setting
  | probing
  | sleeping
  | creating
  | reading
  | beginning (migration : SkeinMigration) (rest : List SkeinMigration)
  | applying (migration : SkeinMigration) (rest : List SkeinMigration)
  | inserting (migration : SkeinMigration) (rest : List SkeinMigration)
  | committing (migration : SkeinMigration) (rest : List SkeinMigration)
  | rollingBack (migration : SkeinMigration) (cause : String)
  | running (migration : SkeinMigration) (statement : String) (todo : List String)
      (rest : List SkeinMigration)
  | recording (migration : SkeinMigration) (rest : List SkeinMigration)
  | unlocking (result : MigrationResult)

def MigrationPoint.query : MigrationPoint → Option MigrationQuery
  | setting => some .setTimeout
  | probing => some .tryLock
  | sleeping => none
  | creating => some .createLedger
  | reading => some .readLedger
  | beginning _ _ => some .begin
  | applying migration _ => some (.sql migration.up)
  | inserting migration _ => some (.insert migration.name)
  | committing _ _ => some .commit
  | rollingBack _ _ => some .rollback
  | running _ statement _ _ => some (.sql statement)
  | recording migration _ => some (.insert migration.name)
  | unlocking _ => some .unlock

/-- The loop of `applyConcurrentMigration`. -/
def nextStatement (migration : SkeinMigration) (rest : List SkeinMigration) :
    List String → MigrationPoint
  | [] => .recording migration rest
  | statement :: todo => .running migration statement todo rest

/-- The loop over the pending migrations; `names` is what the call returns in the end. -/
def nextMigration (names : List String) : List SkeinMigration → MigrationPoint
  | [] => .unlocking (.ok names)
  | migration :: rest =>
    match migration.statements with
    | some statements => nextStatement migration rest statements
    | none => .beginning migration rest

/-- The locals of a call of `applySkeinMigrations`. -/
structure MigrationCall where
  migrations : List SkeinMigration
  pending : List SkeinMigration
  discardClient : Bool
  point : MigrationPoint

/-- What a call does with a reply: it goes on, or releases its client and settles. -/
inductive MigrationMove
  | goOn (call : MigrationCall)
  | settle (discardClient : Bool) (result : MigrationResult)

namespace MigrationCall

def start (migrations : List SkeinMigration) : MigrationCall :=
  ⟨migrations, [], false, .setting⟩

def goTo (call : MigrationCall) (point : MigrationPoint) : MigrationMove :=
  .goOn { call with point }

def fail (call : MigrationCall) (error : MigrationError) : MigrationMove :=
  call.goTo (.unlocking (.error error))

/-- What the call does with the reply it awaited; `expired` is whether the deadline of the lock
has passed when it looks. -/
def resume (call : MigrationCall) (expired : Bool) (reply : MigrationReply) : MigrationMove :=
  match call.point, reply with
  | .setting, .failed cause => .settle call.discardClient (.error (.database cause))
  | .setting, _ => .goOn { call with discardClient := true, point := .probing }
  | .probing, .locked true => call.goTo .creating
  | .probing, .failed cause => .settle call.discardClient (.error (.database cause))
  | .probing, _ =>
    if expired then .settle call.discardClient (.error .lockTimeout) else call.goTo .sleeping
  | .sleeping, _ => call.goTo .probing
  | .creating, .failed cause => call.fail (.database cause)
  | .creating, _ => call.goTo .reading
  | .reading, .names rows =>
    match selectPendingMigrations call.migrations rows with
    | .error error => call.fail error
    | .ok pending => goTo { call with pending } (nextMigration (pending.map (·.name)) pending)
  | .reading, .failed cause => call.fail (.database cause)
  | .reading, _ => call.fail (.database "")
  -- `BEGIN` stands before the `try`, so its failure is not rolled back.
  | .beginning _ _, .failed cause => call.fail (.database cause)
  | .beginning migration rest, _ => call.goTo (.applying migration rest)
  | .applying migration _, .failed cause => call.goTo (.rollingBack migration cause)
  | .applying migration rest, _ => call.goTo (.inserting migration rest)
  | .inserting migration _, .failed cause => call.goTo (.rollingBack migration cause)
  | .inserting migration rest, _ => call.goTo (.committing migration rest)
  | .committing migration _, .failed cause => call.goTo (.rollingBack migration cause)
  | .committing _ rest, _ => call.goTo (nextMigration (call.pending.map (·.name)) rest)
  | .rollingBack migration cause, .failed _ =>
    .goOn { call with
      discardClient := true, point := .unlocking (.error (.rolledBack migration.name cause)) }
  | .rollingBack migration cause, _ => call.fail (.rolledBack migration.name cause)
  | .running migration statement _ _, .failed cause =>
    call.fail (.notRolledBack migration.name statement cause)
  | .running migration _ todo rest, _ => call.goTo (nextStatement migration rest todo)
  | .recording _ _, .failed cause => call.fail (.database cause)
  | .recording _ rest, _ => call.goTo (nextMigration (call.pending.map (·.name)) rest)
  | .unlocking result, .released true => .settle call.discardClient result
  | .unlocking result, _ => .settle true result

end MigrationCall

/-- Who has the client's end of a session: the pool, a call, or nobody any more. -/
inductive MigrationClient
  | unopened
  | pooled
  | calling (call : MigrationCall)
  | gone

/-- A session. `alive` is the server's end and `connected` the client's; `sent` is a query that
the server has not carried out yet, `reply` one's answer that the client has not taken yet. -/
structure MigrationSession where
  client : MigrationClient
  connected : Bool
  reply : Option MigrationReply
  alive : Bool
  timeoutLifted : Bool
  txn : MigrationTxn
  sent : Option MigrationQuery

def MigrationSession.unopened : MigrationSession := ⟨.unopened, false, none, false, false, .idle, none⟩

structure MigrationSystem where
  clock : ℕ
  nextId : ℕ
  ledger : Bool
  tables : MigrationTables
  /-- The session that holds the advisory lock. -/
  lock : Option ℕ
  sessions : ℕ → MigrationSession
  /-- Every call that settled: what its build declares and what it returned or threw. -/
  settled : List (List SkeinMigration × MigrationResult)

namespace MigrationSystem

/-- An empty database and no session. -/
def empty : MigrationSystem := ⟨0, 1, false, ⟨[], []⟩, none, fun _ => .unopened, []⟩

def setSession (s : MigrationSystem) (sid : ℕ) (session : MigrationSession) : MigrationSystem :=
  { s with sessions := Function.update s.sessions sid session }

def setTxn (s : MigrationSystem) (sid : ℕ) (txn : MigrationTxn) : MigrationSystem :=
  s.setSession sid { s.sessions sid with txn }

/-- The transaction a statement runs in: the session's own, or one of its own that commits at
once. -/
def write (s : MigrationSystem) (sid : ℕ) (f : ℕ → MigrationTables → MigrationTables) :
    MigrationSystem × MigrationReply :=
  match (s.sessions sid).txn with
  | .idle => ({ s with tables := f s.clock s.tables }, .done)
  | .started since copy => (s.setTxn sid (.started since (f since copy)), .done)
  | .aborted => (s, .failed "current transaction is aborted")

/-- The server carries a query out. -/
def perform (s : MigrationSystem) (sid : ℕ) : MigrationQuery → MigrationSystem × MigrationReply
  | .setTimeout => (s.setSession sid { s.sessions sid with timeoutLifted := true }, .done)
  | .tryLock =>
    if s.lock = none ∨ s.lock = some sid then ({ s with lock := some sid }, .locked true)
    else (s, .locked false)
  | .createLedger => ({ s with ledger := true }, .done)
  | .readLedger =>
    if s.ledger then (s, .names s.tables.names)
    else (s, .failed "relation does not exist")
  | .begin =>
    match (s.sessions sid).txn with
    | .idle => (s.setTxn sid (.started s.clock s.tables), .done)
    | _ => (s, .done)
  | .sql text => s.write sid fun _ tables => tables.effect (.ran text)
  -- The serial number is taken outside any transaction.
  | .insert name =>
    if s.ledger then
      { s with nextId := s.nextId + 1 }.write sid fun now tables =>
        tables.record ⟨s.nextId, name, now⟩
    else (s, .failed "relation does not exist")
  | .commit =>
    match (s.sessions sid).txn with
    | .started _ copy => ({ s with tables := copy }.setTxn sid .idle, .done)
    | _ => (s.setTxn sid .idle, .done)
  | .rollback => (s.setTxn sid .idle, .done)
  | .unlock =>
    if s.lock = some sid then ({ s with lock := none }, .released true)
    else (s, .released false)

/-- The server fails a query: a transaction that is open is aborted, or ended where it was to
end; a text that ran outside a transaction may leave something behind. -/
def refuse (s : MigrationSystem) (sid : ℕ) : MigrationQuery → MigrationSystem
  | .commit | .rollback => s.setTxn sid .idle
  | .sql text =>
    match (s.sessions sid).txn with
    | .idle => { s with tables := s.tables.effect (.broke text) }
    | _ => s.setTxn sid .aborted
  | _ =>
    match (s.sessions sid).txn with
    | .idle => s
    | _ => s.setTxn sid .aborted

/-- What comes of a query; `verdict` is why it fails, if it does. -/
def outcome (s : MigrationSystem) (sid : ℕ) (query : MigrationQuery) :
    Option String → MigrationSystem × MigrationReply
  | none => s.perform sid query
  | some cause => (s.refuse sid query, .failed cause)

def answer (s : MigrationSystem) (sid : ℕ) (reply : MigrationReply) : MigrationSystem :=
  s.setSession sid { s.sessions sid with sent := none, reply := some reply }

/-- The server takes up what the session sent. -/
def serve (s : MigrationSystem) (sid : ℕ) (verdict : Option String) : Option MigrationSystem :=
  if (s.sessions sid).alive then
    (s.sessions sid).sent.map fun query =>
      (s.outcome sid query verdict).1.answer sid (s.outcome sid query verdict).2
  else none

/-- The call goes on to its next await and sends that await's query. -/
def send (s : MigrationSystem) (sid : ℕ) (call : MigrationCall) : MigrationSystem :=
  let session := s.sessions sid
  s.setSession sid { session with
    client := .calling call
    reply := none
    sent := if session.connected then call.point.query else session.sent }

/-- `client.release(discardClient)`: the pool keeps no client whose connection was lost. -/
def release (s : MigrationSystem) (sid : ℕ) (discardClient : Bool) : MigrationSystem :=
  let session := s.sessions sid
  s.setSession sid { session with
    client := if discardClient || !session.connected then .gone else .pooled
    connected := session.connected && !discardClient
    reply := none }

def follow (s : MigrationSystem) (sid : ℕ) (migrations : List SkeinMigration) :
    MigrationMove → MigrationSystem
  | .goOn call => s.send sid call
  | .settle discardClient result =>
    { s.release sid discardClient with settled := s.settled ++ [(migrations, result)] }

/-- The call takes the reply; without a connection every query rejects. -/
def receive (s : MigrationSystem) (sid : ℕ) (expired : Bool) : Option MigrationSystem :=
  match (s.sessions sid).client with
  | .calling call =>
    if (s.sessions sid).connected then
      match call.point, (s.sessions sid).reply with
      | .sleeping, _ => some (s.follow sid call.migrations (call.resume expired .done))
      | _, some reply => some (s.follow sid call.migrations (call.resume expired reply))
      | _, none => none
    else
      some (s.follow sid call.migrations (call.resume expired (.failed "Connection terminated")))
  | _ => none

/-- `pool.connect()`: a client of the pool, or a new connection. -/
def connect (s : MigrationSystem) (sid : ℕ) (migrations : List SkeinMigration) :
    Option MigrationSystem :=
  match (s.sessions sid).client with
  | .pooled => some (s.send sid (.start migrations))
  | .unopened =>
    some ((s.setSession sid { MigrationSession.unopened with connected := true, alive := true }).send
      sid (.start migrations))
  | _ => none

/-- The client's end is lost: the call of the session, if it has one, finds out. -/
def drop (s : MigrationSystem) (sid : ℕ) : MigrationSystem :=
  s.setSession sid { s.sessions sid with connected := false }

/-- The process that has the client dies. -/
def crash (s : MigrationSystem) (sid : ℕ) : MigrationSystem :=
  s.setSession sid { s.sessions sid with client := .gone, connected := false }

/-- The server ends the session, with its settings and its transaction; its lock is free. -/
def reap (s : MigrationSystem) (sid : ℕ) : MigrationSystem :=
  { s.setSession sid { s.sessions sid with
      alive := false, timeoutLifted := false, txn := .idle, sent := none } with
    lock := if s.lock = some sid then none else s.lock }

end MigrationSystem

inductive MigrationAction
  | connect (sid : ℕ) (migrations : List SkeinMigration)
  | serve (sid : ℕ) (verdict : Option String)
  | receive (sid : ℕ) (expired : Bool)
  | drop (sid : ℕ)
  | crash (sid : ℕ)
  | reap (sid : ℕ)
  | setClock (now : ℕ)

def migrationMachine : Machine MigrationSystem MigrationAction where
  step s
    | .connect sid migrations => s.connect sid migrations
    | .serve sid verdict => s.serve sid verdict
    | .receive sid expired => s.receive sid expired
    | .drop sid => some (s.drop sid)
    | .crash sid => some (s.crash sid)
    | .reap sid => some (s.reap sid)
    | .setClock now => some { s with clock := now }

/-- The builds that are deployed share one history of migrations, and the server's clock is not
set back. -/
def MigrationAction.Deployed (all : List SkeinMigration) (s : MigrationSystem) :
    MigrationAction → Prop
  | .connect _ migrations => migrations <+: all
  | .setClock now => s.clock ≤ now
  | _ => True

instance (all : List SkeinMigration) (s : MigrationSystem) :
    ∀ a : MigrationAction, Decidable (a.Deployed all s)
  | .connect _ migrations => inferInstanceAs (Decidable (migrations <+: all))
  | .setClock now => inferInstanceAs (Decidable (s.clock ≤ now))
  | .serve .. | .receive .. | .drop _ | .crash _ | .reap _ => isTrue trivial

end Skein
