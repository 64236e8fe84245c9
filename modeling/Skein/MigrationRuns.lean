import Skein.MigrationCalls

/-!
# What every run of the migrations leaves

A session whose client is lost keeps what its last query needs, for the server may still carry
that query out; a client whose session is lost keeps what it knows of the ledger. Both survive
the steps of every other session.
-/
namespace Skein

namespace MigrationSystem
variable {all : List SkeinMigration} {s t : MigrationSystem} {sid : ℕ}

/-- What holds of one session, whoever has its client's end. -/
structure SessionSound (all : List SkeinMigration) (s : MigrationSystem) (sid : ℕ) : Prop where
  /-- A query on its way is that of an await that the server may serve, though the call that sent
  it may be gone. -/
  sent : (s.sessions sid).alive = true → ∀ query, (s.sessions sid).sent = some query →
    ∃ call, Before all (s.view sid) call ∧ call.point.query = some query ∧
      ((s.sessions sid).connected = true → (s.sessions sid).client = .calling call)
  waits : (s.sessions sid).alive = true → (s.sessions sid).connected = true →
    ∀ call, (s.sessions sid).client = .calling call → (s.sessions sid).sent = none →
      (s.sessions sid).reply = none → Before all (s.view sid) call
  replied : (s.sessions sid).alive = true → (s.sessions sid).connected = true →
    ∀ call, (s.sessions sid).client = .calling call → ∀ reply,
      (s.sessions sid).reply = some reply → ∀ expired,
        (call.resume expired reply).Lands all (s.view sid) call.migrations
  one : (s.sessions sid).reply = none ∨ (s.sessions sid).sent = none
  build : ∀ call, (s.sessions sid).client = .calling call → call.migrations <+: all
  knows : ∀ call, (s.sessions sid).client = .calling call →
    ∃ j ≤ s.tables.rows.length, call.point.Facing call.migrations j
  tells : ∀ call, (s.sessions sid).client = .calling call → (s.sessions sid).connected = true →
    ∀ reply, (s.sessions sid).reply = some reply → ∀ expired,
      (call.resume expired reply).Tells call.migrations s.tables.rows.length
  pooled : (s.sessions sid).client = .pooled → Clean (s.view sid) ∧ (s.sessions sid).sent = none
  unopened : (s.sessions sid).client = .unopened → (s.sessions sid).alive = false
  dead : (s.sessions sid).alive = false → Clean (s.view sid)

/-- The database is sound, every session is, and every call that settled may have. -/
structure MigrationSound (all : List SkeinMigration) (s : MigrationSystem) : Prop where
  tables : TablesSound all s.clock s.nextId s.tables
  sessions : ∀ sid, SessionSound all s sid
  settled : ∀ call ∈ s.settled, call.1 <+: all ∧ Fits call.1 s.tables.rows.length call.2

theorem SessionSound.later (h : SessionSound all s sid)
    (hsame : t.sessions sid = s.sessions sid) (hlater : (s.view sid).Later (t.view sid)) :
    SessionSound all t sid where
  sent := by
    rw [hsame]
    intro halive query hquery
    obtain ⟨call, hbefore, hcall⟩ := h.sent halive query hquery
    exact ⟨call, hbefore.later hlater, hcall⟩
  waits := by
    rw [hsame]
    exact fun halive hconnected call hcall hsent hreply =>
      (h.waits halive hconnected call hcall hsent hreply).later hlater
  replied := by
    rw [hsame]
    exact fun halive hconnected call hcall reply hreply expired =>
      (h.replied halive hconnected call hcall reply hreply expired).later hlater
  one := by
    rw [hsame]
    exact h.one
  build := by
    rw [hsame]
    exact h.build
  knows := by
    rw [hsame]
    intro call hcall
    obtain ⟨j, hj, hfacing⟩ := h.knows call hcall
    exact ⟨j, hj.trans hlater.rows, hfacing⟩
  tells := by
    rw [hsame]
    exact fun call hcall hconnected reply hreply expired =>
      (h.tells call hcall hconnected reply hreply expired).mono hlater.rows
  pooled := by
    rw [hsame]
    exact fun hpooled => ⟨(h.pooled hpooled).1.later hlater, (h.pooled hpooled).2⟩
  unopened := by
    rw [hsame]
    exact h.unopened
  dead := by
    rw [hsame]
    exact fun hdead => (h.dead hdead).later hlater

/-- Sessions other than the one that a step is about see the same database, or one that only its
lock's holder changed. -/
theorem MigrationSound.beside (h : MigrationSound all s)
    (settled : List (List SkeinMigration × MigrationResult))
    (hothers : ∀ other ≠ sid, t.sessions other = s.sessions other)
    (hclock : s.clock ≤ t.clock) (hnext : s.nextId ≤ t.nextId)
    (hlocks : ∀ other ≠ sid, t.lock = some other ↔ s.lock = some other)
    (hrows : s.tables.rows.length ≤ t.tables.rows.length)
    (htables : s.lock = some sid ∨ t.tables = s.tables)
    (hsound : TablesSound all t.clock t.nextId t.tables) (hown : SessionSound all t sid)
    (hsettled : t.settled = s.settled ++ settled)
    (hnew : ∀ call ∈ settled, call.1 <+: all ∧ Fits call.1 t.tables.rows.length call.2) :
    MigrationSound all t where
  tables := hsound
  sessions other := by
    by_cases hother : other = sid
    · exact hother ▸ hown
    have hsame := hothers other hother
    refine (h.sessions other).later hsame ⟨hclock, hnext, ?_, ?_, ?_, hrows, fun hheld => ?_⟩
    · have := hlocks other hother
      simp only [view]
      grind
    · simp [view, hsame]
    · simp [view, hsame]
    · obtain hlock | hkept := htables
      · have hheld := lock_of_held hheld
        rw [hlock] at hheld
        exact absurd (Option.some.inj hheld).symm hother
      · exact hkept
  settled call hcall := by
    rw [hsettled, List.mem_append] at hcall
    obtain hold | hfresh := hcall
    · exact ⟨(h.settled call hold).1, (h.settled call hold).2.mono hrows⟩
    · exact hnew call hfresh

theorem MigrationSound.serve {verdict : Option String}
    (hnames : (all.map SkeinMigration.name).Nodup) (h : MigrationSound all s)
    (hstep : s.serve sid verdict = some t) : MigrationSound all t := by
  have hsession := h.sessions sid
  simp only [MigrationSystem.serve, Option.ite_none_right_eq_some, Option.map_eq_some_iff] at hstep
  obtain ⟨halive, query, hsent, rfl⟩ := hstep
  obtain ⟨call, hbefore, hquery, hcall⟩ := hsession.sent halive query hsent
  obtain ⟨hsound, hrows, htables, hlands⟩ := serves hnames h.tables hbefore hquery verdict
  have hb := s.outcome_beside sid query verdict
  generalize s.outcome sid query verdict = o at hsound hrows htables hlands hb ⊢
  have hsame : ∀ other, (o.1.sessions sid).client = .calling other →
      (o.1.sessions sid).connected = true → other = call := by
    intro other hother hconnected
    rw [hb.client, hcall (hb.connected ▸ hconnected)] at hother
    simpa using hother.symm
  have hclient := hb.client
  have halive' := hb.alive
  have hothers : ∀ other ≠ sid, (o.1.answer sid o.2).sessions other = s.sessions other :=
    fun other hother => by simp [answer, setSession_other hother, hb.others other hother]
  refine h.beside [] hothers (by simp [answer, hb.clock]) (by simpa [answer] using hb.nextId)
    (by simpa [answer] using hb.locks) (by simpa [answer] using hrows)
    (by simpa [answer] using htables) (by simpa [answer] using hsound) ?_
    (by simp [answer, hb.settled]) (by simp)
  constructor <;> simp only [answer, setSession_self, view_setSession, tables_setSession]
  case sent => simp
  case waits => simp
  case replied =>
    intro _ hconnected other hother reply hreply expired
    rw [hsame other hother hconnected, ← Option.some.inj hreply]
    exact hlands expired
  case one => simp
  case build => exact hclient ▸ hsession.build
  case knows =>
    intro other hother
    obtain ⟨j, hj, hfacing⟩ := hsession.knows other (hclient ▸ hother)
    exact ⟨j, hj.trans hrows, hfacing⟩
  case tells =>
    intro other hother hconnected reply hreply expired
    rw [hsame other hother hconnected, ← Option.some.inj hreply]
    exact (hlands expired).tells
  case pooled =>
    intro hpooled
    simp [(hsession.pooled (hclient ▸ hpooled)).2] at hsent
  case unopened =>
    intro hunopened
    simp [hsession.unopened (hclient ▸ hunopened)] at halive
  case dead => simp [halive', halive]

/-- A step of the client: the database is as it was. -/
theorem MigrationSound.client_step (h : MigrationSound all s) (session : MigrationSession)
    (settled : List (List SkeinMigration × MigrationResult))
    (hown : SessionSound all (s.setSession sid session) sid)
    (hnew : ∀ call ∈ settled, call.1 <+: all ∧ Fits call.1 s.tables.rows.length call.2) :
    MigrationSound all { s.setSession sid session with settled := s.settled ++ settled } := by
  have hothers : ∀ other ≠ sid, (s.setSession sid session).sessions other = s.sessions other :=
    fun other hother => setSession_other hother session
  refine h.beside settled hothers (le_refl _) (le_refl _) (by simp) (le_refl _) (.inr rfl)
    h.tables ?_ rfl hnew
  exact hown.later rfl ⟨le_refl _, le_refl _, rfl, rfl, rfl, le_refl _, fun _ => rfl⟩

theorem MigrationSound.session_step (h : MigrationSound all s) (session : MigrationSession)
    (hown : SessionSound all (s.setSession sid session) sid) :
    MigrationSound all (s.setSession sid session) := by
  have hclient := h.client_step session [] hown (by simp)
  simp only [List.append_nil] at hclient
  exact hclient

/-- The session of a call that goes on. -/
theorem sends {call : MigrationCall}
    (horphan : (s.sessions sid).alive = true → (s.sessions sid).connected = false →
      ∀ query, (s.sessions sid).sent = some query →
        ∃ call, Before all (s.view sid) call ∧ call.point.query = some query)
    (hdead : (s.sessions sid).alive = false → Clean (s.view sid))
    (hbuild : call.migrations <+: all)
    (hknows : ∃ j ≤ s.tables.rows.length, call.point.Facing call.migrations j)
    (hbefore : (s.sessions sid).alive = true → (s.sessions sid).connected = true →
      Before all (s.view sid) call) : SessionSound all (s.send sid call) sid := by
  constructor <;> simp only [send, setSession_self, view_setSession, tables_setSession]
  case sent =>
    intro halive query hquery
    cases hconnected : (s.sessions sid).connected with
    | false =>
      have horphaned := horphan halive hconnected query (by simpa [hconnected] using hquery)
      obtain ⟨other, hother, hsent⟩ := horphaned
      exact ⟨other, hother, hsent, by simp⟩
    | true => exact ⟨call, hbefore halive hconnected, by simpa [hconnected] using hquery, by simp⟩
  case waits => exact fun halive hconnected other hother _ _ =>
    MigrationClient.calling.inj hother ▸ hbefore halive hconnected
  case replied => simp
  case one => simp
  case build => exact fun other hother => MigrationClient.calling.inj hother ▸ hbuild
  case knows => exact fun other hother => MigrationClient.calling.inj hother ▸ hknows
  case tells => simp
  case pooled => simp
  case unopened => simp
  case dead => exact hdead

/-- The client's end of a session is given back or given up, or its connection is lost. -/
theorem leaves (client : MigrationClient) (connected : Bool) (reply : Option MigrationReply)
    (h : SessionSound all s sid)
    (hconnected : connected = true → client = .pooled)
    (hreply : reply = none ∨ reply = (s.sessions sid).reply)
    (hclient : client = (s.sessions sid).client ∨ client = .gone ∨
      client = .pooled ∧ Clean (s.view sid) ∧ (s.sessions sid).sent = none) :
    SessionSound all (s.setSession sid { s.sessions sid with client, connected, reply }) sid := by
  constructor <;> simp only [setSession_self, view_setSession, tables_setSession]
  case sent =>
    intro halive query hquery
    obtain ⟨call, hbefore, hcall, -⟩ := h.sent halive query hquery
    refine ⟨call, hbefore, hcall, fun hc => ?_⟩
    obtain rfl := hconnected hc
    obtain hsame | hgone | ⟨-, -, hnone⟩ := hclient
    · simp [(h.pooled hsame.symm).2] at hquery
    · simp at hgone
    · simp [hnone] at hquery
  case waits =>
    intro _ hc call hcall
    simp [hconnected hc] at hcall
  case replied =>
    intro _ hc call hcall
    simp [hconnected hc] at hcall
  case one =>
    obtain rfl | rfl := hreply
    · simp
    · exact h.one
  case build =>
    intro call hcall
    obtain rfl | rfl | ⟨rfl, -⟩ := hclient
    · exact h.build call hcall
    · simp at hcall
    · simp at hcall
  case knows =>
    intro call hcall
    obtain rfl | rfl | ⟨rfl, -⟩ := hclient
    · exact h.knows call hcall
    · simp at hcall
    · simp at hcall
  case tells =>
    intro call hcall hc
    simp [hconnected hc] at hcall
  case pooled =>
    intro hpooled
    obtain rfl | rfl | ⟨rfl, hclean, hnone⟩ := hclient
    · exact h.pooled hpooled
    · simp at hpooled
    · exact ⟨hclean, hnone⟩
  case unopened =>
    intro hunopened
    obtain rfl | rfl | ⟨rfl, -⟩ := hclient
    · exact h.unopened hunopened
    · simp at hunopened
    · simp at hunopened
  case dead => exact h.dead

theorem MigrationSound.receive {expired : Bool} (h : MigrationSound all s)
    (hstep : s.receive sid expired = some t) : MigrationSound all t := by
  have hsession := h.sessions sid
  have hfollow : ∀ call, (s.sessions sid).client = .calling call → ∀ move : MigrationMove,
      move.Tells call.migrations s.tables.rows.length →
      ((s.sessions sid).alive = true → (s.sessions sid).connected = true →
        move.Lands all (s.view sid) call.migrations) →
      ((s.sessions sid).connected = true → ∀ discard result, move = .settle discard result →
        (s.sessions sid).sent = none) →
      MigrationSound all (s.follow sid call.migrations move) := by
    intro call hcall move htells hlands hsent
    have hbuild := hsession.build call hcall
    cases move with
    | goOn next =>
      obtain ⟨hsame, hknows⟩ := htells
      rw [← hsame] at hknows hbuild
      have hown : SessionSound all (s.send sid next) sid := by
        refine sends (fun halive _ query hquery => ?_) hsession.dead hbuild hknows
          fun halive hconnected => (hlands halive hconnected).2
        obtain ⟨other, hother, hq, -⟩ := hsession.sent halive query hquery
        exact ⟨other, hother, hq⟩
      exact h.session_step _ hown
    | settle discard result =>
      refine h.client_step _ [(call.migrations, result)] (leaves _ _ _ hsession ?_ (.inl rfl) ?_)
        (by simpa using ⟨hbuild, htells⟩)
      · grind
      · cases hconnected : (s.sessions sid).connected with
        | false => simp
        | true =>
          cases discard with
          | true => simp
          | false =>
            refine .inr (.inr ⟨by simp, ?_, hsent hconnected _ _ rfl⟩)
            cases halive : (s.sessions sid).alive with
            | false => exact hsession.dead halive
            | true => exact (hlands halive hconnected).2 rfl
  simp only [MigrationSystem.receive] at hstep
  split at hstep
  case h_2 => simp at hstep
  rename_i call hcall
  split_ifs at hstep with hconnected
  · split at hstep
    case h_3 => simp at hstep
    next hpoint =>
      obtain rfl := Option.some.inj hstep
      have hresume : ∀ reply, call.resume expired reply = call.goTo .probing := fun reply => by
        simp only [MigrationCall.resume, hpoint]
      rw [hresume]
      refine hfollow call hcall _ ⟨rfl, 0, Nat.zero_le _, trivial⟩ (fun halive _ => ?_)
        (by simp [MigrationCall.goTo])
      cases hreply : (s.sessions sid).reply with
      | some reply =>
        exact hresume reply ▸ hsession.replied halive hconnected call hcall reply hreply expired
      | none =>
        have hsent : (s.sessions sid).sent = none := by
          refine Option.eq_none_iff_forall_ne_some.mpr fun query hquery => ?_
          obtain ⟨other, -, hq, hother⟩ := hsession.sent halive query hquery
          obtain rfl := MigrationClient.calling.inj (hcall ▸ hother hconnected)
          simp [hpoint, MigrationPoint.query] at hq
        have hbefore := hsession.waits halive hconnected call hcall hsent hreply
        have hseated := hbefore.seated
        rw [hpoint] at hseated
        exact lands_goTo hbefore.build (hbefore.discards (by simp [hpoint])) trivial hseated
    next reply hreply _ =>
      obtain rfl := Option.some.inj hstep
      exact hfollow call hcall _ (hsession.tells call hcall hconnected reply hreply expired)
        (fun halive _ => hsession.replied halive hconnected call hcall reply hreply expired)
        fun _ _ _ _ => hsession.one.resolve_left (by simp [hreply])
  · obtain rfl := Option.some.inj hstep
    obtain ⟨j, hj, hfacing⟩ := hsession.knows call hcall
    exact hfollow call hcall _ (MigrationCall.tells_failed hfacing hj _ _)
      (fun _ hc => absurd hc hconnected) fun hc => absurd hc hconnected

theorem MigrationSound.connect {migrations : List SkeinMigration} (h : MigrationSound all s)
    (hbuild : migrations <+: all) (hstep : s.connect sid migrations = some t) :
    MigrationSound all t := by
  have hsession := h.sessions sid
  have hstart : ∀ v : MigrationView, Clean v → Before all v (.start migrations) := fun v hv =>
    ⟨hbuild, fun _ => rfl, trivial, hv.held, hv.txn, hv.timeoutLifted⟩
  simp only [MigrationSystem.connect] at hstep
  split at hstep
  next hpooled =>
    obtain rfl := Option.some.inj hstep
    obtain ⟨hclean, hnone⟩ := hsession.pooled hpooled
    have hown : SessionSound all (s.send sid (.start migrations)) sid :=
      sends (by simp [hnone]) (fun _ => hclean) hbuild ⟨0, Nat.zero_le _, trivial⟩
        fun _ _ => hstart _ hclean
    exact h.session_step _ hown
  next hunopened =>
    obtain rfl := Option.some.inj hstep
    have hheld : (s.view sid).held = false :=
      (hsession.dead (hsession.unopened hunopened)).held
    set opened := s.setSession sid
      { MigrationSession.unopened with connected := true, alive := true }
    have hclean : Clean (opened.view sid) := by
      constructor <;> simp [opened, MigrationSession.unopened, hheld]
    have hown : SessionSound all (opened.send sid (.start migrations)) sid :=
      sends (by simp [opened, MigrationSession.unopened])
        (by simp [opened]) hbuild ⟨0, Nat.zero_le _, trivial⟩ fun _ _ => hstart _ hclean
    have hsend : opened.send sid (.start migrations) =
        s.setSession sid ((opened.send sid (.start migrations)).sessions sid) := by
      simp [opened, send, setSession]
    rw [hsend]
    exact h.session_step _ (hsend ▸ hown)
  · simp at hstep

theorem MigrationSound.reap (h : MigrationSound all s) : MigrationSound all (s.reap sid) := by
  have hsession := h.sessions sid
  have hheld : (s.reap sid).lock ≠ some sid := by
    simp only [MigrationSystem.reap]
    split_ifs with hlock <;> simp [hlock]
  have hown : (s.reap sid).sessions sid = { s.sessions sid with
      alive := false, timeoutLifted := false, txn := .idle, sent := none } := by
    simp [MigrationSystem.reap, setSession]
  have hclean : Clean ((s.reap sid).view sid) := by
    constructor <;> simp [view, hown, hheld]
  have hothers : ∀ other ≠ sid, (s.reap sid).sessions other = s.sessions other :=
    fun other hother => by simp [MigrationSystem.reap, setSession, hother]
  refine h.beside [] hothers (le_refl _) (le_refl _) (fun other hother => ?_) (le_refl _)
    (.inr rfl) h.tables ?_ (by simp [MigrationSystem.reap]) (by simp)
  · simp only [MigrationSystem.reap]
    split_ifs with hlock
    · simp [hlock, hother.symm]
    · simp
  · constructor <;> simp only [hown]
    case sent => simp
    case waits => simp
    case replied => simp
    case one => simp
    case build => exact hsession.build
    case knows => exact hsession.knows
    case tells => exact hsession.tells
    case pooled => exact fun _ => ⟨hclean, by simp⟩
    case unopened => simp
    case dead => exact fun _ => hclean

theorem MigrationSound.step {a : MigrationAction} (hnames : (all.map SkeinMigration.name).Nodup)
    (h : MigrationSound all s) (hdeployed : a.Deployed all s)
    (hstep : migrationMachine.step s a = some t) : MigrationSound all t := by
  cases a with
  | connect sid migrations => exact h.connect hdeployed hstep
  | serve sid verdict => exact h.serve hnames hstep
  | receive sid expired => exact h.receive hstep
  | drop sid =>
    obtain rfl := Option.some.inj hstep
    exact h.session_step _ (leaves _ false _ (h.sessions sid) (by simp) (.inr rfl) (.inl rfl))
  | crash sid =>
    obtain rfl := Option.some.inj hstep
    exact h.session_step _ (leaves .gone false _ (h.sessions sid) (by simp) (.inr rfl)
      (.inr (.inl rfl)))
  | reap sid =>
    obtain rfl := Option.some.inj hstep
    exact h.reap
  | setClock now =>
    obtain rfl := Option.some.inj hstep
    exact ⟨h.tables.mono hdeployed (le_refl _), fun sid => (h.sessions sid).later rfl
      ⟨hdeployed, le_refl _, rfl, rfl, rfl, le_refl _, fun _ => rfl⟩, h.settled⟩

theorem MigrationSound.empty (all : List SkeinMigration) : MigrationSound all empty where
  tables := ⟨by simp [MigrationSystem.empty], by simp [MigrationSystem.empty],
    by simp [MigrationSystem.empty], [], [], .nil, .nil, rfl⟩
  sessions sid := by
    constructor <;> simp [MigrationSystem.empty, MigrationSession.unopened]
    constructor <;> simp [view]
  settled := by simp [MigrationSystem.empty]

theorem MigrationSound.run {as : List MigrationAction}
    (hnames : (all.map SkeinMigration.name).Nodup)
    (hdeployed : migrationMachine.Along (fun s a => a.Deployed all s) .empty as)
    (h : migrationMachine.run .empty as = some s) : MigrationSound all s :=
  Machine.run_invariant_along (fun _ _ _ hs ha hstep => hs.step hnames ha hstep)
    (MigrationSound.empty all) hdeployed h

theorem nextStatement_ne_setting (migration : SkeinMigration) (rest : List SkeinMigration)
    (todo : List String) : nextStatement migration rest todo ≠ .setting := by
  cases todo <;> simp [nextStatement]

theorem nextMigration_ne_setting (names : List String) (rest : List SkeinMigration) :
    nextMigration names rest ≠ .setting := by
  cases rest with
  | nil => simp [nextMigration]
  | cons migration rest =>
    cases hstatements : migration.statements with
    | none => simp [nextMigration, hstatements]
    | some statements =>
      simpa [nextMigration, hstatements] using nextStatement_ne_setting migration rest statements

/-- A call discards its client in the end, unless its first query failed. -/
def MoveDiscards (call : MigrationCall) (reply : MigrationReply) : MigrationMove → Prop
  | .goOn next => next.point ≠ .setting ∧ next.discardClient = true
  | .settle discardClient _ =>
    discardClient = true ∨ call.point = .setting ∧ ∃ cause, reply = .failed cause

theorem moveDiscards_resume {call : MigrationCall}
    (hdiscards : call.point ≠ .setting → call.discardClient = true) (expired : Bool)
    (reply : MigrationReply) : MoveDiscards call reply (call.resume expired reply) := by
  have hgoTo : ∀ point, call.point ≠ .setting → point ≠ .setting →
      MoveDiscards call reply (call.goTo point) := fun point h hpoint => ⟨hpoint, hdiscards h⟩
  by_cases hpoint : call.point = .setting
  · unfold MigrationCall.resume
    rw [hpoint]
    cases reply <;> simp [MoveDiscards, hpoint]
  · have hdiscard := hdiscards hpoint
    unfold MigrationCall.resume
    split
    case h_1 hsetting => exact absurd hsetting hpoint
    case h_2 hsetting _ => exact absurd hsetting hpoint
    case h_5 =>
      split_ifs
      · exact .inl hdiscard
      · exact hgoTo _ hpoint (by simp)
    case h_9 =>
      split
      · exact hgoTo _ hpoint (by simp)
      · exact ⟨nextMigration_ne_setting _ _, hdiscard⟩
    all_goals first
      | exact .inl hdiscard
      | exact .inl rfl
      | exact hgoTo _ hpoint (nextMigration_ne_setting _ _)
      | exact hgoTo _ hpoint (nextStatement_ne_setting _ _ _)
      | exact ⟨MigrationPoint.noConfusion, rfl⟩
      | exact hgoTo _ hpoint MigrationPoint.noConfusion

/-- What holds of one session, whoever has its client's end and whatever it declares. While a
call waits for its first query, that was not carried out, or the call will hear that it was. -/
structure ClientKept (s : MigrationSystem) (sid : ℕ) : Prop where
  one : (s.sessions sid).reply = none ∨ (s.sessions sid).sent = none
  unopened : (s.sessions sid).client = .unopened → (s.sessions sid).alive = false
  dead : (s.sessions sid).alive = false → Clean (s.view sid)
  pooled : (s.sessions sid).client = .pooled → Clean (s.view sid) ∧ (s.sessions sid).sent = none
  discards : ∀ call, (s.sessions sid).client = .calling call → call.point ≠ .setting →
    call.discardClient = true
  asks : ∀ call, (s.sessions sid).client = .calling call → (s.sessions sid).connected = true →
    call.point = .setting →
      (Clean (s.view sid) ∧ ∀ query, (s.sessions sid).sent = some query → query = .setTimeout) ∨
      (s.sessions sid).sent = none ∧ (s.sessions sid).reply = some .done

theorem ClientKept.beside (h : ClientKept s sid) (hsame : t.sessions sid = s.sessions sid)
    (hlock : t.lock = some sid ↔ s.lock = some sid) : ClientKept t sid := by
  have hclean : Clean (t.view sid) ↔ Clean (s.view sid) := by
    constructor <;> rintro ⟨hheld, htxn, htimeout⟩ <;>
      exact ⟨by simpa [view, hlock] using hheld, by simpa [view, hsame] using htxn,
        by simpa [view, hsame] using htimeout⟩
  constructor <;> simp only [hsame, hclean]
  exacts [h.one, h.unopened, h.dead, h.pooled, h.discards, h.asks]

/-- A step that is about one session, of which it keeps this. -/
theorem clientKept_of_own (sid : ℕ) (h : ∀ sid, ClientKept s sid)
    (hothers : ∀ other ≠ sid, t.sessions other = s.sessions other)
    (hlocks : ∀ other ≠ sid, t.lock = some other ↔ s.lock = some other)
    (hown : ClientKept t sid) : ∀ sid, ClientKept t sid := by
  intro other
  by_cases hother : other = sid
  · exact hother ▸ hown
  · exact (h other).beside (hothers other hother) (hlocks other hother)

/-- The client's end changes, and the server's does not. -/
theorem clientKept_setSession (h : ∀ sid, ClientKept s sid) (session : MigrationSession)
    (hown : ClientKept (s.setSession sid session) sid) :
    ∀ other, ClientKept (s.setSession sid session) other :=
  clientKept_of_own sid h (fun _ hother => setSession_other hother session) (fun _ _ => Iff.rfl) hown

theorem clientKept_send (h : ∀ sid, ClientKept s sid) {call : MigrationCall}
    (hdiscards : call.point ≠ .setting → call.discardClient = true)
    (hasks : call.point = .setting → Clean (s.view sid) ∧ (s.sessions sid).sent = none) :
    ∀ other, ClientKept (s.send sid call) other := by
  refine clientKept_setSession h _ ?_
  constructor <;> simp only [setSession_self, view_setSession]
  case one => simp
  case unopened => simp
  case dead => exact (h sid).dead
  case pooled => simp
  case discards =>
    rintro other ⟨⟩
    exact hdiscards
  case asks =>
    rintro other ⟨⟩ hconnected hpoint
    obtain ⟨hclean, -⟩ := hasks hpoint
    refine .inl ⟨hclean, fun query hquery => ?_⟩
    rw [if_pos hconnected, hpoint] at hquery
    exact (Option.some.inj hquery).symm

theorem clientKept_connect (h : ∀ sid, ClientKept s sid) {migrations : List SkeinMigration}
    (hstep : s.connect sid migrations = some t) : ∀ other, ClientKept t other := by
  have hkept := h sid
  simp only [MigrationSystem.connect] at hstep
  split at hstep
  next hpooled =>
    obtain rfl := Option.some.inj hstep
    exact clientKept_send h (fun hpoint => absurd rfl hpoint) fun _ => hkept.pooled hpooled
  next hunopened =>
    obtain rfl := Option.some.inj hstep
    have hdead := hkept.dead (hkept.unopened hunopened)
    set opened := s.setSession sid
      { MigrationSession.unopened with connected := true, alive := true }
    have hclean : Clean (opened.view sid) := by
      constructor <;> simp [opened, MigrationSession.unopened, hdead.held]
    refine clientKept_of_own sid h (fun other hother => ?_) (fun _ _ => Iff.rfl) ?_
    · simp [send, opened, setSession_other hother]
    · constructor <;> simp only [send, setSession_self, view_setSession]
      case one => simp
      case unopened => simp
      case dead => simp [opened]
      case pooled => simp
      case discards =>
        rintro other ⟨⟩ hpoint
        exact absurd rfl hpoint
      case asks =>
        rintro other ⟨⟩ - -
        refine .inl ⟨hclean, fun query hquery => ?_⟩
        rw [if_pos (by simp [opened])] at hquery
        exact (Option.some.inj hquery).symm
  · cases hstep

theorem clientKept_serve (h : ∀ sid, ClientKept s sid) {verdict : Option String}
    (hstep : s.serve sid verdict = some t) : ∀ other, ClientKept t other := by
  have hkept := h sid
  simp only [MigrationSystem.serve, Option.ite_none_right_eq_some, Option.map_eq_some_iff] at hstep
  obtain ⟨halive, query, hsent, rfl⟩ := hstep
  have hb := s.outcome_beside sid query verdict
  refine clientKept_of_own sid h (fun other hother => ?_) (by simpa [answer] using hb.locks) ?_
  · simp [answer, setSession_other hother, hb.others other hother]
  · constructor <;> simp only [answer, setSession_self, view_setSession, hb.client, hb.alive,
      hb.connected]
    case one => simp
    case unopened => exact hkept.unopened
    case dead => simp [halive]
    case pooled =>
      intro hpooled
      simp [(hkept.pooled hpooled).2] at hsent
    case discards => exact hkept.discards
    case asks =>
      intro call hcall hconnected hpoint
      obtain ⟨hclean, hquery⟩ | ⟨hnone, -⟩ := hkept.asks call hcall hconnected hpoint
      · obtain rfl := hquery query hsent
        cases verdict with
        | none => exact .inr ⟨trivial, rfl⟩
        | some cause =>
          have hrefuse : s.refuse sid .setTimeout = s := by
            have htxn : (s.sessions sid).txn = .idle := hclean.txn
            simp [refuse, htxn]
          refine .inl ⟨?_, by simp⟩
          simp only [outcome, hrefuse]
          exact hclean
      · simp [hnone] at hsent

theorem clientKept_release (h : ∀ sid, ClientKept s sid) (discardClient : Bool)
    (hclean : discardClient = false → (s.sessions sid).connected = true →
      Clean (s.view sid) ∧ (s.sessions sid).sent = none) :
    ∀ other, ClientKept (s.release sid discardClient) other := by
  refine clientKept_setSession h _ ?_
  constructor <;> simp only [setSession_self, view_setSession]
  case one => simp
  case unopened => cases discardClient <;> cases (s.sessions sid).connected <;> simp
  case dead => exact (h sid).dead
  case pooled =>
    intro hpooled
    cases hdiscard : discardClient with
    | true => simp [hdiscard] at hpooled
    | false =>
      cases hconnected : (s.sessions sid).connected with
      | false => simp [hdiscard, hconnected] at hpooled
      | true => exact hclean hdiscard hconnected
  case discards =>
    intro call hcall
    cases discardClient <;> cases hconnected : (s.sessions sid).connected <;>
      simp [hconnected] at hcall
  case asks =>
    intro call hcall
    cases discardClient <;> cases hconnected : (s.sessions sid).connected <;>
      simp [hconnected] at hcall

theorem clientKept_receive (h : ∀ sid, ClientKept s sid) {expired : Bool}
    (hstep : s.receive sid expired = some t) : ∀ other, ClientKept t other := by
  have hkept := h sid
  have hfollow : ∀ call, (s.sessions sid).client = .calling call → ∀ reply,
      ((s.sessions sid).connected = true → call.point = .setting →
        (s.sessions sid).reply = some reply) →
      ∀ other, ClientKept (s.follow sid call.migrations (call.resume expired reply)) other := by
    intro call hcall reply hreply other
    have hmove := moveDiscards_resume (hkept.discards call hcall) expired reply
    cases hcase : call.resume expired reply with
    | goOn next =>
      rw [hcase] at hmove
      exact clientKept_send h (fun _ => hmove.2) (fun hpoint => absurd hpoint hmove.1) other
    | settle discardClient result =>
      rw [hcase] at hmove
      refine (clientKept_release h discardClient (fun hkeeps hconnected => ?_) other).beside rfl
        Iff.rfl
      obtain htrue | ⟨hpoint, cause, rfl⟩ := hmove
      · simp [htrue] at hkeeps
      · have hfailed := hreply hconnected hpoint
        have hsent := hkept.one.resolve_left (by simp [hfailed])
        obtain ⟨hclean, -⟩ | ⟨-, hdone⟩ := hkept.asks call hcall hconnected hpoint
        · exact ⟨hclean, hsent⟩
        · simp [hfailed] at hdone
  simp only [MigrationSystem.receive] at hstep
  split at hstep
  case h_2 => simp at hstep
  rename_i call hcall
  split_ifs at hstep with hconnected
  · split at hstep
    case h_3 => simp at hstep
    next hpoint =>
      obtain rfl := Option.some.inj hstep
      exact hfollow call hcall .done fun _ hsetting => by simp [hpoint] at hsetting
    next reply hreply _ =>
      obtain rfl := Option.some.inj hstep
      exact hfollow call hcall reply fun _ _ => hreply
  · obtain rfl := Option.some.inj hstep
    exact hfollow call hcall _ fun htrue => absurd htrue hconnected

theorem clientKept_reap (h : ∀ sid, ClientKept s sid) : ∀ other, ClientKept (s.reap sid) other := by
  have hheld : (s.reap sid).lock ≠ some sid := by
    simp only [MigrationSystem.reap]
    split_ifs with hlock <;> simp [hlock]
  have hown : (s.reap sid).sessions sid = { s.sessions sid with
      alive := false, timeoutLifted := false, txn := .idle, sent := none } := by
    simp [MigrationSystem.reap, setSession]
  have hclean : Clean ((s.reap sid).view sid) := by
    constructor <;> simp [view, hown, hheld]
  refine clientKept_of_own sid h (fun other hother => ?_) (fun other hother => ?_) ?_
  · simp [MigrationSystem.reap, setSession, hother]
  · simp only [MigrationSystem.reap]
    split_ifs with hlock
    · simp [hlock, hother.symm]
    · exact Iff.rfl
  · constructor <;> simp only [hown]
    case one => simp
    case unopened => simp
    case dead => exact fun _ => hclean
    case pooled => exact fun _ => ⟨hclean, trivial⟩
    case discards => exact (h sid).discards
    case asks => exact fun _ _ _ _ => .inl ⟨hclean, by simp⟩

theorem clientKept_step {a : MigrationAction} (h : ∀ sid, ClientKept s sid)
    (hstep : migrationMachine.step s a = some t) : ∀ sid, ClientKept t sid := by
  cases a with
  | connect sid migrations => exact clientKept_connect h hstep
  | serve sid verdict => exact clientKept_serve h hstep
  | receive sid expired => exact clientKept_receive h hstep
  | drop sid =>
    obtain rfl := Option.some.inj hstep
    refine clientKept_setSession h _ ?_
    constructor <;> simp only [setSession_self, view_setSession]
    exacts [(h sid).one, (h sid).unopened, (h sid).dead, (h sid).pooled, (h sid).discards,
      by simp]
  | crash sid =>
    obtain rfl := Option.some.inj hstep
    refine clientKept_setSession h _ ?_
    constructor <;> simp only [setSession_self, view_setSession]
    exacts [(h sid).one, by simp, (h sid).dead, by simp, by simp, by simp]
  | reap sid =>
    obtain rfl := Option.some.inj hstep
    exact clientKept_reap h
  | setClock now =>
    obtain rfl := Option.some.inj hstep
    exact fun sid => (h sid).beside rfl Iff.rfl

theorem clientKept_run {as : List MigrationAction} (h : migrationMachine.run .empty as = some s) :
    ∀ sid, ClientKept s sid := by
  refine Machine.run_invariant (fun s a t hs hstep => clientKept_step hs hstep) (fun sid => ?_) h
  constructor <;> simp [MigrationSystem.empty, MigrationSession.unopened]
  constructor <;> simp [view]

end MigrationSystem

section results
variable {all : List SkeinMigration} {as : List MigrationAction} {s : MigrationSystem}

/-- A table and an index of it. -/
def tableAndIndex : List SkeinMigration :=
  [⟨"1", "table", none⟩, ⟨"2", "", some ["index"]⟩]

/-- The steps of `n` queries of a session that the server carries out. -/
def exchanges (sid n : ℕ) : List MigrationAction :=
  (List.replicate n [.serve sid none, .receive sid false]).flatten

/-- The second instance finds the lock taken; the first dies while its index is built, and the
server ends the build before it ends the session. -/
def racingBoots : List MigrationAction :=
  [.connect 0 tableAndIndex, .connect 1 tableAndIndex] ++ exchanges 0 2 ++ exchanges 1 2 ++
    exchanges 0 6 ++ [.crash 0, .setClock 5, .serve 0 none, .reap 0, .receive 1 false] ++
    exchanges 1 6

example : (migrationMachine.run .empty racingBoots).map (fun s => (s.tables.names, s.settled)) =
    some (["1", "2"], [(tableAndIndex, .ok ["2"])]) := by decide +kernel

/-- The pool never holds a client whose session has the lock, an open transaction or a lifted
timeout, whatever the builds declare: no later boot waits for a lock that a pooled client keeps,
and no query of the store runs without the configured limit. -/
theorem pooled_sessions_clean (h : migrationMachine.run .empty as = some s) {sid : ℕ}
    (hpooled : (s.sessions sid).client = .pooled) :
    s.lock ≠ some sid ∧ (s.sessions sid).txn = .idle ∧
      (s.sessions sid).timeoutLifted = false := by
  have hclean := ((MigrationSystem.clientKept_run h sid).pooled hpooled).1
  exact ⟨by simpa [MigrationSystem.view] using hclean.held, hclean.txn, hclean.timeoutLifted⟩

/-- A server that cancels even the first query leaves the client as it was. -/
def refusedBoot : List MigrationAction :=
  [.connect 0 tableAndIndex, .serve 0 (some "canceled"), .receive 0 false]

theorem refusedBoot_pooled : ∃ s, migrationMachine.run .empty refusedBoot = some s ∧
    (s.sessions 0).client = .pooled ∧ s.lock ≠ some 0 := by
  have hrun : (migrationMachine.run .empty refusedBoot).isSome := by decide
  have hs := (Option.some_get hrun).symm
  have hpooled : (((migrationMachine.run .empty refusedBoot).get hrun).sessions 0).client =
    .pooled := rfl
  exact ⟨_, hs, hpooled, (pooled_sessions_clean hs hpooled).1⟩

/-- The schema after a log, `exec` being what one effect does to it. -/
def replay {σ : Type*} (exec : σ → SchemaEffect → σ) (schema : σ) (log : List SchemaEffect) : σ :=
  log.foldl exec schema

/-- What a migration runs. -/
def SkeinMigration.applied (migration : SkeinMigration) : List SchemaEffect :=
  match migration.statements with
  | none => [.ran migration.up]
  | some statements => statements.map .ran

/-- Statements written so that all of them may follow an attempt that was cut short. -/
structure Rerunnable {σ : Type*} (exec : σ → SchemaEffect → σ) (statements : List String) :
    Prop where
  cut : ∀ done, done <+: statements → ∀ schema,
    replay exec (replay exec schema (done.map .ran)) (statements.map .ran) =
      replay exec schema (statements.map .ran)
  broke : ∀ done statement, done ++ [statement] <+: statements → ∀ schema,
    replay exec (replay exec schema (done.map .ran ++ [.broke statement])) (statements.map .ran) =
      replay exec schema (statements.map .ran)

variable {σ : Type*} {exec : σ → SchemaEffect → σ}

theorem replay_append (schema : σ) (log log' : List SchemaEffect) :
    replay exec schema (log ++ log') = replay exec (replay exec schema log) log' := by
  simp [replay]

/-- A full run makes up for whatever failed attempts left. -/
theorem Leftover.absorbed {migration : SkeinMigration} {statements : List String}
    {tail : List SchemaEffect} (h : Leftover (some migration) tail)
    (hstatements : migration.statements = some statements)
    (hrerunnable : Rerunnable exec statements) (schema : σ) :
    replay exec schema (tail ++ statements.map .ran) =
      replay exec schema (statements.map .ran) := by
  rw [replay_append]
  induction h with
  | nil => simp [replay]
  | @cut _ _ others _ _ hnext hsome hdone ih =>
    obtain rfl : others = statements := by simp_all
    rw [replay_append, hrerunnable.cut _ hdone, ih]
  | @broke _ _ others _ _ _ hnext hsome hdone ih =>
    obtain rfl : others = statements := by simp_all
    rw [replay_append, hrerunnable.broke _ _ hdone, ih]

/-- The schema after the effects of a list of migrations is that of running each once. -/
theorem Landed.replay_eq {migrations : List SkeinMigration} {log : List SchemaEffect}
    (h : Landed migrations log)
    (hrerunnable : ∀ migration ∈ migrations, ∀ statements,
      migration.statements = some statements → Rerunnable exec statements) (schema : σ) :
    replay exec schema log = replay exec schema (migrations.flatMap SkeinMigration.applied) := by
  induction h with
  | nil => simp
  | up _ hup ih =>
    rw [List.flatMap_append, replay_append, replay_append,
      ih fun migration hmem => hrerunnable migration (List.mem_append_left _ hmem)]
    simp [SkeinMigration.applied, hup]
  | @statements _ migration _ _ _ _ hstatements hleft ih =>
    rw [List.flatMap_append, replay_append schema _ (_ ++ _),
      hleft.absorbed hstatements (hrerunnable migration (by simp) _ hstatements),
      ih fun migration hmem => hrerunnable migration (List.mem_append_left _ hmem), replay_append]
    simp [SkeinMigration.applied, hstatements]

/-- The names of what was created, as a schema whose statements all say `IF NOT EXISTS`. -/
def created (schema : List String) : SchemaEffect → List String
  | .ran sql => if sql ∈ schema then schema else schema ++ [sql]
  | .broke _ => schema

theorem rerunnable_index : Rerunnable created ["index"] where
  cut done hdone schema := by
    have hcases : done = [] ∨ done = ["index"] := by
      cases done with
      | nil => simp
      | cons statement others => simp_all
    by_cases hmem : "index" ∈ schema <;> obtain rfl | rfl := hcases <;>
      simp [replay, created, hmem]
  broke done statement hdone schema := by
    have hnil : done = [] := by
      have hlength := hdone.length_le
      simp only [List.length_append, List.length_singleton] at hlength
      exact List.length_eq_zero_iff.mp (by omega)
    simp [hnil, replay, created]

end results

end Skein
