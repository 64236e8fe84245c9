import Skein.RunLifecycle

/-!
# The first terminal status

A party reads a row, suspends, and writes what it decided: between the two the row may
have become terminal under another party's hands. The first terminal status wins in
every interleaving in which no party commits one while another stands in such a window
on the same row with a different status in mind, and only in those: any other commit
has a continuation that overwrites it.
-/
namespace Skein

namespace MemorySkeinStore
variable {J : Type*}

/-- Every terminal row of `store` is still there, with the same status. -/
def TerminalStays (store store' : MemorySkeinStore J) : Prop :=
  ∀ k run, store.runs.get? k = some run → run.status.isTerminal = true →
    ∃ run', store'.runs.get? k = some run' ∧ run'.status = run.status

theorem TerminalStays.refl (store : MemorySkeinStore J) : TerminalStays store store :=
  fun _ run h _ => ⟨run, h, rfl⟩

theorem TerminalStays.trans {s t u : MemorySkeinStore J} (h : TerminalStays s t)
    (h' : TerminalStays t u) : TerminalStays s u := by
  intro k run hrun hterm
  obtain ⟨mid, hmid, hstatus⟩ := h k run hrun hterm
  obtain ⟨run', hrun', hstatus'⟩ := h' k mid hmid (hstatus ▸ hterm)
  exact ⟨run', hrun', hstatus'.trans hstatus⟩

/-- The row a creation may add: pending, under an unused identifier. -/
structure AddsPending (store store' : MemorySkeinStore J) : Prop where
  kept : ∀ k run, store.runs.get? k = some run → store'.runs.get? k = some run
  added : ∀ k run, store'.runs.get? k = some run →
    store.runs.get? k = some run ∨ run.status = .pending

theorem AddsPending.refl (store : MemorySkeinStore J) : AddsPending store store :=
  ⟨fun _ _ h => h, fun _ _ h => .inl h⟩

variable [EmptyCollection J]

theorem createRun_addsPending (store : MemorySkeinStore J) {input : RunCreate J}
    (hpending : input.status = some .pending) (uuid : RunId) (now : Timestamp) :
    AddsPending store (store.createRun input uuid now).2 := by
  unfold createRun
  dsimp only
  split_ifs with hused
  · exact .refl store
  · have habsent := (OrderedMap.contains_eq_false_iff _ _).mp (by simpa using hused)
    refine ⟨fun k run hrun => ?_, fun k run hrun => ?_⟩
    · rw [Table.get?_write]
      split_ifs with hk
      · rw [← hk, habsent] at hrun
        cases hrun
      · exact hrun
    · rw [Table.get?_write] at hrun
      split_ifs at hrun with hk
      · cases hrun
        exact .inr (by simp [hpending])
      · exact .inl hrun

theorem guardedInsert_addsPending (store : MemorySkeinStore J) {create : RunCreate J}
    (hpending : create.status = some .pending) (requireNoActiveRun : Bool)
    (ifThreadStatus : Option (List ThreadStatus)) (uuid : RunId) (now : Timestamp) :
    AddsPending store
      (store.guardedInsert create requireNoActiveRun ifThreadStatus uuid now).2 := by
  have hcreate := store.createRun_addsPending hpending uuid now
  cases ifThreadStatus with
  | none =>
    simp only [guardedInsert]
    split_ifs
    · unfold runsCreateIfThreadIdle
      split_ifs
      · exact .refl store
      · exact hcreate
    · exact hcreate
  | some statuses =>
    have hmatches : AddsPending store (store.runsCreateIfThreadMatches create
        { requireNoActiveRun, threadStatusIn := some statuses } uuid now).2 := by
      unfold runsCreateIfThreadMatches
      split
      · exact .refl store
      · dsimp only
        split_ifs
        · exact .refl store
        · exact .refl store
        · exact hcreate
    simp only [guardedInsert]
    split <;> rename_i hdone <;> rw [hdone] at hmatches <;> exact hmatches

end MemorySkeinStore

namespace RunProcess
variable {J : Type*}

/-- What a party's decisions still rest on: every row it is going to write is live, or
already holds the status it is going to write. -/
structure Agrees (store : MemorySkeinStore J) (p : RunProcess J) : Prop where
  status : ∀ e ∈ p.intends, ∀ run, store.runs.get? e.1 = some run →
    run.status.isTerminal = true → run.status = e.2
  nodup : (p.intends.map Prod.fst).Nodup
  /-- A party with several writes ahead took them from a listing. -/
  listed : 2 ≤ p.intends.length → ∀ e ∈ p.intends, store.runs.contains e.1 = true

/-- A party with no write ahead. -/
theorem agrees_of_intends_nil {store : MemorySkeinStore J} {p : RunProcess J}
    (h : p.intends = []) : Agrees store p := ⟨by simp [h], by simp [h], by simp [h]⟩

/-- The one write of the next turn. -/
def write (p : RunProcess J) : Option (RunId × RunStatus) := p.intends.head?

/-- No other party is about to write a different status to the row `e` names. -/
def Unopposed (w : Pool (MemorySkeinStore J) (RunProcess J)) (i : ℕ) (e : RunId × RunStatus) :
    Prop :=
  ∀ q ∈ w.procs.eraseIdx i, ∀ e' ∈ q.intends, e'.1 = e.1 → e'.2 = e.2

instance (w : Pool (MemorySkeinStore J) (RunProcess J)) (i : ℕ) (e : RunId × RunStatus) :
    Decidable (Unopposed w i e) := by
  unfold Unopposed
  infer_instance

/-- The status write `e` makes a live row terminal. -/
def Commits (store : MemorySkeinStore J) (e : RunId × RunStatus) : Prop :=
  e.2.isTerminal = true ∧ (store.runs.get? e.1).any (fun run => !run.status.isTerminal) = true

instance (store : MemorySkeinStore J) (e : RunId × RunStatus) : Decidable (Commits store e) := by
  unfold Commits
  infer_instance

/-- No terminal status is committed while another party stands between its read of that
row and its write of a different status. -/
def WindowsClear (w : Pool (MemorySkeinStore J) (RunProcess J)) :
    Action Empty (RunProcess J) (RunInput J) → Prop
  | .resume i _ =>
    ∀ e ∈ (w.procs[i]?).bind write, Commits w.shared e → Unopposed w i e
  | _ => True

instance (w : Pool (MemorySkeinStore J) (RunProcess J)) : ∀ a, Decidable (WindowsClear w a)
  | .resume i _ => inferInstanceAs (Decidable (∀ e ∈ (w.procs[i]?).bind write,
      Commits w.shared e → Unopposed w i e))
  | .env _ => isTrue trivial
  | .spawn _ => isTrue trivial

/-- A turn only reads, makes the first write its party intends, or adds a pending row. -/
inductive Turn (store store' : MemorySkeinStore J) (p p' : RunProcess J) : Prop
  | reads (same : store' = store)
    (live : ∀ e ∈ p'.intends, ∀ run, store.runs.get? e.1 = some run →
      run.status.isTerminal = false)
    (nodup : (p'.intends.map Prod.fst).Nodup)
    (listed : 2 ≤ p'.intends.length → ∀ e ∈ p'.intends, store.runs.contains e.1 = true)
  | writes (e : RunId × RunStatus) (rest : List (RunId × RunStatus)) (error : Option J)
    (now : Timestamp) (intended : p.intends = e :: rest)
    (written : store' = (store.runsSetStatus e.1 e.2 error now).2)
    (left : p'.intends = rest ∨ p'.intends = [])
  | creates (adds : store.AddsPending store') (left : p'.intends = [])

theorem Turn.of_idle {store : MemorySkeinStore J} {p p' : RunProcess J} (h : p'.intends = []) :
    Turn store store p p' := .reads rfl (by simp [h]) (by simp [h]) (by simp [h])

/-- A party that has read a live row intends one write to it. -/
theorem Turn.of_live {store : MemorySkeinStore J} {p p' : RunProcess J} {e : RunId × RunStatus}
    (hintends : p'.intends = [e])
    (hlive : ∀ run, store.runs.get? e.1 = some run → run.status.isTerminal = false) :
    Turn store store p p' := by
  refine .reads rfl ?_ (by simp [hintends]) (by simp [hintends])
  intro e' he' run hrun
  rw [hintends, List.mem_singleton] at he'
  exact hlive run (he' ▸ hrun)

theorem settleRun_turn (store : MemorySkeinStore J) (p : RunProcess J) (runId : RunId)
    (caught : Bool) (x : RunInput J) : Turn store store p (settleRun store runId caught x) := by
  unfold settleRun MemorySkeinStore.runsGet
  split
  · exact .of_idle rfl
  next fresh hfresh =>
    split_ifs with hterm
    · exact .of_idle rfl
    · refine .of_live rfl fun run hrun => ?_
      obtain rfl : fresh = run := Option.some.inj (hfresh.symm.trans hrun)
      exact Bool.eq_false_iff.mpr hterm

/-- The active runs a creation lists are live, and each is listed once. -/
theorem listing_turn (store : MemorySkeinStore J) (p : RunProcess J) (reason : CancelAction)
    (create : RunCreate J) (ifThreadStatus : Option (List ThreadStatus)) :
    Turn store store p (.displacing (store.runsListActiveRuns (some create.threadId)) reason
      create ifThreadStatus) := by
  refine .reads rfl ?_ ?_ fun _ e he => ?_
  · intro e he run hrun
    obtain ⟨listed, hlisted, rfl⟩ := List.mem_map.mp he
    obtain ⟨hget, hlive⟩ := MemorySkeinStore.mem_runsListActiveRuns hlisted
    rw [hget] at hrun
    exact Option.some.inj hrun ▸ hlive
  · have hmap : (RunProcess.displacing (store.runsListActiveRuns (some create.threadId)) reason
        create ifThreadStatus).intends.map Prod.fst =
        (store.runsListActiveRuns (some create.threadId)).map Run.runId := by
      simp [intends]
    rw [hmap]
    exact store.nodup_runsListActiveRuns _
  · obtain ⟨listed, hlisted, rfl⟩ := List.mem_map.mp he
    simp [OrderedMap.contains, (MemorySkeinStore.mem_runsListActiveRuns hlisted).1]

section Resume
variable [EmptyCollection J] {store store' : MemorySkeinStore J} {p' : RunProcess J}
  {x : RunInput J}

/-- A run that was cancelled in the queue is not started. -/
theorem executeRun_turn {runId : RunId}
    (h : resume store (.executeRun runId) x = some (store', p')) :
    Turn store store' (.executeRun runId) p' := by
  simp only [resume, MemorySkeinStore.runsGet] at h
  split at h
  next current hcurrent =>
    split_ifs at h with hterm
    · cases h
      exact .of_idle rfl
    · cases h
      refine .of_live rfl fun run hrun => ?_
      obtain rfl : current = run := Option.some.inj (hcurrent.symm.trans hrun)
      exact Bool.eq_false_iff.mpr hterm
  next hnone =>
    cases h
    refine .of_live rfl fun run hrun => ?_
    cases hnone.symm.trans hrun

theorem cancelRun_turn {runId : RunId}
    (h : resume store (.cancelRun runId) x = some (store', p')) :
    Turn store store' (.cancelRun runId) p' := by
  simp only [resume, MemorySkeinStore.runsGet] at h
  split at h
  · cases h
    exact .of_idle rfl
  next run hrun =>
    split_ifs at h with hterm
    · cases h
      exact .of_idle rfl
    · cases h
      refine .of_live rfl fun row hrow => ?_
      rw [Table.key_of_get? hrun] at hrow
      obtain rfl : run = row := Option.some.inj (hrun.symm.trans hrow)
      exact Bool.eq_false_iff.mpr hterm

/-- A run displaced is one of the listing, which is left at the first failure. -/
theorem displacing_turn {active : List (Run J)} {reason : CancelAction} {create : RunCreate J}
    {ifThreadStatus : Option (List ThreadStatus)}
    (h : resume store (.displacing active reason create ifThreadStatus) x = some (store', p')) :
    Turn store store' (.displacing active reason create ifThreadStatus) p' := by
  cases active with
  | nil =>
    cases h
    exact .creates (store.guardedInsert_addsPending rfl _ _ _ _) rfl
  | cons run rest =>
    simp only [resume] at h
    split at h
    next hset =>
      cases h
      exact .writes (run.runId, displacedStatus reason) _ none x.now rfl (by rw [hset]) (.inr rfl)
    next hset =>
      cases h
      exact .writes (run.runId, displacedStatus reason) _ none x.now rfl (by rw [hset]) (.inl rfl)

theorem resume_turn {p : RunProcess J} (h : resume store p x = some (store', p')) :
    Turn store store' p p' := by
  cases p with
  | executeRun runId => exact executeRun_turn h
  | cancelRun runId => exact cancelRun_turn h
  | displacing active reason create ifThreadStatus => exact displacing_turn h
  | starting runId =>
    simp only [resume] at h
    split at h
    next hset =>
      cases h
      exact .writes (runId, .running) [] none x.now rfl (by rw [hset]) (.inl rfl)
    next hset =>
      split_ifs at h <;> cases h <;>
        exact .writes (runId, .running) [] none x.now rfl (by rw [hset]) (.inl rfl)
  | executing runId caught =>
    cases h
    exact settleRun_turn store _ runId _ x
  | finalizing runId status error caught =>
    simp only [resume] at h
    split at h
    next hset =>
      cases h
      refine .writes (runId, status) [] error x.now rfl (by rw [hset]) (.inl ?_)
      cases caught <;> rfl
    next hset =>
      cases h
      exact .writes (runId, status) [] error x.now rfl (by rw [hset]) (.inl rfl)
  | mirroring runId caught =>
    simp only [resume] at h
    split_ifs at h <;> cases h <;> exact .of_idle rfl
  | cancelling run =>
    cases h
    exact .writes (run.runId, .cancelled) [] none x.now rfl rfl (.inl rfl)
  | createPendingRun strategy create ifThreadStatus =>
    cases strategy with
    | reject =>
      cases h
      exact .creates (store.guardedInsert_addsPending rfl _ _ _ _) rfl
    | interrupt =>
      cases h
      exact listing_turn store _ .interrupt create ifThreadStatus
    | rollback =>
      cases h
      exact listing_turn store _ .rollback create ifThreadStatus
    | enqueue =>
      cases h
      exact .of_idle rfl
  | done => cases h

end Resume

/-- A write of the status its party agreed on keeps every terminal status. -/
theorem Agrees.terminalStays {store : MemorySkeinStore J} {p : RunProcess J}
    {e : RunId × RunStatus} {rest : List (RunId × RunStatus)} (hp : Agrees store p)
    (hintended : p.intends = e :: rest) (error : Option J) (now : Timestamp) :
    store.TerminalStays (store.runsSetStatus e.1 e.2 error now).2 := by
  intro k run hrun hterm
  refine ⟨_, by rw [MemorySkeinStore.runsSetStatus_get?, hrun, Option.map_some], ?_⟩
  rcases store.statusRow_status e.1 e.2 error now run with hsame | ⟨hid, hstatus⟩
  · rw [hsame]
  · have hk : e.1 = k := hid.symm.trans (Table.key_of_get? hrun)
    rw [hstatus, hp.status e (by simp [hintended]) run (hk ▸ hrun) hterm]

/-- An unopposed write keeps what another party's decisions rest on. -/
theorem Agrees.write {store : MemorySkeinStore J} {p q : RunProcess J} {e : RunId × RunStatus}
    {rest : List (RunId × RunStatus)} (hp : Agrees store p) (hq : Agrees store q)
    (hintended : p.intends = e :: rest) (error : Option J) (now : Timestamp)
    (hclear : Commits store e → ∀ e' ∈ q.intends, e'.1 = e.1 → e'.2 = e.2) :
    Agrees (store.runsSetStatus e.1 e.2 error now).2 q := by
  refine ⟨fun e' he' run' hrun' hterm' => ?_, hq.nodup, fun htwo e' he' => ?_⟩
  swap
  · rw [MemorySkeinStore.runsSetStatus_contains]
    exact hq.listed htwo e' he'
  rw [MemorySkeinStore.runsSetStatus_get?] at hrun'
  obtain ⟨run, hrun, rfl⟩ := Option.map_eq_some_iff.mp hrun'
  rcases store.statusRow_status e.1 e.2 error now run with hsame | ⟨hid, hstatus⟩
  · rw [hsame] at hterm' ⊢
    exact hq.status e' he' run hrun hterm'
  · have hk : e'.1 = e.1 := (Table.key_of_get? hrun).symm.trans hid
    rw [hstatus] at hterm' ⊢
    by_cases hterm : run.status.isTerminal = true
    · rw [← hp.status e (by simp [hintended]) run (hk ▸ hrun) hterm]
      exact hq.status e' he' run hrun hterm
    · have hcommits : Commits store e := ⟨hterm', by simp [← hk, hrun, hterm]⟩
      exact (hclear hcommits e' he' hk).symm

theorem Agrees.adds {store store' : MemorySkeinStore J} {q : RunProcess J} (hq : Agrees store q)
    (h : store.AddsPending store') : Agrees store' q := by
  refine ⟨fun e he run hrun hterm => ?_, hq.nodup, fun htwo e he => ?_⟩
  · rcases h.added e.1 run hrun with hold | hpending
    · exact hq.status e he run hold hterm
    · rw [hpending] at hterm
      cases hterm
  · obtain ⟨run, hrun⟩ := Option.isSome_iff_exists.mp (hq.listed htwo e he)
    simp [OrderedMap.contains, h.kept e.1 run hrun]

/-- What is left of a party's intentions after its first write still agrees. -/
theorem Agrees.rest {store : MemorySkeinStore J} {p p' : RunProcess J} {e : RunId × RunStatus}
    {rest : List (RunId × RunStatus)} (hp : Agrees store p) (hintended : p.intends = e :: rest)
    (hleft : p'.intends = rest) (error : Option J) (now : Timestamp) :
    Agrees (store.runsSetStatus e.1 e.2 error now).2 p' := by
  have hnodup := hp.nodup
  rw [hintended, List.map_cons, List.nodup_cons] at hnodup
  have hlength : p.intends.length = p'.intends.length + 1 := by rw [hintended, hleft]; rfl
  refine ⟨fun e' he' run' hrun' hterm' => ?_, hleft ▸ hnodup.2, fun htwo e' he' => ?_⟩
  swap
  · rw [MemorySkeinStore.runsSetStatus_contains]
    exact hp.listed (by omega) e' (by simp [hintended, ← hleft, he'])
  rw [hleft] at he'
  have hne : e'.1 ≠ e.1 := fun heq => hnodup.1 (heq ▸ List.mem_map_of_mem he')
  rw [MemorySkeinStore.runsSetStatus_get?] at hrun'
  obtain ⟨run, hrun, rfl⟩ := Option.map_eq_some_iff.mp hrun'
  rcases store.statusRow_status e.1 e.2 error now run with hsame | ⟨hid, -⟩
  · rw [hsame] at hterm' ⊢
    exact hp.status e' (by simp [hintended, he']) run hrun hterm'
  · exact absurd ((Table.key_of_get? hrun).symm.trans hid) hne

theorem start_eq {store store' : MemorySkeinStore J} {p : RunProcess J}
    (h : start store p = some store') : store' = store ∧ p.intends = [] := by
  cases p <;> cases h <;> exact ⟨rfl, rfl⟩

section Interleavings
variable [EmptyCollection J]

/-- One turn of a party that agrees, in a state where its windows are clear. -/
theorem resume_agrees {w : Pool (MemorySkeinStore J) (RunProcess J)} {i : ℕ} {x : RunInput J}
    {p p' : RunProcess J} {store' : MemorySkeinStore J}
    (hw : w.Holds (fun _ => True) fun store _ p => Agrees store p)
    (hclear : WindowsClear w (.resume i x)) (hi : w.procs[i]? = some p)
    (h : resume w.shared p x = some (store', p')) :
    w.shared.TerminalStays store' ∧ Agrees store' p' ∧
      ∀ j q, j ≠ i → w.procs[j]? = some q → Agrees store' q := by
  have hp := hw.2 i p hi
  cases resume_turn h with
  | reads same live nodup listed =>
    subst same
    refine ⟨.refl _, ⟨fun e he run hrun hterm => ?_, nodup, listed⟩, fun j q _ hq => hw.2 j q hq⟩
    rw [live e he run hrun] at hterm
    cases hterm
  | writes e rest error now intended written left =>
    subst written
    refine ⟨hp.terminalStays intended error now, ?_, fun j q hji hq => ?_⟩
    · rcases left with hrest | hnil
      · exact hp.rest intended hrest error now
      · exact agrees_of_intends_nil hnil
    · refine hp.write (hw.2 j q hq) intended error now fun hcommits => ?_
      have he : e ∈ (w.procs[i]?).bind RunProcess.write := by
        simp [hi, RunProcess.write, intended]
      exact hclear e he hcommits q (List.mem_eraseIdx_iff_getElem?.mpr ⟨j, hji, hq⟩)
  | creates adds left =>
    exact ⟨fun k run hrun _ => ⟨run, adds.kept k run hrun, rfl⟩, agrees_of_intends_nil left,
      fun j q _ hq => (hw.2 j q hq).adds adds⟩

theorem interferenceFree :
    InterferenceFree (program (J := J)) (fun _ => True) (fun store _ p => Agrees store p)
      WindowsClear where
  env := fun _ e => nomatch e
  start := by
    intro w p store' hw _ h
    obtain ⟨rfl, hnil⟩ := start_eq h
    exact ⟨trivial, agrees_of_intends_nil hnil, hw.2⟩
  resume := by
    intro w i x p store' p' hw hclear hi h
    obtain ⟨-, hp', hothers⟩ := resume_agrees hw hclear hi h
    exact ⟨trivial, hp', hothers⟩

theorem step_terminalStays {w w' : Pool (MemorySkeinStore J) (RunProcess J)}
    {a : Action Empty (RunProcess J) (RunInput J)}
    (hw : w.Holds (fun _ => True) fun store _ p => Agrees store p) (hclear : WindowsClear w a)
    (h : (program (J := J)).step w a = some w') : w.shared.TerminalStays w'.shared := by
  rcases (program (J := J)).step_cases h with ⟨e, -⟩ | ⟨p, store', rfl, hstart, rfl⟩ |
    ⟨i, x, p, store', p', rfl, hi, hresume, rfl⟩
  · exact nomatch e
  · obtain ⟨rfl, -⟩ := start_eq hstart
    exact .refl _
  · exact (resume_agrees hw hclear hi hresume).1

/-- The first terminal status of every row wins, from every state of every interleaving
whose windows are clear. -/
theorem terminal_stays {w u v : Pool (MemorySkeinStore J) (RunProcess J)}
    {before after : List (Action Empty (RunProcess J) (RunInput J))} (hidle : w.procs = [])
    (hclear : (program (J := J)).machine.Along WindowsClear w (before ++ after))
    (hu : (program (J := J)).machine.run w before = some u)
    (hv : (program (J := J)).machine.run u after = some v) :
    u.shared.TerminalStays v.shared := by
  obtain ⟨hbefore, hafter⟩ := Machine.along_append hclear hu
  have hw : w.Holds (fun _ => True) fun store _ p => Agrees store p :=
    ⟨trivial, by simp [hidle]⟩
  exact Machine.run_relation_along
    (I := fun w : Pool (MemorySkeinStore J) (RunProcess J) =>
      w.Holds (fun _ => True) fun store _ p => Agrees store p)
    (R := fun w w' => w.shared.TerminalStays w'.shared)
    (fun _ _ _ hs hc hst => interferenceFree.step hs hc hst) (fun s => .refl s.shared)
    (fun _ _ _ h h' => h.trans h') (fun _ _ _ hs hc hst => step_terminalStays hs hc hst)
    (interferenceFree.run hw hbefore hu) hafter hv

/-- A party about to write to a row that exists can do so in its next turn. -/
theorem resume_write {store : MemorySkeinStore J} {p : RunProcess J} {e : RunId × RunStatus}
    {rest : List (RunId × RunStatus)} (hintended : p.intends = e :: rest)
    (hrow : store.runs.contains e.1 = true) (hadmitted : store.admittedRunIds = [])
    (x : RunInput J) :
    ∃ error p', resume store p x = some ((store.runsSetStatus e.1 e.2 error x.now).2, p') ∧
      p'.intends = rest := by
  have hset := fun error => MemorySkeinStore.runsSetStatus_present hrow hadmitted e.2 error x.now
  cases p with
  | starting runId =>
    cases hintended
    obtain ⟨run, hok, hstatus, -⟩ := hset none
    refine ⟨none, .executing runId false, ?_, rfl⟩
    simp only [resume]
    rw [show store.runsSetStatus runId .running none x.now = (.ok run, _) from
      Prod.ext hok rfl]
    simp [hstatus, RunStatus.isTerminal]
  | finalizing runId status error caught =>
    cases hintended
    obtain ⟨run, hok, -⟩ := hset error
    refine ⟨error, .mirroring runId caught, ?_, rfl⟩
    simp only [resume]
    rw [show store.runsSetStatus runId status error x.now = (.ok run, _) from Prod.ext hok rfl]
  | cancelling run =>
    cases hintended
    exact ⟨none, .done, rfl, rfl⟩
  | displacing active reason create ifThreadStatus =>
    cases active with
    | nil => cases hintended
    | cons run active =>
      cases hintended
      obtain ⟨row, hok, -⟩ := hset none
      refine ⟨none, .displacing active reason create ifThreadStatus, ?_, rfl⟩
      simp only [resume]
      rw [show store.runsSetStatus run.runId (displacedStatus reason) none x.now = (.ok row, _)
        from Prod.ext hok rfl]
  | executeRun runId => cases hintended
  | executing runId caught => cases hintended
  | mirroring runId caught => cases hintended
  | cancelRun runId => cases hintended
  | createPendingRun strategy create ifThreadStatus => cases hintended
  | done => cases hintended

/-- Left to itself, a party carries out everything it intends, up to any of its writes. -/
theorem run_write (earlier : List (RunId × RunStatus)) {e : RunId × RunStatus}
    {later : List (RunId × RunStatus)} {w : Pool (MemorySkeinStore J) (RunProcess J)} {j : ℕ}
    {q : RunProcess J} (hq : w.procs[j]? = some q) (hintends : q.intends = earlier ++ e :: later)
    (hrows : ∀ e' ∈ earlier ++ [e], w.shared.runs.contains e'.1 = true)
    (hadmitted : w.shared.admittedRunIds = []) :
    ∃ turns v run, (program (J := J)).machine.run w turns = some v ∧
      v.shared.runs.get? e.1 = some run ∧ run.status = e.2 := by
  let x : RunInput J := { now := 0 }
  induction earlier generalizing w q with
  | nil =>
    have hrow := hrows e (by simp)
    obtain ⟨error, p', hresume, -⟩ := resume_write hintends hrow hadmitted x
    obtain ⟨run, -, hstatus, hget⟩ :=
      MemorySkeinStore.runsSetStatus_present hrow hadmitted e.2 error x.now
    have hstep := (program (J := J)).step_resume hq hresume
    exact ⟨[.resume j x], _, run, (Machine.run_cons_eq_some _).mpr ⟨_, hstep, rfl⟩, hget,
      hstatus⟩
  | cons first earlier ih =>
    have hrow := hrows first (by simp)
    obtain ⟨error, p', hresume, hrest⟩ := resume_write hintends hrow hadmitted x
    have hstep := (program (J := J)).step_resume hq hresume
    have hlt : j < w.procs.length := (List.getElem?_eq_some_iff.mp hq).1
    obtain ⟨turns, v, run, hrun, hget, hstatus⟩ := ih
      (w := ⟨(w.shared.runsSetStatus first.1 first.2 error x.now).2, w.procs.set j p'⟩)
      (by simp [hlt]) hrest
      (fun e' he' => by
        rw [MemorySkeinStore.runsSetStatus_contains]
        exact hrows e' (by simpa using .inr (by simpa using he')))
      (by rw [MemorySkeinStore.runsSetStatus_admittedRunIds, hadmitted])
    exact ⟨.resume j x :: turns, v, run, (Machine.run_cons_eq_some _).mpr ⟨_, hstep, hrun⟩,
      hget, hstatus⟩

/-- A terminal status committed into another party's window has a continuation that
overwrites it. -/
theorem opposed_overwritten {w w' : Pool (MemorySkeinStore J) (RunProcess J)}
    {a : Action Empty (RunProcess J) (RunInput J)}
    (hw : w.Holds (fun _ => True) fun store _ p => Agrees store p)
    (hadmitted : w.shared.admittedRunIds = []) (hopposed : ¬ WindowsClear w a)
    (h : (program (J := J)).step w a = some w') :
    ∃ turns v, (program (J := J)).machine.run w' turns = some v ∧
      ¬ w'.shared.TerminalStays v.shared := by
  rcases (program (J := J)).step_cases h with ⟨e, -⟩ | ⟨p, store', rfl, -⟩ |
    ⟨i, x, p, store', p', rfl, hi, hresume, rfl⟩
  · exact nomatch e
  · exact absurd trivial hopposed
  simp only [WindowsClear, Unopposed, not_forall] at hopposed
  obtain ⟨e, he, ⟨hterm, hlive⟩, q, hq, e', he', hsame, hdiffer⟩ := hopposed
  obtain ⟨rest, hintended⟩ : ∃ rest, p.intends = e :: rest := by
    rw [hi] at he
    exact ⟨p.intends.tail, List.eq_cons_of_mem_head? he⟩
  have hrow : w.shared.runs.contains e.1 = true := by
    cases hget : w.shared.runs.get? e.1 with
    | none => simp [hget] at hlive
    | some run => simp [OrderedMap.contains, hget]
  obtain ⟨error, p'', hwrite, -⟩ := resume_write hintended hrow hadmitted x
  have hwrite' : resume w.shared p x = some (store', p') := hresume
  rw [hwrite'] at hwrite
  cases hwrite
  obtain ⟨committed, -, hcommitted, hget⟩ :=
    MemorySkeinStore.runsSetStatus_present hrow hadmitted e.2 error x.now
  -- The other party is still there and carries out its own write.
  obtain ⟨j, hji, hj⟩ := List.mem_eraseIdx_iff_getElem?.mp hq
  obtain ⟨earlier, later, hsplit⟩ := List.append_of_mem he'
  obtain ⟨turns, v, run, hrun, hrunget, hstatus⟩ := run_write earlier
    (w := ⟨(w.shared.runsSetStatus e.1 e.2 error x.now).2, w.procs.set i p'⟩)
    (by rw [List.getElem?_set_ne (Ne.symm hji)]; exact hj) hsplit
    (fun e'' he'' => by
      rw [MemorySkeinStore.runsSetStatus_contains]
      cases earlier with
      | nil =>
        rw [List.nil_append, List.mem_singleton] at he''
        rw [he'', hsame]
        exact hrow
      | cons first earlier =>
        refine (hw.2 j q hj).listed (by simp [hsplit]; omega) e'' ?_
        rw [hsplit]
        rcases List.mem_append.mp he'' with hfront | hlast
        · exact List.mem_append_left _ hfront
        · rw [List.mem_singleton.mp hlast]
          exact List.mem_append_right _ List.mem_cons_self)
    (by rw [MemorySkeinStore.runsSetStatus_admittedRunIds, hadmitted])
  refine ⟨turns, v, hrun, fun hstays => hdiffer ?_⟩
  obtain ⟨run', hrun', hstatus'⟩ := hstays e.1 committed hget (hcommitted ▸ hterm)
  rw [← hsame, hrunget] at hrun'
  rw [← hstatus, Option.some.inj hrun', hstatus', hcommitted]

end Interleavings

/-- One pending run and nobody at work on it. -/
def pendingPool : Pool (MemorySkeinStore ℕ) (RunProcess ℕ) where
  shared := {
    runs := (∅ : Table RunId (Run ℕ) Run.runId).write {
      runId := .of "r", threadId := .of "t", assistantId := .of "a", createdAt := 0
      updatedAt := 0, status := .pending, metadata := ∅, multitaskStrategy := none } }
  procs := []

/-- The execution reads the pending row; a cancel reads it too, and commits. -/
def cancelInGap : List (Action Empty (RunProcess ℕ) (RunInput ℕ)) :=
  [.spawn (.executeRun (.of "r")), .resume 0 { now := 1 }, .spawn (.cancelRun (.of "r")),
    .resume 1 { now := 2 }, .resume 1 { now := 3 }]

/-- The execution writes what it decided before the cancel. -/
def lateStart : List (Action Empty (RunProcess ℕ) (RunInput ℕ)) := [.resume 0 { now := 4 }]

/-- A cancel that commits before the execution reads. -/
def cancelFirst : List (Action Empty (RunProcess ℕ) (RunInput ℕ)) :=
  [.spawn (.cancelRun (.of "r")), .resume 0 { now := 1 }, .resume 0 { now := 2 }]

/-- The execution then finds the row terminal. -/
def laterStart : List (Action Empty (RunProcess ℕ) (RunInput ℕ)) :=
  [.spawn (.executeRun (.of "r")), .resume 1 { now := 3 }]

/-- The pool after a schedule. -/
def after (w : Pool (MemorySkeinStore ℕ) (RunProcess ℕ))
    (turns : List (Action Empty (RunProcess ℕ) (RunInput ℕ))) :
    Pool (MemorySkeinStore ℕ) (RunProcess ℕ) :=
  ((program (J := ℕ)).machine.run w turns).getD w

theorem cancelInGap_overwritten :
    (program (J := ℕ)).machine.run pendingPool cancelInGap =
        some (after pendingPool cancelInGap) ∧
      (program (J := ℕ)).machine.run (after pendingPool cancelInGap) lateStart =
        some (after (after pendingPool cancelInGap) lateStart) ∧
      (after pendingPool cancelInGap).shared.runs.values.map Run.status = [.cancelled] ∧
      (after (after pendingPool cancelInGap) lateStart).shared.runs.values.map Run.status =
        [.running] ∧
      ¬ (after pendingPool cancelInGap).shared.TerminalStays
        (after (after pendingPool cancelInGap) lateStart).shared := by
  refine ⟨rfl, rfl, by decide, by decide, fun hstays => ?_⟩
  obtain ⟨run', hrun', hstatus⟩ := hstays (.of "r") _ rfl rfl
  cases hrun'
  cases hstatus

theorem cancelFirst_stays :
    (after pendingPool cancelFirst).shared.TerminalStays
      (after (after pendingPool cancelFirst) laterStart).shared := by
  have hbefore : (program (J := ℕ)).machine.run pendingPool cancelFirst =
      some (after pendingPool cancelFirst) := rfl
  have hafter : (program (J := ℕ)).machine.run (after pendingPool cancelFirst) laterStart =
      some (after (after pendingPool cancelFirst) laterStart) := rfl
  exact terminal_stays rfl (by decide) hbefore hafter

end RunProcess
end Skein
