import Mathlib.Data.List.Infix
import Skein.Consecutive
import Skein.RedisRunEventBus

/-!
# Readers of a mailbox

A subscriber replays the stream of its run and then lives on its mailbox. Whatever a mailbox
promises of the frames above a bound, as long as the promise holds from the attachment on and
outlives what is published and read, the replay hands over to the live tail without a gap. What
the live tail takes next is then all that is left to the promise.
-/
namespace Skein

/-- The frames above a bound, in order. -/
def fresh {J : Type*} (bound : ℕ) (l : List (ChannelMessage J)) : List (RunFrame J) :=
  (l.filterMap ChannelMessage.frame?).filter fun frame => bound < frame.seq

section Fresh
variable {J : Type*} {bound bound' : ℕ} {l l' : List (ChannelMessage J)} {frame : RunFrame J}

@[simp] theorem fresh_nil : fresh bound ([] : List (ChannelMessage J)) = [] := rfl

@[simp] theorem fresh_append : fresh bound (l ++ l') = fresh bound l ++ fresh bound l' := by
  simp [fresh]

@[simp] theorem fresh_close : fresh bound (.close :: l) = fresh bound l := rfl

theorem fresh_above (h : bound < frame.seq) :
    fresh bound (.frame frame :: l) = frame :: fresh bound l := by
  simp [fresh, ChannelMessage.frame?, h]

theorem fresh_below (h : frame.seq ≤ bound) : fresh bound (.frame frame :: l) = fresh bound l := by
  simp [fresh, ChannelMessage.frame?, Nat.not_lt.mpr h]

/-- A higher bound cuts what is fresh. -/
theorem fresh_raise (h : bound ≤ bound') :
    fresh bound' l = (fresh bound l).filter fun frame => bound' < frame.seq := by
  unfold fresh
  rw [List.filter_filter]
  refine List.filter_congr fun frame _ => ?_
  rw [← Bool.decide_and, decide_eq_decide]
  omega

theorem fresh_singleton (message : ChannelMessage J) :
    fresh bound [message] = message.frame?.toList.filter fun frame => bound < frame.seq := by
  cases message <;> rfl

end Fresh

/-- The stream of a run is numbered, and announcements do not run ahead of it. -/
structure RedisRun.Safe {J : Type*} (run : RedisRun J) : Prop where
  consecutive : Consecutive RunFrame.seq (run.stream.filterMap ChannelMessage.frame?)
  announced : run.announced ≤ run.stream.length

/-- More was appended and announced. -/
structure RedisRun.Extends {J : Type*} (run run' : RedisRun J) : Prop where
  stream : run.stream <+: run'.stream
  announced : run.announced ≤ run'.announced

/-- Once the first fresh frame is passed, the rest is fresh. -/
theorem RedisRun.Safe.fresh_tail {J : Type*} {run : RedisRun J} (hs : run.Safe) {bound : ℕ}
    {frame : RunFrame J} {rest : List (RunFrame J)}
    (h : fresh bound run.stream = frame :: rest) : fresh frame.seq run.stream = rest := by
  have hsorted : (frame :: rest).Pairwise fun a b => a.seq < b.seq := by
    rw [← h]
    exact hs.consecutive.pairwise.filter _
  have habove : bound < frame.seq := by
    have hmem : frame ∈ fresh bound run.stream := by simp [h]
    simpa using (List.mem_filter.mp hmem).2
  rw [fresh_raise habove.le, h, List.filter_cons_of_neg (by simp)]
  exact List.filter_eq_self.mpr fun later hlater => by
    simpa using (List.pairwise_cons.mp hsorted).1 later hlater

/-- Where a subscription stands in the stream of its run: it has read up to `lastId`, and
with what is fresh for it, what it yielded is all there is above its bound. -/
structure RedisSubscription.Tracks {J : Type*} (sub : RedisSubscription J) (run : RedisRun J) :
    Prop where
  lastId : sub.lastId ≤ run.stream.length
  read : fresh sub.lastSeq (run.stream.take sub.lastId) = []
  yielded : sub.yielded ++ fresh sub.lastSeq run.stream = fresh sub.afterSeq run.stream
  bound : sub.afterSeq ≤ sub.lastSeq
  reached : sub.lastSeq = sub.afterSeq ∨
    ∃ frame ∈ run.stream.filterMap ChannelMessage.frame?, frame.seq = sub.lastSeq

namespace RedisSubscription
variable {J : Type*} {sub : RedisSubscription J} {run run' : RedisRun J}

theorem Tracks.extends (h : sub.Tracks run) (hs : run'.Safe) (hrun : run.Extends run') :
    sub.Tracks run' := by
  obtain ⟨later, hlater⟩ := hrun.stream
  refine ⟨h.lastId.trans hrun.stream.length_le, ?_, ?_, h.bound, ?_⟩
  · rw [← hlater, List.take_append_of_le_length h.lastId]
    exact h.read
  · have hnew : fresh sub.lastSeq later = fresh sub.afterSeq later := by
      rcases h.reached with hsame | ⟨frame, hframe, hseq⟩
      · rw [hsame]
      · have hsorted := hs.consecutive.pairwise
        rw [← hlater, List.filterMap_append, List.pairwise_append] at hsorted
        refine List.filter_congr fun new hnew => ?_
        have hlt := hsorted.2.2 frame hframe new hnew
        have hbound := h.bound
        rw [decide_eq_decide]
        omega
    rw [← hlater, fresh_append, fresh_append, hnew, ← List.append_assoc, h.yielded]
  · refine h.reached.imp id fun ⟨frame, hframe, hseq⟩ => ⟨frame, ?_, hseq⟩
    rw [← hlater, List.filterMap_append]
    exact List.mem_append_left _ hframe

/-- Passing an entry that is not fresh. -/
theorem Tracks.pass (h : sub.Tracks run) {entry : ChannelMessage J}
    {page : List (ChannelMessage J)} (hpage : entry :: page <+: run.stream.drop sub.lastId)
    (hold : fresh sub.lastSeq [entry] = []) :
    Tracks { sub with lastId := sub.lastId + 1 } run ∧
      page <+: run.stream.drop (sub.lastId + 1) := by
  obtain ⟨later, hlater⟩ := hpage
  have hentry : run.stream[sub.lastId]? = some entry := by
    rw [← Nat.add_zero sub.lastId, ← List.getElem?_drop, ← hlater]
    rfl
  have hlt := (List.getElem?_eq_some_iff.mp hentry).1
  refine ⟨⟨hlt, ?_, h.yielded, h.bound, h.reached⟩, later, ?_⟩
  · show fresh sub.lastSeq (run.stream.take (sub.lastId + 1)) = []
    rw [List.take_add_one, hentry, fresh_append, h.read]
    exact hold
  · rw [← List.drop_drop, ← hlater]
    rfl

/-- Yielding the first fresh frame of the stream. -/
theorem Tracks.yield (h : sub.Tracks run) (hs : run.Safe) {frame : RunFrame J}
    {rest : List (RunFrame J)} (hframe : fresh sub.lastSeq run.stream = frame :: rest) :
    Tracks { sub with lastSeq := frame.seq, yielded := sub.yielded ++ [frame] } run := by
  have hmem : frame ∈ fresh sub.lastSeq run.stream := by simp [hframe]
  obtain ⟨hin, habove⟩ := List.mem_filter.mp hmem
  have habove : sub.lastSeq < frame.seq := by simpa using habove
  refine ⟨h.lastId, ?_, ?_, h.bound.trans habove.le, .inr ⟨frame, hin, rfl⟩⟩
  · show fresh frame.seq (run.stream.take sub.lastId) = []
    rw [fresh_raise habove.le, h.read]
    rfl
  · show (sub.yielded ++ [frame]) ++ fresh frame.seq run.stream = _
    rw [hs.fresh_tail hframe, List.append_assoc, List.singleton_append, ← hframe]
    exact h.yielded

end RedisSubscription

namespace RedisSubscriber
variable {J : Type*} {run : RedisRun J}

/-- What a turn keeps of a subscription while it moves it on. -/
structure Advances (sub sub' : RedisSubscription J) : Prop where
  runId : sub'.runId = sub.runId
  afterSeq : sub'.afterSeq = sub.afterSeq
  lastSeq : sub.lastSeq ≤ sub'.lastSeq

/-- Reading on in a page: the subscription keeps its place, and the page stays what comes
next in the stream. -/
theorem readPage_spec (hs : run.Safe) {page : List (ChannelMessage J)} {rest? : Option _}
    {sub sub' : RedisSubscription J} (h : sub.Tracks run)
    (hpage : page <+: run.stream.drop sub.lastId) (hread : readPage sub page = (sub', rest?)) :
    sub'.Tracks run ∧ Advances sub sub' ∧
      (∀ rest, rest? = some rest → rest <+: run.stream.drop sub'.lastId ∧
        sub'.lastId + rest.length = sub.lastId + page.length) ∧
      (rest? = none → sub'.sawClose = false → sub'.lastId = sub.lastId + page.length) := by
  induction page generalizing sub with
  | nil =>
    cases hread
    exact ⟨h, ⟨rfl, rfl, le_rfl⟩, by simp, fun _ _ => rfl⟩
  | cons entry page ih =>
    cases entry with
    | close =>
      cases hread
      obtain ⟨htracks, -⟩ := h.pass hpage rfl
      exact ⟨⟨htracks.lastId, htracks.read, htracks.yielded, htracks.bound, htracks.reached⟩,
        ⟨rfl, rfl, le_rfl⟩, by simp, by simp⟩
    | frame frame =>
      simp only [readPage] at hread
      by_cases habove : sub.lastSeq < frame.seq
      · rw [if_pos habove] at hread
        cases hread
        obtain ⟨later, hlater⟩ := hpage
        have hfirst : fresh sub.lastSeq run.stream =
            frame :: fresh sub.lastSeq (page ++ later) := by
          conv_lhs => rw [← List.take_append_drop sub.lastId run.stream]
          rw [fresh_append, h.read, ← hlater, List.cons_append, List.nil_append,
            fresh_above habove]
        have hyield := h.yield hs hfirst
        obtain ⟨htracks, hrest⟩ := hyield.pass
          (show ChannelMessage.frame frame :: page <+: _ from ⟨later, hlater⟩) (fresh_below le_rfl)
        refine ⟨htracks, ⟨rfl, rfl, habove.le⟩, ?_, by simp⟩
        rintro rest ⟨⟩
        refine ⟨hrest, ?_⟩
        simp only [List.length_cons]
        omega
      · rw [if_neg habove] at hread
        obtain ⟨htracks, hrest⟩ := h.pass hpage (fresh_below (Nat.le_of_not_lt habove))
        obtain ⟨htracks', hadvances, hsome, hnone⟩ := ih htracks hrest hread
        refine ⟨htracks', ⟨hadvances.runId, hadvances.afterSeq, hadvances.lastSeq⟩, ?_, ?_⟩
        · intro rest heq
          obtain ⟨hrest, hlength⟩ := hsome rest heq
          refine ⟨hrest, ?_⟩
          simp only [List.length_cons] at hlength ⊢
          omega
        · intro heq hopen
          have hlength := hnone heq hopen
          simp only [List.length_cons] at hlength ⊢
          omega

/-- What is taken out of the buffer is not fresh any more. -/
theorem drain_advances {buffer rest : List (ChannelMessage J)} {stop : DrainStop}
    {sub sub' : RedisSubscription J} (h : drain sub buffer = (sub', rest, stop)) :
    Advances sub sub' ∧ rest <:+ buffer ∧ fresh sub'.lastSeq buffer = fresh sub'.lastSeq rest := by
  induction buffer with
  | nil =>
    cases h
    exact ⟨⟨rfl, rfl, le_rfl⟩, List.suffix_rfl, rfl⟩
  | cons message buffer ih =>
    cases message with
    | close =>
      cases h
      exact ⟨⟨rfl, rfl, le_rfl⟩, List.suffix_cons _ _, rfl⟩
    | frame frame =>
      simp only [drain] at h
      by_cases habove : sub.lastSeq < frame.seq
      · rw [if_pos habove] at h
        cases h
        exact ⟨⟨rfl, rfl, habove.le⟩, List.suffix_cons _ _, fresh_below le_rfl⟩
      · rw [if_neg habove] at h
        obtain ⟨hadvances, hsuffix, hsame⟩ := ih h
        have hold := (Nat.le_of_not_lt habove).trans hadvances.lastSeq
        exact ⟨hadvances, hsuffix.trans (List.suffix_cons _ _), (fresh_below hold).trans hsame⟩

end RedisSubscriber

/-- What a mailbox may promise its reader of the frames above a bound. -/
structure MessageMailbox.Promise {J : Type*} (serves : MessageMailbox J → RedisRun J → ℕ → Prop) :
    Prop where
  reach : ∀ {mailbox run bound}, serves mailbox run bound →
    mailbox.attached ≤ mailbox.next ∧ mailbox.next ≤ run.announced
  attach : ∀ {runId attached run bound}, attached ≤ run.announced →
    serves { runId, attached, next := attached } run bound
  publish : ∀ {mailbox run run' bound}, serves mailbox run bound → run.Safe → run.Extends run' →
    serves mailbox run' bound
  raise : ∀ {mailbox run bound bound'}, serves mailbox run bound → bound ≤ bound' →
    serves mailbox run bound'
  take : ∀ {mailbox run bound buffer}, serves mailbox run bound → buffer <:+ mailbox.buffer →
    fresh bound mailbox.buffer = fresh bound buffer → serves { mailbox with buffer } run bound
  wake : ∀ {mailbox run bound wake}, serves mailbox run bound →
    serves { mailbox with wake } run bound

/-- What the mailbox of a subscriber promises, and from where on. -/
def RedisWorld.Serves {J : Type*} (serves : MessageMailbox J → RedisRun J → ℕ → Prop)
    (world : RedisWorld J) (i : ℕ) (runId : RunId) (bound : ℕ) (attached : ℕ) : Prop :=
  ∃ mailbox, world.mailboxes.get? i = some mailbox ∧ mailbox.runId = runId ∧
    mailbox.attached = attached ∧ serves mailbox (world.run runId) bound

namespace RedisSubscriber
variable {J : Type*}

def subscription? : RedisSubscriber J → Option (RedisSubscription J)
  | .subscribe .. => none
  | .attaching sub | .reading sub _ | .paging sub .. | .replaying sub .. | .checking sub
  | .tailing sub | .waiting sub | .ended sub _ => some sub

/-- The subscription whose live tail goes on in a turn. -/
def resumedTail? (x : RedisInput) : RedisSubscriber J → Option (RedisSubscription J)
  | .checking sub => if x.closed then none else some sub
  | .tailing sub => if x.returns then none else some sub
  | .waiting sub => if x.tick then none else some sub
  | _ => none

section Serves
variable (serves : MessageMailbox J → RedisRun J → ℕ → Prop)

/-- A replay on joining is served from its attachment on; `read` is what the last page it knows
of makes sure of. -/
def StageServed (world : RedisWorld J) (i : ℕ) (sub : RedisSubscription J) (stage : ReplayStage)
    (read : ℕ → Prop) : Prop :=
  stage = .joining → ∃ attached, world.Serves serves i sub.runId sub.lastSeq attached ∧
    read attached

/-- The live tail is served, and everything before its attachment is read. -/
def TailServed (world : RedisWorld J) (i : ℕ) (sub : RedisSubscription J) : Prop :=
  ∃ attached, world.Serves serves i sub.runId sub.lastSeq attached ∧
    fresh sub.lastSeq ((world.run sub.runId).stream.take attached) = []

/-- What holds of a subscriber between its turns. -/
def Stands (world : RedisWorld J) (i : ℕ) : RedisSubscriber J → Prop
  | .subscribe .. => True
  | .attaching sub => sub.Tracks (world.run sub.runId) ∧
      StageServed serves world i sub .joining fun _ => True
  | .reading sub stage => sub.Tracks (world.run sub.runId) ∧
      StageServed serves world i sub stage fun _ => True
  | .paging sub stage page more | .replaying sub stage page more =>
    sub.Tracks (world.run sub.runId) ∧ page <+: (world.run sub.runId).stream.drop sub.lastId ∧
      StageServed serves world i sub stage fun attached =>
        more = false → attached ≤ sub.lastId + page.length
  | .checking sub | .tailing sub | .waiting sub =>
    sub.Tracks (world.run sub.runId) ∧ TailServed serves world i sub
  | .ended sub _ => sub.Tracks (world.run sub.runId)

end Serves

/-- What the live tail takes next is what comes next in the stream. -/
def KeepsPlace (world : RedisWorld J) (i : ℕ) (sub : RedisSubscription J) : Prop :=
  ∀ mailbox sub' rest stop, world.mailboxes.get? i = some mailbox →
    drain sub mailbox.buffer = (sub', rest, stop) → sub'.Tracks (world.run sub.runId)

end RedisSubscriber

namespace RedisWorld
variable {J : Type*}

def Safe (world : RedisWorld J) : Prop := ∀ runId, (world.run runId).Safe

/-- What a turn of anybody else, or of the environment, leaves of a subscriber's part of the
world. -/
structure Keeps (serves : MessageMailbox J → RedisRun J → ℕ → Prop) (world world' : RedisWorld J)
    (i : ℕ) (p : RedisSubscriber J) : Prop where
  runs : ∀ runId, (world.run runId).Extends (world'.run runId)
  served : ∀ sub attached, p.subscription? = some sub →
    world.Serves serves i sub.runId sub.lastSeq attached →
      world'.Serves serves i sub.runId sub.lastSeq attached

/-- The promise to a subscriber outlives the next message its mailbox is handed. -/
def TakesIn (capacity : ℕ) (serves : MessageMailbox J → RedisRun J → ℕ → Prop)
    (world : RedisWorld J) (i : ℕ) (p : RedisSubscriber J) : Prop :=
  ∀ mailbox sub message, world.mailboxes.get? i = some mailbox → p.subscription? = some sub →
    mailbox.next < (world.run mailbox.runId).announced →
      (world.run mailbox.runId).stream[mailbox.next]? = some message →
        serves mailbox (world.run mailbox.runId) sub.lastSeq →
          serves { mailbox.push capacity message with next := mailbox.next + 1 }
            (world.run mailbox.runId) sub.lastSeq

end RedisWorld

section Serves
variable {J : Type*} {serves : MessageMailbox J → RedisRun J → ℕ → Prop}
  {world world' : RedisWorld J} {i : ℕ}

/-- A mailbox serves its subscriber under a new bound as well. -/
theorem RedisWorld.Serves.raise (hpromise : MessageMailbox.Promise serves) {runId : RunId}
    {bound bound' attached : ℕ} (h : world.Serves serves i runId bound attached)
    (hle : bound ≤ bound') : world.Serves serves i runId bound' attached := by
  obtain ⟨mailbox, hget, hid, hattached, hserves⟩ := h
  exact ⟨mailbox, hget, hid, hattached, hpromise.raise hserves hle⟩

/-- An attachment is announced. -/
theorem RedisWorld.Serves.attached_le (hpromise : MessageMailbox.Promise serves)
    (hs : world.Safe) {runId : RunId} {bound attached : ℕ}
    (h : world.Serves serves i runId bound attached) :
    attached ≤ (world.run runId).stream.length := by
  obtain ⟨mailbox, -, -, rfl, hserves⟩ := h
  obtain ⟨hattached, hnext⟩ := hpromise.reach hserves
  exact hattached.trans (hnext.trans (hs _).announced)

namespace RedisSubscriber

/-- Every subscription that has begun keeps its place in the stream. -/
theorem Stands.tracks {p : RedisSubscriber J} {sub : RedisSubscription J}
    (h : p.Stands serves world i) (hsub : p.subscription? = some sub) :
    sub.Tracks (world.run sub.runId) := by
  cases p with
  | subscribe => cases hsub
  | attaching | reading | paging | replaying | checking | tailing | waiting =>
    cases hsub
    exact h.1
  | ended =>
    cases hsub
    exact h

theorem Stands.tail {p : RedisSubscriber J} {x : RedisInput} {sub : RedisSubscription J}
    (h : p.Stands serves world i) (hsub : p.resumedTail? x = some sub) :
    sub.Tracks (world.run sub.runId) ∧ TailServed serves world i sub := by
  cases p with
  | checking | tailing | waiting =>
    simp only [resumedTail?] at hsub
    split_ifs at hsub
    cases hsub
    exact h
  | _ => cases hsub

theorem StageServed.keeps {p : RedisSubscriber J} {sub : RedisSubscription J} {stage : ReplayStage}
    {read : ℕ → Prop} (h : StageServed serves world i sub stage read)
    (hm : RedisWorld.Keeps serves world world' i p) (hsub : p.subscription? = some sub) :
    StageServed serves world' i sub stage read := by
  intro hstage
  obtain ⟨attached, hserves, hread⟩ := h hstage
  exact ⟨attached, hm.served sub attached hsub hserves, hread⟩

theorem TailServed.keeps (hpromise : MessageMailbox.Promise serves) {p : RedisSubscriber J}
    {sub : RedisSubscription J} (h : TailServed serves world i sub) (hs : world.Safe)
    (hm : RedisWorld.Keeps serves world world' i p) (hsub : p.subscription? = some sub) :
    TailServed serves world' i sub := by
  obtain ⟨attached, hserves, hcaught⟩ := h
  refine ⟨attached, hm.served sub attached hsub hserves, ?_⟩
  obtain ⟨later, hlater⟩ := (hm.runs sub.runId).stream
  rw [← hlater, List.take_append_of_le_length (hserves.attached_le hpromise hs)]
  exact hcaught

theorem Stands.keeps (hpromise : MessageMailbox.Promise serves) {p : RedisSubscriber J}
    (h : p.Stands serves world i) (hs : world.Safe) (hs' : world'.Safe)
    (hm : RedisWorld.Keeps serves world world' i p) : p.Stands serves world' i := by
  have htracks : ∀ sub : RedisSubscription J, sub.Tracks (world.run sub.runId) →
      sub.Tracks (world'.run sub.runId) := fun sub h => h.extends (hs' _) (hm.runs _)
  cases p with
  | subscribe => trivial
  | attaching sub | reading sub stage => exact ⟨htracks sub h.1, h.2.keeps hm rfl⟩
  | paging sub stage page more | replaying sub stage page more =>
    obtain ⟨hsame, hpage, hserved⟩ := h
    exact ⟨htracks sub hsame, hpage.trans ((hm.runs sub.runId).stream.drop _),
      hserved.keeps hm rfl⟩
  | checking sub | tailing sub | waiting sub =>
    exact ⟨htracks sub h.1, h.2.keeps hpromise hs hm rfl⟩
  | ended sub how => exact htracks sub h

end RedisSubscriber

namespace RedisWorld

theorem run_setRun (world : RedisWorld J) (runId k : RunId) (run : RedisRun J) :
    (world.setRun runId run).run k = if runId = k then run else world.run k := by
  simp only [RedisWorld.run, setRun, OrderedMap.get?_set]
  split_ifs <;> rfl

theorem run_of_runs (hruns : world'.runs = world.runs) (runId : RunId) :
    world'.run runId = world.run runId := by
  unfold RedisWorld.run
  rw [hruns]

theorem Safe.of_runs (hs : world.Safe) (hruns : world'.runs = world.runs) : world'.Safe := by
  intro runId
  rw [run_of_runs hruns]
  exact hs runId

/-- Replacing one run by one that extends it. -/
theorem setRun_keeps (hpromise : MessageMailbox.Promise serves) (hs : world.Safe) {runId : RunId}
    (run : RedisRun J) (hrun : run.Safe) (hextends : (world.run runId).Extends run) :
    (world.setRun runId run).Safe ∧ ∀ i p, Keeps serves world (world.setRun runId run) i p := by
  have hruns : ∀ k, (world.run k).Extends ((world.setRun runId run).run k) := by
    intro k
    rw [run_setRun]
    split_ifs with hk
    · exact hk ▸ hextends
    · exact ⟨List.prefix_refl _, le_rfl⟩
  refine ⟨fun k => ?_, fun i p => ⟨hruns, ?_⟩⟩
  · rw [run_setRun]
    split_ifs
    · exact hrun
    · exact hs k
  · rintro sub attached - ⟨mailbox, hget, hid, hattached, hserves⟩
    exact ⟨mailbox, hget, hid, hattached, hpromise.publish hserves (hs _) (hruns _)⟩

/-- The runs stay as they are, and so does what the mailbox of the subscriber promises. -/
theorem Keeps.of_mailbox {p : RedisSubscriber J} (hruns : world'.runs = world.runs)
    (hmailbox : ∀ mailbox, world.mailboxes.get? i = some mailbox → ∃ mailbox',
      world'.mailboxes.get? i = some mailbox' ∧ mailbox'.runId = mailbox.runId ∧
        mailbox'.attached = mailbox.attached ∧ ∀ sub, p.subscription? = some sub →
          serves mailbox (world.run mailbox.runId) sub.lastSeq →
            serves mailbox' (world.run mailbox.runId) sub.lastSeq) :
    Keeps serves world world' i p := by
  have hrun := run_of_runs hruns
  refine ⟨fun runId => ?_, ?_⟩
  · rw [hrun]
    exact ⟨List.prefix_refl _, le_rfl⟩
  · rintro sub attached hsub ⟨mailbox, hget, hid, rfl, hserves⟩
    obtain ⟨mailbox', hget', hid', hattached, hmore⟩ := hmailbox mailbox hget
    rw [← hid] at hserves ⊢
    refine ⟨mailbox', hget', hid', hattached, ?_⟩
    rw [hrun]
    exact hmore sub hsub hserves

/-- What happens to one mailbox is nothing to the other subscribers. -/
theorem Keeps.of_others {p : RedisSubscriber J} (hruns : world'.runs = world.runs)
    (hget : world'.mailboxes.get? i = world.mailboxes.get? i) : Keeps serves world world' i p :=
  .of_mailbox hruns fun mailbox hold => ⟨mailbox, hget.trans hold, rfl, rfl, fun _ _ h => h⟩

/-- Replacing the mailbox of one subscriber by one that promises as much. -/
theorem setMailbox_keeps {j : ℕ} {mailbox mailbox' : MessageMailbox J} {p : RedisSubscriber J}
    (hget : world.mailboxes.get? j = some mailbox) (hid : mailbox'.runId = mailbox.runId)
    (hattached : mailbox'.attached = mailbox.attached)
    (hserves : i = j → ∀ sub, p.subscription? = some sub →
      serves mailbox (world.run mailbox.runId) sub.lastSeq →
        serves mailbox' (world.run mailbox.runId) sub.lastSeq) :
    Keeps serves world (world.setMailbox j mailbox') i p := by
  by_cases hi : i = j
  · subst hi
    refine .of_mailbox rfl fun old hold => ?_
    obtain rfl : mailbox = old := Option.some.inj (hget.symm.trans hold)
    exact ⟨mailbox', OrderedMap.get?_set_self _ _ _, hid, hattached, hserves rfl⟩
  · exact .of_others rfl (OrderedMap.get?_set_of_ne _ _ (Ne.symm hi))

/-- What publishers, Redis and the connections do keeps every subscriber served whose mailbox
may take in what it is handed. -/
theorem step_keeps (hpromise : MessageMailbox.Promise serves) {capacity : ℕ} {e : RedisEvent J}
    (hs : world.Safe) (h : step capacity world e = some world') :
    world'.Safe ∧ ∀ i p, (e = .deliver i → TakesIn capacity serves world i p) →
      Keeps serves world world' i p := by
  cases e with
  | append runId entry =>
    simp only [step] at h
    split_ifs at h with hcontinues
    cases h
    have hold := hs runId
    have hnew : RedisRun.Safe
        { world.run runId with stream := (world.run runId).stream ++ [entry] } := by
      refine ⟨?_, hold.announced.trans (by simp)⟩
      rw [List.filterMap_append]
      cases entry with
      | close =>
        rw [List.filterMap_cons_none rfl, List.filterMap_nil, List.append_nil]
        exact hold.consecutive
      | frame frame =>
        refine hold.consecutive.concat fun last hlast => ?_
        rw [Option.mem_def] at hlast
        simpa [Continues, ChannelMessage.frame?, frames, hlast] using hcontinues
    obtain ⟨hsafe, hkeeps⟩ := setRun_keeps hpromise hs _ hnew ⟨List.prefix_append _ _, le_rfl⟩
    exact ⟨hsafe, fun i p _ => hkeeps i p⟩
  | announce runId =>
    simp only [step] at h
    split_ifs at h with hbehind
    cases h
    obtain ⟨hsafe, hkeeps⟩ := setRun_keeps hpromise hs { world.run runId with
      announced := (world.run runId).announced + 1 } ⟨(hs runId).consecutive, hbehind⟩
        ⟨List.prefix_refl _, Nat.le_succ _⟩
    exact ⟨hsafe, fun i p _ => hkeeps i p⟩
  | mark runId =>
    simp only [step] at h
    split_ifs at h
    cases h
    obtain ⟨hsafe, hkeeps⟩ := setRun_keeps hpromise hs { world.run runId with closed := true }
      ⟨(hs runId).consecutive, (hs runId).announced⟩ ⟨List.prefix_refl _, le_rfl⟩
    exact ⟨hsafe, fun i p _ => hkeeps i p⟩
  | deliver subscriber =>
    obtain ⟨mailbox, hget, hturn⟩ := Option.bind_eq_some_iff.mp h
    dsimp only at hturn
    split_ifs at hturn with hbehind
    obtain ⟨message, hmessage, hworld'⟩ := Option.map_eq_some_iff.mp hturn
    cases hworld'
    refine ⟨hs.of_runs rfl, fun i p htakes => setMailbox_keeps hget ?_ ?_ fun hi sub hsub => ?_⟩
    · unfold MessageMailbox.push
      split_ifs <;> rfl
    · unfold MessageMailbox.push
      split_ifs <;> rfl
    · subst hi
      exact htakes rfl mailbox sub message hget hsub hbehind hmessage
  | poke subscriber =>
    obtain ⟨mailbox, hget, hworld'⟩ := Option.map_eq_some_iff.mp h
    cases hworld'
    exact ⟨hs.of_runs rfl, fun i p _ =>
      setMailbox_keeps hget rfl rfl fun _ _ _ hserves => hpromise.wake hserves⟩

end RedisWorld

namespace RedisSubscriber

/-- What a turn of a subscriber keeps: the runs, the mailboxes of all others, and its own
place. -/
structure Turn (serves : MessageMailbox J → RedisRun J → ℕ → Prop) (world : RedisWorld J) (i : ℕ)
    (world' : RedisWorld J) (p' : RedisSubscriber J) : Prop where
  runs : world'.runs = world.runs
  others : ∀ j, j ≠ i → world'.mailboxes.get? j = world.mailboxes.get? j
  stands : p'.Stands serves world' i

theorem Turn.finish {sub : RedisSubscription J} (h : sub.Tracks (world.run sub.runId))
    (how : RedisStreamEnd) : Turn serves world i (RedisSubscriber.finish world i sub how).1
      (RedisSubscriber.finish world i sub how).2 where
  runs := rfl
  others := fun j hj => by
    show (world.mailboxes.erase i).get? j = _
    rw [OrderedMap.get?_erase, if_neg (Ne.symm hj)]
  stands := h

/-- A turn that replaces the subscriber's own mailbox. -/
theorem Turn.setMailbox {mailbox : MessageMailbox J} {p' : RedisSubscriber J}
    (h : p'.Stands serves (world.setMailbox i mailbox) i) :
    Turn serves world i (world.setMailbox i mailbox) p' where
  runs := rfl
  others := fun _ hj => OrderedMap.get?_set_of_ne _ _ (Ne.symm hj)
  stands := h

/-- The replay of a page keeps the subscription's place, and hands over to the live tail
past the mailbox's attachment. -/
theorem replay_turn (hpromise : MessageMailbox.Promise serves) (hs : world.Safe)
    {sub : RedisSubscription J} {stage : ReplayStage} {page : List (ChannelMessage J)} {more : Bool}
    (h : sub.Tracks (world.run sub.runId))
    (hpage : page <+: (world.run sub.runId).stream.drop sub.lastId)
    (hserved : StageServed serves world i sub stage fun attached =>
      more = false → attached ≤ sub.lastId + page.length) :
    Turn serves world i (replay world i sub stage page more).1
      (replay world i sub stage page more).2 := by
  obtain ⟨sub', rest?, hread⟩ : ∃ sub' rest?, readPage sub page = (sub', rest?) := ⟨_, _, rfl⟩
  obtain ⟨htracks, hadvances, hsome, hnone⟩ := readPage_spec (hs _) h hpage hread
  rw [← hadvances.runId] at htracks hsome
  have hstage : ∀ read : ℕ → Prop, (∀ attached,
      (more = false → attached ≤ sub.lastId + page.length) → read attached) →
      StageServed serves world i sub' stage read := by
    intro read hread hjoining
    obtain ⟨attached, hserves, hpast⟩ := hserved hjoining
    rw [← hadvances.runId] at hserves
    exact ⟨attached, hserves.raise hpromise hadvances.lastSeq, hread attached hpast⟩
  unfold replay
  rw [hread]
  cases rest? with
  | some rest =>
    obtain ⟨hrest, hlength⟩ := hsome rest rfl
    refine ⟨rfl, fun _ _ => rfl, htracks, hrest, hstage _ fun attached hpast hlast => ?_⟩
    rw [hlength]
    exact hpast hlast
  | none =>
    dsimp only
    by_cases hmore : more = true ∧ sub'.sawClose = false
    · rw [if_pos hmore]
      exact ⟨rfl, fun _ _ => rfl, htracks, hstage _ fun _ _ => trivial⟩
    · rw [if_neg hmore]
      cases stage with
      | closing => exact .finish htracks .closed
      | joining =>
        dsimp only
        by_cases hclose : sub'.sawClose = true
        · rw [if_pos hclose]
          exact .finish htracks .closed
        · rw [if_neg hclose]
          rw [Bool.not_eq_true] at hclose
          have hlast : more = false := by simpa [hclose] using hmore
          have hlastId := hnone rfl hclose
          obtain ⟨attached, hserves, hpast⟩ := hstage
            (fun attached => attached ≤ sub.lastId + page.length) (fun _ hpast => hpast hlast) rfl
          refine ⟨rfl, fun _ _ => rfl, htracks, attached, hserves, ?_⟩
          have hread := htracks.read
          rw [hlastId] at hread
          obtain ⟨later, hlater⟩ := List.take_prefix_take_left (l := (world.run sub'.runId).stream)
            hpast
          rw [← hlater, fresh_append] at hread
          exact (List.append_eq_nil_iff.mp hread).1

/-- The live tail stays served by what it leaves in its mailbox. -/
theorem tail_turn (hpromise : MessageMailbox.Promise serves) {sub : RedisSubscription J}
    {p' : RedisSubscriber J} (hserved : TailServed serves world i sub)
    (hplace : KeepsPlace world i sub) (htail : tail world i sub = some (world', p')) :
    Turn serves world i world' p' := by
  obtain ⟨attached, ⟨mailbox, hget, hid, rfl, hserves⟩, hcaught⟩ := hserved
  obtain ⟨found, hfound, hturn⟩ := Option.map_eq_some_iff.mp htail
  obtain rfl : mailbox = found := Option.some.inj (hget.symm.trans hfound)
  obtain ⟨sub', buffer, stop, hdrain⟩ : ∃ sub' buffer stop,
    drain sub mailbox.buffer = (sub', buffer, stop) := ⟨_, _, _, rfl⟩
  obtain ⟨hadvances, hsuffix, hsame⟩ := drain_advances hdrain
  have htracks := hplace mailbox sub' buffer stop hget hdrain
  have htaken := hpromise.take (hpromise.raise hserves hadvances.lastSeq) hsuffix hsame
  have hcaught' : fresh sub'.lastSeq ((world.run sub.runId).stream.take mailbox.attached) = [] := by
    rw [fresh_raise hadvances.lastSeq, hcaught]
    rfl
  rw [← hadvances.runId] at htracks htaken hcaught'
  have hid' := hid.trans hadvances.runId.symm
  rw [hdrain] at hturn
  cases stop with
  | yields =>
    cases hturn
    exact .setMailbox ⟨htracks, mailbox.attached,
      ⟨_, OrderedMap.get?_set_self _ _ _, hid', rfl, htaken⟩, hcaught'⟩
  | closes =>
    cases hturn
    exact .finish htracks .closed
  | empty =>
    dsimp only at hturn
    by_cases hoverflowed : mailbox.overflowed = true
    · rw [if_pos hoverflowed] at hturn
      cases hturn
      exact .finish htracks .overflowed
    · rw [if_neg hoverflowed] at hturn
      cases hturn
      unfold MessageMailbox.waitForMessage
      split_ifs
      · exact .setMailbox ⟨htracks, mailbox.attached,
          ⟨_, OrderedMap.get?_set_self _ _ _, hid', rfl, htaken⟩, hcaught'⟩
      · exact .setMailbox ⟨htracks, mailbox.attached,
          ⟨_, OrderedMap.get?_set_self _ _ _, hid', rfl, hpromise.wake htaken⟩, hcaught'⟩

/-- A subscriber keeps its place in a turn in which its live tail does. -/
theorem resume_turn (hpromise : MessageMailbox.Promise serves) {p p' : RedisSubscriber J}
    {x : RedisInput} (hs : world.Safe) (hp : p.Stands serves world i)
    (hplace : ∀ sub, p.resumedTail? x = some sub → KeepsPlace world i sub)
    (h : resume world i p x = some (world', p')) : Turn serves world i world' p' := by
  cases p with
  | subscribe runId afterSeq =>
    simp only [resume] at h
    split_ifs at h with hattached
    cases h
    exact .setMailbox ⟨⟨Nat.zero_le _, rfl, rfl, le_rfl, .inl rfl⟩, fun _ => ⟨x.attached,
      ⟨_, OrderedMap.get?_set_self _ _ _, rfl, rfl, hpromise.attach hattached⟩, trivial⟩⟩
  | attaching sub =>
    cases h
    exact ⟨rfl, fun _ _ => rfl, hp⟩
  | reading sub stage =>
    cases h
    refine ⟨rfl, fun _ _ => rfl, hp.1, List.take_prefix _ _, fun hstage => ?_⟩
    obtain ⟨attached, hserves, -⟩ := hp.2 hstage
    refine ⟨attached, hserves, fun hlast => ?_⟩
    have hreach := hserves.attached_le hpromise hs
    have hshort := of_decide_eq_false hlast
    rw [List.length_take, List.length_drop] at hshort ⊢
    omega
  | paging sub stage page more =>
    have hturn := replay_turn hpromise hs hp.1 hp.2.1 hp.2.2
    rwa [Option.some.inj h] at hturn
  | replaying sub stage page more =>
    simp only [resume] at h
    split_ifs at h
    · cases h
      exact .finish hp.1 .returned
    · have hturn := replay_turn hpromise hs hp.1 hp.2.1 hp.2.2
      rwa [Option.some.inj h] at hturn
  | checking sub =>
    simp only [resume] at h
    split_ifs at h with hclosed
    · cases h
      exact ⟨rfl, fun _ _ => rfl, hp.1, fun hstage => by cases hstage⟩
    · exact tail_turn hpromise hp.2 (hplace sub (if_neg hclosed)) h
  | tailing sub =>
    simp only [resume] at h
    split_ifs at h with hreturns
    · cases h
      exact .finish hp.1 .returned
    · exact tail_turn hpromise hp.2 (hplace sub (if_neg hreturns)) h
  | waiting sub =>
    simp only [resume] at h
    split_ifs at h with htick
    · cases h
      exact ⟨rfl, fun _ _ => rfl, hp⟩
    · obtain ⟨mailbox, -, hturn⟩ := Option.bind_eq_some_iff.mp h
      split_ifs at hturn
      exact tail_turn hpromise hp.2 (hplace sub (if_neg htick)) hturn
  | ended => cases h

end RedisSubscriber
end Serves
end Skein
