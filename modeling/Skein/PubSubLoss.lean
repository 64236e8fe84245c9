import Skein.RedisStreams

/-!
# A pub/sub connection that goes down

The Redis bus of one process, whose one pub/sub connection may lose any announcement while it
is down. When the connection is ready again its listener pokes every mailbox. A poke wakes a
reader without a message, and the loop of the live tail goes back to the mailbox: a reader
that finds nothing there waits again, whether its run has closed or not.
-/
namespace Skein

/-- The world of one bus, and whether its connection is down. -/
structure LossyBus (J : Type*) extends RedisWorld J where
  down : Bool := false

/-- What happens around the subscribers of the bus. -/
inductive LossyEvent (J : Type*)
  | redis (event : RedisEvent J)
  | disconnect
  /-- The next message for a mailbox was published while the connection was down. -/
  | lose (subscriber : ℕ)
  /-- The `ready` listener. -/
  | ready

namespace MessageMailbox
variable {J : Type*}

/-- A message that never reaches the mailbox. -/
def lose (mailbox : MessageMailbox J) (message : ChannelMessage J) : MessageMailbox J :=
  { mailbox with next := mailbox.next + 1, dropped := mailbox.dropped ++ message.frame?.toList }

end MessageMailbox

namespace LossyBus
variable {J : Type*}

/-- What needs the connection, and what only its listener does. -/
def allows (bus : LossyBus J) : RedisEvent J → Bool
  | .append .. | .announce _ | .mark _ => true
  | .deliver _ => !bus.down
  | .poke _ => false

/-- `for (const mailbox of mailboxes) mailbox.poke()`. -/
def pokeAll (world : RedisWorld J) : RedisWorld J :=
  { world with mailboxes := world.mailboxes.mapValues MessageMailbox.poke }

def step (capacity : ℕ) (bus : LossyBus J) : LossyEvent J → Option (LossyBus J)
  | .redis event =>
    if bus.allows event then
      (bus.toRedisWorld.step capacity event).map fun world => { bus with toRedisWorld := world }
    else none
  | .disconnect => some { bus with down := true }
  | .lose subscriber =>
    if bus.down then
      (bus.mailboxes.get? subscriber).bind fun mailbox =>
        let run := bus.run mailbox.runId
        if mailbox.next < run.announced then
          (run.stream[mailbox.next]?).map fun message =>
            { bus with toRedisWorld := bus.setMailbox subscriber (mailbox.lose message) }
        else none
    else none
  | .ready => some { bus with toRedisWorld := pokeAll bus.toRedisWorld, down := false }

end LossyBus

namespace RedisSubscriber
variable {J : Type*}

/-- The subscribers of one bus, with publishers anywhere. -/
def lossyProgram (capacity : ℕ) :
    Program (LossyBus J) (RedisSubscriber J) (LossyEvent J) RedisInput where
  env := LossyBus.step capacity
  start := fun bus _ p =>
    (start bus.toRedisWorld p).map fun world => { bus with toRedisWorld := world }
  resume := fun bus i p x =>
    (resume bus.toRedisWorld i p x).map fun turn => ({ bus with toRedisWorld := turn.1 }, turn.2)

/-- Whether a subscriber is in its live tail, parked or suspended in a `yield`. -/
def inTail : RedisSubscriber J → Bool
  | .tailing _ | .waiting _ => true
  | _ => false

/-- What Redis answers a subscriber that nobody interrupts: no tick comes and its consumer
stays. -/
def aloneInput (world : RedisWorld J) (p : RedisSubscriber J) : RedisInput :=
  { closed := p.subscription?.any fun sub => (world.run sub.runId).closed }

def turns (i : ℕ) : ℕ → RedisWorld J × RedisSubscriber J → Option (RedisWorld J × RedisSubscriber J)
  | 0, s => some s
  | n + 1, s => (resume s.1 i s.2 (aloneInput s.1 s.2)).bind (turns i n)

/-- The subscriber comes to its end with no message, poke or tick more. -/
def EndsAlone (world : RedisWorld J) (i : ℕ) (p : RedisSubscriber J) : Prop :=
  ∃ n world' sub how, turns i n (world, p) = some (world', .ended sub how)

section Alone
variable {world : RedisWorld J} {i : ℕ} {p : RedisSubscriber J}
  {turn : RedisWorld J × RedisSubscriber J}

theorem EndsAlone.of_ended (sub : RedisSubscription J) (how : RedisStreamEnd) :
    EndsAlone world i (.ended sub how) := ⟨0, world, sub, how, rfl⟩

/-- A turn is the first of those it still takes. -/
theorem EndsAlone.of_resume (h : resume world i p (aloneInput world p) = some turn)
    (hends : EndsAlone turn.1 i turn.2) : EndsAlone world i p := by
  obtain ⟨n, last, sub, how, hturns⟩ := hends
  refine ⟨n + 1, last, sub, how, ?_⟩
  rw [turns, h]
  exact hturns

theorem endsAlone_iff_resume (hp : ∀ sub how, p ≠ .ended sub how)
    (h : resume world i p (aloneInput world p) = some turn) :
    EndsAlone world i p ↔ EndsAlone turn.1 i turn.2 := by
  refine ⟨?_, .of_resume h⟩
  rintro ⟨n, last, sub, how, hturns⟩
  cases n with
  | zero =>
    cases hturns
    exact absurd rfl (hp sub how)
  | succ n =>
    rw [turns, h] at hturns
    exact ⟨n, last, sub, how, hturns⟩

end Alone

/-- What is left of a page after a frame is yielded, or where it is read to the end. -/
theorem readPage_counts {page : List (ChannelMessage J)} {sub sub' : RedisSubscription J}
    {rest? : Option (List (ChannelMessage J))} (h : readPage sub page = (sub', rest?)) :
    sub'.runId = sub.runId ∧
      (∀ rest, rest? = some rest → rest.length < page.length ∧
        sub'.lastId + rest.length = sub.lastId + page.length) ∧
      (rest? = none → sub'.sawClose = false → sub'.lastId = sub.lastId + page.length) := by
  induction page generalizing sub with
  | nil =>
    cases h
    refine ⟨rfl, fun rest hrest => ?_, fun _ _ => rfl⟩
    cases hrest
  | cons entry page ih =>
    cases entry with
    | close =>
      cases h
      refine ⟨rfl, fun rest hrest => ?_, fun _ hsaw => ?_⟩
      · cases hrest
      · cases hsaw
    | frame frame =>
      simp only [readPage] at h
      split_ifs at h with habove
      · cases h
        refine ⟨rfl, fun rest hrest => ?_, fun hnone => ?_⟩
        · cases hrest
          simp only [List.length_cons]
          omega
        · cases hnone
      · obtain ⟨hid, hsome, hnone⟩ := ih h
        refine ⟨hid, fun rest hrest => ?_, fun hend hsaw => ?_⟩
        · have hcounts := hsome rest hrest
          simp only [List.length_cons] at hcounts ⊢
          omega
        · have hcounts := hnone hend hsaw
          simp only [List.length_cons] at hcounts ⊢
          omega

section Replay
variable {world : RedisWorld J} {i : ℕ} {stage : ReplayStage} {more : Bool}

/-- A page is read to its end, and what comes after it is all that matters. -/
theorem replay_endsAlone {sub : RedisSubscription J} {page : List (ChannelMessage J)}
    (hread : more = true → ∀ sub' : RedisSubscription J, sub'.runId = sub.runId →
      sub'.lastId = sub.lastId + page.length → EndsAlone world i (.reading sub' stage))
    (hcheck : stage = .joining → ∀ sub' : RedisSubscription J, sub'.runId = sub.runId →
      EndsAlone world i (.checking sub')) :
    EndsAlone (replay world i sub stage page more).1 i (replay world i sub stage page more).2 := by
  induction hlength : page.length using Nat.strong_induction_on generalizing sub page with
  | _ n ih =>
    obtain ⟨sub', rest?, hpage⟩ : ∃ sub' rest?, readPage sub page = (sub', rest?) := ⟨_, _, rfl⟩
    obtain ⟨hid, hsome, hnone⟩ := readPage_counts hpage
    unfold replay
    rw [hpage]
    cases rest? with
    | some rest =>
      obtain ⟨hshorter, hcount⟩ := hsome rest rfl
      dsimp only
      refine .of_resume rfl (ih rest.length (hlength ▸ hshorter) (fun hmore next hnext hlast => ?_)
        (fun hstage next hnext => ?_) rfl)
      · exact hread hmore next (hnext.trans hid) (hlast.trans hcount)
      · exact hcheck hstage next (hnext.trans hid)
    | none =>
      dsimp only
      by_cases hmore : more = true ∧ sub'.sawClose = false
      · rw [if_pos hmore]
        exact hread hmore.1 sub' hid (hnone rfl hmore.2)
      · rw [if_neg hmore]
        cases stage with
        | closing => exact .of_ended sub' .closed
        | joining =>
          dsimp only
          split_ifs
          · exact .of_ended sub' .closed
          · exact hcheck rfl sub' hid

/-- A replay ends by itself where what follows it does; the pages get on in the stream. -/
theorem reading_endsAlone {sub : RedisSubscription J}
    (hcheck : stage = .joining → ∀ sub' : RedisSubscription J, sub'.runId = sub.runId →
      EndsAlone world i (.checking sub')) :
    EndsAlone world i (.reading sub stage) := by
  induction hleft : (world.run sub.runId).stream.length - sub.lastId using Nat.strong_induction_on
    generalizing sub with
  | _ n ih =>
    set page := ((world.run sub.runId).stream.drop sub.lastId).take replayPageSize with hpage
    have hlength : page.length =
        min replayPageSize ((world.run sub.runId).stream.length - sub.lastId) := by
      rw [hpage, List.length_take, List.length_drop]
    have hpositive : 0 < replayPageSize := by decide
    have hresume : resume world i (.reading sub stage) (aloneInput world (.reading sub stage)) =
        some (world, .paging sub stage page (page.length = replayPageSize)) := rfl
    refine .of_resume hresume (.of_resume rfl
      (replay_endsAlone (fun hmore sub' hid hlast => ?_) hcheck))
    have hfull := of_decide_eq_true hmore
    refine ih _ ?_ (fun hstage next hnext => hcheck hstage next (hnext.trans hid)) rfl
    rw [hid]
    omega

end Replay

/-- The messages taken up to the next yield are gone from the buffer. -/
theorem drain_counts {buffer rest : List (ChannelMessage J)} {stop : DrainStop}
    {sub sub' : RedisSubscription J} (h : drain sub buffer = (sub', rest, stop)) :
    (stop = .yields → rest.length < buffer.length) ∧ (stop = .closes → .close ∈ buffer) ∧
      (stop = .empty → rest = []) := by
  induction buffer with
  | nil =>
    cases h
    refine ⟨fun hstop => ?_, fun hstop => ?_, fun _ => rfl⟩
    · cases hstop
    · cases hstop
  | cons message buffer ih =>
    cases message with
    | close =>
      cases h
      refine ⟨fun hstop => ?_, fun _ => List.mem_cons_self, fun hstop => ?_⟩
      · cases hstop
      · cases hstop
    | frame frame =>
      simp only [drain] at h
      split_ifs at h
      · cases h
        refine ⟨fun _ => Nat.lt_succ_self _, fun hstop => ?_, fun hstop => ?_⟩
        · cases hstop
        · cases hstop
      · obtain ⟨hyields, hcloses, hempty⟩ := ih h
        refine ⟨fun hstop => ?_, fun hstop => ?_, hempty⟩
        · exact (hyields hstop).trans (Nat.lt_succ_self _)
        · exact List.mem_cons_of_mem _ (hcloses hstop)

section Tail
variable {world : RedisWorld J} {i : ℕ}

/-- Whoever waits at an empty mailbox waits until it is woken. -/
theorem waiting_not_endsAlone {sub : RedisSubscription J} {mailbox : MessageMailbox J}
    (hget : world.mailboxes.get? i = some mailbox) (hwake : mailbox.wake = true) :
    ¬EndsAlone world i (.waiting sub) := by
  rintro ⟨n, last, sub', how, hturns⟩
  cases n with
  | zero => cases hturns
  | succ n => simp [turns, resume, aloneInput, hget, hwake] at hturns

theorem tailing_endsAlone_iff {sub : RedisSubscription J}
    {turn : RedisWorld J × RedisSubscriber J} (hturn : tail world i sub = some turn) :
    EndsAlone world i (.tailing sub) ↔ EndsAlone turn.1 i turn.2 := by
  have hresume : resume world i (.tailing sub) (aloneInput world (.tailing sub)) = some turn :=
    hturn
  exact endsAlone_iff_resume (fun _ _ h => by cases h) hresume

theorem tail_endsAlone {sub : RedisSubscription J} {mailbox : MessageMailbox J}
    {turn : RedisWorld J × RedisSubscriber J}
    (hget : world.mailboxes.get? i = some mailbox) (hlost : .close ∉ mailbox.buffer)
    (hturn : tail world i sub = some turn) :
    EndsAlone turn.1 i turn.2 ↔ mailbox.overflowed = true := by
  induction hlength : mailbox.buffer.length using Nat.strong_induction_on
    generalizing world sub mailbox turn with
  | _ n ih =>
    obtain ⟨sub', rest, stop, hdrain⟩ : ∃ sub' rest stop,
      drain sub mailbox.buffer = (sub', rest, stop) := ⟨_, _, _, rfl⟩
    obtain ⟨-, hsuffix, -⟩ := drain_advances hdrain
    obtain ⟨hyields, hcloses, hempty⟩ := drain_counts hdrain
    unfold tail at hturn
    rw [hget, Option.map_some, hdrain] at hturn
    cases stop with
    | closes => exact absurd (hcloses rfl) hlost
    | yields =>
      cases hturn
      have hget' : (world.setMailbox i { mailbox with buffer := rest }).mailboxes.get? i =
        some { mailbox with buffer := rest } := OrderedMap.get?_set_self _ _ _
      obtain ⟨next, hnext⟩ : ∃ next,
          tail (world.setMailbox i { mailbox with buffer := rest }) i sub' = some next := by
        unfold tail
        rw [hget']
        exact ⟨_, rfl⟩
      have hlost' : ChannelMessage.close ∉ rest := fun hmem => hlost (hsuffix.subset hmem)
      rw [tailing_endsAlone_iff hnext]
      have hlt : rest.length < n := hlength ▸ hyields rfl
      exact @ih rest.length hlt _ sub' { mailbox with buffer := rest } next hget' hlost' hnext rfl
    | empty =>
      have hrest := hempty rfl
      by_cases hoverflowed : mailbox.overflowed = true
      · simp only [hoverflowed, if_true] at hturn
        cases hturn
        exact iff_of_true (.of_ended _ _) hoverflowed
      · simp only [hoverflowed] at hturn
        cases hturn
        refine iff_of_false ?_ hoverflowed
        refine waiting_not_endsAlone (OrderedMap.get?_set_self _ _ _) ?_
        simp [MessageMailbox.waitForMessage, hrest]

/-- A poke takes nobody out of the live tail: with the close message lost, only a mailbox that
overflowed ends a subscription there. Elsewhere the replay and the marker do. -/
theorem poked_endsAlone_iff {p : RedisSubscriber J} {sub : RedisSubscription J}
    {mailbox : MessageMailbox J} (hsub : p.subscription? = some sub)
    (hclosed : (world.run sub.runId).closed = true)
    (hget : world.mailboxes.get? i = some mailbox) (hlost : .close ∉ mailbox.buffer) :
    EndsAlone (LossyBus.pokeAll world) i p ↔ (p.inTail = true → mailbox.overflowed = true) := by
  set poked := LossyBus.pokeAll world with hpoked
  have hget' : poked.mailboxes.get? i = some mailbox.poke := by
    rw [hpoked, LossyBus.pokeAll, OrderedMap.get?_mapValues, hget, Option.map_some]
  have hchecking : ∀ sub' : RedisSubscription J, sub'.runId = sub.runId →
      EndsAlone poked i (.checking sub') := by
    intro sub' hid
    have hmarker : (poked.run sub'.runId).closed = true := by
      rw [hid]
      exact hclosed
    have hresume : resume poked i (.checking sub') (aloneInput poked (.checking sub')) =
        some (poked, .reading sub' .closing) := by
      simp [resume, aloneInput, subscription?, hmarker]
    exact .of_resume hresume (reading_endsAlone fun hstage => by cases hstage)
  obtain ⟨turn, hturn⟩ : ∃ turn, tail poked i sub = some turn := by
    unfold tail
    rw [hget']
    exact ⟨_, rfl⟩
  have htail := tail_endsAlone hget' hlost hturn
  have hreading : ∀ stage, EndsAlone poked i (.reading sub stage) := fun stage =>
    reading_endsAlone fun _ sub' hid => hchecking sub' hid
  cases p with
  | subscribe => cases hsub
  | ended =>
    cases hsub
    exact iff_of_true (.of_ended _ _) (fun h => by cases h)
  | attaching =>
    cases hsub
    exact iff_of_true (.of_resume rfl (hreading .joining)) (fun h => by cases h)
  | reading _ stage =>
    cases hsub
    exact iff_of_true (hreading stage) (fun h => by cases h)
  | paging _ stage page more | replaying _ stage page more =>
    cases hsub
    refine iff_of_true (.of_resume rfl (replay_endsAlone (fun _ sub' hid _ => ?_) ?_))
      (fun h => by cases h)
    · exact reading_endsAlone fun _ next hnext => hchecking next (hnext.trans hid)
    · exact fun _ => hchecking
  | checking =>
    cases hsub
    exact iff_of_true (hchecking sub rfl) (fun h => by cases h)
  | tailing =>
    cases hsub
    rw [tailing_endsAlone_iff hturn, htail]
    simp [inTail, MessageMailbox.poke]
  | waiting =>
    cases hsub
    have hresume : resume poked i (.waiting sub) (aloneInput poked (.waiting sub)) = some turn := by
      simpa [resume, aloneInput, hget', MessageMailbox.poke] using hturn
    rw [endsAlone_iff_resume (fun _ _ h => by cases h) hresume, htail]
    simp [inTail, MessageMailbox.poke]

end Tail
end RedisSubscriber
end Skein
