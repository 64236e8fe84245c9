import Skein.PubSubLoss

/-!
# Streams over a connection that loses publishes

What a mailbox should have been handed is in its buffer or was lost, whichever way the two are
mixed. The live tail takes the next frame of the buffer without looking whether it follows the
last one, so a hole is yielded exactly where a frame still unread was lost in front of the one
it takes.
-/
namespace Skein

/-- The frames among some messages. -/
def framesOf {J : Type*} (l : List (ChannelMessage J)) : List (RunFrame J) :=
  l.filterMap ChannelMessage.frame?

section Fresh
variable {J : Type*} {bound : ℕ} {l l' : List (ChannelMessage J)} {frame : RunFrame J}

@[simp] theorem framesOf_append : framesOf (l ++ l') = framesOf l ++ framesOf l' := by
  simp [framesOf]

theorem mem_fresh : frame ∈ fresh bound l ↔ frame ∈ framesOf l ∧ bound < frame.seq := by
  simp [fresh, framesOf]

/-- The smallest of what is fresh comes first. -/
theorem fresh_eq_cons (hsorted : (framesOf l).Pairwise fun a b => a.seq < b.seq)
    (hmem : frame ∈ fresh bound l) (hleast : ∀ other ∈ fresh bound l, frame.seq ≤ other.seq) :
    ∃ rest, fresh bound l = frame :: rest := by
  have hfresh : (fresh bound l).Pairwise fun a b => a.seq < b.seq := hsorted.filter _
  cases hlist : fresh bound l with
  | nil =>
    rw [hlist] at hmem
    cases hmem
  | cons first rest =>
    rw [hlist] at hmem hleast hfresh
    rcases List.mem_cons.mp hmem with rfl | hrest
    · exact ⟨rest, rfl⟩
    · have hlt := (List.pairwise_cons.mp hfresh).1 frame hrest
      have hle := hleast first List.mem_cons_self
      omega

end Fresh

namespace MessageMailbox
variable {J : Type*}

/-- What a mailbox should have been handed of its run. -/
def due (mailbox : MessageMailbox J) (run : RedisRun J) : List (ChannelMessage J) :=
  (run.stream.take mailbox.next).drop mailbox.attached

/-- What is due and unread is buffered or lost, and the buffer is in the order of the stream. -/
structure Covers (mailbox : MessageMailbox J) (run : RedisRun J) (bound : ℕ) : Prop where
  attached : mailbox.attached ≤ mailbox.next
  next : mailbox.next ≤ run.announced
  buffered : (framesOf mailbox.buffer).Sublist (framesOf (mailbox.due run))
  covered : ∀ frame ∈ framesOf (mailbox.due run), bound < frame.seq →
    frame ∈ framesOf mailbox.buffer ∨ frame ∈ mailbox.dropped
  lost : ∀ frame ∈ mailbox.dropped, frame ∈ framesOf run.stream

/-- The frame the live tail takes next. -/
def unread? (bound : ℕ) : List (ChannelMessage J) → Option (RunFrame J)
  | [] => none
  | .close :: _ => none
  | .frame frame :: buffer => if bound < frame.seq then some frame else unread? bound buffer

/-- The mailbox lost a frame its reader has not read, before the one the reader takes next. -/
def HidesLoss (mailbox : MessageMailbox J) (bound : ℕ) : Prop :=
  ∃ frame ∈ unread? bound mailbox.buffer, ∃ lost ∈ mailbox.dropped,
    bound < lost.seq ∧ lost.seq < frame.seq

variable {mailbox mailbox' : MessageMailbox J} {run run' : RedisRun J} {bound bound' : ℕ}
  {message : ChannelMessage J}

theorem Covers.extends (h : mailbox.Covers run bound) (hs : run.Safe) (hrun : run.Extends run') :
    mailbox.Covers run' bound := by
  obtain ⟨later, hlater⟩ := hrun.stream
  have hdue : mailbox.due run' = mailbox.due run := by
    unfold due
    rw [← hlater, List.take_append_of_le_length (h.next.trans hs.announced)]
  refine ⟨h.attached, h.next.trans hrun.announced, ?_, ?_, ?_⟩
  · rw [hdue]
    exact h.buffered
  · rw [hdue]
    exact h.covered
  · intro frame hframe
    rw [← hlater, framesOf_append]
    exact List.mem_append_left _ (h.lost frame hframe)

theorem Covers.raise (h : mailbox.Covers run bound) (hle : bound ≤ bound') :
    mailbox.Covers run bound' :=
  ⟨h.attached, h.next, h.buffered,
    fun frame hframe habove => h.covered frame hframe (hle.trans_lt habove), h.lost⟩

/-- Messages that are not fresh leave the buffer. -/
theorem Covers.take (h : mailbox.Covers run bound) {buffer : List (ChannelMessage J)}
    (hsuffix : buffer <:+ mailbox.buffer)
    (hkept : fresh bound mailbox.buffer = fresh bound buffer) :
    Covers { mailbox with buffer } run bound := by
  refine ⟨h.attached, h.next, ?_, fun frame hframe habove => ?_, h.lost⟩
  · exact (hsuffix.sublist.filterMap _).trans h.buffered
  · refine (h.covered frame hframe habove).imp_left fun hbuffer => ?_
    have hfresh : frame ∈ fresh bound mailbox.buffer := mem_fresh.mpr ⟨hbuffer, habove⟩
    rw [hkept] at hfresh
    exact (mem_fresh.mp hfresh).1

/-- Nothing is due when a mailbox is attached. -/
theorem due_attached (runId : RunId) (attached : ℕ) (run : RedisRun J) :
    due { runId, attached, next := attached } run = [] := by
  apply List.drop_eq_nil_of_le
  rw [List.length_take]
  exact Nat.min_le_left _ _

/-- One announcement more is due. -/
theorem due_succ (mailbox : MessageMailbox J) (hs : run.Safe)
    (hattached : mailbox.attached ≤ mailbox.next) (hlt : mailbox.next < run.announced) (hmessage : run.stream[mailbox.next]? = some message) :
    (run.stream.take (mailbox.next + 1)).drop mailbox.attached = mailbox.due run ++ [message] := by
  have hnext := (hlt.trans_le hs.announced).le
  rw [List.take_add_one, hmessage, List.drop_append_of_le_length]
  · rfl
  · rw [List.length_take, Nat.min_eq_left hnext]
    exact hattached

theorem framesOf_singleton (message : ChannelMessage J) :
    framesOf [message] = message.frame?.toList := by
  cases message <;> rfl

/-- The next announcement is buffered, or it is lost. -/
theorem Covers.next_due (h : mailbox.Covers run bound) (hs : run.Safe)
    (hlt : mailbox.next < run.announced) (hmessage : run.stream[mailbox.next]? = some message)
    (hattached : mailbox'.attached = mailbox.attached) (hnext : mailbox'.next = mailbox.next + 1)
    (hgone : (mailbox'.buffer = mailbox.buffer ++ [message] ∧ mailbox'.dropped = mailbox.dropped) ∨
      (mailbox'.buffer = mailbox.buffer ∧
        mailbox'.dropped = mailbox.dropped ++ message.frame?.toList)) :
    mailbox'.Covers run bound := by
  have hdue : mailbox'.due run = mailbox.due run ++ [message] := by
    unfold due
    rw [hattached, hnext]
    exact due_succ mailbox hs h.attached hlt hmessage
  have hattached' : mailbox'.attached ≤ mailbox'.next := by
    rw [hattached, hnext]
    exact h.attached.trans (Nat.le_succ _)
  have hnext' : mailbox'.next ≤ run.announced := by
    rw [hnext]
    exact hlt
  rcases hgone with ⟨hbuffer, hdropped⟩ | ⟨hbuffer, hdropped⟩
  · refine ⟨hattached', hnext', ?_, fun frame hframe habove => ?_, ?_⟩
    · rw [hbuffer, hdue, framesOf_append, framesOf_append]
      exact h.buffered.append (List.Sublist.refl _)
    · rw [hdue, framesOf_append, List.mem_append] at hframe
      rw [hbuffer, hdropped, framesOf_append, List.mem_append]
      rcases hframe with hframe | hframe
      · exact (h.covered frame hframe habove).imp_left .inl
      · exact .inl (.inr hframe)
    · rw [hdropped]
      exact h.lost
  · refine ⟨hattached', hnext', ?_, fun frame hframe habove => ?_, fun frame hframe => ?_⟩
    · rw [hbuffer, hdue, framesOf_append]
      exact h.buffered.trans (List.sublist_append_left _ _)
    · rw [hdue, framesOf_append, List.mem_append, framesOf_singleton] at hframe
      rw [hbuffer, hdropped, List.mem_append]
      rcases hframe with hframe | hframe
      · exact (h.covered frame hframe habove).imp_right .inl
      · exact .inr (.inr hframe)
    · rw [hdropped, List.mem_append] at hframe
      rcases hframe with hframe | hframe
      · exact h.lost frame hframe
      · have hin : message ∈ run.stream := List.mem_of_getElem? hmessage
        rw [Option.mem_toList] at hframe
        exact List.mem_filterMap.mpr ⟨message, hin, hframe⟩

theorem Covers.push (h : mailbox.Covers run bound) (hs : run.Safe) (capacity : ℕ)
    (hlt : mailbox.next < run.announced) (hmessage : run.stream[mailbox.next]? = some message) :
    Covers { mailbox.push capacity message with next := mailbox.next + 1 } run bound := by
  unfold MessageMailbox.push
  split_ifs
  · exact h.next_due hs hlt hmessage rfl rfl (.inr ⟨rfl, rfl⟩)
  · exact h.next_due hs hlt hmessage rfl rfl (.inl ⟨rfl, rfl⟩)

theorem Covers.lose (h : mailbox.Covers run bound) (hs : run.Safe)
    (hlt : mailbox.next < run.announced) (hmessage : run.stream[mailbox.next]? = some message) :
    (mailbox.lose message).Covers run bound :=
  h.next_due hs hlt hmessage rfl rfl (.inr ⟨rfl, rfl⟩)

/-- What is fresh of a stream was there before the reader attached, is due, or comes later. -/
theorem fresh_split (h : mailbox.Covers run bound)
    (hcaught : fresh bound (run.stream.take mailbox.attached) = []) :
    fresh bound run.stream =
      fresh bound (mailbox.due run) ++ fresh bound (run.stream.drop mailbox.next) := by
  have hsplit : run.stream = run.stream.take mailbox.attached ++ mailbox.due run ++
      run.stream.drop mailbox.next := by
    have hfirst : run.stream.take mailbox.attached =
        (run.stream.take mailbox.next).take mailbox.attached := by
      rw [List.take_take, Nat.min_eq_left h.attached]
    rw [hfirst, due, List.take_append_drop, List.take_append_drop]
  conv_lhs => rw [hsplit, fresh_append, fresh_append, hcaught, List.nil_append]

theorem fresh_of_unread? {buffer : List (ChannelMessage J)} {frame : RunFrame J}
    (h : unread? bound buffer = some frame) : ∃ rest, fresh bound buffer = frame :: rest := by
  induction buffer with
  | nil => cases h
  | cons message buffer ih =>
    cases message with
    | close => cases h
    | frame first =>
      simp only [unread?] at h
      split_ifs at h with habove
      · cases h
        exact ⟨_, fresh_above habove⟩
      · rw [fresh_below (Nat.le_of_not_lt habove)]
        exact ih h

/-- Where no loss is hidden, the frame that is taken is the next of the stream. -/
theorem Covers.next_fresh (h : mailbox.Covers run bound) (hs : run.Safe)
    (hcaught : fresh bound (run.stream.take mailbox.attached) = [])
    (hhides : ¬mailbox.HidesLoss bound) {frame : RunFrame J}
    (hframe : unread? bound mailbox.buffer = some frame) :
    ∃ rest, fresh bound run.stream = frame :: rest := by
  obtain ⟨rest, hbuffer⟩ := fresh_of_unread? hframe
  have hsorted : (framesOf run.stream).Pairwise fun a b => a.seq < b.seq := hs.consecutive.pairwise
  have hmem : frame ∈ fresh bound mailbox.buffer := by simp [hbuffer]
  have hdue : frame ∈ fresh bound (mailbox.due run) :=
    mem_fresh.mpr ⟨h.buffered.subset (mem_fresh.mp hmem).1, (mem_fresh.mp hmem).2⟩
  have hsplit := fresh_split h hcaught
  have hfresh : (fresh bound run.stream).Pairwise fun a b => a.seq < b.seq := hsorted.filter _
  rw [hsplit, List.pairwise_append] at hfresh
  apply fresh_eq_cons hsorted
  · rw [hsplit]
    exact List.mem_append_left _ hdue
  · intro other hother
    rw [hsplit, List.mem_append] at hother
    rcases hother with hother | hother
    · obtain ⟨hin, habove⟩ := mem_fresh.mp hother
      rcases h.covered other hin habove with hbuffered | hlost
      · have hbufferSorted : (fresh bound mailbox.buffer).Pairwise fun a b => a.seq < b.seq := by
          have hdueSorted : (framesOf (mailbox.due run)).Pairwise fun a b => a.seq < b.seq :=
            hsorted.sublist ((List.drop_sublist _ _).trans (List.take_sublist _ _) |>.filterMap _)
          exact (hdueSorted.sublist h.buffered).filter _
        have hin' : other ∈ fresh bound mailbox.buffer := mem_fresh.mpr ⟨hbuffered, habove⟩
        rw [hbuffer] at hbufferSorted hin'
        rcases List.mem_cons.mp hin' with rfl | hrest
        · exact le_rfl
        · exact ((List.pairwise_cons.mp hbufferSorted).1 other hrest).le
      · by_contra hless
        exact hhides ⟨frame, hframe, other, hlost, habove, Nat.lt_of_not_le hless⟩
    · exact (hfresh.2.2 frame hdue other hother).le

/-- What covers a subscriber goes on covering it. -/
theorem covers_promise : MessageMailbox.Promise (Covers (J := J)) where
  reach := fun h => ⟨h.attached, h.next⟩
  attach := by
    intro runId attached run bound hattached
    refine ⟨le_rfl, hattached, List.nil_sublist _, ?_, fun frame hframe => by cases hframe⟩
    intro frame hframe
    rw [due_attached] at hframe
    cases hframe
  publish := fun h hs hrun => h.extends hs hrun
  raise := fun h hle => h.raise hle
  take := fun h hsuffix hkept => h.take hsuffix hkept
  wake := fun h => ⟨h.attached, h.next, h.buffered, h.covered, h.lost⟩

end MessageMailbox

namespace LossyBus
variable {J : Type*} {bus bus' : LossyBus J}

/-- Publishers and the connection leave every subscriber covered, whatever is taken in. -/
theorem step_keeps {capacity : ℕ} {e : LossyEvent J} (hs : bus.Safe)
    (h : step capacity bus e = some bus') :
    bus'.Safe ∧ ∀ i p,
      RedisWorld.Keeps MessageMailbox.Covers bus.toRedisWorld bus'.toRedisWorld i p := by
  cases e with
  | redis event =>
    simp only [step] at h
    split_ifs at h
    obtain ⟨world, hworld, rfl⟩ := Option.map_eq_some_iff.mp h
    obtain ⟨hsafe, hkeeps⟩ := RedisWorld.step_keeps MessageMailbox.covers_promise hs hworld
    refine ⟨hsafe, fun i p => hkeeps i p fun _ => ?_⟩
    intro mailbox sub message _ _ hbehind hmessage hcovers
    exact hcovers.push (hs _) capacity hbehind hmessage
  | disconnect =>
    cases h
    exact ⟨hs, fun i p => .of_others rfl rfl⟩
  | lose subscriber =>
    simp only [step] at h
    split_ifs at h
    obtain ⟨mailbox, hget, hturn⟩ := Option.bind_eq_some_iff.mp h
    split_ifs at hturn with hbehind
    obtain ⟨message, hmessage, rfl⟩ := Option.map_eq_some_iff.mp hturn
    refine ⟨hs.of_runs rfl, fun i p => RedisWorld.setMailbox_keeps hget rfl rfl ?_⟩
    intro _ sub _ hcovers
    exact hcovers.lose (hs _) hbehind hmessage
  | ready =>
    cases h
    refine ⟨hs.of_runs rfl, fun i p => .of_mailbox rfl fun mailbox hget => ?_⟩
    refine ⟨mailbox.poke, ?_, rfl, rfl, fun _ _ hcovers => ?_⟩
    · show (bus.mailboxes.mapValues MessageMailbox.poke).get? i = _
      rw [OrderedMap.get?_mapValues, hget, Option.map_some]
    · exact MessageMailbox.covers_promise.wake hcovers

end LossyBus

namespace RedisSubscriber
variable {J : Type*} {world world' : RedisWorld J} {i : ℕ}

/-- The live tail takes the next unread frame, or passes what it has read. -/
theorem drain_unread {buffer rest : List (ChannelMessage J)} {stop : DrainStop}
    {sub sub' : RedisSubscription J} (h : drain sub buffer = (sub', rest, stop)) :
    (∃ frame, MessageMailbox.unread? sub.lastSeq buffer = some frame ∧ stop = .yields ∧
        sub' = { sub with lastSeq := frame.seq, yielded := sub.yielded ++ [frame] }) ∨
      (MessageMailbox.unread? sub.lastSeq buffer = none ∧ stop ≠ .yields ∧ sub' = sub) := by
  induction buffer with
  | nil =>
    cases h
    exact .inr ⟨rfl, (fun h => by cases h), rfl⟩
  | cons message buffer ih =>
    cases message with
    | close =>
      cases h
      exact .inr ⟨rfl, (fun h => by cases h), rfl⟩
    | frame frame =>
      simp only [drain] at h
      by_cases habove : sub.lastSeq < frame.seq
      · rw [if_pos habove] at h
        cases h
        exact .inl ⟨frame, if_pos habove, rfl, rfl⟩
      · rw [if_neg habove] at h
        have hunread : MessageMailbox.unread? sub.lastSeq (.frame frame :: buffer) =
            MessageMailbox.unread? sub.lastSeq buffer := if_neg habove
        rw [hunread]
        exact ih h

/-- Where no loss is hidden, the live tail of a subscriber that is covered keeps its place. -/
theorem keepsPlace_of_covers (hs : world.Safe) {sub : RedisSubscription J}
    (h : sub.Tracks (world.run sub.runId))
    (hserved : TailServed MessageMailbox.Covers world i sub)
    (hhides : ∀ mailbox, world.mailboxes.get? i = some mailbox →
      ¬mailbox.HidesLoss sub.lastSeq) : KeepsPlace world i sub := by
  intro mailbox sub' rest stop hget hdrain
  obtain ⟨attached, ⟨found, hfound, -, rfl, hcovers⟩, hcaught⟩ := hserved
  obtain rfl : mailbox = found := Option.some.inj (hget.symm.trans hfound)
  rcases drain_unread hdrain with ⟨frame, hframe, -, rfl⟩ | ⟨-, -, rfl⟩
  · obtain ⟨later, hlater⟩ := hcovers.next_fresh (hs _) hcaught (hhides mailbox hget) hframe
    exact h.yield (hs _) hlater
  · exact h

theorem resume_of_resumedTail? {p : RedisSubscriber J} {x : RedisInput} {sub : RedisSubscription J}
    {turn : RedisWorld J × RedisSubscriber J} (hsub : p.resumedTail? x = some sub)
    (h : resume world i p x = some turn) : tail world i sub = some turn := by
  cases p with
  | checking | tailing =>
    simp only [resumedTail?] at hsub
    simp only [resume] at h
    split_ifs at hsub h
    cases hsub
    exact h
  | waiting =>
    simp only [resumedTail?] at hsub
    simp only [resume] at h
    split_ifs at hsub h
    cases hsub
    obtain ⟨mailbox, -, hturn⟩ := Option.bind_eq_some_iff.mp h
    split_ifs at hturn
    exact hturn
  | _ => cases hsub

/-- The next unread frame is yielded, whatever was lost in front of it. -/
theorem tail_yields {sub : RedisSubscription J} {mailbox : MessageMailbox J} {frame : RunFrame J}
    {turn : RedisWorld J × RedisSubscriber J} (hget : world.mailboxes.get? i = some mailbox)
    (hframe : MessageMailbox.unread? sub.lastSeq mailbox.buffer = some frame)
    (h : tail world i sub = some turn) :
    turn.1.runs = world.runs ∧ turn.2 = .tailing
      { sub with lastSeq := frame.seq, yielded := sub.yielded ++ [frame] } := by
  obtain ⟨sub', rest, stop, hdrain⟩ : ∃ sub' rest stop,
    drain sub mailbox.buffer = (sub', rest, stop) := ⟨_, _, _, rfl⟩
  unfold tail at h
  rw [hget, Option.map_some, hdrain] at h
  rcases drain_unread hdrain with ⟨next, hnext, rfl, rfl⟩ | ⟨hnone, -, -⟩
  · obtain rfl : frame = next := Option.some.inj (hframe.symm.trans hnext)
    cases h
    exact ⟨rfl, rfl⟩
  · rw [hframe] at hnone
    cases hnone

end RedisSubscriber

namespace LossyBus
variable {J : Type*}

/-- The subscribers of the bus, over what Redis holds. -/
def redis (w : Pool (LossyBus J) (RedisSubscriber J)) : Pool (RedisWorld J) (RedisSubscriber J) :=
  ⟨w.shared.toRedisWorld, w.procs⟩

/-- A live tail that goes on finds no unread loss in front of the frame it takes. -/
def KeepsUp (w : Pool (LossyBus J) (RedisSubscriber J)) :
    Action (LossyEvent J) (RedisSubscriber J) RedisInput → Prop
  | .resume i x => ∀ p sub mailbox, w.procs[i]? = some p → p.resumedTail? x = some sub →
      w.shared.mailboxes.get? i = some mailbox → ¬mailbox.HidesLoss sub.lastSeq
  | _ => True

/-- The close message of a run that has closed never reached a mailbox. -/
structure CloseLost (world : RedisWorld J) (mailbox : MessageMailbox J) : Prop where
  closed : (world.run mailbox.runId).closed = true
  published : .close ∈ (world.run mailbox.runId).stream.take mailbox.next
  lost : .close ∉ mailbox.buffer

/-- As long as every live tail keeps up, nobody takes a subscriber out of its stream. -/
theorem interferenceFree (capacity : ℕ) :
    InterferenceFree (RedisSubscriber.lossyProgram capacity) (fun bus : LossyBus J => bus.Safe)
      (fun bus i p => RedisSubscriber.Stands MessageMailbox.Covers bus.toRedisWorld i p) KeepsUp where
  env := by
    intro w e bus' hw _ he
    obtain ⟨hsafe, hkeeps⟩ := step_keeps hw.1 he
    exact ⟨hsafe, fun j q hq =>
      (hw.2 j q hq).keeps MessageMailbox.covers_promise hw.1 hsafe (hkeeps j q)⟩
  start := by
    intro w p bus' hw _ hstart
    obtain ⟨world, hworld, rfl⟩ := Option.map_eq_some_iff.mp hstart
    cases p with
    | subscribe runId afterSeq =>
      cases hworld
      exact ⟨hw.1, trivial, hw.2⟩
    | _ => cases hworld
  resume := by
    intro w i x p bus' p' hw hkeeps hp hr
    obtain ⟨turn, hturn, hpair⟩ := Option.map_eq_some_iff.mp hr
    obtain ⟨rfl, rfl⟩ := Prod.mk.inj hpair
    have hstands := hw.local hp
    have hmoves := RedisSubscriber.resume_turn MessageMailbox.covers_promise hw.1 hstands
      (fun sub hsub => RedisSubscriber.keepsPlace_of_covers hw.1 (hstands.tail hsub).1
        (hstands.tail hsub).2 fun mailbox hget => hkeeps p sub mailbox hp hsub hget) hturn
    have hsafe := RedisWorld.Safe.of_runs hw.1 hmoves.runs
    exact ⟨hsafe, hmoves.stands, fun j q hj hq => (hw.2 j q hq).keeps
      MessageMailbox.covers_promise hw.1 hsafe (.of_others hmoves.runs (hmoves.others j hj))⟩

/-- What holds of the bus and its subscribers in every state of such a run. -/
def Holds (w : Pool (LossyBus J) (RedisSubscriber J)) : Prop :=
  w.Holds (fun bus : LossyBus J => bus.Safe)
    fun bus i p => RedisSubscriber.Stands MessageMailbox.Covers bus.toRedisWorld i p

theorem Holds.yielded {w : Pool (LossyBus J) (RedisSubscriber J)} (hw : Holds w) {i : ℕ}
    {p : RedisSubscriber J} {sub : RedisSubscription J} (hp : w.procs[i]? = some p)
    (hsub : p.subscription? = some sub) :
    sub.yielded <+:
      (w.shared.frames sub.runId).dropWhile fun frame => frame.seq ≤ sub.afterSeq := by
  have hlog : Consecutive RunFrame.seq (w.shared.frames sub.runId) := (hw.1 sub.runId).consecutive
  rw [← filter_above_eq_dropWhile hlog.pairwise]
  exact ⟨_, ((hw.local hp).tracks hsub).yielded⟩

theorem Holds.seamless {w : Pool (LossyBus J) (RedisSubscriber J)} (hw : Holds w) :
    Seamless (redis w) := by
  have hlog : ∀ runId, Consecutive RunFrame.seq (w.shared.frames runId) := fun runId =>
    (hw.1 runId).consecutive
  refine ⟨fun i p sub hp hsub => hw.yielded hp hsub, fun i p sub hp hsub => ?_⟩
  rw [List.prefix_iff_eq_take.mp (hw.yielded hp hsub)]
  exact ((hlog sub.runId).suffix (List.dropWhile_suffix _)).take _

/-- A live tail that does not keep up leaves a hole. -/
theorem Holds.not_seamless {capacity : ℕ} {w w' : Pool (LossyBus J) (RedisSubscriber J)}
    {a : Action (LossyEvent J) (RedisSubscriber J) RedisInput} (hw : Holds w)
    (hskips : ¬KeepsUp w a)
    (h : (RedisSubscriber.lossyProgram capacity).machine.step w a = some w') :
    ¬Seamless (redis w') := by
  cases a with
  | env | spawn => exact absurd trivial hskips
  | resume i x =>
    simp only [KeepsUp, not_forall, not_not] at hskips
    obtain ⟨p, sub, mailbox, hp, hsub, hget, frame, hframe, lost, hlost, habove, hbefore⟩ := hskips
    obtain ⟨q, hq, hturn⟩ := Option.bind_eq_some_iff.mp h
    obtain rfl : p = q := Option.some.inj (hp.symm.trans hq)
    obtain ⟨⟨bus', p'⟩, hresume, rfl⟩ := Option.map_eq_some_iff.mp hturn
    obtain ⟨turn, hmoved, hpair⟩ := Option.map_eq_some_iff.mp hresume
    obtain ⟨rfl, rfl⟩ := Prod.mk.inj hpair
    obtain ⟨htracks, attached, ⟨found, hfound, hid, -, hcovers⟩, -⟩ :=
      (hw.local hp).tail hsub
    obtain rfl : mailbox = found := Option.some.inj (hget.symm.trans hfound)
    obtain ⟨hruns, hyields⟩ := RedisSubscriber.tail_yields hget hframe
      (RedisSubscriber.resume_of_resumedTail? hsub hmoved)
    set stream := (w.shared.run sub.runId).stream with hstream
    have hrun : turn.1.run sub.runId = w.shared.run sub.runId := by
      unfold RedisWorld.run
      rw [hruns]
    have hlog : Consecutive RunFrame.seq (framesOf stream) := (hw.1 sub.runId).consecutive
    intro hseamless
    have hmem : (w.procs.set i turn.2)[i]? = some turn.2 := by
      have hlt := (List.getElem?_eq_some_iff.mp hp).1
      simp [hlt]
    have hprefix := hseamless.yields i turn.2 _ hmem (by rw [hyields]; rfl)
    have hframes : turn.1.frames sub.runId = framesOf stream := by
      unfold RedisWorld.frames
      rw [hrun]
      rfl
    dsimp only [redis] at hprefix
    rw [hframes, ← filter_above_eq_dropWhile hlog.pairwise] at hprefix
    -- What was yielded and what is fresh is all there is above the bound of the subscription.
    have hfresh : (framesOf stream).filter (fun frame => sub.afterSeq < frame.seq) =
        sub.yielded ++ fresh sub.lastSeq stream := htracks.yielded.symm
    rw [hfresh, List.prefix_append_right_inj] at hprefix
    obtain ⟨later, hlater⟩ := hprefix
    have hin : lost ∈ fresh sub.lastSeq stream :=
      mem_fresh.mpr ⟨hcovers.lost lost hlost, habove⟩
    have hsorted : (fresh sub.lastSeq stream).Pairwise fun a b => a.seq < b.seq :=
      hlog.pairwise.filter _
    rw [← hlater, List.singleton_append] at hin hsorted
    rcases List.mem_cons.mp hin with rfl | hrest
    · exact absurd hbefore (Nat.lt_irrefl _)
    · have hafter := (List.pairwise_cons.mp hsorted).1 lost hrest
      omega

/-- Streams without holes in every state of a run: every live tail keeps up. -/
theorem keepsUp_of_seamless {capacity : ℕ} {w w' : Pool (LossyBus J) (RedisSubscriber J)}
    {as : List (Action (LossyEvent J) (RedisSubscriber J) RedisInput)} (hw : Holds w)
    (h : (RedisSubscriber.lossyProgram capacity).machine.run w as = some w')
    (hseamless : ∀ bs u, bs <+: as →
      (RedisSubscriber.lossyProgram capacity).machine.run w bs = some u → Seamless (redis u)) :
    (RedisSubscriber.lossyProgram capacity).machine.Along KeepsUp w as := by
  induction as generalizing w with
  | nil => exact trivial
  | cons a as ih =>
    obtain ⟨u, hu, hrun⟩ := (Machine.run_cons_eq_some _).mp h
    have hkeeps : KeepsUp w a := by
      by_contra hskips
      refine hw.not_seamless hskips hu (hseamless [a] u ⟨as, rfl⟩ ?_)
      exact (Machine.run_cons_eq_some _).mpr ⟨u, hu, rfl⟩
    have hnext : Holds u := (interferenceFree capacity).step hw hkeeps hu
    have hrest := ih hnext hrun fun bs v hbs hv =>
      hseamless (a :: bs) v (by simpa using hbs) ((Machine.run_cons_eq_some _).mpr ⟨u, hu, hv⟩)
    simpa [Machine.Along, hu] using ⟨hkeeps, hrest⟩

/-- Over any run, the streams have no holes in any state exactly as long as every live tail
keeps up; and a poke ends a subscription whose close message was lost exactly where the
subscription is not in its live tail or its mailbox overflowed. -/
theorem seamless_iff_keepsUp (capacity : ℕ) {w : Pool (LossyBus J) (RedisSubscriber J)}
    {as : List (Action (LossyEvent J) (RedisSubscriber J) RedisInput)}
    (h : (RedisSubscriber.lossyProgram capacity).machine.run ⟨{}, []⟩ as = some w) :
    ((∀ bs u, bs <+: as →
        (RedisSubscriber.lossyProgram capacity).machine.run ⟨{}, []⟩ bs = some u →
          Seamless (redis u)) ↔
      (RedisSubscriber.lossyProgram capacity).machine.Along KeepsUp ⟨{}, []⟩ as) ∧
    ∀ i p sub mailbox, w.procs[i]? = some p → p.subscription? = some sub →
      w.shared.mailboxes.get? i = some mailbox → mailbox.runId = sub.runId →
        CloseLost w.shared.toRedisWorld mailbox →
          (RedisSubscriber.EndsAlone (pokeAll w.shared.toRedisWorld) i p ↔
            (p.inTail = true → mailbox.overflowed = true)) := by
  have hstart : Holds (⟨{}, []⟩ : Pool (LossyBus J) (RedisSubscriber J)) :=
    Pool.holds_empty fun _ => ⟨.nil, le_rfl⟩
  refine ⟨⟨keepsUp_of_seamless hstart h, fun halong bs u hbs hu => ?_⟩, ?_⟩
  · obtain ⟨cs, rfl⟩ := hbs
    have hholds : Holds u :=
      (interferenceFree capacity).run hstart (Machine.along_append halong hu).1 hu
    exact hholds.seamless
  · intro i p sub mailbox _ hsub hget hid hclose
    exact RedisSubscriber.poked_endsAlone_iff hsub (hid ▸ hclose.closed) hget hclose.lost

/-- A subscriber that comes to wait in its live tail. -/
def parked : List (Action (LossyEvent ℕ) (RedisSubscriber ℕ) RedisInput) :=
  [.spawn (.subscribe (.of "run") 0), .resume 0 {}, .resume 0 {}, .resume 0 {}, .resume 0 {},
    .resume 0 {}]

/-- An entry of the stream that is announced and handed to the subscriber. -/
def delivered (entry : ChannelMessage ℕ) :
    List (Action (LossyEvent ℕ) (RedisSubscriber ℕ) RedisInput) :=
  [.env (.redis (.append (.of "run") entry)), .env (.redis (.announce (.of "run"))),
    .env (.redis (.deliver 0))]

/-- An entry whose announcement falls into a gap of the connection. -/
def lostEntry (entry : ChannelMessage ℕ) :
    List (Action (LossyEvent ℕ) (RedisSubscriber ℕ) RedisInput) :=
  [.env (.redis (.append (.of "run") entry)), .env .disconnect,
    .env (.redis (.announce (.of "run"))), .env (.lose 0)]

def frameOf (seq : ℕ) : ChannelMessage ℕ := .frame ⟨seq, 10 * seq⟩

/-- The pool after a schedule, for mailboxes of eight messages. -/
def lossyPool (as : List (Action (LossyEvent ℕ) (RedisSubscriber ℕ) RedisInput)) :
    Pool (LossyBus ℕ) (RedisSubscriber ℕ) :=
  ((RedisSubscriber.lossyProgram 8).machine.run ⟨{}, []⟩ as).getD ⟨{}, []⟩

instance (mailbox : MessageMailbox ℕ) (bound : ℕ) : Decidable (mailbox.HidesLoss bound) := by
  unfold MessageMailbox.HidesLoss
  infer_instance

instance (w : Pool (LossyBus ℕ) (RedisSubscriber ℕ)) : ∀ a, Decidable (KeepsUp w a)
  | .resume i x =>
    decidable_of_iff (∀ p ∈ w.procs[i]?, ∀ sub ∈ p.resumedTail? x,
        ∀ mailbox ∈ w.shared.mailboxes.get? i, ¬mailbox.HidesLoss sub.lastSeq)
      ⟨fun h p sub mailbox hp hsub hmailbox => h p hp sub hsub mailbox hmailbox,
        fun h p hp sub hsub mailbox hmailbox => h p sub mailbox hp hsub hmailbox⟩
  | .env _ => isTrue trivial
  | .spawn _ => isTrue trivial

/-- A frame that is lost while the subscriber joins is read from the stream. -/
def rejoined : List (Action (LossyEvent ℕ) (RedisSubscriber ℕ) RedisInput) :=
  [.spawn (.subscribe (.of "run") 0), .resume 0 {}] ++ lostEntry (frameOf 1) ++ [.env .ready] ++
    delivered (frameOf 2) ++ [.resume 0 {}, .resume 0 {}, .resume 0 {}, .resume 0 {}]

/-- The run closes in a gap of the connection while a subscriber joins. -/
def joining : List (Action (LossyEvent ℕ) (RedisSubscriber ℕ) RedisInput) :=
  [.spawn (.subscribe (.of "run") 0), .resume 0 {}] ++ lostEntry .close ++
    [.env (.redis (.mark (.of "run")))]

theorem rejoined_seamless :
    (∀ bs u, bs <+: rejoined →
      (RedisSubscriber.lossyProgram 8).machine.run ⟨{}, []⟩ bs = some u → Seamless (redis u)) ∧
    ∃ p ∈ (lossyPool joining).procs[0]?,
      RedisSubscriber.EndsAlone (pokeAll (lossyPool joining).shared.toRedisWorld) 0 p := by
  have hkept : (RedisSubscriber.lossyProgram 8).machine.Along KeepsUp ⟨{}, []⟩ rejoined := by
    decide +kernel
  have hrejoined := seamless_iff_keepsUp 8 (show
    (RedisSubscriber.lossyProgram 8).machine.run ⟨{}, []⟩ rejoined = some (lossyPool rejoined)
      from rfl)
  have hjoining := seamless_iff_keepsUp 8 (show
    (RedisSubscriber.lossyProgram 8).machine.run ⟨{}, []⟩ joining = some (lossyPool joining)
      from rfl)
  refine ⟨hrejoined.1.mpr hkept, _, rfl, (hjoining.2 0 _ _ _ rfl rfl rfl rfl ?_).mpr ?_⟩
  · exact ⟨rfl, by decide +kernel, by decide +kernel⟩
  · exact fun htail => by cases htail

/-- Frame 2 is lost to a parked subscriber, and frame 3 is yielded after frame 1. -/
def skipping : List (Action (LossyEvent ℕ) (RedisSubscriber ℕ) RedisInput) :=
  parked ++ delivered (frameOf 1) ++ [.resume 0 {}] ++ lostEntry (frameOf 2) ++ [.env .ready] ++
    delivered (frameOf 3) ++ [.resume 0 {}]

/-- The run closes while the connection is down. -/
def closing : List (Action (LossyEvent ℕ) (RedisSubscriber ℕ) RedisInput) :=
  parked ++ lostEntry .close ++ [.env (.redis (.mark (.of "run")))]

/-- A parked subscriber yields past a frame that was lost; and one whose close message was lost
is poked and does not end. -/
theorem lostPublish_leavesHole :
    ((RedisSubscriber.lossyProgram 8).machine.run ⟨{}, []⟩ skipping = some (lossyPool skipping) ∧
      ¬Seamless (redis (lossyPool skipping))) ∧
    (RedisSubscriber.lossyProgram 8).machine.run ⟨{}, []⟩ closing = some (lossyPool closing) ∧
      ∃ p mailbox, (lossyPool closing).procs[0]? = some p ∧
        (lossyPool closing).shared.mailboxes.get? 0 = some mailbox ∧
          CloseLost (lossyPool closing).shared.toRedisWorld mailbox ∧
            ¬RedisSubscriber.EndsAlone (pokeAll (lossyPool closing).shared.toRedisWorld) 0 p := by
  refine ⟨⟨rfl, fun hseamless => ?_⟩, rfl, .waiting ⟨.of "run", 0, 0, 0, false, []⟩,
    ⟨.of "run", [], false, true, 0, 1, []⟩, rfl, rfl, ⟨rfl, ?_, ?_⟩, ?_⟩
  · have hconsecutive := hseamless.consecutive 0 (.tailing ⟨.of "run", 0, 3, 0, false,
      [⟨1, 10⟩, ⟨3, 30⟩]⟩) _ rfl rfl
    simp [Consecutive] at hconsecutive
  · exact List.mem_singleton_self _
  · exact List.not_mem_nil
  · have hget : (lossyPool closing).shared.mailboxes.get? 0 =
      some ⟨.of "run", [], false, true, 0, 1, []⟩ := rfl
    have hsub : (RedisSubscriber.waiting ⟨.of "run", 0, 0, 0, false, []⟩).subscription? =
      some (⟨.of "run", 0, 0, 0, false, []⟩ : RedisSubscription ℕ) := rfl
    rw [RedisSubscriber.poked_endsAlone_iff hsub rfl hget List.not_mem_nil]
    intro himp
    exact absurd (himp rfl) (by decide)

end LossyBus
end Skein
