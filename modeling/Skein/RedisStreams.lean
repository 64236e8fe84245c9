import Skein.MailboxReaders

/-!
# Redis streams and the mailbox

What a mailbox was handed and its subscriber has not read is what it buffers, followed by
what it dropped, as long as it takes nothing in after a frame it had to drop. Raising the
subscriber's bound cuts both sides alike, so replay and live tail keep this equation, and
the next buffered frame is always the next frame of the stream. The mailbox itself does not
keep to that: it takes frames in again once there is room.
-/
namespace Skein

/-- What a mailbox was handed and its subscriber has not read is what it buffers and what it
dropped. -/
structure MessageMailbox.Feeds {J : Type*} (mailbox : MessageMailbox J) (run : RedisRun J)
    (bound : ℕ) : Prop where
  attached : mailbox.attached ≤ mailbox.next
  next : mailbox.next ≤ run.announced
  handed : fresh bound ((run.stream.take mailbox.next).drop mailbox.attached) =
    fresh bound mailbox.buffer ++ mailbox.dropped.filter fun frame => bound < frame.seq

namespace MessageMailbox
variable {J : Type*} {mailbox : MessageMailbox J} {run run' : RedisRun J} {bound bound' : ℕ}

theorem Feeds.extends (h : mailbox.Feeds run bound) (hs : run.Safe) (hrun : run.Extends run') :
    mailbox.Feeds run' bound := by
  obtain ⟨later, hlater⟩ := hrun.stream
  refine ⟨h.attached, h.next.trans hrun.announced, ?_⟩
  rw [← hlater, List.take_append_of_le_length (h.next.trans hs.announced)]
  exact h.handed

theorem Feeds.raise (h : mailbox.Feeds run bound) (hle : bound ≤ bound') :
    mailbox.Feeds run bound' := by
  refine ⟨h.attached, h.next, ?_⟩
  rw [fresh_raise hle, h.handed, List.filter_append, ← fresh_raise hle, List.filter_filter]
  congr 1
  refine List.filter_congr fun frame _ => ?_
  rw [← Bool.decide_and, decide_eq_decide]
  omega

/-- Taking messages out of the buffer that are not fresh. -/
theorem Feeds.take (h : mailbox.Feeds run bound) {buffer : List (ChannelMessage J)}
    (hbuffer : fresh bound mailbox.buffer = fresh bound buffer) :
    Feeds { mailbox with buffer } run bound :=
  ⟨h.attached, h.next, hbuffer ▸ h.handed⟩

/-- A mailbox that is handed its next message, and does not take a frame in after one it
had to drop. -/
theorem Feeds.push (h : mailbox.Feeds run bound) (hs : run.Safe) (capacity : ℕ)
    {message : ChannelMessage J} (hlt : mailbox.next < run.announced)
    (hmessage : run.stream[mailbox.next]? = some message)
    (hlate : mailbox.buffer.length < capacity → message.frame? ≠ none →
      ∀ frame ∈ mailbox.dropped, frame.seq ≤ bound) :
    Feeds { mailbox.push capacity message with next := mailbox.next + 1 } run bound := by
  have hhanded : fresh bound ((run.stream.take (mailbox.next + 1)).drop mailbox.attached) =
      fresh bound mailbox.buffer ++ mailbox.dropped.filter (fun frame => bound < frame.seq) ++
        fresh bound [message] := by
    have hnext := (hlt.trans_le hs.announced).le
    rw [List.take_add_one, hmessage, List.drop_append_of_le_length, fresh_append, h.handed]
    · rfl
    · rw [List.length_take, Nat.min_eq_left hnext]
      exact h.attached
  unfold MessageMailbox.push
  split_ifs with hfull
  · refine ⟨h.attached.trans (Nat.le_succ _), hlt, ?_⟩
    rw [hhanded, List.filter_append, ← fresh_singleton, List.append_assoc]
  · refine ⟨h.attached.trans (Nat.le_succ _), hlt, ?_⟩
    dsimp only
    rw [hhanded, fresh_append]
    cases hframe : message.frame? with
    | none =>
      have hnone : fresh bound [message] = [] := by rw [fresh_singleton, hframe]; rfl
      rw [hnone, List.append_nil, List.append_nil]
    | some frame =>
      have hread := hlate (Nat.lt_of_not_le hfull) (by rw [hframe]; simp)
      have hnone : mailbox.dropped.filter (fun frame => bound < frame.seq) = [] :=
        List.filter_eq_nil_iff.mpr fun frame hmem => by
          simpa using hread frame hmem
      rw [hnone, List.append_nil, List.append_nil]

/-- What a subscriber that has read past its attachment finds in the buffer comes next in
the stream. -/
theorem Feeds.buffered (h : mailbox.Feeds run bound)
    (hcaught : fresh bound (run.stream.take mailbox.attached) = []) :
    fresh bound mailbox.buffer <+: fresh bound run.stream := by
  have hsplit : run.stream = run.stream.take mailbox.attached ++
      (run.stream.take mailbox.next).drop mailbox.attached ++ run.stream.drop mailbox.next := by
    have hfirst : run.stream.take mailbox.attached =
        (run.stream.take mailbox.next).take mailbox.attached := by
      rw [List.take_take, Nat.min_eq_left h.attached]
    rw [hfirst, List.take_append_drop, List.take_append_drop]
  rw [hsplit, fresh_append, fresh_append, hcaught, List.nil_append, h.handed, List.append_assoc]
  exact List.prefix_append _ _

/-- What feeds a subscriber goes on feeding it. -/
theorem feeds_promise : MessageMailbox.Promise (Feeds (J := J)) where
  reach := fun h => ⟨h.attached, h.next⟩
  attach := by
    intro runId attached run bound hattached
    refine ⟨le_rfl, hattached, ?_⟩
    rw [List.drop_eq_nil_of_le (by
      rw [List.length_take]
      exact Nat.min_le_left _ _)]
    rfl
  publish := fun h hs hrun => h.extends hs hrun
  raise := fun h hle => h.raise hle
  take := fun h _ hbuffer => h.take hbuffer
  wake := fun h => ⟨h.attached, h.next, h.handed⟩

end MessageMailbox

namespace RedisSubscriber
variable {J : Type*} {world : RedisWorld J} {i : ℕ}

/-- A frame that is yielded from the buffer is the next one of the stream. -/
theorem drain_tracks {run : RedisRun J} (hs : run.Safe) {buffer rest : List (ChannelMessage J)}
    {stop : DrainStop} {sub sub' : RedisSubscription J} (h : sub.Tracks run)
    (hbuffer : fresh sub.lastSeq buffer <+: fresh sub.lastSeq run.stream)
    (hdrain : drain sub buffer = (sub', rest, stop)) : sub'.Tracks run := by
  induction buffer with
  | nil =>
    cases hdrain
    exact h
  | cons message buffer ih =>
    cases message with
    | close =>
      cases hdrain
      exact h
    | frame frame =>
      simp only [drain] at hdrain
      by_cases habove : sub.lastSeq < frame.seq
      · rw [if_pos habove] at hdrain
        cases hdrain
        rw [fresh_above habove] at hbuffer
        obtain ⟨later, hlater⟩ := hbuffer
        exact h.yield hs hlater.symm
      · rw [if_neg habove] at hdrain
        rw [fresh_below (Nat.le_of_not_lt habove)] at hbuffer
        exact ih hbuffer hdrain

/-- The live tail of a subscriber that is fed keeps its place. -/
theorem keepsPlace_of_feeds (hs : world.Safe) {sub : RedisSubscription J}
    (h : sub.Tracks (world.run sub.runId))
    (hserved : TailServed MessageMailbox.Feeds world i sub) : KeepsPlace world i sub := by
  intro mailbox sub' rest stop hget hdrain
  obtain ⟨attached, ⟨found, hfound, -, rfl, hfeeds⟩, hcaught⟩ := hserved
  obtain rfl : mailbox = found := Option.some.inj (hget.symm.trans hfound)
  exact drain_tracks (hs _) h (hfeeds.buffered hcaught) hdrain

end RedisSubscriber

namespace RedisRunEventBus
variable {J : Type*}

/-- The next message of a subscriber's mailbox would be taken in, though the mailbox had to
drop a frame the subscriber has not read. -/
def AcceptsLate (capacity : ℕ) (w : Pool (RedisWorld J) (RedisSubscriber J)) (i : ℕ) : Prop :=
  ∃ mailbox ∈ w.shared.mailboxes.get? i, ∃ p ∈ w.procs[i]?, ∃ sub ∈ p.subscription?,
    ∃ message ∈ (w.shared.run mailbox.runId).stream[mailbox.next]?,
      mailbox.buffer.length < capacity ∧ message.frame? ≠ none ∧
        ∃ frame ∈ mailbox.dropped, sub.lastSeq < frame.seq

/-- No mailbox takes a frame in after it dropped one that its subscriber has not read. -/
def InTime (capacity : ℕ) (w : Pool (RedisWorld J) (RedisSubscriber J)) :
    Action (RedisEvent J) (RedisSubscriber J) RedisInput → Prop
  | .env (.deliver i) => ¬ AcceptsLate capacity w i
  | _ => True

instance (capacity : ℕ) (w : Pool (RedisWorld J) (RedisSubscriber J)) (i : ℕ) :
    Decidable (AcceptsLate capacity w i) := by
  unfold AcceptsLate
  infer_instance

instance (capacity : ℕ) (w : Pool (RedisWorld J) (RedisSubscriber J)) :
    ∀ a, Decidable (InTime capacity w a)
  | .env (.deliver i) => inferInstanceAs (Decidable (¬ AcceptsLate capacity w i))
  | .env (.append ..) | .env (.announce _) | .env (.mark _) | .env (.poke _) | .spawn _
  | .resume .. => isTrue trivial

/-- A mailbox that does not take a frame in late goes on feeding its subscriber. -/
theorem takesIn_of_inTime {capacity i : ℕ} {w : Pool (RedisWorld J) (RedisSubscriber J)}
    {p : RedisSubscriber J} (hs : w.shared.Safe) (hp : w.procs[i]? = some p)
    (hc : InTime capacity w (.env (.deliver i))) :
    w.shared.TakesIn capacity MessageMailbox.Feeds i p := by
  intro mailbox sub message hget hsub hbehind hmessage hfeeds
  refine hfeeds.push (hs _) capacity hbehind hmessage fun hroom hframe frame hdropped => ?_
  by_contra hunread
  exact hc ⟨mailbox, hget, p, hp, sub, hsub, message, hmessage, hroom, hframe, frame, hdropped,
    Nat.lt_of_not_le hunread⟩

/-- As long as no mailbox takes a frame in late, nobody takes a subscriber out of its
stream. -/
theorem interferenceFree (capacity : ℕ) :
    InterferenceFree (RedisSubscriber.program capacity) (RedisWorld.Safe (J := J))
      (RedisSubscriber.Stands MessageMailbox.Feeds) (InTime capacity) where
  env := by
    intro w e world' hw hc he
    obtain ⟨hsafe, hkeeps⟩ := RedisWorld.step_keeps MessageMailbox.feeds_promise hw.1 he
    refine ⟨hsafe, fun j q hq => (hw.2 j q hq).keeps MessageMailbox.feeds_promise hw.1 hsafe ?_⟩
    refine hkeeps j q fun hdeliver => takesIn_of_inTime hw.1 hq ?_
    rw [← hdeliver]
    exact hc
  start := by
    intro w p world' hw _ hstart
    cases p with
    | subscribe runId afterSeq =>
      cases hstart
      exact ⟨hw.1, trivial, hw.2⟩
    | _ => cases hstart
  resume := by
    intro w i x p world' p' hw _ hp hr
    have hstands := hw.local hp
    have hturn := RedisSubscriber.resume_turn MessageMailbox.feeds_promise hw.1 hstands
      (fun sub hsub => RedisSubscriber.keepsPlace_of_feeds hw.1 (hstands.tail hsub).1
        (hstands.tail hsub).2) hr
    have hsafe := hw.1.of_runs hturn.runs
    exact ⟨hsafe, hturn.stands, fun j q hj hq => (hw.2 j q hq).keeps MessageMailbox.feeds_promise
      hw.1 hsafe (.of_others hturn.runs (hturn.others j hj))⟩

end RedisRunEventBus

/-- What each consumer has received is the beginning of what its run's stream holds above
its bound: no frame is skipped or repeated, dropped by a mailbox or not. -/
structure Seamless {J : Type*} (w : Pool (RedisWorld J) (RedisSubscriber J)) : Prop where
  yields : ∀ (i : ℕ) p sub, w.procs[i]? = some p → p.subscription? = some sub →
    sub.yielded <+: (w.shared.frames sub.runId).dropWhile fun frame => frame.seq ≤ sub.afterSeq
  consecutive : ∀ (i : ℕ) p sub, w.procs[i]? = some p → p.subscription? = some sub →
    Consecutive RunFrame.seq sub.yielded

/-- In every run in which no mailbox takes a frame in after it dropped one that its
subscriber has not read, the streams have no holes. -/
theorem RedisRunEventBus.seamless_of_inTime {J : Type*} (capacity : ℕ)
    {w : Pool (RedisWorld J) (RedisSubscriber J)}
    {as : List (Action (RedisEvent J) (RedisSubscriber J) RedisInput)}
    (h : (RedisSubscriber.program capacity).machine.run ⟨{}, []⟩ as = some w)
    (hc : (RedisSubscriber.program capacity).machine.Along (InTime capacity) ⟨{}, []⟩ as) :
    Seamless w := by
  have hstart : RedisWorld.Safe ({} : RedisWorld J) := fun _ => ⟨.nil, le_rfl⟩
  have hw := (interferenceFree capacity).run (Pool.holds_empty hstart) hc h
  have hlog : ∀ runId, Consecutive RunFrame.seq (w.shared.frames runId) := fun runId =>
    (hw.1 runId).consecutive
  have hyields : ∀ (i : ℕ) p sub, w.procs[i]? = some p → p.subscription? = some sub →
      sub.yielded <+: (w.shared.frames sub.runId).dropWhile
        fun frame => frame.seq ≤ sub.afterSeq := by
    intro i p sub hp hsub
    rw [← filter_above_eq_dropWhile (hlog sub.runId).pairwise]
    exact ⟨_, ((hw.local hp).tracks hsub).yielded⟩
  refine ⟨hyields, fun i p sub hp hsub => ?_⟩
  rw [List.prefix_iff_eq_take.mp (hyields i p sub hp hsub)]
  exact ((hlog sub.runId).suffix (List.dropWhile_suffix _)).take _

namespace RedisRunEventBus

/-- A frame that is published, announced and handed to the first subscriber. -/
def handed (seq : ℕ) : List (Action (RedisEvent ℕ) (RedisSubscriber ℕ) RedisInput) :=
  [.env (.append (.of "run") (.frame ⟨seq, 10 * seq⟩)), .env (.announce (.of "run")),
    .env (.deliver 0)]

/-- A subscriber that waits in its live tail, with a mailbox for two frames, is handed three
and yields the first. -/
def overflowing : List (Action (RedisEvent ℕ) (RedisSubscriber ℕ) RedisInput) :=
  [.spawn (.subscribe (.of "run") 0), .resume 0 {}, .resume 0 {}, .resume 0 {}, .resume 0 {},
    .resume 0 {}] ++ handed 1 ++ handed 2 ++ handed 3 ++ [.resume 0 {}]

/-- The world after a schedule, for mailboxes of two frames. -/
def poolAfter (as : List (Action (RedisEvent ℕ) (RedisSubscriber ℕ) RedisInput)) :
    Pool (RedisWorld ℕ) (RedisSubscriber ℕ) :=
  ((RedisSubscriber.program 2).machine.run ⟨{}, []⟩ as).getD ⟨{}, []⟩

/-- A subscriber that is not handed anything more ends before the frame its mailbox
dropped. -/
theorem overflowed_seamless :
    Seamless (poolAfter (overflowing ++ [.resume 0 {}, .resume 0 {}])) ∧
      (poolAfter (overflowing ++ [.resume 0 {}, .resume 0 {}])).procs =
        [.ended ⟨.of "run", 0, 2, 0, false, [⟨1, 10⟩, ⟨2, 20⟩]⟩ .overflowed] :=
  ⟨seamless_of_inTime 2 (show (RedisSubscriber.program 2).machine.run ⟨{}, []⟩
    (overflowing ++ [.resume 0 {}, .resume 0 {}]) = some (poolAfter _) from rfl) (by decide),
    by decide⟩

/-- A subscriber whose mailbox has room again when the next frame comes yields it past the
one that was dropped. -/
theorem refilled_skips :
    (RedisSubscriber.program 2).machine.run ⟨{}, []⟩
      (overflowing ++ handed 4 ++ [.resume 0 {}, .resume 0 {}]) =
        some (poolAfter (overflowing ++ handed 4 ++ [.resume 0 {}, .resume 0 {}])) ∧
      ¬ Seamless (poolAfter (overflowing ++ handed 4 ++ [.resume 0 {}, .resume 0 {}])) := by
  refine ⟨rfl, fun hseamless => ?_⟩
  have hconsecutive := hseamless.consecutive 0 (.tailing ⟨.of "run", 0, 4, 0, false,
    [⟨1, 10⟩, ⟨2, 20⟩, ⟨4, 40⟩]⟩) _ (by decide) rfl
  simp [Consecutive] at hconsecutive

end RedisRunEventBus
end Skein
