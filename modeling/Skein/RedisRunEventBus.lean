import Mathlib.Data.List.Basic
import Skein.OrderedMap
import Skein.ProcessPool
import Skein.WireTypes

/-!
# The Redis run event bus

`RedisRunEventBus.subscribe` against a Redis that keeps each run's stream and hands over
every announcement on an attached channel once and in order. A position in a stream stands
for an entry's id, so `lastId` counts the entries read and `-` is 0. An `XRANGE` is
executed in one turn and its reply processed in another, and an `EXISTS` that answered "no"
may be stale. A connection hands a message to all its mailboxes at once; here each mailbox
is handed it on its own. `attached`, `next` and `dropped` of a mailbox are bookkeeping.
-/
namespace Skein

/-- An entry of a run's stream, and the pub/sub message that announces it. -/
inductive ChannelMessage (J : Type*)
  | frame (frame : RunFrame J)
  | close
  deriving DecidableEq, Repr

namespace ChannelMessage
variable {J : Type*}

def frame? : ChannelMessage J → Option (RunFrame J)
  | .frame published => some published
  | .close => none

end ChannelMessage

/-- What Redis holds for a run: its stream, how many of the entries were announced, and the
closed marker. -/
structure RedisRun (J : Type*) where
  stream : List (ChannelMessage J) := []
  announced : ℕ := 0
  closed : Bool := false

/-- `wake` is set while a resolver is registered. The mailbox is handed the messages of its
channel from `attached` on, the one at `next` comes next, and `dropped` are the frames it
had no room for. -/
structure MessageMailbox (J : Type*) where
  runId : RunId
  buffer : List (ChannelMessage J) := []
  overflowed : Bool := false
  wake : Bool := false
  attached : ℕ
  next : ℕ
  dropped : List (RunFrame J) := []

namespace MessageMailbox
variable {J : Type*}

def push (capacity : ℕ) (mailbox : MessageMailbox J) (message : ChannelMessage J) :
    MessageMailbox J :=
  if capacity ≤ mailbox.buffer.length then
    { mailbox with
      overflowed := true
      wake := false
      dropped := mailbox.dropped ++ message.frame?.toList }
  else { mailbox with buffer := mailbox.buffer ++ [message], wake := false }

def poke (mailbox : MessageMailbox J) : MessageMailbox J := { mailbox with wake := false }

def waitForMessage (mailbox : MessageMailbox J) : MessageMailbox J :=
  if mailbox.buffer ≠ [] ∨ mailbox.overflowed = true then mailbox else { mailbox with wake := true }

end MessageMailbox

def replayPageSize : ℕ := 500

/-- A subscription under way: `outcome`, and what its consumer has received. -/
structure RedisSubscription (J : Type*) where
  runId : RunId
  afterSeq : ℕ
  lastSeq : ℕ
  lastId : ℕ := 0
  sawClose : Bool := false
  yielded : List (RunFrame J) := []
  deriving DecidableEq, Repr

/-- The replay on joining, or the last one of a run that has closed. -/
inductive ReplayStage
  | joining
  | closing
  deriving DecidableEq, Repr

inductive RedisStreamEnd
  | closed
  | overflowed
  | returned
  deriving DecidableEq, Repr

/-- Where a subscriber stands. `more` says that the page being read was a full one. -/
inductive RedisSubscriber (J : Type*)
  | subscribe (runId : RunId) (afterSeq : ℕ)
  /-- Awaiting `#attach`. -/
  | attaching (sub : RedisSubscription J)
  /-- An `XRANGE` is under way. -/
  | reading (sub : RedisSubscription J) (stage : ReplayStage)
  /-- Its reply is. -/
  | paging (sub : RedisSubscription J) (stage : ReplayStage) (page : List (ChannelMessage J))
      (more : Bool)
  /-- Suspended in a `yield` of the replay. -/
  | replaying (sub : RedisSubscription J) (stage : ReplayStage) (page : List (ChannelMessage J))
      (more : Bool)
  /-- An `EXISTS` is under way. -/
  | checking (sub : RedisSubscription J)
  /-- Suspended in a `yield` of the live tail. -/
  | tailing (sub : RedisSubscription J)
  /-- Waiting for a message or a tick. -/
  | waiting (sub : RedisSubscription J)
  | ended (sub : RedisSubscription J) (how : RedisStreamEnd)
  deriving DecidableEq, Repr

/-- What the environment decides in one turn: from which announcement on the channel is
attached, what `EXISTS` answers, whether the tick comes first, and whether the consumer
leaves. -/
structure RedisInput where
  attached : ℕ := 0
  closed : Bool := false
  tick : Bool := false
  returns : Bool := false

structure RedisWorld (J : Type*) where
  runs : OrderedMap RunId (RedisRun J) := ∅
  mailboxes : OrderedMap ℕ (MessageMailbox J) := ∅

/-- What publishers, Redis and the pub/sub connections do. -/
inductive RedisEvent (J : Type*)
  /-- The `XADD` of a frame or of the close entry. -/
  | append (runId : RunId) (entry : ChannelMessage J)
  /-- The `PUBLISH` of the next entry. -/
  | announce (runId : RunId)
  /-- The `SET` of the closed marker. -/
  | mark (runId : RunId)
  /-- The connection hands a mailbox its next message. -/
  | deliver (subscriber : ℕ)
  /-- The connection is ready again. -/
  | poke (subscriber : ℕ)

namespace RedisWorld
variable {J : Type*}

def run (world : RedisWorld J) (runId : RunId) : RedisRun J := (world.runs.get? runId).getD {}

def setRun (world : RedisWorld J) (runId : RunId) (run : RedisRun J) : RedisWorld J :=
  { world with runs := world.runs.set runId run }

def setMailbox (world : RedisWorld J) (i : ℕ) (mailbox : MessageMailbox J) : RedisWorld J :=
  { world with mailboxes := world.mailboxes.set i mailbox }

/-- The frames published for a run so far. -/
def frames (world : RedisWorld J) (runId : RunId) : List (RunFrame J) :=
  (world.run runId).stream.filterMap ChannelMessage.frame?

/-- Frames are published with consecutive numbers. -/
def Continues (world : RedisWorld J) (runId : RunId) (entry : ChannelMessage J) : Bool :=
  entry.frame?.all fun frame =>
    (world.frames runId).getLast?.all fun last => frame.seq = last.seq + 1

def step (capacity : ℕ) (world : RedisWorld J) : RedisEvent J → Option (RedisWorld J)
  | .append runId entry =>
    let run := world.run runId
    if world.Continues runId entry then
      some (world.setRun runId { run with stream := run.stream ++ [entry] })
    else none
  | .announce runId =>
    let run := world.run runId
    if run.announced < run.stream.length then
      some (world.setRun runId { run with announced := run.announced + 1 })
    else none
  | .mark runId =>
    let run := world.run runId
    if run.stream.any fun entry => entry.frame?.isNone then
      some (world.setRun runId { run with closed := true })
    else none
  | .deliver subscriber =>
    (world.mailboxes.get? subscriber).bind fun mailbox =>
      let run := world.run mailbox.runId
      if mailbox.next < run.announced then
        (run.stream[mailbox.next]?).map fun message =>
          world.setMailbox subscriber
            { mailbox.push capacity message with next := mailbox.next + 1 }
      else none
  | .poke subscriber =>
    (world.mailboxes.get? subscriber).map fun mailbox => world.setMailbox subscriber mailbox.poke

end RedisWorld

namespace RedisSubscriber
variable {J : Type*}

/-- The rest of a page up to the next frame it yields, if there is one. -/
def readPage (sub : RedisSubscription J) :
    List (ChannelMessage J) → RedisSubscription J × Option (List (ChannelMessage J))
  | [] => (sub, none)
  | .close :: _ => ({ sub with lastId := sub.lastId + 1, sawClose := true }, none)
  | .frame frame :: page =>
    let sub := { sub with lastId := sub.lastId + 1 }
    if sub.lastSeq < frame.seq then
      ({ sub with lastSeq := frame.seq, yielded := sub.yielded ++ [frame] }, some page)
    else readPage sub page

/-- What the live tail stops at while it takes buffered messages. -/
inductive DrainStop
  | yields
  | closes
  | empty

/-- Buffered messages taken up to the next frame it yields or the close message. -/
def drain (sub : RedisSubscription J) :
    List (ChannelMessage J) → RedisSubscription J × List (ChannelMessage J) × DrainStop
  | [] => (sub, [], .empty)
  | .close :: buffer => (sub, buffer, .closes)
  | .frame frame :: buffer =>
    if sub.lastSeq < frame.seq then
      ({ sub with lastSeq := frame.seq, yielded := sub.yielded ++ [frame] }, buffer, .yields)
    else drain sub buffer

/-- The end of a subscription: its `finally` block detaches the mailbox. -/
def finish (world : RedisWorld J) (i : ℕ) (sub : RedisSubscription J) (how : RedisStreamEnd) :
    RedisWorld J × RedisSubscriber J :=
  ({ world with mailboxes := world.mailboxes.erase i }, .ended sub how)

/-- `#replayFrom` from inside a page, and what `subscribe` does after it. -/
def replay (world : RedisWorld J) (i : ℕ) (sub : RedisSubscription J) (stage : ReplayStage)
    (page : List (ChannelMessage J)) (more : Bool) : RedisWorld J × RedisSubscriber J :=
  match readPage sub page with
  | (sub, some rest) => (world, .replaying sub stage rest more)
  | (sub, none) =>
    if more ∧ sub.sawClose = false then (world, .reading sub stage)
    else
      match stage with
      | .joining => if sub.sawClose then finish world i sub .closed else (world, .checking sub)
      | .closing => finish world i sub .closed

/-- The live tail from the top of its loop. -/
def tail (world : RedisWorld J) (i : ℕ) (sub : RedisSubscription J) :
    Option (RedisWorld J × RedisSubscriber J) :=
  (world.mailboxes.get? i).map fun mailbox =>
    match drain sub mailbox.buffer with
    | (sub, buffer, .yields) => (world.setMailbox i { mailbox with buffer }, .tailing sub)
    | (sub, _, .closes) => finish world i sub .closed
    | (sub, buffer, .empty) =>
      if mailbox.overflowed then finish world i sub .overflowed
      else
        let emptied : MessageMailbox J := { mailbox with buffer }
        (world.setMailbox i emptied.waitForMessage, .waiting sub)

def start (world : RedisWorld J) : RedisSubscriber J → Option (RedisWorld J)
  | .subscribe .. => some world
  | _ => none

/-- One turn of a subscriber. -/
def resume (world : RedisWorld J) (i : ℕ) (p : RedisSubscriber J) (x : RedisInput) :
    Option (RedisWorld J × RedisSubscriber J) :=
  match p with
  | .subscribe runId afterSeq =>
    -- Messages the connection still had in flight count as well.
    if x.attached ≤ (world.run runId).announced then
      let mailbox : MessageMailbox J := { runId, attached := x.attached, next := x.attached }
      some (world.setMailbox i mailbox, .attaching { runId, afterSeq, lastSeq := afterSeq })
    else none
  | .attaching sub => some (world, .reading sub .joining)
  | .reading sub stage =>
    let page := ((world.run sub.runId).stream.drop sub.lastId).take replayPageSize
    some (world, .paging sub stage page (page.length = replayPageSize))
  | .paging sub stage page more => some (replay world i sub stage page more)
  | .replaying sub stage page more =>
    if x.returns then some (finish world i sub .returned)
    else some (replay world i sub stage page more)
  | .checking sub =>
    if x.closed then
      if (world.run sub.runId).closed then some (world, .reading sub .closing) else none
    else tail world i sub
  | .tailing sub => if x.returns then some (finish world i sub .returned) else tail world i sub
  | .waiting sub =>
    if x.tick then some (world, .checking sub)
    else (world.mailboxes.get? i).bind fun mailbox =>
      if mailbox.wake then none else tail world i sub
  | .ended .. => none

/-- Every interleaving of publishers, Redis, the connections and any number of
subscribers. -/
def program (capacity : ℕ) :
    Program (RedisWorld J) (RedisSubscriber J) (RedisEvent J) RedisInput where
  env := RedisWorld.step capacity
  start := fun world _ p => start world p
  resume := resume

end RedisSubscriber
end Skein
