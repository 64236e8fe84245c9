import Mathlib.Data.Int.Notation
import Skein.OrderedMap
import Skein.ProcessPool
import Skein.WireTypes

/-!
# The in-memory run event bus

`MemoryRunEventBus`: one bounded frame buffer for each run, with the cursors of its live
readers kept beside it. A subscriber is a process that suspends in `yield` and while it
waits; everything between two suspensions is one turn. A generator holds on to its channel
by run id here: the channel of a live subscriber is never taken out of the map, so both
name the same one. Beside the bus the world keeps every frame ever published.
-/
namespace Skein

/-- `readers` are the positions `#trim` shifts, each under the subscriber it belongs to;
`waiters` are the subscribers whose promise is not resolved yet. -/
structure Channel (J : Type*) where
  frames : List (RunFrame J) := []
  closed : Bool := false
  waiters : List ℕ := []
  subscribers : ℕ := 0
  readers : OrderedMap ℕ ℤ := ∅

/-- The validated options of the bus. -/
structure MemoryBusLimits where
  maxRetainedRuns : ℕ := 50
  maxFramesPerRun : ℕ := 10000
  finishedIdTtlMs : ℕ := 24 * 60 * 60 * 1000

def maxFinishedRunIds : ℕ := 100000

structure MemoryRunEventBus (J : Type*) where
  channels : OrderedMap RunId (Channel J) := ∅
  closedOrder : List RunId := []
  finishedRunIds : OrderedMap RunId Timestamp := ∅

namespace Channel
variable {J : Type*}

/-- `#wake`. -/
def wake (channel : Channel J) : Channel J := { channel with waiters := [] }

/-- `#trim`. -/
def trim (channel : Channel J) (maxFramesPerRun : ℕ) : Channel J :=
  let overCap := channel.frames.length - maxFramesPerRun
  if overCap = 0 then channel
  else { channel with
    frames := channel.frames.drop overCap
    readers := channel.readers.mapValues fun cursor => cursor - overCap }

end Channel

namespace MemoryRunEventBus
variable {J : Type*}

/-- `#channel`, without the insertion of a new one. -/
def channel (bus : MemoryRunEventBus J) (runId : RunId) : Channel J :=
  (bus.channels.get? runId).getD {}

def setChannel (bus : MemoryRunEventBus J) (runId : RunId) (channel : Channel J) :
    MemoryRunEventBus J := { bus with channels := bus.channels.set runId channel }

/-- `#sweepFinishedIds` over the ids in insertion order. -/
def sweepFinishedIds (cutoff : Timestamp) :
    List (RunId × Timestamp) → OrderedMap RunId Timestamp → OrderedMap RunId Timestamp
  | [], ids => ids
  | (runId, closedAt) :: rest, ids =>
    if maxFinishedRunIds < ids.size then sweepFinishedIds cutoff rest (ids.erase runId)
    else if cutoff ≤ closedAt then ids
    else sweepFinishedIds cutoff rest (ids.erase runId)

/-- `#release`. -/
def release (limits : MemoryBusLimits) (bus : MemoryRunEventBus J) (runId : RunId)
    (now : Timestamp) : MemoryRunEventBus J :=
  let ids := (bus.finishedRunIds.erase runId).set runId now
  { channels := bus.channels.erase runId
    closedOrder := bus.closedOrder.filter (· ≠ runId)
    finishedRunIds := sweepFinishedIds (now - limits.finishedIdTtlMs) ids.entries ids }

/-- `#evictClosedBeyondCap` over the closed runs in close order. -/
def evictClosed (limits : MemoryBusLimits) (now : Timestamp) :
    List RunId → MemoryRunEventBus J → MemoryRunEventBus J
  | [], bus => bus
  | runId :: rest, bus =>
    if bus.closedOrder.length ≤ limits.maxRetainedRuns then bus
    else if 0 < ((bus.channels.get? runId).elim 0 Channel.subscribers) then
      evictClosed limits now rest bus
    else evictClosed limits now rest (bus.release limits runId now)

def evictClosedBeyondCap (limits : MemoryBusLimits) (bus : MemoryRunEventBus J)
    (now : Timestamp) : MemoryRunEventBus J := evictClosed limits now bus.closedOrder bus

def publish (limits : MemoryBusLimits) (bus : MemoryRunEventBus J) (runId : RunId)
    (frame : RunFrame J) : MemoryRunEventBus J :=
  let channel := bus.channel runId
  bus.setChannel runId
    ((Channel.trim { channel with frames := channel.frames ++ [frame] }
      limits.maxFramesPerRun).wake)

def close (limits : MemoryBusLimits) (bus : MemoryRunEventBus J) (runId : RunId)
    (now : Timestamp) : MemoryRunEventBus J :=
  if bus.channels.contains runId = false ∧ bus.finishedRunIds.contains runId = true then bus
  else
    let channel : Channel J := { bus.channel runId with closed := true, waiters := [] }
    let bus := { bus.setChannel runId channel with
      closedOrder := if runId ∈ bus.closedOrder then bus.closedOrder
        else bus.closedOrder ++ [runId] }
    if channel.frames = [] ∧ channel.subscribers = 0 then bus.release limits runId now
    else bus.evictClosedBeyondCap limits now

/-- The `finally` block of a subscription. -/
def detach (limits : MemoryBusLimits) (bus : MemoryRunEventBus J) (runId : RunId) (reader : ℕ)
    (now : Timestamp) : MemoryRunEventBus J :=
  let channel := bus.channel runId
  let left : Channel J := { channel with
    subscribers := channel.subscribers - 1
    readers := channel.readers.erase reader }
  let bus := bus.setChannel runId left
  if left.subscribers = 0 then
    if left.frames = [] then
      if left.closed then bus.release limits runId now
      else { bus with channels := bus.channels.erase runId }
    else if left.closed then bus.evictClosedBeyondCap limits now
    else bus
  else bus

end MemoryRunEventBus

/-- A subscription under way: `joined` counts the frames of the run that were gone when it
joined, `yielded` is what its consumer has received. -/
structure Subscription (J : Type*) where
  runId : RunId
  afterSeq : ℕ
  joined : ℕ
  yielded : List (RunFrame J)
  deriving DecidableEq, Repr

/-- Why a stream ended: its next frame was among the first `gone` frames of the run and
these had been dropped; or the run had closed with `total` frames published; or the
consumer left. -/
inductive StreamEnd
  | dropped (gone : ℕ)
  | closed (total : ℕ)
  | returned
  deriving DecidableEq, Repr

/-- Where a subscriber stands. -/
inductive RunSubscriber (J : Type*)
  | subscribe (runId : RunId) (afterSeq : ℕ)
  /-- Suspended in `yield`. -/
  | yielding (sub : Subscription J)
  /-- Waiting for its promise to resolve. -/
  | waiting (sub : Subscription J)
  | ended (sub : Subscription J) (how : StreamEnd)
  deriving DecidableEq, Repr

/-- What the environment decides in one turn: the clock, and whether the consumer leaves. -/
structure SubscriberInput where
  now : Timestamp := 0
  returns : Bool := false

structure RunStreamWorld (J : Type*) where
  bus : MemoryRunEventBus J := {}
  published : OrderedMap RunId (List (RunFrame J)) := ∅

inductive RunBusEvent (J : Type*)
  | publish (runId : RunId) (frame : RunFrame J)
  | close (runId : RunId) (now : Timestamp)

namespace RunStreamWorld
variable {J : Type*}

/-- The frames published for a run so far. -/
def log (world : RunStreamWorld J) (runId : RunId) : List (RunFrame J) :=
  (world.published.get? runId).getD []

/-- Frames are published with consecutive numbers. -/
def step (limits : MemoryBusLimits) (world : RunStreamWorld J) :
    RunBusEvent J → Option (RunStreamWorld J)
  | .publish runId frame =>
    if (world.log runId).getLast?.all fun last => frame.seq = last.seq + 1 then
      some {
        bus := world.bus.publish limits runId frame
        published := world.published.set runId (world.log runId ++ [frame]) }
    else none
  | .close runId now => some { world with bus := world.bus.close limits runId now }

end RunStreamWorld

namespace RunSubscriber
variable {J : Type*}

/-- The reading loop up to the next frame it yields: how many frames it passed, and that
frame. -/
def scan (afterSeq : ℕ) : List (RunFrame J) → ℕ × Option (RunFrame J)
  | [] => (0, none)
  | frame :: rest =>
    if afterSeq < frame.seq then (1, some frame)
    else ((scan afterSeq rest).1 + 1, (scan afterSeq rest).2)

/-- The end of a subscription, with its `finally` block. -/
def finish (limits : MemoryBusLimits) (world : RunStreamWorld J) (i : ℕ) (sub : Subscription J)
    (how : StreamEnd) (now : Timestamp) : RunStreamWorld J × RunSubscriber J :=
  ({ world with bus := world.bus.detach limits sub.runId i now }, .ended sub how)

/-- The body of the subscription from the top of its loop. -/
def loop (limits : MemoryBusLimits) (world : RunStreamWorld J) (i : ℕ) (sub : Subscription J)
    (now : Timestamp) : Option (RunStreamWorld J × RunSubscriber J) :=
  (world.bus.channels.get? sub.runId).bind fun channel =>
    (channel.readers.get? i).bind fun cursor =>
      if cursor < 0 then
        -- Frames this subscriber had not read were dropped: a hole must not be hidden.
        some (finish limits world i sub
          (.dropped ((world.log sub.runId).length - channel.frames.length)) now)
      else
        let found := scan sub.afterSeq (channel.frames.drop cursor.toNat)
        let readers := channel.readers.set i (cursor + found.1)
        match found.2 with
        | some frame =>
          let read : Channel J := { channel with readers }
          some ({ world with bus := world.bus.setChannel sub.runId read },
            .yielding { sub with yielded := sub.yielded ++ [frame] })
        | none =>
          if channel.closed then
            some (finish limits world i sub (.closed (world.log sub.runId).length) now)
          else
            let queued : Channel J := { channel with readers, waiters := channel.waiters ++ [i] }
            some ({ world with bus := world.bus.setChannel sub.runId queued }, .waiting sub)

def start (world : RunStreamWorld J) : RunSubscriber J → Option (RunStreamWorld J)
  | .subscribe .. => some world
  | _ => none

/-- One turn of a subscriber. -/
def resume (limits : MemoryBusLimits) (world : RunStreamWorld J) (i : ℕ) (p : RunSubscriber J)
    (x : SubscriberInput) : Option (RunStreamWorld J × RunSubscriber J) :=
  match p with
  | .subscribe runId afterSeq =>
    let total := (world.log runId).length
    if world.bus.channels.contains runId = false ∧
        world.bus.finishedRunIds.contains runId = true then
      some (world, .ended ⟨runId, afterSeq, total, []⟩ (.closed total))
    else
      let channel := world.bus.channel runId
      let joined : Channel J := { channel with
        subscribers := channel.subscribers + 1
        readers := channel.readers.set i 0 }
      loop limits { world with bus := world.bus.setChannel runId joined } i
        ⟨runId, afterSeq, total - channel.frames.length, []⟩ x.now
  | .yielding sub =>
    if x.returns then some (finish limits world i sub .returned x.now)
    else loop limits world i sub x.now
  | .waiting sub =>
    if i ∈ (world.bus.channel sub.runId).waiters then none else loop limits world i sub x.now
  | .ended .. => none

/-- Every interleaving of publications, closes and any number of subscribers. -/
def program (limits : MemoryBusLimits) :
    Program (RunStreamWorld J) (RunSubscriber J) (RunBusEvent J) SubscriberInput where
  env := RunStreamWorld.step limits
  start := fun world _ p => start world p
  resume := resume limits

end RunSubscriber
end Skein
