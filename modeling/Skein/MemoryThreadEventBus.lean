import Mathlib.Data.Int.Notation
import Skein.OrderedMap
import Skein.ProcessPool
import Skein.WireTypes

/-!
# The in-memory thread event bus

`MemoryThreadEventBus`: one numbered event history for each thread, cut at two caps and
wiped when the thread is deleted. Histories are never taken out of the map, so the thread's
id stands for the history object. A subscriber is a process that suspends in `yield`, with
the rest of its page in hand, and while it waits. The world keeps beside the bus every
entry ever appended, with the incarnation of the thread it was appended in.
-/
namespace Skein

inductive ThreadOperation
  | created
  | updated
  deriving DecidableEq, Repr

inductive ThreadLifecycle
  | start
  | finish
  deriving DecidableEq, Repr

/-- A protocol event: the two fields the bus assigns, and the rest as one payload. -/
structure ProtocolEvent (J : Type*) where
  seq : Option ℕ := none
  eventId : Option String := none
  rest : J
  deriving DecidableEq, Repr

inductive ThreadEventInput (J : Type*)
  | protocol (runId : RunId) (event : ProtocolEvent J)
  | run (runId : RunId) (frame : RunFrame J)
  | state (operation : ThreadOperation) (thread : J) (runId : Option RunId)
      (lifecycle : Option ThreadLifecycle) (state : Option J)
  deriving DecidableEq, Repr

structure ThreadEvent (J : Type*) where
  seq : ℕ
  content : ThreadEventInput J
  deriving DecidableEq, Repr

namespace ThreadEventInput
variable {J : Type*}

def created : ThreadEventInput J → Bool
  | .state .created .. => true
  | _ => false

/-- `JSON.parse(serializeWireJson(input))`. -/
def roundTrip [WireJson J] (input : ThreadEventInput J) : Option (ThreadEventInput J) :=
  match input with
  | .protocol runId event => do
    let rest ← WireJson.roundTrip event.rest
    return .protocol runId { event with rest }
  | .run runId frame => do
    let payload ← WireJson.roundTrip frame.payload
    return .run runId { frame with payload }
  | .state operation thread runId lifecycle none => do
    let thread ← WireJson.roundTrip thread
    return .state operation thread runId lifecycle none
  | .state operation thread runId lifecycle (some values) => do
    let thread ← WireJson.roundTrip thread
    let values ← WireJson.roundTrip values
    return .state operation thread runId lifecycle (some values)

/-- The identities a protocol event gets from the bus. -/
def stamp (seq : ℕ) : ThreadEventInput J → ThreadEventInput J
  | .protocol runId event =>
    .protocol runId { event with seq := some seq, eventId := some (toString seq) }
  | input => input

end ThreadEventInput

/-- `readers` are the subscribers whose promise is not resolved yet. -/
structure ThreadHistory (J : Type*) where
  seq : ℕ := 0
  generation : ℕ := 0
  entries : List (ThreadEvent J) := []
  readers : List ℕ := []
  deleted : Bool := false

def maxHistoryEntries : ℕ := 10000
def maxRetainedHistories : ℕ := 50
def threadPageSize : ℕ := 512

namespace ThreadHistory
variable {J : Type*}

/-- `history.entries[0]?.seq ?? history.seq + 1`. -/
def first (history : ThreadHistory J) : ℕ :=
  history.entries.head?.elim (history.seq + 1) ThreadEvent.seq

/-- The next entry, and the oldest one out beyond the cap. -/
def append (history : ThreadHistory J) (entry : ThreadEvent J) (created : Bool) :
    ThreadHistory J :=
  let entries := history.entries ++ [entry]
  { history with
    seq := entry.seq
    deleted := if created then false else history.deleted
    entries := if maxHistoryEntries < entries.length then entries.drop 1 else entries }

def wake (history : ThreadHistory J) : ThreadHistory J := { history with readers := [] }

/-- The eviction of a whole history. -/
def evict (history : ThreadHistory J) : ThreadHistory J :=
  { history with entries := [], readers := [] }

/-- `deleteThread`, on the history. -/
def delete (history : ThreadHistory J) : ThreadHistory J :=
  { history with
    deleted := true
    generation := history.generation + 1
    entries := []
    readers := [] }

end ThreadHistory

/-- `retained` are the histories that hold entries, least recently published first. -/
structure MemoryThreadEventBus (J : Type*) where
  threads : OrderedMap ThreadId (ThreadHistory J) := ∅
  retained : List ThreadId := []

namespace MemoryThreadEventBus
variable {J : Type*}

/-- `#history`, without the insertion of a new one. -/
def history (bus : MemoryThreadEventBus J) (threadId : ThreadId) : ThreadHistory J :=
  (bus.threads.get? threadId).getD {}

def update (bus : MemoryThreadEventBus J) (threadId : ThreadId)
    (f : ThreadHistory J → ThreadHistory J) : MemoryThreadEventBus J :=
  { bus with threads := bus.threads.set threadId (f (bus.history threadId)) }

theorem history_update (bus : MemoryThreadEventBus J) (threadId k : ThreadId)
    (f : ThreadHistory J → ThreadHistory J) : (bus.update threadId f).history k =
      if threadId = k then f (bus.history threadId) else bus.history k := by
  unfold history update
  rw [OrderedMap.get?_set]
  split_ifs <;> rfl

/-- The most recently published history goes last, and the first one out beyond the cap. -/
def retain (bus : MemoryThreadEventBus J) (threadId : ThreadId) : MemoryThreadEventBus J :=
  let retained := bus.retained.filter (· ≠ threadId) ++ [threadId]
  if retained.length ≤ maxRetainedHistories then { bus with retained }
  else
    match retained with
    | [] => bus
    | oldest :: rest => { bus with retained := rest }.update oldest ThreadHistory.evict

/-- `publish`: its result and the bus after it, or `none` where serializing throws. -/
def publish [WireJson J] (bus : MemoryThreadEventBus J) (threadId : ThreadId)
    (input : ThreadEventInput J) (generation : Option ℕ) :
    Option (Option (ThreadEvent J) × MemoryThreadEventBus J) :=
  let history := bus.history threadId
  if generation.any fun generation => generation ≠ history.generation then some (none, bus)
  else if history.deleted ∧ input.created = false then some (none, bus)
  else
    let seq := history.seq + 1
    -- Serializing comes before the number is taken or a deleted thread reopened.
    input.roundTrip.map fun content =>
      let entry : ThreadEvent J := ⟨seq, content.stamp seq⟩
      let bus := bus.update threadId fun history => history.append entry input.created
      (some entry, (bus.retain threadId).update threadId ThreadHistory.wake)

def generation (bus : MemoryThreadEventBus J) (threadId : ThreadId) : ℕ :=
  (bus.history threadId).generation

def latestSequence (bus : MemoryThreadEventBus J) (threadId : ThreadId) : ℕ :=
  (bus.history threadId).seq

def replayCursor (bus : MemoryThreadEventBus J) (threadId : ThreadId) : ℕ :=
  (bus.history threadId).first - 1

def deleteThread (bus : MemoryThreadEventBus J) (threadId : ThreadId) : MemoryThreadEventBus J :=
  { bus.update threadId ThreadHistory.delete with
    retained := bus.retained.filter (· ≠ threadId) }

end MemoryThreadEventBus

/-- An entry of the whole history of a thread, under its incarnation. -/
structure PublishedEvent (J : Type*) where
  generation : ℕ
  event : ThreadEvent J
  deriving DecidableEq, Repr

structure ThreadStreamWorld (J : Type*) where
  bus : MemoryThreadEventBus J := {}
  published : OrderedMap ThreadId (List (PublishedEvent J)) := ∅
  /-- The subscribers whose signal has been aborted. -/
  aborted : List ℕ := []

/-- A subscription under way: where it began, where it stands, and what its consumer has
received. -/
structure ThreadTail (J : Type*) where
  threadId : ThreadId
  generation : ℕ
  start : ℤ
  cursor : ℤ
  yielded : List (ThreadEvent J)
  deriving DecidableEq, Repr

inductive ThreadSubscriber (J : Type*)
  /-- Before the first `next`. -/
  | subscribe (threadId : ThreadId) (afterSeq : Option ℤ)
  /-- Suspended in `yield`, with the rest of the page. -/
  | yielding (tail : ThreadTail J) (page : List (ThreadEvent J))
  | waiting (tail : ThreadTail J)
  | ended (tail : ThreadTail J) (error : Option SkeinHttpError)
  deriving DecidableEq, Repr

/-- `abort` is the signal of one subscriber, which its `return` aborts as well. -/
inductive ThreadBusEvent (J : Type*)
  | publish (threadId : ThreadId) (input : ThreadEventInput J) (generation : Option ℕ)
  | deleteThread (threadId : ThreadId)
  | abort (subscriber : ℕ)

namespace ThreadStreamWorld
variable {J : Type*}

/-- Everything a thread's publishers ever appended. -/
def log (world : ThreadStreamWorld J) (threadId : ThreadId) : List (PublishedEvent J) :=
  (world.published.get? threadId).getD []

def step [WireJson J] (world : ThreadStreamWorld J) :
    ThreadBusEvent J → Option (ThreadStreamWorld J)
  | .publish threadId input generation =>
    match world.bus.publish threadId input generation with
    | none => some world
    | some (none, bus) => some { world with bus }
    | some (some event, bus) =>
      let appended := ⟨world.bus.generation threadId, event⟩
      some { world with
        bus
        published := world.published.set threadId (world.log threadId ++ [appended]) }
  | .deleteThread threadId => some { world with bus := world.bus.deleteThread threadId }
  | .abort subscriber =>
    -- The listener wakes the subscriber wherever it waits.
    let wake (history : ThreadHistory J) : ThreadHistory J :=
      { history with readers := history.readers.filter (· ≠ subscriber) }
    some { world with
      bus := { world.bus with threads := world.bus.threads.mapValues wake }
      aborted := subscriber :: world.aborted }

end ThreadStreamWorld

namespace ThreadSubscriber
variable {J : Type*}

/-- What `checkCursor` throws. -/
def cursorExpired : SkeinHttpError :=
  .conflict "Thread event history expired; restore state and subscribe again."
    (some "thread_cursor_expired")

/-- The condition `checkCursor` throws on. -/
def Expired (history : ThreadHistory J) (cursor : ℤ) : Prop :=
  history.seq < cursor ∨ cursor < history.first - 1

instance (history : ThreadHistory J) (cursor : ℤ) : Decidable (Expired history cursor) :=
  inferInstanceAs (Decidable (_ ∨ _))

/-- What ends a subscription from outside. -/
def Stopped (world : ThreadStreamWorld J) (i : ℕ) (tail : ThreadTail J) : Prop :=
  i ∈ world.aborted ∨ (world.bus.history tail.threadId).deleted = true ∨
    (world.bus.history tail.threadId).generation ≠ tail.generation

instance (world : ThreadStreamWorld J) (i : ℕ) (tail : ThreadTail J) :
    Decidable (Stopped world i tail) := inferInstanceAs (Decidable (_ ∨ _ ∨ _))

/-- The `while` loop from its top. -/
def loop (world : ThreadStreamWorld J) (i : ℕ) (tail : ThreadTail J) :
    ThreadStreamWorld J × ThreadSubscriber J :=
  let history := world.bus.history tail.threadId
  if Stopped world i tail then (world, .ended tail none)
  else if Expired history tail.cursor then (world, .ended tail (some cursorExpired))
  else
    match (history.entries.filter fun entry => tail.cursor < entry.seq).take threadPageSize with
    | entry :: page =>
      (world, .yielding
        { tail with cursor := entry.seq, yielded := tail.yielded ++ [entry] } page)
    | [] =>
      if tail.cursor < history.seq then (world, .waiting tail)
      else ({ world with bus := world.bus.update tail.threadId fun history =>
        { history with readers := history.readers ++ [i] } }, .waiting tail)

/-- What `#tail` sets up before its loop. -/
def opening (world : ThreadStreamWorld J) (threadId : ThreadId) (afterSeq : Option ℤ) :
    ThreadTail J :=
  let cursor := afterSeq.getD (world.bus.replayCursor threadId)
  ⟨threadId, world.bus.generation threadId, cursor, cursor, []⟩

def start (world : ThreadStreamWorld J) : ThreadSubscriber J → Option (ThreadStreamWorld J)
  | .subscribe .. => some world
  | _ => none

/-- One turn of a subscriber. -/
def resume (world : ThreadStreamWorld J) (i : ℕ) :
    ThreadSubscriber J → Option (ThreadStreamWorld J × ThreadSubscriber J)
  | .subscribe threadId afterSeq =>
    let tail := opening world threadId afterSeq
    if Expired (world.bus.history threadId) tail.cursor then
      some (world, .ended tail (some cursorExpired))
    else some (loop world i tail)
  | .yielding tail (entry :: page) =>
    if Stopped world i tail then some (world, .ended tail none)
    else some (world, .yielding
      { tail with cursor := entry.seq, yielded := tail.yielded ++ [entry] } page)
  | .yielding tail [] => some (loop world i tail)
  | .waiting tail =>
    if i ∈ (world.bus.history tail.threadId).readers then none else some (loop world i tail)
  | .ended .. => none

/-- Every interleaving of publications, deletions, aborts and any number of subscribers. -/
def program [WireJson J] :
    Program (ThreadStreamWorld J) (ThreadSubscriber J) (ThreadBusEvent J) Unit where
  env := ThreadStreamWorld.step
  start := fun world _ p => start world p
  resume := fun world i p _ => resume world i p

end ThreadSubscriber
end Skein
