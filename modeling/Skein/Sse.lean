import Skein.EventStream
import Skein.Json
import Skein.NumberText
import Skein.OrderedMap
import Skein.WireTypes

/-!
# Frames as server-sent events

`toSseEvents` and what it is made of. The `data` of a frame is the JSON that the replacer of
`serializeWireJson` leaves of it. The encoded blocks are cached per frame object for every
stream of the process, and the garbage collector drops entries at will, so other parties
work on the cache between two frames. The race of a pending frame with the idle timer is
decided turn by turn by the environment.
-/
namespace Skein

/-- `StreamMode | "error"`. The names of the modes are plain words, none of them `end`. -/
structure FrameEvent where
  name : List Char
  nonempty : name ≠ []
  plain : ∀ c ∈ name, c ≠ '\n' ∧ c ≠ '\r' ∧ c ≠ '|'
  not_end : name ≠ ['e', 'n', 'd']
  deriving DecidableEq, Repr

/-- A frame that is encoded. Its number is any number; the `namespace` of a root frame is empty
or absent. -/
structure WireFrame where
  seq : Binary64
  event : FrameEvent
  ns : List (List Char) := []
  data : Json

/-- The status as it is spelled on the wire. -/
def RunStatus.wire : RunStatus → String
  | .pending => "pending"
  | .running => "running"
  | .success => "success"
  | .error => "error"
  | .timeout => "timeout"
  | .interrupted => "interrupted"
  | .cancelled => "cancelled"

namespace Sse

def errorName : List Char := ['e', 'r', 'r', 'o', 'r']

def endName : List Char := ['e', 'n', 'd']

/-- `frameEventName`. -/
def frameEventName (frame : WireFrame) : List Char :=
  let name :=
    if frame.ns = [] then frame.event.name
    else frame.event.name ++ '|' :: ['|'].intercalate frame.ns
  name.filter fun c => c ≠ '\r' && c ≠ '\n'

/-- The block of a frame. -/
def frameBlock (frame : WireFrame) : List Char :=
  ['i', 'd', ':', ' '] ++ numberText frame.seq ++ '\n' ::
    (['e', 'v', 'e', 'n', 't', ':', ' '] ++ frameEventName frame ++ '\n' ::
      (['d', 'a', 't', 'a', ':', ' '] ++ frame.data.stringify ++ ['\n', '\n']))

/-- `encodedFrames`: blocks keyed by the frame object they came from. -/
structure EncodedFrames (objects : ℕ → WireFrame) where
  blocks : OrderedMap ℕ (List Char) := ∅
  encoded : ∀ ref block, blocks.get? ref = some block → block = frameBlock (objects ref)

/-- `encodeFrame`. -/
def encodeFrame {objects : ℕ → WireFrame} (cache : EncodedFrames objects) (ref : ℕ) :
    List Char × EncodedFrames objects :=
  match cache.blocks.get? ref with
  | some cached => (cached, cache)
  | none =>
    (frameBlock (objects ref),
      { blocks := cache.blocks.set ref (frameBlock (objects ref))
        encoded := fun k block h => by
          rw [OrderedMap.get?_set] at h
          split_ifs at h with hk
          · cases h
            rw [hk]
          · exact cache.encoded k block h })

/-- The statuses whose terminal event is an `error`. -/
def failed (status : RunStatus) : Bool := status = .error || status = .timeout

/-- The `data` of a terminal event. -/
def terminalData (status : RunStatus) : Json := .obj [("status", .str status.wire)]

/-- `encodeTerminal`. -/
def encodeTerminal (status : RunStatus) : List Char :=
  ['e', 'v', 'e', 'n', 't', ':', ' '] ++ (if failed status then errorName else endName) ++ '\n' ::
    (['d', 'a', 't', 'a', ':', ' '] ++ (terminalData status).stringify ++ ['\n', '\n'])

/-- `SSE_HEARTBEAT`. -/
def heartbeat : List Char := ':' :: [' ', 'h', 'e', 'a', 'r', 't', 'b', 'e', 'a', 't'] ++ ['\n', '\n']

/-- `DEFAULT_SSE_HEARTBEAT_MS`. -/
def defaultHeartbeatMs : ℤ := 15000

/-- `withIdleTicks` between two turns: the `next()` in flight, and what the iterator has left. -/
structure IdleTicks (α : Type*) where
  pending : Option (Option α) := none
  rest : List α

namespace IdleTicks
variable {α : Type*}

/-- `pending ??= iterator.next()`. -/
def next (s : IdleTicks α) : IdleTicks α :=
  match s.pending, s.rest with
  | some _, _ => s
  | none, [] => { pending := some none, rest := [] }
  | none, value :: rest => { pending := some (some value), rest }

/-- What `withIdleTicks` yields; `true` is a turn the timer wins, and `none` is `IDLE_TICK`.
Where the turns run out before the iterator is done, the stream is still open. -/
def run : List Bool → IdleTicks α → Option (List (Option α))
  | [], _ => none
  | true :: turns, s => (run turns s.next).map (none :: ·)
  | false :: turns, s =>
    match s.next.pending with
    | some (some value) => (run turns { s.next with pending := none }).map (some value :: ·)
    | _ => some []

end IdleTicks

/-- The loop of `toSseEvents`; `meanwhile n` is what becomes of the cache before its turn
`n`. -/
def writeFrames {objects : ℕ → WireFrame}
    (meanwhile : ℕ → EncodedFrames objects → EncodedFrames objects) :
    ℕ → EncodedFrames objects → List (Option ℕ) → List (List Char)
  | _, _, [] => []
  | n, cache, none :: items => heartbeat :: writeFrames meanwhile (n + 1) cache items
  | n, cache, some ref :: items =>
    let encoded := encodeFrame (meanwhile n cache) ref
    encoded.1 :: writeFrames meanwhile (n + 1) encoded.2 items

/-- The end of `toSseEvents`; `none` is a run row that has vanished. -/
def terminal (sawErrorFrame : Bool) (status : Option RunStatus) : List (List Char) :=
  let terminal := status.getD .success
  if failed terminal && sawErrorFrame then [] else [encodeTerminal terminal]

/-- `toSseEvents`. -/
def toSseEvents {objects : ℕ → WireFrame}
    (meanwhile : ℕ → EncodedFrames objects → EncodedFrames objects) (cache : EncodedFrames objects)
    (frames : List ℕ) (finalStatus : Option RunStatus) (heartbeatMs : Option ℤ)
    (turns : List Bool) : Option (List (List Char)) :=
  let items :=
    if 0 < heartbeatMs.getD defaultHeartbeatMs then IdleTicks.run turns { rest := frames }
    else some (frames.map some)
  items.map fun items =>
    let sawErrorFrame := items.any fun item =>
      item.any fun ref => (objects ref).event.name = errorName
    writeFrames meanwhile 0 cache items ++ terminal sawErrorFrame finalStatus

/-- `Number.parseInt(text, 10)` where that is a positive number or zero. -/
def parseNatural? (text : List Char) : Option Binary64 :=
  let digits := match text.dropWhile isBlankChar with
    | '+' :: digits => digits
    | digits => digits
  (digitsValue? (digits.takeWhile Char.isDigit)).bind fun n => Binary64.ofRat? n

/-- `parseAfterSeq`: a missing or malformed header is no positive integer. -/
def parseAfterSeq (lastEventId : Option (List Char)) : Binary64 :=
  (lastEventId.bind parseNatural?).getD .zero

end Sse
end Skein
