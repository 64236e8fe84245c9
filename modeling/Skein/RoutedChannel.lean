import Skein.JsAllocation
import Skein.PathPatterns

/-!
# Destinations that a graph declares

A declared destination is copied when it is declared, rides in the reply of its run, and is
copied again when the delivery is read. The copies are new objects after those that were there.
-/
namespace Skein

section Snapshot
variable (base : ℕ) (visit : JsHeap → JsValue → Walk (JsValue × JsHeap))

/-- A new object after those in `copies`. -/
def place (copies : JsHeap) (o : JsObject) : JsValue × JsHeap :=
  (.ref (base + copies.length), copies ++ [o])

/-- The elements of an array, each of which has to be its own. -/
def snapshotElements : JsHeap → List (Option JsSlot) → Walk (List JsValue × JsHeap)
  | copies, [] => pure ([], copies)
  | _, none :: _ => .invalid
  | copies, some slot :: rest => do
    let v ← slot.get
    let (w, copies) ← visit copies v
    let (ws, copies) ← snapshotElements copies rest
    return (w :: ws, copies)

def snapshotEntries : JsHeap → List (JsString × JsSlot) → Walk (List (JsString × JsValue) × JsHeap)
  | copies, [] => pure ([], copies)
  | copies, (key, slot) :: rest => do
    let v ← slot.get
    let (w, copies) ← visit copies v
    let (entries, copies) ← snapshotEntries copies rest
    return ((key, w) :: entries, copies)

/-- `Object.keys(value).length` of an array. -/
def arrayKeyCount (elements : List (Option JsSlot)) (o : JsObject) : ℕ :=
  elements.countP (fun element => element.any JsSlot.enumerable) + o.shown.length

def snapshotObject (copies : JsHeap) (o : JsObject) : Walk (JsValue × JsHeap) :=
  if o.symbols ≠ [] then .invalid
  else match o.kind with
    | .array elements =>
      if arrayKeyCount elements o ≠ elements.length then .invalid
      else do
        let (values, copies) ← snapshotElements visit copies elements
        return place base copies (freshArray values)
    | _ =>
      if !o.prototype.isPlain then .invalid
      else do
        let (entries, copies) ← snapshotEntries visit copies o.shown
        return place base copies (freshObject entries)

end Snapshot

/-- `snapshotJsonValue`, with as much stack as `depth`; `copies` are the objects it has made. -/
def snapshotJsonValue (heap : JsHeap) : ℕ → List Ref → JsHeap → JsValue → Walk (JsValue × JsHeap)
  | 0, _, _, _ => .exhausted
  | depth + 1, ancestors, copies, v =>
    match v with
    | .null | .string _ | .bool _ => pure (v, copies)
    | .number n => if n.isFinite then pure (v, copies) else .invalid
    | .undefined | .bigint | .symbol | .function => .invalid
    | .ref r =>
      if r ∈ ancestors then .invalid
      else match heap[r]? with
        | none => .invalid
        | some o => snapshotObject heap.length (snapshotJsonValue heap depth (r :: ancestors)) copies o

/-- The stack that the walk of a value can need. -/
def snapshot (heap : JsHeap) (copies : JsHeap) (v : JsValue) : Walk (JsValue × JsHeap) :=
  snapshotJsonValue heap (heap.length + 1) [] copies v

structure ChannelDestinationIntent where
  destination : JsString
  target : JsValue
  payload : JsValue

/-- What `trim` takes away. -/
def isWhiteSpace (u : CodeUnit) : Bool :=
  (9 ≤ u.val && u.val ≤ 13) || u.val = 0x20 || u.val = 0xA0 || u.val = 0x1680 ||
    (0x2000 ≤ u.val && u.val ≤ 0x200A) || u.val = 0x2028 || u.val = 0x2029 || u.val = 0x202F ||
    u.val = 0x205F || u.val = 0x3000 || u.val = 0xFEFF

def trim (text : JsString) : JsString :=
  ((text.dropWhile isWhiteSpace).reverse.dropWhile isWhiteSpace).reverse

def destinationMarker : JsString := .ofAscii "$skein_channel_destination"

def declaredReplyKey : JsString := .ofAscii "$skein_reply"

def versionOne : JsNumber := .finite (.ofInt 1 (by decide))

/-- `destinationIntentSchema`, for the fields of an intent. -/
def parseIntent (heap : JsHeap) (intent : ChannelDestinationIntent) :
    Walk (ChannelDestinationIntent × JsHeap) :=
  if (trim intent.destination).length = 0 then .invalid
  else do
    let (target, copies) ← snapshot heap [] intent.target
    let (payload, copies) ← snapshot heap copies intent.payload
    return ({ destination := intent.destination, target, payload }, copies)

/-- What `declareChannelDestinationDelivery` writes: `replyWith` of the parsed intent under its
marker. -/
def declareChannelDestinationDelivery (heap : JsHeap) (intent : ChannelDestinationIntent) :
    Walk (JsValue × JsHeap) := do
  let (parsed, copies) ← parseIntent heap intent
  let (declared, copies) := place heap.length copies (freshObject [
    (.ofAscii "destination", .string parsed.destination), (.ofAscii "target", parsed.target),
    (.ofAscii "payload", parsed.payload)])
  let (marked, copies) := place heap.length copies (freshObject [
    (.ofAscii "version", .number versionOne), (.ofAscii "intent", declared)])
  let (reply, copies) := place heap.length copies (freshObject [(destinationMarker, marked)])
  return place heap.length copies (freshObject [(declaredReplyKey, reply)])

/-- `readDeclaredReply` -/
def readDeclaredReply (heap : JsHeap) : JsValue → Option JsValue
  | .ref r => do
    let o ← heap[r]?
    let slot ← o.properties.lookup declaredReplyKey
    slot.read.toOption
  | _ => none

/-- The values at `keys`, `undefined` where there is none. -/
def fieldValues (o : JsObject) : List JsString → Walk (List JsValue)
  | [] => pure []
  | key :: keys => do
    let v ← ((o.shown.lookup key).map JsSlot.get).getD (pure .undefined)
    let vs ← fieldValues o keys
    return v :: vs

/-- The values of an object at `keys`, if it shows no other keys. -/
def strictFields (heap : JsHeap) (keys : List JsString) : JsValue → Walk (List JsValue)
  | .ref r =>
    match heap[r]? with
    | none => .invalid
    | some o =>
      if o.kind matches .ordinary ∧ o.shown.all (fun property => keys.contains property.1) then
        fieldValues o keys
      else .invalid
  | _ => .invalid

/-- `readDestinationIntent`; the schema refuses by throwing. -/
def readDestinationIntent (heap : JsHeap) (reply : JsValue) :
    Walk (Option (ChannelDestinationIntent × JsHeap)) :=
  match reply with
  | .ref r =>
    if (heap[r]?.bind fun o => o.properties.lookup destinationMarker).isNone then pure none
    else do
      let [marked] ← strictFields heap [destinationMarker] reply | .invalid
      let [.number version, declared] ←
        strictFields heap [.ofAscii "version", .ofAscii "intent"] marked | .invalid
      if version ≠ versionOne then .invalid
      else do
        let [.string destination, target, payload] ← strictFields heap
          [.ofAscii "destination", .ofAscii "target", .ofAscii "payload"] declared | .invalid
        return some (← parseIntent heap { destination, target, payload })
  | _ => pure none

end Skein
