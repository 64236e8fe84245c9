import Skein.Json
import Skein.NumberText
import Skein.OrderedMap

/-!
# The stored body of a run callback

The body is built once, when the run settles. Over the cap its `values` give way to a marker,
then its `interrupts`. The reply of the graph is never given up.
-/
namespace Skein

theorem head_toDigits_ne_zero {n : ℕ} (h : 0 < n) : (Nat.toDigits 10 n).head? ≠ some '0' := by
  induction n using Nat.strong_induction_on with
  | _ n ih =>
    by_cases hsmall : n < 10
    · have hdigit : ∀ d, d < 10 → 0 < d → Nat.digitChar d ≠ '0' := by decide
      rw [Nat.toDigits_of_lt_base hsmall]
      simpa using hdigit n hsmall h
    · have hfirst := ih (n / 10) (by omega) (by omega)
      rw [Nat.toDigits_of_base_le (by decide) (by omega)]
      cases hdigits : Nat.toDigits 10 (n / 10) with
      | nil => exact absurd hdigits Nat.toDigits_ne_nil
      | cons d ds => simpa [hdigits] using hfirst

/-- The digits of a whole number make a literal. -/
theorem isNumberLiteral_toDigits (n : ℕ) : isNumberLiteral (Nat.toDigits 10 n) = true := by
  rcases Nat.eq_zero_or_pos n with rfl | hpos
  · rfl
  · have hall := isDigit_toDigits n
    have hhead := head_toDigits_ne_zero hpos
    cases hdigits : Nat.toDigits 10 n with
    | nil => exact absurd hdigits Nat.toDigits_ne_nil
    | cons d ds =>
      rw [hdigits] at hall hhead
      have hdigit : d.isDigit = true := hall d List.mem_cons_self
      have hsign : d ≠ '-' := by
        intro h
        rw [h] at hdigit
        exact absurd hdigit (by decide)
      have hzero : d ≠ '0' := by simpa using hhead
      have hread : digits (d :: ds) = some [] := by
        have htake : (d :: ds).takeWhile Char.isDigit = d :: ds :=
          List.takeWhile_eq_self_iff.mpr hall
        have hdrop : (d :: ds).dropWhile Char.isDigit = [] := List.dropWhile_eq_nil_iff.mpr hall
        simp only [digits, htake, hdrop]
        rfl
      simp [isNumberLiteral, hsign, hzero, hread]

/-- A count as a JSON number. -/
def JsonNumber.ofNat (n : ℕ) : JsonNumber where
  literal := Nat.toDigits 10 n
  chars := by
    intro c hc
    simp [isNumberChar, isDigit_toDigits n c hc]
  starts := by
    have hall := isDigit_toDigits n
    cases hdigits : Nat.toDigits 10 n with
    | nil => exact absurd hdigits Nat.toDigits_ne_nil
    | cons d ds => simp [hall d (by simp [hdigits])]
  grammar := isNumberLiteral_toDigits n

/-- UTF-8 bytes. -/
def byteLength (text : List Char) : ℕ := (text.map Char.utf8Size).sum

@[simp] theorem byteLength_cons (c : Char) (text : List Char) :
    byteLength (c :: text) = c.utf8Size + byteLength text := by simp [byteLength]

@[simp] theorem byteLength_append (a b : List Char) :
    byteLength (a ++ b) = byteLength a + byteLength b := by simp [byteLength]

/-- The fields of an object, in their order. -/
abbrev JsonObject := OrderedMap String Json

/-- `JSON.stringify(object)`, measured. -/
def jsonBytes (object : JsonObject) : ℕ := byteLength (Json.stringify (.obj object.entries))

/-- What a field that is not the first adds to its object's text. -/
def memberBytes (field : String) (value : Json) : ℕ :=
  2 + byteLength (Json.quote field) + byteLength (Json.stringify value)

theorem byteLength_moreFields_append (fields : List (String × Json)) (k : String) (v : Json) :
    byteLength (Json.moreFields (fields ++ [(k, v)])) =
      byteLength (Json.moreFields fields) + memberBytes k v := by
  induction fields with
  | nil =>
    have hcomma : ','.utf8Size = 1 := by decide
    have hcolon : ':'.utf8Size = 1 := by decide
    simp only [List.nil_append, Json.moreFields, byteLength_cons, byteLength_append, memberBytes]
    omega
  | cons field fields ih =>
    rcases field with ⟨j, u⟩
    simp only [List.cons_append, Json.moreFields, byteLength_cons, byteLength_append, ih]
    omega

/-- A new field is appended to the text. -/
theorem jsonBytes_set_new {object : JsonObject} {j : String} (hsome : object.contains j = true)
    {k : String} (hnew : object.contains k = false) (v : Json) :
    jsonBytes (object.set k v) = jsonBytes object + memberBytes k v := by
  have hentries := OrderedMap.entries_set_new hnew v
  unfold jsonBytes
  rw [hentries]
  cases hfields : object.entries with
  | nil => simp [OrderedMap.contains, OrderedMap.get?, hfields] at hsome
  | cons field fields =>
    rcases field with ⟨i, u⟩
    simp only [List.cons_append, Json.stringify, byteLength_cons, byteLength_append,
      byteLength_moreFields_append]
    omega

/-- The fields of the type `Run`. -/
def wireRunFields : List String :=
  ["run_id", "thread_id", "assistant_id", "created_at", "updated_at", "status", "metadata",
    "multitask_strategy", "error"]

/-- A run row as clients see it. -/
structure WireRun where
  members : JsonObject
  typed : ∀ k ∈ members.keys, k ∈ wireRunFields

structure BuildDeliveryPayloadInput where
  run : WireRun
  values : Json
  runStartedAt : String
  runEndedAt : String
  error : Option String := none
  interrupts : Option (OrderedMap String (List Json)) := none
  reply : Option Json := none
  maxPayloadBytes : Option Binary64 := none

structure BuiltDeliveryPayload where
  payload : JsonObject
  truncated : Bool
  bytes : ℕ

/-- 256 KiB. -/
def defaultMaxPayloadBytes : Binary64 := Binary64.ofInt (256 * 1024) (by norm_num)

/-- The stand-in for a field too large to send, carrying why and how big the whole body was. -/
def marker (field : String) (bytes : ℕ) (cap : Binary64) : Json :=
  .obj [("$skein_truncated", .bool true),
    ("reason", .str (field ++ " omitted: the delivery body was " ++ toString bytes ++
      " bytes, over the " ++ String.ofList (numberText cap) ++ "-byte cap")),
    ("bytes", .num (JsonNumber.ofNat bytes))]

namespace BuildDeliveryPayloadInput
variable (input : BuildDeliveryPayloadInput)

def hasInterrupts : Bool := input.interrupts.any fun interrupts => decide (0 < interrupts.size)

def interruptsJson : Option Json :=
  input.interrupts.map fun interrupts =>
    .obj (interrupts.mapValues fun questions => .arr questions).entries

/-- The body but for its reply. -/
def withoutReply : JsonObject :=
  (((((input.run.members.erase "status").set "values" input.values).set "run_started_at"
    (.str input.runStartedAt)).set "run_ended_at" (.str input.runEndedAt)).spread "error"
    (input.error.map .str)).spread "interrupts"
    (if input.hasInterrupts then input.interruptsJson else none)

/-- The original body. -/
def payload : JsonObject := input.withoutReply.spread "reply" input.reply

def cap : Binary64 := input.maxPayloadBytes.getD defaultMaxPayloadBytes

end BuildDeliveryPayloadInput

def buildDeliveryPayload (input : BuildDeliveryPayloadInput) : BuiltDeliveryPayload :=
  let payload := input.payload
  let cap := input.cap
  let bytes : ℕ := jsonBytes payload
  if (bytes : ℚ) ≤ cap.value then { payload := payload, truncated := false, bytes := bytes }
  else
    -- `values` is sacrificed first, and `interrupts` only if the body is still over the cap.
    let truncatedValues := payload.set "values" (marker "values" bytes cap)
    let afterValues : ℕ := jsonBytes truncatedValues
    if !input.hasInterrupts ∨ (afterValues : ℚ) ≤ cap.value then
      { payload := truncatedValues, truncated := true, bytes := bytes }
    else
      { payload := truncatedValues.set "interrupts" (marker "interrupts" bytes cap)
        truncated := true
        bytes := bytes }

namespace BuildDeliveryPayloadInput
variable (input : BuildDeliveryPayloadInput)

/-- The body `object` with `values` replaced by its marker. -/
def markValues (object : JsonObject) : JsonObject :=
  object.set "values" (marker "values" (jsonBytes input.payload) input.cap)

/-- The body `object` with `values`, and the interrupts it has, replaced by their markers. -/
def markAll (object : JsonObject) : JsonObject :=
  if input.hasInterrupts then
    (input.markValues object).set "interrupts"
      (marker "interrupts" (jsonBytes input.payload) input.cap)
  else input.markValues object

/-- A size is within the cap. -/
def Fits (bytes : ℕ) : Prop := (bytes : ℚ) ≤ input.cap.value

instance (bytes : ℕ) : Decidable (input.Fits bytes) :=
  inferInstanceAs (Decidable ((bytes : ℚ) ≤ input.cap.value))

theorem contains_values : input.withoutReply.contains "values" = true := by
  refine OrderedMap.contains_spread (OrderedMap.contains_spread ?_ _ _) _ _
  simp

theorem notContains_reply : input.withoutReply.contains "reply" = false := by
  have hrun : input.run.members.contains "reply" = false := by
    cases h : input.run.members.contains "reply" with
    | false => rfl
    | true =>
      have htyped := input.run.typed "reply" ((OrderedMap.mem_keys_iff _ _).mpr h)
      exact absurd htyped (by decide)
  rw [OrderedMap.contains_eq_false_iff] at hrun ⊢
  simp [withoutReply, OrderedMap.get?_set, OrderedMap.get?_erase, hrun]

theorem contains_interrupts (h : input.hasInterrupts = true) :
    input.withoutReply.contains "interrupts" = true := by
  cases hinterrupts : input.interrupts with
  | none => simp [hasInterrupts, hinterrupts] at h
  | some interrupts =>
    simp [withoutReply, interruptsJson, h, hinterrupts, OrderedMap.contains]

theorem contains_markAll : (input.markAll input.withoutReply).contains "values" = true := by
  unfold markAll markValues
  split_ifs <;> simp

theorem notContains_reply_markAll :
    (input.markAll input.withoutReply).contains "reply" = false := by
  have h := input.notContains_reply
  unfold markAll markValues
  split_ifs <;> simp [h]

/-- Marking the body marks what precedes its reply. -/
theorem markAll_payload :
    input.markAll input.payload =
      (input.markAll input.withoutReply).spread "reply" input.reply := by
  have hvalues : input.markValues input.payload =
      (input.markValues input.withoutReply).spread "reply" input.reply :=
    OrderedMap.spread_set input.contains_values (by decide) _ _
  unfold markAll
  split_ifs with hinterrupts
  · rw [hvalues]
    refine OrderedMap.spread_set ?_ (by decide) _ _
    simp [markValues, input.contains_interrupts hinterrupts]
  · exact hvalues

/-- The reply comes on top of all that can be given up. -/
theorem jsonBytes_markAll_payload :
    jsonBytes (input.markAll input.payload) = jsonBytes (input.markAll input.withoutReply) +
      (input.reply.elim 0 (memberBytes "reply")) := by
  rw [markAll_payload]
  cases input.reply with
  | none => rfl
  | some reply =>
    exact jsonBytes_set_new input.contains_markAll input.notContains_reply_markAll reply

end BuildDeliveryPayloadInput

/-- What is returned, by how much has to be given up. -/
theorem buildDeliveryPayload_eq (input : BuildDeliveryPayloadInput) :
    buildDeliveryPayload input =
      if input.Fits (jsonBytes input.payload) then
        { payload := input.payload, truncated := false, bytes := (jsonBytes input.payload) }
      else
        { payload := if input.Fits (jsonBytes (input.markValues input.payload)) then
            input.markValues input.payload else input.markAll input.payload
          truncated := true
          bytes := (jsonBytes input.payload) } := by
  unfold buildDeliveryPayload
  by_cases hfull : input.Fits (jsonBytes input.payload)
  · rw [if_pos hfull]
    exact if_pos hfull
  · rw [if_neg hfull]
    refine (if_neg hfull).trans ?_
    by_cases hvalues : input.Fits (jsonBytes (input.markValues input.payload))
    · rw [if_pos hvalues]
      exact if_pos (.inr hvalues)
    · rw [if_neg hvalues]
      cases hinterrupts : input.hasInterrupts with
      | false => simp [BuildDeliveryPayloadInput.markAll, hinterrupts,
          BuildDeliveryPayloadInput.markValues]
      | true =>
        refine (if_neg ?_).trans ?_
        · rintro (hnone | hfits)
          · cases hnone
          · exact hvalues hfits
        · simp [BuildDeliveryPayloadInput.markAll, hinterrupts,
            BuildDeliveryPayloadInput.markValues]

/-- What the cap promises of a stored body. -/
structure RespectsCap (input : BuildDeliveryPayloadInput) : Prop where
  bounded : input.Fits (jsonBytes (input.markAll input.withoutReply)) →
    input.Fits (jsonBytes (buildDeliveryPayload input).payload)
  truncated_iff :
    (buildDeliveryPayload input).truncated = true ↔ ¬ input.Fits (jsonBytes input.payload)
  interruptsLast :
    (buildDeliveryPayload input).payload.get? "interrupts" ≠ input.payload.get? "interrupts" →
    ¬ input.Fits (jsonBytes (input.markValues input.payload))
  untruncated : (buildDeliveryPayload input).truncated = false →
    (buildDeliveryPayload input).payload = input.payload

/-- The markers make room for the reply, or are not all needed, or are too large themselves. -/
def ReplyFits (input : BuildDeliveryPayloadInput) : Prop :=
  ¬ input.Fits (jsonBytes (input.markAll input.withoutReply)) ∨
  input.Fits (jsonBytes input.payload) ∨
  input.Fits (jsonBytes (input.markValues input.payload)) ∨
  ∀ reply ∈ input.reply,
    input.Fits (jsonBytes (input.markAll input.withoutReply) + memberBytes "reply" reply)

/-- The stored body respects its cap exactly where the reply does not need to be given up. -/
theorem respectsCap_iff_replyFits (input : BuildDeliveryPayloadInput) :
    RespectsCap input ↔ ReplyFits input := by
  have hsize := input.jsonBytes_markAll_payload
  constructor
  · intro h
    by_cases hmarked : input.Fits (jsonBytes (input.markAll input.withoutReply))
    · have hbounded := h.bounded hmarked
      rw [buildDeliveryPayload_eq] at hbounded
      split_ifs at hbounded with hfull hvalues
      · exact .inr (.inl hfull)
      · exact .inr (.inr (.inl hvalues))
      · refine .inr (.inr (.inr ?_))
        intro reply hreply
        rw [Option.mem_def.mp hreply] at hsize
        rw [hsize] at hbounded
        exact hbounded
    · exact .inl hmarked
  · intro h
    constructor
    · intro hmarked
      rw [buildDeliveryPayload_eq]
      split_ifs with hfull hvalues
      · exact hfull
      · exact hvalues
      · rcases h with hover | hfull' | hvalues' | hreply
        · exact absurd hmarked hover
        · exact absurd hfull' hfull
        · exact absurd hvalues' hvalues
        · change input.Fits (jsonBytes (input.markAll input.payload))
          rw [hsize]
          cases hsome : input.reply with
          | none => simpa using hmarked
          | some reply => exact hreply reply hsome
    · rw [buildDeliveryPayload_eq]
      split_ifs with hfull <;> simp [hfull]
    · intro hchanged hvalues
      refine hchanged ?_
      rw [buildDeliveryPayload_eq]
      split_ifs with hfull
      · rfl
      · simp [BuildDeliveryPayloadInput.markValues, OrderedMap.get?_set]
    · rw [buildDeliveryPayload_eq]
      split_ifs with hfull <;> simp

def smallRun : WireRun where
  members := (∅ : JsonObject).set "run_id" (.str "r")
  typed := by decide

/-- A run that answers with a long list, under a cap that its other fields keep. -/
def longReply : BuildDeliveryPayloadInput where
  run := smallRun
  values := .obj []
  runStartedAt := "2026-01-01T00:00:00.000Z"
  runEndedAt := "2026-01-01T00:00:01.000Z"
  reply := some (.arr (List.replicate 80 .null))
  maxPayloadBytes := some (Binary64.ofInt 256 (by norm_num))

theorem jsonBytes_longReply : jsonBytes longReply.payload = 522 := by decide +kernel

theorem longReply_over : ¬ RespectsCap longReply := by
  intro h
  have hmarked : longReply.Fits (jsonBytes (longReply.markAll longReply.withoutReply)) := by
    unfold BuildDeliveryPayloadInput.markAll BuildDeliveryPayloadInput.markValues
    rw [jsonBytes_longReply]
    decide +kernel
  have hbounded := h.bounded hmarked
  rw [buildDeliveryPayload_eq] at hbounded
  unfold BuildDeliveryPayloadInput.markAll BuildDeliveryPayloadInput.markValues at hbounded
  rw [jsonBytes_longReply] at hbounded
  exact absurd hbounded (by decide +kernel)

end Skein
