import Mathlib.Data.List.Forall2
import Mathlib.Data.List.TakeWhile
import Skein.Sse

/-!
# A stream decodes to its frames

Every block is three lines none of which can break early: digits, a name without line
breaks and a JSON text. So a receiver dispatches exactly one event for each frame, and a
heartbeat none. The idle ticks neither lose nor repeat a frame, whatever turns the timer
wins.
-/
namespace Skein

namespace EventStream

@[simp] theorem processLine_id (b : Buffers) (value : List Char) :
    processLine b ('i' :: 'd' :: ':' :: ' ' :: value) =
      if value.contains (Char.ofNat 0) then b else { b with id := value } := by
  simp [processLine, setField]

@[simp] theorem processLine_event (b : Buffers) (value : List Char) :
    processLine b ('e' :: 'v' :: 'e' :: 'n' :: 't' :: ':' :: ' ' :: value) =
      { b with type := value } := by
  simp [processLine, setField]

@[simp] theorem processLine_data (b : Buffers) (value : List Char) :
    processLine b ('d' :: 'a' :: 't' :: 'a' :: ':' :: ' ' :: value) =
      { b with data := b.data ++ value ++ ['\n'] } := by
  simp [processLine, setField]

theorem OneLine.cons {c : Char} (hc : c ≠ '\n' ∧ c ≠ '\r') {text : List Char}
    (h : OneLine text) : OneLine (c :: text) := by
  intro d hd
  rcases List.mem_cons.mp hd with rfl | hd
  · exact hc
  · exact h d hd

/-- A block of an event and a data line dispatches one event. -/
theorem decodeFrom_block (id : List Char) {type data : List Char} (htype : type ≠ [])
    (htypeLine : OneLine type) (hdata : OneLine data) (rest : List Char) :
    decodeFrom { id } (['e', 'v', 'e', 'n', 't', ':', ' '] ++ type ++ '\n' ::
      (['d', 'a', 't', 'a', ':', ' '] ++ data ++ '\n' :: '\n' :: rest)) =
      ⟨id, type, data⟩ :: decodeFrom { id } rest := by
  have hevent : OneLine (['e', 'v', 'e', 'n', 't', ':', ' '] ++ type) :=
    OneLine.append (by simp [OneLine]) htypeLine
  have hline : OneLine (['d', 'a', 't', 'a', ':', ' '] ++ data) :=
    OneLine.append (by simp [OneLine]) hdata
  rw [decodeFrom_line _ hevent (by simp), decodeFrom_line _ hline (by simp), decodeFrom_blank]
  simp [dispatch, htype]

/-- An identifier line before it names the event. -/
theorem decodeFrom_id (b : Buffers) {id : List Char} (h : OneLine id)
    (hnul : Char.ofNat 0 ∉ id) (rest : List Char) :
    decodeFrom b (['i', 'd', ':', ' '] ++ id ++ '\n' :: rest) = decodeFrom { b with id } rest := by
  have hline : OneLine (['i', 'd', ':', ' '] ++ id) :=
    OneLine.append (by simp [OneLine]) h
  rw [decodeFrom_line _ hline (by simp)]
  simp [hnul]

end EventStream

namespace Sse
open EventStream

theorem oneLine_stringify (v : Json) : OneLine v.stringify := by
  intro c hc
  have hge := Json.toNat_ge_of_mem_stringify v c hc
  constructor <;> rintro rfl <;> revert hge <;> decide

theorem oneLine_numberText (x : Binary64) : OneLine (numberText x) := by
  intro c hc
  have hnumeric := isNumericChar_numberText x c hc
  constructor <;> rintro rfl <;> revert hnumeric <;> decide

theorem nul_notMem_numberText (x : Binary64) : Char.ofNat 0 ∉ numberText x := by
  intro hmem
  have hnumeric := isNumericChar_numberText x _ hmem
  revert hnumeric
  decide

theorem oneLine_frameEventName (frame : WireFrame) : OneLine (frameEventName frame) := by
  intro c hc
  simp only [frameEventName, List.mem_filter, Bool.and_eq_true, decide_eq_true_eq] at hc
  exact ⟨hc.2.2, hc.2.1⟩

/-- The name of the mode comes first, unchanged. -/
theorem frameEventName_eq (frame : WireFrame) :
    frameEventName frame = frame.event.name ++
      (if frame.ns = [] then [] else '|' :: ['|'].intercalate frame.ns).filter
        fun c => c ≠ '\r' && c ≠ '\n' := by
  have hname : frame.event.name.filter (fun c => c ≠ '\r' && c ≠ '\n') = frame.event.name := by
    apply List.filter_eq_self.mpr
    intro c hc
    have hplain := frame.event.plain c hc
    simp [hplain.1, hplain.2.1]
  unfold frameEventName
  split_ifs with hns
  · rw [hname, List.filter_nil, List.append_nil]
  · rw [List.filter_append, hname]

theorem frameEventName_ne_nil (frame : WireFrame) : frameEventName frame ≠ [] := by
  rw [frameEventName_eq]
  simp [frame.event.nonempty]

/-- A separator keeps a namespaced frame from being taken for the end of the stream. -/
theorem frameEventName_ne_end (frame : WireFrame) : frameEventName frame ≠ endName := by
  intro h
  by_cases hns : frame.ns = []
  · rw [frameEventName_eq, if_pos hns] at h
    exact frame.event.not_end (by simpa [endName] using h)
  · have hmem : '|' ∈ frameEventName frame := by
      rw [frameEventName_eq, if_neg hns]
      simp
    rw [h] at hmem
    revert hmem
    decide

theorem oneLine_intercalate {parts : List (List Char)} (h : ∀ part ∈ parts, OneLine part) :
    OneLine (['|'].intercalate parts) := by
  induction parts with
  | nil =>
    intro c hc
    simp at hc
  | cons part parts ih =>
    have hpart : OneLine part := h part List.mem_cons_self
    have hparts : OneLine (['|'].intercalate parts) :=
      ih fun p hp => h p (List.mem_cons_of_mem _ hp)
    cases parts with
    | nil => simpa using hpart
    | cons next parts =>
      rw [List.intercalate_cons_cons]
      exact (hpart.append (OneLine.cons (by decide) (by simp [OneLine]))).append hparts

/-- Segments without separators and line breaks can be told apart again. -/
theorem splitOn_frameEventName {frame : WireFrame}
    (h : ∀ segment ∈ frame.ns, ∀ c ∈ segment, c ≠ '\n' ∧ c ≠ '\r' ∧ c ≠ '|') :
    (frameEventName frame).splitOn '|' = frame.event.name :: frame.ns := by
  have hparts : ∀ part ∈ frame.event.name :: frame.ns,
      ∀ c ∈ part, c ≠ '\n' ∧ c ≠ '\r' ∧ c ≠ '|' := by
    intro part hpart
    rcases List.mem_cons.mp hpart with rfl | hpart
    · exact frame.event.plain
    · exact h part hpart
  have hname : frameEventName frame = ['|'].intercalate (frame.event.name :: frame.ns) := by
    have hjoin : (if frame.ns = [] then frame.event.name
        else frame.event.name ++ '|' :: ['|'].intercalate frame.ns) =
        ['|'].intercalate (frame.event.name :: frame.ns) := by
      cases frame.ns with
      | nil => simp
      | cons segment ns => simp
    unfold frameEventName
    dsimp only
    rw [hjoin]
    apply List.filter_eq_self.mpr
    intro c hc
    have hline := oneLine_intercalate (fun part hpart c hc =>
      ⟨(hparts part hpart c hc).1, (hparts part hpart c hc).2.1⟩) c hc
    simp [hline.1, hline.2]
  rw [hname]
  apply List.splitOn_intercalate
  · intro part hpart hmem
    exact (hparts part hpart _ hmem).2.2 rfl
  · simp

/-- The event a receiver is to see for a frame. -/
def frameEvent (frame : WireFrame) : StreamEvent :=
  ⟨numberText frame.seq, frameEventName frame, frame.data.stringify⟩

theorem decodeFrom_frameBlock (id : List Char) (frame : WireFrame) (rest : List Char) :
    decodeFrom { id } (frameBlock frame ++ rest) =
      frameEvent frame :: decodeFrom { id := numberText frame.seq } rest := by
  have hid := decodeFrom_id { id } (oneLine_numberText frame.seq) (nul_notMem_numberText frame.seq)
  have hblock := decodeFrom_block (numberText frame.seq)
    (frameEventName_ne_nil frame) (oneLine_frameEventName frame)
    (oneLine_stringify frame.data) rest
  unfold frameBlock
  simp only [List.append_assoc, List.cons_append, List.nil_append] at hid hblock ⊢
  rw [hid, hblock]
  rfl

/-- The event a receiver is to see at the end. -/
def terminalEvent (id : List Char) (status : RunStatus) : StreamEvent :=
  ⟨id, if failed status then errorName else endName, (terminalData status).stringify⟩

theorem decodeFrom_encodeTerminal (id : List Char) (status : RunStatus) :
    decodeFrom { id } (encodeTerminal status) = [terminalEvent id status] := by
  have hname : (if failed status then errorName else endName) ≠ [] ∧
      OneLine (if failed status then errorName else endName) := by
    cases failed status
    · simp [OneLine, endName]
    · simp [OneLine, errorName]
  have hblock := decodeFrom_block id hname.1 hname.2 (oneLine_stringify (terminalData status)) []
  unfold encodeTerminal
  simp only [List.cons_append, List.nil_append] at hblock ⊢
  rw [hblock, decodeFrom_nil]
  rfl

theorem decodeFrom_heartbeat (id rest : List Char) :
    decodeFrom { id } (heartbeat ++ rest) = decodeFrom { id } rest := by
  have hcomment : OneLine [' ', 'h', 'e', 'a', 'r', 't', 'b', 'e', 'a', 't'] := by
    simp [OneLine]
  exact decodeFrom_comment rfl rfl hcomment rest

theorem encodeFrame_block {objects : ℕ → WireFrame} (cache : EncodedFrames objects)
    (ref : ℕ) : (encodeFrame cache ref).1 = frameBlock (objects ref) := by
  unfold encodeFrame
  split
  next cached hcached =>
    exact cache.encoded ref cached hcached
  · rfl

/-- What has been written decodes to the frames among the items, in their order. -/
theorem decodeFrom_writeFrames {objects : ℕ → WireFrame}
    (meanwhile : ℕ → EncodedFrames objects → EncodedFrames objects) (n : ℕ)
    (cache : EncodedFrames objects) (items : List (Option ℕ)) (id rest : List Char) :
    ∃ last, decodeFrom { id } ((writeFrames meanwhile n cache items).flatten ++ rest) =
      (items.filterMap fun item => item.map fun ref => frameEvent (objects ref)) ++
        decodeFrom { id := last } rest := by
  induction items generalizing n cache id with
  | nil => exact ⟨id, rfl⟩
  | cons item items ih =>
    cases item with
    | none =>
      obtain ⟨last, hlast⟩ := ih (n + 1) cache id
      refine ⟨last, ?_⟩
      simp only [writeFrames, List.flatten_cons, List.append_assoc, decodeFrom_heartbeat, hlast]
      simp
    | some ref =>
      obtain ⟨last, hlast⟩ := ih (n + 1) (encodeFrame (meanwhile n cache) ref).2
        (numberText (objects ref).seq)
      refine ⟨last, ?_⟩
      simp only [writeFrames, encodeFrame_block, List.flatten_cons, List.append_assoc,
        decodeFrom_frameBlock, hlast]
      simp

section IdleTicks
variable {α : Type*} {s : IdleTicks α}

/-- What is in flight and what comes after it. -/
def IdleTicks.values (s : IdleTicks α) : List α := (s.pending.bind id).toList ++ s.rest

/-- Nothing comes after the end. -/
def IdleTicks.Ordered (s : IdleTicks α) : Prop := s.pending = some none → s.rest = []

theorem IdleTicks.next_spec (hs : s.Ordered) :
    s.next.values = s.values ∧ s.next.Ordered ∧ s.next.pending ≠ none := by
  rcases s with ⟨_ | pending, _ | ⟨value, rest⟩⟩ <;>
    simp_all [IdleTicks.next, IdleTicks.values, IdleTicks.Ordered]

/-- The value that arrives is the first one. -/
theorem IdleTicks.values_arrived {value : α} (h : s.next.pending = some (some value)) :
    s.next.values = value :: ({ s.next with pending := none } : IdleTicks α).values := by
  simp [IdleTicks.values, h]

/-- The idle ticks neither lose nor repeat a value, and keep their order. -/
theorem IdleTicks.filterMap_run {turns : List Bool} {items : List (Option α)}
    (h : s.run turns = some items) (hs : s.Ordered) : items.filterMap id = s.values := by
  induction turns generalizing s items with
  | nil => cases h
  | cons turn turns ih =>
    obtain ⟨hsame, hordered, hsome⟩ := IdleTicks.next_spec hs
    cases turn with
    | true =>
      obtain ⟨later, hlater, rfl⟩ := Option.map_eq_some_iff.mp h
      rw [← hsame]
      simpa using ih hlater hordered
    | false =>
      cases hpending : s.next.pending with
      | none => exact absurd hpending hsome
      | some settled =>
        cases settled with
        | none =>
          simp only [IdleTicks.run, hpending, Option.some.injEq] at h
          rw [← h, ← hsame]
          simp [IdleTicks.values, hpending, hordered hpending]
        | some value =>
          simp only [IdleTicks.run, hpending] at h
          obtain ⟨later, hlater, rfl⟩ := Option.map_eq_some_iff.mp h
          rw [← hsame, IdleTicks.values_arrived hpending, ← ih hlater nofun]
          rfl

/-- The stream ends once every value has arrived, and one turn more. -/
theorem IdleTicks.isSome_run {turns : List Bool} (hs : s.Ordered)
    (henough : s.values.length < turns.count false) : (s.run turns).isSome = true := by
  induction turns generalizing s with
  | nil => simp at henough
  | cons turn turns ih =>
    obtain ⟨hsame, hordered, hsome⟩ := IdleTicks.next_spec hs
    cases turn with
    | true =>
      simpa [IdleTicks.run] using ih hordered (by simpa [hsame] using henough)
    | false =>
      cases hpending : s.next.pending with
      | none => exact absurd hpending hsome
      | some settled =>
        cases settled with
        | none => simp [IdleTicks.run, hpending]
        | some value =>
          have hfewer : ({ s.next with pending := none } : IdleTicks α).values.length <
              turns.count false := by
            rw [← hsame, IdleTicks.values_arrived hpending] at henough
            simpa using henough
          simpa [IdleTicks.run, hpending] using ih (by simp [IdleTicks.Ordered]) hfewer

end IdleTicks

/-- What an event carries of the frame it was written for. -/
structure Carries (frame : WireFrame) (event : StreamEvent) : Prop where
  seq : parseAfterSeq (some event.lastEventId) = frame.seq
  data : Json.parse event.data = some frame.data
  name : (∀ segment ∈ frame.ns, ∀ c ∈ segment, c ≠ '\n' ∧ c ≠ '\r' ∧ c ≠ '|') →
    event.type.splitOn '|' = frame.event.name :: frame.ns
  not_end : event.type ≠ endName

/-- A positive whole number below the first one that is written with an exponent. -/
def IsSeq (x : Binary64) : Prop := ∃ n : ℕ, 0 < n ∧ n < 10 ^ 21 ∧ x.value = n

/-- Reading the digits of such a number returns it. -/
theorem parseAfterSeq_numberText {x : Binary64} (hx : IsSeq x) :
    parseAfterSeq (some (numberText x)) = x := by
  obtain ⟨n, hpositive, hn, hvalue⟩ := hx
  have hdigits := isDigit_numberText hvalue hn
  have hpos : 0 < x.value := by rw [hvalue]; exact_mod_cast hpositive
  have htext : numberText x = positiveText x.value := by
    rw [numberText, if_neg hpos.ne', if_neg hpos.not_gt]
  have hwhole := decimalValue?_whole (numberText x) [] hdigits (numberText_ne_nil x)
    (by rintro c ⟨⟩) (by simp)
  have hread := decimalValue?_positiveText x hpos
  rw [List.append_nil] at hwhole
  rw [← htext, hwhole] at hread
  have hround : Binary64.ofRat? (Nat.ofDigitChars 10 (numberText x) 0) = some x := by
    simpa [exponentValue?] using hread
  have hblank : (numberText x).dropWhile isBlankChar = numberText x := by
    cases hcases : numberText x with
    | nil => rfl
    | cons c cs =>
      have hnumeric := isNumericChar_numberText x c (by simp [hcases])
      rw [List.dropWhile_cons_of_neg (by simp [isBlankChar_of_isNumericChar hnumeric])]
  have htake : (numberText x).takeWhile Char.isDigit = numberText x :=
    List.takeWhile_eq_self_iff.mpr hdigits
  have hparse : parseNatural? (numberText x) = some x := by
    simp only [parseNatural?, hblank]
    split
    next digits hplus =>
      have hsign : ('+').isDigit = true := hdigits '+' (by simp [hplus])
      exact absurd hsign (by decide)
    · rw [htake, digitsValue?_digits hdigits (numberText_ne_nil x), Option.bind_some, hround]
  simp [parseAfterSeq, hparse]

theorem carries_frameEvent {frame : WireFrame} (hseq : IsSeq frame.seq) :
    Carries frame (frameEvent frame) where
  seq := parseAfterSeq_numberText hseq
  data := Json.parse_stringify frame.data
  name := splitOn_frameEventName
  not_end := frameEventName_ne_end frame

/-- How a stream ends: the error frame of a failed run is its terminator, and every other
stream has one terminal event, which tells how the run ended. -/
def Terminates (frames : List (WireFrame)) (status : RunStatus) (last : List StreamEvent) :
    Prop :=
  if failed status = true ∧ ∃ frame ∈ frames, frame.event.name = errorName then last = []
  else ∃ event, last = [event] ∧ event.type = (if failed status then errorName else endName) ∧
    Json.parse event.data = some (terminalData status)

section Stream
variable {objects : ℕ → WireFrame} (meanwhile : ℕ → EncodedFrames objects → EncodedFrames objects)
  (cache : EncodedFrames objects) (frames : List ℕ) (finalStatus : Option RunStatus)
  (heartbeatMs : Option ℤ) (turns : List Bool)

/-- Without heartbeats the stream ends with the frames; with them it has ended as soon as the
frames and their end have won a turn each. -/
theorem isSome_toSseEvents (henough : 0 < heartbeatMs.getD defaultHeartbeatMs →
    frames.length < turns.count false) :
    (toSseEvents meanwhile cache frames finalStatus heartbeatMs turns).isSome = true := by
  simp only [toSseEvents, Option.isSome_map]
  split_ifs with hheartbeats
  · exact IdleTicks.isSome_run nofun (by simpa [IdleTicks.values] using henough hheartbeats)
  · rfl

/-- A receiver of what was written sees one event for each frame, in order, and the end. -/
theorem decode_toSseEvents (hseq : ∀ ref ∈ frames, IsSeq (objects ref).seq)
    {chunks : List (List Char)}
    (h : toSseEvents meanwhile cache frames finalStatus heartbeatMs turns = some chunks) :
    ∃ events last, decode chunks.flatten = events ++ last ∧
      List.Forall₂ Carries (frames.map objects) events ∧
      Terminates (frames.map objects) (finalStatus.getD .success) last := by
  obtain ⟨items, hitems, rfl⟩ := Option.map_eq_some_iff.mp h
  have hframes : items.filterMap id = frames := by
    split_ifs at hitems
    · simpa [IdleTicks.values] using IdleTicks.filterMap_run hitems nofun
    · cases hitems
      simp [List.filterMap_map]
  have hevents : (items.filterMap fun item => item.map fun ref => frameEvent (objects ref)) =
      (frames.map objects).map frameEvent := by
    rw [← hframes, List.map_filterMap, List.map_filterMap]
    simp [Function.comp_def]
  have hsaw : (items.any fun item => item.any fun ref =>
      (objects ref).event.name = errorName) = true ↔
      ∃ frame ∈ frames.map objects, frame.event.name = errorName := by
    rw [← hframes]
    simp [List.any_eq_true, Option.any_eq_true]
  dsimp only
  generalize (items.any fun item => item.any fun ref =>
    (objects ref).event.name = errorName) = sawErrorFrame at hsaw
  obtain ⟨lastId, hdecode⟩ := decodeFrom_writeFrames meanwhile 0 cache items []
    (terminal sawErrorFrame finalStatus).flatten
  refine ⟨(frames.map objects).map frameEvent, decodeFrom { id := lastId }
    (terminal sawErrorFrame finalStatus).flatten, ?_, ?_, ?_⟩
  · rw [List.flatten_append, decode, hdecode, hevents]
  · rw [List.forall₂_map_right_iff, List.forall₂_same]
    intro frame hframe
    obtain ⟨ref, href, rfl⟩ := List.mem_map.mp hframe
    exact carries_frameEvent (hseq ref href)
  · unfold Terminates terminal
    simp only [Bool.and_eq_true, hsaw]
    by_cases hfailed : failed (finalStatus.getD .success) = true ∧
        ∃ frame ∈ frames.map objects, frame.event.name = errorName
    · rw [if_pos hfailed, if_pos hfailed]
      rfl
    · rw [if_neg hfailed, if_neg hfailed]
      refine ⟨terminalEvent lastId (finalStatus.getD .success), ?_, rfl, ?_⟩
      · simp [decodeFrom_encodeTerminal]
      · exact Json.parse_stringify _

/-- A stream of frames comes to its end, and a receiver of it sees one event for each frame, in
order, and the end. -/
theorem toSseEvents_decodes (hseq : ∀ ref ∈ frames, IsSeq (objects ref).seq) :
    ((0 < heartbeatMs.getD defaultHeartbeatMs → frames.length < turns.count false) →
      (toSseEvents meanwhile cache frames finalStatus heartbeatMs turns).isSome = true) ∧
    ∀ chunks, toSseEvents meanwhile cache frames finalStatus heartbeatMs turns = some chunks →
      ∃ events last, decode chunks.flatten = events ++ last ∧
        List.Forall₂ Carries (frames.map objects) events ∧
        Terminates (frames.map objects) (finalStatus.getD .success) last :=
  ⟨isSome_toSseEvents meanwhile cache frames finalStatus heartbeatMs turns,
    fun _ => decode_toSseEvents meanwhile cache frames finalStatus heartbeatMs turns hseq⟩

end Stream

/-- A line break in a string, a name with a line break in it, and the number of a frame
that is not the last. -/
def exampleObjects (ref : ℕ) : WireFrame :=
  if ref = 0 then
    ⟨.ofInt 7 (by norm_num), ⟨['v', 'a', 'l', 'u', 'e', 's'], by simp, by simp, by simp⟩,
      [['a', '\n', 'b'], ['c']], .obj [("text", .str "a\nid: 9\n\nevent: end")]⟩
  else ⟨.ofInt 8 (by norm_num),
    ⟨errorName, by simp [errorName], by simp [errorName], by simp [errorName]⟩, [], .null⟩

def exampleCache : EncodedFrames exampleObjects where
  encoded _ _ h := absurd h (by simp)

theorem isSeq_exampleObjects : ∀ ref ∈ [0, 1], IsSeq (exampleObjects ref).seq := by
  intro ref href
  rcases List.mem_cons.mp href with rfl | href
  · exact ⟨7, by norm_num, by norm_num, by simp [exampleObjects, Binary64.ofInt]⟩
  · obtain rfl := List.mem_singleton.mp href
    exact ⟨8, by norm_num, by norm_num, by simp [exampleObjects, Binary64.ofInt]⟩

theorem exampleChunks_decode :
    ∃ chunks, toSseEvents (fun _ cache => cache) exampleCache [0, 1] (some .error) none
        [true, false, true, true, false, false] = some chunks ∧
      ∃ events last, decode chunks.flatten = events ++ last ∧
        List.Forall₂ Carries ([0, 1].map exampleObjects) events ∧
        Terminates ([0, 1].map exampleObjects) .error last := by
  have hdecodes := toSseEvents_decodes (fun _ cache => cache) exampleCache [0, 1] (some .error)
    none [true, false, true, true, false, false] isSeq_exampleObjects
  obtain ⟨chunks, hchunks⟩ := Option.isSome_iff_exists.mp (hdecodes.1 fun _ => by decide)
  exact ⟨chunks, hchunks, hdecodes.2 chunks hchunks⟩

/-- The first number that is written with an exponent. -/
def exponentSeq : Binary64 := ⟨10 ^ 21, nearest?_ten_pow⟩

def exponentFrame (_ : ℕ) : WireFrame :=
  ⟨exponentSeq, ⟨['v', 'a', 'l', 'u', 'e', 's'], by simp, by simp, by simp⟩, [], .null⟩

def exponentCache : EncodedFrames exponentFrame where
  encoded _ _ h := absurd h (by simp)

/-- The identifier of its event reads back as one. -/
theorem exponentFrame_misread : ∃ chunks event last,
    toSseEvents (fun _ cache => cache) exponentCache [0] (some .success) (some 0) [] =
      some chunks ∧
    decode chunks.flatten = event :: last ∧ 0 < exponentSeq.value ∧
    parseAfterSeq (some event.lastEventId) ≠ exponentSeq := by
  have htext : numberText exponentSeq = ['1', 'e', '+', '2', '1'] := by decide +kernel
  have hread : parseAfterSeq (some (numberText exponentSeq)) ≠ exponentSeq := by
    rw [htext]
    decide +kernel
  have hdecode := decodeFrom_frameBlock [] (exponentFrame 0) (encodeTerminal .success)
  refine ⟨[frameBlock (exponentFrame 0), encodeTerminal .success], frameEvent (exponentFrame 0),
    decodeFrom { id := numberText (exponentFrame 0).seq } (encodeTerminal .success), rfl, ?_, ?_,
    hread⟩
  · simpa [decode] using hdecode
  · norm_num [exponentSeq]

end Sse
end Skein
