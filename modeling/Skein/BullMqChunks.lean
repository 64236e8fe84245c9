import Skein.Base64
import Skein.DeliveryPayload
import Skein.WireTypes

/-!
# Chunks over BullMQ

A reader over BullMQ fetches a value in chunks: slices of the bytes of its JSON text, each
with the digest of the whole. A chunk that has a successor names its offset, and the reader
asks for it with the digest; a value that has changed since is refused.
-/
namespace Skein

def SkeinHttpError.badRequest (message : String) (code : Option String := none) :
    SkeinHttpError :=
  ⟨400, message, code⟩

/-- `Buffer.from(text)`. -/
def utf8Bytes (text : List Char) : List UInt8 := text.flatMap String.utf8EncodeChar

def digestChars : List Char := "0123456789abcdef".toList

/-- `createHash("sha256").update(bytes).digest("hex")`. -/
structure Sha256 where
  hex : List UInt8 → String
  length : ∀ bytes, (hex bytes).toList.length = 64
  chars : ∀ bytes, ∀ c ∈ (hex bytes).toList, c ∈ digestChars

/-- A cap that `createBullMqTransport` accepts. -/
structure MessageCap where
  bytes : ℕ
  lower : 1024 ≤ bytes
  upper : bytes ≤ 256 * 1024

/-- The chunk fields of a command. -/
structure ChunkRequest where
  offset : Option ℕ := none
  digest : Option String := none
  deriving DecidableEq, Repr

/-- `chunkFields`: a digest is 64 lowercase hexadecimal digits. -/
def ChunkRequest.Valid (request : ChunkRequest) : Prop :=
  ∀ digest ∈ request.digest, digest.toList.length = 64 ∧ ∀ c ∈ digest.toList, c ∈ digestChars

instance (request : ChunkRequest) : Decidable request.Valid :=
  inferInstanceAs (Decidable (∀ digest ∈ request.digest,
    digest.toList.length = 64 ∧ ∀ c ∈ digest.toList, c ∈ digestChars))

structure BullMqChunk where
  encoding : String
  digest : String
  offset : ℕ
  nextOffset : Option ℕ
  totalBytes : ℕ
  content : String
  deriving DecidableEq, Repr

/-- What `serializeWireJson` makes text of. -/
def BullMqChunk.toJson (chunk : BullMqChunk) : Json :=
  .obj [("encoding", .str chunk.encoding), ("digest", .str chunk.digest),
    ("offset", .num (.ofNat chunk.offset)),
    ("nextOffset", chunk.nextOffset.elim .null fun next => .num (.ofNat next)),
    ("totalBytes", .num (.ofNat chunk.totalBytes)), ("content", .str chunk.content)]

/-- The bytes of a chunk as a message. -/
def BullMqChunk.wireBytes (chunk : BullMqChunk) : ℕ := byteLength (Json.stringify chunk.toJson)

inductive ChunkError
  | http (error : SkeinHttpError)
  | framing
  deriving DecidableEq, Repr

def resultDigestMismatch : ChunkError :=
  .http (.conflict "The requested value changed; restart retrieval."
    (some "result_digest_mismatch"))

section Chunk
variable {V : Type*} (sha : Sha256) (serializeWireJson : V → List Char) (cap : MessageCap)

/-- The bytes of a value's JSON text. -/
def valueBytes (value : V) : List UInt8 := utf8Bytes (serializeWireJson value)

/-- The bytes of a value that one chunk holds. -/
def chunkStep : ℕ := (cap.bytes - 512) * 3 / 4

/-- The object `chunk` builds of the bytes from `offset` on. -/
def chunkAt (bytes : List UInt8) (offset : ℕ) : BullMqChunk where
  encoding := "base64"
  digest := sha.hex bytes
  offset := offset
  nextOffset :=
    if min bytes.length (offset + chunkStep cap) < bytes.length then
      some (min bytes.length (offset + chunkStep cap))
    else none
  totalBytes := bytes.length
  content := String.ofList
    (Base64.encode ((bytes.take (min bytes.length (offset + chunkStep cap))).drop offset))

/-- `chunk`. -/
def chunk (value : V) (request : ChunkRequest) : Except ChunkError BullMqChunk :=
  let bytes := valueBytes serializeWireJson value
  let digest := sha.hex bytes
  if request.digest.any fun expected => expected ≠ "" && expected ≠ digest then
    .error resultDigestMismatch
  else
    let offset := request.offset.getD 0
    if 0 < offset ∧ ¬request.digest.any (· ≠ "") then
      .error (.http (.badRequest "Continuation requires its digest."
        (some "result_digest_required")))
    else if bytes.length < offset then
      .error (.http (.badRequest "Chunk offset is outside the result."
        (some "invalid_chunk_offset")))
    else
      let result := chunkAt sha cap bytes offset
      if cap.bytes < result.wireBytes then .error .framing else .ok result

/-- A reader that follows `nextOffset` with the digest it was given; `reads i` is the value
that the `i`-th request finds. `none` is a reader that is not done. -/
def retrieve (reads : ℕ → V) : ℕ → ℕ → ChunkRequest → Option (Except ChunkError (List BullMqChunk))
  | 0, _, _ => none
  | fuel + 1, i, request =>
    if request.Valid then
      match chunk sha serializeWireJson cap (reads i) request with
      | .error e => some (.error e)
      | .ok result =>
        match result.nextOffset with
        | none => some (.ok [result])
        | some next =>
          (retrieve reads fuel (i + 1) ⟨some next, some result.digest⟩).map fun rest =>
            rest.map (result :: ·)
    else
      some (.error (.http (.badRequest "Invalid BullMQ command." (some "invalid_bullmq_command"))))

end Chunk

/-- The bytes a reader puts together. -/
def decodedContents : List BullMqChunk → Option (List UInt8)
  | [] => some []
  | result :: rest =>
    (Base64.decode result.content.toList).bind fun bytes => (decodedContents rest).map (bytes ++ ·)

/-- Characters that stand for themselves in a JSON string, one byte each. -/
def PlainChar (c : Char) : Prop := Json.escapeChar c = [c] ∧ c.utf8Size = 1

instance (c : Char) : Decidable (PlainChar c) := inferInstanceAs (Decidable (_ ∧ _))

theorem byteLength_plain {text : List Char} (h : ∀ c ∈ text, c.utf8Size = 1) :
    byteLength text = text.length := by
  induction text with
  | nil => rfl
  | cons c text ih =>
    rw [byteLength_cons, h c List.mem_cons_self, ih fun d hd => h d (List.mem_cons_of_mem c hd),
      List.length_cons]
    omega

theorem byteLength_quote_plain {s : String} (h : ∀ c ∈ s.toList, PlainChar c) :
    byteLength (Json.quote s) = s.toList.length + 2 := by
  have hquoted : s.toList.flatMap Json.escapeChar = s.toList := by
    rw [List.flatMap_congr fun c hc => (h c hc).1, List.flatMap_singleton']
  have hmark : '"'.utf8Size = 1 := by decide
  rw [Json.quote, hquoted, List.cons_append, byteLength_cons, byteLength_append,
    byteLength_plain fun c hc => (h c hc).2]
  simp only [hmark, byteLength_cons]
  simp [byteLength]
  omega

theorem plain_of_hex : ∀ c ∈ digestChars, PlainChar c := by
  have hall : (digestChars.all fun c => decide (PlainChar c)) = true := by decide +kernel
  intro c hc
  exact of_decide_eq_true (List.all_eq_true.mp hall c hc)

theorem plain_of_base64 : ∀ n, n < 64 → PlainChar (Base64.char n) := by
  have hall : (Base64.alphabet.all fun c => decide (PlainChar c)) = true := by decide +kernel
  have hlength : Base64.alphabet.length = 64 := by decide +kernel
  intro n hn
  have hmem : Base64.char n ∈ Base64.alphabet := by
    rw [Base64.char, List.getD_eq_getElem?_getD, List.getElem?_eq_getElem (hlength.symm ▸ hn)]
    exact List.getElem_mem _
  exact of_decide_eq_true (List.all_eq_true.mp hall _ hmem)

/-- A whole number in a text, of sixteen digits at most. -/
theorem byteLength_ofNat {n : ℕ} (h : n < 10 ^ 16) :
    byteLength (JsonNumber.ofNat n).literal ≤ 16 := by
  have hdigits : ∀ c ∈ Nat.toDigits 10 n, c.utf8Size = 1 := by
    intro c hc
    have hdigit := isDigit_toDigits n c hc
    simp only [Char.isDigit, ge_iff_le, Bool.and_eq_true, decide_eq_true_eq] at hdigit
    have hascii : (57 : UInt32) ≤ 127 := by decide
    exact Char.utf8Size_eq_one_iff.mpr (UInt32.le_trans hdigit.2 hascii)
  have hlength := (Nat.length_toDigits_le_iff (by decide) (by decide)).mpr h
  exact (byteLength_plain hdigits).trans_le hlength

/-- The length of a chunk's message: 130 bytes of framing, the digest, three numbers and the
content. -/
theorem wireBytes_le {result : BullMqChunk} (hencoding : result.encoding = "base64")
    (hdigest : result.digest.toList.length = 64) (hhex : ∀ c ∈ result.digest.toList, c ∈ digestChars)
    (hoffset : result.offset < 10 ^ 16) (hnext : ∀ next ∈ result.nextOffset, next < 10 ^ 16)
    (htotal : result.totalBytes < 10 ^ 16) (hcontent : ∀ c ∈ result.content.toList, PlainChar c) :
    result.wireBytes ≤ 256 + result.content.toList.length := by
  obtain ⟨hkeyEncoding, hvalueEncoding, hkeyDigest, hkeyOffset, hkeyNext, hkeyTotal, hkeyContent⟩ :
      byteLength (Json.quote "encoding") = 10 ∧ byteLength (Json.quote "base64") = 8 ∧
      byteLength (Json.quote "digest") = 8 ∧ byteLength (Json.quote "offset") = 8 ∧
      byteLength (Json.quote "nextOffset") = 12 ∧ byteLength (Json.quote "totalBytes") = 12 ∧
      byteLength (Json.quote "content") = 9 := by decide +kernel
  obtain ⟨hopen, hclose, hcolon, hcomma⟩ : '{'.utf8Size = 1 ∧ '}'.utf8Size = 1 ∧
      ':'.utf8Size = 1 ∧ ','.utf8Size = 1 := by decide
  have hdigest' := byteLength_quote_plain fun c hc => plain_of_hex c (hhex c hc)
  have hcontent' := byteLength_quote_plain hcontent
  have hoffset' := byteLength_ofNat hoffset
  have htotal' := byteLength_ofNat htotal
  have hnext' : byteLength (Json.stringify
      (result.nextOffset.elim .null fun next => .num (.ofNat next))) ≤ 16 := by
    cases hcase : result.nextOffset with
    | none => decide
    | some next => exact byteLength_ofNat (hnext next hcase)
  have hend : byteLength [] = 0 := rfl
  simp only [BullMqChunk.wireBytes, BullMqChunk.toJson, Json.stringify, Json.moreFields,
    byteLength_cons, byteLength_append, hencoding, hkeyEncoding, hvalueEncoding, hkeyDigest,
    hkeyOffset, hkeyNext, hkeyTotal, hkeyContent, hopen, hclose, hcolon, hcomma, hend, hdigest',
    hcontent', hdigest]
  simp only [← Nat.add_assoc, Nat.reduceAdd]
  omega

section Requests
variable {V : Type*} {sha : Sha256} {serializeWireJson : V → List Char} {cap : MessageCap}

/-- A buffer holds less than `2 ^ 53` bytes. -/
def FitsBuffer (bytes : List UInt8) : Prop := bytes.length < 2 ^ 53

theorem wireBytes_chunkAt {bytes : List UInt8} (hfits : FitsBuffer bytes) {offset : ℕ}
    (hoffset : offset ≤ bytes.length) : (chunkAt sha cap bytes offset).wireBytes ≤ cap.bytes := by
  have hlower := cap.lower
  unfold FitsBuffer at hfits
  have hslice : ((bytes.take (min bytes.length (offset + chunkStep cap))).drop offset).length ≤
      (cap.bytes - 512) * 3 / 4 := by
    rw [List.length_drop, List.length_take, chunkStep]
    omega
  have hlength : (chunkAt sha cap bytes offset).content.toList.length =
      4 * ((((bytes.take (min bytes.length (offset + chunkStep cap))).drop offset).length + 2) /
        3) := by
    rw [chunkAt, String.toList_ofList, Base64.length_encode]
  have hbound : (chunkAt sha cap bytes offset).wireBytes ≤
      256 + (chunkAt sha cap bytes offset).content.toList.length := wireBytes_le rfl
    (sha.length bytes) (sha.chars bytes) (by simp only [chunkAt]; omega)
    (by
      intro next hnext
      simp only [chunkAt, Option.mem_def, Option.ite_none_right_eq_some, Option.some.injEq] at hnext
      omega)
    (by simp only [chunkAt]; omega)
    (by
      intro c hc
      rw [chunkAt, String.toList_ofList] at hc
      exact Base64.forall_mem_encode plain_of_base64 (by decide) _ c hc)
  omega

/-- The framing error is unreachable. -/
theorem chunk_ne_framing {value : V} (hfits : FitsBuffer (valueBytes serializeWireJson value))
    (request : ChunkRequest) :
    chunk sha serializeWireJson cap value request ≠ .error .framing := by
  unfold chunk
  dsimp only
  split_ifs with hchanged hcontinued houtside hframing
  · simp [resultDigestMismatch]
  · simp
  · simp
  · exact absurd hframing (not_lt.mpr (wireBytes_chunkAt hfits (not_lt.mp houtside)))
  · simp

/-- A request the value answers: its digest is that of the value, or it is the first. -/
structure ChunkAnswered (sha : Sha256) (bytes : List UInt8) (request : ChunkRequest) : Prop where
  digest : request.digest = some (sha.hex bytes) ∨
    request.digest = none ∧ request.offset.getD 0 = 0
  inside : request.offset.getD 0 ≤ bytes.length

theorem hex_ne_empty (sha : Sha256) (bytes : List UInt8) : sha.hex bytes ≠ "" := by
  intro hempty
  have hlength := sha.length bytes
  rw [hempty] at hlength
  cases hlength

theorem ChunkAnswered.valid {bytes : List UInt8} {request : ChunkRequest}
    (h : ChunkAnswered sha bytes request) : request.Valid := by
  intro digest hdigest
  rcases h.digest with hsame | ⟨hnone, -⟩
  · rw [hsame] at hdigest
    cases hdigest
    exact ⟨sha.length bytes, sha.chars bytes⟩
  · rw [hnone] at hdigest
    cases hdigest

theorem ChunkAnswered.chunk {value : V} (hfits : FitsBuffer (valueBytes serializeWireJson value))
    {request : ChunkRequest} (h : ChunkAnswered sha (valueBytes serializeWireJson value) request) :
    chunk sha serializeWireJson cap value request =
      .ok (chunkAt sha cap (valueBytes serializeWireJson value) (request.offset.getD 0)) := by
  have hnotChanged : ¬request.digest.any (fun expected => expected ≠ "" &&
      expected ≠ sha.hex (valueBytes serializeWireJson value)) := by
    rcases h.digest with hsame | ⟨hnone, -⟩
    · simp [hsame]
    · simp [hnone]
  have hnotRequired : ¬(0 < request.offset.getD 0 ∧ ¬request.digest.any (· ≠ "")) := by
    rcases h.digest with hsame | ⟨-, hzero⟩
    · simp [hsame, hex_ne_empty]
    · simp [hzero]
  have hinside := not_lt.mpr h.inside
  have hframing : ¬cap.bytes < (chunkAt sha cap (valueBytes serializeWireJson value)
      (request.offset.getD 0)).wireBytes := not_lt.mpr (wireBytes_chunkAt hfits h.inside)
  unfold Skein.chunk
  dsimp only
  rw [if_neg hnotChanged, if_neg hnotRequired, if_neg hinside]
  exact if_neg hframing

/-- A request with the digest of other bytes is refused. -/
theorem chunk_changed {value : V} {digest : String} {offset : Option ℕ} (hdigest : digest ≠ "")
    (hchanged : digest ≠ sha.hex (valueBytes serializeWireJson value)) :
    chunk sha serializeWireJson cap value ⟨offset, some digest⟩ =
      .error resultDigestMismatch := by
  unfold Skein.chunk
  exact if_pos (by simp [hdigest, hchanged])

theorem chunkStep_pos (cap : MessageCap) : 0 < chunkStep cap := by
  have hlower := cap.lower
  unfold chunkStep
  omega

theorem decode_chunkAt (sha : Sha256) (cap : MessageCap) (bytes : List UInt8) (offset : ℕ) :
    Base64.decode (chunkAt sha cap bytes offset).content.toList =
      some ((bytes.take (min bytes.length (offset + chunkStep cap))).drop offset) := by
  rw [chunkAt, String.toList_ofList, Base64.decode_encode]

/-- An answered request whose chunk has a successor. -/
theorem ChunkAnswered.retrieve_more {reads : ℕ → V} {i : ℕ}
    (hfits : FitsBuffer (valueBytes serializeWireJson (reads i))) {request : ChunkRequest}
    (h : ChunkAnswered sha (valueBytes serializeWireJson (reads i)) request)
    (hmore : request.offset.getD 0 + chunkStep cap <
      (valueBytes serializeWireJson (reads i)).length) (fuel : ℕ) :
    retrieve sha serializeWireJson cap reads (fuel + 1) i request =
      (retrieve sha serializeWireJson cap reads fuel (i + 1)
        ⟨some (request.offset.getD 0 + chunkStep cap),
          some (sha.hex (valueBytes serializeWireJson (reads i)))⟩).map fun rest =>
        rest.map (chunkAt sha cap (valueBytes serializeWireJson (reads i))
          (request.offset.getD 0) :: ·) := by
  have hstop := Nat.min_eq_right hmore.le
  have hnext : (chunkAt sha cap (valueBytes serializeWireJson (reads i))
      (request.offset.getD 0)).nextOffset = some (request.offset.getD 0 + chunkStep cap) := by
    rw [chunkAt, hstop]
    exact if_pos hmore
  rw [retrieve, if_pos h.valid, h.chunk hfits]
  dsimp only
  rw [hnext]
  rfl

/-- An answered request whose chunk is the last. -/
theorem ChunkAnswered.retrieve_last {reads : ℕ → V} {i : ℕ}
    (hfits : FitsBuffer (valueBytes serializeWireJson (reads i))) {request : ChunkRequest}
    (h : ChunkAnswered sha (valueBytes serializeWireJson (reads i)) request)
    (hlast : (valueBytes serializeWireJson (reads i)).length ≤
      request.offset.getD 0 + chunkStep cap) (fuel : ℕ) :
    retrieve sha serializeWireJson cap reads (fuel + 1) i request =
      some (.ok [chunkAt sha cap (valueBytes serializeWireJson (reads i))
        (request.offset.getD 0)]) := by
  have hnext : (chunkAt sha cap (valueBytes serializeWireJson (reads i))
      (request.offset.getD 0)).nextOffset = none := by
    rw [chunkAt, Nat.min_eq_left hlast]
    exact if_neg (lt_irrefl _)
  rw [retrieve, if_pos h.valid, h.chunk hfits]
  dsimp only
  rw [hnext]

/-- A request with the digest of other bytes ends the retrieval. -/
theorem retrieve_changed {reads : ℕ → V} {i : ℕ} {bytes : List UInt8} (offset : Option ℕ)
    (hchanged : sha.hex bytes ≠ sha.hex (valueBytes serializeWireJson (reads i))) (fuel : ℕ) :
    retrieve sha serializeWireJson cap reads (fuel + 1) i ⟨offset, some (sha.hex bytes)⟩ =
      some (.error resultDigestMismatch) := by
  have hvalid : (⟨offset, some (sha.hex bytes)⟩ : ChunkRequest).Valid := by
    rintro digest ⟨⟩
    exact ⟨sha.length bytes, sha.chars bytes⟩
  rw [retrieve, if_pos hvalid, chunk_changed (hex_ne_empty sha bytes) hchanged]

/-- A slice, and what comes after it. -/
theorem slice_append_drop {bytes : List UInt8} {offset stop : ℕ} (h : offset ≤ stop) :
    (bytes.take stop).drop offset ++ bytes.drop stop = bytes.drop offset := by
  calc (bytes.take stop).drop offset ++ bytes.drop stop
      = (bytes.drop offset).take (stop - offset) ++ (bytes.drop offset).drop (stop - offset) := by
        rw [List.drop_take, List.drop_drop, Nat.add_sub_cancel' h]
    _ = bytes.drop offset := List.take_append_drop _ _

/-- What a retrieval from the `i`-th request on comes to, where the value has been the one of
`bytes` so far: the rest of the bytes, if the value stays the same, or a refusal at the first
read that finds another one. -/
inductive Retrieved (sha : Sha256) (cap : MessageCap) (readBytes : ℕ → List UInt8)
    (bytes rest : List UInt8) (i : ℕ) : Option (Except ChunkError (List BullMqChunk)) → Prop
  | complete (chunks : List BullMqChunk) (hcontents : decodedContents chunks = some rest)
      (hsizes : ∀ result ∈ chunks, result.wireBytes ≤ cap.bytes)
      (hsame : ∀ k < chunks.length, readBytes (i + k) = bytes) :
      Retrieved sha cap readBytes bytes rest i (some (.ok chunks))
  | refused (j : ℕ) (hsame : ∀ k < j, readBytes (i + k) = bytes)
      (hchanged : readBytes (i + j) ≠ bytes) :
      Retrieved sha cap readBytes bytes rest i (some (.error resultDigestMismatch))

variable {readBytes : ℕ → List UInt8} {bytes rest : List UInt8} {i : ℕ}

/-- One more chunk in front. -/
theorem Retrieved.cons {outcome : Option (Except ChunkError (List BullMqChunk))}
    (h : Retrieved sha cap readBytes bytes rest (i + 1) outcome) {result : BullMqChunk}
    {slice : List UInt8} (hsame : readBytes i = bytes)
    (hslice : Base64.decode result.content.toList = some slice)
    (hsize : result.wireBytes ≤ cap.bytes) :
    Retrieved sha cap readBytes bytes (slice ++ rest) i
      (outcome.map fun chunks => chunks.map (result :: ·)) := by
  have hshift : ∀ {n : ℕ}, (∀ k < n, readBytes (i + 1 + k) = bytes) →
      ∀ k < n + 1, readBytes (i + k) = bytes := by
    intro n hlater k hk
    cases k with
    | zero => exact hsame
    | succ k =>
      have hread := hlater k (by omega)
      rwa [Nat.add_right_comm] at hread
  cases h with
  | complete chunks hcontents hsizes hlater =>
    refine .complete (result :: chunks) ?_ ?_ (hshift hlater)
    · simp only [decodedContents, hslice, hcontents, Option.bind_some, Option.map_some]
    · intro other hother
      rcases List.mem_cons.mp hother with rfl | hmem
      · exact hsize
      · exact hsizes other hmem
  | refused j hlater hchanged =>
    refine .refused (j + 1) (hshift hlater) ?_
    rwa [Nat.add_right_comm] at hchanged

/-- A retrieval from some request on, whose digest is that of `bytes`, or which is the first and
finds them. -/
theorem retrieve_from {reads : ℕ → V}
    (hfits : ∀ i, FitsBuffer (valueBytes serializeWireJson (reads i)))
    (hdigests : ∀ i, sha.hex (valueBytes serializeWireJson (reads i)) = sha.hex bytes →
      valueBytes serializeWireJson (reads i) = bytes) (fuel i : ℕ) (request : ChunkRequest)
    (hinside : request.offset.getD 0 ≤ bytes.length)
    (hdigest : request.digest = some (sha.hex bytes) ∨ request.digest = none ∧
      request.offset.getD 0 = 0 ∧ valueBytes serializeWireJson (reads i) = bytes)
    (hfuel : bytes.length - request.offset.getD 0 < fuel) :
    Retrieved sha cap (fun i => valueBytes serializeWireJson (reads i)) bytes
      (bytes.drop (request.offset.getD 0)) i
      (retrieve sha serializeWireJson cap reads fuel i request) := by
  induction fuel generalizing i request with
  | zero => omega
  | succ fuel ih =>
    by_cases hsame : valueBytes serializeWireJson (reads i) = bytes
    · have hanswered : ChunkAnswered sha (valueBytes serializeWireJson (reads i)) request := by
        rw [hsame]
        exact ⟨hdigest.imp_right fun h => ⟨h.1, h.2.1⟩, hinside⟩
      have hsize : (chunkAt sha cap bytes (request.offset.getD 0)).wireBytes ≤ cap.bytes :=
        wireBytes_chunkAt (hsame ▸ hfits i) hinside
      have hslice := decode_chunkAt sha cap bytes (request.offset.getD 0)
      have hstep := chunkStep_pos cap
      by_cases hmore : request.offset.getD 0 + chunkStep cap < bytes.length
      · have hleft : bytes.length - (request.offset.getD 0 + chunkStep cap) < fuel := by omega
        have hrest := ih (i + 1)
          ⟨some (request.offset.getD 0 + chunkStep cap), some (sha.hex bytes)⟩
          hmore.le (.inl rfl) hleft
        rw [Nat.min_eq_right hmore.le] at hslice
        have hwhole := hrest.cons hsame hslice hsize
        rw [Option.getD_some, slice_append_drop (by omega)] at hwhole
        rw [hanswered.retrieve_more (hfits i) (hsame ▸ hmore), hsame]
        exact hwhole
      · rw [Nat.min_eq_left (not_lt.mp hmore), List.take_length] at hslice
        rw [hanswered.retrieve_last (hfits i) (hsame ▸ not_lt.mp hmore), hsame]
        refine .complete [_] ?_ (by simpa using hsize) ?_
        · simp only [decodedContents, hslice, Option.bind_some, Option.map_some, List.append_nil]
        · intro k hk
          rw [List.length_singleton, Nat.lt_one_iff] at hk
          rw [hk]
          exact hsame
    · have hasked : request.digest = some (sha.hex bytes) :=
        hdigest.resolve_right fun h => hsame h.2.2
      have hother : sha.hex bytes ≠ sha.hex (valueBytes serializeWireJson (reads i)) :=
        fun h => hsame (hdigests i h.symm)
      obtain ⟨offset, digest⟩ := request
      cases hasked
      rw [retrieve_changed offset hother]
      exact .refused 0 (fun k hk => absurd hk (Nat.not_lt_zero k)) hsame

variable (sha cap) in
/-- A retrieval from the first request on. -/
theorem retrieve_first {reads : ℕ → V} {offset : Option ℕ} {fuel : ℕ}
    (hfits : ∀ i, FitsBuffer (valueBytes serializeWireJson (reads i)))
    (hdigests : ∀ i, sha.hex (valueBytes serializeWireJson (reads i)) =
        sha.hex (valueBytes serializeWireJson (reads 0)) →
      valueBytes serializeWireJson (reads i) = valueBytes serializeWireJson (reads 0))
    (hoffset : offset.getD 0 = 0)
    (hfuel : (valueBytes serializeWireJson (reads 0)).length < fuel) :
    (∃ chunks, retrieve sha serializeWireJson cap reads fuel 0 ⟨offset, none⟩ = some (.ok chunks) ∧
      decodedContents chunks = some (valueBytes serializeWireJson (reads 0)) ∧
      (∀ result ∈ chunks, result.wireBytes ≤ cap.bytes) ∧
      ∀ i < chunks.length,
        valueBytes serializeWireJson (reads i) = valueBytes serializeWireJson (reads 0)) ∨
    ∃ i, valueBytes serializeWireJson (reads i) ≠ valueBytes serializeWireJson (reads 0) ∧
      (∀ j < i, valueBytes serializeWireJson (reads j) =
        valueBytes serializeWireJson (reads 0)) ∧
      retrieve sha serializeWireJson cap reads fuel 0 ⟨offset, none⟩ =
        some (.error resultDigestMismatch) := by
  have hinside : offset.getD 0 ≤ (valueBytes serializeWireJson (reads 0)).length := by
    rw [hoffset]
    exact Nat.zero_le _
  have hleft : (valueBytes serializeWireJson (reads 0)).length - offset.getD 0 < fuel := by
    rw [hoffset]
    exact hfuel
  have hall : Retrieved sha cap (fun i => valueBytes serializeWireJson (reads i))
      (valueBytes serializeWireJson (reads 0))
      ((valueBytes serializeWireJson (reads 0)).drop (offset.getD 0)) 0
      (retrieve sha serializeWireJson cap reads fuel 0 ⟨offset, none⟩) :=
    retrieve_from hfits hdigests fuel 0 ⟨offset, none⟩ hinside (.inr ⟨rfl, hoffset, rfl⟩) hleft
  rw [hoffset, List.drop_zero] at hall
  generalize retrieve sha serializeWireJson cap reads fuel 0 ⟨offset, none⟩ = outcome at hall ⊢
  cases hall with
  | complete chunks hcontents hsizes hsame =>
    exact .inl ⟨chunks, rfl, hcontents, hsizes, by simpa using hsame⟩
  | refused j hsame hchanged =>
    exact .inr ⟨j, by simpa using hchanged, by simpa using hsame, rfl⟩

end Requests

namespace BullMqChunk

/-- An array of nulls, whose text has `5 * n + 1` bytes. -/
def nulls (n : ℕ) : Json := .arr (List.replicate n .null)

def hundredDigest : String := "8dc04e3207f48ae3e8cbc228c61c12bcd1a489f214b10a715eaf41823d00b945"

def otherDigest : String := "98d8ea74e4af0d2f7d3a6f9d92b0c3798cc3229eebd4cb02286d5702ee641be8"

theorem forall_mem_digestChars {digest : String}
    (h : digest.toList.all (digestChars.contains ·) = true) :
    ∀ c ∈ digest.toList, c ∈ digestChars := fun c hc =>
  List.contains_iff_mem.mp (List.all_eq_true.mp h c hc)

/-- The digests of a hundred nulls and of a hundred and one. -/
def nullsSha : Sha256 where
  hex bytes := if bytes.length = 501 then hundredDigest else otherDigest
  length bytes := by split_ifs <;> decide +kernel
  chars bytes := by
    split_ifs
    · exact forall_mem_digestChars (by decide +kernel)
    · exact forall_mem_digestChars (by decide +kernel)

def smallestCap : MessageCap := ⟨1024, by decide, by decide⟩

/-- The array grows after the first read. -/
def grownReads (i : ℕ) : Json := nulls (if i = 0 then 100 else 101)

theorem length_hundredNulls : (valueBytes Json.stringify (nulls 100)).length = 501 := by
  decide +kernel

theorem length_moreNulls : (valueBytes Json.stringify (nulls 101)).length = 506 := by
  decide +kernel

theorem nullsSha_hundred {bytes : List UInt8} (h : bytes.length = 501) :
    nullsSha.hex bytes = hundredDigest := if_pos h

theorem nullsSha_other {bytes : List UInt8} (h : bytes.length ≠ 501) :
    nullsSha.hex bytes = otherDigest := if_neg h

/-- The first chunk of a hundred nulls leaves 117 bytes to the second. -/
theorem retrieve_hundredNulls {reads : ℕ → Json} (hreads : ∀ i, reads i = nulls 100) :
    retrieve nullsSha Json.stringify smallestCap reads 502 0 ⟨none, none⟩ =
      some (.ok [chunkAt nullsSha smallestCap (valueBytes Json.stringify (nulls 100)) 0,
        chunkAt nullsSha smallestCap (valueBytes Json.stringify (nulls 100)) 384]) := by
  have hlength : ∀ i, (valueBytes Json.stringify (reads i)).length = 501 := fun i => by
    rw [hreads, length_hundredNulls]
  have hfits : ∀ i, FitsBuffer (valueBytes Json.stringify (reads i)) := fun i => by
    rw [FitsBuffer, hlength]
    decide
  have hfirst : ChunkAnswered nullsSha (valueBytes Json.stringify (reads 0)) ⟨none, none⟩ :=
    ⟨.inr ⟨rfl, rfl⟩, Nat.zero_le _⟩
  have hsecond : ChunkAnswered nullsSha (valueBytes Json.stringify (reads 1))
      ⟨some 384, some (nullsSha.hex (valueBytes Json.stringify (reads 1)))⟩ :=
    ⟨.inl rfl, by rw [hlength]; exact (by decide : 384 ≤ 501)⟩
  have hstop : 501 ≤ 384 + chunkStep smallestCap := by decide
  have hlast : retrieve nullsSha Json.stringify smallestCap reads 501 1 _ = _ :=
    hsecond.retrieve_last (hfits 1) (by rw [hlength]; exact hstop) 500
  rw [hfirst.retrieve_more (hfits 0) (by rw [hlength]; decide) 501]
  rw [hreads] at hlast ⊢
  exact congrArg (Option.map _) hlast

/-- The second request finds a longer array. -/
theorem retrieve_grownReads :
    retrieve nullsSha Json.stringify smallestCap grownReads 502 0 ⟨none, none⟩ =
      some (.error resultDigestMismatch) := by
  have hlength := length_hundredNulls
  have hfits : FitsBuffer (valueBytes Json.stringify (grownReads 0)) := by
    rw [grownReads, if_pos rfl, FitsBuffer, hlength]
    decide
  have hfirst : ChunkAnswered nullsSha (valueBytes Json.stringify (grownReads 0)) ⟨none, none⟩ :=
    ⟨.inr ⟨rfl, rfl⟩, Nat.zero_le _⟩
  have hmore : 0 + chunkStep smallestCap < (valueBytes Json.stringify (grownReads 0)).length := by
    rw [grownReads, if_pos rfl, hlength]
    decide
  have hchanged : nullsSha.hex (valueBytes Json.stringify (grownReads 0)) ≠
      nullsSha.hex (valueBytes Json.stringify (grownReads 1)) := by
    have hother : (valueBytes Json.stringify (grownReads 1)).length ≠ 501 := by
      rw [grownReads, if_neg (by decide), length_moreNulls]
      decide
    rw [nullsSha_hundred (by rw [grownReads, if_pos rfl, hlength]), nullsSha_other hother]
    decide
  rw [hfirst.retrieve_more hfits hmore 501]
  exact congrArg (Option.map _) (retrieve_changed _ hchanged 500)

end BullMqChunk
end Skein
