import Skein.EncodedText
import Skein.NumberText

/-!
# Signed deliveries

`signDelivery` signs a timestamp and a body as one message, the timestamp spelled as
`String` spells a number, and `verifySkeinSignature` reads the header with a tolerant parser
before it spells the timestamp again. What is hashed is the encoding of the message. A header,
which is Latin-1, is a list of characters; a body and a secret are any strings.
-/
namespace Skein

def hexChars : List Char :=
  ['0', '1', '2', '3', '4', '5', '6', '7', '8', '9', 'a', 'b', 'c', 'd', 'e', 'f']

/-- What the signature relies on of `createHmac("sha256", secret)`, as a function of the
characters that are hashed, and of its hexadecimal digest. -/
structure HmacSha256 where
  hexDigest : JsString → List Char → List Char
  injective : ∀ secret, Function.Injective (hexDigest secret)
  hex : ∀ secret message, ∀ c ∈ hexDigest secret message, c ∈ hexChars
  ne_nil : ∀ secret message, hexDigest secret message ≠ []

inductive SignatureFailure
  | missing | malformed | stale | mismatch
  deriving DecidableEq, Repr

structure VerifySignatureInput where
  header : Option (List Char)
  body : JsString
  secrets : List JsString
  toleranceSeconds : Option Binary64 := none
  nowSeconds : Option Binary64 := none

/-- The characters of the message that is signed, as `update(…, "utf8")` encodes it. -/
def signedMessage (timestampSeconds : Binary64) (body : JsString) : List Char :=
  numberText timestampSeconds ++ '.' :: body.encodedText

/-- `signDelivery`. -/
def signDelivery (hmac : HmacSha256) (secret : JsString) (timestampSeconds : Binary64)
    (body : JsString) : List Char :=
  't' :: '=' :: (numberText timestampSeconds ++
    ',' :: 'v' :: '1' :: '=' :: hmac.hexDigest secret (signedMessage timestampSeconds body))

/-- The variables of `parseHeader`. -/
structure HeaderFields where
  timestampSeconds : Option Binary64 := none
  v1 : Option (List Char) := none

/-- One turn of the loop of `parseHeader`, over a trimmed part. -/
def HeaderFields.read (fields : HeaderFields) (part : List Char) : HeaderFields :=
  match part.splitOn '=' with
  | key :: value :: _ =>
    if value = [] then fields
    else {
      timestampSeconds :=
        if key = ['t'] then (toNumber? value).or fields.timestampSeconds
        else fields.timestampSeconds
      v1 := if key = ['v', '1'] then some value else fields.v1 }
  | _ => fields

structure ParsedHeader where
  timestampSeconds : Binary64
  v1 : List Char

/-- `parseHeader`. -/
def parseHeader (header : List Char) : Option ParsedHeader :=
  let fields := ((header.splitOn ',').map trimText).foldl HeaderFields.read {}
  fields.timestampSeconds.bind fun timestampSeconds =>
    fields.v1.map fun v1 => ⟨timestampSeconds, v1⟩

/-- `DEFAULT_TOLERANCE_SECONDS`. -/
def defaultToleranceSeconds : Binary64 := .ofInt 300 (by norm_num)

/-- `Math.abs(now - timestampSeconds)`; `none` where that overflows. -/
def secondsAway (now timestampSeconds : Binary64) : Option Binary64 :=
  (now.sub? timestampSeconds).map Binary64.abs

/-- `equalsConstantTime`: the two buffers hold the same bytes. -/
def equalsConstantTime (expected actual : List Char) : Bool := expected == actual

/-- `verifySkeinSignature`; `clock` is the current second. -/
def verifySkeinSignature (hmac : HmacSha256) (clock : Binary64) (input : VerifySignatureInput) :
    Except (SignatureFailure × String) Unit :=
  match input.header.filter (· ≠ []) with
  | none => .error (.missing, "no X-Skein-Signature header")
  | some header =>
    match parseHeader header with
    | none => .error (.malformed,
        "X-Skein-Signature is not of the form \"t=…,v1=…\" (got \"" ++ String.ofList header ++
          "\")")
    | some parsed =>
      let now := input.nowSeconds.getD clock
      let tolerance := input.toleranceSeconds.getD defaultToleranceSeconds
      let away := secondsAway now parsed.timestampSeconds
      if away.all (fun seconds => tolerance.value < seconds.value) then
        .error (.stale, "callback timestamp is " ++
          away.elim "Infinity" (fun seconds => String.ofList (numberText seconds)) ++
          "s away from now, outside the " ++ String.ofList (numberText tolerance) ++
          "s tolerance")
      else if input.secrets.any (fun secret => equalsConstantTime
          (hmac.hexDigest secret (signedMessage parsed.timestampSeconds input.body)) parsed.v1) then
        .ok ()
      else .error (.mismatch, "signature does not match the body")

variable {hmac : HmacSha256} {secret body : JsString} {timestampSeconds : Binary64}

theorem hexDigest_char (hmac : HmacSha256) (secret : JsString) (message : List Char) :
    ∀ c ∈ hmac.hexDigest secret message, isBlankChar c = false ∧ c ≠ ',' ∧ c ≠ '=' := by
  have hall : hexChars.all (fun c => !isBlankChar c && c ≠ ',' && c ≠ '=') = true := by decide
  intro c hc
  have hchar := List.all_eq_true.mp hall c (hmac.hex secret message c hc)
  simpa [and_assoc] using hchar

theorem numberText_char (x : Binary64) :
    ∀ c ∈ numberText x, isBlankChar c = false ∧ c ≠ ',' ∧ c ≠ '=' := by
  intro c hc
  have hnumeric := isNumericChar_numberText x c hc
  refine ⟨isBlankChar_of_isNumericChar hnumeric, ?_, ?_⟩
  · rintro rfl
    revert hnumeric
    decide
  · rintro rfl
    revert hnumeric
    decide

/-- A field is read as its key and its value. -/
theorem splitOn_field {key value : List Char} (hkey : '=' ∉ key) (hvalue : '=' ∉ value) :
    (key ++ '=' :: value).splitOn '=' = [key, value] := by
  rw [List.splitOn_append_cons_self, List.splitOn_eq_singleton hkey,
    List.splitOn_eq_singleton hvalue]
  rfl

/-- The parser reads back what was signed. -/
theorem parseHeader_signDelivery (hmac : HmacSha256) (secret : JsString)
    (timestampSeconds : Binary64) (body : JsString) :
    parseHeader (signDelivery hmac secret timestampSeconds body) =
      some ⟨timestampSeconds, hmac.hexDigest secret (signedMessage timestampSeconds body)⟩ := by
  obtain ⟨digest, hdigest⟩ : ∃ digest,
      digest = hmac.hexDigest secret (signedMessage timestampSeconds body) := ⟨_, rfl⟩
  have hchars := hexDigest_char hmac secret (signedMessage timestampSeconds body)
  have hne := hmac.ne_nil secret (signedMessage timestampSeconds body)
  rw [← hdigest] at hchars hne
  have htext := numberText_char timestampSeconds
  have hparts : (signDelivery hmac secret timestampSeconds body).splitOn ',' =
      [['t'] ++ '=' :: numberText timestampSeconds, ['v', '1'] ++ '=' :: digest] := by
    have hfirst : ',' ∉ ['t'] ++ '=' :: numberText timestampSeconds := by
      simp only [List.mem_append, List.mem_cons, List.not_mem_nil, or_false, not_or]
      exact ⟨by decide, by decide, fun hmem => (htext _ hmem).2.1 rfl⟩
    have hsecond : ',' ∉ ['v', '1'] ++ '=' :: digest := by
      simp only [List.mem_append, List.mem_cons, List.not_mem_nil, or_false, not_or]
      exact ⟨⟨by decide, by decide⟩, by decide, fun hmem => (hchars _ hmem).2.1 rfl⟩
    have hjoined : signDelivery hmac secret timestampSeconds body =
        (['t'] ++ '=' :: numberText timestampSeconds) ++ ',' :: (['v', '1'] ++ '=' :: digest) := by
      rw [hdigest]
      rfl
    rw [hjoined, List.splitOn_append_cons_self, List.splitOn_eq_singleton hfirst,
      List.splitOn_eq_singleton hsecond]
    rfl
  have htrimFirst : trimText (['t'] ++ '=' :: numberText timestampSeconds) =
      ['t'] ++ '=' :: numberText timestampSeconds := by
    apply trimText_eq
    intro c hc
    simp only [List.mem_append, List.mem_cons, List.not_mem_nil, or_false] at hc
    rcases hc with rfl | rfl | hc
    · rfl
    · rfl
    · exact (htext c hc).1
  have htrimSecond : trimText (['v', '1'] ++ '=' :: digest) = ['v', '1'] ++ '=' :: digest := by
    apply trimText_eq
    intro c hc
    simp only [List.mem_append, List.mem_cons, List.not_mem_nil, or_false] at hc
    rcases hc with (rfl | rfl) | rfl | hc
    · rfl
    · rfl
    · rfl
    · exact (hchars c hc).1
  have hreadFirst : HeaderFields.read {} (['t'] ++ '=' :: numberText timestampSeconds) =
      { timestampSeconds := some timestampSeconds } := by
    rw [HeaderFields.read, splitOn_field (by decide) fun hmem => (htext _ hmem).2.2 rfl]
    simp [numberText_ne_nil, toNumber?_numberText]
  have hreadSecond : HeaderFields.read { timestampSeconds := some timestampSeconds }
      (['v', '1'] ++ '=' :: digest) = ⟨some timestampSeconds, some digest⟩ := by
    rw [HeaderFields.read, splitOn_field (by decide) fun hmem => (hchars _ hmem).2.2 rfl]
    simp [hne]
  simp only [parseHeader, hparts, List.map_cons, List.map_nil, List.foldl_cons, List.foldl_nil,
    htrimFirst, htrimSecond, hreadFirst, hreadSecond, Option.bind_some, Option.map_some]
  rw [hdigest]

/-- The timestamp is no further from now than the tolerance. -/
def WithinTolerance (now timestampSeconds tolerance : Binary64) : Prop :=
  ∃ seconds, secondsAway now timestampSeconds = some seconds ∧ seconds.value ≤ tolerance.value

/-- What an accepted header says. -/
theorem verifySkeinSignature_ok_iff {clock : Binary64} {input : VerifySignatureInput} :
    verifySkeinSignature hmac clock input = .ok () ↔
      ∃ header parsed, input.header = some header ∧ header ≠ [] ∧
        parseHeader header = some parsed ∧
        WithinTolerance (input.nowSeconds.getD clock) parsed.timestampSeconds
          (input.toleranceSeconds.getD defaultToleranceSeconds) ∧
        ∃ secret ∈ input.secrets,
          hmac.hexDigest secret (signedMessage parsed.timestampSeconds input.body) = parsed.v1 := by
  unfold verifySkeinSignature WithinTolerance
  cases hheader : input.header.filter (· ≠ []) with
  | none =>
    refine iff_of_false (by simp) ?_
    rintro ⟨header, parsed, hsome, hne, -⟩
    simp [hsome, hne] at hheader
  | some header =>
    obtain ⟨hsome, hne⟩ := Option.filter_eq_some_iff.mp hheader
    have hne : header ≠ [] := by simpa using hne
    dsimp only
    cases hparsed : parseHeader header with
    | none =>
      refine iff_of_false (by simp) ?_
      rintro ⟨header', parsed, hsome', -, hparsed', -⟩
      rw [hsome] at hsome'
      cases hsome'
      rw [hparsed] at hparsed'
      cases hparsed'
    | some parsed =>
      dsimp only
      have hall : (∃ header' parsed', input.header = some header' ∧ header' ≠ [] ∧
          parseHeader header' = some parsed' ∧
          (∃ seconds, secondsAway (input.nowSeconds.getD clock) parsed'.timestampSeconds =
            some seconds ∧ seconds.value ≤
              (input.toleranceSeconds.getD defaultToleranceSeconds).value) ∧
          ∃ secret ∈ input.secrets, hmac.hexDigest secret
            (signedMessage parsed'.timestampSeconds input.body) = parsed'.v1) ↔
          (∃ seconds, secondsAway (input.nowSeconds.getD clock) parsed.timestampSeconds =
            some seconds ∧ seconds.value ≤
              (input.toleranceSeconds.getD defaultToleranceSeconds).value) ∧
          ∃ secret ∈ input.secrets, hmac.hexDigest secret
            (signedMessage parsed.timestampSeconds input.body) = parsed.v1 := by
        constructor
        · rintro ⟨header', parsed', hsome', -, hparsed', hrest⟩
          rw [hsome] at hsome'
          cases hsome'
          rw [hparsed] at hparsed'
          cases hparsed'
          exact hrest
        · exact fun hrest => ⟨header, parsed, hsome, hne, hparsed, hrest⟩
      rw [hall]
      cases haway : secondsAway (input.nowSeconds.getD clock) parsed.timestampSeconds with
      | none => simp
      | some seconds =>
        by_cases hstale : (input.toleranceSeconds.getD defaultToleranceSeconds).value <
            seconds.value
        · simp [hstale]
        · simp [hstale, equalsConstantTime, not_lt.mp hstale]

/-- A signed delivery is accepted while its timestamp is close enough. -/
theorem signDelivery_accepted_iff (clock : Binary64) {secrets : List JsString}
    (hsecret : secret ∈ secrets) (tolerance now : Option Binary64) :
    verifySkeinSignature hmac clock
        ⟨some (signDelivery hmac secret timestampSeconds body), body, secrets, tolerance, now⟩ =
          .ok () ↔
      WithinTolerance (now.getD clock) timestampSeconds
        (tolerance.getD defaultToleranceSeconds) := by
  rw [verifySkeinSignature_ok_iff]
  constructor
  · rintro ⟨header, parsed, hheader, -, hparsed, hwithin, -⟩
    cases hheader
    rw [parseHeader_signDelivery] at hparsed
    cases hparsed
    exact hwithin
  · intro hwithin
    exact ⟨_, _, rfl, by simp [signDelivery], parseHeader_signDelivery _ _ _ _, hwithin, secret,
      hsecret, rfl⟩

/-- The signature binds its timestamp and its body, and the signed delivery is accepted
exactly in time. -/
structure Binds (hmac : HmacSha256) (secret : JsString) (timestampSeconds : Binary64)
    (body : JsString) : Prop where
  sound : ∀ (clock : Binary64) (header : List Char) (body' : JsString)
    (tolerance now : Option Binary64) (parsed : ParsedHeader),
    verifySkeinSignature hmac clock ⟨some header, body', [secret], tolerance, now⟩ = .ok () →
      parseHeader header = some parsed →
      parsed.v1 = hmac.hexDigest secret (signedMessage timestampSeconds body) →
      parsed.timestampSeconds = timestampSeconds ∧ body' = body
  complete : ∀ n : ℕ, timestampSeconds.value = n → ∀ (clock : Binary64)
    (secrets : List JsString), secret ∈ secrets → ∀ tolerance now : Option Binary64,
    verifySkeinSignature hmac clock
        ⟨some (signDelivery hmac secret timestampSeconds body), body, secrets, tolerance, now⟩ =
          .ok () ↔
      WithinTolerance (now.getD clock) timestampSeconds (tolerance.getD defaultToleranceSeconds)

/-- No other number, spelled out before a point, begins the signed message. -/
def Unambiguous (timestampSeconds : Binary64) (body : JsString) : Prop :=
  ∀ other : Binary64, numberText other ++ ['.'] <+: signedMessage timestampSeconds body →
    other = timestampSeconds

theorem withinTolerance_self (now : Binary64) : WithinTolerance now now Binary64.zero := by
  have hzero : secondsAway now now = some Binary64.zero := by
    have hsub : now.sub? now = some Binary64.zero := by
      rw [Binary64.sub?, sub_self]
      exact Binary64.ofRat?_value Binary64.zero
    rw [secondsAway, hsub, Option.map_some]
    exact congrArg some (Binary64.ext abs_zero)
  exact ⟨Binary64.zero, hzero, le_rfl⟩

/-- A signature binds its timestamp and body exactly when the message has one reading, and the
body the only encoding that it has. -/
theorem binds_iff (hmac : HmacSha256) (secret : JsString) (timestampSeconds : Binary64)
    (body : JsString) : Binds hmac secret timestampSeconds body ↔
      Unambiguous timestampSeconds body ∧ body.IsLegible := by
  constructor
  · intro hbinds
    have hsame : ∀ other body', signedMessage other body' = signedMessage timestampSeconds body →
        other = timestampSeconds ∧ body' = body := by
      intro other body' hmessage
      refine hbinds.sound other (signDelivery hmac secret other body') body' (some Binary64.zero)
        none ⟨other, hmac.hexDigest secret (signedMessage other body')⟩ ?_
        (parseHeader_signDelivery _ _ _ _) (by rw [hmessage])
      exact (signDelivery_accepted_iff other List.mem_cons_self _ _).mpr
        (withinTolerance_self other)
    constructor
    · rintro other ⟨text, hmessage⟩
      have htext : (JsString.ofChars text).encodedText = text := by
        simpa [JsString.encodedText] using JsString.encodedText_ofChars text []
      refine (hsame other (JsString.ofChars text) ?_).1
      rw [← hmessage, signedMessage, htext, List.append_assoc]
      rfl
    · refine JsString.isLegible_iff.mpr fun other hother => (hsame timestampSeconds other ?_).2
      rw [signedMessage, signedMessage, hother]
  · rintro ⟨honly, hlegible⟩
    refine ⟨?_, fun n _ clock secrets hsecret tolerance now =>
      signDelivery_accepted_iff clock hsecret tolerance now⟩
    intro clock header body' tolerance now parsed hok hparsed hv1
    obtain ⟨header', parsed', hheader, -, hparsed', -, used, hused, hdigest⟩ :=
      verifySkeinSignature_ok_iff.mp hok
    cases hheader
    rw [hparsed] at hparsed'
    cases hparsed'
    rw [List.mem_singleton.mp hused, hv1] at hdigest
    have hmessage : signedMessage parsed.timestampSeconds body' =
        signedMessage timestampSeconds body := hmac.injective secret hdigest
    have htime : parsed.timestampSeconds = timestampSeconds := by
      refine honly _ ⟨body'.encodedText, ?_⟩
      rw [← hmessage, signedMessage, List.append_assoc]
      rfl
    refine ⟨htime, ?_⟩
    rw [htime] at hmessage
    exact JsString.isLegible_iff.mp hlegible body'
      (List.cons.inj (List.append_cancel_left hmessage)).2

/-- What the engine signs has one reading: whole seconds before a JSON object. -/
theorem unambiguous_of_head {n : ℕ} (htime : timestampSeconds.value = n) (hn : n < 10 ^ 21)
    (hbody : ∀ c ∈ body.encodedText.head?, c.isDigit = false) : Unambiguous timestampSeconds body := by
  intro other hother
  have hdigits := isDigit_numberText htime hn
  have hpoint : '.' ∉ numberText timestampSeconds := point_notMem_digits hdigits
  have hself : numberText timestampSeconds ++ ['.'] <+: signedMessage timestampSeconds body :=
    ⟨body.encodedText, by simp [signedMessage]⟩
  rcases List.prefix_or_prefix_of_prefix hother hself with ⟨rest, hrest⟩ | ⟨rest, hrest⟩
  · cases rest using List.reverseRecOn with
    | nil =>
      rw [List.append_nil] at hrest
      exact numberText_injective (List.append_cancel_right hrest)
    | append_singleton rest c =>
      rw [← List.append_assoc] at hrest
      have hinner := (List.append_inj' hrest rfl).1
      exact absurd (by rw [← hinner]; simp) hpoint
  · cases rest using List.reverseRecOn with
    | nil =>
      rw [List.append_nil] at hrest
      exact (numberText_injective (List.append_cancel_right hrest)).symm
    | append_singleton rest c =>
      rw [← List.append_assoc] at hrest
      have hinner := (List.append_inj' hrest rfl).1
      obtain ⟨d, more, hmore, hd⟩ := numberText_point other
        (u := numberText timestampSeconds) (v := rest) (by rw [← hinner]; simp)
      obtain ⟨tail, htail⟩ := hother
      have hhead : body.encodedText.head? = some d := by
        have hmessage : numberText timestampSeconds ++ '.' :: (rest ++ '.' :: tail) =
            numberText timestampSeconds ++ '.' :: body.encodedText := by
          rw [← hinner] at htail
          simpa [signedMessage] using htail
        have htails := (List.cons.inj (List.append_cancel_left hmessage)).2
        rw [← htails, hmore]
        rfl
      rw [hbody d hhead] at hd
      cases hd

/-- A digest that spells every character out. -/
def spelledDigest (message : List Char) : List Char :=
  'f' :: message.flatMap fun c => List.replicate c.toNat '0' ++ ['1']

theorem replicate_cons_inj {m n : ℕ} {a b : List Char}
    (h : List.replicate m '0' ++ '1' :: a = List.replicate n '0' ++ '1' :: b) : m = n ∧ a = b := by
  induction m generalizing n with
  | zero =>
    cases n with
    | zero => exact ⟨rfl, (List.cons.inj h).2⟩
    | succ n => exact absurd (List.cons.inj h).1 (by decide)
  | succ m ih =>
    cases n with
    | zero => exact absurd (List.cons.inj h).1 (by decide)
    | succ n =>
      obtain ⟨hmn, hab⟩ := ih (List.cons.inj h).2
      exact ⟨congrArg (· + 1) hmn, hab⟩

theorem spelledDigest_injective : Function.Injective spelledDigest := by
  have hspell : ∀ a b : List Char,
      (a.flatMap fun c => List.replicate c.toNat '0' ++ ['1']) =
        (b.flatMap fun c => List.replicate c.toNat '0' ++ ['1']) → a = b := by
    intro a
    induction a with
    | nil =>
      intro b h
      cases b with
      | nil => rfl
      | cons d b => simp at h
    | cons c a ih =>
      intro b h
      cases b with
      | nil => simp at h
      | cons d b =>
        simp only [List.flatMap_cons, List.append_assoc, List.singleton_append] at h
        obtain ⟨hcode, hrest⟩ := replicate_cons_inj h
        rw [Char.toNat_inj.mp hcode, ih b hrest]
  exact fun a b h => hspell a b (List.cons.inj h).2

def spelledHmac : HmacSha256 where
  hexDigest _ := spelledDigest
  injective _ := spelledDigest_injective
  hex _ message c hc := by
    simp only [spelledDigest, List.mem_cons, List.mem_flatMap, List.mem_append,
      List.mem_replicate, List.not_mem_nil, or_false] at hc
    rcases hc with rfl | ⟨d, -, ⟨-, rfl⟩ | rfl⟩ <;> decide
  ne_nil _ _ := by simp [spelledDigest]

def firstSecond : Binary64 := .ofInt 1 (by norm_num)

def secondAndAHalf : Binary64 := ⟨3 / 2, by decide +kernel⟩

/-- The body `5.x` signed in second 1 passes as the body `x`, signed half a second later. -/
theorem movedTimestamp_not_bound :
    ¬ Binds spelledHmac [107] firstSecond [53, 46, 120] := by
  intro hbinds
  have haccepted : verifySkeinSignature spelledHmac Binary64.zero
      ⟨some (signDelivery spelledHmac [107] secondAndAHalf [120]), [120], [[107]],
        some Binary64.zero, some secondAndAHalf⟩ = .ok () :=
    (signDelivery_accepted_iff _ List.mem_cons_self _ _).mpr (withinTolerance_self _)
  have hmessage : signedMessage secondAndAHalf [120] =
      signedMessage firstSecond [53, 46, 120] := by decide +kernel
  have hbound := hbinds.sound _ _ _ _ _ _ haccepted (parseHeader_signDelivery _ _ _ _)
    (congrArg (spelledHmac.hexDigest [107]) hmessage)
  exact absurd hbound.2 (by decide)

end Skein
