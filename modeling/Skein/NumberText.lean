import Mathlib.Data.List.DropRight
import Mathlib.Data.Nat.Prime.Basic
import Skein.Binary64

/-!
# Numbers as text

What `Number(text)` reads and `String(number)` writes, for finite numbers. A number is
written with the fewest digits that read back as it, so reading what was written returns it.
-/
namespace Skein

/-- `WhiteSpace` and `LineTerminator`. -/
def isBlankChar (c : Char) : Bool :=
  [9, 10, 11, 12, 13, 32, 160, 5760, 8232, 8233, 8239, 8287, 12288, 65279].contains c.toNat ||
    (8192 ≤ c.toNat && c.toNat ≤ 8202)

/-- `text.trim()`. -/
def trimText (text : List Char) : List Char := (text.dropWhile isBlankChar).rdropWhile isBlankChar

def digitsValue? (ds : List Char) : Option ℕ :=
  if ds ≠ [] ∧ ds.all Char.isDigit then some (Nat.ofDigitChars 10 ds 0) else none

/-- The exponent of a decimal literal. -/
def exponentValue? : List Char → Option ℤ
  | [] => some 0
  | c :: rest =>
    if c = 'e' ∨ c = 'E' then
      match rest with
      | '+' :: ds => (digitsValue? ds).map fun e : ℕ => (e : ℤ)
      | '-' :: ds => (digitsValue? ds).map fun e : ℕ => -(e : ℤ)
      | ds => (digitsValue? ds).map fun e : ℕ => (e : ℤ)
    else none

/-- The digits after a decimal point, and what follows them. -/
def splitFraction : List Char → List Char × List Char
  | '.' :: rest => (rest.takeWhile Char.isDigit, rest.dropWhile Char.isDigit)
  | rest => ([], rest)

/-- `StrUnsignedDecimalLiteral`, but for `Infinity`. -/
def decimalValue? (text : List Char) : Option ℚ :=
  let whole := text.takeWhile Char.isDigit
  let (fraction, rest) := splitFraction (text.dropWhile Char.isDigit)
  if whole = [] ∧ fraction = [] then none
  else (exponentValue? rest).map fun e : ℤ =>
    (Nat.ofDigitChars 10 (whole ++ fraction) 0 : ℚ) * 10 ^ (e - fraction.length)

/-- The value of a digit of some radix. -/
def digitOf (c : Char) : ℕ :=
  if c.isDigit then c.toNat - 48
  else if 'a' ≤ c ∧ c ≤ 'z' then c.toNat - 87
  else if 'A' ≤ c ∧ c ≤ 'Z' then c.toNat - 55
  else 36

/-- `NonDecimalIntegerLiteral` after its prefix. -/
def radixValue? (radix : ℕ) (ds : List Char) : Option Binary64 :=
  if ds ≠ [] ∧ ds.all (fun c => digitOf c < radix) then
    Binary64.ofRat? (ds.foldl (fun value c => value * radix + digitOf c) 0 : ℕ)
  else none

/-- `Number(text)` where that is finite. -/
def toNumber? (text : List Char) : Option Binary64 :=
  match trimText text with
  | [] => some Binary64.zero
  | '0' :: 'x' :: ds | '0' :: 'X' :: ds => radixValue? 16 ds
  | '0' :: 'o' :: ds | '0' :: 'O' :: ds => radixValue? 8 ds
  | '0' :: 'b' :: ds | '0' :: 'B' :: ds => radixValue? 2 ds
  | '-' :: rest => ((decimalValue? rest).bind Binary64.ofRat?).map Binary64.neg
  | '+' :: rest => (decimalValue? rest).bind Binary64.ofRat?
  | rest => (decimalValue? rest).bind Binary64.ofRat?

/-- The integer of `k` digits closest to `x` scaled by a power of ten that reads back as
`x`, where `10 ^ (n - 1) ≤ x < 10 ^ n`. -/
def closestDigits (x : ℚ) (n : ℤ) (k : ℕ) : Option ℕ :=
  let scaled := x * 10 ^ ((k : ℤ) - n)
  let low := ⌊scaled⌋₊
  let closest :=
    if scaled - low < 1 / 2 ∨ (scaled - low = 1 / 2 ∧ low % 2 = 0) then [low, low + 1]
    else [low + 1, low]
  closest.find? fun s => nearest? (s * 10 ^ (n - k)) = some x

/-- The digits of `x` and the place of its point: as few as possible from `k` on. -/
def shortestDigits (x : ℚ) (n : ℤ) : ℕ → ℕ → Option (ℕ × ℤ)
  | 0, _ => none
  | fuel + 1, k =>
    match closestDigits x n k with
    | some s => some (if s = 10 ^ k then (10 ^ (k - 1), n + 1) else (s, n))
    | none => shortestDigits x n fuel (k + 1)

/-- The exponent of a number whose point stands after its first `n` digits. -/
def exponentText (n : ℤ) : List Char :=
  'e' :: (if 0 < n then '+' else '-') :: Nat.toDigits 10 (n - 1).natAbs

/-- The digits `ds` with the point after the first `n` of them. -/
def layoutDigits (ds : List Char) (n : ℤ) : List Char :=
  if ds.length ≤ n ∧ n ≤ 21 then ds ++ List.replicate (n - ds.length).toNat '0'
  else if 0 < n ∧ n ≤ 21 then ds.take n.toNat ++ '.' :: ds.drop n.toNat
  else if -6 < n ∧ n ≤ 0 then '0' :: '.' :: (List.replicate (-n).toNat '0' ++ ds)
  else if ds.length = 1 then ds ++ exponentText n
  else ds.take 1 ++ '.' :: (ds.drop 1 ++ exponentText n)

/-- A positive number. As many digits as `x` has places are always enough. -/
def positiveText (x : ℚ) : List Char :=
  let n := Int.log 10 x + 1
  match shortestDigits x n ((n + Nat.log 2 x.den).toNat + 1) 1 with
  | some (s, n) => layoutDigits (Nat.toDigits 10 s) n
  | none => []

/-- `String(x)`. -/
def numberText (x : Binary64) : List Char :=
  if x.value = 0 then ['0']
  else if x.value < 0 then '-' :: positiveText (-x.value)
  else positiveText x.value

/-- No digit comes first. -/
def EndsDigits (rest : List Char) : Prop := ∀ c ∈ rest.head?, c.isDigit = false

theorem takeWhile_digits {ds rest : List Char} (hds : ∀ c ∈ ds, c.isDigit = true)
    (hrest : EndsDigits rest) : (ds ++ rest).takeWhile Char.isDigit = ds := by
  rw [List.takeWhile_append_of_pos hds]
  cases rest with
  | nil => simp
  | cons c rest => simp [hrest c rfl]

theorem dropWhile_digits {ds rest : List Char} (hds : ∀ c ∈ ds, c.isDigit = true)
    (hrest : EndsDigits rest) : (ds ++ rest).dropWhile Char.isDigit = rest := by
  rw [List.dropWhile_append_of_pos hds]
  cases rest with
  | nil => rfl
  | cons c rest => simp [hrest c rfl]

theorem digitsValue?_digits {ds : List Char} (hds : ∀ c ∈ ds, c.isDigit = true) (hne : ds ≠ []) :
    digitsValue? ds = some (Nat.ofDigitChars 10 ds 0) := by
  rw [digitsValue?, if_pos ⟨hne, List.all_eq_true.mpr hds⟩]

theorem isDigit_toDigits (n : ℕ) : ∀ c ∈ Nat.toDigits 10 n, c.isDigit = true := fun _ hc =>
  Nat.isDigit_of_mem_toDigits (by decide) (by decide) hc

/-- Digits without a point. -/
theorem decimalValue?_whole (whole rest : List Char) (hwhole : ∀ c ∈ whole, c.isDigit = true)
    (hne : whole ≠ []) (hrest : EndsDigits rest) (hpoint : rest.head? ≠ some '.') :
    decimalValue? (whole ++ rest) =
      (exponentValue? rest).map fun e : ℤ => (Nat.ofDigitChars 10 whole 0 : ℚ) * 10 ^ e := by
  have hsplit : splitFraction rest = ([], rest) := by
    unfold splitFraction
    split
    · exact absurd rfl hpoint
    · rfl
  simp [decimalValue?, takeWhile_digits hwhole hrest, dropWhile_digits hwhole hrest, hsplit, hne]

/-- Digits on both sides of a point. -/
theorem decimalValue?_point (whole fraction rest : List Char)
    (hwhole : ∀ c ∈ whole, c.isDigit = true) (hne : whole ≠ [])
    (hfraction : ∀ c ∈ fraction, c.isDigit = true) (hrest : EndsDigits rest) :
    decimalValue? (whole ++ '.' :: (fraction ++ rest)) =
      (exponentValue? rest).map fun e : ℤ =>
        (Nat.ofDigitChars 10 (whole ++ fraction) 0 : ℚ) * 10 ^ (e - fraction.length) := by
  have hpoint : EndsDigits ('.' :: (fraction ++ rest)) := by
    rintro c ⟨⟩
    rfl
  simp [decimalValue?, takeWhile_digits hwhole hpoint, dropWhile_digits hwhole hpoint,
    splitFraction, takeWhile_digits hfraction hrest, dropWhile_digits hfraction hrest, hne]

theorem exponentValue?_text (n : ℤ) : exponentValue? (exponentText n) = some (n - 1) := by
  have hdigits := digitsValue?_digits (isDigit_toDigits (n - 1).natAbs) Nat.toDigits_ne_nil
  rw [Nat.ofDigitChars_ten_toDigits] at hdigits
  by_cases hn : 0 < n
  · have hmap : exponentValue? (exponentText n) =
        (digitsValue? (Nat.toDigits 10 (n - 1).natAbs)).map fun e : ℕ => (e : ℤ) := by
      rw [exponentText, if_pos hn]
      rfl
    rw [hmap, hdigits, Option.map_some, Int.natAbs_of_nonneg (by omega)]
  · have hmap : exponentValue? (exponentText n) =
        (digitsValue? (Nat.toDigits 10 (n - 1).natAbs)).map fun e : ℕ => -(e : ℤ) := by
      rw [exponentText, if_neg hn]
      rfl
    rw [hmap, hdigits, Option.map_some, Int.ofNat_natAbs_of_nonpos (by omega), neg_neg]

theorem endsDigits_exponentText (n : ℤ) : EndsDigits (exponentText n) := by
  rintro c ⟨⟩
  rfl

theorem layoutDigits_value {ds : List Char} (hds : ∀ c ∈ ds, c.isDigit = true) (hne : ds ≠ [])
    (n : ℤ) : decimalValue? (layoutDigits ds n) =
      some ((Nat.ofDigitChars 10 ds 0 : ℚ) * 10 ^ (n - ds.length)) := by
  have hlength : 0 < ds.length := List.length_pos_iff.mpr hne
  have hzeros : ∀ k, ∀ c ∈ List.replicate k '0', c.isDigit = true := by
    intro k c hc
    rw [List.eq_of_mem_replicate hc]
    rfl
  unfold layoutDigits
  split_ifs with hlong hmiddle hsmall hone
  · have hall : ∀ c ∈ ds ++ List.replicate (n - ds.length).toNat '0', c.isDigit = true := by
      intro c hc
      exact (List.mem_append.mp hc).elim (hds c) (hzeros _ c)
    have hvalue := decimalValue?_whole _ [] hall (by simp [hne])
      (fun c hc => by cases hc) (by simp)
    rw [List.append_nil] at hvalue
    rw [hvalue, Nat.ofDigitChars_append, Nat.ofDigitChars_replicate_zero]
    simp only [exponentValue?, Option.map_some, zpow_zero, mul_one, Nat.cast_mul, Nat.cast_pow,
      Nat.cast_ofNat, Option.some.injEq]
    rw [mul_comm, ← zpow_natCast, Int.toNat_of_nonneg (by omega)]
  · have hvalue := decimalValue?_point (ds.take n.toNat) (ds.drop n.toNat) []
      (fun c hc => hds c (List.mem_of_mem_take hc))
      (by simp only [ne_eq, List.take_eq_nil_iff, not_or]; exact ⟨by omega, hne⟩)
      (fun c hc => hds c (List.mem_of_mem_drop hc)) (fun c hc => by cases hc)
    rw [List.append_nil] at hvalue
    rw [hvalue, List.take_append_drop]
    simp only [exponentValue?, Option.map_some, List.length_drop]
    rw [show (0 : ℤ) - (ds.length - n.toNat : ℕ) = n - ds.length by omega]
  · have hvalue := decimalValue?_point ['0'] (List.replicate (-n).toNat '0' ++ ds) []
      (by simp) (by simp)
      (by
        intro c hc
        exact (List.mem_append.mp hc).elim (hzeros _ c) (hds c)) (fun c hc => by cases hc)
    rw [List.append_nil] at hvalue
    rw [show '0' :: '.' :: (List.replicate (-n).toNat '0' ++ ds) =
      ['0'] ++ '.' :: (List.replicate (-n).toNat '0' ++ ds) from rfl, hvalue,
      Nat.ofDigitChars_append, Nat.ofDigitChars_append, Nat.ofDigitChars_replicate_zero]
    simp only [exponentValue?, Option.map_some, List.length_append, List.length_replicate]
    rw [show Nat.ofDigitChars 10 ['0'] 0 = 0 from rfl, mul_zero,
      show (0 : ℤ) - ((-n).toNat + ds.length : ℕ) = n - ds.length by omega]
  · rw [decimalValue?_whole ds _ hds hne (endsDigits_exponentText n) (by simp [exponentText]),
      exponentValue?_text, Option.map_some,
      show (ds.length : ℤ) = 1 by omega]
  · have hvalue := decimalValue?_point (ds.take 1) (ds.drop 1) (exponentText n)
      (fun c hc => hds c (List.mem_of_mem_take hc))
      (by simp only [ne_eq, List.take_eq_nil_iff, not_or]; exact ⟨by omega, hne⟩)
      (fun c hc => hds c (List.mem_of_mem_drop hc)) (endsDigits_exponentText n)
    rw [hvalue, List.take_append_drop, exponentValue?_text, Option.map_some, List.length_drop,
      show n - 1 - ((ds.length - 1 : ℕ) : ℤ) = n - ds.length by omega]

/-- A character a written number can hold. -/
def isNumericChar (c : Char) : Bool := c.isDigit || ['-', '+', '.', 'e'].contains c

theorem isNumericChar_of_isDigit {c : Char} (h : c.isDigit = true) : isNumericChar c = true := by
  simp [isNumericChar, h]

theorem isBlankChar_of_isNumericChar {c : Char} (h : isNumericChar c = true) :
    isBlankChar c = false := by
  have hrange : 43 ≤ c.toNat ∧ c.toNat ≤ 101 := by
    simp only [isNumericChar, Bool.or_eq_true, Char.isDigit, Bool.and_eq_true, decide_eq_true_eq,
      List.contains_eq_mem, List.mem_cons, List.not_mem_nil, or_false] at h
    rcases h with ⟨hlow, hhigh⟩ | rfl | rfl | rfl | rfl
    · have hlow' : 48 ≤ c.toNat := hlow
      have hhigh' : c.toNat ≤ 57 := hhigh
      omega
    all_goals decide
  simp only [isBlankChar, List.contains_eq_mem, List.mem_cons, List.not_mem_nil, or_false,
    Bool.or_eq_false_iff, Bool.and_eq_false_iff, decide_eq_false_iff_not]
  omega

/-- A text without blanks is not trimmed. -/
theorem trimText_eq {text : List Char} (hblank : ∀ c ∈ text, isBlankChar c = false) :
    trimText text = text := by
  have hdrop : text.dropWhile isBlankChar = text := by
    cases text with
    | nil => rfl
    | cons c rest => simp [hblank c List.mem_cons_self]
  rw [trimText, hdrop, List.rdropWhile_eq_self_iff]
  intro hne
  simp [hblank _ (List.getLast_mem hne)]

theorem isNumericChar_layoutDigits {ds : List Char} (hds : ∀ c ∈ ds, c.isDigit = true) (n : ℤ) :
    ∀ c ∈ layoutDigits ds n, isNumericChar c = true := by
  have hdigits : ∀ c ∈ ds, isNumericChar c = true := fun c hc => isNumericChar_of_isDigit (hds c hc)
  have hzeros : ∀ k, ∀ c ∈ List.replicate k '0', isNumericChar c = true := by
    intro k c hc
    rw [List.eq_of_mem_replicate hc]
    rfl
  have hexponent : ∀ c ∈ exponentText n, isNumericChar c = true := by
    intro c hc
    simp only [exponentText, List.mem_cons] at hc
    rcases hc with rfl | rfl | hc
    · rfl
    · split_ifs <;> rfl
    · exact isNumericChar_of_isDigit (isDigit_toDigits _ c hc)
  intro c hc
  unfold layoutDigits at hc
  split_ifs at hc
  · exact (List.mem_append.mp hc).elim (hdigits c) (hzeros _ c)
  · simp only [List.mem_append, List.mem_cons] at hc
    rcases hc with hc | rfl | hc
    · exact hdigits c (List.mem_of_mem_take hc)
    · rfl
    · exact hdigits c (List.mem_of_mem_drop hc)
  · simp only [List.mem_append, List.mem_cons] at hc
    rcases hc with rfl | rfl | hc | hc
    · rfl
    · rfl
    · exact hzeros _ c hc
    · exact hdigits c hc
  · exact (List.mem_append.mp hc).elim (hdigits c) (hexponent c)
  · simp only [List.mem_append, List.mem_cons] at hc
    rcases hc with hc | rfl | hc | hc
    · exact hdigits c (List.mem_of_mem_take hc)
    · rfl
    · exact hdigits c (List.mem_of_mem_drop hc)
    · exact hexponent c hc

/-- A written number begins with a digit. -/
theorem exists_head_layoutDigits {ds : List Char} (hds : ∀ c ∈ ds, c.isDigit = true)
    (hne : ds ≠ []) (n : ℤ) : ∃ d rest, layoutDigits ds n = d :: rest ∧ d.isDigit = true := by
  obtain ⟨d, ds, rfl⟩ := List.exists_cons_of_ne_nil hne
  have hd := hds d List.mem_cons_self
  unfold layoutDigits
  split_ifs with hlong hmiddle
  · exact ⟨d, _, rfl, hd⟩
  · obtain ⟨k, hk⟩ : ∃ k, n.toNat = k + 1 := ⟨n.toNat - 1, by omega⟩
    exact ⟨d, _, by rw [hk]; rfl, hd⟩
  · exact ⟨'0', _, rfl, rfl⟩
  · exact ⟨d, _, rfl, hd⟩
  · exact ⟨d, _, rfl, hd⟩

/-- An unsigned literal is read as a decimal. -/
theorem toNumber?_unsigned {text : List Char} (hnumeric : ∀ c ∈ text, isNumericChar c = true)
    (hhead : ∃ d rest, text = d :: rest ∧ d.isDigit = true) :
    toNumber? text = (decimalValue? text).bind Binary64.ofRat? := by
  obtain ⟨d, rest, rfl, hd⟩ := hhead
  have hradix : ∀ c ds, c ∈ ['x', 'X', 'o', 'O', 'b', 'B'] → d :: rest ≠ '0' :: c :: ds := by
    rintro c ds hc ⟨⟩
    have hnumericChar := hnumeric c (by simp)
    simp only [List.mem_cons, List.not_mem_nil, or_false] at hc
    rcases hc with rfl | rfl | rfl | rfl | rfl | rfl <;> revert hnumericChar <;> decide
  have hsign : ∀ c ds, c ∈ ['-', '+'] → d :: rest ≠ c :: ds := by
    rintro c ds hc ⟨⟩
    simp only [List.mem_cons, List.not_mem_nil, or_false] at hc
    rcases hc with rfl | rfl <;> revert hd <;> decide
  unfold toNumber?
  rw [trimText_eq fun c hc => isBlankChar_of_isNumericChar (hnumeric c hc)]
  split
  next heq =>
    cases heq
  all_goals try rename_i heq
  · exact absurd heq (hradix _ _ (by decide))
  · exact absurd heq (hradix _ _ (by decide))
  · exact absurd heq (hradix _ _ (by decide))
  · exact absurd heq (hradix _ _ (by decide))
  · exact absurd heq (hradix _ _ (by decide))
  · exact absurd heq (hradix _ _ (by decide))
  · exact absurd heq (hsign _ _ (by decide))
  · exact absurd heq (hsign _ _ (by decide))
  · rfl

/-- Of two candidates, the one that is found reads back. -/
theorem closestDigits_spec {x : ℚ} {n : ℤ} {k s : ℕ} (h : closestDigits x n k = some s) :
    (s = ⌊x * 10 ^ ((k : ℤ) - n)⌋₊ ∨ s = ⌊x * 10 ^ ((k : ℤ) - n)⌋₊ + 1) ∧
      nearest? (s * 10 ^ (n - k)) = some x := by
  have hfound := List.find?_some h
  have hmem := List.mem_of_find?_eq_some h
  refine ⟨?_, by simpa using hfound⟩
  split_ifs at hmem
  · simpa using hmem
  · simpa [or_comm] using hmem

/-- A double that `k` digits spell exactly is found. -/
theorem closestDigits_isSome {x : ℚ} (hx : nearest? x = some x) {n : ℤ} {k s : ℕ}
    (h : x * 10 ^ ((k : ℤ) - n) = s) : (closestDigits x n k).isSome = true := by
  have hback : (s : ℚ) * 10 ^ (n - k) = x := by
    rw [← h, mul_assoc, ← zpow_add₀ (by norm_num), sub_add_sub_cancel, sub_self, zpow_zero, mul_one]
  unfold closestDigits
  rw [List.find?_isSome]
  refine ⟨s, ?_, by rw [hback, hx]; simp⟩
  have hfloor : ⌊x * 10 ^ ((k : ℤ) - n)⌋₊ = s := by rw [h, Nat.floor_natCast]
  rw [hfloor]
  split_ifs <;> simp

/-- What the scan from `k` digits on finds: as few as possible, with the point where `x` has
it or one place further. -/
structure Shortest (x : ℚ) (n : ℤ) (k s : ℕ) (point : ℤ) : Prop where
  fewest : ∀ i, k ≤ i → i < (Nat.toDigits 10 s).length → closestDigits x n i = none
  point_eq : point = n ∨ point = n + 1 ∧ s = 10 ^ ((Nat.toDigits 10 s).length - 1)
  reads : nearest? (s * 10 ^ (point - (Nat.toDigits 10 s).length)) = some x

theorem length_toDigits_eq {k t : ℕ} (hk : 0 < k) (hlow : 10 ^ (k - 1) ≤ t) (hhigh : t < 10 ^ k) :
    (Nat.toDigits 10 t).length = k := by
  have hle := (Nat.length_toDigits_le_iff (by norm_num) hk).mpr hhigh
  have hge : ¬ (Nat.toDigits 10 t).length ≤ k - 1 := by
    intro hshort
    rcases Nat.eq_zero_or_pos (k - 1) with hzero | hpos
    · have hpositive := Nat.length_toDigits_pos (b := 10) (n := t)
      omega
    · exact absurd ((Nat.length_toDigits_le_iff (by norm_num) hpos).mp hshort) (by omega)
  omega

/-- A candidate has `k` digits, or is the power of ten above them. -/
theorem closestDigits_bounds {x : ℚ} {n : ℤ} (hlow : (10 : ℚ) ^ (n - 1) ≤ x) (hhigh : x < 10 ^ n)
    {k s : ℕ} (hk : 0 < k) (h : closestDigits x n k = some s) : 10 ^ (k - 1) ≤ s ∧ s ≤ 10 ^ k := by
  have hfloor := (closestDigits_spec h).1
  have hscale : (0 : ℚ) < 10 ^ ((k : ℤ) - n) := by positivity
  have hpos : 0 < x := lt_of_lt_of_le (by positivity) hlow
  have hlower : 10 ^ (k - 1) ≤ ⌊x * 10 ^ ((k : ℤ) - n)⌋₊ := by
    apply Nat.le_floor
    calc ((10 ^ (k - 1) : ℕ) : ℚ) = 10 ^ (n - 1) * 10 ^ ((k : ℤ) - n) := by
          rw [← zpow_add₀ (by norm_num), Nat.cast_pow, ← zpow_natCast]
          congr 1
          omega
      _ ≤ x * 10 ^ ((k : ℤ) - n) := by gcongr
  have hupper : ⌊x * 10 ^ ((k : ℤ) - n)⌋₊ < 10 ^ k := by
    refine (Nat.floor_lt (by positivity)).mpr ?_
    calc x * 10 ^ ((k : ℤ) - n) < 10 ^ n * 10 ^ ((k : ℤ) - n) := by gcongr
      _ = ((10 ^ k : ℕ) : ℚ) := by
          rw [← zpow_add₀ (by norm_num), add_sub_cancel, zpow_natCast, Nat.cast_pow,
            Nat.cast_ofNat]
  omega

theorem shortestDigits_spec {x : ℚ} {n : ℤ} (hlow : (10 : ℚ) ^ (n - 1) ≤ x) (hhigh : x < 10 ^ n)
    {fuel k : ℕ} (hk : 0 < k) {s : ℕ} {point : ℤ}
    (h : shortestDigits x n fuel k = some (s, point)) : Shortest x n k s point := by
  induction fuel generalizing k with
  | zero => cases h
  | succ fuel ih =>
    unfold shortestDigits at h
    split at h
    next d hd =>
      have hnearest := (closestDigits_spec hd).2
      obtain ⟨hlower, hupper⟩ := closestDigits_bounds hlow hhigh hk hd
      split_ifs at h with hfull
      · cases h
        have hlength := length_toDigits_eq hk (le_refl (10 ^ (k - 1)))
          (Nat.pow_lt_pow_right (by norm_num) (by omega))
        refine ⟨fun i hi hlt => by omega, .inr ⟨rfl, by rw [hlength]⟩, ?_⟩
        rw [hfull] at hnearest
        rw [hlength, ← hnearest]
        congr 1
        rw [Nat.cast_pow, Nat.cast_pow, ← zpow_natCast, ← zpow_natCast, Nat.cast_ofNat,
          ← zpow_add₀ (by norm_num), ← zpow_add₀ (by norm_num)]
        congr 1
        omega
      · cases h
        have hlength := length_toDigits_eq hk hlower (by omega)
        refine ⟨fun i hi hlt => by omega, .inl rfl, ?_⟩
        rw [hlength]
        exact hnearest
    next hnone =>
      have hrest := ih (Nat.succ_pos k) h
      refine ⟨fun i hi hlt => ?_, hrest.point_eq, hrest.reads⟩
      rcases hi.eq_or_lt with rfl | hi
      · exact hnone
      · exact hrest.fewest i hi hlt

theorem shortestDigits_isSome {x : ℚ} {n : ℤ} {fuel k : ℕ}
    (h : ∃ i < fuel, (closestDigits x n (k + i)).isSome = true) :
    (shortestDigits x n fuel k).isSome = true := by
  induction fuel generalizing k with
  | zero => obtain ⟨i, hi, -⟩ := h; omega
  | succ fuel ih =>
    unfold shortestDigits
    split
    · rfl
    next hnone =>
      obtain ⟨i, hi, hsome⟩ := h
      cases i with
      | zero =>
        rw [add_zero, hnone] at hsome
        cases hsome
      | succ i => exact ih ⟨i, by omega, by rwa [add_right_comm, add_assoc]⟩

/-- A double has a power of two as its denominator. -/
theorem den_eq_two_pow (x : Binary64) : ∃ i, x.value.den = 2 ^ i := by
  obtain ⟨m, e, -, -, hdyadic⟩ := x.dyadic
  rcases e with d | d
  · refine ⟨0, ?_⟩
    rw [hdyadic, Int.ofNat_eq_natCast, zpow_natCast,
      show (m : ℚ) * 2 ^ d = ((m * 2 ^ d : ℤ) : ℚ) by push_cast; rfl, Rat.den_intCast, pow_zero]
  · have hdvd : ((m / (2 ^ (d + 1) : ℤ) : ℚ).den : ℤ) ∣ 2 ^ (d + 1) := by
      exact_mod_cast Rat.den_dvd m (2 ^ (d + 1))
    have hvalue : x.value = m / (2 ^ (d + 1) : ℤ) := by
      rw [hdyadic, zpow_negSucc]
      push_cast
      rw [div_eq_mul_inv]
    rw [← hvalue] at hdvd
    obtain ⟨i, -, hi⟩ := (Nat.dvd_prime_pow Nat.prime_two).mp (by exact_mod_cast hdvd)
    exact ⟨i, hi⟩

/-- The digits of a positive double are found, and read back as it. -/
theorem shortestDigits_double (x : Binary64) (hpos : 0 < x.value) :
    ∃ s point, shortestDigits x.value (Int.log 10 x.value + 1)
        ((Int.log 10 x.value + 1 + Nat.log 2 x.value.den).toNat + 1) 1 = some (s, point) ∧
      Shortest x.value (Int.log 10 x.value + 1) 1 s point := by
  obtain ⟨n, hn⟩ : ∃ n, n = Int.log 10 x.value + 1 := ⟨_, rfl⟩
  obtain ⟨i, hden⟩ := den_eq_two_pow x
  have hlog : Nat.log 2 x.value.den = i := by rw [hden, Nat.log_pow (by norm_num)]
  rw [← hn, hlog]
  have hsome : (shortestDigits x.value n ((n + i).toNat + 1) 1).isSome = true := by
    refine shortestDigits_isSome ⟨(n + i).toNat, by omega, ?_⟩
    obtain ⟨j, hj⟩ : ∃ j : ℕ, (1 + (n + i).toNat : ℕ) - n = (i + j : ℕ) :=
      ⟨((1 + (n + i).toNat : ℕ) - n - i).toNat, by omega⟩
    refine closestDigits_isSome x.rounded (s := x.value.num.toNat * 5 ^ i * 10 ^ j) ?_
    rw [hj, zpow_natCast]
    have hnum : (x.value.num.toNat : ℚ) = x.value.num := by
      exact_mod_cast Int.toNat_of_nonneg (Rat.num_pos.mpr hpos).le
    have hvalue : x.value * 2 ^ i = x.value.num := by
      have hmul := Rat.mul_den_eq_num x.value
      rwa [hden, Nat.cast_pow, Nat.cast_ofNat] at hmul
    push_cast
    rw [hnum, ← hvalue, pow_add, show (10 : ℚ) ^ i = 2 ^ i * 5 ^ i by rw [← mul_pow]; norm_num]
    ring
  obtain ⟨⟨s, point⟩, hfound⟩ := Option.isSome_iff_exists.mp hsome
  refine ⟨s, point, hfound, shortestDigits_spec ?_ ?_ one_pos hfound⟩
  · rw [hn, add_sub_cancel_right]
    exact Int.zpow_log_le_self (by norm_num) hpos
  · rw [hn]
    exact Int.lt_zpow_succ_log_self (by norm_num) x.value

/-- A positive number is written as a layout of digits that read back as it. -/
theorem exists_positiveText (x : Binary64) (hpos : 0 < x.value) :
    ∃ s point, positiveText x.value = layoutDigits (Nat.toDigits 10 s) point ∧
      Shortest x.value (Int.log 10 x.value + 1) 1 s point := by
  obtain ⟨s, point, hfound, hshortest⟩ := shortestDigits_double x hpos
  exact ⟨s, point, by simp only [positiveText, hfound], hshortest⟩

theorem decimalValue?_positiveText (x : Binary64) (hpos : 0 < x.value) :
    (decimalValue? (positiveText x.value)).bind Binary64.ofRat? = some x := by
  obtain ⟨s, point, htext, hshortest⟩ := exists_positiveText x hpos
  rw [htext, layoutDigits_value (isDigit_toDigits s) Nat.toDigits_ne_nil, Option.bind_some,
    Nat.ofDigitChars_ten_toDigits]
  exact Binary64.ofRat?_eq_some hshortest.reads

/-- A written number holds nothing but digits, signs, a point and an exponent mark. -/
theorem isNumericChar_numberText (x : Binary64) : ∀ c ∈ numberText x, isNumericChar c = true := by
  have hpositive : ∀ y : Binary64, 0 < y.value → ∀ c ∈ positiveText y.value,
      isNumericChar c = true := by
    intro y hy
    obtain ⟨s, point, htext, -⟩ := exists_positiveText y hy
    rw [htext]
    exact isNumericChar_layoutDigits (isDigit_toDigits s) point
  unfold numberText
  split_ifs with hzero hneg
  · intro c hc
    rw [List.mem_singleton.mp hc]
    rfl
  · intro c hc
    rcases List.mem_cons.mp hc with rfl | hc
    · rfl
    · exact hpositive x.neg (neg_pos.mpr hneg) c hc
  · exact hpositive x (lt_of_le_of_ne (not_lt.mp hneg) (Ne.symm hzero))

/-- Reading a written number returns it. -/
theorem toNumber?_numberText (x : Binary64) : toNumber? (numberText x) = some x := by
  have hnumeric := isNumericChar_numberText x
  unfold numberText at hnumeric ⊢
  split_ifs at hnumeric ⊢ with hzero hneg
  · have hx : x = Binary64.zero := Binary64.ext (by rw [hzero]; rfl)
    rw [hx]
    decide +kernel
  · have hread := decimalValue?_positiveText x.neg (neg_pos.mpr hneg)
    rw [toNumber?, trimText_eq fun c hc => isBlankChar_of_isNumericChar (hnumeric c hc)]
    show ((decimalValue? (positiveText x.neg.value)).bind Binary64.ofRat?).map Binary64.neg = some x
    rw [hread]
    simp [Binary64.neg]
  · have hpos : 0 < x.value := lt_of_le_of_ne (not_lt.mp hneg) (Ne.symm hzero)
    obtain ⟨s, point, htext, -⟩ := exists_positiveText x hpos
    rw [toNumber?_unsigned hnumeric, decimalValue?_positiveText x hpos]
    rw [htext]
    exact exists_head_layoutDigits (isDigit_toDigits s) Nat.toDigits_ne_nil point

theorem numberText_ne_nil (x : Binary64) : numberText x ≠ [] := by
  intro hnil
  unfold numberText at hnil
  split_ifs at hnil with hzero hneg
  have hpos : 0 < x.value := lt_of_le_of_ne (not_lt.mp hneg) (Ne.symm hzero)
  obtain ⟨s, point, htext, -⟩ := exists_positiveText x hpos
  obtain ⟨d, rest, hhead, -⟩ :=
    exists_head_layoutDigits (isDigit_toDigits s) Nat.toDigits_ne_nil point
  rw [htext, hhead] at hnil
  cases hnil

theorem numberText_injective : Function.Injective numberText := by
  intro x y h
  have hread := toNumber?_numberText x
  rw [h, toNumber?_numberText] at hread
  exact (Option.some.inj hread).symm

theorem eq_of_append_point {a b u v : List Char} (ha : '.' ∉ a) (hb : '.' ∉ b)
    (h : u ++ '.' :: v = a ++ '.' :: b) : v = b := by
  rcases List.append_eq_append_iff.mp h with ⟨w, hw, hv⟩ | ⟨w, hw, hv⟩
  · cases w with
    | nil => exact (List.cons.inj hv).2
    | cons c w =>
      obtain ⟨rfl, -⟩ := List.cons.inj hv
      exact absurd (by rw [hw]; simp) ha
  · cases w with
    | nil => exact (List.cons.inj hv).2.symm
    | cons c w =>
      obtain ⟨-, rfl⟩ := List.cons.inj hv
      exact absurd (by simp) hb

theorem point_notMem_digits {ds : List Char} (hds : ∀ c ∈ ds, c.isDigit = true) : '.' ∉ ds :=
  fun hmem => absurd (hds '.' hmem) (by decide)

theorem point_notMem_exponentText (n : ℤ) : '.' ∉ exponentText n := by
  have hdigits := point_notMem_digits (isDigit_toDigits (n - 1).natAbs)
  unfold exponentText
  split_ifs <;> simp [hdigits]

/-- A digit follows the point of a written number. -/
theorem layoutDigits_point {ds : List Char} (hds : ∀ c ∈ ds, c.isDigit = true) (hne : ds ≠ [])
    {n : ℤ} {u v : List Char} (h : layoutDigits ds n = u ++ '.' :: v) :
    ∃ d rest, v = d :: rest ∧ d.isDigit = true := by
  have hfirst : ∀ ds : List Char, (∀ c ∈ ds, c.isDigit = true) → ds ≠ [] → ∀ more : List Char,
      ∃ d rest, ds ++ more = d :: rest ∧ d.isDigit = true := by
    intro ds hds hne more
    obtain ⟨d, ds, rfl⟩ := List.exists_cons_of_ne_nil hne
    exact ⟨d, ds ++ more, rfl, hds d List.mem_cons_self⟩
  have hzeros : ∀ k, ∀ c ∈ List.replicate k '0', c.isDigit = true := by
    intro k c hc
    rw [List.eq_of_mem_replicate hc]
    rfl
  have hdigits := point_notMem_digits hds
  have hexponent := point_notMem_exponentText n
  unfold layoutDigits at h
  split_ifs at h with hlong hmiddle hsmall hone
  · have hmem : '.' ∈ ds ++ List.replicate (n - ds.length).toNat '0' := by rw [h]; simp
    simp [hdigits] at hmem
  · have hv := eq_of_append_point (fun hmem => hdigits (List.mem_of_mem_take hmem))
      (fun hmem => hdigits (List.mem_of_mem_drop hmem)) h.symm
    have hdrop := hfirst (ds.drop n.toNat) (fun c hc => hds c (List.mem_of_mem_drop hc))
      (by rw [ne_eq, List.drop_eq_nil_iff]; omega) []
    rwa [List.append_nil, ← hv] at hdrop
  · have hall : ∀ c ∈ List.replicate (-n).toNat '0' ++ ds, c.isDigit = true := by
      intro c hc
      exact (List.mem_append.mp hc).elim (hzeros _ c) (hds c)
    have hv := eq_of_append_point (a := ['0']) (by decide) (point_notMem_digits hall) h.symm
    have hrest := hfirst _ hall (by simp [hne]) []
    rwa [List.append_nil, ← hv] at hrest
  · have hmem : '.' ∈ ds ++ exponentText n := by rw [h]; simp
    simp [hdigits, hexponent] at hmem
  · have hv := eq_of_append_point (a := ds.take 1) (b := ds.drop 1 ++ exponentText n)
      (fun hmem => hdigits (List.mem_of_mem_take hmem))
      (by
        rw [List.mem_append, not_or]
        exact ⟨fun hmem => hdigits (List.mem_of_mem_drop hmem), hexponent⟩) h.symm
    have hlength : 0 < ds.length := List.length_pos_iff.mpr hne
    have hrest := hfirst (ds.drop 1) (fun c hc => hds c (List.mem_of_mem_drop hc))
      (by rw [ne_eq, List.drop_eq_nil_iff]; omega) (exponentText n)
    rwa [← hv] at hrest

theorem numberText_point (x : Binary64) {u v : List Char} (h : numberText x = u ++ '.' :: v) :
    ∃ d rest, v = d :: rest ∧ d.isDigit = true := by
  unfold numberText at h
  split_ifs at h with hzero hneg
  · have hmem : '.' ∈ ['0'] := by rw [h]; simp
    exact absurd hmem (by decide)
  · obtain ⟨s, point, htext, -⟩ := exists_positiveText x.neg (neg_pos.mpr hneg)
    cases u with
    | nil => cases (List.cons.inj h).1
    | cons c u =>
      have hrest : positiveText x.neg.value = u ++ '.' :: v := (List.cons.inj h).2
      rw [htext] at hrest
      exact layoutDigits_point (isDigit_toDigits s) Nat.toDigits_ne_nil hrest
  · have hpos : 0 < x.value := lt_of_le_of_ne (not_lt.mp hneg) (Ne.symm hzero)
    obtain ⟨s, point, htext, -⟩ := exists_positiveText x hpos
    rw [htext] at h
    exact layoutDigits_point (isDigit_toDigits s) Nat.toDigits_ne_nil h

/-- The first power of ten that is written with an exponent is a double. -/
theorem nearest?_ten_pow : nearest? (10 ^ (21 : ℤ)) = some (10 ^ (21 : ℤ)) := by
  have hdyadic : (10 : ℚ) ^ (21 : ℤ) = ((5 ^ 21 : ℤ) : ℚ) * 2 ^ (21 : ℤ) := by norm_num
  have hfinite : |((5 ^ 21 : ℤ) : ℚ) * 2 ^ (21 : ℤ)| < 2 ^ 1024 :=
    calc |((5 ^ 21 : ℤ) : ℚ) * 2 ^ (21 : ℤ)| < 2 ^ 70 := by norm_num
      _ ≤ 2 ^ 1024 := pow_le_pow_right₀ (by norm_num) (by norm_num)
  rw [hdyadic]
  exact nearest?_of_dyadic (by norm_num) (by norm_num) hfinite

/-- A one and zeros, with the point after `point` digits. -/
theorem value_of_power {s : ℕ} {point : ℤ} (h : s = 10 ^ ((Nat.toDigits 10 s).length - 1))
    (hlength : 0 < (Nat.toDigits 10 s).length) :
    (s : ℚ) * 10 ^ (point - (Nat.toDigits 10 s).length) = 10 ^ (point - 1) := by
  generalize (Nat.toDigits 10 s).length = length at h hlength
  have hpower : (s : ℚ) = 10 ^ ((length : ℤ) - 1) := by
    rw [h, Nat.cast_pow, Nat.cast_ofNat, ← zpow_natCast]
    congr 1
    omega
  rw [hpower, ← zpow_add₀ (by norm_num)]
  congr 1
  omega

/-- A whole number that is not too large is written without a point. -/
theorem isDigit_numberText {x : Binary64} {n : ℕ} (hx : x.value = n) (hn : n < 10 ^ 21) :
    ∀ c ∈ numberText x, c.isDigit = true := by
  unfold numberText
  split_ifs with hzero hneg
  · intro c hc
    rw [List.mem_singleton.mp hc]
    rfl
  · rw [hx] at hneg
    exact absurd hneg (by simp)
  · have hpos : 0 < x.value := lt_of_le_of_ne (not_lt.mp hneg) (Ne.symm hzero)
    obtain ⟨s, point, htext, hshortest⟩ := exists_positiveText x hpos
    obtain ⟨m, hm⟩ : ∃ m, m = Int.log 10 x.value + 1 := ⟨_, rfl⟩
    have hone : (1 : ℚ) ≤ x.value := by
      rw [hx] at hpos ⊢
      exact_mod_cast hpos
    have hlog : 0 ≤ Int.log 10 x.value :=
      (Int.zpow_le_iff_le_log (by norm_num) hpos).mp (by simpa using hone)
    have hlogUpper : Int.log 10 x.value < 21 := by
      refine (Int.lt_zpow_iff_log_lt (by norm_num) hpos).mp ?_
      rw [hx]
      exact_mod_cast hn
    rw [← hm] at hshortest
    have hexact : (closestDigits x.value m m.toNat).isSome = true := by
      refine closestDigits_isSome x.rounded (s := n) ?_
      rw [Int.toNat_of_nonneg (by omega), sub_self, zpow_zero, mul_one, hx]
    have hlength : ((Nat.toDigits 10 s).length : ℤ) ≤ m := by
      by_contra hlong
      have hnone := hshortest.fewest m.toNat (by omega) (by omega)
      rw [hnone] at hexact
      cases hexact
    have hlengthPos := Nat.length_toDigits_pos (b := 10) (n := s)
    have hpoint : (Nat.toDigits 10 s).length ≤ point ∧ point ≤ 21 := by
      rcases hshortest.point_eq with hplace | ⟨hplace, hpower⟩
      · omega
      · refine ⟨by omega, ?_⟩
        by_contra hlarge
        have hreads := hshortest.reads
        rw [value_of_power hpower (by omega), show point - 1 = 21 by omega, nearest?_ten_pow]
          at hreads
        have hsame : (10 : ℚ) ^ (21 : ℤ) = n := by rw [← hx]; exact Option.some.inj hreads
        have hbelow : (n : ℚ) < 10 ^ 21 := by exact_mod_cast hn
        exact absurd hsame (ne_of_gt (by exact_mod_cast hbelow))
    rw [htext, layoutDigits, if_pos (by omega)]
    intro c hc
    rcases List.mem_append.mp hc with hc | hc
    · exact isDigit_toDigits s c hc
    · rw [List.eq_of_mem_replicate hc]
      rfl

end Skein
