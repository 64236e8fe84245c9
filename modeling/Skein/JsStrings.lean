import Mathlib.Data.List.Lex
import Mathlib.Order.Fin.Basic

/-!
# Strings of code units

A string as its UTF-16 code units, lone surrogates included: the order of `<`, and the JSON
text of a list of strings. Reading a text returns the strings it was written from.
-/
namespace Skein

/-- A UTF-16 code unit. -/
abbrev CodeUnit := Fin 65536

instance neZeroCodeUnits : @NeZero ℕ Zero.ofOfNat0 65536 := ⟨by decide⟩

/-- A string; `<` compares code units. -/
abbrev JsString := List CodeUnit

/-- `String.fromCharCode(n)`. -/
def unitOf (n : ℕ) : CodeUnit := ⟨n % 65536, Nat.mod_lt n (by decide)⟩

namespace JsString

def isHighSurrogate (u : CodeUnit) : Bool := 0xD800 ≤ u.val && u.val ≤ 0xDBFF

def isLowSurrogate (u : CodeUnit) : Bool := 0xDC00 ≤ u.val && u.val ≤ 0xDFFF

/-- A surrogate without its other half beside it. -/
def isLone (before : Option CodeUnit) (u : CodeUnit) (after : Option CodeUnit) : Bool :=
  (isHighSurrogate u && !after.any isLowSurrogate) ||
    (isLowSurrogate u && !before.any isHighSurrogate)

/-- The code unit of a lowercase hexadecimal digit. -/
def hexUnit (d : ℕ) : CodeUnit := if d < 10 then unitOf (48 + d) else unitOf (87 + d)

/-- `\uXXXX`. -/
def unicodeEscape (u : CodeUnit) : JsString :=
  [92, 117, hexUnit (u.val / 4096), hexUnit (u.val / 256 % 16), hexUnit (u.val / 16 % 16),
    hexUnit (u.val % 16)]

/-- A code unit inside a string. -/
def escapeUnit (lone : Bool) (u : CodeUnit) : JsString :=
  if u = 34 then [92, 34]
  else if u = 92 then [92, 92]
  else if u = 8 then [92, 98]
  else if u = 9 then [92, 116]
  else if u = 10 then [92, 110]
  else if u = 12 then [92, 102]
  else if u = 13 then [92, 114]
  else if u.val < 32 || lone then unicodeEscape u
  else [u]

def quoteUnits (before : Option CodeUnit) : JsString → JsString
  | [] => []
  | u :: rest => escapeUnit (isLone before u rest.head?) u ++ quoteUnits (some u) rest

/-- `JSON.stringify` of a string. -/
def quote (s : JsString) : JsString := 34 :: (quoteUnits none s ++ [34])

/-- The strings after the first, and the end of the array. -/
def moreStrings : List JsString → JsString
  | [] => [93]
  | s :: rest => 44 :: (quote s ++ moreStrings rest)

/-- `JSON.stringify` of an array of strings. -/
def stringifyStrings : List JsString → JsString
  | [] => [91, 93]
  | s :: rest => 91 :: (quote s ++ moreStrings rest)

def hexValue (u : CodeUnit) : Option ℕ :=
  if 48 ≤ u.val ∧ u.val ≤ 57 then some (u.val - 48)
  else if 97 ≤ u.val ∧ u.val ≤ 102 then some (u.val - 87)
  else if 65 ≤ u.val ∧ u.val ≤ 70 then some (u.val - 55)
  else none

/-- The code unit behind a one-letter escape. -/
def unescape (u : CodeUnit) : Option CodeUnit :=
  if u = 34 ∨ u = 92 ∨ u = 47 then some u
  else if u = 98 then some 8
  else if u = 116 then some 9
  else if u = 110 then some 10
  else if u = 102 then some 12
  else if u = 114 then some 13
  else none

/-- The rest of a string whose opening quote has been read, and what follows it. -/
def parseUnits : JsString → Option (JsString × JsString)
  | 34 :: rest => some ([], rest)
  | 92 :: 117 :: a :: b :: c :: d :: rest => do
    let code := 4096 * (← hexValue a) + 256 * (← hexValue b) + 16 * (← hexValue c) + (← hexValue d)
    let found ← parseUnits rest
    some (unitOf code :: found.1, found.2)
  | 92 :: e :: rest => do
    let u ← unescape e
    let found ← parseUnits rest
    some (u :: found.1, found.2)
  | u :: rest =>
    if u.val < 32 then none else (parseUnits rest).map fun found => (u :: found.1, found.2)
  | [] => none

/-- The strings after the first; the fuel bounds their number. -/
def parseMore : ℕ → JsString → Option (List JsString)
  | 0, _ => none
  | n + 1, text =>
    if text = [93] then some []
    else if text.take 2 = [44, 34] then do
      let first ← parseUnits (text.drop 2)
      let more ← parseMore n first.2
      some (first.1 :: more)
    else none

/-- `JSON.parse` of the compact text of an array of strings. -/
def parseStrings (text : JsString) : Option (List JsString) :=
  if text = [91, 93] then some []
  else if text.take 2 = [91, 34] then do
    let first ← parseUnits (text.drop 2)
    let more ← parseMore text.length first.2
    some (first.1 :: more)
  else none

theorem hexValue_hexUnit : ∀ d, d < 16 → hexValue (hexUnit d) = some d := by decide

theorem parseUnits_unicodeEscape (u : CodeUnit) (rest : JsString) :
    parseUnits (unicodeEscape u ++ rest) =
      (parseUnits rest).map fun found => (u :: found.1, found.2) := by
  have hu := u.isLt
  have hcode : unitOf (4096 * (u.val / 4096) + 256 * (u.val / 256 % 16) +
      16 * (u.val / 16 % 16) + u.val % 16) = u := by
    refine Fin.ext ?_
    simp only [unitOf]
    omega
  have hdigits := hexValue_hexUnit (u.val / 4096) (by omega)
  have hdigits₁ := hexValue_hexUnit (u.val / 256 % 16) (by omega)
  have hdigits₂ := hexValue_hexUnit (u.val / 16 % 16) (by omega)
  have hdigits₃ := hexValue_hexUnit (u.val % 16) (by omega)
  cases h : parseUnits rest <;>
    simp [unicodeEscape, parseUnits, hdigits, hdigits₁, hdigits₂, hdigits₃, hcode, h]

theorem parseUnits_escape {e u : CodeUnit} (he : e ≠ 117) (h : unescape e = some u)
    (rest : JsString) : parseUnits (92 :: e :: rest) =
      (parseUnits rest).map fun found => (u :: found.1, found.2) := by
  rw [parseUnits]
  · rw [h]
    cases parseUnits rest <;> rfl
  · intro _ _ _ _ _ hunicode
    exact absurd hunicode he

theorem parseUnits_plain {u : CodeUnit} (hquote : u ≠ 34) (hslash : u ≠ 92)
    (hcontrol : ¬u.val < 32) (rest : JsString) : parseUnits (u :: rest) =
      (parseUnits rest).map fun found => (u :: found.1, found.2) := by
  rw [parseUnits]
  · exact if_neg hcontrol
  · exact hquote
  · intro _ _ _ _ _ hu
    exact absurd hu hslash
  · intro _ _ hu
    exact absurd hu hslash

theorem parseUnits_escapeUnit (lone : Bool) (u : CodeUnit) (rest : JsString) :
    parseUnits (escapeUnit lone u ++ rest) =
      (parseUnits rest).map fun found => (u :: found.1, found.2) := by
  fun_cases escapeUnit lone u with
  | case1 hquote =>
    subst hquote
    exact parseUnits_escape (by decide) rfl rest
  | case2 _ hslash =>
    subst hslash
    exact parseUnits_escape (by decide) rfl rest
  | case3 _ _ hback => exact parseUnits_escape (by decide) (hback ▸ rfl) rest
  | case4 _ _ _ htab => exact parseUnits_escape (by decide) (htab ▸ rfl) rest
  | case5 _ _ _ _ hline => exact parseUnits_escape (by decide) (hline ▸ rfl) rest
  | case6 _ _ _ _ _ hfeed => exact parseUnits_escape (by decide) (hfeed ▸ rfl) rest
  | case7 _ _ _ _ _ _ hreturn => exact parseUnits_escape (by decide) (hreturn ▸ rfl) rest
  | case8 => exact parseUnits_unicodeEscape u rest
  | case9 hquote hslash _ _ _ _ _ hescape =>
    have hprint : ¬u.val < 32 := by
      intro hlow
      simp [hlow] at hescape
    exact parseUnits_plain hquote hslash hprint rest

theorem parseUnits_quoteUnits (before : Option CodeUnit) (s rest : JsString) :
    parseUnits (quoteUnits before s ++ 34 :: rest) = some (s, rest) := by
  induction s generalizing before with
  | nil => simp [quoteUnits, parseUnits]
  | cons u s ih => simp [quoteUnits, List.append_assoc, parseUnits_escapeUnit, ih]

theorem parseMore_moreStrings (strings : List JsString) {n : ℕ} (h : strings.length < n) :
    parseMore n (moreStrings strings) = some strings := by
  induction strings generalizing n with
  | nil =>
    obtain ⟨n, rfl⟩ := Nat.exists_eq_add_of_lt h
    simp [parseMore, moreStrings]
  | cons s strings ih =>
    obtain ⟨n, rfl⟩ := Nat.exists_eq_add_of_lt h
    have hmore := ih (by omega : strings.length < strings.length + 1 + n)
    simp only [List.length_cons] at hmore ⊢
    rw [show strings.length + 1 + n + 1 = (strings.length + 1 + n) + 1 from rfl, parseMore]
    simp [moreStrings, quote, List.append_assoc, parseUnits_quoteUnits, hmore]

theorem length_le_moreStrings (strings : List JsString) :
    strings.length < (moreStrings strings).length := by
  induction strings with
  | nil => simp [moreStrings]
  | cons s strings ih =>
    simp only [moreStrings, List.length_cons, List.length_append]
    omega

/-- `JSON.parse` inverts `JSON.stringify`. -/
theorem parseStrings_stringifyStrings (strings : List JsString) :
    parseStrings (stringifyStrings strings) = some strings := by
  cases strings with
  | nil => rfl
  | cons s strings =>
    have htext : stringifyStrings (s :: strings) =
        91 :: 34 :: (quoteUnits none s ++ 34 :: moreStrings strings) := by
      simp [stringifyStrings, quote, List.append_assoc]
    have hlength : strings.length < (stringifyStrings (s :: strings)).length := by
      have hmore := length_le_moreStrings strings
      simp only [stringifyStrings, List.length_cons, List.length_append]
      omega
    have hmore := parseMore_moreStrings strings hlength
    rw [htext] at hmore ⊢
    have hne : (91 :: 34 :: (quoteUnits none s ++ 34 :: moreStrings strings) : JsString) ≠
        [91, 93] := by simp
    have htake : (91 :: 34 :: (quoteUnits none s ++ 34 :: moreStrings strings) : JsString).take 2 =
        [91, 34] := rfl
    rw [parseStrings, if_neg hne, if_pos htake]
    simp only [List.drop_succ_cons, List.drop_zero, parseUnits_quoteUnits, Option.bind_eq_bind,
      Option.bind_some, hmore]

end JsString
end Skein
