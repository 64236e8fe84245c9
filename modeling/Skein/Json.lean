import Mathlib.Data.List.Basic
import Mathlib.Data.String.Basic

/-!
# JSON texts

A JSON value, its compact text and a reader of texts. Numbers are kept as their decimal
literals, and the members of an object in their order. Reading a text returns the value it
was written from, and no text holds a control character, so a text never breaks a line.
-/
namespace Skein

def isNumberChar (c : Char) : Bool := c.isDigit || ['-', '+', '.', 'e', 'E'].contains c

/-- One digit or more, and what follows them. -/
def digits (cs : List Char) : Option (List Char) :=
  if (cs.takeWhile Char.isDigit).isEmpty then none else some (cs.dropWhile Char.isDigit)

/-- `-? (0 | [1-9][0-9]*) (.[0-9]+)? ([eE][+-]?[0-9]+)?` -/
def isNumberLiteral (cs : List Char) : Bool :=
  let unsigned := match cs with
    | '-' :: rest => rest
    | _ => cs
  let integer := match unsigned with
    | '0' :: rest => some rest
    | _ => digits unsigned
  let fraction := integer.bind fun cs => match cs with
    | '.' :: rest => digits rest
    | _ => some cs
  let exponent := fraction.bind fun cs => match cs with
    | 'e' :: '+' :: rest | 'e' :: '-' :: rest | 'E' :: '+' :: rest | 'E' :: '-' :: rest
    | 'e' :: rest | 'E' :: rest => digits rest
    | _ => some cs
  exponent == some []

/-- A finite number, as the literal it is written as. -/
structure JsonNumber where
  literal : List Char
  chars : ∀ c ∈ literal, isNumberChar c = true
  starts : literal.head?.any (fun c => c = '-' || c.isDigit) = true
  grammar : isNumberLiteral literal = true
  deriving DecidableEq, Repr

inductive Json
  | null
  | bool (b : Bool)
  | num (n : JsonNumber)
  | str (s : String)
  | arr (items : List Json)
  | obj (fields : List (String × Json))
  deriving Repr

namespace Json

/-- A character inside a string. -/
def escapeChar (c : Char) : List Char :=
  if c = '"' then ['\\', '"']
  else if c = '\\' then ['\\', '\\']
  else if c = '\n' then ['\\', 'n']
  else if c = '\r' then ['\\', 'r']
  else if c = '\t' then ['\\', 't']
  else if c.toNat = 8 then ['\\', 'b']
  else if c.toNat = 12 then ['\\', 'f']
  else if c.toNat < 32 then
    ['\\', 'u', '0', '0', Nat.digitChar (c.toNat / 16), Nat.digitChar (c.toNat % 16)]
  else [c]

def quote (s : String) : List Char := '"' :: s.toList.flatMap escapeChar ++ ['"']

mutual
/-- `JSON.stringify(value)`. -/
def stringify : Json → List Char
  | null => ['n', 'u', 'l', 'l']
  | bool true => ['t', 'r', 'u', 'e']
  | bool false => ['f', 'a', 'l', 's', 'e']
  | num n => n.literal
  | str s => quote s
  | arr [] => ['[', ']']
  | arr (v :: items) => '[' :: (stringify v ++ moreItems items)
  | obj [] => ['{', '}']
  | obj ((k, v) :: fields) => '{' :: (quote k ++ ':' :: (stringify v ++ moreFields fields))

/-- The items after the first, and the end of the array. -/
def moreItems : List Json → List Char
  | [] => [']']
  | v :: items => ',' :: (stringify v ++ moreItems items)

def moreFields : List (String × Json) → List Char
  | [] => ['}']
  | (k, v) :: fields => ',' :: (quote k ++ ':' :: (stringify v ++ moreFields fields))
end

def isBlank (c : Char) : Bool := c = ' ' || c = '\n' || c = '\r' || c = '\t'

def skip (cs : List Char) : List Char := cs.dropWhile isBlank

def hexValue (c : Char) : Option ℕ :=
  if c.isDigit then some (c.toNat - 48)
  else if 'a' ≤ c ∧ c ≤ 'f' then some (c.toNat - 87)
  else if 'A' ≤ c ∧ c ≤ 'F' then some (c.toNat - 55)
  else none

/-- The character behind a one-letter escape. -/
def unescape : Char → Option Char
  | '"' => some '"'
  | '\\' => some '\\'
  | '/' => some '/'
  | 'n' => some '\n'
  | 'r' => some '\r'
  | 't' => some '\t'
  | 'b' => some (Char.ofNat 8)
  | 'f' => some (Char.ofNat 12)
  | _ => none

/-- The rest of a string whose opening quote has been read. -/
def parseString : List Char → Option (List Char × List Char)
  | '"' :: rest => some ([], rest)
  | '\\' :: 'u' :: a :: b :: c :: d :: rest => do
    let code := 4096 * (← hexValue a) + 256 * (← hexValue b) + 16 * (← hexValue c) + (← hexValue d)
    let found ← parseString rest
    some (Char.ofNat code :: found.1, found.2)
  | '\\' :: e :: rest => do
    let c ← unescape e
    let found ← parseString rest
    some (c :: found.1, found.2)
  | c :: rest =>
    if c.toNat < 32 then none else (parseString rest).map fun found => (c :: found.1, found.2)
  | [] => none

def parseNumber (cs : List Char) : Option (Json × List Char) :=
  let literal := cs.takeWhile isNumberChar
  if h : literal.all isNumberChar = true ∧
      literal.head?.any (fun c => c = '-' || c.isDigit) = true ∧ isNumberLiteral literal = true then
    some (.num ⟨literal, List.all_eq_true.mp h.1, h.2.1, h.2.2⟩, cs.dropWhile isNumberChar)
  else none

/-- A member's key and the colon after it. -/
def parseKey (cs : List Char) : Option (String × List Char) :=
  match skip cs with
  | '"' :: rest =>
    (parseString rest).bind fun found => match skip found.2 with
      | ':' :: rest => some (String.ofList found.1, rest)
      | _ => none
  | _ => none

mutual
/-- A value and what follows it; the fuel bounds the length of the value's text. -/
def parseValue : ℕ → List Char → Option (Json × List Char)
  | 0, _ => none
  | n + 1, cs => match skip cs with
    | 'n' :: 'u' :: 'l' :: 'l' :: rest => some (null, rest)
    | 't' :: 'r' :: 'u' :: 'e' :: rest => some (bool true, rest)
    | 'f' :: 'a' :: 'l' :: 's' :: 'e' :: rest => some (bool false, rest)
    | '"' :: rest => (parseString rest).map fun found => (str (String.ofList found.1), found.2)
    | '[' :: rest => match skip rest with
      | ']' :: rest => some (arr [], rest)
      | rest => do
        let first ← parseValue n rest
        let more ← parseItems n first.2
        some (arr (first.1 :: more.1), more.2)
    | '{' :: rest => match skip rest with
      | '}' :: rest => some (obj [], rest)
      | rest => do
        let key ← parseKey rest
        let first ← parseValue n key.2
        let more ← parseFields n first.2
        some (obj ((key.1, first.1) :: more.1), more.2)
    | rest => parseNumber rest

def parseItems : ℕ → List Char → Option (List Json × List Char)
  | 0, _ => none
  | n + 1, cs => match skip cs with
    | ']' :: rest => some ([], rest)
    | ',' :: rest => do
      let first ← parseValue n rest
      let more ← parseItems n first.2
      some (first.1 :: more.1, more.2)
    | _ => none

def parseFields : ℕ → List Char → Option (List (String × Json) × List Char)
  | 0, _ => none
  | n + 1, cs => match skip cs with
    | '}' :: rest => some ([], rest)
    | ',' :: rest => do
      let key ← parseKey rest
      let first ← parseValue n key.2
      let more ← parseFields n first.2
      some ((key.1, first.1) :: more.1, more.2)
    | _ => none
end

/-- `JSON.parse(text)`; `none` where it throws. -/
def parse (text : List Char) : Option Json :=
  match parseValue (text.length + 1) text with
  | some (v, rest) => if skip rest = [] then some v else none
  | none => none

theorem toNat_ge_of_isNumberChar {c : Char} (h : isNumberChar c = true) : 32 ≤ c.toNat := by
  simp only [isNumberChar, Bool.or_eq_true, Char.isDigit, Bool.and_eq_true, decide_eq_true_eq,
    List.contains_eq_mem, List.mem_cons, List.not_mem_nil, or_false] at h
  rcases h with ⟨hlow, -⟩ | rfl | rfl | rfl | rfl | rfl
  · have hlow' : '0'.val.toNat ≤ c.val.toNat := hlow
    exact le_trans (by decide) hlow'
  all_goals decide

theorem toNat_digitChar : ∀ n, n < 16 → 32 ≤ (Nat.digitChar n).toNat := by decide

theorem toNat_ge_of_mem_escapeChar (c : Char) : ∀ d ∈ escapeChar c, 32 ≤ d.toNat := by
  have hpair : ∀ e : Char, 32 ≤ e.toNat → ∀ d ∈ ['\\', e], 32 ≤ d.toNat := by
    intro e he d hd
    rcases List.mem_pair.mp hd with rfl | rfl
    · decide
    · exact he
  fun_cases escapeChar c
  · exact hpair _ (by decide)
  · exact hpair _ (by decide)
  · exact hpair _ (by decide)
  · exact hpair _ (by decide)
  · exact hpair _ (by decide)
  · exact hpair _ (by decide)
  · exact hpair _ (by decide)
  · intro d hd
    simp only [List.mem_cons, List.not_mem_nil, or_false] at hd
    rcases hd with rfl | rfl | rfl | rfl | rfl | rfl
    · decide
    · decide
    · decide
    · decide
    · exact toNat_digitChar _ (by omega)
    · exact toNat_digitChar _ (by omega)
  · intro d hd
    rw [List.mem_singleton.mp hd]
    omega

theorem toNat_ge_of_mem_quote (s : String) : ∀ d ∈ quote s, 32 ≤ d.toNat := by
  intro d hd
  simp only [quote, List.mem_append, List.mem_cons, List.mem_flatMap, List.not_mem_nil,
    or_false] at hd
  rcases hd with (rfl | ⟨c, -, hd⟩) | rfl
  · decide
  · exact toNat_ge_of_mem_escapeChar c d hd
  · decide

mutual
theorem toNat_ge_of_mem_stringify : ∀ (v : Json), ∀ d ∈ stringify v, 32 ≤ d.toNat
  | null => by simp [stringify]
  | bool true => by simp [stringify]
  | bool false => by simp [stringify]
  | num n => fun d hd => toNat_ge_of_isNumberChar (n.chars d hd)
  | str s => fun d hd => toNat_ge_of_mem_quote s d hd
  | arr [] => by simp [stringify]
  | arr (v :: items) => by
    intro d hd
    simp only [stringify, List.mem_cons, List.mem_append] at hd
    rcases hd with rfl | hd | hd
    · decide
    · exact toNat_ge_of_mem_stringify v d hd
    · exact toNat_ge_of_mem_moreItems items d hd
  | obj [] => by simp [stringify]
  | obj ((k, v) :: fields) => by
    intro d hd
    simp only [stringify, List.mem_cons, List.mem_append] at hd
    rcases hd with rfl | hd | rfl | hd | hd
    · decide
    · exact toNat_ge_of_mem_quote k d hd
    · decide
    · exact toNat_ge_of_mem_stringify v d hd
    · exact toNat_ge_of_mem_moreFields fields d hd

theorem toNat_ge_of_mem_moreItems : ∀ (items : List Json), ∀ d ∈ moreItems items, 32 ≤ d.toNat
  | [] => by simp [moreItems]
  | v :: items => by
    intro d hd
    simp only [moreItems, List.mem_cons, List.mem_append] at hd
    rcases hd with rfl | hd | hd
    · decide
    · exact toNat_ge_of_mem_stringify v d hd
    · exact toNat_ge_of_mem_moreItems items d hd

theorem toNat_ge_of_mem_moreFields :
    ∀ (fields : List (String × Json)), ∀ d ∈ moreFields fields, 32 ≤ d.toNat
  | [] => by simp [moreFields]
  | (k, v) :: fields => by
    intro d hd
    simp only [moreFields, List.mem_cons, List.mem_append] at hd
    rcases hd with rfl | hd | rfl | hd | hd
    · decide
    · exact toNat_ge_of_mem_quote k d hd
    · decide
    · exact toNat_ge_of_mem_stringify v d hd
    · exact toNat_ge_of_mem_moreFields fields d hd
end

theorem hexValue_digitChar : ∀ n, n < 16 → hexValue (Nat.digitChar n) = some n := by decide

theorem parseString_escape {e c : Char} (he : e ≠ 'u') (h : unescape e = some c)
    (rest : List Char) : parseString ('\\' :: e :: rest) =
      (parseString rest).map fun found => (c :: found.1, found.2) := by
  rw [parseString]
  · rw [h]
    cases parseString rest <;> rfl
  · intro _ _ _ _ _ hunicode
    exact absurd hunicode he

theorem parseString_plain {c : Char} (hquote : c ≠ '"') (hslash : c ≠ '\\')
    (hcontrol : ¬c.toNat < 32) (rest : List Char) : parseString (c :: rest) =
      (parseString rest).map fun found => (c :: found.1, found.2) := by
  rw [parseString]
  · exact if_neg hcontrol
  · exact hquote
  · rintro _ _ _ _ _ rfl
    exact absurd rfl hslash
  · rintro _ _ rfl
    exact absurd rfl hslash

theorem parseString_escapeChar (c : Char) (rest : List Char) :
    parseString (escapeChar c ++ rest) =
      (parseString rest).map fun found => (c :: found.1, found.2) := by
  fun_cases escapeChar c with
  | case1 hquote =>
    subst hquote
    exact parseString_escape (by decide) rfl rest
  | case2 _ hslash =>
    subst hslash
    exact parseString_escape (by decide) rfl rest
  | case3 _ _ hline => exact parseString_escape (by decide) (hline ▸ rfl) rest
  | case4 _ _ _ hreturn => exact parseString_escape (by decide) (hreturn ▸ rfl) rest
  | case5 _ _ _ _ htab => exact parseString_escape (by decide) (htab ▸ rfl) rest
  | case6 _ _ _ _ _ hback =>
    have hc : c = Char.ofNat 8 := by rw [← hback, Char.ofNat_toNat]
    exact parseString_escape (by decide) (hc ▸ rfl) rest
  | case7 _ _ _ _ _ _ hfeed =>
    have hc : c = Char.ofNat 12 := by rw [← hfeed, Char.ofNat_toNat]
    exact parseString_escape (by decide) (hc ▸ rfl) rest
  | case8 =>
    have hhigh := hexValue_digitChar (c.toNat / 16) (by omega)
    have hlow := hexValue_digitChar (c.toNat % 16) (by omega)
    have hzero : hexValue '0' = some 0 := by decide
    have hc : Char.ofNat (16 * (c.toNat / 16) + c.toNat % 16) = c := by
      rw [Nat.div_add_mod, Char.ofNat_toNat]
    cases h : parseString rest <;> simp [parseString, hhigh, hlow, hzero, hc, h]
  | case9 hquote hslash _ _ _ _ _ hcontrol =>
    exact parseString_plain hquote hslash hcontrol rest

theorem parseString_quote (cs rest : List Char) :
    parseString (cs.flatMap escapeChar ++ '"' :: rest) = some (cs, rest) := by
  induction cs with
  | nil => simp [parseString]
  | cons c cs ih =>
    rw [List.flatMap_cons, List.append_assoc, parseString_escapeChar, ih]
    rfl

theorem skip_cons {c : Char} (h : isBlank c = false) (rest : List Char) :
    skip (c :: rest) = c :: rest := by
  simp [skip, h]

theorem parseKey_quote (k : String) (rest : List Char) :
    parseKey (quote k ++ ':' :: rest) = some (k, rest) := by
  simp [parseKey, quote, skip_cons (c := '"') (by decide), parseString_quote,
    skip_cons (c := ':') (by decide), String.ofList_toList]

/-- What follows a number is not read as part of it. -/
def EndsNumber (rest : List Char) : Prop := ∀ c ∈ rest.head?, isNumberChar c = false

theorem endsNumber_nil : EndsNumber [] := by
  intro c hc
  cases hc

theorem endsNumber_moreItems (items : List Json) (rest : List Char) :
    EndsNumber (moreItems items ++ rest) := by
  intro c hc
  cases items <;> cases hc <;> decide

theorem endsNumber_moreFields (fields : List (String × Json)) (rest : List Char) :
    EndsNumber (moreFields fields ++ rest) := by
  intro c hc
  rcases fields with _ | ⟨⟨k, v⟩, fields⟩ <;> cases hc <;> decide

theorem parseNumber_literal (n : JsonNumber) {rest : List Char} (h : EndsNumber rest) :
    parseNumber (n.literal ++ rest) = some (.num n, rest) := by
  have htake : (n.literal ++ rest).takeWhile isNumberChar = n.literal := by
    rw [List.takeWhile_append_of_pos n.chars]
    cases rest with
    | nil => simp
    | cons c rest => simp [h c rfl]
  have hdrop : (n.literal ++ rest).dropWhile isNumberChar = rest := by
    rw [List.dropWhile_append_of_pos n.chars]
    cases rest with
    | nil => rfl
    | cons c rest => simp [h c rfl]
  unfold parseNumber
  simp only [htake, hdrop]
  rw [dif_pos ⟨List.all_eq_true.mpr n.chars, n.starts, n.grammar⟩]

/-- A text that starts like a number is read as one. -/
theorem parseValue_of_starts {c : Char} (h : c = '-' ∨ c.isDigit = true) (fuel : ℕ)
    (rest : List Char) : parseValue (fuel + 1) (c :: rest) = parseNumber (c :: rest) := by
  have hblank : isBlank c = false := by
    rcases h with rfl | hdigit
    · decide
    · simp only [isBlank, Bool.or_eq_false_iff, decide_eq_false_iff_not]
      refine ⟨⟨⟨?_, ?_⟩, ?_⟩, ?_⟩ <;> rintro rfl <;> revert hdigit <;> decide
  have hne : c ≠ 'n' ∧ c ≠ 't' ∧ c ≠ 'f' ∧ c ≠ '"' ∧ c ≠ '[' ∧ c ≠ '{' := by
    refine ⟨?_, ?_, ?_, ?_, ?_, ?_⟩ <;> rintro rfl <;> revert h <;> decide
  obtain ⟨hn, ht, hf, hquote, hbracket, hbrace⟩ := hne
  rw [parseValue, skip_cons hblank]
  split <;> simp_all

theorem exists_head_literal (n : JsonNumber) :
    ∃ c cs, n.literal = c :: cs ∧ (c = '-' ∨ c.isDigit = true) := by
  have hstarts := n.starts
  cases hliteral : n.literal with
  | nil => simp [hliteral] at hstarts
  | cons c cs => exact ⟨c, cs, rfl, by simpa [hliteral] using hstarts⟩

/-- No text starts with a blank or a closing bracket. -/
theorem exists_head_stringify (v : Json) :
    ∃ c cs, stringify v = c :: cs ∧ isBlank c = false ∧ c ≠ ']' := by
  cases v with
  | null => exact ⟨_, _, rfl, by decide, by decide⟩
  | bool b => cases b <;> exact ⟨_, _, rfl, by decide, by decide⟩
  | num n =>
    obtain ⟨c, cs, hliteral, hstarts⟩ := exists_head_literal n
    refine ⟨c, cs, hliteral, ?_, ?_⟩
    · rcases hstarts with rfl | hdigit
      · decide
      · simp only [isBlank, Bool.or_eq_false_iff, decide_eq_false_iff_not]
        refine ⟨⟨⟨?_, ?_⟩, ?_⟩, ?_⟩ <;> rintro rfl <;> revert hdigit <;> decide
    · rintro rfl
      revert hstarts
      decide
  | str s => exact ⟨_, _, rfl, by decide, by decide⟩
  | arr items => cases items <;> exact ⟨_, _, rfl, by decide, by decide⟩
  | obj fields =>
    rcases fields with _ | ⟨⟨k, v⟩, fields⟩ <;> exact ⟨_, _, rfl, by decide, by decide⟩

theorem skip_stringify (v : Json) (rest : List Char) :
    skip (stringify v ++ rest) = stringify v ++ rest := by
  obtain ⟨c, cs, hcs, hblank, -⟩ := exists_head_stringify v
  rw [hcs, List.cons_append, skip_cons hblank]

mutual
theorem parseValue_stringify : ∀ (v : Json) (n : ℕ) (rest : List Char),
    (stringify v).length ≤ n → EndsNumber rest → parseValue n (stringify v ++ rest) = some (v, rest)
  | v, 0, _, hle, _ => by
    obtain ⟨c, cs, hcs, -⟩ := exists_head_stringify v
    simp [hcs] at hle
  | null, n + 1, rest, _, _ => by simp [stringify, parseValue, skip_cons (c := 'n') (by decide)]
  | bool true, n + 1, rest, _, _ => by
    simp [stringify, parseValue, skip_cons (c := 't') (by decide)]
  | bool false, n + 1, rest, _, _ => by
    simp [stringify, parseValue, skip_cons (c := 'f') (by decide)]
  | num m, n + 1, rest, _, hrest => by
    obtain ⟨c, cs, hliteral, hstarts⟩ := exists_head_literal m
    have hnumber := parseNumber_literal m hrest
    rw [stringify, hliteral, List.cons_append, parseValue_of_starts hstarts]
    rwa [hliteral, List.cons_append] at hnumber
  | str s, n + 1, rest, _, _ => by
    simp [stringify, quote, parseValue, skip_cons (c := '"') (by decide), parseString_quote,
      String.ofList_toList]
  | arr [], n + 1, rest, _, _ => by
    simp [stringify, parseValue, skip_cons (c := '[') (by decide),
      skip_cons (c := ']') (by decide)]
  | arr (v :: items), n + 1, rest, hle, _ => by
    simp only [stringify, List.length_cons, List.length_append] at hle
    have hfirst := parseValue_stringify v n (moreItems items ++ rest) (by omega)
      (endsNumber_moreItems items rest)
    have hmore := parseItems_moreItems items n rest (by omega)
    have hbracket : ∀ r, stringify v ++ (moreItems items ++ rest) ≠ ']' :: r := by
      obtain ⟨c, cs, hcs, -, hne⟩ := exists_head_stringify v
      simp [hcs, hne]
    simp only [stringify, List.cons_append, List.append_assoc, parseValue,
      skip_cons (c := '[') (by decide), skip_stringify]
    simp [hfirst, hmore]
  | obj [], n + 1, rest, _, _ => by
    simp [stringify, parseValue, skip_cons (c := '{') (by decide),
      skip_cons (c := '}') (by decide)]
  | obj ((k, v) :: fields), n + 1, rest, hle, _ => by
    simp only [stringify, List.length_cons, List.length_append] at hle
    have hfirst := parseValue_stringify v n (moreFields fields ++ rest) (by omega)
      (endsNumber_moreFields fields rest)
    have hmore := parseFields_moreFields fields n rest (by omega)
    have hkey := parseKey_quote k (stringify v ++ (moreFields fields ++ rest))
    have hskip : skip (quote k ++ ':' :: (stringify v ++ (moreFields fields ++ rest))) =
        quote k ++ ':' :: (stringify v ++ (moreFields fields ++ rest)) := by
      simp [quote, skip_cons (c := '"') (by decide)]
    simp only [stringify, List.cons_append, List.append_assoc, parseValue,
      skip_cons (c := '{') (by decide), hskip]
    split
    next r hr =>
      simp [quote] at hr
    · simp [hkey, hfirst, hmore]

theorem parseItems_moreItems : ∀ (items : List Json) (n : ℕ) (rest : List Char),
    (moreItems items).length ≤ n → parseItems n (moreItems items ++ rest) = some (items, rest)
  | [], 0, _, hle => by simp [moreItems] at hle
  | _ :: _, 0, _, hle => by simp [moreItems] at hle
  | [], n + 1, rest, _ => by simp [moreItems, parseItems, skip_cons (c := ']') (by decide)]
  | v :: items, n + 1, rest, hle => by
    simp only [moreItems, List.length_cons, List.length_append] at hle
    have hfirst := parseValue_stringify v n (moreItems items ++ rest) (by omega)
      (endsNumber_moreItems items rest)
    have hmore := parseItems_moreItems items n rest (by omega)
    simp [moreItems, parseItems, skip_cons (c := ',') (by decide), hfirst, hmore]

theorem parseFields_moreFields : ∀ (fields : List (String × Json)) (n : ℕ) (rest : List Char),
    (moreFields fields).length ≤ n →
    parseFields n (moreFields fields ++ rest) = some (fields, rest)
  | [], 0, _, hle => by simp [moreFields] at hle
  | (_, _) :: _, 0, _, hle => by simp [moreFields] at hle
  | [], n + 1, rest, _ => by simp [moreFields, parseFields, skip_cons (c := '}') (by decide)]
  | (k, v) :: fields, n + 1, rest, hle => by
    simp only [moreFields, List.length_cons, List.length_append] at hle
    have hfirst := parseValue_stringify v n (moreFields fields ++ rest) (by omega)
      (endsNumber_moreFields fields rest)
    have hmore := parseFields_moreFields fields n rest (by omega)
    have hkey := parseKey_quote k (stringify v ++ (moreFields fields ++ rest))
    simp [moreFields, parseFields, skip_cons (c := ',') (by decide), hkey, hfirst, hmore]
end

/-- `JSON.parse` inverts `JSON.stringify`. -/
theorem parse_stringify (v : Json) : parse (stringify v) = some v := by
  have h := parseValue_stringify v ((stringify v).length + 1) [] (by omega) endsNumber_nil
  rw [List.append_nil] at h
  simp [parse, h, skip]

end Json
end Skein
