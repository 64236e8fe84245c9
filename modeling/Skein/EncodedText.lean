import Mathlib.Tactic.SplitIfs
import Skein.JsStrings

/-!
# What a string is encoded as

`Buffer.from(text, "utf8")` writes the characters of a text, and U+FFFD for a surrogate that
stands alone. So the encoding tells two texts apart unless it has such a character in it.
-/
namespace Skein

/-- U+FFFD -/
def replacementChar : Char := Char.ofNat 0xFFFD

namespace JsString

/-- The character of a surrogate pair. -/
def pairChar (high low : CodeUnit) : Char :=
  Char.ofNat (0x10000 + (high.val - 0xD800) * 0x400 + (low.val - 0xDC00))

/-- The characters that the encoding of a text is made of. -/
def encodedText : JsString → List Char
  | [] => []
  | [u] =>
    if isHighSurrogate u || isLowSurrogate u then [replacementChar] else [Char.ofNat u.val]
  | u :: v :: rest =>
    if isHighSurrogate u && isLowSurrogate v then pairChar u v :: encodedText rest
    else if isHighSurrogate u || isLowSurrogate u then replacementChar :: encodedText (v :: rest)
    else Char.ofNat u.val :: encodedText (v :: rest)

/-- The code units of a character. -/
def charUnits (c : Char) : JsString :=
  if c.toNat < 0x10000 then [unitOf c.toNat]
  else [unitOf (0xD800 + (c.toNat - 0x10000) / 0x400), unitOf (0xDC00 + (c.toNat - 0x10000) % 0x400)]

def ofChars (text : List Char) : JsString := text.flatMap charUnits

/-- No surrogate of the text stands alone. -/
def isWellFormed (before : Option CodeUnit) : JsString → Bool
  | [] => true
  | u :: rest => !isLone before u rest.head? && isWellFormed (some u) rest

/-- No other text has the same encoding. -/
def IsLegible (s : JsString) : Prop := isWellFormed none s = true ∧ (0xFFFD : CodeUnit) ∉ s

instance (s : JsString) : Decidable s.IsLegible :=
  inferInstanceAs (Decidable (_ ∧ _))

/-- A code unit that is not the first of a pair. -/
theorem encodedText_cons {u : CodeUnit} {s : JsString}
    (h : isHighSurrogate u = false ∨ s.head?.any isLowSurrogate = false) :
    encodedText (u :: s) = (if isHighSurrogate u || isLowSurrogate u then replacementChar
      else Char.ofNat u.val) :: encodedText s := by
  cases s with
  | nil =>
    simp only [encodedText]
    split_ifs <;> rfl
  | cons v rest =>
    have hpair : ¬ (isHighSurrogate u && isLowSurrogate v) = true := by
      rw [Bool.not_eq_true, Bool.and_eq_false_iff]
      simpa using h
    simp only [encodedText, if_neg hpair]
    split_ifs <;> rfl

theorem encodedText_pair {u v : CodeUnit} (hu : isHighSurrogate u = true)
    (hv : isLowSurrogate v = true) (rest : JsString) :
    encodedText (u :: v :: rest) = pairChar u v :: encodedText rest := by
  rw [encodedText, hu, hv]
  rfl

theorem isHighSurrogate_iff {u : CodeUnit} :
    isHighSurrogate u = true ↔ 0xD800 ≤ u.val ∧ u.val ≤ 0xDBFF := by
  simp [isHighSurrogate]

theorem isLowSurrogate_iff {u : CodeUnit} :
    isLowSurrogate u = true ↔ 0xDC00 ≤ u.val ∧ u.val ≤ 0xDFFF := by
  simp [isLowSurrogate]

theorem toNat_ofNat {n : ℕ} (h : n.isValidChar) : (Char.ofNat n).toNat = n := by
  rw [Char.ofNat, dif_pos h]
  rfl

theorem toNat_pairChar {high low : CodeUnit} (hhigh : isHighSurrogate high = true)
    (hlow : isLowSurrogate low = true) : (pairChar high low).toNat =
      0x10000 + (high.val - 0xD800) * 0x400 + (low.val - 0xDC00) := by
  rw [isHighSurrogate_iff] at hhigh
  rw [isLowSurrogate_iff] at hlow
  exact toNat_ofNat (.inr (by omega))

/-- A code unit that is no surrogate is a character. -/
theorem toNat_unitChar {u : CodeUnit} (h : (isHighSurrogate u || isLowSurrogate u) = false) :
    (Char.ofNat u.val).toNat = u.val := by
  have hlt := u.isLt
  obtain ⟨hhigh, hlow⟩ := Bool.or_eq_false_iff.mp h
  rw [← Bool.not_eq_true, isHighSurrogate_iff] at hhigh
  rw [← Bool.not_eq_true, isLowSurrogate_iff] at hlow
  refine toNat_ofNat ?_
  unfold Nat.isValidChar
  omega

theorem charUnits_pairChar {high low : CodeUnit} (hhigh : isHighSurrogate high = true)
    (hlow : isLowSurrogate low = true) : charUnits (pairChar high low) = [high, low] := by
  rw [charUnits, toNat_pairChar hhigh hlow]
  rw [isHighSurrogate_iff] at hhigh
  rw [isLowSurrogate_iff] at hlow
  rw [if_neg (by omega)]
  simp only [unitOf, List.cons.injEq, and_true, Fin.ext_iff]
  omega

theorem charUnits_unitChar {u : CodeUnit} (h : (isHighSurrogate u || isLowSurrogate u) = false) :
    charUnits (Char.ofNat u.val) = [u] := by
  rw [charUnits, toNat_unitChar h, if_pos u.isLt]
  simp [unitOf, Nat.mod_eq_of_lt u.isLt]

/-- A text is read back from an encoding without U+FFFD. -/
theorem ofChars_encodedText (s : JsString) (h : replacementChar ∉ encodedText s) :
    ofChars (encodedText s) = s := by
  fun_induction encodedText s with
  | case1 => rfl
  | case2 u hsurrogate => simp at h
  | case3 u hplain => simp [ofChars, charUnits_unitChar (Bool.eq_false_iff.mpr hplain)]
  | case4 u v rest hpair ih =>
    rw [Bool.and_eq_true] at hpair
    rw [List.mem_cons, not_or] at h
    have hrest : ofChars (encodedText rest) = rest := ih h.2
    rw [ofChars, List.flatMap_cons, charUnits_pairChar hpair.1 hpair.2]
    exact congrArg ([u, v] ++ ·) hrest
  | case5 u v rest hpair hsurrogate ih => simp at h
  | case6 u v rest hpair hplain ih =>
    rw [List.mem_cons, not_or] at h
    have hrest : ofChars (encodedText (v :: rest)) = v :: rest := ih h.2
    rw [ofChars, List.flatMap_cons, charUnits_unitChar (Bool.eq_false_iff.mpr hplain)]
    exact congrArg ([u] ++ ·) hrest

/-- Two texts of one encoding are one text. -/
theorem encodedText_inj {s t : JsString} (h : encodedText s = encodedText t)
    (hs : replacementChar ∉ encodedText s) : s = t := by
  rw [← ofChars_encodedText s hs, h, ofChars_encodedText t (h ▸ hs)]

theorem encodedText_charUnits (c : Char) (s : JsString) :
    encodedText (charUnits c ++ s) = c :: encodedText s := by
  have hvalid : c.toNat < 0xD800 ∨ 0xDFFF < c.toNat ∧ c.toNat < 0x110000 := c.valid
  unfold charUnits
  split_ifs with hsmall
  · have hval : (unitOf c.toNat).val = c.toNat := Nat.mod_eq_of_lt hsmall
    have hhigh : isHighSurrogate (unitOf c.toNat) = false := by
      rw [← Bool.not_eq_true, isHighSurrogate_iff, hval]
      omega
    have hlow : isLowSurrogate (unitOf c.toNat) = false := by
      rw [← Bool.not_eq_true, isLowSurrogate_iff, hval]
      omega
    rw [List.singleton_append, encodedText_cons (.inl hhigh), hhigh, hlow, hval]
    exact congrArg (· :: encodedText s) c.ofNat_toNat
  · have hvalHigh : (unitOf (0xD800 + (c.toNat - 0x10000) / 0x400)).val =
        0xD800 + (c.toNat - 0x10000) / 0x400 := Nat.mod_eq_of_lt (by omega)
    have hvalLow : (unitOf (0xDC00 + (c.toNat - 0x10000) % 0x400)).val =
        0xDC00 + (c.toNat - 0x10000) % 0x400 := Nat.mod_eq_of_lt (by omega)
    have hhigh : isHighSurrogate (unitOf (0xD800 + (c.toNat - 0x10000) / 0x400)) = true := by
      rw [isHighSurrogate_iff, hvalHigh]
      omega
    have hlow : isLowSurrogate (unitOf (0xDC00 + (c.toNat - 0x10000) % 0x400)) = true := by
      rw [isLowSurrogate_iff, hvalLow]
      omega
    have hchar : pairChar (unitOf (0xD800 + (c.toNat - 0x10000) / 0x400))
        (unitOf (0xDC00 + (c.toNat - 0x10000) % 0x400)) = c := by
      apply Char.toNat_inj.mp
      rw [toNat_pairChar hhigh hlow, hvalHigh, hvalLow]
      omega
    rw [List.cons_append, List.singleton_append, encodedText_pair hhigh hlow, hchar]

theorem encodedText_ofChars (text : List Char) (s : JsString) :
    encodedText (ofChars text ++ s) = text ++ encodedText s := by
  induction text with
  | nil => rfl
  | cons c text ih =>
    rw [ofChars, List.flatMap_cons, List.append_assoc, encodedText_charUnits]
    exact congrArg (c :: ·) ih

/-- Where the encoding has U+FFFD in it, it is the encoding of two texts. -/
theorem exists_ne_of_replacementChar {s : JsString} (h : replacementChar ∈ encodedText s) :
    ∃ t, t ≠ s ∧ encodedText t = encodedText s := by
  obtain ⟨before, after, hsplit⟩ := List.append_of_mem h
  have hafter : encodedText (ofChars after) = after := by
    simpa [encodedText] using encodedText_ofChars after []
  have hread : encodedText (ofChars before ++ 0xFFFD :: ofChars after) = encodedText s := by
    rw [encodedText_ofChars, encodedText_cons (.inl rfl), hafter, hsplit]
    rfl
  have hlone : encodedText (ofChars before ++ 0xDC00 :: ofChars after) = encodedText s := by
    rw [encodedText_ofChars, encodedText_cons (.inl rfl), hafter, hsplit]
    rfl
  by_cases hsame : ofChars before ++ 0xFFFD :: ofChars after = s
  · refine ⟨_, fun heq => ?_, hlone⟩
    have hunits := List.append_cancel_left (heq.trans hsame.symm)
    exact absurd (List.cons.inj hunits).1 (by decide)
  · exact ⟨_, hsame, hread⟩

theorem isLowSurrogate_of_high {u : CodeUnit} (h : isHighSurrogate u = true) :
    isLowSurrogate u = false := by
  rw [isHighSurrogate_iff] at h
  rw [← Bool.not_eq_true, isLowSurrogate_iff]
  omega

theorem isLone_of_surrogate {before after : Option CodeUnit} {u : CodeUnit}
    (hbefore : before.any isHighSurrogate = false)
    (hu : (isHighSurrogate u || isLowSurrogate u) = true)
    (hafter : isHighSurrogate u = false ∨ after.any isLowSurrogate = false) :
    isLone before u after = true := by
  rw [isLone, hbefore]
  rcases hafter with hhigh | hafter
  · rw [hhigh, Bool.false_or] at hu
    simp [hu]
  · rw [hafter]
    simpa using hu

theorem isLone_of_plain {before after : Option CodeUnit} {u : CodeUnit}
    (hu : (isHighSurrogate u || isLowSurrogate u) = false) : isLone before u after = false := by
  rw [Bool.or_eq_false_iff] at hu
  simp [isLone, hu.1, hu.2]

theorem replacementChar_eq_iff {u : CodeUnit}
    (hu : (isHighSurrogate u || isLowSurrogate u) = false) :
    replacementChar = Char.ofNat u.val ↔ u = 0xFFFD := by
  rw [← Char.toNat_inj, toNat_unitChar hu, replacementChar, toNat_ofNat (by decide), Fin.ext_iff]
  exact eq_comm

/-- The encoding of a text has U+FFFD in it if the text has, or a surrogate on its own. -/
theorem replacementChar_mem_iff (s : JsString) {before : Option CodeUnit}
    (hbefore : before.any isHighSurrogate = false) :
    replacementChar ∈ encodedText s ↔ ¬ (isWellFormed before s = true ∧ (0xFFFD : CodeUnit) ∉ s) := by
  fun_induction encodedText s generalizing before with
  | case1 => simp [isWellFormed]
  | case2 u hsurrogate =>
    have hlone : isLone before u none = true := isLone_of_surrogate hbefore hsurrogate (.inr rfl)
    simp [isWellFormed, hlone]
  | case3 u hplain =>
    have hplain := Bool.eq_false_iff.mpr hplain
    simp [isWellFormed, isLone_of_plain hplain, replacementChar_eq_iff hplain, eq_comm]
  | case4 u v rest hpair ih =>
    obtain ⟨hhigh, hlow⟩ := Bool.and_eq_true_iff.mp hpair
    have hu := isLowSurrogate_of_high hhigh
    have hv : isHighSurrogate v = false := by
      rw [← Bool.not_eq_true]
      intro h
      rw [isLowSurrogate_of_high h] at hlow
      cases hlow
    have hfirst : isLone before u (some v) = false := by simp [isLone, hu, hlow]
    have hsecond : ∀ after, isLone (some u) v after = false := by simp [isLone, hhigh, hv]
    have hne : replacementChar ≠ pairChar u v := by
      intro h
      have hcode := congrArg Char.toNat h
      rw [toNat_pairChar hhigh hlow] at hcode
      simp only [replacementChar, toNat_ofNat (show (0xFFFD : ℕ).isValidChar by decide)] at hcode
      omega
    have hunits : (0xFFFD : CodeUnit) ≠ u ∧ (0xFFFD : CodeUnit) ≠ v := by
      constructor
      · rintro rfl
        exact absurd hhigh (by decide)
      · rintro rfl
        exact absurd hlow (by decide)
    have hread := ih (show (some v).any isHighSurrogate = false from hv)
    rw [List.mem_cons, hread]
    simp [isWellFormed, hfirst, hsecond, hne, hunits]
  | case5 u v rest hpair hsurrogate ih =>
    have hnot : isHighSurrogate u = false ∨ (some v).any isLowSurrogate = false :=
      Bool.and_eq_false_iff.mp (Bool.eq_false_iff.mpr hpair)
    have hlone := isLone_of_surrogate hbefore hsurrogate hnot
    simp [isWellFormed, hlone]
  | case6 u v rest hpair hplain ih =>
    have hplain := Bool.eq_false_iff.mpr hplain
    have hhigh : isHighSurrogate u = false := (Bool.or_eq_false_iff.mp hplain).1
    have hwell : isWellFormed before (u :: v :: rest) = isWellFormed (some u) (v :: rest) := by
      rw [isWellFormed, isLone_of_plain hplain]
      rfl
    have hread := ih (show (some u).any isHighSurrogate = false from hhigh)
    rw [List.mem_cons, hread, replacementChar_eq_iff hplain, hwell,
      List.mem_cons (b := u), eq_comm (a := u)]
    tauto

/-- The legible texts are told apart from every other. -/
theorem isLegible_iff {s : JsString} : s.IsLegible ↔ ∀ t, encodedText t = encodedText s → t = s := by
  have hmem := replacementChar_mem_iff s
    (show (none : Option CodeUnit).any isHighSurrogate = false from rfl)
  constructor
  · intro hlegible t ht
    exact (encodedText_inj ht.symm fun h => hmem.mp h hlegible).symm
  · intro honly
    by_contra hillegible
    obtain ⟨t, hne, ht⟩ := exists_ne_of_replacementChar (hmem.mpr hillegible)
    exact hne (honly t ht)

end JsString
end Skein
