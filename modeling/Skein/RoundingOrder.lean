import Skein.NumberText

/-!
# Rounding keeps the order

A larger rational rounds to a double that is not smaller. So the decimals that numbers are
written as compare as the numbers do, although neither is the other.
-/
namespace Skein

theorem roundTiesEven_mono {q r : ℚ} (h : q ≤ r) : roundTiesEven q ≤ roundTiesEven r := by
  rcases (Int.floor_mono h).lt_or_eq with hlt | heq
  · have hq : roundTiesEven q ≤ ⌊q⌋ + 1 := by
      rcases roundTiesEven_eq q with hround | ⟨hround, -⟩ <;> omega
    have hr : ⌊r⌋ ≤ roundTiesEven r := by
      rcases roundTiesEven_eq r with hround | ⟨hround, -⟩ <;> omega
    omega
  · have hfract : q - ⌊q⌋ ≤ r - ⌊r⌋ := by
      rw [heq]
      linarith
    unfold roundTiesEven
    rw [heq] at hfract ⊢
    split_ifs <;> first | omega | (exfalso; linarith)

theorem roundToUlp_nonneg {q : ℚ} (h : 0 ≤ q) : 0 ≤ roundToUlp q := by
  have hround : 0 ≤ roundTiesEven (q / 2 ^ ulpExponent q) :=
    le_roundTiesEven (by rw [Int.cast_zero]; positivity)
  have hcast : (0 : ℚ) ≤ roundTiesEven (q / 2 ^ ulpExponent q) := by exact_mod_cast hround
  unfold roundToUlp
  positivity

theorem ulpExponent_mono {q r : ℚ} (hq : 0 < q) (h : q ≤ r) : ulpExponent q ≤ ulpExponent r := by
  have hlog : Int.log 2 |q| ≤ Int.log 2 |r| := by
    rw [abs_of_pos hq, abs_of_pos (hq.trans_le h)]
    exact Int.log_mono_right hq h
  unfold ulpExponent
  omega

/-- A power of two that is a multiple of the last place is not rounded past. -/
theorem roundToUlp_le_two_pow {q : ℚ} {n : ℤ} (h : q ≤ 2 ^ n) (hn : ulpExponent q ≤ n) :
    roundToUlp q ≤ 2 ^ n := by
  obtain ⟨d, hd⟩ := Int.le.dest hn
  have hpos : (0 : ℚ) < 2 ^ ulpExponent q := by positivity
  have hsplit : (2 : ℚ) ^ n = ((2 ^ d : ℤ) : ℚ) * 2 ^ ulpExponent q := by
    rw [← hd, add_comm, zpow_add₀ two_ne_zero, zpow_natCast]
    push_cast
    ring
  unfold roundToUlp
  rw [hsplit]
  refine mul_le_mul_of_nonneg_right ?_ hpos.le
  have hround : roundTiesEven (q / 2 ^ ulpExponent q) ≤ 2 ^ d := by
    apply roundTiesEven_le
    rw [div_le_iff₀ hpos, ← hsplit]
    exact h
  exact_mod_cast hround

theorem two_pow_le_roundToUlp {q : ℚ} {n : ℤ} (h : 2 ^ n ≤ q) (hn : ulpExponent q ≤ n) :
    2 ^ n ≤ roundToUlp q := by
  obtain ⟨d, hd⟩ := Int.le.dest hn
  have hpos : (0 : ℚ) < 2 ^ ulpExponent q := by positivity
  have hsplit : (2 : ℚ) ^ n = ((2 ^ d : ℤ) : ℚ) * 2 ^ ulpExponent q := by
    rw [← hd, add_comm, zpow_add₀ two_ne_zero, zpow_natCast]
    push_cast
    ring
  unfold roundToUlp
  rw [hsplit]
  refine mul_le_mul_of_nonneg_right ?_ hpos.le
  have hround : 2 ^ d ≤ roundTiesEven (q / 2 ^ ulpExponent q) := by
    apply le_roundTiesEven
    rw [le_div_iff₀ hpos, ← hsplit]
    exact h
  exact_mod_cast hround

theorem roundToUlp_mono_of_pos {q r : ℚ} (hq : 0 < q) (h : q ≤ r) :
    roundToUlp q ≤ roundToUlp r := by
  have hr : 0 < r := hq.trans_le h
  rcases (ulpExponent_mono hq h).lt_or_eq with hlt | heq
  · have hlog : ulpExponent r = Int.log 2 r - 52 := by
      unfold ulpExponent at hlt ⊢
      rw [abs_of_pos hr] at hlt ⊢
      omega
    have hbelow : q ≤ 2 ^ Int.log 2 r := by
      have hqlog : Int.log 2 q + 1 ≤ Int.log 2 r := by
        have hle := le_max_right (-1074) (Int.log 2 |q| - 52)
        rw [abs_of_pos hq] at hle
        have hulp : max (-1074) (Int.log 2 q - 52) = ulpExponent q := by
          unfold ulpExponent
          rw [abs_of_pos hq]
        omega
      refine (Int.lt_zpow_succ_log_self one_lt_two q).le.trans ?_
      exact zpow_le_zpow_right₀ one_lt_two.le hqlog
    have habove : (2 : ℚ) ^ Int.log 2 r ≤ r := Int.zpow_log_le_self one_lt_two hr
    exact (roundToUlp_le_two_pow hbelow (by omega)).trans
      (two_pow_le_roundToUlp habove (by omega))
  · unfold roundToUlp
    rw [heq]
    have hpos : (0 : ℚ) < 2 ^ ulpExponent r := by positivity
    refine mul_le_mul_of_nonneg_right ?_ hpos.le
    exact_mod_cast roundTiesEven_mono (div_le_div_of_nonneg_right h hpos.le)

theorem roundToUlp_mono {q r : ℚ} (h : q ≤ r) : roundToUlp q ≤ roundToUlp r := by
  rcases lt_or_ge 0 q with hq | hq
  · exact roundToUlp_mono_of_pos hq h
  rcases lt_or_ge r 0 with hr | hr
  · have hneg := roundToUlp_mono_of_pos (neg_pos.mpr hr) (neg_le_neg h)
    rw [roundToUlp_neg, roundToUlp_neg] at hneg
    exact neg_le_neg_iff.mp hneg
  · have hlow := roundToUlp_nonneg (neg_nonneg.mpr hq)
    rw [roundToUlp_neg] at hlow
    exact (neg_nonneg.mp hlow).trans (roundToUlp_nonneg hr)

namespace Binary64

/-- Rationals that round to two doubles compare as the doubles do. -/
theorem lt_of_reads {x y : Binary64} {q r : ℚ} (hq : nearest? q = some x.value)
    (hr : nearest? r = some y.value) (h : x.value < y.value) : q < r := by
  by_contra hle
  have hmono := roundToUlp_mono (not_lt.mp hle)
  have hround : ∀ {p v : ℚ}, nearest? p = some v → roundToUlp p = v := by
    intro p v hp
    unfold nearest? at hp
    split_ifs at hp
    exact Option.some.inj hp
  rw [hround hq, hround hr] at hmono
  exact absurd h (not_lt.mpr hmono)

end Binary64

/-- A decimal literal with its sign, as the database reads it into a `numeric`. -/
def numericValue? : List Char → Option ℚ
  | '-' :: text => (decimalValue? text).map fun q => -q
  | text => decimalValue? text

theorem decimalValue?_reads (x : Binary64) (hpos : 0 < x.value) :
    ∃ q, decimalValue? (positiveText x.value) = some q ∧ nearest? q = some x.value := by
  obtain ⟨s, point, htext, hshortest⟩ := exists_positiveText x hpos
  rw [htext, layoutDigits_value (isDigit_toDigits s) Nat.toDigits_ne_nil]
  refine ⟨_, rfl, ?_⟩
  rw [Nat.ofDigitChars_ten_toDigits]
  exact hshortest.reads

/-- The database reads the text of a number as a decimal that rounds to it. -/
theorem numericValue?_numberText (x : Binary64) :
    ∃ q, numericValue? (numberText x) = some q ∧ nearest? q = some x.value := by
  unfold numberText
  split_ifs with hzero hneg
  · refine ⟨0, by decide +kernel, ?_⟩
    have hrounded := x.rounded
    rw [hzero] at hrounded ⊢
    exact hrounded
  · obtain ⟨q, hq, hreads⟩ := decimalValue?_reads x.neg (neg_pos.mpr hneg)
    refine ⟨-q, ?_, ?_⟩
    · show (decimalValue? (positiveText x.neg.value)).map (fun q => -q) = some (-q)
      rw [hq]
      rfl
    · rw [nearest?_neg, hreads]
      simp [Binary64.neg]
  · have hpos : 0 < x.value := lt_of_le_of_ne (not_lt.mp hneg) (Ne.symm hzero)
    obtain ⟨q, hq, hreads⟩ := decimalValue?_reads x hpos
    refine ⟨q, ?_, hreads⟩
    obtain ⟨s, point, htext, -⟩ := exists_positiveText x hpos
    obtain ⟨d, rest, hhead, hdigit⟩ :=
      exists_head_layoutDigits (isDigit_toDigits s) Nat.toDigits_ne_nil point
    unfold numericValue?
    split
    next text hminus =>
      rw [htext, hhead] at hminus
      rw [(List.cons.inj hminus).1] at hdigit
      exact absurd hdigit (by decide)
    · exact hq

namespace Binary64

/-- The decimal that a number is written as. -/
def decimal (x : Binary64) : ℚ := (numericValue? (numberText x)).getD 0

theorem decimal_reads (x : Binary64) : nearest? x.decimal = some x.value := by
  obtain ⟨q, hq, hreads⟩ := numericValue?_numberText x
  rw [decimal, hq]
  exact hreads

theorem decimal_lt_iff (x y : Binary64) : x.decimal < y.decimal ↔ x.value < y.value := by
  constructor
  · intro h
    rcases lt_trichotomy x.value y.value with hlt | heq | hgt
    · exact hlt
    · rw [Binary64.ext heq] at h
      exact absurd h (lt_irrefl _)
    · exact absurd (lt_of_reads y.decimal_reads x.decimal_reads hgt) h.not_gt
  · exact lt_of_reads x.decimal_reads y.decimal_reads

theorem decimal_le_iff (x y : Binary64) : x.decimal ≤ y.decimal ↔ x.value ≤ y.value := by
  rw [← not_lt, decimal_lt_iff, not_lt]

theorem decimal_injective : Function.Injective Binary64.decimal := by
  intro x y h
  refine Binary64.ext (le_antisymm ?_ ?_)
  · exact (decimal_le_iff x y).mp h.le
  · exact (decimal_le_iff y x).mp h.ge

end Binary64
end Skein
