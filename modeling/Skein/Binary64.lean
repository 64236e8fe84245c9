import Mathlib.Algebra.Order.Field.Power
import Mathlib.Data.Int.Log
import Mathlib.Data.Rat.Floor
import Mathlib.Tactic.GCongr
import Mathlib.Tactic.Linarith
import Mathlib.Tactic.NormNum
import Mathlib.Tactic.Positivity

/-!
# Finite doubles

The finite values of IEEE binary64 as the rationals that rounding leaves alone, and rounding
to the nearest of them, ties to the even one. The two zeros are one value here.
-/
namespace Skein

/-- The integer nearest to `q`, the even one of two. -/
def roundTiesEven (q : ℚ) : ℤ :=
  if q - ⌊q⌋ < 1 / 2 then ⌊q⌋
  else if 1 / 2 < q - ⌊q⌋ then ⌊q⌋ + 1
  else if ⌊q⌋ % 2 = 0 then ⌊q⌋ else ⌊q⌋ + 1

@[simp] theorem roundTiesEven_intCast (n : ℤ) : roundTiesEven n = n := by
  simp [roundTiesEven]

theorem roundTiesEven_eq (q : ℚ) : roundTiesEven q = ⌊q⌋ ∨
    (roundTiesEven q = ⌊q⌋ + 1 ∧ 1 / 2 ≤ q - ⌊q⌋) := by
  unfold roundTiesEven
  split_ifs with hlow hhigh heven
  · exact .inl rfl
  · exact .inr ⟨rfl, hhigh.le⟩
  · exact .inl rfl
  · exact .inr ⟨rfl, not_lt.mp hlow⟩

/-- Rounding does not jump over an integer. -/
theorem roundTiesEven_le {q : ℚ} {n : ℤ} (h : q ≤ n) : roundTiesEven q ≤ n := by
  have hfloor : ⌊q⌋ ≤ n := by exact_mod_cast (Int.floor_le q).trans h
  rcases roundTiesEven_eq q with heq | ⟨heq, hhalf⟩
  · rw [heq]
    exact hfloor
  · rw [heq]
    rcases hfloor.lt_or_eq with hlt | heq'
    · exact hlt
    · rw [heq'] at hhalf
      linarith

theorem le_roundTiesEven {q : ℚ} {n : ℤ} (h : (n : ℚ) ≤ q) : n ≤ roundTiesEven q := by
  have hfloor : n ≤ ⌊q⌋ := Int.le_floor.mpr h
  rcases roundTiesEven_eq q with heq | ⟨heq, -⟩ <;> omega

theorem abs_roundTiesEven_le {q : ℚ} {n : ℤ} (h : |q| ≤ n) : |roundTiesEven q| ≤ n := by
  obtain ⟨hlow, hhigh⟩ := abs_le.mp h
  exact abs_le.mpr ⟨le_roundTiesEven (by exact_mod_cast hlow), roundTiesEven_le hhigh⟩

theorem roundTiesEven_neg (q : ℚ) : roundTiesEven (-q) = -roundTiesEven q := by
  by_cases hint : ∃ n : ℤ, q = n
  · obtain ⟨n, rfl⟩ := hint
    rw [← Int.cast_neg, roundTiesEven_intCast, roundTiesEven_intCast]
  · have hfloor : ⌊-q⌋ = -⌊q⌋ - 1 := by
      rw [Int.floor_eq_iff]
      have hlt : (⌊q⌋ : ℚ) < q := lt_of_le_of_ne (Int.floor_le q) fun h => hint ⟨⌊q⌋, h.symm⟩
      have hupper := Int.lt_floor_add_one q
      push_cast
      constructor <;> linarith
    have hfract : -q - ⌊-q⌋ = 1 - (q - ⌊q⌋) := by
      rw [hfloor]
      push_cast
      ring
    unfold roundTiesEven
    rw [hfract, hfloor]
    split_ifs <;> first | omega | (exfalso; linarith)

/-- The exponent of the last place of the doubles about `q`. -/
def ulpExponent (q : ℚ) : ℤ := max (-1074) (Int.log 2 |q| - 52)

/-- `q` rounded to the precision of the doubles about it. -/
def roundToUlp (q : ℚ) : ℚ := roundTiesEven (q / 2 ^ ulpExponent q) * 2 ^ ulpExponent q

/-- The double nearest to `q`; `none` where that is an infinity. -/
def nearest? (q : ℚ) : Option ℚ := if |roundToUlp q| < 2 ^ 1024 then some (roundToUlp q) else none

/-- A finite double. -/
@[ext] structure Binary64 where
  value : ℚ
  rounded : nearest? value = some value
  deriving DecidableEq

theorem ulpExponent_neg (q : ℚ) : ulpExponent (-q) = ulpExponent q := by
  rw [ulpExponent, abs_neg, ulpExponent]

theorem roundToUlp_neg (q : ℚ) : roundToUlp (-q) = -roundToUlp q := by
  rw [roundToUlp, ulpExponent_neg, neg_div, roundTiesEven_neg, Int.cast_neg, neg_mul, roundToUlp]

theorem nearest?_neg (q : ℚ) : nearest? (-q) = (nearest? q).map fun r => -r := by
  unfold nearest?
  rw [roundToUlp_neg, abs_neg]
  split_ifs <;> rfl

@[simp] theorem roundToUlp_zero : roundToUlp 0 = 0 := by simp [roundToUlp, roundTiesEven]

/-- A multiple of its last place is what it rounds to. -/
theorem roundToUlp_of_multiple {q : ℚ} {n : ℤ} (h : q = n * 2 ^ ulpExponent q) :
    roundToUlp q = q := by
  have hdiv : q / 2 ^ ulpExponent q = n := by
    rw [div_eq_iff (by positivity)]
    exact h
  rw [roundToUlp, hdiv, roundTiesEven_intCast, ← h]

/-- A multiple of a power of two with few enough binary digits is a double. -/
theorem roundToUlp_of_dyadic {m e : ℤ} (hm : |m| ≤ 2 ^ 53) (he : -1074 ≤ e) :
    roundToUlp (m * 2 ^ e) = m * 2 ^ e := by
  by_cases hzero : m = 0
  · simp [hzero]
  rcases le_or_gt (ulpExponent (m * 2 ^ e)) e with hle | hlt
  · obtain ⟨d, hd⟩ := Int.le.dest hle
    refine roundToUlp_of_multiple (n := m * 2 ^ d) ?_
    rw [Int.cast_mul, Int.cast_pow, Int.cast_ofNat, mul_assoc, ← zpow_natCast,
      ← zpow_add₀ two_ne_zero, add_comm (d : ℤ), hd]
  · have hcast : (m : ℚ) ≠ 0 := Int.cast_ne_zero.mpr hzero
    have habs : |(m : ℚ) * 2 ^ e| = |(m : ℚ)| * 2 ^ e := by
      rw [abs_mul, abs_of_pos (by positivity : (0 : ℚ) < 2 ^ e)]
    have hlog : ulpExponent (m * 2 ^ e) = Int.log 2 |(m : ℚ) * 2 ^ e| - 52 := by
      unfold ulpExponent at hlt ⊢
      omega
    have hlower : (2 : ℚ) ^ Int.log 2 |(m : ℚ) * 2 ^ e| ≤ |(m : ℚ)| * 2 ^ e := by
      rw [← habs]
      exact Int.zpow_log_le_self one_lt_two (abs_pos.mpr (by positivity))
    have hupper : |(m : ℚ)| * 2 ^ e ≤ 2 ^ (53 + e) := by
      rw [zpow_add₀ two_ne_zero]
      have hm' : |(m : ℚ)| ≤ 2 ^ (53 : ℤ) := by exact_mod_cast hm
      gcongr
    have hlogUpper : Int.log 2 |(m : ℚ) * 2 ^ e| ≤ 53 + e :=
      (zpow_le_zpow_iff_right₀ one_lt_two).mp (hlower.trans hupper)
    have hlogEq : Int.log 2 |(m : ℚ) * 2 ^ e| = 53 + e := by omega
    have htop : |m| = 2 ^ 53 := by
      refine le_antisymm hm ?_
      rw [hlogEq, zpow_add₀ two_ne_zero] at hlower
      have hm' : (2 : ℚ) ^ (53 : ℤ) ≤ |(m : ℚ)| := le_of_mul_le_mul_right hlower (by positivity)
      exact_mod_cast hm'
    have hulp : ulpExponent (m * 2 ^ e) = e + 1 := by omega
    have heven : m = m / 2 * 2 := by
      rcases abs_cases m with ⟨habs', -⟩ | ⟨habs', -⟩ <;> omega
    refine roundToUlp_of_multiple (n := m / 2) ?_
    rw [hulp, zpow_add₀ two_ne_zero, zpow_one, mul_comm ((2 : ℚ) ^ e), ← mul_assoc]
    have hcast' : (m : ℚ) = (m / 2 : ℤ) * 2 := by exact_mod_cast heven
    rw [← hcast']

/-- What a rational rounds to is a multiple of a power of two with few binary digits. -/
theorem roundToUlp_dyadic (q : ℚ) :
    ∃ m e : ℤ, |m| ≤ 2 ^ 53 ∧ -1074 ≤ e ∧ roundToUlp q = m * 2 ^ e := by
  refine ⟨_, _, abs_roundTiesEven_le ?_, le_max_left _ _, rfl⟩
  have hpos : (0 : ℚ) < 2 ^ ulpExponent q := by positivity
  rw [abs_div, abs_of_pos hpos, div_le_iff₀ hpos]
  have hlt : |q| < 2 ^ (Int.log 2 |q| + 1) := Int.lt_zpow_succ_log_self one_lt_two |q|
  refine hlt.le.trans ?_
  have hcast : ((2 ^ 53 : ℤ) : ℚ) = 2 ^ (53 : ℤ) := by norm_cast
  rw [hcast, ← zpow_add₀ two_ne_zero]
  refine zpow_le_zpow_right₀ one_lt_two.le ?_
  have hmax := le_max_right (-1074) (Int.log 2 |q| - 52)
  unfold ulpExponent
  omega

/-- Rounding rounds to a double. -/
theorem nearest?_rounded {q r : ℚ} (h : nearest? q = some r) : nearest? r = some r := by
  unfold nearest? at h
  split_ifs at h with hfinite
  cases h
  obtain ⟨m, e, hm, he, hdyadic⟩ := roundToUlp_dyadic q
  have hfixed : roundToUlp (roundToUlp q) = roundToUlp q := by
    rw [hdyadic, roundToUlp_of_dyadic hm he]
  rw [nearest?, hfixed, if_pos hfinite]

theorem nearest?_of_dyadic {m e : ℤ} (hm : |m| ≤ 2 ^ 53) (he : -1074 ≤ e)
    (hfinite : |(m : ℚ) * 2 ^ e| < 2 ^ 1024) :
    nearest? (m * 2 ^ e) = some ((m : ℚ) * 2 ^ e) := by
  rw [nearest?, roundToUlp_of_dyadic hm he, if_pos hfinite]

namespace Binary64

/-- The double nearest to a rational; `none` where that is an infinity. -/
def ofRat? (q : ℚ) : Option Binary64 :=
  (nearest? q).pmap Binary64.mk fun _ h => nearest?_rounded h

theorem ofRat?_eq_some {q : ℚ} {x : Binary64} (h : nearest? q = some x.value) :
    ofRat? q = some x := by
  rcases x with ⟨r, hr⟩
  simp [ofRat?, h]

theorem ofRat?_value (x : Binary64) : ofRat? x.value = some x := ofRat?_eq_some x.rounded

theorem dyadic (x : Binary64) :
    ∃ m e : ℤ, |m| ≤ 2 ^ 53 ∧ -1074 ≤ e ∧ x.value = m * 2 ^ e := by
  have h := x.rounded
  unfold nearest? at h
  split_ifs at h
  obtain ⟨m, e, hm, he, hdyadic⟩ := roundToUlp_dyadic x.value
  exact ⟨m, e, hm, he, by rw [← hdyadic, Option.some.inj h]⟩

def ofInt (n : ℤ) (h : |n| ≤ 2 ^ 53) : Binary64 where
  value := n
  rounded := by
    have hfinite : |(n : ℚ) * 2 ^ (0 : ℤ)| < 2 ^ 1024 := by
      rw [zpow_zero, mul_one]
      have hcast : |(n : ℚ)| ≤ 2 ^ 53 := by exact_mod_cast h
      exact hcast.trans_lt (pow_lt_pow_right₀ one_lt_two (by norm_num))
    have hdyadic := nearest?_of_dyadic h (by norm_num) hfinite
    rwa [zpow_zero, mul_one] at hdyadic

def zero : Binary64 := ofInt 0 (by norm_num)

def neg (x : Binary64) : Binary64 where
  value := -x.value
  rounded := by rw [nearest?_neg, x.rounded]; rfl

def abs (x : Binary64) : Binary64 where
  value := |x.value|
  rounded := by
    rcases abs_cases x.value with ⟨h, -⟩ | ⟨h, -⟩
    · rw [h, x.rounded]
    · rw [h, nearest?_neg, x.rounded]; rfl

/-- `x - y`; `none` where that overflows to an infinity. -/
def sub? (x y : Binary64) : Option Binary64 := ofRat? (x.value - y.value)

end Binary64
end Skein
