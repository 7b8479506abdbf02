import Mathlib.Data.Rat.Floor
import Mathlib.Tactic.Linarith
import Mathlib.Tactic.Positivity

/-!
# Rounding to doubles

What a product of two doubles is rounded to, as long as it is not negative and does
not overflow: the nearest multiple of a power of two that leaves 53 digits, the
even one of two.
-/

namespace Lib

/-- The integer that is nearest, the even one of two. -/
def halfEven (x : ℚ) : ℤ :=
  if Int.fract x < 1 / 2 then ⌊x⌋
  else if 1 / 2 < Int.fract x then ⌊x⌋ + 1
  else if ⌊x⌋ % 2 = 0 then ⌊x⌋ else ⌊x⌋ + 1

/-- The exponent of the power of two next below `x`. -/
def exponent (x : ℚ) : ℤ :=
  let e : ℤ := x.num.natAbs.log2 - x.den.log2
  if 2 ^ e ≤ x then e else e - 1

/-- The distance between two doubles where `x` is. -/
def ulp (x : ℚ) : ℚ := 2 ^ max (exponent x - 52) (-1074)

/-- The double nearest to a number that is not negative and below the largest. -/
def roundF64 (x : ℚ) : ℚ := halfEven (x / ulp x) * ulp x

theorem halfEven_le {x : ℚ} {n : ℤ} (h : x ≤ n) : halfEven x ≤ n := by
  have hle : ⌊x⌋ ≤ n := Int.floor_le_iff.mpr (by linarith)
  by_cases heq : ⌊x⌋ = n
  · have hfract : Int.fract x = 0 := by
      have := Int.floor_le x
      rw [heq] at this
      have hx : x = n := le_antisymm h this
      rw [hx]; exact Int.fract_intCast n
    rw [halfEven, if_pos (by rw [hfract]; norm_num)]
    exact hle
  · unfold halfEven
    (repeat' split) <;> omega

theorem halfEven_nonneg {x : ℚ} (h : 0 ≤ x) : 0 ≤ halfEven x := by
  have hfloor : 0 ≤ ⌊x⌋ := Int.floor_nonneg.mpr h
  unfold halfEven
  (repeat' split) <;> omega

theorem ulp_pos (x : ℚ) : 0 < ulp x := zpow_pos (by norm_num) _

theorem zpow_exponent_le {x : ℚ} (h : 0 < x) : (2 : ℚ) ^ exponent x ≤ x := by
  have hnum : 0 < x.num := Rat.num_pos.mpr h
  have hlow : (2 : ℚ) ^ x.num.natAbs.log2 ≤ x.num := by
    have hle := Nat.log2_self_le (n := x.num.natAbs) (by omega)
    have habs : ((x.num.natAbs : ℤ) : ℚ) = x.num := by rw [Int.natAbs_of_nonneg hnum.le]
    calc (2 : ℚ) ^ x.num.natAbs.log2 ≤ ((x.num.natAbs : ℤ) : ℚ) := by exact_mod_cast hle
      _ = x.num := habs
  have hhigh : (x.den : ℚ) ≤ 2 ^ (x.den.log2 + 1) := by exact_mod_cast Nat.lt_log2_self.le
  have hdiv : (2 : ℚ) ^ ((x.num.natAbs.log2 : ℤ) - x.den.log2 - 1) ≤ x := by
    have hsplit : (x.num.natAbs.log2 : ℤ) - x.den.log2 - 1 =
        x.num.natAbs.log2 - (x.den.log2 + 1 : ℕ) := by push_cast; ring
    rw [hsplit, zpow_sub₀ two_ne_zero, zpow_natCast, zpow_natCast]
    calc (2 : ℚ) ^ x.num.natAbs.log2 / 2 ^ (x.den.log2 + 1) ≤ x.num / x.den := by
          have := x.den_pos
          gcongr
      _ = x := x.num_div_den
  unfold exponent
  dsimp only
  split
  · assumption
  · exact hdiv

theorem roundF64_nonneg {x : ℚ} (h : 0 ≤ x) : 0 ≤ roundF64 x :=
  mul_nonneg (by exact_mod_cast halfEven_nonneg (div_nonneg h (ulp_pos x).le)) (ulp_pos x).le

/-- Up to 2 ^ 53 the integers are doubles. -/
theorem roundF64_le {x : ℚ} {n : ℕ} (h₀ : 0 ≤ x) (h : x ≤ n) (hx : x < 2 ^ 53) :
    roundF64 x ≤ n := by
  have hlog : exponent x < 53 := by
    rcases h₀.eq_or_lt with rfl | hpos
    · decide +kernel
    · exact (zpow_lt_zpow_iff_right₀ (by norm_num)).mp
        ((zpow_exponent_le hpos).trans_lt (by exact_mod_cast hx))
  obtain ⟨k, hk⟩ := Int.eq_ofNat_of_zero_le (a := -(max (exponent x - 52) (-1074))) (by omega)
  have hulp : ulp x = ((2 : ℚ) ^ k)⁻¹ := by
    rw [ulp, show max (exponent x - 52) (-1074) = -(k : ℤ) by omega, zpow_neg, zpow_natCast]
  have hunits : x / ulp x ≤ ((n * 2 ^ k : ℕ) : ℤ) := by
    rw [hulp, div_inv_eq_mul]
    push_cast
    gcongr
  have hle := halfEven_le hunits
  have hpos := ulp_pos x
  calc roundF64 x ≤ ((n * 2 ^ k : ℕ) : ℤ) * ulp x := by
        unfold roundF64
        gcongr
    _ = n := by
        rw [hulp]
        push_cast
        field_simp

end Lib
