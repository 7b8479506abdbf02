import Mathlib.Data.Rat.Floor
import Mathlib.Tactic.IntervalCases
import OpenMama.Lib.Decimal
import OpenMama.Lib.Scanf

/-!
# Prices as text, and rounded

A price is a value with a byte of hints; the five low bits of the byte say how the price is
written: with decimals, as a fraction with a power of two below it, or in ticks of a 32nd or a
64th with a digit for their tenths.  Values are rationals here, below `2 ^ 31` in magnitude, so
that their whole parts fit.  The parts of the text are taken by truncations one after the other.
That they fit together is `truncated_parts`: what is left behind one truncation has the sign of
the value, so that the next one goes the same way.

The multiplier of `mamaPrice_getRoundedValue` is an `int`, in which ten powers of ten have no
room (`multiplier_eq`).  `rendersAndRounds_iff` says when text and rounded value are right.
-/

namespace Mama

open Lib Option

/-- `mama_price_t`. -/
structure Price where
  mValue : ℚ
  mHints : Nat

/-- A conversion of a floating point value to an integer type that takes its whole part. -/
def truncated (x : ℚ) : ℤ := if 0 ≤ x then ⌊x⌋ else ⌈x⌉

/-- The `%02d` of `printf`. -/
def twoDigits (n : ℤ) : List Char :=
  if n < 0 then '-' :: padded 1 n.natAbs else padded 2 n.natAbs

/-- What `snprintf` leaves of a text before the terminator. -/
def snprintf (bufMaxLen : Nat) (text : List Char) : List Char := text.take (bufMaxLen - 1)

namespace Price

/-- `mamaPriceImpl_getPrecision`. -/
def precision (price : Price) : Nat := price.mHints &&& 0x1f

/-- `mamaPriceImpl_getAsStringDecimal`, the `%.*f` of `printf` with a tie rounded to even. -/
def getAsStringDecimal (value : ℚ) (decimals : Nat) : List Char :=
  let scaled := |value| * 10 ^ decimals
  let below := ⌊scaled⌋₊
  let n :=
    if scaled - below < 1 / 2 ∨ scaled - below = 1 / 2 ∧ below % 2 = 0 then below else below + 1
  (if value < 0 then ['-'] else []) ++ Nat.toDigits 10 (n / 10 ^ decimals) ++
    if decimals = 0 then [] else '.' :: padded decimals (n % 10 ^ decimals)

/-- `mamaPriceImpl_getAsStringInteger`. -/
def getAsStringInteger (value : ℚ) : List Char := signed (truncated value)

/-- `mamaPriceImpl_getAsStringFraction`. -/
def getAsStringFraction (value : ℚ) (denom : Nat) : List Char :=
  let integer := truncated value
  let fraction := value - integer
  let numer := truncated (denom * fraction)
  if numer = 0 then signed integer
  else if integer = 0 then signed numer ++ '/' :: Nat.toDigits 10 denom
  else
    let numer := if integer < 0 then -numer else numer
    signed integer ++ ' ' :: signed numer ++ '/' :: Nat.toDigits 10 denom

/-- `mamaPriceImpl_getAsStringSpecFraction`, which does not use its second denominator. -/
def getAsStringSpecFraction (value : ℚ) (denom1 : Nat) (zeroPart : Bool) : List Char :=
  let integer := truncated value
  let fraction1 := value - integer
  let numer1 := truncated (denom1 * fraction1)
  let fraction2 := fraction1 - numer1 / denom1
  let numer2 := truncated (10 * denom1 * fraction2)
  if value < 0 then
    if zeroPart ∧ numer2 = 0 then '-' :: signed (-integer) ++ '\x27' :: twoDigits (-numer1)
    else '-' :: signed (-integer) ++ '\x27' :: twoDigits (-numer1) ++ signed (-numer2)
  else
    if zeroPart ∧ numer2 = 0 then signed integer ++ '\x27' :: twoDigits numer1
    else signed integer ++ '\x27' :: twoDigits numer1 ++ signed numer2

/-- The text that `mamaPriceImpl_getAsString` gives to `snprintf`. -/
def text (price : Price) : List Char :=
  let value := price.mValue
  let precision := price.precision
  if 0x01 ≤ precision ∧ precision ≤ 0x0a then getAsStringDecimal value precision
  else if precision = 0x10 then getAsStringInteger value
  else if 0x11 ≤ precision ∧ precision ≤ 0x19 then
    getAsStringFraction value (1 <<< (precision &&& 0x0f))
  else match precision with
    | 0x1a => getAsStringSpecFraction value 32 true
    | 0x1b => getAsStringSpecFraction value 32 true
    | 0x1c => getAsStringSpecFraction value 32 false
    | 0x1d => getAsStringSpecFraction value 64 true
    | 0x1e => getAsStringSpecFraction value 64 false
    | _ => getAsStringDecimal value 6

/-- `mamaPriceImpl_getAsString`. -/
def getAsString (price : Price) (bufMaxLen : Nat) : List Char := snprintf bufMaxLen price.text

/-- The `int` multiplier of `mamaPrice_getRoundedValue`, none where it overflows. -/
def multiplier : Nat → Option ℤ
  | 0 => some 1
  | n + 1 => do
    let m ← multiplier n
    if m * 10 < 2 ^ 31 then some (m * 10) else none

/-- The `hints` of `mamaPrice_getRoundedValue`. -/
def roundingHints (price : Price) (precision : Nat) : Nat :=
  if precision ≠ 0 then precision % 256 else price.precision

/-- `mamaPrice_getRoundedValue`, none where the arithmetic has no defined result. -/
def getRoundedValue (price : Price) (precision : Nat) : Option ℚ :=
  let hints := price.roundingHints precision
  if hints ≤ 10 ∧ 0 < hints then do
    let multiplier ← multiplier hints
    some (⌊multiplier * price.mValue + 1 / 2⌋ / multiplier)
  else some price.mValue

end Price

/-! ## What is promised -/

/-- How a text says a price; behind the apostrophe stand two digits of ticks and one of their
tenths. -/
inductive Denotes (ticks : Nat) : List Char → ℚ → Prop
  | whole (w : Nat) : Denotes ticks (Nat.toDigits 10 w) w
  | fraction (n d : Nat) : Denotes ticks (Nat.toDigits 10 n ++ '/' :: Nat.toDigits 10 d) (n / d)
  | mixed (w n d : Nat) :
    Denotes ticks (Nat.toDigits 10 w ++ ' ' :: Nat.toDigits 10 n ++ '/' :: Nat.toDigits 10 d)
      (w + n / d)
  | tick (w t : Nat) (ht : t < 100) :
    Denotes ticks (Nat.toDigits 10 w ++ '\x27' :: padded 2 t) (w + t / ticks)
  | tenth (w t s : Nat) (ht : t < 100) (hs : s < 10) :
    Denotes ticks (Nat.toDigits 10 w ++ '\x27' :: padded 2 t ++ Nat.toDigits 10 s)
      (w + (t + s / 10) / ticks)
  | minus {body : List Char} {x : ℚ} (h : Denotes ticks body x) : Denotes ticks ('-' :: body) (-x)

/-- For a hint of a fraction or of ticks: the ticks in a whole, and the units that are written. -/
def unitsOf (precision : Nat) : Option (Nat × Nat) :=
  if 17 ≤ precision ∧ precision ≤ 25 then some (1, 2 ^ (precision - 16))
  else if 26 ≤ precision ∧ precision ≤ 28 then some (32, 320)
  else if 29 ≤ precision ∧ precision ≤ 30 then some (64, 640)
  else none

/-- A value rounded to so many places. -/
structure RoundedTo (places : Nat) (value rounded : ℚ) : Prop where
  multiple : ∃ k : ℤ, rounded = k / 10 ^ places
  near : |rounded - value| ≤ 1 / 2 / 10 ^ places

/-- The text denotes the truncated value, and the rounded value is one, which rounds to itself. -/
structure RendersAndRounds (price : Price) (precision : Nat) : Prop where
  text : ∀ u ∈ unitsOf price.precision, ∀ bufMaxLen, price.text.length < bufMaxLen →
    Denotes u.1 (price.getAsString bufMaxLen) (truncated (u.2 * price.mValue) / u.2)
  rounded : 1 ≤ price.roundingHints precision → price.roundingHints precision ≤ 10 →
    ∃ r, price.getRoundedValue precision = some r ∧
      RoundedTo (price.roundingHints precision) price.mValue r ∧
      (Price.mk r price.mHints).getRoundedValue precision = some r

/-! ## The parts of a value -/

theorem truncated_of_nonneg {x : ℚ} (hx : 0 ≤ x) : truncated x = ⌊x⌋₊ := by
  rw [truncated, if_pos hx, Int.natCast_floor_eq_floor hx]

theorem truncated_neg (x : ℚ) : truncated (-x) = -truncated x := by
  unfold truncated
  rcases lt_trichotomy x 0 with hx | rfl | hx
  · rw [if_pos (by linarith), if_neg (by linarith), Int.floor_neg]
  · simp
  · rw [if_neg (by linarith), if_pos hx.le, Int.ceil_neg]

/-- **What is left behind the whole part**, counted in units, completes it. -/
theorem truncated_parts (units : Nat) {x : ℚ} (hx : 0 ≤ x) :
    ∃ w n : Nat, truncated x = w ∧ 0 ≤ x - w ∧ truncated (units * (x - w)) = n ∧
      (0 < units → n < units) ∧ truncated (units * x) = (units * w + n : Nat) := by
  have hleft : 0 ≤ x - ⌊x⌋₊ := sub_nonneg.2 (Nat.floor_le hx)
  have hone : x - ⌊x⌋₊ < 1 := by
    have := Nat.lt_floor_add_one x
    linarith
  have hunits : (0 : ℚ) ≤ units * (x - ⌊x⌋₊) := mul_nonneg (Nat.cast_nonneg _) hleft
  refine ⟨⌊x⌋₊, ⌊units * (x - ⌊x⌋₊)⌋₊, truncated_of_nonneg hx, hleft, truncated_of_nonneg hunits,
    fun hpos => ?_, ?_⟩
  · have hlt : units * (x - ⌊x⌋₊) < units := by
      have : (0 : ℚ) < units := by exact_mod_cast hpos
      nlinarith
    exact (Nat.floor_lt hunits).2 hlt
  · have hsplit : (units : ℚ) * x = units * (x - ⌊x⌋₊) + (units * ⌊x⌋₊ : Nat) := by
      push_cast; ring
    rw [truncated_of_nonneg (mul_nonneg (Nat.cast_nonneg _) hx), hsplit,
      Nat.floor_add_natCast hunits, Nat.add_comm]

theorem signed_natCast (n : Nat) : signed n = Nat.toDigits 10 n := if_neg (by omega)

theorem signed_neg {n : Nat} (h : n ≠ 0) : signed (-n) = '-' :: Nat.toDigits 10 n := by
  rw [signed, if_pos (by omega), Int.natAbs_neg, Int.natAbs_natCast]

theorem twoDigits_natCast (n : Nat) : twoDigits n = padded 2 n := if_neg (by omega)

/-! ## Fractions -/

section Text

variable {units : Nat} {x : ℚ}

section

variable (hunits : 0 < units)

include hunits

theorem fraction_nonneg (hx : 0 ≤ x) :
    Denotes 1 (Price.getAsStringFraction x units) (truncated (units * x) / units) := by
  obtain ⟨w, n, hw, -, hn, -, hwhole⟩ := truncated_parts units hx
  have hvalue : (truncated (units * x) / units : ℚ) = w + n / units := by
    rw [hwhole]
    push_cast
    field_simp
  rw [hvalue]
  dsimp only [Price.getAsStringFraction]
  rw [hw, Int.cast_natCast, hn]
  by_cases hzero : n = 0
  · rw [if_pos (by omega), signed_natCast, hzero, Nat.cast_zero, zero_div, add_zero]
    exact Denotes.whole w
  · rw [if_neg (by omega)]
    by_cases hinteger : w = 0
    · rw [if_pos (by omega), signed_natCast, hinteger, Nat.cast_zero, zero_add]
      exact Denotes.fraction n units
    · rw [if_neg (by omega), if_neg (by omega), signed_natCast, signed_natCast]
      exact Denotes.mixed w n units

theorem fraction_neg (hx : 0 ≤ x) :
    Denotes 1 (Price.getAsStringFraction (-x) units) (truncated (units * -x) / units) := by
  obtain ⟨w, n, hw, -, hn, -, hwhole⟩ := truncated_parts units hx
  have hvalue : (truncated (units * -x) / units : ℚ) = -(w + n / units) := by
    rw [mul_neg, truncated_neg, hwhole]
    push_cast
    field_simp
  have hleft : (units : ℚ) * (-x - (-w : ℤ)) = -(units * (x - w)) := by
    push_cast; ring
  rw [hvalue]
  dsimp only [Price.getAsStringFraction]
  rw [truncated_neg, hw, hleft, truncated_neg, hn]
  by_cases hzero : n = 0
  · rw [if_pos (by omega), hzero, Nat.cast_zero, zero_div, add_zero]
    by_cases hinteger : w = 0
    · rw [hinteger]; simpa [signed] using @Denotes.whole 1 0
    · rw [signed_neg hinteger]; exact (Denotes.whole w).minus
  · rw [if_neg (by omega)]
    by_cases hinteger : w = 0
    · rw [if_pos (by omega), signed_neg hzero, hinteger, Nat.cast_zero, zero_add]
      exact (Denotes.fraction n units).minus
    · rw [if_neg (by omega), if_pos (by omega), signed_neg hinteger, neg_neg, signed_natCast]
      exact (Denotes.mixed w n units).minus

/-! ## Ticks -/

/-- The parts of a value in ticks and their tenths. -/
theorem tick_parts (hx : 0 ≤ x) : ∃ w t s : Nat, truncated x = w ∧ truncated (units * (x - w)) = t ∧
    truncated (10 * units * (x - w - t / units)) = s ∧ t < units ∧ s < 10 ∧
    (truncated ((10 * units : Nat) * x) / (10 * units : Nat) : ℚ) = w + (t + s / 10) / units := by
  obtain ⟨w, n, hw, hleft, hn, -, hwhole⟩ := truncated_parts (10 * units) hx
  obtain ⟨t, s, ht, -, hs, hlt, htenths⟩ :=
    truncated_parts 10 (mul_nonneg (Nat.cast_nonneg units) hleft)
  obtain ⟨w', t', hw', -, ht', htlt, -⟩ := truncated_parts units hx
  obtain rfl : w = w' := by exact_mod_cast hw.symm.trans hw'
  obtain rfl : t = t' := by exact_mod_cast ht.symm.trans ht'
  have hpos : (units : ℚ) ≠ 0 := by exact_mod_cast hunits.ne'
  refine ⟨w, t, s, hw, ht, ?_, htlt hunits, hlt (by decide), ?_⟩
  · rw [← hs]
    congr 1
    push_cast
    field_simp
  · have hsame : ((10 * units : Nat) : ℚ) * (x - w) = (10 : Nat) * (units * (x - w)) := by
      push_cast; ring
    rw [hsame, htenths] at hn
    rw [hwhole, ← Int.natCast_inj.1 hn]
    push_cast
    field_simp

theorem ticks_nonneg (hsmall : units ≤ 100) (hx : 0 ≤ x) (zeroPart : Bool) :
    Denotes units (Price.getAsStringSpecFraction x units zeroPart)
      (truncated ((10 * units : Nat) * x) / (10 * units : Nat)) := by
  obtain ⟨w, t, s, hw, ht, hs, htlt, hslt, hvalue⟩ := tick_parts hunits hx
  rw [hvalue]
  dsimp only [Price.getAsStringSpecFraction]
  rw [if_neg (not_lt.2 hx), hw, Int.cast_natCast, ht, Int.cast_natCast, hs, signed_natCast,
    twoDigits_natCast, signed_natCast]
  split
  · next h =>
    rw [Int.natCast_eq_zero.1 h.2, Nat.cast_zero, zero_div, add_zero]
    exact Denotes.tick w t (by omega)
  · exact Denotes.tenth w t s (by omega) hslt

theorem ticks_neg (hsmall : units ≤ 100) (hx : 0 < x) (zeroPart : Bool) :
    Denotes units (Price.getAsStringSpecFraction (-x) units zeroPart)
      (truncated ((10 * units : Nat) * -x) / (10 * units : Nat)) := by
  obtain ⟨w, t, s, hw, ht, hs, htlt, hslt, hvalue⟩ := tick_parts hunits hx.le
  have hleft : (units : ℚ) * (-x - (-w : ℤ)) = -(units * (x - w)) := by
    push_cast; ring
  have hrest : (10 : ℚ) * units * (-x - (-w : ℤ) - (-t : ℤ) / units) =
      -(10 * units * (x - w - t / units)) := by
    push_cast
    ring
  rw [mul_neg, truncated_neg, Int.cast_neg, neg_div, hvalue]
  dsimp only [Price.getAsStringSpecFraction]
  rw [if_pos (by linarith), truncated_neg, hw, hleft, truncated_neg, ht, hrest, truncated_neg, hs,
    neg_neg, neg_neg, neg_neg, signed_natCast, twoDigits_natCast, signed_natCast]
  split
  · next h =>
    rw [Int.natCast_eq_zero.1 (neg_eq_zero.1 h.2), Nat.cast_zero, zero_div, add_zero]
    exact (Denotes.tick w t (by omega)).minus
  · exact (Denotes.tenth w t s (by omega) hslt).minus

end

end Text

theorem fraction_denotes {units : Nat} (hunits : 0 < units) (value : ℚ) :
    Denotes 1 (Price.getAsStringFraction value units) (truncated (units * value) / units) := by
  rcases le_total 0 value with h | h
  · exact fraction_nonneg hunits h
  · simpa using fraction_neg hunits (neg_nonneg.2 h)

theorem ticks_denotes {units : Nat} (hunits : 0 < units) (hsmall : units ≤ 100) (value : ℚ)
    (zeroPart : Bool) : Denotes units (Price.getAsStringSpecFraction value units zeroPart)
      (truncated ((10 * units : Nat) * value) / (10 * units : Nat)) := by
  rcases le_or_gt 0 value with h | h
  · exact ticks_nonneg hunits hsmall h zeroPart
  · simpa using ticks_neg hunits hsmall (neg_pos.2 h) zeroPart

theorem fractionDenom_eq {precision : Nat} (h : 17 ≤ precision ∧ precision ≤ 25) :
    1 <<< (precision &&& 0x0f) = 2 ^ (precision - 16) := by
  obtain ⟨hlow, hhigh⟩ := h
  interval_cases precision <;> rfl

theorem text_denotes (price : Price) : ∀ u ∈ unitsOf price.precision,
    Denotes u.1 price.text (truncated (u.2 * price.mValue) / u.2) := by
  have h32 := @ticks_denotes 32 (by decide) (by decide) price.mValue
  have h64 := @ticks_denotes 64 (by decide) (by decide) price.mValue
  intro u hu
  dsimp only [Price.text]
  generalize price.precision = precision at hu ⊢
  unfold unitsOf at hu
  split at hu
  · next h =>
    cases hu
    rw [if_neg (by omega), if_neg (by omega), if_pos h, fractionDenom_eq h]
    exact fraction_denotes (Nat.two_pow_pos _) _
  split at hu
  · next h =>
    cases hu
    obtain ⟨hlow, hhigh⟩ := h
    interval_cases precision
    exacts [h32 true, h32 true, h32 false]
  · obtain ⟨⟨hlow, hhigh⟩, hu⟩ := ite_none_right_eq_some.1 hu
    cases hu
    interval_cases precision
    exacts [h64 true, h64 false]

/-! ## Rounding -/

theorem multiplier_eq {places : Nat} (h : places ≤ 9) :
    Price.multiplier places = some (10 ^ places) := by
  interval_cases places <;> rfl

/-- The multiple next to a value; the higher one where two are as near. -/
def nearest (places : Nat) (value : ℚ) : ℚ := ⌊10 ^ places * value + 1 / 2⌋ / 10 ^ places

theorem roundedTo_nearest (places : Nat) (value : ℚ) :
    RoundedTo places value (nearest places value) := by
  have hpos : (0 : ℚ) < 10 ^ places := by positivity
  refine ⟨⟨_, rfl⟩, ?_⟩
  have hle := Int.floor_le ((10 ^ places : ℚ) * value + 1 / 2)
  have hlt := Int.lt_floor_add_one ((10 ^ places : ℚ) * value + 1 / 2)
  rw [nearest, div_sub' hpos.ne', abs_div, abs_of_pos hpos]
  gcongr
  rw [abs_le]
  constructor <;> linarith

theorem nearest_nearest (places : Nat) (value : ℚ) :
    nearest places (nearest places value) = nearest places value := by
  have hpos : (10 : ℚ) ^ places ≠ 0 := by positivity
  have hhalf : ⌊(1 / 2 : ℚ)⌋ = 0 := by norm_num
  unfold nearest
  rw [mul_div_cancel₀ _ hpos, Int.floor_intCast_add, hhalf, add_zero]

theorem snprintf_fits {bufMaxLen : Nat} {text : List Char} (h : text.length < bufMaxLen) :
    snprintf bufMaxLen text = text := List.take_of_length_le (by omega)

section Rounding

variable {price : Price} {precision : Nat}

theorem getRoundedValue_eq (price : Price) (hpos : 0 < price.roundingHints precision)
    (h : price.roundingHints precision ≤ 9) : price.getRoundedValue precision =
      some (nearest (price.roundingHints precision) price.mValue) := by
  dsimp only [Price.getRoundedValue]
  rw [if_pos ⟨by omega, hpos⟩, multiplier_eq h, bind_eq_bind, bind_some]
  push_cast
  rfl

theorem getRoundedValue_overflow (h : price.roundingHints precision = 10) :
    price.getRoundedValue precision = none := by
  dsimp only [Price.getRoundedValue]
  rw [h]
  rfl

/-- **When text and rounded value are right**: unless ten places are asked for. -/
theorem rendersAndRounds_iff (price : Price) (precision : Nat) :
    RendersAndRounds price precision ↔ price.roundingHints precision ≠ 10 := by
  constructor
  · intro h hten
    obtain ⟨r, hr, -⟩ := h.rounded (by omega) (by omega)
    rw [getRoundedValue_overflow hten] at hr
    cases hr
  intro h
  refine ⟨fun u hu bufMaxLen hfits => ?_, fun hpos hle => ?_⟩
  · rw [Price.getAsString, snprintf_fits hfits]; exact text_denotes price u hu
  · have hle : price.roundingHints precision ≤ 9 := by omega
    refine ⟨_, getRoundedValue_eq price hpos hle, roundedTo_nearest _ _, ?_⟩
    exact (getRoundedValue_eq ⟨nearest _ price.mValue, price.mHints⟩ hpos hle).trans
      (congrArg some (nearest_nearest _ _))

/-- A tenth asked for with ten places. -/
theorem not_rendersAndRounds : ¬ RendersAndRounds ⟨1 / 10, 0x20⟩ 10 := by
  intro h
  obtain ⟨r, hr, -⟩ := h.rounded (by decide) (by decide)
  rw [getRoundedValue_overflow rfl] at hr
  cases hr

end Rounding

end Mama
