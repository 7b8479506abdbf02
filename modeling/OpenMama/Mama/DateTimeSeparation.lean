import OpenMama.Mama.DateTimeFields

/-!
# The day and the time of day

`mamaDateTime_copyTime`, `copyDate`, `setDate` and `setTime` put the seconds together
from the day of one time and the time of day of another, in 32 bits.  Each keeps both
parts just if what the 32 bits cut off is a whole number of days
(`cuts_iff`): `2 ^ 32` seconds are not one.

A part that was cleared comes back with `copyDate` or `copyTime`, and the word is the
old one just if its flag was set before: the copy always sets it
(`clearDate_copyDate`, `clearTime_copyTime`).
-/

namespace Mama

namespace DateTime

/-- `mamaDateTime_setTime`: the precision is `MAMA_DATE_TIME_PREC_UNKNOWN`. -/
def setTime (t : DateTime) (hour minute second microsecond : UInt32) : DateTime :=
  t.setTimeWithPrecisionAndTz hour minute second microsecond 15 none

def day (t : DateTime) : Nat := t.seconds / 86400

def timeOfDay (t : DateTime) : Nat × Nat := (t.seconds % 86400, t.microSeconds)

def dateStart (year month day : UInt32) : Nat :=
  makeTime (toInt year.toNat) (toInt month.toNat) (toInt day.toNat) 0 0 0

def clockSeconds (hour minute second : UInt32) : Nat := (second + 60 * (minute + 60 * hour)).toNat

/-! ## Seconds cut to 32 bits -/

theorem mod_add_cut (n : Nat) : n % 2 ^ 32 + n / 2 ^ 32 * 2 ^ 32 = n := Nat.mod_add_div' n (2 ^ 32)

theorem mod_day_iff (n : Nat) :
    n % 2 ^ 32 % 86400 = n % 86400 ↔ n / 2 ^ 32 * 2 ^ 32 % 86400 = 0 := by
  have hsum := mod_add_cut n
  generalize n % 2 ^ 32 = kept at *
  generalize n / 2 ^ 32 * 2 ^ 32 = cut at *
  omega

variable {i rest : Nat} {hour minute second : UInt32}

/-- A day and a time of day add up past 32 bits only on the last day, and then to one of the first
two days. -/
theorem div_day_iff {start : Nat} (hstart : start % 86400 = 0) (hrest : rest < 86400) :
    (start + rest) % 2 ^ 32 / 86400 = start / 86400 ↔ start + rest < 2 ^ 32 := by
  constructor
  · intro h; omega
  · intro h
    rw [Nat.mod_eq_of_lt h]
    omega

theorem mod_eq_iff {floor low high clock date cut : Nat} (hlow : low < 86400) (hhigh : high < 86400)
    (hrest : rest < 86400) (hclock : clock < 86400)
    (hsum : floor + low + cut * 2 ^ 32 = rest + date) :
    (floor + clock) % 2 ^ 32 = (high + date) % 2 ^ 32 ↔ rest + clock = low + high := by
  omega

theorem fits_iff {low clock cut : Nat} (hlow : low < 86400) (h : (low + cut) % 86400 = rest) :
    rest + clock = low + clock ↔ (cut + 0 * 2 ^ 32) % 86400 = 0 := by
  omega

theorem last_iff {low high clock cut : Nat} (hlow : low < 86400) (hrest : rest < 23296)
    (hclock : high + 23296 = clock) (h : (low + cut) % 86400 = rest) :
    rest + clock = low + high ↔ (cut + 1 * 2 ^ 32) % 86400 = 0 := by
  omega

/-- Two sums that are cut give one time just if the two cuts are together a whole number of days. -/
theorem cuts_iff {start clock date : Nat} (hstart : start % 86400 = 0) (hclock : clock < 86400)
    (hrest : rest < 86400) (hdate : date % 86400 = 0) (hlt : start + rest < 2 ^ 32) :
    ((rest + date) % 2 ^ 32 / 86400 * 86400 + clock) % 2 ^ 32 =
        ((start + clock) % 2 ^ 32 % 86400 + date) % 2 ^ 32 ↔
      ((rest + date) / 2 ^ 32 + (start + clock) / 2 ^ 32) * 2 ^ 32 % 86400 = 0 := by
  -- the times of day that are left
  obtain ⟨low, hlow⟩ : ∃ low, low = (rest + date) % 2 ^ 32 % 86400 := ⟨_, rfl⟩
  obtain ⟨high, hhigh⟩ : ∃ high, high = (start + clock) % 2 ^ 32 % 86400 := ⟨_, rfl⟩
  have hlowLt : low < 86400 := hlow ▸ Nat.mod_lt _ (by decide)
  have hhighLt : high < 86400 := hhigh ▸ Nat.mod_lt _ (by decide)
  have hfloor := Nat.div_add_mod' ((rest + date) % 2 ^ 32) 86400
  have hrestLow : (low + (rest + date) / 2 ^ 32 * 2 ^ 32) % 86400 = rest := by omega
  rw [← hhigh, mod_eq_iff hlowLt hhighLt hrest hclock (by rw [hlow, hfloor, mod_add_cut]),
    Nat.add_mul]
  by_cases hfit : start + clock < 2 ^ 32
  · have hsame : high = clock := by
      rw [hhigh, Nat.mod_eq_of_lt hfit]; omega
    rw [Nat.div_eq_of_lt hfit, hsame]
    exact fits_iff hlowLt hrestLow
  · -- the last day: the clock is past the cut, and the time that was there before it
    have hover : (start + clock) / 2 ^ 32 = 1 := by omega
    have hpast : high + 23296 = clock := by omega
    rw [hover]
    exact last_iff hlowLt (by omega) hpast hrestLow

/-! ## Midnight -/

theorem monthStart_le (leap : Bool) {m : Nat} (hm : m < 12) : Lib.monthStart leap m ≤ 335 := by
  revert m
  cases leap <;> decide

theorem daysTo_le {y : Int} {m : Nat} (hm : m < 12) (hfirst : 1970 ≤ y) :
    Lib.daysTo y m ≤ 366 * y := by
  have hmonth := monthStart_le (Lib.isLeap y) hm
  unfold Lib.daysTo Lib.yearStart
  omega

theorem toInt_le (n : Nat) : toInt n < 2 ^ 31 := by
  have h := Int.bmod_lt (x := n) (m := 2 ^ 32) (by decide)
  exact h

theorem dateStart_mod (year month day : UInt32) : dateStart year month day % 86400 = 0 := by
  have hyear := toInt_le year.toNat
  have hmonth := toInt_le month.toNat
  have hday := toInt_le day.toNat
  unfold dateStart makeTime timegm
  generalize toInt year.toNat = y at *
  generalize toInt month.toNat = m at *
  generalize toInt day.toNat = d at *
  dsimp only
  generalize hyears : (if y > 1970 then y - 1900 else 70 : Int) = years
  generalize hmonths : (if m > 0 then m - 1 else 0 : Int) = months
  generalize hdays : (if d > 0 then d else 1 : Int) = days
  have hyearBound : 70 ≤ years ∧ years < 2 ^ 31 := by
    split at hyears <;> omega
  have hm : (months % 12).toNat < 12 := by omega
  have hfirst : 1970 ≤ years + 1900 + months / 12 := by omega
  have hle := daysTo_le hm hfirst
  have hge := Lib.year_le_of_daysTo (months % 12).toNat 0 hfirst
  generalize Lib.daysTo (years + 1900 + months / 12) (months % 12).toNat = count at *
  have hwhole : ((count + (days - 1)) * 86400 + 0 * 3600 + 0 * 60 + 0) % 2 ^ 64 =
      (count + (days - 1)) * 86400 := by
    omega
  omega

/-! ## Separation -/

section

variable (dest src : DateTime)

include dest src

theorem copyTime_seconds : (dest.copyTime src).seconds =
    (dest.day * 86400 + src.seconds % 86400) % 2 ^ 32 :=
  congrArg Parts.seconds (FieldOp.parts_copyTime dest src)

theorem copyTime_microSeconds : (dest.copyTime src).microSeconds = src.microSeconds :=
  congrArg Parts.microSeconds (FieldOp.parts_copyTime dest src)

theorem copyDate_seconds : (dest.copyDate src).seconds =
    (dest.seconds % 86400 + src.day * 86400) % 2 ^ 32 :=
  congrArg Parts.seconds (FieldOp.parts_copyDate dest src)

theorem copyDate_microSeconds : (dest.copyDate src).microSeconds = dest.microSeconds :=
  congrArg Parts.microSeconds (FieldOp.parts_copyDate dest src)

end

section

variable (t : DateTime)

theorem setDate_seconds (year month day : UInt32) :
    (t.setDate year month day).seconds = (t.seconds % 86400 + dateStart year month day) % 2 ^ 32 :=
  congrArg Parts.seconds (FieldOp.parts_setDate t year month day)

theorem setDate_microSeconds (year month day : UInt32) :
    (t.setDate year month day).microSeconds = t.microSeconds :=
  congrArg Parts.microSeconds (FieldOp.parts_setDate t year month day)

theorem setTime_seconds (hour minute second microsecond : UInt32) :
    (t.setTime hour minute second microsecond).seconds =
      (t.day * 86400 + clockSeconds hour minute second) % 2 ^ 32 := by
  have h : (t.setTime hour minute second microsecond).seconds = _ :=
    congrArg Parts.seconds (FieldOp.parts_setTime t hour minute second microsecond 15 none)
  have hcut : (15 : UInt32).toNat / 16 = 0 := by decide
  rw [h]
  simp only [hcut, Nat.or_zero]
  rw [timeSeconds, Option.getD_none, Int.sub_zero]
  rw [Int.toNat_emod (Int.natCast_nonneg _) (by decide)]
  rfl

theorem setTime_microSeconds (hour minute second microsecond : UInt32) :
    (t.setTime hour minute second microsecond).microSeconds = microsecond.toNat % 2 ^ 20 :=
  congrArg Parts.microSeconds (FieldOp.parts_setTime t hour minute second microsecond 15 none)

omit t in
theorem clockSeconds_eq (hhour : hour < 24) (hminute : minute < 60) (hsecond : second < 60) :
    clockSeconds hour minute second = second.toNat + 60 * (minute.toNat + 60 * hour.toNat) := by
  have h₁ : hour.toNat < 24 := hhour
  have h₂ : minute.toNat < 60 := hminute
  have h₃ : second.toNat < 60 := hsecond
  have h₄ : 60 * hour.toNat % 2 ^ 32 = 60 * hour.toNat := by omega
  have h₅ : (minute.toNat + 60 * hour.toNat) % 2 ^ 32 = minute.toNat + 60 * hour.toNat := by omega
  have h₆ : (60 * (minute.toNat + 60 * hour.toNat)) % 2 ^ 32 =
      60 * (minute.toNat + 60 * hour.toNat) := by
    omega
  have h₇ : (60 : UInt32).toNat = 60 := rfl
  rw [clockSeconds, UInt32.toNat_add, UInt32.toNat_mul, UInt32.toNat_add, UInt32.toNat_mul, h₇]
  omega

omit t in
theorem clockSeconds_lt (hhour : hour < 24) (hminute : minute < 60) (hsecond : second < 60) :
    clockSeconds hour minute second < 86400 := by
  have h₁ : hour.toNat < 24 := hhour
  have h₂ : minute.toNat < 60 := hminute
  have h₃ : second.toNat < 60 := hsecond
  rw [clockSeconds_eq hhour hminute hsecond]
  omega

theorem day_mul_add : t.day * 86400 + t.seconds % 86400 = t.seconds :=
  Nat.div_add_mod' t.seconds 86400

theorem start_mod : t.day * 86400 % 86400 = 0 := Nat.mul_mod_left _ _

omit t in
/-- **The time of another is taken over** just if it fits in 32 bits with the day. -/
theorem copyTime_iff (dest src : DateTime) :
    ((dest.copyTime src).day = dest.day ∧ (dest.copyTime src).timeOfDay = src.timeOfDay) ↔
      dest.day * 86400 + src.seconds % 86400 < 2 ^ 32 := by
  have hrest : src.seconds % 86400 < 86400 := Nat.mod_lt _ (by decide)
  have hday := div_day_iff (start_mod dest) hrest
  rw [Nat.mul_div_cancel _ (by decide)] at hday
  rw [day, copyTime_seconds, hday, timeOfDay, copyTime_seconds, copyTime_microSeconds]
  constructor
  · exact fun h => h.1
  · intro hfit
    refine ⟨hfit, ?_⟩
    rw [Nat.mod_eq_of_lt hfit, Nat.mul_add_mod', Nat.mod_eq_of_lt hrest]
    rfl

omit t in
theorem copyDate_iff (dest src : DateTime) :
    ((dest.copyDate src).day = src.day ∧ (dest.copyDate src).timeOfDay = dest.timeOfDay) ↔
      src.day * 86400 + dest.seconds % 86400 < 2 ^ 32 := by
  have hrest : dest.seconds % 86400 < 86400 := Nat.mod_lt _ (by decide)
  have hday := div_day_iff (start_mod src) hrest
  rw [Nat.mul_div_cancel _ (by decide)] at hday
  rw [day, copyDate_seconds, Nat.add_comm, hday, timeOfDay, copyDate_seconds, copyDate_microSeconds]
  constructor
  · exact fun h => h.1
  · intro hfit
    refine ⟨hfit, ?_⟩
    rw [Nat.add_comm, Nat.mod_eq_of_lt hfit, Nat.mul_add_mod', Nat.mod_eq_of_lt hrest]
    rfl

/-- A date that is set leaves the time of day just if what is cut off is a whole number of days. -/
theorem setDate_iff (year month day : UInt32) : (t.setDate year month day).timeOfDay = t.timeOfDay ↔
    (t.seconds % 86400 + dateStart year month day) / 2 ^ 32 * 2 ^ 32 % 86400 = 0 := by
  have hmod : (t.seconds % 86400 + dateStart year month day) % 86400 = t.seconds % 86400 := by
    have hdate := dateStart_mod year month day
    omega
  have hiff := mod_day_iff (t.seconds % 86400 + dateStart year month day)
  rw [hmod] at hiff
  rw [timeOfDay, setDate_seconds, setDate_microSeconds, ← hiff, Prod.mk.injEq]
  exact and_iff_left rfl

theorem setTime_iff (microsecond : UInt32) (hhour : hour < 24) (hminute : minute < 60)
    (hsecond : second < 60) : (t.setTime hour minute second microsecond).day = t.day ↔
    t.day * 86400 + clockSeconds hour minute second < 2 ^ 32 := by
  have hday := div_day_iff (start_mod t) (clockSeconds_lt hhour hminute hsecond)
  rw [Nat.mul_div_cancel _ (by decide)] at hday
  rw [day, setTime_seconds, hday]

/-- A date and a time can be set in either order just if what the two sums lose is together a whole
number of days. -/
theorem setDate_setTime_iff (year month day : UInt32) (microsecond : UInt32)
    (hhour : hour < 24) (hminute : minute < 60) (hsecond : second < 60) :
    (((t.setDate year month day).setTime hour minute second microsecond).seconds =
        ((t.setTime hour minute second microsecond).setDate year month day).seconds ∧
      ((t.setDate year month day).setTime hour minute second microsecond).microSeconds =
        ((t.setTime hour minute second microsecond).setDate year month day).microSeconds) ↔
      ((t.seconds % 86400 + dateStart year month day) / 2 ^ 32 +
        (t.day * 86400 + clockSeconds hour minute second) / 2 ^ 32) * 2 ^ 32 % 86400 = 0 := by
  have hrest : t.seconds % 86400 < 86400 := Nat.mod_lt _ (by decide)
  have hfits : t.day * 86400 + t.seconds % 86400 < 2 ^ 32 := by
    rw [day_mul_add]; exact t.seconds_lt
  rw [← cuts_iff (start_mod t) (clockSeconds_lt hhour hminute hsecond) hrest
    (dateStart_mod year month day) hfits, setDate_microSeconds, setTime_microSeconds,
    setTime_microSeconds, and_iff_left rfl, setTime_seconds, DateTime.day, setDate_seconds,
    setDate_seconds, setTime_seconds]

/-! ## Parts that come back -/

omit t in
theorem getLsbD_high {t t' : DateTime} (h : t.seconds = t'.seconds) (hi : i < 32) :
    t.word.getLsbD (32 + i) = t'.word.getLsbD (32 + i) := by
  have hbit := congrArg (Nat.testBit · i) h
  simp only [seconds_get, Lib.Field.testBit_get] at hbit
  simpa [secondsField, hi] using hbit

omit t in
theorem ext_bits {t t' : DateTime} (hseconds : t.seconds = t'.seconds)
    (hlow : ∀ i < 32, t.word.getLsbD i = t'.word.getLsbD i) : t = t' := by
  have hword : t.word = t'.word := by
    apply BitVec.eq_of_getLsbD_eq
    intro i hi
    by_cases h : i < 32
    · exact hlow i h
    · have hbit := getLsbD_high hseconds (show i - 32 < 32 by omega)
      rwa [show 32 + (i - 32) = i by omega] at hbit
  cases t
  cases t'
  exact congrArg DateTime.mk hword

theorem getLsbD_setSeconds (n : Nat) (hi : i < 32) :
    (t.setSeconds n).word.getLsbD i = t.word.getLsbD i := by
  have hput := Lib.Field.getLsbD_put secondsField t.word n (i := i) (by omega)
  rwa [if_pos (show i < secondsField.shift from hi)] at hput

theorem getLsbD_setMicroSeconds {n : Nat} (hn : n < 2 ^ 20) (hi : i < 32) :
    (t.setMicroSeconds n).word.getLsbD i = if i < 20 then n.testBit i else t.word.getLsbD i := by
  have hput : (t.setMicroSeconds n).word.getLsbD i = _ :=
    Lib.Field.getLsbD_put microSecondsField t.word n (i := i) (by omega)
  rw [hput]
  show (if i < 0 + 20 then n.testBit (i - 0) else _ || n.testBit (i - 0)) = _
  split
  · rfl
  · next h =>
    rw [Nat.testBit_lt_two_pow (hn.trans_le (Nat.pow_le_pow_right (by decide) (by omega))),
      Bool.or_false]

omit t in
theorem getLsbD_bitHasDate (hi : i < 32) : bitHasDate.getLsbD i = decide (i = 24) := by
  revert i
  decide

omit t in
theorem getLsbD_bitHasTime (hi : i < 32) : bitHasTime.getLsbD i = decide (i = 25) := by
  revert i
  decide

theorem hasDate_bit : t.hasDate = t.word.getLsbD 24 := by
  rw [hasDate_eq, hint_get, Lib.Field.testBit_get]
  rfl

theorem hasTime_bit : t.hasTime = t.word.getLsbD 25 := by
  rw [hasTime_eq, hint_get, Lib.Field.testBit_get]
  rfl

theorem testBit_microSeconds (hi : i < 20) : t.microSeconds.testBit i = t.word.getLsbD i := by
  rw [microSeconds_get, Lib.Field.testBit_get]
  simp [microSecondsField, hi]

theorem getLsbD_clearDate_copyDate (hi : i < 32) :
    (t.clearDate.copyDate t).word.getLsbD i = (decide (i = 24) || t.word.getLsbD i) := by
  unfold copyDate clearDate setHasDate clearHasDate
  simp only [BitVec.getLsbD_or, BitVec.getLsbD_and, BitVec.getLsbD_not, getLsbD_setSeconds _ _ hi,
    getLsbD_bitHasDate hi]
  by_cases hbit : i = 24
  · simp [hbit]
  · simp [hbit, show i < 64 by omega]

theorem getLsbD_clearTime_copyTime (hi : i < 32) :
    (t.clearTime.copyTime t).word.getLsbD i = (decide (i = 25) || t.word.getLsbD i) := by
  unfold copyTime clearTime setHasTime clearHasTime
  simp only [BitVec.getLsbD_or, BitVec.getLsbD_and, BitVec.getLsbD_not, getLsbD_setSeconds _ _ hi,
    getLsbD_setMicroSeconds _ t.microSeconds_lt hi,
      getLsbD_setMicroSeconds _ (show 0 < 2 ^ 20 by decide) hi,
    getLsbD_bitHasTime hi]
  by_cases hlow : i < 20
  · simp [hlow, testBit_microSeconds t hlow, Bool.or_comm]
  · by_cases hbit : i = 25
    · simp [hbit]
    · simp [hlow, hbit, show i < 64 by omega]

/-- **A date that was cleared comes back** just if it was there. -/
theorem clearDate_copyDate : t.clearDate.copyDate t = t ↔ t.hasDate := by
  rw [hasDate_bit]
  constructor
  · intro h
    have hbit := getLsbD_clearDate_copyDate t (i := 24) (by decide)
    rw [h] at hbit
    rw [hbit]
    rfl
  intro hset
  apply ext_bits
  · have hparts : t.clearDate.seconds = t.seconds % 86400 :=
      congrArg Parts.seconds (FieldOp.parts_clearDate t)
    rw [copyDate_seconds, hparts, Nat.mod_mod, Nat.add_comm, day_mul_add,
      Nat.mod_eq_of_lt t.seconds_lt]
  · intro i hi
    rw [getLsbD_clearDate_copyDate t hi]
    by_cases hbit : i = 24
    · rw [hbit, hset, Bool.or_true]
    · simp [hbit]

theorem clearTime_copyTime : t.clearTime.copyTime t = t ↔ t.hasTime := by
  rw [hasTime_bit]
  constructor
  · intro h
    have hbit := getLsbD_clearTime_copyTime t (i := 25) (by decide)
    rw [h] at hbit
    rw [hbit]
    rfl
  intro hset
  apply ext_bits
  · have hparts : t.clearTime.seconds = t.day * 86400 :=
      congrArg Parts.seconds (FieldOp.parts_clearTime t)
    rw [copyTime_seconds, day, hparts, Nat.mul_div_cancel _ (by decide), day_mul_add,
      Nat.mod_eq_of_lt t.seconds_lt]
  · intro i hi
    rw [getLsbD_clearTime_copyTime t hi]
    by_cases hbit : i = 25
    · rw [hbit, hset, Bool.or_true]
    · simp [hbit]

end

/-! ## All of it -/

/-- **The parts are apart**: what the operations leave, that they commute, and that a part that was
cleared comes back. -/
structure Separable (d s : DateTime) (year month day hour minute second microsecond : UInt32) :
    Prop where
  copyTime : (d.copyTime s).day = d.day ∧ (d.copyTime s).timeOfDay = s.timeOfDay
  copyDate : (d.copyDate s).day = s.day ∧ (d.copyDate s).timeOfDay = d.timeOfDay
  setDate : (d.setDate year month day).timeOfDay = d.timeOfDay
  setTime : (d.setTime hour minute second microsecond).day = d.day
  seconds : ((d.setDate year month day).setTime hour minute second microsecond).seconds =
    ((d.setTime hour minute second microsecond).setDate year month day).seconds
  microSeconds : ((d.setDate year month day).setTime hour minute second microsecond).microSeconds =
    ((d.setTime hour minute second microsecond).setDate year month day).microSeconds
  clearDate : d.clearDate.copyDate d = d
  clearTime : d.clearTime.copyTime d = d

/-- **When the parts are apart**: the seconds put together fit in 32 bits, or at least what is cut
off is a whole number of days; and a part that is to come back was there. -/
theorem separable_iff (d s : DateTime) (year month day : UInt32) {hour minute second : UInt32}
    (microsecond : UInt32) (hhour : hour < 24) (hminute : minute < 60) (hsecond : second < 60) :
    (((d.copyTime s).day = d.day ∧ (d.copyTime s).timeOfDay = s.timeOfDay) ↔
      d.day * 86400 + s.seconds % 86400 < 2 ^ 32) ∧
    (((d.copyDate s).day = s.day ∧ (d.copyDate s).timeOfDay = d.timeOfDay) ↔
      s.day * 86400 + d.seconds % 86400 < 2 ^ 32) ∧
    ((d.setDate year month day).timeOfDay = d.timeOfDay ↔
      (d.seconds % 86400 + dateStart year month day) / 2 ^ 32 * 2 ^ 32 % 86400 = 0) ∧
    ((d.setTime hour minute second microsecond).day = d.day ↔
      d.day * 86400 + clockSeconds hour minute second < 2 ^ 32) ∧
    ((((d.setDate year month day).setTime hour minute second microsecond).seconds =
        ((d.setTime hour minute second microsecond).setDate year month day).seconds ∧
      ((d.setDate year month day).setTime hour minute second microsecond).microSeconds =
        ((d.setTime hour minute second microsecond).setDate year month day).microSeconds) ↔
      ((d.seconds % 86400 + dateStart year month day) / 2 ^ 32 +
        (d.day * 86400 + clockSeconds hour minute second) / 2 ^ 32) * 2 ^ 32 % 86400 = 0) ∧
    (d.clearDate.copyDate d = d ↔ d.hasDate) ∧
    (d.clearTime.copyTime d = d ↔ d.hasTime) :=
  ⟨copyTime_iff d s, copyDate_iff d s, setDate_iff d year month day,
    setTime_iff d microsecond hhour hminute hsecond,
    setDate_setTime_iff d year month day microsecond hhour hminute hsecond,
    clearDate_copyDate d, clearTime_copyTime d⟩

/-- The last day before the cut. -/
def lastDay : DateTime := null.setDate 2106 2 7

def noon : DateTime := null.setTime 12 0 0 0

/-- On the last day a later time of day has no value; the other parts are apart. -/
theorem separable_iff_lastDay :
    ¬ ((lastDay.copyTime noon).day = lastDay.day ∧
      (lastDay.copyTime noon).timeOfDay = noon.timeOfDay) ∧
    ((lastDay.copyDate noon).day = noon.day ∧
      (lastDay.copyDate noon).timeOfDay = lastDay.timeOfDay) ∧
    (lastDay.setDate 2024 2 29).timeOfDay = lastDay.timeOfDay ∧
    ¬ (lastDay.setTime 23 59 59 999999).day = lastDay.day ∧
    ¬ (((lastDay.setDate 2024 2 29).setTime 23 59 59 999999).seconds =
        ((lastDay.setTime 23 59 59 999999).setDate 2024 2 29).seconds ∧
      ((lastDay.setDate 2024 2 29).setTime 23 59 59 999999).microSeconds =
        ((lastDay.setTime 23 59 59 999999).setDate 2024 2 29).microSeconds) ∧
    lastDay.clearDate.copyDate lastDay = lastDay ∧
    ¬ lastDay.clearTime.copyTime lastDay = lastDay := by
  obtain ⟨copyTime, copyDate, setDate, setTime, commute, clearDate, clearTime⟩ :=
    @separable_iff lastDay noon 2024 2 29 23 59 59 999999 (by decide) (by decide) (by decide)
  exact ⟨mt copyTime.mp (by decide), copyDate.mpr (by decide), setDate.mpr (by decide +kernel),
    mt setTime.mp (by decide +kernel), mt commute.mp (by decide +kernel),
    clearDate.mpr (by decide), mt clearTime.mp (by decide)⟩

/-- On that day the time of day is not taken over. -/
theorem not_separable : ¬ ∀ (d s : DateTime)
    (year month day hour minute second microsecond : UInt32),
    d.microSeconds < 10 ^ 6 → s.microSeconds < 10 ^ 6 → hour < 24 → minute < 60 → second < 60 →
      Separable d s year month day hour minute second microsecond := by
  intro hall
  have h := hall lastDay noon 2024 2 29 23 59 59 999999 (by decide) (by decide) (by decide)
    (by decide) (by decide)
  exact absurd h.copyTime (by decide +kernel)

end DateTime

end Mama
