import OpenMama.Lib.Packed
import OpenMama.Mama.DateTimeSeconds

/-!
# The fields of a date-time

What can be read back of a date-time are its seconds, microseconds, precision and
hints (`Parts`); bits 20 to 23 belong to none of them.  The accessors cut what they
read to the field, but what they write they only shift to its place, so a value that
is too wide for its field runs into the fields above.

`FieldOp.keepsApart_iff` says for each of the operations that set fields when nothing
runs over: a setter of microseconds is wrong where their bits 24 to 27 are not hints
that it leaves anyway, and a setter of the precision where a sixteenth of it is not
among the bits of the seconds.
-/

namespace Mama

namespace DateTime

/-! ## Accessors -/

def maskHint : BitVec 64 := 0x000000000f000000#64

/-- `mamaDateTimeImpl_getHint`. -/
def hint : DateTime → Nat := getField maskHint 24

/-- `mamaDateTimeImpl_setHint`. -/
def setHint : DateTime → Nat → DateTime := setField maskHint 24

/-- `mamaDateTimeImpl_clearHasDate`. -/
def clearHasDate (t : DateTime) : DateTime := ⟨t.word &&& ~~~bitHasDate⟩

/-- `mamaDateTimeImpl_clearHasTime`. -/
def clearHasTime (t : DateTime) : DateTime := ⟨t.word &&& ~~~bitHasTime⟩

/-- `mamaDateTimeImpl_clearMicroSeconds`. -/
def clearMicroSeconds (t : DateTime) : DateTime := ⟨t.word &&& ~~~maskMicroSeconds⟩

/-- `mamaDateTimeImpl_clearDate`. -/
def clearDate (t : DateTime) : DateTime := (t.setSeconds (t.seconds % 86400)).clearHasDate

/-- `mamaDateTimeImpl_clearTime`. -/
def clearTime (t : DateTime) : DateTime :=
  ((t.setSeconds (t.seconds / 86400 * 86400)).setMicroSeconds 0).clearHasTime

/-! ## What is read back -/

structure Parts where
  seconds : Nat
  microSeconds : Nat
  precision : Nat
  hint : Nat
  deriving DecidableEq, Repr

/-- `mamaDateTime_getWithHints`. -/
def parts (t : DateTime) : Parts := ⟨t.seconds, t.microSeconds, t.precision, t.hint⟩

def secondsField : Lib.Field 64 := ⟨32, 32, by decide⟩
def microSecondsField : Lib.Field 64 := ⟨0, 20, by decide⟩
def precisionField : Lib.Field 64 := ⟨28, 4, by decide⟩
def hintField : Lib.Field 64 := ⟨24, 4, by decide⟩

theorem getField_mask (f : Lib.Field 64) (t : DateTime) :
    getField f.mask f.shift t = f.get t.word := by
  apply Nat.eq_of_testBit_eq
  intro i
  have hfits := f.fits
  rw [getField, BitVec.toNat_ushiftRight, Nat.testBit_shiftRight, BitVec.testBit_toNat,
    BitVec.getLsbD_and, Lib.Field.testBit_get]
  by_cases hi : f.shift + i < 64
  · have hle : f.shift ≤ f.shift + i := by omega
    rw [Lib.Field.getLsbD_mask f hi, Bool.and_comm]
    simp [hle]
  · have hout : ¬ i < f.width := by omega
    rw [BitVec.getLsbD_of_ge _ _ (by omega)]
    simp [hout]

section

variable (t : DateTime)

theorem seconds_get : t.seconds = secondsField.get t.word :=
  getField_mask secondsField t

theorem microSeconds_get : t.microSeconds = microSecondsField.get t.word :=
  getField_mask microSecondsField t

theorem precision_get : t.precision = precisionField.get t.word :=
  getField_mask precisionField t

theorem hint_get : t.hint = hintField.get t.word :=
  getField_mask hintField t

theorem parts_eq : t.parts =
    ⟨secondsField.get t.word, microSecondsField.get t.word, precisionField.get t.word,
      hintField.get t.word⟩ := by
  rw [parts, seconds_get, microSeconds_get, precision_get, hint_get]

theorem microSeconds_lt : t.microSeconds < 2 ^ 20 := by
  rw [microSeconds_get]
  exact Lib.Field.get_lt _ _

theorem precision_lt : t.precision < 16 := by
  rw [precision_get]
  exact Lib.Field.get_lt _ _

theorem hint_lt : t.hint < 16 := by
  rw [hint_get]
  exact Lib.Field.get_lt _ _

omit t in
@[simp] theorem parts_null : null.parts = ⟨0, 0, 0, 0⟩ := by decide

/-! ### What a setter does to the fields -/

theorem parts_setSeconds (n : Nat) :
    (t.setSeconds n).parts = { t.parts with seconds := n % 2 ^ 32 } := by
  have hword : (t.setSeconds n).word = secondsField.put t.word n := rfl
  rw [parts_eq, parts_eq, hword, Lib.Field.get_put_self,
    Lib.Field.get_put_below (g := microSecondsField) _ _ (by decide),
    Lib.Field.get_put_below (g := precisionField) _ _ (by decide),
    Lib.Field.get_put_below (g := hintField) _ _ (by decide)]
  rfl

theorem parts_setPrecision (n : Nat) :
    (t.setPrecision n).parts =
      { t.parts with
        precision := n % 16
        seconds := t.parts.seconds ||| n / 16 % 2 ^ 32 } := by
  have hword : (t.setPrecision n).word = precisionField.put t.word n := rfl
  rw [parts_eq, parts_eq, hword, Lib.Field.get_put_self,
    Lib.Field.get_put_below (g := microSecondsField) _ _ (by decide),
    Lib.Field.get_put_below (g := hintField) _ _ (by decide),
    Lib.Field.get_put_above (g := secondsField) _ _ (by decide)]
  rfl

theorem parts_setHint (n : Nat) :
    (t.setHint n).parts =
      { t.parts with
        hint := n % 16
        precision := t.parts.precision ||| n / 16 % 16
        seconds := t.parts.seconds ||| n / 2 ^ 8 % 2 ^ 32 } := by
  have hword : (t.setHint n).word = hintField.put t.word n := rfl
  rw [parts_eq, parts_eq, hword, Lib.Field.get_put_self,
    Lib.Field.get_put_below (g := microSecondsField) _ _ (by decide),
    Lib.Field.get_put_above (g := precisionField) _ _ (by decide),
    Lib.Field.get_put_above (g := secondsField) _ _ (by decide)]
  rfl

theorem parts_setMicroSeconds (n : Nat) :
    (t.setMicroSeconds n).parts =
      { microSeconds := n % 2 ^ 20
        hint := t.parts.hint ||| n / 2 ^ 24 % 16
        precision := t.parts.precision ||| n / 2 ^ 28 % 16
        seconds := t.parts.seconds ||| n / 2 ^ 32 % 2 ^ 32 } := by
  have hword : (t.setMicroSeconds n).word = microSecondsField.put t.word n := rfl
  rw [parts_eq, parts_eq, hword, Lib.Field.get_put_self,
    Lib.Field.get_put_above (g := hintField) _ _ (by decide),
    Lib.Field.get_put_above (g := precisionField) _ _ (by decide),
    Lib.Field.get_put_above (g := secondsField) _ _ (by decide)]
  rfl

/-! ### Flags -/

theorem parts_or (v : BitVec 64) :
    (DateTime.mk (t.word ||| v)).parts =
      { seconds := t.seconds ||| secondsField.get v
        microSeconds := t.microSeconds ||| microSecondsField.get v
        precision := t.precision ||| precisionField.get v
        hint := t.hint ||| hintField.get v } := by
  rw [parts_eq, seconds_get, microSeconds_get, precision_get, hint_get]
  simp [Lib.Field.get_or]

theorem parts_and (v : BitVec 64) :
    (DateTime.mk (t.word &&& v)).parts =
      { seconds := t.seconds &&& secondsField.get v
        microSeconds := t.microSeconds &&& microSecondsField.get v
        precision := t.precision &&& precisionField.get v
        hint := t.hint &&& hintField.get v } := by
  rw [parts_eq, seconds_get, microSeconds_get, precision_get, hint_get]
  simp [Lib.Field.get_and]

theorem parts_setHasDate :
    t.setHasDate.parts = { t.parts with hint := t.parts.hint ||| 1 } := by
  rw [setHasDate, parts_or, show secondsField.get bitHasDate = 0 by decide,
    show microSecondsField.get bitHasDate = 0 by decide,
    show precisionField.get bitHasDate = 0 by decide, show hintField.get bitHasDate = 1 by decide]
  simp [parts]

theorem parts_setHasTime :
    t.setHasTime.parts = { t.parts with hint := t.parts.hint ||| 2 } := by
  rw [setHasTime, parts_or, show secondsField.get bitHasTime = 0 by decide,
    show microSecondsField.get bitHasTime = 0 by decide,
    show precisionField.get bitHasTime = 0 by decide, show hintField.get bitHasTime = 2 by decide]
  simp [parts]

theorem seconds_and : t.seconds &&& (2 ^ 32 - 1) = t.seconds := by
  rw [Nat.and_two_pow_sub_one_eq_mod, Nat.mod_eq_of_lt t.seconds_lt]

theorem microSeconds_and : t.microSeconds &&& (2 ^ 20 - 1) = t.microSeconds := by
  rw [Nat.and_two_pow_sub_one_eq_mod, Nat.mod_eq_of_lt t.microSeconds_lt]

theorem precision_and : t.precision &&& (2 ^ 4 - 1) = t.precision := by
  rw [Nat.and_two_pow_sub_one_eq_mod, Nat.mod_eq_of_lt t.precision_lt]

theorem hint_and : t.hint &&& (2 ^ 4 - 1) = t.hint := by
  rw [Nat.and_two_pow_sub_one_eq_mod, Nat.mod_eq_of_lt t.hint_lt]

theorem parts_clearHasDate :
    t.clearHasDate.parts = { t.parts with hint := t.parts.hint &&& 14 } := by
  rw [clearHasDate, parts_and, show secondsField.get (~~~bitHasDate) = 2 ^ 32 - 1 by decide,
    show microSecondsField.get (~~~bitHasDate) = 2 ^ 20 - 1 by decide,
    show precisionField.get (~~~bitHasDate) = 2 ^ 4 - 1 by decide, seconds_and, microSeconds_and,
      precision_and]
  rfl

theorem parts_clearHasTime :
    t.clearHasTime.parts = { t.parts with hint := t.parts.hint &&& 13 } := by
  rw [clearHasTime, parts_and, show secondsField.get (~~~bitHasTime) = 2 ^ 32 - 1 by decide,
    show microSecondsField.get (~~~bitHasTime) = 2 ^ 20 - 1 by decide,
    show precisionField.get (~~~bitHasTime) = 2 ^ 4 - 1 by decide, seconds_and, microSeconds_and,
      precision_and]
  rfl

theorem parts_clearSeconds : t.clearSeconds.parts = { t.parts with seconds := 0 } := by
  rw [clearSeconds, parts_and, show secondsField.get (~~~maskSeconds) = 0 by decide,
    show microSecondsField.get (~~~maskSeconds) = 2 ^ 20 - 1 by decide,
    show precisionField.get (~~~maskSeconds) = 2 ^ 4 - 1 by decide,
    show hintField.get (~~~maskSeconds) = 2 ^ 4 - 1 by decide, microSeconds_and, precision_and,
    hint_and, Nat.and_zero]
  rfl

theorem parts_clearMicroSeconds :
    t.clearMicroSeconds.parts = { t.parts with microSeconds := 0 } := by
  rw [clearMicroSeconds, parts_and,
    show secondsField.get (~~~maskMicroSeconds) = 2 ^ 32 - 1 by decide,
    show microSecondsField.get (~~~maskMicroSeconds) = 0 by decide,
    show precisionField.get (~~~maskMicroSeconds) = 2 ^ 4 - 1 by decide,
    show hintField.get (~~~maskMicroSeconds) = 2 ^ 4 - 1 by decide, seconds_and, precision_and,
    hint_and, Nat.and_zero]
  rfl

theorem hasDate_eq : t.hasDate = t.hint.testBit 0 := by
  rw [hint_get, Lib.Field.testBit_get, hasDate, show bitHasDate = BitVec.twoPow 64 24 by decide,
    BitVec.and_twoPow]
  show _ = t.word.getLsbD 24
  cases t.word.getLsbD 24 <;> decide

theorem hasTime_eq : t.hasTime = t.hint.testBit 1 := by
  rw [hint_get, Lib.Field.testBit_get, hasTime, show bitHasTime = BitVec.twoPow 64 25 by decide,
    BitVec.and_twoPow]
  show _ = t.word.getLsbD 25
  cases t.word.getLsbD 25 <;> decide

end

/-! ## Operations that set fields -/

/-- `mamaDateTime_setEpochTime`. -/
def setEpochTime (seconds microseconds precision : UInt32) : DateTime :=
  let t := ((null.setSeconds seconds.toNat).setMicroSeconds microseconds.toNat).setPrecision
    precision.toNat
  if seconds > 86400 then t.setHasTime.setHasDate else t.setHasTime

/-- `mamaDateTime_setWithHints`. -/
def setWithHints (seconds microseconds precision : UInt32) (hints : UInt8) : DateTime :=
  let t := ((null.setSeconds seconds.toNat).setMicroSeconds microseconds.toNat).setPrecision
    precision.toNat
  let t := t.setHasTime.setHint hints.toNat
  if seconds > 86400 then t.setHasDate else t

/-- The seconds that `mamaDateTime_setTimeWithPrecisionAndTz` computes: those of the day that is
there with the time of day, less the offset of the time zone if there is one.  The computation goes
through signed and unsigned 32 bits, which wrap alike. -/
def timeSeconds (t : DateTime) (hour minute second : UInt32) (tz : Option Int) : Nat :=
  (((t.seconds / 86400 * 86400 + (second + 60 * (minute + 60 * hour)).toNat : Nat) - tz.getD 0) %
    2 ^ 32).toNat

/-- `mamaDateTime_setTimeWithPrecisionAndTz`. -/
def setTimeWithPrecisionAndTz (t : DateTime) (hour minute second microsecond precision : UInt32)
    (tz : Option Int) : DateTime :=
  (((t.setSeconds (t.timeSeconds hour minute second tz)).setMicroSeconds
    microsecond.toNat).setPrecision precision.toNat).setHasTime

/-- The seconds that `mamaDateTime_setDate` computes. -/
def dateSeconds (t : DateTime) (year month day : UInt32) : Nat :=
  (t.seconds % 86400 + makeTime (toInt year.toNat) (toInt month.toNat) (toInt day.toNat) 0 0 0) %
    2 ^ 32

/-- `mamaDateTime_setDate`. -/
def setDate (t : DateTime) (year month day : UInt32) : DateTime :=
  (t.setSeconds (t.dateSeconds year month day)).setHasDate

/-- `mamaDateTime_copyTime`. -/
def copyTime (dest src : DateTime) : DateTime :=
  ((dest.setSeconds ((dest.seconds / 86400 * 86400 + src.seconds % 86400) % 2 ^ 32)).setMicroSeconds
    src.microSeconds).setHasTime

/-- `mamaDateTime_copyDate`. -/
def copyDate (dest src : DateTime) : DateTime :=
  (dest.setSeconds
    ((dest.seconds % 86400 + src.seconds / 86400 * 86400) % 2 ^ 32)).setHasDate

/-- The operations that set fields, with their arguments. -/
inductive FieldOp
  | setEpochTime (seconds microseconds precision : UInt32)
  | setWithHints (seconds microseconds precision : UInt32) (hints : UInt8)
  | setPrecision (precision : UInt32)
  | setTimeWithPrecisionAndTz (hour minute second microsecond precision : UInt32) (tz : Option Int)
  | setDate (year month day : UInt32)
  | copyTime (src : DateTime)
  | copyDate (src : DateTime)
  | clearDate
  | clearTime

namespace FieldOp

def apply (t : DateTime) : FieldOp → DateTime
  | setEpochTime seconds microseconds precision =>
    DateTime.setEpochTime seconds microseconds precision
  | setWithHints seconds microseconds precision hints =>
    DateTime.setWithHints seconds microseconds precision hints
  | setPrecision precision => t.setPrecision precision.toNat
  | setTimeWithPrecisionAndTz hour minute second microsecond precision tz =>
    t.setTimeWithPrecisionAndTz hour minute second microsecond precision tz
  | setDate year month day => t.setDate year month day
  | copyTime src => t.copyTime src
  | copyDate src => t.copyDate src
  | clearDate => t.clearDate
  | clearTime => t.clearTime

/-- The hints of a time with that many seconds since the epoch. -/
def hintOf (seconds : UInt32) : Nat := if seconds > 86400 then 3 else 2

/-- **What is to be read back**: the value written, cut to its field, where the operation sets the
field, and else what was there. -/
def written (t : DateTime) : FieldOp → Parts
  | setEpochTime seconds microseconds precision =>
    ⟨seconds.toNat, microseconds.toNat % 2 ^ 20, precision.toNat % 16, hintOf seconds⟩
  | setWithHints seconds microseconds precision hints =>
    ⟨seconds.toNat, microseconds.toNat % 2 ^ 20, precision.toNat % 16,
      hints.toNat % 16 ||| (if seconds > 86400 then 1 else 0)⟩
  | setPrecision precision => { t.parts with precision := precision.toNat % 16 }
  | setTimeWithPrecisionAndTz hour minute second microsecond precision tz =>
    ⟨t.timeSeconds hour minute second tz, microsecond.toNat % 2 ^ 20, precision.toNat % 16,
      t.hint ||| 2⟩
  | setDate year month day =>
    { t.parts with seconds := t.dateSeconds year month day, hint := t.hint ||| 1 }
  | copyTime src =>
    { t.parts with
      seconds := (t.seconds / 86400 * 86400 + src.seconds % 86400) % 2 ^ 32
      microSeconds := src.microSeconds
      hint := t.hint ||| 2 }
  | copyDate src =>
    { t.parts with
      seconds := (t.seconds % 86400 + src.seconds / 86400 * 86400) % 2 ^ 32
      hint := t.hint ||| 1 }
  | clearDate => { t.parts with seconds := t.seconds % 86400, hint := t.hint &&& 14 }
  | clearTime =>
    { t.parts with
      seconds := t.seconds / 86400 * 86400
      microSeconds := 0
      hint := t.hint &&& 13 }

/-- What runs over the field of the microseconds is among the hints, and what runs over the field
of the precision among the bits of the seconds; the hints run into the precision. -/
def KeepsApart (t : DateTime) : FieldOp → Prop
  | setEpochTime seconds microseconds precision =>
    hintOf seconds ||| microseconds.toNat / 2 ^ 24 % 16 = hintOf seconds ∧
      seconds.toNat ||| precision.toNat / 16 = seconds.toNat
  | setWithHints seconds _ precision hints =>
    precision.toNat % 16 ||| hints.toNat / 16 = precision.toNat % 16 ∧
      seconds.toNat ||| precision.toNat / 16 = seconds.toNat
  | setPrecision precision => t.seconds ||| precision.toNat / 16 = t.seconds
  | setTimeWithPrecisionAndTz hour minute second microsecond precision tz =>
    (t.hint ||| 2) ||| microsecond.toNat / 2 ^ 24 % 16 = t.hint ||| 2 ∧
      t.timeSeconds hour minute second tz ||| precision.toNat / 16 =
        t.timeSeconds hour minute second tz
  | setDate _ _ _ | copyTime _ | copyDate _ | clearDate | clearTime => True

instance (t : DateTime) (op : FieldOp) : Decidable (op.KeepsApart t) := by
  cases op <;> (unfold KeepsApart; infer_instance)

/-! ### Reading back -/

theorem parts_setEpochTime (seconds microseconds precision : UInt32) :
    (DateTime.setEpochTime seconds microseconds precision).parts =
      { seconds := seconds.toNat ||| precision.toNat / 16
        microSeconds := microseconds.toNat % 2 ^ 20
        precision := precision.toNat % 16
        hint := hintOf seconds ||| microseconds.toNat / 2 ^ 24 % 16 } := by
  have hseconds := seconds.toNat_lt
  have hmicros := microseconds.toNat_lt
  have hprecision := precision.toNat_lt
  have hwhole : seconds.toNat % 2 ^ 32 = seconds.toNat := Nat.mod_eq_of_lt hseconds
  have hover : microseconds.toNat / 2 ^ 32 % 2 ^ 32 = 0 := by omega
  have hcut : precision.toNat / 16 % 2 ^ 32 = precision.toNat / 16 := by omega
  unfold DateTime.setEpochTime hintOf
  split
  · simp only [parts_setHasDate, parts_setHasTime, parts_setPrecision, parts_setMicroSeconds,
      parts_setSeconds, parts_null, hwhole, hover, hcut, Nat.or_zero, Nat.zero_or, Parts.mk.injEq,
      true_and]
    rw [Nat.or_assoc, Nat.or_comm]
    rfl
  · simp only [parts_setHasTime, parts_setPrecision, parts_setMicroSeconds, parts_setSeconds,
      parts_null, hwhole, hover, hcut, Nat.or_zero, Nat.zero_or, Parts.mk.injEq, true_and]
    rw [Nat.or_comm]

theorem parts_setWithHints (seconds microseconds precision : UInt32) (hints : UInt8) :
    (DateTime.setWithHints seconds microseconds precision hints).parts =
      { seconds := seconds.toNat ||| precision.toNat / 16
        microSeconds := microseconds.toNat % 2 ^ 20
        precision := precision.toNat % 16 ||| hints.toNat / 16
        hint := hints.toNat % 16 ||| (if seconds > 86400 then 1 else 0) } := by
  have hseconds := seconds.toNat_lt
  have hmicros := microseconds.toNat_lt
  have hprecision := precision.toNat_lt
  have hhints := hints.toNat_lt
  have hwhole : seconds.toNat % 2 ^ 32 = seconds.toNat := Nat.mod_eq_of_lt hseconds
  have hover : microseconds.toNat / 2 ^ 32 % 2 ^ 32 = 0 := by omega
  have hcut : precision.toNat / 16 % 2 ^ 32 = precision.toNat / 16 := by omega
  have hfar : hints.toNat / 2 ^ 8 % 2 ^ 32 = 0 := by omega
  have hnear : hints.toNat / 16 % 16 = hints.toNat / 16 := by omega
  unfold DateTime.setWithHints
  split <;>
    simp [-Nat.reducePow, parts_setHasDate, parts_setHint, parts_setHasTime, parts_setPrecision,
      parts_setMicroSeconds, parts_setSeconds, hwhole, hover, hcut, hfar, hnear]

section

variable (t : DateTime)

include t

theorem timeSeconds_lt (hour minute second : UInt32) (tz : Option Int) :
    t.timeSeconds hour minute second tz < 2 ^ 32 := by
  unfold timeSeconds
  omega

theorem parts_setTime (hour minute second microsecond precision : UInt32)
    (tz : Option Int) :
    (t.setTimeWithPrecisionAndTz hour minute second microsecond precision tz).parts =
      { seconds := t.timeSeconds hour minute second tz ||| precision.toNat / 16
        microSeconds := microsecond.toNat % 2 ^ 20
        precision := precision.toNat % 16
        hint := (t.hint ||| 2) ||| microsecond.toNat / 2 ^ 24 % 16 } := by
  have hmicros := microsecond.toNat_lt
  have hprecision := precision.toNat_lt
  have hwhole := Nat.mod_eq_of_lt (timeSeconds_lt t hour minute second tz)
  have hover : microsecond.toNat / 2 ^ 32 % 2 ^ 32 = 0 := by omega
  have hcut : precision.toNat / 16 % 2 ^ 32 = precision.toNat / 16 := by omega
  unfold DateTime.setTimeWithPrecisionAndTz
  simp only [parts_setHasTime, parts_setPrecision, parts_setMicroSeconds, parts_setSeconds, hwhole,
    hover, hcut, Nat.or_zero]
  rw [Nat.or_assoc, Nat.or_comm _ 2, ← Nat.or_assoc]
  rfl

theorem parts_setDate (year month day : UInt32) :
    (t.setDate year month day).parts =
      { t.parts with seconds := t.dateSeconds year month day, hint := t.hint ||| 1 } := by
  have hwhole : t.dateSeconds year month day % 2 ^ 32 = t.dateSeconds year month day :=
    Nat.mod_mod _ _
  rw [DateTime.setDate, parts_setHasDate, parts_setSeconds, hwhole]
  rfl

omit t in
theorem parts_copyTime (dest src : DateTime) :
    (dest.copyTime src).parts =
      { dest.parts with
        seconds := (dest.seconds / 86400 * 86400 + src.seconds % 86400) % 2 ^ 32
        microSeconds := src.microSeconds
        hint := dest.hint ||| 2 } := by
  have hmicros := src.microSeconds_lt
  have hsmall : src.microSeconds % 2 ^ 20 = src.microSeconds := Nat.mod_eq_of_lt hmicros
  have hnone : ∀ k, 20 ≤ k → src.microSeconds / 2 ^ k = 0 := by
    intro k hk; exact Nat.div_eq_of_lt (hmicros.trans_le (Nat.pow_le_pow_right (by decide) hk))
  unfold DateTime.copyTime
  simp only [parts_setHasTime, parts_setMicroSeconds, parts_setSeconds, hsmall, Nat.mod_mod,
    hnone 24 (by decide), hnone 28 (by decide), hnone 32 (by decide), Nat.zero_mod, Nat.or_zero]
  rfl

omit t in
theorem parts_copyDate (dest src : DateTime) :
    (dest.copyDate src).parts =
      { dest.parts with
        seconds := (dest.seconds % 86400 + src.seconds / 86400 * 86400) % 2 ^ 32
        hint := dest.hint ||| 1 } := by
  rw [DateTime.copyDate, parts_setHasDate, parts_setSeconds, Nat.mod_mod]
  rfl

theorem parts_clearDate :
    t.clearDate.parts = { t.parts with seconds := t.seconds % 86400, hint := t.hint &&& 14 } := by
  have hwhole : t.seconds % 86400 % 2 ^ 32 = t.seconds % 86400 := by omega
  rw [DateTime.clearDate, parts_clearHasDate, parts_setSeconds, hwhole]
  rfl

theorem parts_clearTime :
    t.clearTime.parts =
      { t.parts with
        seconds := t.seconds / 86400 * 86400
        microSeconds := 0
        hint := t.hint &&& 13 } := by
  have hlt := t.seconds_lt
  have hwhole : t.seconds / 86400 * 86400 % 2 ^ 32 = t.seconds / 86400 * 86400 := by omega
  unfold DateTime.clearTime
  simp only [parts_clearHasTime, parts_setMicroSeconds, parts_setSeconds, hwhole, Nat.zero_div,
    Nat.zero_mod, Nat.or_zero]
  rfl

end

/-- **The fields are independent just if nothing runs over.** -/
theorem keepsApart_iff (op : FieldOp) (t : DateTime) :
    (op.apply t).parts = op.written t ↔ op.KeepsApart t := by
  cases op with
  | setEpochTime seconds microseconds precision =>
    show (DateTime.setEpochTime _ _ _).parts = _ ↔ _
    rw [parts_setEpochTime, written, Parts.mk.injEq]
    simp only [true_and]
    exact and_comm
  | setWithHints seconds microseconds precision hints =>
    show (DateTime.setWithHints _ _ _ _).parts = _ ↔ _
    rw [parts_setWithHints, written, Parts.mk.injEq]
    simp only [true_and, and_true]
    exact and_comm
  | setPrecision precision =>
    have hprecision := precision.toNat_lt
    have hcut : precision.toNat / 16 % 2 ^ 32 = precision.toNat / 16 := by omega
    show (t.setPrecision _).parts = _ ↔ _
    rw [parts_setPrecision, written, KeepsApart, hcut, Parts.mk.injEq]
    simp [parts]
  | setTimeWithPrecisionAndTz hour minute second microsecond precision tz =>
    show (t.setTimeWithPrecisionAndTz _ _ _ _ _ _).parts = _ ↔ _
    rw [parts_setTime, written, Parts.mk.injEq]
    simp only [true_and]
    exact and_comm
  | setDate year month day => exact iff_of_true (parts_setDate t year month day) trivial
  | copyTime src => exact iff_of_true (parts_copyTime t src) trivial
  | copyDate src => exact iff_of_true (parts_copyDate t src) trivial
  | clearDate => exact iff_of_true (parts_clearDate t) trivial
  | clearTime => exact iff_of_true (parts_clearTime t) trivial

/-- Microseconds that say that there is a date. -/
theorem microSeconds_run_over : ¬ ∀ (op : FieldOp) (t : DateTime),
    (op.apply t).parts = op.written t := by
  intro hall
  exact absurd (hall (.setEpochTime 10 16777216 6) null) (by decide)

end FieldOp

end DateTime

end Mama
