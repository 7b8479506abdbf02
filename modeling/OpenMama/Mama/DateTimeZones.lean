import OpenMama.Mama.DateTimeEpoch
import OpenMama.Mama.DateTimeFormat
import OpenMama.Mama.DateTimeParsing

/-!
# Date-times in a time zone

The getters that take a time zone add its offset to the seconds, each for itself, and
the setters take it off.  `Shifts` collects what holds for every offset, negative ones
and those that lead to another day included.

`mamaDateTime_getStructTimeValWithTz` adds the offset to the microseconds, so it tells
the local time just if there is none (`zones_agree_iff`).
-/

namespace Mama

namespace DateTime

/-! ## Getters and setters -/

/-- `mamaDateTime_getEpochTimeWithTz`: the seconds, in 32 bits, and the microseconds. -/
def getEpochTimeWithTz (t : DateTime) (tz : Option Int) : Nat × Nat :=
  (((t.seconds + tz.getD 0) % 2 ^ 32).toNat, t.microSeconds)

/-- `struct timeval`. -/
structure TimeVal where
  tvSec : Int
  tvUsec : Int
  deriving DecidableEq, Repr

/-- `mamaDateTime_getStructTimeValWithTz`. -/
def getStructTimeValWithTz (t : DateTime) (tz : Option Int) : TimeVal :=
  let result : TimeVal := ⟨t.seconds, t.microSeconds⟩
  match tz with
  | some offset => { result with tvUsec := result.tvUsec + offset }
  | none => result

/-- `mamaDateTime_getStructTmWithTz`. -/
def getStructTmWithTz (t : DateTime) (tz : Option Int) : Tm :=
  utcTm ((t.seconds + tz.getD 0) % 2 ^ 32).toNat

/-- `mamaDateTime_setWithPrecisionAndTz`. -/
def setWithPrecisionAndTz (year month day hour minute second microsecond precision : UInt32)
    (tz : Option Int) : DateTime :=
  (null.setDate year month day).setTimeWithPrecisionAndTz hour minute second microsecond precision
    tz

/-! ## The local time -/

def localSeconds (t : DateTime) (tz : Option Int) : Int := t.seconds + tz.getD 0

def InZone (t : DateTime) (tz : Option Int) : Prop :=
  0 ≤ t.localSeconds tz ∧ t.localSeconds tz < 2 ^ 32

instance (t : DateTime) (tz : Option Int) : Decidable (t.InZone tz) :=
  inferInstanceAs (Decidable (_ ∧ _))

def localTm (t : DateTime) (tz : Option Int) : Tm := gmtime (t.localSeconds tz).toNat

structure Stamp.Tells (s : Stamp) (tm : Tm) : Prop where
  year : (s.year.value : Int) = tm.year + 1900
  month : (s.month.value : Int) = tm.mon + 1
  day : (s.day.value : Int) = tm.mday
  hour : (s.hour.value : Int) = tm.hour
  minute : (s.minute.value : Int) = tm.min
  second : (s.second.value : Int) = tm.sec

/-- **What every offset leaves right.** -/
structure Shifts (t : DateTime) (tz : Option Int) : Prop where
  epoch : ((t.getEpochTimeWithTz tz).1 : Int) = t.localSeconds tz ∧
    (t.getEpochTimeWithTz tz).2 = t.microSeconds
  micros : (t.getEpochTimeMicrosecondsWithTz tz : Int) =
    1000000 * t.localSeconds tz + t.microSeconds
  millis : (t.getEpochTimeMillisecondsWithTz tz : Int) =
    1000 * t.localSeconds tz + (t.microSeconds / 1000 : Nat)
  structTm : t.getStructTmWithTz tz = t.localTm tz
  fromString : ∀ s : Stamp, s.Tells (t.localTm tz) → s.digits.length ≤ 6 →
    (setFromStringWithTz s.text tz).seconds = t.seconds
  withPrecision : let tm := t.localTm tz
    (setWithPrecisionAndTz (UInt32.ofNat (tm.year + 1900).toNat) (UInt32.ofNat (tm.mon + 1).toNat)
      (UInt32.ofNat tm.mday.toNat) (UInt32.ofNat tm.hour.toNat) (UInt32.ofNat tm.min.toNat)
      (UInt32.ofNat tm.sec.toNat) (UInt32.ofNat t.microSeconds) (UInt32.ofNat t.precision)
      tz).seconds = t.seconds

/-- **All getters tell the local time**, and the setters lead back. -/
structure Agrees (t : DateTime) (tz : Option Int) : Prop extends Shifts t tz where
  timeVal : t.getStructTimeValWithTz tz = ⟨t.localSeconds tz, t.microSeconds⟩
  range : 0 ≤ (t.getStructTimeValWithTz tz).tvUsec ∧
    (t.getStructTimeValWithTz tz).tvUsec < 1000000
  formatted : ∀ maxLen fmt, t.getAsFormattedStringWithTz maxLen fmt tz =
    (expand (t.shown (t.localTm tz)) fmt).take (maxLen - 1)

/-! ## Setting a local time -/

section

variable {t : DateTime} {tz : Option Int}

theorem seconds_of_tells {time : Nat} (h : time < 2 ^ 32) {s : Stamp} (hs : s.Tells (gmtime time)) :
    s.seconds = time := by
  obtain ⟨y, m, d, hgm, hcount, hm, hd, hfirst, -⟩ := gmtime_spec time h
  rw [hgm] at hs
  obtain ⟨hyear, hmonth, hday, hhour, hminute, hsecond⟩ := hs
  dsimp only at hyear hmonth hday hhour hminute hsecond
  have hy : s.year.value = y := by omega
  have hm' : s.month.value - 1 = m := by omega
  have hd' : s.day.value - 1 = d := by omega
  rw [Stamp.seconds, hy, hm']
  omega

theorem seconds_fromString (h : t.InZone tz) {s : Stamp} (hs : s.Tells (t.localTm tz))
    (hdigits : s.digits.length ≤ 6) : (setFromStringWithTz s.text tz).seconds = t.seconds := by
  obtain ⟨hlow, hhigh⟩ := h
  have hseconds := seconds_of_tells (by omega) hs
  have hlocal : s.seconds = t.localSeconds tz := by omega
  have hlt := t.seconds_lt
  have hin : s.InRange := ⟨by omega, by omega⟩
  obtain ⟨hmicros, hsmall⟩ := Stamp.micros_of_le hdigits
  obtain ⟨hread, -, -, -⟩ := Parts.mk.inj (Stamp.parts_read s.digits.length
    ((s.seconds - tz.getD 0) % 2 ^ 64).toNat (s.number * 10 ^ (6 - s.digits.length) % 2 ^ 64))
  have hover : s.micros % 2 ^ 64 / 2 ^ 32 % 2 ^ 32 = 0 := by omega
  rw [← Stamp.setFromStringWithTz_stamp hin tz, hmicros, hover, Nat.or_zero, hlocal] at hread
  rw [hread]
  unfold localSeconds
  omega

theorem toNat_ofNat_of_lt {n : Nat} (h : n < 2 ^ 32) : (UInt32.ofNat n).toNat = n :=
  UInt32.toNat_ofNat_of_lt' h

theorem toNat_secondOfDay {hour minute second : Nat} (hhour : hour < 24) (hminute : minute < 60)
    (hsecond : second < 60) :
    (UInt32.ofNat second + 60 * (UInt32.ofNat minute + 60 * UInt32.ofNat hour)).toNat =
      hour * 3600 + minute * 60 + second := by
  have hsixty : (60 : UInt32).toNat = 60 := rfl
  rw [UInt32.toNat_add, UInt32.toNat_mul, UInt32.toNat_add, UInt32.toNat_mul, hsixty,
    toNat_ofNat_of_lt (by omega), toNat_ofNat_of_lt (by omega), toNat_ofNat_of_lt (by omega)]
  omega

theorem seconds_setDate {days y m d : Nat} (hcount : Lib.daysTo y m + d = (days : Int))
    (hm : m < 12)
    (hd : d < 31) (hfirst : 1970 ≤ y) (hdays : days * 86400 < 2 ^ 32) :
    (null.setDate (UInt32.ofNat y) (UInt32.ofNat (m + 1)) (UInt32.ofNat (d + 1))).seconds =
      days * 86400 := by
  have hlast := Lib.year_le_of_daysTo (y := y) m d (by omega)
  have hcount' : Lib.daysTo y m + d = ((days * 86400 / 86400 : Nat) : Int) := by omega
  have hparts := makeTime_parts hcount' hm hfirst hdays
  rw [show days * 86400 % 86400 / 3600 = 0 by omega,
    show days * 86400 % 86400 % 3600 / 60 = 0 by omega, show days * 86400 % 86400 % 60 = 0 by omega]
    at hparts
  have hseconds :=
    congrArg Parts.seconds (FieldOp.parts_setDate null (UInt32.ofNat y) (UInt32.ofNat (m + 1))
    (UInt32.ofNat (d + 1)))
  rw [dateSeconds, toNat_ofNat_of_lt (by omega), toNat_ofNat_of_lt (by omega),
    toNat_ofNat_of_lt (by omega), toInt_of_lt (by omega), toInt_of_lt (by omega),
    toInt_of_lt (by omega)] at hseconds
  refine hseconds.trans ?_
  dsimp only
  rw [show makeTime y ((m + 1 : Nat) : Int) ((d + 1 : Nat) : Int) 0 0 0 = days * 86400 from hparts,
    show null.seconds = 0 from rfl]
  omega

theorem seconds_withPrecision (h : t.InZone tz) :
    let tm := t.localTm tz
    (setWithPrecisionAndTz (UInt32.ofNat (tm.year + 1900).toNat) (UInt32.ofNat (tm.mon + 1).toNat)
      (UInt32.ofNat tm.mday.toNat) (UInt32.ofNat tm.hour.toNat) (UInt32.ofNat tm.min.toNat)
      (UInt32.ofNat tm.sec.toNat) (UInt32.ofNat t.microSeconds) (UInt32.ofNat t.precision)
      tz).seconds = t.seconds := by
  obtain ⟨hlow, hhigh⟩ := h
  have hlt := t.seconds_lt
  have hprecision := t.precision_lt
  obtain ⟨time, htime⟩ : ∃ time : Nat, t.localSeconds tz = time :=
    ⟨(t.localSeconds tz).toNat, by omega⟩
  have hlocal : t.localTm tz = gmtime time := by rw [localTm, htime, Int.toNat_natCast]
  obtain ⟨y, m, d, hgm, hcount, hm, hd, hfirst, -⟩ := gmtime_spec time (by omega)
  rw [hlocal, hgm]
  dsimp only
  rw [show ((y : Int) - 1900 + 1900).toNat = y by omega,
    show ((m : Int) + 1).toNat = m + 1 by omega,
    show ((d : Int) + 1).toNat = d + 1 by omega, Int.toNat_natCast, Int.toNat_natCast]
  refine (congrArg Parts.seconds (FieldOp.parts_setTime _ _ _ _ _ _ _)).trans ?_
  dsimp only
  rw [toNat_ofNat_of_lt (n := t.precision) (by omega), Nat.div_eq_of_lt hprecision, Nat.or_zero,
    timeSeconds, toNat_secondOfDay (by omega) (by omega) (by omega),
    seconds_setDate hcount hm hd hfirst (by omega)]
  unfold localSeconds at htime
  omega

/-! ## All getters -/

/-- **Every offset is added right** but by the getter of a `timeval` and the one of a text. -/
theorem shifts_of_inZone (h : t.InZone tz) : t.Shifts tz := by
  obtain ⟨hlow, hhigh⟩ := h
  have hmicros := t.microSeconds_lt
  have hwhole : (t.seconds + tz.getD 0) % 2 ^ 32 = t.localSeconds tz := by
    unfold localSeconds at hlow hhigh ⊢; omega
  refine ⟨⟨?_, rfl⟩, ?_, ?_, ?_, fun s hs hdigits => seconds_fromString ⟨hlow, hhigh⟩ hs hdigits,
    seconds_withPrecision ⟨hlow, hhigh⟩⟩
  · unfold getEpochTimeWithTz; omega
  · unfold getEpochTimeMicrosecondsWithTz
    unfold localSeconds at hlow hhigh ⊢
    omega
  · unfold getEpochTimeMillisecondsWithTz
    unfold localSeconds at hlow hhigh ⊢
    omega
  · rw [getStructTmWithTz, localTm, utcTm, hwhole]

theorem formatted_of_inZone (h : t.InZone tz) (maxLen : Nat) (fmt : List Char) :
    t.getAsFormattedStringWithTz maxLen fmt tz =
      (formatLoop (t.conversion (t.localTm tz)) maxLen fmt []).take (maxLen - 1) := by
  obtain ⟨hlow, hhigh⟩ := h
  unfold getAsFormattedStringWithTz
  dsimp only
  have htm : (if tz.getD 0 ≠ 0 then utcTm (t.addWholeSeconds (tz.getD 0)).seconds
      else utcTm t.seconds) = t.localTm tz := by
    unfold localTm utcTm
    unfold localSeconds at hlow hhigh ⊢
    split
    · have hseconds := congrArg Parts.seconds (parts_addWholeSeconds t (tz.getD 0))
      rw [show (t.addWholeSeconds (tz.getD 0)).seconds = _ from hseconds]
      dsimp only
      congr 1
      omega
    · next hzero =>
      congr 1
      omega
  rw [htm]

/-- **The getters agree just if there is no offset**, the microseconds are less than a second and
the fields show right. -/
theorem zones_agree_iff (t : DateTime) (tz : Option Int) (h : t.InZone tz) : t.Shifts tz ∧
    (t.Agrees tz ↔ tz.getD 0 = 0 ∧ t.microSeconds < 1000000 ∧ t.ShowsRight (t.localTm tz)) := by
  have hshifts := shifts_of_inZone h
  have hproper : (t.localTm tz).Proper := by
    obtain ⟨hlow, hhigh⟩ := h
    exact proper_gmtime (by omega)
  refine ⟨hshifts, ?_⟩
  constructor
  · intro hagrees
    have hsec := congrArg TimeVal.tvSec hagrees.timeVal
    have husec := congrArg TimeVal.tvUsec hagrees.timeVal
    have hrange := hagrees.range.2
    rw [husec] at hrange
    have hstored : (t.getStructTimeValWithTz tz).tvSec = t.seconds := by
      cases tz <;> rfl
    unfold localSeconds at hsec
    dsimp only at hsec hrange
    have hus : t.microSeconds < 1000000 := by omega
    refine ⟨by omega, hus, (formats_iff hproper hus).mp fun maxLen fmt => ?_⟩
    rw [← formatted_of_inZone h]
    exact hagrees.formatted maxLen fmt
  intro hall
  obtain ⟨hzero, hus, hshows⟩ := hall
  have hval : t.getStructTimeValWithTz tz = ⟨t.localSeconds tz, t.microSeconds⟩ := by
    unfold getStructTimeValWithTz localSeconds
    cases tz with
    | none => simp
    | some offset =>
      have hoffset : offset = 0 := hzero
      simp [hoffset]
  refine ⟨hshifts, hval, ?_, fun maxLen fmt => ?_⟩
  · rw [hval]
    dsimp only
    omega
  · rw [formatted_of_inZone h]; exact (formats_iff hproper hus).mpr hshows maxLen fmt

end

/-- A quarter of a second after 6:13:20 on a day of 1995. -/
def inThe90s : DateTime := setEpochTime 800000000 250000 6

/-- Its local times five hours before and, with no offset, in all forms. -/
theorem agrees_inThe90s : inThe90s.Shifts (some (-18000)) ∧ inThe90s.Agrees (some 0) := by
  refine ⟨(zones_agree_iff inThe90s (some (-18000)) (by decide +kernel)).1,
    (zones_agree_iff inThe90s (some 0) (by decide +kernel)).2.2 ⟨rfl, by decide +kernel, ?_⟩⟩
  have hprecision : inThe90s.precision = 6 := by decide +kernel
  refine ⟨fun _ => by decide +kernel, fun _ hone => ?_, fun _ htwo => ?_⟩
  · rw [hprecision] at hone; cases hone
  · rw [hprecision] at htwo; cases htwo

/-- An hour is added as 3600 microseconds. -/
theorem not_agrees_hour : ¬ ∀ (t : DateTime) (tz : Option Int), t.InZone tz → t.Agrees tz := by
  intro hall
  exact absurd (hall (setEpochTime 10 0 0) (some 3600) (by decide +kernel)).timeVal
    (by decide +kernel)

end DateTime

end Mama
