import Mathlib.Data.List.TakeWhile
import OpenMama.Lib.Calendar
import OpenMama.Lib.Decimal
import OpenMama.Mama.DateTime

/-!
# Date-times as text

`mamaDateTime_getAsString` writes a date-time and `mamaDateTime_setFromString` reads
one, with no time zone.  A text is the list of its characters up to the final zero.
`gmtime_r` and `timegm` convert by the Gregorian rule without an end to it, `strftime`
writes a text that fits with its final zero and else nothing, and the arguments of the
time functions are C `int`s.
-/

namespace Mama

open List

namespace DateTime

/-! ## The word -/

def maskSeconds : BitVec 64 := 0xffffffff00000000#64
def maskMicroSeconds : BitVec 64 := 0x00000000000fffff#64
def maskPrecision : BitVec 64 := 0x00000000f0000000#64
def bitHasDate : BitVec 64 := 0x0000000001000000#64

def getField (mask : BitVec 64) (shift : Nat) (t : DateTime) : Nat :=
  ((t.word &&& mask) >>> shift).toNat

def setField (mask : BitVec 64) (shift : Nat) (t : DateTime) (n : Nat) : DateTime :=
  ⟨(t.word &&& ~~~mask) ||| (BitVec.ofNat 64 n <<< shift)⟩

/-- `mamaDateTimeImpl_getSeconds`. -/
def seconds : DateTime → Nat := getField maskSeconds 32

/-- `mamaDateTimeImpl_getMicroSeconds`. -/
def microSeconds : DateTime → Nat := getField maskMicroSeconds 0

/-- `mamaDateTimeImpl_getPrecision`. -/
def precision : DateTime → Nat := getField maskPrecision 28

/-- `mamaDateTimeImpl_getHasDate`. -/
def hasDate (t : DateTime) : Bool := (t.word &&& bitHasDate) != 0#64

/-- `mamaDateTimeImpl_setSeconds`. -/
def setSeconds : DateTime → Nat → DateTime := setField maskSeconds 32

/-- `mamaDateTimeImpl_setMicroSeconds`. -/
def setMicroSeconds : DateTime → Nat → DateTime := setField maskMicroSeconds 0

/-- `mamaDateTimeImpl_setPrecision`. -/
def setPrecision : DateTime → Nat → DateTime := setField maskPrecision 28

/-- `mamaDateTimeImpl_setHasDate`. -/
def setHasDate (t : DateTime) : DateTime := ⟨t.word ||| bitHasDate⟩

/-- `mamaDateTimeImpl_setHasTime`. -/
def setHasTime (t : DateTime) : DateTime := ⟨t.word ||| bitHasTime⟩

/-! ## The time functions -/

/-- `struct tm`. -/
structure Tm where
  year : Int
  mon : Int
  mday : Int
  hour : Int
  min : Int
  sec : Int

/-- `gmtime_r`. -/
def gmtime (time : Nat) : Tm :=
  let (year, mon, mday) := Lib.civil (time / 86400)
  let sec := time % 86400
  ⟨year - 1900, mon, mday + 1, sec / 3600, sec % 3600 / 60, sec % 60⟩

/-- `timegm`, which takes months past a year and days past a month to later ones. -/
def timegm (tm : Tm) : Int :=
  (Lib.daysTo (tm.year + 1900 + tm.mon / 12) (tm.mon % 12).toNat + (tm.mday - 1)) * 86400 +
    tm.hour * 3600 + tm.min * 60 + tm.sec

def utcTm (secSinceEpoch : Nat) : Tm := gmtime secSinceEpoch

/-- An `unsigned long` that is passed as an `int`. -/
def toInt (n : Nat) : Int := Int.bmod n (2 ^ 32)

def makeTime (year mon day hour min sec : Int) : Nat :=
  let tm : Tm := {
    year := if year > 1970 then year - 1900 else 70
    mon := if mon > 0 then mon - 1 else 0
    mday := if day > 0 then day else 1
    hour := hour
    min := min
    sec := sec }
  (timegm tm % 2 ^ 64).toNat

/-! ## Writing -/

/-- `strftime` and its room, for a text it makes. -/
def strftime (room : Nat) (text : List Char) : List Char := if text.length < room then text else []

/-- `%Y-%m-%d`. -/
def dateText (tm : Tm) : List Char :=
  Lib.padded 1 (tm.year + 1900).toNat ++ '-' :: Lib.padded 2 (tm.mon + 1).toNat ++
    '-' :: Lib.padded 2 tm.mday.toNat

/-- `%H:%M:%S`. -/
def timeText (tm : Tm) : List Char :=
  Lib.padded 2 tm.hour.toNat ++ ':' :: Lib.padded 2 tm.min.toNat ++
    ':' :: Lib.padded 2 tm.sec.toNat

/-- The digits after the point that are written: three where the precision is unknown. -/
def printedPrecision (precision : Nat) : Nat := if precision = 15 then 3 else precision

/-- The point and the digits after it, `.%0*d` cut to the room. -/
def fraction (room precision microSeconds : Nat) : List Char :=
  let digits := microSeconds / 10 ^ (6 - precision)
  let precision := if precision ≥ room then room - 1 else precision
  ('.' :: Lib.padded precision digits).take (room - 1)

/-- `mamaDateTime_getAsString`. -/
def getAsString (t : DateTime) (bufMaxLen : Nat) : List Char :=
  let tm := utcTm t.seconds
  let date :=
    if t.hasDate then strftime bufMaxLen (if t.hasTime then dateText tm ++ [' '] else dateText tm)
    else []
  if t.hasTime then
    let time := strftime (bufMaxLen - date.length) (timeText tm)
    let precision := printedPrecision t.precision
    if precision > 0 then
      date ++ time ++
        fraction (bufMaxLen - date.length - time.length) precision t.microSeconds
    else date ++ time
  else date

/-! ## Reading -/

def strchr (s : List Char) (c : Char) : Option (List Char) :=
  match s.dropWhile (· ≠ c) with
  | [] => none
  | rest => some rest

def isspace (c : Char) : Bool := c = ' ' || (decide (9 ≤ c.toNat) && decide (c.toNat ≤ 13))

/-- `strtoul` to base ten. -/
def strtoul (s : List Char) : Nat :=
  let (negative, digits) :=
    match s.dropWhile isspace with
    | '-' :: rest => (true, rest)
    | '+' :: rest => (false, rest)
    | rest => (false, rest)
  let n := Lib.leadingNat digits
  if n ≥ 2 ^ 64 then 2 ^ 64 - 1
  else if negative then (2 ^ 64 - n) % 2 ^ 64
  else n

def readDate (str : List Char) : Option (Nat × Nat × Nat) :=
  let slashes :=
    match strchr str '/' with
    | some slash1 => some (slash1, strchr slash1.tail '/')
    | none => (strchr str '-').map fun slash1 => (slash1, strchr slash1.tail '-')
  slashes.map fun (slash1, slash2) =>
    match slash2 with
    | some slash2 => (strtoul str, strtoul slash1.tail, strtoul slash2.tail)
    | none => (0, strtoul str, strtoul slash1.tail)

/-- The loops over the digits after the point: the microseconds and the number of digits. -/
def readFraction (s : List Char) : Nat × Nat :=
  let digits := s.takeWhile Char.isDigit
  ((Nat.ofDigitChars 10 digits 0 * 10 ^ (6 - digits.length)) % 2 ^ 64, digits.length)

/-- A time: the hour, the minute, the second, the microseconds and the precision. -/
structure TimeParts where
  hour : Nat
  minute : Nat
  second : Nat
  microsecs : Nat
  precision : Nat

def readTime (strtime : List Char) : Option TimeParts :=
  (strchr strtime ':').map fun colon1 =>
    let hour := strtoul strtime
    let minute := strtoul colon1.tail
    match strchr colon1.tail ':' with
    | some colon2 =>
      let (microsecs, precision) :=
        match strchr colon2.tail '.' with
        | some dot => readFraction dot.tail
        | none => (0, 0)
      ⟨hour, minute, strtoul colon2.tail, microsecs, precision⟩
    | none => ⟨hour, minute, 0, 0, 0⟩

/-- `mamaDateTime_setFromString`. -/
def setFromString (str : List Char) : DateTime :=
  let strtime :=
    match strchr str ' ' with
    | some space => space.tail
    | none => str
  let date := readDate str
  let time := readTime strtime
  let t := if date.isSome then null.setHasDate else null
  let t := if time.isSome then t.setHasTime else t
  let (year, month, day) := date.getD (0, 0, 0)
  let parts := time.getD ⟨0, 0, 0, 0, 0⟩
  let epochSeconds := makeTime (toInt year) (toInt month) (toInt day) (toInt parts.hour)
    (toInt parts.minute) (toInt parts.second)
  ((t.setPrecision parts.precision).setSeconds epochSeconds).setMicroSeconds parts.microsecs

/-! ## Fields -/

/-- The mask of a field covers `width` bits from `shift` on. -/
def IsField (mask : BitVec 64) (shift width : Nat) : Prop :=
  shift + width ≤ 64 ∧
    ∀ i : Fin 64, mask.getLsbD i = (decide (shift ≤ i.val) && decide (i.val < shift + width))

theorem isField_seconds : IsField maskSeconds 32 32 := by
  unfold IsField
  decide

theorem isField_microSeconds : IsField maskMicroSeconds 0 20 := by
  unfold IsField
  decide

theorem isField_precision : IsField maskPrecision 28 4 := by
  unfold IsField
  decide

section

variable {mask other : BitVec 64} {shift width n : Nat}

theorem testBit_of_lt (h : n < 2 ^ width) {i : Nat} (hi : width ≤ i) : n.testBit i = false :=
  Nat.testBit_lt_two_pow (Nat.lt_of_lt_of_le h (Nat.pow_le_pow_right (by decide) hi))

theorem getField_setField (hmask : IsField mask shift width) (t : DateTime) (h : n < 2 ^ width) :
    getField mask shift (setField mask shift t n) = n := by
  obtain ⟨hfits, hbits⟩ := hmask
  have hfield : (setField mask shift t n).word &&& mask = BitVec.ofNat 64 n <<< shift := by
    refine BitVec.eq_of_getLsbD_eq fun i hi => ?_
    have hbit := hbits ⟨i, hi⟩
    have hn := fun hi' : width ≤ i - shift => testBit_of_lt h hi'
    unfold setField
    simp only [BitVec.getLsbD_and, BitVec.getLsbD_or, BitVec.getLsbD_shiftLeft,
      BitVec.getLsbD_ofNat] at hbit ⊢
    grind
  unfold getField
  have hroom : 2 ^ (shift + width) ≤ 2 ^ 64 := Nat.pow_le_pow_right (by decide) hfits
  have hbound : n * 2 ^ shift < 2 ^ (shift + width) := by
    rw [Nat.pow_add, Nat.mul_comm]; exact Nat.mul_lt_mul_of_pos_left h (Nat.two_pow_pos shift)
  have hsmall : n < 2 ^ 64 := by
    have hle := Nat.le_mul_of_pos_right n (Nat.two_pow_pos shift)
    omega
  rw [hfield, BitVec.toNat_ushiftRight, BitVec.toNat_shiftLeft, BitVec.toNat_ofNat,
    Nat.mod_eq_of_lt hsmall, Nat.shiftLeft_eq, Nat.mod_eq_of_lt (by omega),
    Nat.shiftRight_eq_div_pow]
  exact Nat.mul_div_cancel n (Nat.two_pow_pos shift)

theorem and_setField (hmask : IsField mask shift width) (hother : mask &&& other = 0#64)
    (t : DateTime) (h : n < 2 ^ width) :
    (setField mask shift t n).word &&& other = t.word &&& other := by
  obtain ⟨hfits, hbits⟩ := hmask
  refine BitVec.eq_of_getLsbD_eq fun i hi => ?_
  have hbit := hbits ⟨i, hi⟩
  have hn := fun hi' : width ≤ i - shift => testBit_of_lt h hi'
  have hapart := congrArg (BitVec.getLsbD · i) hother
  unfold setField
  simp only [BitVec.getLsbD_and, BitVec.getLsbD_or, BitVec.getLsbD_shiftLeft,
    BitVec.getLsbD_ofNat] at hbit hapart ⊢
  grind

end

theorem fields_read {s p us : Nat} (hs : s < 2 ^ 32) (hp : p < 2 ^ 4) (hus : us < 2 ^ 20) :
    let t := ((null.setHasDate.setHasTime.setPrecision p).setSeconds s).setMicroSeconds us
    t.hasDate ∧ t.hasTime ∧ t.seconds = s ∧ t.precision = p ∧
      t.microSeconds = us := by
  have hprecision : ∀ other, maskPrecision &&& other = 0#64 → ∀ t : DateTime,
      (t.setPrecision p).word &&& other = t.word &&& other :=
    fun _ h t => and_setField isField_precision h t hp
  have hseconds : ∀ other, maskSeconds &&& other = 0#64 → ∀ t : DateTime,
      (t.setSeconds s).word &&& other = t.word &&& other :=
    fun _ h t => and_setField isField_seconds h t hs
  have hmicro : ∀ other, maskMicroSeconds &&& other = 0#64 → ∀ t : DateTime,
      (t.setMicroSeconds us).word &&& other = t.word &&& other :=
    fun _ h t => and_setField isField_microSeconds h t hus
  refine ⟨?_, ?_, ?_, ?_, getField_setField isField_microSeconds _ hus⟩
  · rw [hasDate, hmicro _ (by decide), hseconds _ (by decide), hprecision _ (by decide)]; decide
  · rw [hasTime, hmicro _ (by decide), hseconds _ (by decide), hprecision _ (by decide)]; decide
  · have hfield := getField_setField isField_seconds
      (null.setHasDate.setHasTime.setPrecision p) hs
    unfold seconds getField at hfield ⊢
    rwa [hmicro _ (by decide)]
  · have hfield := getField_setField isField_precision null.setHasDate.setHasTime hp
    unfold precision getField at hfield ⊢
    rwa [hmicro _ (by decide), hseconds _ (by decide)]

theorem seconds_lt (t : DateTime) : t.seconds < 2 ^ 32 := by
  rw [seconds, getField, BitVec.toNat_ushiftRight]
  omega

/-! ## Texts -/

variable {c : Char} {rest : List Char} {hour minute second : Nat}

theorem strchr_append {pre : List Char} (h : c ∉ pre) :
    strchr (pre ++ c :: rest) c = some (c :: rest) := by
  have hpre : ∀ d ∈ pre, decide (d ≠ c) = true := fun d hd =>
    decide_eq_true fun hdc => h (hdc ▸ hd)
  have hdrop : (pre ++ c :: rest).dropWhile (· ≠ c) = c :: rest := by
    rw [dropWhile_append_of_pos hpre]; simp
  rw [strchr, hdrop]

theorem strchr_eq_none {s : List Char} (h : c ∉ s) : strchr s c = none := by
  have hdrop : s.dropWhile (· ≠ c) = [] := by
    rw [dropWhile_eq_nil_iff]
    intro d hd
    exact decide_eq_true fun hdc => h (hdc ▸ hd)
  rw [strchr, hdrop]

theorem not_mem_padded {width n : Nat} (h : c.isDigit = false) : c ∉ Lib.padded width n := fun hc =>
  Bool.false_ne_true (h.symm.trans (Lib.isDigit_of_mem_padded hc))

theorem strtoul_padded (width : Nat) {n : Nat} (hrest : ∀ c ∈ rest.head?, c.isDigit = false)
    (hn : n < 2 ^ 64) : strtoul (Lib.padded width n ++ rest) = n := by
  obtain ⟨c, cs, hcs, hc⟩ : ∃ c cs, Lib.padded width n ++ rest = c :: cs ∧ c.isDigit := by
    cases h : Lib.padded width n with
    | nil =>
      have hlength := congrArg List.length h
      unfold Lib.padded at hlength
      rw [length_leftpad] at hlength
      have hpos := Nat.length_toDigits_pos (b := 10) (n := n)
      simp only [length_nil] at hlength
      omega
    | cons c cs => exact ⟨c, cs ++ rest, rfl, Lib.isDigit_of_mem_padded (h ▸ mem_cons_self)⟩
  have hspace : isspace c = false := by
    have hrange : 48 ≤ c.toNat := by
      exact (of_decide_eq_true (Bool.and_eq_true_iff.mp hc).1 : c.val ≥ '0'.val)
    have hblank : c ≠ ' ' := by
      rintro rfl; cases hc
    have hfar : ¬ c.toNat ≤ 13 := by omega
    unfold isspace
    simp [hblank, hfar]
  have hminus : c ≠ '-' := by
    rintro rfl; cases hc
  have hplus : c ≠ '+' := by
    rintro rfl; cases hc
  have hread := Lib.leadingNat_padded width n hrest
  rw [hcs] at hread
  rw [strtoul, hcs, dropWhile_cons, hspace]
  simp only [Bool.false_eq_true, if_false]
  split
  · next h => exact (hminus (List.cons.inj h).1).elim
  · next h => exact (hplus (List.cons.inj h).1).elim
  · rw [hread, if_neg (by omega)]; simp

theorem readDate_text {year month day : Nat} (hyear : year < 2 ^ 64) (hmonth : month < 2 ^ 64)
    (hday : day < 2 ^ 64) (hslash : '/' ∉ rest) (hrest : ∀ c ∈ rest.head?, c.isDigit = false) :
    readDate
      (Lib.padded 1 year ++ '-' :: (Lib.padded 2 month ++ '-' :: (Lib.padded 2 day ++ rest))) =
      some (year, month, day) := by
  have hdash : ∀ {width n : Nat}, '-' ∉ Lib.padded width n := not_mem_padded rfl
  have hnone : strchr
      (Lib.padded 1 year ++ '-' :: (Lib.padded 2 month ++ '-' :: (Lib.padded 2 day ++ rest))) '/' =
        none := by
    refine strchr_eq_none ?_
    simp [not_mem_padded, hslash]
  rw [readDate, hnone]
  rw [strchr_append hdash]
  simp only [Option.map_some, tail_cons]
  rw [strchr_append hdash]
  dsimp only [tail_cons]
  rw [strtoul_padded 1 (by simp) hyear, strtoul_padded 2 (by simp) hmonth,
    strtoul_padded 2 hrest hday]

def fractionText (precision digits : Nat) : List Char :=
  if precision > 0 then '.' :: Lib.padded precision digits else []

theorem not_mem_fractionText {precision digits : Nat} (hdot : c ≠ '.')
    (hdigit : c.isDigit = false) :
    c ∉ fractionText precision digits := by
  unfold fractionText
  split
  · simp [hdot, not_mem_padded hdigit]
  · simp

theorem readFraction_padded {precision digits : Nat} (hprecision : 0 < precision)
    (hdigits : digits < 10 ^ precision) :
    readFraction (Lib.padded precision digits) =
      (digits * 10 ^ (6 - precision) % 2 ^ 64, precision) := by
  have htake : (Lib.padded precision digits).takeWhile Char.isDigit =
      Lib.padded precision digits := by
    rw [takeWhile_eq_self_iff]
    exact fun c hc => Lib.isDigit_of_mem_padded hc
  unfold readFraction
  dsimp only
  rw [htake, Lib.ofDigitChars_padded, Lib.length_padded hprecision hdigits]

theorem readTime_text {precision digits : Nat} (hhour : hour < 2 ^ 64) (hminute : minute < 2 ^ 64)
    (hsecond : second < 2 ^ 64) (hdigits : digits < 10 ^ precision) :
    readTime (Lib.padded 2 hour ++ ':' :: (Lib.padded 2 minute ++ ':' ::
        (Lib.padded 2 second ++ fractionText precision digits))) =
      some ⟨hour, minute, second, digits * 10 ^ (6 - precision) % 2 ^ 64, precision⟩ := by
  have hcolon : ∀ {width n : Nat}, ':' ∉ Lib.padded width n := not_mem_padded rfl
  have hdot : ∀ {width n : Nat}, '.' ∉ Lib.padded width n := not_mem_padded rfl
  have hafter : ∀ c ∈ (fractionText precision digits).head?, c.isDigit = false := by
    unfold fractionText
    split <;> simp
  rw [readTime, strchr_append hcolon]
  simp only [Option.map_some, tail_cons]
  rw [strchr_append hcolon]
  dsimp only [tail_cons]
  rw [strtoul_padded 2 (by simp) hhour, strtoul_padded 2 (by simp) hminute,
    strtoul_padded 2 hafter hsecond]
  unfold fractionText
  rcases Nat.eq_zero_or_pos precision with rfl | hprecision
  · have hnone : digits = 0 := by simpa using hdigits
    rw [if_neg (Nat.lt_irrefl 0), append_nil, strchr_eq_none hdot]
    subst hnone
    rfl
  · rw [if_pos hprecision, strchr_append hdot]
    dsimp only [tail_cons]
    rw [readFraction_padded hprecision hdigits]

/-! ## Times -/

theorem gmtime_spec (time : Nat) (hsmall : time < 2 ^ 32) :
    ∃ y m d : Nat, gmtime time = ⟨(y : Int) - 1900, m, d + 1, ((time % 86400 / 3600 : Nat) : Int),
        ((time % 86400 % 3600 / 60 : Nat) : Int), ((time % 86400 % 60 : Nat) : Int)⟩ ∧
      Lib.daysTo y m + d = ((time / 86400 : Nat) : Int) ∧ m < 12 ∧ d < 31 ∧ 1970 ≤ y ∧
        y < 10000 := by
  obtain ⟨hcount, hm, hd, hfirst, hnear⟩ := Lib.civil_spec (time / 86400)
  have hyear : (Lib.civil (time / 86400)).1 < 10000 := by omega
  exact ⟨_, _, _, rfl, hcount, hm, hd, hfirst, hyear⟩

theorem toInt_of_lt {n : Nat} (h : n < 2 ^ 31) : toInt n = n := by
  exact Int.bmod_eq_of_le (by omega) (by omega)

theorem makeTime_parts {time y m d : Nat}
    (hcount : Lib.daysTo y m + d = ((time / 86400 : Nat) : Int))
    (hm : m < 12) (hfirst : 1970 ≤ y) (hsmall : time < 2 ^ 32) :
    makeTime y ((m + 1 : Nat) : Int) ((d + 1 : Nat) : Int) ((time % 86400 / 3600 : Nat) : Int)
      ((time % 86400 % 3600 / 60 : Nat) : Int) ((time % 86400 % 60 : Nat) : Int) = time := by
  have hyear : (if (y : Int) > 1970 then (y : Int) - 1900 else 70) = (y : Int) - 1900 := by
    split <;> omega
  rw [makeTime, timegm, hyear, if_pos (by omega), if_pos (by omega)]
  dsimp only
  rw [show ((m + 1 : Nat) : Int) - 1 = m by omega, show (m : Int) / 12 = 0 by omega,
    show (m : Int) % 12 = m by omega, show (y : Int) - 1900 + 1900 + 0 = y by omega,
    Int.toNat_natCast]
  omega

/-! ## Round trip -/

def text (y m d hour minute second precision digits : Nat) : List Char :=
  Lib.padded 1 y ++ '-' :: (Lib.padded 2 (m + 1) ++ '-' :: (Lib.padded 2 (d + 1) ++ ' ' ::
    (Lib.padded 2 hour ++ ':' :: (Lib.padded 2 minute ++ ':' ::
      (Lib.padded 2 second ++ fractionText precision digits)))))

theorem length_dateText (hour min sec : Int) {y m d : Nat} (hm : m < 12) (hd : d < 31)
    (hy : y < 10000) : (dateText ⟨(y : Int) - 1900, m, d + 1, hour, min, sec⟩).length ≤ 10 := by
  have hyear : (Lib.padded 1 y).length ≤ 4 :=
    Lib.length_padded_le (by decide) (by decide) (by omega)
  have hmon : (Lib.padded 2 (m + 1)).length = 2 := Lib.length_padded (by decide) (by omega)
  have hmday : (Lib.padded 2 (d + 1)).length = 2 := Lib.length_padded (by decide) (by omega)
  unfold dateText
  rw [show ((y : Int) - 1900 + 1900).toNat = y by omega,
    show ((m : Int) + 1).toNat = m + 1 by omega,
    show ((d : Int) + 1).toNat = d + 1 by omega]
  simp only [length_append, length_cons]
  omega

theorem length_timeText (year mon mday : Int) (hhour : hour < 100) (hminute : minute < 100)
    (hsecond : second < 100) : (timeText ⟨year, mon, mday, hour, minute, second⟩).length = 8 := by
  have hh : (Lib.padded 2 hour).length = 2 := Lib.length_padded (by decide) hhour
  have hmi : (Lib.padded 2 minute).length = 2 := Lib.length_padded (by decide) hminute
  have hs : (Lib.padded 2 second).length = 2 := Lib.length_padded (by decide) hsecond
  unfold timeText
  simp only [Int.toNat_natCast, length_append, length_cons]
  omega

theorem fraction_eq {room precision microSeconds : Nat} (hpos : 0 < precision)
    (hroom : precision + 1 < room)
    (hdigits : microSeconds / 10 ^ (6 - precision) < 10 ^ precision) :
    fraction room precision microSeconds =
      '.' :: Lib.padded precision (microSeconds / 10 ^ (6 - precision)) := by
  have hlength := Lib.length_padded hpos hdigits
  rw [fraction, if_neg (by omega)]
  refine take_of_length_le ?_
  rw [length_cons]
  omega

theorem strftime_eq {room : Nat} {text : List Char} (h : text.length < room) :
    strftime room text = text := if_pos h

theorem getAsString_eq {t : DateTime} (hdate : t.hasDate) (htime : t.hasTime)
    {bufMaxLen : Nat} (hroom : 27 ≤ bufMaxLen) {y m d precision : Nat}
    (hgm : gmtime t.seconds = ⟨(y : Int) - 1900, m, d + 1, hour, minute, second⟩) (hm : m < 12)
    (hd : d < 31) (hy : y < 10000) (hhour : hour < 100) (hminute : minute < 100)
    (hsecond : second < 100) (hprecision : printedPrecision t.precision = precision)
    (hle : precision ≤ 6) (hdigits : t.microSeconds / 10 ^ (6 - precision) < 10 ^ precision) :
    t.getAsString bufMaxLen = text y m d hour minute second precision
      (t.microSeconds / 10 ^ (6 - precision)) := by
  have hdateLength := length_dateText hour minute second hm hd hy
  have htimeLength := length_timeText ((y : Int) - 1900) m (d + 1) hhour hminute hsecond
  unfold getAsString
  dsimp only
  rw [hdate, htime, if_pos rfl, if_pos rfl, if_pos rfl, hprecision]
  rw [utcTm, hgm, strftime_eq (by rw [length_append, length_singleton]; omega),
    strftime_eq (by rw [length_append, length_singleton]; omega),
    length_append, length_singleton, htimeLength]
  unfold text fractionText
  split
  · next hpos =>
    rw [fraction_eq hpos (by omega) hdigits]
    unfold dateText timeText
    simp
  · unfold dateText timeText; simp

theorem setFromString_text {y m d precision digits : Nat} (hy : y < 10000) (hm : m < 12)
    (hd : d < 31) (hhour : hour < 100) (hminute : minute < 100) (hsecond : second < 100)
    (hdigits : digits < 10 ^ precision) :
    setFromString (text y m d hour minute second precision digits) =
      ((null.setHasDate.setHasTime.setPrecision precision).setSeconds
        (makeTime y ((m + 1 : Nat) : Int) ((d + 1 : Nat) : Int) hour minute second)).setMicroSeconds
          (digits * 10 ^ (6 - precision) % 2 ^ 64) := by
  have hblank : ∀ {width n : Nat}, ' ' ∉ Lib.padded width n := not_mem_padded rfl
  have hpre : ' ' ∉ Lib.padded 1 y ++ '-' :: (Lib.padded 2 (m + 1) ++ '-' ::
      Lib.padded 2 (d + 1)) := by simp [hblank]
  have hspace : strchr (text y m d hour minute second precision digits) ' ' =
      some (' ' :: (Lib.padded 2 hour ++ ':' :: (Lib.padded 2 minute ++ ':' ::
        (Lib.padded 2 second ++ fractionText precision digits)))) := by
    rw [← strchr_append hpre]
    unfold text
    simp
  have hdate : readDate (text y m d hour minute second precision digits) =
      some (y, m + 1, d + 1) := by
    refine readDate_text (by omega) (by omega) (by omega) ?_ (by simp)
    simp [not_mem_padded, not_mem_fractionText]
  unfold setFromString
  rw [hspace, hdate]
  dsimp only [tail_cons]
  rw [readTime_text (by omega) (by omega) (by omega) hdigits]
  simp only [Option.isSome_some, if_true, Option.getD_some]
  rw [toInt_of_lt (by omega), toInt_of_lt (by omega), toInt_of_lt (by omega),
    toInt_of_lt (by omega), toInt_of_lt (by omega), toInt_of_lt (by omega)]

theorem printedPrecision_le {precision : Nat} (h : precision ∈ [0, 1, 2, 3, 6, 15]) :
    printedPrecision precision ≤ 6 := by
  unfold printedPrecision
  split
  · decide
  · simp at h; omega

/-- **Round trip.**  A date-time with its date and its time is read back from its text, with the
microseconds that were printed, and is printed the same again. -/
theorem roundTrip (t : DateTime) (hdate : t.hasDate) (htime : t.hasTime)
    (hmicro : t.microSeconds < 10 ^ 6) (hprecision : t.precision ∈ [0, 1, 2, 3, 6, 15])
    (bufMaxLen : Nat) (hroom : 27 ≤ bufMaxLen) :
    let u := setFromString (t.getAsString bufMaxLen)
    let precision := printedPrecision t.precision
    u.hasDate ∧ u.hasTime ∧ u.seconds = t.seconds ∧
      u.microSeconds = t.microSeconds / 10 ^ (6 - precision) * 10 ^ (6 - precision) ∧
      u.precision = precision ∧
      ∀ room, 27 ≤ room → u.getAsString room = t.getAsString bufMaxLen := by
  have hsmall := seconds_lt t
  have hp := printedPrecision_le hprecision
  obtain ⟨y, m, d, hgm, hcount, hm, hd, hfirst, hy⟩ := gmtime_spec t.seconds hsmall
  have hhour : t.seconds % 86400 / 3600 < 100 := by omega
  have hminute : t.seconds % 86400 % 3600 / 60 < 100 := by omega
  have hsecond : t.seconds % 86400 % 60 < 100 := by omega
  have hdigits : t.microSeconds / 10 ^ (6 - printedPrecision t.precision) <
      10 ^ printedPrecision t.precision := by
    refine Nat.div_lt_of_lt_mul ?_
    rwa [← Nat.pow_add, Nat.sub_add_cancel hp]
  have hmicros := Nat.div_mul_le_self t.microSeconds (10 ^ (6 - printedPrecision t.precision))
  have htext := getAsString_eq hdate htime hroom hgm hm hd hy hhour hminute hsecond rfl hp hdigits
  have hread := setFromString_text hy hm hd hhour hminute hsecond hdigits
  rw [← htext, makeTime_parts hcount hm hfirst hsmall, Nat.mod_eq_of_lt (by omega)] at hread
  obtain ⟨hdate', htime', hseconds, hprec, hmicro'⟩ :=
    fields_read hsmall (Nat.lt_of_le_of_lt hp (by decide)) (Nat.lt_of_le_of_lt hmicros (by omega))
  intro u precision
  rw [← hread] at hdate' htime' hseconds hprec hmicro'
  refine ⟨hdate', htime', hseconds, hmicro', hprec, fun room hroom' => ?_⟩
  have hsame : u.microSeconds / 10 ^ (6 - precision) = t.microSeconds / 10 ^ (6 - precision) := by
    rw [hmicro']; exact Nat.mul_div_cancel _ (Nat.pow_pos (by decide))
  have hprinted : printedPrecision u.precision = precision := by
    rw [hprec]; exact if_neg (by omega)
  rw [htext, ← hsame]
  refine getAsString_eq hdate' htime' hroom' ?_ hm hd hy hhour hminute hsecond hprinted hp ?_
  · rwa [hseconds]
  · rwa [hsame]

/-- The last second of a leap day, to three digits. -/
theorem roundTrip_leapDay :
    let t : DateTime := ⟨0x65e11a7f3301e240#64⟩
    let u := setFromString (t.getAsString 27)
    u.hasDate ∧ u.hasTime ∧ u.seconds = 1709251199 ∧ u.microSeconds = 123000 ∧
      u.precision = 3 ∧ u.getAsString 27 = t.getAsString 27 := by
  intro t u
  obtain ⟨hdate, htime, hseconds, hmicro, hprecision, hsame⟩ :=
    roundTrip t (by decide) (by decide) (by decide) (by decide) 27 (by decide)
  exact ⟨hdate, htime, hseconds.trans (by decide), hmicro.trans (by decide),
    hprecision.trans (by decide), hsame 27 (by decide)⟩

end DateTime

end Mama
