import OpenMama.Mama.DateTimeFields

/-!
# Reading a text with a fraction

`mamaDateTime_setFromStringWithTz` on a date and a time with any number of digits
after the point, and `mamaDateTime_setFromStringBufferWithTz`, which copies the text
first.

The loop over the digits makes one number of all of them and counts them.  Up to six
digits are filled up to microseconds; the number that more of them make is stored as
it is, and what is too wide for the field of the microseconds is or-ed into the fields
above.  The copy has room for a terminator that nobody writes, so the parser goes on
into what was behind it.
-/

namespace Mama

open List Option

namespace DateTime

/-! ## Reading -/

/-- `mamaDateTime_setFromStringWithTz`, with the offset of the time zone if there is one. -/
def setFromStringWithTz (str : List Char) (tz : Option Int) : DateTime :=
  let strtime :=
    match strchr str ' ' with
    | some space => space.tail
    | none => str
  let date := readDate str
  let time := readTime strtime
  let t := if date.isSome then null.setHasDate else null
  let t := if time.isSome then t.setHasTime else t
  let (year, month, day) := date.getD (0, 0, 0)
  let parts := time.getD ⟨0, 0, 0, 0, 0⟩
  let epochSeconds := makeTime (toInt year) (toInt month) (toInt day) (toInt parts.hour)
    (toInt parts.minute) (toInt parts.second)
  let epochSeconds := ((epochSeconds - tz.getD 0) % 2 ^ 64).toNat
  ((t.setPrecision parts.precision).setSeconds epochSeconds).setMicroSeconds parts.microsecs

theorem makeTime_lt (year mon day hour min sec : Int) :
    makeTime year mon day hour min sec < 2 ^ 64 := by
  unfold makeTime
  dsimp only
  omega

theorem setFromStringWithTz_none (str : List Char) :
    setFromStringWithTz str none = setFromString str := by
  have hsame : ∀ n : Nat, n < 2 ^ 64 → (((n : Int) - (none : Option Int).getD 0) % 2 ^ 64).toNat =
      n := by
    intro n hn
    rw [getD_none]
    omega
  unfold setFromStringWithTz setFromString
  dsimp only
  rewrite [hsame _ (makeTime_lt _ _ _ _ _ _)]
  rfl

/-- The text that `mamaDateTime_setFromStringBufferWithTz` hands on.  `strncpy` copies `strLen`
bytes, or up to the terminator and zeros from there; behind them the block has what it had. -/
def tmpStr (str : List Char) (strLen : Nat) (behind : List Char) : List Char :=
  (str.take strLen ++ behind).takeWhile (· ≠ '\x00')

/-- `mamaDateTime_setFromStringBufferWithTz`. -/
def setFromStringBufferWithTz (str : List Char) (strLen : Nat) (behind : List Char)
    (tz : Option Int) : DateTime :=
  setFromStringWithTz (tmpStr str strLen behind) tz

/-! ## What is given -/

/-- A number in decimal, with zeros before it up to a width. -/
structure Numeral where
  width : Nat
  value : Nat
  deriving DecidableEq, Repr

def Numeral.text (n : Numeral) : List Char := Lib.padded n.width n.value

structure Stamp where
  separator : Char
  year : Numeral
  month : Numeral
  day : Numeral
  hour : Numeral
  minute : Numeral
  second : Numeral
  digits : List Char
  isSeparator : separator = '-' ∨ separator = '/'
  isMonth : 1 ≤ month.value ∧ month.value ≤ 12
  isDay : 1 ≤ day.value ∧
    day.value ≤ Lib.monthLength (Lib.isLeap year.value) (month.value - 1)
  isHour : hour.value < 24
  isMinute : minute.value < 60
  isSecond : second.value < 60
  isFraction : ∀ c ∈ digits, c.isDigit

variable {c : Char}

namespace Stamp

def text (s : Stamp) : List Char :=
  s.year.text ++ s.separator :: (s.month.text ++ s.separator :: (s.day.text ++ ' ' ::
    (s.hour.text ++ ':' :: (s.minute.text ++ ':' :: (s.second.text ++ '.' :: s.digits)))))

def seconds (s : Stamp) : Int :=
  (Lib.daysTo s.year.value (s.month.value - 1) + (s.day.value - 1 : Nat)) * 86400 +
    (s.hour.value * 3600 + s.minute.value * 60 + s.second.value : Nat)

def number (s : Stamp) : Nat := Nat.ofDigitChars 10 s.digits 0

/-- The first six digits, with zeros where there are fewer. -/
def micros (s : Stamp) : Nat :=
  Nat.ofDigitChars 10 ((s.digits ++ List.replicate 6 '0').take 6) 0

/-- **What reading is to give.** -/
structure Parses (s : Stamp) : Prop where
  seconds : ((setFromString s.text).seconds : Int) = s.seconds
  microSeconds : (setFromString s.text).microSeconds = s.micros
  hasDate : (setFromString s.text).hasDate
  hasTime : (setFromString s.text).hasTime

def InRange (s : Stamp) : Prop := 0 ≤ s.seconds ∧ s.seconds < 2 ^ 32

/-- There are no more than six digits, or the number that they make has the microseconds in its
field and above it only bits that the seconds have. -/
def Fits (s : Stamp) : Prop :=
  s.digits.length ≤ 6 ∨
    (s.number % 2 ^ 20 = s.micros ∧
      s.seconds.toNat ||| s.number % 2 ^ 64 / 2 ^ 32 = s.seconds.toNat)

instance (s : Stamp) : Decidable s.InRange := inferInstanceAs (Decidable (_ ∧ _))

instance (s : Stamp) : Decidable s.Fits := inferInstanceAs (Decidable (_ ∨ _))

/-! ## The parts of the text -/

theorem not_mem_numeral (h : c.isDigit = false) (n : Numeral) : c ∉ n.text :=
  not_mem_padded h

theorem not_mem_digits (s : Stamp) (h : c.isDigit = false) : c ∉ s.digits := fun hc =>
  Bool.false_ne_true (h.symm.trans (s.isFraction c hc))

theorem strtoul_numeral {n : Numeral} (hn : n.value < 2 ^ 64) (c : Char) (rest : List Char)
    (hc : c.isDigit = false) : strtoul (n.text ++ c :: rest) = n.value :=
  strtoul_padded n.width (by simpa using hc) hn

theorem readDate_stamp (s : Stamp) (hyear : s.year.value < 2 ^ 64) :
    readDate s.text = some (s.year.value, s.month.value, s.day.value) := by
  have hmonth : s.month.value < 2 ^ 64 := by
    have hle := s.isMonth.2
    omega
  have hday : s.day.value < 2 ^ 64 := by
    have hle := s.isDay.2
    have hlength := Lib.monthLength_le (Lib.isLeap s.year.value) (s.month.value - 1)
    omega
  rcases s.isSeparator with hdash | hslash
  · have hnone : strchr s.text '/' = none := by
      apply strchr_eq_none
      unfold text
      simp [hdash, not_mem_numeral, not_mem_digits]
    rw [readDate, hnone]
    rw [text, hdash]
    rw [strchr_append (not_mem_numeral rfl _)]
    simp only [map_some, tail_cons]
    rw [strchr_append (not_mem_numeral rfl _)]
    dsimp only [tail_cons]
    rw [strtoul_numeral hyear '-' _ rfl, strtoul_numeral hmonth '-' _ rfl,
      strtoul_numeral hday ' ' _ rfl]
  · rw [readDate, text, hslash, strchr_append (not_mem_numeral rfl _)]
    simp only [map_some, tail_cons]
    rw [strchr_append (not_mem_numeral rfl _)]
    dsimp only [tail_cons]
    rw [strtoul_numeral hyear '/' _ rfl, strtoul_numeral hmonth '/' _ rfl,
      strtoul_numeral hday ' ' _ rfl]

theorem readTime_stamp (s : Stamp) :
    readTime (s.hour.text ++ ':' :: (s.minute.text ++ ':' :: (s.second.text ++ '.' :: s.digits))) =
      some ⟨s.hour.value, s.minute.value, s.second.value,
        s.number * 10 ^ (6 - s.digits.length) % 2 ^ 64, s.digits.length⟩ := by
  have hhour := s.isHour
  have hminute := s.isMinute
  have hsecond := s.isSecond
  have htake : s.digits.takeWhile Char.isDigit = s.digits :=
    List.takeWhile_eq_self_iff.mpr s.isFraction
  rw [readTime, strchr_append (not_mem_numeral rfl _)]
  simp only [map_some, tail_cons]
  rw [strchr_append (not_mem_numeral rfl _)]
  dsimp only [tail_cons]
  rw [strchr_append (not_mem_numeral rfl _)]
  dsimp only [tail_cons]
  rw [strtoul_numeral (by omega) ':' _ rfl, strtoul_numeral (by omega) ':' _ rfl,
    strtoul_numeral (by omega) '.' _ rfl]
  rw [readFraction, number, htake]

theorem strtime_stamp (s : Stamp) :
    strchr s.text ' ' = some (' ' :: (s.hour.text ++ ':' :: (s.minute.text ++ ':' ::
      (s.second.text ++ '.' :: s.digits)))) := by
  have hblank :
      ' ' ∉ s.year.text ++ s.separator :: (s.month.text ++ s.separator :: s.day.text) := by
    rcases s.isSeparator with h | h <;> simp [h, not_mem_numeral]
  rw [← strchr_append hblank]
  unfold text
  simp

/-! ## The seconds -/

variable {s : Stamp}

theorem InRange.year (h : s.InRange) : 1970 ≤ s.year.value ∧ s.year.value ≤ 2106 ∧
      0 ≤ Lib.daysTo s.year.value (s.month.value - 1) + (s.day.value - 1 : Nat) := by
  obtain ⟨hlow, hhigh⟩ := h
  obtain ⟨hmonth, hmonth'⟩ := s.isMonth
  obtain ⟨hday, hday'⟩ := s.isDay
  have hhour := s.isHour
  have hminute := s.isMinute
  have hsecond := s.isSecond
  unfold seconds at hlow hhigh
  have hdays : 0 ≤ Lib.daysTo s.year.value (s.month.value - 1) + (s.day.value - 1 : Nat) := by omega
  have hfirst : (1970 : Int) ≤ s.year.value :=
    Lib.le_of_daysTo_nonneg (by omega) (by omega) hdays
  have hlast := Lib.year_le_of_daysTo (s.month.value - 1) (s.day.value - 1) hfirst
  exact ⟨by omega, by omega, hdays⟩

theorem makeTime_stamp (h : s.InRange) :
    (makeTime (toInt s.year.value) (toInt s.month.value) (toInt s.day.value) (toInt s.hour.value)
      (toInt s.minute.value) (toInt s.second.value) : Int) = s.seconds := by
  obtain ⟨hfirst, hlast, hdays⟩ := h.year
  obtain ⟨hlow, hhigh⟩ := h
  obtain ⟨hmonth, hmonth'⟩ := s.isMonth
  obtain ⟨hday, hday'⟩ := s.isDay
  have hlength := Lib.monthLength_le (Lib.isLeap s.year.value) (s.month.value - 1)
  have hhour := s.isHour
  have hminute := s.isMinute
  have hsecond := s.isSecond
  obtain ⟨time, htime⟩ : ∃ time : Nat, s.seconds = time := ⟨s.seconds.toNat, by omega⟩
  have hsum := htime
  unfold seconds at hsum
  have hcount : Lib.daysTo s.year.value (s.month.value - 1) + (s.day.value - 1 : Nat) =
      ((time / 86400 : Nat) : Int) := by omega
  have hparts := makeTime_parts hcount (by omega) hfirst (by omega)
  rw [show time % 86400 / 3600 = s.hour.value by omega,
    show time % 86400 % 3600 / 60 = s.minute.value by omega,
    show time % 86400 % 60 = s.second.value by omega,
    show s.month.value - 1 + 1 = s.month.value by omega,
    show s.day.value - 1 + 1 = s.day.value by omega] at hparts
  rw [toInt_of_lt (by omega), toInt_of_lt (by omega), toInt_of_lt (by omega),
    toInt_of_lt (by omega), toInt_of_lt (by omega), toInt_of_lt (by omega), hparts, htime]

/-- **The word that is made of the text.** -/
theorem setFromStringWithTz_stamp (h : s.InRange) (tz : Option Int) :
    setFromStringWithTz s.text tz =
      ((null.setHasDate.setHasTime.setPrecision s.digits.length).setSeconds
        ((s.seconds - tz.getD 0) % 2 ^ 64).toNat).setMicroSeconds
          (s.number * 10 ^ (6 - s.digits.length) % 2 ^ 64) := by
  obtain ⟨-, hlast, -⟩ := h.year
  unfold setFromStringWithTz
  rw [strtime_stamp, readDate_stamp s (by omega)]
  dsimp only [tail_cons]
  rw [readTime_stamp]
  simp only [isSome_some, if_true, getD_some]
  rw [makeTime_stamp h]

theorem parts_read (p e us : Nat) :
    (((null.setHasDate.setHasTime.setPrecision p).setSeconds e).setMicroSeconds us).parts =
      { seconds := e % 2 ^ 32 ||| us / 2 ^ 32 % 2 ^ 32
        microSeconds := us % 2 ^ 20
        precision := p % 16 ||| us / 2 ^ 28 % 16
        hint := 3 ||| us / 2 ^ 24 % 16 } := by
  rw [parts_setMicroSeconds, parts_setSeconds, parts_setPrecision]
  rfl

/-! ## The fraction -/

theorem micros_of_le (h : s.digits.length ≤ 6) :
    s.number * 10 ^ (6 - s.digits.length) = s.micros ∧ s.micros < 10 ^ 6 := by
  have htake : (s.digits ++ List.replicate 6 '0').take 6 =
      s.digits ++ List.replicate (6 - s.digits.length) '0' := by
    rw [take_append, take_of_length_le h, take_replicate, Nat.min_eq_left (by omega)]
  have hmicros : s.micros = s.number * 10 ^ (6 - s.digits.length) := by
    unfold micros number
    rw [htake, Nat.ofDigitChars_append, Nat.ofDigitChars_replicate_zero, Nat.mul_comm]
  have hnumber : s.number < 10 ^ s.digits.length := Lib.ofDigitChars_lt s.isFraction
  refine ⟨hmicros.symm, ?_⟩
  rw [hmicros]
  calc s.number * 10 ^ (6 - s.digits.length)
      < 10 ^ s.digits.length * 10 ^ (6 - s.digits.length) :=
        Nat.mul_lt_mul_of_pos_right hnumber (Nat.pow_pos (by decide))
    _ = 10 ^ 6 := by rw [← Nat.pow_add, Nat.add_sub_cancel' h]

theorem parses_of_inRange (h : s.InRange) : s.Parses ↔ s.Fits := by
  have hword := setFromStringWithTz_stamp h none
  rw [setFromStringWithTz_none] at hword
  obtain ⟨hlow, hhigh⟩ := h
  obtain ⟨hseconds, hmicros, -, hhint⟩ := Parts.mk.inj
    (parts_read s.digits.length ((s.seconds - (none : Option Int).getD 0) % 2 ^ 64).toNat
      (s.number * 10 ^ (6 - s.digits.length) % 2 ^ 64))
  rw [← hword] at hseconds hmicros hhint
  have hwhole : ((s.seconds - (none : Option Int).getD 0) % 2 ^ 64).toNat % 2 ^ 32 =
      s.seconds.toNat := by
    rw [getD_none]
    omega
  rw [hwhole] at hseconds
  have hdate : (setFromString s.text).hasDate := by
    rw [hasDate_eq, hhint, Nat.testBit_or]; rfl
  have htime : (setFromString s.text).hasTime := by
    rw [hasTime_eq, hhint, Nat.testBit_or]; rfl
  by_cases hlength : s.digits.length ≤ 6
  · obtain ⟨hnumber, hsmall⟩ := micros_of_le hlength
    rw [hnumber] at hseconds hmicros
    have hover : s.micros % 2 ^ 64 / 2 ^ 32 % 2 ^ 32 = 0 := by omega
    have hcut : s.micros % 2 ^ 64 % 2 ^ 20 = s.micros := by omega
    rw [hover, Nat.or_zero] at hseconds
    rw [hcut] at hmicros
    exact iff_of_true ⟨by omega, hmicros, hdate, htime⟩ (.inl hlength)
  have hnone : 6 - s.digits.length = 0 := by omega
  rw [hnone, Nat.pow_zero, Nat.mul_one] at hseconds hmicros
  have hhalf : s.number % 2 ^ 64 / 2 ^ 32 % 2 ^ 32 = s.number % 2 ^ 64 / 2 ^ 32 := by omega
  have hcut : s.number % 2 ^ 64 % 2 ^ 20 = s.number % 2 ^ 20 := by omega
  rw [hhalf] at hseconds
  rw [hcut] at hmicros
  constructor
  · intro hparses
    have hstored := hparses.seconds
    refine .inr ⟨hmicros.symm.trans hparses.microSeconds, ?_⟩
    omega
  · intro hfits
    rcases hfits with hshort | ⟨hfield, hbits⟩
    · exact absurd hshort hlength
    · exact ⟨by omega, hmicros.trans hfield, hdate, htime⟩

theorem parses_iff_fits (s : Stamp) : s.Parses ↔ s.InRange ∧ s.Fits := by
  constructor
  · intro h
    have hstored := h.seconds
    have hlt := (setFromString s.text).seconds_lt
    have hin : s.InRange := ⟨by omega, by omega⟩
    exact ⟨hin, (parses_of_inRange hin).mp h⟩
  · intro h; exact (parses_of_inRange h.1).mpr h.2

end Stamp

/-! ## The copy -/

def given (str : List Char) (strLen : Nat) : List Char := (str.take strLen).takeWhile (· ≠ '\x00')

/-- **Nothing but the text is read**, and so it is read as if it were alone. -/
structure ReadsOnly (str : List Char) (strLen : Nat) (behind : List Char) : Prop where
  text : tmpStr str strLen behind = given str strLen
  result : ∀ tz, setFromStringBufferWithTz str strLen behind tz =
    setFromStringWithTz (given str strLen) tz

/-- The bytes that are copied have their end, or it happens to be behind them. -/
def Ends (str : List Char) (strLen : Nat) (behind : List Char) : Prop :=
  '\x00' ∈ str.take strLen ∨ ∀ c ∈ behind.head?, c = '\x00'

instance (str : List Char) (strLen : Nat) (behind : List Char) :
    Decidable (Ends str strLen behind) := inferInstanceAs (Decidable (_ ∨ _))

theorem takeWhile_append_of_mem {text : List Char} (h : c ∈ text) (behind : List Char) :
    (text ++ behind).takeWhile (· ≠ c) = text.takeWhile (· ≠ c) := by
  induction text with
  | nil => exact absurd h not_mem_nil
  | cons d text ih =>
    rw [cons_append, takeWhile_cons, takeWhile_cons]
    by_cases hd : d = c
    · simp [hd]
    · have hmem : c ∈ text := (List.mem_cons.mp h).resolve_left fun heq => hd heq.symm
      rw [ih hmem]

theorem tmpStr_eq_iff (str : List Char) (strLen : Nat) (behind : List Char) :
    tmpStr str strLen behind = given str strLen ↔ Ends str strLen behind := by
  unfold tmpStr given Ends
  by_cases hmem : '\x00' ∈ str.take strLen
  · exact iff_of_true (takeWhile_append_of_mem hmem behind) (.inl hmem)
  have hall : ∀ c ∈ str.take strLen, decide (c ≠ '\x00') = true := by
    intro c hc; exact decide_eq_true fun hzero => hmem (hzero ▸ hc)
  rw [takeWhile_append_of_pos hall, List.takeWhile_eq_self_iff.mpr hall]
  cases behind with
  | nil => simp
  | cons c behind =>
    by_cases hc : c = '\x00'
    · simp [hc]
    · simp [hmem]

theorem readsOnly_iff (str : List Char) (strLen : Nat) (behind : List Char) :
    ReadsOnly str strLen behind ↔ Ends str strLen behind := by
  constructor
  · intro h; exact (tmpStr_eq_iff str strLen behind).mp h.text
  · intro h
    have htext := (tmpStr_eq_iff str strLen behind).mpr h
    refine ⟨htext, fun tz => ?_⟩
    rw [setFromStringBufferWithTz, htext]

/-- **A text is read as it is just if its fraction fits**, and a copy just if it has its end. -/
theorem reads_text_iff (s : Stamp) (str : List Char) (strLen : Nat) (behind : List Char) :
    (s.Parses ↔ s.InRange ∧ s.Fits) ∧ (ReadsOnly str strLen behind ↔ Ends str strLen behind) :=
  ⟨s.parses_iff_fits, readsOnly_iff str strLen behind⟩

def sevenNines : Stamp where
  separator := '-'
  year := ⟨4, 2022⟩
  month := ⟨2, 12⟩
  day := ⟨2, 31⟩
  hour := ⟨2, 23⟩
  minute := ⟨2, 59⟩
  second := ⟨2, 59⟩
  digits := List.replicate 7 '9'
  isSeparator := .inl rfl
  isMonth := by decide
  isDay := by decide
  isHour := by decide
  isMinute := by decide
  isSecond := by decide
  isFraction := fun c hc => by
    rw [eq_of_mem_replicate hc]; rfl

/-- Seven digits are not six, and the first day of a month becomes the fifteenth by what is behind
it. -/
theorem not_reads :
    ¬ sevenNines.Parses ∧
      setFromStringBufferWithTz "2022-12-01".toList 10 ['5', '\x00'] none ≠
        setFromStringWithTz "2022-12-01".toList none := by
  constructor
  · intro h; exact absurd h.microSeconds (by decide +kernel)
  · decide +kernel

end DateTime

end Mama
