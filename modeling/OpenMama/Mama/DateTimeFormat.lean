import OpenMama.Mama.DateTimeFields

/-!
# Formatted date-times

`mamaDateTime_getAsFormattedStringWithTz` goes through a format and copies it; a `%`
and a letter print a field of the local time.  Up to the room for it the text is the
expansion of the format (`formatLoop_take`).

`shown` says what each letter is to print.  The code prints that but for the year of
`%D`, whose tens count the years from 1900, and for fractions to one or two digits,
which take the wrong digits of the microseconds (`formats_iff`).
-/

namespace Mama

open List

namespace DateTime

/-! ## Printing -/

/-- `printDigit`: the byte that far from the zero. -/
def printDigit (digit : Nat) : Char := Char.ofNat ((digit + 48) % 256)

def printTwo (n : Nat) : List Char := [printDigit (n / 10), printDigit (n % 10)]

def printThree (n : Nat) : List Char := printDigit (n / 100) :: printTwo (n % 100)

def printFour (n : Nat) : List Char := printDigit (n / 1000) :: printThree (n % 1000)

def printSubseconds (precision microsecs : Nat) : List Char :=
  match if precision = 15 then 3 else precision with
  | 6 =>
    printDigit (microsecs / 100000) :: printDigit (microsecs % 100000 / 10000) ::
      printFour (microsecs % 100000 % 10000)
  | 3 => printThree (microsecs / 1000)
  | 2 => printTwo (microsecs / 100)
  | 1 => [printDigit (microsecs / 10)]
  | _ => []

def gMonthsAbbrev : List String :=
  ["Jan", "Feb", "Mar", "Apr", "May", "Jun", "Jul", "Aug", "Sep", "Oct", "Nov", "Dec"]

def gMonthsAbbrevAllCap : List String :=
  ["JAN", "FEB", "MAR", "APR", "MAY", "JUN", "JUL", "AUG", "SEP", "OCT", "NOV", "DEC"]

def gMonthsFull : List String :=
  ["January", "February", "March", "April", "May", "June", "July", "August", "September",
    "October", "November", "December"]

/-- What a letter after `%` prints, if it is one of the special ones. -/
def conversion (t : DateTime) (tm : Tm) (letter : Char) : Option (List Char) :=
  let year := (tm.year + 1900).toNat
  let month := (tm.mon + 1).toNat
  let mday := tm.mday.toNat
  let hour := tm.hour.toNat
  let minute := tm.min.toNat
  let second := tm.sec.toNat
  let us := t.microSeconds
  match letter with
  | 'Y' => some (if t.hasDate then printFour year else "    ".toList)
  | 'y' => some (if t.hasDate then printTwo (tm.year % 100).toNat else "  ".toList)
  | 'm' => some (if t.hasDate then printTwo month else "  ".toList)
  | 'd' => some (if t.hasDate then printTwo mday else "  ".toList)
  | 'F' =>
    some (if t.hasDate then printFour year ++ '-' :: (printTwo month ++ '-' :: printTwo mday)
      else "    -  -  ".toList)
  | 'T' =>
    some (if t.hasTime then printTwo hour ++ ':' :: (printTwo minute ++ ':' :: printTwo second)
      else "  :  :  ".toList)
  | 'D' =>
    some (if t.hasDate then printTwo month ++ '/' :: (printTwo mday ++ '/' ::
      printTwo tm.year.toNat) else "    -  -  ".toList)
  | 'H' => some (if t.hasTime then printTwo hour else "  ".toList)
  | 'M' => some (if t.hasTime then printTwo minute else "  ".toList)
  | 'S' => some (if t.hasTime then printTwo second else "  ".toList)
  | ':' => some (if t.hasTime then printSubseconds 3 us else "   ".toList)
  | ';' => some (if t.hasTime && decide (us > 0) then '.' :: printSubseconds 3 us else [])
  | '.' => some (if t.hasTime then printSubseconds t.precision us else "   ".toList)
  | ',' => some (if t.hasTime && decide (us > 0) then '.' :: printSubseconds t.precision us else [])
  | 'B' => some (if t.hasDate then (gMonthsFull.getD tm.mon.toNat "").toList else "     ".toList)
  | 'b' => some (if t.hasDate then (gMonthsAbbrev.getD tm.mon.toNat "").toList else "   ".toList)
  | 'h' =>
    some (if t.hasDate then (gMonthsAbbrevAllCap.getD tm.mon.toNat "").toList else "   ".toList)
  | _ => none

/-- The loop over the format, while there is room.  A `%` at its end is written twice, and the
second one whether there is room or not. -/
def formatLoop (print : Char → Option (List Char)) (maxLen : Nat) :
    List Char → List Char → List Char
  | [], result => result
  | c :: fmt, result =>
    if result.length < maxLen then
      if c ≠ '%' then formatLoop print maxLen fmt (result ++ [c])
      else
        match fmt with
        | [] => result ++ ['%', '%']
        | letter :: rest =>
          match print letter with
          | some text => formatLoop print maxLen rest ((result ++ text).take maxLen)
          | none => formatLoop print maxLen (letter :: rest) (result ++ ['%'])
    else result

/-- `mamaDateTime_getAsFormattedStringWithTz`: the bytes before the terminator, which is written
behind them or at the end of the room. -/
def getAsFormattedStringWithTz (t : DateTime) (maxLen : Nat) (fmt : List Char) (tz : Option Int) :
    List Char :=
  let offset := tz.getD 0
  let tmTime :=
    if offset ≠ 0 then utcTm (t.addWholeSeconds offset).seconds else utcTm t.seconds
  (formatLoop (t.conversion tmTime) maxLen fmt []).take (maxLen - 1)

/-! ## What is to be shown -/

def subsecondDigits (precision : Nat) : Nat :=
  match precision with
  | 1 => 1
  | 2 => 2
  | 3 => 3
  | 6 => 6
  | 15 => 3
  | _ => 0

def subsecondText (digits us : Nat) : List Char :=
  if digits = 0 then [] else Lib.padded digits (us / 10 ^ (6 - digits))

def dateField (tm : Tm) (letter : Char) : Option (List Char) :=
  let year := (tm.year + 1900).toNat
  let month := (tm.mon + 1).toNat
  let mday := tm.mday.toNat
  match letter with
  | 'Y' => some (Lib.padded 4 year)
  | 'y' => some (Lib.padded 2 (year % 100))
  | 'm' => some (Lib.padded 2 month)
  | 'd' => some (Lib.padded 2 mday)
  | 'F' => some (Lib.padded 4 year ++ '-' :: (Lib.padded 2 month ++ '-' :: Lib.padded 2 mday))
  | 'D' =>
    some (Lib.padded 2 month ++ '/' :: (Lib.padded 2 mday ++ '/' :: Lib.padded 2 (year % 100)))
  | 'B' => some (gMonthsFull.getD tm.mon.toNat "").toList
  | 'b' => some (gMonthsAbbrev.getD tm.mon.toNat "").toList
  | 'h' => some (gMonthsAbbrevAllCap.getD tm.mon.toNat "").toList
  | _ => none

def timeField (tm : Tm) (us precision : Nat) (letter : Char) : Option (List Char) :=
  let hour := tm.hour.toNat
  let minute := tm.min.toNat
  let second := tm.sec.toNat
  match letter with
  | 'T' => some (Lib.padded 2 hour ++ ':' :: (Lib.padded 2 minute ++ ':' :: Lib.padded 2 second))
  | 'H' => some (Lib.padded 2 hour)
  | 'M' => some (Lib.padded 2 minute)
  | 'S' => some (Lib.padded 2 second)
  | ':' => some (subsecondText 3 us)
  | ';' => some (if us > 0 then '.' :: subsecondText 3 us else [])
  | '.' => some (subsecondText (subsecondDigits precision) us)
  | ',' => some (if us > 0 then '.' :: subsecondText (subsecondDigits precision) us else [])
  | _ => none

/-- What a letter is to print: its field, if the date-time has the part that it is of.  What stands
for a part that is not there is left to the code. -/
def shown (t : DateTime) (tm : Tm) (letter : Char) : Option (List Char) :=
  match dateField tm letter, timeField tm t.microSeconds t.precision letter with
  | some text, _ => if t.hasDate then some text else t.conversion tm letter
  | none, some text => if t.hasTime then some text else t.conversion tm letter
  | none, none => none

def expand (print : Char → Option (List Char)) : List Char → List Char
  | [] => []
  | c :: fmt =>
    if c ≠ '%' then c :: expand print fmt
    else
      match fmt with
      | [] => ['%', '%']
      | letter :: rest =>
        match print letter with
        | some text => text ++ expand print rest
        | none => '%' :: expand print (letter :: rest)

structure Tm.Proper (tm : Tm) : Prop where
  year : 70 ≤ tm.year ∧ tm.year < 210
  mon : 0 ≤ tm.mon ∧ tm.mon < 12
  mday : 0 < tm.mday ∧ tm.mday < 32
  hour : 0 ≤ tm.hour ∧ tm.hour < 24
  min : 0 ≤ tm.min ∧ tm.min < 60
  sec : 0 ≤ tm.sec ∧ tm.sec < 60

/-- The tens of the year that `%D` prints are a digit, and the digits of a fraction to one or two
places are its first ones. -/
structure ShowsRight (t : DateTime) (tm : Tm) : Prop where
  year : t.hasDate → tm.year < 100
  deci : t.hasTime → t.precision = 1 →
    t.microSeconds / 10 % 256 = t.microSeconds / 100000
  centi : t.hasTime → t.precision = 2 →
    t.microSeconds / 1000 % 256 = t.microSeconds / 100000 ∧
      t.microSeconds / 100 % 10 = t.microSeconds / 10000 % 10

/-! ## The loop -/

theorem expand_char (print : Char → Option (List Char)) {c : Char} (hc : c ≠ '%')
    (fmt : List Char) : expand print (c :: fmt) = c :: expand print fmt := by
  rw [expand.eq_def]
  simp [hc]

variable {letter : Char} {n : Nat} {t : DateTime} {tm : Tm}

theorem expand_field {print : Char → Option (List Char)} {text : List Char}
    (h : print letter = some text) (rest : List Char) :
    expand print ('%' :: letter :: rest) = text ++ expand print rest := by
  rw [expand.eq_def]
  simp [h]

theorem expand_percent {print : Char → Option (List Char)} (h : print letter = none)
    (rest : List Char) :
    expand print ('%' :: letter :: rest) = '%' :: expand print (letter :: rest) := by
  rw [expand.eq_def]
  simp [h]

theorem take_take_append (n : Nat) (a b : List Char) :
    (a.take n ++ b).take n = (a ++ b).take n := by
  have hrest : n - min n a.length = n - a.length := by omega
  rw [take_append, take_append, take_take, Nat.min_self, length_take, hrest]

/-- **The text is the expansion of the format**, up to the room there is. -/
theorem formatLoop_take (print : Char → Option (List Char)) (maxLen : Nat) (fmt : List Char) :
    ∀ result, result.length ≤ maxLen →
      (formatLoop print maxLen fmt result).take maxLen =
        (result ++ expand print fmt).take maxLen := by
  intro result hlength
  fun_induction formatLoop print maxLen fmt result with
  | case1 result => simp [expand]
  | case2 c fmt result hroom hc ih =>
    rw [ih (by rw [length_append]; exact hroom), expand_char print hc, append_assoc]
    rfl
  | case3 c result hroom hc => simp [expand, not_not.mp hc]
  | case4 c result hroom hc letter rest text htext ih =>
    rw [ih (length_take_le maxLen _), take_take_append, not_not.mp hc, expand_field htext,
      append_assoc]
  | case5 c result hroom hc letter rest hnone ih =>
    rw [ih (by rw [length_append]; exact hroom), not_not.mp hc, expand_percent hnone, append_assoc]
    rfl
  | case6 c fmt result hfull =>
    have hwhole : result.length = maxLen := by omega
    rw [take_append, ← hwhole, Nat.sub_self, take_zero, append_nil]

/-! ## Digits -/

theorem printDigit_of_lt : ∀ d < 10, printDigit d = Nat.digitChar d := by decide

theorem printTwo_eq (h : n < 100) : printTwo n = Lib.padded 2 n := by
  have hcons : Lib.padded 2 n = Nat.digitChar (n / 10) :: Lib.padded 1 (n % 10) :=
    Lib.padded_cons (by decide) h
  rw [hcons, Lib.padded_one (by omega), printTwo, printDigit_of_lt _ (by omega),
    printDigit_of_lt _ (by omega)]

theorem printThree_eq (h : n < 1000) : printThree n = Lib.padded 3 n := by
  have hcons : Lib.padded 3 n = Nat.digitChar (n / 100) :: Lib.padded 2 (n % 100) :=
    Lib.padded_cons (by decide) h
  rw [hcons, printThree, printDigit_of_lt _ (by omega), printTwo_eq (by omega)]

theorem printFour_eq (h : n < 10000) : printFour n = Lib.padded 4 n := by
  have hcons : Lib.padded 4 n = Nat.digitChar (n / 1000) :: Lib.padded 3 (n % 1000) :=
    Lib.padded_cons (by decide) h
  rw [hcons, printFour, printDigit_of_lt _ (by omega), printThree_eq (by omega)]

theorem printSix_eq (h : n < 1000000) :
    printDigit (n / 100000) :: printDigit (n % 100000 / 10000) :: printFour (n % 100000 % 10000) =
      Lib.padded 6 n := by
  have hsix : Lib.padded 6 n = Nat.digitChar (n / 100000) :: Lib.padded 5 (n % 100000) :=
    Lib.padded_cons (by decide) h
  have hfive : Lib.padded 5 (n % 100000) =
      Nat.digitChar (n % 100000 / 10000) :: Lib.padded 4 (n % 100000 % 10000) :=
    Lib.padded_cons (by decide) (Nat.mod_lt n (by decide))
  rw [hsix, hfive, printDigit_of_lt _ (by omega), printDigit_of_lt _ (by omega),
    printFour_eq (by omega)]

theorem toNat_byte : ∀ a < 256, (Char.ofNat a).toNat = a := by decide +kernel

theorem printDigit_eq_iff {d : Nat} (hd : d < 10) :
    printDigit n = Nat.digitChar d ↔ n % 256 = d := by
  rw [← printDigit_of_lt d hd]
  constructor
  · intro h
    have hval := congrArg Char.toNat h
    rw [printDigit, printDigit, toNat_byte _ (Nat.mod_lt _ (by decide)),
      toNat_byte _ (Nat.mod_lt _ (by decide))] at hval
    omega
  · intro h
    have hbyte : (n + 48) % 256 = (d + 48) % 256 := by omega
    rw [printDigit, printDigit, hbyte]

/-! ## Subseconds -/

theorem subsecondText_one {us : Nat} (hus : us < 1000000) :
    subsecondText 1 us = [Nat.digitChar (us / 100000)] := by
  show Lib.padded 1 (us / 100000) = _
  rw [Lib.padded_one (by omega)]

theorem subsecondText_two {us : Nat} (hus : us < 1000000) :
    subsecondText 2 us = [Nat.digitChar (us / 100000), Nat.digitChar (us / 10000 % 10)] := by
  show Lib.padded 2 (us / 10000) = _
  rw [Lib.padded_cons (by decide) (by omega), Lib.padded_one (by omega), Nat.pow_one,
    Nat.div_div_eq_div_mul]

theorem subseconds_other {precision : Nat} (h : precision ∉ [1, 2, 3, 6, 15]) (us : Nat) :
    printSubseconds precision us = [] ∧ subsecondDigits precision = 0 := by
  simp only [mem_cons, not_or] at h
  obtain ⟨h1, h2, h3, h6, h15, -⟩ := h
  unfold printSubseconds subsecondDigits
  rw [if_neg h15]
  constructor
  · split <;> first | rfl | contradiction
  · split <;> first | rfl | contradiction

theorem printSubseconds_eq_iff {precision us : Nat} (hus : us < 1000000) :
    printSubseconds precision us = subsecondText (subsecondDigits precision) us ↔
      (precision = 1 → us / 10 % 256 = us / 100000) ∧
        (precision = 2 → us / 1000 % 256 = us / 100000 ∧ us / 100 % 10 = us / 10000 % 10) := by
  by_cases hone : precision = 1
  · subst hone
    show [printDigit (us / 10)] = subsecondText 1 us ↔ _
    rw [subsecondText_one hus, cons_eq_cons, printDigit_eq_iff (by omega)]
    simp
  by_cases htwo : precision = 2
  · subst htwo
    show [printDigit (us / 100 / 10), printDigit (us / 100 % 10)] = subsecondText 2 us ↔ _
    rw [subsecondText_two hus, cons_eq_cons, cons_eq_cons, printDigit_eq_iff (by omega),
      printDigit_eq_iff (by omega), show us / 100 / 10 = us / 1000 by omega,
      show us / 100 % 10 % 256 = us / 100 % 10 by omega]
    simp
  refine iff_of_true ?_ ⟨fun h => absurd h hone, fun h => absurd h htwo⟩
  by_cases hrest : precision ∈ [1, 2, 3, 6, 15]
  · have hcases : precision = 3 ∨ precision = 6 ∨ precision = 15 := by
      simpa [hone, htwo] using hrest
    rcases hcases with rfl | rfl | rfl
    · exact printThree_eq (by omega)
    · show _ = Lib.padded 6 (us / 1)
      rw [Nat.div_one]
      exact printSix_eq hus
    · exact printThree_eq (by omega)
  · obtain ⟨hprinted, hdigits⟩ := subseconds_other hrest us
    rw [hprinted, hdigits]
    rfl

/-! ## Letters -/

theorem proper_gmtime {time : Nat} (h : time < 2 ^ 32) : (gmtime time).Proper := by
  obtain ⟨y, m, d, hgm, hcount, hm, hd, hfirst, -⟩ := gmtime_spec time h
  have hlast := Lib.year_le_of_daysTo (y := y) m d (by omega)
  rw [hgm]
  constructor <;> dsimp only <;> omega

theorem printTwo_year_iff {year : Nat} (h : year < 210) :
    printTwo year = Lib.padded 2 (year % 100) ↔ year < 100 := by
  constructor
  · intro heq
    rw [Lib.padded_cons (by decide) (by omega), printTwo, cons_eq_cons,
      printDigit_eq_iff (by omega)] at heq
    omega
  · intro hsmall
    rw [Nat.mod_eq_of_lt hsmall]
    exact printTwo_eq hsmall

section

variable (htm : tm.Proper)

include htm

theorem conversion_date (hdate : t.hasDate) {text : List Char}
    (h : dateField tm letter = some text) :
    t.conversion tm letter = some text ↔ (letter = 'D' → tm.year < 100) := by
  obtain ⟨hyear, hyear'⟩ := htm.year
  obtain ⟨hmon, hmon'⟩ := htm.mon
  obtain ⟨hmday, hmday'⟩ := htm.mday
  have hfour := printFour_eq (n := (tm.year + 1900).toNat) (by omega)
  have hshort := printTwo_eq (n := (tm.year + 1900).toNat % 100) (by omega)
  have hmonth := printTwo_eq (n := (tm.mon + 1).toNat) (by omega)
  have hday := printTwo_eq (n := tm.mday.toNat) (by omega)
  have hcentury : (tm.year % 100).toNat = (tm.year + 1900).toNat % 100 := by omega
  unfold dateField at h
  unfold conversion
  split at h
  case h_6 =>
    have hyears : (tm.year + 1900).toNat % 100 = tm.year.toNat % 100 := by omega
    have hiff : printTwo tm.year.toNat = Lib.padded 2 (tm.year.toNat % 100) ↔ tm.year.toNat < 100 :=
      printTwo_year_iff (by omega)
    have hsmall : tm.year.toNat < 100 ↔ tm.year < 100 := by omega
    rw [← Option.some.inj h]
    simp [hdate, hmonth, hday, hyears, hiff]
  case h_10 => simp at h
  all_goals
    rw [← Option.some.inj h]
    simp [hdate, hfour, hshort, hmonth, hday, hcentury]

theorem conversion_time (htime : t.hasTime)
    (hus : t.microSeconds < 1000000) {text : List Char}
    (h : timeField tm t.microSeconds t.precision letter = some text) :
    t.conversion tm letter = some text ↔
      (letter = '.' ∨ letter = ',' ∧ 0 < t.microSeconds →
        printSubseconds t.precision t.microSeconds =
          subsecondText (subsecondDigits t.precision) t.microSeconds) := by
  obtain ⟨hhour, hhour'⟩ := htm.hour
  obtain ⟨hmin, hmin'⟩ := htm.min
  obtain ⟨hsec, hsec'⟩ := htm.sec
  have hhours := printTwo_eq (n := tm.hour.toNat) (by omega)
  have hminutes := printTwo_eq (n := tm.min.toNat) (by omega)
  have hseconds := printTwo_eq (n := tm.sec.toNat) (by omega)
  have hmillis : printSubseconds 3 t.microSeconds = subsecondText 3 t.microSeconds :=
    printThree_eq (by omega)
  unfold timeField at h
  unfold conversion
  split at h
  case h_9 => simp at h
  all_goals
    rw [← Option.some.inj h]
    by_cases hpos : 0 < t.microSeconds <;>
      simp [htime, hhours, hminutes, hseconds, hmillis, hpos]

omit htm in
theorem conversion_none (hdate : dateField tm letter = none)
    (htime : timeField tm t.microSeconds t.precision letter = none) :
    t.conversion tm letter = none := by
  unfold conversion
  split <;> first | rfl | simp [dateField, timeField] at hdate htime

omit htm in
theorem shown_date (hdate : t.hasDate) {text : List Char}
    (h : dateField tm letter = some text) : t.shown tm letter = some text := by
  rw [shown, h]
  exact if_pos hdate

omit htm in
theorem shown_time (htime : t.hasTime) {text : List Char} (hnone : dateField tm letter = none)
    (h : timeField tm t.microSeconds t.precision letter = some text) :
    t.shown tm letter = some text := by
  rw [shown, hnone, h]
  exact if_pos htime

section

variable (hus : t.microSeconds < 1000000)

include hus

theorem showsRight_of_shown (hyear : t.conversion tm 'D' = t.shown tm 'D')
    (hfraction : t.conversion tm '.' = t.shown tm '.') : t.ShowsRight tm := by
  have hdot : t.hasTime → printSubseconds t.precision t.microSeconds =
      subsecondText (subsecondDigits t.precision) t.microSeconds := by
    intro htime
    have hshown := hfraction.trans (shown_time htime rfl rfl)
    exact (conversion_time htm htime hus rfl).mp hshown (.inl rfl)
  have hdigits := fun htime => (printSubseconds_eq_iff hus).mp (hdot htime)
  refine ⟨fun hdate => ?_, fun htime => (hdigits htime).1, fun htime => (hdigits htime).2⟩
  have hshown := hyear.trans (shown_date hdate rfl)
  exact (conversion_date htm hdate rfl).mp hshown rfl

theorem conversion_eq_shown (h : t.ShowsRight tm)
    (letter : Char) : t.conversion tm letter = t.shown tm letter := by
  unfold shown
  split
  · next text other hfield =>
    split
    · next hdate => exact (conversion_date htm hdate hfield).mpr fun _ => h.year hdate
    · rfl
  · next text hnone hfield =>
    split
    · next htime =>
      exact (conversion_time htm htime hus hfield).mpr fun _ =>
        (printSubseconds_eq_iff hus).mpr ⟨h.deci htime, h.centi htime⟩
    · rfl
  · next hdate htime => exact conversion_none hdate htime

/-- **Every format shows the fields** just if the tens of the year are a digit and a fraction to one
or two digits is made of the right ones. -/
theorem formats_iff :
    (∀ maxLen fmt, (formatLoop (t.conversion tm) maxLen fmt []).take (maxLen - 1) =
      (expand (t.shown tm) fmt).take (maxLen - 1)) ↔ t.ShowsRight tm := by
  have htext : ∀ maxLen fmt, (formatLoop (t.conversion tm) maxLen fmt []).take (maxLen - 1) =
      (expand (t.conversion tm) fmt).take (maxLen - 1) := by
    intro maxLen fmt
    have htake := congrArg (List.take (maxLen - 1))
      (formatLoop_take (t.conversion tm) maxLen fmt [] (Nat.zero_le _))
    rwa [take_take, take_take, Nat.min_eq_left (Nat.sub_le maxLen 1)] at htake
  constructor
  · intro h
    have hletter : ∀ {letter a b}, t.conversion tm letter = some a → t.shown tm letter = some b →
        t.conversion tm letter = t.shown tm letter := by
      intro letter a b ha hb
      have hshown := (htext (a.length + b.length + 1) ['%', letter]).symm.trans (h _ _)
      rw [expand_field ha, expand_field hb, take_of_length_le (by simp [expand]),
        take_of_length_le (by simp [expand])] at hshown
      rw [ha, hb, append_cancel_right hshown]
    have hsome : ∀ {c : Bool} {a b : List Char}, ∃ text,
        (if c then some a else some b) = some text := by
      intro c a b
      cases c
      · exact ⟨b, rfl⟩
      · exact ⟨a, rfl⟩
    obtain ⟨year, hyear⟩ : ∃ text, t.shown tm 'D' = some text := hsome
    obtain ⟨fraction, hfraction⟩ : ∃ text, t.shown tm '.' = some text := hsome
    exact showsRight_of_shown htm hus (hletter rfl hyear) (hletter rfl hfraction)
  · intro h maxLen fmt
    rw [htext, funext (conversion_eq_shown htm hus h)]

end

end

end DateTime

end Mama
