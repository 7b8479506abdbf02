import OpenMama.Mama.DateTimeFormat

/-!
# Formats put together

A format that does not end in `%` is expanded for itself, whatever comes behind it
(`expand_append`), so `mamaDateTime_getAsFormattedStringWithTz` of two formats is that
of the first and then that of the second.  `%F` and `%T` are what their parts print.
`%D` is that only of a date before the year 2000: it prints the years since 1900 as
two digits, and without a date it prints the blanks of `%F` (`composes_iff`).
-/

namespace Mama

open List Option

namespace DateTime

def printedTm (t : DateTime) (tz : Option Int) : Tm :=
  let offset := tz.getD 0
  if offset ≠ 0 then utcTm (t.addWholeSeconds offset).seconds else utcTm t.seconds

/-- A byte that may be printed: a digit, a separator or a blank, a letter of a month, or one of the
format. -/
def Plain (fmt : List Char) (c : Char) : Prop :=
  c.isDigit ∨ c ∈ ['-', '/', ':', '.', ' '] ∨
    (∃ month ∈ gMonthsFull ++ gMonthsAbbrev ++ gMonthsAbbrevAllCap, c ∈ month.toList) ∨ c ∈ fmt

/-- **Formats are put together from their parts**, and fractions are made of the first digits. -/
structure Composes (t : DateTime) (tz : Option Int) : Prop where
  append : ∀ f g : List Char, f.getLast? ≠ some '%' → g.getLast? ≠ some '%' →
    ∃ room, ∀ maxLen ≥ room, t.getAsFormattedStringWithTz maxLen (f ++ g) tz =
      t.getAsFormattedStringWithTz maxLen f tz ++ t.getAsFormattedStringWithTz maxLen g tz
  date : ∃ room, ∀ maxLen ≥ room, t.getAsFormattedStringWithTz maxLen "%F".toList tz =
    t.getAsFormattedStringWithTz maxLen "%Y-%m-%d".toList tz
  time : ∃ room, ∀ maxLen ≥ room, t.getAsFormattedStringWithTz maxLen "%T".toList tz =
    t.getAsFormattedStringWithTz maxLen "%H:%M:%S".toList tz
  shortDate : ∃ room, ∀ maxLen ≥ room, t.getAsFormattedStringWithTz maxLen "%D".toList tz =
    t.getAsFormattedStringWithTz maxLen "%m/%d/%y".toList tz
  fraction : t.microSeconds < 1000000 → t.hasTime → t.precision ∈ [1, 2, 3, 6] →
    ∃ room, ∀ maxLen ≥ room, t.getAsFormattedStringWithTz maxLen "%.".toList tz =
      (Lib.padded 6 t.microSeconds).take t.precision
  pointed : t.microSeconds < 1000000 → t.hasTime → t.precision ∈ [1, 2, 3, 6] →
    ∃ room, ∀ maxLen ≥ room, t.getAsFormattedStringWithTz maxLen "%,".toList tz =
      if t.microSeconds = 0 then [] else '.' :: (Lib.padded 6 t.microSeconds).take t.precision
  plain : t.microSeconds < 1000000 → ∀ maxLen fmt,
    ∀ c ∈ t.getAsFormattedStringWithTz maxLen fmt tz, Plain fmt c

/-! ## Expansion -/

variable {c : Char}

section Expansion

variable {print : Char → Option (List Char)}

/-- **A format without a `%` at its end is expanded for itself.** -/
theorem expand_append {f : List Char} (h : f.getLast? ≠ some '%') (g : List Char) :
    expand print (f ++ g) = expand print f ++ expand print g := by
  fun_induction expand print f with
  | case1 => rfl
  | case2 c f hc ih =>
    have hlast : f.getLast? ≠ some '%' := by
      cases f with
      | nil => simp
      | cons d f => exact h
    rw [cons_append, expand_char print hc, ih hlast]
    rfl
  | case3 c hc => exact absurd (congrArg some (not_not.mp hc)) h
  | case4 c hc letter rest text htext ih =>
    have hlast : rest.getLast? ≠ some '%' := by
      cases rest with
      | nil => simp
      | cons d rest => exact h
    rw [not_not.mp hc, cons_append, cons_append, expand_field htext, ih hlast, append_assoc]
  | case5 c hc letter rest hnone ih =>
    rw [not_not.mp hc, cons_append, cons_append, expand_percent hnone]
    have hrest := ih h
    rw [cons_append] at hrest
    rw [hrest]
    rfl

theorem mem_expand {fmt : List Char} (h : c ∈ expand print fmt) :
    c ∈ fmt ∨ ∃ letter text, print letter = some text ∧ c ∈ text := by
  fun_induction expand print fmt with
  | case1 => exact absurd h not_mem_nil
  | case2 d fmt hd ih =>
    rcases mem_cons.mp h with rfl | h
    · exact .inl mem_cons_self
    · exact (ih h).imp_left (mem_cons_of_mem d)
  | case3 d hd =>
    have hc : c = '%' := by simpa using h
    exact .inl (by rw [hc, not_not.mp hd]; exact mem_cons_self)
  | case4 d hd letter rest text htext ih =>
    rcases mem_append.mp h with h | h
    · exact .inr ⟨letter, text, htext, h⟩
    · exact (ih h).imp_left fun h => mem_cons_of_mem _ (mem_cons_of_mem _ h)
  | case5 d hd letter rest hnone ih =>
    rcases mem_cons.mp h with hc | h
    · exact .inl (by rw [hc, not_not.mp hd]; exact mem_cons_self)
    · exact (ih h).imp_left (mem_cons_of_mem d)

end Expansion

/-! ## Room enough -/

variable {a b : List Char}

theorem room_iff :
    (∃ room, ∀ maxLen ≥ room, a.take (maxLen - 1) = b.take (maxLen - 1)) ↔ a = b := by
  constructor
  · rintro ⟨room, h⟩
    have heq := h (room + a.length + b.length + 1) (by omega)
    rwa [take_of_length_le (by omega), take_of_length_le (by omega)] at heq
  · rintro rfl; exact ⟨0, fun _ _ => rfl⟩

theorem room_eq_iff : (∃ room, ∀ maxLen ≥ room, a.take (maxLen - 1) = b) ↔ a = b := by
  constructor
  · rintro ⟨room, h⟩
    have heq := h (room + a.length + 1) (by omega)
    rwa [take_of_length_le (by omega)] at heq
  · rintro rfl
    refine ⟨a.length + 1, fun maxLen hmaxLen => ?_⟩
    rw [take_of_length_le (by omega)]

theorem formatted_eq (t : DateTime) (maxLen : Nat) (fmt : List Char) (tz : Option Int) :
    t.getAsFormattedStringWithTz maxLen fmt tz =
      (expand (t.conversion (t.printedTm tz)) fmt).take (maxLen - 1) := by
  have htake := congrArg (List.take (maxLen - 1))
    (formatLoop_take (t.conversion (t.printedTm tz)) maxLen fmt [] (Nat.zero_le _))
  rwa [take_take, take_take, Nat.min_eq_left (Nat.sub_le maxLen 1)] at htake

theorem proper_printedTm (t : DateTime) (tz : Option Int) : (t.printedTm tz).Proper := by
  unfold printedTm utcTm
  dsimp only
  split
  · exact proper_gmtime (seconds_lt _)
  · exact proper_gmtime (seconds_lt _)

/-! ## The letters of several fields -/

variable {us : Nat}

section Letters

variable {t : DateTime} {tm : Tm}

theorem expand_date : expand (t.conversion tm) "%F".toList =
    expand (t.conversion tm) "%Y-%m-%d".toList := by
  show expand _ ['%', 'F'] = expand _ ['%', 'Y', '-', '%', 'm', '-', '%', 'd']
  rw [@expand_field 'F' _ _ rfl, @expand_field 'Y' _ _ rfl, expand_char _ (by decide),
    @expand_field 'm' _ _ rfl, expand_char _ (by decide), @expand_field 'd' _ _ rfl]
  cases t.hasDate <;> simp [expand]

theorem expand_time : expand (t.conversion tm) "%T".toList =
    expand (t.conversion tm) "%H:%M:%S".toList := by
  show expand _ ['%', 'T'] = expand _ ['%', 'H', ':', '%', 'M', ':', '%', 'S']
  rw [@expand_field 'T' _ _ rfl, @expand_field 'H' _ _ rfl, expand_char _ (by decide),
    @expand_field 'M' _ _ rfl, expand_char _ (by decide), @expand_field 'S' _ _ rfl]
  cases t.hasTime <;> simp [expand]

theorem expand_shortDate_iff (htm : tm.Proper) :
    expand (t.conversion tm) "%D".toList = expand (t.conversion tm) "%m/%d/%y".toList ↔
      t.hasDate ∧ tm.year < 100 := by
  obtain ⟨hlow, hhigh⟩ := htm.year
  cases hdate : t.hasDate with
  | false => simp [expand, conversion, hdate]
  | true =>
    have hshort : printTwo (tm.year % 100).toNat = Lib.padded 2 (tm.year.toNat % 100) := by
      rw [show (tm.year % 100).toNat = tm.year.toNat % 100 by omega]
      exact printTwo_eq (Nat.mod_lt _ (by decide))
    have hsmall : tm.year.toNat < 100 ↔ tm.year < 100 := by omega
    have hiff := @printTwo_year_iff tm.year.toNat (by omega)
    simp [expand, conversion, hdate, hshort, hiff]

/-- The fraction of a precision is made of the first digits just if it is as it is to be shown. -/
theorem subsecondText_eq {digits : Nat} (hus : us < 1000000) (hdigits : digits ∈ [1, 2, 3, 6]) :
    subsecondText (subsecondDigits digits) us = (Lib.padded 6 us).take digits := by
  have hfirst : ∀ k rest, 0 < k → k + rest = 6 → subsecondText k us = (Lib.padded 6 us).take k := by
    intro k rest hk hsum
    have hlt : us < 10 ^ (k + rest) := by rwa [hsum]
    rw [← hsum, Lib.take_padded hk rest hlt]
    rw [subsecondText, if_neg (Nat.ne_of_gt hk), show 6 - k = rest by omega]
  have hcases : digits = 1 ∨ digits = 2 ∨ digits = 3 ∨ digits = 6 := by simpa using hdigits
  rcases hcases with rfl | rfl | rfl | rfl
  · exact hfirst 1 5 (by decide) rfl
  · exact hfirst 2 4 (by decide) rfl
  · exact hfirst 3 3 (by decide) rfl
  · exact hfirst 6 0 (by decide) rfl

theorem expand_fraction (htime : t.hasTime) : expand (t.conversion tm) "%.".toList =
    printSubseconds t.precision t.microSeconds := by
  show expand _ ['%', '.'] = _
  rw [@expand_field '.' _ _ rfl, if_pos htime]
  exact append_nil _

theorem expand_pointed (htime : t.hasTime) : expand (t.conversion tm) "%,".toList =
    if t.microSeconds = 0 then [] else '.' :: printSubseconds t.precision t.microSeconds := by
  by_cases hzero : t.microSeconds = 0
  · simp [expand, conversion, hzero]
  · simp [expand, conversion, htime, hzero]

end Letters

/-! ## What is printed -/

section Bytes

variable {fmt : List Char}

theorem plain_padded {width n : Nat} (h : c ∈ Lib.padded width n) : Plain fmt c :=
  .inl (Lib.isDigit_of_mem_padded h)

theorem plain_separator (h : c ∈ ['-', '/', ':', '.', ' ']) : Plain fmt c :=
  .inr (.inl h)

theorem plain_month {months : List String}
    (hmonths : months ⊆ gMonthsFull ++ gMonthsAbbrev ++ gMonthsAbbrevAllCap) {mon : Nat}
    (h : c ∈ (months.getD mon "").toList) : Plain fmt c := by
  rw [getD_eq_getElem?_getD] at h
  cases hmonth : months[mon]? with
  | none => rw [hmonth] at h; exact absurd h not_mem_nil
  | some month =>
    rw [hmonth] at h; exact .inr (.inr (.inl ⟨month, hmonths (mem_of_getElem? hmonth), h⟩))

theorem plain_subsecondText {digits : Nat} (h : c ∈ subsecondText digits us) : Plain fmt c := by
  unfold subsecondText at h
  split at h
  · exact absurd h not_mem_nil
  · exact plain_padded h

theorem plain_joined {sep : Char} (hsep : sep ∈ ['-', '/', ':', '.', ' '])
    (ha : ∀ c ∈ a, Plain fmt c) (hb : ∀ c ∈ b, Plain fmt c) : ∀ c ∈ a ++ sep :: b, Plain fmt c := by
  intro c hc
  rcases mem_append.mp hc with hc | hc
  · exact ha c hc
  · rcases mem_cons.mp hc with rfl | hc
    · exact plain_separator hsep
    · exact hb c hc

variable {letter : Char}

theorem plain_dateField {tm : Tm} {text : List Char} (h : dateField tm letter = some text) :
    ∀ c ∈ text, Plain fmt c := by
  have hpadded : ∀ {width n : Nat}, ∀ c ∈ Lib.padded width n, Plain fmt c :=
    fun _ hc => plain_padded hc
  unfold dateField at h
  split at h
  case h_5 =>
    rw [← some.inj h]
    exact plain_joined (by decide) hpadded (plain_joined (by decide) hpadded hpadded)
  case h_6 =>
    rw [← some.inj h]
    exact plain_joined (by decide) hpadded (plain_joined (by decide) hpadded hpadded)
  case h_7 => rw [← some.inj h]; exact fun c hc => plain_month (by simp) hc
  case h_8 => rw [← some.inj h]; exact fun c hc => plain_month (by simp) hc
  case h_9 => rw [← some.inj h]; exact fun c hc => plain_month (by simp) hc
  case h_10 => cases h
  all_goals
    rw [← some.inj h]
    exact hpadded

theorem plain_timeField {tm : Tm} {precision : Nat} {text : List Char}
    (h : timeField tm us precision letter = some text) : ∀ c ∈ text, Plain fmt c := by
  have hpadded : ∀ {width n : Nat}, ∀ c ∈ Lib.padded width n, Plain fmt c :=
    fun _ hc => plain_padded hc
  have hfraction : ∀ {digits : Nat}, ∀ c ∈ subsecondText digits us, Plain fmt c :=
    fun _ hc => plain_subsecondText hc
  have hpointed : ∀ {digits : Nat}, ∀ c ∈ if us > 0 then '.' :: subsecondText digits us else [],
      Plain fmt c := by
    intro digits c hc
    split at hc
    · rcases mem_cons.mp hc with rfl | hc
      · exact plain_separator (by decide)
      · exact hfraction c hc
    · exact absurd hc not_mem_nil
  unfold timeField at h
  split at h
  case h_1 =>
    rw [← some.inj h]
    exact plain_joined (by decide) hpadded (plain_joined (by decide) hpadded hpadded)
  case h_9 => cases h
  all_goals
    rw [← some.inj h]
    first | exact hpadded | exact hfraction | exact hpointed

theorem plain_noTime {t : DateTime} {tm tm' : Tm} (htime : t.hasTime = false) {precision : Nat}
    {text text' : List Char} (hfield : timeField tm' us precision letter = some text')
    (h : t.conversion tm letter = some text) : ∀ c ∈ text, Plain fmt c := by
  have hblank : text.all (['-', '/', ':', '.', ' '].elem ·) := by
    unfold timeField at hfield
    unfold conversion at h
    split at hfield
    case h_9 => cases hfield
    all_goals
      simp [htime] at h
      subst h
      rfl
  intro c hc
  exact plain_separator (elem_iff.mp (all_eq_true.mp hblank c hc))

theorem plain_conversion {t : DateTime} {tm : Tm} (htm : tm.Proper) (hus : t.microSeconds < 1000000)
    (h : t.ShowsRight tm) (hdate : t.hasDate) {text : List Char}
    (htext : t.conversion tm letter = some text) : ∀ c ∈ text, Plain fmt c := by
  have hshown := (conversion_eq_shown htm hus h letter).symm.trans htext
  unfold shown at hshown
  split at hshown
  · next field other hfield =>
    rw [if_pos hdate] at hshown; exact plain_dateField (hfield.trans hshown)
  · next field hnone hfield =>
    cases htime : t.hasTime with
    | true => rw [if_pos htime] at hshown; exact plain_timeField (hfield.trans hshown)
    | false => exact plain_noTime htime hfield htext
  · cases hshown

end Bytes

/-! ## Formats from their parts -/

/-- **When formats are put together from their parts**: there is a date before 2000, and of a time
in tenths or hundredths the digits that are printed are the right ones. -/
theorem composes_iff (t : DateTime) (tz : Option Int) :
    t.Composes tz ↔ t.hasDate ∧ (t.printedTm tz).year < 100 ∧
      (t.microSeconds < 1000000 → t.hasTime →
        (t.precision = 1 → t.microSeconds / 10 % 256 = t.microSeconds / 100000) ∧
        (t.precision = 2 → t.microSeconds / 1000 % 256 = t.microSeconds / 100000 ∧
          t.microSeconds / 100 % 10 = t.microSeconds / 10000 % 10)) := by
  have htm := proper_printedTm t tz
  constructor
  · intro h
    have hshort := h.shortDate
    simp only [formatted_eq, room_iff] at hshort
    obtain ⟨hdate, hyear⟩ := (expand_shortDate_iff htm).mp hshort
    refine ⟨hdate, hyear, fun hus htime => ?_⟩
    by_cases hprecision : t.precision ∈ [1, 2, 3, 6]
    · have hfraction := h.fraction hus htime hprecision
      simp only [formatted_eq, room_eq_iff] at hfraction
      rw [expand_fraction htime, ← subsecondText_eq hus hprecision] at hfraction
      exact (printSubseconds_eq_iff hus).mp hfraction
    · constructor
      · intro hone; exact absurd (by simp [hone]) hprecision
      · intro htwo; exact absurd (by simp [htwo]) hprecision
  rintro ⟨hdate, hyear, hdigits⟩
  have hright : t.microSeconds < 1000000 → t.ShowsRight (t.printedTm tz) := fun hus =>
    ⟨fun _ => hyear, fun htime => (hdigits hus htime).1, fun htime => (hdigits hus htime).2⟩
  have hsubseconds : t.microSeconds < 1000000 → t.hasTime → t.precision ∈ [1, 2, 3, 6] →
      printSubseconds t.precision t.microSeconds =
        (Lib.padded 6 t.microSeconds).take t.precision := by
    intro hus htime hprecision
    rw [← subsecondText_eq hus hprecision]
    exact (printSubseconds_eq_iff hus).mpr (hdigits hus htime)
  constructor
  case append =>
    intro f g hf _
    refine ⟨(expand (t.conversion (t.printedTm tz)) (f ++ g)).length + 1, fun maxLen hroom => ?_⟩
    simp only [formatted_eq]
    rw [expand_append hf, length_append] at hroom
    rw [expand_append hf, take_of_length_le, take_of_length_le, take_of_length_le]
    · omega
    · omega
    · rw [length_append]; omega
  case date => simp only [formatted_eq, room_iff]; exact expand_date
  case time => simp only [formatted_eq, room_iff]; exact expand_time
  case shortDate =>
    simp only [formatted_eq, room_iff]; exact (expand_shortDate_iff htm).mpr ⟨hdate, hyear⟩
  case fraction =>
    intro hus htime hprecision
    simp only [formatted_eq, room_eq_iff]
    rw [expand_fraction htime, hsubseconds hus htime hprecision]
  case pointed =>
    intro hus htime hprecision
    simp only [formatted_eq, room_eq_iff]
    rw [expand_pointed htime, hsubseconds hus htime hprecision]
  case plain =>
    intro hus maxLen fmt c hc
    rw [formatted_eq] at hc
    rcases mem_expand (mem_of_mem_take hc) with hc | ⟨letter, text, htext, hc⟩
    · exact .inr (.inr (.inr hc))
    · exact plain_conversion htm hus (hright hus) hdate htext c hc

/-- The ninth of September 2001: `%D` prints a colon for the tens of the year. -/
theorem not_composes : ¬ ∀ (t : DateTime) (tz : Option Int), t.Composes tz := by
  intro hall
  have h := (hall (setEpochTime 1000000000 0 0) none).shortDate
  simp only [formatted_eq, room_iff] at h
  exact absurd h (by decide +kernel)

end DateTime

end Mama
