import OpenMama.Common.IntegerPrinting
import OpenMama.Lib.Fraction

/-!
# What is printed of a floating-point number

The text of a number is its sign, its whole part and, if its decimal value is not zero, a point
and the digits of the decimal value without the zeros at their end (`printedText`).  The digits
are as many as the places, unless the decimal value was rounded up to a whole or has more than
eight digits: then they are more, and the number is another one.

`printsDecimal_iff` says when the text is that of the number.
-/

namespace Common

open Lib List

/-! ## What is promised -/

/-- The number is printed, with a terminator behind the text whose length is returned: the text is
close to the number, and its fraction has neither zeros at its end nor no digits at all. -/
def PrintsDecimal (mem : Memory) (result maxlen : Nat) (value : ℚ) (places : Nat) : Prop :=
  ∃ mem' text, wmFastPrintF64 mem result maxlen value places = some (mem', (text.length : Int)) ∧
    Reads mem' result (text ++ ['\x00']) ∧ '\x00' ∉ text ∧
    (∃ r, parseDecimal text = some r ∧ |r - value| < 1 / 10 ^ places) ∧
    ('.' ∈ text → ∀ c ∈ text.getLast?, c ≠ '0' ∧ c ≠ '.')

/-! ## The text -/

def digitsOf (decimal places : Nat) : List Char :=
  if Narrow decimal places then padded places decimal
  else List.replicate places '0' ++ Nat.toDigits 10 decimal

def printedText (value : ℚ) (places : Nat) : List Char :=
  (if value < 0 then ['-'] else []) ++ (Nat.toDigits 10 (integralOf value) ++
    if decimalAt value places = 0 then []
    else '.' :: stripped (digitsOf (decimalAt value places) places))

/-! ## What is stripped -/

section Stripped

variable {ds : List Char} {mem : Memory} {tmp : Nat}

theorem fraction_stripped (ds : List Char) : fraction (stripped ds) = fraction ds := by
  induction ds using List.reverseRecOn with
  | nil => rfl
  | append_singleton ds c ih =>
    rw [stripped_concat]
    by_cases hzero : c = '0'
    · rw [if_pos hzero, hzero, fraction_concat_zero, ih]
    · rw [if_neg hzero]

theorem stripped_getLast (ds : List Char) : ∀ c ∈ (stripped ds).getLast?, c ≠ '0' := by
  induction ds using List.reverseRecOn with
  | nil => simp [stripped]
  | append_singleton ds c ih =>
    rw [stripped_concat]
    by_cases hzero : c = '0'
    · rwa [if_pos hzero]
    · rw [if_neg hzero, getLast?_concat]
      rintro _ ⟨⟩
      exact hzero

theorem mem_of_mem_stripped {c : Char} (h : c ∈ stripped ds) : c ∈ ds :=
  rdropWhile_prefix _ ds |>.subset h

theorem stripped_ne_nil (h : Nat.ofDigitChars 10 ds 0 ≠ 0) : stripped ds ≠ [] := by
  intro hnil
  have hfraction := fraction_stripped ds
  rw [hnil] at hfraction
  have hzero : (Nat.ofDigitChars 10 ds 0 : ℚ) / 10 ^ ds.length = 0 := by
    rw [← fraction, ← hfraction]; simp [fraction]
  rcases div_eq_zero_iff.1 hzero with hnum | hden
  · exact h (by exact_mod_cast hnum)
  · exact absurd hden (by positivity)

theorem stripZeros_end (h : Reads mem tmp (ds ++ ['\x00'])) :
    (stripZeros mem tmp ds.length).1 (tmp + (stripped ds).length) = '\x00' := by
  induction ds using List.reverseRecOn generalizing mem with
  | nil => exact h 0 _ rfl
  | append_singleton ds c ih =>
    obtain ⟨hds, hend⟩ := reads_append.1 h
    obtain ⟨hfirst, hlast⟩ := reads_append.1 hds
    have hc : mem (tmp + ds.length) = c := hlast 0 c rfl
    rw [length_append, length_singleton, stripZeros, hc, stripped_concat]
    by_cases hzero : c = '0'
    · rw [if_pos hzero, if_pos hzero]
      refine ih (reads_append.2 ⟨?_, reads_put _ _ _⟩)
      exact hfirst.put_apart (.inl (Nat.le_refl _))
    · rw [if_neg hzero, if_neg hzero]; exact hend 0 _ rfl

theorem stripZeros_reads (h : Reads mem tmp (ds ++ ['\x00'])) :
    ∃ mem', stripZeros mem tmp ds.length = (mem', (stripped ds).length) ∧
      Reads mem' tmp (stripped ds ++ ['\x00']) ∧ ∀ i, i < tmp → mem' i = mem i := by
  have hend := stripZeros_end h
  obtain ⟨mem', hrun, hreads, hframe⟩ := stripZeros_eq (reads_append.1 h).1
  rw [hrun] at hend
  refine ⟨mem', hrun, reads_append.2 ⟨hreads, fun i c hi => ?_⟩, hframe⟩
  obtain ⟨hlt, hget⟩ := List.getElem?_eq_some_iff.1 hi
  rw [length_singleton] at hlt
  obtain rfl : i = 0 := by omega
  exact hend.trans hget

end Stripped

/-! ## The digits -/

section Digits

variable {decimal places maxLen : Nat} {value : ℚ}

theorem digitsOf_digits (decimal places : Nat) : Nat.ofDigitChars 10 (digitsOf decimal places) 0 =
    decimal := by
  unfold digitsOf
  split
  · exact ofDigitChars_padded places decimal
  · rw [Nat.ofDigitChars_append, Nat.ofDigitChars_replicate_zero, Nat.mul_zero,
      Nat.ofDigitChars_ten_toDigits]

theorem isDigit_of_mem_digitsOf {c : Char} (h : c ∈ digitsOf decimal places) : c.isDigit := by
  unfold digitsOf at h
  split at h
  · exact isDigit_of_mem_padded h
  · rcases List.mem_append.1 h with h | h
    · rw [(List.mem_replicate.1 h).2]; rfl
    · exact Nat.isDigit_of_mem_toDigits (by decide) (by decide) h

theorem length_digitsOf (decimal places : Nat) : (digitsOf decimal places).length =
    if Narrow decimal places then max places (width decimal) else places + width decimal := by
  unfold digitsOf
  split
  · exact length_padded_eq places decimal
  · rw [length_append, length_replicate]; rfl

theorem length_digitsOf_le (decimal places : Nat) :
    (digitsOf decimal places).length ≤ places + width decimal := by
  rw [length_digitsOf]
  split <;> omega

theorem blockU64_digits (h : places + width decimal < maxLen) : blockU64 maxLen decimal places =
    (digitsOf decimal places ++ ['\x00'], (digitsOf decimal places).length) := by
  have hpos := width_pos decimal
  rw [length_digitsOf]
  rw [blockU64, digitsOf, if_neg (by omega)]
  by_cases hnarrow : Narrow decimal places
  · rw [if_pos hnarrow, if_pos hnarrow, if_pos hnarrow, if_pos (by omega), length_padded_eq]
  · have htake : (Nat.toDigits 10 decimal).take (maxLen - 1) = Nat.toDigits 10 decimal :=
      take_of_length_le (by show width decimal ≤ _; omega)
    rw [if_neg hnarrow, if_neg hnarrow, if_neg hnarrow, htake, append_assoc]

theorem decimalAt_near (value : ℚ) (places : Nat) :
    scaled value places - 9 / 10 ≤ decimalAt value places ∧
      (decimalAt value places : ℚ) < scaled value places + 1 / 10 := by
  have hfloor : 0 ≤ ⌊scaled value places⌋ := Int.floor_nonneg.2 (scaled_nonneg value places)
  have hle := Int.floor_le (scaled value places)
  have hlt := Int.lt_floor_add_one (scaled value places)
  have hcast : ∀ k : Int, 0 ≤ k → ((k.toNat : Nat) : ℚ) = (k : ℚ) := by
    intro k hk
    exact_mod_cast congrArg (Int.cast (R := ℚ)) (Int.toNat_of_nonneg hk)
  unfold decimalAt decimalIn
  dsimp only [id]
  split
  · rename_i hup
    rw [hcast _ (by omega)]
    push_cast
    constructor <;> linarith
  · rename_i hdown
    rw [hcast _ hfloor]
    constructor <;> linarith

theorem decimalAt_lt_iff {bound : Nat} :
    decimalAt value places < bound ↔ scaled value places ≤ bound - 1 / 10 := by
  obtain ⟨hlow, hhigh⟩ := decimalAt_near value places
  constructor
  · intro hlt
    have hle : (decimalAt value places : ℚ) + 1 ≤ bound := by exact_mod_cast hlt
    linarith
  · intro hle
    have hlt : (decimalAt value places : ℚ) < bound := by linarith
    exact_mod_cast hlt

theorem decimalAt_le (value : ℚ) (places : Nat) : decimalAt value places ≤ 10 ^ places := by
  have hlt : decimalAt value places < 10 ^ places + 1 := by
    rw [decimalAt_lt_iff]
    have hscaled := scaled_lt value places
    push_cast
    linarith
  omega

end Digits

/-! ## The stages -/

section Stages

variable {mem : Memory} {tmp maxlen decimal places : Nat}

theorem printDecimals_text (hpos : 0 < decimal) (hroom : places + width decimal + 2 ≤ maxlen)
    (hmax : tmp + maxlen < 2 ^ 64) :
    ∃ mem', printDecimals ⟨mem, tmp, maxlen⟩ decimal places =
        .ok ⟨mem', tmp + ('.' :: stripped (digitsOf decimal places)).length,
          maxlen - ('.' :: stripped (digitsOf decimal places)).length⟩ ∧
      Reads mem' tmp ('.' :: stripped (digitsOf decimal places) ++ ['\x00']) ∧
      ∀ i, i < tmp → mem' i = mem i := by
  have hlength := length_digitsOf_le decimal places
  have hstripped := length_stripped_le (digitsOf decimal places)
  have hone : Printing.shift ⟨mem.put tmp ['.'], tmp, maxlen⟩ 1 =
      ⟨mem.put tmp ['.'], tmp + 1, maxlen - 1⟩ :=
    shift_nat (k := 1) (by dsimp only; omega) (by dsimp only; omega) (by dsimp only; omega)
  have hprint : wmFastPrintU64 (mem.put tmp ['.']) (tmp + 1) (maxlen - 1) decimal places =
      ((mem.put tmp ['.']).put (tmp + 1) (digitsOf decimal places ++ ['\x00']),
        ((digitsOf decimal places).length : Int)) := by
    rw [wmFastPrintU64_eq _ _ (by omega), blockU64_digits (by omega)]
  obtain ⟨mem', hstrip, hreads, hframe⟩ := stripZeros_reads
    (reads_put (mem.put tmp ['.']) (tmp + 1) (digitsOf decimal places ++ ['\x00']))
  refine ⟨mem', ?_, ?_, fun i hi => ?_⟩
  · rw [printDecimals, if_pos hpos]
    dsimp only
    rw [hone]
    rw [hprint, Int.toNat_natCast, hstrip]
    have hmoved : Printing.shift ⟨mem', tmp + 1, maxlen - 1⟩
        ((stripped (digitsOf decimal places)).length : Nat) =
          ⟨mem', tmp + ('.' :: stripped (digitsOf decimal places)).length,
            maxlen - ('.' :: stripped (digitsOf decimal places)).length⟩ := by
      rw [shift_nat (by dsimp only; omega) (by dsimp only; omega) (by dsimp only; omega),
        length_cons, Printing.mk.injEq]
      exact ⟨rfl, by dsimp only; omega, by dsimp only; omega⟩
    exact congrArg Except.ok hmoved
  · have hpoint : Reads mem' tmp ['.'] := by
      intro i c hi
      obtain ⟨hlt, hget⟩ := List.getElem?_eq_some_iff.1 hi
      rw [length_singleton] at hlt
      obtain rfl : i = 0 := by omega
      rw [hframe _ (by omega), put_of_lt (by omega)]
      exact reads_put mem tmp ['.'] 0 c hi
    show Reads mem' tmp (['.'] ++ (stripped (digitsOf decimal places) ++ ['\x00']))
    exact reads_append.2 ⟨hpoint, hreads⟩
  · rw [hframe i (by omega), put_of_lt (by omega), put_of_lt hi]

theorem finishPrint_reads {start : Nat} {text : List Char}
    (h : Reads mem start (text ++ ['\x00'])) (hmax : start + maxlen < 2 ^ 64)
    (hroom : text.length < maxlen) :
    ∃ mem', finishPrint ⟨mem, start + text.length, maxlen - text.length⟩ maxlen =
        (mem', (text.length : Int)) ∧ Reads mem' start (text ++ ['\x00']) := by
  have hlast : sizeAdd (start + text.length + (maxlen - text.length)) (-1) =
      start + maxlen - 1 := by
    have hadd :=
      sizeAdd_nat (p := start + text.length + (maxlen - text.length)) (b := -1) (by omega)
    omega
  have hcount : sizeAdd maxlen (-((maxlen - text.length : Nat) : Int)) = text.length := by
    have hadd := sizeAdd_nat (p := maxlen) (b := -((maxlen - text.length : Nat) : Int)) (by omega)
    omega
  refine ⟨mem.put (start + maxlen - 1) ['\x00'], ?_, ?_⟩
  · rw [finishPrint, hlast, hcount]
  obtain ⟨htext, hend⟩ := reads_append.1 h
  refine reads_append.2 ⟨htext.put_apart (.inl (by omega)), fun i c hi => ?_⟩
  obtain ⟨hlt, hget⟩ := List.getElem?_eq_some_iff.1 hi
  rw [length_singleton] at hlt
  obtain rfl : i = 0 := by omega
  by_cases hsame : start + text.length = start + maxlen - 1
  · rw [hsame]; exact (reads_put mem (start + maxlen - 1) ['\x00'] 0 _ rfl).trans hget
  · rw [put_of_lt (by omega)]; exact hend 0 c hi

theorem Reads.frame {mem' : Memory} {p : Nat} {cs : List Char} (h : Reads mem p cs)
    (hframe : ∀ i, i < p + cs.length → mem' i = mem i) : Reads mem' p cs := by
  intro i c hi
  have hlt := (List.getElem?_eq_some_iff.1 hi).1
  rw [hframe _ (by omega)]
  exact h i c hi

theorem wmFastPrintF64_text (mem : Memory) {result maxlen : Nat} {value : ℚ}
    (hvalue : |value| < 2 ^ 53) (hpos : 0 < places) (hplaces : places ≤ 15) (hroom : 64 ≤ maxlen)
    (hmax : result + maxlen < 2 ^ 64) :
    ∃ mem', wmFastPrintF64 mem result maxlen value places =
        some (mem', ((printedText value places).length : Int)) ∧
      Reads mem' result (printedText value places ++ ['\x00']) := by
  have hn : integralOf value < 10 ^ 16 := by
    have hfloor : ⌊|value|⌋ < 2 ^ 53 := Int.floor_lt.2 (by exact_mod_cast hvalue)
    unfold integralOf
    omega
  have hwidth : (Nat.toDigits 10 (integralOf value)).length ≤ 16 :=
    (Nat.length_toDigits_le_iff (by decide) (by decide)).2 hn
  have hdecimal : width (decimalAt value places) ≤ 16 := by
    have hle := decimalAt_le value places
    have hpow : 10 ^ places ≤ 10 ^ 15 := Nat.pow_le_pow_right (by decide) hplaces
    exact (width_le_iff (by decide)).2 (by omega)
  rw [wmFastPrintF64_at mem result maxlen (lt_trans hvalue (by norm_num)) hpos (by omega)]
  obtain ⟨mem₁, hstart, hsign, -⟩ :=
    @startPrint_spec mem result maxlen value (by omega) (by omega) (by omega)
  have hlength : (if value < 0 then ['-'] else []).length ≤ 1 := by
    split <;> simp
  rw [printedText, hstart]
  generalize (if value < 0 then ['-'] else []) = sign at hsign hlength ⊢
  generalize hwhole : Nat.toDigits 10 (integralOf value) = whole at hwidth ⊢
  generalize decimalAt value places = decimal at hdecimal ⊢
  -- the integral value behind the sign
  have hintegral := @printIntegral_fits mem₁ (result + sign.length) (maxlen - sign.length)
    (integralOf value) (by omega) (by rw [hwhole]; omega) (by omega) (by rw [hwhole]; omega)
  rw [hwhole] at hintegral
  have hreads : Reads (mem₁.put (result + sign.length) (whole ++ ['\x00'])) result
      (sign ++ whole ++ ['\x00']) := by
    rw [append_assoc]
    exact reads_append.2 ⟨hsign.put_apart (.inl (Nat.le_refl _)), reads_put _ _ _⟩
  have hmoved : maxlen - sign.length - whole.length = maxlen - (sign ++ whole).length := by
    rw [length_append]; omega
  rw [printNumberAt, hintegral]
  dsimp only
  rw [if_pos (by omega), hmoved, Nat.add_assoc, ← length_append]
  by_cases hzero : decimal = 0
  · have hnone : printDecimals ⟨mem₁.put (result + sign.length) (whole ++ ['\x00']),
        result + (sign ++ whole).length, maxlen - (sign ++ whole).length⟩ decimal places = .ok _ :=
      if_neg (by omega)
    obtain ⟨mem', hfinish, hreads'⟩ := finishPrint_reads hreads hmax
      (by rw [length_append]; omega)
    rw [hnone, if_pos hzero, append_nil]
    exact ⟨mem', congrArg some hfinish, hreads'⟩
  obtain ⟨mem₂, hdecimals, hreads₂, hframe⟩ := @printDecimals_text
    (mem₁.put (result + sign.length) (whole ++ ['\x00'])) (result + (sign ++ whole).length)
    (maxlen - (sign ++ whole).length) decimal places (Nat.pos_of_ne_zero hzero)
    (by rw [length_append]; omega) (by rw [length_append]; omega)
  have hall : Reads mem₂ result
      (sign ++ (whole ++ '.' :: stripped (digitsOf decimal places)) ++ ['\x00']) := by
    rw [← append_assoc, append_assoc]
    exact reads_append.2 ⟨(reads_append.1 hreads).1.frame hframe, hreads₂⟩
  have hbound := length_digitsOf_le decimal places
  have hstripped := length_stripped_le (digitsOf decimal places)
  obtain ⟨mem', hfinish, hreads'⟩ := finishPrint_reads hall hmax
    (by simp only [length_append, length_cons]; omega)
  rw [hdecimals, if_neg hzero]
  refine ⟨mem', congrArg some ?_, hreads'⟩
  rw [← hfinish, Nat.add_assoc, Nat.sub_sub, ← length_append, append_assoc]

end Stages

/-! ## The number that is printed -/

section Number

variable {value : ℚ} {places : Nat}

def printedNumber (value : ℚ) (places : Nat) : ℚ :=
  integralOf value + fraction (digitsOf (decimalAt value places) places)

theorem parse_printedText (value : ℚ) (places : Nat) : parseDecimal (printedText value places) =
    some (if value < 0 then -printedNumber value places else printedNumber value places) := by
  have hwhole : Nat.toDigits 10 (integralOf value) ≠ [] := by
    intro hnil
    have hlength : 0 < (Nat.toDigits 10 (integralOf value)).length := Nat.length_toDigits_pos
    rw [hnil] at hlength
    cases hlength
  have hdigits : ∀ c ∈ Nat.toDigits 10 (integralOf value), c.isDigit := fun c hc =>
    Nat.isDigit_of_mem_toDigits (by decide) (by decide) hc
  refine parseDecimal_sign (value < 0) ?_
  unfold printedNumber
  by_cases hzero : decimalAt value places = 0
  · have hnone : fraction (digitsOf 0 places) = 0 := by
      rw [fraction, digitsOf_digits, Nat.cast_zero, zero_div]
    rw [if_pos hzero, append_nil, parseUnsigned_digits hwhole hdigits, hzero, hnone, add_zero,
      Nat.ofDigitChars_ten_toDigits]
  · have hne : stripped (digitsOf (decimalAt value places) places) ≠ [] :=
      stripped_ne_nil (by rwa [digitsOf_digits])
    rw [if_neg hzero, parseUnsigned_point hwhole hdigits hne
      fun c hc => isDigit_of_mem_digitsOf (mem_of_mem_stripped hc), fraction_stripped,
      Nat.ofDigitChars_ten_toDigits]

theorem length_digitsOf_eq_iff (hpos : 0 < places) {decimal : Nat} :
    (digitsOf decimal places).length = places ↔ decimal < min (10 ^ places) 100000000 := by
  have hwidth : width decimal ≤ places ↔ decimal < 10 ^ places := width_le_iff hpos
  have hfirst := width_pos decimal
  rw [length_digitsOf]
  by_cases hnarrow : Narrow decimal places
  · rw [if_pos hnarrow]
    unfold Narrow at hnarrow
    omega
  · rw [if_neg hnarrow]
    unfold Narrow at hnarrow
    omega

theorem printedNumber_sub (value : ℚ) (places : Nat) :
    (printedNumber value places - |value|) * 10 ^ places =
      (decimalAt value places : ℚ) * 10 ^ places /
        10 ^ (digitsOf (decimalAt value places) places).length - scaled value places := by
  have hfloor : (integralOf value : ℚ) = ⌊|value|⌋ := by
    have hnonneg : 0 ≤ ⌊|value|⌋ := Int.floor_nonneg.2 (abs_nonneg value)
    exact_mod_cast congrArg (Int.cast (R := ℚ)) (Int.toNat_of_nonneg hnonneg)
  rw [printedNumber, fraction, scaled, digitsOf_digits, hfloor]
  ring

/-- What is printed is close to the number just if the digits are as many as the places. -/
theorem printedNumber_near_iff (hpos : 0 < places) :
    |printedNumber value places - abs value| < 1 / 10 ^ places ↔
      decimalAt value places < min (10 ^ places) 100000000 := by
  have hunit : (0 : ℚ) < 10 ^ places := by positivity
  have hsub := printedNumber_sub value places
  obtain ⟨hlow, hhigh⟩ := decimalAt_near value places
  have hdistance : |printedNumber value places - abs value| < 1 / 10 ^ places ↔
      |(printedNumber value places - |value|) * 10 ^ places| < 1 := by
    rw [abs_mul, abs_of_pos hunit, lt_div_iff₀ hunit]
  rw [hdistance, hsub, ← length_digitsOf_eq_iff hpos]
  generalize hlength : (digitsOf (decimalAt value places) places).length = length
  constructor
  · intro hnear
    by_contra hne
    have hlonger : places + 1 ≤ length := by
      have hfits := length_digitsOf (decimalAt value places) places
      split at hfits <;> omega
    have hten : 10 ≤ decimalAt value places := by
      have hlarge : ¬ decimalAt value places < min (10 ^ places) 100000000 := by
        rwa [← length_digitsOf_eq_iff hpos, hlength]
      have hpow : 10 ^ 1 ≤ 10 ^ places := Nat.pow_le_pow_right (by decide) hpos
      omega
    have htenth : (decimalAt value places : ℚ) * 10 ^ places / 10 ^ length ≤
        decimalAt value places / 10 := by
      rw [div_le_div_iff₀ (by positivity) (by norm_num), mul_assoc, ← pow_succ]
      have hpow : (10 : ℚ) ^ (places + 1) ≤ 10 ^ length := pow_le_pow_right₀ (by norm_num) hlonger
      gcongr
    have hten' : (10 : ℚ) ≤ decimalAt value places := by exact_mod_cast hten
    rw [abs_lt] at hnear
    linarith [hnear.1]
  · rintro rfl
    rw [mul_div_assoc, div_self (ne_of_gt hunit), abs_lt]
    constructor <;> linarith

theorem abs_signed_sub (value m : ℚ) :
    |(if value < 0 then -m else m) - value| = |m - abs value| := by
  by_cases hneg : value < 0
  · rw [if_pos hneg, abs_of_neg hneg, ← abs_neg]; ring_nf
  · rw [if_neg hneg, abs_of_nonneg (not_lt.1 hneg)]

theorem null_notMem_printedText (value : ℚ) (places : Nat) : '\x00' ∉ printedText value places := by
  have hdigit : ∀ c : Char, c.isDigit → c ≠ '\x00' := by
    rintro c hc rfl; cases hc
  rw [printedText, mem_append, mem_append, not_or, not_or]
  refine ⟨?_, fun hwhole => ?_, ?_⟩
  · split <;> simp
  · exact hdigit _ (Nat.isDigit_of_mem_toDigits (by decide) (by decide) hwhole) rfl
  · split
    · exact not_mem_nil
    · rw [mem_cons, not_or]
      exact ⟨by decide, fun hds => hdigit _ (isDigit_of_mem_digitsOf (mem_of_mem_stripped hds)) rfl⟩

theorem printedText_last (value : ℚ) (places : Nat) (hpoint : '.' ∈ printedText value places) :
    ∀ c ∈ (printedText value places).getLast?, c ≠ '0' ∧ c ≠ '.' := by
  have hdigit : ∀ c : Char, c.isDigit → c ≠ '.' := by
    rintro c hc rfl; cases hc
  unfold printedText at hpoint ⊢
  by_cases hzero : decimalAt value places = 0
  · rw [if_pos hzero, append_nil] at hpoint
    rcases List.mem_append.1 hpoint with hsign | hwhole
    · split at hsign <;> simp at hsign
    · exact absurd rfl (hdigit _ (Nat.isDigit_of_mem_toDigits (by decide) (by decide) hwhole))
  have hne : stripped (digitsOf (decimalAt value places) places) ≠ [] :=
    stripped_ne_nil (by rwa [digitsOf_digits])
  intro c hc
  rw [if_neg hzero, getLast?_append_of_ne_nil _ (by simp),
    getLast?_append_of_ne_nil _ (by simp), getLast?_cons_of_ne_nil hne] at hc
  have hmem := mem_of_getLast? hc
  exact ⟨stripped_getLast _ c hc, hdigit c (isDigit_of_mem_digitsOf (mem_of_mem_stripped hmem))⟩

end Number

/-! ## When it is printed right -/

/-- What is left behind the point is not rounded up to a whole, and is less than nine digits. -/
def KeepsPlaces (value : ℚ) (places : Nat) : Prop :=
  scaled value places ≤ ((min (10 ^ places) 100000000 : Nat) : ℚ) - 1 / 10

theorem Reads.unique {mem : Memory} {p : Nat} {cs ds : List Char} (hcs : Reads mem p cs)
    (hds : Reads mem p ds) (hlength : cs.length = ds.length) : cs = ds := by
  refine ext_getElem hlength fun i hi hi' => ?_
  rw [← hcs i _ (getElem?_eq_getElem hi), ← hds i _ (getElem?_eq_getElem hi')]

section Printed

variable {result maxlen places : Nat} {value : ℚ} (hvalue : |value| < 2 ^ 53) (hpos : 0 < places)
  (hplaces : places ≤ 15) (hroom : 64 ≤ maxlen) (hmax : result + maxlen < 2 ^ 64)

include hvalue hpos hplaces hroom hmax

theorem keepsPlaces_of_prints {mem : Memory}
    (h : PrintsDecimal mem result maxlen value places) : KeepsPlaces value places := by
  obtain ⟨mem₁, text, hrun, hreads, -, ⟨r, hparse, hnear⟩, -⟩ := h
  obtain ⟨mem₂, hrun', hreads'⟩ := wmFastPrintF64_text mem hvalue hpos hplaces hroom hmax
  obtain ⟨rfl, hlength⟩ := Prod.mk.inj (Option.some.inj (hrun.symm.trans hrun'))
  obtain rfl := (reads_append.1 hreads).1.unique (reads_append.1 hreads').1 (by omega)
  cases hparse.symm.trans (parse_printedText value places)
  rwa [abs_signed_sub, printedNumber_near_iff hpos, decimalAt_lt_iff] at hnear

theorem prints_of_keepsPlaces (h : KeepsPlaces value places) (mem : Memory) :
    PrintsDecimal mem result maxlen value places := by
  obtain ⟨mem', hrun, hreads⟩ := wmFastPrintF64_text mem hvalue hpos hplaces hroom hmax
  refine ⟨mem', printedText value places, hrun, hreads, null_notMem_printedText value places,
    ⟨_, parse_printedText value places, ?_⟩, printedText_last value places⟩
  rwa [abs_signed_sub, printedNumber_near_iff hpos, decimalAt_lt_iff]

/-- **When a number is printed as it should be**: with room enough, just if the digits behind the
point are as many as the places. -/
theorem printsDecimal_iff (mem : Memory) :
    PrintsDecimal mem result maxlen value places ↔ KeepsPlaces value places :=
  ⟨fun h => keepsPlaces_of_prints hvalue hpos hplaces hroom hmax h, fun h =>
    prints_of_keepsPlaces hvalue hpos hplaces hroom hmax h mem⟩

end Printed

/-- Minus a half with two places. -/
theorem printsDecimal_half : PrintsDecimal (fun _ => '0') 0 64 (-1 / 2) 2 :=
  (printsDecimal_iff (by norm_num [abs_of_neg]) (by decide) (by decide) (by decide) (by decide) _).2
    (by norm_num [KeepsPlaces, scaled, abs_of_neg])

/-- 0.999 with one place is printed as one tenth, and nine digits come behind nine zeros. -/
theorem not_printsDecimal : ¬ PrintsDecimal (fun _ => '0') 0 64 (999 / 1000) 1 ∧
    ¬ PrintsDecimal (fun _ => '0') 0 64 (123456789 / 1000000000) 9 := by
  constructor
  · intro h
    have hkeeps :=
      keepsPlaces_of_prints (by norm_num [abs_of_pos]) (by decide) (by decide) (by decide)
      (by decide) h
    norm_num [KeepsPlaces, scaled, abs_of_pos] at hkeeps
  · intro h
    have hkeeps :=
      keepsPlaces_of_prints (by norm_num [abs_of_pos]) (by decide) (by decide) (by decide)
      (by decide) h
    norm_num [KeepsPlaces, scaled, abs_of_pos] at hkeeps

end Common
