import OpenMama.Common.StrUtils
import OpenMama.Mama.DateTimeComposition

/-!
# The buffer of a formatted date-time

`mamaDateTime_getAsFormattedStringWithTz` byte by byte: it reads the format through a
pointer and writes into a buffer.  `formatBytes_eq` connects it with `formatLoop`.

The room is looked at once for each byte of the format and by each printing function,
but not where the format ends in a lone `%`: the case for the end falls through into
that for an unknown letter, so the `%` is written twice, and the second one whether
there is room or not (`bounded_iff`).
-/

namespace Mama

namespace DateTime

open Common List

/-! ## The code -/

structure Format where
  chars : List Char
  plain : '\x00' ∉ chars

/-- `fmtChar[i]`, none past the terminator. -/
def Format.byte (fmt : Format) (i : Nat) : Option Char := (fmt.chars ++ ['\x00'])[i]?

/-- `result` and `resLen`: the bytes of the memory and how many of the result are written. -/
structure Output where
  mem : Memory
  resLen : Nat

section Code

variable (result maxLen : Nat)

/-- `result[resLen++] = c;`. -/
def Output.push (out : Output) (c : Char) : Output :=
  ⟨out.mem.put (result + out.resLen) [c], out.resLen + 1⟩

/-- `printChar`, and `printDigit` of the digit's character. -/
def Output.printChar (out : Output) (c : Char) : Output :=
  if out.resLen < maxLen then out.push result c else out

/-- The characters that a letter prints, each with `printChar`, `printDigit` or `printString`. -/
def Output.print (out : Output) (text : List Char) : Output :=
  text.foldl (Output.printChar result maxLen) out

def formatBytes (letters : Char → Option (List Char)) (fmt : Format) :
    Nat → Nat → Output → Option Output
  | 0, _, _ => none
  | fuel + 1, i, out => do
    let c ← fmt.byte i
    if c ≠ '\x00' ∧ out.resLen < maxLen then
      if c ≠ '%' then formatBytes letters fmt fuel (i + 1) (out.push result c)
      else
        let letter ← fmt.byte (i + 1)
        match letters letter with
        | some text => formatBytes letters fmt fuel (i + 2) (out.print result maxLen text)
        | none =>
          -- the case of the terminator falls through into the default case
          let out := if letter = '\x00' then out.push result '%' else out
          formatBytes letters fmt fuel (i + 1) (out.push result '%')
    else some out

/-- `mamaDateTime_getAsFormattedStringWithTz`. -/
def writeFormatted (mem : Memory) (t : DateTime) (fmt : Format) (tz : Option Int) : Option Memory :=
    do
  let out ← formatBytes result maxLen (t.conversion (t.printedTm tz)) fmt (fmt.chars.length + 1) 0
    ⟨mem, 0⟩
  pure (if out.resLen < maxLen then out.mem.put (result + out.resLen) ['\x00']
    else out.mem.put (result + (maxLen - 1)) ['\x00'])

end Code

/-! ## What is wanted -/

/-- A format with its letters replaced, where a `%` at its end stands for itself. -/
def expandOnce (letters : Char → Option (List Char)) : List Char → List Char
  | [] => []
  | c :: fmt =>
    if c ≠ '%' then c :: expandOnce letters fmt
    else
      match fmt with
      | [] => ['%']
      | letter :: rest =>
        match letters letter with
        | some text => text ++ expandOnce letters rest
        | none => '%' :: expandOnce letters (letter :: rest)

def untruncated (t : DateTime) (fmt : Format) (tz : Option Int) : List Char :=
  expandOnce (t.conversion (t.printedTm tz)) fmt.chars

/-- **The formatter stays in bounds**: it reads the format up to its terminator, writes in the room
only, and leaves what fits of the output and a terminator. -/
structure Bounded (t : DateTime) (fmt : Format) (tz : Option Int) (result maxLen : Nat)
    (mem mem' : Memory) : Prop where
  reads : writeFormatted result maxLen mem t fmt tz = some mem'
  writes : ∀ i, i < result ∨ result + maxLen ≤ i → mem' i = mem i
  text : Reads mem' result ((t.untruncated fmt tz).take (maxLen - 1) ++ ['\x00'])

/-- The format ends in a `%`. -/
def Format.Lone (fmt : List Char) : Prop := fmt.getLast? = some '%'

instance (fmt : List Char) : Decidable (Format.Lone fmt) := inferInstanceAs (Decidable (_ = _))

/-! ## Bytes and lists -/

variable {c : Char}

section Bytes

variable {letters : Char → Option (List Char)} {result maxLen : Nat}

def Output.of (result : Nat) (mem : Memory) (text : List Char) : Output :=
  ⟨mem.put result text, text.length⟩

theorem push_of (mem : Memory) (text : List Char) (c : Char) :
    (Output.of result mem text).push result c = Output.of result mem (text ++ [c]) := by
  unfold Output.push Output.of
  rw [put_put, length_append]
  rfl

theorem printChar_of (mem : Memory) (text : List Char) (c : Char) :
    (Output.of result mem text).printChar result maxLen c =
      if text.length < maxLen then Output.of result mem (text ++ [c])
      else Output.of result mem text := by
  rw [← push_of]
  rfl

theorem print_of (mem : Memory) (text : List Char) :
    ∀ written : List Char, written.length ≤ maxLen →
      (Output.of result mem written).print result maxLen text =
        Output.of result mem ((written ++ text).take maxLen) := by
  induction text with
  | nil =>
    intro written hlength
    rw [append_nil, take_of_length_le hlength]
    rfl
  | cons c text ih =>
    intro written hlength
    show ((Output.of result mem written).printChar result maxLen c).print result maxLen text = _
    rw [printChar_of]
    by_cases hroom : written.length < maxLen
    · rw [if_pos hroom, ih _ (by rw [length_append]; exact hroom), append_assoc]
      rfl
    · have hfull : written.length = maxLen := by omega
      rw [if_neg hroom, ih written hlength, take_append, take_append, hfull, Nat.sub_self,
        take_zero, take_zero]

variable {pre : List Char}

theorem byte_append {fmt : Format} {suffix : List Char} (h : fmt.chars = pre ++ suffix) (j : Nat) :
    fmt.byte (pre.length + j) = (suffix ++ ['\x00'])[j]? := by
  rw [Format.byte, h, append_assoc, getElem?_append_right (by omega), Nat.add_sub_cancel_left]

theorem ne_null {fmt : Format} {rest : List Char} (h : fmt.chars = pre ++ c :: rest) :
    c ≠ '\x00' := by
  rintro rfl
  exact fmt.plain (by rw [h]; simp)

theorem resLen_of (mem : Memory) (text : List Char) :
    (Output.of result mem text).resLen = text.length := rfl

/-- **The bytes written are those of the list**, and the format is read to its terminator at
most. -/
theorem formatBytes_eq (hnull : letters '\x00' = none) (fmt : Format) (mem : Memory)
    (suffix text : List Char) :
    ∀ pre fuel, fmt.chars = pre ++ suffix → suffix.length < fuel → text.length ≤ maxLen →
      formatBytes result maxLen letters fmt fuel pre.length (Output.of result mem text) =
        some (Output.of result mem (formatLoop letters maxLen suffix text)) := by
  fun_induction formatLoop letters maxLen suffix text with
  | case1 text =>
    intro pre fuel hchars hfuel hlength
    obtain ⟨fuel, rfl⟩ : ∃ k, fuel = k + 1 := ⟨fuel - 1, by omega⟩
    have hbyte : fmt.byte pre.length = some '\x00' := byte_append hchars 0
    simp [formatBytes, hbyte]
  | case2 c suffix text hroom hc ih =>
    intro pre fuel hchars hfuel hlength
    obtain ⟨fuel, rfl⟩ : ∃ k, fuel = k + 1 := ⟨fuel - 1, by omega⟩
    have hbyte : fmt.byte pre.length = some c := byte_append hchars 0
    have hnext := ih (pre ++ [c]) fuel (by rw [hchars, append_assoc]; rfl)
      (Nat.lt_of_succ_lt_succ hfuel) (by rw [length_append]; exact hroom)
    simpa [formatBytes, hbyte, ne_null hchars, hroom, hc, push_of, resLen_of] using hnext
  | case3 c text hroom hc =>
    intro pre fuel hchars hfuel hlength
    obtain ⟨fuel, rfl⟩ : ∃ k, fuel = k + 1 + 1 := ⟨fuel - 2, by simp at hfuel; omega⟩
    have hbyte : fmt.byte pre.length = some c := byte_append hchars 0
    have hend : fmt.byte (pre.length + 1) = some '\x00' := byte_append hchars 1
    simp [formatBytes, hbyte, hend, hroom, not_not.mp hc, hnull, push_of, resLen_of]
  | case4 c text hroom hc letter rest printed hprinted ih =>
    intro pre fuel hchars hfuel hlength
    obtain ⟨fuel, rfl⟩ : ∃ k, fuel = k + 1 := ⟨fuel - 1, by omega⟩
    have hbyte : fmt.byte pre.length = some c := byte_append hchars 0
    have hletter : fmt.byte (pre.length + 1) = some letter := byte_append hchars 1
    have hnext := ih (pre ++ [c, letter]) fuel (by rw [hchars, append_assoc]; rfl)
      (by simp at hfuel; omega) (length_take_le _ _)
    simpa [formatBytes, hbyte, hletter, hroom, not_not.mp hc, hprinted, resLen_of,
      print_of mem printed text hlength] using hnext
  | case5 c text hroom hc letter rest hnone ih =>
    intro pre fuel hchars hfuel hlength
    obtain ⟨fuel, rfl⟩ : ∃ k, fuel = k + 1 := ⟨fuel - 1, by omega⟩
    have hbyte : fmt.byte pre.length = some c := byte_append hchars 0
    have hletter : fmt.byte (pre.length + 1) = some letter := byte_append hchars 1
    have hnext' : fmt.chars = (pre ++ [c]) ++ letter :: rest := by rw [hchars, append_assoc]; rfl
    have hnext := ih (pre ++ [c]) fuel hnext' (Nat.lt_of_succ_lt_succ hfuel)
      (by rw [length_append]; exact hroom)
    simpa [formatBytes, hbyte, hletter, ne_null hnext', hroom, not_not.mp hc, hnone,
      push_of, resLen_of] using hnext
  | case6 c suffix text hfull =>
    intro pre fuel hchars hfuel hlength
    obtain ⟨fuel, rfl⟩ : ∃ k, fuel = k + 1 := ⟨fuel - 1, by omega⟩
    have hbyte : fmt.byte pre.length = some c := byte_append hchars 0
    simp [formatBytes, hbyte, hfull, resLen_of]

end Bytes

/-! ## The loop and the output -/

section Loop

variable {letters : Char → Option (List Char)} {maxLen : Nat}

theorem Format.lone_cons (hc : c ≠ '%') (fmt : List Char) :
    Format.Lone (c :: fmt) ↔ Format.Lone fmt := by
  unfold Format.Lone
  cases fmt with
  | nil => simp [hc]
  | cons d fmt => rw [getLast?_cons_cons]

variable {letter : Char} {printed : List Char}

theorem Format.lone_field (hpercent : letters '%' = none) (h : letters letter = some printed)
    (rest : List Char) : Format.Lone ('%' :: letter :: rest) ↔ Format.Lone rest := by
  have hletter : letter ≠ '%' := by
    rintro rfl
    rw [hpercent] at h
    cases h
  have hcons : Format.Lone ('%' :: letter :: rest) ↔ Format.Lone (letter :: rest) := by
    unfold Format.Lone
    rw [getLast?_cons_cons]
  rw [hcons, Format.lone_cons hletter]

theorem expandOnce_char (hc : c ≠ '%') (fmt : List Char) :
    expandOnce letters (c :: fmt) = c :: expandOnce letters fmt := by
  rw [expandOnce.eq_def]
  simp [hc]

theorem expandOnce_field (h : letters letter = some printed) (rest : List Char) :
    expandOnce letters ('%' :: letter :: rest) = printed ++ expandOnce letters rest := by
  rw [expandOnce.eq_def]
  simp [h]

theorem expandOnce_percent (h : letters letter = none) (rest : List Char) :
    expandOnce letters ('%' :: letter :: rest) = '%' :: expandOnce letters (letter :: rest) := by
  rw [expandOnce.eq_def]
  simp [h]

theorem expandOnce_pos {fmt : List Char} (hpercent : letters '%' = none) (h : Format.Lone fmt) :
    0 < (expandOnce letters fmt).length := by
  fun_induction expandOnce letters fmt with
  | case1 => cases h
  | case2 c fmt hc ih => simp
  | case3 c hc => simp
  | case4 c hc letter rest text htext ih =>
    have hrest := ih ((Format.lone_field hpercent htext rest).mp (by rwa [not_not.mp hc] at h))
    rw [length_append]
    omega
  | case5 c hc letter rest hnone ih => simp

/-- **What the loop leaves**: the output, cut to the room, or with a second `%` after a lone one
that just fits. -/
theorem formatLoop_eq (hpercent : letters '%' = none) (fmt text : List Char)
    (hlength : text.length ≤ maxLen) :
    formatLoop letters maxLen fmt text =
      if Format.Lone fmt ∧ (text ++ expandOnce letters fmt).length ≤ maxLen then
        text ++ expandOnce letters fmt ++ ['%']
      else (text ++ expandOnce letters fmt).take maxLen := by
  fun_induction formatLoop letters maxLen fmt text with
  | case1 text =>
    rw [if_neg (fun h => Option.some_ne_none _ h.1.symm), expandOnce, append_nil,
      take_of_length_le hlength]
  | case2 c fmt text hroom hc ih =>
    rw [ih (by rw [length_append]; exact hroom), expandOnce_char hc]
    simp [Format.lone_cons hc]
  | case3 c text hroom hc =>
    have hlone : Format.Lone [c] := congrArg some (not_not.mp hc)
    have hfits : (text ++ expandOnce letters [c]).length ≤ maxLen := by
      rwa [not_not.mp hc, length_append]
    rw [if_pos ⟨hlone, hfits⟩, not_not.mp hc, append_assoc]
    rfl
  | case4 c text hroom hc letter rest printed hprinted ih =>
    rw [ih (length_take_le _ _), not_not.mp hc, expandOnce_field hprinted]
    simp only [Format.lone_field hpercent hprinted, take_take_append, ← append_assoc]
    by_cases hfits : (text ++ printed).length ≤ maxLen
    · rw [take_of_length_le hfits]
    -- the letter's text fills the room, so nothing behind it is written
    have hfull : ¬(Format.Lone rest ∧
        ((text ++ printed).take maxLen ++ expandOnce letters rest).length ≤ maxLen) := by
      rintro ⟨hlone, hle⟩
      have hpos := expandOnce_pos hpercent hlone
      rw [length_append, length_take] at hle
      omega
    have hover : ¬(Format.Lone rest ∧
        (text ++ printed ++ expandOnce letters rest).length ≤ maxLen) := by
      rintro ⟨-, hle⟩
      rw [length_append] at hle
      omega
    rw [if_neg hfull, if_neg hover]
  | case5 c text hroom hc letter rest hnone ih =>
    have hlone : Format.Lone ('%' :: letter :: rest) ↔ Format.Lone (letter :: rest) := by
      unfold Format.Lone
      rw [getLast?_cons_cons]
    rw [ih (by rw [length_append]; exact hroom), not_not.mp hc, expandOnce_percent hnone]
    simp [hlone]
  | case6 c fmt text hfull =>
    have hwhole : text.length = maxLen := by omega
    have hover : ¬(Format.Lone (c :: fmt) ∧
        (text ++ expandOnce letters (c :: fmt)).length ≤ maxLen) := by
      rintro ⟨hlone, hle⟩
      have hpos := expandOnce_pos hpercent hlone
      rw [length_append] at hle
      omega
    rw [if_neg hover, ← hwhole, take_left]

end Loop

/-! ## Bounds -/

section Bounds

variable {t : DateTime} {fmt : Format} {tz : Option Int} {result maxLen : Nat}

theorem conversion_percent (t : DateTime) (tm : Tm) : t.conversion tm '%' = none := rfl

theorem conversion_null (t : DateTime) (tm : Tm) : t.conversion tm '\x00' = none := rfl

theorem writeFormatted_eq (mem : Memory) {text : List Char}
    (htext : formatLoop (t.conversion (t.printedTm tz)) maxLen fmt.chars [] = text) :
    writeFormatted result maxLen mem t fmt tz =
      some (if text.length < maxLen then (mem.put result text).put (result + text.length) ['\x00']
        else (mem.put result text).put (result + (maxLen - 1)) ['\x00']) := by
  have hloop := @formatBytes_eq _ result maxLen (conversion_null t (t.printedTm tz)) fmt mem
    fmt.chars [] [] (fmt.chars.length + 1) rfl (Nat.lt_succ_self _) (Nat.zero_le _)
  have hstart : Output.of result mem [] = ⟨mem, 0⟩ := by
    unfold Output.of
    congr 1
    funext i
    unfold Memory.put
    simp
  rw [hstart, htext] at hloop
  unfold writeFormatted
  rw [show ([] : List Char).length = 0 from rfl] at hloop
  rw [hloop]
  rfl

theorem reads_cut (mem : Memory) {text : List Char} (hroom : 1 ≤ maxLen)
    (hlength : text.length ≤ maxLen) :
    Reads (if text.length < maxLen then (mem.put result text).put (result + text.length) ['\x00']
        else (mem.put result text).put (result + (maxLen - 1)) ['\x00']) result
      (text.take (maxLen - 1) ++ ['\x00']) := by
  split
  · next hlt => rw [take_of_length_le (by omega), put_put]; exact reads_put _ _ _
  have hfull : (text.take (maxLen - 1)).length = maxLen - 1 := by
    rw [length_take]; omega
  have htext := reads_put mem result text
  rw [← take_append_drop (maxLen - 1) text] at htext
  refine reads_append.mpr ⟨?_, ?_⟩
  · have hkept := (reads_append.mp htext).1
    rw [take_append_drop] at hkept
    exact hkept.put_apart (.inl (by omega))
  · rw [hfull]; exact reads_put _ _ _

theorem writes_room (mem : Memory) {text : List Char} (hroom : 1 ≤ maxLen)
    (hlength : text.length ≤ maxLen) {i : Nat} (hi : i < result ∨ result + maxLen ≤ i) :
    (if text.length < maxLen then (mem.put result text).put (result + text.length) ['\x00']
      else (mem.put result text).put (result + (maxLen - 1)) ['\x00']) i = mem i := by
  have htext : mem.put result text i = mem i := by
    rcases hi with hi | hi
    · exact put_of_lt hi
    · exact put_of_ge (by omega)
  have hone : (['\x00'] : List Char).length = 1 := rfl
  split
  · next hlt =>
    rcases hi with hi | hi
    · rw [put_of_lt (by omega), htext]
    · rw [put_of_ge (by omega), htext]
  · rcases hi with hi | hi
    · rw [put_of_lt (by omega), htext]
    · rw [put_of_ge (by omega), htext]

theorem bounded_of_loop {text : List Char} (hroom : 1 ≤ maxLen)
    (htext : formatLoop (t.conversion (t.printedTm tz)) maxLen fmt.chars [] = text)
    (hlength : text.length ≤ maxLen)
    (hwanted : text.take (maxLen - 1) = (t.untruncated fmt tz).take (maxLen - 1)) (mem : Memory) :
    ∃ mem', t.Bounded fmt tz result maxLen mem mem' := by
  refine ⟨_, writeFormatted_eq mem htext, fun i hi => writes_room mem hroom hlength hi, ?_⟩
  rw [← hwanted]
  exact reads_cut mem hroom hlength

theorem not_bounded_of_full {text : List Char} (hroom : 1 ≤ maxLen) (hlength : text.length = maxLen)
    (htext : formatLoop (t.conversion (t.printedTm tz)) maxLen fmt.chars [] = text ++ ['%']) :
    ¬∃ mem', t.Bounded fmt tz result maxLen (fun _ => '\x00') mem' := by
  rintro ⟨mem', hreads, hwrites, -⟩
  have hover : ¬(text ++ ['%']).length < maxLen := by
    rw [length_append]; omega
  rw [writeFormatted_eq _ htext, if_neg hover] at hreads
  have hbyte := hwrites (result + maxLen) (.inr (Nat.le_refl _))
  have hpercent :=
    (reads_append.mp (reads_put (fun _ => '\x00') result (text ++ ['%']))).2 0 '%' rfl
  rw [Nat.add_zero, hlength] at hpercent
  rw [← Option.some.inj hreads, put_of_ge (by simp; omega), hpercent] at hbyte
  cases hbyte

theorem not_bounded_of_twice (hroom : (t.untruncated fmt tz).length + 1 < maxLen)
    (htext : formatLoop (t.conversion (t.printedTm tz)) maxLen fmt.chars [] =
      t.untruncated fmt tz ++ ['%']) (mem : Memory) :
    ¬∃ mem', t.Bounded fmt tz result maxLen mem mem' := by
  rintro ⟨mem', hreads, -, hkept⟩
  have hshort : (t.untruncated fmt tz ++ ['%']).length < maxLen := by rwa [length_append]
  rw [writeFormatted_eq _ htext, if_pos hshort, put_put] at hreads
  have htwice := reads_put mem result (t.untruncated fmt tz ++ ['%'] ++ ['\x00'])
  rw [Option.some.inj hreads, append_assoc] at htwice
  rw [take_of_length_le (by omega)] at hkept
  have hpercent := (reads_append.mp htwice).2 0 '%' rfl
  have hnull := (reads_append.mp hkept).2 0 '\x00' rfl
  cases hpercent.symm.trans hnull

/-- **When the formatter stays in bounds**: the format does not end in a `%`, or the output with it
is longer than the room, or it leaves just the terminator's byte. -/
theorem bounded_iff (t : DateTime) (fmt : Format) (tz : Option Int) (result : Nat) {maxLen : Nat}
    (hroom : 1 ≤ maxLen) : (∀ mem, ∃ mem', t.Bounded fmt tz result maxLen mem mem') ↔
    ¬Format.Lone fmt.chars ∨ maxLen < (t.untruncated fmt tz).length ∨
    (t.untruncated fmt tz).length + 1 = maxLen := by
  have hloop := @formatLoop_eq _ maxLen (conversion_percent t (t.printedTm tz)) fmt.chars []
    (Nat.zero_le _)
  rw [nil_append] at hloop
  by_cases hlone : Format.Lone fmt.chars ∧ (t.untruncated fmt tz).length ≤ maxLen
  · have htext := hloop.trans (if_pos hlone)
    constructor
    · intro hall
      by_contra hnot
      by_cases hfull : (t.untruncated fmt tz).length = maxLen
      · exact not_bounded_of_full hroom hfull htext (hall _)
      · exact not_bounded_of_twice (by omega) htext (fun _ => '\x00') (hall _)
    intro hfits mem
    have hone : (t.untruncated fmt tz).length + 1 = maxLen := by
      rcases hfits with hnot | hlong | hone
      · exact absurd hlone.1 hnot
      · omega
      · exact hone
    refine bounded_of_loop hroom htext (by rw [length_append]; exact Nat.le_of_eq hone) ?_ mem
    rw [take_append_of_le_length (Nat.le_of_eq (by unfold untruncated at hone; omega))]
    rfl
  refine iff_of_true (fun mem => ?_) ?_
  · have htext := hloop.trans (if_neg hlone)
    refine bounded_of_loop hroom htext (length_take_le _ _) ?_ mem
    rw [take_take, Nat.min_eq_left (Nat.sub_le _ _)]
    rfl
  · by_cases hends : Format.Lone fmt.chars
    · exact .inr (.inl (Nat.lt_of_not_le fun hle => hlone ⟨hends, hle⟩))
    · exact .inl hends

end Bounds

/-- Hours and minutes in six bytes. -/
theorem bounded_clock : ∃ mem',
    (ofTime 3600 0).Bounded ⟨['%', 'H', ':', '%', 'M'], by decide⟩ none 0 6 (fun _ => 'x') mem' :=
  (bounded_iff (ofTime 3600 0) ⟨['%', 'H', ':', '%', 'M'], by decide⟩ none 0 (by decide)).mpr
    (.inl (by decide)) fun _ => 'x'

/-- A format that is a `%`, in a room of one byte: the byte behind the room is written. -/
theorem not_bounded : ¬ ∀ (t : DateTime) (fmt : Format) (tz : Option Int) (result maxLen : Nat)
    (mem : Memory), 1 ≤ maxLen → ∃ mem', t.Bounded fmt tz result maxLen mem mem' := by
  intro hall
  obtain ⟨mem', hreads, hwrites, -⟩ :=
    hall null ⟨['%'], by decide⟩ none 0 1 (fun _ => 'x') (by decide)
  have hbyte := hwrites 1 (by decide)
  have hmem := Option.some.inj hreads
  rw [← hmem] at hbyte
  cases hbyte

end DateTime

end Mama
