import Mathlib.Data.List.DropRight
import Mathlib.Data.Rat.Floor
import OpenMama.Lib.Decimal
import OpenMama.Lib.Scanf

/-!
# Printing without `printf`

The functions of `strutils.c` that print an integer or a floating-point number
into a buffer.  A buffer is what lies from its first byte on, past its end too,
and sizes are 64-bit numbers that wrap: the functions for a floating-point
number shrink the room as they print and do not look whether it wraps.

A double is an exact number here; `wmFastPrintF64In` takes what its one inexact
operation, a product, is rounded by.
-/

namespace Common

open Lib List Option

/-! ## Memory -/

abbrev Memory := Nat → Char

def Memory.put (mem : Memory) (p : Nat) (cs : List Char) : Memory :=
  fun i => if i < p then mem i else (cs[i - p]?).getD (mem i)

/-- The string at an address, looked for in `n` bytes. -/
def cString (mem : Memory) (p n : Nat) : List Char :=
  Lib.cString ((List.range n).map fun i => mem (p + i))

/-- The sum of a pointer or a size and a number of bytes, both 64 bits wide. -/
def sizeAdd (p : Nat) (bytes : Int) : Nat := (((p : Int) + bytes) % 2 ^ 64).toNat

/-! ## Integers -/

def gIntegerStrings (n : Nat) : List Char := Nat.toDigits 10 n

def gLeadingZeroIntegerStrings (n : Nat) : List Char := padded 2 n

/-- `snprintf (result, maxLen, "%" PRIu64, value)`: what fits is written, and the length of the
whole text is returned. -/
def snprintfU64 (mem : Memory) (result maxLen value : Nat) : Memory × Nat :=
  (mem.put result ((Nat.toDigits 10 value).take (maxLen - 1) ++ ['\x00']),
    (Nat.toDigits 10 value).length)

/-- One of the branches for a number of `width` digits: zeros up to `minWidth` and the digits. -/
def writeDigits (mem : Memory) (result minWidth width : Nat) (digits : List Char) :
    Memory × Int :=
  (mem.put result (List.replicate (minWidth - width) '0' ++ digits ++ ['\x00']),
    (minWidth - width : Nat) + width)

def wmFastPrintU64 (mem : Memory) (result maxLen value minWidth : Nat) : Memory × Int :=
  if maxLen = 0 ∨ minWidth ≥ maxLen then (mem, -1)
  else if maxLen = 1 then (mem.put result ['\x00'], 0)
  else if value = 0 then writeDigits mem result minWidth 1 ['0']
  else if value < 10 ∧ maxLen > 1 then writeDigits mem result minWidth 1 (gIntegerStrings value)
  else if value < 100 ∧ maxLen > 2 then writeDigits mem result minWidth 2 (gIntegerStrings value)
  else if value < 1000 ∧ maxLen > 3 then
    writeDigits mem result minWidth 3
      (Nat.digitChar (value / 100) :: gLeadingZeroIntegerStrings (value % 100))
  else if value < 10000 ∧ maxLen > 4 then
    writeDigits mem result minWidth 4
      (gLeadingZeroIntegerStrings (value / 100) ++ gLeadingZeroIntegerStrings (value % 100))
  else if value < 100000 ∧ maxLen > 5 then
    let leading := value / 10000
    let residual := value - leading * 10000
    writeDigits mem result minWidth 5 (gIntegerStrings leading ++
      gLeadingZeroIntegerStrings (residual / 100) ++ gLeadingZeroIntegerStrings (residual % 100))
  else if value < 1000000 ∧ maxLen > 6 then
    let leading := value / 10000
    let residual := value - leading * 10000
    writeDigits mem result minWidth 6 (gLeadingZeroIntegerStrings leading ++
      gLeadingZeroIntegerStrings (residual / 100) ++ gLeadingZeroIntegerStrings (residual % 100))
  else
    let size := if value < 10000000 then 7 else if value < 100000000 then 8 else 0
    if maxLen > size then
      let extra := minWidth - size
      let printed := snprintfU64 (mem.put result (List.replicate extra '0')) (result + extra) maxLen
        value
      (printed.1, (extra : Int) + printed.2)
    else
      let printed := snprintfU64 mem result maxLen value
      (printed.1, printed.2)

def wmFastPrintI64 (mem : Memory) (result maxLen : Nat) (value : Int) (minWidth : Nat) :
    Memory × Int :=
  if value < 0 then
    if maxLen > 1 then
      let printed := wmFastPrintU64 (mem.put result ['-']) (result + 1) maxLen value.natAbs minWidth
      (printed.1, printed.2 + 1)
    else (mem, -1)
  else wmFastPrintU64 mem result maxLen value.natAbs minWidth

/-! ## Floating point -/

/-- `(w_i64_t)(x)`; none where the value does not fit, which is undefined. -/
def castI64 (x : ℚ) : Option Int :=
  let n : Int := if x < 0 then -⌊-x⌋ else ⌊x⌋
  if -(2 ^ 63) ≤ n ∧ n < 2 ^ 63 then some n else none

/-- The variables of `wmFastPrintF64`. -/
structure Printing where
  mem : Memory
  tmpResult : Nat
  maxlen : Nat

/-- `tmpResult += bytes; maxlen -= bytes;`. -/
def Printing.shift (x : Printing) (bytes : Int) : Printing :=
  { x with tmpResult := sizeAdd x.tmpResult bytes, maxlen := sizeAdd x.maxlen (-bytes) }

def multiplier (places : Nat) : ℚ := if places = 0 then 100 else 10 ^ places

/-- `while (tmpResult[bytes-1] == '0') { tmpResult[bytes-1] = '\0'; bytes--; }`. -/
def stripZeros (mem : Memory) (tmpResult : Nat) : Nat → Memory × Nat
  | 0 => (mem, 0)
  | bytes + 1 =>
    if mem (tmpResult + bytes) = '0' then stripZeros (mem.put (tmpResult + bytes) ['\x00'])
      tmpResult bytes
    else (mem, bytes + 1)

/-- The part of `wmFastPrintF64` that prints the integral value; an error is an early return. -/
def printIntegral (x : Printing) (integral : Int) : Except (Memory × Int) Printing :=
  if x.maxlen > 1 then
    let printed := wmFastPrintI64 x.mem x.tmpResult x.maxlen integral 0
    if printed.2 < 0 then .error printed
    else .ok ({ x with mem := printed.1 }.shift printed.2)
  else .ok x

/-- The part of `wmFastPrintF64` that prints the decimal value. -/
def printDecimals (x : Printing) (decimalValue : Nat) (places : Nat) :
    Except (Memory × Int) Printing :=
  if decimalValue > 0 then
    let x := { x with mem := x.mem.put x.tmpResult ['.'] }.shift 1
    let printed := wmFastPrintU64 x.mem x.tmpResult x.maxlen decimalValue places
    if printed.2 < 0 then .error printed
    else
      let stripped := stripZeros printed.1 x.tmpResult printed.2.toNat
      .ok ({ x with mem := stripped.1 }.shift stripped.2)
  else .ok x

/-- `tmpResult[maxlen-1] = '\0'` and what is returned. -/
def finishPrint (x : Printing) (actualMaxLen : Nat) : Memory × Int :=
  (x.mem.put (sizeAdd (x.tmpResult + x.maxlen) (-1)) ['\x00'], sizeAdd actualMaxLen (-x.maxlen))

/-- `wmFastPrintF64` where `round` is what the constant and the product are rounded by; none where a
conversion is undefined. -/
def wmFastPrintF64In (round : ℚ → ℚ) (mem : Memory) (result maxlen : Nat) (value : ℚ)
    (places : Nat) : Option (Memory × Int) := do
  let x : Printing := ⟨mem.put result ['\x00'], result, maxlen⟩
  let posValue := |value|
  let x := if value < 0 then { x with mem := x.mem.put result ['-'] }.shift 1 else x
  let integral ← castI64 posValue
  match printIntegral x integral with
  | .error r => pure r
  | .ok x =>
    if x.maxlen > 2 then
      let posValue := round ((posValue - integral) * multiplier places)
      let decimalValue ← castI64 posValue
      let decimalValue :=
        if posValue - decimalValue > round (9 / 10) then decimalValue + 1 else decimalValue
      match printDecimals x decimalValue.toNat places with
      | .error r => pure r
      | .ok x => pure (finishPrint x maxlen)
    else pure (finishPrint x maxlen)

/-- `wmFastPrintF64` with exact products. -/
def wmFastPrintF64 (mem : Memory) (result maxlen : Nat) (value : ℚ) (places : Nat) :
    Option (Memory × Int) := wmFastPrintF64In id mem result maxlen value places

/-! ## A pointer that is shifted -/

/-- `wmFastCopyAndShiftStr`: the buffer, where the pointer is and how much room is left. -/
def wmFastCopyAndShiftStr (mem : Memory) (result maxLen : Nat) (value : List Char) :
    Memory × Nat × Nat :=
  let bytes := min maxLen value.length
  (mem.put result (value.take bytes ++ ['\x00']), result + bytes, maxLen - bytes)

def wmFastPrintAndShiftF64 (round : ℚ → ℚ) (mem : Memory) (result maxLen : Nat) (value : ℚ)
    (places : Nat) : Option (Memory × Nat × Nat) := do
  let (mem, bytes) ← wmFastPrintF64In round mem result maxLen value places
  pure (mem, sizeAdd result bytes, sizeAdd maxLen (-bytes))

/-! ## What memory reads -/

def Reads (mem : Memory) (p : Nat) (cs : List Char) : Prop :=
  ∀ i c, cs[i]? = some c → mem (p + i) = c

section Reads

variable {mem : Memory} {p q : Nat} {cs ds : List Char}
variable {i : Nat}

theorem put_of_lt (h : i < p) : mem.put p cs i = mem i := if_pos h

theorem put_of_ge (h : p + cs.length ≤ i) : mem.put p cs i = mem i := by
  rw [Memory.put, if_neg (by omega), getElem?_eq_none (by omega)]
  rfl

theorem reads_put (mem : Memory) (p : Nat) (cs : List Char) : Reads (mem.put p cs) p cs := by
  intro i c h
  rw [Memory.put, if_neg (by omega), Nat.add_sub_cancel_left, h]
  rfl

theorem Reads.put_apart (h : Reads mem p cs) (hapart : p + cs.length ≤ q ∨ q + ds.length ≤ p) :
    Reads (mem.put q ds) p cs := by
  intro i c hi
  have hlt := (List.getElem?_eq_some_iff.mp hi).1
  rcases hapart with hapart | hapart
  · rw [put_of_lt (by omega)]; exact h i c hi
  · rw [put_of_ge (by omega)]; exact h i c hi

theorem reads_append : Reads mem p (cs ++ ds) ↔ Reads mem p cs ∧ Reads mem (p + cs.length) ds := by
  constructor
  · intro h
    refine ⟨fun i c hi => ?_, fun i c hi => ?_⟩
    · have hlt := (List.getElem?_eq_some_iff.mp hi).1
      exact h i c (by rw [getElem?_append_left hlt, hi])
    · rw [Nat.add_assoc]
      exact h (cs.length + i) c (by
        rw [getElem?_append_right (by omega), Nat.add_sub_cancel_left, hi])
  rintro ⟨hleft, hright⟩ i c hi
  rw [getElem?_append] at hi
  by_cases hlt : i < cs.length
  · rw [if_pos hlt] at hi; exact hleft i c hi
  · rw [if_neg hlt] at hi
    have := hright (i - cs.length) c hi
    rwa [show p + cs.length + (i - cs.length) = p + i by omega] at this

theorem put_put (mem : Memory) (p : Nat) (cs ds : List Char) :
    (mem.put p cs).put (p + cs.length) ds = mem.put p (cs ++ ds) := by
  funext i
  unfold Memory.put
  rw [getElem?_append]
  by_cases h₁ : i < p
  · rw [if_pos (by omega), if_pos h₁, if_pos h₁]
  · rw [if_neg h₁]
    by_cases h₂ : i < p + cs.length
    · rw [if_pos h₂, if_neg h₁, if_pos (by omega)]
    · rw [if_neg h₂, if_neg h₁, if_neg (by omega), getElem?_eq_none (l := cs) (by omega),
        show i - p - cs.length = i - (p + cs.length) by omega]
      rfl

theorem cString_eq {n : Nat} (h : Reads mem p (cs ++ ['\x00'])) (hnull : '\x00' ∉ cs)
    (hn : cs.length < n) : cString mem p n = cs := by
  obtain ⟨hcs, hend⟩ := reads_append.mp h
  have hsplit : (List.range n).map (fun i => mem (p + i)) =
      cs ++ '\x00' :: ((List.range n).map (fun i => mem (p + i))).drop (cs.length + 1) := by
    refine ext_getElem? fun i => ?_
    rw [getElem?_append]
    by_cases hlt : i < cs.length
    · rw [if_pos hlt, getElem?_map, getElem?_range (by omega)]
      have hi : cs[i]? = some cs[i] := getElem?_eq_getElem hlt
      rw [hi, map_some, hcs i _ hi]
    rw [if_neg hlt]
    by_cases heq : i = cs.length
    · subst heq
      rw [Nat.sub_self, getElem?_map, getElem?_range hn]
      exact congrArg some (hend 0 _ rfl)
    · rw [show i - cs.length = i - (cs.length + 1) + 1 by omega, getElem?_cons_succ,
        getElem?_drop, show cs.length + 1 + (i - (cs.length + 1)) = i by omega]
  rw [cString, Lib.cString, hsplit, takeWhile_append_of_pos, takeWhile_cons_of_neg (by simp),
    append_nil]
  intro c hc
  refine decide_eq_true ?_
  rintro rfl
  exact hnull hc

end Reads

theorem sizeAdd_nat {p : Nat} {b : Int} (h₀ : 0 ≤ (p : Int) + b) (h₁ : (p : Int) + b < 2 ^ 64) :
    (sizeAdd p b : Int) = p + b := by
  rw [sizeAdd, Int.emod_eq_of_lt h₀ h₁, Int.toNat_of_nonneg h₀]

/-! ## Integers that are printed -/

variable {k : Nat}

section Integers

variable {mem : Memory} {result maxLen value minWidth : Nat}

theorem padded_two : ∀ c < 100, padded 2 c = [Nat.digitChar (c / 10), Nat.digitChar (c % 10)] := by
  decide

theorem toDigits_hundred {a c : Nat} (ha : 0 < a) (hc : c < 100) :
    Nat.toDigits 10 (a * 100 + c) = Nat.toDigits 10 a ++ padded 2 c := by
  have hlast := Nat.toDigits_append_toDigits (b := 10) (n := 10 * a + c / 10) (d := c % 10)
    (by decide) (by omega) (by omega)
  have hfirst := Nat.toDigits_append_toDigits (b := 10) (n := a) (d := c / 10) (by decide) ha
    (by omega)
  rw [← hfirst, Nat.toDigits_of_lt_base (n := c / 10) (by omega),
    Nat.toDigits_of_lt_base (n := c % 10) (by omega), append_assoc] at hlast
  rw [padded_two c hc]
  refine Eq.trans ?_ hlast.symm
  congr 1
  omega

theorem toDigits_split {n : Nat} (h : 100 ≤ n) :
    Nat.toDigits 10 n = Nat.toDigits 10 (n / 100) ++ padded 2 (n % 100) := by
  have := toDigits_hundred (a := n / 100) (c := n % 100) (by omega) (by omega)
  rwa [show n / 100 * 100 + n % 100 = n by omega] at this

theorem toDigits_split_four {n : Nat} (h : 10000 ≤ n) :
    Nat.toDigits 10 n = Nat.toDigits 10 (n / 10000) ++
      padded 2 ((n - n / 10000 * 10000) / 100) ++ padded 2 ((n - n / 10000 * 10000) % 100) := by
  rw [toDigits_split (by omega), toDigits_split (n := n / 100) (by omega),
    show n / 100 / 100 = n / 10000 by omega,
    show n / 100 % 100 = (n - n / 10000 * 10000) / 100 by omega,
    show n % 100 = (n - n / 10000 * 10000) % 100 by omega]

theorem padded_of_length {width n : Nat} (h : (Nat.toDigits 10 n).length = width) :
    padded width n = Nat.toDigits 10 n := by
  rw [padded, List.leftpad, h, Nat.sub_self]
  rfl

theorem length_toDigits_eq {n : Nat} (hk : 0 < k) (hle : 10 ^ k ≤ n) (hlt : n < 10 ^ (k + 1)) :
    (Nat.toDigits 10 n).length = k + 1 := by
  have h₁ := (Nat.length_toDigits_le_iff (b := 10) (n := n) (by decide) hk).not.mpr (by omega)
  have h₂ := (Nat.length_toDigits_le_iff (b := 10) (n := n) (by decide) (Nat.succ_pos k)).mpr hlt
  omega

theorem padded_zero (n : Nat) : padded 0 n = Nat.toDigits 10 n := by
  rw [padded, List.leftpad, Nat.zero_sub]
  rfl

theorem writeDigits_eq {digits : List Char} {width : Nat}
    (hdigits : digits = Nat.toDigits 10 value) (hwidth : digits.length = width) :
    writeDigits mem result minWidth width digits =
      (mem.put result (padded minWidth value ++ ['\x00']),
        ((padded minWidth value).length : Int)) := by
  have hpadded : List.replicate (minWidth - width) '0' ++ digits = padded minWidth value := by
    rw [padded, List.leftpad, ← hdigits, hwidth]
  have hlen : (padded minWidth value).length = minWidth - width + width := by
    rw [← hpadded, length_append, length_replicate, hwidth]
  rw [writeDigits, hpadded, hlen]
  rfl

def width (value : Nat) : Nat := (Nat.toDigits 10 value).length

theorem width_pos (value : Nat) : 0 < width value := Nat.length_toDigits_pos

theorem width_le_iff (hk : 0 < k) : width value ≤ k ↔ value < 10 ^ k :=
  Nat.length_toDigits_le_iff (by decide) hk

theorem width_small (value : Nat) :
    (width value ≤ 1 ↔ value < 10) ∧ (width value ≤ 2 ↔ value < 100) ∧
    (width value ≤ 3 ↔ value < 1000) ∧ (width value ≤ 4 ↔ value < 10000) ∧
    (width value ≤ 5 ↔ value < 100000) ∧ (width value ≤ 6 ↔ value < 1000000) :=
  ⟨width_le_iff (by decide), width_le_iff (by decide), width_le_iff (by decide),
    width_le_iff (by decide), width_le_iff (by decide), width_le_iff (by decide)⟩

/-- The last branch: `snprintf`, after zeros for the numbers of seven and eight digits. -/
theorem wmFastPrintU64_last (mem : Memory) (result : Nat) (hroom : 2 ≤ maxLen)
    (hminWidth : minWidth < maxLen) (hlong : maxLen ≤ width value ∨ 1000000 ≤ value) :
    wmFastPrintU64 mem result maxLen value minWidth =
      (let size := if value < 10000000 then 7 else if value < 100000000 then 8 else 0
       if maxLen > size then
         let extra := minWidth - size
         let printed := snprintfU64 (mem.put result (List.replicate extra '0')) (result + extra)
           maxLen value
         (printed.1, (extra : Int) + printed.2)
       else
         let printed := snprintfU64 mem result maxLen value
         (printed.1, printed.2)) := by
  obtain ⟨h₁, h₂, h₃, h₄, h₅, h₆⟩ := width_small value
  have hpos : value ≠ 0 := by
    rintro rfl; omega
  unfold wmFastPrintU64
  rw [if_neg (by omega), if_neg (by omega), if_neg hpos, if_neg (by omega), if_neg (by omega),
    if_neg (by omega), if_neg (by omega), if_neg (by omega), if_neg (by omega)]

theorem wmFastPrintU64_fits (mem : Memory) (result : Nat) (hroom : 2 ≤ maxLen)
    (hwidth : minWidth < maxLen) (hdigits : width value < maxLen)
    (hsmall : minWidth = 0 ∨ value < 100000000) :
    wmFastPrintU64 mem result maxLen value minWidth =
      (mem.put result (padded minWidth value ++ ['\x00']),
        ((padded minWidth value).length : Int)) := by
  obtain ⟨h₁, h₂, h₃, h₄, h₅, h₆⟩ := width_small value
  have hpos := width_pos value
  by_cases hlarge : 1000000 ≤ value
  · have h₇ : width value ≤ 7 ↔ value < 10000000 := width_le_iff (by decide)
    have h₈ : width value ≤ 8 ↔ value < 100000000 := width_le_iff (by decide)
    have htake : (Nat.toDigits 10 value).take (maxLen - 1) = Nat.toDigits 10 value :=
      take_of_length_le (Nat.le_sub_one_of_lt hdigits)
    rw [wmFastPrintU64_last mem result hroom hwidth (.inr hlarge)]
    generalize hsize : (if value < 10000000 then 7 else if value < 100000000 then 8 else 0) = size
    have hextra : minWidth - size = minWidth - width value ∧ size < maxLen := by
      split at hsize
      · omega
      · split at hsize
        · omega
        · omega
    have hput := put_put mem result (List.replicate (minWidth - size) '0')
    rw [length_replicate] at hput
    dsimp only
    rw [if_pos hextra.2]
    unfold snprintfU64 padded List.leftpad
    rw [htake, hput, hextra.1, append_assoc, length_append, length_replicate]
    rfl
  unfold wmFastPrintU64
  unfold width at h₁ h₂ h₃ h₄ h₅ h₆ hpos hdigits
  rw [if_neg (by omega), if_neg (by omega)]
  by_cases hv₀ : value = 0
  · rw [if_pos hv₀]; exact writeDigits_eq (by rw [hv₀]; rfl) rfl
  rw [if_neg hv₀]
  by_cases hv₁ : value < 10 ∧ maxLen > 1
  · rw [if_pos hv₁]; exact writeDigits_eq rfl (by unfold gIntegerStrings; omega)
  rw [if_neg hv₁]
  by_cases hv₂ : value < 100 ∧ maxLen > 2
  · rw [if_pos hv₂]; exact writeDigits_eq rfl (by unfold gIntegerStrings; omega)
  rw [if_neg hv₂]
  by_cases hv₃ : value < 1000 ∧ maxLen > 3
  · have hsplit : Nat.digitChar (value / 100) :: gLeadingZeroIntegerStrings (value % 100) =
        Nat.toDigits 10 value := by
      rw [toDigits_split (n := value) (by omega),
        Nat.toDigits_of_lt_base (n := value / 100) (by omega)]
      rfl
    rw [if_pos hv₃]
    exact writeDigits_eq hsplit (by rw [hsplit]; omega)
  rw [if_neg hv₃]
  by_cases hv₄ : value < 10000 ∧ maxLen > 4
  · have hsplit : gLeadingZeroIntegerStrings (value / 100) ++
        gLeadingZeroIntegerStrings (value % 100) = Nat.toDigits 10 value := by
      unfold gLeadingZeroIntegerStrings
      rw [toDigits_split (n := value) (by omega), padded_of_length]
      exact length_toDigits_eq (by decide) (by omega) (by omega)
    rw [if_pos hv₄]
    exact writeDigits_eq hsplit (by rw [hsplit]; omega)
  rw [if_neg hv₄]
  by_cases hv₅ : value < 100000 ∧ maxLen > 5
  · have hsplit := toDigits_split_four (n := value) (by omega)
    rw [if_pos hv₅]
    exact writeDigits_eq hsplit.symm (by
      show (Nat.toDigits 10 (value / 10000) ++ padded 2 _ ++ padded 2 _).length = 5
      rw [← hsplit]
      omega)
  rw [if_neg hv₅]
  have hsplit := toDigits_split_four (n := value) (by omega)
  have hleading : padded 2 (value / 10000) = Nat.toDigits 10 (value / 10000) :=
    padded_of_length (length_toDigits_eq (by decide) (by omega) (by omega))
  rw [← hleading] at hsplit
  rw [if_pos (by omega)]
  exact writeDigits_eq hsplit.symm (by
    show (padded 2 (value / 10000) ++ padded 2 _ ++ padded 2 _).length = 6
    rw [← hsplit]
    omega)

theorem wmFastPrintU64_long (mem : Memory) (result : Nat) (hroom : 2 ≤ maxLen)
    (hdigits : maxLen ≤ width value) :
    ∃ cs, wmFastPrintU64 mem result maxLen value 0 = (mem.put result cs, (width value : Int)) := by
  refine ⟨(Nat.toDigits 10 value).take (maxLen - 1) ++ ['\x00'], ?_⟩
  rw [wmFastPrintU64_last mem result hroom (by omega) (.inl hdigits)]
  have hnone : mem.put result (List.replicate 0 '0') = mem := by
    funext i
    unfold Memory.put
    simp
  simp only [Nat.zero_sub, hnone, snprintfU64]
  simp [width]

end Integers

/-! ## The stages of a floating-point number -/

variable {actual : Nat} {x : Printing}

section Stages

variable {mem : Memory} {tmp maxlen n : Nat}

theorem shift_nat (htmp : x.tmpResult + k < 2 ^ 64) (hk : k ≤ x.maxlen) (hmax : x.maxlen < 2 ^ 64) :
    x.shift k = ⟨x.mem, x.tmpResult + k, x.maxlen - k⟩ := by
  have h₁ : sizeAdd x.tmpResult k = x.tmpResult + k := by
    have := sizeAdd_nat (p := x.tmpResult) (b := (k : Int)) (by omega) (by omega)
    omega
  have h₂ : sizeAdd x.maxlen (-(k : Int)) = x.maxlen - k := by
    have := sizeAdd_nat (p := x.maxlen) (b := -(k : Int)) (by omega) (by omega)
    omega
  rw [Printing.shift, h₁, h₂]

theorem printIntegral_fits (hroom : 2 ≤ maxlen) (hdigits : (Nat.toDigits 10 n).length < maxlen)
    (hmax : maxlen < 2 ^ 64) (htmp : tmp + (Nat.toDigits 10 n).length < 2 ^ 64) :
    printIntegral ⟨mem, tmp, maxlen⟩ n =
      .ok ⟨mem.put tmp (Nat.toDigits 10 n ++ ['\x00']), tmp + (Nat.toDigits 10 n).length,
        maxlen - (Nat.toDigits 10 n).length⟩ := by
  have hprint : wmFastPrintI64 mem tmp maxlen n 0 =
      (mem.put tmp (Nat.toDigits 10 n ++ ['\x00']), ((Nat.toDigits 10 n).length : Int)) := by
    rw [wmFastPrintI64, if_neg (by omega), Int.natAbs_natCast,
      wmFastPrintU64_fits mem tmp hroom (by omega) hdigits (.inl rfl), padded_zero]
  rw [printIntegral, if_pos (by exact hroom)]
  rw [hprint, if_neg (by dsimp only; omega), shift_nat htmp (by exact hdigits.le) hmax]

theorem printIntegral_long (hroom : 2 ≤ maxlen) (hdigits : maxlen ≤ (Nat.toDigits 10 n).length)
    (htmp : tmp + (Nat.toDigits 10 n).length < 2 ^ 64) :
    ∃ mem', printIntegral ⟨mem, tmp, maxlen⟩ n =
      .ok ⟨mem', tmp + (Nat.toDigits 10 n).length,
        sizeAdd maxlen (-((Nat.toDigits 10 n).length : Int))⟩ := by
  obtain ⟨cs, hprint⟩ := wmFastPrintU64_long mem tmp hroom hdigits
  have hprint' : wmFastPrintI64 mem tmp maxlen n 0 =
      (mem.put tmp cs, ((Nat.toDigits 10 n).length : Int)) := by
    rw [wmFastPrintI64, Int.natAbs_natCast, hprint]
    rfl
  have hadd : sizeAdd tmp (Nat.toDigits 10 n).length = tmp + (Nat.toDigits 10 n).length := by
    have := sizeAdd_nat (p := tmp) (b := ((Nat.toDigits 10 n).length : Int)) (by omega)
    omega
  refine ⟨mem.put tmp cs, ?_⟩
  rw [printIntegral, if_pos (by exact hroom)]
  rw [hprint', if_neg (by dsimp only; omega)]
  rw [Printing.shift, hadd]

def stripped (cs : List Char) : List Char := cs.rdropWhile fun c => c == '0'

theorem stripped_concat (cs : List Char) (c : Char) :
    stripped (cs ++ [c]) = if c = '0' then stripped cs else cs ++ [c] := by
  unfold stripped
  by_cases h : c = '0'
  · rw [if_pos h, rdropWhile_concat_pos _ _ _ (by simpa using h)]
  · rw [if_neg h, rdropWhile_concat_neg _ _ _ (by simpa using h)]

theorem stripZeros_eq {mem : Memory} {cs : List Char} (h : Reads mem tmp cs) :
    ∃ mem', stripZeros mem tmp cs.length = (mem', (stripped cs).length) ∧
      Reads mem' tmp (stripped cs) ∧ ∀ i, i < tmp → mem' i = mem i := by
  induction cs using List.reverseRecOn generalizing mem with
  | nil => exact ⟨mem, rfl, h, fun _ _ => rfl⟩
  | append_singleton cs c ih =>
    obtain ⟨hcs, hlast⟩ := reads_append.mp h
    have hc : mem (tmp + cs.length) = c := hlast 0 c rfl
    rw [length_append, length_singleton, stripZeros, hc, stripped_concat]
    by_cases hzero : c = '0'
    · rw [if_pos hzero, if_pos hzero]
      obtain ⟨mem', hstrip, hreads, hframe⟩ :=
        @ih (mem.put (tmp + cs.length) ['\x00']) (hcs.put_apart (.inl (Nat.le_refl _)))
      refine ⟨mem', hstrip, hreads, fun i hi => ?_⟩
      rw [hframe i hi, put_of_lt (by omega)]
    · rw [if_neg hzero, if_neg hzero]
      exact ⟨mem, by rw [length_append, length_singleton], h, fun _ _ => rfl⟩

theorem length_stripped_le (cs : List Char) : (stripped cs).length ≤ cs.length := by
  exact rdropWhile_prefix _ _ |>.length_le

theorem length_decimals {q : Nat} (hq : q ≤ 10000) : (Nat.toDigits 10 q).length ≤ 5 ∧
    (q < 10000 → (padded 4 q).length = 4) ∧ (q = 10000 → (padded 4 q).length = 5) := by
  refine ⟨(Nat.length_toDigits_le_iff (by decide) (by decide)).mpr (by omega),
    fun hlt => length_padded (by decide) hlt, ?_⟩
  rintro rfl
  rfl

theorem printDecimals_fits (mem : Memory) (tmp maxlen : Nat) {q : Nat} (hpos : 0 < q)
    (hq : q ≤ 10000) (hroom : 6 ≤ maxlen)
    (hdigits : q = 10000 → 7 ≤ maxlen) (hmax : maxlen < 2 ^ 64) (htmp : tmp + 6 < 2 ^ 64) :
    ∃ mem', printDecimals ⟨mem, tmp, maxlen⟩ q 4 =
        .ok ⟨mem', tmp + 1 + (stripped (padded 4 q)).length,
          maxlen - 1 - (stripped (padded 4 q)).length⟩ ∧
      Reads mem' tmp ('.' :: stripped (padded 4 q)) ∧ ∀ i, i < tmp → mem' i = mem i := by
  obtain ⟨hlen, hfour, hfive⟩ := length_decimals hq
  have hstripped := length_stripped_le (padded 4 q)
  have hdigits' : (Nat.toDigits 10 q).length < maxlen - 1 := by
    by_cases h : q = 10000
    · have := hdigits h
      omega
    · have := (Nat.length_toDigits_le_iff (b := 10) (n := q) (k := 4) (by decide) (by decide)).mpr
      omega
  have hprint : wmFastPrintU64 (mem.put tmp ['.']) (tmp + 1) (maxlen - 1) q 4 = _ :=
    wmFastPrintU64_fits _ _ (by omega) (by omega) hdigits' (.inr (by omega))
  have hreads := reads_put (mem.put tmp ['.']) (tmp + 1) (padded 4 q ++ ['\x00'])
  obtain ⟨mem', hstrip, hreads', hframe⟩ := stripZeros_eq (reads_append.mp hreads).1
  have hone : Printing.shift ⟨mem.put tmp ['.'], tmp, maxlen⟩ 1 =
      ⟨mem.put tmp ['.'], tmp + 1, maxlen - 1⟩ :=
    shift_nat (k := 1) (by dsimp only; omega) (by dsimp only; omega) hmax
  refine ⟨mem', ?_, ?_, fun i hi => ?_⟩
  · rw [printDecimals, if_pos hpos]
    dsimp only
    rw [hone]
    rw [hprint, Int.toNat_natCast, hstrip]
    exact congrArg Except.ok (shift_nat (by dsimp only; omega) (by dsimp only; omega)
      (by dsimp only; omega))
  · have hpoint : Reads mem' tmp ['.'] := by
      intro i c hi
      have hzero : i = 0 := by
        have := (List.getElem?_eq_some_iff.mp hi).1
        rw [length_singleton] at this
        omega
      subst hzero
      rw [hframe _ (by omega), put_of_lt (by omega)]
      exact reads_put mem tmp ['.'] 0 c hi
    exact reads_append.mpr ⟨hpoint, hreads'⟩
  · rw [hframe i (by omega), put_of_lt (by omega), put_of_lt hi]

theorem printDecimals_short {q : Nat} (hpos : 0 < q) (hroom : 3 ≤ maxlen) (hshort : maxlen ≤ 5)
    (htmp : tmp + 6 < 2 ^ 64) :
    printDecimals ⟨mem, tmp, maxlen⟩ q 4 = .error (mem.put tmp ['.'], -1) := by
  have hone : Printing.shift ⟨mem.put tmp ['.'], tmp, maxlen⟩ 1 =
      ⟨mem.put tmp ['.'], tmp + 1, maxlen - 1⟩ :=
    shift_nat (k := 1) (by dsimp only; omega) (by dsimp only; omega) (by dsimp only; omega)
  have hprint : wmFastPrintU64 (mem.put tmp ['.']) (tmp + 1) (maxlen - 1) q 4 =
      (mem.put tmp ['.'], -1) := by
    rw [wmFastPrintU64, if_pos (by omega)]
  rw [printDecimals, if_pos hpos]
  dsimp only
  rw [hone]
  rw [hprint, if_pos (by dsimp only; omega)]

theorem printDecimals_full (htmp : tmp + 6 < 2 ^ 64) :
    ∃ mem', printDecimals ⟨mem, tmp, 6⟩ 10000 4 = .ok ⟨mem', tmp + 6, 0⟩ := by
  have hone : Printing.shift ⟨mem.put tmp ['.'], tmp, 6⟩ 1 = ⟨mem.put tmp ['.'], tmp + 1, 5⟩ :=
    shift_nat (k := 1) (by dsimp only; omega) (by dsimp only; omega) (by dsimp only; omega)
  have hprint : wmFastPrintU64 (mem.put tmp ['.']) (tmp + 1) 5 10000 4 =
      ((mem.put tmp ['.']).put (tmp + 1) ['1', '0', '0', '0', '\x00'], 5) := rfl
  have hstrip : stripZeros ((mem.put tmp ['.']).put (tmp + 1) ['1', '0', '0', '0', '\x00'])
      (tmp + 1) 5 = ((mem.put tmp ['.']).put (tmp + 1) ['1', '0', '0', '0', '\x00'], 5) := by
    have hlast := reads_put (mem.put tmp ['.']) (tmp + 1) ['1', '0', '0', '0', '\x00'] 4 '\x00' rfl
    rw [stripZeros, hlast, if_neg (by decide)]
  refine ⟨(mem.put tmp ['.']).put (tmp + 1) ['1', '0', '0', '0', '\x00'], ?_⟩
  rw [printDecimals, if_pos (by decide)]
  dsimp only
  rw [hone]
  rw [hprint]
  rw [show Int.toNat 5 = 5 from rfl, hstrip]
  exact congrArg Except.ok (shift_nat (k := 5) (by dsimp only; omega) (by dsimp only; omega)
    (by dsimp only; omega))

theorem finishPrint_pointer {start : Nat}
    (hroom : (x.tmpResult + x.maxlen) % 2 ^ 64 = (start + actual) % 2 ^ 64)
    (htmp : x.tmpResult < 2 ^ 64) : sizeAdd start (finishPrint x actual).2 = x.tmpResult := by
  unfold finishPrint sizeAdd
  omega

end Stages

/-! ## A floating-point number -/

def integralOf (value : ℚ) : Nat := ⌊|value|⌋.toNat

/-- What is left of a number behind the point, in units of the last place. -/
def scaled (value : ℚ) (places : Nat) : ℚ := (|value| - ⌊|value|⌋) * 10 ^ places

/-- `decimalValue`: what is left of the product is dropped, unless it is more than nine tenths. -/
def decimalIn (round : ℚ → ℚ) (value : ℚ) (places : Nat) : Nat :=
  let x := round (scaled value places)
  (if x - ⌊x⌋ > round (9 / 10) then ⌊x⌋ + 1 else ⌊x⌋).toNat

def decimalAt (value : ℚ) (places : Nat) : Nat := decimalIn id value places

theorem scaled_nonneg (value : ℚ) (places : Nat) : 0 ≤ scaled value places :=
  mul_nonneg (Int.fract_nonneg |value|) (by positivity)

theorem scaled_lt (value : ℚ) (places : Nat) : scaled value places < 10 ^ places := by
  have hfract : |value| - ⌊|value|⌋ < 1 := Int.fract_lt_one |value|
  have hpos : (0 : ℚ) < 10 ^ places := by positivity
  unfold scaled
  nlinarith

def startPrint (mem : Memory) (result maxlen : Nat) (value : ℚ) : Printing :=
  if value < 0 then
    Printing.shift ⟨(mem.put result ['\x00']).put result ['-'], result, maxlen⟩ 1
  else ⟨mem.put result ['\x00'], result, maxlen⟩

def printRest (x : Printing) (q maxlen : Nat) : Memory × Int :=
  if x.maxlen > 2 then
    match printDecimals x q 4 with
    | .error r => r
    | .ok x => finishPrint x maxlen
  else finishPrint x maxlen

def printNumber (x : Printing) (n q maxlen : Nat) : Memory × Int :=
  match printIntegral x n with
  | .error r => r
  | .ok x => printRest x q maxlen

/-- What is printed behind the sign, with any number of places. -/
def printNumberAt (x : Printing) (n q places maxlen : Nat) : Memory × Int :=
  match printIntegral x n with
  | .error r => r
  | .ok x =>
    if x.maxlen > 2 then
      match printDecimals x q places with
      | .error r => r
      | .ok x => finishPrint x maxlen
    else finishPrint x maxlen

theorem printNumber_of_ok {y : Printing} {n q maxlen : Nat} (h : printIntegral x n = .ok y) :
    printNumber x n q maxlen = printRest y q maxlen := by
  rw [printNumber, h]

theorem castI64_eq {x : ℚ} (h₀ : 0 ≤ x) (h : x < 2 ^ 63) : castI64 x = some ⌊x⌋ := by
  have hfloor : 0 ≤ ⌊x⌋ := Int.floor_nonneg.mpr h₀
  have hlt : ⌊x⌋ < 2 ^ 63 := Int.floor_lt.mpr (by exact_mod_cast h)
  rw [castI64, if_neg (not_lt.mpr h₀)]
  exact if_pos ⟨by omega, hlt⟩

theorem castI64_eq_none {x : ℚ} (h : 2 ^ 63 ≤ x) : castI64 x = none := by
  have hle : (2 : Int) ^ 63 ≤ ⌊x⌋ := Int.le_floor.mpr (by exact_mod_cast h)
  have hpos : ¬ x < 0 := by
    rw [not_lt]; exact le_trans (by positivity) h
  rw [castI64, if_neg hpos]
  exact if_neg (fun hand => by omega)

theorem wmFastPrintF64In_at (round : ℚ → ℚ) (mem : Memory) (result maxlen : Nat) {value : ℚ}
    {places : Nat} (h : |value| < 2 ^ 63) (hplaces : 0 < places) (hfits : places ≤ 18)
    (h₀ : 0 ≤ round (scaled value places)) (hle : round (scaled value places) ≤ 10 ^ places) :
    wmFastPrintF64In round mem result maxlen value places =
      some (printNumberAt (startPrint mem result maxlen value) (integralOf value)
        (decimalIn round value places) places maxlen) := by
  have hcast := castI64_eq (abs_nonneg value) h
  have hfloor : ⌊|value|⌋ = (integralOf value : Int) :=
    (Int.toNat_of_nonneg (Int.floor_nonneg.mpr (abs_nonneg value))).symm
  have hmult : multiplier places = 10 ^ places := if_neg (Nat.ne_of_gt hplaces)
  have hfract : castI64 (round (scaled value places)) = some ⌊round (scaled value places)⌋ := by
    refine castI64_eq h₀ (hle.trans_lt ?_)
    calc (10 : ℚ) ^ places ≤ 10 ^ 18 := pow_le_pow_right₀ (by norm_num) hfits
      _ < 2 ^ 63 := by norm_num
  unfold wmFastPrintF64In printNumberAt startPrint decimalIn
  unfold scaled at hfract ⊢
  simp only [hcast, hmult, hfract, Option.bind_eq_bind, Option.bind_some, Option.pure_def]
  rw [hfloor]
  generalize printIntegral _ (integralOf value : Int) = printed
  cases printed with
  | error r => rfl
  | ok x =>
    dsimp only
    by_cases hroom : x.maxlen > 2
    · rw [if_pos hroom, if_pos hroom]
      generalize printDecimals x _ places = printed
      cases printed with
      | error r => rfl
      | ok y => rfl
    · rw [if_neg hroom, if_neg hroom]

theorem wmFastPrintF64_at (mem : Memory) (result maxlen : Nat) {value : ℚ} {places : Nat}
    (h : |value| < 2 ^ 63) (hplaces : 0 < places) (hfits : places ≤ 18) :
    wmFastPrintF64 mem result maxlen value places =
      some (printNumberAt (startPrint mem result maxlen value) (integralOf value)
        (decimalAt value places) places maxlen) :=
  wmFastPrintF64In_at id mem result maxlen h hplaces hfits (scaled_nonneg value places)
    (scaled_lt value places).le

theorem wmFastPrintF64In_eq_none (round : ℚ → ℚ) (mem : Memory) (result maxlen places : Nat)
    {value : ℚ} (h : 2 ^ 63 ≤ |value|) :
    wmFastPrintF64In round mem result maxlen value places = none := by
  unfold wmFastPrintF64In
  simp only [castI64_eq_none h, Option.bind_eq_bind, bind_none]

section Room

variable {mem : Memory} {start n q : Nat}

theorem printRest_whole (x : Printing) (h : x.maxlen ≤ 2 ∨ q = 0) (maxlen : Nat) :
    printRest x q maxlen = finishPrint x maxlen := by
  unfold printRest
  by_cases hroom : x.maxlen > 2
  · have hq : q = 0 := by omega
    have hdecimals : printDecimals x q 4 = .ok x := by rw [printDecimals, if_neg (by omega)]
    rw [if_pos hroom, hdecimals]
  · rw [if_neg hroom]

theorem length_stripped_decimals (hq : q ≤ 10000) : (stripped (padded 4 q)).length ≤ 5 := by
  obtain ⟨-, hfour, hfive⟩ := length_decimals hq
  have hle := length_stripped_le (padded 4 q)
  by_cases h : q = 10000
  · rwa [hfive h] at hle
  · rw [hfour (by omega)] at hle; omega

theorem printRest_pointer (x : Printing) (hq : q ≤ 10000) (hlarge : x.maxlen ≤ 2 ∨ 7 ≤ x.maxlen)
    (hmax : x.maxlen < 2 ^ 64) (htmp : x.tmpResult + 6 < 2 ^ 64)
    (hroom : (x.tmpResult + x.maxlen) % 2 ^ 64 = (start + actual) % 2 ^ 64) :
    x.tmpResult ≤ sizeAdd start (printRest x q actual).2 := by
  by_cases hwhole : x.maxlen ≤ 2 ∨ q = 0
  · rw [printRest_whole x hwhole, finishPrint_pointer hroom (by omega)]
  obtain ⟨mem, tmp, maxlen⟩ := x
  dsimp only at hlarge hmax htmp hroom hwhole ⊢
  obtain ⟨mem', hdecimals, -, -⟩ :=
    printDecimals_fits mem tmp maxlen (q := q) (by omega) hq (by omega) (by omega) hmax htmp
  have hlen := length_stripped_decimals hq
  have hrest : printRest ⟨mem, tmp, maxlen⟩ q actual =
      finishPrint ⟨mem', tmp + 1 + (stripped (padded 4 q)).length,
        maxlen - 1 - (stripped (padded 4 q)).length⟩ actual := by
    rw [printRest, if_pos (by dsimp only; omega), hdecimals]
  rw [hrest, finishPrint_pointer (by dsimp only; omega) (by dsimp only; omega)]
  dsimp only
  omega

theorem startPrint_spec (mem : Memory) {result maxlen : Nat} {value : ℚ} (hroom : 1 ≤ maxlen)
    (hmax : maxlen < 2 ^ 64) (htmp : result + 1 < 2 ^ 64) :
    ∃ mem', startPrint mem result maxlen value =
        ⟨mem', result + (if value < 0 then ['-'] else []).length,
          maxlen - (if value < 0 then ['-'] else []).length⟩ ∧
      Reads mem' result (if value < 0 then ['-'] else []) ∧ ∀ i, i < result → mem' i = mem i := by
  unfold startPrint
  by_cases hneg : value < 0
  · rw [if_pos hneg, if_pos hneg]
    refine ⟨(mem.put result ['\x00']).put result ['-'], ?_, reads_put _ _ _, fun i hi => ?_⟩
    · exact shift_nat (k := 1) htmp hroom hmax
    · rw [put_of_lt hi, put_of_lt hi]
  · rw [if_neg hneg, if_neg hneg]
    refine ⟨mem.put result ['\x00'], rfl, fun i c hi => ?_, fun i hi => put_of_lt hi⟩
    cases hi

end Room

end Common
