import OpenMama.Common.StrUtils

/-!
# What is printed of an integer

`wmFastPrintU64` writes one block of characters at the start of the buffer, whatever the
number and the room are (`Written`).  Up to eight digits, or without a width, the block is
the text or the part of it that fits.  A longer number with a width gets the zeros of the
whole width before its digits, and room for its digits is taken anew behind them.
`wmFastPrintI64` prints behind the sign as if the whole room were still there.

`prints_iff` says when the buffer is kept and the text is right.
-/

namespace Common

open Lib List

/-! ## What is promised -/

/-- What a caller gets of a count: an `int`, none where it overflows. -/
def returned (r : Memory × Int) : Option Int := if r.2 < 2 ^ 31 then some r.2 else none

/-- Nothing outside the room is written.  Unless -1 is returned, the text is in the buffer with its
terminator if it fits, and its length is returned. -/
structure Prints (text : List Char) (fits : Prop) (mem : Memory) (result maxLen : Nat)
    (r : Memory × Int) : Prop where
  bounds : ∀ i, i < result ∨ result + maxLen ≤ i → r.1 i = mem i
  text : returned r = some (-1) ∨
    (fits → Reads r.1 result (text ++ ['\x00']) ∧ returned r = some (text.length : Int))

def Refuses (fits : Prop) (r : Memory × Int) : Prop := ¬ fits → returned r = some (-1)

/-- There is room for the width, the digits and the terminator. -/
def FitsU64 (maxLen value minWidth : Nat) : Prop := max minWidth (width value) < maxLen

def textI64 (value : Int) (minWidth : Nat) : List Char :=
  (if value < 0 then ['-'] else []) ++ padded minWidth value.natAbs

/-- There is room for the width, the digits with the sign, and the terminator. -/
def FitsI64 (maxLen : Nat) (value : Int) (minWidth : Nat) : Prop :=
  max minWidth (width value.natAbs + if value < 0 then 1 else 0) < maxLen

/-- `wmFastPrintU64` keeps its promise. -/
def KeepsU64 (value maxLen minWidth : Nat) : Prop :=
  ∀ mem result, Prints (padded minWidth value) (FitsU64 maxLen value minWidth) mem result maxLen
    (wmFastPrintU64 mem result maxLen value minWidth)

/-- `wmFastPrintI64` keeps its promise. -/
def KeepsI64 (value : Int) (maxLen minWidth : Nat) : Prop :=
  ∀ mem result, Prints (textI64 value minWidth) (FitsI64 maxLen value minWidth) mem result maxLen
    (wmFastPrintI64 mem result maxLen value minWidth)

/-- No width is asked for, or the number has at most eight digits. -/
def Narrow (value minWidth : Nat) : Prop := minWidth = 0 ∨ value < 100000000

instance (value minWidth : Nat) : Decidable (Narrow value minWidth) :=
  inferInstanceAs (Decidable (_ ∨ _))

def RightU64 (value maxLen minWidth : Nat) : Prop :=
  maxLen ≤ minWidth ∨ Narrow value minWidth ∧ minWidth < 2 ^ 31

/-- Behind a sign there must be room for one character more. -/
def RightI64 (value : Int) (maxLen minWidth : Nat) : Prop :=
  if value < 0 then
    maxLen ≤ 1 ∨ maxLen ≤ minWidth ∨
      Narrow value.natAbs minWidth ∧ minWidth + 1 < 2 ^ 31 ∧
        max minWidth (width value.natAbs) + 2 ≤ maxLen
  else RightU64 value.natAbs maxLen minWidth

/-! ## The block that is written -/

section Written

variable {mem : Memory} {result maxLen value minWidth : Nat}

theorem length_padded_eq (minWidth value : Nat) :
    (padded minWidth value).length = max minWidth (width value) := by
  rw [padded, width, length_leftpad]

theorem wmFastPrintU64_cut (mem : Memory) (result : Nat) (hroom : 2 ≤ maxLen)
    (hminWidth : minWidth < maxLen) (hlong : maxLen ≤ width value) (hsmall : value < 100000000) :
    wmFastPrintU64 mem result maxLen value minWidth =
      (mem.put result ((Nat.toDigits 10 value).take (maxLen - 1) ++ ['\x00']),
        (width value : Int)) := by
  have h₇ : width value ≤ 7 ↔ value < 10000000 := width_le_iff (by decide)
  have h₈ : width value ≤ 8 ↔ value < 100000000 := width_le_iff (by decide)
  rw [wmFastPrintU64_last mem result hroom hminWidth (.inl hlong)]
  by_cases hseven : value < 10000000
  · rw [if_pos hseven]
    rw [if_neg (by omega)]
    rfl
  · rw [if_neg hseven, if_pos hsmall]
    rw [if_neg (by omega)]
    rfl

/-- A number of nine digits or more comes behind as many zeros as it should be wide, and is cut at
the room that there was before them. -/
theorem wmFastPrintU64_large (mem : Memory) (result : Nat) (hroom : 2 ≤ maxLen)
    (hminWidth : minWidth < maxLen) (hlarge : 100000000 ≤ value) :
    wmFastPrintU64 mem result maxLen value minWidth =
      (mem.put result (List.replicate minWidth '0' ++
        ((Nat.toDigits 10 value).take (maxLen - 1) ++ ['\x00'])),
        ((minWidth + width value : Nat) : Int)) := by
  have hput := put_put mem result (List.replicate minWidth '0')
  rw [length_replicate] at hput
  have hsize : (if value < 10000000 then 7 else if value < 100000000 then 8 else 0) = 0 := by
    rw [if_neg (by omega), if_neg (by omega)]
  rw [wmFastPrintU64_last mem result hroom hminWidth (.inr (by omega))]
  dsimp only
  rw [hsize, if_pos (by omega), Nat.sub_zero, snprintfU64, hput]
  rfl

theorem wmFastPrintU64_refused (mem : Memory) (result : Nat) (h : maxLen ≤ minWidth) :
    wmFastPrintU64 mem result maxLen value minWidth = (mem, -1) := by
  exact if_pos (.inr h)

theorem wmFastPrintU64_one (mem : Memory) (result : Nat) :
    wmFastPrintU64 mem result 1 value 0 = (mem.put result ['\x00'], 0) := rfl

/-! ## Blocks and rooms -/

theorem put_bounds_iff {room : Nat} {cs : List Char} :
    (∀ (mem : Memory) result i, i < result ∨ result + room ≤ i → mem.put result cs i = mem i) ↔
      cs.length ≤ room := by
  constructor
  · intro h
    by_contra hlong
    have hroom : room < cs.length := by omega
    obtain ⟨c, hc⟩ : ∃ c : Char, c ≠ cs[room] := by
      by_cases hzero : cs[room] = '0'
      · exact ⟨'1', by rw [hzero]; decide⟩
      · exact ⟨'0', fun heq => hzero heq.symm⟩
    have hkept := h (fun _ => c) 0 room (.inr (by omega))
    have hwritten := reads_put (fun _ => c) 0 cs room cs[room] (getElem?_eq_getElem hroom)
    rw [Nat.zero_add, hkept] at hwritten
    exact hc hwritten
  · rintro hle mem result i (hi | hi)
    · exact put_of_lt hi
    · exact put_of_ge (by omega)

theorem returned_eq_some_iff {n k : Nat} :
    returned (mem, (n : Int)) = some (k : Int) ↔ n = k ∧ n < 2 ^ 31 := by
  unfold returned
  by_cases h : (n : Int) < 2 ^ 31
  · rw [if_pos h, Option.some.injEq]; omega
  · rw [if_neg h]
    constructor
    · intro hnone; cases hnone
    · rintro ⟨-, hlt⟩; omega

theorem returned_ne_refused (mem : Memory) (n : Nat) : returned (mem, (n : Int)) ≠ some (-1) := by
  unfold returned
  split
  · intro h
    have := Option.some.inj h
    omega
  · nofun

/-- A block whose length is its text's only if it is the text keeps the promise just if it has the
room, and if that length is returned for a text that fits. -/
theorem prints_put_iff {cs text : List Char} {n : Nat} {fits : Prop}
    (hright : fits → n = text.length → cs = text ++ ['\x00']) :
    (∀ (mem : Memory) result, Prints text fits mem result maxLen (mem.put result cs, (n : Int))) ↔
      cs.length ≤ maxLen ∧ (fits → n = text.length ∧ n < 2 ^ 31) := by
  constructor
  · intro h
    refine ⟨put_bounds_iff.mp fun mem result => (h mem result).bounds, fun hfits => ?_⟩
    have htext := (h (fun _ => '0') 0).text.resolve_left (returned_ne_refused _ n) hfits
    exact returned_eq_some_iff.mp htext.2
  · rintro ⟨hroom, hlength⟩ mem result
    refine ⟨put_bounds_iff.mpr hroom mem result, .inr fun hfits => ?_⟩
    have hn := hlength hfits
    refine ⟨?_, returned_eq_some_iff.mpr hn⟩
    rw [← hright hfits hn.1]
    exact reads_put mem result cs

theorem prints_refused (text : List Char) (fits : Prop) (mem : Memory) (result maxLen : Nat) :
    Prints text fits mem result maxLen (mem, -1) :=
  ⟨fun _ _ => rfl, .inl rfl⟩

end Written

/-! ## Unsigned numbers -/

section Unsigned

variable {maxLen value minWidth : Nat}

/-- The block of a call that does not refuse, with the count. -/
def blockU64 (maxLen value minWidth : Nat) : List Char × Nat :=
  if maxLen = 1 then (['\x00'], 0)
  else if Narrow value minWidth then
    if width value < maxLen then
      (padded minWidth value ++ ['\x00'], (padded minWidth value).length)
    else ((Nat.toDigits 10 value).take (maxLen - 1) ++ ['\x00'], width value)
  else
    (List.replicate minWidth '0' ++ ((Nat.toDigits 10 value).take (maxLen - 1) ++ ['\x00']),
      minWidth + width value)

theorem wmFastPrintU64_eq (mem : Memory) (result : Nat) (h : minWidth < maxLen) :
    wmFastPrintU64 mem result maxLen value minWidth =
      (mem.put result (blockU64 maxLen value minWidth).1,
        ((blockU64 maxLen value minWidth).2 : Int)) := by
  unfold blockU64
  by_cases hone : maxLen = 1
  · obtain rfl : minWidth = 0 := by omega
    subst hone
    exact wmFastPrintU64_one mem result
  rw [if_neg hone]
  by_cases hnarrow : Narrow value minWidth
  · rw [if_pos hnarrow]
    by_cases hfits : width value < maxLen
    · rw [if_pos hfits]; exact wmFastPrintU64_fits mem result (by omega) h hfits hnarrow
    · rw [if_neg hfits]
      by_cases hsmall : value < 100000000
      · exact wmFastPrintU64_cut mem result (by omega) h (by omega) hsmall
      · obtain rfl : minWidth = 0 := hnarrow.resolve_right hsmall
        have hlarge := @wmFastPrintU64_large _ value _ mem result (by omega) h (by omega)
        rwa [Nat.zero_add] at hlarge
  · rw [if_neg hnarrow]
    unfold Narrow at hnarrow
    exact wmFastPrintU64_large mem result (by omega) h (by omega)

section

variable (h : minWidth < maxLen)

include h

theorem length_blockU64 :
    (blockU64 maxLen value minWidth).1.length =
      if Narrow value minWidth then min (max minWidth (width value) + 1) maxLen
      else minWidth + min (maxLen - 1) (width value) + 1 := by
  unfold blockU64
  by_cases hone : maxLen = 1
  · have hnarrow : Narrow value minWidth := .inl (by omega)
    rw [if_pos hone, if_pos hnarrow, length_singleton]
    omega
  rw [if_neg hone]
  by_cases hnarrow : Narrow value minWidth
  · rw [if_pos hnarrow, if_pos hnarrow]
    by_cases hfits : width value < maxLen
    · rw [if_pos hfits, length_append, length_padded_eq, length_singleton]; omega
    · rw [if_neg hfits, length_append, length_take]
      show min (maxLen - 1) (width value) + 1 = _
      omega
  · rw [if_neg hnarrow, if_neg hnarrow, length_append, length_replicate, length_append, length_take]
    rfl

theorem count_blockU64 (hroom : 2 ≤ maxLen) :
    (blockU64 maxLen value minWidth).2 =
      if Narrow value minWidth then max minWidth (width value) else minWidth + width value := by
  rw [blockU64, if_neg (by omega)]
  by_cases hnarrow : Narrow value minWidth
  · rw [if_pos hnarrow, if_pos hnarrow]
    by_cases hfits : width value < maxLen
    · rw [if_pos hfits, length_padded_eq]
    · rw [if_neg hfits]; omega
  · rw [if_neg hnarrow, if_neg hnarrow]

theorem blockU64_text (hfits : width value < maxLen)
    (hcount : (blockU64 maxLen value minWidth).2 = max minWidth (width value)) :
    (blockU64 maxLen value minWidth).1 = padded minWidth value ++ ['\x00'] := by
  have hpos := width_pos value
  rw [count_blockU64 h (by omega)] at hcount
  have hnarrow : Narrow value minWidth := by
    by_contra hnot
    rw [if_neg hnot] at hcount
    unfold Narrow at hnot
    omega
  rw [blockU64, if_neg (by omega), if_pos hnarrow, if_pos hfits]

end

theorem keepsU64_iff (hvalue : value < 2 ^ 64) :
    KeepsU64 value maxLen minWidth ↔ RightU64 value maxLen minWidth := by
  unfold KeepsU64 RightU64
  by_cases hrefused : maxLen ≤ minWidth
  · refine iff_of_true (fun mem result => ?_) (.inl hrefused)
    rw [wmFastPrintU64_refused mem result hrefused]
    exact prints_refused _ _ mem result maxLen
  have h : minWidth < maxLen := by omega
  have hpos := width_pos value
  have hwidth : width value ≤ 20 := (width_le_iff (by decide)).mpr (by omega)
  simp only [wmFastPrintU64_eq _ _ h]
  rw [prints_put_iff]
  · rw [FitsU64, length_blockU64 h, length_padded_eq]
    by_cases hone : maxLen = 1
    · have hnarrow : Narrow value minWidth := .inl (by omega)
      rw [if_pos hnarrow]
      simp only [hnarrow, true_and]
      omega
    rw [count_blockU64 h (by omega)]
    by_cases hnarrow : Narrow value minWidth
    · rw [if_pos hnarrow, if_pos hnarrow]
      simp only [hnarrow, true_and]
      omega
    · rw [if_neg hnarrow, if_neg hnarrow]
      simp only [hnarrow, false_and, or_false]
      unfold Narrow at hnarrow
      omega
  · intro hfits hcount
    rw [length_padded_eq] at hcount
    unfold FitsU64 at hfits
    exact blockU64_text h (by omega) hcount

theorem refusesU64_iff : (∀ mem result, Refuses (FitsU64 maxLen value minWidth)
      (wmFastPrintU64 mem result maxLen value minWidth)) ↔
    maxLen ≤ minWidth ∨ width value < maxLen := by
  unfold Refuses FitsU64
  by_cases hrefused : maxLen ≤ minWidth
  · refine iff_of_true (fun mem result _ => ?_) (.inl hrefused)
    rw [wmFastPrintU64_refused mem result hrefused]
    rfl
  have h : minWidth < maxLen := by omega
  simp only [wmFastPrintU64_eq _ _ h]
  constructor
  · intro hall
    by_contra hnot
    exact returned_ne_refused _ _ (hall (fun _ => '0') 0 (by omega))
  · intro hfits mem result hnot; exact absurd (by omega) hnot

end Unsigned

/-! ## Signed numbers -/

section Signed

variable {maxLen minWidth : Nat} {value : Int}

theorem keepsI64_of_nonneg (h : ¬ value < 0) :
    KeepsI64 value maxLen minWidth ↔ KeepsU64 value.natAbs maxLen minWidth := by
  unfold KeepsI64 KeepsU64 wmFastPrintI64 textI64 FitsI64 FitsU64
  simp [if_neg h]

theorem wmFastPrintI64_neg (mem : Memory) (result : Nat) (hneg : value < 0) (hroom : 2 ≤ maxLen)
    (h : minWidth < maxLen) :
    wmFastPrintI64 mem result maxLen value minWidth =
      (mem.put result ('-' :: (blockU64 maxLen value.natAbs minWidth).1),
        (((blockU64 maxLen value.natAbs minWidth).2 + 1 : Nat) : Int)) := by
  have hput : ∀ cs, (mem.put result ['-']).put (result + 1) cs = mem.put result ('-' :: cs) :=
    put_put mem result ['-']
  rw [wmFastPrintI64, if_pos hneg, if_pos (by omega)]
  rw [wmFastPrintU64_eq _ _ h]
  rw [hput, Nat.cast_add, Nat.cast_one]

/-- A width that does not fit is not refused behind a sign: the sign is written, and zero is
returned. -/
theorem wmFastPrintI64_zero (mem : Memory) (result : Nat) (hneg : value < 0) (hroom : 2 ≤ maxLen)
    (h : maxLen ≤ minWidth) :
    wmFastPrintI64 mem result maxLen value minWidth =
      (mem.put result ['-'], ((0 : Nat) : Int)) := by
  rw [wmFastPrintI64, if_pos hneg, if_pos (by omega)]
  rw [wmFastPrintU64_refused _ _ h]
  rfl

theorem wmFastPrintI64_refused (mem : Memory) (result : Nat) (hneg : value < 0) (h : maxLen ≤ 1) :
    wmFastPrintI64 mem result maxLen value minWidth = (mem, -1) := by
  rw [wmFastPrintI64, if_pos hneg, if_neg (by omega)]

theorem keepsI64_iff (hvalue : value.natAbs < 2 ^ 64) :
    KeepsI64 value maxLen minWidth ↔ RightI64 value maxLen minWidth := by
  unfold RightI64
  by_cases hneg : value < 0
  · rw [if_pos hneg]
    unfold KeepsI64
    by_cases hrefused : maxLen ≤ 1
    · refine iff_of_true (fun mem result => ?_) (.inl hrefused)
      rw [wmFastPrintI64_refused mem result hneg hrefused]
      exact prints_refused _ _ mem result maxLen
    by_cases hwide : maxLen ≤ minWidth
    · have hnot : ¬ FitsI64 maxLen value minWidth := by
        unfold FitsI64; omega
      refine iff_of_true ?_ (.inr (.inl hwide))
      simp only [wmFastPrintI64_zero _ _ hneg (by omega : 2 ≤ maxLen) hwide]
      refine (prints_put_iff fun hfits => absurd hfits hnot).mpr ⟨?_,
        fun hfits => absurd hfits hnot⟩
      rw [length_singleton]
      omega
    have h : minWidth < maxLen := by omega
    have hpos := width_pos value.natAbs
    have hwidth : width value.natAbs ≤ 20 := (width_le_iff (by decide)).mpr (by omega)
    have hlength : (textI64 value minWidth).length = max minWidth (width value.natAbs) + 1 := by
      rw [textI64, if_pos hneg, length_append, length_padded_eq, length_singleton]; omega
    simp only [wmFastPrintI64_neg _ _ hneg (by omega : 2 ≤ maxLen) h]
    rw [prints_put_iff]
    · rw [FitsI64, if_pos hneg, length_cons, length_blockU64 h, count_blockU64 h (by omega)]
      by_cases hnarrow : Narrow value.natAbs minWidth
      · rw [if_pos hnarrow, if_pos hnarrow]
        simp only [hnarrow, true_and]
        omega
      · rw [if_neg hnarrow, if_neg hnarrow]
        simp only [hnarrow, false_and, or_false]
        unfold Narrow at hnarrow
        omega
    · intro hfits hcount
      unfold FitsI64 at hfits
      rw [blockU64_text h (by omega) (by omega)]
      rw [textI64, if_pos hneg]
      rfl
  · rw [if_neg hneg, keepsI64_of_nonneg hneg]; exact keepsU64_iff hvalue

/-- A negative number is refused where it does not fit just if there is no room for a sign. -/
theorem refusesI64_iff : (∀ mem result, Refuses (FitsI64 maxLen value minWidth)
      (wmFastPrintI64 mem result maxLen value minWidth)) ↔
    if value < 0 then maxLen ≤ 1 ∨ FitsI64 maxLen value minWidth
    else maxLen ≤ minWidth ∨ width value.natAbs < maxLen := by
  by_cases hneg : value < 0
  · rw [if_pos hneg]
    by_cases hrefused : maxLen ≤ 1
    · refine iff_of_true (fun mem result _ => ?_) (.inl hrefused)
      rw [wmFastPrintI64_refused mem result hneg hrefused]
      rfl
    have hcount : ∀ (mem : Memory) result, ∃ mem' n,
        wmFastPrintI64 mem result maxLen value minWidth = (mem', ((n : Nat) : Int)) := by
      intro mem result
      by_cases hwide : maxLen ≤ minWidth
      · exact ⟨_, _, wmFastPrintI64_zero mem result hneg (by omega) hwide⟩
      · exact ⟨_, _, wmFastPrintI64_neg mem result hneg (by omega) (by omega)⟩
    constructor
    · intro hall
      refine .inr ?_
      by_contra hnot
      obtain ⟨mem', n, hprinted⟩ := hcount (fun _ => '0') 0
      have hrefuses := hall (fun _ => '0') 0 hnot
      rw [hprinted] at hrefuses
      exact returned_ne_refused mem' n hrefuses
    · rintro (h | hfits) mem result hnot
      · exact absurd h hrefused
      · exact absurd hfits hnot
  · rw [← refusesU64_iff]
    unfold FitsI64 FitsU64 wmFastPrintI64
    simp [if_neg hneg]

end Signed

/-! ## Both functions -/

/-- **When an integer is printed as it should be**, and when one that does not fit is refused,
too. -/
theorem prints_iff (value : UInt64) (signed : Int64) (maxLen minWidth : Nat) :
    (KeepsU64 value.toNat maxLen minWidth ↔ RightU64 value.toNat maxLen minWidth) ∧
      (KeepsI64 signed.toInt maxLen minWidth ↔ RightI64 signed.toInt maxLen minWidth) ∧
      ((∀ mem result, Refuses (FitsU64 maxLen value.toNat minWidth)
        (wmFastPrintU64 mem result maxLen value.toNat minWidth)) ↔
          maxLen ≤ minWidth ∨ width value.toNat < maxLen) ∧
      ((∀ mem result, Refuses (FitsI64 maxLen signed.toInt minWidth)
        (wmFastPrintI64 mem result maxLen signed.toInt minWidth)) ↔
          if signed.toInt < 0 then maxLen ≤ 1 ∨ FitsI64 maxLen signed.toInt minWidth
          else maxLen ≤ minWidth ∨ width signed.toInt.natAbs < maxLen) := by
  have hlow := signed.le_toInt
  have hhigh := signed.toInt_lt
  exact ⟨keepsU64_iff value.toNat_lt, keepsI64_iff (by omega), refusesU64_iff, refusesI64_iff⟩

/-- A number of nine digits with a width of five in a room of ten: fourteen characters and the
terminator are written. -/
theorem not_prints : ¬ ∀ (value : UInt64) (signed : Int64) maxLen minWidth,
    KeepsU64 value.toNat maxLen minWidth ∧ KeepsI64 signed.toInt maxLen minWidth := by
  intro hall
  have hbounds := ((hall 123456789 0 10 5).1 (fun _ => '0') 0).bounds 10 (.inr (Nat.le_refl _))
  cases hbounds

end Common
