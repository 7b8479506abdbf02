import OpenMama.Common.StrUtils
import OpenMama.Lib.Doubles
import OpenMama.Mamda.OrderBookTypes

/-!
# The key of an entry

Where ids are not unique, `processEntry` looks an entry up in the manager by a
key it makes of the id, the price and the side: the three follow one another in
a buffer of 64 bytes, with nothing between them.  The price has four decimals and
comes last but one, so it is the price that suffers where the id is long.

`uniqueId_spec` says what the key is, for every length of the id, and
`keysApart_iff` which two keys are apart.
-/

namespace Mamda

open Mama Lib Common List

/-! ## Algorithm -/

/-- `(char)level->getSide ()`. -/
def Side.code : Side → Char
  | .bid => 'B'
  | .ask => 'A'
  | .unknown => 'Z'

/-- The part of `processEntry` that makes `uniqueId`: the buffer, of which only the first 64 bytes
are its own, and `uniqueIdPtr`, the place of the first of the two bytes written last.  None where
the price has no 64-bit integral value. -/
def uniqueId (mem : Memory) (id : List Char) (price : Price) (side : Side) :
    Option (Memory × Nat) := do
  let (mem, uniqueIdPtr, lenAvail) := wmFastCopyAndShiftStr mem 0 63 id
  let (mem, uniqueIdPtr, _) ← wmFastPrintAndShiftF64 roundF64 mem uniqueIdPtr lenAvail price 4
  let mem := mem.put uniqueIdPtr [side.code]
  let mem := mem.put (uniqueIdPtr + 1) ['\x00']
  pure (mem, uniqueIdPtr)

/-! ## Specification -/

/-- An id that is not empty, a price, which is what some double holds, and a side. -/
structure EntryKey where
  id : List Char
  price : Price
  side : Side
  nonempty : id ≠ []
  noNull : '\x00' ∉ id

namespace EntryKey

def key (t : EntryKey) (mem : Memory) : Option (List Char) :=
  (uniqueId mem t.id t.price t.side).map fun r => cString r.1 0 64

/-- The two bytes behind the price are written, and inside the buffer. -/
def InBounds (t : EntryKey) (mem : Memory) : Prop :=
  ∃ r, uniqueId mem t.id t.price t.side = some r ∧ r.2 + 1 < 64

/-- Both keys are in bounds, and equal only for one and the same entry. -/
structure KeysApart (t t' : EntryKey) (mem mem' : Memory) : Prop where
  left : t.InBounds mem
  right : t'.InBounds mem'
  apart : t.key mem = t'.key mem' →
    t.id = t'.id ∧ t.price = t'.price ∧ t.side = t'.side

def sign (t : EntryKey) : List Char := if t.price < 0 then ['-'] else []

def digits (t : EntryKey) : List Char := Nat.toDigits 10 (integralOf t.price)

/-- The four decimals as the code computes them, in doubles. -/
def decimalValue (t : EntryKey) : Nat := decimalIn roundF64 t.price 4

def decimals (t : EntryKey) : List Char :=
  if t.decimalValue = 0 then [] else '.' :: stripped (padded 4 (t.decimalValue))

def signed (t : EntryKey) : Nat := t.id.length + t.sign.length

/-- The length of the id with the integral part of the price. -/
def used (t : EntryKey) : Nat := t.signed + t.digits.length

/-- There is room for the side: either only the sign of the price fits, or the whole of its integral
part does, and not just that with decimals that are rounded up to one. -/
def HasRoom (t : EntryKey) : Prop :=
  |t.price| < 2 ^ 63 ∧
    (t.signed = 62 ∨ t.used ≤ 62 ∧ ¬ (t.used = 57 ∧ t.decimalValue = 10000))

/-- Whether decimals that are wanted find room for the point only, or not even that: the price then
takes the last character of the id with it. -/
def LosesPrice (t : EntryKey) : Prop :=
  t.decimalValue ≠ 0 ∧ 58 ≤ t.used ∧ t.used ≤ 60

instance (t : EntryKey) : Decidable t.LosesPrice := by
  unfold LosesPrice
  infer_instance

def keptId (t : EntryKey) : List Char := if t.LosesPrice then t.id.dropLast else t.id

def keptPrice (t : EntryKey) : List Char :=
  if t.LosesPrice then []
  else if t.signed = 62 then t.sign
  else if t.used ≤ 57 then t.sign ++ t.digits ++ t.decimals
  else t.sign ++ t.digits

/-! ## What is printed -/

section Printed

variable {t : EntryKey} {mem : Memory}

theorem length_sign_le (t : EntryKey) : t.sign.length ≤ 1 := by
  unfold sign
  split <;> simp

theorem roundF64_scaled (t : EntryKey) :
    0 ≤ roundF64 (scaled t.price 4) ∧ roundF64 (scaled t.price 4) ≤ 10 ^ 4 := by
  have h₀ := scaled_nonneg t.price 4
  have hlt := scaled_lt t.price 4
  refine ⟨roundF64_nonneg h₀, ?_⟩
  exact_mod_cast roundF64_le (n := 10 ^ 4) h₀ (by exact_mod_cast hlt.le)
    (hlt.trans (by norm_num))

theorem decimalValue_le (t : EntryKey) : t.decimalValue ≤ 10000 := by
  obtain ⟨h₀, hle⟩ := t.roundF64_scaled
  have hnine : 0 ≤ roundF64 (9 / 10) := roundF64_nonneg (by norm_num)
  have hfloor : ⌊roundF64 (scaled t.price 4)⌋ ≤ 10000 := by
    refine Int.floor_le_iff.mpr ?_
    push_cast
    linarith
  unfold decimalValue decimalIn
  dsimp only
  split
  · next hup =>
    -- 10000 is a double and leaves nothing to round up
    have hne : ⌊roundF64 (scaled t.price 4)⌋ ≠ 10000 := by
      intro heq
      rw [heq] at hup
      push_cast at hup
      linarith
    omega
  · omega

theorem wmFastPrintF64In_eq (t : EntryKey) (h : |t.price| < 2 ^ 63) (mem : Memory)
    (result maxlen : Nat) : wmFastPrintF64In roundF64 mem result maxlen t.price 4 =
      some (printNumber (startPrint mem result maxlen t.price) (integralOf t.price)
        t.decimalValue maxlen) :=
  wmFastPrintF64In_at roundF64 mem result maxlen h (by decide) (by decide) t.roundF64_scaled.1
    t.roundF64_scaled.2

theorem length_digits_pos (t : EntryKey) : 0 < t.digits.length := Nat.length_toDigits_pos

theorem length_digits_le (h : |t.price| < 2 ^ 63) : t.digits.length ≤ 19 := by
  have hlt : ⌊|t.price|⌋ < 2 ^ 63 := Int.floor_lt.mpr (by exact_mod_cast h)
  have hle : integralOf t.price < 10 ^ 19 := by
    unfold integralOf; omega
  exact (Nat.length_toDigits_le_iff (by decide) (by decide)).mpr hle

theorem length_decimals_le (t : EntryKey) (h : t.decimalValue < 10000) :
    t.decimals.length ≤ 5 := by
  have hle := length_stripped_le (padded 4 (t.decimalValue))
  rw [length_padded (by decide) (by exact h)] at hle
  unfold decimals
  split
  · exact Nat.zero_le _
  · rw [length_cons]; omega

variable {actual : Nat} {cs : List Char} {x : Printing}

theorem finishPrint_reads (hroom : x.tmpResult + x.maxlen = 63) (h : Reads x.mem 0 cs)
    (hle : cs.length ≤ 62) : Reads (finishPrint x actual).1 0 cs := by
  refine h.put_apart (.inl ?_)
  rw [hroom]
  show 0 + cs.length ≤ 62
  omega

theorem startPrint_key (hmem : Reads mem 0 t.id) (hid : t.id.length ≤ 62) :
    ∃ mem', startPrint mem t.id.length (63 - t.id.length) t.price =
        ⟨mem', t.signed, 63 - t.signed⟩ ∧ Reads mem' 0 (t.id ++ t.sign) := by
  obtain ⟨mem', hstart, hreads, hframe⟩ := @startPrint_spec mem t.id.length (63 - t.id.length)
    t.price (by omega) (by omega) (by omega)
  refine ⟨mem', ?_, reads_append.mpr ⟨fun i c hi => ?_, ?_⟩⟩
  · rw [hstart, Nat.sub_sub]; rfl
  · have hlt := (List.getElem?_eq_some_iff.mp hi).1
    rw [hframe _ (by omega)]
    exact hmem i c hi
  · rwa [Nat.zero_add]

theorem printIntegral_key (h : Reads mem 0 (t.id ++ t.sign)) (hroom : t.used ≤ 62) :
    ∃ mem', printIntegral ⟨mem, t.signed, 63 - t.signed⟩ (integralOf t.price) =
        .ok ⟨mem', t.used, 63 - t.used⟩ ∧ Reads mem' 0 (t.id ++ (t.sign ++ t.digits)) := by
  have hpos := t.length_digits_pos
  unfold used at hroom ⊢
  have hprint : printIntegral ⟨mem, t.signed, 63 - t.signed⟩ (integralOf t.price) = _ :=
    printIntegral_fits (by omega) (by unfold digits at hroom hpos; omega) (by omega)
      (by unfold digits at hroom; omega)
  refine ⟨_, by rw [hprint, Nat.sub_sub]; rfl, ?_⟩
  rw [← append_assoc]
  refine reads_append.mpr ⟨h.put_apart (.inl ?_), ?_⟩
  · rw [length_append]
    unfold signed
    omega
  · rw [length_append, Nat.zero_add]; exact (reads_append.mp (reads_put mem t.signed _)).1

/-- What `wmFastPrintF64` leaves in the buffer, and where the pointer then is. -/
def Printed (t : EntryKey) (r : Memory × Int) : Prop :=
  sizeAdd t.id.length r.2 = (t.keptId ++ t.keptPrice).length ∧
    Reads r.1 0 (t.keptId ++ t.keptPrice)

theorem printed_finish (hid : t.id.length ≤ 62) (hkept : t.keptId ++ t.keptPrice = cs)
    (hx : x.tmpResult = cs.length) (hroom : x.tmpResult + x.maxlen = 63) (hle : cs.length ≤ 62)
    (h : Reads x.mem 0 cs) : t.Printed (finishPrint x (63 - t.id.length)) := by
  rw [Printed, hkept]
  refine ⟨?_, finishPrint_reads hroom h hle⟩
  rw [finishPrint_pointer (by omega) (by omega), hx]

theorem kept_sign (h : t.signed = 62) : t.keptId ++ t.keptPrice = t.id ++ t.sign := by
  have hloses : ¬ t.LosesPrice := by
    rintro ⟨-, -, hle⟩
    unfold used at hle
    omega
  rw [keptId, keptPrice, if_neg hloses, if_neg hloses, if_pos h]

theorem kept_whole (h : t.used ≤ 62) (hwhole : t.decimalValue = 0 ∨ 61 ≤ t.used) :
    t.keptId ++ t.keptPrice = t.id ++ (t.sign ++ t.digits) := by
  have hpos := t.length_digits_pos
  have hsigned : t.signed ≠ 62 := by
    unfold used at h; omega
  have hloses : ¬ t.LosesPrice := by
    rintro ⟨hq, -, hle⟩; omega
  rw [keptId, keptPrice, if_neg hloses, if_neg hloses, if_neg hsigned]
  by_cases hle : t.used ≤ 57
  · rw [if_pos hle]
    rw [decimals, if_pos (by omega), append_nil]
  · rw [if_neg hle]

theorem kept_decimals (h : t.used ≤ 57) :
    t.keptId ++ t.keptPrice = t.id ++ (t.sign ++ t.digits ++ t.decimals) := by
  have hsigned : t.signed ≠ 62 := by
    unfold used at h; omega
  have hloses : ¬ t.LosesPrice := by
    rintro ⟨-, hge, -⟩; omega
  rw [keptId, keptPrice, if_neg hloses, if_neg hloses, if_neg hsigned, if_pos h]

theorem kept_loses (h : t.LosesPrice) : t.keptId ++ t.keptPrice = t.id.dropLast := by
  rw [keptId, keptPrice, if_pos h, if_pos h, append_nil]

theorem printed_of_hasRoom (hmem : Reads mem 0 t.id) (h : t.HasRoom) :
    ∃ r, wmFastPrintF64In roundF64 mem t.id.length (63 - t.id.length) t.price 4 = some r ∧
      t.Printed r ∧
      (t.keptId ++ t.keptPrice).length ≤ 62 := by
  obtain ⟨hprice, hroom⟩ := h
  have hid : t.id.length ≤ 62 := by
    unfold used signed at hroom; omega
  obtain ⟨mem₁, hstart, hreads₁⟩ := startPrint_key hmem hid
  refine ⟨_, t.wmFastPrintF64In_eq hprice _ _ _, ?_⟩
  rw [hstart]
  by_cases hsigned : t.signed = 62
  · -- only the sign fits
    have hlen : (t.id ++ t.sign).length = 62 := by rwa [length_append]
    have hintegral : printIntegral ⟨mem₁, t.signed, 63 - t.signed⟩ (integralOf t.price) =
        .ok ⟨mem₁, t.signed, 63 - t.signed⟩ := by
      rw [printIntegral, if_neg (by dsimp only; omega)]
    rw [printNumber_of_ok hintegral, printRest_whole _ (by dsimp only; omega), kept_sign hsigned,
      hlen]
    exact ⟨printed_finish hid (kept_sign hsigned) (by dsimp only; omega) (by dsimp only; omega)
      (by omega) hreads₁, Nat.le_refl _⟩
  have hused : t.used ≤ 62 := by omega
  obtain ⟨mem₂, hintegral, hreads₂⟩ := printIntegral_key hreads₁ hused
  have hlen : (t.id ++ (t.sign ++ t.digits)).length = t.used := by
    rw [length_append, length_append]
    unfold used signed
    omega
  rw [printNumber_of_ok hintegral]
  by_cases hwhole : t.decimalValue = 0 ∨ 61 ≤ t.used
  · -- no decimals are printed
    rw [printRest_whole _ (by dsimp only; omega), kept_whole hused hwhole, hlen]
    exact ⟨printed_finish hid (kept_whole hused hwhole) (by dsimp only; omega)
      (by dsimp only; omega) (by omega) hreads₂, hused⟩
  by_cases hshort : 58 ≤ t.used
  · -- the point is printed, and the function returns early
    have hloses : t.LosesPrice := ⟨by omega, hshort, by omega⟩
    have hdecimals : printDecimals ⟨mem₂, t.used, 63 - t.used⟩ (t.decimalValue) 4 = _ :=
      printDecimals_short (by omega) (by omega) (by omega) (by omega)
    rw [printRest, if_pos (by dsimp only; omega), hdecimals]
    unfold Printed
    dsimp only
    rw [kept_loses hloses, length_dropLast]
    have hne : 0 < t.id.length := List.length_pos_iff.mpr t.nonempty
    refine ⟨⟨?_, ?_⟩, by omega⟩
    · unfold sizeAdd; omega
    have hprefix : Reads mem₂ 0 t.id.dropLast := by
      have hid₂ := (reads_append.mp hreads₂).1
      rw [← dropLast_append_getLast t.nonempty] at hid₂
      exact (reads_append.mp hid₂).1
    refine hprefix.put_apart (.inl ?_)
    rw [length_dropLast]
    unfold used signed
    omega
  -- the whole of the price is printed
  have hq := t.decimalValue_le
  obtain ⟨mem₃, hprint, hreads₃, hframe⟩ := printDecimals_fits mem₂ t.used (63 - t.used)
    (by omega) hq (by omega) (by omega) (by omega) (by omega)
  have hfive := length_stripped_decimals hq
  have hdecimals : t.decimals = '.' :: stripped (padded 4 (t.decimalValue)) :=
    if_neg (by omega)
  have hfit : t.used + 1 + (stripped (padded 4 (t.decimalValue))).length ≤ 62 := by
    by_cases hq' : t.decimalValue < 10000
    · have := t.length_decimals_le hq'
      rw [hdecimals, length_cons] at this
      omega
    · omega
  have hlen' : (t.id ++ (t.sign ++ t.digits ++ t.decimals)).length =
      t.used + 1 + (stripped (padded 4 (t.decimalValue))).length := by
    rw [← append_assoc, length_append, hdecimals, length_cons]
    omega
  have hreads : Reads mem₃ 0 (t.id ++ (t.sign ++ t.digits ++ t.decimals)) := by
    rw [← append_assoc]
    refine reads_append.mpr ⟨fun i c hi => ?_, ?_⟩
    · have hlt := (List.getElem?_eq_some_iff.mp hi).1
      rw [hframe _ (by omega)]
      exact hreads₂ i c hi
    · rwa [hlen, Nat.zero_add, hdecimals]
  rw [printRest, if_pos (by dsimp only; omega), hprint]
  rw [kept_decimals (by omega), hlen']
  exact ⟨printed_finish hid (kept_decimals (by omega)) (by dsimp only; omega)
    (by dsimp only; omega) (by omega) hreads, hfit⟩

theorem pointer_outside {start : Nat} (hprice : |t.price| < 2 ^ 63)
    (hroom : (x.tmpResult + x.maxlen) % 2 ^ 64 = (start + actual) % 2 ^ 64)
    (htmp : x.tmpResult < 2 ^ 32) (hmax : x.maxlen < 2 ^ 64)
    (hlarge : x.maxlen ≤ 1 ∧ 63 ≤ x.tmpResult ∨
      2 ≤ x.maxlen ∧ x.maxlen ≤ t.digits.length ∧ 63 ≤ x.tmpResult + t.digits.length ∨
      2 ^ 32 ≤ x.maxlen ∧ 63 ≤ x.tmpResult) :
    63 ≤ sizeAdd start
      (printNumber x (integralOf t.price) (t.decimalValue) actual).2 := by
  have hdigits := length_digits_le hprice
  have hq := t.decimalValue_le
  obtain ⟨mem, tmp, maxlen⟩ := x
  dsimp only at hroom htmp hmax hlarge
  unfold digits at hdigits hlarge
  rcases hlarge with ⟨hnone, hge⟩ | ⟨htwo, hlong, hge⟩ | ⟨hhuge, hge⟩
  · have hintegral : printIntegral ⟨mem, tmp, maxlen⟩ (integralOf t.price) =
        .ok ⟨mem, tmp, maxlen⟩ := by
      rw [printIntegral, if_neg (by dsimp only; omega)]
    rw [printNumber_of_ok hintegral]
    refine hge.trans (printRest_pointer ⟨mem, tmp, maxlen⟩ hq ?_ hmax ?_ hroom)
    · exact .inl (Nat.le_trans hnone (by decide))
    · show tmp + 6 < 2 ^ 64; omega
  · obtain ⟨mem', hintegral⟩ := @printIntegral_long mem tmp _ _ htwo hlong (by omega)
    rw [printNumber_of_ok hintegral]
    refine hge.trans (printRest_pointer ⟨mem', tmp + _, _⟩ hq ?_ ?_ ?_ ?_)
    all_goals
      unfold sizeAdd
      dsimp only
      omega
  have hintegral : printIntegral ⟨mem, tmp, maxlen⟩ (integralOf t.price) = _ :=
    printIntegral_fits (by omega) (by omega) hmax (by omega)
  rw [printNumber_of_ok hintegral]
  refine Nat.le_trans ?_ (printRest_pointer ⟨_, tmp + _, _⟩ hq ?_ ?_ ?_ ?_)
  all_goals
    dsimp only
    omega

theorem outside_of_noRoom (h : ¬ t.HasRoom) {r : Memory × Nat}
    (hr : uniqueId mem t.id t.price t.side = some r) : 63 ≤ r.2 := by
  have hprice : |t.price| < 2 ^ 63 := by
    by_contra hno
    unfold uniqueId wmFastPrintAndShiftF64 at hr
    simp [wmFastPrintF64In_eq_none _ _ _ _ _ (not_lt.mp hno)] at hr
  have hnot : ¬ (t.signed = 62 ∨ t.used ≤ 62 ∧ ¬ (t.used = 57 ∧ t.decimalValue = 10000)) :=
    fun hroom => h ⟨hprice, hroom⟩
  have hsign := t.length_sign_le
  unfold uniqueId wmFastPrintAndShiftF64 wmFastCopyAndShiftStr at hr
  dsimp only at hr
  rw [t.wmFastPrintF64In_eq hprice] at hr
  cases hr
  dsimp only
  generalize mem.put 0 _ = mem₀
  by_cases hlong : 63 ≤ t.id.length
  · rw [Nat.min_eq_left hlong]
    unfold startPrint
    by_cases hneg : t.price < 0
    · rw [if_pos hneg]
      refine pointer_outside hprice ?_ ?_ ?_ (.inr (.inr ?_))
      all_goals
        unfold Printing.shift sizeAdd
        dsimp only
        omega
    · rw [if_neg hneg]
      exact pointer_outside hprice rfl (show 63 < 2 ^ 32 by decide) (show 0 < 2 ^ 64 by decide)
        (.inl ⟨show 0 ≤ 1 by decide, show 63 ≤ 63 by decide⟩)
  rw [Nat.min_eq_right (by omega), Nat.zero_add]
  obtain ⟨mem₁, hstart, -, -⟩ := @startPrint_spec mem₀ t.id.length (63 - t.id.length) t.price
    (by omega) (by omega) (by omega)
  have hstart' : startPrint mem₀ t.id.length (63 - t.id.length) t.price =
      ⟨mem₁, t.signed, 63 - t.signed⟩ := by
    rw [hstart, Nat.sub_sub]
    rfl
  rw [hstart']
  have hsigned : t.signed ≤ 63 := by
    unfold signed; omega
  by_cases hfull : t.used = 57 ∧ t.decimalValue = 10000
  · -- five digits where there is room for four
    obtain ⟨hused, hq⟩ := hfull
    unfold used digits at hused
    have hintegral : printIntegral ⟨mem₁, t.signed, 63 - t.signed⟩ (integralOf t.price) = _ :=
      printIntegral_fits (by omega) (by omega) (by omega) (by omega)
    rw [hused, show 63 - t.signed - (Nat.toDigits 10 (integralOf t.price)).length = 6 by omega]
      at hintegral
    obtain ⟨mem₂, hdecimals⟩ := @printDecimals_full
      (mem₁.put t.signed (Nat.toDigits 10 (integralOf t.price) ++ ['\x00'])) 57 (by omega)
    rw [printNumber_of_ok hintegral, hq]
    rw [printRest, if_pos (show 6 > 2 by decide), hdecimals]
    rw [finishPrint_pointer (by dsimp only; omega) (by dsimp only; omega)]
  · unfold used at hnot hfull
    refine pointer_outside hprice ?_ ?_ ?_ ?_
    all_goals
      dsimp only
      omega

end Printed

/-! ## The key -/

section Key

variable {t t' : EntryKey} {mem mem' : Memory}

theorem not_null_of_digits {n : Nat} : '\x00' ∉ Nat.toDigits 10 n := by
  intro h
  exact absurd (Nat.isDigit_of_mem_toDigits (by decide) (by decide) h) (by decide)

theorem not_null_kept (t : EntryKey) : '\x00' ∉ t.keptId ++ t.keptPrice := by
  have hid : '\x00' ∉ t.keptId := by
    unfold keptId
    split
    · exact fun h => t.noNull (dropLast_subset _ h)
    · exact t.noNull
  have hsign : '\x00' ∉ t.sign := by
    unfold sign
    split <;> simp
  have hdecimals : '\x00' ∉ t.decimals := by
    unfold decimals
    split
    · simp
    · rw [mem_cons, not_or]
      refine ⟨by decide, fun h => ?_⟩
      have hmem := rdropWhile_prefix _ _ |>.subset h
      cases isDigit_of_mem_padded hmem
  have hdigits : '\x00' ∉ t.digits := not_null_of_digits
  have hprice : '\x00' ∉ t.keptPrice := by
    unfold keptPrice
    split
    · simp
    · split
      · exact hsign
      · split
        · simp [hsign, hdigits, hdecimals]
        · simp [hsign, hdigits]
  rw [mem_append, not_or]
  exact ⟨hid, hprice⟩

theorem code_ne_null (s : Side) : s.code ≠ '\x00' := by cases s <;> decide

theorem code_inj {s s' : Side} : s.code = s'.code ↔ s = s' := by cases s <;> cases s' <;> decide

theorem uniqueId_spec (h : t.HasRoom) (mem : Memory) :
    ∃ r, uniqueId mem t.id t.price t.side = some r ∧ r.2 ≤ 62 ∧
      cString r.1 0 64 = t.keptId ++ t.keptPrice ++ [t.side.code] := by
  have hid : t.id.length ≤ 62 := by
    obtain ⟨-, hroom⟩ := h
    unfold used signed at hroom
    omega
  have hcopy : wmFastCopyAndShiftStr mem 0 63 t.id =
      (mem.put 0 (t.id ++ ['\x00']), t.id.length, 63 - t.id.length) := by
    unfold wmFastCopyAndShiftStr
    dsimp only
    rw [Nat.min_eq_right (by omega), take_length, Nat.zero_add]
  have hreads := (reads_append.mp (reads_put mem 0 (t.id ++ ['\x00']))).1
  obtain ⟨⟨mem₁, bytes⟩, hprint, ⟨hptr, hkept⟩, hle⟩ := printed_of_hasRoom hreads h
  have hlen : (t.keptId ++ t.keptPrice ++ [t.side.code]).length =
      (t.keptId ++ t.keptPrice).length + 1 := length_append
  refine ⟨((mem₁.put (t.keptId ++ t.keptPrice).length [t.side.code]).put
    ((t.keptId ++ t.keptPrice).length + 1) ['\x00'], (t.keptId ++ t.keptPrice).length), ?_, hle, ?_⟩
  · unfold uniqueId wmFastPrintAndShiftF64
    rw [hcopy]
    dsimp only
    rw [hprint]
    simp only [Option.bind_eq_bind, Option.bind_some, Option.pure_def, hptr]
  refine cString_eq ?_ ?_ ?_
  · have hside : Reads (mem₁.put (t.keptId ++ t.keptPrice).length [t.side.code]) 0
        (t.keptId ++ t.keptPrice ++ [t.side.code]) := by
      refine reads_append.mpr ⟨hkept.put_apart (.inl (by omega)), ?_⟩
      rw [Nat.zero_add]
      exact reads_put _ _ _
    refine reads_append.mpr ⟨hside.put_apart (.inl ?_), ?_⟩
    · omega
    · rw [hlen, Nat.zero_add]; exact reads_put _ _ _
  · rw [mem_append, not_or, mem_singleton]
    exact ⟨t.not_null_kept, fun heq => code_ne_null _ heq.symm⟩
  · omega

theorem key_of_hasRoom (h : t.HasRoom) (mem : Memory) :
    t.key mem = some (t.keptId ++ t.keptPrice ++ [t.side.code]) := by
  obtain ⟨r, hr, -, hkey⟩ := uniqueId_spec h mem
  rw [key, hr, ← hkey]
  rfl

theorem inBounds_iff : t.InBounds mem ↔ t.HasRoom := by
  constructor
  · rintro ⟨r, hr, hlt⟩
    by_contra h
    have := outside_of_noRoom h hr
    omega
  · intro h
    obtain ⟨r, hr, hle, -⟩ := uniqueId_spec h mem
    exact ⟨r, hr, by omega⟩

/-- The id of the one is the id of the other and some characters, and the price of the other is
these characters and the price of the one. -/
def RunsInto (t t' : EntryKey) : Prop :=
  ∃ w, t.keptId = t'.keptId ++ w ∧ t'.keptPrice = w ++ t.keptPrice

/-- Two keys are in the buffer and apart just where both have room and, if they are not of one and
the same entry, the sides differ or no id runs into the price of the other. -/
theorem keysApart_iff (t t' : EntryKey) (mem mem' : Memory) :
    KeysApart t t' mem mem' ↔ t.HasRoom ∧ t'.HasRoom ∧
      ((t.id = t'.id ∧ t.price = t'.price ∧ t.side = t'.side) ∨ t.side ≠ t'.side ∨
        ¬ t.RunsInto t' ∧ ¬ t'.RunsInto t) := by
  have hkeys : t.HasRoom → t'.HasRoom → (t.key mem = t'.key mem' ↔
      t.side = t'.side ∧ (t.RunsInto t' ∨ t'.RunsInto t)) := by
    intro h h'
    rw [key_of_hasRoom h, key_of_hasRoom h', Option.some_inj, ← concat_eq_append,
      ← concat_eq_append, concat_inj, code_inj, and_comm, append_eq_append_iff]
    refine and_congr_right fun _ => ⟨?_, ?_⟩
    · rintro (⟨w, hid, hprice⟩ | ⟨w, hid, hprice⟩)
      · exact .inr ⟨w, hid, hprice⟩
      · exact .inl ⟨w, hid, hprice⟩
    · rintro (⟨w, hid, hprice⟩ | ⟨w, hid, hprice⟩)
      · exact .inr ⟨w, hid, hprice⟩
      · exact .inl ⟨w, hid, hprice⟩
  constructor
  · rintro ⟨hleft, hright, hapart⟩
    have h := inBounds_iff.mp hleft
    have h' := inBounds_iff.mp hright
    refine ⟨h, h', ?_⟩
    by_cases hsame : t.key mem = t'.key mem'
    · exact .inl (hapart hsame)
    · rw [hkeys h h', not_and, not_or] at hsame
      by_cases hside : t.side = t'.side
      · exact .inr (.inr (hsame hside))
      · exact .inr (.inl hside)
  rintro ⟨h, h', happart⟩
  refine ⟨inBounds_iff.mpr h, inBounds_iff.mpr h', fun hsame => ?_⟩
  obtain ⟨hside, hruns⟩ := (hkeys h h').mp hsame
  rcases happart with hall | hne | ⟨h₁, h₂⟩
  · exact hall
  · exact absurd hside hne
  · rcases hruns with hr | hr
    · exact absurd hr h₁
    · exact absurd hr h₂

/-- The id A1 at the price 5 and the id A at the price 15 have one key on a side. -/
theorem not_keysApart :
    ¬ KeysApart ⟨['A', '1'], 5, .bid, by decide, by decide⟩
      ⟨['A'], 15, .bid, by decide, by decide⟩
      (fun _ => '\x00') (fun _ => '\x00') := by
  intro h
  exact absurd (h.apart (by decide +kernel)).1 (by decide)

end Key

end EntryKey

end Mamda
