import OpenMama.Mama.DateTimeString

/-!
# Whole seconds added to a time

`mamaDateTime_setToNow` and `mamaDateTime_addWholeSeconds`, and what the
comparison of date-times sees of their results: the time part of the word is its
seconds times `2 ^ 32` with the microseconds below.
-/

namespace Mama

namespace DateTime

/-- `mamaDateTimeImpl_clearSeconds`. -/
def clearSeconds (t : DateTime) : DateTime := ⟨t.word &&& ~~~maskSeconds⟩

/-- `mamaDateTime_setToNow`, given what `gettimeofday` says. -/
def setToNow (tvSec tvUsec : Nat) : DateTime :=
  ((((null.setSeconds tvSec).setMicroSeconds tvUsec).setPrecision 6).setHasDate).setHasTime

/-- `mamaDateTime_addWholeSeconds`: the seconds are added in 32 bits. -/
def addWholeSeconds (t : DateTime) (addSeconds : Int) : DateTime :=
  if addSeconds ≠ 0 then
    let seconds := t.seconds
    ((t.clearSeconds).setSeconds (((seconds + addSeconds) % 2 ^ 32).toNat)).setHasTime
  else t

/-! ## The word as a number -/

theorem getLsbD_maskSeconds (i : Nat) (h : i < 64) : maskSeconds.getLsbD i = decide (32 ≤ i) := by
  revert i
  decide

theorem getLsbD_maskMicroSeconds (i : Nat) (h : i < 64) :
    maskMicroSeconds.getLsbD i = decide (i < 20) := by
  revert i
  decide

theorem maskTimeOnly_eq : maskTimeOnly = maskSeconds ||| maskMicroSeconds := by decide

theorem toNat_and_maskSeconds (w : BitVec 64) :
    (w &&& maskSeconds).toNat = 2 ^ 32 * (w.toNat / 2 ^ 32) := by
  apply Nat.eq_of_testBit_eq
  intro i
  rw [BitVec.testBit_toNat, BitVec.getLsbD_and, Nat.testBit_two_pow_mul, Nat.testBit_div_two_pow,
    BitVec.testBit_toNat]
  by_cases h : i < 64
  · rw [getLsbD_maskSeconds i h]
    by_cases h32 : 32 ≤ i
    · simp [h32]
    · simp [h32]
  · have h32 : 32 ≤ i := by omega
    rw [BitVec.getLsbD_of_ge w i (Nat.not_lt.mp h), Bool.false_and, Nat.sub_add_cancel h32,
      BitVec.getLsbD_of_ge w i (Nat.not_lt.mp h), Bool.and_false]

theorem toNat_and_maskMicroSeconds (w : BitVec 64) :
    (w &&& maskMicroSeconds).toNat = w.toNat % 2 ^ 20 := by
  exact Nat.and_two_pow_sub_one_eq_mod w.toNat 20

section

variable (t : DateTime)

theorem microSeconds_eq : t.microSeconds = t.word.toNat % 2 ^ 20 := by
  rw [microSeconds, getField, BitVec.ushiftRight_zero, toNat_and_maskMicroSeconds]

theorem seconds_eq : t.seconds = t.word.toNat / 2 ^ 32 := by
  rw [seconds, getField, BitVec.toNat_ushiftRight, toNat_and_maskSeconds]
  omega

theorem timeOnly_eq : t.timeOnly = 2 ^ 32 * t.seconds + t.microSeconds := by
  rw [timeOnly, maskTimeOnly_eq, BitVec.and_or_distrib_left, BitVec.toNat_or,
    toNat_and_maskSeconds, seconds_eq, microSeconds_eq, toNat_and_maskMicroSeconds]
  exact (Nat.two_pow_add_eq_or_of_lt (by omega) _).symm

theorem toNat_setSeconds (s : Nat) :
    (t.setSeconds s).word.toNat = 2 ^ 32 * (s % 2 ^ 32) + t.word.toNat % 2 ^ 32 := by
  apply Nat.eq_of_testBit_eq
  intro i
  rw [Nat.testBit_two_pow_mul_add _ (Nat.mod_lt _ (by omega)), Nat.testBit_mod_two_pow,
    Nat.testBit_mod_two_pow, BitVec.testBit_toNat, BitVec.testBit_toNat, setSeconds, setField]
  by_cases h : i < 64
  · simp only [BitVec.getLsbD_or, BitVec.getLsbD_and, BitVec.getLsbD_not, BitVec.getLsbD_shiftLeft,
      BitVec.getLsbD_ofNat, getLsbD_maskSeconds i h, h]
    by_cases h32 : i < 32
    · have h32' : ¬32 ≤ i := by omega
      simp [h32]
    · have h32' : 32 ≤ i := by omega
      have hlow : i - 32 < 32 := by omega
      have hword : i - 32 < 64 := by omega
      simp [h32, hlow, hword]
  · have h32 : ¬i < 32 := by omega
    have h64 : ¬i - 32 < 32 := by omega
    rw [BitVec.getLsbD_of_ge _ _ (by omega), if_neg h32]
    simp [h64]

@[simp] theorem timeOnly_setHasTime : t.setHasTime.timeOnly = t.timeOnly := by
  rw [timeOnly, setHasTime, BitVec.and_comm, BitVec.and_or_distrib_left,
    show maskTimeOnly &&& bitHasTime = 0#64 by decide, BitVec.or_zero, BitVec.and_comm, timeOnly]

@[simp] theorem timeOnly_setHasDate : t.setHasDate.timeOnly = t.timeOnly := by
  rw [timeOnly, setHasDate, BitVec.and_comm, BitVec.and_or_distrib_left,
    show maskTimeOnly &&& bitHasDate = 0#64 by decide, BitVec.or_zero, BitVec.and_comm, timeOnly]

theorem timeOnly_setPrecision {p : Nat} (hp : maskTimeOnly &&& BitVec.ofNat 64 p <<< 28 = 0#64) :
    (t.setPrecision p).timeOnly = t.timeOnly := by
  rw [timeOnly, setPrecision, setField, BitVec.and_comm, BitVec.and_or_distrib_left, hp,
    BitVec.or_zero, BitVec.and_comm, BitVec.and_assoc,
    show ~~~maskPrecision &&& maskTimeOnly = maskTimeOnly by decide, timeOnly]

theorem timeOnly_setSeconds (s : Nat) :
    (t.setSeconds s).timeOnly = 2 ^ 32 * (s % 2 ^ 32) + t.microSeconds := by
  rw [timeOnly_eq, seconds_eq, microSeconds_eq, microSeconds_eq, toNat_setSeconds]
  omega

omit t in
theorem timeOnly_setToNow (tvSec : Nat) {tvUsec : Nat} (h : tvUsec < 2 ^ 20) :
    (setToNow tvSec tvUsec).timeOnly = 2 ^ 32 * (tvSec % 2 ^ 32) + tvUsec := by
  rw [setToNow, timeOnly_setHasTime, timeOnly_setHasDate, timeOnly_setPrecision _ (by decide)]
  have hword : ((null.setSeconds tvSec).setMicroSeconds tvUsec).word.toNat =
      2 ^ 32 * (tvSec % 2 ^ 32) + tvUsec := by
    have hnull : (null.setSeconds tvSec).word.toNat = 2 ^ 32 * (tvSec % 2 ^ 32) := by
      rw [toNat_setSeconds]; rfl
    have hclear : (null.setSeconds tvSec).word &&& ~~~maskMicroSeconds =
        (null.setSeconds tvSec).word := by
      rw [setSeconds, setField, null, BitVec.zero_and, BitVec.zero_or]
      apply BitVec.eq_of_getLsbD_eq
      intro i hi
      rw [BitVec.getLsbD_and, BitVec.getLsbD_not, getLsbD_maskMicroSeconds i hi]
      by_cases h32 : i < 32
      · simp [h32]
      · have h20 : ¬i < 20 := by omega
        simp [h20, hi]
    rw [setMicroSeconds, setField]
    rw [hclear, BitVec.shiftLeft_zero, BitVec.toNat_or, hnull, BitVec.toNat_ofNat,
      Nat.mod_eq_of_lt (show tvUsec < 2 ^ 64 by omega)]
    exact (Nat.two_pow_add_eq_or_of_lt (by omega) _).symm
  rw [timeOnly_eq, seconds_eq, microSeconds_eq]
  omega

theorem timeOnly_addWholeSeconds (addSeconds : Int) :
    (t.addWholeSeconds addSeconds).timeOnly =
      2 ^ 32 * ((t.seconds + addSeconds) % 2 ^ 32).toNat + t.microSeconds := by
  have hlt := t.seconds_lt
  unfold addWholeSeconds
  split
  · have hmicro : t.clearSeconds.microSeconds = t.microSeconds := by
      unfold microSeconds getField clearSeconds
      rw [BitVec.and_assoc, show ~~~maskSeconds &&& maskMicroSeconds = maskMicroSeconds by decide]
    rw [timeOnly_setHasTime, timeOnly_setSeconds]
    omega
  · next h => rw [timeOnly_eq]; omega

end

end DateTime

end Mama
