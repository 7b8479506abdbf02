import Mathlib.Algebra.Order.Ring.Int

/-!
# Fields of a packed word

A word of `k` bits holds several fields, each a run of bits.  Reading a field takes
its bits (`get`); writing it clears them and ors the value in, shifted to its place
(`put`).  Nothing cuts the value to the width of the field:

* the field itself reads back as the value modulo its size (`get_put_self`),
* fields below do not change (`get_put_below`),
* a field above is or-ed with what is left of the value there (`get_put_above`), so that
  it stays just if these bits are already in it.
-/

namespace Lib

/-- A run of `width` bits of a word, from bit `shift` on. -/
structure Field (k : Nat) where
  shift : Nat
  width : Nat
  fits : shift + width ≤ k

namespace Field

variable {k : Nat} (f g : Field k) (w v : BitVec k) (n : Nat)

def mask : BitVec k := BitVec.ofNat k (2 ^ f.width - 1) <<< f.shift

def get : Nat := w.toNat / 2 ^ f.shift % 2 ^ f.width

/-- The word with a value or-ed into the cleared field. -/
def put : BitVec k := (w &&& ~~~f.mask) ||| (BitVec.ofNat k n <<< f.shift)

/-! ## Bits -/

theorem testBit_get (i : Nat) :
    (f.get w).testBit i = (decide (i < f.width) && w.getLsbD (f.shift + i)) := by
  rw [get, Nat.testBit_mod_two_pow, Nat.testBit_div_two_pow, BitVec.testBit_toNat, Nat.add_comm]

theorem getLsbD_mask {i : Nat} (hi : i < k) :
    f.mask.getLsbD i = (decide (f.shift ≤ i) && decide (i < f.shift + f.width)) := by
  rw [mask, BitVec.getLsbD_shiftLeft, BitVec.getLsbD_ofNat]
  by_cases hlow : i < f.shift
  · have hnot : ¬ f.shift ≤ i := by omega
    simp [hnot]
  · have hle : f.shift ≤ i := by omega
    have hlt : i - f.shift < k := by omega
    have hwidth : i - f.shift < f.width ↔ i < f.shift + f.width := by omega
    simp [hi, hle, hlt, hwidth]

/-- The bits of a word that was written to: those below the field stay, those of the field are the
value's, those above are the value's and the word's. -/
theorem getLsbD_put {i : Nat} (hi : i < k) :
    (f.put w n).getLsbD i =
      if i < f.shift then w.getLsbD i
      else if i < f.shift + f.width then n.testBit (i - f.shift)
      else (w.getLsbD i || n.testBit (i - f.shift)) := by
  rw [put, BitVec.getLsbD_or, BitVec.getLsbD_and, BitVec.getLsbD_not, getLsbD_mask f hi,
    BitVec.getLsbD_shiftLeft, BitVec.getLsbD_ofNat]
  by_cases hlow : i < f.shift
  · have hnot : ¬ f.shift ≤ i := by omega
    simp [hi, hlow]
  · have hle : f.shift ≤ i := by omega
    have hlt : i - f.shift < k := by omega
    by_cases hin : i < f.shift + f.width
    · simp [hi, hlow, hlt, hin]
    · simp [hi, hlow, hlt, hin]

/-! ## Reading what was written -/

theorem get_lt : f.get w < 2 ^ f.width := Nat.mod_lt _ (Nat.two_pow_pos _)

theorem get_put_self : f.get (f.put w n) = n % 2 ^ f.width := by
  apply Nat.eq_of_testBit_eq
  intro i
  rw [testBit_get, Nat.testBit_mod_two_pow]
  have hfits := f.fits
  by_cases hi : i < f.width
  · have hlow : ¬ f.shift + i < f.shift := by omega
    have hin : f.shift + i < f.shift + f.width := by omega
    rw [getLsbD_put f w n (by omega), if_neg hlow, if_pos hin, Nat.add_sub_cancel_left]
  · simp [hi]

variable {f g} in
theorem get_put_below (h : g.shift + g.width ≤ f.shift) : g.get (f.put w n) = g.get w := by
  apply Nat.eq_of_testBit_eq
  intro i
  rw [testBit_get, testBit_get]
  have hfits := g.fits
  by_cases hi : i < g.width
  · have hlow : g.shift + i < f.shift := by omega
    rw [getLsbD_put f w n (by omega), if_pos hlow]
  · simp [hi]

variable {f g} in
theorem get_put_above (h : f.shift + f.width ≤ g.shift) :
    g.get (f.put w n) = g.get w ||| n / 2 ^ (g.shift - f.shift) % 2 ^ g.width := by
  apply Nat.eq_of_testBit_eq
  intro i
  rw [Nat.testBit_or, Nat.testBit_mod_two_pow, Nat.testBit_div_two_pow, testBit_get, testBit_get]
  have hfits := g.fits
  by_cases hi : i < g.width
  · have hlow : ¬ g.shift + i < f.shift := by omega
    have hin : ¬ g.shift + i < f.shift + f.width := by omega
    have hbit : g.shift + i - f.shift = i + (g.shift - f.shift) := by omega
    rw [getLsbD_put f w n (by omega), if_neg hlow, if_neg hin, hbit]
    simp [hi]
  · simp [hi]

theorem get_or : f.get (w ||| v) = f.get w ||| f.get v := by
  apply Nat.eq_of_testBit_eq
  intro i
  rw [Nat.testBit_or, testBit_get, testBit_get, testBit_get, BitVec.getLsbD_or,
    Bool.and_or_distrib_left]

theorem get_and : f.get (w &&& v) = f.get w &&& f.get v := by
  apply Nat.eq_of_testBit_eq
  intro i
  rw [Nat.testBit_and, testBit_get, testBit_get, testBit_get]
  cases decide (i < f.width) <;> simp

end Field

end Lib
