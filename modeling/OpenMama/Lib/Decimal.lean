import Mathlib.Algebra.Order.Ring.Int

/-!
# Decimal numbers of a fixed width

A number written with leading zeros, as `%0*d` writes it, and read back from the
digits at the head of a text.
-/

namespace Lib

open List

/-- A number in decimal, with zeros before it up to the width. -/
def padded (width n : Nat) : List Char := (Nat.toDigits 10 n).leftpad width '0'

/-- The number that the digits at the head of a text make. -/
def leadingNat (s : List Char) : Nat := Nat.ofDigitChars 10 (s.takeWhile Char.isDigit) 0

variable {n : Nat} {rest : List Char}

theorem isDigit_of_mem_padded {width : Nat} {c : Char} (h : c ∈ padded width n) : c.isDigit := by
  rcases List.mem_append.mp h with h | h
  · rw [(List.mem_replicate.mp h).2]; rfl
  · exact Nat.isDigit_of_mem_toDigits (by decide) (by decide) h

theorem length_padded_le {width k : Nat} (hk : 0 < k) (hwidth : width ≤ k) (h : n < 10 ^ k) :
    (padded width n).length ≤ k := by
  have hfits := (Nat.length_toDigits_le_iff (by decide) hk).mpr h
  rw [padded, length_leftpad]
  omega

theorem length_padded {width : Nat} (hwidth : 0 < width) (h : n < 10 ^ width) :
    (padded width n).length = width := by
  have hle := length_padded_le hwidth (Nat.le_refl width) h
  unfold padded at hle ⊢
  rw [length_leftpad] at hle ⊢
  omega

theorem ofDigitChars_padded (width n : Nat) : Nat.ofDigitChars 10 (padded width n) 0 = n := by
  rw [padded, List.leftpad, Nat.ofDigitChars_append, Nat.ofDigitChars_replicate_zero, Nat.mul_zero,
    Nat.ofDigitChars_ten_toDigits]

theorem ofDigitChars_lt {s : List Char} (h : ∀ c ∈ s, c.isDigit) :
    Nat.ofDigitChars 10 s 0 < 10 ^ s.length := by
  induction s with
  | nil => simp
  | cons c s ih =>
    have hrest := ih fun d hd => h d (mem_cons_of_mem c hd)
    have hdigit : c.toNat - '0'.toNat < 10 := by
      have hnine := (Bool.and_eq_true_iff.mp (h c mem_cons_self)).2
      have hle : c.toNat ≤ '9'.toNat := of_decide_eq_true hnine
      have h9 : '9'.toNat = 57 := rfl
      have h0 : '0'.toNat = 48 := rfl
      omega
    have hmul : 10 ^ s.length * (c.toNat - '0'.toNat) ≤ 10 ^ s.length * 9 :=
      Nat.mul_le_mul_left _ (by omega)
    rw [Nat.ofDigitChars_cons, Nat.ofDigitChars_eq_ofDigitChars_zero, length_cons, Nat.zero_add]
    omega

theorem padded_one (h : n < 10) : padded 1 n = [Nat.digitChar n] := by
  rw [padded, Nat.toDigits_of_lt_base h]
  rfl

theorem padded_succ {width : Nat} (hwidth : 0 < width) (n : Nat) :
    padded (width + 1) n = padded width (n / 10) ++ [Nat.digitChar (n % 10)] := by
  unfold padded List.leftpad
  by_cases hn : n < 10
  · rw [Nat.toDigits_of_lt_base hn, Nat.div_eq_of_lt hn, Nat.mod_eq_of_lt hn, length_singleton]
    obtain ⟨k, rfl⟩ : ∃ k, width = k + 1 := ⟨width - 1, by omega⟩
    rw [Nat.add_sub_cancel, replicate_succ']
    rfl
  · have hlast := Nat.toDigits_append_toDigits (b := 10) (n := n / 10) (d := n % 10) (by decide)
      (by omega) (by omega)
    rw [Nat.toDigits_of_lt_base (n := n % 10) (by omega), Nat.div_add_mod] at hlast
    rw [← hlast, length_append, length_singleton, Nat.add_sub_add_right, append_assoc]

theorem padded_cons {width : Nat} (hwidth : 0 < width) (h : n < 10 ^ (width + 1)) :
    padded (width + 1) n = Nat.digitChar (n / 10 ^ width) :: padded width (n % 10 ^ width) := by
  induction hwidth generalizing n with
  | refl => rw [padded_succ (by decide), padded_one (by omega), padded_one (by omega)]; rfl
  | step hwidth ih =>
    next width =>
    have hdiv : n / 10 < 10 ^ (width + 1) := by omega
    rw [padded_succ (by omega), ih hdiv, padded_succ hwidth, Nat.div_div_eq_div_mul,
      Nat.pow_succ', Nat.mod_mul_right_div_self, Nat.mod_mod_of_dvd n (Nat.dvd_mul_right 10 _)]
    rfl

theorem take_padded {width : Nat} (hwidth : 0 < width) (rest : Nat) (h : n < 10 ^ (width + rest)) :
    (padded (width + rest) n).take width = padded width (n / 10 ^ rest) := by
  induction rest generalizing n with
  | zero =>
    rw [Nat.add_zero, Nat.pow_zero, Nat.div_one,
      take_of_length_le (Nat.le_of_eq (length_padded hwidth h))]
  | succ rest ih =>
    have hdiv : n / 10 < 10 ^ (width + rest) := by
      rw [← Nat.add_assoc] at h; omega
    have hlength : width ≤ (padded (width + rest) (n / 10)).length := by
      rw [length_padded (by omega) hdiv]; exact Nat.le_add_right width rest
    rw [← Nat.add_assoc, padded_succ (by omega), take_append_of_le_length hlength, ih hdiv,
      Nat.div_div_eq_div_mul, Nat.pow_succ']

theorem takeWhile_padded (width n : Nat) (hrest : ∀ c ∈ rest.head?, c.isDigit = false) :
    (padded width n ++ rest).takeWhile Char.isDigit = padded width n := by
  rw [takeWhile_append_of_pos fun c hc => isDigit_of_mem_padded hc]
  cases rest with
  | nil => exact append_nil _
  | cons c rest => rw [takeWhile_cons, hrest c rfl]; exact append_nil _

/-- **A padded number is read back.** -/
theorem leadingNat_padded (width n : Nat) (hrest : ∀ c ∈ rest.head?, c.isDigit = false) :
    leadingNat (padded width n ++ rest) = n := by
  rw [leadingNat, takeWhile_padded width n hrest, ofDigitChars_padded]

end Lib
