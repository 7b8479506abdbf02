import Mathlib.Data.List.TakeWhile
import Mathlib.Tactic.FieldSimp
import Mathlib.Tactic.Linarith
import Mathlib.Tactic.Ring
import OpenMama.Lib.Decimal

/-!
# Decimal numbers with a point

The number that a text with a sign, digits and maybe a point stands for, and what the zeros at
the end of a fraction are worth.
-/

namespace Lib

open List

def fraction (ds : List Char) : ℚ := Nat.ofDigitChars 10 ds 0 / 10 ^ ds.length

def parseUnsigned (s : List Char) : Option ℚ :=
  let whole := s.takeWhile Char.isDigit
  if whole = [] then none
  else
    match s.dropWhile Char.isDigit with
    | [] => some (Nat.ofDigitChars 10 whole 0)
    | c :: ds =>
      if c = '.' ∧ ds ≠ [] ∧ ds.all Char.isDigit then
        some (Nat.ofDigitChars 10 whole 0 + fraction ds)
      else none

def parseDecimal (s : List Char) : Option ℚ :=
  if s.head? = some '-' then (parseUnsigned s.tail).map Neg.neg else parseUnsigned s

theorem fraction_concat_zero (ds : List Char) : fraction (ds ++ ['0']) = fraction ds := by
  have hdigits : Nat.ofDigitChars 10 (ds ++ ['0']) 0 = 10 * Nat.ofDigitChars 10 ds 0 := by
    rw [Nat.ofDigitChars_append]; rfl
  rw [fraction, hdigits, length_append, length_singleton, pow_succ, mul_comm ((10 : ℚ) ^ _)]
  push_cast
  exact mul_div_mul_left _ _ (by norm_num)

section Parse

variable {whole ds : List Char}

theorem parseUnsigned_digits (hne : whole ≠ []) (hwhole : ∀ c ∈ whole, c.isDigit) :
    parseUnsigned whole = some (Nat.ofDigitChars 10 whole 0 : ℚ) := by
  have htake : whole.takeWhile Char.isDigit = whole := List.takeWhile_eq_self_iff.2 hwhole
  have hdrop : whole.dropWhile Char.isDigit = [] := List.dropWhile_eq_nil_iff.2 hwhole
  rw [parseUnsigned, htake, hdrop, if_neg hne]

theorem parseUnsigned_point (hne : whole ≠ []) (hwhole : ∀ c ∈ whole, c.isDigit)
    (hds : ds ≠ []) (hdigits : ∀ c ∈ ds, c.isDigit) :
    parseUnsigned (whole ++ '.' :: ds) =
      some ((Nat.ofDigitChars 10 whole 0 : ℚ) + fraction ds) := by
  have htake : (whole ++ '.' :: ds).takeWhile Char.isDigit = whole := by
    rw [takeWhile_append_of_pos hwhole, takeWhile_cons_of_neg (by decide), append_nil]
  have hdrop : (whole ++ '.' :: ds).dropWhile Char.isDigit = '.' :: ds := by
    rw [dropWhile_append_of_pos hwhole, dropWhile_cons_of_neg (by decide)]
  have hall : ds.all Char.isDigit := List.all_eq_true.2 hdigits
  rw [parseUnsigned, htake, hdrop, if_neg hne]
  exact if_pos ⟨rfl, hds, hall⟩

theorem parseDecimal_sign {s : List Char} {x : ℚ} (neg : Prop) [Decidable neg]
    (hs : parseUnsigned s = some x) :
    parseDecimal ((if neg then ['-'] else []) ++ s) = some (if neg then -x else x) := by
  by_cases hneg : neg
  · rw [if_pos hneg, if_pos hneg]
    show (parseUnsigned s).map Neg.neg = _
    rw [hs]
    rfl
  rw [if_neg hneg, if_neg hneg, nil_append]
  have hhead : s.head? ≠ some '-' := by
    intro hminus
    obtain ⟨rest, rfl⟩ : ∃ rest, s = '-' :: rest := by
      cases s with
      | nil => cases hminus
      | cons c rest => exact ⟨rest, by rw [Option.some.inj hminus]⟩
    have hnone : parseUnsigned ('-' :: rest) = none := by rfl
    exact absurd (hs.symm.trans hnone) (by simp)
  rw [parseDecimal, if_neg hhead, hs]

end Parse

end Lib
