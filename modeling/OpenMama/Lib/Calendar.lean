import Mathlib.Data.List.Basic

/-!
# The Gregorian calendar

Days are counted from the first of January 1970.  `daysTo` counts the days before a
month of a year by the rule of leap years, and `civil` finds the date of a day by
walking through the years and then the months (`locate`).  The two agree
(`civil_spec`).
-/

namespace Lib

def isLeap (y : Int) : Bool := decide (y % 4 = 0) && (decide (y % 100 ≠ 0) || decide (y % 400 = 0))

def yearLength (y : Int) : Nat := if isLeap y then 366 else 365

def monthLength (leap : Bool) : Nat → Nat
  | 0 => 31
  | 1 => if leap then 29 else 28
  | 2 => 31
  | 3 => 30
  | 4 => 31
  | 5 => 30
  | 6 => 31
  | 7 => 31
  | 8 => 30
  | 9 => 31
  | 10 => 30
  | _ => 31

def monthStart (leap : Bool) : Nat → Nat
  | 0 => 0
  | m + 1 => monthStart leap m + monthLength leap m

/-- The days from the first of January 1970 to the first of January of a year. -/
def yearStart (y : Int) : Int :=
  365 * (y - 1970) + ((y - 1) / 4 - (y - 1) / 100 + (y - 1) / 400 - 477)

/-- The days from the first of January 1970 to the first of a month. -/
def daysTo (y : Int) (m : Nat) : Int := yearStart y + monthStart (isLeap y) m

/-- Walks through spans of the given lengths, from span `i` on, to the one that day `d` is in: the
span and the day in it. -/
def locate (length : Nat → Nat) : Nat → Nat → Nat → Nat × Nat
  | 0, i, d => (i, d)
  | turns + 1, i, d => if d < length i then (i, d) else locate length turns (i + 1) (d - length i)

/-- The year, the month and the day of a day since 1970, month and day from zero. -/
def civil (days : Nat) : Nat × Nat × Nat :=
  let (y, d) := locate (fun y => yearLength y) days 1970 days
  let (m, d) := locate (monthLength (isLeap y)) 11 0 d
  (y, m, d)

/-! ## Walking -/

section

variable (length : Nat → Nat)

theorem locate_count (start : Nat → Int)
    (hstart : ∀ i, start (i + 1) = start i + length i) (turns : Nat) : ∀ i d,
    start (locate length turns i d).1 + (locate length turns i d).2 = start i + d := by
  induction turns with
  | zero => exact fun _ _ => rfl
  | succ turns ih =>
    intro i d
    unfold locate
    split
    · rfl
    · next h => rw [ih, hstart]; omega

theorem locate_lt (turns : Nat) : ∀ i d,
    (locate length turns i d).2 < length (locate length turns i d).1 ∨
      (locate length turns i d).1 = i + turns := by
  induction turns with
  | zero => exact fun _ _ => .inr rfl
  | succ turns ih =>
    intro i d
    unfold locate
    split
    · exact .inl ‹_›
    · refine (ih (i + 1) (d - length i)).imp_right fun h => ?_
      omega

theorem le_locate (turns : Nat) : ∀ i d, i ≤ (locate length turns i d).1 := by
  induction turns with
  | zero => exact fun _ _ => Nat.le_refl _
  | succ turns ih =>
    intro i d
    unfold locate
    split
    · exact Nat.le_refl _
    · exact Nat.le_trans (Nat.le_succ i) (ih _ _)

theorem locate_le (turns : Nat) : ∀ i d, (locate length turns i d).1 ≤ i + turns := by
  induction turns with
  | zero => exact fun _ _ => Nat.le_refl _
  | succ turns ih =>
    intro i d
    unfold locate
    split
    · omega
    · have := ih (i + 1) (d - length i)
      omega

end

/-! ## Years and months -/

theorem yearStart_succ (y : Int) : yearStart (y + 1) = yearStart y + yearLength y := by
  have hleap : isLeap y ↔ y % 4 = 0 ∧ (y % 100 ≠ 0 ∨ y % 400 = 0) := by
    unfold isLeap; simp
  unfold yearStart yearLength
  split
  · next h =>
    have := hleap.mp h
    omega
  · next h =>
    have hnot : ¬ (y % 4 = 0 ∧ (y % 100 ≠ 0 ∨ y % 400 = 0)) := fun h' => h (hleap.mpr h')
    omega

theorem yearStart_1970 : yearStart 1970 = 0 := by decide

theorem monthStart_twelve (y : Int) : monthStart (isLeap y) 12 = yearLength y := by
  unfold yearLength
  cases isLeap y <;> rfl

theorem monthLength_le (leap : Bool) (m : Nat) : monthLength leap m ≤ 31 := by
  unfold monthLength
  split <;> first | split <;> decide | decide

variable {d m : Nat} {y : Int}

theorem monthStart_add_le (y : Int) (hm : m < 12) :
    monthStart (isLeap y) m + monthLength (isLeap y) m ≤ yearLength y := by
  have hall : ∀ leap, ∀ m < 12, monthStart leap m + monthLength leap m ≤ monthStart leap 12 := by
    decide
  rw [← monthStart_twelve]
  exact hall (isLeap y) m hm

theorem yearStart_add (y : Int) (n : Nat) : yearStart y + 365 * n ≤ yearStart (y + n) := by
  induction n with
  | zero => simp
  | succ n ih =>
    have hstep := yearStart_succ (y + n)
    have hlength : 365 ≤ yearLength (y + n) := by
      unfold yearLength
      split <;> omega
    rw [show y + ((n + 1 : Nat) : Int) = y + n + 1 by omega]
    omega

theorem le_of_daysTo_nonneg (hm : m < 12) (hd : d < monthLength (isLeap y) m)
    (h : 0 ≤ daysTo y m + d) : 1970 ≤ y := by
  by_contra hbefore
  have hmonth := monthStart_add_le y hm
  have hstep := yearStart_succ y
  have hadd := yearStart_add (y + 1) (1969 - y).toNat
  rw [show y + 1 + ((1969 - y).toNat : Int) = 1970 by omega, yearStart_1970] at hadd
  unfold daysTo at h
  omega

theorem year_le_of_daysTo (m d : Nat) (hfirst : 1970 ≤ y) : 365 * (y - 1970) ≤ daysTo y m + d := by
  have hadd := yearStart_add 1970 (y - 1970).toNat
  rw [show (1970 : Int) + ((y - 1970).toNat : Int) = y by omega, yearStart_1970] at hadd
  unfold daysTo
  omega

theorem locate_year (days : Nat) {y : Nat}
    (h : locate (fun y => yearLength y) days 1970 days = (y, d)) :
    yearStart y + d = days ∧ d < yearLength y ∧ 1970 ≤ y ∧ 365 * (y - 1970) ≤ days := by
  have hcount := locate_count (fun y => yearLength y) (fun y => yearStart y)
    (fun y => yearStart_succ y) days 1970 days
  have hlt := locate_lt (fun y => yearLength y) days 1970 days
  have hle := le_locate (fun y => yearLength y) days 1970 days
  rw [h] at hcount hlt hle
  dsimp only at hcount hlt hle
  have hstart : yearStart ((1970 : Nat) : Int) = 0 := yearStart_1970
  have hfar := yearStart_add 1970 (y - 1970)
  rw [show (1970 : Int) + ((y - 1970 : Nat) : Int) = y by omega, yearStart_1970] at hfar
  refine ⟨by omega, ?_, hle, by omega⟩
  rcases hlt with hlt | hend
  · exact hlt
  · -- more years than days have not gone by, so it is the first day of all
    have hlength : 365 ≤ yearLength y := by
      unfold yearLength
      split <;> omega
    omega

theorem locate_month {leap : Bool} {r : Nat} (hd : d < monthStart leap 12)
    (h : locate (monthLength leap) 11 0 d = (m, r)) :
    (monthStart leap m : Int) + r = d ∧ m < 12 ∧ r < 31 := by
  have hcount := locate_count (monthLength leap) (fun m => (monthStart leap m : Int))
    (fun m => Int.natCast_add _ _) 11 0 d
  have hlt := locate_lt (monthLength leap) 11 0 d
  have hle := locate_le (monthLength leap) 11 0 d
  rw [h] at hcount hlt hle
  dsimp only at hcount hlt hle
  have hzero : (monthStart leap 0 : Int) = 0 := rfl
  refine ⟨by omega, by omega, ?_⟩
  rcases hlt with hlt | rfl
  · exact Nat.lt_of_lt_of_le hlt (monthLength_le leap m)
  · have htwelve : monthStart leap 12 = monthStart leap (0 + 11) + 31 := rfl
    omega

/-- **The date of a day**: the day is counted to that date, and the year is near. -/
theorem civil_spec (days : Nat) : daysTo (civil days).1 (civil days).2.1 + (civil days).2.2 = days ∧
    (civil days).2.1 < 12 ∧ (civil days).2.2 < 31 ∧ 1970 ≤ (civil days).1 ∧
    365 * ((civil days).1 - 1970) ≤ days := by
  unfold civil
  cases hyear : locate (fun y => yearLength y) days 1970 days with
  | mk y d =>
    obtain ⟨hcount, hd, hfirst, hnear⟩ := locate_year days hyear
    rw [← monthStart_twelve] at hd
    dsimp only
    cases hmonth : locate (monthLength (isLeap y)) 11 0 d with
    | mk m r =>
      obtain ⟨hcount', hm, hr⟩ := locate_month hd hmonth
      refine ⟨?_, hm, hr, hfirst, hnear⟩
      unfold daysTo
      dsimp only
      omega

end Lib
