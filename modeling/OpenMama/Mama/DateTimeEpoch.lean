import OpenMama.Mama.DateTimeFields

/-!
# Epoch times

The setters and getters that count microseconds or milliseconds since the epoch,
`mamaDateTime_addMicroseconds` and `mamaDateTime_diffMicroseconds`.  Seconds are added
in 32 bits, so epoch microseconds are counted modulo `span`.

`addMicroseconds` divides towards zero and corrects negative sums by one second; where
the sum is a multiple of a million from minus two million down, nothing is left to
correct and the time comes out a second early (`Slips`).
-/

namespace Mama

namespace DateTime

/-! ## Setters and getters -/

/-- `mamaDateTime_setEpochTimeMilliseconds`. -/
def setEpochTimeMilliseconds (milliseconds : UInt64) : DateTime :=
  let seconds := milliseconds.toNat / 1000
  let milliseconds := milliseconds.toNat % 1000
  let t := ((null.setSeconds seconds).setMicroSeconds (milliseconds * 1000)).setHasTime
  let t := if seconds > 86400 then t.setHasDate else t
  t.setPrecision (if milliseconds > 0 then 3 else 0)

/-- `mamaDateTime_setEpochTimeMicroseconds`. -/
def setEpochTimeMicroseconds (microseconds : UInt64) : DateTime :=
  let seconds := microseconds.toNat / 1000000
  let microseconds := microseconds.toNat % 1000000
  let t := ((null.setSeconds seconds).setMicroSeconds microseconds).setHasTime
  let t := if seconds > 86400 then t.setHasDate else t
  t.setPrecision (if microseconds > 0 then 6 else 0)

/-- `mamaDateTime_getEpochTimeMicrosecondsWithTz`; the offset of a time zone is added in 64 bits. -/
def getEpochTimeMicrosecondsWithTz (t : DateTime) (tz : Option Int) : Nat :=
  ((1000000 * (t.seconds + tz.getD 0) + t.microSeconds) % 2 ^ 64).toNat

/-- `mamaDateTime_getEpochTimeMicroseconds`. -/
def getEpochTimeMicroseconds (t : DateTime) : Nat := t.getEpochTimeMicrosecondsWithTz none

/-- `mamaDateTime_getEpochTimeMillisecondsWithTz`. -/
def getEpochTimeMillisecondsWithTz (t : DateTime) (tz : Option Int) : Nat :=
  ((1000 * (t.seconds + tz.getD 0) + (t.microSeconds / 1000 : Nat)) % 2 ^ 64).toNat

/-- `mamaDateTime_getEpochTimeMilliseconds`. -/
def getEpochTimeMilliseconds (t : DateTime) : Nat := t.getEpochTimeMillisecondsWithTz none

/-! ## Adding and subtracting -/

/-- The branches of `mamaDateTime_addMicroseconds`: the whole seconds of the sum are added, in 32
bits, and the rest is left.  Division is truncated. -/
def carry (t : DateTime) (sum : Int) : DateTime × Int :=
  if sum ≥ 1000000 then
    (t.addWholeSeconds (Int.bmod (sum.tdiv 1000000) (2 ^ 32)), sum.tmod 1000000)
  else if sum < 0 then
    let t :=
      if sum ≥ -1000000 then t.addWholeSeconds (-1)
      else t.addWholeSeconds (Int.bmod (sum.tdiv 1000000 - 1) (2 ^ 32))
    let rest := sum.tmod 1000000
    (t, if rest < 0 then rest + 1000000 else rest)
  else (t, sum)

/-- `mamaDateTime_addMicroseconds`; the sum wraps in 64 bits. -/
def addMicroseconds (t : DateTime) (addMicroseconds : Int64) : DateTime :=
  if addMicroseconds ≠ 0 then
    let (t, rest) := t.carry (Int.bmod (addMicroseconds.toInt + t.microSeconds) (2 ^ 64))
    (t.clearMicroSeconds.setMicroSeconds rest.toNat).setHasTime
  else t

/-- `mamaDateTime_diffMicroseconds`. -/
def diffMicroseconds (t1 t0 : DateTime) : Int64 :=
  Int64.ofNat t1.getEpochTimeMicroseconds - Int64.ofNat t0.getEpochTimeMicroseconds

/-! ## The getters -/

theorem getEpochTimeMicroseconds_eq (t : DateTime) :
    t.getEpochTimeMicroseconds = 1000000 * t.seconds + t.microSeconds := by
  have hseconds := t.seconds_lt
  have hmicros := t.microSeconds_lt
  unfold getEpochTimeMicroseconds getEpochTimeMicrosecondsWithTz
  simp only [Option.getD_none]
  omega

theorem getEpochTimeMilliseconds_eq (t : DateTime) :
    t.getEpochTimeMilliseconds = 1000 * t.seconds + t.microSeconds / 1000 := by
  have hseconds := t.seconds_lt
  have hmicros := t.microSeconds_lt
  unfold getEpochTimeMilliseconds getEpochTimeMillisecondsWithTz
  simp only [Option.getD_none]
  omega

theorem parts_epoch (seconds : Nat) {micros precision : Nat} (hmicros : micros < 1000000)
    (hprecision : precision < 16) :
    let t := ((null.setSeconds seconds).setMicroSeconds micros).setHasTime
    let u := (if seconds > 86400 then t.setHasDate else t).setPrecision precision
    u.seconds = seconds % 2 ^ 32 ∧ u.microSeconds = micros := by
  intro t u
  have hsmall : micros % 2 ^ 20 = micros := by omega
  have hover : micros / 2 ^ 32 % 2 ^ 32 = 0 := by omega
  have hcut : precision / 16 % 2 ^ 32 = 0 := by omega
  have hu : u.parts.seconds = seconds % 2 ^ 32 ∧ u.parts.microSeconds = micros := by
    rw [parts_setPrecision]
    split <;>
      simp [-Nat.reducePow, t, parts_setHasDate, parts_setHasTime, parts_setMicroSeconds,
        parts_setSeconds, hsmall, hover, hcut]
  exact hu

variable {v : UInt64} {sum : Int}

theorem getEpochTimeMicroseconds_set (hv : v.toNat / 1000000 < 2 ^ 32) :
    (setEpochTimeMicroseconds v).getEpochTimeMicroseconds = v.toNat := by
  have hprecision : (if v.toNat % 1000000 > 0 then 6 else 0) < 16 := by split <;> decide
  obtain ⟨hseconds, hmicros⟩ := parts_epoch (v.toNat / 1000000)
    (Nat.mod_lt v.toNat (by decide : 0 < 1000000)) hprecision
  rw [getEpochTimeMicroseconds_eq]
  unfold setEpochTimeMicroseconds
  dsimp only at hseconds hmicros ⊢
  omega

theorem getEpochTimeMilliseconds_set (hv : v.toNat / 1000 < 2 ^ 32) :
    (setEpochTimeMilliseconds v).getEpochTimeMilliseconds = v.toNat := by
  have hprecision : (if v.toNat % 1000 > 0 then 3 else 0) < 16 := by split <;> decide
  have hless : v.toNat % 1000 * 1000 < 1000000 := by omega
  obtain ⟨hseconds, hmicros⟩ := parts_epoch (v.toNat / 1000) hless hprecision
  rw [getEpochTimeMilliseconds_eq]
  unfold setEpochTimeMilliseconds
  dsimp only at hseconds hmicros ⊢
  omega

/-! ## What is added -/

/-- The epoch microseconds that the seconds of 32 bits can count. -/
def span : Int := 2 ^ 32 * 1000000

/-- The sum of a date-time's microseconds and what is added comes out a second early. -/
def Slips (sum : Int) : Prop := sum ≤ -2000000 ∧ sum % 1000000 = 0

instance (sum : Int) : Decidable (Slips sum) := inferInstanceAs (Decidable (_ ∧ _))

def slip (sum : Int) : Int := if Slips sum then 1 else 0

theorem slip_of_slips (h : Slips sum) : slip sum = 1 := if_pos h

theorem slip_of_not (h : ¬ Slips sum) : slip sum = 0 := if_neg h

variable {a b t : DateTime}

theorem hasDate_of_hint {u : DateTime} (h : u.hint = t.hint ∨ u.hint = t.hint ||| 2) :
    u.hasDate = t.hasDate := by
  rw [hasDate_eq, hasDate_eq]
  rcases h with h | h
  · rw [h]
  · rw [h]; simp

theorem parts_addWholeSeconds (t : DateTime) (addSeconds : Int) :
    (t.addWholeSeconds addSeconds).parts =
      { t.parts with
        seconds := ((t.seconds + addSeconds) % 2 ^ 32).toNat
        hint := if addSeconds ≠ 0 then t.hint ||| 2 else t.hint } := by
  have hlt := t.seconds_lt
  unfold addWholeSeconds
  split
  · next hne =>
    have hwhole : ((t.seconds + addSeconds) % 2 ^ 32).toNat % 2 ^ 32 =
        ((t.seconds + addSeconds) % 2 ^ 32).toNat := by omega
    simp only [parts_setHasTime, parts_setSeconds, parts_clearSeconds, hwhole]
    rfl
  · next hzero =>
    have hsame : ((t.seconds + addSeconds) % 2 ^ 32).toNat = t.seconds := by omega
    rw [hsame]
    rfl

theorem parts_putMicroSeconds (t : DateTime) {n : Nat} (h : n < 1000000) :
    (t.clearMicroSeconds.setMicroSeconds n).setHasTime.parts =
      { t.parts with microSeconds := n, hint := t.hint ||| 2 } := by
  have hsmall : n % 2 ^ 20 = n := by omega
  have hnone : ∀ k, 20 ≤ k → n / 2 ^ k = 0 := by
    intro k hk
    have hpow : 2 ^ 20 ≤ 2 ^ k := Nat.pow_le_pow_right (by decide) hk
    exact Nat.div_eq_of_lt (by omega)
  simp only [parts_setHasTime, parts_setMicroSeconds, parts_clearMicroSeconds, hsmall,
    hnone 24 (by decide), hnone 28 (by decide), hnone 32 (by decide), Nat.zero_mod, Nat.or_zero]
  rfl

theorem or_two_two (n : Nat) : n ||| 2 ||| 2 = n ||| 2 := by rw [Nat.or_assoc, Nat.or_self]

theorem tdiv_million (a : Int) :
    (0 ≤ a → a.tdiv 1000000 = a / 1000000 ∧ a.tmod 1000000 = a % 1000000) ∧
      (a < 0 → a.tdiv 1000000 = -(-a / 1000000) ∧ a.tmod 1000000 = -(-a % 1000000)) := by
  refine ⟨fun h => ⟨Int.tdiv_eq_ediv_of_nonneg h, Int.tmod_eq_emod_of_nonneg h⟩, fun h => ?_⟩
  have hpos : 0 ≤ -a := by omega
  constructor
  · rw [← Int.tdiv_eq_ediv_of_nonneg hpos, Int.neg_tdiv, Int.neg_neg]
  · rw [← Int.tmod_eq_emod_of_nonneg hpos, Int.neg_tmod, Int.neg_neg]

theorem add_bmod (a b : Int) : (a + Int.bmod b (2 ^ 32)) % 2 ^ 32 = (a + b) % 2 ^ 32 := by
  have h := Int.bmod_emod (x := b) (m := 2 ^ 32)
  omega

theorem carry_spec (t : DateTime) (sum : Int) :
    (t.carry sum).2 = sum % 1000000 ∧
      ((t.carry sum).1.hint = t.hint ∨ (t.carry sum).1.hint = t.hint ||| 2) ∧
      (t.carry sum).1.precision = t.precision ∧
      (t.carry sum).1.seconds = ((t.seconds + sum / 1000000 - slip sum) % 2 ^ 32).toNat := by
  have hlt := t.seconds_lt
  have hadd : ∀ s : Int, ((t.addWholeSeconds s).hint = t.hint ∨
      (t.addWholeSeconds s).hint = t.hint ||| 2) ∧
      (t.addWholeSeconds s).precision = t.precision ∧
      (t.addWholeSeconds s).seconds = ((t.seconds + s) % 2 ^ 32).toNat := by
    intro s
    obtain ⟨hseconds, -, hprecision, hhint⟩ := Parts.mk.inj (parts_addWholeSeconds t s)
    refine ⟨?_, hprecision, hseconds⟩
    rw [hhint]
    split
    · exact .inr rfl
    · exact .inl rfl
  obtain ⟨hpos, hneg⟩ := tdiv_million sum
  unfold carry
  by_cases hlarge : sum ≥ 1000000
  · obtain ⟨hdiv, hmod⟩ := hpos (by omega)
    have hnot : ¬ Slips sum := fun h => by
      have hle := h.1
      omega
    obtain ⟨hhint, hprecision, hseconds⟩ := hadd (Int.bmod (sum.tdiv 1000000) (2 ^ 32))
    rw [if_pos hlarge, slip_of_not hnot]
    refine ⟨hmod, hhint, hprecision, hseconds.trans ?_⟩
    rw [add_bmod, hdiv, Int.sub_zero]
  rw [if_neg hlarge]
  by_cases hnegative : sum < 0
  · obtain ⟨hdiv, hmod⟩ := hneg hnegative
    rw [if_pos hnegative]
    have hrest : (if sum.tmod 1000000 < 0 then sum.tmod 1000000 + 1000000 else sum.tmod 1000000) =
        sum % 1000000 := by
      split <;> omega
    refine ⟨hrest, ?_⟩
    by_cases hone : sum ≥ -1000000
    · have hnot : ¬ Slips sum := fun h => by
        have hle := h.1
        omega
      obtain ⟨hhint, hprecision, hseconds⟩ := hadd (-1)
      rw [if_pos hone, slip_of_not hnot]
      refine ⟨hhint, hprecision, hseconds.trans ?_⟩
      have hquotient : sum / 1000000 = -1 := by omega
      rw [hquotient, Int.sub_zero]
    obtain ⟨hhint, hprecision, hseconds⟩ := hadd (Int.bmod (sum.tdiv 1000000 - 1) (2 ^ 32))
    rw [if_neg hone]
    refine ⟨hhint, hprecision, hseconds.trans ?_⟩
    rw [add_bmod]
    by_cases hslips : Slips sum
    · rw [slip_of_slips hslips]
      obtain ⟨-, hmultiple⟩ := hslips
      omega
    · rw [slip_of_not hslips]
      have hrest' : sum % 1000000 ≠ 0 := fun h => hslips ⟨by omega, h⟩
      omega
  have hnot : ¬ Slips sum := fun h => by
    have hle := h.1
    omega
  rw [if_neg hnegative, slip_of_not hnot]
  refine ⟨?_, .inl rfl, rfl, ?_⟩
  · show sum = sum % 1000000; omega
  · show t.seconds = _; omega

section

variable (hm : t.microSeconds < 1000000)

include hm

variable {d : Int64}

/-- **What `addMicroseconds` leaves**, where the sum does not overflow. -/
theorem addMicroseconds_spec (hlow : -2 ^ 62 ≤ d.toInt) (hhigh : d.toInt ≤ 2 ^ 62) :
    (t.addMicroseconds d).seconds = ((t.seconds + (t.microSeconds + d.toInt) / 1000000 -
        slip (t.microSeconds + d.toInt)) % 2 ^ 32).toNat ∧
      (t.addMicroseconds d).microSeconds = ((t.microSeconds + d.toInt) % 1000000).toNat ∧
      (t.addMicroseconds d).precision = t.precision ∧
      (t.addMicroseconds d).hasDate = t.hasDate := by
  have hlt := t.seconds_lt
  unfold addMicroseconds
  by_cases hd : d = 0
  · have hzero : d.toInt = 0 := by
      rw [hd]; rfl
    have hnot : ¬ Slips (t.microSeconds + d.toInt) := fun h => by
      have hle := h.1
      omega
    rw [if_neg (not_not_intro hd), slip_of_not hnot]
    refine ⟨?_, ?_, rfl, rfl⟩
    · omega
    · omega
  have hsum : Int.bmod (d.toInt + t.microSeconds) (2 ^ 64) = t.microSeconds + d.toInt := by
    rw [Int.bmod_eq_of_le (by omega) (by omega), Int.add_comm]
  rw [if_pos hd, hsum]
  obtain ⟨hrest, hhint, hprecision, hseconds⟩ := carry_spec t (t.microSeconds + d.toInt)
  have hsmall : (t.carry (t.microSeconds + d.toInt)).2.toNat < 1000000 := by omega
  obtain ⟨hs, hmicros, hp, hh⟩ := Parts.mk.inj
    (parts_putMicroSeconds (t.carry (t.microSeconds + d.toInt)).1 hsmall)
  refine ⟨hs.trans hseconds, hmicros.trans (by rw [hrest]), hp.trans hprecision, ?_⟩
  refine hasDate_of_hint (.inr (hh.trans ?_))
  rcases hhint with hhint | hhint
  · exact congrArg (· ||| 2) hhint
  · exact (congrArg (· ||| 2) hhint).trans (or_two_two t.hint)

theorem epoch_addMicroseconds (hlow : -2 ^ 62 ≤ d.toInt) (hhigh : d.toInt ≤ 2 ^ 62) :
    ((t.addMicroseconds d).getEpochTimeMicroseconds : Int) =
      (t.getEpochTimeMicroseconds + d.toInt - 1000000 * slip (t.microSeconds + d.toInt)) %
        span := by
  obtain ⟨hseconds, hmicros, -, -⟩ := addMicroseconds_spec hm hlow hhigh
  rw [getEpochTimeMicroseconds_eq, getEpochTimeMicroseconds_eq, span]
  omega

theorem getEpochTimeMicroseconds_lt : (t.getEpochTimeMicroseconds : Int) < span := by
  have hlt := t.seconds_lt
  rw [getEpochTimeMicroseconds_eq, span]
  omega

/-- The result is a time that 32 bits of seconds can tell. -/
def InRange (t : DateTime) (delta : Int) : Prop :=
  0 ≤ t.getEpochTimeMicroseconds + delta ∧ t.getEpochTimeMicroseconds + delta < span

instance (t : DateTime) (delta : Int) : Decidable (t.InRange delta) :=
  inferInstanceAs (Decidable (_ ∧ _))

/-- **What adding is to do.** -/
structure Adds (t : DateTime) (d : Int64) : Prop where
  epoch : ((t.addMicroseconds d).getEpochTimeMicroseconds : Int) =
    t.getEpochTimeMicroseconds + d.toInt
  micros : (t.addMicroseconds d).microSeconds < 1000000
  precision : (t.addMicroseconds d).precision = t.precision
  hasDate : (t.addMicroseconds d).hasDate = t.hasDate

structure Same (t u : DateTime) : Prop where
  epoch : t.getEpochTimeMicroseconds = u.getEpochTimeMicroseconds
  precision : t.precision = u.precision
  hasDate : t.hasDate = u.hasDate

omit hm in
theorem slip_cases (sum : Int) : slip sum = 0 ∨ slip sum = 1 := by
  by_cases h : Slips sum
  · exact .inr (slip_of_slips h)
  · exact .inl (slip_of_not h)

theorem adds_iff_not_slips (hin : t.InRange d.toInt) :
    t.Adds d ↔ ¬ Slips (t.microSeconds + d.toInt) := by
  obtain ⟨hlow, hhigh⟩ := hin
  have hlt := getEpochTimeMicroseconds_lt hm
  unfold span at hlt hhigh
  have hd : -2 ^ 62 ≤ d.toInt := by omega
  have hd' : d.toInt ≤ 2 ^ 62 := by omega
  obtain ⟨-, hmicros, hprecision, hdate⟩ := addMicroseconds_spec hm hd hd'
  have hepoch := epoch_addMicroseconds hm hd hd'
  unfold span at hepoch
  constructor
  · intro h hslips
    rw [h.epoch, slip_of_slips hslips] at hepoch
    omega
  · intro hnot
    rw [slip_of_not hnot] at hepoch
    refine ⟨?_, ?_, hprecision, hdate⟩
    · omega
    · rw [hmicros]; omega

theorem same_iff_slips {a b : Int64} (hin : t.InRange a.toInt)
    (hboth : t.InRange (a.toInt + b.toInt)) :
    Same ((t.addMicroseconds a).addMicroseconds b) (t.addMicroseconds (a + b)) ↔
      slip (t.microSeconds + a.toInt) + slip ((t.microSeconds + a.toInt) % 1000000 + b.toInt) =
        slip (t.microSeconds + (a.toInt + b.toInt)) := by
  obtain ⟨hlow, hhigh⟩ := hin
  obtain ⟨hlow', hhigh'⟩ := hboth
  have hlt := getEpochTimeMicroseconds_lt hm
  unfold span at hlt hhigh hhigh'
  have hsum : (a + b).toInt = a.toInt + b.toInt := by
    rw [Int64.toInt_add, Int.bmod_eq_of_le (by omega) (by omega)]
  have ha : -2 ^ 62 ≤ a.toInt := by omega
  have ha' : a.toInt ≤ 2 ^ 62 := by omega
  obtain ⟨-, hmicros, hprecision, hdate⟩ := addMicroseconds_spec hm ha ha'
  have hm' : (t.addMicroseconds a).microSeconds < 1000000 := by omega
  have hrest : ((t.addMicroseconds a).microSeconds : Int) =
      (t.microSeconds + a.toInt) % 1000000 := by
    omega
  have hb : -2 ^ 62 ≤ b.toInt := by omega
  have hb' : b.toInt ≤ 2 ^ 62 := by omega
  have hab : -2 ^ 62 ≤ (a + b).toInt := by omega
  have hab' : (a + b).toInt ≤ 2 ^ 62 := by omega
  obtain ⟨-, -, hprecision₂, hdate₂⟩ := addMicroseconds_spec hm' hb hb'
  obtain ⟨-, -, hprecision₃, hdate₃⟩ := addMicroseconds_spec hm hab hab'
  have hepoch := epoch_addMicroseconds hm ha ha'
  have hepoch₂ := epoch_addMicroseconds hm' hb hb'
  have hepoch₃ := epoch_addMicroseconds hm hab hab'
  rw [hrest] at hepoch₂
  rw [hsum] at hepoch₃
  have hone := slip_cases (t.microSeconds + a.toInt)
  have htwo := slip_cases ((t.microSeconds + a.toInt) % 1000000 + b.toInt)
  have hall := slip_cases (t.microSeconds + (a.toInt + b.toInt))
  unfold span at hepoch hepoch₂ hepoch₃
  constructor
  · intro h
    have hsame : (((t.addMicroseconds a).addMicroseconds b).getEpochTimeMicroseconds : Int) =
        (t.addMicroseconds (a + b)).getEpochTimeMicroseconds := congrArg _ h.epoch
    omega
  intro h
  refine ⟨?_, ?_, ?_⟩
  · have hsame : (((t.addMicroseconds a).addMicroseconds b).getEpochTimeMicroseconds : Int) =
        (t.addMicroseconds (a + b)).getEpochTimeMicroseconds := by omega
    exact Int.ofNat.inj hsame
  · rw [hprecision₂, hprecision, hprecision₃]
  · rw [hdate₂, hdate, hdate₃]

end

/-- **Adding is exact just if the sum does not slip**, and two additions are one just if as many
slip. -/
theorem adds_iff (t : DateTime) (a : Int64) (hm : t.microSeconds < 1000000)
    (hin : t.InRange a.toInt) :
    (t.Adds a ↔ ¬ Slips (t.microSeconds + a.toInt)) ∧
      ∀ b : Int64, t.InRange (a.toInt + b.toInt) →
        (Same ((t.addMicroseconds a).addMicroseconds b) (t.addMicroseconds (a + b)) ↔
          slip (t.microSeconds + a.toInt) + slip ((t.microSeconds + a.toInt) % 1000000 + b.toInt) =
            slip (t.microSeconds + (a.toInt + b.toInt))) :=
  ⟨adds_iff_not_slips hm hin, fun _ hboth => same_iff_slips hm hin hboth⟩

def tenAndAHalf : DateTime := setEpochTime 10 500000 6

/-- One and a half seconds less, at once and in two steps. -/
theorem adds_tenAndAHalf : tenAndAHalf.Adds (-1500000) ∧
    Same ((tenAndAHalf.addMicroseconds (-1000000)).addMicroseconds (-500000))
      (tenAndAHalf.addMicroseconds (-1000000 + -500000)) :=
  ⟨(adds_iff tenAndAHalf (-1500000) (by decide +kernel) (by decide +kernel)).1.2
      (by decide +kernel),
    ((adds_iff tenAndAHalf (-1000000) (by decide +kernel) (by decide +kernel)).2 (-500000)
      (by decide +kernel)).2 (by decide +kernel)⟩

/-- Two seconds less than ten are seven. -/
theorem not_adds : ¬ ∀ (t : DateTime) (d : Int64), t.microSeconds < 1000000 → t.InRange d.toInt →
    t.Adds d := by
  intro hall
  have hadds := hall (setEpochTime 10 0 0) (-2000000) (by decide +kernel) (by decide +kernel)
  exact absurd hadds.epoch (by decide +kernel)

/-! ## Order and differences -/

section

variable (ha : a.microSeconds < 1000000)

include ha

section

variable (hb : b.microSeconds < 1000000)

include hb

theorem toInt_diffMicroseconds :
    (a.diffMicroseconds b).toInt = a.getEpochTimeMicroseconds - b.getEpochTimeMicroseconds := by
  have hlt := getEpochTimeMicroseconds_lt ha
  have hlt' := getEpochTimeMicroseconds_lt hb
  unfold span at hlt hlt'
  unfold diffMicroseconds
  rw [Int64.toInt_sub, Int64.toInt_ofNat_of_lt (by omega), Int64.toInt_ofNat_of_lt (by omega),
    Int.bmod_eq_of_le (by omega) (by omega)]

theorem compare_eq_sign : a.compare b = (a.diffMicroseconds b).toInt.sign := by
  rw [toInt_diffMicroseconds ha hb, getEpochTimeMicroseconds_eq, getEpochTimeMicroseconds_eq]
  rw [compare, timeOnly_eq, timeOnly_eq]
  split
  · next hgt => rw [Int.sign_eq_one_of_pos]; omega
  · next hle =>
    split
    · next heq => rw [Int.sign_eq_zero_iff_zero.mpr]; omega
    · next hne => rw [Int.sign_eq_neg_one_of_neg]; omega

/-- Adding the difference leads to the other time, unless that is a whole second two or more
seconds before. -/
theorem compare_add_diff_iff : (b.addMicroseconds (a.diffMicroseconds b)).compare a = 0 ↔
    ¬ (a.microSeconds = 0 ∧ a.seconds + 2 ≤ b.seconds) := by
  have hdiff := toInt_diffMicroseconds ha hb
  have hlt := getEpochTimeMicroseconds_lt ha
  have hlt' := getEpochTimeMicroseconds_lt hb
  unfold span at hlt hlt'
  obtain ⟨hseconds, hmicros, -, -⟩ := addMicroseconds_spec (d := a.diffMicroseconds b) hb
    (by omega) (by omega)
  have hs := a.seconds_lt
  rw [getEpochTimeMicroseconds_eq, getEpochTimeMicroseconds_eq] at hdiff
  rw [compare_eq_zero, timeOnly_eq, timeOnly_eq, hseconds]
  by_cases hslips : Slips (b.microSeconds + (a.diffMicroseconds b).toInt)
  · rw [slip_of_slips hslips]
    obtain ⟨hle, hmultiple⟩ := hslips
    refine iff_of_false (fun h => ?_) (not_not_intro ?_)
    · omega
    · omega
  · rw [slip_of_not hslips]
    unfold Slips at hslips
    refine iff_of_true ?_ (fun h => hslips ?_)
    · omega
    · omega

end

end

/-- **Epoch conversions and the order agree**, and a difference that is added leads back just if it
does not slip. -/
theorem order_iff (v : UInt64) (a b c : DateTime) (ha : a.microSeconds < 1000000)
    (hb : b.microSeconds < 1000000) (hc : c.microSeconds < 1000000) :
    (v.toNat / 1000000 < 2 ^ 32 →
      (setEpochTimeMicroseconds v).getEpochTimeMicroseconds = v.toNat) ∧
    (v.toNat / 1000 < 2 ^ 32 →
      (setEpochTimeMilliseconds v).getEpochTimeMilliseconds = v.toNat) ∧
    a.compare b = (a.diffMicroseconds b).toInt.sign ∧
    (a.diffMicroseconds b).toInt + (b.diffMicroseconds c).toInt = (a.diffMicroseconds c).toInt ∧
    ((b.addMicroseconds (a.diffMicroseconds b)).compare a = 0 ↔
      ¬ (a.microSeconds = 0 ∧ a.seconds + 2 ≤ b.seconds)) := by
  refine ⟨fun hv => getEpochTimeMicroseconds_set hv, fun hv => getEpochTimeMilliseconds_set hv,
    compare_eq_sign ha hb, ?_, compare_add_diff_iff ha hb⟩
  rw [toInt_diffMicroseconds ha hb, toInt_diffMicroseconds hb hc, toInt_diffMicroseconds ha hc]
  omega

/-- A time half a second later, one of another precision, and an epoch time there and back. -/
theorem order_tenAndAHalf :
    (setEpochTimeMicroseconds 10500000).getEpochTimeMicroseconds = 10500000 ∧
      (setEpochTimeMilliseconds 10500).getEpochTimeMilliseconds = 10500 ∧
      tenAndAHalf.compare (setEpochTime 10 0 3) =
        (tenAndAHalf.diffMicroseconds (setEpochTime 10 0 3)).toInt.sign ∧
      ((setEpochTime 10 0 3).addMicroseconds
        (tenAndAHalf.diffMicroseconds (setEpochTime 10 0 3))).compare tenAndAHalf = 0 := by
  obtain ⟨hmicros, -, hsign, -, hback⟩ := order_iff 10500000 tenAndAHalf (setEpochTime 10 0 3) null
    (by decide +kernel) (by decide +kernel) (by decide +kernel)
  obtain ⟨-, hmillis, -⟩ := order_iff 10500 null null null (by decide +kernel) (by decide +kernel)
    (by decide +kernel)
  exact ⟨hmicros (by decide), hmillis (by decide), hsign, hback.2 (by decide +kernel)⟩

/-- From ten seconds back to eight it comes to seven. -/
theorem not_order : ¬ ∀ a b : DateTime, a.microSeconds < 1000000 → b.microSeconds < 1000000 →
    (b.addMicroseconds (a.diffMicroseconds b)).compare a = 0 := by
  intro hall
  exact absurd (hall (setEpochTime 8 0 0) (setEpochTime 10 0 0) (by decide +kernel)
    (by decide +kernel)) (by decide +kernel)

end DateTime

end Mama
