import Mathlib.Algebra.Order.Ring.Int

/-!
# `mamaDateTime`: the packed time word

A date-time is one 64-bit word (`datetimeimpl.h`): seconds in the high half,
then precision, hints and microseconds.  Only what the order books read of it
is here: whether it is set (`empty`) and has its time part (`hasTime`), and the
comparison, which looks at the seconds and microseconds alone (`timeOnly`).
-/

namespace Mama

/-- `mama_time_t`. -/
structure DateTime where
  word : BitVec 64
  deriving DecidableEq, Repr

namespace DateTime

/-- `MAMA_TIME_IMPL_MASK_TIME_ONLY`. -/
def maskTimeOnly : BitVec 64 := 0xffffffff000fffff#64

/-- `mamaDateTimeImpl_clear`. -/
def null : DateTime := ⟨0#64⟩

instance : Inhabited DateTime := ⟨null⟩

/-- `mamaDateTimeImpl_empty`. -/
def empty (t : DateTime) : Bool := t.word == 0#64

/-- `mamaDateTimeImpl_getTimeOnly`. -/
def timeOnly (t : DateTime) : Nat := (t.word &&& maskTimeOnly).toNat

/-- `mamaDateTime_compare`. -/
def compare (lhs rhs : DateTime) : Int :=
  if lhs.timeOnly > rhs.timeOnly then 1
  else if lhs.timeOnly = rhs.timeOnly then 0
  else -1

/-- `MAMA_TIME_IMPL_BIT_HAS_TIME`. -/
def bitHasTime : BitVec 64 := 0x0000000002000000#64

/-- `mamaDateTimeImpl_getHasTime`. -/
def hasTime (t : DateTime) : Bool := (t.word &&& bitHasTime) != 0#64

/-- Seconds and microseconds, with no precision and no hints. -/
def ofTime (seconds micros : Nat) : DateTime :=
  ⟨BitVec.ofNat 64 (seconds * 2 ^ 32 + micros % 2 ^ 20)⟩

@[simp] theorem empty_null : null.empty := rfl

@[simp] theorem timeOnly_null : null.timeOnly = 0 := rfl

theorem empty_iff (t : DateTime) : t.empty ↔ t = null := by
  cases t
  simp [empty, null]

theorem compare_eq_zero (lhs rhs : DateTime) :
    lhs.compare rhs = 0 ↔ lhs.timeOnly = rhs.timeOnly := by
  unfold compare
  constructor
  · intro h
    split at h
    · omega
    · split at h <;> omega
  · intro h
    rw [if_neg (by omega), if_pos h]

theorem compare_pos (lhs rhs : DateTime) : 0 < lhs.compare rhs ↔ rhs.timeOnly < lhs.timeOnly := by
  unfold compare
  constructor
  · intro h
    split at h
    · assumption
    · split at h <;> omega
  · intro h
    rw [if_pos h]
    decide

end DateTime

end Mama
