import Mathlib.Data.Finset.Max

/-!
# Leaving the field to the greatest

Members with keys in a linear order hear each other's keys, in any order and as often
as it may be; who hears a greater key than its own gives up.  Once everybody has heard
everybody else, just the member with the greatest key is left (`left_iff`).
-/

namespace Lib

variable {ι K : Type} [DecidableEq ι] [LinearOrder K] (key : ι → K)

/-- A member hears a key, and gives up where it is greater than its own. -/
def hear (active : ι → Bool) (e : ι × K) : ι → Bool :=
  Function.update active e.1 (active e.1 && decide (e.2 ≤ key e.1))

theorem foldl_hear (active : ι → Bool) (es : List (ι × K)) (i : ι) : es.foldl (hear key) active i ↔
    active i ∧ ∀ k, (i, k) ∈ es → k ≤ key i := by
  induction es generalizing active with
  | nil => simp
  | cons e es ih =>
    obtain ⟨j, k⟩ := e
    rw [List.foldl_cons, ih]
    by_cases hij : i = j
    · subst hij
      simp only [hear, Function.update_self, Bool.and_eq_true, decide_eq_true_eq, List.mem_cons,
        Prod.mk.injEq, true_and, forall_eq_or_imp]
      rw [and_assoc]
    · have hother : hear key active (j, k) i = active i := Function.update_of_ne hij _ _
      rw [hother]
      refine and_congr_right fun _ => forall_congr' fun l => ?_
      rw [List.mem_cons, or_iff_right fun h => hij (congrArg Prod.fst h)]

/-- **The greatest is left.** -/
theorem left_iff {S : Finset ι} (hS : S.Nonempty) {active : ι → Bool} (hactive : ∀ i ∈ S, active i)
    (hkey : Set.InjOn key S) {es : List (ι × K)}
    (hheard : ∀ i ∈ S, ∀ k, (i, k) ∈ es → ∃ j ∈ S, k = key j)
    (hall : ∀ i ∈ S, ∀ j ∈ S, i ≠ j → (i, key j) ∈ es) : ∃ i ∈ S, (∀ j ∈ S, j ≠ i → key j < key i) ∧
    ∀ j ∈ S, es.foldl (hear key) active j ↔ j = i := by
  obtain ⟨i, hi, hmax⟩ := S.exists_max_image key hS
  refine ⟨i, hi, fun j hj hne => lt_of_le_of_ne (hmax j hj) fun h => hne (hkey hj hi h),
    fun j hj => ?_⟩
  rw [foldl_hear]
  constructor
  · rintro ⟨-, hle⟩
    by_contra hne
    have hge := hle (key i) (hall j hj i hi hne)
    exact hne (hkey hj hi (le_antisymm (hmax j hj) hge))
  · rintro rfl
    refine ⟨hactive j hj, fun k hk => ?_⟩
    obtain ⟨l, hl, rfl⟩ := hheard j hj k hk
    exact hmax l hl

end Lib
