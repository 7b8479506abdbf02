import Mathlib.Order.Lattice
import Mathlib.Data.List.Basic

/-!
# Sets kept in order by a comparator

`insertBy less` is `std::set::insert`: the element goes before the first one it
is less than, and stays out when an equivalent one is there.  A comparator is
used through a key in a linear order (`Keyed`); two elements are equivalent when
their keys are equal.
-/

namespace Lib

open List

variable {α κ : Type}

/-- `set::insert` on the elements in order. -/
def insertBy (less : α → α → Bool) (a : α) : List α → List α
  | [] => [a]
  | b :: l =>
    if less a b then a :: b :: l
    else if less b a then b :: insertBy less a l
    else b :: l

variable [LinearOrder κ]

def Keyed (less : α → α → Bool) (key : α → κ) : Prop :=
  ∀ a b, less a b ↔ key a < key b

/-- In order of the keys, so no two elements are equivalent. -/
def Ordered (key : α → κ) (l : List α) : Prop :=
  l.Pairwise fun a b => key a < key b

variable {less : α → α → Bool} {a b : α} {l : List α}

theorem mem_of_mem_insertBy (hb : b ∈ insertBy less a l) : b = a ∨ b ∈ l := by
  induction l with
  | nil => simpa [insertBy] using hb
  | cons c l ih =>
    simp only [insertBy] at hb
    split at hb
    · exact mem_cons.mp hb
    · split at hb
      · rcases mem_cons.mp hb with hb | hb
        · exact .inr (hb ▸ mem_cons_self)
        · exact (ih hb).imp_right (mem_cons_of_mem _)
      · exact .inr hb

theorem mem_insertBy_of_mem (hb : b ∈ l) : b ∈ insertBy less a l := by
  induction l with
  | nil => cases hb
  | cons c l ih =>
    simp only [insertBy]
    split
    · exact mem_cons_of_mem _ hb
    · split
      · rcases mem_cons.mp hb with hb | hb
        · exact hb ▸ mem_cons_self
        · exact mem_cons_of_mem _ (ih hb)
      · exact hb

namespace Keyed

variable {key : α → κ} (h : Keyed less key)

include h

theorem exists_key_insertBy : ∃ b ∈ insertBy less a l, key b = key a := by
  induction l with
  | nil => exact ⟨a, by simp [insertBy], rfl⟩
  | cons c l ih =>
    simp only [insertBy]
    split
    · exact ⟨a, mem_cons_self, rfl⟩
    · next hac =>
      split
      · obtain ⟨b, hb, hkey⟩ := ih
        exact ⟨b, mem_cons_of_mem _ hb, hkey⟩
      · next hca =>
        rw [h] at hac hca; exact ⟨c, mem_cons_self, le_antisymm (not_lt.mp hac) (not_lt.mp hca)⟩

theorem mem_insertBy_self (hnew : ∀ b ∈ l, key b ≠ key a) : a ∈ insertBy less a l := by
  obtain ⟨b, hb, hkey⟩ := @exists_key_insertBy _ _ _ _ a l _ h
  rcases mem_of_mem_insertBy hb with rfl | hb'
  · exact hb
  · exact absurd hkey (hnew b hb')

theorem ordered_insertBy (hl : Ordered key l) : Ordered key (insertBy less a l) := by
  induction l with
  | nil => simp [insertBy, Ordered]
  | cons c l ih =>
    obtain ⟨hhead, htail⟩ := pairwise_cons.mp hl
    simp only [insertBy]
    split
    · next hac =>
      rw [h] at hac
      refine pairwise_cons.mpr ⟨fun b hb => ?_, hl⟩
      rcases mem_cons.mp hb with rfl | hb
      · exact hac
      · exact hac.trans (hhead b hb)
    split
    · next hca =>
      rw [h] at hca
      refine pairwise_cons.mpr ⟨fun b hb => ?_, ih htail⟩
      rcases mem_of_mem_insertBy hb with rfl | hb
      · exact hca
      · exact hhead b hb
    · exact hl

theorem mem_insertBy (hnew : ∀ b ∈ l, key b ≠ key a) : b ∈ insertBy less a l ↔ b = a ∨ b ∈ l := by
  constructor
  · exact mem_of_mem_insertBy
  · rintro (rfl | hb)
    · exact h.mem_insertBy_self hnew
    · exact mem_insertBy_of_mem hb

theorem mem_insertBy_of_injective (hkey : Function.Injective key) :
    b ∈ insertBy less a l ↔ b = a ∨ b ∈ l := by
  constructor
  · exact mem_of_mem_insertBy
  · rintro (rfl | hb)
    · obtain ⟨c, hc, hcb⟩ := @exists_key_insertBy _ _ _ _ b l _ h
      exact hkey hcb ▸ hc
    · exact mem_insertBy_of_mem hb

end Keyed

theorem Ordered.key_injOn {key : α → κ} {l : List α} (hl : Ordered key l) {a b : α}
    (ha : a ∈ l) (hb : b ∈ l) (hkey : key a = key b) : a = b := by
  induction l with
  | nil => cases ha
  | cons c l ih =>
    obtain ⟨hhead, htail⟩ := pairwise_cons.mp hl
    rcases mem_cons.mp ha with hac | ha
    · rcases mem_cons.mp hb with hbc | hb
      · rw [hac, hbc]
      · exact absurd hkey (hac ▸ (hhead b hb).ne)
    · rcases mem_cons.mp hb with hbc | hb
      · exact absurd hkey (hbc ▸ (hhead a ha).ne')
      · exact ih htail ha hb

end Lib
