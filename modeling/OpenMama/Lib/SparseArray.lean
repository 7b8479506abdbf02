import Mathlib.Data.List.ReduceOption

/-!
# Sparse arrays

An array has a value in some of its slots.  The values in the order of their slots are
`List.reduceOption`; here is how they change when a slot is set and when the array grows, and
that they are in the order of their keys if each value is in the slot of its key.
-/

namespace Lib

open List

variable {α : Type} {slots : List (Option α)} {i : Nat} {x y : α}

theorem exists_split_of_slot {o : Option α} (h : slots[i]? = some o) :
    ∃ before after, slots = before ++ o :: after ∧ before.length = i := by
  obtain ⟨hlt, ho⟩ := List.getElem?_eq_some_iff.1 h
  refine ⟨slots.take i, slots.drop (i + 1), ?_, length_take_of_le (Nat.le_of_lt hlt)⟩
  rw [← ho, ← drop_eq_getElem_cons hlt, take_append_drop]

theorem set_split {before after : List (Option α)} {o p : Option α} :
    (before ++ o :: after).set before.length p = before ++ p :: after := by
  rw [set_append_right _ _ (Nat.le_refl _), Nat.sub_self]
  rfl

theorem reduceOption_set_none (h : slots[i]? = some none) (x : α) :
    (slots.set i (some x)).reduceOption.Perm (x :: slots.reduceOption) := by
  obtain ⟨before, after, rfl, rfl⟩ := exists_split_of_slot h
  rw [set_split, reduceOption_append, reduceOption_append]
  exact perm_middle

theorem length_reduceOption_set_some (h : slots[i]? = some (some y)) (x : α) :
    (slots.set i (some x)).reduceOption.length = slots.reduceOption.length := by
  obtain ⟨before, after, rfl, rfl⟩ := exists_split_of_slot h
  rw [set_split, reduceOption_append, reduceOption_append]
  simp

theorem reduceOption_grow (slots : List (Option α)) (n : Nat) :
    (slots ++ List.replicate n none).reduceOption = slots.reduceOption := by
  rw [reduceOption_append, reduceOption_replicate_none, append_nil]

theorem mem_reduceOption : x ∈ slots.reduceOption ↔ ∃ i : Nat, slots[i]? = some (some x) := by
  rw [reduceOption_mem_iff, mem_iff_getElem?]

def Placed (key : α → Nat) (slots : List (Option α)) : Prop :=
  ∀ i x, slots[i]? = some (some x) → key x = i

variable {key : α → Nat}

theorem Placed.replicate (n : Nat) : Placed key (List.replicate n none) := by
  intro i x h
  obtain ⟨_, h⟩ := List.getElem?_eq_some_iff.1 h
  rw [getElem_replicate] at h
  cases h

section

variable (h : Placed key slots)

include h

theorem Placed.set (x : α) : Placed key (slots.set (key x) (some x)) := by
  intro i y hy
  rw [getElem?_set] at hy
  split at hy
  · next heq =>
    split at hy
    · cases Option.some.inj hy; exact heq
    · cases hy
  · exact h i y hy

theorem Placed.grow (n : Nat) : Placed key (slots ++ List.replicate n none) := by
  intro i x hx
  rw [getElem?_append] at hx
  split at hx
  · exact h i x hx
  · exact absurd hx fun hx => by
      obtain ⟨_, hx⟩ := List.getElem?_eq_some_iff.1 hx
      rw [getElem_replicate] at hx
      cases hx

theorem Placed.pairwise : slots.reduceOption.Pairwise fun x y => key x < key y := by
  have hfrom : ∀ (rest before : List (Option α)), slots = before ++ rest →
      rest.reduceOption.Pairwise fun x y => key x < key y := by
    intro rest
    induction rest with
    | nil => exact fun _ _ => List.Pairwise.nil
    | cons o rest ih =>
      intro before hsplit
      have htail := ih (before ++ [o]) (by rw [hsplit, append_assoc]; rfl)
      cases o with
      | none => exact htail
      | some x =>
        refine List.pairwise_cons.mpr ⟨fun y hy => ?_, htail⟩
        obtain ⟨j, hj⟩ := mem_reduceOption.mp hy
        have hx : key x = before.length := by
          refine h _ x ?_
          rw [hsplit]
          simp
        have hy' : key y = before.length + (j + 1) := by
          refine h _ y ?_
          rwa [hsplit, getElem?_append_right (Nat.le_add_right _ _), Nat.add_sub_cancel_left]
        omega
  exact hfrom slots [] rfl

theorem Placed.slot_eq_none_iff (hi : i < slots.length) :
    slots[i]? = some none ↔ ∀ x ∈ slots.reduceOption, key x ≠ i := by
  constructor
  · rintro hnone x hx rfl
    obtain ⟨j, hj⟩ := mem_reduceOption.mp hx
    rw [h j x hj, hj] at hnone
    cases hnone
  · intro hkeys
    cases hslot : slots[i] with
    | none => rw [getElem?_eq_getElem hi, hslot]
    | some x =>
      have hx : slots[i]? = some (some x) := by rw [getElem?_eq_getElem hi, hslot]
      exact absurd (h i x hx) (hkeys x (mem_reduceOption.mpr ⟨i, hx⟩))

theorem Placed.slot_eq_some_iff : slots[key x]? = some (some x) ↔ x ∈ slots.reduceOption := by
  rw [mem_reduceOption]
  constructor
  · exact fun hx => ⟨_, hx⟩
  · rintro ⟨j, hj⟩
    rwa [h j x hj]

end

end Lib
