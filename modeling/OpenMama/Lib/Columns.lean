import Mathlib.Data.List.Basic

/-!
# Rows written over append-only cells

A row of cells is written item by item: the item at position `k` goes to the end
of cell `k`.  When several rows are written over the same cells, cell `k` holds
the items the rows had at position `k`, one after the other (`column`).  So the
cells show the last row as it is only where no row before it reached
(`columns_concat_eq_iff`).
-/

namespace Lib

open List

variable {α : Type}

/-- What cell `k` holds after these rows. -/
def column (rows : List (List (List α))) (k : Nat) : List α :=
  rows.flatMap fun row => row[k]?.getD []

/-- The first `n` cells after these rows. -/
def columns (rows : List (List (List α))) (n : Nat) : List (List α) :=
  (List.range n).map (column rows)

section

variable (rows : List (List (List α)))

theorem column_concat (row : List (List α)) (k : Nat) :
    column (rows ++ [row]) k = column rows k ++ row[k]?.getD [] := by
  simp [column]

@[simp] theorem length_columns (n : Nat) : (columns rows n).length = n := by
  simp [columns]

theorem getElem?_columns (n k : Nat) :
    (columns rows n)[k]? = if k < n then some (column rows k) else none := by
  by_cases hk : k < n <;> simp [columns, hk]

theorem take_columns {m n : Nat} (h : m ≤ n) : (columns rows n).take m = columns rows m := by
  simp [columns, ← map_take, h]

omit rows in
theorem column_eq_nil {rows : List (List (List α))} {k : Nat} (h : ∀ row ∈ rows, row.length ≤ k) :
    column rows k = [] := by
  refine List.flatMap_eq_nil_iff.mpr fun row hrow => ?_
  rw [getElem?_eq_none (h row hrow)]
  rfl

theorem column_item (row : List (List α)) (c : List α) (k : Nat) :
    column (rows ++ [row ++ [c]]) k =
      if k = row.length then column (rows ++ [row]) k ++ c else column (rows ++ [row]) k := by
  rw [column_concat, column_concat]
  rcases Nat.lt_trichotomy k row.length with hk | rfl | hk
  · rw [if_neg (by omega), getElem?_append_left hk]
  · rw [if_pos rfl]; simp
  · rw [if_neg (by omega), getElem?_eq_none (by simp; omega), getElem?_eq_none (by omega)]

theorem columns_item (row : List (List α)) (c : List α) (n : Nat) :
    columns (rows ++ [row ++ [c]]) n =
      (columns (rows ++ [row]) n).set row.length (column (rows ++ [row]) row.length ++ c) := by
  apply ext_getElem
  · simp
  · intro k h₁ h₂
    simp only [columns, getElem_map, getElem_range, column_item, getElem_set]
    by_cases hk : k = row.length
    · rw [if_pos hk, if_pos hk.symm, hk]
    · rw [if_neg hk, if_neg (Ne.symm hk)]

theorem columns_nil (n : Nat) : columns (rows ++ [[]]) n = columns rows n := by
  apply map_congr_left
  intro k _
  rw [column_concat]
  simp

end

/-- The first cell holds something before the last row is written, if a row before it has an
item. -/
theorem column_zero_ne_nil {rows : List (List (List α))} {row : List (List α)} (hrow : row ∈ rows)
    (hne : row ≠ []) (hfull : ∀ c ∈ row, c ≠ []) : column rows 0 ≠ [] := by
  intro hnil
  have hzero := List.flatMap_eq_nil_iff.mp hnil row hrow
  cases row with
  | nil => exact hne rfl
  | cons c row => exact hfull c mem_cons_self hzero

theorem columns_concat_eq_iff {rows : List (List (List α))} (row : List (List α))
    (hfull : ∀ r ∈ rows, ∀ c ∈ r, c ≠ []) :
    columns (rows ++ [row]) row.length = row ↔ row = [] ∨ ∀ r ∈ rows, r = [] := by
  constructor
  · intro heq
    cases row with
    | nil => exact .inl rfl
    | cons c row =>
      refine .inr fun r hr => ?_
      by_contra hne
      have hzero : (columns (rows ++ [c :: row]) (c :: row).length)[0]? = some c := by
        rw [heq]; rfl
      rw [getElem?_columns, column_concat] at hzero
      have hc : column rows 0 ++ c = c := Option.some.inj hzero
      have hnil : column rows 0 = [] := List.append_left_eq_self.mp hc
      exact column_zero_ne_nil hr hne (hfull r hr) hnil
  rintro (rfl | hempty)
  · rfl
  · apply ext_getElem
    · simp
    · intro k h₁ h₂
      have hnil : column rows k = [] := column_eq_nil fun r hr => by simp [hempty r hr]
      simp only [columns, getElem_map, getElem_range, column_concat, hnil]
      simp [getElem?_eq_getElem h₂]

end Lib
