import Mathlib.Data.List.Basic

/-!
# A cursor in a list that changes

A cursor splits a list in what it has passed and what is ahead of it.  Elements come and go on
either side (`SameSides`), and the cursor moves on by one.  A walk records what was in the list
from its start on and what the cursor came to: what stays all the time is met once and in
order (`Walk.At.all`).
-/

namespace Lib

open List

variable {α : Type} [DecidableEq α] {xs ys xs' ys' a b l : List α} {e : α}

/-- What is in both splits of a list is on the same side and in the same order. -/
structure SameSides (xs ys xs' ys' : List α) : Prop where
  behind : xs.filter (· ∈ xs' ++ ys') = xs'.filter (· ∈ xs ++ ys)
  ahead : ys.filter (· ∈ xs' ++ ys') = ys'.filter (· ∈ xs ++ ys)

theorem SameSides.refl (xs ys : List α) : SameSides xs ys xs ys := ⟨rfl, rfl⟩

theorem SameSides.symm (h : SameSides xs ys xs' ys') : SameSides xs' ys' xs ys :=
  ⟨h.behind.symm, h.ahead.symm⟩

theorem filter_mem_of_subset (h : ∀ u ∈ xs, u ∈ l) : xs.filter (· ∈ l) = xs :=
  List.filter_eq_self.2 fun u hu => decide_eq_true (h u hu)

theorem filter_insert (he : e ∉ l) (h : ∀ u ∈ a ++ b, u ∈ l) :
    (a ++ e :: b).filter (· ∈ l) = a ++ b := by
  have hnone : (e :: b).filter (· ∈ l) = b.filter (· ∈ l) :=
    filter_cons_of_neg (by simpa using he)
  rw [filter_append, hnone,
    filter_mem_of_subset fun u hu => h u (mem_append_left _ hu),
    filter_mem_of_subset fun u hu => h u (mem_append_right _ hu)]

theorem SameSides.insert_behind (he : e ∉ a ++ b ++ ys) :
    SameSides (a ++ b) ys (a ++ e :: b) ys where
  behind := by
    rw [filter_insert he fun u hu => mem_append_left ys hu, filter_mem_of_subset]
    intro u hu
    simp only [mem_append] at hu ⊢
    tauto
  ahead := by
    rw [filter_mem_of_subset fun u hu => mem_append_right _ hu,
      filter_mem_of_subset fun u hu => mem_append_right _ hu]

theorem SameSides.insert_ahead (he : e ∉ xs ++ (a ++ b)) :
    SameSides xs (a ++ b) xs (a ++ e :: b) where
  behind := by
    rw [filter_mem_of_subset fun u hu => mem_append_left _ hu,
      filter_mem_of_subset fun u hu => mem_append_left _ hu]
  ahead := by
    rw [filter_insert he fun u hu => mem_append_right xs hu, filter_mem_of_subset]
    intro u hu
    simp only [mem_append] at hu ⊢
    tauto

theorem SameSides.append_ahead (he : e ∉ xs ++ ys) : SameSides xs ys xs (ys ++ [e]) := by
  have hfollows : SameSides xs (ys ++ []) xs (ys ++ [e]) := insert_ahead (by rwa [append_nil])
  rwa [append_nil] at hfollows

theorem SameSides.append_behind (he : e ∉ xs) : SameSides xs [] (xs ++ [e]) [] := by
  have hfollows : SameSides (xs ++ []) [] (xs ++ [e]) [] :=
    insert_behind (by rwa [append_nil, append_nil])
  rwa [append_nil] at hfollows

/-- What was in the list from the start on, and what the cursor came to. -/
structure Walk (α : Type) where
  present : List α
  visited : List α := []
  deriving DecidableEq, Repr

namespace Walk

variable {k : Walk α}

def keep (k : Walk α) (l : List α) : Walk α := { k with present := k.present.filter (· ∈ l) }

def visit (k : Walk α) (e : α) : Walk α := { k with visited := k.visited ++ [e] }

structure At (k : Walk α) (xs ys : List α) : Prop where
  present : (xs ++ ys).filter (· ∈ k.present) = k.present
  visited : k.visited.filter (· ∈ k.present) = xs.filter (· ∈ k.present)

theorem At.start (l : List α) : (⟨l, []⟩ : Walk α).At [] l :=
  ⟨filter_mem_of_subset fun _ => id, rfl⟩

theorem At.visit (h : k.At xs (e :: ys)) : (k.visit e).At (xs ++ [e]) ys where
  present := by
    rw [append_assoc]; exact h.present
  visited := by
    show (k.visited ++ [e]).filter (· ∈ k.present) = (xs ++ [e]).filter (· ∈ k.present)
    rw [filter_append, filter_append, h.visited]

theorem filter_filter_of_subset {l' : List α} (h : ∀ u ∈ l', u ∈ l) (xs : List α) :
    (xs.filter (· ∈ l)).filter (· ∈ l') = xs.filter (· ∈ l') := by
  rw [filter_filter]
  refine filter_congr fun u _ => ?_
  by_cases hu : u ∈ l'
  · simp [h u hu]
  · simp [hu]

theorem At.follow (h : k.At xs ys) (hfollows : SameSides xs ys xs' ys') :
    (k.keep (xs' ++ ys')).At xs' ys' := by
  have hold : ∀ u ∈ (k.keep (xs' ++ ys')).present, u ∈ k.present := fun u hu => mem_of_mem_filter hu
  have hlist : ∀ u ∈ (k.keep (xs' ++ ys')).present, u ∈ xs ++ ys := fun u hu => by
    have hmem := hold u hu
    rw [← h.present] at hmem
    exact mem_of_mem_filter hmem
  have hnew : ∀ u ∈ (k.keep (xs' ++ ys')).present, u ∈ xs' ++ ys' := fun u hu =>
    of_decide_eq_true (List.mem_filter.1 hu).2
  have hbehind : xs'.filter (· ∈ (k.keep (xs' ++ ys')).present) =
      xs.filter (· ∈ (k.keep (xs' ++ ys')).present) := by
    rw [← filter_filter_of_subset hlist xs', ← filter_filter_of_subset hnew xs, hfollows.behind]
  have hahead : ys'.filter (· ∈ (k.keep (xs' ++ ys')).present) =
      ys.filter (· ∈ (k.keep (xs' ++ ys')).present) := by
    rw [← filter_filter_of_subset hlist ys', ← filter_filter_of_subset hnew ys, hfollows.ahead]
  constructor
  · rw [filter_append, hbehind, hahead, ← filter_append, ← filter_filter_of_subset hold, h.present]
    show k.present.filter (· ∈ k.present.filter (· ∈ xs' ++ ys')) =
      k.present.filter (· ∈ xs' ++ ys')
    refine filter_congr fun u hu => ?_
    simp [hu]
  · rw [hbehind]
    show k.visited.filter (· ∈ (k.keep (xs' ++ ys')).present) = _
    rw [← filter_filter_of_subset hold, h.visited, filter_filter_of_subset hold]

/-- **What is there all the time** is met once and in order: some of it is behind the cursor, and
the rest is ahead. -/
theorem At.all (h : k.At xs ys) : (k.visited ++ ys).filter (· ∈ k.present) = k.present := by
  rw [filter_append, h.visited, ← filter_append, h.present]

end Walk

end Lib
